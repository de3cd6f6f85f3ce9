import ArenaLisp.Environment
import ArenaLisp.Proofs.Arena.Soundness

/-!
# Computations that take cells

What the computations on a sound arena come to: they keep it sound and leave alone what was handed
out before, whether they succeed or run out of room halfway (`Grows`). The environment that a call
builds is one of fresh list cells and fresh bindings on top of the caller's (`Layered`).
-/

namespace ArenaLisp

namespace Storing

variable {α β : Type}

/-- Every outcome of a computation on an arena satisfies one of two conditions, on the answer or on
the fault. -/
def Ensures (f : Storing α) (a : Arena) (Q : α → Arena → Prop) (E : Fault → Arena → Prop) : Prop :=
  match f.run a with
  | (.ok v, b) => Q v b
  | (.error fault, b) => E fault b

variable {a : Arena} {E E' : Fault → Arena → Prop}

theorem ensures_get {Q : Arena → Arena → Prop} : Ensures get a Q E ↔ Q a a := Iff.rfl

theorem run_bind (f : Storing α) (g : α → Storing β) (a : Arena) :
    (f >>= g).run a = match f.run a with
      | (.ok v, b) => (g v).run b
      | (.error fault, b) => (.error fault, b) := by
  show (ExceptT.bind f g).run a = _
  simp only [ExceptT.bind, ExceptT.run, ExceptT.mk, bind, StateT.bind]
  rcases f a with ⟨_ | _, _⟩ <;> rfl

theorem ensures_bind {f : Storing α} {g : α → Storing β} {Q : β → Arena → Prop} :
    Ensures (f >>= g) a Q E ↔ Ensures f a (fun v b => Ensures (g v) b Q E) E := by
  simp only [Ensures, run_bind]
  rcases f.run a with ⟨_ | _, _⟩ <;> rfl

theorem ensures_map {f : Storing α} {g : α → β} {Q : β → Arena → Prop} :
    Ensures (g <$> f) a Q E ↔ Ensures f a (fun v b => Q (g v) b) E := by
  rw [map_eq_pure_bind, ensures_bind]
  rfl

theorem Ensures.mono {f : Storing α} {Q Q' : α → Arena → Prop} (h : Ensures f a Q E)
    (answer : ∀ v b, Q v b → Q' v b) (fault : ∀ e b, E e b → E' e b) : Ensures f a Q' E' := by
  unfold Ensures at h ⊢
  rcases run : f.run a with ⟨e | v, b⟩
  · rw [run] at h
    exact fault e b h
  · rw [run] at h
    exact answer v b h

theorem Ensures.and {f : Storing α} {Q Q' : α → Arena → Prop} (h : Ensures f a Q E)
    (h' : Ensures f a Q' E') : Ensures f a (fun v b => Q v b ∧ Q' v b) E := by
  unfold Ensures at h h' ⊢
  generalize f.run a = outcome at h h'
  obtain ⟨_ | v, b⟩ := outcome
  · exact h
  · exact ⟨h, h'⟩

end Storing

namespace Arena

open Storing

variable {a b c : Arena} {v : Value}

/-- A later state of an arena that is sound, with everything that was handed out left alone. -/
structure Grows (a b : Arena) : Prop where
  extends' : a.Extends b
  sound : b.Sound

theorem Grows.refl (sound : a.Sound) : a.Grows a :=
  ⟨.refl a, sound⟩

theorem Grows.trans (h : a.Grows b) (h' : b.Grows c) : a.Grows c :=
  ⟨h.extends'.trans h'.extends', h'.sound⟩

theorem Grows.reaches_iff {id : Nat} (grows : a.Grows b) (sound : a.Sound) (live : a.Live v) :
    b.Reaches v id ↔ a.Reaches v id :=
  reaches_congr fun _ path => grows.extends'.kept _ (sound.taken_of_reaches live path)

theorem TookCell.grows {content : Cell} {id : Nat} (h : a.TookCell content id b) : a.Grows b :=
  ⟨h.extends, h.sound⟩

theorem TookCell.taken {content : Cell} {id : Nat} (h : a.TookCell content id b)
    (fit : a.Fit content) : b.Taken id := by
  intro next
  rw [h.content]
  exact fit.1 next

/-- The only fault of taking a cell is that there is none. -/
def OutOfRoom (a : Arena) (fault : Fault) (b : Arena) : Prop :=
  fault = .noRoom ∧ a.Grows b

theorem ensures_take (sound : a.Sound) {content : Cell} (fit : a.Fit content) :
    Ensures (take content) a (a.TookCell content) a.OutOfRoom := by
  unfold Ensures
  rcases take_run sound fit with ⟨-, run⟩ | ⟨id, b, -, run, took⟩
  · rw [run]
    exact ⟨rfl, .refl sound⟩
  · rw [run]
    exact took

theorem ensures_cons (sound : a.Sound) {head tail : Value} (h : a.Live head) (t : a.Live tail) :
    Ensures (cons head tail) a
      (fun v b => ∃ id, v = .cell id ∧ a.TookCell (.pair head tail) id b) a.OutOfRoom := by
  rw [cons, ensures_map]
  exact (ensures_take sound (fit_pair h t)).mono (fun id _ took => ⟨id, rfl, took⟩)
    fun _ _ room => room

theorem ensures_symbol (sound : a.Sound) (name : Symbol) :
    Ensures (symbol name) a
      (fun v b => ∃ id, v = .cell id ∧ a.TookCell (.symbol name) id b) a.OutOfRoom := by
  rw [symbol, ensures_map]
  exact (ensures_take sound (fit_symbol name)).mono (fun id _ took => ⟨id, rfl, took⟩)
    fun _ _ room => room

theorem grows_cons (sound : a.Sound) {head tail : Value} (h : a.Live head) (t : a.Live tail) :
    Ensures (cons head tail) a (fun v b => a.Grows b ∧ b.Live v) a.OutOfRoom := by
  refine (ensures_cons sound h t).mono ?_ fun _ _ room => room
  rintro _ b ⟨id, rfl, took⟩
  exact ⟨took.grows, live_cell_iff.2 (took.taken (fit_pair h t))⟩

theorem grows_symbol (sound : a.Sound) (name : Symbol) :
    Ensures (symbol name) a (fun v b => a.Grows b ∧ b.Live v) a.OutOfRoom := by
  refine (ensures_symbol sound name).mono ?_ fun _ _ room => room
  rintro _ b ⟨id, rfl, took⟩
  exact ⟨took.grows, live_cell_iff.2 (took.taken (fit_symbol name))⟩

theorem OutOfRoom.after {fault : Fault} (h : a.Grows b) (room : b.OutOfRoom fault c) :
    a.OutOfRoom fault c :=
  ⟨room.1, h.trans room.2⟩

/-! ### Layers of an environment -/

/-- An environment that was built on top of another with cells that were free before: list cells,
and bindings that are no list cells. -/
structure Layered (a b : Arena) (env layered : Value) : Prop where
  live : b.Live layered
  cells : ∀ id, b.OnList layered id → b.OnList env id ∨ ¬ a.Taken id
  elements : ∀ id, b.Element layered (.cell id) → b.Element env (.cell id) ∨ ¬ a.Taken id
  apart : ∀ id, ¬ a.Taken id → b.OnList layered id → ¬ b.Element layered (.cell id)
  outer : ∀ v, b.Element env v → b.Element layered v

theorem layered_pushFrame {env : Value} {id : Nat} (sound : a.Sound) (live : a.Live env)
    (took : a.TookCell (.pair .nil env) id b) : a.Layered b env (.cell id) := by
  have list : ∀ other, b.OnList (.cell id) other ↔ other = id ∨ b.OnList env other :=
    fun _ => onList_cons_iff took.content
  have entries : ∀ v, b.Element (.cell id) v ↔ v = .nil ∨ b.Element env v :=
    fun _ => element_cons_iff took.content
  refine ⟨live_cell_iff.2 (took.taken (fit_pair (live_nil a) live)), ?_, ?_, ?_,
    fun v element => (entries v).2 (.inr element)⟩
  · intro other on
    rcases (list other).1 on with rfl | on
    · exact .inr took.fresh
    · exact .inl on
  · intro other element
    left
    simpa using (entries _).1 element
  · intro other fresh on element
    have inner : b.Element env (.cell other) := by simpa using (entries _).1 element
    have there := (took.extends.element_iff sound live).1 inner
    exact fresh (there.live sound _ rfl)

/-- What is known of an environment after a binding was put on top of it. -/
def BoundOn (a : Arena) (var val env v : Value) (b : Arena) : Prop :=
  ∃ entry mid list, a.TookCell (.pair var val) entry mid ∧
    mid.TookCell (.pair (.cell entry) env) list b ∧ v = .cell list

theorem BoundOn.grows {var val env : Value} (h : a.BoundOn var val env v b) : a.Grows b := by
  obtain ⟨entry, mid, list, first, second, -⟩ := h
  exact first.grows.trans second.grows

theorem ensures_bindOn {var val env : Value} (sound : a.Sound) (var' : a.Live var)
    (val' : a.Live val) (env' : a.Live env) :
    Ensures (bind var val env) a (a.BoundOn var val env) a.OutOfRoom := by
  rw [bind, Storing.ensures_bind]
  refine (ensures_cons sound var' val').mono ?_ fun _ _ room => room
  rintro _ mid ⟨entry, rfl, first⟩
  have entry' : mid.Live (.cell entry) := live_cell_iff.2 (first.taken (fit_pair var' val'))
  refine (ensures_cons first.sound entry' (first.extends.live env')).mono ?_ ?_
  · rintro _ b ⟨list, rfl, second⟩
    exact ⟨entry, mid, list, first, second, rfl⟩
  · intro fault b room
    exact room.after first.grows

theorem Layered.bind {var val env layered : Value} (sound : b.Sound) (ext : a.Extends b)
    (h : a.Layered b env layered) (env' : b.Live env) (var' : b.Live var) (val' : b.Live val)
    (bound : b.BoundOn var val layered v c) : a.Layered c env v := by
  obtain ⟨entry, mid, list, first, second, rfl⟩ := bound
  have grown := (first.grows.trans second.grows).extends'
  have onList : ∀ id, c.OnList layered id ↔ b.OnList layered id := fun _ =>
    grown.onList_iff sound h.live
  have onEnv : ∀ id, c.OnList env id ↔ b.OnList env id := fun _ => grown.onList_iff sound env'
  have element : ∀ v, c.Element layered v ↔ b.Element layered v := fun _ =>
    grown.element_iff sound h.live
  have elementEnv : ∀ v, c.Element env v ↔ b.Element env v := fun _ =>
    grown.element_iff sound env'
  have listFresh : ¬ b.Taken list := fun taken => second.fresh (first.extends.taken taken)
  have entryTaken : mid.Taken entry := first.taken (fit_pair var' val')
  have entryPair : list ≠ entry := by
    rintro rfl
    exact second.fresh entryTaken
  have consList : ∀ id, c.OnList (.cell list) id ↔ id = list ∨ c.OnList layered id :=
    fun _ => onList_cons_iff second.content
  have consElement : ∀ v, c.Element (.cell list) v ↔ v = .cell entry ∨ c.Element layered v :=
    fun _ => element_cons_iff second.content
  refine ⟨live_cell_iff.2 ?_, ?_, ?_, ?_, ?_⟩
  · exact taken_of_pair second.content
  · intro id on
    rcases (consList id).1 on with rfl | on
    · exact .inr fun taken => listFresh (ext.taken taken)
    · exact (h.cells id ((onList id).1 on)).imp_left (onEnv id).2
  · intro id el
    rcases (consElement _).1 el with same | el
    · cases same
      exact .inr fun taken => first.fresh (ext.taken taken)
    · exact (h.elements id ((element _).1 el)).imp_left (elementEnv _).2
  -- a fresh list cell is no binding, neither the new one nor an earlier one
  · intro id fresh on el
    rcases (consList id).1 on with rfl | on
    · rcases (consElement _).1 el with same | el
      · exact entryPair (Value.cell.inj same)
      · exact listFresh (((element _).1 el).live sound _ rfl)
    · have on := (onList id).1 on
      rcases (consElement _).1 el with same | el
      · cases same
        exact first.fresh on.taken
      · exact h.apart id fresh on ((element _).1 el)
  · intro v el
    exact (consElement v).2 (.inr ((element v).2 (h.outer v ((elementEnv v).1 el))))

theorem Layered.refl {env : Value} (live : a.Live env) : a.Layered a env env where
  live := live
  cells _ on := .inl on
  elements _ element := .inl element
  apart _ fresh on := absurd on.taken fresh
  outer _ element := element

theorem ensures_bindWithin {n : Nat} {params args env layered : Value} (grows : a.Grows b)
    (live : a.Live env) (layers : a.Layered b env layered) :
    Ensures (bindWithin n params args layered) b
      (fun left c => a.Grows c ∧ a.Layered c env left.2.2) a.OutOfRoom := by
  induction n generalizing b params args layered with
  | zero => exact ⟨rfl, grows⟩
  | succ n ih =>
    rw [bindWithin, Storing.ensures_bind, ensures_get]
    split
    · rw [Storing.ensures_bind]
      have var := grows.sound.live_car params
      have val := grows.sound.live_car args
      refine (ensures_bindOn grows.sound var val layers.live).mono ?_ fun _ _ room =>
        room.after grows
      intro env' c bound
      rw [Storing.ensures_bind, ensures_get]
      refine ih (grows.trans bound.grows) ?_
      exact layers.bind grows.sound grows.extends' (grows.extends'.live live) var val bound
    · exact ⟨grows, layers⟩

theorem ensures_bindAll {params args env layered : Value} (grows : a.Grows b)
    (live : a.Live env) (layers : a.Layered b env layered) :
    Ensures (bindAll params args layered) b
      (fun left c => a.Grows c ∧ a.Layered c env left.2.2) a.OutOfRoom := by
  rw [bindAll, Storing.ensures_bind, ensures_get]
  exact ensures_bindWithin grows live layers

end Arena

end ArenaLisp
