import ArenaLisp.Proofs.Arena.Lookup
import ArenaLisp.Proofs.Arena.Trees

/-!
# Environments and layers

`Holds a off env layers` says that the list `env` ends and holds the layers, each binding in a cell
of its own. A name is found in both or in neither, with one value (`Holds.lookup`), and a value that
is written inside the binding found is the value of the name in the layers (`Holds.update`).
-/

namespace ArenaLisp

open ArenaLisp.Ideal (Layer)

namespace Arena

/-- An environment that holds layers, innermost first. -/
inductive Holds (a : Arena) (off : Nat → Prop) : Value → List Layer → Prop where
  | nil : Holds a off .nil []
  | frame {id : Nat} {rest : Value} {layers : List Layer} :
    a.cell id = .pair .nil rest → Holds a off rest layers →
    Holds a off (.cell id) (.frame :: layers)
  | binding {id entry : Nat} {rest var val : Value} {name value : Sexp} {layers : List Layer} :
    a.cell id = .pair (.cell entry) rest → a.cell entry = .pair var val →
    ¬ a.Element rest (.cell entry) → Shows a off var name → Shows a off val value →
    Holds a off rest layers → Holds a off (.cell id) (.binding name value :: layers)

/-- An environment that a longer one comes to after some elements. -/
inductive Beneath (a : Arena) (env : Value) : Nat → Value → Prop where
  | refl : Beneath a env 0 env
  | next {n id : Nat} {head tail : Value} :
    a.cell id = .pair head tail → Beneath a env n tail → Beneath a env (n + 1) (.cell id)

variable {a b : Arena} {off avoid : Nat → Prop} {env list v w var val : Value} {value : Sexp}
  {layers : List Layer} {name : Symbol} {id cell n : Nat}

theorem Holds.row (holds : a.Holds off env layers) :
    ∃ ids vs, a.Row env ids vs ∧ ids.length = layers.length := by
  induction holds with
  | nil => exact ⟨[], [], .nil, rfl⟩
  | frame pair _ ih =>
    obtain ⟨ids, vs, row, length⟩ := ih
    exact ⟨_, _, .cons pair row, congrArg (· + 1) length⟩
  | binding pair _ _ _ _ _ ih =>
    obtain ⟨ids, vs, row, length⟩ := ih
    exact ⟨_, _, .cons pair row, congrArg (· + 1) length⟩

theorem Holds.length_le (holds : a.Holds off env layers) : layers.length ≤ a.capacity := by
  obtain ⟨ids, vs, row, length⟩ := holds.row
  exact length ▸ row.length_le

theorem Holds.nil_iff (holds : a.Holds off env layers) : env = .nil ↔ layers = [] := by
  cases holds <;> simp

theorem Holds.entry (holds : a.Holds off env layers) (element : a.Element env (.cell id)) :
    ∃ var val, a.cell id = .pair var val := by
  induction holds with
  | nil => exact absurd element not_element_nil
  | frame pair _ ih =>
    obtain is | inner := (element_cons_iff pair).1 element
    · cases is
    · exact ih inner
  | binding pair entry _ _ _ _ ih =>
    obtain is | inner := (element_cons_iff pair).1 element
    · cases is
      exact ⟨_, _, entry⟩
    · exact ih inner

theorem Holds.taken (holds : a.Holds off env layers) (path : a.Reaches env id) : a.Taken id := by
  induction holds with
  | nil => exact absurd path not_path_nil
  | frame pair _ ih =>
    cases path with
    | here => exact taken_of_pair pair
    | head pair' path =>
      cases pair.symm.trans pair'
      exact absurd path not_path_nil
    | tail pair' _ path =>
      cases pair.symm.trans pair'
      exact ih path
  | binding pair entry _ first second _ ih =>
    cases path with
    | here => exact taken_of_pair pair
    | head pair' path =>
      cases pair.symm.trans pair'
      cases path with
      | here => exact taken_of_pair entry
      | head entry' path =>
        cases entry.symm.trans entry'
        exact first.taken path
      | tail entry' _ path =>
        cases entry.symm.trans entry'
        exact second.taken path
    | tail pair' _ path =>
      cases pair.symm.trans pair'
      exact ih path

theorem Holds.congr (holds : a.Holds off env layers)
    (same : ∀ id, a.Reaches env id → b.cell id = a.cell id)
    (clear : ∀ id, a.Reaches env id → avoid id → off id) : b.Holds avoid env layers := by
  induction holds with
  | nil => exact .nil
  | frame pair _ ih =>
    have tail : ∀ {id}, a.Reaches _ id → a.Reaches _ id := .tail pair not_false
    apply Holds.frame ((same _ (.here _)).trans pair)
    exact ih (fun id path => same id (tail path)) fun id path => clear id (tail path)
  | @binding _ _ _ var val _ _ _ pair entry apart first second _ ih =>
    have tail : ∀ {id}, a.Reaches _ id → a.Reaches _ id := .tail pair not_false
    have inVar : ∀ {id}, a.Reaches var id → a.Reaches _ id := fun path => .head pair (.head entry path)
    have inVal : ∀ {id}, a.Reaches val id → a.Reaches _ id := fun path =>
      .head pair (.tail entry not_false path)
    apply Holds.binding ((same _ (.here _)).trans pair)
    · exact (same _ (.head pair (.here _))).trans entry
    · intro element
      exact apart ((element_congr fun id along => same id (tail along.reaches)).1 element)
    · exact first.congr (fun id path => same id (inVar path)) fun id path => clear id (inVar path)
    · exact second.congr (fun id path => same id (inVal path)) fun id path => clear id (inVal path)
    · exact ih (fun id path => same id (tail path)) fun id path => clear id (tail path)

theorem Holds.mono (holds : a.Holds off env layers) (sub : ∀ id, avoid id → off id) :
    a.Holds avoid env layers :=
  holds.congr (fun _ _ => rfl) fun id _ => sub id

theorem Holds.kept (holds : a.Holds off env layers) (ext : a.Extends b) :
    b.Holds off env layers :=
  holds.congr (fun id path => ext.kept id (holds.taken path)) fun _ _ outside => outside

theorem Holds.extends (holds : a.Holds off env layers) (ext : a.Extends b) :
    b.Holds (fun id => off id ∨ ¬ a.Taken id) env layers := by
  apply holds.congr
  · exact fun id path => ext.kept id (holds.taken path)
  · intro id path outside
    obtain outside | fresh := outside
    · exact outside
    · exact absurd (holds.taken path) fresh

theorem Holds.setCdr (holds : a.Holds off env layers) (outside : off cell)
    (unlisted : ¬ a.OnList env cell) (unbound : ¬ a.Element env (.cell cell)) :
    (a.setCdr cell w).Holds off env layers := by
  induction holds with
  | nil => exact .nil
  | frame pair _ ih =>
    rw [onList_cons_iff pair, not_or] at unlisted
    rw [element_cons_iff pair, not_or] at unbound
    apply Holds.frame ((cell_setCdr_of_ne (Ne.symm unlisted.1)).trans pair)
    exact ih unlisted.2 unbound.2
  | @binding id entry rest _ _ _ _ _ pair content apart first second _ ih =>
    rw [onList_cons_iff pair, not_or] at unlisted
    rw [element_cons_iff pair, not_or] at unbound
    have other : entry ≠ cell := fun is => unbound.1 (congrArg Value.cell is).symm
    apply Holds.binding ((cell_setCdr_of_ne (Ne.symm unlisted.1)).trans pair)
    · exact (cell_setCdr_of_ne other).trans content
    · intro element
      exact apart ((element_congr fun id along => along.setCdr unlisted.2).1 element)
    · exact first.setCdr outside
    · exact second.setCdr outside
    · exact ih unlisted.2 unbound.2

/-! ### Looking names up -/

theorem binds_eq_isSome {entry : Nat} {key : Sexp} (content : a.cell entry = .pair var val)
    (shows' : a.Shows off var key) (name : Symbol) (value : Sexp) :
    a.binds (.cell entry) name = ((Layer.binding key value).value? name).isSome := by
  unfold binds
  rw [car_of_pair content, shows'.symbol?_eq]
  cases key with
  | nil => rfl
  | pair => rfl
  | symbol other =>
    by_cases is : other = name <;> simp [Sexp.symbol?, Layer.value?, is]

theorem Holds.lookupWithin (holds : a.Holds off env layers) (name : Symbol)
    (enough : layers.length < n) :
    (∃ entry value, a.lookupWithin name n env = .found entry ∧
        Ideal.lookup name layers = some value ∧ a.Shows off (a.cdr (.cell entry)) value) ∨
      (a.lookupWithin name n env = .absent ∧ Ideal.lookup name layers = none) := by
  induction holds generalizing n with
  | nil =>
    obtain ⟨n, rfl⟩ : ∃ k, n = k + 1 := ⟨n - 1, by omega⟩
    exact .inr ⟨rfl, rfl⟩
  | @frame id rest layers pair _ ih =>
    obtain ⟨n, rfl⟩ : ∃ k, n = k + 1 := ⟨n - 1, by omega⟩
    have next : a.lookupWithin name (n + 1) (.cell id) = a.lookupWithin name n rest := by
      simp only [Arena.lookupWithin, cell?_cell, pair]
    rw [next]
    exact ih (by simpa using enough)
  | @binding id entry rest var val key value layers pair content _ first second _ ih =>
    obtain ⟨n, rfl⟩ : ∃ k, n = k + 1 := ⟨n - 1, by omega⟩
    have next : a.lookupWithin name (n + 1) (.cell id) =
        if a.binds (.cell entry) name then .found entry else a.lookupWithin name n rest := by
      simp only [Arena.lookupWithin, cell?_cell, pair]
    rw [next, binds_eq_isSome content first name value]
    unfold Ideal.lookup
    cases here : (Layer.binding key value).value? name with
    | none => exact ih (by simpa using enough)
    | some found =>
      left
      refine ⟨entry, found, rfl, rfl, ?_⟩
      rw [cdr_of_pair content]
      cases key with
      | nil => cases here
      | pair => cases here
      | symbol other =>
        simp only [Layer.value?, Option.ite_none_right_eq_some, Option.some.injEq] at here
        exact here.2 ▸ second

theorem Holds.lookup (holds : a.Holds off env layers) (name : Symbol) :
    (∃ entry value, a.lookup name env = .found entry ∧ Ideal.lookup name layers = some value ∧
        a.Shows off (a.cdr (.cell entry)) value) ∨
      (a.lookup name env = .absent ∧ Ideal.lookup name layers = none) :=
  holds.lookupWithin name (Nat.lt_succ_of_le holds.length_le)

theorem Holds.update (holds : a.Holds off env layers) (found : a.lookupWithin name n env = .found cell)
    (outside : off cell) (unlisted : ¬ a.OnList env cell) (shows' : a.Shows off w value) :
    (a.setCdr cell w).Holds off env (Ideal.update name value layers) := by
  induction holds generalizing n with
  | nil => cases n <;> cases found
  | @frame id rest layers pair _ ih =>
    rw [onList_cons_iff pair, not_or] at unlisted
    cases n with
    | zero => cases found
    | succ n =>
      simp only [Arena.lookupWithin, cell?_cell, pair] at found
      exact .frame ((cell_setCdr_of_ne (Ne.symm unlisted.1)).trans pair) (ih found unlisted.2)
  | @binding id entry rest var val key old layers pair content apart first second further ih =>
    rw [onList_cons_iff pair, not_or] at unlisted
    have pair' : (a.setCdr cell w).cell id = .pair (.cell entry) rest :=
      (cell_setCdr_of_ne (Ne.symm unlisted.1)).trans pair
    have apart' : ¬ (a.setCdr cell w).Element rest (.cell entry) := by
      intro element
      exact apart ((element_congr fun id along => along.setCdr unlisted.2).1 element)
    cases n with
    | zero => cases found
    | succ n =>
      simp only [Arena.lookupWithin, cell?_cell, pair, binds_eq_isSome content first name old] at found
      unfold Ideal.update
      split at found
      · rename_i here
        rw [if_pos here]
        cases found
        have is : key = .symbol name := by
          cases key with
          | nil => cases here
          | pair => cases here
          | symbol other =>
            by_cases is : other = name
            · rw [is]
            · simp [Layer.value?, is] at here
        subst is
        exact .binding pair' (cell_setCdr_of_pair content) apart' (first.setCdr outside)
          (shows'.setCdr outside) (further.setCdr outside unlisted.2 apart)
      · rename_i elsewhere
        rw [if_neg elsewhere]
        have element := element_of_lookupWithin found
        have other : entry ≠ cell := by
          intro is
          subst is
          exact apart element
        exact .binding pair' ((cell_setCdr_of_ne other).trans content) apart'
          (first.setCdr outside) (second.setCdr outside) (ih found unlisted.2)

/-! ### Outer environments -/

theorem Beneath.suffix (beneath : a.Beneath env n list) : a.Suffix env list := by
  induction beneath with
  | refl => exact .refl
  | next pair _ ih => exact .next pair ih

theorem Beneath.congr (beneath : a.Beneath env n list)
    (same : ∀ id, a.Along list id → b.cell id = a.cell id) : b.Beneath env n list := by
  induction beneath with
  | refl => exact .refl
  | next pair _ ih =>
    exact .next ((same _ (.here _)).trans pair) (ih fun id along => same id (.next pair along))

theorem Holds.drop (holds : a.Holds off list layers) (beneath : a.Beneath env n list) :
    a.Holds off env (layers.drop n) := by
  induction beneath generalizing layers with
  | refl => exact holds
  | next pair _ ih =>
    cases holds with
    | frame pair' further =>
      cases pair.symm.trans pair'
      exact ih further
    | binding pair' _ _ _ _ further =>
      cases pair.symm.trans pair'
      exact ih further

/-! ### Binding parameters -/

theorem Holds.live (holds : a.Holds off env layers) : a.Live env := by
  intro id is
  subst is
  exact holds.taken (.here id)

theorem Holds.bindOn {key : Sexp} (holds : a.Holds off list layers) (sound : a.Sound)
    (showsVar : a.Shows off var key) (showsVal : a.Shows off val value)
    (beneath : a.Beneath env n list) (bound : a.BoundOn var val list v b) :
    b.Holds off v (.binding key value :: layers) ∧ b.Beneath env (n + 1) v := by
  have ext := bound.grows.extends'
  have same : ∀ id, a.Along list id → b.cell id = a.cell id := fun id along =>
    ext.kept id (sound.taken_of_along holds.live along)
  obtain ⟨entry, mid, cell, first, second, is⟩ := bound
  subst is
  have content : b.cell entry = .pair var val :=
    (second.extends.kept entry (taken_of_pair first.content)).trans first.content
  have apart : ¬ b.Element list (.cell entry) := by
    intro element
    exact first.fresh (((element_congr same).1 element).live sound _ rfl)
  refine ⟨?_, .next second.content (beneath.congr same)⟩
  exact .binding second.content content apart (showsVar.kept ext) (showsVal.kept ext)
    (holds.kept ext)

/-- Binding parameters to arguments puts the same layers on top of an environment as binding the
trees. -/
theorem ensures_bindWithin_holds {params args : Value} {s t : Sexp} {top outer : List Layer}
    (sound : a.Sound) (holds : a.Holds off list (top ++ outer))
    (beneath : a.Beneath env top.length list) (showsParams : a.Shows off params s)
    (showsArgs : a.Shows off args t) :
    Storing.Ensures (bindWithin n params args list) a
      (fun left b => b.Shows off left.1 (Ideal.bindAll s t top).1 ∧
        b.Shows off left.2.1 (Ideal.bindAll s t top).2.1 ∧
        b.Holds off left.2.2 ((Ideal.bindAll s t top).2.2 ++ outer) ∧
        b.Beneath env (Ideal.bindAll s t top).2.2.length left.2.2) fun _ _ => True := by
  induction n generalizing a list params args s t top with
  | zero => trivial
  | succ n ih =>
    rw [bindWithin, Storing.ensures_bind, Storing.ensures_get, Ideal.bindAll_eq]
    rw [showsParams.isPair_eq, showsArgs.isPair_eq]
    split
    · rw [Storing.ensures_bind]
      have bound := ensures_bindOn sound (sound.live_car params) (sound.live_car args) holds.live
      apply bound.mono
      · intro inner b bound
        have ext := bound.grows.extends'
        obtain ⟨holds, beneath⟩ := holds.bindOn sound showsParams.car showsArgs.car beneath bound
        rw [Storing.ensures_bind, Storing.ensures_get]
        exact ih bound.grows.sound holds beneath (showsParams.kept ext).cdr (showsArgs.kept ext).cdr
      · exact fun _ _ _ => trivial
    · exact ⟨showsParams, showsArgs, holds, beneath⟩

end Arena

end ArenaLisp
