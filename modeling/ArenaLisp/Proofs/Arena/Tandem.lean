import Mathlib.Order.Basic
import ArenaLisp.Proofs.Arena.Matching

/-!
# Taking cells of two arenas

One computation on two matching arenas takes different cells in them, since the free cells differ.
What it makes of them is the same, unless one of the arenas has no room for it (`Agree`). If the first
one is on a ration, the second one has no less room.
-/

namespace ArenaLisp

/-- Outcomes of which one ran out of room, or both are answers that satisfy a condition, or both are
one fault. The second one does not run out of room alone if the first one is on a ration. -/
inductive Agree [Ration] {α β σ : Type} (Q : α → β → σ → σ → Prop) (E : Fault → σ → σ → Prop) :
    Except Fault α × σ → Except Fault β × σ → Prop where
  | ok {v : α} {w : β} {s t : σ} : Q v w s t → Agree Q E (.ok v, s) (.ok w, t)
  | error {fault : Fault} {s t : σ} : E fault s t → Agree Q E (.error fault, s) (.error fault, t)
  | noRoom {s : σ} {y : Except Fault β × σ} : Agree Q E (.error .noRoom, s) y
  | noRoom' {x : Except Fault α × σ} {t : σ} : Ration.cells = none → Agree Q E x (.error .noRoom, t)

variable [Ration]

theorem Agree.mono {α β σ : Type} {Q Q' : α → β → σ → σ → Prop} {E E' : Fault → σ → σ → Prop}
    {x : Except Fault α × σ} {y : Except Fault β × σ} (h : Agree Q E x y)
    (answer : ∀ v w s t, Q v w s t → Q' v w s t) (fault : ∀ e s t, E e s t → E' e s t) :
    Agree Q' E' x y := by
  cases h with
  | ok h => exact .ok (answer _ _ _ _ h)
  | error h => exact .error (fault _ _ _ h)
  | noRoom => exact .noRoom
  | noRoom' free => exact .noRoom' free

namespace Storing

variable {α β γ δ : Type} {a b : Arena} {E : Fault → Prop}

/-- What two computations on two arenas come to agrees. -/
def Tandem (f : Storing α) (g : Storing β) (a b : Arena) (Q : α → β → Arena → Arena → Prop)
    (E : Fault → Prop) : Prop :=
  Agree Q (fun fault _ _ => E fault) (f.run a) (g.run b)

theorem Tandem.mono {f : Storing α} {g : Storing β} {Q Q' : α → β → Arena → Arena → Prop}
    (h : Tandem f g a b Q E) (answer : ∀ v w c d, Q v w c d → Q' v w c d) :
    Tandem f g a b Q' E :=
  Agree.mono h answer fun _ _ _ h => h

theorem tandem_pure {v : α} {w : β} {Q : α → β → Arena → Arena → Prop} (h : Q v w a b) :
    Tandem (pure v) (pure w) a b Q E :=
  .ok h

theorem tandem_throw {fault : Fault} {Q : α → β → Arena → Arena → Prop} (h : E fault) :
    Tandem (throw fault) (throw fault) a b Q E :=
  .error h

theorem Tandem.bind {f : Storing α} {g : Storing β} {f' : α → Storing γ} {g' : β → Storing δ}
    {Q : α → β → Arena → Arena → Prop} {Q' : γ → δ → Arena → Arena → Prop}
    (first : Tandem f g a b Q E)
    (next : ∀ v w c d, Q v w c d → Tandem (f' v) (g' w) c d Q' E) :
    Tandem (f >>= f') (g >>= g') a b Q' E := by
  unfold Tandem at first ⊢
  rw [run_bind, run_bind]
  generalize f.run a = x at first
  generalize g.run b = y at first
  cases first with
  | ok h => exact next _ _ _ _ h
  | error h => exact .error h
  | noRoom => exact .noRoom
  | noRoom' free => exact .noRoom' free

theorem Tandem.map {f : Storing α} {g : Storing β} {f' : α → γ} {g' : β → δ}
    {Q : α → β → Arena → Arena → Prop} {Q' : γ → δ → Arena → Arena → Prop}
    (first : Tandem f g a b Q E) (next : ∀ v w c d, Q v w c d → Q' (f' v) (g' w) c d) :
    Tandem (f' <$> f) (g' <$> g) a b Q' E := by
  rw [map_eq_pure_bind, map_eq_pure_bind]
  exact first.bind fun v w c d h => tandem_pure (next v w c d h)

end Storing

namespace Arena

open Storing

variable {R S : Nat → Nat → Prop} {a b c d : Arena} {v w head head' tail tail' : Value}
  {E : Fault → Prop}

theorem Match.live (h : Match R a b) (same : Same R v w) : a.Live v ∧ b.Live w := by
  cases same with
  | nil => exact ⟨live_nil a, live_nil b⟩
  | cell related =>
    exact ⟨live_cell_iff.2 (h.taken related).1, live_cell_iff.2 (h.taken related).2⟩

theorem Match.fit {content content' : Cell} (h : Match R a b) (same : SameCell R content content') :
    a.Fit content ∧ b.Fit content' := by
  cases same with
  | pair first second =>
    exact ⟨fit_pair (h.live first).1 (h.live second).1, fit_pair (h.live first).2 (h.live second).2⟩
  | symbol name => exact ⟨fit_symbol name, fit_symbol name⟩

omit [Ration] in
theorem Same.le (h : Same R v w) (sub : R ≤ S) : Same S v w :=
  h.mono fun id other _ => sub id other

/-- Matching arenas that grew and still match, along a relation with which values are the same. -/
structure Pairing (R : Nat → Nat → Prop) (a b : Arena) (S : Nat → Nat → Prop) (v w : Value)
    (c d : Arena) : Prop where
  wider : R ≤ S
  same : Same S v w
  arenas : Match S c d
  grows : a.Grows c
  grows' : b.Grows d

/-- Values of matching arenas that computations made the same. -/
def Pairs (R : Nat → Nat → Prop) (a b : Arena) (v w : Value) (c d : Arena) : Prop :=
  ∃ S, Pairing R a b S v w c d

theorem Pairing.after {T : Nat → Nat → Prop} {e f : Arena} {v' w' : Value}
    (first : Pairing R a b S v w c d) (second : Pairing S c d T v' w' e f) :
    Pairing R a b T v' w' e f where
  wider := first.wider.trans second.wider
  same := second.same
  arenas := second.arenas
  grows := first.grows.trans second.grows
  grows' := first.grows'.trans second.grows'

section

variable (sound : a.Sound) (sound' : b.Sound) (h : Match R a b)
include sound sound' h

theorem tandem_take {content content' : Cell} (same : SameCell R content content') :
    Tandem (take content) (take content') a b
      (fun id other c d => a.TookCell content id c ∧ b.TookCell content' other d) E := by
  obtain ⟨fit, fit'⟩ := h.fit same
  unfold Tandem
  obtain ⟨-, run⟩ | ⟨id, c, -, run, took⟩ := take_run sound fit
  · rw [run]
    exact .noRoom
  · obtain ⟨empty, run'⟩ | ⟨other, d, -, run', took'⟩ := take_run sound' fit'
    · rw [run']
      refine .noRoom' (Option.eq_none_iff_forall_not_mem.2 fun t rationed => ?_)
      have room := h.room t rationed
      have count := took.count
      have none := sound'.freeCount_eq_zero empty
      omega
    · rw [run, run']
      exact .ok ⟨took, took'⟩

theorem tandem_cons (first : Same R head head') (second : Same R tail tail') :
    Tandem (cons head tail) (cons head' tail') a b
      (fun v w c d => ∃ id other, v = .cell id ∧ w = .cell other ∧
        a.TookCell (.pair head tail) id c ∧ b.TookCell (.pair head' tail') other d) E :=
  (tandem_take sound sound' h (.pair first second)).map fun id other _ _ took =>
    ⟨id, other, rfl, rfl, took⟩

omit sound sound' in
theorem Match.pairing {content content' : Cell} {id other : Nat} (took : a.TookCell content id c)
    (took' : b.TookCell content' other d) (same : SameCell R content content') :
    Pairing R a b (Adding R id other) (.cell id) (.cell other) c d where
  wider _ _ := .inl
  same := .cell (.inr ⟨rfl, rfl⟩)
  arenas := h.took took took' same
  grows := took.grows
  grows' := took'.grows

theorem pairs_cons (first : Same R head head') (second : Same R tail tail') :
    Tandem (cons head tail) (cons head' tail') a b (Pairs R a b) E := by
  apply (tandem_cons sound sound' h first second).mono
  rintro _ _ c d ⟨id, other, rfl, rfl, took, took'⟩
  exact ⟨_, h.pairing took took' (.pair first second)⟩

theorem pairs_symbol (name : Symbol) :
    Tandem (symbol name) (symbol name) a b (Pairs R a b) E :=
  (tandem_take sound sound' h (.symbol name)).map fun _ _ _ _ took =>
    ⟨_, h.pairing took.1 took.2 (.symbol name)⟩

theorem pairs_bind {var var' val val' env env' : Value} (sameVar : Same R var var')
    (sameVal : Same R val val') (sameEnv : Same R env env') :
    Tandem (bind var val env) (bind var' val' env') a b (Pairs R a b) E := by
  unfold Arena.bind
  apply (pairs_cons sound sound' h sameVar sameVal).bind
  rintro entry entry' c d ⟨S, first⟩
  apply (pairs_cons first.grows.sound first.grows'.sound first.arenas first.same
    (sameEnv.le first.wider)).mono
  rintro list list' e f ⟨T, second⟩
  exact ⟨T, first.after second⟩

omit sound sound' h in
/-- The rounds of binding parameters go the same way in both arenas, however many are allowed. -/
theorem pairs_bindWithin {n k : Nat} {params params' args args' env env' : Value}
    (sound : a.Sound) (sound' : b.Sound) (h : Match R a b) (sameParams : Same R params params')
    (sameArgs : Same R args args') (sameEnv : Same R env env')
    (rounds : ∀ t ∈ Ration.cells, n ≤ k) :
    Tandem (bindWithin n params args env) (bindWithin k params' args' env') a b
      (fun left left' c d => ∃ S, Pairing R a b S left.2.2 left'.2.2 c d ∧
        Same S left.1 left'.1 ∧ Same S left.2.1 left'.2.1) E := by
  induction n generalizing k a b R params params' args args' env env' with
  | zero => exact .noRoom
  | succ n ih =>
    cases k with
    | zero =>
      refine .noRoom' (Option.eq_none_iff_forall_not_mem.2 fun t rationed => ?_)
      exact absurd (rounds t rationed) (Nat.not_succ_le_zero n)
    | succ k =>
      unfold bindWithin
      have more : (b.isPair params' && b.isPair args') = (a.isPair params && a.isPair args) := by
        rw [h.isPair_eq sameParams, h.isPair_eq sameArgs]
      show Tandem (if (a.isPair params && a.isPair args) = true then _ else _)
        (if (b.isPair params' && b.isPair args') = true then _ else _) a b _ _
      rw [more]
      split
      · apply (pairs_bind sound sound' h (h.same_car sameParams) (h.same_car sameArgs) sameEnv).bind
        rintro inner inner' c d ⟨S, first⟩
        have m := first.arenas
        apply Tandem.mono (ih first.grows.sound first.grows'.sound m
          (m.same_cdr (sameParams.le first.wider)) (m.same_cdr (sameArgs.le first.wider)) first.same
          fun t rationed => Nat.le_of_succ_le_succ (rounds t rationed))
        rintro left left' e f ⟨T, second, restParams, restArgs⟩
        exact ⟨T, first.after second, restParams, restArgs⟩
      · exact tandem_pure ⟨R, ⟨le_refl R, sameEnv, h, .refl sound, .refl sound'⟩, sameParams, sameArgs⟩

theorem pairs_bindAll {params params' args args' env env' : Value}
    (sameParams : Same R params params') (sameArgs : Same R args args')
    (sameEnv : Same R env env') :
    Tandem (bindAll params args env) (bindAll params' args' env') a b
      (fun left left' c d => ∃ S, Pairing R a b S left.2.2 left'.2.2 c d ∧
        Same S left.1 left'.1 ∧ Same S left.2.1 left'.2.1) E :=
  pairs_bindWithin sound sound' h sameParams sameArgs sameEnv fun t rationed =>
    Nat.succ_le_succ (h.room t rationed)

end

/-! ### Definitions and assignments -/

theorem Match.define {var var' val val' globe globe' : Value} (sound : a.Sound) (sound' : b.Sound)
    (h : Match R a b) (sameVar : Same R var var') (sameVal : Same R val val')
    (sameGlobe : Same R globe globe') {x y : Except Fault Value × Arena}
    (first : define var val globe a = some x) (second : define var' val' globe' b = some y) :
    Agree (fun v w c d => ∃ S, R ≤ S ∧ Same S v w ∧ Match S c d) (fun _ _ _ => True) x y := by
  unfold Arena.define at first second
  rw [h.symbol?_eq sameVar, h.render_eq sameVar] at second
  cases symbol : a.symbol? var with
  | none =>
    simp only [symbol] at first second
    obtain ⟨text, rendered, rfl⟩ := Option.map_eq_some_iff.1 first
    obtain ⟨text', rendered', rfl⟩ := Option.map_eq_some_iff.1 second
    cases rendered.symm.trans rendered'
    exact .error trivial
  | some name =>
    simp only [symbol] at first second
    have search := h.lookup_same name sameGlobe
    generalize a.lookup name globe = found at first search
    generalize b.lookup name globe' = found' at second search
    cases search with
    | found related =>
      cases first
      cases second
      exact .ok ⟨R, le_refl R, sameGlobe, h.setCdr related sameVal⟩
    | absent =>
      cases first
      cases second
      have bound := pairs_bind (E := fun _ => True) sound sound' h sameVar sameVal sameGlobe
      apply bound.mono
      rintro v w c d ⟨S, pairing⟩
      exact ⟨S, pairing.wider, pairing.same, pairing.arenas⟩
    | endless => cases first

theorem Match.findBinding {var var' env env' globe globe' : Value} (h : Match R a b)
    (sameVar : Same R var var') (sameEnv : Same R env env') (sameGlobe : Same R globe globe')
    {x y : Except Fault Nat} (first : a.findBinding var env globe = some x)
    (second : b.findBinding var' env' globe' = some y) :
    (∃ id other, x = .ok id ∧ y = .ok other ∧ R id other) ∨
      ∃ fault, x = .error fault ∧ y = .error fault := by
  unfold Arena.findBinding at first second
  rw [h.symbol?_eq sameVar, h.render_eq sameVar] at second
  -- a fault shows the name as it is printed, which is the same in both
  have faults : ∀ fault : String → Fault,
      (a.render var).map (fun form => Except.error (fault form)) = some x →
      (a.render var).map (fun form => Except.error (fault form)) = some y →
      ∃ fault, x = .error fault ∧ y = .error fault := by
    intro fault first second
    obtain ⟨text, rendered, rfl⟩ := Option.map_eq_some_iff.1 first
    obtain ⟨text', rendered', rfl⟩ := Option.map_eq_some_iff.1 second
    cases rendered.symm.trans rendered'
    exact ⟨_, rfl, rfl⟩
  cases symbol : a.symbol? var with
  | none =>
    simp only [symbol] at first second
    exact .inr (faults _ first second)
  | some name =>
    simp only [symbol] at first second
    have search := h.lookupEither_same name sameEnv sameGlobe
    generalize a.lookupEither name env globe = found at first search
    generalize b.lookupEither name env' globe' = found' at second search
    cases search with
    | found related =>
      cases first
      cases second
      exact .inl ⟨_, _, rfl, rfl, related⟩
    | absent => exact .inr (faults _ first second)
    | endless => cases first

end Arena

end ArenaLisp
