import ArenaLisp.Proofs.Machine.Preservation

/-!
# Evaluations that answer less often

One computation approximates another if every answer and every fault of it is one of the other, too.
An evaluation step keeps this order between evaluations of the parts (`approximates_evalStep`), so a
larger bound never changes an answer (`approximates_eval`), and an evaluation that refuses some
programs says what others do.
-/

namespace ArenaLisp.Lisp

variable {α β : Type} {x y z : Lisp α} {m : Machine}

/-- Every outcome of a computation is one of another. -/
def Approximates (x y : Lisp α) : Prop :=
  ∀ ⦃m outcome n⦄, x m = some (outcome, n) → y m = some (outcome, n)

namespace Approximates

theorem refl (x : Lisp α) : Approximates x x :=
  fun _ _ _ ran => ran

theorem endless (y : Lisp α) : Approximates endless y := by
  rintro _ _ _ ⟨⟩

theorem bind {f g : α → Lisp β} (first : Approximates x y)
    (next : ∀ v, Approximates (f v) (g v)) : Approximates (x >>= f) (y >>= g) := by
  intro m outcome n ran
  rw [bind_apply] at ran ⊢
  rcases h : x m with _ | ⟨_ | v, k⟩
  · simp [h] at ran
  · simpa [h, first h] using ran
  · simp only [h] at ran
    simpa [first h] using next v ran

theorem next {f g : α → Lisp β} (next : ∀ v, Approximates (f v) (g v)) :
    Approximates (x >>= f) (x >>= g) :=
  bind (.refl x) next

theorem map {f : α → β} (approx : Approximates x y) : Approximates (f <$> x) (f <$> y) := by
  rw [map_eq_pure_bind, map_eq_pure_bind]
  exact approx.bind fun _ => .refl _

theorem tryCatch {handle : Fault → Lisp α} (approx : Approximates x y) :
    Approximates (tryCatch x handle) (tryCatch y handle) := by
  intro m outcome n ran
  rw [tryCatch_apply] at ran ⊢
  rcases first : x m with _ | ⟨fault | v, k⟩
  · rw [first] at ran
    cases ran
  · rw [first] at ran
    rw [approx first]
    exact ran
  · rw [first] at ran
    rw [approx first]
    exact ran

theorem ensures {Q : α → Machine → Prop} {E : Fault → Machine → Prop} (h : Approximates x y)
    (ensures : Ensures y m Q E) : Ensures x m Q E := by
  unfold Ensures at ensures ⊢
  rcases ran : x m with _ | ⟨_ | _, _⟩
  · trivial
  · rwa [h ran] at ensures
  · rwa [h ran] at ensures

end Approximates

theorem blame_apply (fault : String → Fault) (form : Value) (m : Machine) :
    (blame fault form : Lisp α) m = (m.arena.render form).map fun text => (.error (fault text), m) := by
  rw [blame, bind_apply, render, answer]
  cases m.arena.render form <;> rfl

theorem collectIfLow_apply (form env : Value) (m : Machine) :
    ∃ k, (k = m ∨ k = m.collect form env) ∧ collectIfLow form env m = some (.ok (), k) := by
  unfold collectIfLow
  by_cases low : m.arena.freeCount < m.settings.threshold
  · refine ⟨m.collect form env, .inr rfl, ?_⟩
    show (if m.arena.freeCount < m.settings.threshold then collect form env else pure ()) m = _
    rw [if_pos low]
    rfl
  · refine ⟨m, .inl rfl, ?_⟩
    show (if m.arena.freeCount < m.settings.threshold then collect form env else pure ()) m = _
    rw [if_neg low]
    rfl

theorem approximates_refusal {fault : String → Fault} {form : Value} {f g : α → Lisp β} :
    Approximates (blame fault form >>= f) (blame fault form >>= g) := by
  intro m outcome n ran
  rw [bind_apply, blame_apply] at ran ⊢
  cases h : m.arena.render form with
  | none => simp [h] at ran
  | some text => simpa [h] using ran

section

variable {ev ev' : Evaluator} (approx : ∀ form env, Approximates (ev form env) (ev' form env))
  {form env fname args function v : Value} {n n' : Nat} (more : n ≤ n')
include approx

theorem approximates_special (name : SpecialForm) :
    Approximates (special ev name args env) (special ev' name args env) := by
  cases name with
  | quote => exact .refl _
  | defun => exact .refl _
  | defvar =>
    simp only [special, defvar]
    refine .next fun var => .next fun symbol => ?_
    split
    · exact .next fun part => .bind (approx _ _) fun _ => .refl _
    · exact approximates_refusal
  | setq => exact .next fun part => .bind (approx _ _) fun _ => .refl _
  | cond =>
    refine .next fun part => .bind (approx _ _) fun test => ?_
    split
    · exact .next fun part => approx _ _
    · exact .next fun part => approx _ _

theorem approximates_primitive (name : Primitive) :
    Approximates (primitive ev name args env) (primitive ev' name args env) := by
  refine .next fun x => ?_
  cases name with
  | eval => exact approx _ _
  | _ => exact .refl _

theorem approximates_applyBuiltin (row : Builtin) (count : Nat) :
    Approximates (applyBuiltin ev row fname args count env)
      (applyBuiltin ev' row fname args count env) := by
  by_cases few : count < row.arity.least
  · simp only [applyBuiltin, if_pos few]
    exact approximates_refusal
  · by_cases many : row.arity.most < count
    · simp only [applyBuiltin, if_neg few, if_pos many]
      exact approximates_refusal
    · simp only [applyBuiltin, if_neg few, if_neg many]
      cases row with
      | keyword => exact .refl _
      | special name => exact approximates_special approx name
      | primitive name => exact approximates_primitive approx name

include more

theorem approximates_evalButLast (body : Value) :
    Approximates (evalButLast ev env n body) (evalButLast ev' env n' body) := by
  induction n generalizing n' body with
  | zero => exact .endless _
  | succ n ih =>
    obtain ⟨n', rfl⟩ : ∃ k, n' = k + 1 := ⟨n' - 1, by omega⟩
    refine .next fun more' => ?_
    split
    · refine .next fun part => .bind (approx _ _) fun _ => .next fun rest => ?_
      exact ih (Nat.le_of_succ_le_succ more) rest
    · exact .refl _

theorem approximates_applyLambda (lambda : Value) :
    Approximates (applyLambda ev n fname lambda args env)
      (applyLambda ev' n' fname lambda args env) := by
  refine .next fun frame => .next fun params => .next fun env => .next fun _ => .next fun body => ?_
  refine .bind (approximates_evalButLast approx more body) fun last => ?_
  exact .bind (approx _ _) fun _ => .refl _

theorem approximates_evalArguments (last : Nat) (rest : Value) (count : Nat) :
    Approximates (evalArguments ev env n last rest count)
      (evalArguments ev' env n' last rest count) := by
  induction n generalizing n' last rest count with
  | zero => exact .endless _
  | succ n ih =>
    obtain ⟨n', rfl⟩ : ∃ k, n' = k + 1 := ⟨n' - 1, by omega⟩
    refine .next fun more' => ?_
    split
    · refine .next fun part => .bind (approx _ _) fun val => .next fun cell => .next fun _ => ?_
      exact .next fun rest => ih (Nat.le_of_succ_le_succ more) cell rest (count + 1)
    · exact .refl _

theorem approximates_call (count : Nat) :
    Approximates (call ev n fname function args count env)
      (call ev' n' fname function args count env) := by
  refine .next fun name => ?_
  split
  · split
    · exact approximates_applyBuiltin approx _ count
    · exact .refl _
  · refine .next fun named => ?_
    split
    · exact .next fun lambda => approximates_applyLambda approx more lambda
    · exact .refl _

theorem approximates_apply : Approximates (apply ev n form env) (apply ev' n' form env) := by
  refine .next fun fname => .bind (approx _ _) fun op => .next fun head => .next fun _ => ?_
  refine .next fun rest => .bind (approximates_evalArguments approx more head rest 0) ?_
  refine fun count => .next fun function => .next fun args => ?_
  exact .bind (approximates_call approx more count) fun _ => .refl _

theorem approximates_evalStep :
    Approximates (evalStep ev n form env) (evalStep ev' n' form env) := by
  refine .next fun _ => .next fun _ => ?_
  unfold evalForm
  split
  · exact .refl _
  · refine .next fun name => ?_
    split
    · exact .refl _
    · refine .next fun head => ?_
      split
      · exact .refl _
      · exact .next fun args => approximates_special approx _
      · exact approximates_apply approx more

end

/-- A larger bound never changes an answer. -/
theorem approximates_eval {n n' : Nat} (more : n ≤ n') (form env : Value) :
    Approximates (eval n form env) (eval n' form env) := by
  induction n generalizing n' form env with
  | zero => exact .endless _
  | succ n ih =>
    obtain ⟨n', rfl⟩ : ∃ k, n' = k + 1 := ⟨n' - 1, by omega⟩
    have less := Nat.le_of_succ_le_succ more
    exact approximates_evalStep (ih less) less

end ArenaLisp.Lisp
