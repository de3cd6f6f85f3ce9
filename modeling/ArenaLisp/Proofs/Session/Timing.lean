import ArenaLisp.Proofs.Session.Twins

/-!
# When collections happen

A text that runs none of its bindings comes to the same under every threshold (`Run.evalText_threshold`).
One that evaluates a binding while it assigns to it may not (`Run.evalText_entangled`).
-/

namespace ArenaLisp

/-! The first of the two runs that are compared may take any number of cells. -/

attribute [local instance] Ration.unlimited

namespace Run

open Machine Lisp

variable {m : Machine} {known : Set Value}

/-- A text that runs none of its bindings, under some threshold, comes to the same under any two
thresholds, if neither run is out of room. -/
theorem evalText_threshold (run : Run m known) {text : String} {fuel t : Nat}
    {outcome : Except Fault String} {n : Machine}
    (detached : evalTextWith (evalDetached fuel) text (m.withThreshold t) = some (outcome, n))
    (room : outcome ≠ .error .noRoom)
    {fuel₁ fuel₂ t₁ t₂ : Nat} {outcome₁ outcome₂ : Except Fault String} {n₁ n₂ : Machine}
    (first : evalText fuel₁ text (m.withThreshold t₁) = some (outcome₁, n₁))
    (second : evalText fuel₂ text (m.withThreshold t₂) = some (outcome₂, n₂))
    (room₁ : outcome₁ ≠ .error .noRoom) (room₂ : outcome₂ ≠ .error .noRoom) :
    outcome₁ = outcome₂ := by
  obtain ⟨standing, nil⟩ := run.standing
  have ready : m.Ready {.nil} := by
    have less := standing.mono (Set.singleton_subset_iff.2 nil)
    exact ⟨less.sound, less.proper, fun _ member => .inl member⟩
  have same : ∀ {fuel' t' outcome' n'}, evalText fuel' text (m.withThreshold t') =
      some (outcome', n') → outcome' ≠ .error .noRoom → outcome = outcome' := by
    intro fuel' t' outcome' n' ran room'
    have concordant : Concordant (evalDetached fuel) (eval fuel') :=
      ⟨preserves_evalDetached fuel, preserves_eval fuel', agreement_eval fuel fuel'⟩
    have agree := tandem_evalTextWith concordant text
      (ready.sound.twins t t' fun _ limit => nomatch limit) (ready.withThreshold t)
      (ready.withThreshold t') _ _ detached ran
    cases agree with
    | ok is => rw [is]
    | error => rfl
    | noRoom => exact absurd rfl room
    | noRoom' => exact absurd rfl room'
  exact (same first room₁).symm.trans (same second room₂)

def trial (workspace : Nat) (ev : Evaluator) (text : String) (t : Nat) :
    Option (Except Fault String × Nat) :=
  match Machine.new { workspace } { pending := [] } with
  | .ok m => (evalTextWith ev text (m.withThreshold t)).map fun p => (p.1, p.2.collections)
  | .error _ => none

theorem of_trial {workspace t collections : Nat} {ev : Evaluator} {text : String}
    {outcome : Except Fault String} (new : Machine.new { workspace } { pending := [] } = .ok m)
    (h : trial workspace ev text t = some (outcome, collections)) :
    ∃ n, evalTextWith ev text (m.withThreshold t) = some (outcome, n) ∧
      n.collections = collections := by
  unfold trial at h
  rw [new] at h
  obtain ⟨⟨_, n⟩, run, same⟩ := Option.map_eq_some_iff.1 h
  cases same
  exact ⟨n, run, rfl⟩

def assigning : String :=
  "((LAMBDA (N) (CONS (SETQ N 'Q) (LOCALS))) T)"

/-- A binding that is evaluated, and assigned to by a part of it. -/
def entangled : String :=
  "(DEFVAR IF '((SETQ IF NIL) T (CONS T T))) (EVAL (CAR (GLOBALS)))"

/-- Without a collection while a text is evaluated, and with four of them. -/
theorem evalText_threshold_assigning :
    ∃ (m : Machine) (known : Set Value) (outcome₁ outcome₂ : Except Fault String)
      (n₁ n₂ : Machine), Run m known ∧
        evalText 8 assigning (m.withThreshold 0) = some (outcome₁, n₁) ∧
        evalText 8 assigning (m.withThreshold 6) = some (outcome₂, n₂) ∧
        n₁.collections = 2 ∧ n₂.collections = 6 ∧ outcome₁ = outcome₂ := by
  obtain ⟨m, new⟩ : ∃ m, Machine.new { workspace := 40 } { pending := [] } = .ok m := ⟨_, rfl⟩
  obtain ⟨n, detached, -⟩ := of_trial new
    (by decide +kernel : trial 40 (evalDetached 8) assigning 0 = some (.ok "(Q (N . Q) NIL)", 2))
  obtain ⟨n₁, first, count₁⟩ := of_trial new
    (by decide +kernel : trial 40 (eval 8) assigning 0 = some (.ok "(Q (N . Q) NIL)", 2))
  obtain ⟨n₂, second, count₂⟩ := of_trial new
    (by decide +kernel : trial 40 (eval 8) assigning 6 = some (.ok "(Q (N . Q) NIL)", 6))
  exact ⟨m, _, _, _, n₁, n₂, .start new, first, second, count₁, count₂,
    evalText_threshold (.start new) detached (by simp) first second (by simp) (by simp)⟩

/-- What is left of the form is gone if there is a collection before it is needed. -/
theorem evalText_entangled :
    ∃ (m : Machine) (known : Set Value) (n₁ n₂ : Machine), Run m known ∧
      evalText 8 entangled (m.withThreshold 0) = some (.ok "(T . T)", n₁) ∧
      evalText 8 entangled (m.withThreshold 5) = some (.error (.tooFewArguments "CONS"), n₂) := by
  obtain ⟨m, new⟩ : ∃ m, Machine.new { workspace := 42 } { pending := [] } = .ok m := ⟨_, rfl⟩
  obtain ⟨n₁, first, -⟩ := of_trial new
    (by decide +kernel : trial 42 (eval 8) entangled 0 = some (.ok "(T . T)", 3))
  obtain ⟨n₂, second, -⟩ := of_trial new
    (by decide +kernel : trial 42 (eval 8) entangled 5 = some (.error (.tooFewArguments "CONS"), 3))
  exact ⟨m, _, n₁, n₂, .start new, first, second⟩

end Run

end ArenaLisp
