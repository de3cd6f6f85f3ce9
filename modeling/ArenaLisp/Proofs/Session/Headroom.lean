import ArenaLisp.Proofs.Machine.Twins.Rations
import ArenaLisp.Proofs.Session.Timing

/-!
# Headroom

A threshold is enough for a text that gets along with as many cells from each step to the next
(`Run.evalText_headroom`). A call of a function with nine parameters takes more cells than the threshold
of a new machine (`Run.evalText_crowded`).
-/

namespace ArenaLisp.Run

open Machine Lisp

variable {m : Machine} {known : Set Value}

/-- A text that gets along with a number of free cells from each step to the next has room under any
threshold that is no lower, and comes to the same. -/
theorem evalText_headroom (run : Run m known) {text : String} {fuel t : Nat}
    {outcome : Except Fault String} {n : Machine}
    (sparing : evalTextWith (evalRationed t fuel) text (m.withThreshold t) = some (outcome, n))
    (room : outcome ≠ .error .noRoom)
    {fuel' t' : Nat} {outcome' : Except Fault String} {n' : Machine} (headroom : t ≤ t')
    (ran : evalText fuel' text (m.withThreshold t') = some (outcome', n')) :
    outcome' ≠ .error .noRoom ∧ outcome' = outcome := by
  have ready := run.ready run.standing.2 (.inl rfl)
  let _ := Ration.limited t
  have concordant : Concordant (evalRationed t fuel) (eval fuel') :=
    ⟨preserves_evalRationed t fuel, preserves_eval fuel', agreement_evalRationed rfl fuel fuel'⟩
  have ample : ∀ c ∈ Ration.cells, c ≤ t' := fun c limit => by
    cases limit
    exact headroom
  have agree := tandem_evalTextWith concordant text (ready.sound.twins t t' ample)
    (ready.withThreshold t) (ready.withThreshold t') _ _ sparing ran
  cases agree with
  | ok is => exact ⟨by simp, congrArg _ is.symm⟩
  | error => exact ⟨room, rfl⟩
  | noRoom => exact absurd rfl room
  | noRoom' free => cases free

def untidy : String :=
  "(CONS (CAR '(T)) (CAR '(T)))"

theorem evalText_headroom_untidy :
    ∃ (m : Machine) (known : Set Value) (outcome : Except Fault String) (n : Machine),
      Run m known ∧ evalText 5 untidy (m.withThreshold 20) = some (outcome, n) ∧
        n.collections = 8 ∧ outcome ≠ .error .noRoom ∧ outcome = .ok "(T . T)" := by
  obtain ⟨m, new⟩ : ∃ m, Machine.new { workspace := 42 } { pending := [] } = .ok m := ⟨_, rfl⟩
  obtain ⟨_, sparing, -⟩ := of_trial new
    (by decide +kernel : trial 42 (evalRationed 20 5) untidy 20 = some (.ok "(T . T)", 10))
  obtain ⟨n, ran, count⟩ := of_trial new
    (by decide +kernel : trial 42 (eval 5) untidy 20 = some (.ok "(T . T)", 8))
  exact ⟨m, _, _, n, .start new, ran, count,
    evalText_headroom (.start new) sparing (by simp) (Nat.le_refl 20) ran⟩

/-- A call of a function with nine parameters, and one call before it that leaves garbage. -/
def crowded : String :=
  "((LAMBDA (A B C D E F G H I) A) (CAR ()) () () () () () () () ())"

/-- From the last argument to the body the call takes 21 cells. A new machine has as many if it
collects before every step. As it is, it has 20, and garbage. -/
theorem evalText_crowded :
    ∃ (m : Machine) (known : Set Value) (n₁ n₂ : Machine), Run m known ∧ m.arena.capacity = 71 ∧
      m.settings.threshold = 20 ∧
      evalText 12 crowded (m.withThreshold 72) = some (.ok "NIL", n₁) ∧
      evalText 12 crowded m = some (.error .noRoom, n₂) := by
  obtain ⟨m, new, size, default, same⟩ : ∃ m,
      Machine.new { workspace := 71 } { pending := [] } = .ok m ∧ m.arena.capacity = 71 ∧
        m.settings.threshold = 20 ∧ m.withThreshold 20 = m := ⟨_, rfl, by decide +kernel, rfl, rfl⟩
  obtain ⟨n₁, first, -⟩ := of_trial new
    (by decide +kernel : trial 71 (eval 12) crowded 72 = some (.ok "NIL", 16))
  obtain ⟨n₂, second, -⟩ := of_trial new
    (by decide +kernel : trial 71 (eval 12) crowded 20 = some (.error .noRoom, 1))
  exact ⟨m, _, n₁, n₂, .start new, size, default, first, same ▸ second⟩

end ArenaLisp.Run
