import ArenaLisp.Proofs.Session.Cycles

/-!
# The protection stack is balanced

An evaluation that answers has let go of all that it protected. One that stops with a fault may leave
values on the stack, but only on top of what was there before (`Run.balanced`).
-/

namespace ArenaLisp

namespace Machine

open Lisp

variable {m n : Machine} {known held : Set Value} {α : Type}

/-- The stack of a later state comes to the old one along its tails, and the list cells of the old
one hold what they held. -/
structure OnTop (m n : Machine) : Prop where
  suffix : n.arena.Suffix m.stack n.stack
  same : ∀ id, m.arena.OnList m.stack id → n.arena.cell id = m.arena.cell id

def Balanced (m : Machine) (outcome : Except Fault α) (n : Machine) : Prop :=
  m.OnTop n ∧ ∀ v, outcome = .ok v → n.stack = m.stack

def Released (m : Machine) (outcome : Except Fault α) (n : Machine) : Prop :=
  match outcome with
  | .ok _ => m.OnTop n ∧ n.stack = m.stack
  | .error _ => n.stack = .nil

theorem Stage.onTop (ready : m.Ready held) (stage : m.Stage held n) : m.OnTop n :=
  ⟨stage.evolves.stack, fun _ on => stage.evolves.same ready (.inr (.inl rfl)) on.along⟩

theorem balanced_eval {fuel : Nat} {form env : Value} {outcome : Except Fault Value}
    (ready : m.Ready held) (member : env ∈ held) (live : m.arena.Live form)
    (ran : eval fuel form env m = some (outcome, n)) : m.Balanced outcome n := by
  have ensures := preserves_eval fuel ready member live
  cases outcome with
  | ok v =>
    have goesOn := (ensures.ok ran).goesOn
    exact ⟨goesOn.stage.onTop ready, fun _ _ => goesOn.stack⟩
  | error fault => exact ⟨(ensures.error ran).stage.onTop ready, by simp⟩

theorem released_of_ensures {x : Lisp α} {outcome : Except Fault α} (ready : m.Ready held)
    (ensures : Ensures x m (fun _ n => m.GoesOn held n) fun fault n =>
      fault ≠ .unprintable ∧ n.Ready {.nil} ∧ n.stack = .nil)
    (ran : x m = some (outcome, n)) : m.Released outcome n := by
  cases outcome with
  | ok v =>
    have goesOn := ensures.ok ran
    exact ⟨goesOn.stage.onTop ready, goesOn.stack⟩
  | error fault => exact (ensures.error ran).2.2

end Machine

namespace Run

open Lisp Machine

variable {m : Machine} {known : Set Value}

/-- An evaluation in any run, in an environment that is empty or protected, is balanced. Text that is
evaluated and files that are loaded leave the stack as it was, or empty. At every prompt of a session
it is empty. -/
theorem balanced (run : Run m known) :
    (∀ fuel form env outcome n, Call.Allowed m known (.eval form env) →
      eval fuel form env m = some (outcome, n) → m.Balanced outcome n) ∧
    (∀ fuel text outcome n, evalText fuel text m = some (outcome, n) → m.Released outcome n) ∧
    (∀ fuel path contents outcome n,
      loadPath fuel path (some (.file contents)) m = some (outcome, n) → m.Released outcome n) ∧
    ∀ opened, Session opened → (opened.collect .nil .nil).prompt.stack = .nil := by
  obtain ⟨standing, nil⟩ := run.standing
  have ready := standing.ready
  have nil' : .nil ∈ m.protectedOf known := ⟨nil, .inl rfl⟩
  refine ⟨?eval, ?text, ?file, ?prompt⟩
  case eval =>
    rintro fuel form env outcome n ⟨live, member, kept⟩ ran
    exact balanced_eval ready ⟨member, kept⟩ live ran
  case text =>
    intro fuel text outcome n ran
    exact released_of_ensures ready (ensures_evalText nil' ready fuel text) ran
  case file =>
    intro fuel path contents outcome n ran
    exact released_of_ensures ready (ensures_load nil' ready fuel contents) ran
  case prompt =>
    intro opened session
    exact session.ready.2

/-- The form `(CONS (B) T)`. -/
def unfinished : Sexp :=
  .pair (.symbol (.ofBuiltin (.primitive .cons)))
    (.pair (.pair (.symbol ⟨3200⟩) .nil) (.pair (.symbol Symbol.tee) .nil))

/-- A function that is being called is left on top of a protected value. -/
theorem balanced_unfinished :
    ∃ (m n : Machine) (known : Set Value) (fault : Fault), Run m known ∧ m.stack = .cell 1 ∧
      eval 5 (.cell 8) .nil m = some (.error fault, n) ∧ fault = .undefined "B" ∧
      n.stack = .cell 10 ∧ m.Balanced (Except.error fault : Except Fault Value) n := by
  have made : Run _ _ :=
    @start { workspace := 12, threshold := 0 } { pending := [] } _ rfl
  have kept : Run _ _ := @call 0 (.protect (.cell 0)) _ _ _ _ made
    (Arena.live_cell_iff.2 (Arena.taken_of_symbol rfl)) rfl
  have stored : Run _ _ := @call 0 (.tree unfinished) _ _ _ _ kept trivial rfl
  refine ⟨_, _, _, _, stored, rfl, rfl, rfl, rfl, stored.balanced.1 5 (.cell 8) .nil _ _ ?_ rfl⟩
  exact ⟨Arena.live_cell_iff.2 (Arena.taken_of_pair rfl), stored.standing.2, .inl rfl⟩

end Run

end ArenaLisp
