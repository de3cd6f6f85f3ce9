import ArenaLisp.Proofs.Session.Runs

/-!
# What is protected survives

An evaluation collects, takes cells that were free, and writes into bindings, at any depth. What the
protection stack leads to is spared by all of this, whatever the outcome (`eval_leavesAlone`): only
the values of bindings may be other ones afterwards.
-/

namespace ArenaLisp

namespace Machine

open Arena

/-- What a later state `n` of a machine has left alone of what was protected when an evaluation in
an environment began. -/
structure LeavesAlone (m : Machine) (env : Value) (n : Machine) : Prop where
  /-- A cell that the stack or the truth value leads to, not by the tail of a binding, is still
  handed out and holds what it held, but for the tail if it is a binding. -/
  kept : ∀ root ∈ [m.stack, m.tee], ∀ id, m.arena.Path (m.Binding {env}) root id →
    n.arena.Taken id ∧ (n.arena.cell id = m.arena.cell id ∨
      m.Binding {env} id ∧ ∃ head tail tail', m.arena.cell id = .pair head tail ∧
        n.arena.cell id = .pair head tail')
  list : ∀ id, m.arena.Along env id → n.arena.cell id = m.arena.cell id
  elements : ∀ v, n.arena.Element env v ↔ m.arena.Element env v
  names : ∀ id, m.arena.Element env (.cell id) →
    n.arena.isPair (.cell id) = m.arena.isPair (.cell id) ∧
      n.arena.car (.cell id) = m.arena.car (.cell id) ∧
      n.arena.symbol? (n.arena.car (.cell id)) = m.arena.symbol? (m.arena.car (.cell id))

variable {m n : Machine} {env form : Value} {held : Set Value} {id : Nat}

/-- A firm cell after an evaluation: of a pair at most the tail is another, and only in a binding. -/
theorem Stage.cases_firm (ready : m.Ready held) (stage : m.Stage held n) (firm : m.Firm held id) :
    n.arena.cell id = m.arena.cell id ∨ m.Binding held id ∧ ∃ head tail tail',
      m.arena.cell id = .pair head tail ∧ n.arena.cell id = .pair head tail' := by
  rcases stage.evolves.kept id firm with same | ⟨binding, tail', same⟩
  · exact .inl same
  · cases content : m.arena.cell id with
    | pair head tail => exact .inr ⟨binding, head, tail, tail', rfl, by rw [same, content]; rfl⟩
    | symbol name => exact .inl (by rw [same, content]; rfl)
    | free next => exact absurd content (firm.taken ready.sound next)

theorem Stage.shape_firm (ready : m.Ready held) (stage : m.Stage held n) (firm : m.Firm held id) :
    n.arena.isPair (.cell id) = m.arena.isPair (.cell id) ∧
      n.arena.car (.cell id) = m.arena.car (.cell id) ∧
      n.arena.symbol? (.cell id) = m.arena.symbol? (.cell id) := by
  rcases stage.cases_firm ready firm with same | ⟨-, head, tail, tail', before, after⟩
  · simp [isPair, car, symbol?, same]
  · simp [isPair, car, symbol?, before, after]

theorem Firm.car {inner : Nat} (firm : m.Firm held id) (is : m.arena.car (.cell id) = .cell inner) :
    m.Firm held inner := by
  rcases m.arena.car_cases (.cell id) with empty | ⟨id', tail, same, pair⟩
  · rw [is] at empty
    cases empty
  · cases same
    rw [is] at pair
    exact firm.trans (.head pair (.here inner))

/-- An evaluation leaves alone what was protected before it, whatever its outcome. -/
theorem eval_leavesAlone {fuel : Nat} {outcome : Except Fault Value} (sound : m.Sound)
    (proper : m.Proper {env}) (kept : env = .nil ∨ m.arena.Element m.stack env)
    (live : m.arena.Live form) (ran : Lisp.eval fuel form env m = some (outcome, n)) :
    m.LeavesAlone env n := by
  have ready : m.Ready {env} := by
    refine ⟨sound, proper, fun e member => ?_⟩
    exact (show e = env from member) ▸ kept
  have ensures := Lisp.preserves_eval fuel ready rfl live
  have stage : m.Stage {env} n := by
    cases outcome with
    | ok v => exact (ensures.ok ran).goesOn.stage
    | error fault => exact (ensures.error ran).stage
  have listed : m.Listed {env} env := .inr (.inr rfl)
  refine ⟨?_, fun id along => stage.evolves.same ready listed along,
    fun v => stage.evolves.element_iff ready listed, ?_⟩
  · intro root among id path
    have firm : m.Firm {env} id := by
      simp only [List.mem_cons, List.not_mem_nil, or_false] at among
      obtain rfl | rfl := among
      · exact ⟨m.stack, by simp, path⟩
      · exact ⟨m.tee, by simp, path⟩
    exact ⟨(stage.firm ready firm).taken stage.sound, stage.cases_firm ready firm⟩
  · intro id element
    have firm := ready.firm_element listed element
    obtain ⟨pair, car, -⟩ := stage.shape_firm ready firm
    refine ⟨pair, car, ?_⟩
    rw [car]
    cases name : m.arena.car (.cell id) with
    | nil => rfl
    | cell inner => exact (stage.shape_firm ready (firm.car name)).2.2

/-- The form `(SETQ A (CONS A A))`. -/
def assignment : Sexp :=
  .pair (.symbol (.ofBuiltin (.special .setq))) (.pair (.symbol ⟨1600⟩) (.pair
    (.pair (.symbol (.ofBuiltin (.primitive .cons)))
      (.pair (.symbol ⟨1600⟩) (.pair (.symbol ⟨1600⟩) .nil))) .nil))

/-- A machine that protects an environment, a frame on a binding of `A`, and the assignment. It
collects before each step. -/
def assigning : Machine where
  arena := {
    slots := #[⟨.symbol Symbol.tee, false⟩, ⟨.symbol ⟨1600⟩, false⟩, ⟨.symbol Symbol.tee, false⟩,
      ⟨.pair (.cell 1) (.cell 2), false⟩, ⟨.pair (.cell 3) .nil, false⟩,
      ⟨.pair .nil (.cell 4), false⟩, ⟨.pair (.cell 5) .nil, false⟩,
      ⟨.symbol (.ofBuiltin (.special .setq)), false⟩, ⟨.symbol ⟨1600⟩, false⟩,
      ⟨.symbol (.ofBuiltin (.primitive .cons)), false⟩, ⟨.symbol ⟨1600⟩, false⟩,
      ⟨.symbol ⟨1600⟩, false⟩, ⟨.pair (.cell 11) .nil, false⟩,
      ⟨.pair (.cell 10) (.cell 12), false⟩, ⟨.pair (.cell 9) (.cell 13), false⟩,
      ⟨.pair (.cell 14) .nil, false⟩, ⟨.pair (.cell 8) (.cell 15), false⟩,
      ⟨.pair (.cell 7) (.cell 16), false⟩, ⟨.pair (.cell 17) (.cell 6), false⟩,
      ⟨.free (.cell 20), false⟩, ⟨.free (.cell 21), false⟩, ⟨.free (.cell 22), false⟩,
      ⟨.free (.cell 23), false⟩, ⟨.free .nil, false⟩]
    freeList := .cell 19
    freeCount := 5 }
  console := { pending := [] }
  settings := { workspace := 24, threshold := 24 }
  stack := .cell 18
  tee := .cell 0

theorem run_assigning : ∃ known, Run assigning known ∧ .cell 5 ∈ known := by
  have live : ∀ {m : Machine} {id head tail}, m.arena.cell id = .pair head tail →
      m.arena.Live (.cell id) := fun pair => live_cell_iff.2 (taken_of_pair pair)
  have symbol : ∀ {m : Machine} {id name}, m.arena.cell id = .symbol name →
      m.arena.Live (.cell id) := fun content => live_cell_iff.2 (taken_of_symbol content)
  have made : Run _ _ :=
    @Run.start { workspace := 24, threshold := 24 } { pending := [] } _ rfl
  have name : Run _ _ := @Run.call 0 (.tree (.symbol ⟨1600⟩)) _ _ _ _ made trivial rfl
  have value : Run _ _ := @Run.call 0 (.tree (.symbol Symbol.tee)) _ _ _ _ name trivial rfl
  have bound : Run _ _ := @Run.call 0 (.bind (.cell 1) (.cell 2) .nil) _ _ _ _ value
    ⟨symbol rfl, symbol rfl, value.standing.2⟩ rfl
  have framed : Run _ _ := @Run.call 0 (.frame (.cell 4)) _ _ _ _ bound (.inl rfl) rfl
  have kept : Run _ _ := @Run.call 0 (.protect (.cell 5)) _ _ _ _ framed (live rfl) rfl
  have stored : Run _ _ := @Run.call 0 (.tree assignment) _ _ _ _ kept trivial rfl
  have ready : Run assigning _ := @Run.call 0 (.protect (.cell 17)) _ _ _ (.ok none) stored
    (live rfl) rfl
  exact ⟨_, ready, .inr (.inl rfl)⟩

theorem eval_leavesAlone_assignment :
    ∃ v n, Lisp.eval 5 (.cell 17) (.cell 5) assigning = some (.ok v, n) ∧ n.collections = 5 ∧
      n.arena.cdr (.cell 3) = v ∧ assigning.arena.cdr (.cell 3) = .cell 2 ∧
      assigning.LeavesAlone (.cell 5) n := by
  obtain ⟨known, run, member⟩ := run_assigning
  have standing := run.standing.1.mono (Set.singleton_subset_iff.2 member)
  have ran : ((Lisp.eval 5 (.cell 17) (.cell 5) assigning).map fun p =>
      (p.1, p.2.collections, p.2.arena.cdr (.cell 3))) =
        some (.ok (.cell 23), 5, .cell 23) := by
    rfl
  obtain ⟨⟨_, n⟩, ran, same⟩ := Option.map_eq_some_iff.1 ran
  obtain ⟨rfl, count, value⟩ : _ ∧ _ ∧ _ := by simpa using same
  exact ⟨_, n, ran, count, value, rfl, eval_leavesAlone standing.sound standing.proper
    (.inr ⟨6, .nil, .next rfl (.here rfl), rfl⟩) (live_cell_iff.2 (taken_of_pair rfl)) ran⟩

end Machine

end ArenaLisp
