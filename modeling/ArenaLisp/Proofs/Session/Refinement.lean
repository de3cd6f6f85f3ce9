import ArenaLisp.Proofs.Machine.Mirrors.Evaluation
import ArenaLisp.Proofs.Session.Runs

/-!
# A machine refines the interpreter on trees

A host that gives a machine a form sees nothing of the cells: what an evaluation comes to, and what
is remembered afterwards, is what the interpreter on trees says. The size of the workspace matters
only in that there may be no room, and the moments of collection do not matter.
-/

namespace ArenaLisp

namespace Machine

open Arena
open ArenaLisp.Ideal (Memory)

variable {m n : Machine} {env form : Value} {memory : Memory} {tree : Sexp} {fuel id : Nat}

/-- An outcome of the machine and one on trees: a value with its tree, or one fault. -/
inductive Agree (n : Machine) (env : Value) : Except Fault Value → Except Fault Sexp → Prop where
  | value {v : Value} {t : Sexp} : n.Shows env ∅ v t → Agree n env (.ok v) (.ok t)
  | fault {fault : Fault} : Agree n env (.error fault) (.error fault)

/-- An evaluation that does not run out of room comes to what the interpreter on trees comes to, and
leaves the bindings that it leaves. -/
theorem eval_refines {outcome : Except Fault Value} (ready : m.Ready {env})
    (kept : form = .nil ∨ m.arena.Element m.stack form) (models : m.Models env ∅ memory)
    (shows' : m.Shows env ∅ form tree) (ran : Lisp.eval fuel form env m = some (outcome, n))
    (room : outcome ≠ .error .noRoom) :
    ∃ outcome' after, Ideal.eval fuel tree memory = some (outcome', after) ∧
      n.Agree env outcome outcome' ∧ n.Models env ∅ after := by
  have mirrored : m.Mirrored {env} env ∅ memory := by
    refine ⟨ready, rfl, ?_, ?_, models⟩
    · intro e member id here
      have is : e = env := member
      exact is ▸ here
    · intro id member
      exact absurd member (Set.notMem_empty id)
  have anchored : m.Anchored {env} form := by
    intro id is
    subst is
    obtain empty | element := kept
    · cases empty
    · exact ready.firm_element (.inr (.inl rfl)) element
  have simulated := Lisp.simulates_eval fuel mirrored anchored shows'
  obtain fault | v := outcome
  · obtain full | ⟨after, ran', models⟩ := simulated.error ran
    · exact absurd (congrArg Except.error full) room
    · exact ⟨.error fault, after, ran', .fault, models⟩
  · obtain ⟨t, after, ran', reflects⟩ := simulated.ok ran
    exact ⟨.ok t, after, ran', .value reflects.shows', reflects.models⟩

/-- The form `(DEFVAR A (CONS T T))`. -/
def definition : Sexp :=
  .pair (.symbol (.ofBuiltin (.special .defvar))) (.pair (.symbol ⟨1600⟩) (.pair
    (.pair (.symbol (.ofBuiltin (.primitive .cons)))
      (.pair (.symbol Symbol.tee) (.pair (.symbol Symbol.tee) .nil))) .nil))

/-- A machine that has only the definition to evaluate, and collects before each step. -/
def defining : Machine where
  arena := {
    slots := #[⟨.symbol Symbol.tee, false⟩, ⟨.symbol (.ofBuiltin (.special .defvar)), false⟩,
      ⟨.symbol ⟨1600⟩, false⟩, ⟨.symbol (.ofBuiltin (.primitive .cons)), false⟩,
      ⟨.symbol Symbol.tee, false⟩, ⟨.symbol Symbol.tee, false⟩, ⟨.pair (.cell 5) .nil, false⟩,
      ⟨.pair (.cell 4) (.cell 6), false⟩, ⟨.pair (.cell 3) (.cell 7), false⟩,
      ⟨.pair (.cell 8) .nil, false⟩, ⟨.pair (.cell 2) (.cell 9), false⟩,
      ⟨.pair (.cell 1) (.cell 10), false⟩, ⟨.pair (.cell 11) .nil, false⟩,
      ⟨.free (.cell 14), false⟩, ⟨.free (.cell 15), false⟩, ⟨.free (.cell 16), false⟩,
      ⟨.free (.cell 17), false⟩, ⟨.free (.cell 18), false⟩, ⟨.free (.cell 19), false⟩,
      ⟨.free .nil, false⟩]
    freeList := .cell 13
    freeCount := 7 }
  console := { pending := [] }
  settings := { workspace := 20, threshold := 20 }
  stack := .cell 12
  tee := .cell 0

theorem run_defining : Run defining {.cell 11, .nil} := by
  have made : Run _ _ :=
    @Run.start { workspace := 20, threshold := 20 } { pending := [] } _ rfl
  have stored : Run _ _ := @Run.call 0 (.tree definition) _ _ _ _ made trivial rfl
  exact @Run.call 0 (.protect (.cell 11)) _ _ _ (.ok none) stored
    (Arena.live_cell_iff.2 (Arena.taken_of_pair rfl)) rfl

theorem shows_definition : defining.Shows .nil ∅ (.cell 11) definition := by
  have free : ∀ id, ¬ defining.Reserved .nil ∅ id := by
    rintro id (young | ⟨list, rfl | rfl, on | element⟩)
    · exact Set.notMem_empty id young
    · exact not_onList_nil on
    · exact not_element_nil element
    · exact not_onList_nil on
    · exact not_element_nil element
  have plain : ∀ name ∈ [Symbol.ofBuiltin (.special .defvar), ⟨1600⟩,
      .ofBuiltin (.primitive .cons), .tee], ¬ name.Revealing := by
    unfold Symbol.Revealing
    decide
  have argument : ∀ id, defining.arena.cell id = .symbol Symbol.tee →
      defining.Shows .nil ∅ (.cell id) (.symbol Symbol.tee) := fun _ content =>
    .symbol content (plain _ (by decide))
  refine .pair rfl (free _) (.symbol rfl (plain _ (by decide))) ?_
  refine .pair rfl (free _) (.symbol rfl (plain _ (by decide))) ?_
  refine .pair rfl (free _) (.pair rfl (free _) (.symbol rfl (plain _ (by decide))) ?_) .nil
  exact .pair rfl (free _) (argument _ rfl) (.pair rfl (free _) (argument _ rfl) .nil)

theorem eval_refines_definition :
    ∃ n, Lisp.eval 5 (.cell 11) .nil defining = some (.ok (.cell 2), n) ∧ n.collections = 5 ∧
      ∃ outcome after, Ideal.eval 5 definition { globals := [] } = some (outcome, after) ∧
        n.Agree .nil (.ok (.cell 2)) outcome ∧ n.Models .nil ∅ after := by
  have ready : defining.Ready {.nil} := run_defining.ready (.inr rfl) (.inl rfl)
  have models : defining.Models .nil ∅ { globals := [] } :=
    ⟨.nil, .nil, fun _ global => absurd global not_element_nil, rfl⟩
  have ran : ((Lisp.eval 5 (.cell 11) .nil defining).map fun p => (p.1, p.2.collections)) =
      some (.ok (.cell 2), 5) := by rfl
  obtain ⟨⟨_, n⟩, ran, same⟩ := Option.map_eq_some_iff.1 ran
  obtain ⟨rfl, count⟩ := Prod.mk.inj same
  exact ⟨n, ran, count, eval_refines ready (.inr ⟨12, .nil, .here rfl, rfl⟩) models
    shows_definition ran (by simp)⟩

end Machine

end ArenaLisp
