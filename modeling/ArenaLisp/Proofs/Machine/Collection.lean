import Mathlib.Data.Set.Card
import Mathlib.Tactic.IntervalCases
import ArenaLisp.Machine.Basic
import ArenaLisp.Proofs.Arena.Sweeping

/-!
# Collections

A collection frees exactly what its roots do not reach. Its outcome is a function of the roots and
the cells they reach (`collect_congr`), so a second collection finds nothing left to do.
-/

namespace ArenaLisp

namespace Arena

/-- A cell that one of some roots reaches. -/
def ReachedFrom (a : Arena) (roots : List Value) (id : Nat) : Prop :=
  ∃ root ∈ roots, a.Reaches root id

variable {a b : Arena} {roots : List Value} {id : Nat}

theorem reachedFrom_congr (same : ∀ id, a.ReachedFrom roots id → b.cell id = a.cell id) :
    b.ReachedFrom roots id ↔ a.ReachedFrom roots id := by
  simp only [ReachedFrom]
  refine exists_congr fun root => and_congr_right fun member => ?_
  exact reaches_congr fun id path => same id ⟨root, member, path⟩

@[simp] theorem capacity_collect (a : Arena) (roots : List Value) :
    (a.collect roots).capacity = a.capacity := by
  rw [collect, capacity_sweep, capacity_foldl_mark]

theorem marked_collect (a : Arena) (roots : List Value) (id : Nat) :
    (a.collect roots).marked id = false :=
  marked_sweep ..

/-- Marks that are new were put on what the roots reach, wherever there were marks before. -/
theorem reachedFrom_of_marked (marked : (roots.foldl mark a).marked id = true) :
    a.marked id = true ∨ a.ReachedFrom roots id := by
  induction roots generalizing a with
  | nil => exact .inl marked
  | cons root roots ih =>
    rcases ih marked with marked | ⟨other, member, path⟩
    · rcases reaches_of_marked marked with old | ⟨other, member, path⟩
      · exact .inl old
      · obtain rfl := List.mem_singleton.1 member
        exact .inr ⟨other, List.mem_cons_self, path⟩
    · have path' := (reaches_congr fun _ _ => cell_mark ..).1 path
      exact .inr ⟨other, List.mem_cons_of_mem _ member, path'⟩

/-- What the roots reach holds what it held, free cells too. -/
theorem cell_collect_of_plain (plain : ∀ id, a.marked id = false)
    (reached : a.ReachedFrom roots id) : (a.collect roots).cell id = a.cell id := by
  by_cases inside : id < a.capacity
  · have mark : (roots.foldl mark a).marked id = true :=
      (marked_foldl_mark_iff (traced_of_unmarked plain) inside).2 (.inr reached)
    rw [collect, cell_sweep mark, cell_foldl_mark]
  · have outside : ¬ id < (a.collect roots).capacity := by rwa [capacity_collect]
    rw [cell, cell, slot_of_not_lt inside, slot_of_not_lt outside]

section

variable (plain : ∀ id, a.marked id = false) (held : ∀ id, a.ReachedFrom roots id → a.Taken id)
include plain held

theorem marked_roots_iff : (roots.foldl mark a).marked id = true ↔ a.ReachedFrom roots id := by
  constructor
  · intro mark
    have inside : id < a.capacity := by simpa [capacity_foldl_mark] using lt_of_marked mark
    simpa [plain, ReachedFrom] using
      (marked_foldl_mark_iff (traced_of_unmarked plain) inside).1 mark
  · intro reached
    exact (marked_foldl_mark_iff (traced_of_unmarked plain) (lt_of_taken (held id reached))).2
      (.inr reached)

theorem taken_collect_iff : (a.collect roots).Taken id ↔ a.ReachedFrom roots id := by
  rw [collect, taken_sweep_iff, marked_roots_iff plain held]
  intro mark next
  rw [cell_foldl_mark]
  exact held id ((marked_roots_iff plain held).1 mark) next

theorem cell_collect (reached : a.ReachedFrom roots id) :
    (a.collect roots).cell id = a.cell id := by
  rw [collect, cell_sweep ((marked_roots_iff plain held).2 reached), cell_foldl_mark]

theorem chain_collect : ∃ ids, (a.collect roots).Chain (a.collect roots).freeList ids ∧
    (a.collect roots).freeCount = ids.length ∧ ids.Pairwise (· < ·) ∧
    ∀ id, id ∈ ids ↔ id < a.capacity ∧ ¬ a.ReachedFrom roots id := by
  refine ⟨_, chain_sweep _, freeCount_sweep _, sorted_unmarkedBelow .., fun id => ?_⟩
  rw [mem_unmarkedBelow, capacity_foldl_mark, ← marked_roots_iff plain held, Bool.not_eq_true]

theorem freeCount_collect :
    (a.collect roots).freeCount = a.capacity - {id | a.ReachedFrom roots id}.ncard := by
  have marks : {id | a.ReachedFrom roots id} =
      ↑((Finset.range a.capacity).filter fun id => (roots.foldl mark a).marked id = true) := by
    ext id
    simp only [Set.mem_ofPred_eq, Finset.coe_filter, Finset.mem_range,
      marked_roots_iff plain held]
    exact ⟨fun reached => ⟨lt_of_taken (held id reached), reached⟩, fun h => h.2⟩
  have plainCells : ((roots.foldl mark a).unmarkedBelow a.capacity).length =
      ((Finset.range a.capacity).filter fun id => ¬ (roots.foldl mark a).marked id = true).card := by
    have same : (roots.foldl mark a).unmarkedBelow a.capacity =
        (List.range a.capacity).filter fun id => ¬ (roots.foldl mark a).marked id = true := by
      simp [unmarkedBelow]
    rw [same]
    rfl
  have total := Finset.card_filter_add_card_filter_not (s := Finset.range a.capacity)
    fun id => (roots.foldl mark a).marked id = true
  rw [Finset.card_range] at total
  rw [collect, freeCount_sweep, capacity_foldl_mark, plainCells, marks, Set.ncard_coe_finset]
  omega

theorem collect_congr (size : b.capacity = a.capacity) (plain' : ∀ id, b.marked id = false)
    (same : ∀ id, a.ReachedFrom roots id → b.cell id = a.cell id) :
    b.collect roots = a.collect roots := by
  have reached : ∀ id, b.ReachedFrom roots id ↔ a.ReachedFrom roots id := fun id =>
    reachedFrom_congr same
  have held' : ∀ id, b.ReachedFrom roots id → b.Taken id := by
    intro id path next
    rw [same id ((reached id).1 path)]
    exact held id ((reached id).1 path) next
  refine sweep_congr (by rw [capacity_foldl_mark, capacity_foldl_mark, size]) ?_ ?_
  · intro id
    rw [Bool.eq_iff_iff, marked_roots_iff plain' held', marked_roots_iff plain held, reached]
  · intro id mark
    rw [cell_foldl_mark, cell_foldl_mark]
    exact same id ((marked_roots_iff plain held).1 mark)

theorem collect_collect : (a.collect roots).collect roots = a.collect roots :=
  collect_congr plain held (capacity_collect ..) (marked_collect a roots) fun _ reached =>
    cell_collect plain held reached

end

end Arena

namespace Machine

/-- A cell that a collection keeps: one that a register, the form or the environment reaches. -/
def Reachable (m : Machine) (form env : Value) (id : Nat) : Prop :=
  m.arena.ReachedFrom [m.tee, m.globe, m.stack, form, env] id

theorem arena_collect (m : Machine) (form env : Value) :
    (m.collect form env).arena = m.arena.collect [m.tee, m.globe, m.stack, form, env] := rfl

theorem registers_collect (m : Machine) (form env : Value) :
    (m.collect form env).tee = m.tee ∧ (m.collect form env).globe = m.globe ∧
      (m.collect form env).stack = m.stack := by
  cases m
  exact ⟨rfl, rfl, rfl⟩

/-- What it means that a collection keeps what is in use, frees all else, and forgets the rest of the
machine's history. -/
structure CollectsExactly (m : Machine) (form env : Value) : Prop where
  ends : ∀ (a : Arena) (root : Value) (rounds : Nat), 2 * a.capacity + 1 ≤ rounds →
    Arena.markFrom rounds [root] a = a.mark root
  free_iff : ∀ id < m.arena.capacity,
    (∃ next, (m.collect form env).arena.cell id = .free next) ↔ ¬ m.Reachable form env id
  kept : ∀ id, m.Reachable form env id → (m.collect form env).arena.cell id = m.arena.cell id
  chain : ∃ ids, (m.collect form env).arena.Chain (m.collect form env).arena.freeList ids ∧
    ids.Pairwise (· < ·) ∧ ∀ id, id ∈ ids ↔
      id < m.arena.capacity ∧ ∃ next, (m.collect form env).arena.cell id = .free next
  count : (m.collect form env).arena.freeCount =
    m.arena.capacity - {id | m.Reachable form env id}.ncard
  plain : ∀ id, (m.collect form env).arena.marked id = false
  /-- The arena is a function of the registers and the reachable cells. -/
  determined : ∀ other : Machine, other.tee = m.tee → other.globe = m.globe →
    other.stack = m.stack → other.arena.capacity = m.arena.capacity →
    (∀ id, other.arena.marked id = false) →
    (∀ id, m.Reachable form env id → other.arena.cell id = m.arena.cell id) →
    (other.collect form env).arena = (m.collect form env).arena
  again : (m.collect form env).collect form env =
    { m.collect form env with collections := (m.collect form env).collections + 1 }

/-- A collection is exact in every machine without marks that reaches no free cell. -/
theorem collect_exact (m : Machine) (form env : Value)
    (plain : ∀ id, m.arena.marked id = false)
    (held : ∀ id, m.Reachable form env id → m.arena.Taken id) :
    m.CollectsExactly form env where
  ends a root _ rounds := Arena.mark_eq_of_le a root rounds
  free_iff id _ := by
    rw [← Arena.not_taken_iff, not_iff_not]
    exact Arena.taken_collect_iff plain held
  kept _ reached := Arena.cell_collect plain held reached
  chain := by
    obtain ⟨ids, chain, -, sorted, members⟩ := Arena.chain_collect plain held
    refine ⟨ids, chain, sorted, fun id => ?_⟩
    rw [members, ← Arena.not_taken_iff]
    exact and_congr_right fun _ => not_congr (Arena.taken_collect_iff plain held).symm
  count := Arena.freeCount_collect plain held
  plain := Arena.marked_collect _ _
  determined other tee globe stack size plain' same := by
    have roots : [other.tee, other.globe, other.stack, form, env] =
        [m.tee, m.globe, m.stack, form, env] := by
      rw [tee, globe, stack]
    rw [arena_collect, arena_collect, roots]
    exact Arena.collect_congr plain held size plain' same
  again := by
    have twice := Arena.collect_collect plain held
    rcases m with ⟨arena, console, settings, globe, stack, tee, interrupted, collections⟩
    simp only [collect, twice]

/-- A machine whose global environment refers to itself, with a pair of garbage and a free cell. -/
def knot : Machine where
  arena := {
    slots := #[⟨.symbol Symbol.tee, false⟩, ⟨.pair (.cell 2) (.cell 1), false⟩,
      ⟨.pair (.cell 1) (.cell 0), false⟩, ⟨.pair (.cell 1) (.cell 3), false⟩, ⟨.free .nil, false⟩]
    freeList := .cell 4
    freeCount := 1 }
  console := { pending := [] }
  settings := {}
  globe := .cell 1
  tee := .cell 0

theorem collect_exact_knot :
    (∀ id, knot.arena.marked id = false) ∧
      (∀ id, knot.Reachable .nil .nil id → knot.arena.Taken id) ∧
      knot.CollectsExactly .nil .nil := by
  have outside : ∀ {id}, ¬ id < 5 → knot.arena.slots[id]? = none := fun beyond =>
    Array.getElem?_eq_none (Nat.le_of_not_lt beyond)
  have plain : ∀ id, knot.arena.marked id = false := by
    intro id
    by_cases inside : id < 5
    · interval_cases id <;> rfl
    · simp [Arena.marked, outside inside]
  have taken : ∀ id < 4, knot.arena.Taken id := by
    intro id inside next
    interval_cases id <;> simp [knot, Arena.cell]
  have live : ∀ id < 4, knot.arena.Live (.cell id) := fun id inside =>
    Arena.live_cell_iff.2 (taken id inside)
  have closed : ∀ id head tail, knot.arena.cell id = .pair head tail →
      knot.arena.Live head ∧ knot.arena.Live tail := by
    intro id head tail pair
    by_cases inside : id < 5
    · interval_cases id <;> cases pair
      · exact ⟨live 2 (by decide), live 1 (by decide)⟩
      · exact ⟨live 1 (by decide), live 0 (by decide)⟩
      · exact ⟨live 1 (by decide), live 3 (by decide)⟩
    · simp [Arena.cell, outside inside] at pair
  have held : ∀ id, knot.Reachable .nil .nil id → knot.arena.Taken id := by
    rintro id ⟨root, member, path⟩
    refine Arena.taken_of_reaches closed ?_ path
    simp only [List.mem_cons, List.not_mem_nil, or_false] at member
    obtain rfl | rfl | rfl | rfl | rfl := member
    · exact live 0 (by decide)
    · exact live 1 (by decide)
    · exact Arena.live_nil _
    · exact Arena.live_nil _
    · exact Arena.live_nil _
  exact ⟨plain, held, collect_exact knot .nil .nil plain held⟩

end Machine

end ArenaLisp
