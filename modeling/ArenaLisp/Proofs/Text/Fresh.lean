import Mathlib.Tactic.Abel
import ArenaLisp.Proofs.Arena.Fresh
import ArenaLisp.Proofs.Machine.Collection
import ArenaLisp.Proofs.Text.Descent

/-!
# What a read makes

A read fills cells from the front of the free list and makes one tree of all of them (`Weaves`): an
element that waits for its list owns the cells it was made of, and so do the elements before it. What is
discarded after a dot owns none, since it is the empty value. So a read that has a value leaves no
garbage, and what one that fails has taken is garbage altogether (`Machine.read_fresh`).
-/

namespace ArenaLisp

open Storing

namespace Reading

open Result

variable {a b : Arena} {c d : Console} {v head tail : Value} {elements : List Value}
  {own inner others : Multiset Nat} {outcome : Result} {next : Value → Console → Arena → Result}

/-- What cells were taken for, given a part of the value that was there before: with it they are a
tree, if there is a value at all. -/
def Weaves (a : Arena) (own : Multiset Nat) (outcome : Result) : Prop :=
  ∃ ids : List Nat, a.Took ids outcome.2.2 ∧
    ∀ v, outcome.1 = .ok v → outcome.2.2.Tree v (own + ids)

namespace Weaves

theorem ok {rest : List Nat} (list : a.FreeList rest) (tree : a.Tree v own) :
    Weaves a own (.ok v, c, a) := by
  refine ⟨[], .refl list, ?_⟩
  rintro _ ⟨⟩
  simpa using tree

theorem error {fault : Fault} {rest : List Nat} (list : a.FreeList rest) :
    Weaves a own (.error fault, c, a) :=
  ⟨[], .refl list, fun _ same => by cases same⟩

theorem andThen (first : Weaves a inner outcome)
    (second : ∀ v d b (ids : List Nat), outcome = (.ok v, d, b) → a.Took ids b →
      b.Tree v (inner + ids) → Weaves b (own + ids) (next v d b)) :
    Weaves a own (outcome.andThen next) := by
  obtain ⟨ids, took, tree⟩ := first
  rcases outcome with ⟨fault | v, d, b⟩
  · exact ⟨ids, took, fun _ same => by cases same⟩
  · obtain ⟨more, took', tree'⟩ := second v d b ids rfl took (tree v rfl)
    refine ⟨ids ++ more, took.trans took', fun w same => ?_⟩
    have whole := tree' w same
    rwa [add_assoc, Multiset.coe_add] at whole

end Weaves

/-! ### Taking cells -/

theorem weaves_take {content : Cell} {rest : List Nat} (list : a.FreeList rest)
    (filled : ∀ next, content ≠ .free next)
    (tree : ∀ id b, a.Took [id] b → b.cell id = content → b.Tree (.cell id) (id ::ₘ own)) :
    Weaves a own (storing (.cell <$> Arena.take content) c a) := by
  rw [map_eq_pure_bind, storing, run_bind]
  rcases rest with _ | ⟨id, rest⟩
  · rw [Arena.take_run_nil list.empty]
    exact .error list
  · obtain ⟨b, ran, took, content⟩ := Arena.take_run_of_freeList list filled
    rw [ran]
    refine ⟨[id], took, ?_⟩
    rintro _ ⟨⟩
    have whole := tree id b took content
    rwa [← Multiset.singleton_add, add_comm] at whole

theorem weaves_symbol (name : Symbol) {rest : List Nat} (list : a.FreeList rest) :
    Weaves a 0 (storing (Arena.symbol name) c a) :=
  weaves_take list (by simp) fun _ _ _ content => .symbol content

theorem weaves_cons (c : Console) {rest : List Nat} (list : a.FreeList rest) (first : a.Tree head own)
    (second : a.Tree tail others) : Weaves a (own + others) (storing (Arena.cons head tail) c a) :=
  weaves_take list (by simp) fun _ _ took content =>
    .pair content (first.extends' took.extends') (second.extends' took.extends')

theorem weaves_makeWord (letters : List Byte) {rest : List Nat} (list : a.FreeList rest) :
    Weaves a 0 (storing (makeWord letters) c a) := by
  unfold makeWord
  split
  · exact .error list
  · split
    · exact .ok list .nil
    · exact weaves_symbol _ list

theorem weaves_makeQuoted {rest : List Nat} (list : a.FreeList rest) (tree : a.Tree v own) :
    Weaves a own (storing (makeQuoted v) c a) := by
  rw [makeQuoted, storing_bind]
  refine (weaves_symbol _ list).andThen fun quote d b ids _ took quote' => ?_
  obtain ⟨_, list⟩ := took.list
  rw [storing_bind]
  refine (weaves_cons _ list (tree.extends' took.extends') .nil).andThen
    fun inner d b more _ took' inner' => ?_
  obtain ⟨_, list⟩ := took'.list
  have whole := weaves_cons d list (quote'.extends' took'.extends') inner'
  have cells : 0 + ↑ids + (own + 0 + ↑more) = own + ↑ids + (↑more : Multiset Nat) := by abel
  rwa [cells] at whole

theorem weaves_makeList (c : Console) {rest : List Nat} (list : a.FreeList rest)
    (forest : a.Forest elements own) (tree : a.Tree tail others) :
    Weaves a (own + others) (storing (makeList elements tail) c a) := by
  induction elements generalizing a c rest tail own others with
  | nil =>
    cases forest
    rw [zero_add]
    exact .ok list tree
  | cons element elements ih =>
    obtain _ | ⟨element', forest'⟩ := forest
    rename_i own' others'
    rw [makeList, storing_bind]
    refine (weaves_cons _ list element' tree).andThen fun longer d b ids _ took longer' => ?_
    obtain ⟨_, list⟩ := took.list
    have whole := ih d list (forest'.extends' took.extends') longer'
    have cells : others' + (own' + others + ↑ids) =
        own' + others' + others + (↑ids : Multiset Nat) := by abel
    rwa [cells] at whole

/-! ### Reading -/

/-- A read makes one tree of all that it takes, and so does what is left of a list, with the elements
before. -/
theorem weaves_readOn (c : Console) :
    (∀ a rest, a.FreeList rest → Weaves a 0 (readOn [] c a)) ∧
      ∀ a rest elements own, a.FreeList rest → a.Forest elements own →
        Weaves a own (readOn [.list elements] c a) := by
  -- both at once, since a list is read for an expression and expressions for a list
  induction size : c.unread.length using Nat.strong_induction_on generalizing c with
  | _ size ih =>
    have expression : ∀ token d a rest, c.nextToken = (some token, d) → a.FreeList rest →
        Weaves a 0 (begun token d a) := by
      intro token d a rest taken list
      obtain ⟨reads, lists⟩ := ih _ (size ▸ Console.length_of_nextToken taken) d rfl
      cases token with
      | opening => exact lists a rest [] 0 list .nil
      | closing => exact .error list
      | quote =>
        refine (reads a rest list).andThen fun v d b ids _ took tree => ?_
        obtain ⟨_, list⟩ := took.list
        exact weaves_makeQuoted list tree
      | dot => exact reads a rest list
      | word letters => exact weaves_makeWord letters list
    constructor
    · intro a rest list
      rw [readOn_nil_eq]
      split
      · exact .error list
      · rename_i taken
        exact expression _ _ a rest taken list
    · intro a rest elements own list forest
      rw [readOn_list_eq]
      split
      · exact .error list
      · rename_i d _
        have whole := weaves_makeList d list forest .nil
        rwa [add_zero] at whole
      · rename_i d taken
        have less := Console.length_of_nextToken taken
        refine ((ih _ (size ▸ less) d rfl).1 a rest list).andThen fun tail d b ids read took tree => ?_
        obtain ⟨_, list⟩ := took.list
        have shorter := (length_of_readOn read).trans_lt less
        have later := (ih _ (size ▸ shorter) d rfl).2 b _ [] 0 list .nil
        refine later.andThen fun remainder d b more _ took' tree' => ?_
        obtain ⟨_, list⟩ := took'.list
        split
        · rename_i empty
          -- the empty value owns no cells, so the tail and the elements own all that were taken
          rw [empty] at tree'
          have none := tree'.eq_zero
          rw [zero_add] at tree none
          rw [none, add_zero]
          have ext := took'.extends'
          exact weaves_makeList _ list ((forest.extends' took.extends').extends' ext)
            (tree.extends' ext)
        · exact .error list
      · rename_i token d _ _ taken
        refine (expression token d a rest taken list).andThen fun v d b ids read took tree => ?_
        have shorter := (length_of_begun read).trans_lt (Console.length_of_nextToken taken)
        obtain ⟨_, list⟩ := took.list
        rw [zero_add] at tree
        exact (ih _ (size ▸ shorter) d rfl).2 b _ _ _ list (forest.add took tree)

end Reading

/-! ### The machine after a read -/

namespace Arena

variable {a b : Arena} {roots : List Value} {id : Nat} {ids : List Nat} {v : Value}

/-- Cells that were taken from roots which reach no free cell are free again after a collection. -/
theorem Took.collected (took : a.Took ids b) (held : ∀ id, a.ReachedFrom roots id → a.Taken id)
    (member : id ∈ ids) : ¬ (b.collect roots).Taken id := by
  intro taken
  rcases reachedFrom_of_marked (marked_of_taken_sweep taken) with marked | ⟨root, among, path⟩
  · exact (took.marks id marked).1 member
  · have path' := (took.reaches_iff fun id path => held id ⟨root, among, path⟩).1 path
    exact took.free member (held id ⟨root, among, path'⟩)

end Arena

namespace Machine

/-- What a read does to the arena of a machine, in terms of the cells it takes and those it leaves on
the free list. -/
structure ReadsFresh (m : Machine) (taken left : List Nat) (result : Except Fault Value)
    (m' : Machine) : Prop where
  registers : m'.globe = m.globe ∧ m'.stack = m.stack ∧ m'.tee = m.tee
  /-- The cells are the first of the free list, which is exact again without them. -/
  lists : m.arena.FreeList (taken ++ left) ∧ m'.arena.FreeList left
  filled : ∀ id ∈ taken, ¬ m.arena.Taken id ∧ m'.arena.Taken id
  others : ∀ id, id ∉ taken → m'.arena.cell id = m.arena.cell id
  kept : ∀ id, m.arena.Taken id → m'.arena.cell id = m.arena.cell id
  reaches_iff : ∀ v, (∀ id, m.arena.Reaches v id → m.arena.Taken id) →
    ∀ id, m'.arena.Reaches v id ↔ m.arena.Reaches v id
  count : m'.arena.freeCount + taken.length = m.arena.freeCount
  tree : ∀ v, result = .ok v → m.arena.FreshTree taken v m'.arena
  /-- A collection frees them, as long as nothing holds on to the value. -/
  collected : (∀ id, m.Reachable .nil .nil id → m.arena.Taken id) →
    ∀ id ∈ taken, ∃ next, (m'.collect .nil .nil).arena.cell id = .free next

theorem readsFresh_of_took {m m' : Machine} {taken left : List Nat} {result : Except Fault Value}
    (took : m.arena.Took taken m'.arena)
    (lists : m.arena.FreeList (taken ++ left) ∧ m'.arena.FreeList left)
    (registers : m'.globe = m.globe ∧ m'.stack = m.stack ∧ m'.tee = m.tee)
    (tree : ∀ v, result = .ok v → m'.arena.Tree v taken) : m.ReadsFresh taken left result m' where
  registers := registers
  lists := lists
  filled id member := ⟨took.free member, took.taken id member⟩
  others := took.others
  kept := took.extends'.kept
  reaches_iff _ held _ := took.reaches_iff held
  count := took.count
  tree v ok := took.freshTree (tree v ok)
  collected held id member := by
    obtain ⟨globe, stack, tee⟩ := registers
    refine Arena.not_taken_iff.1 ?_
    rw [arena_collect, globe, stack, tee]
    exact took.collected held member

/-- A read fills free cells and changes nothing else. Its value is a tree of exactly those cells. -/
theorem read_fresh (m : Machine) {free : List Nat} (list : m.arena.FreeList free) :
    ∃ result m' taken left, Lisp.read m = some (result, m') ∧ free = taken ++ left ∧
      m.ReadsFresh taken left result m' := by
  obtain ⟨taken, took, tree⟩ := (Reading.weaves_readOn m.console).1 m.arena free list
  obtain ⟨left, whole, rest⟩ := took.lists
  refine ⟨_, _, taken, left, rfl, list.unique whole,
    readsFresh_of_took took ⟨whole, rest⟩ ⟨rfl, rfl, rfl⟩ fun v ok => ?_⟩
  have made := tree v ok
  rwa [zero_add] at made

/-- A machine that is about to read a quotation. -/
def quoting : Machine where
  arena := .new 8
  console := .ofText "'(A . B)"
  settings := {}
  tee := .nil

theorem read_fresh_quoting :
    ∃ free, quoting.arena.FreeList free ∧
      (∀ id, quoting.Reachable .nil .nil id → quoting.arena.Taken id) ∧
      ∃ result m' taken left, Lisp.read quoting = some (result, m') ∧ free = taken ++ left ∧
        quoting.ReadsFresh taken left result m' := by
  obtain ⟨free, list⟩ := (Arena.sound_new 8).list
  refine ⟨free, list, ?_, read_fresh quoting list⟩
  -- all the roots are empty
  rintro id ⟨root, among, path⟩
  obtain rfl : root = .nil := by simpa [quoting] using among
  exact absurd path Arena.not_path_nil

end Machine

end ArenaLisp
