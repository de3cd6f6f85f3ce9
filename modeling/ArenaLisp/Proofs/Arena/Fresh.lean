import Mathlib.Algebra.BigOperators.Group.Finset.Basic
import Mathlib.Algebra.BigOperators.Group.Finset.Piecewise
import ArenaLisp.Proofs.Arena.Printing

/-!
# Fresh trees

A value that was made of cells from the free list alone, each used once, is a tree (`Tree`): what it
reaches are those cells, and every one of them is referred to from one place, except the root
(`Took.freshTree`).
-/

namespace ArenaLisp

/-- How often a cell refers to another. -/
def Cell.references (content : Cell) (id : Nat) : Nat :=
  match content with
  | .pair head tail => (if head = .cell id then 1 else 0) + if tail = .cell id then 1 else 0
  | _ => 0

namespace Arena

variable {a b : Arena} {v : Value} {id : Nat} {ids : List Nat}

/-! ### Trees of cells -/

/-- A value whose cells are all reached in one way: the cells are counted as often as they are met. -/
inductive Tree (a : Arena) : Value → Multiset Nat → Prop where
  | nil : Tree a .nil 0
  | symbol {id : Nat} {name : Symbol} : a.cell id = .symbol name → Tree a (.cell id) {id}
  | pair {id : Nat} {head tail : Value} {heads tails : Multiset Nat} :
    a.cell id = .pair head tail → Tree a head heads → Tree a tail tails →
    Tree a (.cell id) (id ::ₘ (heads + tails))

/-- The trees of several values. -/
inductive Forest (a : Arena) : List Value → Multiset Nat → Prop where
  | nil : Forest a [] 0
  | cons {v : Value} {vs : List Value} {own others : Multiset Nat} :
    a.Tree v own → Forest a vs others → Forest a (v :: vs) (own + others)

variable {own others : Multiset Nat} {vs : List Value}

namespace Tree

theorem extends' (tree : a.Tree v own) (ext : a.Extends b) : b.Tree v own := by
  induction tree with
  | nil => exact .nil
  | symbol content => exact .symbol ((ext.kept _ (taken_of_symbol content)).trans content)
  | pair content _ _ ih ih' =>
    exact .pair ((ext.kept _ (taken_of_pair content)).trans content) ih ih'

theorem eq_zero (tree : a.Tree .nil own) : own = 0 := by
  cases tree
  rfl

theorem unfolds (tree : a.Tree v own) : ∃ t, a.Unfolds v t ∧ t.size = own.card := by
  induction tree with
  | nil => exact ⟨.nil, .nil, rfl⟩
  | symbol content => exact ⟨_, .symbol content, rfl⟩
  | pair content _ _ ih ih' =>
    obtain ⟨t, first, size⟩ := ih
    obtain ⟨t', second, size'⟩ := ih'
    refine ⟨.pair t t', .pair content first second, ?_⟩
    rw [Sexp.size, size, size', Multiset.card_cons, Multiset.card_add]

theorem reaches_iff (tree : a.Tree v own) : a.Reaches v id ↔ id ∈ own := by
  induction tree with
  | nil => exact iff_of_false not_path_nil (Multiset.notMem_zero id)
  | symbol content =>
    rw [Multiset.mem_singleton]
    constructor
    · rintro (_ | ⟨pair, _⟩ | ⟨pair, _⟩)
      · rfl
      · rw [content] at pair
        cases pair
      · rw [content] at pair
        cases pair
    · rintro rfl
      exact .here _
  | pair content _ _ ih ih' =>
    rw [Multiset.mem_cons, Multiset.mem_add, ← ih, ← ih']
    constructor
    · rintro (_ | ⟨pair, path⟩ | ⟨pair, -, path⟩)
      · exact .inl rfl
      · rw [content] at pair
        cases pair
        exact .inr (.inl path)
      · rw [content] at pair
        cases pair
        exact .inr (.inr path)
    · rintro (rfl | path | path)
      · exact .here _
      · exact .head content path
      · exact .tail content not_false path

theorem references (tree : a.Tree v own) (id : Nat) :
    (own.map fun other => (a.cell other).references id).sum + (if v = .cell id then 1 else 0) =
      own.count id := by
  induction tree with
  | nil => simp
  | symbol content => simp [content, Cell.references, Multiset.count_singleton, eq_comm]
  | @pair root head tail heads tails content _ _ ih ih' =>
    -- the root refers to the roots of the two parts, which their own cells do not
    have same : (id = root) = (root = id) := propext eq_comm
    simp only [Multiset.map_cons, Multiset.map_add, Multiset.sum_cons, Multiset.sum_add, content,
      Cell.references, Multiset.count_cons, Multiset.count_add, ← ih, ← ih', Value.cell.injEq, same]
    omega

end Tree

theorem Forest.extends' (forest : a.Forest vs own) (ext : a.Extends b) : b.Forest vs own := by
  induction forest with
  | nil => exact .nil
  | cons tree _ ih => exact .cons (tree.extends' ext) ih

theorem Forest.add (forest : a.Forest vs own) (took : a.Took ids b) (tree : b.Tree v others) :
    b.Forest (v :: vs) (own + others) := by
  rw [add_comm]
  exact .cons tree (forest.extends' took.extends')

/-! ### References -/

/-- How often the cells of an arena refer to a cell. -/
def references (a : Arena) (id : Nat) : Nat :=
  ∑ other ∈ Finset.range a.capacity, (a.cell other).references id

theorem references_of_not_taken (free : ¬ a.Taken id) (other : Nat) :
    (a.cell id).references other = 0 := by
  obtain ⟨next, content⟩ := not_taken_iff.1 free
  rw [content]
  rfl

/-- A tree that was made of new cells adds one reference to each of them, apart from the root. -/
theorem Took.references (took : a.Took ids b) (tree : b.Tree v ids) (member : id ∈ ids) :
    b.references id = a.references id + if v = .cell id then 0 else 1 := by
  -- an old cell refers to what it referred to, and a new one referred to nothing while it was free
  have cells : ∀ other, (b.cell other).references id = (a.cell other).references id +
      if other ∈ ids.toFinset then (b.cell other).references id else 0 := by
    intro other
    split
    · rename_i new
      rw [references_of_not_taken (took.free (List.mem_toFinset.1 new)), Nat.zero_add]
    · rename_i old
      rw [took.others other (by simpa using old), Nat.add_zero]
  have inside : Finset.range a.capacity ∩ ids.toFinset = ids.toFinset := by
    rw [Finset.inter_eq_right]
    intro other new
    rw [Finset.mem_range, ← took.size]
    exact lt_of_taken (took.taken other (List.mem_toFinset.1 new))
  have within := tree.references id
  rw [Multiset.map_coe, Multiset.sum_coe, Multiset.coe_count,
    List.count_eq_one_of_mem took.nodup member] at within
  rw [Arena.references, took.size, Finset.sum_congr rfl fun other _ => cells other,
    Finset.sum_add_distrib, Finset.sum_ite_mem, inside, List.sum_toFinset _ took.nodup,
    ← Arena.references]
  split at within
  · rename_i root
    rw [if_pos root]
    omega
  · rename_i inner
    rw [if_neg inner]
    omega

theorem references_eq_zero
    (closed : ∀ id head tail, a.cell id = .pair head tail → a.Live head ∧ a.Live tail)
    (free : ¬ a.Taken id) : a.references id = 0 := by
  refine Finset.sum_eq_zero fun other _ => ?_
  cases content : a.cell other with
  | pair head tail =>
    obtain ⟨first, second⟩ := closed other head tail content
    have head' : head ≠ .cell id := fun same => free (first id same)
    have tail' : tail ≠ .cell id := fun same => free (second id same)
    simp [Cell.references, head', tail']
  | symbol name => rfl
  | free next => rfl

/-! ### Values made of new cells -/

theorem Took.reaches_iff (took : a.Took ids b) (held : ∀ id, a.Reaches v id → a.Taken id) :
    b.Reaches v id ↔ a.Reaches v id :=
  reaches_congr fun id path => took.extends'.kept id (held id path)

/-- What it means that a value is a tree of its own, made of certain cells of an arena that were free
before. -/
structure FreshTree (a : Arena) (taken : List Nat) (v : Value) (b : Arena) : Prop where
  reaches_iff : ∀ id, b.Reaches v id ↔ id ∈ taken
  references : ∀ id ∈ taken, b.references id = a.references id + if v = .cell id then 0 else 1
  /-- That is once altogether, if no pair referred to a free cell before. -/
  once : (∀ id head tail, a.cell id = .pair head tail → a.Live head ∧ a.Live tail) →
    ∀ id ∈ taken, b.references id = if v = .cell id then 0 else 1
  /-- It is finite, with a symbol or a pair for each of them. -/
  unfolds : ∃ t, b.Unfolds v t ∧ t.size = taken.length

theorem Took.freshTree (took : a.Took ids b) (tree : b.Tree v ids) : a.FreshTree ids v b where
  reaches_iff id := tree.reaches_iff.trans Multiset.mem_coe
  references id member := took.references tree member
  once closed id member := by
    rw [took.references tree member, references_eq_zero closed (took.free member), Nat.zero_add]
  unfolds := tree.unfolds

end Arena

end ArenaLisp
