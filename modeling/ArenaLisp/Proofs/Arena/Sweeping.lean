import ArenaLisp.Proofs.Arena.Marking

/-!
# Sweeping

A sweep goes from the last cell to the first, so the chain it builds is ascending
(`chain_sweep`). The outcome depends on nothing but the marks and the cells that have one
(`sweep_congr`): what the others held, and the chain from before, are forgotten.
-/

namespace ArenaLisp.Arena

variable {a b : Arena}

/-- The free cells that are met from a value on, each naming the next, up to the empty value. -/
inductive Chain (a : Arena) : Value → List Nat → Prop where
  | nil : Chain a .nil []
  | cons {id : Nat} {next : Value} {ids : List Nat} :
    id < a.capacity → a.cell id = .free next → Chain a next ids → Chain a (.cell id) (id :: ids)

theorem Chain.congr {v : Value} {ids : List Nat} (chain : a.Chain v ids)
    (size : b.capacity = a.capacity) (same : ∀ id ∈ ids, b.cell id = a.cell id) :
    b.Chain v ids := by
  induction chain with
  | nil => exact .nil
  | @cons id next ids inside free _ ih =>
    refine .cons (size ▸ inside) ((same id List.mem_cons_self).trans free) ?_
    exact ih fun other member => same other (List.mem_cons_of_mem _ member)

theorem Chain.free {v : Value} {ids : List Nat} (chain : a.Chain v ids) {id : Nat}
    (member : id ∈ ids) : id < a.capacity ∧ ¬ a.Taken id := by
  induction chain with
  | nil => simp at member
  | cons inside free _ ih =>
    rcases List.mem_cons.1 member with rfl | member
    · exact ⟨inside, not_taken_iff.2 ⟨_, free⟩⟩
    · exact ih member

theorem Chain.unique {v : Value} {ids others : List Nat} (chain : a.Chain v ids)
    (other : a.Chain v others) : ids = others := by
  induction chain generalizing others with
  | nil =>
    cases other
    rfl
  | cons _ free _ ih =>
    cases other with
    | cons _ free' rest =>
      rw [free] at free'
      cases free'
      rw [ih rest]

/-- The cells below a number that have no mark, in ascending order. -/
def unmarkedBelow (a : Arena) (n : Nat) : List Nat :=
  (List.range n).filter fun id => !a.marked id

theorem unmarkedBelow_succ (a : Arena) (n : Nat) :
    a.unmarkedBelow (n + 1) = a.unmarkedBelow n ++ if a.marked n then [] else [n] := by
  simp only [unmarkedBelow, List.range_succ, List.filter_append, List.filter_singleton]
  cases a.marked n <;> rfl

theorem mem_unmarkedBelow {n id : Nat} :
    id ∈ a.unmarkedBelow n ↔ id < n ∧ a.marked id = false := by
  simp [unmarkedBelow]

theorem unmarkedBelow_congr {n : Nat} (h : ∀ id, id < n → b.marked id = a.marked id) :
    b.unmarkedBelow n = a.unmarkedBelow n := by
  refine List.filter_congr fun id member => ?_
  rw [h id (List.mem_range.1 member)]

theorem sorted_unmarkedBelow (a : Arena) (n : Nat) : (a.unmarkedBelow n).Pairwise (· < ·) :=
  List.pairwise_lt_range.filter _

theorem sweepBelow_marked {id : Nat} (h : a.marked id = true) :
    sweepBelow (id + 1) a = sweepBelow id (a.clearMark id) := by
  rw [sweepBelow, slot_of_lt (lt_of_marked h), h]

theorem sweepBelow_plain {id : Nat} (h : a.marked id = false) :
    sweepBelow (id + 1) a = sweepBelow id (a.release id) := by
  rw [sweepBelow]
  by_cases inside : id < a.capacity
  · rw [slot_of_lt inside, h]
  · rw [slot_of_not_lt inside]

@[simp] theorem capacity_sweepBelow (n : Nat) (a : Arena) :
    (sweepBelow n a).capacity = a.capacity := by
  induction n generalizing a with
  | zero => rfl
  | succ id ih =>
    cases mark : a.marked id with
    | true => rw [sweepBelow_marked mark, ih, capacity_clearMark]
    | false => rw [sweepBelow_plain mark, ih, capacity_release]

theorem marked_sweepBelow {n : Nat} (inside : n ≤ a.capacity) (id : Nat) :
    (sweepBelow n a).marked id = if id < n then false else a.marked id := by
  induction n generalizing a with
  | zero => rfl
  | succ n ih =>
    cases mark : a.marked n with
    | true =>
      rw [sweepBelow_marked mark, ih (by simp; omega), marked_clearMark]
      by_cases below : id < n
      · simp [below, Nat.lt_succ_of_lt below]
      · by_cases same : id = n
        · simp [same]
        · simp [below, same, show ¬ id < n + 1 by omega]
    | false =>
      rw [sweepBelow_plain mark, ih (by simp; omega), marked_release (by omega)]
      by_cases below : id < n
      · simp [below, Nat.lt_succ_of_lt below]
      · by_cases same : id = n
        · simp [same]
        · simp [below, same, show ¬ id < n + 1 by omega]

theorem cell_sweepBelow {n : Nat} (inside : n ≤ a.capacity) {id : Nat}
    (h : n ≤ id ∨ a.marked id = true) : (sweepBelow n a).cell id = a.cell id := by
  induction n generalizing a with
  | zero => rfl
  | succ n ih =>
    cases mark : a.marked n with
    | true =>
      rw [sweepBelow_marked mark, ih (by simp; omega), cell_clearMark]
      rw [marked_clearMark]
      by_cases same : id = n
      · simp [same]
      · rcases h with above | old
        · exact .inl (by omega)
        · exact .inr (by simp [same, old])
    | false =>
      have other : id ≠ n := by
        rintro rfl
        rcases h with above | old
        · omega
        · simp [mark] at old
      rw [sweepBelow_plain mark, ih (by simp; omega), cell_release (by omega)]
      · simp [other]
      · rw [marked_release (by omega)]
        rcases h with above | old
        · exact .inl (by omega)
        · exact .inr (by simp [other, old])

theorem chain_sweepBelow {n : Nat} {ids : List Nat} (inside : n ≤ a.capacity)
    (chain : a.Chain a.freeList ids) (above : ∀ id ∈ ids, n ≤ id) :
    (sweepBelow n a).Chain (sweepBelow n a).freeList (a.unmarkedBelow n ++ ids) := by
  induction n generalizing a ids with
  | zero => exact chain
  | succ n ih =>
    rw [unmarkedBelow_succ]
    cases mark : a.marked n with
    | true =>
      have marks : (a.clearMark n).unmarkedBelow n = a.unmarkedBelow n :=
        unmarkedBelow_congr fun id below => by rw [marked_clearMark, if_neg (by omega)]
      rw [sweepBelow_marked mark, if_pos rfl, List.append_nil, ← marks]
      refine ih (by simp; omega) (chain.congr (capacity_clearMark ..) fun _ _ => cell_clearMark ..) ?_
      intro id member
      have := above id member
      omega
    | false =>
      have marks : (a.release n).unmarkedBelow n = a.unmarkedBelow n :=
        unmarkedBelow_congr fun id below => by
          rw [marked_release (by omega), if_neg (by omega)]
      have front : (a.release n).cell n = .free a.freeList := by
        rw [cell_release (by omega), if_pos rfl]
      have rest : (a.release n).Chain a.freeList ids :=
        chain.congr (capacity_release ..) fun id member => by
          have := above id member
          rw [cell_release (by omega), if_neg (by omega)]
      rw [sweepBelow_plain mark, if_neg (by simp), List.append_assoc, List.singleton_append, ← marks]
      refine ih (by simp; omega) (.cons (by simp; omega) front rest) ?_
      intro id member
      rcases List.mem_cons.1 member with rfl | member
      · exact Nat.le_refl _
      · have := above id member
        omega

theorem freeCount_sweepBelow {n : Nat} (inside : n ≤ a.capacity) :
    (sweepBelow n a).freeCount = (a.unmarkedBelow n).length + a.freeCount := by
  induction n generalizing a with
  | zero => simp [sweepBelow, unmarkedBelow]
  | succ n ih =>
    rw [unmarkedBelow_succ]
    cases mark : a.marked n with
    | true =>
      have marks : (a.clearMark n).unmarkedBelow n = a.unmarkedBelow n :=
        unmarkedBelow_congr fun id below => by rw [marked_clearMark, if_neg (by omega)]
      rw [sweepBelow_marked mark, ih (by simp; omega), marks, freeCount_clearMark]
      simp
    | false =>
      have marks : (a.release n).unmarkedBelow n = a.unmarkedBelow n :=
        unmarkedBelow_congr fun id below => by
          rw [marked_release (by omega), if_neg (by omega)]
      rw [sweepBelow_plain mark, ih (by simp; omega), marks, freeCount_release]
      simp only [Bool.false_eq_true, if_false, List.length_append, List.length_singleton]
      omega

theorem sweepBelow_congr {n : Nat} (inside : n ≤ a.capacity) (size : b.capacity = a.capacity)
    (list : b.freeList = a.freeList) (count : b.freeCount = a.freeCount)
    (marks : ∀ id, b.marked id = a.marked id)
    (cells : ∀ id, n ≤ id ∨ a.marked id = true → b.cell id = a.cell id) :
    sweepBelow n b = sweepBelow n a := by
  induction n generalizing a b with
  | zero =>
    have slots : b.slots = a.slots :=
      slots_ext size (fun id _ => cells id (.inl (Nat.zero_le id))) fun id _ => marks id
    rcases a with ⟨slotsA, listA, countA⟩
    rcases b with ⟨slotsB, listB, countB⟩
    simp only at slots list count
    subst slots list count
    rfl
  | succ n ih =>
    cases mark : a.marked n with
    | true =>
      rw [sweepBelow_marked mark, sweepBelow_marked ((marks n).trans mark)]
      refine ih (by simp; omega) (by simpa using size) list count ?_ ?_
      · intro id
        rw [marked_clearMark, marked_clearMark, marks]
      · intro id h
        rw [cell_clearMark, cell_clearMark]
        rw [marked_clearMark] at h
        by_cases same : id = n
        · exact cells id (.inr (same ▸ mark))
        · rcases h with above | old
          · exact cells id (.inl (by omega))
          · exact cells id (.inr (by simpa [same] using old))
    | false =>
      rw [sweepBelow_plain mark, sweepBelow_plain ((marks n).trans mark)]
      refine ih (by simp; omega) (by simpa using size) rfl (by simpa using count) ?_ ?_
      · intro id
        rw [marked_release (by omega), marked_release (by omega), marks]
      · intro id h
        rw [cell_release (by omega), cell_release (by omega), list]
        rw [marked_release (by omega)] at h
        by_cases same : id = n
        · simp [same]
        · rw [if_neg same, if_neg same]
          rcases h with above | old
          · exact cells id (.inl (by omega))
          · exact cells id (.inr (by simpa [same] using old))

/-! ### A whole sweep -/

/-- An arena with an empty chain, as a sweep begins. -/
def unchained (a : Arena) : Arena :=
  ⟨a.slots, .nil, 0⟩

theorem sweep_eq (a : Arena) : a.sweep = sweepBelow a.unchained.capacity a.unchained := rfl

theorem cell_unchained (a : Arena) (id : Nat) : a.unchained.cell id = a.cell id := rfl

theorem marked_unchained (a : Arena) (id : Nat) : a.unchained.marked id = a.marked id := rfl

theorem capacity_unchained (a : Arena) : a.unchained.capacity = a.capacity := rfl

@[simp] theorem capacity_sweep (a : Arena) : a.sweep.capacity = a.capacity := by
  rw [sweep_eq, capacity_sweepBelow, capacity_unchained]

theorem marked_sweep (a : Arena) (id : Nat) : a.sweep.marked id = false := by
  rw [sweep_eq, marked_sweepBelow (Nat.le_refl _), marked_unchained, capacity_unchained]
  by_cases inside : id < a.capacity
  · simp [inside]
  · simp [inside, marked, slot_of_not_lt inside]

theorem cell_sweep {id : Nat} (h : a.marked id = true) : a.sweep.cell id = a.cell id := by
  rw [sweep_eq, cell_sweepBelow (Nat.le_refl _) (.inr (by rwa [marked_unchained])), cell_unchained]

theorem chain_sweep (a : Arena) :
    a.sweep.Chain a.sweep.freeList (a.unmarkedBelow a.capacity) := by
  have chain := chain_sweepBelow (a := a.unchained) (Nat.le_refl _) .nil (by simp)
  rwa [List.append_nil] at chain

theorem freeCount_sweep (a : Arena) :
    a.sweep.freeCount = (a.unmarkedBelow a.capacity).length :=
  freeCount_sweepBelow (a := a.unchained) (Nat.le_refl _)

theorem sweep_congr (size : b.capacity = a.capacity) (marks : ∀ id, b.marked id = a.marked id)
    (cells : ∀ id, a.marked id = true → b.cell id = a.cell id) : b.sweep = a.sweep := by
  rw [sweep_eq, sweep_eq, capacity_unchained, capacity_unchained, size]
  refine sweepBelow_congr (Nat.le_refl _) size rfl rfl marks ?_
  rintro id (above | mark)
  · rw [cell_unchained, cell_unchained]
    have outside : ¬ id < a.capacity := Nat.not_lt.2 above
    simp [cell, slot_of_not_lt outside, slot_of_not_lt (size ▸ outside)]
  · exact cells id mark

theorem marked_of_taken_sweep {id : Nat} (taken : a.sweep.Taken id) : a.marked id = true := by
  have inside : id < a.capacity := by simpa using lt_of_taken taken
  by_contra plain
  rw [Bool.not_eq_true] at plain
  exact (a.chain_sweep.free (mem_unmarkedBelow.2 ⟨inside, plain⟩)).2 taken

/-- After a sweep exactly the cells that had no mark are free. -/
theorem taken_sweep_iff {id : Nat} (h : a.marked id = true → a.Taken id) :
    a.sweep.Taken id ↔ a.marked id = true := by
  refine ⟨marked_of_taken_sweep, fun mark next => ?_⟩
  rw [cell_sweep mark]
  exact h mark next

end ArenaLisp.Arena
