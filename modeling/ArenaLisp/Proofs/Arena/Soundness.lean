import ArenaLisp.Proofs.Arena.Lists
import ArenaLisp.Proofs.Arena.Sweeping

/-!
# Sound arenas

An arena is sound if no mark is left, its chain holds the free cells, and no cell that was handed
out refers to a free one. Cells are taken in the order of the free list (`Took`). Taking them keeps
an arena sound and leaves alone every cell that was handed out before (`Extends`).
-/

namespace ArenaLisp.Arena

/-- What holds of an arena whenever the collector is not at work. -/
structure Sound (a : Arena) : Prop where
  plain : ∀ id, a.marked id = false
  /-- The chain visits every free cell once, and its length is the count of free cells. -/
  chain : ∃ ids, a.Chain a.freeList ids ∧ ids.Nodup ∧
    (∀ id < a.capacity, ¬ a.Taken id → id ∈ ids) ∧ a.freeCount = ids.length
  closed : ∀ id head tail, a.cell id = .pair head tail → a.Live head ∧ a.Live tail

/-- A later state of an arena from which no cell was released or rewritten. -/
structure Extends (a b : Arena) : Prop where
  size : b.capacity = a.capacity
  kept : ∀ id, a.Taken id → b.cell id = a.cell id

variable {a b c : Arena} {v : Value} {id : Nat} {ids more rest : List Nat}

theorem Extends.refl (a : Arena) : a.Extends a :=
  ⟨rfl, fun _ _ => rfl⟩

theorem Extends.taken (h : a.Extends b) (taken : a.Taken id) : b.Taken id := by
  intro next
  rw [h.kept id taken]
  exact taken next

theorem Extends.trans (h : a.Extends b) (h' : b.Extends c) : a.Extends c where
  size := h'.size.trans h.size
  kept id taken := (h'.kept id (h.taken taken)).trans (h.kept id taken)

theorem Extends.live (h : a.Extends b) (live : a.Live v) : b.Live v :=
  fun id same => h.taken (live id same)

namespace Sound

theorem live_car (sound : a.Sound) (v : Value) : a.Live (a.car v) := by
  rcases a.car_cases v with empty | ⟨id, tail, -, pair⟩
  · rw [empty]
    exact live_nil a
  · exact (sound.closed id _ tail pair).1

theorem live_cdr (sound : a.Sound) (v : Value) : a.Live (a.cdr v) := by
  rcases a.cdr_cases v with empty | ⟨id, head, -, pair⟩
  · rw [empty]
    exact live_nil a
  · exact (sound.closed id head _ pair).2

theorem taken_of_reaches (sound : a.Sound) (live : a.Live v) (path : a.Reaches v id) :
    a.Taken id :=
  Arena.taken_of_reaches sound.closed live path

theorem taken_of_along (sound : a.Sound) (live : a.Live v) (h : a.Along v id) : a.Taken id :=
  sound.taken_of_reaches live h.reaches

end Sound

theorem Element.live {list : Value} (sound : a.Sound) (h : a.Element list v) : a.Live v := by
  obtain ⟨id, tail, on, pair⟩ := h
  exact (sound.closed id v tail pair).1

theorem Suffix.live {rest list : Value} (sound : a.Sound) (live : a.Live list)
    (h : a.Suffix rest list) : a.Live rest := by
  induction h with
  | refl => exact live
  | next pair _ ih => exact ih (sound.closed _ _ _ pair).2

theorem Extends.onList_iff {list : Value} (h : a.Extends b) (sound : a.Sound)
    (live : a.Live list) : b.OnList list id ↔ a.OnList list id :=
  onList_congr fun _ on => h.kept _ (sound.taken_of_along live on)

theorem Extends.element_iff {list : Value} (h : a.Extends b) (sound : a.Sound)
    (live : a.Live list) : b.Element list v ↔ a.Element list v :=
  element_congr fun _ on => h.kept _ (sound.taken_of_along live on)

theorem Sound.setCdr (sound : a.Sound) (live : a.Live v) (id : Nat) : (a.setCdr id v).Sound where
  plain other := by rw [marked_setCdr, sound.plain]
  chain := by
    obtain ⟨ids, chain, nodup, all, count⟩ := sound.chain
    refine ⟨ids, chain.congr (capacity_setCdr ..) fun other member => ?_, nodup, ?_, count⟩
    · obtain ⟨next, free⟩ := not_taken_iff.1 (chain.free member).2
      by_cases same : other = id
      · subst same
        simp [cell_setCdr, free, Cell.withTail]
      · rw [cell_setCdr_of_ne same]
    · intro other inside
      rw [taken_setCdr]
      exact all other (by simpa using inside)
  closed other head tail pair := by
    have keep : ∀ w, a.Live w → (a.setCdr id v).Live w := fun w live other same =>
      taken_setCdr.2 (live other same)
    rw [cell_setCdr] at pair
    split at pair
    · cases content : a.cell id with
      | pair first second =>
        rw [content] at pair
        cases pair
        exact ⟨keep _ (sound.closed _ _ _ content).1, keep _ live⟩
      | symbol name =>
        rw [content] at pair
        cases pair
      | free next =>
        rw [content] at pair
        cases pair
    · obtain ⟨first, second⟩ := sound.closed _ _ _ pair
      exact ⟨keep _ first, keep _ second⟩

/-! ### Taking a cell -/

/-- A cell content that refers to no free cell and is not free itself. -/
def Fit (a : Arena) (content : Cell) : Prop :=
  (∀ next, content ≠ .free next) ∧
    ∀ head tail, content = .pair head tail → a.Live head ∧ a.Live tail

theorem fit_pair {head tail : Value} (h : a.Live head) (t : a.Live tail) :
    a.Fit (.pair head tail) := by
  refine ⟨by simp, ?_⟩
  rintro _ _ ⟨⟩
  exact ⟨h, t⟩

theorem fit_symbol (name : Symbol) : a.Fit (.symbol name) :=
  ⟨by simp, by simp⟩

/-- What is known of a cell that was just taken: it was free before, and no other cell changed. -/
structure TookCell (a : Arena) (content : Cell) (id : Nat) (b : Arena) : Prop where
  fresh : ¬ a.Taken id
  content : b.cell id = content
  others : ∀ other, other ≠ id → b.cell other = a.cell other
  sound : b.Sound
  size : b.capacity = a.capacity
  count : b.freeCount + 1 = a.freeCount

theorem TookCell.extends {content : Cell} (h : a.TookCell content id b) : a.Extends b where
  size := h.size
  kept other taken := h.others other fun same => h.fresh (same ▸ taken)

/-- The arena after its first free cell was filled. -/
def filled (a : Arena) (content : Cell) (id : Nat) (next : Value) : Arena :=
  ⟨a.slots.setIfInBounds id ⟨content, false⟩, next, a.freeCount - 1⟩

theorem cell_filled {content : Cell} {next : Value} (inside : id < a.capacity) (other : Nat) :
    (a.filled content id next).cell other = if other = id then content else a.cell other := by
  have inside' : id < a.slots.size := inside
  by_cases same : other = id
  · subst same
    simp [cell, filled, inside']
  · simp [cell, filled, same, Ne.symm same]

theorem marked_filled {content : Cell} {next : Value} (inside : id < a.capacity) (other : Nat) :
    (a.filled content id next).marked other = if other = id then false else a.marked other := by
  have inside' : id < a.slots.size := inside
  by_cases same : other = id
  · subst same
    simp [marked, filled, inside']
  · simp [marked, filled, same, Ne.symm same]

theorem capacity_filled (content : Cell) (id : Nat) (next : Value) :
    (a.filled content id next).capacity = a.capacity := by
  simp [capacity, filled]

theorem take_run_nil {content : Cell} (h : a.freeList = .nil) :
    (take content).run a = (.error .noRoom, a) := by
  rcases a with ⟨slots, list, count⟩
  simp only at h
  subst h
  rfl

theorem take_run_cell {content : Cell} {next : Value} (h : a.freeList = .cell id)
    (inside : id < a.capacity) (free : a.cell id = .free next) :
    (take content).run a = (.ok id, a.filled content id next) := by
  have slot := slot_of_lt inside
  rw [free] at slot
  rcases a with ⟨slots, list, count⟩
  simp only at h slot
  subst h
  unfold take ExceptT.run
  simp only [slot]
  rfl

theorem Sound.freeCount_eq_zero (sound : a.Sound) (empty : a.freeList = .nil) :
    a.freeCount = 0 := by
  obtain ⟨ids, chain, -, -, count⟩ := sound.chain
  rw [empty] at chain
  cases chain
  exact count

/-! ### The chain -/

/-- A chain that visits no cell twice, with the length that is kept beside it. -/
structure Linked (a : Arena) (ids : List Nat) : Prop where
  chain : a.Chain a.freeList ids
  nodup : ids.Nodup
  count : a.freeCount = ids.length

/-- What it means that a cell was filled, and no other one changed. -/
structure Fills (a : Arena) (content : Cell) (id : Nat) (b : Arena) : Prop where
  content : b.cell id = content
  others : ∀ other, other ≠ id → b.cell other = a.cell other
  marks : ∀ other, b.marked other = if other = id then false else a.marked other
  size : b.capacity = a.capacity

namespace Linked

theorem empty (linked : a.Linked []) : a.freeList = .nil := by
  have chain := linked.chain
  generalize a.freeList = first at chain
  cases chain
  rfl

theorem first (linked : a.Linked (id :: ids)) : ∃ next, a.freeList = .cell id ∧
    id < a.capacity ∧ a.cell id = .free next ∧ a.Chain next ids := by
  have chain := linked.chain
  generalize a.freeList = first at chain
  cases chain with
  | cons inside free later => exact ⟨_, rfl, inside, free, later⟩

theorem not_taken (linked : a.Linked ids) (member : id ∈ ids) : ¬ a.Taken id :=
  (linked.chain.free member).2

theorem congr (linked : a.Linked ids) (size : b.capacity = a.capacity)
    (first : b.freeList = a.freeList) (count : b.freeCount = a.freeCount)
    (same : ∀ id next, a.cell id = .free next → b.cell id = .free next) : b.Linked ids := by
  refine ⟨?_, linked.nodup, count.trans linked.count⟩
  rw [first]
  refine linked.chain.congr size fun id member => ?_
  obtain ⟨next, free⟩ := not_taken_iff.1 (linked.not_taken member)
  rw [free, same id next free]

theorem take (linked : a.Linked (id :: ids)) (content : Cell) :
    ∃ b, (take content).run a = (.ok id, b) ∧ a.Fills content id b ∧ b.Linked ids := by
  obtain ⟨next, first, inside, free, later⟩ := linked.first
  obtain ⟨absent, nodup⟩ := List.nodup_cons.1 linked.nodup
  have cells : ∀ other, (a.filled content id next).cell other =
      if other = id then content else a.cell other := cell_filled inside
  have others : ∀ other, other ≠ id → (a.filled content id next).cell other = a.cell other :=
    fun other ne => by rw [cells, if_neg ne]
  refine ⟨a.filled content id next, take_run_cell first inside free, ?_, ?_, nodup, ?_⟩
  · exact ⟨by rw [cells, if_pos rfl], others, marked_filled inside, capacity_filled ..⟩
  · refine later.congr (capacity_filled ..) fun other member => others other ?_
    rintro rfl
    exact absent member
  · simp [Arena.filled, linked.count]

end Linked

/-! ### The free list -/

/-- The free cells of an arena, in the order in which they are taken. -/
structure FreeList (a : Arena) (ids : List Nat) : Prop where
  chain : a.Chain a.freeList ids
  nodup : ids.Nodup
  all : ∀ id < a.capacity, ¬ a.Taken id → id ∈ ids
  count : a.freeCount = ids.length

theorem Sound.list (sound : a.Sound) : ∃ ids, a.FreeList ids := by
  obtain ⟨ids, chain, nodup, all, count⟩ := sound.chain
  exact ⟨ids, chain, nodup, all, count⟩

namespace FreeList

theorem unique (list : a.FreeList ids) (other : a.FreeList more) : ids = more :=
  list.chain.unique other.chain

theorem linked (list : a.FreeList ids) : a.Linked ids :=
  ⟨list.chain, list.nodup, list.count⟩

theorem not_taken (list : a.FreeList ids) (member : id ∈ ids) : ¬ a.Taken id :=
  list.linked.not_taken member

theorem empty (list : a.FreeList []) : a.freeList = .nil :=
  list.linked.empty

theorem first (list : a.FreeList (id :: ids)) : ∃ next, a.freeList = .cell id ∧
    id < a.capacity ∧ a.cell id = .free next ∧ a.Chain next ids :=
  list.linked.first

end FreeList

/-- An arena after some of its free cells were filled, and nothing else. -/
structure Took (a : Arena) (ids : List Nat) (b : Arena) : Prop where
  lists : ∃ rest, a.FreeList (ids ++ rest) ∧ b.FreeList rest
  taken : ∀ id ∈ ids, b.Taken id
  others : ∀ id, id ∉ ids → b.cell id = a.cell id
  /-- No mark was put on any, and the new ones have none. -/
  marks : ∀ id, b.marked id = true → id ∉ ids ∧ a.marked id = true
  size : b.capacity = a.capacity

namespace Took

theorem refl (list : a.FreeList rest) : a.Took [] a where
  lists := ⟨rest, list, list⟩
  taken _ member := absurd member List.not_mem_nil
  others _ _ := rfl
  marks _ marked := ⟨List.not_mem_nil, marked⟩
  size := rfl

theorem free (took : a.Took ids b) (member : id ∈ ids) : ¬ a.Taken id := by
  obtain ⟨rest, list, -⟩ := took.lists
  exact list.not_taken (List.mem_append_left rest member)

theorem extends' (took : a.Took ids b) : a.Extends b where
  size := took.size
  kept id taken := took.others id fun member => took.free member taken

theorem trans (first : a.Took ids b) (second : b.Took more c) : a.Took (ids ++ more) c where
  lists := by
    obtain ⟨rest, list, left⟩ := first.lists
    obtain ⟨rest', list', left'⟩ := second.lists
    obtain rfl := left.unique list'
    exact ⟨rest', by rwa [List.append_assoc], left'⟩
  taken id member := by
    rcases List.mem_append.1 member with old | new
    · exact second.extends'.taken (first.taken id old)
    · exact second.taken id new
  others id outside := by
    simp only [List.mem_append, not_or] at outside
    exact (second.others id outside.2).trans (first.others id outside.1)
  marks id marked := by
    obtain ⟨outside', marked'⟩ := second.marks id marked
    obtain ⟨outside, marked''⟩ := first.marks id marked'
    exact ⟨by simp [outside, outside'], marked''⟩
  size := second.size.trans first.size

theorem list (took : a.Took ids b) : ∃ rest, b.FreeList rest := by
  obtain ⟨rest, -, left⟩ := took.lists
  exact ⟨rest, left⟩

theorem nodup (took : a.Took ids b) : ids.Nodup := by
  obtain ⟨rest, list, -⟩ := took.lists
  exact list.nodup.of_append_left

theorem count (took : a.Took ids b) : b.freeCount + ids.length = a.freeCount := by
  obtain ⟨rest, list, left⟩ := took.lists
  rw [list.count, left.count, List.length_append, Nat.add_comm]

end Took

theorem take_run_of_freeList {content : Cell} (list : a.FreeList (id :: ids))
    (filled : ∀ next, content ≠ .free next) :
    ∃ b, (take content).run a = (.ok id, b) ∧ a.Took [id] b ∧ b.cell id = content := by
  obtain ⟨b, ran, fills, linked⟩ := list.linked.take content
  have taken : b.Taken id := by
    intro next
    rw [fills.content]
    exact filled next
  have all : ∀ other < b.capacity, ¬ b.Taken other → other ∈ ids := by
    intro other inside free
    have ne : other ≠ id := by
      rintro rfl
      exact free taken
    have member := list.all other (fills.size ▸ inside) fun taken' =>
      free fun next => fills.others other ne ▸ taken' next
    exact (List.mem_cons.1 member).resolve_left ne
  refine ⟨b, ran, ⟨⟨ids, list, linked.chain, linked.nodup, all, linked.count⟩, ?_, ?_, ?_, ?_⟩,
    fills.content⟩
  · simpa using taken
  · exact fun other outside => fills.others other (by simpa using outside)
  · intro other marked
    rw [fills.marks] at marked
    split at marked
    · cases marked
    · rename_i ne
      exact ⟨by simpa using ne, marked⟩
  · exact fills.size

theorem Took.tookCell {content : Cell} (took : a.Took [id] b) (sound : a.Sound)
    (fit : a.Fit content) (same : b.cell id = content) : a.TookCell content id b where
  fresh := took.free (List.mem_singleton_self id)
  content := same
  others other ne := took.others other (by simpa using ne)
  sound := by
    obtain ⟨rest, list⟩ := took.list
    refine ⟨fun other => ?_, ⟨rest, list.chain, list.nodup, list.all, list.count⟩, ?_⟩
    · refine Bool.eq_false_iff.2 fun marked => ?_
      exact absurd (took.marks other marked).2 (by simp [sound.plain])
    -- the new cell refers to what was live before, and so do the others
    · intro other head tail pair
      have ext := took.extends'
      by_cases new : other = id
      · subst new
        obtain ⟨first, second⟩ := fit.2 head tail (same.symm.trans pair)
        exact ⟨ext.live first, ext.live second⟩
      · rw [took.others other (by simpa using new)] at pair
        obtain ⟨first, second⟩ := sound.closed _ _ _ pair
        exact ⟨ext.live first, ext.live second⟩
  size := took.size
  count := took.count

/-- A cell is taken from the front of the chain, unless the chain is empty. -/
theorem take_run (sound : a.Sound) {content : Cell} (fit : a.Fit content) :
    (a.freeList = .nil ∧ (take content).run a = (.error .noRoom, a)) ∨
      ∃ id b, a.freeList = .cell id ∧ (take content).run a = (.ok id, b) ∧
        a.TookCell content id b := by
  obtain ⟨ids, list⟩ := sound.list
  cases ids with
  | nil => exact .inl ⟨list.empty, take_run_nil list.empty⟩
  | cons id ids =>
    obtain ⟨b, ran, took, same⟩ := take_run_of_freeList list fit.1
    obtain ⟨_, first, -⟩ := list.first
    exact .inr ⟨id, b, first, ran, took.tookCell sound fit same⟩

/-! ### A new arena -/

theorem marked_replicate (size id : Nat) :
    marked ⟨Array.replicate size ⟨.free .nil, false⟩, .nil, 0⟩ id = false := by
  by_cases inside : id < size
  · simp [marked, inside]
  · simp [marked, inside]

theorem not_taken_new (size id : Nat) : ¬ (new size).Taken id := by
  intro taken
  rw [new, taken_sweep_iff (by simp [marked_replicate])] at taken
  simp [marked_replicate] at taken

theorem sound_new (size : Nat) : (new size).Sound where
  plain := marked_sweep _
  chain := by
    refine ⟨_, chain_sweep _, (sorted_unmarkedBelow ..).nodup, ?_, freeCount_sweep _⟩
    intro id inside _
    rw [new, capacity_sweep] at inside
    exact mem_unmarkedBelow.2 ⟨inside, marked_replicate size id⟩
  closed id head tail pair := absurd (taken_of_pair pair) (not_taken_new size id)

theorem capacity_new (size : Nat) : (new size).capacity = size := by
  rw [new, capacity_sweep]
  exact Array.size_replicate

theorem freeCount_new (size : Nat) : (new size).freeCount = size := by
  rw [new, freeCount_sweep, unmarkedBelow, List.filter_eq_self.2]
  · simp [capacity]
  · simp [marked_replicate]

end ArenaLisp.Arena
