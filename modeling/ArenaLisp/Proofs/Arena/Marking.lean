import Mathlib.Data.Finset.Card
import Mathlib.Data.Finset.Range
import ArenaLisp.Proofs.Arena.Paths

/-!
# Marking

A visit either meets a cell without a mark, and marks it, or leaves one value less to visit. So the
number of cells without a mark bounds the rounds (`markFrom_eq_of_enough`), and a run that has enough
rounds leaves nothing to visit. What it marks is what it reaches (`marked_mark_iff`), also when
earlier roots left marks behind.
-/

namespace ArenaLisp.Arena

variable {a : Arena}

/-- The cells without a mark. -/
def unmarked (a : Arena) : Finset Nat :=
  (Finset.range a.capacity).filter fun id => a.marked id = false

/-- The rounds it takes at most to visit some values. -/
def work (a : Arena) (pending : List Value) : Nat :=
  2 * a.unmarked.card + pending.length

theorem card_unmarked_le (a : Arena) : a.unmarked.card ≤ a.capacity := by
  have few := Finset.card_filter_le (Finset.range a.capacity) fun id => a.marked id = false
  rwa [Finset.card_range] at few

theorem unmarked_setMark {id : Nat} (h : id < a.capacity) :
    (a.setMark id).unmarked = a.unmarked.erase id := by
  ext other
  simp only [unmarked, capacity_setMark, Finset.mem_filter, Finset.mem_range, Finset.mem_erase,
    marked_setMark h]
  by_cases same : other = id <;> simp [same]

theorem card_unmarked_setMark {id : Nat} (h : id < a.capacity) (plain : a.marked id = false) :
    (a.setMark id).unmarked.card + 1 = a.unmarked.card := by
  rw [unmarked_setMark h]
  exact Finset.card_erase_add_one (by simp [unmarked, h, plain])

theorem lt_of_slot {id : Nat} {slot : Slot} (h : a.slots[id]? = some slot) : id < a.capacity :=
  (Array.getElem?_eq_some_iff.1 h).1

theorem work_setMark_pair {id : Nat} {head tail : Value} (pending : List Value)
    (h : a.slots[id]? = some ⟨.pair head tail, false⟩) :
    (a.setMark id).work (head :: tail :: pending) < a.work (.cell id :: pending) := by
  have less := card_unmarked_setMark (lt_of_slot h) (marked_eq_of_slot h)
  simp only [work, List.length_cons]
  omega

theorem work_setMark_other {id : Nat} {content : Cell} (pending : List Value)
    (h : a.slots[id]? = some ⟨content, false⟩) :
    (a.setMark id).work pending < a.work (.cell id :: pending) := by
  have less := card_unmarked_setMark (lt_of_slot h) (marked_eq_of_slot h)
  simp only [work, List.length_cons]
  omega

theorem work_skip (a : Arena) (v : Value) (pending : List Value) :
    a.work pending < a.work (v :: pending) := by
  simp only [work, List.length_cons]
  omega

theorem work_root_le (a : Arena) (root : Value) : a.work [root] ≤ 2 * a.capacity + 1 := by
  have few := card_unmarked_le a
  simp only [work, List.length_cons, List.length_nil]
  omega

theorem markFrom_skip {id n : Nat} {pending : List Value}
    (h : ∀ content, a.slots[id]? ≠ some ⟨content, false⟩) :
    markFrom (n + 1) (.cell id :: pending) a = markFrom n pending a := by
  rcases found : a.slots[id]? with _ | ⟨content, _ | _⟩
  · simp [markFrom, found]
  · exact absurd found (h content)
  · simp [markFrom, found]

theorem markFrom_other {id n : Nat} {content : Cell} {pending : List Value}
    (h : a.slots[id]? = some ⟨content, false⟩) (notPair : ∀ head tail, content ≠ .pair head tail) :
    markFrom (n + 1) (.cell id :: pending) a = markFrom n pending (a.setMark id) := by
  cases content with
  | pair head tail => exact absurd rfl (notPair head tail)
  | symbol name => simp [markFrom, h]
  | free next => simp [markFrom, h]

theorem markFrom_pair {id n : Nat} {head tail : Value} {pending : List Value}
    (h : a.slots[id]? = some ⟨.pair head tail, false⟩) :
    markFrom (n + 1) (.cell id :: pending) a =
      markFrom n (head :: tail :: pending) (a.setMark id) := by
  simp [markFrom, h]

/-! ### Rounds -/

theorem markFrom_eq_of_enough {n m : Nat} {pending : List Value} (hn : a.work pending ≤ n)
    (hm : a.work pending ≤ m) : markFrom n pending a = markFrom m pending a := by
  fun_induction markFrom n pending a generalizing m with
  | case1 pending a =>
    obtain rfl : pending = [] := by
      rcases pending with _ | ⟨v, pending⟩
      · rfl
      · simp [work] at hn
    cases m <;> rfl
  | case2 n a => cases m <;> rfl
  | case3 n pending a ih =>
    have less := work_skip a .nil pending
    obtain _ | m := m
    · omega
    · exact ih (by omega) (by omega)
  | case4 n id pending a head tail h ih =>
    have less := work_setMark_pair pending h
    obtain _ | m := m
    · omega
    · rw [ih (m := m) (by omega) (by omega), markFrom_pair h]
  | case5 n id pending a content notPair h ih =>
    have less := work_setMark_other pending h
    obtain _ | m := m
    · omega
    · rw [ih (m := m) (by omega) (by omega), markFrom_other h notPair]
  | case6 n id pending a _ skip ih =>
    have less := work_skip a (.cell id) pending
    obtain _ | m := m
    · omega
    · rw [ih (m := m) (by omega) (by omega), markFrom_skip skip]

theorem mark_eq_of_le (a : Arena) (root : Value) {rounds : Nat} (h : 2 * a.capacity + 1 ≤ rounds) :
    markFrom rounds [root] a = a.mark root := by
  exact markFrom_eq_of_enough ((work_root_le a root).trans h) (work_root_le a root)

/-! ### What stays -/

theorem marked_markFrom_of_marked {n : Nat} {pending : List Value} {id : Nat}
    (h : a.marked id = true) : (markFrom n pending a).marked id = true := by
  fun_induction markFrom n pending a with
  | case1 | case2 => exact h
  | case3 n pending a ih => exact ih h
  | case4 n visited pending a head tail found ih =>
    apply ih
    rw [marked_setMark (lt_of_slot found)]
    simp [h]
  | case5 n visited pending a content notPair found ih =>
    apply ih
    rw [marked_setMark (lt_of_slot found)]
    simp [h]
  | case6 n visited pending a _ skip ih => exact ih h

/-! ### What is marked -/

theorem reaches_setMark {v : Value} {id visited : Nat} :
    (a.setMark visited).Reaches v id ↔ a.Reaches v id :=
  reaches_congr fun _ _ => cell_setMark ..

theorem reaches_of_marked {n : Nat} {pending : List Value} {id : Nat}
    (h : (markFrom n pending a).marked id = true) :
    a.marked id = true ∨ ∃ v ∈ pending, a.Reaches v id := by
  fun_induction markFrom n pending a with
  | case1 | case2 => exact .inl h
  | case3 n pending a ih =>
    rcases ih h with old | ⟨v, member, path⟩
    · exact .inl old
    · exact .inr ⟨v, List.mem_cons_of_mem _ member, path⟩
  | case4 n visited pending a head tail found ih =>
    have pair := cell_eq_of_slot found
    rcases ih h with old | ⟨v, member, path⟩
    · rw [marked_setMark (lt_of_slot found)] at old
      split at old
      · subst id
        exact .inr ⟨_, List.mem_cons_self, .here _⟩
      · exact .inl old
    · rw [reaches_setMark] at path
      simp only [List.mem_cons] at member
      rcases member with rfl | rfl | member
      · exact .inr ⟨_, List.mem_cons_self, .head pair path⟩
      · exact .inr ⟨_, List.mem_cons_self, .tail pair (fun h => h) path⟩
      · exact .inr ⟨v, List.mem_cons_of_mem _ member, path⟩
  | case5 n visited pending a content notPair found ih =>
    rcases ih h with old | ⟨v, member, path⟩
    · rw [marked_setMark (lt_of_slot found)] at old
      split at old
      · subst id
        exact .inr ⟨_, List.mem_cons_self, .here _⟩
      · exact .inl old
    · rw [reaches_setMark] at path
      exact .inr ⟨v, List.mem_cons_of_mem _ member, path⟩
  | case6 n visited pending a _ skip ih =>
    rcases ih h with old | ⟨v, member, path⟩
    · exact .inl old
    · exact .inr ⟨v, List.mem_cons_of_mem _ member, path⟩

/-- A value whose cell has a mark or is still to be visited. -/
def Noted (a : Arena) (pending : List Value) (v : Value) : Prop :=
  ∀ id, v = .cell id → id < a.capacity → a.marked id = true ∨ v ∈ pending

/-- What the pairs with a mark refer to is marked too or is still to be visited. -/
def Traced (a : Arena) (pending : List Value) : Prop :=
  ∀ id head tail, a.marked id = true → a.cell id = .pair head tail →
    a.Noted pending head ∧ a.Noted pending tail

theorem Noted.mono {b : Arena} {pending rest : List Value} {v : Value} (noted : a.Noted pending v)
    (size : b.capacity = a.capacity) (marks : ∀ id, a.marked id = true → b.marked id = true)
    (visited : ∀ id, .cell id ∈ pending → id < a.capacity → b.marked id = true ∨ .cell id ∈ rest) :
    b.Noted rest v := by
  rintro id rfl inside
  rw [size] at inside
  rcases noted id rfl inside with old | member
  · exact .inl (marks id old)
  · exact visited id member inside

theorem traced_setMark {id : Nat} {content : Cell} {pending rest : List Value}
    (found : a.slots[id]? = some ⟨content, false⟩) (traced : a.Traced (.cell id :: pending))
    (more : pending ⊆ rest)
    (new : ∀ head tail, content = .pair head tail → head ∈ rest ∧ tail ∈ rest) :
    (a.setMark id).Traced rest := by
  have inside := lt_of_slot found
  have marks := marked_setMark inside
  have carry : ∀ v, a.Noted (.cell id :: pending) v → (a.setMark id).Noted rest v := by
    intro v noted
    refine noted.mono (capacity_setMark ..) (fun other old => by rw [marks]; simp [old]) ?_
    intro other member _
    rcases List.mem_cons.1 member with same | member
    · cases same
      exact .inl (by rw [marks]; simp)
    · exact .inr (more member)
  intro other head tail mark pair
  rw [cell_setMark] at pair
  rw [marks] at mark
  split at mark
  · subst other
    rw [cell_eq_of_slot found] at pair
    obtain ⟨first, second⟩ := new head tail pair
    exact ⟨fun _ h _ => .inr (h ▸ first), fun _ h _ => .inr (h ▸ second)⟩
  · obtain ⟨first, second⟩ := traced other head tail mark pair
    exact ⟨carry _ first, carry _ second⟩

theorem traced_skip {v : Value} {pending : List Value} (traced : a.Traced (v :: pending))
    (skip : ∀ id, v = .cell id → id < a.capacity → a.marked id = true) : a.Traced pending := by
  have carry : ∀ w, a.Noted (v :: pending) w → a.Noted pending w := by
    intro w noted
    refine noted.mono rfl (fun _ old => old) ?_
    intro id member inside
    rcases List.mem_cons.1 member with same | member
    · exact .inl (skip id same.symm inside)
    · exact .inr member
  intro id head tail mark pair
  obtain ⟨first, second⟩ := traced id head tail mark pair
  exact ⟨carry _ first, carry _ second⟩

theorem marked_of_skip {id : Nat} (skip : ∀ content, a.slots[id]? ≠ some ⟨content, false⟩)
    (inside : id < a.capacity) : a.marked id = true := by
  by_contra plain
  rw [Bool.not_eq_true] at plain
  exact skip (a.cell id) (by rw [slot_of_lt inside, plain])

theorem traced_markFrom {n : Nat} {pending : List Value} (enough : a.work pending ≤ n)
    (traced : a.Traced pending) : (markFrom n pending a).Traced [] := by
  fun_induction markFrom n pending a with
  | case1 pending a =>
    rcases pending with _ | ⟨v, pending⟩
    · exact traced
    · simp [work] at enough
  | case2 n a => exact traced
  | case3 n pending a ih =>
    have less := work_skip a .nil pending
    exact ih (by omega) (traced_skip traced (by simp))
  | case4 n id pending a head tail found ih =>
    have less := work_setMark_pair pending found
    refine ih (by omega) (traced_setMark found traced ?_ ?_)
    · intro v member
      simp [member]
    · rintro _ _ ⟨⟩
      simp
  | case5 n id pending a content notPair found ih =>
    have less := work_setMark_other pending found
    refine ih (by omega) (traced_setMark found traced (fun _ member => member) ?_)
    intro head tail same
    exact absurd same (notPair head tail)
  | case6 n id pending a _ skip ih =>
    have less := work_skip a (.cell id) pending
    refine ih (by omega) (traced_skip traced ?_)
    rintro _ ⟨⟩ inside
    exact marked_of_skip skip inside

theorem marked_of_pending {n id : Nat} {pending : List Value} (enough : a.work pending ≤ n)
    (member : .cell id ∈ pending) (inside : id < a.capacity) :
    (markFrom n pending a).marked id = true := by
  fun_induction markFrom n pending a with
  | case1 pending a =>
    rcases pending with _ | ⟨v, pending⟩
    · simp at member
    · simp [work] at enough
  | case2 n a => simp at member
  | case3 n pending a ih =>
    have less := work_skip a .nil pending
    exact ih (by omega) (by simpa using member) inside
  | case4 n visited pending a head tail found ih =>
    have less := work_setMark_pair pending found
    rcases List.mem_cons.1 member with same | member
    · cases same
      apply marked_markFrom_of_marked
      rw [marked_setMark inside]
      simp
    · exact ih (by omega) (by simp [member]) (by simpa using inside)
  | case5 n visited pending a content notPair found ih =>
    have less := work_setMark_other pending found
    rcases List.mem_cons.1 member with same | member
    · cases same
      apply marked_markFrom_of_marked
      rw [marked_setMark inside]
      simp
    · exact ih (by omega) member (by simpa using inside)
  | case6 n visited pending a _ skip ih =>
    have less := work_skip a (.cell visited) pending
    rcases List.mem_cons.1 member with same | member
    · cases same
      exact marked_markFrom_of_marked (marked_of_skip skip inside)
    · exact ih (by omega) member inside

theorem marked_of_reaches {v : Value} {id : Nat} (traced : a.Traced []) (noted : a.Noted [] v)
    (path : a.Reaches v id) (inside : id < a.capacity) : a.marked id = true := by
  have here : ∀ {id : Nat}, a.Noted [] (.cell id) → id < a.capacity → a.marked id = true := by
    intro id noted inside
    simpa using noted id rfl inside
  unfold Reaches at path
  induction path with
  | here => exact here noted inside
  | head pair _ ih =>
    have mark := here noted (lt_of_taken (taken_of_pair pair))
    exact ih (traced _ _ _ mark pair).1 inside
  | tail pair _ _ ih =>
    have mark := here noted (lt_of_taken (taken_of_pair pair))
    exact ih (traced _ _ _ mark pair).2 inside

/-! ### Marking from roots -/

theorem traced_mark (traced : a.Traced []) (root : Value) : (a.mark root).Traced [] := by
  refine traced_markFrom (work_root_le a root) ?_
  intro id head tail mark pair
  obtain ⟨first, second⟩ := traced id head tail mark pair
  have carry : ∀ v, a.Noted [] v → a.Noted [root] v := fun v noted =>
    noted.mono rfl (fun _ old => old) (by simp)
  exact ⟨carry _ first, carry _ second⟩

/-- Marking from a root adds marks to exactly the cells that the root reaches. -/
theorem marked_mark_iff (traced : a.Traced []) {root : Value} {id : Nat} (inside : id < a.capacity) :
    (a.mark root).marked id = true ↔ a.marked id = true ∨ a.Reaches root id := by
  constructor
  · intro h
    rcases reaches_of_marked h with old | ⟨v, member, path⟩
    · exact .inl old
    · rw [List.mem_singleton.1 member] at path
      exact .inr path
  · rintro (old | path)
    · exact marked_markFrom_of_marked old
    · refine marked_of_reaches (v := root) (traced_mark traced root) ?_ ?_ (by simpa using inside)
      · rintro id rfl inside
        exact .inl (marked_of_pending (work_root_le ..) List.mem_cons_self (by simpa using inside))
      · exact (reaches_congr fun _ _ => cell_mark ..).2 path

theorem cell_foldl_mark (roots : List Value) (a : Arena) (id : Nat) :
    (roots.foldl mark a).cell id = a.cell id := by
  induction roots generalizing a with
  | nil => rfl
  | cons root roots ih => rw [List.foldl_cons, ih, cell_mark]

theorem capacity_foldl_mark (roots : List Value) (a : Arena) :
    (roots.foldl mark a).capacity = a.capacity := by
  induction roots generalizing a with
  | nil => rfl
  | cons root roots ih => rw [List.foldl_cons, ih, capacity_mark]

theorem marked_foldl_mark_iff (traced : a.Traced []) {roots : List Value} {id : Nat}
    (inside : id < a.capacity) :
    (roots.foldl mark a).marked id = true ↔
      a.marked id = true ∨ ∃ root ∈ roots, a.Reaches root id := by
  induction roots generalizing a with
  | nil => simp
  | cons root roots ih =>
    have congr : ∀ v, (a.mark root).Reaches v id ↔ a.Reaches v id := fun v =>
      reaches_congr fun _ _ => cell_mark ..
    rw [List.foldl_cons, ih (traced_mark traced root) (by simpa using inside),
      marked_mark_iff traced inside]
    simp only [congr, List.mem_cons, exists_eq_or_imp, or_assoc]

theorem traced_of_unmarked (plain : ∀ id, a.marked id = false) : a.Traced [] := by
  intro id head tail mark
  simp [plain] at mark

end ArenaLisp.Arena
