import ArenaLisp.Arena.Collect

/-!
# Cells

What each operation of the arena does to a single cell and to a single mark. Everything else about
the arena is proved from these equations, so no later proof looks at the slots.
-/

namespace ArenaLisp

/-- What a cell holds after its tail was written. -/
def Cell.withTail (c : Cell) (tail : Value) : Cell :=
  match c with
  | .pair head _ => .pair head tail
  | c => c

/-- What a cell holds after its head was written. -/
def Cell.withHead (c : Cell) (head : Value) : Cell :=
  match c with
  | .pair _ tail => .pair head tail
  | c => c

namespace Arena

/-- Whether a cell has a mark. -/
def marked (a : Arena) (id : Nat) : Bool :=
  (a.slots[id]?).any Slot.marked

/-- A cell that was handed out. Outside the arena there is none. -/
def Taken (a : Arena) (id : Nat) : Prop :=
  ∀ next, a.cell id ≠ .free next

/-- A value that refers to no free cell. -/
def Live (a : Arena) (v : Value) : Prop :=
  ∀ id, v = .cell id → a.Taken id

theorem live_nil (a : Arena) : a.Live .nil := by
  intro id h
  cases h

theorem live_cell_iff {a : Arena} {id : Nat} : a.Live (.cell id) ↔ a.Taken id := by
  constructor
  · intro live
    exact live id rfl
  · rintro taken _ ⟨⟩
    exact taken

theorem taken_of_pair {a : Arena} {id : Nat} {head tail : Value}
    (h : a.cell id = .pair head tail) : a.Taken id := by
  intro next free
  rw [h] at free
  cases free

theorem taken_of_symbol {a : Arena} {id : Nat} {name : Symbol}
    (h : a.cell id = .symbol name) : a.Taken id := by
  intro next free
  rw [h] at free
  cases free

theorem not_taken_iff {a : Arena} {id : Nat} : ¬ a.Taken id ↔ ∃ next, a.cell id = .free next := by
  simp [Taken]

theorem cell_eq_of_slot {a : Arena} {id : Nat} {slot : Slot} (h : a.slots[id]? = some slot) :
    a.cell id = slot.cell := by
  simp [cell, h]

theorem marked_eq_of_slot {a : Arena} {id : Nat} {slot : Slot} (h : a.slots[id]? = some slot) :
    a.marked id = slot.marked := by
  simp [marked, h]

theorem slot_of_lt {a : Arena} {id : Nat} (h : id < a.capacity) :
    a.slots[id]? = some ⟨a.cell id, a.marked id⟩ := by
  have found : a.slots[id]? = some a.slots[id] := Array.getElem?_eq_getElem h
  simp [cell, marked, found]

theorem slot_of_not_lt {a : Arena} {id : Nat} (h : ¬ id < a.capacity) : a.slots[id]? = none :=
  Array.getElem?_eq_none (Nat.le_of_not_lt h)

theorem lt_of_marked {a : Arena} {id : Nat} (h : a.marked id = true) : id < a.capacity := by
  refine Decidable.byContradiction fun outside => ?_
  simp [marked, slot_of_not_lt outside] at h

theorem lt_of_taken {a : Arena} {id : Nat} (h : a.Taken id) : id < a.capacity := by
  refine Decidable.byContradiction fun outside => h .nil ?_
  simp [cell, slot_of_not_lt outside]

theorem slots_ext {a b : Arena} (size : a.capacity = b.capacity)
    (cells : ∀ id, id < a.capacity → a.cell id = b.cell id)
    (marks : ∀ id, id < a.capacity → a.marked id = b.marked id) : a.slots = b.slots := by
  apply Array.ext_getElem?
  intro id
  by_cases inside : id < a.capacity
  · rw [slot_of_lt inside, slot_of_lt (size ▸ inside), cells id inside, marks id inside]
  · rw [slot_of_not_lt inside, slot_of_not_lt (size ▸ inside)]

/-! ### Looking at values -/

@[simp] theorem cell?_nil (a : Arena) : a.cell? .nil = none := rfl

@[simp] theorem cell?_cell (a : Arena) (id : Nat) : a.cell? (.cell id) = some (a.cell id) := rfl

@[simp] theorem car_nil (a : Arena) : a.car .nil = .nil := rfl

@[simp] theorem cdr_nil (a : Arena) : a.cdr .nil = .nil := rfl

@[simp] theorem isPair_nil (a : Arena) : a.isPair .nil = false := rfl

@[simp] theorem symbol?_nil (a : Arena) : a.symbol? .nil = none := rfl

theorem car_of_pair {a : Arena} {id : Nat} {head tail : Value} (h : a.cell id = .pair head tail) :
    a.car (.cell id) = head := by
  simp [car, h]

theorem cdr_of_pair {a : Arena} {id : Nat} {head tail : Value} (h : a.cell id = .pair head tail) :
    a.cdr (.cell id) = tail := by
  simp [cdr, h]

theorem symbol?_eq_some_iff {a : Arena} {v : Value} {name : Symbol} :
    a.symbol? v = some name ↔ ∃ id, v = .cell id ∧ a.cell id = .symbol name := by
  rcases v with _ | id
  · simp
  · cases content : a.cell id <;> simp [symbol?, content]

theorem car_cases (a : Arena) (v : Value) :
    a.car v = .nil ∨ ∃ id tail, v = .cell id ∧ a.cell id = .pair (a.car v) tail := by
  rcases v with _ | id
  · exact .inl rfl
  · cases content : a.cell id <;> simp [car, content]

theorem cdr_cases (a : Arena) (v : Value) :
    a.cdr v = .nil ∨ ∃ id head, v = .cell id ∧ a.cell id = .pair head (a.cdr v) := by
  rcases v with _ | id
  · exact .inl rfl
  · cases content : a.cell id <;> simp [cdr, content]

/-! ### Writing a tail -/

@[simp] theorem capacity_setCdr (a : Arena) (id : Nat) (tail : Value) :
    (a.setCdr id tail).capacity = a.capacity := by
  simp [setCdr, capacity]

theorem cell_setCdr (a : Arena) (id other : Nat) (tail : Value) :
    (a.setCdr id tail).cell other =
      if other = id then (a.cell id).withTail tail else a.cell other := by
  by_cases same : other = id
  · subst same
    simp only [cell, setCdr, Array.getElem?_modify, if_true]
    rcases a.slots[other]? with _ | ⟨_ | _ | _, _⟩ <;> rfl
  · simp [cell, setCdr, Array.getElem?_modify, same, Ne.symm same]

theorem cell_setCdr_of_ne {a : Arena} {id other : Nat} {tail : Value} (h : other ≠ id) :
    (a.setCdr id tail).cell other = a.cell other := by
  simp [cell_setCdr, h]

theorem cell_setCdr_of_pair {a : Arena} {id : Nat} {head old tail : Value}
    (h : a.cell id = .pair head old) : (a.setCdr id tail).cell id = .pair head tail := by
  simp [cell_setCdr, h, Cell.withTail]

theorem marked_setCdr (a : Arena) (id other : Nat) (tail : Value) :
    (a.setCdr id tail).marked other = a.marked other := by
  by_cases same : other = id
  · subst same
    simp only [marked, setCdr, Array.getElem?_modify, if_true]
    rcases a.slots[other]? with _ | ⟨_ | _ | _, _⟩ <;> rfl
  · simp [marked, setCdr, Array.getElem?_modify, Ne.symm same]

theorem setCdr_eq_self {a : Arena} {id : Nat} {v : Value}
    (same : (a.cell id).withTail v = a.cell id) : a.setCdr id v = a := by
  have slots : (a.setCdr id v).slots = a.slots := by
    refine slots_ext (capacity_setCdr ..) (fun other _ => ?_) fun other _ => marked_setCdr ..
    rw [cell_setCdr]
    split
    · rename_i here
      rw [same, here]
    · rfl
  obtain ⟨_, _, _⟩ := a
  exact congrArg (Arena.mk · _ _) slots

theorem taken_setCdr {a : Arena} {id other : Nat} {tail : Value} :
    (a.setCdr id tail).Taken other ↔ a.Taken other := by
  by_cases same : other = id
  · subst same
    simp only [Taken, cell_setCdr, if_true]
    cases a.cell other <;> simp [Cell.withTail]
  · simp [Taken, cell_setCdr_of_ne same]

@[simp] theorem car_setCdr (a : Arena) (id : Nat) (tail v : Value) :
    (a.setCdr id tail).car v = a.car v := by
  cases v with
  | nil => rfl
  | cell other =>
    unfold car
    by_cases same : other = id
    · subst same
      simp only [cell?_cell, cell_setCdr, if_true]
      cases a.cell other <;> rfl
    · simp only [cell?_cell, cell_setCdr_of_ne same]

@[simp] theorem symbol?_setCdr (a : Arena) (id : Nat) (tail v : Value) :
    (a.setCdr id tail).symbol? v = a.symbol? v := by
  cases v with
  | nil => rfl
  | cell other =>
    unfold symbol?
    by_cases same : other = id
    · subst same
      simp only [cell?_cell, cell_setCdr, if_true]
      cases a.cell other <;> rfl
    · simp only [cell?_cell, cell_setCdr_of_ne same]

theorem cell_setCdr_eq_free_iff {a : Arena} {id other : Nat} {tail next : Value} :
    (a.setCdr id tail).cell other = .free next ↔ a.cell other = .free next := by
  rw [cell_setCdr]
  split
  · rename_i same
    subst same
    cases a.cell other <;> simp [Cell.withTail]
  · rfl

/-! ### Writing a head -/

@[simp] theorem capacity_setCar (a : Arena) (id : Nat) (head : Value) :
    (a.setCar id head).capacity = a.capacity := by
  simp [setCar, capacity]

theorem cell_setCar (a : Arena) (id other : Nat) (head : Value) :
    (a.setCar id head).cell other =
      if other = id then (a.cell id).withHead head else a.cell other := by
  by_cases same : other = id
  · subst same
    simp only [cell, setCar, Array.getElem?_modify, if_true]
    rcases a.slots[other]? with _ | ⟨_ | _ | _, _⟩ <;> rfl
  · simp [cell, setCar, Array.getElem?_modify, same, Ne.symm same]

theorem cell_setCar_eq_free_iff {a : Arena} {id other : Nat} {head next : Value} :
    (a.setCar id head).cell other = .free next ↔ a.cell other = .free next := by
  rw [cell_setCar]
  split
  · rename_i same
    subst same
    cases a.cell other <;> simp [Cell.withHead]
  · rfl

/-! ### Releasing -/

@[simp] theorem capacity_release (a : Arena) (id : Nat) :
    (a.release id).capacity = a.capacity := by
  simp [release, capacity]

@[simp] theorem freeCount_release (a : Arena) (id : Nat) :
    (a.release id).freeCount = a.freeCount + 1 := rfl

theorem cell_release {a : Arena} {id : Nat} (h : id < a.capacity) (other : Nat) :
    (a.release id).cell other = if other = id then .free a.freeList else a.cell other := by
  have inside : id < a.slots.size := h
  by_cases same : other = id
  · subst same
    simp [cell, release, inside]
  · simp [cell, release, same, Ne.symm same]

theorem marked_release {a : Arena} {id : Nat} (h : id < a.capacity) (other : Nat) :
    (a.release id).marked other = if other = id then false else a.marked other := by
  have inside : id < a.slots.size := h
  by_cases same : other = id
  · subst same
    simp [marked, release, inside]
  · simp [marked, release, same, Ne.symm same]

/-! ### Marks -/

@[simp] theorem capacity_setMark (a : Arena) (id : Nat) :
    (a.setMark id).capacity = a.capacity := by
  simp [setMark, capacity]

@[simp] theorem cell_setMark (a : Arena) (id other : Nat) :
    (a.setMark id).cell other = a.cell other := by
  by_cases same : other = id
  · subst same
    simp only [cell, setMark, Array.getElem?_modify, if_true]
    cases a.slots[other]? <;> rfl
  · simp [cell, setMark, Array.getElem?_modify, Ne.symm same]

theorem marked_setMark {a : Arena} {id : Nat} (h : id < a.capacity) (other : Nat) :
    (a.setMark id).marked other = if other = id then true else a.marked other := by
  by_cases same : other = id
  · subst same
    simp only [marked, setMark, Array.getElem?_modify, if_true]
    rw [slot_of_lt h]
    rfl
  · simp [marked, setMark, Array.getElem?_modify, same, Ne.symm same]

@[simp] theorem freeCount_clearMark (a : Arena) (id : Nat) :
    (a.clearMark id).freeCount = a.freeCount := rfl

@[simp] theorem capacity_clearMark (a : Arena) (id : Nat) :
    (a.clearMark id).capacity = a.capacity := by
  simp [clearMark, capacity]

@[simp] theorem cell_clearMark (a : Arena) (id other : Nat) :
    (a.clearMark id).cell other = a.cell other := by
  by_cases same : other = id
  · subst same
    simp only [cell, clearMark, Array.getElem?_modify, if_true]
    cases a.slots[other]? <;> rfl
  · simp [cell, clearMark, Array.getElem?_modify, Ne.symm same]

theorem marked_clearMark (a : Arena) (id other : Nat) :
    (a.clearMark id).marked other = if other = id then false else a.marked other := by
  by_cases same : other = id
  · subst same
    simp only [marked, clearMark, Array.getElem?_modify, if_true]
    cases a.slots[other]? <;> rfl
  · simp [marked, clearMark, Array.getElem?_modify, same, Ne.symm same]

/-! ### Marking -/

@[simp] theorem cell_markFrom (n : Nat) (pending : List Value) (a : Arena) (id : Nat) :
    (markFrom n pending a).cell id = a.cell id := by
  fun_induction markFrom n pending a with
  | case1 | case2 => rfl
  | case3 n pending a ih => exact ih
  | case4 n visited pending a head tail h ih => rw [ih, cell_setMark]
  | case5 n visited pending a content notPair h ih => rw [ih, cell_setMark]
  | case6 n visited pending a _ skip ih => exact ih

@[simp] theorem capacity_markFrom (n : Nat) (pending : List Value) (a : Arena) :
    (markFrom n pending a).capacity = a.capacity := by
  fun_induction markFrom n pending a with
  | case1 | case2 => rfl
  | case3 n pending a ih => exact ih
  | case4 n visited pending a head tail h ih => rw [ih, capacity_setMark]
  | case5 n visited pending a content notPair h ih => rw [ih, capacity_setMark]
  | case6 n visited pending a _ skip ih => exact ih

theorem chain_markFrom (n : Nat) (pending : List Value) (a : Arena) :
    (markFrom n pending a).freeList = a.freeList ∧
      (markFrom n pending a).freeCount = a.freeCount := by
  fun_induction markFrom n pending a with
  | case1 | case2 => exact ⟨rfl, rfl⟩
  | case3 n pending a ih => exact ih
  | case4 n visited pending a head tail h ih => exact ih
  | case5 n visited pending a content notPair h ih => exact ih
  | case6 n visited pending a _ skip ih => exact ih

@[simp] theorem cell_mark (a : Arena) (root : Value) (id : Nat) :
    (a.mark root).cell id = a.cell id :=
  cell_markFrom ..

@[simp] theorem capacity_mark (a : Arena) (root : Value) :
    (a.mark root).capacity = a.capacity :=
  capacity_markFrom ..

end Arena

end ArenaLisp
