import ArenaLisp.Proofs.Arena.Lookup

/-!
# Tables of names

A table is a list that ends, of bindings whose names are symbols. Only the tails of its bindings are
values, so they can be written without a change in the table (`Table.congr`). A lookup along a table
comes to an end: it finds the first binding of the name, and says so if there is none
(`Table.lookup_eq`).
-/

namespace ArenaLisp

/-- A row of a table: its list cell, its binding, and the cell of the name of the binding. -/
structure Entry where
  list : Nat
  binding : Nat
  key : Nat
  name : Symbol
  deriving DecidableEq, Repr

namespace Arena

/-- A list of bindings of symbols, row by row. -/
inductive Table (a : Arena) : Value → List Entry → Prop where
  | nil : Table a .nil []
  | cons {e : Entry} {rest val : Value} {rows : List Entry} :
    a.cell e.list = .pair (.cell e.binding) rest → a.cell e.binding = .pair (.cell e.key) val →
    a.cell e.key = .symbol e.name → Table a rest rows → Table a (.cell e.list) (e :: rows)

namespace Table

variable {a b : Arena} {v : Value} {rows : List Entry} {e : Entry} {name : Symbol} {n : Nat}

theorem row (table : a.Table v rows) :
    a.Row v (rows.map Entry.list) (rows.map fun e => .cell e.binding) := by
  induction table with
  | nil => exact .nil
  | cons pair _ _ _ ih => exact .cons pair ih

theorem length_le (table : a.Table v rows) : rows.length ≤ a.capacity := by
  simpa using table.row.length_le

theorem onList_iff {id : Nat} (table : a.Table v rows) :
    a.OnList v id ↔ ∃ e ∈ rows, e.list = id := by
  rw [table.row.onList_iff, List.mem_map]

theorem element_iff {w : Value} (table : a.Table v rows) :
    a.Element v w ↔ ∃ e ∈ rows, .cell e.binding = w := by
  rw [table.row.element_iff, List.mem_map]

theorem cells (table : a.Table v rows) (member : e ∈ rows) :
    (∃ rest, a.cell e.list = .pair (.cell e.binding) rest) ∧
      (∃ val, a.cell e.binding = .pair (.cell e.key) val) ∧ a.cell e.key = .symbol e.name := by
  induction table with
  | nil => cases member
  | cons pair binding key _ ih =>
    rcases List.mem_cons.1 member with rfl | member
    · exact ⟨⟨_, pair⟩, ⟨_, binding⟩, key⟩
    · exact ih member

theorem reaches (table : a.Table v rows) (member : e ∈ rows) :
    a.Reaches v e.list ∧ a.Reaches v e.binding ∧ a.Reaches v e.key := by
  obtain ⟨-, ⟨val, pair⟩, -⟩ := table.cells member
  have binding : ∀ {id}, a.Reaches (.cell e.binding) id → a.Reaches v id :=
    (table.element_iff.2 ⟨e, member, rfl⟩).path fun _ _ => not_false
  exact ⟨(table.onList_iff.2 ⟨e, member, rfl⟩).reaches, binding (.here _),
    binding (.head pair (.here _))⟩

theorem unique {others : List Entry} (table : a.Table v rows) (other : a.Table v others) :
    rows = others := by
  induction table generalizing others with
  | nil =>
    cases other
    rfl
  | @cons e _ _ _ pair binding key _ ih =>
    generalize is : Value.cell e.list = w at other
    cases other with
    | nil => cases is
    | @cons e' _ _ _ pair' binding' key' rest =>
      obtain ⟨list, binding₁, key₁, name⟩ := e
      obtain ⟨list', binding₂, key₂, name'⟩ := e'
      cases is
      cases pair.symm.trans pair'
      cases binding.symm.trans binding'
      cases key.symm.trans key'
      rw [ih rest]

theorem congr (table : a.Table v rows) (lists : ∀ e ∈ rows, b.cell e.list = a.cell e.list)
    (bindings : ∀ e ∈ rows, ∀ val, a.cell e.binding = .pair (.cell e.key) val →
      ∃ val', b.cell e.binding = .pair (.cell e.key) val')
    (keys : ∀ e ∈ rows, b.cell e.key = a.cell e.key) : b.Table v rows := by
  induction table with
  | nil => exact .nil
  | @cons e rest val rows pair binding key _ ih =>
    obtain ⟨val', binding'⟩ := bindings e (by simp) val binding
    refine .cons ((lists e (by simp)).trans pair) binding' ((keys e (by simp)).trans key) ?_
    apply ih
    · exact fun e member => lists e (List.mem_cons_of_mem _ member)
    · exact fun e member => bindings e (List.mem_cons_of_mem _ member)
    · exact fun e member => keys e (List.mem_cons_of_mem _ member)

theorem same (table : a.Table v rows) (same : ∀ e ∈ rows, b.cell e.list = a.cell e.list ∧
    b.cell e.binding = a.cell e.binding ∧ b.cell e.key = a.cell e.key) : b.Table v rows :=
  table.congr (fun e member => (same e member).1)
    (fun e member val pair => ⟨val, (same e member).2.1.trans pair⟩)
    fun e member => (same e member).2.2

theorem extends' (table : a.Table v rows) (ext : a.Extends b) : b.Table v rows := by
  refine table.same fun e member => ?_
  obtain ⟨⟨_, pair⟩, ⟨_, binding⟩, key⟩ := table.cells member
  exact ⟨ext.kept _ (taken_of_pair pair), ext.kept _ (taken_of_pair binding),
    ext.kept _ (taken_of_symbol key)⟩

theorem setCdr {id : Nat} {w : Value} (table : a.Table v rows) (unlisted : ¬ a.OnList v id) :
    (a.setCdr id w).Table v rows := by
  refine table.congr ?_ ?_ ?_
  · intro e member
    apply cell_setCdr_of_ne
    rintro rfl
    exact unlisted (table.onList_iff.2 ⟨e, member, rfl⟩)
  · intro e member val pair
    by_cases here : e.binding = id
    · subst here
      exact ⟨w, cell_setCdr_of_pair pair⟩
    · exact ⟨val, (cell_setCdr_of_ne here).trans pair⟩
  · intro e member
    rw [cell_setCdr]
    split
    · rename_i here
      simp [← here, (table.cells member).2.2, Cell.withTail]
    · rfl

/-! ### Lookups -/

theorem lookupWithin_eq (table : a.Table v rows) (name : Symbol) (enough : rows.length < n) :
    a.lookupWithin name n v = match rows.find? fun e => e.name = name with
      | some e => .found e.binding
      | none => .absent := by
  induction table generalizing n with
  | nil =>
    obtain ⟨n, rfl⟩ : ∃ k, n = k + 1 := ⟨n - 1, by omega⟩
    rfl
  | @cons e rest val rows pair binding key _ ih =>
    obtain ⟨n, rfl⟩ : ∃ k, n = k + 1 := ⟨n - 1, by omega⟩
    have binds : a.binds (.cell e.binding) name = decide (e.name = name) := by
      simp [Arena.binds, car_of_pair binding, symbol?, key]
    have next : a.lookupWithin name (n + 1) (.cell e.list) =
        if a.binds (.cell e.binding) name then .found e.binding
        else a.lookupWithin name n rest := by
      simp only [lookupWithin, cell?_cell, pair]
    rw [next, binds, List.find?_cons]
    by_cases here : e.name = name
    · simp [here]
    · simp only [here, decide_false, Bool.false_eq_true, if_false]
      exact ih (by simpa using enough)

theorem lookup_eq (table : a.Table v rows) (name : Symbol) :
    a.lookup name v = match rows.find? fun e => e.name = name with
      | some e => .found e.binding
      | none => .absent :=
  table.lookupWithin_eq name (Nat.lt_succ_of_le table.length_le)

theorem not_mem_of_absent (table : a.Table v rows) (absent : a.lookup name v = .absent) :
    name ∉ rows.map Entry.name := by
  rw [table.lookup_eq] at absent
  intro member
  obtain ⟨e, member, is⟩ := List.mem_map.1 member
  cases found : rows.find? fun e => e.name = name with
  | some e => simp [found] at absent
  | none => exact absurd is (by simpa using List.find?_eq_none.1 found e member)

theorem bindOn {var val w : Value} (table : a.Table v rows) (symbol : a.symbol? var = some name) (bound : a.BoundOn var val v w b) :
    ∃ e : Entry, e.name = name ∧ b.Table w (e :: rows) := by
  have table' := table.extends' bound.grows.extends'
  have ext := bound.grows.extends'
  obtain ⟨key, rfl, content⟩ := symbol?_eq_some_iff.1 symbol
  obtain ⟨entry, mid, list, first, second, rfl⟩ := bound
  have content' : b.cell entry = .pair (.cell key) val :=
    (second.extends.kept entry (taken_of_pair first.content)).trans first.content
  have named : b.cell key = .symbol name := (ext.kept key (taken_of_symbol content)).trans content
  exact ⟨⟨list, entry, key, name⟩, rfl,
    .cons (e := ⟨list, entry, key, name⟩) second.content content' named table'⟩

end Table

end Arena

end ArenaLisp
