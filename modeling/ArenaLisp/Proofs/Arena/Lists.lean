import Mathlib.Data.List.Perm.Subperm
import ArenaLisp.Proofs.Arena.Paths

/-!
# Lists in the arena

The list cells of a value are the pairs it leads to along tails. An environment is a list whose
elements are bindings, and the protection stack is a list of what is protected. A list may run into
itself, so its cells are given by induction and not counted.
-/

namespace ArenaLisp.Arena

/-- A pair that is met along tails. -/
inductive OnList (a : Arena) : Value → Nat → Prop where
  | here {id : Nat} {head tail : Value} : a.cell id = .pair head tail → OnList a (.cell id) id
  | next {id target : Nat} {head tail : Value} :
    a.cell id = .pair head tail → OnList a tail target → OnList a (.cell id) target

/-- A cell that is met along tails, a pair or the cell at which the list ends. -/
inductive Along (a : Arena) : Value → Nat → Prop where
  | here (id : Nat) : Along a (.cell id) id
  | next {id target : Nat} {head tail : Value} :
    a.cell id = .pair head tail → Along a tail target → Along a (.cell id) target

/-- A value that a list cell has for its head. -/
def Element (a : Arena) (list v : Value) : Prop :=
  ∃ id tail, a.OnList list id ∧ a.cell id = .pair v tail

/-- A value that a list comes to along its tails. -/
inductive Suffix (a : Arena) (rest : Value) : Value → Prop where
  | refl : Suffix a rest rest
  | next {id : Nat} {head tail : Value} :
    a.cell id = .pair head tail → Suffix a rest tail → Suffix a rest (.cell id)

variable {a b : Arena} {off : Nat → Prop} {list rest v : Value} {id : Nat}

theorem not_onList_nil : ¬ a.OnList .nil id := by
  intro h
  cases h

theorem OnList.pair (h : a.OnList list id) : ∃ head tail, a.cell id = .pair head tail := by
  induction h with
  | here pair => exact ⟨_, _, pair⟩
  | next _ _ ih => exact ih

theorem OnList.taken (h : a.OnList list id) : a.Taken id := by
  obtain ⟨head, tail, pair⟩ := h.pair
  exact taken_of_pair pair

theorem onList_cons_iff {cell : Nat} {head tail : Value} (h : a.cell cell = .pair head tail) :
    a.OnList (.cell cell) id ↔ id = cell ∨ a.OnList tail id := by
  constructor
  · intro on
    cases on with
    | here => exact .inl rfl
    | next pair on =>
      rw [h] at pair
      cases pair
      exact .inr on
  · rintro (rfl | on)
    · exact .here h
    · exact .next h on

theorem element_cons_iff {cell : Nat} {head tail : Value} (h : a.cell cell = .pair head tail) :
    a.Element (.cell cell) v ↔ v = head ∨ a.Element tail v := by
  constructor
  · rintro ⟨id, rest, on, pair⟩
    rcases (onList_cons_iff h).1 on with rfl | on
    · rw [h] at pair
      cases pair
      exact .inl rfl
    · exact .inr ⟨id, rest, on, pair⟩
  · rintro (rfl | ⟨id, rest, on, pair⟩)
    · exact ⟨cell, tail, .here h, h⟩
    · exact ⟨id, rest, .next h on, pair⟩

theorem not_element_nil : ¬ a.Element .nil v := by
  rintro ⟨id, tail, on, -⟩
  exact not_onList_nil on

theorem Suffix.trans {other : Value} (h : a.Suffix rest list) (h' : a.Suffix list other) :
    a.Suffix rest other := by
  induction h' with
  | refl => exact h
  | next pair _ ih => exact .next pair ih

theorem OnList.of_suffix (h : a.Suffix rest list) (on : a.OnList rest id) : a.OnList list id := by
  induction h with
  | refl => exact on
  | next pair _ ih => exact .next pair ih

theorem Element.of_suffix (h : a.Suffix rest list) (element : a.Element rest v) :
    a.Element list v := by
  obtain ⟨id, tail, on, pair⟩ := element
  exact ⟨id, tail, on.of_suffix h, pair⟩

theorem OnList.along (h : a.OnList list id) : a.Along list id := by
  induction h with
  | here => exact .here _
  | next pair _ ih => exact .next pair ih

theorem Along.path (h : a.Along list id) (on : ∀ id, a.OnList list id → ¬ off id) :
    a.Path off list id := by
  induction h with
  | here => exact .here _
  | next pair rest ih =>
    exact .tail pair (on _ (.here pair)) (ih fun id on' => on id (.next pair on'))

theorem OnList.path (h : a.OnList list id) (on : ∀ id, a.OnList list id → ¬ off id) :
    a.Path off list id :=
  h.along.path on

theorem Along.reaches (h : a.Along list id) : a.Reaches list id :=
  h.path fun _ _ => not_false

theorem OnList.reaches (h : a.OnList list id) : a.Reaches list id :=
  h.along.reaches

theorem Element.path {target : Nat} (h : a.Element list v)
    (on : ∀ id, a.OnList list id → ¬ off id) (path : a.Path off v target) :
    a.Path off list target := by
  obtain ⟨id, tail, on', pair⟩ := h
  exact (on'.path on).thenHead pair path

theorem Along.onList_or (h : a.Along list id) :
    a.OnList list id ∨ ∀ tail, (a.cell id).withTail tail = a.cell id := by
  induction h with
  | here id =>
    cases content : a.cell id with
    | pair head tail => exact .inl (.here content)
    | symbol name => exact .inr fun _ => rfl
    | free next => exact .inr fun _ => rfl
  | next pair _ ih => exact ih.imp_left (.next pair)

theorem Along.setCdr {cell : Nat} {w : Value} (along : a.Along list id)
    (unlisted : ¬ a.OnList list cell) : (a.setCdr cell w).cell id = a.cell id := by
  rw [cell_setCdr]
  split
  · rename_i same
    subst same
    obtain on | unchanged := along.onList_or
    · exact absurd on unlisted
    · exact unchanged w
  · rfl

section

variable (same : ∀ id, a.Along list id → b.cell id = a.cell id)
include same

theorem onList_congr : b.OnList list id ↔ a.OnList list id := by
  constructor
  · intro on
    induction on with
    | here pair => exact .here ((same _ (.here _)).symm.trans pair)
    | next pair _ ih =>
      have there := (same _ (.here _)).symm.trans pair
      exact .next there (ih fun id on => same id (.next there on))
  · intro on
    induction on with
    | here pair => exact .here ((same _ (.here _)).trans pair)
    | next pair _ ih =>
      exact .next ((same _ (.here _)).trans pair) (ih fun id on => same id (.next pair on))

theorem element_congr : b.Element list v ↔ a.Element list v := by
  constructor
  · rintro ⟨id, tail, on, pair⟩
    have there := (onList_congr same).1 on
    exact ⟨id, tail, there, (same _ there.along).symm.trans pair⟩
  · rintro ⟨id, tail, on, pair⟩
    exact ⟨id, tail, (onList_congr same).2 on, (same _ on.along).trans pair⟩

theorem along_congr : b.Along list id ↔ a.Along list id := by
  constructor
  · intro along
    induction along with
    | here => exact .here _
    | next pair _ ih =>
      have there := (same _ (.here _)).symm.trans pair
      exact .next there (ih fun id on => same id (.next there on))
  · intro along
    induction along with
    | here => exact .here _
    | next pair _ ih =>
      exact .next ((same _ (.here _)).trans pair) (ih fun id on => same id (.next pair on))

theorem Suffix.congr (h : a.Suffix rest list) : b.Suffix rest list := by
  induction h with
  | refl => exact .refl
  | next pair _ ih =>
    exact .next ((same _ (.here _)).trans pair) (ih fun id on => same id (.next pair on))

end

/-! ### Lists that end -/

/-- A list that ends with the empty value, with its cells and its elements. -/
inductive Row (a : Arena) : Value → List Nat → List Value → Prop where
  | nil : Row a .nil [] []
  | cons {id : Nat} {head tail : Value} {ids : List Nat} {vs : List Value} :
    a.cell id = .pair head tail → Row a tail ids vs → Row a (.cell id) (id :: ids) (head :: vs)

namespace Row

variable {ids others : List Nat} {vs ws : List Value}

theorem unique (row : a.Row v ids vs) (other : a.Row v others ws) : ids = others ∧ vs = ws := by
  induction row generalizing others ws with
  | nil =>
    cases other
    exact ⟨rfl, rfl⟩
  | cons pair _ ih =>
    cases other with
    | cons pair' rest =>
      cases pair.symm.trans pair'
      obtain ⟨sameIds, sameVs⟩ := ih rest
      exact ⟨by rw [sameIds], by rw [sameVs]⟩

theorem congr (row : a.Row v ids vs) (same : ∀ id ∈ ids, b.cell id = a.cell id) :
    b.Row v ids vs := by
  induction row with
  | nil => exact .nil
  | cons pair _ ih =>
    refine .cons ((same _ (by simp)).trans pair) (ih fun id member => ?_)
    exact same id (List.mem_cons_of_mem _ member)

theorem onList_iff (row : a.Row v ids vs) : a.OnList v id ↔ id ∈ ids := by
  induction row with
  | nil => simpa using not_onList_nil
  | cons pair _ ih => rw [onList_cons_iff pair, ih, List.mem_cons]

theorem mem_of_along (row : a.Row v ids vs) (along : a.Along v id) : id ∈ ids := by
  induction row with
  | nil => cases along
  | cons pair _ ih =>
    cases along with
    | here => exact List.mem_cons_self
    | next pair' along =>
      cases pair.symm.trans pair'
      exact List.mem_cons_of_mem _ (ih along)

theorem element_iff {w : Value} (row : a.Row v ids vs) : a.Element v w ↔ w ∈ vs := by
  induction row with
  | nil => simpa using not_element_nil
  | cons pair _ ih => rw [element_cons_iff pair, ih, List.mem_cons]

theorem of_mem (row : a.Row v ids vs) (member : id ∈ ids) :
    ∃ rest ws, a.Row (.cell id) (id :: rest) ws ∧ (id :: rest).length ≤ ids.length := by
  induction row with
  | nil => cases member
  | @cons first head tail ids vs pair row ih =>
    rcases List.mem_cons.1 member with same | member
    · subst same
      exact ⟨ids, head :: vs, .cons pair row, Nat.le_refl _⟩
    · obtain ⟨rest, ws, onward, short⟩ := ih member
      exact ⟨rest, ws, onward, Nat.le_succ_of_le short⟩

theorem nodup (row : a.Row v ids vs) : ids.Nodup := by
  induction row with
  | nil => exact List.nodup_nil
  | @cons first head tail ids vs pair row ih =>
    refine List.nodup_cons.2 ⟨fun member => ?_, ih⟩
    obtain ⟨rest, ws, onward, short⟩ := row.of_mem member
    have same := (onward.unique (.cons pair row)).1
    rw [same, List.length_cons] at short
    omega

theorem taken (row : a.Row v ids vs) (member : id ∈ ids) : a.Taken id :=
  (row.onList_iff.2 member).taken

theorem length_le (row : a.Row v ids vs) : ids.length ≤ a.capacity := by
  have inside : ids ⊆ List.range a.capacity := fun id member =>
    List.mem_range.2 (lt_of_taken (row.taken member))
  simpa using (List.Nodup.subperm row.nodup inside).length_le

theorem append {last new : Nat} {w : Value} (row : a.Row v (ids ++ [last]) vs)
    (same : ∀ id ∈ ids, b.cell id = a.cell id)
    (link : ∀ head tail, a.cell last = .pair head tail → b.cell last = .pair head (.cell new))
    (content : b.cell new = .pair w .nil) : b.Row v (ids ++ [last] ++ [new]) (vs ++ [w]) := by
  induction ids generalizing v vs with
  | nil =>
    rcases row with _ | ⟨pair, rest⟩
    cases rest
    exact .cons (link _ _ pair) (.cons content .nil)
  | cons first ids ih =>
    rcases row with _ | ⟨pair, rest⟩
    refine .cons ((same first (by simp)).trans pair) (ih rest fun id member => ?_)
    exact same id (List.mem_cons_of_mem _ member)

end Row

end ArenaLisp.Arena
