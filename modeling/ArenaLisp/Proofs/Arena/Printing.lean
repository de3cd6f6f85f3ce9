import Mathlib.Data.List.Perm.Subperm
import ArenaLisp.Arena.Unfold
import ArenaLisp.Proofs.Arena.Soundness

/-!
# Printing

Printing fails on a free cell only, and a live value of a sound arena leads to none. A value that
unfolds to a tree is printed as the tree: along a tree no cell comes twice, so the arena has as many
cells as printing goes deep (`Unfolds.print_eq`).
-/

namespace ArenaLisp

/-- How many pairs there are at most on a way through a tree. -/
def Sexp.depth : Sexp → Nat
  | pair head tail => max head.depth tail.depth + 1
  | _ => 0

namespace Arena

/-- A value that unfolds to a tree. -/
inductive Unfolds (a : Arena) : Value → Sexp → Prop where
  | nil : Unfolds a .nil .nil
  | symbol {id : Nat} {name : Symbol} : a.cell id = .symbol name →
    Unfolds a (.cell id) (.symbol name)
  | pair {id : Nat} {head tail : Value} {s t : Sexp} : a.cell id = .pair head tail →
    Unfolds a head s → Unfolds a tail t → Unfolds a (.cell id) (.pair s t)

variable {a b : Arena} {v : Value} {s t : Sexp} {fault : Fault}

theorem unfoldWithin_ne_error {n : Nat} (sound : a.Sound) (live : a.Live v) :
    a.unfoldWithin n v ≠ some (.error fault) := by
  induction n generalizing v with
  | zero => simp [unfoldWithin]
  | succ n ih =>
    unfold unfoldWithin
    rcases v with _ | id
    · simp
    · rw [cell?_cell]
      cases content : a.cell id with
      | symbol name => simp
      | free next => exact absurd content (live id rfl next)
      | pair head tail =>
        obtain ⟨liveHead, liveTail⟩ := sound.closed id head tail content
        have first := ih liveHead
        have second := ih liveTail
        rcases unfolded : a.unfoldWithin n head with _ | ⟨fault' | head'⟩
        · simp [unfolded]
        · rw [unfolded] at first
          simpa [unfolded] using first
        · rcases unfolded' : a.unfoldWithin n tail with _ | ⟨fault' | tail'⟩
          · simp [unfolded, unfolded']
          · rw [unfolded'] at second
            simpa [unfolded, unfolded'] using second
          · simp [unfolded, unfolded']

/-- A live value has a text, unless it contains itself. -/
theorem print_ne_error (sound : a.Sound) (live : a.Live v) :
    a.print v ≠ some (.error fault) := by
  intro printed
  obtain ⟨result, unfolded, same⟩ := Option.map_eq_some_iff.1 printed
  rcases result with fault' | tree
  · exact unfoldWithin_ne_error sound live unfolded
  · cases same

/-! ### Trees -/

theorem Unfolds.unique (first : a.Unfolds v s) (second : a.Unfolds v t) : s = t := by
  induction first generalizing t with
  | nil =>
    cases second
    rfl
  | symbol content =>
    cases second with
    | symbol content' =>
      cases content.symm.trans content'
      rfl
    | pair content' => cases content.symm.trans content'
  | pair content _ _ ihHead ihTail =>
    cases second with
    | symbol content' => cases content.symm.trans content'
    | pair content' head tail =>
      cases content.symm.trans content'
      rw [ihHead head, ihTail tail]

theorem Unfolds.extends' (unfolds : a.Unfolds v t) (ext : a.Extends b) : b.Unfolds v t := by
  induction unfolds with
  | nil => exact .nil
  | symbol content => exact .symbol ((ext.kept _ (taken_of_symbol content)).trans content)
  | pair content _ _ head tail =>
    exact .pair ((ext.kept _ (taken_of_pair content)).trans content) head tail

theorem Unfolds.trail (unfolds : a.Unfolds v t) :
    ∃ ids : List Nat, ids.length = t.depth ∧ ids.Nodup ∧
      ∀ id ∈ ids, a.Taken id ∧ ∃ s, a.Unfolds (.cell id) s ∧ s.depth ≤ t.depth := by
  induction unfolds with
  | nil => exact ⟨[], rfl, List.nodup_nil, by simp⟩
  | symbol => exact ⟨[], rfl, List.nodup_nil, by simp⟩
  | @pair cell head tail s t content first second ihHead ihTail =>
    have whole : a.Unfolds (.cell cell) (.pair s t) := .pair content first second
    have longer : ∀ (part : Sexp) (ids : List Nat), part.depth = max s.depth t.depth →
        ids.length = part.depth → ids.Nodup →
        (∀ id ∈ ids, a.Taken id ∧ ∃ s, a.Unfolds (.cell id) s ∧ s.depth ≤ part.depth) →
        ∃ ids : List Nat, ids.length = (Sexp.pair s t).depth ∧ ids.Nodup ∧
          ∀ id ∈ ids, a.Taken id ∧
            ∃ u, a.Unfolds (.cell id) u ∧ u.depth ≤ (Sexp.pair s t).depth := by
      intro part ids deepest length nodup known
      have absent : cell ∉ ids := by
        intro member
        obtain ⟨-, u, shallow, bound⟩ := known cell member
        have is := whole.unique shallow
        subst is
        simp only [Sexp.depth] at bound
        omega
      refine ⟨cell :: ids, ?_, List.nodup_cons.2 ⟨absent, nodup⟩, ?_⟩
      · simp only [List.length_cons, Sexp.depth]
        omega
      · intro id member
        obtain is | member := List.mem_cons.1 member
        · subst is
          exact ⟨taken_of_pair content, _, whole, Nat.le_refl _⟩
        · obtain ⟨taken, u, shallow, bound⟩ := known id member
          refine ⟨taken, u, shallow, ?_⟩
          simp only [Sexp.depth]
          omega
    obtain le | le := Nat.le_total s.depth t.depth
    · obtain ⟨ids, length, nodup, known⟩ := ihTail
      exact longer t ids (by omega) length nodup known
    · obtain ⟨ids, length, nodup, known⟩ := ihHead
      exact longer s ids (by omega) length nodup known

theorem Unfolds.depth_le (unfolds : a.Unfolds v t) : t.depth ≤ a.capacity := by
  obtain ⟨ids, length, nodup, known⟩ := unfolds.trail
  have inside : ids ⊆ List.range a.capacity := by
    intro id member
    exact List.mem_range.2 (lt_of_taken (known id member).1)
  have short := (List.Nodup.subperm nodup inside).length_le
  rw [List.length_range] at short
  omega

theorem Unfolds.unfoldWithin_eq {n : Nat} (unfolds : a.Unfolds v t) (enough : t.depth < n) :
    a.unfoldWithin n v = some (.ok t) := by
  induction unfolds generalizing n with
  | nil =>
    obtain ⟨n, rfl⟩ : ∃ k, n = k + 1 := ⟨n - 1, by omega⟩
    rfl
  | symbol content =>
    obtain ⟨n, rfl⟩ : ∃ k, n = k + 1 := ⟨n - 1, by omega⟩
    simp only [unfoldWithin, cell?_cell, content]
  | pair content _ _ ihHead ihTail =>
    obtain ⟨n, rfl⟩ : ∃ k, n = k + 1 := ⟨n - 1, by omega⟩
    simp only [Sexp.depth] at enough
    have head := ihHead (n := n) (by omega)
    have tail := ihTail (n := n) (by omega)
    simp only [unfoldWithin, cell?_cell, content, head, tail]

theorem Unfolds.print_eq (unfolds : a.Unfolds v t) : a.print v = some (.ok t.text) := by
  have unfolded := unfolds.unfoldWithin_eq (Nat.lt_succ_of_le unfolds.depth_le)
  unfold print unfold
  rw [unfolded]
  rfl

theorem unfolds_of_unfoldWithin {n : Nat} (unfolded : a.unfoldWithin n v = some (.ok t)) :
    a.Unfolds v t := by
  induction n generalizing v t with
  | zero => cases unfolded
  | succ n ih =>
    unfold unfoldWithin at unfolded
    rcases v with _ | id
    · cases unfolded
      exact .nil
    · rw [cell?_cell] at unfolded
      cases content : a.cell id with
      | free next => simp [content] at unfolded
      | symbol name =>
        simp only [content] at unfolded
        cases unfolded
        exact .symbol content
      | pair head tail =>
        simp only [content] at unfolded
        rcases first : a.unfoldWithin n head with _ | ⟨_ | s⟩
        · simp [first] at unfolded
        · simp [first] at unfolded
        · rcases second : a.unfoldWithin n tail with _ | ⟨_ | u⟩
          · simp [first, second] at unfolded
          · simp [first, second] at unfolded
          · simp only [first, second] at unfolded
            cases unfolded
            exact .pair content (ih first) (ih second)

theorem unfolds_of_print {text : String} (printed : a.print v = some (.ok text)) :
    ∃ t, a.Unfolds v t ∧ text = t.text := by
  obtain ⟨result, unfolded, same⟩ := Option.map_eq_some_iff.1 printed
  rcases result with fault | t
  · cases same
  · cases same
    exact ⟨t, unfolds_of_unfoldWithin unfolded, rfl⟩

end Arena

end ArenaLisp
