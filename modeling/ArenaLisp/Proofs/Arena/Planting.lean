import ArenaLisp.Arena.Unfold
import ArenaLisp.Proofs.Arena.Storing

/-!
# Trees in the arena

A tree is stored in cells of its own, each used once. So a stored tree can serve as an environment:
none of its list cells is an element of it.
-/

namespace ArenaLisp.Arena

open Storing

variable {a b c : Arena} {v : Value} {id : Nat}

/-- What is known of a tree that was just stored. -/
structure Planted (a : Arena) (v : Value) (b : Arena) : Prop where
  grows : a.Grows b
  live : b.Live v
  fresh : ∀ id, b.Reaches v id → ¬ a.Taken id
  apart : ∀ id, b.OnList v id → ¬ b.Element v (.cell id)

theorem Element.reaches (h : a.Element v (.cell id)) : a.Reaches v id :=
  h.path (fun _ _ => not_false) (.here id)

theorem planted_leaf (grows : a.Grows b) (fresh : ¬ a.Taken id) {name : Symbol}
    (content : b.cell id = .symbol name) : a.Planted (.cell id) b := by
  refine ⟨grows, live_cell_iff.2 (taken_of_symbol content), ?_, ?_⟩
  · intro other path
    cases path with
    | here => exact fresh
    | head pair => simp [content] at pair
    | tail pair => simp [content] at pair
  · intro other on
    cases on with
    | here pair => simp [content] at pair
    | next pair => simp [content] at pair

theorem Planted.pair {d : Arena} {head tail : Value} (first : a.Planted head b)
    (second : b.Planted tail c) (took : c.TookCell (.pair head tail) id d) :
    a.Planted (.cell id) d := by
  have grows := (first.grows.trans second.grows).trans took.grows
  have liveHead := second.grows.extends'.live first.live
  have old : ∀ {x}, d.Reaches head x → b.Reaches head x := fun path =>
    (second.grows.reaches_iff first.grows.sound first.live).1
      ((took.grows.reaches_iff second.grows.sound liveHead).1 path)
  have new : ∀ {x}, d.Reaches tail x → c.Reaches tail x :=
    (took.grows.reaches_iff second.grows.sound second.live).1
  have below : ∀ {x}, b.Taken x → c.Taken x := second.grows.extends'.taken
  have headTaken : ∀ {x}, d.Reaches head x → b.Taken x := fun path =>
    first.grows.sound.taken_of_reaches first.live (old path)
  have tailTaken : ∀ {x}, d.Reaches tail x → c.Taken x := fun path =>
    second.grows.sound.taken_of_reaches second.live (new path)
  refine ⟨grows, live_cell_iff.2 (taken_of_pair took.content), ?_, ?_⟩
  · intro x path known
    cases path with
    | here => exact took.fresh ((first.grows.trans second.grows).extends'.taken known)
    | head pair path =>
      cases took.content.symm.trans pair
      exact first.fresh x (old path) known
    | tail pair _ path =>
      cases took.content.symm.trans pair
      exact second.fresh x (new path) (first.grows.extends'.taken known)
  · intro x on element
    rcases (onList_cons_iff took.content).1 on with rfl | on
    · rcases (element_cons_iff took.content).1 element with same | element
      · exact took.fresh (below (headTaken (same ▸ .here x)))
      · exact took.fresh (tailTaken element.reaches)
    · rcases (element_cons_iff took.content).1 element with same | element
      · exact second.fresh x (new on.reaches) (headTaken (same ▸ .here x))
      · refine second.apart x ?_ ?_
        · exact (took.extends.onList_iff second.grows.sound second.live).1 on
        · exact (took.extends.element_iff second.grows.sound second.live).1 element

theorem ensures_store (sound : a.Sound) (tree : Sexp) :
    Ensures (store tree) a a.Planted a.OutOfRoom := by
  induction tree generalizing a with
  | nil =>
    exact ⟨.refl sound, live_nil a, fun _ path => absurd path not_path_nil, fun _ on =>
      absurd on not_onList_nil⟩
  | symbol name =>
    refine (ensures_symbol sound name).mono ?_ fun _ _ room => room
    rintro _ b ⟨id, rfl, took⟩
    exact planted_leaf took.grows took.fresh took.content
  | pair head tail ihHead ihTail =>
    rw [store, ensures_bind]
    refine (ihHead sound).mono ?_ fun _ _ room => room
    intro head b first
    rw [ensures_bind]
    refine (ihTail first.grows.sound).mono ?_ fun _ _ room => room.after first.grows
    intro tail c second
    have grows := first.grows.trans second.grows
    have liveHead := second.grows.extends'.live first.live
    refine (ensures_cons second.grows.sound liveHead second.live).mono ?_ fun _ _ room =>
      room.after grows
    rintro _ d ⟨id, rfl, took⟩
    exact first.pair second took

theorem Planted.layered (planted : a.Planted v b) : a.Layered b .nil v where
  live := planted.live
  cells id on := .inr (planted.fresh id on.reaches)
  elements id element := .inr (planted.fresh id element.reaches)
  apart id _ := planted.apart id
  outer _ element := absurd element not_element_nil

end ArenaLisp.Arena
