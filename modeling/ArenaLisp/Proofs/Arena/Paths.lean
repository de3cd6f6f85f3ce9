import ArenaLisp.Proofs.Arena.Cells

/-!
# Ways through the arena

A path goes from a value along heads and tails. Some paths have to stay off the tails of certain
cells, namely off those that an evaluation may rewrite. With no such cells a path is all there is to
being reached.
-/

namespace ArenaLisp.Arena

/-- A way from a value to a cell along heads and tails that takes no tail of a cell that is to be
kept off. -/
inductive Path (a : Arena) (off : Nat → Prop) : Value → Nat → Prop where
  | here (id : Nat) : Path a off (.cell id) id
  | head {id target : Nat} {head tail : Value} :
    a.cell id = .pair head tail → Path a off head target → Path a off (.cell id) target
  | tail {id target : Nat} {head tail : Value} :
    a.cell id = .pair head tail → ¬ off id → Path a off tail target → Path a off (.cell id) target

def Reaches (a : Arena) (v : Value) (id : Nat) : Prop :=
  a.Path (fun _ => False) v id

variable {a b : Arena} {off avoid : Nat → Prop} {v : Value} {id target : Nat}

theorem Path.trans (first : a.Path off v id) (second : a.Path off (.cell id) target) :
    a.Path off v target := by
  induction first with
  | here => exact second
  | head pair _ ih => exact .head pair (ih second)
  | tail pair on _ ih => exact .tail pair on (ih second)

theorem not_path_nil : ¬ a.Path off .nil id := by
  intro path
  cases path

theorem Path.thenHead {head tail : Value} (path : a.Path off v id)
    (pair : a.cell id = .pair head tail) (on : a.Path off head target) : a.Path off v target :=
  path.trans (.head pair on)

/-- A path to a pair leads on to what its tail refers to, unless that tail is to be kept off. -/
theorem Path.thenTail {head tail : Value} (path : a.Path off v id)
    (pair : a.cell id = .pair head tail) (open' : ¬ off id) (on : a.Path off tail target) :
    a.Path off v target :=
  path.trans (.tail pair open' on)

/-- A path survives in an arena that agrees on the cells it passes, but for the tails it is kept
off. -/
theorem Path.transfer (path : a.Path off v target)
    (same : ∀ id, a.Path off v id → b.cell id = a.cell id ∨
      off id ∧ ∃ tail, b.cell id = (a.cell id).withTail tail)
    (open' : ∀ id, a.Path off v id → avoid id → off id) : b.Path avoid v target := by
  induction path with
  | here => exact .here _
  | @head id target head tail pair _ ih =>
    have kept : ∃ tail, b.cell id = .pair head tail := by
      rcases same id (.here id) with same | ⟨-, tail, same⟩
      · exact ⟨_, same.trans pair⟩
      · exact ⟨tail, by rw [same, pair, Cell.withTail]⟩
    obtain ⟨tail, kept⟩ := kept
    exact .head kept (ih (fun _ on => same _ (.head pair on)) (fun _ on => open' _ (.head pair on)))
  | @tail id target head tail pair on _ ih =>
    have kept : b.cell id = .pair head tail := by
      rcases same id (.here id) with same | ⟨binding, -⟩
      · exact same.trans pair
      · exact absurd binding on
    refine .tail kept (fun h => on (open' _ (.here _) h)) ?_
    exact ih (fun _ on' => same _ (.tail pair on on')) (fun _ on' => open' _ (.tail pair on on'))

theorem Path.setCdr {last : Nat} {val tail : Value} (path : a.Path off v id)
    (pair : a.cell last = .pair val .nil) (open' : ∀ id, avoid id → off id) :
    (a.setCdr last tail).Path avoid v id := by
  induction path with
  | here => exact .here _
  | @head first target head rest here _ ih =>
    by_cases same : first = last
    · subst same
      cases here.symm.trans pair
      exact .head (cell_setCdr_of_pair pair) ih
    · exact .head ((cell_setCdr_of_ne same).trans here) ih
  | @tail first target head rest here on rest' ih =>
    by_cases same : first = last
    · subst same
      cases here.symm.trans pair
      exact absurd rest' not_path_nil
    · exact .tail ((cell_setCdr_of_ne same).trans here) (fun h => on (open' _ h)) ih

theorem Path.reaches (path : a.Path off v target) : a.Reaches v target := by
  induction path with
  | here => exact .here _
  | head pair _ ih => exact .head pair ih
  | tail pair _ _ ih => exact .tail pair (fun h => h) ih

theorem reaches_congr (same : ∀ id, a.Reaches v id → b.cell id = a.cell id) :
    b.Reaches v target ↔ a.Reaches v target := by
  constructor
  · intro path
    unfold Reaches at path
    induction path with
    | here => exact .here _
    | head pair _ ih =>
      have kept := (same _ (.here _)).symm.trans pair
      exact .head kept (ih fun _ on => same _ (.head kept on))
    | tail pair _ _ ih =>
      have kept := (same _ (.here _)).symm.trans pair
      exact .tail kept (fun h => h) (ih fun _ on => same _ (.tail kept (fun h => h) on))
  · intro path
    exact path.transfer (fun id on => .inl (same id on)) fun _ _ h => h

/-- In an arena whose cells refer to no free cell, only cells that are taken are reached from a live
value. -/
theorem taken_of_reaches
    (closed : ∀ id head tail, a.cell id = .pair head tail → a.Live head ∧ a.Live tail)
    (live : a.Live v) (path : a.Reaches v target) : a.Taken target := by
  unfold Reaches at path
  induction path with
  | here => exact live _ rfl
  | head pair _ ih => exact ih (closed _ _ _ pair).1
  | tail pair _ _ ih => exact ih (closed _ _ _ pair).2

end ArenaLisp.Arena
