import ArenaLisp.Arena.Basic

/-!
# Collecting

Sweeping builds the free chain anew, in ascending order.
-/

namespace ArenaLisp.Arena

def setMark (a : Arena) (id : Nat) : Arena :=
  match a with
  | ⟨slots, freeList, freeCount⟩ =>
    ⟨slots.modify id fun slot => { slot with marked := true }, freeList, freeCount⟩

def clearMark (a : Arena) (id : Nat) : Arena :=
  match a with
  | ⟨slots, freeList, freeCount⟩ =>
    ⟨slots.modify id fun slot => { slot with marked := false }, freeList, freeCount⟩

def markFrom : Nat → List Value → Arena → Arena
  | 0, _, a => a
  | _ + 1, [], a => a
  | n + 1, .nil :: pending, a => markFrom n pending a
  | n + 1, .cell id :: pending, a =>
    match a.slots[id]? with
    | some ⟨.pair head tail, false⟩ => markFrom n (head :: tail :: pending) (a.setMark id)
    | some ⟨_, false⟩ => markFrom n pending (a.setMark id)
    | _ => markFrom n pending a

/-- The root is one visit and every cell adds at most two, once, which bounds the number of rounds. -/
def mark (a : Arena) (root : Value) : Arena :=
  markFrom (2 * a.capacity + 1) [root] a

def sweepBelow : Nat → Arena → Arena
  | 0, a => a
  | id + 1, a =>
    match a.slots[id]? with
    | some ⟨_, true⟩ => sweepBelow id (a.clearMark id)
    | _ => sweepBelow id (a.release id)

def sweep (a : Arena) : Arena :=
  match a with
  | ⟨slots, _, _⟩ => sweepBelow slots.size ⟨slots, .nil, 0⟩

def collect (a : Arena) (roots : List Value) : Arena :=
  sweep (roots.foldl mark a)

def new (capacity : Nat) : Arena :=
  sweep ⟨Array.replicate capacity ⟨.free .nil, false⟩, .nil, 0⟩

end ArenaLisp.Arena
