import ArenaLisp.Fault
import ArenaLisp.Symbol
import ArenaLisp.Value

/-!
# The arena

The free cells are chained through themselves. A cell is taken from the front of the chain and released
to its front.
-/

namespace ArenaLisp

inductive Cell where
  | pair (head tail : Value)
  | symbol (name : Symbol)
  | free (next : Value)
  deriving DecidableEq, Repr, Inhabited

structure Slot where
  cell : Cell
  marked : Bool
  deriving DecidableEq, Repr, Inhabited

structure Arena where
  slots : Array Slot
  freeList : Value
  freeCount : Nat
  deriving DecidableEq, Repr, Inhabited

abbrev Storing (α : Type) := ExceptT Fault (StateM Arena) α

namespace Arena

/-! ### Looking at cells -/

def capacity (a : Arena) : Nat :=
  a.slots.size

def liveCount (a : Arena) : Nat :=
  a.capacity - a.freeCount

/-- Outside the arena nothing is held, as in a free cell at the end of the chain. -/
@[inline]
def cell (a : Arena) (id : Nat) : Cell :=
  match a.slots[id]? with
  | some slot => slot.cell
  | none => .free .nil

def cells (a : Arena) : List Cell :=
  a.slots.toList.map Slot.cell

@[inline]
def cell? (a : Arena) (v : Value) : Option Cell :=
  match v with
  | .nil => none
  | .cell id => some (a.cell id)

@[inline]
def isPair (a : Arena) (v : Value) : Bool :=
  match a.cell? v with
  | some (.pair ..) => true
  | _ => false

@[inline]
def symbol? (a : Arena) (v : Value) : Option Symbol :=
  match a.cell? v with
  | some (.symbol name) => some name
  | _ => none

def isSymbol (a : Arena) (v : Value) : Bool :=
  (a.symbol? v).isSome

def isList (a : Arena) (v : Value) : Bool :=
  v.isNil || a.isPair v

def isAtom (a : Arena) (v : Value) : Bool :=
  !a.isPair v

def isNamed (a : Arena) (v : Value) (name : Symbol) : Bool :=
  a.symbol? v == some name

def nameOf (a : Arena) (v : Value) : Except Fault String :=
  match a.symbol? v with
  | some name => .ok name.name
  | none => .error .nameless

/-- The head of a pair. Anything else has an empty one. -/
@[inline]
def car (a : Arena) (v : Value) : Value :=
  match a.cell? v with
  | some (.pair head _) => head
  | _ => .nil

@[inline]
def cdr (a : Arena) (v : Value) : Value :=
  match a.cell? v with
  | some (.pair _ tail) => tail
  | _ => .nil

def second (a : Arena) (v : Value) : Value :=
  a.car (a.cdr v)

def third (a : Arena) (v : Value) : Value :=
  a.car (a.cdr (a.cdr v))

def listCar (a : Arena) (v : Value) : Except Fault Value :=
  if a.isList v then .ok (a.car v) else .error .cantTakeCar

def listCdr (a : Arena) (v : Value) : Except Fault Value :=
  if a.isList v then .ok (a.cdr v) else .error .cantTakeCdr

/-! ### Taking and releasing cells -/

def take (content : Cell) : Storing Nat := fun a =>
  match a with
  | ⟨slots, .cell id, freeCount⟩ =>
    let next := match slots[id]? with
      | some ⟨.free next, _⟩ => next
      | _ => .nil
    (.ok id, ⟨slots.setIfInBounds id ⟨content, false⟩, next, freeCount - 1⟩)
  | ⟨slots, .nil, freeCount⟩ => (.error .noRoom, ⟨slots, .nil, freeCount⟩)

def cons (head tail : Value) : Storing Value :=
  .cell <$> take (.pair head tail)

def symbol (name : Symbol) : Storing Value :=
  .cell <$> take (.symbol name)

def release (a : Arena) (id : Nat) : Arena :=
  match a with
  | ⟨slots, freeList, freeCount⟩ =>
    ⟨slots.setIfInBounds id ⟨.free freeList, false⟩, .cell id, freeCount + 1⟩

/-! ### Changing cells in place -/

def setCar (a : Arena) (id : Nat) (head : Value) : Arena :=
  match a with
  | ⟨slots, freeList, freeCount⟩ =>
    ⟨slots.modify id fun
      | ⟨.pair _ tail, marked⟩ => ⟨.pair head tail, marked⟩
      | slot => slot, freeList, freeCount⟩

def setCdr (a : Arena) (id : Nat) (tail : Value) : Arena :=
  match a with
  | ⟨slots, freeList, freeCount⟩ =>
    ⟨slots.modify id fun
      | ⟨.pair head _, marked⟩ => ⟨.pair head tail, marked⟩
      | slot => slot, freeList, freeCount⟩

end Arena

end ArenaLisp
