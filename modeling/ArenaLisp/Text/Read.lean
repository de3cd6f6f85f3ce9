import ArenaLisp.Arena.Basic
import ArenaLisp.Text.Token

/-!
# Reading expressions

After the tail of a dotted list the remainder up to the closing bracket is read as a list of its own,
which has to be empty. A dot outside a list is ignored.
-/

namespace ArenaLisp

inductive Frame where
  | quoted
  | list (elements : List Value)
  | dotted (elements : List Value)
  /-- A list with its tail, under the open list of what remains before its closing bracket. -/
  | remainder (elements : List Value) (tail : Value)
  deriving DecidableEq, Repr

inductive Reading where
  | complete (value : Value)
  | within (frames : List Frame)
  deriving DecidableEq, Repr

namespace Reading

/-- The elements come last one first. -/
def makeList : List Value → Value → Storing Value
  | [], tail => pure tail
  | element :: elements, tail => do
    let tail ← Arena.cons element tail
    makeList elements tail

def makeQuoted (v : Value) : Storing Value := do
  let quote ← Arena.symbol Symbol.quote
  let inner ← Arena.cons v .nil
  Arena.cons quote inner

def makeWord (letters : List Byte) : Storing Value :=
  match Symbol.ofName? (String.ofList (letters.map fun b => Char.ofNat b.toNat)) with
  | none => throw .illegalSymbol
  | some name => if name = Symbol.nil then pure .nil else Arena.symbol name

def deliver (v : Value) : List Frame → Storing Reading
  | [] => pure (.complete v)
  | .quoted :: frames => do
    let v ← makeQuoted v
    deliver v frames
  | .list elements :: frames => pure (.within (.list (v :: elements) :: frames))
  | .dotted elements :: frames => pure (.within (.list [] :: .remainder elements v :: frames))
  | .remainder elements tail :: frames =>
    if v = .nil then do
      let v ← makeList elements tail
      deliver v frames
    else throw .malformedList

def step (token : Token) (frames : List Frame) : Storing Reading :=
  match token, frames with
  | .opening, frames => pure (.within (.list [] :: frames))
  | .quote, frames => pure (.within (.quoted :: frames))
  | .word letters, frames => do
    let v ← makeWord letters
    deliver v frames
  | .closing, .list elements :: frames => do
    let v ← makeList elements .nil
    deliver v frames
  | .closing, _ => throw .unmatchedRightBracket
  | .dot, .list elements :: frames => pure (.within (.dotted elements :: frames))
  | .dot, frames => pure (.within frames)

def run : Nat → List Frame → Console → Arena → Except Fault Value × Console × Arena
  | 0, _, c, a => (.error .endOfInput, c, a)
  | n + 1, frames, c, a =>
    match c.nextToken with
    | (none, c) => (.error .endOfInput, c, a)
    | (some token, c) =>
      match (step token frames).run a with
      | (.error fault, a) => (.error fault, c, a)
      | (.ok (.complete v), a) => (.ok v, c, a)
      | (.ok (.within frames), a) => run n frames c a

end Reading

/-- Every token takes a character, so there are no more tokens than characters to read. -/
def Console.read (c : Console) (a : Arena) : Except Fault Value × Console × Arena :=
  let rounds := c.unread.length + 1
  Reading.run rounds [] c a

end ArenaLisp
