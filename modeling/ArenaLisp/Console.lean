import ArenaLisp.Text.Utf8

/-!
# The console

Characters have seven bits. One that is put back is not echoed again.
-/

namespace ArenaLisp

abbrev Byte := UInt8

namespace Byte

def newline : Byte := 10
def carriageReturn : Byte := 13

end Byte

structure Console where
  pending : List Byte
  pushedBack : Option Byte := none
  echo : Bool := false
  output : Array Byte := #[]
  /-- A new console counts as one at the start of a line. -/
  lastWritten : Byte := Byte.newline
  deriving DecidableEq, Repr, Inhabited

namespace Console

def ofBytes (input : List Byte) : Console :=
  { pending := input.map (· &&& 0x7f) }

def ofText (text : String) : Console :=
  ofBytes (Utf8.encode text)

def unread (c : Console) : List Byte :=
  match c.pushedBack with
  | some b => b :: c.pending
  | none => c.pending

def feed (c : Console) (input : List Byte) : Console :=
  { c with pending := c.pending ++ input.map (· &&& 0x7f) }

/-! ### Writing -/

def put (c : Console) (b : Byte) : Console :=
  match c with
  | ⟨pending, pushedBack, echo, output, _⟩ => ⟨pending, pushedBack, echo, output.push b, b⟩

def putBytes (c : Console) (bytes : List Byte) : Console :=
  bytes.foldl put c

def putText (c : Console) (text : String) : Console :=
  c.putBytes (Utf8.encode text)

def endLine (c : Console) : Console :=
  c.put Byte.newline

def freshLine (c : Console) : Console :=
  if c.lastWritten = Byte.newline then c else c.endLine

def transcript (c : Console) : String :=
  Utf8.decode c.output.toList

/-! ### Reading -/

def echoed (c : Console) (taken : List Byte) : Console :=
  if c.echo then c.putBytes (taken.filter (· != Byte.carriageReturn)) else c

def get (c : Console) : Option Byte × Console :=
  match c with
  | ⟨pending, some b, echo, output, lastWritten⟩ =>
    (some b, ⟨pending, none, echo, output, lastWritten⟩)
  | ⟨b :: pending, none, echo, output, lastWritten⟩ =>
    (some b, echoed ⟨pending, none, echo, output, lastWritten⟩ [b])
  | ⟨[], none, echo, output, lastWritten⟩ => (none, ⟨[], none, echo, output, lastWritten⟩)

def unget (c : Console) (b : Byte) : Console :=
  { c with pushedBack := some b }

/-- Takes characters up to a given rest, and may put back the last one of them. -/
def advance (c : Console) (taken rest : List Byte) (kept : Option Byte) : Console :=
  match c with
  | ⟨_, pushedBack, echo, output, lastWritten⟩ =>
    let fresh := match pushedBack with
      | some _ => taken.drop 1
      | none => taken
    echoed ⟨rest, kept, echo, output, lastWritten⟩ fresh

end Console

end ArenaLisp
