/-!
# Text as bytes

An ill-formed part is the longest run of bytes that begins a character, or a byte that begins none.
-/

namespace ArenaLisp.Utf8

def encode (text : String) : List UInt8 :=
  text.toList.flatMap String.utf8EncodeChar

def replacement : Char := Char.ofNat 0xFFFD

/-- Inside a character there are bytes to come, bounds for the next one, and the bits so far. -/
inductive State where
  | between
  | inside (owed low high : Nat) (bits : Nat)
  deriving DecidableEq, Repr

def begin (b : Nat) : State × List Char :=
  if b < 0x80 then (.between, [Char.ofNat b])
  else if 0xC2 ≤ b ∧ b ≤ 0xDF then (.inside 1 0x80 0xBF (b - 0xC0), [])
  else if b = 0xE0 then (.inside 2 0xA0 0xBF 0, [])
  else if b = 0xED then (.inside 2 0x80 0x9F 0xD, [])
  else if 0xE1 ≤ b ∧ b ≤ 0xEF then (.inside 2 0x80 0xBF (b - 0xE0), [])
  else if b = 0xF0 then (.inside 3 0x90 0xBF 0, [])
  else if 0xF1 ≤ b ∧ b ≤ 0xF3 then (.inside 3 0x80 0xBF (b - 0xF0), [])
  else if b = 0xF4 then (.inside 3 0x80 0x8F 4, [])
  else (.between, [replacement])

/-- A byte that cannot go on with a character begins anew. -/
def step (state : State) (b : Nat) : State × List Char :=
  match state with
  | .between => begin b
  | .inside owed low high bits =>
    if low ≤ b ∧ b ≤ high then
      let bits := bits * 0x40 + (b - 0x80)
      if owed ≤ 1 then (.between, [Char.ofNat bits])
      else (.inside (owed - 1) 0x80 0xBF bits, [])
    else
      let (state, text) := begin b
      (state, replacement :: text)

def decodeOnto : State → List UInt8 → List Char → List Char
  | .between, [], text => text.reverse
  | .inside .., [], text => (replacement :: text).reverse
  | state, b :: bytes, text =>
    let (state, finished) := step state b.toNat
    decodeOnto state bytes (finished.reverse ++ text)

def decode (bytes : List UInt8) : String :=
  String.ofList (decodeOnto .between bytes [])

end ArenaLisp.Utf8
