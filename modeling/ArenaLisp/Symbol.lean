import ArenaLisp.Builtin

/-!
# Symbols

A symbol below the size of the builtin table is a row of it. Any other is a packed name, three digits to
the base 40.
-/

namespace ArenaLisp

structure Symbol where
  code : Nat
  deriving DecidableEq, Repr, Inhabited

namespace Symbol

def radix : Nat := 40

def packedLength : Nat := 3

/-- The digits 27 to 29 belong to no character, and 0 to a missing one. -/
def digit? (c : Char) : Option Nat :=
  if 'A' ≤ c ∧ c ≤ 'Z' then some (c.toNat - 'A'.toNat + 1)
  else if '0' ≤ c ∧ c ≤ '9' then some (c.toNat - '0'.toNat + 30)
  else none

def character? (digit : Nat) : Option Char :=
  if 1 ≤ digit ∧ digit ≤ 26 then some (Char.ofNat ('A'.toNat + (digit - 1)))
  else if 30 ≤ digit ∧ digit ≤ 39 then some (Char.ofNat ('0'.toNat + (digit - 30)))
  else none

def ofDigits (digits : List Nat) : Nat :=
  digits.foldl (fun code digit => code * radix + digit) 0

def packChars? (text : List Char) : Option Symbol :=
  if text.isEmpty ∨ packedLength < text.length then none
  else (text.mapM digit?).map fun digits =>
    ⟨ofDigits (digits ++ List.replicate (packedLength - digits.length) 0)⟩

def pack? (text : String) : Option Symbol :=
  packChars? text.toList

def digits (s : Symbol) : List Nat :=
  [s.code / (radix * radix) % radix, s.code / radix % radix, s.code % radix]

/-- Digits without a character are left out. -/
def unpackChars (s : Symbol) : List Char :=
  s.digits.filterMap character?

def unpack (s : Symbol) : String :=
  String.ofList s.unpackChars

def ofBuiltin (row : Builtin) : Symbol :=
  ⟨row.code⟩

def builtin? (s : Symbol) : Option Builtin :=
  Builtin.ofCode? s.code

def isBuiltin (s : Symbol) : Bool :=
  s.builtin?.isSome

def isSpecialForm (s : Symbol) : Bool :=
  s.builtin?.any Builtin.isSpecialForm

def name (s : Symbol) : String :=
  match s.builtin? with
  | some row => row.name
  | none => s.unpack

def ofName? (text : String) : Option Symbol :=
  ((Builtin.ofName? text).map ofBuiltin).or (pack? text)

def nil : Symbol := ofBuiltin (.keyword .nil)

def tee : Symbol := ofBuiltin (.keyword .tee)

def lambda : Symbol := ofBuiltin (.keyword .lambda)

def quote : Symbol := ofBuiltin (.special .quote)

@[simp] theorem builtin?_ofBuiltin (row : Builtin) : (ofBuiltin row).builtin? = some row :=
  Builtin.ofCode?_code row

@[simp] theorem name_ofBuiltin (row : Builtin) : (ofBuiltin row).name = row.name := by
  simp [name]

end Symbol

end ArenaLisp
