import ArenaLisp.Console

/-!
# Tokens

A semicolon where a token would begin passes over everything up to the next opening bracket. A word ends
before a bracket, or with a blank or the eighteenth character, which is lost.
-/

namespace ArenaLisp

inductive Token where
  | opening
  | closing
  | quote
  | dot
  | word (letters : List Byte)
  deriving DecidableEq, Repr

namespace Byte

def isBlank (b : Byte) : Bool :=
  b == 32 || b == 9 || b == newline || b == carriageReturn

def openBracket : Byte := 40
def closeBracket : Byte := 41

def isBracket (b : Byte) : Bool :=
  b == openBracket || b == closeBracket

def isDelimiter (b : Byte) : Bool :=
  b.isBlank || b.isBracket

def semicolon : Byte := 59

def apostrophe : Byte := 39
def fullStop : Byte := 46

def token? (b : Byte) : Option Token :=
  if b = openBracket then some .opening
  else if b = closeBracket then some .closing
  else if b = apostrophe then some .quote
  else if b = fullStop then some .dot
  else none

end Byte

namespace Token

def wordLength : Nat := 17

/-- There is no token if the input ended first. The last character taken may be kept, to be put back. -/
structure Scan where
  token? : Option Token
  taken : List Byte
  rest : List Byte
  kept : Option Byte := none
  deriving DecidableEq, Repr

def scanWord (input : List Byte) : Scan :=
  let letters := (input.take wordLength).takeWhile fun b => !b.isDelimiter
  match input.drop letters.length with
  | [] => ⟨some (.word letters), letters, [], none⟩
  | b :: rest =>
    ⟨some (.word letters), letters ++ [b], rest, if b.isBracket then some b else none⟩

def scanItem (input : List Byte) : Scan :=
  match input with
  | [] => ⟨none, [], [], none⟩
  | b :: rest =>
    match b.token? with
    | some token => ⟨some token, [b], rest, none⟩
    | none => scanWord input

def skipped (input : List Byte) : List Byte × List Byte :=
  let blanks := input.takeWhile Byte.isBlank
  let rest := input.dropWhile Byte.isBlank
  if rest.head? = some Byte.semicolon then
    (blanks ++ rest.takeWhile (· != Byte.openBracket), rest.dropWhile (· != Byte.openBracket))
  else (blanks, rest)

def scan (input : List Byte) : Scan :=
  let (passed, rest) := skipped input
  let found := scanItem rest
  { found with taken := passed ++ found.taken }

end Token

namespace Console

def nextToken (c : Console) : Option Token × Console :=
  let found := Token.scan c.unread
  (found.token?, c.advance found.taken found.rest found.kept)

end Console

end ArenaLisp
