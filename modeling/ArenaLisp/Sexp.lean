import ArenaLisp.Symbol

/-!
# Expressions as trees

The writer goes along tails in a loop, and produces the characters of the tree (`text_eq`).
-/

namespace ArenaLisp

inductive Sexp where
  | nil
  | symbol (name : Symbol)
  | pair (head tail : Sexp)
  deriving DecidableEq, Repr, Inhabited

namespace Sexp

def size : Sexp → Nat
  | nil => 0
  | symbol _ => 1
  | pair head tail => head.size + tail.size + 1

mutual

def chars : Sexp → List Char
  | nil => Symbol.nil.name.toList
  | symbol name => name.name.toList
  | pair head tail => '(' :: head.chars ++ tail.tailChars

def tailChars : Sexp → List Char
  | nil => [')']
  | symbol name => ' ' :: '.' :: ' ' :: name.name.toList ++ [')']
  | pair head tail => ' ' :: head.chars ++ tail.tailChars

end

def write (isTail : Bool) (tree : Sexp) (text : String) : String :=
  match isTail, tree with
  | false, nil => text ++ Symbol.nil.name
  | false, symbol name => text ++ name.name
  | false, pair head tail => tail.write true (head.write false (text.push '('))
  | true, nil => text.push ')'
  | true, symbol name => (text ++ " . " ++ name.name).push ')'
  | true, pair head tail => tail.write true (head.write false (text.push ' '))

def text (tree : Sexp) : String :=
  tree.write false ""

theorem toList_write (tree : Sexp) (isTail : Bool) (text : String) :
    (tree.write isTail text).toList =
      text.toList ++ if isTail then tree.tailChars else tree.chars := by
  induction tree generalizing isTail text with
  | nil => cases isTail <;> simp [write, chars, tailChars]
  | symbol name => cases isTail <;> simp [write, chars, tailChars]
  | pair head tail ihHead ihTail =>
    cases isTail <;> simp [write, chars, tailChars, ihHead, ihTail]

theorem text_eq (tree : Sexp) : tree.text = String.ofList tree.chars := by
  rw [← String.toList_inj]
  simp [text, toList_write]

end Sexp

end ArenaLisp
