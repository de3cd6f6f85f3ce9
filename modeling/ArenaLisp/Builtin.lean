/-!
# The builtin names

The place of a row in the table is its code, so the order of the table is part of the machine.
-/

namespace ArenaLisp

inductive Keyword where
  | symbols
  | nil
  | tee
  | lambda
  | specialForms
  | functions
  deriving DecidableEq, Repr

inductive SpecialForm where
  | quote | defun | defvar | setq | cond
  deriving DecidableEq, Repr

inductive Primitive where
  | not | null | cons | atom | listp | consp | symbolp | eq | car | cdr | eval | globals | locals
  deriving DecidableEq, Repr

inductive Builtin where
  | keyword (word : Keyword)
  | special (form : SpecialForm)
  | primitive (function : Primitive)
  deriving DecidableEq, Repr

structure Arity where
  least : Nat
  most : Nat
  deriving DecidableEq, Repr

namespace Builtin

def table : Array Builtin := #[
  .keyword .symbols, .keyword .nil, .keyword .tee, .keyword .lambda,
  .keyword .specialForms,
  .special .quote, .special .defun, .special .defvar, .special .setq, .special .cond,
  .keyword .functions,
  .primitive .not, .primitive .null, .primitive .cons, .primitive .atom, .primitive .listp,
  .primitive .consp, .primitive .symbolp, .primitive .eq, .primitive .car, .primitive .cdr,
  .primitive .eval, .primitive .globals, .primitive .locals]

def ofCode? (code : Nat) : Option Builtin := table[code]?

def code : Builtin → Nat
  | .keyword .symbols => 0
  | .keyword .nil => 1
  | .keyword .tee => 2
  | .keyword .lambda => 3
  | .keyword .specialForms => 4
  | .special .quote => 5
  | .special .defun => 6
  | .special .defvar => 7
  | .special .setq => 8
  | .special .cond => 9
  | .keyword .functions => 10
  | .primitive .not => 11
  | .primitive .null => 12
  | .primitive .cons => 13
  | .primitive .atom => 14
  | .primitive .listp => 15
  | .primitive .consp => 16
  | .primitive .symbolp => 17
  | .primitive .eq => 18
  | .primitive .car => 19
  | .primitive .cdr => 20
  | .primitive .eval => 21
  | .primitive .globals => 22
  | .primitive .locals => 23

def name : Builtin → String
  | .keyword .symbols => "SYMBOLS"
  | .keyword .nil => "NIL"
  | .keyword .tee => "T"
  | .keyword .lambda => "LAMBDA"
  | .keyword .specialForms => "SPECIAL_FORMS"
  | .keyword .functions => "FUNCTIONS"
  | .special .quote => "QUOTE"
  | .special .defun => "DEFUN"
  | .special .defvar => "DEFVAR"
  | .special .setq => "SETQ"
  | .special .cond => "IF"
  | .primitive .not => "NOT"
  | .primitive .null => "NULL"
  | .primitive .cons => "CONS"
  | .primitive .atom => "ATOM"
  | .primitive .listp => "LISTP"
  | .primitive .consp => "CONSP"
  | .primitive .symbolp => "SYMBOLP"
  | .primitive .eq => "EQ"
  | .primitive .car => "CAR"
  | .primitive .cdr => "CDR"
  | .primitive .eval => "EVAL"
  | .primitive .globals => "GLOBALS"
  | .primitive .locals => "LOCALS"

/-- A call of a keyword is checked, too, before it is refused. No number of arguments suits `T`. -/
def arity : Builtin → Arity
  | .keyword .symbols => ⟨1, 1⟩
  | .keyword .nil => ⟨0, 0⟩
  | .keyword .tee => ⟨1, 0⟩
  | .keyword .lambda => ⟨0, 127⟩
  | .keyword .specialForms => ⟨1, 1⟩
  | .keyword .functions => ⟨1, 1⟩
  | .special .quote => ⟨1, 1⟩
  | .special .defun => ⟨0, 127⟩
  | .special .defvar => ⟨2, 2⟩
  | .special .setq => ⟨2, 2⟩
  | .special .cond => ⟨2, 3⟩
  | .primitive .cons => ⟨2, 2⟩
  | .primitive .eq => ⟨2, 2⟩
  | .primitive .globals => ⟨0, 0⟩
  | .primitive .locals => ⟨0, 0⟩
  | .primitive _ => ⟨1, 1⟩

def isCallable : Builtin → Bool
  | .keyword _ => false
  | .special _ => true
  | .primitive _ => true

def isSpecialForm : Builtin → Bool
  | .special _ => true
  | _ => false

def ofName? (text : String) : Option Builtin :=
  table.find? fun row => row.name == text

@[simp] theorem ofCode?_code (row : Builtin) : ofCode? row.code = some row := by
  rcases row with word | form | function
  · cases word <;> rfl
  · cases form <;> rfl
  · cases function <;> rfl

theorem ofCode?_eq_some_iff {n : Nat} {row : Builtin} : ofCode? n = some row ↔ n = row.code := by
  constructor
  · intro h
    have lt : n < 24 := by
      obtain ⟨h', -⟩ := Array.getElem?_eq_some_iff.1 h
      exact h'
    revert h
    revert n
    rcases row with word | form | function
    · cases word <;> decide
    · cases form <;> decide
    · cases function <;> decide
  · rintro rfl
    exact ofCode?_code row

end Builtin

end ArenaLisp
