/-!
# Faults

A fault about a form carries the form as it is printed, since it outlives the cells of the form.
-/

namespace ArenaLisp

inductive Fault where
  | noRoom
  | escape
  | undefined (form : String)
  | notASymbol (form : String)
  | tooFewArguments (form : String)
  | tooManyArguments (form : String)
  | tooFewParameters (form : String)
  | tooManyParameters (form : String)
  | notValidHere (form : String)
  | illegalFunction (form : String)
  | closuresNotSupported
  | unknownVariable (form : String)
  /-- Something follows the tail of a dotted list. -/
  | malformedList
  | illegalSymbol
  | unmatchedRightBracket
  | cantTakeCar
  | cantTakeCdr
  | unprintable
  | nameless
  | endOfInput
  | io (detail : String)
  deriving DecidableEq, Repr

namespace Fault

/-- The empty form has no text, and is called a function. -/
def about (form complaint : String) : String :=
  if form.isEmpty then "FUNCTION " ++ complaint else "'" ++ form ++ "' " ++ complaint

def message : Fault → String
  | noRoom => "NO ROOM"
  | escape => "ESCAPE!"
  | undefined form => about form "UNDEFINED"
  | notASymbol form => about form "IS NOT A SYMBOL"
  | tooFewArguments form => about form "HAS TOO FEW ARGUMENTS"
  | tooManyArguments form => about form "HAS TOO MANY ARGUMENTS"
  | tooFewParameters form => about form "HAS TOO FEW PARAMETERS"
  | tooManyParameters form => about form "HAS TOO MANY PARAMETERS"
  | notValidHere form => about form "IS NOT VALID HERE"
  | illegalFunction form => about form "IS AN ILLEGAL FUNCTION"
  | closuresNotSupported => "CLOSURES NOT SUPPORTED"
  | unknownVariable form => about form "UNKNOWN VARIABLE"
  | malformedList => "MALFORMED LIST"
  | illegalSymbol => "ILLEGAL SYMBOL"
  | unmatchedRightBracket => "UNMATCHED RIGHT BRACKET"
  | cantTakeCar => "CAN'T TAKE CAR"
  | cantTakeCdr => "CAN'T TAKE CDR"
  | unprintable => "ERROR IN PRINT."
  | nameless => "ERROR IN NAME"
  | endOfInput => "end of input"
  | io detail => "I/O error: " ++ detail

def isFatal : Fault → Bool
  | endOfInput | io _ => true
  | _ => false

def cannotOpen (path reason : String) : Fault :=
  io ("cannot open '" ++ path ++ "': " ++ reason)

end Fault

end ArenaLisp
