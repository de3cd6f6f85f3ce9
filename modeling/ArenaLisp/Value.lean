/-!
# Values
-/

namespace ArenaLisp

inductive Value where
  | nil
  | cell (id : Nat)
  deriving DecidableEq, Repr, Inhabited

namespace Value

def isNil : Value → Bool
  | nil => true
  | cell _ => false

@[simp] theorem isNil_iff {v : Value} : v.isNil = true ↔ v = nil := by
  cases v <;> simp [isNil]

end Value

end ArenaLisp
