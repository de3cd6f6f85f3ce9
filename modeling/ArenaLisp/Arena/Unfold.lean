import ArenaLisp.Arena.Basic
import ArenaLisp.Sexp

/-!
# Unfolding

There is no answer (`none`) for a value that contains itself, since its text would never end.
-/

namespace ArenaLisp.Arena

def unfoldWithin (a : Arena) : Nat → Value → Option (Except Fault Sexp)
  | 0, _ => none
  | n + 1, v =>
    match a.cell? v with
    | none => some (.ok .nil)
    | some (.symbol name) => some (.ok (.symbol name))
    | some (.free _) => some (.error .unprintable)
    | some (.pair head tail) =>
      match a.unfoldWithin n head with
      | some (.ok head) =>
        match a.unfoldWithin n tail with
        | some (.ok tail) => some (.ok (.pair head tail))
        | other => other
      | other => other

/-- Without a cycle no way along heads and tails is longer than the arena has cells. -/
def unfold (a : Arena) (v : Value) : Option (Except Fault Sexp) :=
  a.unfoldWithin (a.capacity + 1) v

def print (a : Arena) (v : Value) : Option (Except Fault String) :=
  (a.unfold v).map (·.map Sexp.text)

def render (a : Arena) (v : Value) : Option String :=
  match v with
  | .nil => some ""
  | .cell _ => (a.print v).map (·.toOption.getD "")

def store : Sexp → Storing Value
  | .nil => pure .nil
  | .symbol name => symbol name
  | .pair head tail => do
    let head ← store head
    let tail ← store tail
    cons head tail

end ArenaLisp.Arena
