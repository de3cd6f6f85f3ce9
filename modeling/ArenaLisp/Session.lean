import ArenaLisp.Directory
import ArenaLisp.Machine.Eval

/-!
# Sessions

Every expression takes at least one character of the input, which bounds the number of rounds.
-/

namespace ArenaLisp

namespace Machine

def prompt (m : Machine) : Machine :=
  match m with
  | ⟨arena, console, settings, globe, stack, tee, interrupted, collections⟩ =>
    let console :=
      if settings.freespace then console.putText (toString arena.freeCount) else console
    ⟨arena, console.putText "> ", settings, globe, stack, tee, interrupted, collections⟩

def greet (m : Machine) : Machine :=
  match m with
  | ⟨arena, console, settings, globe, stack, tee, interrupted, collections⟩ =>
    let console :=
      if settings.banner then (console.putText Settings.bannerText).endLine else console
    ⟨arena, console, settings, globe, stack, tee, interrupted, collections⟩

end Machine

namespace Lisp

/-- More levels of evaluation than any run can nest. -/
def ample : Nat := 1000000000000000000

def cycle (fuel : Nat) : Lisp Unit := do
  collect .nil .nil
  modify Machine.prompt
  let form ← read
  protect form
  write Console.freshLine
  let result ← eval fuel form .nil
  write Console.freshLine
  let text ← print result
  write (·.putText text)
  unprotect
  write fun c => c.freshLine.endLine

def report (fault : Fault) : Lisp Unit := do
  modify ({ · with stack := .nil })
  write fun c => ((c.freshLine.putText "ERROR: ").putText fault.message).endLine

def turn (fuel : Nat) : Lisp Bool :=
  tryCatch (do cycle fuel; pure true) fun
    | .endOfInput => pure false
    | fault => if fault.isFatal then throw fault else do report fault; pure true

def turns (fuel : Nat) : Nat → Lisp Unit
  | 0 => return
  | n + 1 => do
    if ← turn fuel then turns fuel n

def rounds : Lisp Nat := do
  let m ← get
  return m.console.unread.length + 1

def run (fuel : Nat) : Lisp Unit := do
  modify Machine.greet
  turns fuel (← rounds)
  write Console.freshLine

/-- A fault lets go of everything that was protected. -/
def withConsole {α : Type} (console : Console) (f : Lisp α) : Lisp α := fun m =>
  match m with
  | ⟨arena, saved, settings, globe, stack, tee, interrupted, collections⟩ =>
    match f ⟨arena, console, settings, globe, stack, tee, interrupted, collections⟩ with
    | none => none
    | some (.ok result, ⟨arena, _, settings, globe, stack, tee, interrupted, collections⟩) =>
      some (.ok result, ⟨arena, saved, settings, globe, stack, tee, interrupted, collections⟩)
    | some (.error fault, ⟨arena, _, settings, globe, _, tee, interrupted, collections⟩) =>
      some (.error fault, ⟨arena, saved, settings, globe, .nil, tee, interrupted, collections⟩)

def read? : Lisp (Option Value) :=
  tryCatch (some <$> read) fun
    | .endOfInput => pure none
    | fault => throw fault

def evalNext (ev : Evaluator) : Lisp (Option Value) := do
  match ← read? with
  | none => return none
  | some form =>
    protect form
    let result ← ev form .nil
    unprotect
    return some result

/-- The last value so far is kept while the next expression is read. -/
def evalLast (ev : Evaluator) : Nat → Value → Lisp Value
  | 0, last => return last
  | n + 1, last => do
    collect last .nil
    match ← evalNext ev with
    | none => return last
    | some result => evalLast ev n result

def evalTextWith (ev : Evaluator) (text : String) : Lisp String :=
  withConsole (Console.ofText text) do
    print (← evalLast ev (← rounds) .nil)

def evalText (fuel : Nat) (text : String) : Lisp String :=
  evalTextWith (eval fuel) text

def evalCounting (ev : Evaluator) : Nat → Nat → Lisp Nat
  | 0, count => return count
  | n + 1, count => do
    collect .nil .nil
    match ← evalNext ev with
    | none => return count
    | some _ => evalCounting ev n (count + 1)

def load (fuel : Nat) (contents : List Byte) : Lisp Nat :=
  withConsole (Console.ofBytes contents) do
    evalCounting (eval fuel) (← rounds) 0

/-- A directory can be opened, but the first read from it fails. -/
def loadPath (fuel : Nat) (path : String) : Option Found → Lisp Nat
  | some (.file contents) => load fuel contents
  | some .directory => withConsole (Console.ofBytes []) do
    collect .nil .nil
    throw (.io "Is a directory (os error 21)")
  | some (.barred reason) => throw (.cannotOpen path reason)
  | none => throw (.cannotOpen path "No such file or directory (os error 2)")

end Lisp

end ArenaLisp
