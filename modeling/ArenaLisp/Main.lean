import ArenaLisp.CommandLine

/-!
# The program

A cycle that runs out of input is shown as far as it came. It is done again from its beginning when more
input has come, which writes the same again and then more.
-/

namespace ArenaLisp.Terminal

def since (c : Console) (shown : Nat) : ByteArray :=
  ⟨c.output.extract shown c.output.size⟩

partial def readLine (stream : IO.FS.Stream) (line : ByteArray) : IO ByteArray := do
  let b ← stream.read 1
  if b.isEmpty then return line
  let line := line ++ b
  if b.toList == [Byte.newline] then return line else readLine stream line

partial def converse (stdin stdout : IO.FS.Stream) (m : Machine) (shown : Nat) : IO UInt32 := do
  match Lisp.turn Lisp.ample m with
  | none => return 1
  | some (.ok true, m) =>
    stdout.write (since m.console shown)
    stdout.flush
    converse stdin stdout m m.console.output.size
  | some (.ok false, waiting) =>
    stdout.write (since waiting.console shown)
    stdout.flush
    let line ← readLine stdin ByteArray.empty
    if line.isEmpty then
      stdout.write (since waiting.console.freshLine waiting.console.output.size)
      stdout.flush
      return 0
    else
      converse stdin stdout { m with console := m.console.feed line.toList }
        waiting.console.output.size
  | some (.error fault, m) =>
    stdout.write (since m.console shown)
    (← IO.getStderr).putStr (fault.message ++ "\n")
    return 1

def reason : IO.Error → String
  | .noFileOrDirectory _ code text | .permissionDenied _ code text | .inappropriateType _ code text
  | .invalidArgument _ code text | .resourceExhausted _ code text | .noSuchThing _ code text
  | .otherError code text => text ++ " (os error " ++ toString code ++ ")"
  | other => toString other

def readAll (handle : IO.FS.Handle) : IO Found := do
  try
    return .file (← handle.readBinToEnd).toList
  catch failure =>
    match failure with
    | .inappropriateType .. => return .directory
    | _ => throw failure

def find? (path : String) : IO (Option Found) := do
  try
    return some (← readAll (← IO.FS.Handle.mk path .read))
  catch failure =>
    match failure with
    | .noFileOrDirectory .. => return none
    | _ => return some (.barred (reason failure))

end ArenaLisp.Terminal

open ArenaLisp Terminal in
def main (args : List String) : IO UInt32 := do
  let stdin ← IO.getStdin
  let stdout ← IO.getStdout
  let surroundings : Settings.Surroundings :=
    { workspace? := ← IO.getEnv "ULISP_WORKSPACE", echo? := ← IO.getEnv "ULISP_ECHO" }
  let session (m : Machine) : IO (Option CommandLine.Exit) := do
    return some { code := ← converse stdin stdout m.greet 0 }
  match ← CommandLine.program Lisp.ample surroundings args find? session with
  | none => return 1
  | some exit =>
    stdout.write ⟨exit.stdout.toArray⟩
    (← IO.getStderr).putStr exit.stderr
    return exit.code
