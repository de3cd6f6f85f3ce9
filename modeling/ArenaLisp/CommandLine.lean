import ArenaLisp.Directory
import ArenaLisp.Session

/-!
# The command line
-/

namespace ArenaLisp.CommandLine

structure Exit where
  code : UInt32
  stdout : List Byte := []
  stderr : String := ""
  deriving DecidableEq, Repr

inductive Request where
  | help
  | session (settings : Settings) (files : List String)
  deriving DecidableEq, Repr

inductive Complaint where
  | missingPath
  | missingSize
  | refused (refusal : Settings.Refusal)
  | unknown (argument : String)
  deriving DecidableEq, Repr

def Complaint.message : Complaint → String
  | missingPath => "--load requires a file path\n"
  | missingSize => "--workspace requires a cell count\n"
  | refused refusal => refusal.message ++ "\n"
  | unknown argument =>
    "Unknown argument: " ++ argument ++ "\nTry 'ulisp --help' for usage information.\n"

def usage : List String := [
  "Usage: ulisp [OPTIONS]",
  "",
  "Options:",
  "  --workspace <n>  Size of the cell arena (default 1000)",
  "  --echo           Echo input characters as they are read",
  "  --quiet          No banner and no free-space prompt",
  "  --load <file>    Evaluate a source file before starting the REPL",
  "  --help, -h       Show this help message",
  "",
  "Environment variables:",
  "  ULISP_WORKSPACE=<n>  Default arena size",
  "  ULISP_ECHO=1         Echo input",
  "  RUST_LOG=debug       Log collections and restarts"]

def linesBytes (lines : List String) : List Byte :=
  lines.flatMap fun line => Utf8.encode line ++ [Byte.newline]

/-- The files so far come last one first. -/
def judge : List String → Settings → List String → Except Complaint Request
  | [], settings, files => .ok (.session settings files.reverse)
  | "--load" :: path :: rest, settings, files => judge rest settings (path :: files)
  | ["--load"], _, _ => .error .missingPath
  | "--workspace" :: size :: rest, settings, files =>
    match settings.withWorkspace size with
    | .ok settings => judge rest settings files
    | .error refusal => .error (.refused refusal)
  | ["--workspace"], _, _ => .error .missingSize
  | "--echo" :: rest, settings, files => judge rest { settings with echo := true } files
  | "--quiet" :: rest, settings, files => judge rest settings.quiet files
  | "--help" :: _, _, _ => .ok .help
  | "-h" :: _, _, _ => .ok .help
  | argument :: _, _, _ => .error (.unknown argument)

def request (surroundings : Settings.Surroundings) (args : List String) :
    Except Complaint Request :=
  match Settings.ofSurroundings surroundings with
  | .error refusal => .error (.refused refusal)
  | .ok settings => judge args settings []

def Exit.failure (message : String) : Exit :=
  { code := 1, stderr := message }

def start (surroundings : Settings.Surroundings) (args : List String) :
    Except Exit (Machine × List String) :=
  match request surroundings args with
  | .error complaint => .error (.failure complaint.message)
  | .ok .help => .error { code := 0, stdout := linesBytes usage }
  | .ok (.session settings files) =>
    match Machine.new settings (Console.ofBytes []) with
    | .error fault => .error (.failure ("Failed to initialize machine: " ++ fault.message ++ "\n"))
    | .ok m => .ok (m, files)

/-- A file is looked up only when its turn comes. -/
def loadAll {μ : Type → Type} [Monad μ] (fuel : Nat) (look : String → μ (Option Found))
    (m : Machine) : List String → μ (Option (Except Exit Machine))
  | [] => return some (.ok m)
  | path :: paths => do
    match Lisp.loadPath fuel path (← look path) m with
    | none => return none
    | some (.ok _, m) => loadAll fuel look m paths
    | some (.error fault, _) =>
      return some (.error (.failure ("Error loading " ++ path ++ ": " ++ fault.message ++ "\n")))

def finish : Except Fault Unit × Machine → Exit
  | (.ok (), m) => { code := 0, stdout := m.console.output.toList }
  | (.error fault, m) =>
    { code := 1, stdout := m.console.output.toList, stderr := fault.message ++ "\n" }

def session (fuel : Nat) (input : List Byte) (m : Machine) : Option Exit :=
  (Lisp.run fuel { m with console := m.console.feed input }).map finish

def program {μ : Type → Type} [Monad μ] (fuel : Nat) (surroundings : Settings.Surroundings)
    (args : List String) (look : String → μ (Option Found))
    (session : Machine → μ (Option Exit)) : μ (Option Exit) :=
  match start surroundings args with
  | .error exit => return some exit
  | .ok (m, files) => do
    match ← loadAll fuel look m files with
    | none => return none
    | some (.error exit) => return some exit
    | some (.ok m) => session m

/-- The whole program on an input that is known from the start, where files do not change. -/
def executeIn (fuel : Nat) (surroundings : Settings.Surroundings) (args : List String)
    (look : String → Option Found) (input : List Byte) : Option Exit :=
  Id.run (program fuel surroundings args (fun path => pure (look path))
    fun m => pure (session fuel input m))

def execute (fuel : Nat) (surroundings : Settings.Surroundings) (args : List String)
    (directory : Directory) (input : List Byte) : Option Exit :=
  executeIn fuel surroundings args directory.find? input

end ArenaLisp.CommandLine
