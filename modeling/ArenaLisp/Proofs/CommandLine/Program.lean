import ArenaLisp.Proofs.CommandLine.Arguments
import ArenaLisp.Proofs.Session.Silence

/-!
# The course of the program

What the program comes to can be told from the surroundings, the arguments and how the files load
(`CommandLine.Course`): it ends before it touches anything, or it looks up the files in order and stops
at the first one that fails, or the session follows (`CommandLine.execute_all_or_nothing`).
-/

namespace ArenaLisp

namespace Machine

variable {settings : Settings} {console : Console} {m : Machine}

theorem exists_new (room : 0 < settings.workspace) (console : Console) :
    ∃ m, Machine.new settings console = .ok m ∧ m.arena.capacity = settings.workspace := by
  have sound := Arena.sound_new settings.workspace
  obtain ⟨full, -⟩ | ⟨id, b, -, ran, took⟩ := Arena.take_run sound (Arena.fit_symbol Symbol.tee)
  · have none := sound.freeCount_eq_zero full
    rw [Arena.freeCount_new] at none
    omega
  · have made : (Arena.symbol Symbol.tee).run (Arena.new settings.workspace) = (.ok (.cell id), b) := by
      rw [Arena.symbol, map_eq_pure_bind, Storing.run_bind, ran]
      rfl
    rw [Machine.new, made]
    exact ⟨_, rfl, took.size.trans (Arena.capacity_new _)⟩

theorem console_new (made : Machine.new settings console = .ok m) :
    m.settings = settings ∧ m.console = { console with echo := settings.echo } := by
  unfold Machine.new at made
  split at made
  · cases made
  · cases made
    exact ⟨rfl, rfl⟩

end Machine

namespace CommandLine

open Lisp

/-- What the program can touch. -/
inductive Touch where
  | file (path : String)
  | input
  deriving DecidableEq, Repr

/-- Notes down that something was touched. -/
def note (touch : Touch) : StateM (List Touch) Unit :=
  modify (· ++ [touch])

def lookUp (look : String → Option Found) (path : String) : StateM (List Touch) (Option Found) := do
  note (.file path)
  return look path

/-- The whole program, with notes of what it touched, in order. -/
def executeNoting (fuel : Nat) (surroundings : Settings.Surroundings) (args : List String)
    (look : String → Option Found) (input : List Byte) : Option Exit × List Touch :=
  (program fuel surroundings args (lookUp look) fun m => do
    note .input
    return session fuel input m).run []

/-- A file is loaded to an outcome. Nothing is written meanwhile, neither on the console of the machine
nor on the one that the file is read from. -/
structure LoadsFile (fuel : Nat) (look : String → Option Found) (path : String) (m : Machine)
    (outcome : Except Fault Nat) (n : Machine) : Prop where
  comes : loadPath fuel path (look path) m = some (outcome, n)
  console : n.console = m.console
  silent : ∀ contents, look path = some (.file contents) →
    ∃ inside, evalFile fuel contents m = some (outcome, inside) ∧ inside.console.output = #[]

/-- Files are loaded with success, each in the machine that the one before it left. -/
inductive Loads (fuel : Nat) (look : String → Option Found) :
    Machine → List String → Machine → Prop where
  | done {m : Machine} : Loads fuel look m [] m
  | next {m k n : Machine} {path : String} {paths : List String} {count : Nat} :
    LoadsFile fuel look path m (.ok count) k → Loads fuel look k paths n →
    Loads fuel look m (path :: paths) n

/-- The machine that the program begins with, if there is nothing wrong with the surroundings and with
the arguments. -/
structure Begins (surroundings : Settings.Surroundings) (args : List String)
    (directives : List Directive) (m : Machine) : Prop where
  sane : Sane surroundings
  precedes : Precedes args directives []
  asked : Asked surroundings directives m.settings
  made : Machine.new m.settings (Console.ofBytes []) = .ok m
  capacity : m.arena.capacity = m.settings.workspace

/-- How the program ends, if it does, and what it touched before. -/
inductive Course (fuel : Nat) (surroundings : Settings.Surroundings) (args : List String)
    (look : String → Option Found) (input : List Byte) : Option Exit → List Touch → Prop where
  /-- A bad workspace size in the surroundings, whatever the arguments. -/
  | misplaced {size : String} {refusal : Settings.Refusal} : surroundings.workspace? = some size →
    Settings.Refuses 20 size refusal →
    Course fuel surroundings args look input
      (some { code := 1, stdout := [], stderr := refusal.message ++ "\n" }) []
  | helped {directives : List Directive} {rest : List String} : Sane surroundings →
    Precedes args directives rest → Decides rest (.ok .help) →
    Course fuel surroundings args look input
      (some { code := 0, stdout := linesBytes usage, stderr := "" }) []
  | refused {directives : List Directive} {rest : List String} {complaint : Complaint} :
    Sane surroundings → Precedes args directives rest → Decides rest (.error complaint) →
    Course fuel surroundings args look input
      (some { code := 1, stdout := [], stderr := complaint.message }) []
  | failed {directives : List Directive} {m n k : Machine} {done later : List String}
    {path : String} {fault : Fault} : Begins surroundings args directives m →
    directives.filterMap Directive.path? = done ++ path :: later → Loads fuel look m done n →
    LoadsFile fuel look path n (.error fault) k →
    Course fuel surroundings args look input
      (some { code := 1, stdout := []
              stderr := "Error loading " ++ path ++ ": " ++ fault.message ++ "\n" })
      ((done ++ [path]).map .file)
  | endless {directives : List Directive} {m n : Machine} {done later : List String}
    {path : String} : Begins surroundings args directives m →
    directives.filterMap Directive.path? = done ++ path :: later → Loads fuel look m done n →
    loadPath fuel path (look path) n = none →
    Course fuel surroundings args look input none ((done ++ [path]).map .file)
  /-- All files are loaded. The session begins on the input with what they defined, on a console on
  which nothing was written. -/
  | session {directives : List Directive} {m n : Machine} : Begins surroundings args directives m →
    Loads fuel look m (directives.filterMap Directive.path?) n →
    Course fuel surroundings args look input
      ((Lisp.run fuel { n with
          console := { Console.ofBytes input with echo := m.settings.echo } }).map finish)
      ((directives.filterMap Directive.path?).map .file ++ [.input])

variable {fuel : Nat} {surroundings : Settings.Surroundings} {args paths done later : List String}
  {look : String → Option Found} {input : List Byte} {directives : List Directive} {m n k : Machine}
  {path : String} {outcome : Except Fault Nat} {touched log : List Touch} {exit : Option Exit}

/-! ### Loading -/

theorem console_loadPath {found : Option Found}
    (comes : loadPath fuel path found m = some (outcome, n)) : n.console = m.console := by
  rcases found with _ | contents | _ | reason
  · cases comes
    rfl
  · obtain ⟨_, -, kept⟩ := of_load comes
    exact kept
  · rw [loadPath] at comes
    obtain ⟨_, -, kept⟩ := of_withConsole comes
    exact kept
  · cases comes
    rfl

theorem loadsFile_of_comes (comes : loadPath fuel path (look path) m = some (outcome, n)) :
    LoadsFile fuel look path m outcome n := by
  refine ⟨comes, console_loadPath comes, fun contents found => ?_⟩
  rw [found] at comes
  obtain ⟨inside, ran, -⟩ := of_load comes
  exact ⟨inside, ran, output_evalFile ran⟩

theorem Loads.console (loads : Loads fuel look m paths n) : n.console = m.console := by
  induction loads with
  | done => rfl
  | next first _ ih => exact ih.trans first.console

theorem loads_or_stops (fuel : Nat) (look : String → Option Found) (m : Machine) (paths : List String) :
    (∃ n, Loads fuel look m paths n) ∨ ∃ done path later n, paths = done ++ path :: later ∧
      Loads fuel look m done n ∧
      ((∃ fault k, LoadsFile fuel look path n (.error fault) k) ∨
        loadPath fuel path (look path) n = none) := by
  induction paths generalizing m with
  | nil => exact .inl ⟨m, .done⟩
  | cons path paths ih =>
    rcases comes : loadPath fuel path (look path) m with _ | ⟨fault | count, k⟩
    · exact .inr ⟨[], path, paths, m, rfl, .done, .inr comes⟩
    · exact .inr ⟨[], path, paths, m, rfl, .done, .inl ⟨fault, k, loadsFile_of_comes comes⟩⟩
    · have first := loadsFile_of_comes comes
      obtain ⟨n, loads⟩ | ⟨done, other, later, n, rfl, loads, stops⟩ := ih k
      · exact .inl ⟨n, .next first loads⟩
      · exact .inr ⟨path :: done, other, later, n, rfl, .next first loads, stops⟩

theorem loadAll_cons (fuel : Nat) (look : String → Option Found) (m : Machine) (path : String)
    (paths : List String) (log : List Touch) :
    (loadAll fuel (lookUp look) m (path :: paths)).run log =
      match loadPath fuel path (look path) m with
      | none => (none, log ++ [.file path])
      | some (.ok _, n) => (loadAll fuel (lookUp look) n paths).run (log ++ [.file path])
      | some (.error fault, _) => (some (.error (.failure
          ("Error loading " ++ path ++ ": " ++ fault.message ++ "\n"))), log ++ [.file path]) := by
  show (match loadPath fuel path (look path) m with
    | none => _
    | some (.ok _, n) => _
    | some (.error fault, _) => _ : StateM (List Touch) _).run (log ++ [.file path]) = _
  rcases loadPath fuel path (look path) m with _ | ⟨_ | _, _⟩ <;> rfl

theorem Loads.loadAll (loads : Loads fuel look m done n) (later : List String)
    (log : List Touch) : (loadAll fuel (lookUp look) m (done ++ later)).run log =
      (CommandLine.loadAll fuel (lookUp look) n later).run (log ++ done.map .file) := by
  induction loads generalizing log with
  | done => rw [List.nil_append, List.map_nil, List.append_nil]
  | next first _ ih =>
    rw [List.cons_append, loadAll_cons, first.comes]
    dsimp only
    rw [ih, List.append_assoc]
    rfl

/-! ### The whole program -/

theorem executeNoting_of_error {end' : Exit} (ends : start surroundings args = .error end') :
    executeNoting fuel surroundings args look input = (some end', []) := by
  rw [executeNoting, program, ends]
  rfl

theorem executeNoting_of_ok (starts : start surroundings args = .ok (m, paths)) :
    executeNoting fuel surroundings args look input =
      match (loadAll fuel (lookUp look) m paths).run [] with
      | (none, log) => (none, log)
      | (some (.error end'), log) => (some end', log)
      | (some (.ok n), log) => (session fuel input n, log ++ [.input]) := by
  rw [executeNoting, program, starts]
  dsimp only
  rw [StateT.run_bind]
  rcases (loadAll fuel (lookUp look) m paths).run [] with ⟨_ | _ | _, log⟩ <;> rfl

theorem start_of_error {complaint : Complaint}
    (asks : request surroundings args = .error complaint) :
    start surroundings args = .error (.failure complaint.message) := by
  rw [start, asks]

theorem start_of_help (asks : request surroundings args = .ok .help) :
    start surroundings args = .error { code := 0, stdout := linesBytes usage } := by
  rw [start, asks]

theorem Begins.start (begins : Begins surroundings args directives m) :
    start surroundings args = .ok (m, directives.filterMap Directive.path?) := by
  obtain ⟨settings, asked, asks⟩ := request_of_directives begins.sane begins.precedes
  have made := begins.made
  rw [begins.asked.unique asked] at made
  rw [CommandLine.start, asks]
  dsimp only
  rw [made]

theorem exists_begins (sane : Sane surroundings) (precedes : Precedes args directives []) :
    ∃ m, Begins surroundings args directives m := by
  obtain ⟨settings, asked, -⟩ := request_of_directives sane precedes
  obtain ⟨m, made, capacity⟩ := Machine.exists_new asked.workspace_pos (Console.ofBytes [])
  obtain ⟨rfl, -⟩ := Machine.console_new made
  exact ⟨m, sane, precedes, asked, made, capacity⟩

theorem Begins.session (begins : Begins surroundings args directives m)
    (console : n.console = m.console) (fuel : Nat) (input : List Byte) :
    session fuel input n = (Lisp.run fuel { n with
      console := { Console.ofBytes input with echo := m.settings.echo } }).map finish := by
  rw [CommandLine.session, console, (Machine.console_new begins.made).2]
  rfl

theorem Course.sound (course : Course fuel surroundings args look input exit touched) :
    executeNoting fuel surroundings args look input = (exit, touched) := by
  cases course with
  | misplaced given refuses =>
    exact executeNoting_of_error (start_of_error (request_of_refuses given refuses args))
  | helped sane precedes decides =>
    exact executeNoting_of_error (start_of_help (request_of_decides sane precedes decides))
  | refused sane precedes decides =>
    exact executeNoting_of_error (start_of_error (request_of_decides sane precedes decides))
  | failed begins files loads fails =>
    rw [executeNoting_of_ok begins.start, files, loads.loadAll, loadAll_cons, fails.comes,
      List.map_append]
    rfl
  | endless begins files loads never =>
    rw [executeNoting_of_ok begins.start, files, loads.loadAll, loadAll_cons, never,
      List.map_append]
    rfl
  | session begins loads =>
    have all := loads.loadAll [] []
    rw [List.append_nil] at all
    rw [executeNoting_of_ok begins.start, all, ← begins.session loads.console]
    rfl

theorem exists_course (fuel : Nat) (surroundings : Settings.Surroundings) (args : List String)
    (look : String → Option Found) (input : List Byte) :
    ∃ exit touched, Course fuel surroundings args look input exit touched := by
  by_cases sane : Sane surroundings
  · obtain ⟨directives, rest, precedes, rfl | ⟨verdict, decides⟩⟩ := exists_precedes args
    · obtain ⟨m, begins⟩ := exists_begins sane precedes
      obtain ⟨n, loads⟩ | ⟨done, path, later, n, files, loads, ⟨fault, k, fails⟩ | never⟩ :=
        loads_or_stops fuel look m (directives.filterMap Directive.path?)
      · exact ⟨_, _, .session begins loads⟩
      · exact ⟨_, _, .failed begins files loads fails⟩
      · exact ⟨_, _, .endless begins files loads never⟩
    · rcases verdict with complaint | asks
      · exact ⟨_, _, .refused sane precedes decides⟩
      · cases decides with
        | help flag => exact ⟨_, _, .helped sane precedes (.help flag)⟩
  · simp only [Sane, not_forall, not_exists] at sane
    obtain ⟨size, given, none⟩ := sane
    obtain ⟨refusal, refuses⟩ := Settings.exists_refuses none
    exact ⟨_, _, .misplaced given refuses⟩

theorem loadAll_noted (fuel : Nat) (look : String → Option Found) (m : Machine) (paths : List String)
    (log : List Touch) : ((loadAll fuel (lookUp look) m paths).run log).1 =
      Id.run (loadAll fuel (fun path => pure (look path)) m paths) := by
  induction paths generalizing m log with
  | nil => rfl
  | cons path paths ih =>
    rw [loadAll_cons, loadAll, Id.run_bind, Id.run_pure]
    rcases loadPath fuel path (look path) m with _ | ⟨_ | _, n⟩
    · rfl
    · rfl
    · exact ih n _

theorem executeNoting_fst (fuel : Nat) (surroundings : Settings.Surroundings) (args : List String)
    (look : String → Option Found) (input : List Byte) :
    (executeNoting fuel surroundings args look input).1 =
      executeIn fuel surroundings args look input := by
  rw [executeIn, program]
  cases starts : start surroundings args with
  | error end' =>
    rw [executeNoting_of_error starts]
    rfl
  | ok begun =>
    obtain ⟨m, paths⟩ := begun
    have same := loadAll_noted fuel look m paths []
    rw [executeNoting_of_ok starts]
    dsimp only
    rw [Id.run_bind, ← same]
    rcases (loadAll fuel (lookUp look) m paths).run [] with ⟨_ | _ | _, log⟩ <;> rfl

/-- From left to right, the first argument that asks for help or is wrong decides how the program ends,
before anything is touched, and so does a bad workspace size in the surroundings, whatever the
arguments. Otherwise a machine of the size asked for last loads the files in order, silently. The first
file that fails ends the program, before later files or the input are touched. Only if there is none,
the session follows on the input, in the machine that the last file left. -/
theorem execute_all_or_nothing (fuel : Nat) (surroundings : Settings.Surroundings)
    (args : List String) (look : String → Option Found) (input : List Byte) :
    (executeNoting fuel surroundings args look input).1 =
        executeIn fuel surroundings args look input ∧
      ∀ exit touched, executeNoting fuel surroundings args look input = (exit, touched) ↔
        Course fuel surroundings args look input exit touched := by
  refine ⟨executeNoting_fst fuel surroundings args look input, fun exit touched => ?_⟩
  refine ⟨fun executed => ?_, Course.sound⟩
  -- there is some course, and its soundness says that it is the one that was taken
  obtain ⟨exit', touched', course⟩ := exists_course fuel surroundings args look input
  obtain ⟨rfl, rfl⟩ := Prod.mk.inj (course.sound.symm.trans executed)
  exact course

/-- In a directory the first file has the name of an option, and the second one is missing. -/
example : executeNoting 8 { workspace? := some "50" }
    ["--load", "--help", "--workspace", "+060", "--load", "b", "--load", "c"]
    (Directory.find? { files := [("--help", Utf8.encode "(DEFVAR A T)"), ("c", [])] })
    (Utf8.encode "A") =
      (some { code := 1, stdout := []
              stderr := "Error loading b: I/O error: cannot open 'b': " ++
                "No such file or directory (os error 2)\n" },
        [.file "--help", .file "b"]) := by
  decide +kernel

end CommandLine

end ArenaLisp
