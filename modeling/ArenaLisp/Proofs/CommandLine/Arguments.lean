import ArenaLisp.CommandLine
import ArenaLisp.Proofs.CommandLine.Sizes

/-!
# How arguments are judged

Arguments are directives, each an option with its value, up to the first argument that decides how the
program ends, if there is one (`CommandLine.exists_precedes`). What stands before it decides nothing
(`CommandLine.judge_directives`), and what the directives ask for can be told from them as a whole
(`CommandLine.Asked`).
-/

namespace ArenaLisp.CommandLine

/-- An option with its value. The value may itself look like an option. -/
inductive Directive where
  | load (path : String)
  | workspace (size : String)
  | echo
  | quiet
  deriving DecidableEq, Repr

namespace Directive

/-- A directive as it stands among the arguments. -/
def arguments : Directive → List String
  | load path => ["--load", path]
  | workspace size => ["--workspace", size]
  | echo => ["--echo"]
  | quiet => ["--quiet"]

/-- The file that a directive asks for. -/
def path? : Directive → Option String
  | load path => some path
  | _ => none

/-- The workspace size that a directive asks for. -/
def size? : Directive → Option String
  | workspace size => some size
  | _ => none

/-- Whether the judging goes on after a directive. Only a workspace size can be wrong. -/
def Accepted (directive : Directive) : Prop :=
  ∀ size ∈ directive.size?, ∃ n, Settings.Grants 20 size n

/-- The settings after a directive. -/
def apply (settings : Settings) : Directive → Settings
  | load _ => settings
  | workspace size => ((Settings.setWorkspace size).run settings).2
  | echo => { settings with echo := true }
  | quiet => settings.quiet

end Directive

open Directive

/-- The options by name. -/
def options : List String :=
  ["--load", "--workspace", "--echo", "--quiet", "--help", "-h"]

/-- Arguments whose first one decides how the program ends, whatever follows. -/
inductive Decides : List String → Except Complaint Request → Prop where
  | help {flag : String} {later : List String} : flag = "--help" ∨ flag = "-h" →
    Decides (flag :: later) (.ok .help)
  | missingPath : Decides ["--load"] (.error .missingPath)
  | missingSize : Decides ["--workspace"] (.error .missingSize)
  | refused {size : String} {refusal : Settings.Refusal} {later : List String} :
    Settings.Refuses 20 size refusal →
    Decides ("--workspace" :: size :: later) (.error (.refused refusal))
  | unknown {argument : String} {later : List String} : argument ∉ options →
    Decides (argument :: later) (.error (.unknown argument))

/-- The arguments are directives after which the judging goes on, and a rest. -/
structure Precedes (args : List String) (directives : List Directive) (rest : List String) : Prop where
  arguments : args = directives.flatMap Directive.arguments ++ rest
  accepted : ∀ directive ∈ directives, directive.Accepted

variable {args rest files : List String} {directives : List Directive} {directive : Directive}
  {settings settings' : Settings} {surroundings : Settings.Surroundings} {text : String}
  {verdict : Except Complaint Request}

/-! ### Judging -/

theorem withWorkspace_of_grants {n : Nat} (grants : Settings.Grants settings.threshold text n) :
    settings.withWorkspace text = .ok { settings with workspace := n } := by
  rw [Settings.withWorkspace, Settings.setWorkspace_of_grants grants]

theorem withWorkspace_of_refuses {refusal : Settings.Refusal}
    (refuses : Settings.Refuses settings.threshold text refusal) :
    settings.withWorkspace text = .error refusal := by
  rw [Settings.withWorkspace, Settings.setWorkspace_of_refuses refuses]

theorem grants_of_withWorkspace (h : settings.withWorkspace text = .ok settings') :
    ∃ n, Settings.Grants settings.threshold text n ∧ settings' = { settings with workspace := n } := by
  rw [Settings.withWorkspace] at h
  obtain ⟨n, grants, run⟩ | ⟨refusal, -, run⟩ := settings.setWorkspace_cases text
  · rw [run] at h
    exact ⟨n, grants, (Except.ok.inj h).symm⟩
  · rw [run] at h
    cases h

theorem refuses_of_withWorkspace {refusal : Settings.Refusal}
    (h : settings.withWorkspace text = .error refusal) :
    Settings.Refuses settings.threshold text refusal := by
  rw [Settings.withWorkspace] at h
  obtain ⟨n, -, run⟩ | ⟨refusal', refuses, run⟩ := settings.setWorkspace_cases text
  · rw [run] at h
    cases h
  · rw [run] at h
    exact Except.error.inj h ▸ refuses

theorem Directive.accepted_of_size? (none : directive.size? = none) : directive.Accepted := by
  intro size asked
  rw [none] at asked
  cases asked

theorem Directive.threshold_apply (settings : Settings) (directive : Directive) :
    (directive.apply settings).threshold = settings.threshold := by
  cases directive with
  | load path => rfl
  | workspace size =>
    obtain ⟨n, -, run⟩ | ⟨refusal, -, run⟩ := settings.setWorkspace_cases size
    all_goals rw [Directive.apply, run]
  | echo => rfl
  | quiet => rfl

theorem judge_directive (standard : settings.threshold = 20) (accepted : directive.Accepted)
    (rest files : List String) : judge (directive.arguments ++ rest) settings files =
      judge rest (directive.apply settings) (directive.path?.toList ++ files) := by
  cases directive with
  | load path => rfl
  | workspace size =>
    obtain ⟨n, grants⟩ := accepted size rfl
    rw [← standard] at grants
    show judge ("--workspace" :: size :: rest) settings files = judge rest _ files
    rw [judge, withWorkspace_of_grants grants, Directive.apply,
      Settings.setWorkspace_of_grants grants]
  | echo => rfl
  | quiet => rfl

/-- Directives that are accepted only change the settings and add files. -/
theorem judge_directives (standard : settings.threshold = 20)
    (accepted : ∀ directive ∈ directives, directive.Accepted) (rest files : List String) :
    judge (directives.flatMap Directive.arguments ++ rest) settings files =
      judge rest (directives.foldl Directive.apply settings)
        ((directives.filterMap Directive.path?).reverse ++ files) := by
  induction directives generalizing settings files with
  | nil => rfl
  | cons directive directives ih =>
    have first := accepted directive List.mem_cons_self
    have others : ∀ other ∈ directives, other.Accepted :=
      fun other member => accepted other (List.mem_cons_of_mem _ member)
    rw [List.flatMap_cons, List.append_assoc, judge_directive standard first,
      ih (directive.threshold_apply settings ▸ standard) others, List.foldl_cons]
    refine congrArg _ ?_
    cases path : directive.path? <;> simp [path]

theorem judge_of_decides (standard : settings.threshold = 20) (decides : Decides args verdict)
    (files : List String) : judge args settings files = verdict := by
  cases decides with
  | help flag =>
    rcases flag with rfl | rfl
    · rw [judge]
    · rw [judge]
  | missingPath => rw [judge]
  | missingSize => rw [judge]
  | refused refuses =>
    rw [← standard] at refuses
    rw [judge, withWorkspace_of_refuses refuses]
  | @unknown argument later unknown =>
    simp only [options, List.mem_cons, List.not_mem_nil, or_false, not_or] at unknown
    rw [judge]
    all_goals grind

theorem Precedes.cons (precedes : Precedes args directives rest) (accepted : directive.Accepted) :
    Precedes (directive.arguments ++ args) (directive :: directives) rest where
  arguments := by
    rw [precedes.arguments, List.flatMap_cons, List.append_assoc]
  accepted other member := by
    rcases List.mem_cons.1 member with rfl | member
    · exact accepted
    · exact precedes.accepted other member

theorem exists_precedes (args : List String) : ∃ directives rest,
    Precedes args directives rest ∧ (rest = [] ∨ ∃ verdict, Decides rest verdict) := by
  have stop : ∀ {args verdict}, Decides args verdict → ∃ directives rest,
      Precedes args directives rest ∧ (rest = [] ∨ ∃ verdict, Decides rest verdict) :=
    fun {args verdict} decides => ⟨[], args, ⟨rfl, by simp⟩, .inr ⟨verdict, decides⟩⟩
  -- the settings only matter for their threshold, which no argument changes
  suffices all : ∀ (settings : Settings) (files : List String), settings.threshold = 20 →
      ∃ directives rest, Precedes args directives rest ∧
        (rest = [] ∨ ∃ verdict, Decides rest verdict) from all {} [] rfl
  intro settings files standard
  fun_induction judge args settings files with
  | case1 => exact ⟨[], [], ⟨rfl, by simp⟩, .inl rfl⟩
  | case2 path later settings files ih =>
    obtain ⟨directives, rest, precedes, ends⟩ := ih standard
    exact ⟨_, rest, precedes.cons (accepted_of_size? (rfl : (load path).size? = none)), ends⟩
  | case3 => exact stop .missingPath
  | case4 size later settings files settings' set ih =>
    obtain ⟨n, grants, rfl⟩ := grants_of_withWorkspace set
    obtain ⟨directives, rest, precedes, ends⟩ := ih standard
    rw [standard] at grants
    have accepted : (workspace size).Accepted := by
      rintro _ ⟨⟩
      exact ⟨n, grants⟩
    exact ⟨_, rest, precedes.cons accepted, ends⟩
  | case5 size later settings files refusal refused =>
    have refuses := refuses_of_withWorkspace refused
    rw [standard] at refuses
    exact stop (.refused refuses)
  | case6 => exact stop .missingSize
  | case7 later settings files ih =>
    obtain ⟨directives, rest, precedes, ends⟩ := ih standard
    exact ⟨_, rest, precedes.cons (accepted_of_size? (rfl : echo.size? = none)), ends⟩
  | case8 later settings files ih =>
    obtain ⟨directives, rest, precedes, ends⟩ := ih standard
    exact ⟨_, rest, precedes.cons (accepted_of_size? (rfl : quiet.size? = none)), ends⟩
  | case9 => exact stop (.help (.inl rfl))
  | case10 => exact stop (.help (.inr rfl))
  | case11 argument later =>
    refine stop (.unknown ?_)
    -- an option that takes a value is unknown neither with one nor without
    cases later <;> simp_all [options]

/-! ### What is asked for -/

/-- The surroundings say nothing wrong. -/
def Sane (surroundings : Settings.Surroundings) : Prop :=
  ∀ size ∈ surroundings.workspace?, ∃ n, Settings.Grants 20 size n

/-- The workspace sizes that are asked for, first in the surroundings and then in directives. -/
def sizes (surroundings : Settings.Surroundings) (directives : List Directive) : List String :=
  surroundings.workspace?.toList ++ directives.filterMap Directive.size?

/-- What surroundings and directives ask for, taken together. -/
structure Asked (surroundings : Settings.Surroundings) (directives : List Directive)
    (settings : Settings) : Prop where
  /-- Of several sizes the last one counts. -/
  workspace : ∀ size ∈ (sizes surroundings directives).getLast?,
    Settings.Grants 20 size settings.workspace
  unsized : sizes surroundings directives = [] → settings.workspace = 1000
  threshold : settings.threshold = 20
  echo : settings.echo = true ↔ surroundings.echo? = some "1" ∨ Directive.echo ∈ directives
  banner : settings.banner = true ↔ quiet ∉ directives
  freespace : settings.freespace = true ↔ quiet ∉ directives

theorem Asked.unique (asked : Asked surroundings directives settings)
    (asked' : Asked surroundings directives settings') : settings = settings' := by
  have workspace : settings.workspace = settings'.workspace := by
    cases last : (sizes surroundings directives).getLast? with
    | none =>
      have none := List.getLast?_eq_none_iff.1 last
      rw [asked.unsized none, asked'.unsized none]
    | some size => exact (asked.workspace size last).unique (asked'.workspace size last)
  have threshold : settings.threshold = settings'.threshold :=
    asked.threshold.trans asked'.threshold.symm
  have echo := Bool.eq_iff_iff.2 (asked.echo.trans asked'.echo.symm)
  have banner := Bool.eq_iff_iff.2 (asked.banner.trans asked'.banner.symm)
  have freespace := Bool.eq_iff_iff.2 (asked.freespace.trans asked'.freespace.symm)
  cases settings
  cases settings'
  simp_all

theorem Asked.workspace_pos (asked : Asked surroundings directives settings) :
    0 < settings.workspace := by
  cases last : (sizes surroundings directives).getLast? with
  | none =>
    rw [asked.unsized (List.getLast?_eq_none_iff.1 last)]
    decide
  | some size =>
    have := (asked.workspace size last).2.1
    omega

theorem sizes_append (surroundings : Settings.Surroundings) (directives : List Directive)
    (directive : Directive) : sizes surroundings (directives ++ [directive]) =
      sizes surroundings directives ++ directive.size?.toList := by
  rw [sizes, sizes, List.filterMap_append, List.append_assoc]
  cases size : directive.size? <;> simp [size]

theorem Asked.apply (asked : Asked surroundings directives settings)
    (accepted : directive.Accepted) :
    Asked surroundings (directives ++ [directive]) (directive.apply settings) := by
  have same : directive.size? = none →
      sizes surroundings (directives ++ [directive]) = sizes surroundings directives := by
    intro none
    rw [sizes_append, none, Option.toList_none, List.append_nil]
  cases directive with
  | load path =>
    show Asked _ _ settings
    refine ⟨?_, ?_, asked.threshold, ?_, ?_, ?_⟩
    · simpa [same rfl] using asked.workspace
    · simpa [same rfl] using asked.unsized
    · simpa using asked.echo
    · simpa using asked.banner
    · simpa using asked.freespace
  | workspace size =>
    obtain ⟨n, grants⟩ := accepted size rfl
    have set : (Directive.workspace size).apply settings = { settings with workspace := n } := by
      rw [← asked.threshold] at grants
      rw [Directive.apply, Settings.setWorkspace_of_grants grants]
    rw [set]
    refine ⟨?_, ?_, asked.threshold, ?_, ?_, ?_⟩
    · simpa [sizes_append, size?] using grants
    · simp [sizes_append, size?]
    · simpa using asked.echo
    · simpa using asked.banner
    · simpa using asked.freespace
  | echo =>
    show Asked _ _ { settings with echo := true }
    refine ⟨?_, ?_, asked.threshold, by simp, ?_, ?_⟩
    · simpa [same rfl] using asked.workspace
    · simpa [same rfl] using asked.unsized
    · simpa using asked.banner
    · simpa using asked.freespace
  | quiet =>
    show Asked _ _ { settings with banner := false, freespace := false }
    refine ⟨?_, ?_, asked.threshold, ?_, by simp, by simp⟩
    · simpa [same rfl] using asked.workspace
    · simpa [same rfl] using asked.unsized
    · simpa using asked.echo

theorem Asked.applied {more : List Directive} (asked : Asked surroundings directives settings)
    (accepted : ∀ directive ∈ more, directive.Accepted) :
    Asked surroundings (directives ++ more) (more.foldl Directive.apply settings) := by
  induction more generalizing directives settings with
  | nil => rwa [List.append_nil]
  | cons directive more ih =>
    have first := asked.apply (accepted directive List.mem_cons_self)
    rw [List.append_cons]
    exact ih first fun other member => accepted other (List.mem_cons_of_mem _ member)

theorem asked_surroundings (sane : Sane surroundings) :
    ∃ settings, Settings.ofSurroundings surroundings = .ok settings ∧
      Asked surroundings [] settings := by
  obtain ⟨workspace?, echo?⟩ := surroundings
  have asked : ∀ n, (∀ size ∈ workspace?, Settings.Grants 20 size n) →
      (workspace? = none → n = 1000) →
      Asked ⟨workspace?, echo?⟩ [] { workspace := n, echo := echo? == some "1" } := by
    intro n granted unsized
    refine ⟨?_, ?_, rfl, by simp, by simp, by simp⟩
    · cases workspace? with
      | none => simp [sizes]
      | some size => simpa [sizes] using granted
    · cases workspace? with
      | none => simpa [sizes] using unsized
      | some size => simp [sizes]
  cases workspace? with
  | none =>
    refine ⟨_, ?_, asked 1000 (by simp) fun _ => rfl⟩
    cases echo? <;> rfl
  | some size =>
    obtain ⟨n, grants⟩ := sane size rfl
    refine ⟨_, ?_, asked n (by simpa using grants) (by simp)⟩
    rw [Settings.ofSurroundings]
    dsimp only
    rw [withWorkspace_of_grants grants]
    cases echo? <;> rfl

theorem ofSurroundings_of_refuses {refusal : Settings.Refusal}
    (given : surroundings.workspace? = some text) (refuses : Settings.Refuses 20 text refusal) :
    Settings.ofSurroundings surroundings = .error refusal := by
  have refused : Settings.withWorkspace {} text = .error refusal := withWorkspace_of_refuses refuses
  rw [Settings.ofSurroundings, given]
  simp only [refused]
  rfl

/-! ### What it comes to -/

theorem request_of_refuses {refusal : Settings.Refusal}
    (given : surroundings.workspace? = some text) (refuses : Settings.Refuses 20 text refusal)
    (args : List String) : request surroundings args = .error (.refused refusal) := by
  rw [request, ofSurroundings_of_refuses given refuses]

theorem request_of_decides (sane : Sane surroundings) (precedes : Precedes args directives rest)
    (decides : Decides rest verdict) : request surroundings args = verdict := by
  obtain ⟨settings, ofSurroundings, asked⟩ := asked_surroundings sane
  have after := asked.applied precedes.accepted
  rw [request, ofSurroundings, precedes.arguments]
  dsimp only
  rw [judge_directives asked.threshold precedes.accepted]
  exact judge_of_decides after.threshold decides _

theorem request_of_directives (sane : Sane surroundings) (precedes : Precedes args directives []) :
    ∃ settings, Asked surroundings directives settings ∧
      request surroundings args = .ok (.session settings (directives.filterMap path?)) := by
  obtain ⟨settings, ofSurroundings, asked⟩ := asked_surroundings sane
  have after := asked.applied precedes.accepted
  rw [List.nil_append] at after
  refine ⟨_, after, ?_⟩
  rw [request, ofSurroundings, precedes.arguments]
  dsimp only
  rw [judge_directives asked.threshold precedes.accepted, judge, List.append_nil,
    List.reverse_reverse]

end ArenaLisp.CommandLine
