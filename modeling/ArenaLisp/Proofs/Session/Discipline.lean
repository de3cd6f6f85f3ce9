import ArenaLisp.Proofs.Session.Notes
import ArenaLisp.Proofs.Session.Spelling
import ArenaLisp.Proofs.Text.Lines

/-!
# The discipline of transcripts

Prompts, results and diagnostics begin where a line begins, whatever was echoed before them. A blank
line follows a result, and none a diagnostic. A session shows one thing after each prompt but the last,
and ends with the end of a line (`run_disciplined`), even if it is interrupted again and again
(`Sitting.disciplined`).
-/

namespace ArenaLisp

/-- The number of cells that neither the truth value nor the global environment leads to. -/
noncomputable def Machine.unreached (m : Machine) : Nat :=
  m.arena.capacity - {id | m.arena.ReachedFrom [m.tee, m.globe] id}.ncard

/-- What is asked of a piece of a transcript, with all that was written before it and all that is written
after it. -/
def Note.Proper (settings : Settings) (before : List Byte) (piece : Note) (after : List Byte) :
    Prop :=
  match piece.kind with
  | .banner =>
    before = [] ∧ piece.written =
      if settings.banner then Utf8.encode Settings.bannerText ++ [Byte.newline] else []
  | .prompt =>
    AtLineStart before ∧ piece.written = promptOf settings.freespace piece.machine.unreached
  | .echo =>
    ∃ taken later, piece.machine.console.pending = taken ++ later ∧
      piece.written = echoOf settings.echo taken
  | .lineEnd => ∃ lines, piece.written = List.replicate lines Byte.newline
  | .result text =>
    AtLineStart before ∧ piece.written = Utf8.encode text ∧ piece.written ≠ [] ∧
      Byte.newline ∉ piece.written ∧ EndsLines 2 after
  | .diagnostic fault =>
    AtLineStart before ∧ piece.written = Utf8.encode (Shown.diagnostic fault).line ∧
      piece.written.getLast? ≠ some Byte.newline ∧ EndsLines 1 after

def Note.isPrompt (piece : Note) : Bool :=
  piece.kind matches .prompt

def Note.isResult (piece : Note) : Bool :=
  piece.kind matches .result _

def Note.isDiagnostic (piece : Note) : Bool :=
  piece.kind matches .diagnostic _

/-- The discipline of a transcript that was written to a new console. -/
structure Disciplined (settings : Settings) (notes : List Note) (n : Machine) : Prop where
  output : n.console.output.toList = transcriptOf notes
  proper : ∀ before piece after, notes = before ++ piece :: after →
    piece.machine.console.output.toList = transcriptOf before ∧
      piece.Proper settings (transcriptOf before) (transcriptOf after)
  prompts : notes.countP Note.isPrompt =
    notes.countP Note.isResult + notes.countP Note.isDiagnostic + 1
  ends : n.console.output.toList.getLast? = some Byte.newline

/-! ### Records -/

/-- Proper notes of all that is written on the way from one output to another, with some characters after
them. -/
inductive Recorded (settings : Settings) (after : List Byte) :
    List Byte → List Note → List Byte → Prop where
  | done (output : List Byte) : Recorded settings after output [] output
  | note {m n : Machine} {kind : Note.Kind} {notes : List Note} {taken written output : List Byte} :
    m.console.Goes taken written n.console →
    Note.Proper settings m.console.output.toList ⟨kind, m, written⟩ (transcriptOf notes ++ after) →
    Recorded settings after n.console.output.toList notes output →
    Recorded settings after m.console.output.toList (.between m n kind :: notes) output

variable {settings : Settings} {before middle after output : List Byte} {notes more : List Note}

theorem transcriptOf_cons (piece : Note) (notes : List Note) :
    transcriptOf (piece :: notes) = piece.written ++ transcriptOf notes := rfl

theorem transcriptOf_append (notes more : List Note) :
    transcriptOf (notes ++ more) = transcriptOf notes ++ transcriptOf more :=
  List.flatMap_append

namespace Recorded

theorem append (first : Recorded settings (transcriptOf more ++ after) before notes middle)
    (next : Recorded settings after middle more output) :
    Recorded settings after before (notes ++ more) output := by
  induction first with
  | done => exact next
  | note goes proper _ ih =>
    rw [← List.append_assoc, ← transcriptOf_append] at proper
    exact .note goes proper (ih next)

theorem output_eq (recorded : Recorded settings after before notes output) :
    output = before ++ transcriptOf notes := by
  induction recorded with
  | done => exact (List.append_nil _).symm
  | note goes _ _ ih =>
    rw [ih, transcriptOf_cons, Note.between_eq goes, goes.output, List.append_assoc]

theorem proper (recorded : Recorded settings after before notes output) {earlier later : List Note}
    {piece : Note} (is : notes = earlier ++ piece :: later) :
    piece.machine.console.output.toList = before ++ transcriptOf earlier ∧
      piece.Proper settings (before ++ transcriptOf earlier) (transcriptOf later ++ after) := by
  induction recorded generalizing earlier with
  | done => simp at is
  | @note m n kind notes taken written output goes proper _ ih =>
    rw [Note.between_eq goes] at is
    -- the piece is this one, or one of the rest
    rcases earlier with _ | ⟨first, earlier⟩
    · obtain ⟨rfl, rfl⟩ := List.cons.inj is
      rw [show transcriptOf [] = [] from rfl, List.append_nil]
      exact ⟨rfl, proper⟩
    · obtain ⟨rfl, same⟩ := List.cons.inj is
      rw [transcriptOf_cons, ← List.append_assoc, ← goes.output]
      exact ih same

end Recorded

/-- Something else than the end of a line follows, if anything does. -/
def Resumes (later : List Byte) : Prop :=
  later.head? ≠ some Byte.newline

theorem Resumes.endsLines {later : List Byte} (resumes : Resumes later) (lines : Nat) :
    EndsLines lines (List.replicate lines Byte.newline ++ later) :=
  ⟨later, rfl, resumes⟩

theorem resumes_promptOf (freespace : Bool) (free : Nat) (later : List Byte) :
    Resumes (promptOf freespace free ++ later) := by
  have plain : Byte.newline ∉ promptOf freespace free := by
    unfold promptOf
    refine fun member => (List.mem_append.1 member).elim ?_ (by decide)
    cases freespace with
    | true => exact newline_notMem_encode_toString free
    | false => exact List.not_mem_nil
  have some : promptOf freespace free ≠ [] := by
    unfold promptOf
    exact List.append_ne_nil_of_right_ne_nil _ (by decide)
  obtain ⟨b, rest, is⟩ := List.exists_cons_of_ne_nil some
  rw [is] at plain ⊢
  rintro first
  cases first
  exact plain List.mem_cons_self

namespace Lisp

variable {m n k p : Machine} {held : Set Value} {fuel : Nat} {outcome : Except Fault Value}

/-! ### The pieces of a turn -/

/-- After the collection that opens a turn, the cells that are free are those that neither the truth
value nor the global environment leads to. -/
theorem unreached_collect (ready : m.Ready held) (empty : m.stack = .nil) :
    (m.collect .nil .nil).arena.freeCount = (m.collect .nil .nil).unreached := by
  have exact := m.collect_exact .nil .nil ready.sound.arena.plain fun _ =>
    ready.sound.taken_of_reachable (Arena.live_nil _) (Arena.live_nil _)
  have roots : ∀ id, m.Reachable .nil .nil id ↔ m.arena.ReachedFrom [m.tee, m.globe] id := by
    intro id
    have nowhere : ¬ m.arena.Reaches .nil id := by
      rintro path
      cases path
    simp [Machine.Reachable, Arena.ReachedFrom, empty, nowhere]
  have same : ∀ id, (m.collect .nil .nil).arena.ReachedFrom [m.tee, m.globe] id ↔
      m.Reachable .nil .nil id := fun id =>
    (Arena.reachedFrom_congr fun id reached => exact.kept id ((roots id).2 reached)).trans
      (roots id).symm
  rw [exact.count, Machine.unreached, (m.registers_collect .nil .nil).1,
    (m.registers_collect .nil .nil).2.1, Machine.arena_collect, Arena.capacity_collect,
    ← Machine.arena_collect]
  simp only [same]

theorem faithful_receive (ran : receive m = some (outcome, k)) (faithful : m.console.Faithful) :
    k.console.Faithful := by
  have read := faithful.read m.arena
  rw [receive, bind_apply, read_apply] at ran
  rcases found : (m.console.read m.arena).1 with fault | form
  · rw [found] at ran
    cases ran
    exact read
  · rw [found] at ran
    rw [((discreet_protect form).bind fun _ => .pure form).kept ran |>.1]
    exact read

theorem faithful_prompt (faithful : m.console.Faithful) : m.prompt.console.Faithful := by
  rcases m with ⟨arena, console, settings, globe, stack, tee, interrupted, collections⟩
  unfold Machine.prompt
  dsimp only
  split
  · exact (faithful.putText _).putText _
  · exact faithful.putText _

/-- A machine at which a turn of a session with some settings begins, where a line begins. -/
structure Opens (settings : Settings) (m : Machine) : Prop where
  session : Session m
  spoken : Spoken m
  under : m.settings = settings
  echo : m.console.echo = settings.echo
  faithful : m.console.Faithful
  fresh : m.console.lastWritten = Byte.newline

theorem recorded_asking (opens : Opens settings m)
    (received : receive (m.collect .nil .nil).prompt = some (outcome, k))
    (rest : Recorded settings after k.console.output.toList notes output) :
    Recorded settings after m.console.output.toList (asking m k ++ notes) output := by
  obtain ⟨ready, empty⟩ := opens.session.ready
  obtain ⟨⟨taken, copies⟩, -⟩ := receive_copies received
  have prompted := (m.collect .nil .nil).goes_prompt
  have echo : (m.collect .nil .nil).prompt.console.echo = settings.echo :=
    prompted.echo.trans opens.echo
  have collected : (m.collect .nil .nil).settings = settings := opens.under
  rw [collected, unreached_collect ready empty] at prompted
  rw [echo] at copies
  exact .note prompted ⟨opens.faithful.atLineStart opens.fresh, rfl⟩
    (.note copies ⟨taken, _, copies.pending, rfl⟩ rest)

theorem recorded_freshLine (fresh : n.console = m.console.freshLine)
    (rest : Recorded settings after n.console.output.toList notes output) :
    Recorded settings after m.console.output.toList (.between m n .lineEnd :: notes) output := by
  obtain ⟨blank, ends, goes⟩ := m.console.goes_freshLine
  rw [← fresh] at goes
  refine .note goes ?_ rest
  obtain rfl | rfl := ends
  · exact ⟨0, rfl⟩
  · exact ⟨1, rfl⟩

theorem recorded_complaining {fault : Fault} (faithful : m.console.Faithful)
    (mild : fault.isFatal = false) (resumes : Resumes after) :
    Recorded settings after m.console.output.toList (complaining m fault)
      (m.reported fault).console.output.toList := by
  let begun := { m with stack := .nil, console := m.console.freshLine }
  let shown := { begun with
    console := (begun.console.putText "ERROR: ").putText fault.message }
  have line : begun.console.Goes [] (Utf8.encode (Shown.diagnostic fault).line) shown.console := by
    rw [Shown.line, Utf8.encode_append]
    exact (Console.goes_putText _ "ERROR: ").write (Console.goes_putText _ fault.message)
  have ended : shown.console.Goes [] [Byte.newline] (m.reported fault).console :=
    Console.goes_endLine _
  obtain ⟨b, other, last⟩ := (Fault.endsInLine_message mild).append "ERROR: "
  have lineEnd : Recorded settings after shown.console.output.toList
      [.between shown (m.reported fault) .lineEnd] (m.reported fault).console.output.toList :=
    .note ended ⟨1, rfl⟩ (.done _)
  have ends : EndsLines 1 (transcriptOf [.between shown (m.reported fault) .lineEnd] ++ after) := by
    rw [transcriptOf_cons, Note.between_eq ended]
    exact resumes.endsLines 1
  have start := faithful.freshLine.atLineStart (Console.lastWritten_freshLine _)
  have inside : (Utf8.encode (Shown.diagnostic fault).line).getLast? ≠ some Byte.newline :=
    fun is => other (Option.some.inj (last.symm.trans is))
  exact recorded_freshLine (m := { m with stack := .nil }) (n := begun) rfl
    (.note line ⟨start, rfl, inside, ends⟩ lineEnd)

/-- A result ends inside a line, so the line ends after it, and then a blank one. -/
theorem recorded_concluding {text : String} (faithful : m.console.Faithful)
    (some : Utf8.encode text ≠ []) (plain : Byte.newline ∉ Utf8.encode text)
    (resumes : Resumes after) :
    Recorded settings after m.console.output.toList (concluding m text)
      (m.concluded text).console.output.toList := by
  let begun := { m with console := m.console.freshLine }
  let shown := { begun with console := begun.console.putText text }
  let kept := { shown with stack := m.arena.cdr m.stack }
  have inside : kept.console.lastWritten ≠ Byte.newline := by
    have last := Console.lastWritten_putBytes begun.console (Utf8.encode text)
    rw [List.getLast?_eq_some_getLast some, Option.getD_some] at last
    intro ended
    exact plain (ended ▸ last ▸ List.getLast_mem some)
  have ended : kept.console.Goes [] [Byte.newline, Byte.newline] (m.concluded text).console := by
    have fresh : kept.console.freshLine = kept.console.endLine := if_neg inside
    have both := (Console.goes_endLine kept.console).write (Console.goes_endLine _)
    rw [← fresh] at both
    exact both
  have line : begun.console.Goes [] (Utf8.encode text) shown.console := Console.goes_putText _ text
  have lineEnd : Recorded settings after shown.console.output.toList
      [.between kept (m.concluded text) .lineEnd] (m.concluded text).console.output.toList :=
    .note ended ⟨2, rfl⟩ (.done _)
  have ends : EndsLines 2 (transcriptOf [.between kept (m.concluded text) .lineEnd] ++ after) := by
    rw [transcriptOf_cons, Note.between_eq ended]
    exact resumes.endsLines 2
  have start := faithful.freshLine.atLineStart (Console.lastWritten_freshLine _)
  exact recorded_freshLine (n := begun) rfl
    (.note line ⟨start, rfl, some, plain, ends⟩ lineEnd)

/-! ### Turns -/

/-- What a turn adds to a transcript. -/
structure Page (settings : Settings) (m : Machine) (again : Bool) (page : List Note) (n : Machine) :
    Prop where
  recorded : ∀ after, (again = true → Resumes after) →
    Recorded settings after m.console.output.toList page n.console.output.toList
  resumes : ∀ after, Resumes (transcriptOf page ++ after)
  prompts : page.countP Note.isPrompt = 1
  shown : page.countP Note.isResult + page.countP Note.isDiagnostic = again.toNat
  faithful : n.console.Faithful
  fresh : again = true → n.console.lastWritten = Byte.newline

theorem resumes_asking (m k : Machine) (notes : List Note) (after : List Byte) :
    Resumes (transcriptOf (asking m k ++ notes) ++ after) := by
  have prompted := (m.collect .nil .nil).goes_prompt
  rw [asking, List.cons_append, transcriptOf_cons, Note.between_eq prompted, List.append_assoc]
  exact resumes_promptOf _ _ _

theorem page_turnTold {again : Except Fault Bool} {later : List Note} (opens : Opens settings m)
    (ran : turnTold fuel (m, notes) = some (again, n, later)) :
    ∃ goesOn page, again = .ok goesOn ∧ later = notes ++ page ∧ Page settings m goesOn page n := by
  obtain ⟨ready, empty⟩ := opens.session.ready
  have paged := paged_turnTold ready rfl fuel notes
  have prompted : (m.collect .nil .nil).prompt.console.Faithful := faithful_prompt opens.faithful
  rw [ran] at paged
  cases paged with
  | ended received =>
    refine ⟨false, _, rfl, rfl, fun after _ => ?_, ?_, rfl, rfl, ?_, nofun⟩
    · rw [← List.append_nil (asking m n)]
      exact recorded_asking opens received (.done _)
    · exact resumes_asking m n []
    · exact faithful_receive received prompted
  | @unread fault k received mild =>
    have faithful := faithful_receive received prompted
    refine ⟨true, _, rfl, rfl, fun after resumes => ?_, resumes_asking m k _, rfl, rfl,
      Console.faithful_put _ _, fun _ => rfl⟩
    exact recorded_asking opens received (recorded_complaining faithful mild (resumes rfl))
  | @stopped form fault k p received evaluated mild =>
    -- the evaluation writes nothing, so the line that was begun for it is still empty
    have same := ((discreet_eval fuel form .nil).kept evaluated).1
    have faithful : p.console.Faithful := by
      rw [same]
      exact (faithful_receive received prompted).freshLine
    refine ⟨true, _, rfl, rfl, fun after resumes => ?_, resumes_asking m k _, rfl, rfl,
      Console.faithful_put _ _, fun _ => rfl⟩
    refine recorded_asking opens received (recorded_freshLine rfl ?_)
    rw [← same]
    exact recorded_complaining faithful mild (resumes rfl)
  | @answered form v text k p received evaluated printed =>
    have same := ((discreet_eval fuel form .nil).kept evaluated).1
    have faithful : p.console.Faithful := by
      rw [same]
      exact (faithful_receive received prompted).freshLine
    obtain ⟨t, unfolds, rfl⟩ := Arena.unfolds_of_print printed
    obtain ⟨legible, -⟩ := opens.spoken.presents ⟨form, k, received, evaluated⟩ unfolds
    have some : Utf8.encode t.text ≠ [] := t.encode_text ▸ Sexp.bytes_ne_nil legible
    have plain : Byte.newline ∉ Utf8.encode t.text :=
      t.encode_text ▸ (Sexp.newline_notMem_bytes legible).1
    refine ⟨true, _, rfl, rfl, fun after resumes => ?_, resumes_asking m k _, rfl, rfl,
      Console.faithful_put _ _, fun _ => rfl⟩
    refine recorded_asking opens received (recorded_freshLine rfl ?_)
    rw [← same]
    exact recorded_concluding faithful some plain (resumes rfl)

/-! ### Sessions -/

theorem tells_turn {again : Bool} (ready : m.Ready held) (nil : .nil ∈ held)
    (ran : turn fuel m = some (.ok again, n)) : ∃ shown, shown.isSome = again ∧ Tells m shown n := by
  rw [turn_eq_showing, map_eq_pure_bind, bind_apply] at ran
  rcases showing : turnShowing fuel m with _ | ⟨fault | shown, k⟩
  · rw [showing] at ran
    cases ran
  · rw [showing] at ran
    cases ran
  · rw [showing] at ran
    cases ran
    exact ⟨shown, rfl, tells_turnShowing ready nil showing⟩

theorem turn_of_turnTold {again : Except Fault Bool} {later : List Note}
    (ran : turnTold fuel (m, notes) = some (again, n, later)) : turn fuel m = some (again, n) := by
  rw [← erases_turnTold fuel (m, notes), ran]
  rfl

theorem Opens.next {page : List Note} (opens : Opens settings m)
    (turned : turn fuel m = some (.ok true, n)) (filled : Page settings m true page n) :
    Opens settings n ∧ n.console.unread.length < m.console.unread.length := by
  obtain ⟨shown, again, ⟨taken, written, -, goes⟩, same, takes⟩ :=
    tells_turn opens.session.ready.1 rfl turned
  refine ⟨⟨opens.session.next turned, opens.spoken.turn turned, same.trans opens.under,
    goes.echo.trans opens.echo, filled.faithful, filled.fresh rfl⟩, ?_⟩
  rwa [if_neg (Option.isSome_iff_ne_none.1 again)] at takes

/-- What turns that come to the end of the input add to a transcript. -/
structure Pages (settings : Settings) (m : Machine) (pages : List Note) (n : Machine) : Prop where
  recorded : ∀ after, Recorded settings after m.console.output.toList pages n.console.output.toList
  resumes : ∀ after, Resumes (transcriptOf pages ++ after)
  prompts : pages.countP Note.isPrompt =
    pages.countP Note.isResult + pages.countP Note.isDiagnostic + 1
  faithful : n.console.Faithful

theorem Page.last {page : List Note} (filled : Page settings m false page n) :
    Pages settings m page n where
  recorded after := filled.recorded after nofun
  resumes := filled.resumes
  prompts := by rw [filled.prompts, filled.shown, Bool.toNat_false]
  faithful := filled.faithful

theorem Page.append {page pages : List Note} (first : Page settings m true page n)
    (rest : Pages settings n pages k) : Pages settings m (page ++ pages) k where
  recorded after := (first.recorded _ fun _ => rest.resumes after).append (rest.recorded after)
  resumes after := by
    rw [transcriptOf_append, List.append_assoc]
    exact first.resumes _
  prompts := by
    have shown := first.shown
    have prompts := rest.prompts
    rw [Bool.toNat_true] at shown
    simp only [List.countP_append, first.prompts]
    omega
  faithful := rest.faithful

/-- The turns of a session up to the end of the input, with the notes of them. The flag may be raised
before any of them. -/
inductive Sitting : Machine → List Note → Machine → Prop where
  | last {fuel : Nat} {m n : Machine} {notes page : List Note} :
    turnTold fuel (m, notes) = some (.ok false, n, notes ++ page) → Sitting m page n
  | next {fuel : Nat} {m k n : Machine} {notes page pages : List Note} :
    turnTold fuel (m, notes) = some (.ok true, k, notes ++ page) → Sitting k pages n →
    Sitting m (page ++ pages) n
  | raise {m n : Machine} {pages : List Note} :
    Sitting { m with interrupted := true } pages n → Sitting m pages n

theorem Opens.raise (opens : Opens settings m) : Opens settings { m with interrupted := true } := by
  have raised : Call.interrupt.perform 0 m = some (.ok none, { m with interrupted := true }) := rfl
  have spoken : Spoken { m with interrupted := true } := .call opens.spoken (by simp) raised
  exact ⟨.raise opens.session, spoken, opens.under, opens.echo, opens.faithful, opens.fresh⟩

theorem Sitting.pages {pages : List Note} (sitting : Sitting m pages n)
    (opens : Opens settings m) : Pages settings m pages n := by
  induction sitting with
  | last turned =>
    obtain ⟨_, page, ⟨⟩, is, filled⟩ := page_turnTold opens turned
    cases List.append_cancel_left is
    exact filled.last
  | next turned _ ih =>
    obtain ⟨_, page, ⟨⟩, is, filled⟩ := page_turnTold opens turned
    cases List.append_cancel_left is
    exact filled.append (ih (opens.next (turn_of_turnTold turned) filled).1)
  | raise _ ih =>
    have pages := ih opens.raise
    exact ⟨pages.recorded, pages.resumes, pages.prompts, pages.faithful⟩

theorem sitting_turnsTold {limit : Nat} {outcome : Except Fault Unit} {later : List Note}
    (opens : Opens settings m) (enough : m.console.unread.length < limit)
    (ran : turnsTold fuel limit (m, notes) = some (outcome, n, later)) :
    outcome = .ok () ∧ ∃ pages, later = notes ++ pages ∧ Sitting m pages n := by
  -- each turn takes a character, so the input ends before the number of turns is up
  induction limit generalizing m notes with
  | zero => omega
  | succ limit ih =>
    rw [turnsTold, bind_apply] at ran
    rcases turned : turnTold fuel (m, notes) with _ | ⟨again, k, middle⟩
    · rw [turned] at ran
      cases ran
    · rw [turned] at ran
      obtain ⟨goesOn, page, rfl, rfl, filled⟩ := page_turnTold opens turned
      cases goesOn with
      | false =>
        cases ran
        exact ⟨rfl, page, rfl, .last turned⟩
      | true =>
        obtain ⟨opens', shorter⟩ := opens.next (turn_of_turnTold turned) filled
        obtain ⟨ok, pages, rfl, rest⟩ := ih opens' (by omega) ran
        exact ⟨ok, page ++ pages, List.append_assoc .., .next turned rest⟩

theorem opens_new {input : List Byte} (made : Machine.new settings (.ofBytes input) = .ok m) :
    m.console.output = #[] ∧ m.interrupted = false ∧ Opens settings m.greet := by
  have fields : m.console = { Console.ofBytes input with echo := settings.echo } ∧
      m.settings = settings ∧ m.interrupted = false := by
    unfold Machine.new at made
    split at made
    · cases made
    · cases made
      exact ⟨rfl, rfl, rfl⟩
  obtain ⟨console, under, lowered⟩ := fields
  have faithful : m.console.Faithful := by
    rw [console]
    rfl
  have greeted : m.greet.console.Faithful ∧ m.greet.console.lastWritten = Byte.newline := by
    rcases m with ⟨arena, console', settings', globe, stack, tee, interrupted, collections⟩
    unfold Machine.greet
    dsimp only
    split
    · exact ⟨Console.faithful_put _ _, rfl⟩
    · exact ⟨faithful, congrArg Console.lastWritten console⟩
  have echo : m.greet.console.echo = settings.echo :=
    (Machine.goes_greet m).echo.trans (congrArg Console.echo console)
  refine ⟨congrArg Console.output console, lowered, ?_⟩
  exact ⟨.start (.start made) (Machine.registers_new made).2, .console (.start made), under, echo,
    greeted.1, greeted.2⟩

theorem runTold_apply (fuel : Nat) (m : Machine) (notes : List Note) :
    runTold fuel (m, notes) =
      match turnsTold fuel (m.greet.console.unread.length + 1)
        (m.greet, notes ++ [.between m m.greet .banner]) with
      | none => none
      | some (.ok (), k, later) => some (.ok (), { k with console := k.console.freshLine },
          later ++ [.between k { k with console := k.console.freshLine } .lineEnd])
      | some (.error fault, s) => some (.error fault, s) := by
  have greeted : noting .banner (modify Machine.greet) (m, notes) =
    some (.ok (), m.greet, notes ++ [.between m m.greet .banner]) := rfl
  have counted : ∀ later, quietly rounds (m.greet, later) =
    some (.ok (m.greet.console.unread.length + 1), m.greet, later) := fun _ => rfl
  simp only [runTold, bind_apply, greeted, counted]
  rcases turnsTold fuel (m.greet.console.unread.length + 1) _ with _ | ⟨_ | _, _, _⟩ <;> rfl

/-- A session keeps to the discipline, before any of whose turns the flag may be raised. The pages stand
between the banner and the end of the last line. -/
theorem Sitting.disciplined {pages : List Note} (empty : m.console.output = #[])
    (opens : Opens settings m.greet) (sitting : Sitting m.greet pages k)
    (fresh : n.console = k.console.freshLine) :
    Disciplined settings (.between m m.greet .banner :: (pages ++ [.between k n .lineEnd])) n := by
  have filled := sitting.pages opens
  have under : m.settings = settings := opens.under
  have none : m.console.output.toList = [] := congrArg Array.toList empty
  have greeted := m.goes_greet
  rw [under] at greeted
  have recorded : Recorded settings [] m.console.output.toList
      (.between m m.greet .banner :: (pages ++ [.between k n .lineEnd])) n.console.output.toList :=
    .note greeted ⟨none, rfl⟩ ((filled.recorded _).append (recorded_freshLine fresh (.done _)))
  have whole := recorded.output_eq
  rw [none, List.nil_append] at whole
  refine ⟨whole, fun before piece after is => ?_, ?_, ?_⟩
  · have proper := recorded.proper is
    rwa [none, List.nil_append, List.append_nil] at proper
  · simp only [List.countP_cons, List.countP_append, List.countP_nil, filled.prompts]
    rfl
  · have start : AtLineStart n.console.output.toList := by
      rw [fresh]
      exact filled.faithful.freshLine.atLineStart (Console.lastWritten_freshLine _)
    -- at least the first prompt was written
    refine start.resolve_left fun blank => ?_
    rw [blank, transcriptOf_cons, transcriptOf_append] at whole
    have resumes := filled.resumes [Byte.newline]
    rw [(List.append_eq_nil_iff.1 (List.append_eq_nil_iff.1 whole.symm).2).1] at resumes
    exact resumes rfl

/-- A session of a new machine that comes to an end does so without a fault, whether the flag is up when
it begins or not. There are notes of all that it wrote, and they keep to the discipline. -/
theorem run_disciplined {input : List Byte} {up : Bool} {outcome : Except Fault Unit}
    (made : Machine.new settings (.ofBytes input) = .ok m)
    (ran : run fuel { m with interrupted := up } = some (outcome, n)) :
    outcome = .ok () ∧ ∃ notes,
      runTold fuel ({ m with interrupted := up }, []) = some (.ok (), n, notes) ∧
        Disciplined settings notes n := by
  obtain ⟨empty, lowered, opens⟩ := opens_new made
  let flagged := { m with interrupted := up }
  have opens' : Opens settings flagged.greet := by
    cases up with
    | true => exact opens.raise
    | false =>
      have same : flagged = m := by
        show { m with interrupted := false } = m
        rw [← lowered]
      rwa [same]
  rw [← erases_runTold fuel (flagged, [])] at ran
  obtain ⟨⟨outcome', n', notes⟩, told, is⟩ := Option.map_eq_some_iff.1 ran
  cases is
  have whole := told
  rw [runTold_apply] at whole
  rcases turned : turnsTold fuel (flagged.greet.console.unread.length + 1)
    (flagged.greet, [] ++ [.between flagged flagged.greet .banner]) with _ | ⟨result, k, later⟩
  · rw [turned] at whole
    cases whole
  · obtain ⟨rfl, pages, rfl, sitting⟩ := sitting_turnsTold opens' (Nat.lt_succ_self _) turned
    rw [turned] at whole
    cases whole
    exact ⟨rfl, _, told, sitting.disciplined empty opens' rfl⟩

/-- What a session on a text writes that echoes the text. -/
def shownFor (text : String) : Option (List Byte) :=
  match Machine.new { workspace := 31, threshold := 12, echo := true } (.ofText text) with
  | .ok m => (run 8 m).map fun after => after.2.console.output.toList
  | .error _ => none

/-- A result, a diagnostic and an expression without an end. -/
theorem run_disciplined_unfinished : ∃ (m n : Machine) (notes : List Note),
    run 8 m = some (.ok (), n) ∧
      Disciplined { workspace := 31, threshold := 12, echo := true } notes n ∧
      transcriptOf notes =
        Utf8.encode "ULISP ZERO 1.1\n30> 'A \nA\n\n30> B \nERROR: 'B' UNDEFINED\n30> (\n" := by
  have shown : shownFor "'A B (" = some
      (Utf8.encode "ULISP ZERO 1.1\n30> 'A \nA\n\n30> B \nERROR: 'B' UNDEFINED\n30> (\n") := by
    decide +kernel
  unfold shownFor at shown
  split at shown
  · rename_i m new
    obtain ⟨⟨outcome, n⟩, ran, output⟩ := Option.map_eq_some_iff.1 shown
    obtain ⟨rfl, notes, -, disciplined⟩ := run_disciplined new ran
    exact ⟨m, n, notes, ran, disciplined, disciplined.output.symm.trans output⟩
  · cases shown

end Lisp

end ArenaLisp
