import ArenaLisp.Proofs.Session.Cycles
import ArenaLisp.Proofs.Session.Likeness
import ArenaLisp.Proofs.Text.Output

/-!
# What a session shows

`runShowing` is `run` with an account of the results and diagnostics that it writes
(`run_eq_showing`). Each of them stands on a line of its own in what is written, and all else there
is banner, prompts and the echo of the input (`transcribes_runShowing`).
-/

namespace ArenaLisp

/-- What a session shows for an expression. -/
inductive Shown where
  | result (text : String)
  | diagnostic (fault : Fault)
  deriving DecidableEq

/-- The line that shows it. -/
def Shown.line : Shown → String
  | .result text => text
  | .diagnostic fault => "ERROR: " ++ fault.message

/-! ### Transcripts -/

/-- A prompt, with a number of free cells if it is asked for. -/
def promptOf (freespace : Bool) (free : Nat) : List Byte :=
  Utf8.encode (if freespace then toString free else "") ++ Utf8.encode "> "

/-- What is written in a turn that takes some characters: the prompt, their echo, and a line that
shows something, unless the input ends. -/
inductive Says (echo freespace : Bool) : Option Shown → List Byte → List Byte → Prop where
  | ended (free : Nat) (taken : List Byte) :
    Says echo freespace none taken (promptOf freespace free ++ echoOf echo taken)
  | shows {blank blank' : List Byte} (free : Nat) (taken : List Byte) (shown : Shown) :
    LineEnd blank → LineEnd blank' →
    Says echo freespace (some shown) taken (promptOf freespace free ++ echoOf echo taken ++ blank ++
      Utf8.encode shown.line ++ blank' ++ [Byte.newline])

/-- What is written in turns that take an input to its end. -/
inductive Transcript (echo freespace : Bool) : List Shown → List Byte → List Byte → Prop where
  | ended {input written : List Byte} : Says echo freespace none input written →
    Transcript echo freespace [] input written
  | shows {shown : Shown} {later : List Shown} {taken input written written' : List Byte} :
    Says echo freespace (some shown) taken written →
    Transcript echo freespace later input written' →
    Transcript echo freespace (shown :: later) (taken ++ input) (written ++ written')

/-- All that a session writes: the banner if it is asked for, what its turns write, and the end of
the last line. -/
def Transcribes (settings : Settings) (echo : Bool) (shown : List Shown)
    (input written : List Byte) : Prop :=
  ∃ turns blank, Transcript echo settings.freespace shown input turns ∧ LineEnd blank ∧
    written = (if settings.banner then Utf8.encode Settings.bannerText ++ [Byte.newline] else []) ++
      turns ++ blank

namespace Machine

/-- A machine after its session has shown a fault. -/
def reported (m : Machine) (fault : Fault) : Machine :=
  { m with
    stack := .nil
    console := ((m.console.freshLine.putText "ERROR: ").putText fault.message).endLine }

/-- A machine after its session has shown a result. -/
def concluded (m : Machine) (text : String) : Machine :=
  { m with
    stack := m.arena.cdr m.stack
    console := (m.console.freshLine.putText text).freshLine.endLine }

variable {m n : Machine}

@[simp]
theorem unread_prompt (m : Machine) : m.prompt.console.unread = m.console.unread := by
  rcases m with ⟨arena, console, settings, globe, stack, tee, interrupted, collections⟩
  show ((if settings.freespace then _ else console).putText "> ").unread = console.unread
  rw [Console.unread_putText]
  split
  · exact Console.unread_putText ..
  · rfl

theorem goes_prompt (m : Machine) : m.console.Goes []
    (promptOf m.settings.freespace m.arena.freeCount) m.prompt.console := by
  rcases m with ⟨arena, console, settings, globe, stack, tee, interrupted, collections⟩
  unfold prompt promptOf
  dsimp only
  split
  · exact (Console.goes_putText _ _).write (Console.goes_putText _ _)
  · exact Console.goes_putText _ _

theorem goes_greet (m : Machine) : m.console.Goes []
    (if m.settings.banner then Utf8.encode Settings.bannerText ++ [Byte.newline] else [])
    m.greet.console := by
  rcases m with ⟨arena, console, settings, globe, stack, tee, interrupted, collections⟩
  unfold greet
  dsimp only
  split
  · exact (Console.goes_putText _ _).write (Console.goes_endLine _)
  · exact .refl console

theorem reported_console (fault : Fault) (fresh : n.console = m.console.freshLine) :
    (n.reported fault).console = (m.reported fault).console := by
  rw [reported, reported, fresh, Console.freshLine_freshLine]

theorem concluded_console (text : String) (fresh : n.console = m.console.freshLine) :
    (n.concluded text).console = (m.concluded text).console := by
  rw [concluded, concluded, fresh, Console.freshLine_freshLine]

theorem unread_reported (m : Machine) (fault : Fault) :
    (m.reported fault).console.unread = m.console.unread := by
  simp [reported, Console.endLine]

theorem unread_concluded (m : Machine) (text : String) :
    (m.concluded text).console.unread = m.console.unread := by
  simp [concluded, Console.endLine]

theorem goes_reported (m : Machine) (fault : Fault) : ∃ blank, LineEnd blank ∧
    m.console.Goes [] (blank ++ Utf8.encode (Shown.diagnostic fault).line ++ [] ++ [Byte.newline])
      (m.reported fault).console := by
  obtain ⟨blank, ends, fresh⟩ := m.console.goes_freshLine
  have line := (fresh.write (Console.goes_putText _ "ERROR: ")).write
    (Console.goes_putText _ fault.message)
  rw [List.append_assoc, ← Utf8.encode_append] at line
  have ended := (line.write (.refl _)).write (Console.goes_endLine _)
  exact ⟨blank, ends, ended⟩

theorem goes_concluded (m : Machine) (text : String) : ∃ blank blank', LineEnd blank ∧
    LineEnd blank' ∧ m.console.Goes []
      (blank ++ Utf8.encode (Shown.result text).line ++ blank' ++ [Byte.newline])
      (m.concluded text).console := by
  obtain ⟨blank, ends, fresh⟩ := m.console.goes_freshLine
  have line := fresh.write (Console.goes_putText _ text)
  obtain ⟨blank', ends', fresh'⟩ := Console.goes_freshLine (m.console.freshLine.putText text)
  exact ⟨blank, blank', ends, ends', (line.write fresh').write (Console.goes_endLine _)⟩

end Machine

namespace Lisp

open Machine

/-! ### Sessions with an account of what they show -/

/-- Prints a value, lets go of the expression, and gives the text that was shown. -/
def concludeShowing (result : Value) : Lisp String := do
  write Console.freshLine
  let text ← print result
  write (·.putText text)
  unprotect
  write fun c => c.freshLine.endLine
  return text

/-- A cycle and the text of the result that it shows. -/
def cycleShowing (fuel : Nat) : Lisp String := do
  collect .nil .nil
  modify Machine.prompt
  let form ← receive
  write Console.freshLine
  let result ← eval fuel form .nil
  concludeShowing result

/-- A turn and what it shows. At the end of the input nothing is shown. -/
def turnShowing (fuel : Nat) : Lisp (Option Shown) :=
  tryCatch (do return some (.result (← cycleShowing fuel))) fun
    | .endOfInput => return none
    | fault =>
      if fault.isFatal then throw fault else do report fault; return some (.diagnostic fault)

/-- Turns, at most a given number of them, and all that they show. -/
def turnsShowing (fuel : Nat) : Nat → Lisp (List Shown)
  | 0 => return []
  | n + 1 => do
    match ← turnShowing fuel with
    | none => return []
    | some shown => return shown :: (← turnsShowing fuel n)

/-- A session and all that it shows. -/
def runShowing (fuel : Nat) : Lisp (List Shown) := do
  modify Machine.greet
  let shown ← turnsShowing fuel (← rounds)
  write Console.freshLine
  return shown

variable {m n k : Machine} {held : Set Value} {fuel : Nat} {form v : Value}
  {outcome : Except Fault Value}

theorem cycle_eq_showing (fuel : Nat) : cycle fuel = (fun _ => ()) <$> cycleShowing fuel := by
  simp only [cycle, cycleShowing, concludeShowing, receive, map_eq_pure_bind, bind_assoc, pure_bind,
    bind_pure_unit]

theorem turn_eq_showing (fuel : Nat) : turn fuel = Option.isSome <$> turnShowing fuel := by
  funext m
  rw [turn, turnShowing, cycle_eq_showing, map_eq_pure_bind, map_eq_pure_bind, tryCatch_apply,
    bind_apply, bind_apply, bind_apply, tryCatch_apply, bind_apply]
  rcases cycleShowing fuel m with _ | ⟨fault | text, n⟩
  · rfl
  · cases fault <;> rfl
  · rfl

theorem turns_eq_showing (fuel n : Nat) : turns fuel n = (fun _ => ()) <$> turnsShowing fuel n := by
  induction n with
  | zero => rfl
  | succ n ih =>
    rw [turns, turnsShowing, turn_eq_showing, ih]
    simp only [map_eq_pure_bind, bind_assoc, pure_bind]
    refine bind_congr fun shown => ?_
    cases shown with
    | none => rfl
    | some shown => simp

theorem run_eq_showing (fuel : Nat) : run fuel = (fun _ => ()) <$> runShowing fuel := by
  simp only [run, runShowing, turns_eq_showing, map_eq_pure_bind, bind_assoc, pure_bind,
    bind_pure_unit]

/-! ### Reading and protecting -/

theorem protect_fault {fault : Fault} (failed : protect v m = some (.error fault, k)) :
    fault.isFatal = false := by
  have mild := Storing.Mild.cons v m.stack m.arena
  unfold Storing.Ensures at mild
  have ran : protect v m = (store (Arena.cons v m.stack) >>= fun stack =>
      modify ({ · with stack })) m := rfl
  rw [ran, bind_apply, store_apply] at failed
  rcases taken : (Arena.cons v m.stack).run m.arena with ⟨fault' | stack, b⟩
  · rw [taken] at failed mild
    cases failed
    exact mild
  · rw [taken] at failed
    cases failed

theorem receive_fault {fault : Fault} (failed : receive m = some (.error fault, k)) :
    fault = .endOfInput ∨ fault.isFatal = false := by
  rw [receive, bind_apply, read_apply] at failed
  rcases found : (m.console.read m.arena).1 with fault' | form
  · rw [found] at failed
    cases failed
    exact Reading.fault_run found
  · rw [found] at failed
    dsimp only at failed
    rw [bind_apply] at failed
    rcases kept : protect form _ with _ | ⟨fault' | _, k'⟩
    · rw [kept] at failed
      cases failed
    · rw [kept] at failed
      cases failed
      exact .inr (protect_fault kept)
    · rw [kept] at failed
      cases failed

theorem receive_copies (ran : receive m = some (outcome, k)) :
    m.console.Copies k.console ∧ k.settings = m.settings := by
  have copies := Console.copies_read m.console m.arena
  rw [receive, bind_apply, read_apply] at ran
  rcases found : (m.console.read m.arena).1 with fault | form
  · rw [found] at ran
    cases ran
    exact ⟨copies, rfl⟩
  · rw [found] at ran
    obtain ⟨console, settings⟩ := ((discreet_protect form).bind fun _ => .pure form).kept ran
    exact ⟨console ▸ copies, settings⟩

theorem length_receive (ran : receive m = some (outcome, k))
    (found : outcome ≠ .error .endOfInput) :
    k.console.unread.length < m.console.unread.length := by
  rw [receive, bind_apply] at ran
  rcases got : read m with _ | ⟨fault | form, k'⟩
  · rw [got] at ran
    cases ran
  · rw [got] at ran
    cases ran
    exact length_read got found
  · rw [got] at ran
    rw [(((discreet_protect form).bind fun _ => .pure form).kept ran).1]
    exact length_read got (by simp)

theorem unread_of_end (ran : receive m = some (.error .endOfInput, k)) : k.console.unread = [] := by
  rw [receive, bind_apply, read_apply] at ran
  rcases found : (m.console.read m.arena).1 with fault | form
  · rw [found] at ran
    cases ran
    exact Reading.unread_run_of_end (Nat.lt_succ_self _) found
  · rw [found] at ran
    dsimp only at ran
    rw [bind_apply] at ran
    rcases kept : protect form _ with _ | ⟨fault | _, k'⟩
    · rw [kept] at ran
      cases ran
    · rw [kept] at ran
      cases ran
      cases protect_fault kept
    · rw [kept] at ran
      cases ran

/-! ### One turn -/

/-- What a turn does and shows, unless it does not end. -/
inductive Turned (fuel : Nat) (m : Machine) :
    Option (Except Fault (Option Shown) × Machine) → Prop where
  | ended {k : Machine} :
    receive (m.collect .nil .nil).prompt = some (.error .endOfInput, k) →
    Turned fuel m (some (.ok none, k))
  | unread {fault : Fault} {k : Machine} :
    receive (m.collect .nil .nil).prompt = some (.error fault, k) → fault.isFatal = false →
    Turned fuel m (some (.ok (some (.diagnostic fault)), k.reported fault))
  | stopped {form : Value} {fault : Fault} {k p : Machine} :
    receive (m.collect .nil .nil).prompt = some (.ok form, k) →
    eval fuel form .nil { k with console := k.console.freshLine } = some (.error fault, p) →
    Turned fuel m (some (.ok (some (.diagnostic fault)), p.reported fault))
  | answered {form v : Value} {text : String} {k p : Machine} :
    receive (m.collect .nil .nil).prompt = some (.ok form, k) →
    eval fuel form .nil { k with console := k.console.freshLine } = some (.ok v, p) →
    Turned fuel m (some (.ok (some (.result text)), p.concluded text))
  | endless : Turned fuel m none

theorem turnShowing_of_fault {fault : Fault} (ran : cycleShowing fuel m = some (.error fault, n))
    (mild : fault.isFatal = false) :
    turnShowing fuel m = some (.ok (some (.diagnostic fault)), n.reported fault) := by
  rw [turnShowing, tryCatch_apply, bind_apply, ran]
  cases fault with
  | endOfInput => cases mild
  | io => cases mild
  | _ => rfl

theorem concludeShowing_apply (v : Value) (n : Machine) :
    concludeShowing v n = match n.arena.print v with
      | none => none
      | some (.ok text) => some (.ok text, n.concluded text)
      | some (.error fault) => some (.error fault, { n with console := n.console.freshLine }) := by
  show (print v >>= _) { n with console := n.console.freshLine } = _
  rw [bind_apply, print, answer]
  dsimp only
  rcases n.arena.print v with _ | ⟨fault | text⟩ <;> rfl

theorem cycleShowing_of_received {k : Machine}
    (received : receive (m.collect .nil .nil).prompt = some (.ok form, k)) :
    cycleShowing fuel m = (eval fuel form .nil >>= concludeShowing)
      { k with console := k.console.freshLine } := by
  show (receive >>= fun form => do
    write Console.freshLine
    let result ← eval fuel form .nil
    concludeShowing result) (m.collect .nil .nil).prompt = _
  rw [bind_apply, received]
  rfl

theorem cycleShowing_of_unread {fault : Fault} {k : Machine}
    (unread : receive (m.collect .nil .nil).prompt = some (.error fault, k)) :
    cycleShowing fuel m = some (.error fault, k) := by
  show (receive >>= _) (m.collect .nil .nil).prompt = _
  rw [bind_apply, unread]

theorem cycleShowing_of_endless (never : cycle fuel m = none) : cycleShowing fuel m = none := by
  rw [cycle_eq_showing, map_eq_pure_bind, bind_apply] at never
  rcases ran : cycleShowing fuel m with _ | ⟨fault | text, k⟩
  · rfl
  · rw [ran] at never
    cases never
  · rw [ran] at never
    cases never

/-- What comes of a turn, whatever account is kept of it. -/
inductive Fate (fuel : Nat) (m : Machine) : Prop where
  | ended {k : Machine} :
    receive (m.collect .nil .nil).prompt = some (.error .endOfInput, k) → Fate fuel m
  | unread {fault : Fault} {k : Machine} :
    receive (m.collect .nil .nil).prompt = some (.error fault, k) → fault.isFatal = false →
    Fate fuel m
  | stopped {form : Value} {fault : Fault} {k p : Machine} :
    receive (m.collect .nil .nil).prompt = some (.ok form, k) →
    eval fuel form .nil { k with console := k.console.freshLine } = some (.error fault, p) →
    fault.isFatal = false → Fate fuel m
  | answered {form v : Value} {text : String} {k p : Machine} :
    receive (m.collect .nil .nil).prompt = some (.ok form, k) →
    eval fuel form .nil { k with console := k.console.freshLine } = some (.ok v, p) →
    p.arena.print v = some (.ok text) → Fate fuel m
  | endless : cycle fuel m = none → Fate fuel m

/-- No fault that ends a session is raised by an evaluation, and a value that it comes to can be
printed, unless it contains itself. -/
theorem fate (ready : m.Ready held) (nil : .nil ∈ held) (fuel : Nat) : Fate fuel m := by
  rcases got : receive (m.collect .nil .nil).prompt with _ | ⟨fault | form, k⟩
  · refine .endless ?_
    rw [cycle_eq]
    show (receive >>= respond fuel) (m.collect .nil .nil).prompt = _
    rw [bind_apply, got]
  · rcases receive_fault got with rfl | mild
    · exact .ended got
    · exact .unread got mild
  · obtain ⟨readyK, live⟩ := (ensures_receive (ready_prompt nil ready)).ok got
    have readyF := (readyK.goesOn_console k.console.freshLine).ready readyK
    have preserved := preserves_eval fuel readyF nil live
    rcases ran : eval fuel form .nil { k with console := k.console.freshLine } with
      _ | ⟨fault | v, p⟩
    · refine .endless ?_
      rw [cycle_of_received got, bind_apply, ran]
    · exact .stopped got ran (preserved.error ran).ordinary.2
    · obtain ⟨goesOn, liveV⟩ := preserved.ok ran
      rcases printed : p.arena.print v with _ | ⟨fault | text⟩
      · refine .endless ?_
        rw [cycle_of_received got, bind_apply, ran]
        show (print v >>= _) { p with console := p.console.freshLine } = none
        rw [bind_apply, print, answer]
        simp only [printed]
      · exact absurd printed (Arena.print_ne_error (goesOn.ready readyF).sound.arena liveV)
      · exact .answered got ran printed

theorem turned_turnShowing (ready : m.Ready held) (nil : .nil ∈ held) (fuel : Nat) :
    Turned fuel m (turnShowing fuel m) := by
  cases fate ready nil fuel with
  | ended received =>
    rw [turnShowing, tryCatch_apply, bind_apply, cycleShowing_of_unread received]
    exact .ended received
  | unread received mild =>
    rw [turnShowing_of_fault (cycleShowing_of_unread received) mild]
    exact .unread received mild
  | @stopped form fault k p received ran mild =>
    have cycled : cycleShowing fuel m = some (.error fault, p) := by
      rw [cycleShowing_of_received received, bind_apply, ran]
    rw [turnShowing_of_fault cycled mild]
    exact .stopped received ran
  | @answered form v text k p received ran printed =>
    have cycled : cycleShowing fuel m = some (.ok text, p.concluded text) := by
      rw [cycleShowing_of_received received, bind_apply, ran]
      dsimp only
      rw [concludeShowing_apply, printed]
    rw [turnShowing, tryCatch_apply, bind_apply, cycled]
    exact .answered received ran
  | endless never =>
    rw [turnShowing, tryCatch_apply, bind_apply, cycleShowing_of_endless never]
    exact .endless

/-! ### What turns write -/

/-- What a turn does to the console. -/
structure Tells (m : Machine) (shown : Option Shown) (n : Machine) : Prop where
  writes : ∃ taken written, Says m.console.echo m.settings.freespace shown taken written ∧
    m.console.Goes taken written n.console
  settings : n.settings = m.settings
  takes : if shown = none then n.console.unread = []
    else n.console.unread.length < m.console.unread.length

theorem asks (received : receive (m.collect .nil .nil).prompt = some (outcome, k)) :
    ∃ free taken, m.console.Goes taken
      (promptOf m.settings.freespace free ++ echoOf m.console.echo taken) k.console := by
  obtain ⟨⟨taken, copies⟩, -⟩ := receive_copies received
  have prompted : m.console.Goes [] _ (m.collect .nil .nil).prompt.console :=
    goes_prompt (m.collect .nil .nil)
  rw [prompted.echo] at copies
  exact ⟨_, taken, prompted.trans copies⟩

theorem tells_of_line {shown : Shown} {blank blank' : List Byte}
    (received : receive (m.collect .nil .nil).prompt = some (outcome, k))
    (found : outcome ≠ .error .endOfInput) (ends : LineEnd blank) (ends' : LineEnd blank')
    (line : k.console.Goes [] (blank ++ Utf8.encode shown.line ++ blank' ++ [Byte.newline])
      n.console)
    (settings : n.settings = k.settings) (unread : n.console.unread = k.console.unread) :
    Tells m (some shown) n := by
  obtain ⟨free, taken, asked⟩ := asks received
  refine ⟨⟨_, _, .shows free taken shown ends ends', ?_⟩, ?_, ?_⟩
  · simpa only [List.append_assoc] using asked.write line
  · exact settings.trans (receive_copies received).2
  · have shorter := length_receive received found
    rw [unread_prompt] at shorter
    rw [if_neg (by simp), unread]
    exact shorter

theorem tells_turnShowing {shown : Option Shown} (ready : m.Ready held) (nil : .nil ∈ held)
    (ran : turnShowing fuel m = some (.ok shown, n)) : Tells m shown n := by
  have turned := turned_turnShowing ready nil fuel
  rw [ran] at turned
  cases turned with
  | ended received =>
    obtain ⟨free, taken, asked⟩ := asks received
    exact ⟨⟨_, _, .ended free taken, asked⟩, (receive_copies received).2, unread_of_end received⟩
  | @unread fault k received mild =>
    obtain ⟨blank, ends, line⟩ := k.goes_reported fault
    refine tells_of_line received ?_ ends (.inl rfl) line rfl (unread_reported k fault)
    rintro ⟨⟩
    cases mild
  | @stopped form fault k p received evaluated =>
    obtain ⟨console, settings⟩ := (discreet_eval fuel form .nil).kept evaluated
    obtain ⟨blank, ends, line⟩ := k.goes_reported fault
    have same := reported_console fault console
    rw [← same] at line
    refine tells_of_line received (by simp) ends (.inl rfl) line settings ?_
    rw [same, unread_reported]
  | @answered form v text k p received evaluated =>
    obtain ⟨console, settings⟩ := (discreet_eval fuel form .nil).kept evaluated
    obtain ⟨blank, blank', ends, ends', line⟩ := k.goes_concluded text
    have same := concluded_console text console
    rw [← same] at line
    refine tells_of_line received (by simp) ends ends' line settings ?_
    rw [same, unread_concluded]

theorem turnsShowing_succ_apply (fuel limit : Nat) (m : Machine) :
    turnsShowing fuel (limit + 1) m = match turnShowing fuel m with
      | none => none
      | some (.ok none, k) => some (.ok [], k)
      | some (.ok (some shown), k) =>
        (turnsShowing fuel limit k).map fun after => (after.1.map (shown :: ·), after.2)
      | some (.error fault, k) => some (.error fault, k) := by
  rw [turnsShowing, bind_apply]
  rcases turnShowing fuel m with _ | ⟨fault | _ | shown, k⟩
  · rfl
  · rfl
  · rfl
  · dsimp only
    rw [bind_apply]
    rcases turnsShowing fuel limit k with _ | ⟨fault | rest, p⟩ <;> rfl

theorem ensures_turnShowing (nil : .nil ∈ held) (ready : m.Ready held) (fuel : Nat) :
    Ensures (turnShowing fuel) m (fun _ n => m.Settles held n) fun fault n =>
      fault ≠ .unprintable ∧ m.Settles held n := by
  have ensures := ensures_turn nil ready fuel
  rwa [turn_eq_showing, ensures_map] at ensures

theorem ready_turnShowing {shown : Option Shown} (nil : .nil ∈ held) (ready : m.Ready held)
    (ran : turnShowing fuel m = some (.ok shown, n)) : ∃ held', n.Ready held' ∧ .nil ∈ held' := by
  rcases (ensures_turnShowing nil ready fuel).ok ran with goesOn | ⟨ready', -⟩
  · exact ⟨held, goesOn.ready ready, nil⟩
  · exact ⟨{.nil}, ready', rfl⟩

theorem turnsShowing_ok {limit : Nat} {outcome : Except Fault (List Shown)} (ready : m.Ready held)
    (nil : .nil ∈ held) (ran : turnsShowing fuel limit m = some (outcome, n)) :
    ∃ shown, outcome = .ok shown := by
  induction limit generalizing m held outcome with
  | zero =>
    cases ran
    exact ⟨[], rfl⟩
  | succ limit ih =>
    have turned := turned_turnShowing ready nil fuel
    rw [turnsShowing_succ_apply] at ran
    rcases turn : turnShowing fuel m with _ | ⟨fault | _ | first, k⟩
    · rw [turn] at ran
      cases ran
    · rw [turn] at turned
      cases turned
    · rw [turn] at ran
      cases ran
      exact ⟨[], rfl⟩
    · rw [turn] at ran
      obtain ⟨⟨rest, p⟩, ran', is⟩ := Option.map_eq_some_iff.1 ran
      cases is
      obtain ⟨held', ready', nil'⟩ := ready_turnShowing nil ready turn
      obtain ⟨later, rfl⟩ := ih ready' nil' ran'
      exact ⟨first :: later, rfl⟩

theorem runShowing_apply (fuel : Nat) (m : Machine) :
    runShowing fuel m =
      match turnsShowing fuel (m.greet.console.unread.length + 1) m.greet with
      | none => none
      | some (.ok shown, k) => some (.ok shown, { k with console := k.console.freshLine })
      | some (.error fault, k) => some (.error fault, k) := by
  show (turnsShowing fuel (m.greet.console.unread.length + 1) >>= _) m.greet = _
  rw [bind_apply]
  rcases turnsShowing fuel (m.greet.console.unread.length + 1) m.greet with _ | ⟨_ | _, _⟩ <;> rfl

theorem transcript_turnsShowing {limit : Nat} {shown : List Shown} (ready : m.Ready held)
    (nil : .nil ∈ held) (enough : m.console.unread.length < limit)
    (ran : turnsShowing fuel limit m = some (.ok shown, n)) :
    n.console.unread = [] ∧ ∃ taken written,
      Transcript m.console.echo m.settings.freespace shown taken written ∧
        m.console.Goes taken written n.console := by
  induction limit generalizing m held shown with
  | zero => omega
  | succ limit ih =>
    rw [turnsShowing_succ_apply] at ran
    rcases turn : turnShowing fuel m with _ | ⟨fault | _ | first, k⟩
    · rw [turn] at ran
      cases ran
    · rw [turn] at ran
      cases ran
    · rw [turn] at ran
      cases ran
      obtain ⟨⟨taken, written, told, goes⟩, -, left⟩ := tells_turnShowing ready nil turn
      exact ⟨left, taken, written, .ended told, goes⟩
    · rw [turn] at ran
      obtain ⟨⟨fault | later, p⟩, ran', is⟩ := Option.map_eq_some_iff.1 ran
      · cases is
      cases is
      obtain ⟨⟨taken, written, told, goes⟩, settings, left⟩ := tells_turnShowing ready nil turn
      have enough' : k.console.unread.length < limit :=
        Nat.lt_of_lt_of_le left (Nat.le_of_lt_succ enough)
      obtain ⟨held', ready', nil'⟩ := ready_turnShowing nil ready turn
      obtain ⟨none, taken', written', rest, goes'⟩ := ih ready' nil' enough' ran'
      rw [goes.echo, settings] at rest
      exact ⟨none, _, _, .shows told rest, goes.trans goes'⟩

theorem transcribes_runShowing {shown : List Shown} (ready : m.Ready held) (nil : .nil ∈ held)
    (ran : runShowing fuel m = some (.ok shown, n)) :
    ∃ written, Transcribes m.settings m.console.echo shown m.console.pending written ∧
      n.console.output.toList = m.console.output.toList ++ written := by
  have greeted := goes_greet m
  have readyG := ready.goesOn_greet.ready ready
  have settings : m.greet.settings = m.settings := rfl
  rw [runShowing_apply] at ran
  rcases turns : turnsShowing fuel (m.greet.console.unread.length + 1) m.greet with _ | ⟨_ | _, k⟩
  · rw [turns] at ran
    cases ran
  · rw [turns] at ran
    cases ran
  · rw [turns] at ran
    cases ran
    obtain ⟨left, taken, written, transcript, goes⟩ :=
      transcript_turnsShowing readyG nil (Nat.lt_succ_self _) turns
    obtain ⟨blank, ends, last⟩ := k.console.goes_freshLine
    have whole := (greeted.trans goes).write last
    have all : m.console.pending = taken := by
      have pending := (greeted.trans goes).pending
      rwa [Console.pending_eq_nil left, List.append_nil] at pending
    rw [greeted.echo, settings, ← all] at transcript
    exact ⟨_, ⟨written, blank, transcript, ends, rfl⟩, whole.output⟩

end Lisp

end ArenaLisp
