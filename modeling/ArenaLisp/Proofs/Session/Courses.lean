import ArenaLisp.Proofs.Machine.Courses
import ArenaLisp.Proofs.Session.Runs

/-!
# The calls of a host are courses of moves

Reading takes cells, and between evaluations a session collects and writes to its console. So every
call is a course of moves and updates, whatever its outcome (`Call.leads`).
-/

namespace ArenaLisp

namespace Lisp

open Machine Arena

variable {α β : Type} {settled : Set Nat} {updates : Prop} {m n : Machine} {held : Set Value}
  {form v : Value}

theorem Leads.chain {x : Lisp α} {f : α → Lisp β} {Q : α → Machine → Prop}
    {E : Fault → Machine → Prop} (ensures : Ensures x m Q E)
    (leads : Leads (Course settled updates) x m)
    (next : ∀ v n, Q v n → Leads (Course settled updates) (f v) n) :
    Leads (Course settled updates) (x >>= f) m :=
  .bind onward_course ((leads.and ensures).mono (fun _ _ after => after) fun _ _ after => after.1)
    next

theorem Leads.map {x : Lisp α} {f : α → β} (leads : Leads (Course settled updates) x m) :
    Leads (Course settled updates) (f <$> x) m :=
  ensures_map.2 leads

theorem leads_keep {f : Machine → Machine} (arena : (f m).arena = m.arena)
    (tee : (f m).tee = m.tee) (globe : (f m).globe = m.globe) :
    Leads (Course settled updates) (modify f : Lisp Unit) m :=
  ensures_modify.2 (.keep arena tee globe)

theorem leads_write (f : Console → Console) : Leads (Course settled updates) (write f) m :=
  ensures_write.2 (.keep rfl rfl rfl)

theorem leads_collect (ready : m.Ready held) (nil : .nil ∈ held) (live : m.arena.Live v) :
    Leads (Course settled updates) (collect v .nil) m :=
  ensures_modify.2 (.move (.collect ready.sound live (ready.live nil)))

theorem leads_store {f : Storing α} {P : α → Arena → Prop}
    (grows : Storing.Ensures f m.arena (fun v b => m.arena.Grows b ∧ P v b) m.arena.OutOfRoom) :
    Leads (Course settled updates) (store f) m :=
  ensures_store.2 (grows.mono (fun _ _ after => .grow after.1) fun _ _ room => .grow room.2)

theorem leads_protect (sound : m.Sound) (live : m.arena.Live v) :
    Leads (Course settled updates) (protect v) m := by
  rw [protect]
  refine leads_store_bind onward_course (grows_cons sound.arena live sound.stack) ?_
  exact fun stack b _ _ => leads_keep rfl rfl rfl

theorem leads_unprotect : Leads (Course settled updates) unprotect m :=
  leads_keep rfl rfl rfl

theorem leads_read (sound : m.arena.Sound) : Leads (Course settled updates) read m := by
  have course : ∀ {n}, m.ReadOn n → Course settled updates m n := by
    rintro _ ⟨b, c, rfl, grows⟩
    exact (Course.grow grows).trans (.keep rfl rfl rfl)
  exact (ensures_read_on sound).mono (fun _ _ after => course after.1) fun _ _ after =>
    course after.2

theorem leads_print (ready : m.Ready held) (live : m.arena.Live v) :
    Leads (Course settled updates) (print v) m := by
  refine (ensures_print (E := fun _ _ => False) ready live).mono ?_ fun _ _ => False.elim
  rintro _ _ rfl
  exact .refl

theorem leads_withConsole {c : Console} {f : Lisp α}
    (leads : Leads (Course settled updates) f { m with console := c }) :
    Leads (Course settled updates) (withConsole c f) m := by
  have opened : Course settled updates m { m with console := c } := .keep rfl rfl rfl
  refine ensures_withConsole.2 (leads.mono ?_ ?_)
  · exact fun _ _ course => (opened.trans course).trans (.keep rfl rfl rfl)
  · exact fun _ _ course => (opened.trans course).trans (.keep rfl rfl rfl)

/-! ### Silent evaluation -/

section

variable {ev : Evaluator} (moving : Moving ∅ True (fun _ => True) ev)
include moving

theorem Moving.leads_ready {env : Value} (ready : m.Ready held) (member : env ∈ held)
    (live : m.arena.Live form) : Leads (Course ∅ True) (ev form env) m :=
  moving.leads ⟨ready, member, trivial, fun _ _ => Set.notMem_empty _⟩ live

variable (nil : .nil ∈ held)
include nil

theorem leads_evalNext (ready : m.Ready held) : Leads (Course ∅ True) (evalNext ev) m := by
  rw [Leads, evalNext, ensures_bind, read?, ensures_tryCatch, ensures_map]
  have leads : Leads (Course ∅ True) read m := leads_read ready.sound.arena
  refine ((ensures_read ready).and leads).mono ?_ ?_
  · rintro form n ⟨answers, course⟩
    have ready' := answers.goesOn.ready ready
    refine Leads.after onward_course course ?_
    refine .chain (ensures_protect ready' answers.live)
      (leads_protect ready'.sound answers.live) ?_
    rintro _ _ ⟨b, top, took, rfl⟩
    have pushed := (ready'.stage_protect answers.live took).ready ready'
    refine .bind onward_course (P := fun _ _ => True) ((moving.leads_ready pushed nil
      (took.extends.live answers.live)).mono (fun _ _ => (⟨·, trivial⟩)) fun _ _ => id) ?_
    intro result k _
    exact .bind onward_course (P := fun _ _ => True) ⟨leads_unprotect, trivial⟩
      fun _ _ _ => Course.refl
  · rintro fault n ⟨-, course⟩
    split
    · exact course
    · exact course

theorem leads_evalLast (n : Nat) (last : Value) (ready : m.Ready held) (live : m.arena.Live last) :
    Leads (Course ∅ True) (evalLast ev n last) m := by
  induction n generalizing m last with
  | zero => exact Course.refl
  | succ n ih =>
    refine .chain (ensures_collect (E := fun _ _ => True) ready nil live)
      (leads_collect ready nil live) ?_
    intro _ k kept
    have readyK := kept.goesOn.ready ready
    refine .chain (ensures_evalNext moving.preserves nil readyK)
      (leads_evalNext moving nil readyK) ?_
    rintro result k' ⟨goesOn, live'⟩
    rcases result with _ | result
    · exact Course.refl
    · exact ih result (goesOn.ready readyK) live'

theorem leads_evalTextWith (text : String) (ready : m.Ready held) :
    Leads (Course ∅ True) (evalTextWith ev text) m := by
  have ready' := (ready.goesOn_console (Console.ofText text)).ready ready
  refine leads_withConsole ?_
  rw [Leads, ensures_bind, rounds, ensures_bind, ensures_get, ensures_pure]
  refine Leads.chain (ensures_evalLast moving.preserves nil _ .nil ready' (live_nil _))
    (leads_evalLast moving nil _ .nil ready' (live_nil _)) ?_
  exact fun last n answers => leads_print (answers.goesOn.ready ready') answers.live

theorem leads_evalCounting (n count : Nat) (ready : m.Ready held) :
    Leads (Course ∅ True) (evalCounting ev n count) m := by
  induction n generalizing m count with
  | zero => exact Course.refl
  | succ n ih =>
    refine .chain (ensures_collect (E := fun _ _ => True) ready nil (live_nil _))
      (leads_collect ready nil (live_nil _)) ?_
    intro _ k kept
    have readyK := kept.goesOn.ready ready
    refine .chain (ensures_evalNext moving.preserves nil readyK)
      (leads_evalNext moving nil readyK) ?_
    rintro result k' ⟨goesOn, -⟩
    rcases result with _ | result
    · exact Course.refl
    · exact ih (count + 1) (goesOn.ready readyK)

end

/-! ### Sessions -/

/-- Reads an expression and protects it. -/
def receive : Lisp Value := do
  let form ← read
  protect form
  return form

/-- Prints a value on a line of its own, and lets go of the expression. -/
def conclude (result : Value) : Lisp Unit := do
  write Console.freshLine
  let text ← print result
  write (·.putText text)
  unprotect
  write fun c => c.freshLine.endLine

/-- Evaluates an expression that is protected and prints its value. -/
def respond (fuel : Nat) (form : Value) : Lisp Unit := do
  write Console.freshLine
  let result ← eval fuel form .nil
  conclude result

theorem cycle_eq (fuel : Nat) : cycle fuel = (do
    collect .nil .nil
    modify Machine.prompt
    let form ← receive
    respond fuel form) := by
  simp only [cycle, receive, respond, conclude, bind_assoc, pure_bind]

theorem cycle_of_received {fuel : Nat} {k : Machine}
    (received : receive (m.collect .nil .nil).prompt = some (.ok form, k)) :
    cycle fuel m = (eval fuel form .nil >>= conclude)
      { k with console := k.console.freshLine } := by
  rw [cycle_eq]
  show (receive >>= respond fuel) (m.collect .nil .nil).prompt = _
  rw [bind_apply, received]
  rfl

theorem cycle_of_unread {fuel : Nat} {fault : Fault} {k : Machine}
    (unread : receive (m.collect .nil .nil).prompt = some (.error fault, k)) :
    cycle fuel m = some (.error fault, k) := by
  rw [cycle_eq]
  show (receive >>= respond fuel) (m.collect .nil .nil).prompt = _
  rw [bind_apply, unread]

theorem ensures_receive (ready : m.Ready held) :
    Ensures receive m (fun form n => n.Ready held ∧ n.arena.Live form) fun _ n =>
      m.Stage held n := by
  rw [receive, ensures_bind]
  refine (ensures_read ready).mono ?_ fun _ _ after => after.2.1.stage
  intro form n answers
  have readyN := answers.goesOn.ready ready
  rw [ensures_bind]
  refine (ensures_protect readyN answers.live).mono ?_ fun _ _ stops =>
    answers.goesOn.stage.trans ready stops.stage
  rintro _ _ ⟨b, top, took, rfl⟩
  exact ⟨(readyN.stage_protect answers.live took).ready readyN, took.extends.live answers.live⟩

theorem leads_receive (ready : m.Ready held) : Leads (Course settled updates) receive m := by
  refine .chain (ensures_read ready) (leads_read ready.sound.arena) ?_
  intro form n answers
  refine .bind onward_course (P := fun _ _ => True) ?_ fun _ _ _ => Course.refl
  exact (leads_protect (answers.goesOn.ready ready).sound answers.live).mono
    (fun _ _ => (⟨·, trivial⟩)) fun _ _ => id

theorem leads_conclude (ready : m.Ready held) (live : m.arena.Live v) :
    Leads (Course settled updates) (conclude v) m := by
  rw [Leads, conclude, ensures_bind, ensures_write]
  refine Leads.after onward_course (.keep rfl rfl rfl) ?_
  have readyL := (ready.goesOn_console m.console.freshLine).ready ready
  refine .chain (ensures_print (E := fun _ _ => True) readyL live) (leads_print readyL live) ?_
  rintro text _ rfl
  exact Course.keep rfl rfl rfl

theorem leads_respond {fuel : Nat} (nil : .nil ∈ held) (ready : m.Ready held)
    (live : m.arena.Live form) (leads : Leads (Course settled updates) (eval fuel form .nil)
      { m with console := m.console.freshLine }) :
    Leads (Course settled updates) (respond fuel form) m := by
  rw [Leads, respond, ensures_bind, ensures_write]
  refine Leads.after onward_course (.keep rfl rfl rfl) ?_
  have readyF := (ready.goesOn_console m.console.freshLine).ready ready
  refine .chain (preserves_eval fuel readyF nil live) leads ?_
  exact fun result n evaluated => leads_conclude (evaluated.goesOn.ready readyF) evaluated.live

section

variable (nil : .nil ∈ held) (ready : m.Ready held)
include nil ready

theorem leads_loadPath (fuel : Nat) (path : String) (found? : Option Found) :
    Leads (Course ∅ True) (loadPath fuel path found?) m := by
  have ready' := fun c => (ready.goesOn_console c).ready ready
  rcases found? with _ | contents | _ | reason
  · exact Course.refl
  · refine leads_withConsole ?_
    rw [Leads, ensures_bind, rounds, ensures_bind, ensures_get, ensures_pure]
    exact leads_evalCounting (moving_eval fuel) nil _ 0 (ready' _)
  · rw [loadPath]
    refine leads_withConsole ?_
    rw [Leads, ensures_bind]
    exact leads_collect (ready' _) nil (live_nil _)
  · exact Course.refl

theorem ready_prompt : (m.collect .nil .nil).prompt.Ready held := by
  have readyC := (ready.stage_collect (live_nil _) (ready.live nil)).ready ready
  have stage : (m.collect .nil .nil).Stage held (m.collect .nil .nil).prompt :=
    readyC.stage_same rfl rfl rfl rfl
  exact stage.ready readyC

theorem leads_cycle_of {fuel : Nat} (evaluates : ∀ form k,
      receive (m.collect .nil .nil).prompt = some (.ok form, k) →
      Leads (Course settled updates) (eval fuel form .nil)
        { k with console := k.console.freshLine }) :
    Leads (Course settled updates) (cycle fuel) m := by
  have readyP := ready_prompt nil ready
  have opened : Course settled updates m (m.collect .nil .nil).prompt :=
    (Course.move (.collect ready.sound (live_nil _) (ready.live nil))).trans (.keep rfl rfl rfl)
  rw [cycle_eq, Leads, ensures_bind, collect, ensures_modify, ensures_bind, ensures_modify]
  refine Leads.after onward_course opened ?_
  refine .chain ((ensures_receive readyP).and (ensures_self _)) (leads_receive readyP) ?_
  exact fun form k after => leads_respond nil after.1.1 after.1.2 (evaluates form k after.2)

theorem leads_cycle (fuel : Nat) : Leads (Course ∅ True) (cycle fuel) m := by
  refine leads_cycle_of nil ready fun form k received => ?_
  obtain ⟨readyK, live⟩ := (ensures_receive (ready_prompt nil ready)).ok received
  exact (moving_eval fuel).leads_ready ((readyK.goesOn_console _).ready readyK) nil live

theorem leads_turn (fuel : Nat) : Leads (Course ∅ True) (turn fuel) m := by
  rw [Leads, turn, ensures_tryCatch, ensures_bind]
  refine (leads_cycle nil ready fuel).mono (fun _ _ course => course) ?_
  intro fault n course
  split
  · exact course
  · split
    · exact course
    · exact course.trans (.keep rfl rfl rfl)

end

theorem leads_turns (fuel n : Nat) (nil : .nil ∈ held) (ready : m.Ready held) :
    Leads (Course ∅ True) (turns fuel n) m := by
  induction n generalizing m held with
  | zero => exact Course.refl
  | succ n ih =>
    refine .chain (ensures_turn nil ready fuel) (leads_turn nil ready fuel) ?_
    intro again k settles
    split
    -- after a fault the rest of the session has only the global environment
    · rcases settles with goesOn | ⟨ready', -⟩
      · exact ih nil (goesOn.ready ready)
      · exact ih (by simp) ready'
    · exact Course.refl

theorem leads_run (fuel : Nat) (nil : .nil ∈ held) (ready : m.Ready held) :
    Leads (Course ∅ True) (run fuel) m := by
  have readyG := ready.goesOn_greet.ready ready
  rw [Leads, run, ensures_bind, ensures_modify, ensures_bind, rounds, ensures_bind, ensures_get,
    ensures_pure]
  refine Leads.after onward_course (.keep (n := m.greet) rfl rfl rfl) ?_
  refine .bind onward_course (P := fun _ _ => True)
    ((leads_turns fuel _ nil readyG).mono (fun _ _ => (⟨·, trivial⟩)) fun _ _ => id)
    fun _ _ _ => leads_write _

end Lisp

namespace Call

open Lisp Machine

theorem leads {m : Machine} {known : Set Value} (call : Call) (fuel : Nat)
    (standing : m.Standing known) (nil : .nil ∈ known) (allowed : call.Allowed m known) :
    Leads (Course ∅ True) (call.perform fuel) m := by
  have ready := standing.ready
  have nil' : .nil ∈ m.protectedOf known := ⟨nil, .inl rfl⟩
  have sound := standing.sound
  cases call with
  | read => exact (leads_read sound.arena).map
  | eval form env =>
    obtain ⟨live, member, kept⟩ := allowed
    exact ((moving_eval fuel).leads_ready ready ⟨member, kept⟩ live).map
  | evalText text => exact (leads_evalTextWith (moving_eval fuel) nil' text ready).map
  | load path found? => exact (leads_loadPath nil' ready fuel path found?).map
  | run => exact (leads_run fuel nil' ready).map
  | collect => exact (leads_collect ready nil' (Arena.live_nil _)).map
  | report fault => exact Course.keep rfl rfl rfl
  | interrupt => exact Course.keep rfl rfl rfl
  | frame env =>
    exact (leads_store (Arena.grows_cons sound.arena (Arena.live_nil _)
      (standing.live env allowed))).map
  | bind var val env =>
    obtain ⟨var', val', member⟩ := allowed
    refine (leads_store (P := fun _ _ => True) ((Arena.ensures_bindOn sound.arena var' val'
      (standing.live env member)).mono ?_ fun _ _ room => room)).map
    exact fun _ _ bound => ⟨bound.grows, trivial⟩
  | tree t =>
    refine (leads_store (P := fun _ _ => True) ((Arena.ensures_store sound.arena t).mono ?_
      fun _ _ room => room)).map
    exact fun _ _ planted => ⟨planted.grows, trivial⟩
  | protect v => exact (leads_protect sound allowed).map
  | unprotect => exact leads_unprotect.map

end Call

end ArenaLisp
