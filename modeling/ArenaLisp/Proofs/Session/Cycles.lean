import ArenaLisp.Proofs.Machine.ReadOnly
import ArenaLisp.Proofs.Session.Globals

/-!
# A turn that defines nothing leaves no trace

A session may read half an expression, give up an evaluation at any depth, or evaluate an expression
that defines nothing. Whatever cells it took for that are free after the next collection, which comes
to the arena that the collection before came to, cell by cell (`Session.turn_traceless`).
-/

namespace ArenaLisp

/-- The machines at which a turn of a session begins. A session begins when nothing is protected, and
the interrupt flag may be raised before any turn. -/
inductive Session : Machine → Prop where
  | start {m : Machine} {known : Set Value} : Run m known → m.stack = .nil → Session m.greet
  | next {fuel : Nat} {m n : Machine} : Session m → Lisp.turn fuel m = some (.ok true, n) →
    Session n
  | raise {m : Machine} : Session m → Session { m with interrupted := true }

/-- What makes a turn define nothing. -/
inductive Idle (fuel : Nat) (m : Machine) : Prop where
  | unread {fault : Fault} {k : Machine} :
    Lisp.receive (m.collect .nil .nil).prompt = some (.error fault, k) → fault.isFatal = false →
    Idle fuel m
  | interrupted {form : Value} {k : Machine} :
    Lisp.receive (m.collect .nil .nil).prompt = some (.ok form, k) → k.interrupted = true →
    0 < fuel → Idle fuel m
  /-- The evaluation ends, with a value that can be printed or with a fault, and does not change the
  global environment. -/
  | readOnly {form : Value} {outcome : Except Fault Value} {k p : Machine} :
    Lisp.receive (m.collect .nil .nil).prompt = some (.ok form, k) →
    Lisp.evalReadOnly fuel form .nil { k with console := k.console.freshLine } =
      some (outcome, p) →
    (∀ v, outcome = .ok v → p.arena.print v ≠ none) → Idle fuel m

/-- The collection that opens the next turn comes to what the one that opened a turn came to. -/
structure Machine.LeavesNoTrace (m n : Machine) : Prop where
  arena : (n.collect .nil .nil).arena = (m.collect .nil .nil).arena
  globe : (n.collect .nil .nil).globe = (m.collect .nil .nil).globe
  tee : (n.collect .nil .nil).tee = (m.collect .nil .nil).tee
  stack : (n.collect .nil .nil).stack = .nil

namespace Lisp

open Machine Arena

variable {settled : Set Nat} {updates : Prop} {m n : Machine} {held : Set Value} {form env : Value}
  {fuel : Nat}

theorem eval_interrupted (up : m.interrupted = true) (form env : Value) (fuel : Nat) :
    ∃ k, (k = m ∨ k = m.collect form env) ∧
      eval (fuel + 1) form env m = some (.error .escape, { k with interrupted := false }) := by
  obtain ⟨k, is, collected⟩ := collectIfLow_apply form env m
  have still : k.interrupted = true := by
    obtain rfl | rfl := is
    · exact up
    · exact up
  have escaped : escapeIfInterrupted k = some (.error .escape, { k with interrupted := false }) := by
    show (if k.interrupted then
      (do modify ({ · with interrupted := false }); throw .escape : Lisp Unit) else pure ()) k = _
    rw [if_pos still]
    rfl
  refine ⟨k, is, ?_⟩
  rw [eval, evalStep, bind_apply, collected]
  dsimp only
  rw [bind_apply, escaped]

theorem leads_eval_interrupted (ready : m.Ready held) (nil : .nil ∈ held)
    (live : m.arena.Live form) (up : m.interrupted = true) :
    Leads (Course settled updates) (eval fuel form .nil) m := by
  cases fuel with
  | zero => exact ensures_endless
  | succ fuel =>
    obtain ⟨k, is, ran⟩ := eval_interrupted up form .nil fuel
    have course : Course settled updates m k := by
      obtain rfl | rfl := is
      · exact .refl
      · exact .move (.collect ready.sound live (ready.live nil))
    rw [Leads, Ensures, ran]
    exact course.trans (.keep rfl rfl rfl)

/-- What an evaluation that changes no value of the global environment does is done without
updates. -/
theorem leads_eval_readOnly (sound : n.Sound) (working : Working n.lasting n.Untouched m held env)
    (live : m.arena.Live form) {outcome : Except Fault Value} {p : Machine}
    (ran : evalReadOnly fuel form env m = some (outcome, p)) :
    Leads (Course n.lasting False) (eval fuel form env) m := by
  have leads := (moving_evalReadOnly sound fuel).leads working live
  rw [Leads, Ensures, approximates_evalReadOnly fuel form env ran]
  cases outcome with
  | ok v => exact leads.ok ran
  | error fault => exact leads.error ran

/-! ### Turns -/

theorem conclude_ne_none {v : Value} (printed : m.arena.print v ≠ none) :
    conclude v m ≠ none := by
  obtain ⟨outcome, is⟩ := Option.ne_none_iff_exists'.1 printed
  show (print v >>= _) { m with console := m.console.freshLine } ≠ none
  rw [bind_apply, print, answer]
  simp only [is]
  cases outcome with
  | ok text => exact fun never => by cases never
  | error fault => exact fun never => by cases never

theorem ensures_respond (ready : m.Ready held) (nil : .nil ∈ held) (live : m.arena.Live form) :
    Ensures (respond fuel form) m (fun _ _ => True) fun fault _ => fault.isFatal = false := by
  rw [respond, ensures_bind, ensures_write, ensures_bind]
  have readyF := (ready.goesOn_console m.console.freshLine).ready ready
  refine (preserves_eval fuel readyF nil live).mono ?_ fun _ _ stops => stops.ordinary.2
  intro v n evaluated
  rw [conclude, ensures_bind, ensures_write, ensures_bind]
  have readyE := evaluated.goesOn.ready readyF
  have readyL := (readyE.goesOn_console n.console.freshLine).ready readyE
  exact (ensures_print readyL evaluated.live).mono (fun _ _ _ => trivial) fun _ _ fault => fault

theorem turn_of_ok {p : Machine} (ran : cycle fuel m = some (.ok (), p)) :
    turn fuel m = some (.ok true, p) := by
  rw [turn, tryCatch_apply, bind_apply, ran]
  rfl

theorem turn_of_fault {p : Machine} {fault : Fault} (ran : cycle fuel m = some (.error fault, p))
    (ordinary : fault.isFatal = false) :
    ∃ c, turn fuel m = some (.ok true, { p with stack := .nil, console := c }) := by
  refine ⟨((p.console.freshLine.putText "ERROR: ").putText fault.message).endLine, ?_⟩
  rw [turn, tryCatch_apply, bind_apply, ran]
  cases fault with
  | endOfInput => cases ordinary
  | io => cases ordinary
  | _ => rfl

end Lisp

namespace Session

open Lisp Machine

variable {m n : Machine} {fuel : Nat}

theorem ready (session : Session m) : m.Ready {.nil} ∧ m.stack = .nil := by
  induction session with
  | @start m known run empty =>
    obtain ⟨standing, nil⟩ := run.standing
    have less := standing.mono (Set.singleton_subset_iff.2 nil)
    have ready : m.Ready {.nil} := ⟨less.sound, less.proper, fun _ member => .inl member⟩
    exact ⟨ready.goesOn_greet.ready ready, empty⟩
  | next _ turned ih =>
    obtain ⟨ready, empty⟩ := ih
    rcases (ensures_turn (Set.mem_singleton _) ready _).ok turned with goesOn | settled
    · exact ⟨goesOn.ready ready, goesOn.stack.trans empty⟩
    · exact settled
  | @raise m _ ih =>
    obtain ⟨ready, empty⟩ := ih
    have stage : m.Stage {.nil} { m with interrupted := true } := ready.stage_same rfl rfl rfl rfl
    exact ⟨stage.ready ready, empty⟩

theorem defines (session : Session m) : ∃ rows, m.Defines rows := by
  induction session with
  | start run _ =>
    obtain ⟨rows, defines⟩ := run.defines
    exact ⟨rows, defines.table, defines.distinct⟩
  | @next fuel m _ session turned ih =>
    obtain ⟨rows, defines⟩ := ih
    have leads := leads_turn (Set.mem_singleton _) session.ready.1 fuel
    obtain ⟨new, defines⟩ := (leads.ok turned).defines defines
    exact ⟨new ++ rows, defines⟩
  | raise _ ih =>
    obtain ⟨rows, defines⟩ := ih
    exact ⟨rows, defines.table, defines.distinct⟩

/-- A turn is idle whose evaluation makes no updates. -/
theorem idle_of_moves (session : Session m) {form : Value} {outcome : Except Fault Value}
    {k p : Machine} (received : receive (m.collect .nil .nil).prompt = some (.ok form, k))
    (ran : evalByMoves m fuel form .nil { k with console := k.console.freshLine } =
      some (outcome, p)) (printed : ∀ v, outcome = .ok v → p.arena.print v ≠ none) :
    Idle fuel m := by
  obtain ⟨rows, defines⟩ := session.defines
  have passes := approximates_evalByMoves session.ready.1.sound defines fuel form .nil
  exact .readOnly received (passes ran) printed

theorem untouched (session : Session m) (idle : Idle fuel m) :
    Leads (fun _ n => m.Untouched n) (cycle fuel) m := by
  obtain ⟨ready, -⟩ := session.ready
  have start := Untouched.refl ready.sound
  have received : ∀ {form k}, receive (m.collect .nil .nil).prompt = some (.ok form, k) →
      k.arena.Live form ∧ Working m.lasting m.Untouched { k with console := k.console.freshLine }
        {.nil} .nil := by
    intro form k received
    have opened : Course m.lasting False m (m.collect .nil .nil).prompt :=
      (Course.move (.collect ready.sound (Arena.live_nil _) (Arena.live_nil _))).trans
        (.keep rfl rfl rfl)
    have readyP := ready_prompt (Set.mem_singleton _) ready
    obtain ⟨readyK, live⟩ := (ensures_receive readyP).ok received
    have course : Course m.lasting False m { k with console := k.console.freshLine } :=
      (opened.trans ((leads_receive readyP).ok received)).trans (.keep rfl rfl rfl)
    exact ⟨live, (readyK.goesOn_console _).ready readyK, rfl, start.course ready.sound course,
      fun _ element => absurd element Arena.not_element_nil⟩
  have leads : Leads (Course m.lasting False) (cycle fuel) m := by
    refine leads_cycle_of (Set.mem_singleton _) ready fun form k is => ?_
    obtain ⟨live, working⟩ := received is
    cases idle with
    | unread unread => cases is.symm.trans unread
    | interrupted is' up =>
      cases is.symm.trans is'
      exact leads_eval_interrupted working.ready rfl live up
    | readOnly is' ran =>
      cases is.symm.trans is'
      exact leads_eval_readOnly ready.sound working live ran
  exact leads.mono (fun _ _ course => start.course ready.sound course) fun _ _ course =>
    start.course ready.sound course

theorem cycle_ends (session : Session m) (idle : Idle fuel m) :
    ∃ outcome p, cycle fuel m = some (outcome, p) ∧
      ∀ fault, outcome = .error fault → fault.isFatal = false := by
  obtain ⟨ready, -⟩ := session.ready
  have ended : ∀ {form k}, receive (m.collect .nil .nil).prompt = some (.ok form, k) →
      cycle fuel m ≠ none → ∃ outcome p, cycle fuel m = some (outcome, p) ∧
        ∀ fault, outcome = .error fault → fault.isFatal = false := by
    intro form k received some
    obtain ⟨⟨outcome, p⟩, ran⟩ := Option.ne_none_iff_exists'.1 some
    refine ⟨outcome, p, ran, ?_⟩
    rintro fault rfl
    obtain ⟨readyK, live⟩ := (ensures_receive (ready_prompt (Set.mem_singleton _) ready)).ok received
    rw [cycle_of_received received] at ran
    exact (ensures_respond readyK rfl live).error ran
  cases idle with
  | @unread fault k unread ordinary =>
    refine ⟨_, _, cycle_of_unread unread, ?_⟩
    rintro _ ⟨⟩
    exact ordinary
  | @interrupted form k received up positive =>
    refine ended received ?_
    obtain ⟨fuel, rfl⟩ : ∃ n, fuel = n + 1 := ⟨fuel - 1, by omega⟩
    obtain ⟨_, -, ran⟩ := eval_interrupted (m := { k with console := k.console.freshLine }) up form
      .nil fuel
    simp [cycle_of_received received, bind_apply, ran]
  | @readOnly form outcome k p received ran printed =>
    refine ended received ?_
    rw [cycle_of_received received, bind_apply, approximates_evalReadOnly _ _ _ ran]
    cases outcome with
    | error fault => simp
    | ok v => exact conclude_ne_none (printed v rfl)

/-- A turn in which nothing is read, or the flag is up, or the global environment does not change, as in
every evaluation without updates (`idle_of_moves`), comes to an end, and the session goes on. After
the next collection all cells, the chain of the free ones and the registers are what they were after
the collection before. The flag costs one form: it is down afterwards. -/
theorem turn_traceless (session : Session m) (idle : Idle fuel m) :
    ∃ n, turn fuel m = some (.ok true, n) ∧ m.LeavesNoTrace n ∧
      ∀ form k, receive (m.collect .nil .nil).prompt = some (.ok form, k) →
        k.interrupted = true → n.interrupted = false := by
  obtain ⟨ready, empty⟩ := session.ready
  obtain ⟨outcome, p, ran, ordinary⟩ := session.cycle_ends idle
  have untouched : m.Untouched p := by
    rcases outcome with fault | _
    · exact (session.untouched idle).error ran
    · exact (session.untouched idle).ok ran
  have traceless : ∀ n : Machine, n.arena = p.arena → n.tee = p.tee → n.globe = p.globe →
      n.stack = .nil → m.LeavesNoTrace n := by
    intro n arena tee globe stack
    have untouchedN : m.Untouched n :=
      untouched.course ready.sound (.keep arena tee globe)
    obtain ⟨teeM, globeM, -⟩ := m.registers_collect .nil .nil
    obtain ⟨teeN, globeN, stackN⟩ := n.registers_collect .nil .nil
    exact ⟨untouchedN.collect ready.sound (stack.trans empty.symm) empty,
      globeN.trans (untouchedN.globe.trans globeM.symm),
      teeN.trans (untouchedN.tee.trans teeM.symm), stackN.trans stack⟩
  have lowered : ∀ form k, receive (m.collect .nil .nil).prompt = some (.ok form, k) →
      k.interrupted = true → p.interrupted = false := by
    intro form k received up
    rw [cycle_of_received received, bind_apply] at ran
    cases fuel with
    | zero => cases ran
    | succ fuel =>
      obtain ⟨_, -, escaped⟩ := eval_interrupted (m := { k with console := k.console.freshLine })
        up form .nil fuel
      rw [escaped] at ran
      cases ran
      rfl
  rcases outcome with fault | _
  · obtain ⟨c, turned⟩ := turn_of_fault ran (ordinary fault rfl)
    exact ⟨_, turned, traceless { p with stack := .nil, console := c } rfl rfl rfl rfl, lowered⟩
  · have goesOn := (ensures_cycle (Set.mem_singleton _) ready fuel).ok ran
    exact ⟨p, turn_of_ok ran, traceless p rfl rfl rfl (goesOn.stack.trans empty), lowered⟩

/-- The fault that the evaluation in a turn ends with, if it does not change the global
environment. -/
def rehearse (fuel : Nat) (m : Machine) : Option Fault :=
  match receive (m.collect .nil .nil).prompt with
  | some (.ok form, k) =>
    match evalReadOnly fuel form .nil { k with console := k.console.freshLine } with
    | some (.error fault, _) => some fault
    | _ => none
  | _ => none

theorem idle_of_rehearse {fault : Fault} (rehearsed : rehearse fuel m = some fault) :
    Idle fuel m := by
  unfold rehearse at rehearsed
  split at rehearsed
  · rename_i received
    split at rehearsed
    · rename_i ran
      exact .readOnly received ran (by simp)
    · cases rehearsed
  · cases rehearsed

/-- A definition, and a form that assigns to a parameter before it fails. -/
def exchange : String :=
  "(DEFVAR A T)((LAMBDA (N) (SETQ N A) (B)) T)"

/-- The answer of the first turn of a session, the global environment after it, and the fault in the
second turn. -/
def opening (text : String) : Option (Option Bool × Value × Option Fault) :=
  match Machine.new { workspace := 31, threshold := 12 } (Console.ofText text) with
  | .ok m => (turn 8 m.greet).map fun p => (p.1.toOption, p.2.globe, rehearse 8 p.2)
  | .error _ => none

theorem turn_traceless_assignment :
    ∃ m n : Machine, Session m ∧ m.globe = .cell 9 ∧ rehearse 8 m = some (.undefined "B") ∧
      turn 8 m = some (.ok true, n) ∧ m.LeavesNoTrace n := by
  have opened : opening exchange = some (some true, .cell 9, some (.undefined "B")) := by
    decide +kernel
  unfold opening at opened
  split at opened
  · rename_i start new
    obtain ⟨⟨result, m⟩, turned, same⟩ := Option.map_eq_some_iff.1 opened
    obtain ⟨answered, globe, rehearsed⟩ : result.toOption = some true ∧ _ ∧ _ := by simpa using same
    have first : Lisp.turn 8 start.greet = some (.ok true, m) := by
      cases result with
      | error fault => cases answered
      | ok again =>
        cases answered
        exact turned
    have session : Session m := .next (.start (.start new) (registers_new new).2) first
    obtain ⟨n, turned, traceless, -⟩ := turn_traceless session (idle_of_rehearse rehearsed)
    exact ⟨m, n, session, globe, rehearsed, turned, traceless⟩
  · cases opened

end Session

end ArenaLisp
