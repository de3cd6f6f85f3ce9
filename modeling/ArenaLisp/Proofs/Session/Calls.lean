import ArenaLisp.Proofs.Arena.Printing
import ArenaLisp.Proofs.Machine.Preservation
import ArenaLisp.Proofs.Text.Reading

/-!
# What the calls of a session keep

Reading, evaluating and printing one expression after another leads from stage to stage. A fault ends
an expression. Where it makes the session let go of what was protected, nothing is in use any more
but the global environment (`Machine.Settles`).
-/

namespace ArenaLisp

namespace Machine

variable {m n k : Machine} {held : Set Value} {c : Console}

/-- A part of a session that stops with a fault. -/
structure Halts (m : Machine) (held : Set Value) (fault : Fault) (n : Machine) : Prop where
  printable : fault ≠ .unprintable
  stage : m.Stage held n

/-- A machine after a part of a session: it went on with the same stack, or it has let go of
everything. -/
def Settles (m : Machine) (held : Set Value) (n : Machine) : Prop :=
  m.GoesOn held n ∨ n.Ready {.nil} ∧ n.stack = .nil

/-- A machine after its reader took cells and characters. -/
def ReadOn (m n : Machine) : Prop :=
  ∃ b c, n = { m with console := c, arena := b } ∧ m.arena.Grows b

theorem Halts.after {fault : Fault} (ready : m.Ready held) (first : m.Stage held n)
    (halts : n.Halts held fault k) : m.Halts held fault k :=
  ⟨halts.printable, first.trans ready halts.stage⟩

theorem Stops.halts {fault : Fault} (stops : m.Stops held fault n) : m.Halts held fault n :=
  ⟨stops.ordinary.1, stops.stage⟩

theorem Ready.goesOn_console (ready : m.Ready held) (c : Console) :
    m.GoesOn held { m with console := c } :=
  ⟨ready.stage_same rfl rfl rfl rfl, rfl⟩

theorem Ready.goesOn_greet (ready : m.Ready held) : m.GoesOn held m.greet :=
  ⟨ready.stage_same rfl rfl rfl rfl, rfl⟩

/-- Without anything protected only the global environment is in use. -/
theorem Ready.drop (ready : m.Ready held) : Ready { m with stack := .nil } {.nil} := by
  have nil : Standing m {.nil} := by
    refine ⟨ready.sound, ?_, by rintro _ rfl; exact Arena.live_nil _⟩
    have binding : ∀ {id}, m.Binding {.nil} id → m.Binding held id := by
      rintro id (global | ⟨env, rfl, here⟩)
      · exact .inl global
      · exact absurd here Arena.not_element_nil
    rintro list (rfl | rfl | rfl) id on bound
    · exact ready.proper _ (.inl rfl) id on (binding bound)
    · exact ready.proper _ (.inr (.inl rfl)) id on (binding bound)
    · exact Arena.not_onList_nil on
  refine ⟨nil.drop.sound, nil.drop.proper, ?_⟩
  rintro env rfl
  exact .inl rfl

theorem Ready.unprotected {v : Value} {b : Arena} {top : Nat} (ready : m.Ready held)
    (live : m.arena.Live v) (took : m.arena.TookCell (.pair v m.stack) top b)
    (goesOn : GoesOn { m with arena := b, stack := .cell top } held n) :
    m.GoesOn held { n with stack := n.arena.cdr n.stack } := by
  have pushed := ready.stage_protect live took
  obtain ⟨rest, suffix⟩ := goesOn.top (pushed.ready ready) rfl took.content
  refine ⟨?_, rest⟩
  rw [rest]
  exact (pushed.trans ready goesOn.stage).pop ready .refl suffix

end Machine

namespace Lisp

open Machine

variable {α : Type} {m n : Machine} {held : Set Value} {ev : Evaluator} {form v : Value}

theorem ensures_withConsole {c : Console} {f : Lisp α} {Q : α → Machine → Prop}
    {E : Fault → Machine → Prop} :
    Ensures (withConsole c f) m Q E ↔ Ensures f { m with console := c }
      (fun v n => Q v { n with console := m.console })
      fun fault n => E fault { n with console := m.console, stack := .nil } := by
  rcases m with ⟨arena, saved, settings, globe, stack, tee, interrupted, collections⟩
  simp only [Ensures, withConsole]
  rcases f ⟨arena, c, settings, globe, stack, tee, interrupted, collections⟩ with _ | ⟨_ | _, _⟩
  · rfl
  · rfl
  · rfl

theorem read_apply (m : Machine) :
    read m = some ((m.console.read m.arena).1,
      { m with console := (m.console.read m.arena).2.1, arena := (m.console.read m.arena).2.2 }) :=
  rfl

theorem ensures_read_on (sound : m.arena.Sound) :
    Ensures read m (fun v n => m.ReadOn n ∧ n.arena.Live v)
      fun fault n => fault ≠ .unprintable ∧ m.ReadOn n := by
  have outcome := Console.outcome_read sound m.console
  rw [Ensures, read_apply]
  rcases read : m.console.read m.arena with ⟨fault | v, c, b⟩
  · rw [read] at outcome
    exact ⟨outcome.1, b, c, rfl, outcome.2⟩
  · rw [read] at outcome
    exact ⟨⟨b, c, rfl, outcome.1⟩, outcome.2⟩

/-- Reading goes on even if it finds no expression. -/
theorem ensures_read (ready : m.Ready held) :
    Ensures read m (m.Answers held) fun fault n =>
      fault ≠ .unprintable ∧ m.GoesOn held n ∧ m.arena.Grows n.arena := by
  have goesOn : ∀ {n}, m.ReadOn n → m.GoesOn held n ∧ m.arena.Grows n.arena := by
    rintro _ ⟨b, c, rfl, grows⟩
    have grown := ready.goesOn_grows grows
    exact ⟨grown.trans ready ((grown.ready ready).goesOn_console c), grows⟩
  refine (ensures_read_on ready.sound.arena).mono ?_ fun _ _ => And.imp_right goesOn
  exact fun v n answers => ⟨(goesOn answers.1).1, answers.2⟩

theorem ensures_collect {E : Fault → Machine → Prop} (ready : m.Ready held) (nil : .nil ∈ held)
    (live : m.arena.Live v) : Ensures (collect v .nil) m (fun _ n => m.Answers held v n) E :=
  ⟨⟨ready.stage_collect live (ready.live nil), rfl⟩,
    ready.sound.live_collect live (ready.live nil) (by simp)⟩

theorem ensures_print {E : Fault → Machine → Prop} (ready : m.Ready held)
    (live : m.arena.Live v) : Ensures (print v) m (fun _ n => n = m) E := by
  rw [print, ensures_answer]
  rintro (fault | text) printed
  · exact absurd printed (Arena.print_ne_error ready.sound.arena live)
  · rfl

theorem ensures_onConsole {c : Console} {f : Lisp α} (ready : m.Ready held)
    (ensures : Ensures f { m with console := c } (fun _ n => GoesOn { m with console := c } held n)
      (Halts { m with console := c } held)) :
    Ensures (withConsole c f) m (fun _ n => m.GoesOn held n) fun fault n =>
      fault ≠ .unprintable ∧ n.Ready {.nil} ∧ n.stack = .nil := by
  have console := ready.goesOn_console c
  refine ensures_withConsole.2 (ensures.mono ?_ ?_)
  · intro _ n goesOn
    have goesOn' := console.trans ready goesOn
    exact goesOn'.trans ready ((goesOn'.ready ready).goesOn_console m.console)
  · intro fault n halts
    have readyN := halts.stage.ready (console.ready ready)
    exact ⟨halts.printable, ((readyN.goesOn_console m.console).ready readyN).drop, rfl⟩

/-! ### Silent evaluation -/

section

variable (preserves : Preserves ev) (nil : .nil ∈ held)
include preserves nil

theorem ensures_evalNext (ready : m.Ready held) :
    Ensures (evalNext ev) m
      (fun result n => m.GoesOn held n ∧ match result with
        | some v => n.arena.Live v
        | none => m.arena.Grows n.arena)
      (m.Halts held) := by
  rw [evalNext, ensures_bind, read?, ensures_tryCatch, ensures_map]
  refine (ensures_read ready).mono ?_ ?_
  · intro form n answers
    have ready' := answers.goesOn.ready ready
    show Ensures _ n _ _
    rw [ensures_bind]
    refine (ensures_protect ready' answers.live).mono ?_ fun _ _ stops =>
      (stops.after ready answers.goesOn.stage).halts
    rintro _ _ ⟨b, top, took, rfl⟩
    have pushed := ready'.stage_protect answers.live took
    have live := took.extends.live answers.live
    rw [ensures_bind]
    refine (preserves (pushed.ready ready') nil live).mono ?_ fun _ _ stops =>
      (stops.after ready (answers.goesOn.stage.trans ready pushed)).halts
    intro result k evaluated
    have back := ready'.unprotected answers.live took evaluated.goesOn
    rw [unprotect, ensures_bind, ensures_modify, ensures_pure]
    exact ⟨answers.goesOn.trans ready back, evaluated.live⟩
  · rintro fault n ⟨printable, goesOn, grows⟩
    split
    · exact ⟨goesOn, grows⟩
    · exact ⟨printable, goesOn.stage⟩

theorem ensures_evalLast (n : Nat) (last : Value) (ready : m.Ready held)
    (live : m.arena.Live last) :
    Ensures (evalLast ev n last) m (m.Answers held) (m.Halts held) := by
  induction n generalizing m last with
  | zero => exact ready.answers live
  | succ n ih =>
    rw [evalLast, ensures_bind]
    refine (ensures_collect ready nil live).mono ?_ fun _ _ halts => halts
    intro _ k kept
    have readyK := kept.goesOn.ready ready
    rw [ensures_bind]
    refine (ensures_evalNext preserves nil readyK).mono ?_ fun _ _ halts =>
      halts.after ready kept.goesOn.stage
    rintro result k' ⟨goesOn, live'⟩
    have goesOn' := kept.goesOn.trans ready goesOn
    rcases result with _ | result
    · exact ⟨goesOn', live'.extends'.live kept.live⟩
    · exact (ih result (goesOn'.ready ready) live').mono (fun _ _ answers =>
        answers.after ready goesOn') fun _ _ halts => halts.after ready goesOn'.stage

theorem ensures_evalTextWith (text : String) (ready : m.Ready held) :
    Ensures (evalTextWith ev text) m (fun _ n => m.GoesOn held n) fun fault n =>
      fault ≠ .unprintable ∧ n.Ready {.nil} ∧ n.stack = .nil := by
  have ready' := (ready.goesOn_console (Console.ofText text)).ready ready
  refine ensures_onConsole ready ?_
  rw [ensures_bind, rounds, ensures_bind, ensures_get, ensures_pure, ensures_bind]
  refine (ensures_evalLast preserves nil _ .nil ready' (Arena.live_nil _)).mono ?_ fun _ _ => id
  intro last n answers
  refine (ensures_print (answers.goesOn.ready ready') answers.live).mono ?_ fun _ _ => id
  rintro _ _ rfl
  exact answers.goesOn

theorem ensures_evalCounting (n count : Nat) (ready : m.Ready held) :
    Ensures (evalCounting ev n count) m (fun _ n => m.GoesOn held n) (m.Halts held) := by
  induction n generalizing m count with
  | zero => exact .refl ready
  | succ n ih =>
    rw [evalCounting, ensures_bind]
    refine (ensures_collect ready nil (Arena.live_nil _)).mono ?_ fun _ _ halts => halts
    intro _ k kept
    have readyK := kept.goesOn.ready ready
    rw [ensures_bind]
    refine (ensures_evalNext preserves nil readyK).mono ?_ fun _ _ halts =>
      halts.after ready kept.goesOn.stage
    rintro result k' ⟨goesOn, -⟩
    have goesOn' := kept.goesOn.trans ready goesOn
    rcases result with _ | result
    · exact goesOn'
    · exact (ih (count + 1) (goesOn'.ready ready)).mono (fun _ _ goesOn => goesOn'.trans ready goesOn)
        fun _ _ halts => halts.after ready goesOn'.stage

end

section

variable (nil : .nil ∈ held) (ready : m.Ready held)
include nil ready

theorem ensures_evalText (fuel : Nat) (text : String) :
    Ensures (evalText fuel text) m (fun _ n => m.GoesOn held n) fun fault n =>
      fault ≠ .unprintable ∧ n.Ready {.nil} ∧ n.stack = .nil :=
  ensures_evalTextWith (preserves_eval fuel) nil text ready

theorem ensures_load (fuel : Nat) (contents : List Byte) :
    Ensures (load fuel contents) m (fun _ n => m.GoesOn held n) fun fault n =>
      fault ≠ .unprintable ∧ n.Ready {.nil} ∧ n.stack = .nil := by
  have ready' := (ready.goesOn_console (Console.ofBytes contents)).ready ready
  refine ensures_onConsole ready ?_
  rw [ensures_bind, rounds, ensures_bind, ensures_get, ensures_pure]
  exact ensures_evalCounting (preserves_eval fuel) nil _ 0 ready'

theorem ensures_loadPath (fuel : Nat) (path : String) (found? : Option Found) :
    Ensures (loadPath fuel path found?) m (fun _ n => m.GoesOn held n) fun fault n =>
      fault ≠ .unprintable ∧ m.Settles held n := by
  have refused : ∀ reason, Fault.cannotOpen path reason ≠ .unprintable ∧ m.Settles held m :=
    fun _ => ⟨by simp [Fault.cannotOpen], .inl (.refl ready)⟩
  have settled : ∀ (fault : Fault) (n : Machine),
      fault ≠ .unprintable ∧ n.Ready {.nil} ∧ n.stack = .nil →
      fault ≠ .unprintable ∧ m.Settles held n := fun _ _ => And.imp_right .inr
  rcases found? with _ | contents | _ | reason
  · exact refused _
  · exact (ensures_load nil ready fuel contents).mono (fun _ _ => id) settled
  · have ready' := (ready.goesOn_console (Console.ofBytes [])).ready ready
    rw [loadPath]
    refine (ensures_onConsole ready ?_).mono (fun _ _ => id) settled
    rw [ensures_bind]
    refine (ensures_collect ready' nil (Arena.live_nil _)).mono ?_ fun _ _ => id
    exact fun _ n kept => ensures_throw.2 ⟨by simp, kept.goesOn.stage⟩
  · exact refused _

/-! ### Sessions -/

theorem ensures_cycle (fuel : Nat) :
    Ensures (cycle fuel) m (fun _ n => m.GoesOn held n) fun fault n =>
      m.Halts held fault n ∧ (fault.isFatal = true → n.stack = m.stack) := by
  have halts : ∀ {k fault n}, m.Stage held k → k.Stops held fault n →
      m.Halts held fault n ∧ (fault.isFatal = true → n.stack = m.stack) := by
    intro k fault n stage stops
    refine ⟨(stops.after ready stage).halts, fun fatal => ?_⟩
    rw [stops.ordinary.2] at fatal
    cases fatal
  rw [cycle, ensures_bind]
  refine (ensures_collect ready nil (Arena.live_nil _)).mono ?_ fun _ _ halts => halts
  intro _ k kept
  rw [ensures_bind, ensures_modify, ensures_bind]
  have prompted : m.GoesOn held k.prompt := kept.goesOn.trans ready
    ⟨(kept.goesOn.ready ready).stage_same rfl rfl rfl rfl, rfl⟩
  have readyK := prompted.ready ready
  refine (ensures_read readyK).mono ?_ ?_
  · intro form n answers
    have goesOn := prompted.trans ready answers.goesOn
    have readyN := goesOn.ready ready
    rw [ensures_bind]
    refine (ensures_protect readyN answers.live).mono ?_ fun _ _ stops => halts goesOn.stage stops
    rintro _ _ ⟨b, top, took, rfl⟩
    rw [ensures_bind, ensures_write, ensures_bind]
    have pushed := readyN.stage_protect answers.live took
    have readyP := pushed.ready readyN
    have fresh := readyP.goesOn_console n.console.freshLine
    have readyF := fresh.ready readyP
    refine (preserves_eval fuel readyF nil (took.extends.live answers.live)).mono ?_ ?_
    · intro result k' evaluated
      have goesOn' := fresh.trans readyP evaluated.goesOn
      have line := goesOn'.trans readyP
        ((goesOn'.ready readyP).goesOn_console k'.console.freshLine)
      rw [ensures_bind, ensures_write, ensures_bind]
      refine (ensures_print (line.ready readyP) evaluated.live).mono ?_ fun _ _ halts => halts
      rintro text _ rfl
      have shown := line.trans readyP
        ((line.ready readyP).goesOn_console (k'.console.freshLine.putText text))
      have back := goesOn.trans ready (readyN.unprotected answers.live took shown)
      rw [ensures_bind, ensures_write, unprotect, ensures_bind, ensures_modify, ensures_write]
      exact back.trans ready ((back.ready ready).goesOn_console _)
    · exact fun fault k' stops =>
        halts (goesOn.stage.trans ready (pushed.trans readyN fresh.stage)) stops
  · rintro fault n ⟨printable, goesOn, -⟩
    have goesOn' := prompted.trans ready goesOn
    exact ⟨⟨printable, goesOn'.stage⟩, fun _ => goesOn'.stack⟩

theorem ensures_turn (fuel : Nat) :
    Ensures (turn fuel) m (fun _ n => m.Settles held n) fun fault n =>
      fault ≠ .unprintable ∧ m.Settles held n := by
  rw [turn, ensures_tryCatch, ensures_bind]
  refine (ensures_cycle nil ready fuel).mono (fun _ _ goesOn => .inl goesOn) ?_
  rintro fault n ⟨halts, fatal⟩
  split
  · exact .inl ⟨halts.stage, fatal rfl⟩
  · split
    · rename_i isFatal
      exact ⟨halts.printable, .inl ⟨halts.stage, fatal isFatal⟩⟩
    · rw [ensures_bind, report, ensures_bind, ensures_modify, ensures_write, ensures_pure]
      have drop := (halts.stage.ready ready).drop
      exact .inr ⟨(drop.goesOn_console _).ready drop, rfl⟩

end

theorem ensures_turns (fuel n : Nat) (nil : .nil ∈ held) (ready : m.Ready held) :
    Ensures (turns fuel n) m (fun _ n => m.Settles held n) fun fault n =>
      fault ≠ .unprintable ∧ m.Settles held n := by
  induction n generalizing m held with
  | zero => exact .inl (.refl ready)
  | succ n ih =>
    rw [turns, ensures_bind]
    refine (ensures_turn nil ready fuel).mono ?_ fun _ _ settles => settles
    intro again k settles
    split
    -- after a fault the rest of the session has only the global environment
    · rcases settles with goesOn | ⟨ready', stack⟩
      · have onward : ∀ {k'}, k.Settles held k' → m.Settles held k' := fun settles =>
          settles.imp_left (goesOn.trans ready)
        exact (ih nil (goesOn.ready ready)).mono (fun _ _ => onward)
          fun _ _ => And.imp_right onward
      · have onward : ∀ {k'}, k.Settles {.nil} k' → m.Settles held k' := by
          rintro k' (goesOn' | settled)
          · exact .inr ⟨goesOn'.ready ready', goesOn'.stack.trans stack⟩
          · exact .inr settled
        exact (ih (by simp) ready').mono (fun _ _ => onward) fun _ _ => And.imp_right onward
    · exact settles

theorem ensures_run (fuel : Nat) (nil : .nil ∈ held) (ready : m.Ready held) :
    Ensures (run fuel) m (fun _ n => m.Settles held n) fun fault n =>
      fault ≠ .unprintable ∧ m.Settles held n := by
  have greeted := ready.goesOn_greet
  have readyG := greeted.ready ready
  have onward : ∀ {k}, m.greet.Settles held k → m.Settles held k := fun settles =>
    settles.imp_left (greeted.trans ready)
  rw [run, ensures_bind, ensures_modify, ensures_bind, rounds, ensures_bind, ensures_get,
    ensures_pure, ensures_bind]
  refine (ensures_turns fuel _ nil readyG).mono ?_ fun _ _ => And.imp_right onward
  intro _ k settles
  rw [ensures_write]
  rcases onward settles with goesOn | ⟨ready', stack⟩
  · exact .inl (goesOn.trans ready ((goesOn.ready ready).goesOn_console _))
  · exact .inr ⟨(ready'.goesOn_console _).ready ready', stack⟩

end Lisp

end ArenaLisp
