import ArenaLisp.Proofs.Session.Likeness
import ArenaLisp.Proofs.Text.Output

/-!
# Loading is silent

Nothing is written while a file is loaded, neither on the console of the machine (`Lisp.of_load`)
nor on the one that the file is read from (`Lisp.output_evalFile`).
-/

namespace ArenaLisp

namespace Console

variable {c d e : Console}

/-- From a console without echo, nothing more was written on a later one. -/
def Unwritten (c d : Console) : Prop :=
  c.echo = false → d.echo = false ∧ d.output = c.output

theorem Unwritten.refl (c : Console) : c.Unwritten c :=
  fun mute => ⟨mute, rfl⟩

theorem Unwritten.trans (first : c.Unwritten d) (second : d.Unwritten e) : c.Unwritten e := by
  intro mute
  obtain ⟨mute', same⟩ := first mute
  obtain ⟨mute'', same'⟩ := second mute'
  exact ⟨mute'', same'.trans same⟩

theorem Copies.unwritten : c.Copies d → c.Unwritten d := by
  rintro ⟨taken, goes⟩ mute
  have output := goes.output
  rw [mute, echoOf, if_neg (by decide), List.append_nil] at output
  exact ⟨goes.echo.trans mute, Array.toList_inj.1 output⟩

end Console

namespace Lisp

variable {m k : Machine} {ev : Evaluator} {fuel limit count : Nat}

section

variable (discreet : ∀ form env, Discreet (ev form env))
include discreet

theorem unwritten_evalNext {outcome : Except Fault (Option Value)}
    (ran : evalNext ev m = some (outcome, k)) : m.console.Unwritten k.console := by
  have copies : m.console.Unwritten (m.console.read m.arena).2.1 :=
    (Console.copies_read m.console m.arena).unwritten
  rw [evalNext_apply, read_apply] at ran
  generalize (m.console.read m.arena).1 = got at ran
  rcases got with fault | form
  · cases fault
    all_goals
      cases ran
      exact copies
  · obtain ⟨⟨outcome', k'⟩, ran', is⟩ := Option.map_eq_some_iff.1 ran
    cases is
    have same : k'.console = (m.console.read m.arena).2.1 :=
      ((discreet_evalKept discreet form).kept ran').1
    rwa [same]

theorem unwritten_evalCounting {outcome : Except Fault Nat}
    (ran : evalCounting ev limit count m = some (outcome, k)) : m.console.Unwritten k.console := by
  induction limit generalizing m count with
  | zero =>
    cases ran
    exact .refl _
  | succ limit ih =>
    rw [evalCounting_succ_apply] at ran
    rcases next : evalNext ev (m.collect .nil .nil) with _ | ⟨got, n⟩
    · rw [next] at ran
      cases ran
    · have quiet : (m.collect .nil .nil).console.Unwritten n.console :=
        unwritten_evalNext discreet next
      rw [next] at ran
      rcases got with fault | _ | v
      · cases ran
        exact quiet
      · cases ran
        exact quiet
      · exact quiet.trans (ih ran)

end

/-- The evaluation of all expressions of a file, at the console that the file is read from. -/
def evalFile (fuel : Nat) (contents : List Byte) : Lisp Nat := fun m =>
  (do evalCounting (eval fuel) (← rounds) 0 : Lisp Nat) { m with console := Console.ofBytes contents }

theorem of_load {contents : List Byte} {outcome : Except Fault Nat}
    (ran : load fuel contents m = some (outcome, n)) :
    ∃ inside, evalFile fuel contents m = some (outcome, inside) ∧ n.console = m.console :=
  of_withConsole ran

theorem output_evalFile {contents : List Byte} {outcome : Except Fault Nat}
    (ran : evalFile fuel contents m = some (outcome, k)) : k.console.output = #[] :=
  (unwritten_evalCounting (discreet_eval fuel) ran rfl).2

end Lisp

end ArenaLisp
