import ArenaLisp.Proofs.Machine.Spelling
import ArenaLisp.Proofs.Session.Courses

/-!
# Reading undoes printing

A host may store any tree, but the text it speaks in has names for some symbols only. A machine that
was spoken to in such text has no other symbols (`Spoken.legible`). So every value that a session
prints can be read back: what is printed is the text of its tree, and reading that gives the tree, in
as many cells as it has symbols and pairs (`reading_undoes_printing`).
-/

namespace ArenaLisp

namespace Lisp

open Spells

variable {α : Type} {ev : Evaluator} {m n : Machine}

theorem spells_read : Spells read := by
  intro m
  have after := Console.spelled_read m.console m.arena
  rw [Ensures, read_apply]
  rcases (m.console.read m.arena).1 with _ | _
  · exact after
  · exact after

theorem spells_withConsole {f : Lisp α} (spells : Spells f) (c : Console) :
    Spells (withConsole c f) :=
  fun m => ensures_withConsole.2 (spells { m with console := c })

theorem spells_rounds : Spells rounds :=
  .bind .get fun _ => .pure _

/-! ### Silent evaluation -/

section

variable (spells : ∀ form env, Spells (ev form env))
include spells

theorem spells_evalNext : Spells (evalNext ev) := by
  have read? : Spells read? := .tryCatch (.map spells_read) fun fault => by
    split
    · exact .pure _
    · exact .throw _
  refine .bind read? fun form => ?_
  split
  · exact .pure _
  · exact .bind (spells_protect _) fun _ => .bind (spells _ _) fun _ => .bind spells_unprotect
      fun _ => .pure _

theorem spells_evalLast (n : Nat) (last : Value) : Spells (evalLast ev n last) := by
  induction n generalizing last with
  | zero => exact .pure _
  | succ n ih =>
    refine .bind (.collect _ _) fun _ => .bind (spells_evalNext spells) fun result => ?_
    split
    · exact .pure _
    · exact ih _

theorem spells_evalTextWith (text : String) : Spells (evalTextWith ev text) :=
  spells_withConsole (.bind spells_rounds fun _ => .bind (spells_evalLast spells _ _) fun _ =>
    .answer _) _

theorem spells_evalCounting (n count : Nat) : Spells (evalCounting ev n count) := by
  induction n generalizing count with
  | zero => exact .pure _
  | succ n ih =>
    refine .bind (.collect _ _) fun _ => .bind (spells_evalNext spells) fun result => ?_
    split
    · exact .pure _
    · exact ih _

end

theorem evalText_legible {fuel : Nat} {text out : String} (legible : m.arena.Legible)
    (ran : evalText fuel text m = some (.ok out, n)) : ∃ t : Sexp, t.Legible ∧ out = t.text := by
  have prints : Ensures (evalText fuel text) m (fun out _ => ∃ t : Sexp, t.Legible ∧ out = t.text)
      fun _ _ => True := by
    rw [evalText, evalTextWith, ensures_withConsole, ensures_bind]
    refine (spells_rounds { m with console := Console.ofText text }).mono ?_ fun _ _ _ => trivial
    intro rounds k counted
    rw [ensures_bind]
    refine (spells_evalLast (spells_eval fuel) rounds .nil k).mono ?_ fun _ _ _ => trivial
    intro last k evaluated
    rw [print, ensures_answer]
    rintro (fault | out) printed
    · trivial
    · obtain ⟨t, unfolds, same⟩ := Arena.unfolds_of_print printed
      exact ⟨t, ((counted.trans evaluated).legible legible).tree unfolds, same⟩
  exact prints.ok ran

theorem spells_load (fuel : Nat) (contents : List Byte) : Spells (load fuel contents) :=
  spells_withConsole (.bind spells_rounds fun _ => spells_evalCounting (spells_eval fuel) _ _) _

theorem spells_loadPath (fuel : Nat) (path : String) (found? : Option Found) :
    Spells (loadPath fuel path found?) := by
  rcases found? with _ | contents | _ | reason
  · exact .throw _
  · exact spells_load fuel contents
  · rw [loadPath]
    exact spells_withConsole (.bind (.collect _ _) fun _ => .throw _) _
  · exact .throw _

/-! ### Sessions -/

theorem spells_receive : Spells receive :=
  .bind spells_read fun _ => .bind (spells_protect _) fun _ => .pure _

theorem spells_conclude (result : Value) : Spells (conclude result) :=
  .bind (.write _) fun _ => .bind (.answer _) fun _ => .bind (.write _) fun _ =>
    .bind spells_unprotect fun _ => .write _

theorem spells_cycle (fuel : Nat) : Spells (cycle fuel) := by
  rw [cycle_eq]
  exact .bind (.collect _ _) fun _ => .bind (.modify fun _ => rfl) fun _ =>
    .bind spells_receive fun _ => .bind (.write _) fun _ => .bind (spells_eval _ _ _) fun _ =>
      spells_conclude _

theorem spells_report (fault : Fault) : Spells (report fault) :=
  .bind (.modify fun _ => rfl) fun _ => .write _

theorem spells_turn (fuel : Nat) : Spells (turn fuel) := by
  refine .tryCatch (.bind (spells_cycle fuel) fun _ => .pure _) fun fault => ?_
  split
  · exact .pure _
  · split
    · exact .throw _
    · exact .bind (spells_report _) fun _ => .pure _

theorem spells_turns (fuel n : Nat) : Spells (turns fuel n) := by
  induction n with
  | zero => exact .pure _
  | succ n ih =>
    refine .bind (spells_turn fuel) fun again => ?_
    split
    · exact ih
    · exact .pure _

theorem spells_run (fuel : Nat) : Spells (run fuel) :=
  .bind (.modify fun _ => rfl) fun _ => .bind spells_rounds fun _ => .bind (spells_turns fuel _)
    fun _ => .write _

/-- Every call of a host but one that stores a tree with other symbols. -/
theorem spells_perform (fuel : Nat) (call : Call) (legible : ∀ t, call = .tree t → t.Legible) :
    Spells (call.perform fuel) := by
  cases call with
  | read => exact .map spells_read
  | eval => exact .map (spells_eval _ _ _)
  | evalText => exact .map (spells_evalTextWith (spells_eval fuel) _)
  | load => exact .map (spells_loadPath _ _ _)
  | run => exact .map (spells_run fuel)
  | collect => exact .map (.collect _ _)
  | report => exact .map (spells_report _)
  | interrupt => exact .map (.modify fun _ => rfl)
  | frame => exact .map (.store (Arena.spells_cons _ _))
  | bind => exact .map (.store (Arena.spells_bind _ _ _))
  | tree t => exact .map (.store (Arena.spells_store (legible t rfl)))
  | protect => exact .map (spells_protect _)
  | unprotect => exact .map spells_unprotect

/-- The value that a turn evaluates an expression to, and the machine then. -/
def Presents (fuel : Nat) (m : Machine) (v : Value) (p : Machine) : Prop :=
  ∃ form k, receive (m.collect .nil .nil).prompt = some (.ok form, k) ∧
    eval fuel form .nil { k with console := k.console.freshLine } = some (.ok v, p)

theorem conclude_of_unfolds {v : Value} {t : Sexp} (unfolds : m.arena.Unfolds v t) :
    ∃ n, conclude v m = some (.ok (), n) ∧
      n.console = ((m.console.freshLine.putText t.text).freshLine).endLine := by
  refine ⟨{ m with
    console := ((m.console.freshLine.putText t.text).freshLine).endLine
    stack := m.arena.cdr m.stack }, ?_, rfl⟩
  show (print v >>= _) { m with console := m.console.freshLine } = _
  rw [bind_apply, print, answer]
  simp only [unfolds.print_eq]
  rfl

end Lisp

/-- The machines that a host can come to that stores no symbols but those that can be read. It may
give a machine another console, or more to read, at any time. -/
inductive Spoken : Machine → Prop where
  | start {settings : Settings} {console : Console} {m : Machine} :
    Machine.new settings console = .ok m → Spoken m
  | console {m : Machine} {c : Console} : Spoken m → Spoken { m with console := c }
  | call {fuel : Nat} {call : Call} {m n : Machine} {outcome : Except Fault (Option Value)} :
    Spoken m → (∀ t, call = .tree t → t.Legible) → call.perform fuel m = some (outcome, n) →
    Spoken n
  | turn {fuel : Nat} {m n : Machine} {outcome : Except Fault Bool} :
    Spoken m → Lisp.turn fuel m = some (outcome, n) → Spoken n

/-- The arena of a machine that was spoken to comes from a new one, with cells taken for no symbols but
those that can be read. -/
theorem Spoken.spelled {m : Machine} (spoken : Spoken m) :
    ∃ size, (Arena.new size).Spelled m.arena := by
  induction spoken with
  | @start settings _ _ made =>
    -- a new machine has taken one cell, for the truth value
    have named : Symbol.tee.Legible := Symbol.legible_ofBuiltin (by simp)
    have after := (Arena.spells_symbol named).outcome (Arena.new settings.workspace)
    unfold Machine.new at made
    split at made
    · cases made
    · rename_i ran
      cases made
      rw [ran] at after
      exact ⟨_, after⟩
  | console _ ih => exact ih
  | call _ legible performed ih =>
    obtain ⟨size, spelled⟩ := ih
    exact ⟨size, spelled.trans ((Lisp.spells_perform _ _ legible).outcome performed)⟩
  | turn _ ran ih =>
    obtain ⟨size, spelled⟩ := ih
    exact ⟨size, spelled.trans ((Lisp.spells_turn _).outcome ran)⟩

theorem Spoken.legible {m : Machine} (spoken : Spoken m) : m.arena.Legible := by
  obtain ⟨size, spelled⟩ := spoken.spelled
  exact spelled.legible (Arena.legible_new size)

theorem Spoken.presents {fuel : Nat} {m p : Machine} {v : Value} {t : Sexp} (spoken : Spoken m)
    (presents : Lisp.Presents fuel m v p) (unfolds : p.arena.Unfolds v t) :
    t.Legible ∧ ∃ n, Lisp.cycle fuel m = some (.ok (), n) ∧
      n.console = ((p.console.freshLine.putText t.text).freshLine).endLine := by
  obtain ⟨form, k, received, evaluated⟩ := presents
  have collected := Arena.Spelled.collect (a := m.arena) [m.tee, m.globe, m.stack, .nil, .nil]
  have first := collected.trans (Lisp.spells_receive.outcome received)
  have second := (Lisp.spells_eval fuel form .nil).outcome evaluated
  refine ⟨((first.trans second).legible spoken.legible).tree unfolds, ?_⟩
  rw [Lisp.cycle_of_received received, Lisp.bind_apply, evaluated]
  exact Lisp.conclude_of_unfolds unfolds

/-- What reading the text of a tree comes to in an arena, with some input after the text: the tree,
in as many cells as it has symbols and pairs, or no room. -/
structure Console.ReadsBack (c : Console) (a : Arena) (t : Sexp) (rest : List Byte) : Prop where
  room : t.size ≤ a.freeCount → ∃ v c' b, c.read a = (.ok v, c', b) ∧ a.Stored t v b ∧
    c'.unread = t.leaves rest
  noRoom : a.freeCount < t.size → ∃ c' b, c.read a = (.error .noRoom, c', b)

theorem Console.readsBack {c : Console} {a : Arena} {t : Sexp} {rest : List Byte}
    (legible : t.Legible) (ends : t.Ends rest) (unread : c.unread = Utf8.encode t.text ++ rest)
    (sound : a.Sound) : c.ReadsBack a t rest := by
  rw [Sexp.encode_text] at unread
  have read := Console.read_bytes legible ends unread sound
  refine ⟨fun enough => ?_, fun few => ?_⟩
  · obtain ⟨few, -⟩ | read := read
    · omega
    · exact read
  · obtain ⟨-, refused⟩ | ⟨v, c', b, -, stored, -⟩ := read
    · exact refused
    · have count := stored.count
      omega

/-- A value with a legible tree has a text, and reading the text gives the tree and takes no more
than its text. So legible trees with one text are one tree. A machine that was spoken to has no
symbols but legible ones: what it prints at the end of a cycle, or answers for a text, is the text of
a legible tree. -/
theorem reading_undoes_printing :
    (∀ (a : Arena) (v : Value) (t : Sexp), a.Unfolds v t → t.Legible →
      a.print v = some (.ok t.text) ∧
      ∀ (c : Console) (b : Arena) (rest : List Byte), b.Sound → t.Ends rest →
        c.unread = Utf8.encode t.text ++ rest → c.ReadsBack b t rest) ∧
    (∀ (a b : Arena) (v w : Value) (s t : Sexp), a.Unfolds v s → s.Legible → b.Unfolds w t →
      t.Legible → a.print v = b.print w → s = t) ∧
    (∀ m : Machine, Spoken m → m.arena.Legible ∧ ∃ size, (Arena.new size).Spelled m.arena) ∧
    (∀ (fuel : Nat) (m p : Machine) (v : Value) (t : Sexp), Spoken m → Lisp.Presents fuel m v p →
      p.arena.Unfolds v t → t.Legible ∧ ∃ n, Lisp.cycle fuel m = some (.ok (), n) ∧
        n.console = ((p.console.freshLine.putText t.text).freshLine).endLine) ∧
    ∀ (fuel : Nat) (m n : Machine) (text out : String), Spoken m →
      Lisp.evalText fuel text m = some (.ok out, n) → ∃ t : Sexp, t.Legible ∧ out = t.text := by
  refine ⟨?_, ?_, fun m spoken => ⟨spoken.legible, spoken.spelled⟩,
    fun _ _ _ _ _ => Spoken.presents, ?_⟩
  · intro a v t unfolds legible
    refine ⟨unfolds.print_eq, fun c b rest sound ends unread => ?_⟩
    exact Console.readsBack legible ends unread sound
  · intro a b v w s t first legible second legible' same
    rw [first.print_eq, second.print_eq] at same
    exact Sexp.eq_of_text legible legible' (by simpa using same)
  · exact fun fuel m n text out spoken ran => Lisp.evalText_legible spoken.legible ran

/-- The tree of the value that the first expression of a text is evaluated to. -/
def presented (text : String) : Option Sexp :=
  match Machine.new { workspace := 24 } (Console.ofText text) with
  | .ok m =>
    match Lisp.receive (m.collect .nil .nil).prompt with
    | some (.ok form, k) =>
      match Lisp.eval 8 form .nil { k with console := k.console.freshLine } with
      | some (.ok v, p) => (p.arena.unfold v).bind Except.toOption
      | _ => none
    | _ => none
  | .error _ => none

theorem presents_of_presented {text : String} {t : Sexp} (h : presented text = some t) :
    ∃ (m p : Machine) (v : Value), Spoken m ∧ Lisp.Presents 8 m v p ∧ p.arena.Unfolds v t := by
  unfold presented at h
  split at h
  · rename_i m new
    split at h
    · rename_i form k received
      split at h
      · rename_i v p evaluated
        obtain ⟨result, unfolded, is⟩ := Option.bind_eq_some_iff.1 h
        cases result with
        | error fault => cases is
        | ok tree =>
          cases is
          exact ⟨m, p, v, .start new, ⟨form, k, received, evaluated⟩,
            Arena.unfolds_of_unfoldWithin unfolded⟩
      · cases h
    · cases h
  · cases h

/-- A pair is printed, and read back into three cells from a text that goes on behind it. -/
theorem reading_undoes_printing_pair :
    ∃ (m p : Machine) (v : Value) (t : Sexp), Spoken m ∧ Lisp.Presents 8 m v p ∧
      p.arena.print v = some (.ok "(A . B)") ∧
      (∃ w c b, Console.read { pending := Utf8.encode "(A . B)C" } (Arena.new 3) = (.ok w, c, b) ∧
        b.Unfolds w t ∧ p.arena.Unfolds v t ∧ b.freeCount = 0 ∧ c.unread = Utf8.encode "C") ∧
      ∃ c b, Console.read { pending := Utf8.encode "(A . B)C" } (Arena.new 2) =
        (.error .noRoom, c, b) := by
  have evaluated : presented "(CONS 'A 'B)" = some (.pair (.symbol ⟨1600⟩) (.symbol ⟨3200⟩)) := by
    decide +kernel
  obtain ⟨m, p, v, spoken, presents, unfolds⟩ := presents_of_presented evaluated
  obtain ⟨readsBack, -, -, results, -⟩ := reading_undoes_printing
  obtain ⟨legible, -⟩ := results 8 m p v _ spoken presents unfolds
  obtain ⟨printed, reads⟩ := readsBack p.arena v _ unfolds legible
  have input : Utf8.encode "(A . B)C" =
      Utf8.encode (Sexp.pair (.symbol ⟨1600⟩) (.symbol ⟨3200⟩)).text ++ Utf8.encode "C" := by
    decide +kernel
  have back := fun size => reads { pending := Utf8.encode "(A . B)C" } (Arena.new size)
    (Utf8.encode "C") (Arena.sound_new size) trivial input
  obtain ⟨w, c, b, read, stored, left⟩ := (back 3).room (by decide +kernel)
  have count := stored.count
  rw [Arena.freeCount_new] at count
  refine ⟨m, p, v, _, spoken, presents, printed.trans (by decide +kernel),
    ⟨w, c, b, read, stored.unfolds, unfolds, ?_, left⟩, (back 2).noRoom (by decide +kernel)⟩
  simpa [Sexp.size] using count

end ArenaLisp
