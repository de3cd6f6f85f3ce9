import ArenaLisp.Proofs.Machine.Collection
import ArenaLisp.Proofs.Session.Likeness
import ArenaLisp.Proofs.Session.Runs
import ArenaLisp.Proofs.Text.Phrases

/-!
# Loading a concatenation

A text of complete expressions is loaded in the same way whatever follows it, since no read inside it
sees what comes after (`evalNext_trailing`). The collection at its end leaves nothing for the
collection before the next expression to free. So a load of two texts one after the other is a load of
both, with one collection more (`Machine.load_append`).
-/

namespace ArenaLisp

namespace Lisp

open Machine Token

variable {m k : Machine} {held : Set Value} {ev : Evaluator} {d : Console}
  {phrase tokens : List Token} {rest rest' blanks later : List Byte} {result : Option Value}

theorem evalNext_of_blanks (blank : ∀ b ∈ m.console.unread, b.isBlank = true) (ev : Evaluator) :
    ∃ c, evalNext ev m = some (.ok none, { m with console := c }) := by
  have none : m.console.nextToken.1 = none := by
    have passed := skipped_blanks blank []
    rw [List.append_nil] at passed
    show (scanItem (skipped m.console.unread).2).token? = none
    rw [passed]
    rfl
  have ended : read m = some (.error .endOfInput, { m with console := m.console.nextToken.2 }) := by
    rw [read_apply, Console.read, Reading.run]
    rw [show m.console.nextToken = (Option.none, m.console.nextToken.2) from Prod.ext none rfl]
  refine ⟨m.console.nextToken.2, ?_⟩
  rw [evalNext_apply, ended]

/-- An expression is evaluated in the same way whatever follows it. -/
theorem evalNext_trailing (discreet : ∀ form env, Discreet (ev form env))
    (spans : Spans .expression phrase) (lexes : Lexes m.console.unread (phrase ++ tokens) rest)
    (lexes' : Lexes d.unread (phrase ++ tokens) rest')
    (ran : evalNext ev m = some (.ok result, k)) :
    ∃ v d', result = some v ∧
      evalNext ev { m with console := d } = some (.ok (some v), { k with console := d' }) ∧
      Lexes k.console.unread tokens rest ∧ Lexes d'.unread tokens rest' := by
  have reads := Reading.run_of_resume lexes (Nat.lt_succ_self _) [] m.arena
  have reads' := Reading.run_of_resume lexes' (Nat.lt_succ_self _) [] m.arena
  rcases Reading.resume_expression spans tokens m.arena with
    ⟨form, b, taken⟩ | ⟨fault, b, refused, mild⟩
  · rw [taken] at reads reads'
    obtain ⟨c', found, left⟩ := reads
    obtain ⟨d', found', left'⟩ := reads'
    have received : read m = some (.ok form, { m with console := c', arena := b }) := by
      rw [read_apply, Console.read, found]
    have received' : read { m with console := d } =
        some (.ok form, { m with console := d', arena := b }) := by
      rw [read_apply]
      show some ((Console.read d m.arena).1, _) = _
      rw [Console.read, found']
    rw [evalNext_apply, received] at ran
    obtain ⟨⟨_ | v, k'⟩, evaluated, is⟩ := Option.map_eq_some_iff.1 ran
    · cases is
    cases is
    have after := discreet_evalKept discreet form
    refine ⟨v, d', rfl, ?_, ?_, left'⟩
    · rw [evalNext_apply, received']
      dsimp only
      rw [after.elsewhere evaluated d']
      rfl
    · rw [(after.kept evaluated).1]
      exact left
  · rw [refused] at reads
    obtain ⟨c', failed⟩ := reads mild
    have received : read m = some (.error fault, { m with console := c', arena := b }) := by
      rw [read_apply, Console.read, failed]
    rw [evalNext_apply, received] at ran
    cases fault with
    | endOfInput => cases mild
    | _ => cases ran

/-- A load of complete expressions that succeeds is the beginning of a load of the same with more
text after it. What the first load does at its end is a collection. -/
theorem evalCounting_trailing {fuel i j count total : Nat} {phrases : List (List Token)}
    (ready : m.Ready held) (nil : .nil ∈ held)
    (spans : ∀ phrase ∈ phrases, Spans .expression phrase)
    (blank : ∀ b ∈ blanks, b.isBlank = true) (lexes : Lexes m.console.unread phrases.flatten blanks)
    (lexes' : Lexes d.unread phrases.flatten (blanks ++ later))
    (hi : m.console.unread.length < i) (hj : d.unread.length < j)
    (ran : evalCounting (eval fuel) i count m = some (.ok total, k)) :
    ∃ (p : Machine) (c d' : Console) (j' : Nat), p.Ready held ∧
      k = { p.collect .nil .nil with console := c } ∧ d'.unread = blanks ++ later ∧
      d'.unread.length < j' ∧
      evalCounting (eval fuel) j count { m with console := d } =
        evalCounting (eval fuel) j' total { p with console := d' } := by
  induction phrases generalizing m d i j count with
  | nil =>
    obtain ⟨i, rfl⟩ : ∃ k, i = k + 1 := ⟨i - 1, by omega⟩
    generalize input : m.console.unread = unread at lexes
    generalize input' : d.unread = unread' at lexes'
    cases lexes
    cases lexes'
    obtain ⟨c, ended⟩ := evalNext_of_blanks (m := m.collect .nil .nil)
      (fun b member => blank b (input ▸ member)) (eval fuel)
    rw [evalCounting_succ_apply, ended] at ran
    cases ran
    exact ⟨m, c, d, j, ready, rfl, input', hj, rfl⟩
  | cons phrase phrases ih =>
    obtain ⟨i, rfl⟩ : ∃ k, i = k + 1 := ⟨i - 1, by omega⟩
    obtain ⟨j, rfl⟩ : ∃ k, j = k + 1 := ⟨j - 1, by omega⟩
    have readyC := (ready.stage_collect (Arena.live_nil _) (ready.live nil)).ready ready
    rw [evalCounting_succ_apply] at ran
    rcases evaluated : evalNext (eval fuel) (m.collect .nil .nil) with _ | ⟨fault | result, k'⟩
    · rw [evaluated] at ran
      cases ran
    · rw [evaluated] at ran
      cases ran
    · obtain ⟨v, d', rfl, evaluated', left, left'⟩ := evalNext_trailing (discreet_eval fuel)
        (m := m.collect .nil .nil) (spans phrase List.mem_cons_self) lexes lexes' evaluated
      rw [evaluated] at ran
      have readyK := ((ensures_evalNext (preserves_eval fuel) nil readyC).ok evaluated).1.ready readyC
      have less := length_evalNext (discreet_eval fuel) evaluated
      have less' := length_evalNext (discreet_eval fuel) evaluated'
      obtain ⟨p, c, e, j', readyP, is, unread, enough, goesOn⟩ := ih readyK
        (fun phrase member => spans phrase (List.mem_cons_of_mem _ member)) left left'
        (Nat.lt_of_lt_of_le less (Nat.le_of_lt_succ hi))
        (Nat.lt_of_lt_of_le less' (Nat.le_of_lt_succ hj)) ran
      refine ⟨p, c, e, j', readyP, is, unread, enough, ?_⟩
      have round := evalCounting_succ_apply (eval fuel) j count { m with console := d }
      rw [show Machine.collect { m with console := d } .nil .nil =
        { m.collect .nil .nil with console := d } from rfl, evaluated'] at round
      exact round.trans goesOn

end Lisp

namespace Machine

variable {m : Machine} {held : Set Value} {c d : Console}

theorem Ready.collect_again (ready : m.Ready held) :
    m.arena.collect [m.tee, m.globe, m.stack, .nil, .nil] =
      (m.arena.collect [m.tee, m.globe, m.stack, .nil, .nil]).collect
        [m.tee, m.globe, m.stack, .nil, .nil] := by
  have taken : ∀ id, m.Reachable .nil .nil id → m.arena.Taken id := fun id reached =>
    ready.sound.taken_of_reachable (Arena.live_nil _) (Arena.live_nil _) reached
  exact (Arena.collect_collect ready.sound.arena.plain taken).symm

/-- So where the next round begins does not matter, but for the count of collections. -/
theorem Ready.alike_again (ready : m.Ready held) (onward : c.onward = d.onward) :
    (Machine.collect { m with console := d } .nil .nil).Alike 1
      (Machine.collect { m.collect .nil .nil with console := c } .nil .nil) := by
  have again := ready.collect_again
  rcases m with ⟨arena, console, settings, globe, stack, tee, interrupted, collections⟩
  exact ⟨again.symm, rfl, rfl, rfl, rfl, rfl, rfl, onward⟩

open Lisp

variable {n : Machine}

theorem length_ofBytes_lt (contents : List Byte) :
    (Console.ofBytes contents).unread.length < contents.length + 1 := by
  simp [Console.ofBytes, Console.unread]

/-- After a load of a complete text that succeeds, a load of what goes on after it begins one collection
ahead of where a load of both goes on. -/
theorem load_trailing (standing : m.Standing {.nil}) {fuel : Nat} {first : List Byte} {count : Nat}
    (complete : Complete (Console.ofBytes first).unread)
    (loaded : load fuel first m = some (.ok count, n)) (second : List Byte) :
    ∃ (p : Machine) (d : Console) (j : Nat),
      n = { p.collect .nil .nil with console := m.console } ∧ d.unread.length < j ∧
      (Machine.collect { p with console := d } .nil .nil).Alike 1
        (Machine.collect { p.collect .nil .nil with console := Console.ofBytes second } .nil .nil) ∧
      load fuel (first ++ second) m =
        ((evalCounting (eval fuel) j 0 { p with console := d }).map fun after =>
          (after.1.map (count + ·), after.2)).map (leave m.console) := by
  have ready := standing.ready
  have nil : .nil ∈ m.protectedOf {.nil} := ⟨rfl, .inl rfl⟩
  obtain ⟨closed, phrases, blanks, spans, lexes, blank⟩ := complete
  let loading := { m with console := Console.ofBytes first }
  have readyL : loading.Ready (m.protectedOf {.nil}) := (ready.goesOn_console _).ready ready
  have unread : (Console.ofBytes (first ++ second)).unread =
      (Console.ofBytes first).unread ++ (Console.ofBytes second).unread := List.map_append
  have lexes' := lexes.append_right closed (Console.ofBytes second).unread
  rw [← unread] at lexes'
  rw [load_eq_loadAtMost, loadAtMost_apply] at loaded
  obtain ⟨⟨fault | total, k⟩, ran, left⟩ := Option.map_eq_some_iff.1 loaded
  · cases left
  cases left
  obtain ⟨p, c, d, j, readyP, rfl, left, enough, goesOn⟩ := evalCounting_trailing readyL nil spans
    blank lexes lexes' (length_ofBytes_lt first) (length_ofBytes_lt (first ++ second)) ran
  refine ⟨p, d, j, rfl, enough, ?_, ?_⟩
  · refine readyP.alike_again ?_
    rw [Console.onward, Console.onward, left, skipped_blanks blank]
  · rw [load_eq_loadAtMost, loadAtMost_apply, ← evalCounting_add, ← goesOn]

/-- In any machine in good standing, as all are that a host comes to (`Run.standing`), loading a text
that goes on after a complete one, as closed texts are that the reader takes
(`Console.Through.complete`), has the outcome of loading what goes on after the first was loaded, with
the sum of the counts, and it leaves the same machine behind but for one collection less. -/
theorem load_append (standing : m.Standing {.nil}) {fuel : Nat} {first second : List Byte}
    {count : Nat} (complete : Complete (Console.ofBytes first).unread)
    (loaded : load fuel first m = some (.ok count, n)) :
    (load fuel second n = none → load fuel (first ++ second) m = none) ∧
      ∀ outcome p, load fuel second n = some (outcome, p) →
        ∃ q, load fuel (first ++ second) m = some (outcome.map (count + ·), q) ∧
          q.Coincides 1 p := by
  obtain ⟨k, d, j, rfl, enough, collected, whole⟩ := load_trailing standing complete loaded second
  let after := { k.collect .nil .nil with console := Console.ofBytes second }
  have inStep := inStep_evalCounting (discreet_eval fuel) 0 collected enough (length_ofBytes_lt second)
  have rest : load fuel second { k.collect .nil .nil with console := m.console } =
      (evalCounting (eval fuel) (second.length + 1) 0 after).map (leave m.console) := by
    rw [load_eq_loadAtMost, loadAtMost_apply]
  rcases ran : evalCounting (eval fuel) j 0 { k with console := d } with _ | ⟨outcome, q⟩
  · rw [ran] at whole
    rw [inStep.none ran] at rest
    refine ⟨fun _ => whole, fun _ _ some => ?_⟩
    rw [rest] at some
    cases some
  · obtain ⟨q', ran', alike⟩ := inStep.some ran
    rw [ran] at whole
    rw [ran'] at rest
    rw [rest]
    refine ⟨fun none => (by cases none), fun _ _ some => ?_⟩
    cases outcome with
    | error fault =>
      cases some
      exact ⟨_, whole, alike.drop.coincides⟩
    | ok total =>
      cases some
      exact ⟨_, whole, alike.coincides⟩

/-- The text `(CONS T T) 'A` and the end of its line. -/
def whole : List Byte :=
  [40, 67, 79, 78, 83, 32, 84, 32, 84, 41, 32, 39, 65, 10]

theorem complete_whole : Complete (Console.ofBytes whole).unread := by
  have through : (Console.ofBytes whole).Through := by
    refine .read (a := Arena.new 9) rfl (.read (a := Arena.new 4) rfl (.blank ?_))
    decide +kernel
  refine through.complete ?_
  rintro b ⟨⟩
  rfl

/-- The outcomes of two loads, one after the other, in a new machine. -/
def twoLoads (first second : List Byte) : Option (Except Fault Nat × Option (Except Fault Nat)) :=
  match Machine.new { workspace := 20, threshold := 12 } { pending := [] } with
  | .ok m => (load 8 first m).map fun after => (after.1, (load 8 second after.2).map (·.1))
  | .error _ => none

/-- The second text has an expression that fails. -/
theorem load_append_whole :
    ∃ m n p q : Machine, m.Standing {.nil} ∧ Complete (Console.ofBytes whole).unread ∧
      load 8 whole m = some (.ok 2, n) ∧
      load 8 (Utf8.encode "T (B)") n = some (.error (.undefined "B"), p) ∧
      load 8 (whole ++ Utf8.encode "T (B)") m = some (.error (.undefined "B"), q) ∧
      q.Coincides 1 p := by
  have loads : twoLoads whole (Utf8.encode "T (B)") =
      some (.ok 2, some (.error (.undefined "B"))) := by
    decide +kernel
  unfold twoLoads at loads
  split at loads
  · rename_i m new
    have standing := standing_new new
    obtain ⟨⟨outcome, n⟩, loaded, same⟩ := Option.map_eq_some_iff.1 loads
    dsimp only at same
    rw [Prod.mk.injEq] at same
    obtain ⟨rfl, same⟩ := same
    obtain ⟨⟨outcome, p⟩, failed, is⟩ := Option.map_eq_some_iff.1 same
    dsimp only at is
    subst is
    obtain ⟨q, both, coincides⟩ := (load_append standing complete_whole loaded).2 _ p failed
    exact ⟨m, n, p, q, standing, complete_whole, loaded, failed, both, coincides⟩
  · cases loads

end Machine

end ArenaLisp
