import ArenaLisp.Proofs.Machine.Discretion
import ArenaLisp.Proofs.Session.Calls
import ArenaLisp.Proofs.Text.Intake

/-!
# Machines that go on alike

Two machines are alike if they agree in all that evaluations look at, and if their consoles go on with
the same characters. They may have collected a different number of times. Evaluating one expression
after another has the same outcome in both and leaves them alike (`inStep_evalCounting`), however many
rounds are allowed beyond the characters there are.
-/

namespace ArenaLisp

namespace Machine

/-- A machine that differs from another in nothing that matters, but that is some collections
ahead. -/
structure Alike (ahead : Nat) (m n : Machine) : Prop where
  arena : n.arena = m.arena
  globe : n.globe = m.globe
  stack : n.stack = m.stack
  tee : n.tee = m.tee
  interrupted : n.interrupted = m.interrupted
  collections : n.collections = m.collections + ahead
  threshold : n.settings.threshold = m.settings.threshold
  onward : n.console.onward = m.console.onward

/-- A machine with the same cells and the same registers, that is some collections ahead. -/
structure Coincides (ahead : Nat) (m n : Machine) : Prop where
  arena : n.arena = m.arena
  globe : n.globe = m.globe
  stack : n.stack = m.stack
  tee : n.tee = m.tee
  collections : n.collections = m.collections + ahead

variable {ahead : Nat} {m n : Machine} {c c' : Console} {s : Settings}

theorem Alike.coincides (alike : Alike ahead m n) :
    Coincides ahead { m with console := c } { n with console := c' } :=
  ⟨alike.arena, alike.globe, alike.stack, alike.tee, alike.collections⟩

theorem Alike.guise (alike : Alike ahead m n) : n = m.guise n.console n.settings ahead := by
  obtain ⟨arena, globe, stack, tee, interrupted, collections, -, -⟩ := alike
  cases n
  cases arena
  cases globe
  cases stack
  cases tee
  cases interrupted
  cases collections
  rfl

theorem alike_guise (threshold : s.threshold = m.settings.threshold)
    (onward : c.onward = m.console.onward) : Alike ahead m (m.guise c s ahead) :=
  ⟨rfl, rfl, rfl, rfl, rfl, rfl, threshold, onward⟩

theorem Alike.write (alike : Alike ahead m n) (unread : c.unread = n.console.unread) :
    Alike ahead m { n with console := c } := by
  obtain ⟨arena, globe, stack, tee, interrupted, collections, threshold, onward⟩ := alike
  exact ⟨arena, globe, stack, tee, interrupted, collections, threshold,
    (Console.onward_congr unread).trans onward⟩

theorem Alike.drop (alike : Alike ahead m n) :
    Alike ahead { m with stack := .nil } { n with stack := .nil } := by
  obtain ⟨arena, globe, -, tee, interrupted, collections, threshold, onward⟩ := alike
  exact ⟨arena, globe, rfl, tee, interrupted, collections, threshold, onward⟩

theorem Alike.pop (alike : Alike ahead m n) :
    Alike ahead { m with stack := m.arena.cdr m.stack } { n with stack := n.arena.cdr n.stack } := by
  obtain ⟨arena, globe, stack, tee, interrupted, collections, threshold, onward⟩ := alike
  exact ⟨arena, globe, by rw [arena, stack], tee, interrupted, collections, threshold, onward⟩

theorem Alike.collect (alike : Alike ahead m n) (form env : Value) :
    Alike ahead (m.collect form env) (n.collect form env) := by
  obtain ⟨arena, globe, stack, tee, interrupted, collections, threshold, onward⟩ := alike
  refine ⟨?_, globe, stack, tee, interrupted, ?_, threshold, onward⟩
  · show n.arena.collect [n.tee, n.globe, n.stack, form, env] =
      m.arena.collect [m.tee, m.globe, m.stack, form, env]
    rw [arena, globe, stack, tee]
  · show n.collections + 1 = m.collections + 1 + ahead
    omega

end Machine

namespace Lisp

open Machine

variable {α β : Type} {x y : Lisp α} {ahead : Nat} {m n : Machine} {ev : Evaluator}

/-- Computations that have one outcome, if any, and leave their machines alike. -/
def InStep (ahead : Nat) (x y : Lisp α) (m n : Machine) : Prop :=
  Option.Rel (fun p q => q.1 = p.1 ∧ p.2.Alike ahead q.2) (x m) (y n)

namespace InStep

theorem bind {f g : α → Lisp β} (first : InStep ahead x y m n)
    (next : ∀ v m' n', x m = some (.ok v, m') → y n = some (.ok v, n') → m'.Alike ahead n' →
      InStep ahead (f v) (g v) m' n') : InStep ahead (x >>= f) (y >>= g) m n := by
  unfold InStep at first ⊢
  rw [bind_apply, bind_apply]
  rcases ran : x m with _ | ⟨outcome, m'⟩
  · rw [ran] at first
    rcases ran' : y n with _ | _
    · exact .none
    · rw [ran'] at first
      cases first
  · rw [ran] at first
    rcases ran' : y n with _ | ⟨outcome', n'⟩
    · rw [ran'] at first
      cases first
    · rw [ran'] at first
      obtain ⟨same, alike⟩ : outcome' = outcome ∧ m'.Alike ahead n' := by
        cases first
        assumption
      subst same
      cases outcome' with
      | error fault => exact .some ⟨rfl, alike⟩
      | ok v => exact next v m' n' ran ran' alike

theorem some {outcome : Except Fault α} {k : Machine} (inStep : InStep ahead x y m n)
    (ran : x m = some (outcome, k)) : ∃ k', y n = some (outcome, k') ∧ k.Alike ahead k' := by
  unfold InStep at inStep
  rw [ran] at inStep
  rcases ran' : y n with _ | ⟨outcome', k'⟩
  · rw [ran'] at inStep
    cases inStep
  · rw [ran'] at inStep
    obtain ⟨same, alike⟩ : outcome' = outcome ∧ k.Alike ahead k' := by
      cases inStep
      assumption
    exact ⟨k', by rw [same], alike⟩

theorem some_right {outcome : Except Fault α} {k' : Machine} (inStep : InStep ahead x y m n)
    (ran : y n = Option.some (outcome, k')) :
    ∃ k, x m = Option.some (outcome, k) ∧ k.Alike ahead k' := by
  unfold InStep at inStep
  rw [ran] at inStep
  rcases ran' : x m with _ | ⟨outcome', k⟩
  · rw [ran'] at inStep
    cases inStep
  · rw [ran'] at inStep
    obtain ⟨same, alike⟩ : outcome = outcome' ∧ k.Alike ahead k' := by
      cases inStep
      assumption
    exact ⟨k, by rw [same], alike⟩

theorem none (inStep : InStep ahead x y m n) (never : x m = none) : y n = none := by
  unfold InStep at inStep
  rw [never] at inStep
  rcases ran' : y n with _ | _
  · rfl
  · rw [ran'] at inStep
    cases inStep

end InStep

theorem Discreet.inStep (discreet : Discreet x) (alike : m.Alike ahead n) : InStep ahead x x m n := by
  unfold InStep
  rw [alike.guise, discreet m n.console n.settings ahead alike.threshold]
  rcases ran : x m with _ | ⟨outcome, m'⟩
  · exact .none
  · obtain ⟨console, settings⟩ := discreet.kept ran
    refine .some ⟨rfl, alike_guise ?_ ?_⟩
    · rw [settings, alike.threshold]
    · rw [console, alike.onward]

theorem inStep_read (alike : m.Alike ahead n) : InStep ahead read read m n := by
  obtain ⟨c, is, onward⟩ := Console.read_of_onward (a := m.arena) alike.onward
  rw [InStep, read_apply, read_apply, alike.arena, is]
  obtain ⟨-, globe, stack, tee, interrupted, collections, threshold, -⟩ := alike
  exact .some ⟨rfl, rfl, globe, stack, tee, interrupted, collections, threshold, onward⟩

/-! ### Evaluating one expression after another -/

theorem map_apply {α β : Type} (f : α → β) (x : Lisp α) (m : Machine) :
    (f <$> x) m = (x m).map fun after => (after.1.map f, after.2) := by
  rw [map_eq_pure_bind, bind_apply]
  rcases x m with _ | ⟨_ | _, _⟩ <;> rfl

/-- What is left of a computation at another console when the old one is back. -/
def leave {α : Type} (saved : Console) : Except Fault α × Machine → Except Fault α × Machine
  | (.ok v, n) => (.ok v, { n with console := saved })
  | (.error fault, n) => (.error fault, { n with console := saved, stack := .nil })

theorem withConsole_apply {α : Type} (c : Console) (f : Lisp α) (m : Machine) :
    withConsole c f m = (f { m with console := c }).map (leave m.console) := by
  rcases m with ⟨arena, saved, settings, globe, stack, tee, interrupted, collections⟩
  unfold withConsole
  dsimp only
  rcases f ⟨arena, c, settings, globe, stack, tee, interrupted, collections⟩ with
    _ | ⟨_ | _, _⟩ <;> rfl

theorem of_withConsole {α : Type} {f : Lisp α} {outcome : Except Fault α}
    (ran : withConsole c f m = some (outcome, n)) :
    ∃ inside, f { m with console := c } = some (outcome, inside) ∧ n.console = m.console := by
  rw [withConsole_apply] at ran
  obtain ⟨⟨_ | _, inside⟩, within, left⟩ := Option.map_eq_some_iff.1 ran
  · cases left
    exact ⟨inside, within, rfl⟩
  · cases left
    exact ⟨inside, within, rfl⟩

theorem evalCounting_succ_apply (ev : Evaluator) (limit count : Nat) (m : Machine) :
    evalCounting ev (limit + 1) count m = match evalNext ev (m.collect .nil .nil) with
      | none => none
      | some (.ok none, k) => some (.ok count, k)
      | some (.ok (some _), k) => evalCounting ev limit (count + 1) k
      | some (.error fault, k) => some (.error fault, k) := by
  show (evalNext ev >>= _) (m.collect .nil .nil) = _
  rw [bind_apply]
  rcases evalNext ev (m.collect .nil .nil) with _ | ⟨fault | _ | v, k⟩ <;> rfl

theorem evalCounting_add (ev : Evaluator) (limit count : Nat) (m : Machine) :
    evalCounting ev limit count m =
      (evalCounting ev limit 0 m).map fun after => (after.1.map (count + ·), after.2) := by
  have step : ∀ i, evalCounting ev limit (count + i) m =
      (evalCounting ev limit i m).map fun after => (after.1.map (count + ·), after.2) := by
    induction limit generalizing m with
    | zero => exact fun _ => rfl
    | succ limit ih =>
      intro i
      rw [evalCounting_succ_apply, evalCounting_succ_apply]
      rcases evalNext ev (m.collect .nil .nil) with _ | ⟨fault | _ | v, k⟩
      · rfl
      · rfl
      · rfl
      · exact ih k (i + 1)
  exact step 0

/-- Loads no more than a given number of the expressions of a file. -/
def loadAtMost (fuel limit : Nat) (contents : List Byte) : Lisp Nat :=
  withConsole (Console.ofBytes contents) (evalCounting (eval fuel) limit 0)

theorem loadAtMost_apply (fuel limit : Nat) (contents : List Byte) (m : Machine) :
    loadAtMost fuel limit contents m =
      (evalCounting (eval fuel) limit 0 { m with console := Console.ofBytes contents }).map
        (leave m.console) := by
  rw [loadAtMost, withConsole_apply]

theorem load_eq_loadAtMost (fuel : Nat) (contents : List Byte) (m : Machine) :
    load fuel contents m = loadAtMost fuel (contents.length + 1) contents m := by
  have length : (Console.ofBytes contents).unread.length = contents.length := List.length_map _
  rw [load, loadAtMost, ← length]
  rfl

/-- Evaluates an expression that is protected meanwhile. -/
def evalKept (ev : Evaluator) (form : Value) : Lisp Value := do
  protect form
  let result ← ev form .nil
  unprotect
  return result

theorem evalNext_apply (ev : Evaluator) (m : Machine) :
    evalNext ev m = match read m with
      | none => none
      | some (.ok form, k) => (evalKept ev form k).map fun after => (after.1.map some, after.2)
      | some (.error .endOfInput, k) => some (.ok none, k)
      | some (.error fault, k) => some (.error fault, k) := by
  have whole : evalNext ev = read? >>= fun result =>
      result.elim (pure none) fun form => some <$> evalKept ev form := by
    refine bind_congr fun result => ?_
    cases result with
    | none => rfl
    | some form => simp only [evalKept, map_eq_pure_bind, bind_assoc, pure_bind, Option.elim]
  rw [whole, bind_apply, read?, tryCatch_apply, map_apply]
  rcases read m with _ | ⟨fault | form, k⟩
  · rfl
  · cases fault <;> rfl
  · exact map_apply some (evalKept ev form) k

theorem length_read {outcome : Except Fault Value} {k : Machine} (ran : read m = some (outcome, k))
    (found : outcome ≠ .error .endOfInput) :
    k.console.unread.length < m.console.unread.length := by
  have shorter := (Reading.length_run (m.console.unread.length + 1) [] m.console m.arena).2
  rw [read_apply] at ran
  obtain ⟨rfl, rfl⟩ := Prod.mk.inj (Option.some.inj ran)
  exact shorter found

section

variable (discreet : ∀ form env, Discreet (ev form env))
include discreet

theorem discreet_evalKept (form : Value) : Discreet (evalKept ev form) :=
  .bind (discreet_protect form) fun _ => .bind (discreet form .nil) fun result =>
    .bind discreet_unprotect fun _ => .pure result

theorem inStep_evalNext (alike : m.Alike ahead n) :
    InStep ahead (evalNext ev) (evalNext ev) m n := by
  have reads := inStep_read alike
  rw [InStep, evalNext_apply, evalNext_apply]
  rcases ran : read m with _ | ⟨fault | form, k⟩
  · rw [reads.none ran]
    exact .none
  · obtain ⟨k', ran', alike'⟩ := reads.some ran
    rw [ran']
    cases fault <;> exact .some ⟨rfl, alike'⟩
  · obtain ⟨k', ran', alike'⟩ := reads.some ran
    rw [ran']
    have evals := (discreet_evalKept discreet form).inStep alike'
    dsimp only
    rcases ran : evalKept ev form k with _ | ⟨outcome, p⟩
    · rw [evals.none ran]
      exact .none
    · obtain ⟨p', ran', alikeP⟩ := evals.some ran
      rw [ran']
      exact .some ⟨rfl, alikeP⟩

theorem length_evalNext {v : Value} {k : Machine} (ran : evalNext ev m = some (.ok (some v), k)) :
    k.console.unread.length < m.console.unread.length := by
  rw [evalNext_apply] at ran
  rcases received : read m with _ | ⟨fault | form, k'⟩
  · rw [received] at ran
    cases ran
  · rw [received] at ran
    cases fault <;> cases ran
  · rw [received] at ran
    obtain ⟨⟨_ | w, k''⟩, evaluated, is⟩ := Option.map_eq_some_iff.1 ran
    · cases is
    cases is
    rw [((discreet_evalKept discreet form).kept evaluated).1]
    exact length_read received (by simp)

/-- Evaluating expressions has the same outcome in machines that are alike when they have collected,
with any number of rounds that exceeds the number of characters. -/
theorem inStep_evalCounting {i j : Nat} (count : Nat)
    (collected : (m.collect .nil .nil).Alike ahead (n.collect .nil .nil))
    (hi : m.console.unread.length < i) (hj : n.console.unread.length < j) :
    InStep ahead (evalCounting ev i count) (evalCounting ev j count) m n := by
  induction i generalizing j count m n with
  | zero => omega
  | succ i ih =>
    obtain _ | j := j
    · omega
    refine (inStep_evalNext discreet collected).bind fun result k k' ran ran' alike' => ?_
    cases result with
    | none => exact (Discreet.pure count).inStep alike'
    | some v =>
      have less := length_evalNext discreet ran
      have less' := length_evalNext discreet ran'
      exact ih (count + 1) (alike'.collect .nil .nil) (Nat.lt_of_lt_of_le less (Nat.le_of_lt_succ hi))
        (Nat.lt_of_lt_of_le less' (Nat.le_of_lt_succ hj))

end

end Lisp

end ArenaLisp
