import ArenaLisp.Proofs.Arena.Planting
import ArenaLisp.Proofs.Session.Calls

/-!
# Runs of a machine

A host makes a machine and then makes calls in any order, each of which may fail. Beside the machine
a run keeps account of the environments that the host has built and that no call can have collected
since. Whatever the calls, the machine stays in good standing (`Run.standing`), so that no value it
hands out ever leads to a free cell (`Run.heap_safe`).
-/

namespace ArenaLisp

/-- What a host may ask of a machine. -/
inductive Call where
  | read
  | eval (form env : Value)
  | evalText (text : String)
  | load (path : String) (found? : Option Found)
  | run
  | collect
  | report (fault : Fault)
  | interrupt
  | frame (env : Value)
  | bind (var val env : Value)
  | tree (t : Sexp)
  | protect (v : Value)
  | unprotect

namespace Call

open Lisp Machine

/-- The computation of a call. Its answer is the value that the call returns, if it returns one. -/
def perform (fuel : Nat) : Call → Lisp (Option Value)
  | .read => some <$> Lisp.read
  | .eval form env => some <$> Lisp.eval fuel form env
  | .evalText text => (fun _ => none) <$> Lisp.evalText fuel text
  | .load path found? => (fun _ => none) <$> loadPath fuel path found?
  | .run => (fun _ => none) <$> Lisp.run fuel
  | .collect => (fun _ => none) <$> Lisp.collect .nil .nil
  | .report fault => (fun _ => none) <$> Lisp.report fault
  | .interrupt => (fun _ => none) <$> (modify ({ · with interrupted := true }) : Lisp Unit)
  | .frame env => some <$> store (Arena.pushFrame env)
  | .bind var val env => some <$> store (Arena.bind var val env)
  | .tree t => some <$> store (Arena.store t)
  | .protect v => (fun _ => none) <$> Lisp.protect v
  | .unprotect => (fun _ => none) <$> Lisp.unprotect

/-- The calls that may collect. -/
def collects : Call → Bool
  | .eval .. | .evalText .. | .load .. | .run | .collect => true
  | _ => false

/-- The calls that build an environment. -/
def builds : Call → Bool
  | .frame .. | .bind .. | .tree .. => true
  | _ => false

/-- What a host has to see to: values that it passes are live, and environments are known. One to
evaluate in is empty or protected. -/
def Allowed (m : Machine) (known : Set Value) : Call → Prop
  | .eval form env =>
    m.arena.Live form ∧ env ∈ known ∧ (env = .nil ∨ m.arena.Element m.stack env)
  | .frame env => env ∈ known
  | .bind var val env => m.arena.Live var ∧ m.arena.Live val ∧ env ∈ known
  | .protect v => m.arena.Live v
  | _ => True

/-- The environments known after a call. A call that may collect leaves those that are protected
before and after it. -/
def known (call : Call) (m : Machine) (known : Set Value) (outcome : Except Fault (Option Value))
    (n : Machine) : Set Value :=
  if call.collects then
    {env ∈ known | env = .nil ∨ m.arena.Element m.stack env ∧ n.arena.Element n.stack env}
  else if call.builds then
    match outcome with
    | .ok (some env) => insert env known
    | _ => known
  else known

end Call

/-- The machines that a host can come to, with the environments known there. -/
inductive Run : Machine → Set Value → Prop where
  | start {settings : Settings} {console : Console} {m : Machine} :
    Machine.new settings console = .ok m → Run m {.nil}
  | call {fuel : Nat} {call : Call} {m n : Machine} {known : Set Value}
    {outcome : Except Fault (Option Value)} : Run m known → call.Allowed m known →
    call.perform fuel m = some (outcome, n) → Run n (call.known m known outcome n)
  /-- An environment that a failed evaluation left protected may be known, too. -/
  | adopt {m : Machine} {env : Value} {known : Set Value} : Run m known →
    m.arena.Element m.stack env → m.Proper (insert env known) → Run m (insert env known)

namespace Machine

open Lisp

variable {m n : Machine} {known held : Set Value}

theorem standing_new {settings : Settings} {console : Console}
    (made : Machine.new settings console = .ok m) : m.Standing {.nil} := by
  have sound := Arena.sound_new settings.workspace
  have ensures := Arena.ensures_symbol sound Symbol.tee
  unfold Machine.new at made
  unfold Storing.Ensures at ensures
  rcases run : (Arena.symbol Symbol.tee).run (Arena.new settings.workspace) with ⟨fault | tee, a⟩
  · simp [run] at made
  · rw [run] at ensures made
    obtain ⟨id, rfl, took⟩ := ensures
    cases made
    refine ⟨⟨took.sound, ?_, Arena.live_nil _, Arena.live_nil _⟩, ?_, ?_⟩
    · exact Arena.symbol?_eq_some_iff.2 ⟨id, rfl, took.content⟩
    · rintro list (rfl | rfl | rfl) id on
      · exact absurd on Arena.not_onList_nil
      · exact absurd on Arena.not_onList_nil
      · exact absurd on Arena.not_onList_nil
    · rintro _ rfl
      exact Arena.live_nil _

theorem registers_new {settings : Settings} {console : Console}
    (made : Machine.new settings console = .ok m) : m.globe = .nil ∧ m.stack = .nil := by
  unfold Machine.new at made
  split at made
  · cases made
  · cases made
    exact ⟨rfl, rfl⟩

/-- The environments that are protected. -/
def protectedOf (m : Machine) (known : Set Value) : Set Value :=
  {env ∈ known | env = .nil ∨ m.arena.Element m.stack env}

theorem Standing.ready (standing : m.Standing known) : m.Ready (m.protectedOf known) := by
  have less : m.Standing (m.protectedOf known) := standing.mono fun _ member => member.1
  exact ⟨less.sound, less.proper, fun _ member => member.2⟩

/-- Of the environments known before a call that may collect, those protected before and after it are
known. -/
theorem Ready.standing_after (ready : n.Ready held) (sub : m.protectedOf known ⊆ held) :
    n.Standing {env ∈ known | env = .nil ∨ m.arena.Element m.stack env ∧
      n.arena.Element n.stack env} :=
  ready.standing.mono fun _ member => sub ⟨member.1, member.2.imp_right And.left⟩

theorem Settles.standing_after (ready : m.Ready (m.protectedOf known))
    (settles : m.Settles (m.protectedOf known) n) :
    n.Standing {env ∈ known | env = .nil ∨ m.arena.Element m.stack env ∧
      n.arena.Element n.stack env} := by
  rcases settles with goesOn | ⟨ready', stack⟩
  · exact (goesOn.ready ready).standing_after .rfl
  · refine ready'.standing.mono ?_
    rintro env ⟨-, empty | ⟨-, element⟩⟩
    · exact empty
    · rw [stack] at element
      exact absurd element Arena.not_element_nil

end Machine

namespace Call

open Lisp Machine

variable {m n : Machine} {known : Set Value}

/-- What a call comes to: the machine is in good standing with the environments known then, and a
value that is returned is live. -/
structure Keeps (call : Call) (m : Machine) (known : Set Value)
    (outcome : Except Fault (Option Value)) (n : Machine) : Prop where
  standing : n.Standing (call.known m known outcome n)
  live : ∀ v, outcome = .ok (some v) → n.arena.Live v
  printable : outcome ≠ .error .unprintable

theorem Keeps.ok {call : Call} (standing : n.Standing (call.known m known (.ok none) n)) :
    call.Keeps m known (.ok none) n :=
  ⟨standing, by simp, by simp⟩

theorem Keeps.error {call : Call} {fault : Fault} (printable : fault ≠ .unprintable)
    (standing : n.Standing (call.known m known (.error fault) n)) :
    call.Keeps m known (.error fault) n :=
  ⟨standing, by simp, by simp [printable]⟩

theorem Keeps.value {call : Call} {v : Value} (live : n.arena.Live v)
    (standing : n.Standing (call.known m known (.ok (some v)) n)) :
    call.Keeps m known (.ok (some v)) n :=
  ⟨standing, by rintro _ ⟨⟩; exact live, by simp⟩

theorem keeps_build {call : Call} {f : Storing Value} {env : Value} (standing : m.Standing known)
    (member : env ∈ known)
    (layers : Storing.Ensures f m.arena
      (fun v b => m.arena.Grows b ∧ m.arena.Layered b env v) m.arena.OutOfRoom)
    (ok : ∀ v n, call.known m known (.ok (some v)) n = insert v known)
    (error : ∀ fault n, call.known m known (.error fault) n = known) :
    Ensures (some <$> store f) m (fun v n => call.Keeps m known (.ok v) n)
      fun fault n => call.Keeps m known (.error fault) n := by
  rw [ensures_map, ensures_store]
  refine layers.mono ?_ ?_
  · rintro v b ⟨grows, layers⟩
    refine .value layers.live ?_
    rw [ok]
    exact standing.layer member grows layers
  · rintro fault b ⟨rfl, grows⟩
    refine .error (by simp) ?_
    rw [error]
    exact standing.grows grows

theorem Standing.console (standing : m.Standing known) (c : Console) :
    Machine.Standing { m with console := c } known := by
  have sound := standing.sound
  exact ⟨⟨sound.arena, sound.tee, sound.globe, sound.stack⟩, standing.proper, standing.live⟩

/-- A machine in good standing is so after any call. -/
theorem keeps (call : Call) (fuel : Nat) (standing : m.Standing known) (nil : .nil ∈ known)
    (allowed : call.Allowed m known) :
    Ensures (call.perform fuel) m (fun v n => call.Keeps m known (.ok v) n)
      fun fault n => call.Keeps m known (.error fault) n := by
  have ready := standing.ready
  have nil' : .nil ∈ m.protectedOf known := ⟨nil, .inl rfl⟩
  have sound := standing.sound
  cases call with
  | read =>
    have readOn : ∀ {n}, m.ReadOn n → n.Standing known := by
      rintro _ ⟨b, c, rfl, grows⟩
      exact Standing.console (standing.grows grows) c
    rw [perform, ensures_map]
    refine (ensures_read_on sound.arena).mono ?_ ?_
    · exact fun v n after => .value after.2 (readOn after.1)
    · exact fun fault n after => .error after.1 (readOn after.2)
  | eval form env =>
    obtain ⟨live, member, kept⟩ := allowed
    rw [perform, ensures_map]
    refine (preserves_eval fuel ready ⟨member, kept⟩ live).mono ?_ ?_
    · intro v n answers
      exact .value answers.live ((answers.goesOn.ready ready).standing_after .rfl)
    · intro fault n stops
      exact .error stops.ordinary.1 ((stops.stage.ready ready).standing_after .rfl)
  | evalText text =>
    rw [perform, ensures_map]
    refine (ensures_evalText nil' ready fuel text).mono ?_ ?_
    · exact fun _ n goesOn => .ok ((goesOn.ready ready).standing_after .rfl)
    · exact fun fault n after => .error after.1 (Settles.standing_after ready (.inr after.2))
  | load path found? =>
    rw [perform, ensures_map]
    refine (ensures_loadPath nil' ready fuel path found?).mono ?_ ?_
    · exact fun _ n goesOn => .ok ((goesOn.ready ready).standing_after .rfl)
    · exact fun fault n after => .error after.1 (after.2.standing_after ready)
  | run =>
    rw [perform, ensures_map]
    refine (ensures_run fuel nil' ready).mono ?_ ?_
    · exact fun _ n settles => .ok (settles.standing_after ready)
    · exact fun fault n after => .error after.1 (after.2.standing_after ready)
  | collect =>
    rw [perform, ensures_map]
    refine (ensures_collect ready nil' (Arena.live_nil _)).mono ?_ fun _ _ h => h
    exact fun _ n answers => .ok ((answers.goesOn.ready ready).standing_after .rfl)
  | report fault =>
    rw [perform, ensures_map, Lisp.report, ensures_bind, ensures_modify, ensures_write]
    exact .ok (Standing.console standing.drop _)
  | interrupt =>
    rw [perform, ensures_map, ensures_modify]
    exact .ok ⟨⟨sound.arena, sound.tee, sound.globe, sound.stack⟩, standing.proper, standing.live⟩
  | frame env =>
    refine keeps_build standing allowed ?_ (fun _ _ => rfl) fun _ _ => rfl
    have live := standing.live env allowed
    refine (Arena.ensures_cons sound.arena (Arena.live_nil _) live).mono ?_ fun _ _ room => room
    rintro _ b ⟨id, rfl, took⟩
    exact ⟨took.grows, Arena.layered_pushFrame sound.arena live took⟩
  | bind var val env =>
    obtain ⟨var', val', member⟩ := allowed
    have live := standing.live env member
    refine keeps_build standing member ?_ (fun _ _ => rfl) fun _ _ => rfl
    refine (Arena.ensures_bindOn sound.arena var' val' live).mono ?_ fun _ _ room => room
    intro v b bound
    exact ⟨bound.grows, (Arena.Layered.refl live).bind sound.arena (.refl _) live var' val' bound⟩
  | tree t =>
    refine keeps_build standing nil ?_ (fun _ _ => rfl) fun _ _ => rfl
    exact (Arena.ensures_store sound.arena t).mono (fun _ _ planted =>
      ⟨planted.grows, planted.layered⟩) fun _ _ room => room
  | protect v =>
    rw [perform, ensures_map, Lisp.protect, ensures_bind, ensures_get, ensures_bind, ensures_store]
    refine (Arena.ensures_cons sound.arena allowed sound.stack).mono ?_ ?_
    · rintro _ b ⟨top, rfl, took⟩
      exact Keeps.ok (standing.protect allowed took)
    · rintro fault b ⟨rfl, grows⟩
      exact Keeps.error (by simp) (standing.grows grows)
  | unprotect =>
    rw [perform, ensures_map, Lisp.unprotect, ensures_modify]
    refine .ok ?_
    show Standing { m with stack := m.arena.cdr m.stack } known
    rcases m.arena.cdr_cases m.stack with empty | ⟨id, head, is, pair⟩
    · rw [empty]
      exact standing.drop
    · refine standing.pop ?_
      rw [is] at pair ⊢
      exact .next pair .refl

end Call

namespace Run

open Machine

variable {m n : Machine} {known : Set Value}

theorem standing (run : Run m known) : m.Standing known ∧ .nil ∈ known := by
  induction run with
  | start made => exact ⟨standing_new made, rfl⟩
  | @call fuel call m n known outcome _ allowed performed ih =>
    obtain ⟨standing, nil⟩ := ih
    have keeps := Call.keeps call fuel standing nil allowed
    refine ⟨?_, ?_⟩
    · rcases outcome with fault | v
      · exact (keeps.error performed).standing
      · exact (keeps.ok performed).standing
    · unfold Call.known
      split
      · exact ⟨nil, .inl rfl⟩
      · split
        · split
          · exact .inr nil
          · exact nil
        · exact nil
  | adopt _ element proper ih =>
    obtain ⟨standing, nil⟩ := ih
    refine ⟨⟨standing.sound, proper, ?_⟩, .inr nil⟩
    rintro env' (rfl | member)
    · exact element.live standing.sound.arena
    · exact standing.live env' member

theorem ready {env : Value} (run : Run m known) (member : env ∈ known)
    (kept : env = .nil ∨ m.arena.Element m.stack env) : m.Ready {env} := by
  have standing := run.standing.1
  have less : m.Standing {env} := standing.mono fun e is => (show e = env from is) ▸ member
  refine ⟨less.sound, less.proper, ?_⟩
  intro e is
  exact (show e = env from is) ▸ kept

/-- After any call of any run the arena and the registers are sound, and a value that was returned
leads to no free cell. So neither it nor the global environment is ever unprintable. -/
theorem heap_safe {call : Call} {fuel : Nat} {outcome : Except Fault (Option Value)}
    (run : Run m known) (allowed : call.Allowed m known)
    (performed : call.perform fuel m = some (outcome, n)) :
    n.Sound ∧ (∀ fault, n.arena.print n.globe ≠ some (.error fault)) ∧
      outcome ≠ .error .unprintable ∧
      ∀ v, outcome = .ok (some v) →
        n.arena.Live v ∧ ∀ fault, n.arena.print v ≠ some (.error fault) := by
  obtain ⟨standing, nil⟩ := run.standing
  have keeps : call.Keeps m known outcome n := by
    have ensures := Call.keeps call fuel standing nil allowed
    rcases outcome with fault | v
    · exact ensures.error performed
    · exact ensures.ok performed
  have sound := keeps.standing.sound
  refine ⟨sound, fun fault => Arena.print_ne_error sound.arena sound.globe, keeps.printable, ?_⟩
  intro v returned
  have live := keeps.live v returned
  exact ⟨live, fun fault => Arena.print_ne_error sound.arena live⟩

/-- `(DEFVAR A T)` with a collection before each step. -/
theorem heap_safe_definition :
    ∃ (m n : Machine) (known : Set Value), Run m known ∧
      Call.Allowed m known (.eval (.cell 6) .nil) ∧
      (Call.eval (.cell 6) .nil).perform 4 m = some (.ok (some (.cell 2)), n) ∧
      n.collections = 2 ∧ n.Sound := by
  have made : Run _ _ :=
    @start { workspace := 16, threshold := 16 } { pending := [] } _ rfl
  have stored : Run _ _ := @call 0 (.tree (.pair (.symbol (.ofBuiltin (.special .defvar)))
    (.pair (.symbol ⟨1600⟩) (.pair (.symbol Symbol.tee) .nil)))) _ _ _ _ made trivial rfl
  have kept : Run _ _ := @call 0 (.protect (.cell 6)) _ _ _ _ stored
    (Arena.live_cell_iff.2 (Arena.taken_of_pair rfl)) rfl
  refine ⟨_, _, _, kept, ?allowed, rfl, rfl, (@heap_safe _ _ _ _ 4 _ kept ?allowed rfl).1⟩
  exact ⟨Arena.live_cell_iff.2 (Arena.taken_of_pair rfl), kept.standing.2, .inl rfl⟩

end Run

end ArenaLisp
