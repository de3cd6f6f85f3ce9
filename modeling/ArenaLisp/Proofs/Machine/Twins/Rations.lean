import ArenaLisp.Proofs.Machine.Twins.Evaluation

/-!
# Evaluation on a ration

`evalRationed t` evaluates as `evalDetached` does, but it collects before every step, and leaves no
more than `t` cells free for what comes up to the next step. If it gets along with them, so does an
evaluation that collects only when fewer than `t` cells are free (`agreement_evalRationed`): it never
has fewer free cells than the first one.
-/

namespace ArenaLisp

namespace Arena

open Storing

variable {a : Arena}

/-- Takes cells, and makes nothing of them. -/
def waste : Nat → Storing Unit
  | 0 => pure ()
  | n + 1 => do
    let _ ← take (.pair .nil .nil)
    waste n

theorem ensures_waste (sound : a.Sound) {n : Nat} (enough : n ≤ a.freeCount)
    {E : Fault → Arena → Prop} :
    Ensures (waste n) a (fun _ b => a.Grows b ∧ b.freeCount + n = a.freeCount) E := by
  induction n generalizing a with
  | zero => exact ⟨.refl sound, rfl⟩
  | succ n ih =>
    rw [waste, ensures_bind]
    obtain ⟨empty, -⟩ | ⟨id, c, -, ran, took⟩ :=
      take_run sound (fit_pair (live_nil a) (live_nil a))
    · have none := sound.freeCount_eq_zero empty
      omega
    · have count := took.count
      have rest := ih took.sound (by omega)
      rw [Ensures, ran]
      refine rest.mono (fun _ b h => ?_) fun _ _ h => h
      exact ⟨took.grows.trans h.1, by omega⟩

end Arena

namespace Machine

open Arena

variable {R : Nat → Nat → Prop} {m m' n' : Machine} {held : Set Value} {env env' form form' : Value}
  {t : Nat} {b : Arena}

/-- The arena of a machine that has collected, with no more free cells left than a ration. -/
structure Rationed (m : Machine) (t : Nat) (form env : Value) (b : Arena) : Prop where
  grows : (m.collect form env).arena.Grows b
  within : b.freeCount ≤ t
  fewer : b.freeCount ≤ (m.collect form env).arena.freeCount

theorem Rationed.retains (rationed : m.Rationed t form env b) (sound : m.Sound)
    (live : m.arena.Live form) (liveEnv : m.arena.Live env) :
    m.Retains form env { m.collect form env with arena := b } where
  cells := by
    intro id reached
    have kept := (retains_collect sound live liveEnv).cells reached
    have taken : (m.collect form env).arena.Taken id :=
      (taken_collect_iff sound.arena.plain fun _ => sound.taken_of_reachable live liveEnv).2 reached
    exact (rationed.grows.extends'.kept id taken).trans kept
  size := rationed.grows.extends'.size.trans (retains_collect sound live liveEnv).size
  tee := rfl
  globe := rfl
  stack := rfl
  interrupted := rfl
  console := rfl
  settings := rfl

theorem Rationed.answers (rationed : m.Rationed t form env b) (ready : m.Ready held)
    (member : env ∈ held) (live : m.arena.Live form) :
    m.Answers held form { m.collect form env with arena := b } := by
  have liveEnv := ready.live member
  have collected : m.GoesOn held (m.collect form env) := ⟨ready.stage_collect live liveEnv, rfl⟩
  refine ⟨collected.trans ready ((collected.ready ready).goesOn_grows rationed.grows), ?_⟩
  exact rationed.grows.extends'.live (ready.sound.live_collect live liveEnv (by simp))

/-- The second of twins has no fewer free cells than the first one on its ration: it collects when
there are fewer than that. -/
theorem Twins.room_rationed [Ration] (twins : Twins R m m') (rationed : m.Rationed t form env b)
    (sound : m.Sound) (sound' : m'.Sound) (same : Same R form form') (sameEnv : Same R env env')
    (limit : t ∈ Ration.cells)
    (h : n' = m' ∧ m'.settings.threshold ≤ m'.arena.freeCount ∨ n' = m'.collect form' env') :
    b.freeCount ≤ n'.arena.freeCount := by
  obtain ⟨is, plenty⟩ | is := h
  · subst is
    calc b.freeCount ≤ t := rationed.within
      _ ≤ n'.settings.threshold := twins.ample t limit
      _ ≤ n'.arena.freeCount := plenty
  · subst is
    exact rationed.fewer.trans (twins.room_collect sound sound' same sameEnv)

end Machine

namespace Lisp

open Machine Arena

/-- Takes all free cells but a number of them, and makes nothing of them. -/
def ration (t : Nat) : Lisp Unit := do
  let surplus ← ask fun a => a.freeCount - t
  store (waste surplus)

/-- Collects, and leaves no more than a number of cells free. -/
def collectForRation (t : Nat) (form env : Value) : Lisp Unit := do
  collect form env
  ration t

/-- Evaluates a form of a program that runs none of its bindings, with no more than a number of free
cells from each step to the next. -/
def evalRationed (t : Nat) : Nat → Evaluator
  | 0 => fun _ _ => endless
  | n + 1 => detached fun form env => do
    collectForRation t form env
    escapeIfInterrupted
    evalForm (evalRationed t n) n form env

variable {R : Nat → Nat → Prop} {m m' : Machine} {held held' : Set Value} {ev ev' : Evaluator}
  {env env' form form' : Value} {t : Nat} {E : Fault → Machine → Prop}

theorem ensures_collectForRation (sound : m.Sound) (live : m.arena.Live form)
    (liveEnv : m.arena.Live env) :
    Ensures (collectForRation t form env) m
      (fun _ n => ∃ b, m.Rationed t form env b ∧ n = { m.collect form env with arena := b }) E := by
  have collected := sound.arena_collect live liveEnv
  simp only [collectForRation, collect, ration, ensures_bind, ensures_modify, ensures_ask,
    ensures_store]
  refine (ensures_waste collected (Nat.sub_le _ t)).mono (fun _ b h => ?_) fun _ _ h => h
  obtain ⟨grows, left⟩ := h
  exact ⟨b, ⟨grows, by omega, by omega⟩, rfl⟩

theorem answers_collectForRation (ready : m.Ready held) (member : env ∈ held)
    (live : m.arena.Live form) :
    Ensures (collectForRation t form env) m (fun _ n => m.Answers held form n) (m.Stops held) := by
  refine (ensures_collectForRation ready.sound live (ready.live member)).mono (fun _ n h => ?_)
    fun _ _ h => h
  obtain ⟨b, rationed, is⟩ := h
  exact is ▸ rationed.answers ready member live

theorem preserves_evalRationed (t fuel : Nat) : Preserves (evalRationed t fuel) := by
  induction fuel with
  | zero => exact fun _ _ _ => ensures_endless
  | succ n ih =>
    exact preserves_detached fun ready member live =>
      ensures_step ih ready member n (answers_collectForRation ready member live)

section

variable [Ration] (limit : t ∈ Ration.cells)
include limit

/-- One of twins collects for its ration before a step, and the other one if few cells are free. -/
theorem tandem_rationedStep (abreast : Abreast R m held env m' held' env')
    (concordant : Concordant ev ev') (n j : Nat) (same : Same R form form')
    (secure : m.Secure held form) :
    Tandem (do collectForRation t form env; escapeIfInterrupted; evalForm ev n form env)
      (evalStep ev' j form' env') m m' (Results R m held) AnyFault := by
  have ready := abreast.ready
  have ready' := abreast.ready'
  obtain ⟨live, live'⟩ := abreast.twins.arenas.live same
  have liveEnv := ready.live abreast.member
  have liveEnv' := ready'.live abreast.member'
  apply tandem_step abreast concordant n j same secure
    (answers_collectForRation ready abreast.member live)
    (ensures_collectIfLow ready' abreast.member' live')
  apply (tandem_of_ensures (ensures_collectForRation ready.sound live liveEnv)
    (ensures_collectIfLow_if form' env' m')).mono
  · intro _ _ k k' h
    obtain ⟨⟨b, rationed, is⟩, collected⟩ := h
    subst is
    exact ⟨rationed.retains ready.sound live liveEnv,
      retains_of_collectIfLow ready'.sound live' liveEnv' collected, fun _ _ =>
        abreast.twins.room_rationed rationed ready.sound ready'.sound same abreast.same limit
          collected⟩
  · exact fun _ _ _ h => h

theorem agreement_evalRationed (fuel fuel' : Nat) :
    Agreement (evalRationed t fuel) (eval fuel') := by
  induction fuel generalizing fuel' with
  | zero => exact fun _ _ _ => tandem_endless
  | succ n ih =>
    cases fuel' with
    | zero => exact fun _ _ _ => tandem_endless'
    | succ j =>
      have concordant : Concordant (evalRationed t n) (eval j) :=
        ⟨preserves_evalRationed t n, preserves_eval j, ih j⟩
      apply agreement_detached
      · exact fun ready member live => ensures_step (preserves_evalRationed t n) ready member n
          (answers_collectForRation ready member live)
      · exact preserves_eval (j + 1)
      · exact fun abreast same secure =>
          tandem_rationedStep limit abreast concordant n j same secure

end

end Lisp

end ArenaLisp
