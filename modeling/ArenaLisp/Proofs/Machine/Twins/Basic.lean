import ArenaLisp.Proofs.Machine.Secure
import ArenaLisp.Proofs.Machine.Tandem

/-!
# Machines that went the same way

Two machines are twins if their arenas match and their registers are the same. They may have
collected at different times: a collection gives up related cells that no register reaches, in both
of them (`Twins.retain`). The firm cells stay related all the while (`Follows`). If the first one is
on a ration, the second one collects in time for it.
-/

namespace ArenaLisp

namespace Machine

open Arena

section

variable [Ration]

/-- Machines whose arenas match and whose registers are the same. -/
structure Twins (R : Nat → Nat → Prop) (m m' : Machine) : Prop where
  arenas : Match R m.arena m'.arena
  tee : Same R m.tee m'.tee
  globe : Same R m.globe m'.globe
  stack : Same R m.stack m'.stack
  interrupted : m'.interrupted = m.interrupted
  console : m'.console = m.console
  ample : ∀ t ∈ Ration.cells, t ≤ m'.settings.threshold

/-- Later states of twins in which the firm cells are still related. -/
structure Follows (R : Nat → Nat → Prop) (m : Machine) (held : Set Value) (S : Nat → Nat → Prop)
    (n n' : Machine) : Prop where
  twins : Twins S n n'
  keeps : ∀ {id other}, R id other → m.Firm held id → S id other

/-- Answers of twins. -/
def Results (R : Nat → Nat → Prop) (m : Machine) (held : Set Value) (v w : Value)
    (n n' : Machine) : Prop :=
  ∃ S, Follows R m held S n n' ∧ Same S v w

/-- Twins that are about to evaluate, in environments that are the same. -/
structure Abreast (R : Nat → Nat → Prop) (m : Machine) (held : Set Value) (env : Value)
    (m' : Machine) (held' : Set Value) (env' : Value) : Prop where
  twins : Twins R m m'
  ready : m.Ready held
  ready' : m'.Ready held'
  member : env ∈ held
  member' : env' ∈ held'
  covers : m.Covers held env
  same : Same R env env'

end

variable [Ration] {R S T : Nat → Nat → Prop} {m m' n n' k k' : Machine} {held held' : Set Value}
  {env env' form form' v w x y : Value} {b c d : Arena}

/-! ### Following -/

theorem Twins.follows (twins : Twins R m m') : Follows R m held R m m' :=
  ⟨twins, fun related _ => related⟩

theorem Follows.of_le (twins : Twins S n n') (sub : R ≤ S) : Follows R m held S n n' :=
  ⟨twins, fun related _ => sub _ _ related⟩

theorem Follows.trans (ready : m.Ready held) (stage : m.Stage held n)
    (first : Follows R m held S n n') (second : Follows S n held T k k') :
    Follows R m held T k k' :=
  ⟨second.twins, fun related firm =>
    second.keeps (first.keeps related firm) (stage.firm ready firm)⟩

theorem Follows.same (follows : Follows R m held S n n') (anchored : m.Anchored held v)
    (same : Same R v w) : Same S v w :=
  same.mono fun id _ is related => follows.keeps related (anchored id is)

theorem Results.after (ready : m.Ready held) (stage : m.Stage held n)
    (first : Follows R m held S n n') (results : Results S n held v w k k') :
    Results R m held v w k k' := by
  obtain ⟨T, second, same⟩ := results
  exact ⟨T, first.trans ready stage second, same⟩

namespace Abreast

variable (abreast : Abreast R m held env m' held' env')
include abreast

theorem anchored : m.Anchored held env := by
  intro id is
  exact abreast.ready.firm_along (.inr (.inr abreast.member)) (is ▸ .here id)

theorem next (follows : Follows R m held S n n') (stage : m.Stage held n)
    (stage' : m'.Stage held' n') : Abreast S n held env n' held' env' where
  twins := follows.twins
  ready := stage.ready abreast.ready
  ready' := stage'.ready abreast.ready'
  member := abreast.member
  member' := abreast.member'
  covers := abreast.covers.stage abreast.ready abreast.member stage
  same := follows.same abreast.anchored abreast.same

theorem results (same : Same R v w) : Results R m held v w m m' :=
  ⟨R, abreast.twins.follows, same⟩

end Abreast

/-! ### Steps of twins -/

theorem Twins.pairing (twins : Twins R m m') (pairing : Pairing R m.arena m'.arena S v w c d) :
    Twins S { m with arena := c } { m' with arena := d } where
  arenas := pairing.arenas
  tee := twins.tee.le pairing.wider
  globe := twins.globe.le pairing.wider
  stack := twins.stack.le pairing.wider
  interrupted := twins.interrupted
  console := twins.console
  ample := twins.ample

theorem Twins.setCdr {id other : Nat} (twins : Twins R m m') (related : R id other)
    (same : Same R v w) : Twins R { m with arena := m.arena.setCdr id v }
      { m' with arena := m'.arena.setCdr other w } where
  arenas := twins.arenas.setCdr related same
  tee := twins.tee
  globe := twins.globe
  stack := twins.stack
  interrupted := twins.interrupted
  console := twins.console
  ample := twins.ample

theorem Twins.withStack (twins : Twins R m m') (same : Same R v w) :
    Twins R { m with stack := v } { m' with stack := w } where
  arenas := twins.arenas
  tee := twins.tee
  globe := twins.globe
  stack := same
  interrupted := twins.interrupted
  console := twins.console
  ample := twins.ample

theorem Twins.unprotected (twins : Twins R m m') :
    Twins R { m with stack := m.arena.cdr m.stack } { m' with stack := m'.arena.cdr m'.stack } :=
  twins.withStack (twins.arenas.same_cdr twins.stack)

theorem Twins.root (twins : Twins R m m') (same : Same R form form') (sameEnv : Same R env env')
    {root : Value} (member : root ∈ [m.tee, m.globe, m.stack, form, env]) :
    ∃ root' ∈ [m'.tee, m'.globe, m'.stack, form', env'], Same R root root' := by
  simp only [List.mem_cons, List.not_mem_nil, or_false] at member
  obtain rfl | rfl | rfl | rfl | rfl := member
  · exact ⟨m'.tee, by simp, twins.tee⟩
  · exact ⟨m'.globe, by simp, twins.globe⟩
  · exact ⟨m'.stack, by simp, twins.stack⟩
  · exact ⟨form', by simp, same⟩
  · exact ⟨env', by simp, sameEnv⟩

theorem Twins.reachable {id : Nat} (twins : Twins R m m') (same : Same R form form')
    (sameEnv : Same R env env') (reached : m.Reachable form env id) :
    ∃ other, R id other ∧ m'.Reachable form' env' other := by
  obtain ⟨root, member, path⟩ := reached
  obtain ⟨root', member', sameRoot⟩ := twins.root same sameEnv member
  obtain ⟨other, related, path'⟩ := twins.arenas.reaches sameRoot path
  exact ⟨other, related, root', member', path'⟩

/-- Twins are twins the other way round, but for the room that there is in them. -/
theorem Twins.flip (twins : Twins R m m') :
    @Twins Ration.unlimited (fun id other => R other id) m' m :=
  @Twins.mk Ration.unlimited _ _ _ twins.arenas.flip twins.tee.flip twins.globe.flip
    twins.stack.flip twins.interrupted.symm twins.console.symm fun _ rationed => nomatch rationed

/-- A machine that still has the registers, and the cells that a collection keeps. -/
structure Retains (m : Machine) (form env : Value) (n : Machine) : Prop where
  cells : ∀ {id}, m.Reachable form env id → n.arena.cell id = m.arena.cell id
  size : n.arena.capacity = m.arena.capacity
  tee : n.tee = m.tee
  globe : n.globe = m.globe
  stack : n.stack = m.stack
  interrupted : n.interrupted = m.interrupted
  console : n.console = m.console
  settings : n.settings = m.settings

omit [Ration] in
theorem Retains.refl (m : Machine) (form env : Value) : m.Retains form env m :=
  ⟨fun _ => rfl, rfl, rfl, rfl, rfl, rfl, rfl, rfl⟩

omit [Ration] in
theorem retains_collect (sound : m.Sound) (live : m.arena.Live form) (liveEnv : m.arena.Live env) :
    m.Retains form env (m.collect form env) where
  cells := cell_collect sound.arena.plain fun _ => sound.taken_of_reachable live liveEnv
  size := capacity_collect ..
  tee := rfl
  globe := rfl
  stack := rfl
  interrupted := rfl
  console := rfl
  settings := rfl

omit [Ration] in
theorem retains_of_collectIfLow (sound : m.Sound) (live : m.arena.Live form)
    (liveEnv : m.arena.Live env)
    (h : n = m ∧ m.settings.threshold ≤ m.arena.freeCount ∨ n = m.collect form env) :
    m.Retains form env n := by
  obtain ⟨is, -⟩ | is := h
  · exact is ▸ .refl m form env
  · exact is ▸ retains_collect sound live liveEnv

/-- Twins stay twins whichever of them collects: the cells that the registers of one reach are
related to cells that the registers of the other reach. -/
theorem Twins.retain (twins : Twins R m m') (held : Set Value) (same : Same R form form')
    (sameEnv : Same R env env') (retains : m.Retains form env n)
    (retains' : m'.Retains form' env' n')
    (room : ∀ t ∈ Ration.cells, n.arena.freeCount ≤ n'.arena.freeCount) :
    Follows R m held (fun id other => R id other ∧ m.Reachable form env id) n n' ∧
      Same (fun id other => R id other ∧ m.Reachable form env id) form form' ∧
      Same (fun id other => R id other ∧ m.Reachable form env id) env env' := by
  have restricted := twins.arenas.restrict (P := m.Reachable form env) (by
    intro id head tail reached pair
    obtain ⟨root, member, path⟩ := reached
    constructor
    · intro x is
      subst is
      exact ⟨root, member, path.thenHead pair (.here x)⟩
    · intro x is
      subst is
      exact ⟨root, member, path.thenTail pair not_false (.here x)⟩)
  have other : ∀ id other, R id other ∧ m.Reachable form env id →
      m'.Reachable form' env' other := by
    intro id other h
    obtain ⟨related, reached⟩ := h
    obtain ⟨target, related', reached'⟩ := twins.reachable same sameEnv reached
    cases twins.arenas.left related related'
    exact reached'
  have keep : ∀ {v w}, v ∈ [m.tee, m.globe, m.stack, form, env] → Same R v w →
      Same (fun id other => R id other ∧ m.Reachable form env id) v w := by
    intro v w member same
    apply same.mono
    intro id other is related
    subst is
    exact ⟨related, _, member, .here id⟩
  refine ⟨⟨⟨?_, ?_, ?_, ?_, ?_, ?_, ?_⟩, ?_⟩, keep (by simp) same, keep (by simp) sameEnv⟩
  · apply restricted.congr retains.size retains'.size _ _ room
    · exact fun id other' related => retains.cells related.2
    · exact fun id other' related => retains'.cells (other id other' related)
  · rw [retains.tee, retains'.tee]
    exact keep (by simp) twins.tee
  · rw [retains.globe, retains'.globe]
    exact keep (by simp) twins.globe
  · rw [retains.stack, retains'.stack]
    exact keep (by simp) twins.stack
  · rw [retains.interrupted, retains'.interrupted, twins.interrupted]
  · rw [retains.console, retains'.console, twins.console]
  · rw [retains'.settings]
    exact twins.ample
  · intro id other' related firm
    obtain ⟨root, member, path⟩ := firm
    refine ⟨related, root, ?_, path.reaches⟩
    simp only [List.mem_cons, List.not_mem_nil, or_false] at member ⊢
    tauto

theorem Twins.room_collect (twins : Twins R m m') (sound : m.Sound) (sound' : m'.Sound)
    (same : Same R form form') (sameEnv : Same R env env') :
    (m.collect form env).arena.freeCount ≤ (m'.collect form' env').arena.freeCount := by
  obtain ⟨live, live'⟩ := twins.arenas.live same
  obtain ⟨liveEnv, liveEnv'⟩ := twins.arenas.live sameEnv
  have taken : ∀ id, m.Reachable form env id → m.arena.Taken id := fun _ =>
    sound.taken_of_reachable live liveEnv
  have taken' : ∀ id, m'.Reachable form' env' id → m'.arena.Taken id := fun _ =>
    sound'.taken_of_reachable live' liveEnv'
  have back : ∀ other ∈ {id | m'.Reachable form' env' id},
      ∃ id, R id other ∧ m.Reachable form env id := fun _ reached =>
    @Twins.reachable Ration.unlimited _ _ _ _ _ _ _ _ twins.flip same.flip sameEnv.flip reached
  choose! f related reached using back
  have finite : {id | m.Reachable form env id}.Finite :=
    (Set.finite_lt_nat m.arena.capacity).subset fun id reached => lt_of_taken (taken id reached)
  have once : Set.InjOn f {id | m'.Reachable form' env' id} := fun x here y there is =>
    twins.arenas.left (is ▸ related x here) (related y there)
  have count := Set.ncard_le_ncard_of_injOn f reached once finite
  have size := twins.arenas.size
  rw [arena_collect, arena_collect, freeCount_collect sound.arena.plain taken,
    freeCount_collect sound'.arena.plain taken']
  exact size ▸ Nat.sub_le_sub_left count _

end Machine

end ArenaLisp
