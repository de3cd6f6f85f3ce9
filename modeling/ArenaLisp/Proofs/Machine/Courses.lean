import ArenaLisp.Proofs.Machine.Moves

/-!
# Evaluation is a course of moves

At each level an evaluation is a course of moves and evaluations of parts, with at most one update of
the global environment, at the end. If the evaluations of the parts are courses, it is a turn
(`leads_evalStep`). What it writes besides are bindings of the environment in use, and the list of
the arguments, whose cells were free before.
-/

namespace ArenaLisp.Lisp

open Machine Arena

variable {α β : Type} {settled : Set Nat} {updates : Prop} {J : Machine → Prop}
  {R : Machine → Machine → Prop} {m n : Machine} {held : Set Value} {env form fname args v : Value}
  {ev : Evaluator}

/-- Whatever its outcome, a computation leads to a machine that is related to the first one. -/
def Leads (R : Machine → Machine → Prop) (x : Lisp α) (m : Machine) : Prop :=
  Ensures x m (fun _ n => R m n) fun _ n => R m n

/-- An evaluation that keeps what is protected and is a course of moves. -/
structure Moving (settled : Set Nat) (updates : Prop) (J : Machine → Prop) (ev : Evaluator) :
    Prop where
  preserves : Preserves ev
  leads : ∀ {m held env form}, Working settled J m held env → m.arena.Live form →
    Leads (Course settled updates) (ev form env) m

section

variable (onward : Onward settled updates R)
include onward

theorem Leads.after {x : Lisp α} (course : Course settled updates m n) (leads : Leads R x n) :
    Ensures x n (fun _ k => R m k) fun _ k => R m k :=
  Ensures.mono leads (fun _ _ => onward.after course) fun _ _ => onward.after course

theorem Leads.bind {x : Lisp α} {f : α → Lisp β} {P : α → Machine → Prop}
    (first : Ensures x m (fun v n => Course settled updates m n ∧ P v n)
      fun _ n => Course settled updates m n)
    (next : ∀ v n, P v n → Leads R (f v) n) : Leads R (x >>= f) m := by
  rw [Leads, ensures_bind]
  refine first.mono ?_ fun _ n course => onward.after course (onward.refl n)
  exact fun v n after => (next v n after.2).after onward after.1

theorem leads_store_bind {f : Storing α} {g : α → Lisp β} {P : α → Arena → Prop}
    (grows : Storing.Ensures f m.arena (fun v b => m.arena.Grows b ∧ P v b) m.arena.OutOfRoom)
    (next : ∀ v b, m.arena.Grows b → P v b → Leads R (g v) { m with arena := b }) :
    Leads R (store f >>= g) m := by
  rw [Leads, ensures_bind, ensures_store]
  refine grows.mono ?_ ?_
  · exact fun v b after => (next v b after.1 after.2).after onward (.grow after.1)
  · exact fun _ b room => onward.after (.grow room.2) (onward.refl _)

end

/-! ### Updates -/

theorem leads_define {var val : Value} (ready : m.Ready held) (live : m.arena.Live val) :
    Leads (Turn settled updates) (define var val) m := by
  rw [Leads, define, ensures_bind, ensures_get, ensures_bind, ensures_transact]
  intro result b defined
  rcases Arena.define_cases ready.sound.arena ready.sound.globe live defined with
    ⟨form, rfl, rfl⟩ | ⟨binding, -, element, rfl, rfl⟩ | ⟨_, v, -, symbol, absent, rfl, bound⟩ |
    ⟨fault, rfl, room⟩
  · exact .of_course .refl
  · refine .update (.assign element fun on => ?_)
    exact ready.proper _ (.inl rfl) _ on (.inl element)
  · exact .update (.define symbol absent bound)
  · exact .of_course (.grow room.2)

theorem leads_define_return {var val : Value} (ready : m.Ready held) (live : m.arena.Live val) :
    Leads (Turn settled updates) (do define var val; return var) m := by
  rw [Leads, ensures_bind]
  exact (leads_define ready live).mono (fun _ _ turn => turn) fun _ _ turn => turn

theorem leads_defun (ready : m.Ready held) : Leads (Turn settled updates) (defun args) m := by
  simp only [Leads, defun, ensures_bind, ensures_ask]
  split
  · refine leads_store_bind onward_turn (grows_symbol ready.sound.arena _) ?_
    intro lambda b grows live
    have readyB := (ready.stage_grows grows).ready ready
    rw [Leads, ensures_bind, ensures_ask]
    refine leads_store_bind onward_turn (grows_cons readyB.sound.arena live
      (readyB.sound.arena.live_cdr args)) ?_
    intro val c grows' live'
    exact leads_define_return ((readyB.stage_grows grows').ready readyB) live'
  · rw [ensures_bind]
    exact ensures_refusal (onward_turn.refl m)

/-! ### Parts -/

section

variable (shelter : Shelter settled updates J) (moving : Moving settled updates J ev)
  (working : Working settled J m held env)
include shelter moving working

theorem Moving.bind (onward : Onward settled updates R) {f : Value → Lisp β}
    (live : m.arena.Live form)
    (next : ∀ v n, m.Answers held v n → Working settled J n held env → Leads R (f v) n) :
    Leads R (ev form env >>= f) m := by
  refine Leads.bind onward (P := fun v n => m.Answers held v n ∧ Working settled J n held env) ?_
    fun v n after => next v n after.1 after.2
  refine ((moving.preserves working.ready working.member live).and
    (moving.leads working live)).mono ?_ fun _ _ after => after.2
  intro v n after
  exact ⟨after.2, after.1, working.next shelter after.1.goesOn.stage after.2⟩

omit shelter in
theorem Moving.part (onward : Onward settled updates R) (live : m.arena.Live form) :
    Leads R (ev form env) m :=
  (moving.leads working live).mono (fun _ n course => onward.after course (onward.refl n))
    fun _ n course => onward.after course (onward.refl n)

theorem leads_defvar : Leads (Turn settled updates) (defvar ev args env) m := by
  simp only [Leads, defvar, ensures_bind, ensures_ask]
  split
  · rw [ensures_bind, ensures_ask]
    refine moving.bind shelter working onward_turn (working.ready.sound.arena.live_car _) ?_
    exact fun val n answers working => leads_define_return working.ready answers.live
  · rw [ensures_bind]
    exact ensures_refusal (onward_turn.refl m)

theorem leads_setq : Leads (Turn settled updates) (setq ev args env) m := by
  rw [Leads, setq, ensures_bind, ensures_ask]
  refine moving.bind shelter working onward_turn (working.ready.sound.arena.live_car _) ?_
  intro val n answers working
  have ready := working.ready
  rw [Leads, ensures_bind, ensures_get, ensures_bind, ensures_answer]
  rintro (fault | binding) found
  · exact .of_course .refl
  · show Ensures _ n _ _
    rw [ensures_bind, ensures_change, ensures_pure]
    rcases Arena.element_of_findBinding found with here | global
    -- a local binding is not settled
    · refine .of_course (.move (.write (working.apart binding here) fun on => ?_))
      exact ready.proper _ (.inl rfl) _ on (.inr ⟨env, working.member, here⟩)
    · exact .update (.assign global fun on => ready.proper _ (.inl rfl) _ on (.inl global))

theorem leads_cond (onward : Onward settled updates R) : Leads R (cond ev args env) m := by
  rw [Leads, cond, ensures_bind, ensures_ask]
  refine moving.bind shelter working onward (working.ready.sound.arena.live_car _) ?_
  intro test n answers working
  have live := working.ready.sound.arena
  split
  · rw [Leads, ensures_bind, ensures_ask]
    exact moving.part working onward (live.live_car _)
  · rw [Leads, ensures_bind, ensures_ask]
    exact moving.part working onward (live.live_car _)

theorem leads_special (form : SpecialForm) :
    Leads (Turn settled updates) (special ev form args env) m := by
  cases form with
  | quote => exact Turn.of_course .refl
  | defun => exact leads_defun working.ready
  | defvar => exact leads_defvar shelter moving working
  | setq => exact leads_setq shelter moving working
  | cond => exact leads_cond shelter moving working onward_turn

omit shelter in
theorem leads_primitive (onward : Onward settled updates R) (function : Primitive) :
    Leads R (primitive ev function args env) m := by
  have sound := working.ready.sound.arena
  have looks : ∀ {n : Machine}, R n n := onward.refl _
  rw [Leads, primitive, ensures_bind, ensures_ask]
  cases function with
  | cons =>
    rw [ensures_bind, ensures_ask, ensures_store]
    refine (grows_cons sound (sound.live_car args) (sound.live_car _)).mono ?_ ?_
    · exact fun _ b grown => onward.after (.grow grown.1) looks
    · exact fun _ b room => onward.after (.grow room.2) looks
  | eval => exact moving.part working onward (sound.live_car args)
  | car =>
    refine ensures_answer.2 ?_
    rintro (fault | v) -
    · exact looks
    · exact looks
  | cdr =>
    refine ensures_answer.2 ?_
    rintro (fault | v) -
    · exact looks
    · exact looks
  | _ => exact looks

theorem leads_applyBuiltin (row : Builtin) (count : Nat) :
    Leads (Turn settled updates) (applyBuiltin ev row fname args count env) m := by
  by_cases few : count < row.arity.least
  · simp only [Leads, applyBuiltin, if_pos few, ensures_bind]
    exact ensures_refusal (onward_turn.refl m)
  · by_cases many : row.arity.most < count
    · simp only [Leads, applyBuiltin, if_neg few, if_pos many, ensures_bind]
      exact ensures_refusal (onward_turn.refl m)
    · simp only [applyBuiltin, if_neg few, if_neg many]
      cases row with
      | keyword => exact ensures_refusal (onward_turn.refl m)
      | special form => exact leads_special shelter moving working form
      | primitive function => exact leads_primitive moving working onward_turn function

/-! ### User functions -/

theorem leads_body (onward : Onward settled updates R) (fuel : Nat) (body : Value)
    {f : Value → Lisp β} (next : ∀ v n, m.Answers held v n → Leads R (f v) n) :
    Leads R (evalButLast ev env fuel body >>= fun last => ev last env >>= f) m := by
  induction fuel generalizing m body with
  | zero =>
    rw [Leads, ensures_bind]
    exact ensures_endless
  | succ fuel ih =>
    have sound := working.ready.sound.arena
    rw [evalButLast, bind_assoc, Leads, ensures_bind, ensures_ask]
    split
    · simp only [bind_assoc]
      rw [ensures_bind, ensures_ask]
      refine moving.bind shelter working onward (sound.live_car body) ?_
      intro _ n answers further
      rw [Leads, ensures_bind, ensures_ask]
      refine ih further _ fun v k after => next v k ?_
      exact after.after working.ready answers.goesOn
    · rw [ensures_bind, ensures_ask]
      refine moving.bind shelter working onward (sound.live_car body) ?_
      exact fun v n answers _ => next v n answers

omit shelter moving in
theorem grows_bindArguments {params frame : Value} {b : Arena} (grows : m.arena.Grows b)
    (layers : m.arena.Layered b env frame) :
    Ensures (bindArguments fname params args frame) { m with arena := b }
      (fun inner n => ∃ c, n = { m with arena := c } ∧ m.arena.Grows c ∧
        m.arena.Layered c env inner) fun _ n => ∃ c, n = { m with arena := c } ∧ m.arena.Grows c := by
  rw [bindArguments, ensures_bind, ensures_store]
  refine (Arena.ensures_bindAll grows (working.ready.live working.member) layers).mono ?_
    fun _ c room => ⟨c, rfl, room.2⟩
  rintro ⟨params', args', inner⟩ c ⟨grows, layers⟩
  dsimp only
  split
  · rw [ensures_bind]
    exact ensures_refusal ⟨c, rfl, grows⟩
  · split
    · rw [ensures_bind]
      exact ensures_refusal ⟨c, rfl, grows⟩
    · exact ⟨c, rfl, grows, layers⟩

theorem leads_applyLambda (onward : Onward settled updates R) (fuel : Nat) (lambda : Value) :
    Leads R (applyLambda ev fuel fname lambda args env) m := by
  have ready := working.ready
  have liveEnv := ready.live working.member
  have stops : ∀ {c}, m.arena.Grows c → R m { m with arena := c } := fun grows =>
    onward.after (.grow grows) (onward.refl _)
  rw [Leads, applyLambda, ensures_bind, ensures_store, Arena.pushFrame]
  refine (Arena.ensures_cons ready.sound.arena (live_nil _) liveEnv).mono ?_ fun _ _ room =>
    stops room.2
  rintro _ b ⟨frame, rfl, took⟩
  rw [ensures_bind, ensures_ask, ensures_bind]
  have layers := Arena.layered_pushFrame ready.sound.arena liveEnv took
  refine (grows_bindArguments working took.grows layers).mono ?_ ?_
  · rintro inner _ ⟨c, rfl, grows, layers⟩
    rw [ensures_bind, protect, ensures_bind, ensures_get, ensures_bind, ensures_store]
    refine (Arena.ensures_cons grows.sound layers.live
      (grows.extends'.live ready.sound.stack)).mono ?_ fun _ _ room => stops (grows.trans room.2)
    rintro _ d ⟨top, rfl, took⟩
    rw [ensures_modify, ensures_bind, ensures_ask]
    have entered : Course settled updates m (m.inside d top) := .inside grows took
    refine (leads_body shelter moving (working.inside shelter grows layers took) onward fuel _
      fun v n _ => ?_).after onward entered
    have popped : Course settled updates n { n with stack := n.arena.cdr n.stack } :=
      .keep rfl rfl rfl
    rw [Leads, unprotect, ensures_bind, ensures_modify, ensures_pure]
    exact onward.after popped (onward.refl _)
  · rintro _ _ ⟨c, rfl, grows⟩
    exact stops grows

/-! ### Application -/

theorem leads_call (fuel : Nat) (function : Value) (count : Nat) :
    Leads (Turn settled updates) (call ev fuel fname function args count env) m := by
  rw [Leads, call, ensures_bind, ensures_ask]
  split
  · split
    · exact leads_applyBuiltin shelter moving working _ count
    · exact ensures_refusal (onward_turn.refl m)
  · rw [ensures_bind, ensures_ask]
    split
    · rw [ensures_bind, ensures_ask]
      exact leads_applyLambda shelter moving working onward_turn fuel _
    · exact ensures_refusal (onward_turn.refl m)

theorem leads_evalArguments {k : Machine} {head last : Nat} {ids : List Nat} {vs : List Value}
    (fuel : Nat) (gathering : Gathering m held k head ids last vs)
    (course : Course settled updates m k) (young : last ∉ settled) (rest : Value) (count : Nat) :
    Ensures (evalArguments ev env fuel last rest count) k
      (fun _ n => Course settled updates m n ∧ ∃ ids last vs, Gathering m held n head ids last vs)
      fun _ n => Course settled updates m n := by
  induction fuel generalizing k ids last vs rest count with
  | zero => exact ensures_endless
  | succ fuel ih =>
    have ready := working.ready
    have workingK := working.next shelter gathering.stage course
    have sound := workingK.ready.sound.arena
    rw [evalArguments, ensures_bind, ensures_ask]
    split
    · rw [ensures_bind, ensures_ask, ensures_bind]
      refine ((moving.preserves workingK.ready working.member (sound.live_car rest)).and
        (moving.leads workingK (sound.live_car rest))).mono ?_ fun _ _ after =>
          course.trans after.2
      rintro val n ⟨answers, further⟩
      have gathering := gathering.evolve ready answers.goesOn.stage answers.goesOn.stack
      have course := course.trans further
      have workingN := working.next shelter gathering.stage course
      have fit : n.arena.Fit (.pair val .nil) := fit_pair answers.live (live_nil _)
      rw [ensures_bind, ensures_store]
      refine (Arena.ensures_take workingN.ready.sound.arena fit).mono ?_ fun _ _ room =>
        course.trans (.grow room.2)
      intro cell b took
      have grown := gathering.evolve ready (workingN.ready.stage_grows took.grows) rfl
      rw [ensures_bind, ensures_change, ensures_bind, ensures_ask]
      refine ih (gathering.append ready answers.live took) ?_ (workingN.fresh shelter took) _ _
      exact (course.trans (.grow took.grows)).trans
        (.move (.write young (grown.unlisted last (by simp) _ (.inl rfl))))
    · exact ⟨course, ids, last, vs, gathering⟩

theorem leads_apply (fuel : Nat) : Leads (Turn settled updates) (apply ev fuel form env) m := by
  have ready := working.ready
  rw [Leads, apply, ensures_bind, ensures_ask]
  refine moving.bind shelter working onward_turn (ready.sound.arena.live_car form) ?_
  intro op k answers workingK
  have readyK := workingK.ready
  have fit : k.arena.Fit (.pair op .nil) := fit_pair answers.live (live_nil _)
  rw [Leads, ensures_bind, ensures_store]
  refine (Arena.ensures_take readyK.sound.arena fit).mono ?_ fun _ _ room =>
    .of_course (.grow room.2)
  intro head b took
  have readyB := (readyK.stage_grows took.grows).ready readyK
  rw [ensures_bind, protect, ensures_bind, ensures_get, ensures_bind, ensures_store]
  refine (Arena.ensures_cons took.sound (live_cell_iff.2 (took.taken fit))
    readyB.sound.stack).mono ?_ fun _ _ room => .of_course (.grow (took.grows.trans room.2))
  rintro _ c ⟨top, rfl, pushed⟩
  rw [ensures_modify, ensures_bind, ensures_ask, ensures_bind]
  have begun : Course settled updates k { k with arena := c, stack := .cell top } :=
    (Course.grow (took.grows.trans pushed.grows)).trans (.keep rfl rfl rfl)
  refine (leads_evalArguments shelter moving workingK fuel
    ((Stage.refl readyK).gathering readyK rfl answers.live took pushed) begun
    (workingK.fresh shelter took) _ 0).mono ?_ fun _ _ => .of_course
  rintro count n ⟨course, ids, last, vs, gathering⟩
  have workingN := workingK.next shelter gathering.stage course
  rw [ensures_bind, ensures_ask, ensures_bind, ensures_ask, ensures_bind]
  refine ((leads_call shelter moving workingN fuel _ count).after onward_turn course).mono ?_
    fun _ _ turn => turn
  intro result n' turn
  rw [unprotect, ensures_bind, ensures_modify, ensures_pure]
  exact turn.keep rfl rfl rfl

/-! ### Evaluation -/

theorem leads_evalForm (fuel : Nat) :
    Leads (Turn settled updates) (evalForm ev fuel form env) m := by
  have same : Turn settled updates m m := onward_turn.refl m
  unfold evalForm
  split
  · exact same
  · rw [Leads, ensures_bind, ensures_ask]
    split
    · unfold evalSymbol
      split
      · exact same
      · rw [ensures_bind, ensures_get, ensures_bind, ensures_ask]
        split
        · exact same
        · split
          · exact same
          · exact ensures_refusal same
        · exact ensures_endless
    · rw [evalPair, ensures_bind, ensures_ask]
      split
      · split
        · exact same
        · exact same
      · rw [ensures_bind, ensures_ask]
        exact leads_special shelter moving working _
      · exact leads_apply shelter moving working fuel

/-- If the evaluations of the parts are courses of moves, an evaluation makes at most one update, and
nothing follows it. -/
theorem leads_evalStep (fuel : Nat) (live : m.arena.Live form) :
    Leads (Turn settled updates) (evalStep ev fuel form env) m := by
  have ready := working.ready
  have liveEnv := ready.live working.member
  rw [evalStep]
  refine Leads.bind onward_turn (P := fun _ n => Working settled J n held env) ?_ ?_
  · by_cases low : m.arena.freeCount < m.settings.threshold
    · simp only [collectIfLow, ensures_bind, ensures_get, if_pos low, collect, ensures_modify]
      have course : Course settled updates m (m.collect form env) :=
        .move (.collect ready.sound live liveEnv)
      exact ⟨course, working.next shelter (ready.stage_collect live liveEnv) course⟩
    · simp only [collectIfLow, ensures_bind, ensures_get, if_neg low]
      exact ⟨.refl, working⟩
  · intro _ n working
    rw [Leads, escapeIfInterrupted, ensures_bind, ensures_bind, ensures_get]
    split
    · rw [ensures_bind, ensures_modify]
      exact Turn.of_course (.keep rfl rfl rfl)
    · exact leads_evalForm shelter moving working fuel

end

theorem shelter_updates : Shelter ∅ True fun _ => True :=
  ⟨fun _ id member => absurd member (Set.notMem_empty id), fun _ _ => trivial⟩

/-- Every evaluation is a course of moves and updates. -/
theorem moving_eval (fuel : Nat) : Moving ∅ True (fun _ => True) (eval fuel) := by
  refine ⟨preserves_eval fuel, ?_⟩
  induction fuel with
  | zero => exact fun _ _ => ensures_endless
  | succ n ih =>
    intro m held form env working live
    have turn := leads_evalStep shelter_updates ⟨preserves_eval n, ih⟩ working n live
    exact turn.mono (fun _ _ turn => turn.course trivial) fun _ _ turn => turn.course trivial

end ArenaLisp.Lisp
