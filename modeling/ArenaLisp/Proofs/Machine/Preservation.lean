import ArenaLisp.Proofs.Arena.Lookup
import ArenaLisp.Proofs.Machine.Arguments
import ArenaLisp.Proofs.Machine.Ensures

/-!
# Evaluation keeps what is protected

An evaluation leads from a machine to another stage of it, whatever its outcome: by induction on how
deep evaluations nest, and along the text of the evaluator at each level. An answer is live, and the
stack is as it was.
-/

namespace ArenaLisp

/-- A fault after which a session goes on, other than that of printing a free cell. -/
@[simp]
def Fault.Ordinary (fault : Fault) : Prop :=
  fault ≠ .unprintable ∧ fault.isFatal = false

namespace Machine

/-- An evaluation that goes on: the machine is at another stage, with the same stack. -/
structure GoesOn (m : Machine) (held : Set Value) (n : Machine) : Prop where
  stage : m.Stage held n
  stack : n.stack = m.stack

/-- An evaluation that answers. -/
structure Answers (m : Machine) (held : Set Value) (v : Value) (n : Machine) : Prop where
  goesOn : m.GoesOn held n
  live : n.arena.Live v

/-- An evaluation that stops with a fault. -/
structure Stops (m : Machine) (held : Set Value) (fault : Fault) (n : Machine) : Prop where
  ordinary : fault.Ordinary
  stage : m.Stage held n

variable {m n k : Machine} {held : Set Value} {env form v : Value} {fault : Fault} {b : Arena}

theorem GoesOn.refl (ready : m.Ready held) : m.GoesOn held m :=
  ⟨.refl ready, rfl⟩

theorem GoesOn.trans (ready : m.Ready held) (first : m.GoesOn held n) (second : n.GoesOn held k) :
    m.GoesOn held k :=
  ⟨first.stage.trans ready second.stage, second.stack.trans first.stack⟩

theorem GoesOn.ready (ready : m.Ready held) (goesOn : m.GoesOn held n) : n.Ready held :=
  goesOn.stage.ready ready

theorem GoesOn.top {top : Nat} {rest : Value} (ready : m.Ready held) (goesOn : m.GoesOn held n)
    (is : m.stack = .cell top) (pair : m.arena.cell top = .pair v rest) :
    n.arena.cdr n.stack = rest ∧ n.arena.Suffix rest n.stack := by
  have there : n.arena.cell top = .pair v rest :=
    (goesOn.stage.evolves.same ready (.inr (.inl rfl)) (is ▸ .here top)).trans pair
  have stack : n.stack = .cell top := goesOn.stack.trans is
  rw [stack]
  exact ⟨Arena.cdr_of_pair there, .next there .refl⟩

theorem Answers.after (ready : m.Ready held) (first : m.GoesOn held n)
    (answers : n.Answers held v k) : m.Answers held v k :=
  ⟨first.trans ready answers.goesOn, answers.live⟩

theorem Stops.after (ready : m.Ready held) (first : m.Stage held n)
    (stops : n.Stops held fault k) : m.Stops held fault k :=
  ⟨stops.ordinary, first.trans ready stops.stage⟩

theorem Ready.answers (ready : m.Ready held) (live : m.arena.Live v) : m.Answers held v m :=
  ⟨.refl ready, live⟩

theorem Ready.stops (ready : m.Ready held) (ordinary : fault.Ordinary) :
    m.Stops held fault m :=
  ⟨ordinary, .refl ready⟩

theorem Ready.goesOn_grows (ready : m.Ready held) (grows : m.arena.Grows b) :
    m.GoesOn held { m with arena := b } :=
  ⟨ready.stage_grows grows, rfl⟩

theorem Ready.stops_outOfRoom (ready : m.Ready held) (room : m.arena.OutOfRoom fault b) :
    m.Stops held fault { m with arena := b } :=
  ⟨by simp [room.1, Fault.isFatal], ready.stage_grows room.2⟩

end Machine

namespace Lisp

open Machine

variable {α : Type} {m n : Machine} {held : Set Value} {ev : Evaluator}
  {env form v fname args : Value}

/-- Evaluations in an environment in use lead to another stage. -/
def Preserves (ev : Evaluator) : Prop :=
  ∀ {m : Machine} {held : Set Value} {form env : Value}, m.Ready held → env ∈ held →
    m.arena.Live form → Ensures (ev form env) m (m.Answers held) (m.Stops held)

theorem Ensures.chain {x : Lisp α} {f : α → Lisp Value} {P : α → Machine → Prop}
    (ready : m.Ready held) (first : Ensures x m P (m.Stops held))
    (goesOn : ∀ v n, P v n → m.GoesOn held n)
    (next : ∀ v n, P v n → n.Ready held → Ensures (f v) n (n.Answers held) (n.Stops held)) :
    Ensures (x >>= f) m (m.Answers held) (m.Stops held) := by
  rw [ensures_bind]
  refine first.mono ?_ fun _ _ stops => stops
  intro v n after
  have goes := goesOn v n after
  exact (next v n after (goes.ready ready)).mono (fun _ _ answers => answers.after ready goes)
    fun _ _ stops => stops.after ready goes.stage

theorem ensures_blame {fault : String → Fault} {Q : α → Machine → Prop} (ready : m.Ready held)
    (ordinary : ∀ text, (fault text).Ordinary) :
    Ensures (blame fault form) m Q (m.Stops held) := by
  rw [blame, ensures_bind, render, ensures_answer]
  intro result rendered
  obtain ⟨text, -, rfl⟩ := Option.map_eq_some_iff.1 rendered
  exact ready.stops (ordinary text)

/-! ### Special forms -/

theorem ensures_quote (ready : m.Ready held) :
    Ensures (quote args) m (m.Answers held) (m.Stops held) := by
  rw [quote, ensures_ask]
  exact ready.answers (ready.sound.arena.live_car args)

theorem ensures_define {var val : Value} (ready : m.Ready held) (live : m.arena.Live val) :
    Ensures (define var val) m (fun _ n => m.GoesOn held n ∧ n.arena.Live var) (m.Stops held) := by
  rw [define, ensures_bind, ensures_get, ensures_bind, ensures_transact]
  intro result b defined
  rcases Arena.define_cases ready.sound.arena ready.sound.globe live defined with
    ⟨form, rfl, rfl⟩ | ⟨binding, var', element, rfl, rfl⟩ | ⟨_, v, var', -, -, rfl, bound⟩ |
    ⟨fault, rfl, room⟩
  · exact ready.stops (by simp [Fault.isFatal])
  · exact ⟨⟨ready.stage_setCdr (.inl element) live, rfl⟩, fun id is =>
      Arena.taken_setCdr.2 (var' id is)⟩
  · exact ⟨⟨ready.stage_define var' live bound, rfl⟩, bound.grows.extends'.live var'⟩
  · exact ready.stops_outOfRoom room

theorem ensures_define_return {var val : Value} (ready : m.Ready held) (live : m.arena.Live val) :
    Ensures (do define var val; return var) m (m.Answers held) (m.Stops held) := by
  rw [ensures_bind]
  refine (ensures_define ready live).mono ?_ fun _ _ stops => stops
  exact fun _ n after => ⟨after.1, after.2⟩

theorem ensures_cons {head tail : Value} (ready : m.Ready held) (h : m.arena.Live head)
    (t : m.arena.Live tail) :
    Ensures (store (Arena.cons head tail)) m (m.Answers held) (m.Stops held) := by
  rw [ensures_store]
  refine (Arena.ensures_cons ready.sound.arena h t).mono ?_ fun _ _ => ready.stops_outOfRoom
  rintro _ b ⟨id, rfl, took⟩
  exact ⟨ready.goesOn_grows took.grows,
    Arena.live_cell_iff.2 (took.taken (Arena.fit_pair h t))⟩

theorem ensures_symbol {name : Symbol} (ready : m.Ready held) :
    Ensures (store (Arena.symbol name)) m (m.Answers held) (m.Stops held) := by
  rw [ensures_store]
  refine (Arena.ensures_symbol ready.sound.arena name).mono ?_ fun _ _ => ready.stops_outOfRoom
  rintro _ b ⟨id, rfl, took⟩
  exact ⟨ready.goesOn_grows took.grows,
    Arena.live_cell_iff.2 (took.taken (Arena.fit_symbol name))⟩

theorem ensures_defun (ready : m.Ready held) :
    Ensures (defun args) m (m.Answers held) (m.Stops held) := by
  simp only [defun, ensures_bind, ensures_ask]
  split
  · refine Ensures.chain ready (ensures_symbol ready) (fun _ _ answers => answers.goesOn) ?_
    intro lambda n answers ready
    rw [ensures_bind, ensures_ask]
    refine Ensures.chain ready (ensures_cons ready answers.live
      (ready.sound.arena.live_cdr args)) (fun _ _ answers => answers.goesOn) ?_
    intro val n answers ready
    exact ensures_define_return ready answers.live
  · rw [ensures_bind]
    exact ensures_blame ready (by simp [Fault.isFatal])

section

variable (preserves : Preserves ev) (ready : m.Ready held) (member : env ∈ held)
include preserves ready member

theorem ensures_part {part : Arena → Value} (live : m.arena.Live (part m.arena)) :
    Ensures (do ev (← ask part) env) m (m.Answers held) (m.Stops held) := by
  rw [ensures_bind, ensures_ask]
  exact preserves ready member live

theorem ensures_defvar : Ensures (defvar ev args env) m (m.Answers held) (m.Stops held) := by
  simp only [defvar, ensures_bind, ensures_ask]
  split
  · rw [ensures_bind, ensures_ask]
    refine Ensures.chain ready (preserves ready member (ready.sound.arena.live_car _))
      (fun _ _ answers => answers.goesOn) ?_
    intro val n answers ready
    exact ensures_define_return ready answers.live
  · rw [ensures_bind]
    exact ensures_blame ready (by simp [Fault.isFatal])

theorem ensures_setq : Ensures (setq ev args env) m (m.Answers held) (m.Stops held) := by
  rw [setq, ensures_bind, ensures_ask]
  refine Ensures.chain ready (preserves ready member (ready.sound.arena.live_car _))
    (fun _ _ answers => answers.goesOn) ?_
  intro val n answers ready
  rw [ensures_bind, ensures_get, ensures_bind, ensures_answer]
  rintro (fault | binding) found
  · rcases Arena.fault_of_findBinding found with ⟨form, rfl⟩ | ⟨form, rfl⟩
    · exact ready.stops (by simp [Fault.isFatal])
    · exact ready.stops (by simp [Fault.isFatal])
  · show Ensures _ n _ _
    rw [ensures_bind, ensures_change, ensures_pure]
    have bound : n.Binding held binding := by
      rcases Arena.element_of_findBinding found with here | global
      · exact .inr ⟨env, member, here⟩
      · exact .inl global
    exact ⟨⟨ready.stage_setCdr bound answers.live, rfl⟩, fun id is =>
      Arena.taken_setCdr.2 (answers.live id is)⟩

theorem ensures_cond : Ensures (cond ev args env) m (m.Answers held) (m.Stops held) := by
  rw [cond, ensures_bind, ensures_ask]
  refine Ensures.chain ready (preserves ready member (ready.sound.arena.live_car _))
    (fun _ _ answers => answers.goesOn) ?_
  intro test n _ ready
  split
  · exact ensures_part preserves ready member (ready.sound.arena.live_car _)
  · exact ensures_part preserves ready member (ready.sound.arena.live_car _)

theorem ensures_special (form : SpecialForm) :
    Ensures (special ev form args env) m (m.Answers held) (m.Stops held) := by
  cases form with
  | quote => exact ensures_quote ready
  | defun => exact ensures_defun ready
  | defvar => exact ensures_defvar preserves ready member
  | setq => exact ensures_setq preserves ready member
  | cond => exact ensures_cond preserves ready member

end

/-! ### Builtin functions -/

theorem ensures_truth (ready : m.Ready held) (condition : Bool) :
    Ensures (truth condition) m (m.Answers held) (m.Stops held) := by
  rw [truth, ensures_bind, ensures_get, ensures_pure]
  cases condition
  · exact ready.answers (Arena.live_nil _)
  · exact ready.answers ready.sound.live_tee

theorem ensures_truth_ask (ready : m.Ready held) (question : Arena → Bool) :
    Ensures (do truth (← ask question)) m (m.Answers held) (m.Stops held) := by
  rw [ensures_bind, ensures_ask]
  exact ensures_truth ready _

theorem ensures_listCar (ready : m.Ready held) (x : Value) :
    Ensures (answer fun a => some (a.listCar x)) m (m.Answers held) (m.Stops held) := by
  rw [ensures_answer]
  rintro _ ⟨⟩
  by_cases list : m.arena.isList x = true
  · rw [Arena.listCar, if_pos list]
    exact ready.answers (ready.sound.arena.live_car x)
  · rw [Arena.listCar, if_neg list]
    exact ready.stops (by simp [Fault.isFatal])

theorem ensures_listCdr (ready : m.Ready held) (x : Value) :
    Ensures (answer fun a => some (a.listCdr x)) m (m.Answers held) (m.Stops held) := by
  rw [ensures_answer]
  rintro _ ⟨⟩
  by_cases list : m.arena.isList x = true
  · rw [Arena.listCdr, if_pos list]
    exact ready.answers (ready.sound.arena.live_cdr x)
  · rw [Arena.listCdr, if_neg list]
    exact ready.stops (by simp [Fault.isFatal])

section

variable (preserves : Preserves ev) (ready : m.Ready held) (member : env ∈ held)
include preserves ready member

theorem ensures_primitive (function : Primitive) :
    Ensures (primitive ev function args env) m (m.Answers held) (m.Stops held) := by
  have x := ready.sound.arena.live_car args
  rw [primitive, ensures_bind, ensures_ask]
  cases function with
  | not => exact ensures_truth ready _
  | null => exact ensures_truth ready _
  | cons =>
    rw [ensures_bind, ensures_ask]
    exact ensures_cons ready x (ready.sound.arena.live_car _)
  | atom => exact ensures_truth_ask ready _
  | listp => exact ensures_truth_ask ready _
  | consp => exact ensures_truth_ask ready _
  | symbolp => exact ensures_truth_ask ready _
  | eq =>
    rw [ensures_bind, ensures_ask]
    exact ensures_truth_ask ready _
  | car => exact ensures_listCar ready _
  | cdr => exact ensures_listCdr ready _
  | eval => exact preserves ready member x
  | globals =>
    rw [ensures_bind, ensures_get, ensures_pure]
    exact ready.answers ready.sound.globe
  | locals => exact ready.answers (ready.live member)

theorem ensures_applyBuiltin (row : Builtin) (count : Nat) :
    Ensures (applyBuiltin ev row fname args count env) m (m.Answers held) (m.Stops held) := by
  by_cases few : count < row.arity.least
  · simp only [applyBuiltin, if_pos few, ensures_bind]
    exact ensures_blame ready (by simp [Fault.isFatal])
  · by_cases many : row.arity.most < count
    · simp only [applyBuiltin, if_neg few, if_pos many, ensures_bind]
      exact ensures_blame ready (by simp [Fault.isFatal])
    · simp only [applyBuiltin, if_neg few, if_neg many]
      cases row with
      | keyword => exact ensures_blame ready (by simp [Fault.isFatal])
      | special form => exact ensures_special preserves ready member form
      | primitive function => exact ensures_primitive preserves ready member function

/-! ### User functions -/

theorem ensures_evalButLast (n : Nat) (body : Value) :
    Ensures (evalButLast ev env n body) m (m.Answers held) (m.Stops held) := by
  induction n generalizing m body with
  | zero => exact ensures_endless
  | succ n ih =>
    rw [evalButLast, ensures_bind, ensures_ask]
    split
    · rw [ensures_bind, ensures_ask]
      refine Ensures.chain ready (preserves ready member (ready.sound.arena.live_car body))
        (fun _ _ answers => answers.goesOn) ?_
      intro _ k _ ready
      rw [ensures_bind, ensures_ask]
      exact ih ready _
    · rw [ensures_ask]
      exact ready.answers (ready.sound.arena.live_car body)

omit preserves in
theorem ensures_bindArguments {params frame : Value} {b : Arena} (grows : m.arena.Grows b)
    (layers : m.arena.Layered b env frame) :
    Ensures (bindArguments fname params args frame) { m with arena := b }
      (fun inner n => ∃ c, n = { m with arena := c } ∧ m.arena.Grows c ∧
        m.arena.Layered c env inner) (m.Stops held) := by
  rw [bindArguments, ensures_bind, ensures_store]
  refine (Arena.ensures_bindAll grows (ready.live member) layers).mono ?_ fun _ _ =>
    ready.stops_outOfRoom
  rintro ⟨params', args', inner⟩ c ⟨grows, layers⟩
  have grown := ready.stage_grows grows
  have readyGrown := grown.ready ready
  have stops : ∀ {fault : String → Fault} {Q : Unit → Machine → Prop},
      (∀ text, (fault text).Ordinary) →
      Ensures (blame fault fname) { m with arena := c } Q (m.Stops held) := fun ordinary =>
    (ensures_blame readyGrown ordinary).mono (fun _ _ h => h) fun _ _ stops =>
      stops.after ready grown
  dsimp only
  split
  · rw [ensures_bind]
    exact stops (by simp [Fault.isFatal])
  · split
    · rw [ensures_bind]
      exact stops (by simp [Fault.isFatal])
    · exact ⟨c, rfl, grows, layers⟩

omit preserves member in
theorem ensures_protect (live : m.arena.Live v) :
    Ensures (protect v) m
      (fun _ n => ∃ b top, m.arena.TookCell (.pair v m.stack) top b ∧
        n = { m with arena := b, stack := .cell top }) (m.Stops held) := by
  rw [protect, ensures_bind, ensures_get, ensures_bind, ensures_store]
  refine (Arena.ensures_cons ready.sound.arena live ready.sound.stack).mono ?_ fun _ _ =>
    ready.stops_outOfRoom
  rintro _ b ⟨top, rfl, took⟩
  exact ⟨b, top, took, rfl⟩

/-- The body of a function is evaluated in the function's environment, which is protected
meanwhile. -/
theorem ensures_body {inner lambda : Value} {b c : Arena} {top : Nat} (n : Nat)
    (grows : m.arena.Grows b) (layers : m.arena.Layered b env inner)
    (took : b.TookCell (.pair inner m.stack) top c) :
    Ensures (do
        let body ← ask (·.cdr lambda)
        let last ← evalButLast ev inner n body
        let result ← ev last inner
        unprotect
        return result) (m.inside c top) (m.Answers held) (m.Stops held) := by
  have ready' := ready.ready_inside grows layers took member
  have inner' : inner ∈ insert inner held := .inl rfl
  have leave : ∀ {k}, (m.inside c top).Stage (insert inner held) k → m.Stage held k := fun stage =>
    ready.stage_leave grows layers took member stage
  rw [ensures_bind, ensures_ask, ensures_bind]
  refine (ensures_evalButLast preserves ready' inner' n _).mono ?_ fun _ _ stops =>
    ⟨stops.ordinary, leave stops.stage⟩
  intro last k answers
  have goesOn := answers.goesOn
  have readyLast := goesOn.ready ready'
  rw [ensures_bind]
  refine (preserves readyLast inner' answers.live).mono ?_ fun _ _ stops =>
    ⟨stops.ordinary, leave (stops.after ready' goesOn.stage).stage⟩
  intro result k' answers
  have goesOn := goesOn.trans ready' answers.goesOn
  -- the environment of the function is on top of what its caller had on the stack
  obtain ⟨rest, suffix⟩ := goesOn.top ready' rfl took.content
  have popped : m.Stage held { k' with stack := m.stack } :=
    (leave goesOn.stage).pop ready .refl suffix
  rw [unprotect, ensures_bind, ensures_modify, ensures_pure]
  show m.Answers held result { k' with stack := k'.arena.cdr k'.stack }
  rw [rest]
  exact ⟨⟨popped, rfl⟩, answers.live⟩

theorem ensures_applyLambda (n : Nat) (lambda : Value) :
    Ensures (applyLambda ev n fname lambda args env) m (m.Answers held) (m.Stops held) := by
  have liveEnv := ready.live member
  rw [applyLambda, ensures_bind, ensures_store, Arena.pushFrame]
  refine (Arena.ensures_cons ready.sound.arena (Arena.live_nil _) liveEnv).mono ?_ fun _ _ =>
    ready.stops_outOfRoom
  rintro _ b ⟨frame, rfl, took⟩
  rw [ensures_bind, ensures_ask, ensures_bind]
  have layers := Arena.layered_pushFrame ready.sound.arena liveEnv took
  refine (ensures_bindArguments ready member took.grows layers).mono ?_ fun _ _ stops => stops
  rintro inner _ ⟨c, rfl, grows, layers⟩
  have grown := ready.stage_grows grows
  rw [ensures_bind]
  refine (ensures_protect (grown.ready ready) layers.live).mono ?_ fun _ _ stops =>
    stops.after ready grown
  rintro _ _ ⟨d, top, took, rfl⟩
  exact ensures_body preserves ready member n grows layers took

/-! ### Application -/

theorem ensures_call (n : Nat) (function : Value) (count : Nat) :
    Ensures (call ev n fname function args count env) m (m.Answers held) (m.Stops held) := by
  rw [call, ensures_bind, ensures_ask]
  split
  · split
    · exact ensures_applyBuiltin preserves ready member _ count
    · exact ensures_blame ready (by simp [Fault.isFatal])
  · rw [ensures_bind, ensures_ask]
    split
    · rw [ensures_bind, ensures_ask]
      exact ensures_applyLambda preserves ready member n _
    · exact ensures_blame ready (by simp [Fault.isFatal])

/-- Each argument is evaluated at a stage of the call, and its value goes to the end of the list. -/
theorem ensures_evalArguments {k : Machine} {head last : Nat} {ids : List Nat} {vs : List Value}
    (n : Nat) (gathering : Gathering m held k head ids last vs) (rest : Value) (count : Nat) :
    Ensures (evalArguments ev env n last rest count) k
      (fun _ k' => ∃ ids last vs, Gathering m held k' head ids last vs) (m.Stops held) := by
  induction n generalizing k ids last vs rest count with
  | zero => exact ensures_endless
  | succ n ih =>
    have readyK := gathering.stage.ready ready
    rw [evalArguments, ensures_bind, ensures_ask]
    split
    · rw [ensures_bind, ensures_ask, ensures_bind]
      refine (preserves readyK member (readyK.sound.arena.live_car rest)).mono ?_ fun _ _ stops =>
        stops.after ready gathering.stage
      intro val k' answers
      have gathering := gathering.evolve ready answers.goesOn.stage answers.goesOn.stack
      have readyK := gathering.stage.ready ready
      have fit : k'.arena.Fit (.pair val .nil) := Arena.fit_pair answers.live (Arena.live_nil _)
      rw [ensures_bind, ensures_store]
      refine (Arena.ensures_take readyK.sound.arena fit).mono ?_ fun _ _ room =>
        (readyK.stops_outOfRoom room).after ready gathering.stage
      intro cell b took
      rw [ensures_bind, ensures_change, ensures_bind, ensures_ask]
      exact ih (gathering.append ready answers.live took) _ _
    · exact ⟨ids, last, vs, gathering⟩

theorem ensures_apply (n : Nat) : Ensures (apply ev n form env) m (m.Answers held) (m.Stops held) := by
  rw [apply, ensures_bind, ensures_ask, ensures_bind]
  refine (preserves ready member (ready.sound.arena.live_car form)).mono ?_ fun _ _ stops => stops
  intro op k answers
  have readyK := answers.goesOn.ready ready
  have stageK := answers.goesOn.stage
  have fit : k.arena.Fit (.pair op .nil) := Arena.fit_pair answers.live (Arena.live_nil _)
  rw [ensures_bind, ensures_store]
  refine (Arena.ensures_take readyK.sound.arena fit).mono ?_ fun _ _ room =>
    (readyK.stops_outOfRoom room).after ready stageK
  intro head b took
  have grown := readyK.stage_grows took.grows
  have readyGrown := grown.ready readyK
  rw [ensures_bind]
  refine (ensures_protect readyGrown (Arena.live_cell_iff.2 (took.taken fit))).mono ?_
    fun _ _ stops => stops.after ready (stageK.trans ready grown)
  rintro _ _ ⟨c, top, pushed, rfl⟩
  rw [ensures_bind, ensures_ask, ensures_bind]
  refine (ensures_evalArguments preserves ready member n
    (stageK.gathering ready answers.goesOn.stack answers.live took pushed) _ 0).mono ?_
    fun _ _ stops => stops
  rintro count k' ⟨ids, last, vs, gathering⟩
  have readyK := gathering.stage.ready ready
  rw [ensures_bind, ensures_ask, ensures_bind, ensures_ask, ensures_bind]
  refine (ensures_call preserves readyK member n _ count).mono ?_ fun _ _ stops =>
    stops.after ready gathering.stage
  intro result k'' answers
  have gathering := gathering.evolve ready answers.goesOn.stage answers.goesOn.stack
  obtain ⟨popped, stack⟩ := gathering.pop ready
  exact ⟨⟨popped, stack⟩, answers.live⟩

/-! ### Evaluation -/

theorem ensures_evalPair (n : Nat) (live : m.arena.Live form) :
    Ensures (evalPair ev n form env) m (m.Answers held) (m.Stops held) := by
  rw [evalPair, ensures_bind, ensures_ask]
  split
  · split
    · exact ready.answers live
    · exact ready.stops (by simp [Fault.isFatal])
  · rw [ensures_bind, ensures_ask]
    exact ensures_special preserves ready member _
  · exact ensures_apply preserves ready member n

omit preserves member in
theorem ensures_evalSymbol {name : Symbol} (live : m.arena.Live form) :
    Ensures (evalSymbol form name env) m (m.Answers held) (m.Stops held) := by
  unfold evalSymbol
  split
  · exact ready.answers (Arena.live_nil _)
  · rw [ensures_bind, ensures_get, ensures_bind, ensures_ask]
    split
    · rw [ensures_ask]
      exact ready.answers (ready.sound.arena.live_cdr _)
    · split
      · exact ready.answers live
      · exact ensures_blame ready (by simp [Fault.isFatal])
    · exact ensures_endless

theorem ensures_evalForm (n : Nat) (live : m.arena.Live form) :
    Ensures (evalForm ev n form env) m (m.Answers held) (m.Stops held) := by
  unfold evalForm
  split
  · exact ready.answers (Arena.live_nil _)
  · rw [ensures_bind, ensures_ask]
    split
    · exact ensures_evalSymbol ready live
    · exact ensures_evalPair preserves ready member n live

omit preserves in
theorem ensures_collectIfLow (live : m.arena.Live form) :
    Ensures (collectIfLow form env) m (fun _ n => m.Answers held form n) (m.Stops held) := by
  have liveEnv := ready.live member
  by_cases low : m.arena.freeCount < m.settings.threshold
  · simp only [collectIfLow, ensures_bind, ensures_get, if_pos low, collect, ensures_modify]
    exact ⟨⟨ready.stage_collect live liveEnv, rfl⟩,
      ready.sound.live_collect live liveEnv (by simp)⟩
  · simp only [collectIfLow, ensures_bind, ensures_get, if_neg low]
    exact ready.answers live

omit preserves member in
theorem ensures_escapeIfInterrupted :
    Ensures escapeIfInterrupted m (fun _ n => n = m) (m.Stops held) := by
  rw [escapeIfInterrupted, ensures_bind, ensures_get]
  split
  · rw [ensures_bind, ensures_modify]
    exact ⟨by simp [Fault.isFatal], ready.stage_same rfl rfl rfl rfl⟩
  · rfl

theorem ensures_step {room : Lisp Unit} (n : Nat)
    (kept : Ensures room m (fun _ n => m.Answers held form n) (m.Stops held)) :
    Ensures (do room; escapeIfInterrupted; evalForm ev n form env) m (m.Answers held)
      (m.Stops held) := by
  refine Ensures.chain ready kept (fun _ _ answers => answers.goesOn) ?_
  intro _ k answers ready
  rw [ensures_bind]
  refine (ensures_escapeIfInterrupted ready).mono ?_ fun _ _ stops => stops
  rintro _ _ rfl
  exact ensures_evalForm preserves ready member n answers.live

theorem ensures_evalStep (n : Nat) (live : m.arena.Live form) :
    Ensures (evalStep ev n form env) m (m.Answers held) (m.Stops held) :=
  ensures_step preserves ready member n (ensures_collectIfLow ready member live)

end

/-- Evaluation leads to another stage. -/
theorem preserves_eval (fuel : Nat) : Preserves (eval fuel) := by
  induction fuel with
  | zero => exact fun _ _ _ => ensures_endless
  | succ n ih => exact fun ready member live => ensures_evalStep ih ready member n live

end Lisp

end ArenaLisp
