import ArenaLisp.Proofs.Machine.Mirrored
import ArenaLisp.Proofs.Machine.Mirrors.Basic
import ArenaLisp.Proofs.Machine.Preservation

/-!
# Special forms and builtins beside the interpreter on trees

Each special form and each builtin function of the machine comes to what its rule on trees comes to,
if the evaluation of the parts does. A part is looked up again when its turn comes, and shows the
tree it showed before.
-/

namespace ArenaLisp.Lisp

open Machine Arena
open ArenaLisp.Ideal (Interp Memory)

variable {α β : Type} {m n : Machine} {held : Set Value} {env form v w args : Value}
  {young : Set Nat} {memory after : Memory} {tree value : Sexp} {trees : List Sexp} {name : Symbol}
  {ev : Evaluator} {ref : Ideal.Evaluator}

/-- A value of the machine that shows the value on trees, with the bindings of the memory. -/
structure Reflects (env : Value) (young : Set Nat) (v : Value) (tree : Sexp) (n : Machine)
    (after : Memory) : Prop where
  models : n.Models env young after
  shows' : n.Shows env young v tree

/-- Evaluations that come to the same. -/
def Simulates (ev : Evaluator) (ref : Ideal.Evaluator) : Prop :=
  ∀ {m : Machine} {held : Set Value} {env form : Value} {young : Set Nat} {memory : Memory}
    {tree : Sexp}, m.Mirrored held env young memory → m.Anchored held form →
    m.Shows env young form tree →
    Mirrors (ev form env) (ref tree) m memory (Reflects env young) (Models · env young)

/-- An evaluation that preserves what is protected and comes to what the one on trees comes to. -/
structure Faithful (ev : Evaluator) (ref : Ideal.Evaluator) : Prop where
  preserves : Preserves ev
  simulates : Simulates ev ref

section

variable (mirrored : m.Mirrored held env young memory)
include mirrored

theorem Faithful.part (faithful : Faithful ev ref) (anchored : m.Anchored held form)
    (shows' : m.Shows env young form tree) :
    Mirrors (ev form env) (ref tree) m memory
      (fun v t n after => n.Mirrored held env young after ∧ m.GoesOn held n ∧
        n.Shows env young v t)
      (Models · env young) := by
  have evaluated := (faithful.simulates mirrored anchored shows').with
    (faithful.preserves mirrored.ready mirrored.member (Arena.Shows.live shows'))
  apply evaluated.mono
  · intro v t n after h
    obtain ⟨reflects, answers⟩ := h
    have onward := mirrored.next answers.goesOn.stage reflects.models
    exact ⟨onward, answers.goesOn, reflects.shows'⟩
  · exact fun _ _ models => models

theorem Faithful.eval (faithful : Faithful ev ref) (anchored : m.Anchored held form)
    (shows' : m.Shows env young form tree) {f : Value → Lisp α} {g : Sexp → Interp β}
    {Q : α → β → Machine → Memory → Prop}
    (next : ∀ v t n after, n.Mirrored held env young after → m.GoesOn held n →
      n.Shows env young v t → Mirrors (f v) (g t) n after Q (Models · env young)) :
    Mirrors (ev form env >>= f) (ref tree >>= g) m memory Q (Models · env young) := by
  apply (faithful.part mirrored anchored shows').bind
  intro v t n after h
  obtain ⟨onward, goesOn, showsValue⟩ := h
  exact next v t n after onward goesOn showsValue

/-! ### Special forms -/

theorem mirrors_define {var val : Value} (showsVar : m.Shows env young var (.symbol name))
    (showsVal : m.Shows env young val value) :
    Mirrors (define var val) (Ideal.define name value) m memory
      (fun _ _ n after => n.Models env young after ∧ n.Shows env young var (.symbol name))
      (Models · env young) := by
  have ready := mirrored.ready
  have models := mirrored.models
  unfold Mirrors define
  rw [ensures_bind, ensures_get, ensures_bind, ensures_transact]
  intro result b defined
  unfold Arena.define at defined
  rw [Arena.Shows.symbol?_eq showsVar] at defined
  simp only [Sexp.symbol?] at defined
  obtain ⟨entry, old, found, known, -⟩ | ⟨absent, unknown⟩ := models.globe.lookup name
  · rw [found] at defined
    cases defined
    rw [Ideal.lookup_global] at known
    have binding : m.Binding held entry := .inl (element_of_lookup found)
    have unlisted := mirrored.unlisted binding
    have onward := models.setCdr_global unlisted found showsVal
    refine ⟨(), _, Ideal.define_known known, onward, ?_⟩
    exact showsVar.setCdr unlisted (mirrored.reserved binding)
  · rw [absent] at defined
    rw [Ideal.lookup_global] at unknown
    have bound := ensures_bindOn ready.sound.arena (Arena.Shows.live showsVar)
      (Arena.Shows.live showsVal) ready.sound.globe
    unfold Storing.Ensures at bound
    simp only [Option.some.injEq] at defined
    rw [defined] at bound
    obtain fault | v := result
    · exact .inl bound.1
    · have liveEnv := ready.live mirrored.member
      have showsVar' := showsVar.bindOn ready.sound liveEnv bound
      have onward := models.bindOn ready.sound liveEnv bound showsVar showsVal
      exact ⟨(), _, Ideal.define_unknown unknown, onward, showsVar'⟩

theorem mirrors_define_return {var val : Value}
    (showsVar : m.Shows env young var (.symbol name)) (showsVal : m.Shows env young val value) :
    Mirrors (do define var val; return var)
      (do Ideal.define name value; return (.symbol name)) m memory (Reflects env young)
      (Models · env young) := by
  apply (mirrors_define mirrored showsVar showsVal).bind
  intro _ _ n after h
  exact mirrors_pure ⟨h.1, h.2⟩

theorem mirrors_quote (shows' : m.Shows env young args tree) :
    Mirrors (quote args) (pure tree.car) m memory (Reflects env young) (Models · env young) := by
  unfold quote
  exact ⟨_, memory, rfl, mirrored.models, Arena.Shows.car shows'⟩

theorem ensures_symbol_shows (plain : ¬ name.Revealing) :
    Ensures (store (Arena.symbol name)) m (fun v n => ∃ b, n = { m with arena := b } ∧
      m.arena.Grows b ∧ n.Shows env young v (.symbol name)) NoRoom := by
  apply (ensures_store_noRoom (Arena.ensures_symbol mirrored.ready.sound.arena name)).mono
  · intro v n taken
    obtain ⟨b, ⟨id, is, took⟩, is'⟩ := taken
    subst is is'
    exact ⟨b, rfl, took.grows, .symbol took.content plain⟩
  · exact fun _ _ room => room

theorem ensures_cons_shows {head tail : Value} {s t : Sexp} (showsHead : m.Shows env young head s)
    (showsTail : m.Shows env young tail t) :
    Ensures (store (Arena.cons head tail)) m (fun v n => ∃ b, n = { m with arena := b } ∧
      m.arena.Grows b ∧ n.Shows env young v (.pair s t)) NoRoom := by
  have live := Arena.Shows.live showsHead
  have live' := Arena.Shows.live showsTail
  apply (ensures_store_noRoom (Arena.ensures_cons mirrored.ready.sound.arena live live')).mono
  · intro v n taken
    obtain ⟨b, ⟨id, is, took⟩, is'⟩ := taken
    subst is is'
    refine ⟨b, rfl, took.grows, .pair took.content (mirrored.not_reserved_of_took took) ?_ ?_⟩
    · exact mirrored.shows_grows took.grows showsHead
    · exact mirrored.shows_grows took.grows showsTail
  · exact fun _ _ room => room

theorem mirrors_defun (shows' : m.Shows env young args tree) :
    Mirrors (defun args) (Ideal.defun tree) m memory (Reflects env young) (Models · env young) := by
  have sound := mirrored.ready.sound
  have showsVar := Arena.Shows.car shows'
  unfold defun Ideal.defun
  apply mirrors_ask_bind
  apply mirrors_ask_bind
  unfold isSymbol
  rw [showsVar.symbol?_eq]
  cases known : tree.car.symbol? with
  | none => exact mirrors_blame_bind showsVar mirrored.models
  | some name =>
    obtain ⟨is, -⟩ := showsVar.plain known
    simp only [Option.isSome_some, if_true, is]
    rw [is] at showsVar
    apply Mirrors.left (ensures_symbol_shows mirrored Symbol.plain_lambda)
    intro lambda n taken
    obtain ⟨b, is, grows, showsLambda⟩ := taken
    subst is
    have readied := mirrored.next (mirrored.ready.stage_grows grows) (mirrored.models_grows grows)
    have showsVar := mirrored.shows_grows grows showsVar
    have showsArgs := mirrored.shows_grows grows shows'
    apply mirrors_ask_bind
    apply Mirrors.left (ensures_cons_shows readied showsLambda (Arena.Shows.cdr showsArgs))
    intro val k taken
    obtain ⟨c, is, grows, showsVal⟩ := taken
    subst is
    have showsVar := readied.shows_grows grows showsVar
    have readied := readied.next (readied.ready.stage_grows grows) (readied.models_grows grows)
    exact mirrors_define_return readied showsVar showsVal

theorem mirrors_assign (var : Arena → Value) {val : Value}
    (showsVar : m.Shows env young (var m.arena) (.symbol name))
    (showsVal : m.Shows env young val value) :
    Mirrors (do
        let binding ← answer fun a => a.findBinding (var a) env m.globe
        change (·.setCdr binding val)
        return val)
      (do Ideal.assign name value; return value) m memory (Reflects env young)
      (Models · env young) := by
  have models := mirrored.models
  unfold Mirrors
  rw [ensures_bind, ensures_answer]
  intro result found
  unfold findBinding lookupEither at found
  rw [Arena.Shows.symbol?_eq showsVar, Arena.Shows.render_eq showsVar] at found
  simp only [Sexp.symbol?, Option.map_some] at found
  -- what is written in a binding changes no tree
  have written : ∀ {cell}, m.Binding held cell →
      Shows { m with arena := m.arena.setCdr cell val } env young val value := fun binding =>
    showsVal.setCdr (mirrored.unlisted binding) (mirrored.reserved binding)
  rw [bind_apply]
  obtain ⟨entry, old, here, known, -⟩ | ⟨absent, unknown⟩ := models.layers.lookup name
  · rw [here] at found
    cases found
    have binding : m.Binding held entry :=
      .inr ⟨env, mirrored.member, element_of_lookup here⟩
    have onward := models.setCdr_local (mirrored.unlisted binding) here showsVal
    rw [Ideal.assign_local known]
    exact ⟨value, _, rfl, onward, written binding⟩
  · rw [absent] at found
    obtain ⟨entry, old, here, known, -⟩ | ⟨absent', unknown'⟩ := models.globe.lookup name
    · rw [here] at found
      cases found
      have binding : m.Binding held entry := .inl (element_of_lookup here)
      have onward := models.setCdr_global (mirrored.unlisted binding) here showsVal
      rw [Ideal.lookup_global] at known
      rw [Ideal.assign_global unknown known]
      exact ⟨value, _, rfl, onward, written binding⟩
    · rw [absent'] at found
      cases found
      rw [Ideal.lookup_global] at unknown'
      rw [Ideal.assign_unknown unknown unknown']
      exact .inr ⟨memory, rfl, models⟩

/-! The other special forms evaluate parts. -/

section

variable (faithful : Faithful ev ref) (shows' : m.Shows env young args tree)
  (secure : m.Secure held args)
include faithful shows' secure

theorem mirrors_defvar :
    Mirrors (defvar ev args env) (Ideal.defvar ref tree) m memory (Reflects env young)
      (Models · env young) := by
  have showsVar := Arena.Shows.car shows'
  unfold defvar Ideal.defvar
  apply mirrors_ask_bind
  apply mirrors_ask_bind
  unfold isSymbol
  rw [showsVar.symbol?_eq]
  cases known : tree.car.symbol? with
  | none => exact mirrors_blame_bind showsVar mirrored.models
  | some name =>
    obtain ⟨is, -⟩ := showsVar.plain known
    simp only [Option.isSome_some, if_true, is]
    rw [is] at showsVar
    apply mirrors_ask_bind
    apply faithful.eval mirrored secure.cdr.car.anchored (Arena.Shows.second shows')
    intro val t n after readied goesOn showsVal
    have showsVar := mirrored.shows_next showsVar secure.car.anchored goesOn.stage
    exact mirrors_define_return readied showsVar showsVal

theorem mirrors_cond :
    Mirrors (cond ev args env) (Ideal.cond ref tree) m memory (Reflects env young)
      (Models · env young) := by
  unfold cond Ideal.cond
  apply mirrors_ask_bind
  apply faithful.eval mirrored secure.car.anchored (Arena.Shows.car shows')
  intro test t n after readied goesOn showsTest
  have showsArgs := mirrored.shows_next shows' secure.anchored goesOn.stage
  have secure := secure.stage mirrored.ready goesOn.stage
  by_cases empty : test = .nil
  · rw [if_pos empty, if_pos (showsTest.nil_iff.1 empty)]
    apply mirrors_ask_bind
    exact faithful.simulates readied secure.cdr.cdr.car.anchored (Arena.Shows.third showsArgs)
  · rw [if_neg empty, if_neg fun is => empty (showsTest.nil_iff.2 is)]
    apply mirrors_ask_bind
    exact faithful.simulates readied secure.cdr.car.anchored (Arena.Shows.second showsArgs)

theorem mirrors_setq :
    Mirrors (setq ev args env) (Ideal.setq ref tree) m memory (Reflects env young)
      (Models · env young) := by
  unfold setq Ideal.setq
  apply mirrors_ask_bind
  apply faithful.eval mirrored secure.cdr.car.anchored (Arena.Shows.second shows')
  intro val t n after readied goesOn showsVal
  have showsVar := Arena.Shows.car (mirrored.shows_next shows' secure.anchored goesOn.stage)
  apply mirrors_get_bind
  cases known : tree.car.symbol? with
  | none =>
    unfold Mirrors
    rw [ensures_bind, ensures_answer]
    intro result found
    unfold findBinding at found
    rw [showsVar.symbol?_eq, showsVar.render_eq, known] at found
    cases found
    exact .inr ⟨after, rfl, readied.models⟩
  | some name =>
    rw [(showsVar.plain known).1] at showsVar
    exact mirrors_assign readied (fun a => a.car args) showsVar showsVal

theorem mirrors_special (form : SpecialForm) :
    Mirrors (special ev form args env) (Ideal.special ref form tree) m memory (Reflects env young)
      (Models · env young) := by
  cases form with
  | quote => exact mirrors_quote mirrored shows'
  | defun => exact mirrors_defun mirrored shows'
  | defvar => exact mirrors_defvar mirrored faithful shows' secure
  | setq => exact mirrors_setq mirrored faithful shows' secure
  | cond => exact mirrors_cond mirrored faithful shows' secure

end

/-! ### Builtin functions -/

theorem mirrors_truth {condition condition' : Bool} (same : condition = condition') :
    Mirrors (truth condition) (pure (Ideal.truth condition')) m memory (Reflects env young)
      (Models · env young) := by
  subst same
  have models := mirrored.models
  unfold truth
  apply mirrors_get_bind
  cases condition with
  | false => exact mirrors_pure ⟨models, .nil⟩
  | true =>
    obtain ⟨id, is, content⟩ := symbol?_eq_some_iff.1 mirrored.ready.sound.tee
    apply mirrors_pure
    refine ⟨models, ?_⟩
    rw [if_pos rfl, is]
    exact .symbol content Symbol.plain_tee

theorem mirrors_truth_ask {question : Arena → Bool} {condition : Bool}
    (same : question m.arena = condition) :
    Mirrors (do truth (← ask question)) (pure (Ideal.truth condition)) m memory (Reflects env young)
      (Models · env young) := by
  apply mirrors_ask_bind
  exact mirrors_truth mirrored same

theorem mirrors_listCar (shows' : m.Shows env young v tree) :
    Mirrors (answer fun a => some (a.listCar v))
      (if tree.isList then pure tree.car else throw .cantTakeCar) m memory (Reflects env young)
      (Models · env young) := by
  unfold Mirrors
  rw [ensures_answer]
  intro result looked
  cases looked
  unfold listCar
  rw [Arena.Shows.isList_eq shows']
  by_cases list : tree.isList = true
  · rw [if_pos list, if_pos list]
    exact ⟨_, memory, rfl, mirrored.models, Arena.Shows.car shows'⟩
  · rw [if_neg list, if_neg list]
    exact .inr ⟨memory, rfl, mirrored.models⟩

theorem mirrors_listCdr (shows' : m.Shows env young v tree) :
    Mirrors (answer fun a => some (a.listCdr v))
      (if tree.isList then pure tree.cdr else throw .cantTakeCdr) m memory (Reflects env young)
      (Models · env young) := by
  unfold Mirrors
  rw [ensures_answer]
  intro result looked
  cases looked
  unfold listCdr
  rw [Arena.Shows.isList_eq shows']
  by_cases list : tree.isList = true
  · rw [if_pos list, if_pos list]
    exact ⟨_, memory, rfl, mirrored.models, Arena.Shows.cdr shows'⟩
  · rw [if_neg list, if_neg list]
    exact .inr ⟨memory, rfl, mirrored.models⟩

theorem mirrors_primitive (faithful : Faithful ev ref) (shows' : m.Shows env young args tree)
    (secure : m.Secure held args) (function : Primitive)
    (plain : ¬ (Symbol.ofBuiltin (.primitive function)).Revealing) :
    Mirrors (primitive ev function args env) (Ideal.primitive ref function tree) m memory
      (Reflects env young) (Models · env young) := by
  have showsFirst := Arena.Shows.car shows'
  have models := mirrored.models
  have empty : (m.arena.car args).isNil = decide (tree.car = .nil) := by
    rw [Bool.eq_iff_iff, Value.isNil_iff, decide_eq_true_iff, showsFirst.nil_iff]
  unfold primitive
  apply mirrors_ask_bind
  cases function with
  | not => exact mirrors_truth mirrored empty
  | null => exact mirrors_truth mirrored empty
  | cons =>
    apply mirrors_ask_bind
    apply mirrors_of_ensures (ensures_cons_shows mirrored showsFirst (Arena.Shows.second shows'))
    intro v n taken
    obtain ⟨b, is, grows, showsPair⟩ := taken
    subst is
    exact ⟨mirrored.models_grows grows, showsPair⟩
  | atom => exact mirrors_truth_ask mirrored (congrArg not showsFirst.isPair_eq)
  | listp => exact mirrors_truth_ask mirrored showsFirst.isList_eq
  | consp => exact mirrors_truth_ask mirrored showsFirst.isPair_eq
  | symbolp => exact mirrors_truth_ask mirrored (congrArg Option.isSome showsFirst.symbol?_eq)
  | eq => exact absurd (.inl rfl) plain
  | car => exact mirrors_listCar mirrored showsFirst
  | cdr => exact mirrors_listCdr mirrored showsFirst
  | eval => exact faithful.simulates mirrored secure.car.anchored showsFirst
  | globals => exact absurd (.inr (.inl rfl)) plain
  | locals => exact absurd (.inr (.inr rfl)) plain

theorem mirrors_applyBuiltin {fname : Value} {fname' : Sexp} {row : Builtin}
    (faithful : Faithful ev ref) (showsName : m.Shows env young fname fname')
    (shows' : m.Shows env young args (.ofList trees)) (secure : m.Secure held args)
    (plain : ¬ (Symbol.ofBuiltin row).Revealing) :
    Mirrors (applyBuiltin ev row fname args trees.length env)
      (Ideal.applyBuiltin ref row fname' trees) m memory (Reflects env young)
      (Models · env young) := by
  have models := mirrored.models
  unfold applyBuiltin Ideal.applyBuiltin
  by_cases few : trees.length < row.arity.least
  · simp only [if_pos few]
    exact mirrors_blame_both showsName models
  · by_cases many : row.arity.most < trees.length
    · simp only [if_neg few, if_pos many]
      exact mirrors_blame_both showsName models
    · simp only [if_neg few, if_neg many]
      cases row with
      | keyword => exact mirrors_blame showsName models
      | special form => exact mirrors_special mirrored faithful shows' secure form
      | primitive function =>
        exact mirrors_primitive mirrored faithful shows' secure function plain

end

end ArenaLisp.Lisp
