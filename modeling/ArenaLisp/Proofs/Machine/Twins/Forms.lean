import ArenaLisp.Proofs.Machine.Detached
import ArenaLisp.Proofs.Machine.Twins.Basic

/-!
# Evaluation on twins

Twins that evaluate one form, one of them as a program that runs none of its bindings, come to the
same, although they may collect at different times: by induction on how deep the evaluations of the
first nest, and along the text of the evaluator at each level. Whatever the evaluator goes back to
after the evaluation of a part is secure, so it is still related then.
-/

namespace ArenaLisp.Lisp

open Machine Arena

variable [Ration] {α β : Type} {R S : Nat → Nat → Prop} {m m' n n' : Machine} {held held' : Set Value}
  {ev ev' : Evaluator} {env env' form form' v w args args' fname fname' : Value}
  {E : Fault → Prop}

/-- Twins agree on the evaluation of a form. -/
def Agreement (ev ev' : Evaluator) : Prop :=
  ∀ {R : Nat → Nat → Prop} {m : Machine} {held : Set Value} {env : Value} {m' : Machine}
    {held' : Set Value} {env' form form' : Value},
    Abreast R m held env m' held' env' → Same R form form' → m.Anchored held form →
    Tandem (ev form env) (ev' form' env') m m'
      (fun v w n n' => Results R m held v w n n' ∧
        (n.arena.isNamed (n.arena.car v) Symbol.lambda = true → n.Detached held v)) AnyFault

/-- Evaluations that preserve what is protected and on which twins agree. -/
structure Concordant (ev ev' : Evaluator) : Prop where
  preserves : Preserves ev
  preserves' : Preserves ev'
  agreement : Agreement ev ev'

/-! ### Parts -/

theorem tandem_blame {fault : String → Fault} {Q : α → β → Machine → Machine → Prop}
    (twins : Twins R m m') (same : Same R form form') :
    Tandem (blame fault form) (blame fault form') m m' Q AnyFault := by
  unfold blame render
  have rendered : Tandem (answer fun a => (a.render form).map .ok)
      (answer fun a => (a.render form').map .ok) m m' (fun v w _ _ => v = w) AnyFault := by
    apply tandem_answer
    intro p q first second
    obtain ⟨text, left, rfl⟩ := Option.map_eq_some_iff.1 first
    obtain ⟨text', right, rfl⟩ := Option.map_eq_some_iff.1 second
    rw [twins.arenas.render_eq same, left] at right
    cases right
    exact .ok rfl
  apply rendered.bind
  intro text text' k k' is
  subst is
  exact tandem_throw trivial

theorem tandem_ite {P P' : Prop} [Decidable P] [Decidable P'] (iff : P ↔ P') {x x' : Lisp α}
    {y y' : Lisp β} {Q : α → β → Machine → Machine → Prop} {E : Fault → Machine → Machine → Prop}
    (yes : P → Tandem x y m m' Q E) (no : ¬ P → Tandem x' y' m m' Q E) :
    Tandem (if P then x else x') (if P' then y else y') m m' Q E := by
  by_cases h : P
  · rw [if_pos h, if_pos (iff.1 h)]
    exact yes h
  · rw [if_neg h, if_neg fun h' => h (iff.2 h')]
    exact no h

theorem tandem_ask_bind {γ δ : Type} {f : Arena → α} {g : Arena → β} {x : α → Lisp γ} {y : β → Lisp δ}
    {Q : γ → δ → Machine → Machine → Prop} {E : Fault → Machine → Machine → Prop}
    (h : Tandem (x (f m.arena)) (y (g m'.arena)) m m' Q E) :
    Tandem (ask f >>= x) (ask g >>= y) m m' Q E := h

theorem tandem_get_bind {x y : Machine → Lisp α} {Q : α → α → Machine → Machine → Prop}
    {E : Fault → Machine → Machine → Prop} (h : Tandem (x m) (y m') m m' Q E) :
    Tandem (get >>= x) (get >>= y) m m' Q E := h

section

variable (abreast : Abreast R m held env m' held' env')
include abreast

theorem Concordant.eval (concordant : Concordant ev ev') (same : Same R form form')
    (anchored : m.Anchored held form) {f g : Value → Lisp Value}
    (next : ∀ S v w n n', Abreast S n held env n' held' env' → Follows R m held S n n' →
      m.GoesOn held n → m'.GoesOn held' n' → Same S v w →
      (n.arena.isNamed (n.arena.car v) Symbol.lambda = true → n.Detached held v) →
      Tandem (f v) (g w) n n' (Results S n held) AnyFault) :
    Tandem (ev form env >>= f) (ev' form' env' >>= g) m m' (Results R m held) AnyFault := by
  obtain ⟨live, live'⟩ := abreast.twins.arenas.live same
  have first := (concordant.agreement abreast same anchored).with
    (concordant.preserves abreast.ready abreast.member live)
    (concordant.preserves' abreast.ready' abreast.member' live')
  apply first.bind
  intro v w n n' h
  obtain ⟨⟨⟨S, follows, same⟩, detached⟩, answers, answers'⟩ := h
  have goesOn := answers.goesOn
  have goesOn' := answers'.goesOn
  have onward := next S v w n n' (abreast.next follows goesOn.stage goesOn'.stage) follows goesOn
    goesOn' same detached
  exact onward.mono (fun _ _ _ _ results => results.after abreast.ready goesOn.stage follows)
    fun _ _ _ _ => trivial

theorem Concordant.last (concordant : Concordant ev ev') (same : Same R form form')
    (anchored : m.Anchored held form) :
    Tandem (ev form env) (ev' form' env') m m' (Results R m held) AnyFault :=
  (concordant.agreement abreast same anchored).mono (fun _ _ _ _ h => h.1) fun _ _ _ h => h

theorem tandem_store_bind {f g : Storing Value}
    (pairs : Storing.Tandem f g m.arena m'.arena (Pairs R m.arena m'.arena) E)
    {x y : Value → Lisp Value}
    (next : ∀ S v w n n', R ≤ S → Abreast S n held env n' held' env' → Same S v w →
      m.Stage held n → Tandem (x v) (y w) n n' (Results S n held) AnyFault) :
    Tandem (store f >>= x) (store g >>= y) m m' (Results R m held) AnyFault := by
  have stored : Tandem (store f) (store g) m m' (fun v w n n' => ∃ S, R ≤ S ∧
      Abreast S n held env n' held' env' ∧ Same S v w ∧ m.Stage held n) AnyFault := by
    apply tandem_store (E := E)
    · apply pairs.mono
      intro v w c d h
      obtain ⟨S, pairing⟩ := h
      have stage := abreast.ready.stage_grows pairing.grows
      have stage' := abreast.ready'.stage_grows pairing.grows'
      have twins := abreast.twins.pairing pairing
      exact ⟨S, pairing.wider, abreast.next (.of_le twins pairing.wider) stage stage', pairing.same,
        stage⟩
    · exact fun _ _ _ _ => trivial
  apply stored.bind
  intro v w n n' h
  obtain ⟨S, wider, abreast', same, stage⟩ := h
  have follows : Follows R m held S n n' := .of_le abreast'.twins wider
  exact (next S v w n n' wider abreast' same stage).mono
    (fun _ _ _ _ results => results.after abreast.ready stage follows) fun _ _ _ _ => trivial

theorem tandem_store_last {f g : Storing Value}
    (pairs : Storing.Tandem f g m.arena m'.arena (Pairs R m.arena m'.arena) E) :
    Tandem (store f) (store g) m m' (Results R m held) AnyFault := by
  apply tandem_store (E := E)
  · apply pairs.mono
    intro v w c d h
    obtain ⟨S, pairing⟩ := h
    exact ⟨S, .of_le (abreast.twins.pairing pairing) pairing.wider, pairing.same⟩
  · exact fun _ _ _ _ => trivial

/-! ### Special forms -/

theorem tandem_define_return {var var' val val' : Value} (sameVar : Same R var var')
    (sameVal : Same R val val') :
    Tandem (do define var val; return var) (do define var' val'; return var') m m'
      (Results R m held) AnyFault := by
  have twins := abreast.twins
  have defined : Tandem (define var val) (define var' val') m m'
      (fun _ _ n n' => Results R m held var var' n n') AnyFault := by
    unfold define
    apply tandem_get_bind
    have changed : Tandem (transact (Arena.define var val m.globe))
        (transact (Arena.define var' val' m'.globe)) m m'
        (fun v w n n' => ∃ c d S, n = { m with arena := c } ∧ n' = { m' with arena := d } ∧
          R ≤ S ∧ Same S v w ∧ Match S c d) AnyFault := by
      apply tandem_transact
      intro p q first second
      have agree := twins.arenas.define abreast.ready.sound.arena abreast.ready'.sound.arena sameVar
        sameVal twins.globe first second
      obtain ⟨r, c⟩ := p
      obtain ⟨r', d⟩ := q
      cases agree with
      | ok h =>
        obtain ⟨S, wider, same, arenas⟩ := h
        exact .ok ⟨c, d, S, rfl, rfl, wider, same, arenas⟩
      | error => exact .error trivial
      | noRoom => exact .noRoom
      | noRoom' free => exact .noRoom' free
    apply changed.bind
    rintro globe globe' _ _ ⟨c, d, S, rfl, rfl, wider, same, arenas⟩
    apply tandem_modify
    refine ⟨S, .of_le ?_ wider, sameVar.le wider⟩
    exact ⟨arenas, twins.tee.le wider, same, twins.stack.le wider, twins.interrupted,
      twins.console, twins.ample⟩
  apply defined.bind
  intro _ _ n n' results
  exact tandem_pure results

theorem tandem_defun (same : Same R args args') :
    Tandem (defun args) (defun args') m m' (Results R m held) AnyFault := by
  have h := abreast.twins.arenas
  have sameVar := h.same_car same
  unfold defun
  apply tandem_ask_bind
  apply tandem_ask_bind
  dsimp only
  apply tandem_ite (by rw [h.isSymbol_eq sameVar])
  · intro _
    apply tandem_store_bind abreast (E := fun _ => True)
      (pairs_symbol abreast.ready.sound.arena abreast.ready'.sound.arena h _)
    intro S lambda lambda' n n' wider abreast sameLambda _
    apply tandem_ask_bind
    apply tandem_store_bind abreast (E := fun _ => True)
      (pairs_cons abreast.ready.sound.arena abreast.ready'.sound.arena abreast.twins.arenas
        sameLambda (abreast.twins.arenas.same_cdr (same.le wider)))
    intro T val val' k k' wider' abreast sameVal _
    exact tandem_define_return abreast ((sameVar.le wider).le wider') sameVal
  · intro _
    apply (tandem_blame abreast.twins sameVar).bind (Q := fun _ _ _ _ => False)
    intro _ _ _ _ h
    exact h.elim

section

variable (concordant : Concordant ev ev') (same : Same R args args') (steady : m.Steady held args)
include concordant same steady

theorem tandem_defvar :
    Tandem (defvar ev args env) (defvar ev' args' env') m m' (Results R m held) AnyFault := by
  have h := abreast.twins.arenas
  have sameVar := h.same_car same
  unfold defvar
  apply tandem_ask_bind
  apply tandem_ask_bind
  dsimp only
  apply tandem_ite (by rw [h.isSymbol_eq sameVar])
  · intro _
    apply tandem_ask_bind
    apply concordant.eval abreast (h.second_same same) steady.second
    intro S val val' n n' abreast follows _ _ sameVal _
    exact tandem_define_return abreast (follows.same steady.car sameVar) sameVal
  · intro _
    apply (tandem_blame abreast.twins sameVar).bind (Q := fun _ _ _ _ => False)
    intro _ _ _ _ h
    exact h.elim

theorem tandem_setq :
    Tandem (setq ev args env) (setq ev' args' env') m m' (Results R m held) AnyFault := by
  unfold setq
  apply tandem_ask_bind
  apply concordant.eval abreast (abreast.twins.arenas.second_same same) steady.second
  intro S val val' n n' abreast follows _ _ sameVal _
  have twins := abreast.twins
  have sameVar := twins.arenas.same_car (follows.same steady.anchored same)
  apply tandem_get_bind
  have found : Tandem (answer fun a => a.findBinding (a.car args) env n.globe)
      (answer fun a => a.findBinding (a.car args') env' n'.globe) n n'
      (fun id other k k' => S id other ∧ k = n ∧ k' = n') AnyFault := by
    apply tandem_answer
    intro p q first second
    obtain ⟨id, other, rfl, rfl, related⟩ | ⟨fault, rfl, rfl⟩ :=
      twins.arenas.findBinding sameVar abreast.same twins.globe first second
    · exact .ok ⟨related, rfl, rfl⟩
    · exact .error trivial
  apply found.bind
  intro id other k k' h
  obtain ⟨related, is, is'⟩ := h
  subst is is'
  have assigned : Tandem (change (·.setCdr id val)) (change (·.setCdr other val')) k k'
      (fun _ _ j j' => Twins S j j') AnyFault := tandem_change (twins.setCdr related sameVal)
  apply assigned.bind
  intro _ _ j j' twins
  exact tandem_pure ⟨S, .of_le twins (le_refl S), sameVal⟩

theorem tandem_cond :
    Tandem (cond ev args env) (cond ev' args' env') m m' (Results R m held) AnyFault := by
  unfold cond
  apply tandem_ask_bind
  apply concordant.eval abreast (abreast.twins.arenas.same_car same) steady.car
  intro S test test' n n' abreast' follows goesOn _ sameTest _
  have h := abreast'.twins.arenas
  have same := follows.same steady.anchored same
  have steady := steady.stage abreast.ready goesOn.stage
  apply tandem_ite sameTest.nil_iff
  · intro _
    exact concordant.last abreast' (h.third_same same) steady.third
  · intro _
    exact concordant.last abreast' (h.second_same same) steady.second

theorem tandem_special (form : SpecialForm) :
    Tandem (special ev form args env) (special ev' form args' env') m m' (Results R m held)
      AnyFault := by
  cases form with
  | quote =>
    unfold special quote
    exact tandem_pure (abreast.results (abreast.twins.arenas.same_car same))
  | defun => exact tandem_defun abreast same
  | defvar => exact tandem_defvar abreast concordant same steady
  | setq => exact tandem_setq abreast concordant same steady
  | cond => exact tandem_cond abreast concordant same steady

end

/-! ### Builtin functions -/

theorem tandem_truth {condition condition' : Bool} (is : condition' = condition) :
    Tandem (truth condition) (truth condition') m m' (Results R m held) AnyFault := by
  subst is
  unfold truth
  apply tandem_get_bind
  apply tandem_pure
  apply abreast.results
  cases condition'
  · exact .nil
  · exact abreast.twins.tee

theorem tandem_answer_list {f g : Arena → Except Fault Value}
    (h : (∃ v w, f m.arena = .ok v ∧ g m'.arena = .ok w ∧ Same R v w) ∨
      ∃ fault, f m.arena = .error fault ∧ g m'.arena = .error fault) :
    Tandem (answer fun a => some (f a)) (answer fun a => some (g a)) m m' (Results R m held)
      AnyFault := by
  apply tandem_answer
  intro p q first second
  cases first
  cases second
  obtain ⟨v, w, left, right, same⟩ | ⟨fault, left, right⟩ := h
  · rw [left, right]
    exact .ok (abreast.results same)
  · rw [left, right]
    exact .error trivial

theorem isSame_eq (sameV : Same R v v') (sameW : Same R w w') :
    isSame m'.arena v' w' = isSame m.arena v w := by
  have h := abreast.twins.arenas
  have eq : (v' == w') = (v == w) := by
    rw [Bool.eq_iff_iff, beq_iff_eq, beq_iff_eq]
    exact (h.eq_iff sameV sameW).symm
  unfold isSame
  rw [eq, h.symbol?_eq sameV, h.symbol?_eq sameW]

/-- A builtin function goes the same way for twins. The form that `EVAL` evaluates is firm because
the list of the arguments is. -/
theorem tandem_primitive (concordant : Concordant ev ev') (same : Same R args args')
    (steady : m.Steady held args) (function : Primitive) :
    Tandem (primitive ev function args env) (primitive ev' function args' env') m m'
      (Results R m held) AnyFault := by
  have h := abreast.twins.arenas
  have x := h.same_car same
  have y := h.second_same same
  unfold primitive
  apply tandem_ask_bind
  have nil : (m'.arena.car args').isNil = (m.arena.car args).isNil := by
    generalize m.arena.car args = v at x
    generalize m'.arena.car args' = w at x
    cases x <;> rfl
  cases function with
  | not => exact tandem_truth abreast nil
  | null => exact tandem_truth abreast nil
  | cons =>
    apply tandem_ask_bind
    exact tandem_store_last abreast (E := fun _ => True)
      (pairs_cons abreast.ready.sound.arena abreast.ready'.sound.arena h x y)
  | atom =>
    apply tandem_ask_bind
    exact tandem_truth abreast (h.isAtom_eq x)
  | listp =>
    apply tandem_ask_bind
    exact tandem_truth abreast (h.isList_eq x)
  | consp =>
    apply tandem_ask_bind
    exact tandem_truth abreast (h.isPair_eq x)
  | symbolp =>
    apply tandem_ask_bind
    exact tandem_truth abreast (h.isSymbol_eq x)
  | eq =>
    apply tandem_ask_bind
    apply tandem_ask_bind
    exact tandem_truth abreast (isSame_eq abreast x y)
  | car =>
    apply tandem_answer_list abreast
    unfold listCar
    rw [h.isList_eq x]
    by_cases list : m.arena.isList (m.arena.car args) = true
    · rw [if_pos list, if_pos list]
      exact .inl ⟨_, _, rfl, rfl, h.same_car x⟩
    · rw [if_neg list, if_neg list]
      exact .inr ⟨_, rfl, rfl⟩
  | cdr =>
    apply tandem_answer_list abreast
    unfold listCdr
    rw [h.isList_eq x]
    by_cases list : m.arena.isList (m.arena.car args) = true
    · rw [if_pos list, if_pos list]
      exact .inl ⟨_, _, rfl, rfl, h.same_cdr x⟩
    · rw [if_neg list, if_neg list]
      exact .inr ⟨_, rfl, rfl⟩
  | eval => exact concordant.last abreast x steady.car
  | globals =>
    apply tandem_get_bind
    exact tandem_pure (abreast.results abreast.twins.globe)
  | locals => exact tandem_pure (abreast.results abreast.same)

end

end ArenaLisp.Lisp
