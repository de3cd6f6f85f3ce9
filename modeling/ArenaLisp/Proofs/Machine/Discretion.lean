import ArenaLisp.Proofs.Machine.Ensures

/-!
# What an evaluation does not look at

An evaluation does not look at the console, nor at any setting but the collection threshold, nor at
the number of collections so far. With others of these it does the same, and leaves them alone but
for the collections it adds (`discreet_eval`).
-/

namespace ArenaLisp

/-- A machine with another console, with other settings and with more collections behind it. -/
def Machine.guise (m : Machine) (c : Console) (s : Settings) (ahead : Nat) : Machine :=
  { m with console := c, settings := s, collections := m.collections + ahead }

namespace Lisp

variable {α β : Type} {x : Lisp α} {m n : Machine} {form : Value}

/-- A computation that does the same in any guise with the same threshold. -/
def Discreet (x : Lisp α) : Prop :=
  ∀ (m : Machine) (c : Console) (s : Settings) (ahead : Nat),
    s.threshold = m.settings.threshold →
      x (m.guise c s ahead) = (x m).map fun after => (after.1, after.2.guise c s ahead)

namespace Discreet

theorem kept (discreet : Discreet x) {outcome : Except Fault α} (ran : x m = some (outcome, n)) :
    n.console = m.console ∧ n.settings = m.settings := by
  have same := discreet m m.console m.settings 0 rfl
  rw [show m.guise m.console m.settings 0 = m from rfl, ran] at same
  have guise : n = n.guise m.console m.settings 0 := by simpa using same
  rw [guise]
  exact ⟨rfl, rfl⟩

theorem elsewhere (discreet : Discreet x) {outcome : Except Fault α}
    (ran : x m = some (outcome, n)) (c : Console) :
    x { m with console := c } = some (outcome, { n with console := c }) := by
  have settings := (discreet.kept ran).2
  have same := discreet m c m.settings 0 rfl
  rw [ran] at same
  rw [← settings] at same ⊢
  exact same

theorem pure (v : α) : Discreet (pure v : Lisp α) :=
  fun _ _ _ _ _ => rfl

theorem throw (fault : Fault) : Discreet (throw fault : Lisp α) :=
  fun _ _ _ _ _ => rfl

theorem endless : Discreet (endless : Lisp α) :=
  fun _ _ _ _ _ => rfl

theorem ask (question : Arena → α) : Discreet (ask question) :=
  fun _ _ _ _ _ => rfl

theorem answer (question : Arena → Option (Except Fault α)) : Discreet (answer question) := by
  intro m c s ahead _
  have same : (m.guise c s ahead).arena = m.arena := rfl
  rw [Lisp.answer, Lisp.answer, same]
  cases question m.arena <;> rfl

theorem change (f : Arena → Arena) : Discreet (change f) :=
  fun _ _ _ _ _ => rfl

theorem store (f : Storing α) : Discreet (store f) :=
  fun _ _ _ _ _ => rfl

theorem transact (f : Arena → Option (Except Fault α × Arena)) : Discreet (transact f) := by
  intro m c s ahead _
  rw [transact_apply, transact_apply]
  show (f m.arena).map _ = _
  cases f m.arena <;> rfl

theorem modify {f : Machine → Machine}
    (same : ∀ m c s ahead, f (m.guise c s ahead) = (f m).guise c s ahead) :
    Discreet (modify f) := by
  intro m c s ahead _
  show some (Except.ok (), f (m.guise c s ahead)) = some (Except.ok (), (f m).guise c s ahead)
  rw [same]

theorem bind {f : α → Lisp β} (first : Discreet x) (next : ∀ v, Discreet (f v)) :
    Discreet (x >>= f) := by
  intro m c s ahead threshold
  rw [bind_apply, bind_apply, first m c s ahead threshold]
  rcases ran : x m with _ | ⟨fault | v, n⟩
  · rfl
  · rfl
  · have settings := (first.kept ran).2
    exact next v n c s ahead (by rw [threshold, settings])

theorem get {f : Machine → Lisp β} (next : ∀ m, Discreet (f m))
    (same : ∀ m c s ahead, s.threshold = m.settings.threshold → f (m.guise c s ahead) = f m) :
    Discreet (get >>= f) := by
  intro m c s ahead threshold
  rw [bind_apply, bind_apply]
  show f (m.guise c s ahead) (m.guise c s ahead) = (f m m).map _
  rw [same m c s ahead threshold]
  exact next m m c s ahead threshold

theorem ite {p : Prop} [Decidable p] {y : Lisp α} (yes : Discreet x) (no : Discreet y) :
    Discreet (if p then x else y) := by
  split
  · exact yes
  · exact no

theorem blame (fault : String → Fault) (form : Value) : Discreet (blame fault form : Lisp α) :=
  .bind (.answer _) fun _ => .throw _

theorem refusal {fault : String → Fault} {f : α → Lisp β} :
    Discreet (Lisp.blame fault form >>= f) := by
  have same : Lisp.blame fault form >>= f = Lisp.blame fault form := by
    simp [Lisp.blame, bind_assoc]
  rw [same]
  exact blame fault form

end Discreet

open Discreet

variable {ev : Evaluator} {form env fname args function : Value} {n : Nat}

theorem discreet_collect (form env : Value) : Discreet (collect form env) := by
  refine .modify fun m c s ahead => ?_
  simp only [Machine.collect, Machine.guise, Nat.add_right_comm]

theorem discreet_protect (v : Value) : Discreet (protect v) :=
  .get (fun _ => .bind (.store _) fun _ => .modify fun _ _ _ _ => rfl) fun _ _ _ _ _ => rfl

theorem discreet_unprotect : Discreet unprotect :=
  .modify fun _ _ _ _ => rfl

theorem discreet_truth (condition : Bool) : Discreet (truth condition) :=
  .get (fun _ => .pure _) fun _ _ _ _ _ => rfl

theorem discreet_collectIfLow (form env : Value) : Discreet (collectIfLow form env) := by
  refine .get (fun m => .ite (discreet_collect form env) (.pure ())) ?_
  intro m c s ahead threshold
  show (if m.arena.freeCount < s.threshold then _ else _) = _
  rw [threshold]

theorem discreet_escapeIfInterrupted : Discreet escapeIfInterrupted := by
  refine .get (fun m => .ite ?_ (.pure ())) fun _ _ _ _ _ => rfl
  exact .bind (.modify fun _ _ _ _ => rfl) fun _ => .throw _

theorem discreet_evalSymbol (name : Symbol) : Discreet (evalSymbol form name env) := by
  refine .ite (.pure _) (.get (fun m => .bind (.ask _) fun found => ?_) fun _ _ _ _ _ => rfl)
  cases found with
  | found binding => exact .ask _
  | absent => exact .ite (.pure _) (.blame _ _)
  | endless => exact .endless

theorem discreet_define (var val : Value) : Discreet (define var val) := by
  refine .get (fun m => .bind (.transact _) fun globe => .modify fun _ _ _ _ => rfl) ?_
  exact fun _ _ _ _ _ => rfl

/-! ### Special forms -/

theorem discreet_defun : Discreet (defun args) := by
  unfold defun
  refine .bind (.ask _) fun var => .bind (.ask _) fun symbol => .ite ?_ .refusal
  refine .bind (.store _) fun lambda => .bind (.ask _) fun rest => .bind (.store _) fun val => ?_
  exact .bind (discreet_define var val) fun _ => .pure var

section

variable (discreet : ∀ form env, Discreet (ev form env))
include discreet

theorem discreet_special (name : SpecialForm) : Discreet (special ev name args env) := by
  cases name with
  | quote => exact .ask (·.car args)
  | defun => exact discreet_defun
  | defvar =>
    simp only [special, defvar]
    refine .bind (.ask _) fun var => .bind (.ask _) fun symbol => .ite ?_ .refusal
    refine .bind (.ask _) fun part => .bind (discreet _ _) fun val => ?_
    exact .bind (discreet_define var val) fun _ => .pure var
  | setq =>
    refine .bind (.ask _) fun part => .bind (discreet _ _) fun val => ?_
    refine .get (fun m => .bind (.answer _) fun binding => ?_) fun _ _ _ _ _ => rfl
    exact .bind (.change _) fun _ => .pure val
  | cond =>
    refine .bind (.ask _) fun part => .bind (discreet _ _) fun test => .ite ?_ ?_
    · exact .bind (.ask _) fun part => discreet _ _
    · exact .bind (.ask _) fun part => discreet _ _

/-! ### Application -/

theorem discreet_primitive (name : Primitive) : Discreet (primitive ev name args env) := by
  refine .bind (.ask _) fun x => ?_
  cases name with
  | not => exact discreet_truth _
  | null => exact discreet_truth _
  | cons => exact .bind (.ask _) fun y => .store _
  | eq => exact .bind (.ask _) fun y => .bind (.ask _) fun same => discreet_truth _
  | car => exact .answer _
  | cdr => exact .answer _
  | eval => exact discreet _ _
  | globals => exact .get (fun m => .pure _) fun _ _ _ _ _ => rfl
  | locals => exact .pure _
  | _ => exact .bind (.ask _) fun is => discreet_truth _

theorem discreet_applyBuiltin (row : Builtin) (count : Nat) :
    Discreet (applyBuiltin ev row fname args count env) := by
  refine .ite .refusal (.ite .refusal ?_)
  cases row with
  | keyword => exact .blame _ _
  | special name => exact discreet_special discreet name
  | primitive name => exact discreet_primitive discreet name

omit discreet in
theorem discreet_bindArguments (params : Value) :
    Discreet (bindArguments fname params args env) :=
  .bind (.store _) fun _ => .ite .refusal (.ite .refusal (.pure _))

theorem discreet_evalButLast (body : Value) : Discreet (evalButLast ev env n body) := by
  induction n generalizing body with
  | zero => exact .endless
  | succ n ih =>
    refine .bind (.ask _) fun more => .ite ?_ (.ask _)
    exact .bind (.ask _) fun part => .bind (discreet _ _) fun _ => .bind (.ask _) fun rest => ih rest

theorem discreet_applyLambda (lambda : Value) :
    Discreet (applyLambda ev n fname lambda args env) := by
  refine .bind (.store _) fun frame => .bind (.ask _) fun params => ?_
  refine .bind (discreet_bindArguments params) fun inner => .bind (discreet_protect inner) fun _ => ?_
  refine .bind (.ask _) fun body => .bind (discreet_evalButLast discreet body) fun last => ?_
  exact .bind (discreet _ _) fun result => .bind discreet_unprotect fun _ => .pure result

theorem discreet_evalArguments (last : Nat) (rest : Value) (count : Nat) :
    Discreet (evalArguments ev env n last rest count) := by
  induction n generalizing last rest count with
  | zero => exact .endless
  | succ n ih =>
    refine .bind (.ask _) fun more => .ite ?_ (.pure count)
    refine .bind (.ask _) fun part => .bind (discreet _ _) fun val => .bind (.store _) fun cell => ?_
    exact .bind (.change _) fun _ => .bind (.ask _) fun rest => ih cell rest (count + 1)

theorem discreet_call (count : Nat) : Discreet (call ev n fname function args count env) := by
  refine .bind (.ask _) fun name => ?_
  split
  · split
    · exact discreet_applyBuiltin discreet _ count
    · exact .blame _ _
  · refine .bind (.ask _) fun named => .ite ?_ (.blame _ _)
    exact .bind (.ask _) fun lambda => discreet_applyLambda discreet lambda

theorem discreet_apply : Discreet (apply ev n form env) := by
  refine .bind (.ask _) fun fname => .bind (discreet _ _) fun op => .bind (.store _) fun head => ?_
  refine .bind (discreet_protect _) fun _ => .bind (.ask _) fun rest => ?_
  refine .bind (discreet_evalArguments discreet head rest 0) fun count => ?_
  refine .bind (.ask _) fun function => .bind (.ask _) fun args => ?_
  refine .bind (discreet_call discreet count) fun result => ?_
  exact .bind discreet_unprotect fun _ => .pure result

/-! ### Evaluation -/

theorem discreet_evalForm : Discreet (evalForm ev n form env) := by
  refine .ite (.pure _) (.bind (.ask _) fun name => ?_)
  split
  · exact discreet_evalSymbol _
  · refine .bind (.ask _) fun head => ?_
    split
    · exact .ite (.pure _) (.throw _)
    · exact .bind (.ask _) fun args => discreet_special discreet _
    · exact discreet_apply discreet

theorem discreet_evalStep : Discreet (evalStep ev n form env) :=
  .bind (discreet_collectIfLow form env) fun _ => .bind discreet_escapeIfInterrupted fun _ =>
    discreet_evalForm discreet

end

theorem discreet_eval (fuel : Nat) (form env : Value) : Discreet (eval fuel form env) := by
  induction fuel generalizing form env with
  | zero => exact .endless
  | succ n ih => exact discreet_evalStep ih

end Lisp

end ArenaLisp
