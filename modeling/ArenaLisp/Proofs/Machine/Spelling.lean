import ArenaLisp.Proofs.Machine.Ensures
import ArenaLisp.Proofs.Text.Spelling

/-!
# Evaluation makes no symbols but those of the builtin table

All that an evaluation takes cells for are pairs, and the symbol `LAMBDA` of a definition. So whatever
it comes to, at any level, it takes cells for no symbols but those that can be read back from their
names (`spells_eval`).
-/

namespace ArenaLisp.Lisp

variable {α β : Type} {x : Lisp α}

/-- A computation that takes cells for no symbols but those that can be read back, whatever it comes
to. -/
def Spells (x : Lisp α) : Prop :=
  ∀ m : Machine, Ensures x m (fun _ n => m.arena.Spelled n.arena) fun _ n =>
    m.arena.Spelled n.arena

namespace Spells

theorem pure (v : α) : Spells (pure v : Lisp α) :=
  fun _ => Arena.Spelled.refl

theorem throw (fault : Fault) : Spells (throw fault : Lisp α) :=
  fun _ => Arena.Spelled.refl

theorem endless : Spells (endless : Lisp α) :=
  fun _ => ensures_endless

theorem bind {f : α → Lisp β} (first : Spells x) (next : ∀ v, Spells (f v)) :
    Spells (x >>= f) := by
  intro m
  refine ensures_bind.2 ((first m).mono (fun v n spelled => ?_) fun _ _ spelled => spelled)
  exact (next v n).mono (fun _ _ => spelled.trans) fun _ _ => spelled.trans

theorem map {f : α → β} (spells : Spells x) : Spells (f <$> x) :=
  fun m => ensures_map.2 (spells m)

theorem tryCatch {handle : Fault → Lisp α} (spells : Spells x)
    (handled : ∀ fault, Spells (handle fault)) : Spells (tryCatch x handle) := by
  intro m
  refine ensures_tryCatch.2 ((spells m).mono (fun _ _ spelled => spelled) fun fault n spelled => ?_)
  exact (handled fault n).mono (fun _ _ => spelled.trans) fun _ _ => spelled.trans

theorem get : Spells (get : Lisp Machine) :=
  fun _ => Arena.Spelled.refl

theorem ask (question : Arena → α) : Spells (ask question) :=
  fun _ => Arena.Spelled.refl

theorem answer (question : Arena → Option (Except Fault α)) : Spells (answer question) := by
  intro m
  refine ensures_answer.2 ?_
  rintro (_ | _) _
  · exact .refl
  · exact .refl

theorem write (f : Console → Console) : Spells (write f) :=
  fun _ => Arena.Spelled.refl

/-- A change of anything but the arena. -/
theorem modify {f : Machine → Machine} (same : ∀ m, (f m).arena = m.arena) :
    Spells (modify f : Lisp Unit) := by
  intro m
  show m.arena.Spelled (f m).arena
  rw [same]
  exact .refl

theorem store {f : Storing α} (spells : f.Spells) : Spells (store f) :=
  fun m => ensures_store.2 (spells m.arena)

theorem setCdr (id : Nat) (v : Value) : Spells (change (·.setCdr id v)) :=
  fun _ => Arena.Spelled.setCdr

theorem collect (form env : Value) : Spells (collect form env) :=
  fun m => Arena.Spelled.collect [m.tee, m.globe, m.stack, form, env]

theorem blame (fault : String → Fault) (form : Value) : Spells (blame fault form : Lisp α) :=
  fun _ => ensures_refusal .refl

theorem refuse (fault : String → Fault) (form : Value) (f : α → Lisp β) :
    Spells (Lisp.blame fault form >>= f) :=
  fun _ => ensures_bind.2 (ensures_refusal .refl)

theorem outcome (spells : Spells x) {m n : Machine} {outcome : Except Fault α}
    (ran : x m = some (outcome, n)) : m.arena.Spelled n.arena := by
  rcases outcome with fault | v
  · exact (spells m).error ran
  · exact (spells m).ok ran

end Spells

open Spells Arena

/-! ### Parts -/

theorem spells_collectIfLow (form env : Value) : Spells (collectIfLow form env) := by
  refine .bind .get fun m => ?_
  dsimp only
  split
  · exact .collect form env
  · exact .pure _

theorem spells_escapeIfInterrupted : Spells escapeIfInterrupted := by
  refine .bind .get fun m => ?_
  split
  · exact .bind (.modify fun _ => rfl) fun _ => .throw _
  · exact .pure _

theorem spells_protect (v : Value) : Spells (protect v) :=
  .bind .get fun _ => .bind (.store (spells_cons _ _)) fun _ => .modify fun _ => rfl

theorem spells_unprotect : Spells unprotect :=
  .modify fun _ => rfl

theorem spells_truth (condition : Bool) : Spells (truth condition) :=
  .bind .get fun _ => .pure _

theorem spells_define (var val : Value) : Spells (define var val) := by
  refine .bind .get fun m => .bind ?_ fun _ => .modify fun _ => rfl
  intro k
  refine ensures_transact.2 fun result b defined => ?_
  -- a definition that fails may have taken the first of its two cells
  have after : k.arena.Spelled b := by
    unfold Arena.define at defined
    split at defined
    · obtain ⟨_, -, ⟨⟩⟩ := Option.map_eq_some_iff.1 defined
      exact .refl
    · split at defined
      · cases defined
        exact .setCdr
      · have same := congrArg Prod.snd (Option.some.inj defined)
        have after := (spells_bind var val m.globe).outcome k.arena
        rwa [same] at after
      · cases defined
  rcases result with _ | _
  · exact after
  · exact after

theorem spells_evalSymbol (form : Value) (name : Symbol) (env : Value) :
    Spells (evalSymbol form name env) := by
  unfold evalSymbol
  split
  · exact .pure _
  · refine .bind .get fun m => .bind (.ask _) fun found => ?_
    split
    · exact .ask _
    · split
      · exact .pure _
      · exact .blame _ _
    · exact .endless

theorem spells_defun (args : Value) : Spells (defun args) := by
  have legible : Symbol.lambda.Legible := Symbol.legible_ofBuiltin (by simp)
  refine .bind (.ask _) fun var => .bind (.ask _) fun symbol => ?_
  split
  · exact .bind (.store (spells_symbol legible)) fun _ => .bind (.ask _) fun _ =>
      .bind (.store (spells_cons _ _)) fun _ => .bind (spells_define _ _) fun _ => .pure _
  · exact .refuse _ _ _

theorem spells_bindArguments (fname params args env : Value) :
    Spells (bindArguments fname params args env) := by
  refine .bind (.store (spells_bindAll _ _ _)) fun left => ?_
  obtain ⟨params, args, env⟩ := left
  dsimp only
  split
  · exact .refuse _ _ _
  · split
    · exact .refuse _ _ _
    · exact .pure _

/-! ### Evaluation -/

section

variable {ev : Evaluator} (spells : ∀ form env, Spells (ev form env))
  {form env fname args function : Value} {n : Nat}
include spells

theorem spells_special (name : SpecialForm) : Spells (special ev name args env) := by
  cases name with
  | quote => exact Spells.ask (Arena.car · args)
  | defun => exact spells_defun args
  | defvar =>
    simp only [special, defvar]
    refine .bind (.ask _) fun var => .bind (.ask _) fun symbol => ?_
    split
    · exact .bind (.ask _) fun _ => .bind (spells _ _) fun _ => .bind (spells_define _ _) fun _ =>
        .pure _
    · exact .refuse _ _ _
  | setq =>
    exact .bind (.ask _) fun _ => .bind (spells _ _) fun _ => .bind .get fun _ =>
      .bind (.answer _) fun _ => .bind (.setCdr _ _) fun _ => .pure _
  | cond =>
    refine .bind (.ask _) fun _ => .bind (spells _ _) fun test => ?_
    split
    · exact .bind (.ask _) fun _ => spells _ _
    · exact .bind (.ask _) fun _ => spells _ _

theorem spells_primitive (name : Primitive) : Spells (primitive ev name args env) := by
  refine .bind (.ask _) fun x => ?_
  cases name with
  | not => exact spells_truth _
  | null => exact spells_truth _
  | cons => exact .bind (.ask _) fun _ => .store (spells_cons _ _)
  | atom => exact .bind (.ask _) fun _ => spells_truth _
  | listp => exact .bind (.ask _) fun _ => spells_truth _
  | consp => exact .bind (.ask _) fun _ => spells_truth _
  | symbolp => exact .bind (.ask _) fun _ => spells_truth _
  | eq => exact .bind (.ask _) fun _ => .bind (.ask _) fun _ => spells_truth _
  | car => exact .answer _
  | cdr => exact .answer _
  | eval => exact spells _ _
  | globals => exact .bind .get fun _ => .pure _
  | locals => exact .pure _

theorem spells_applyBuiltin (row : Builtin) (count : Nat) :
    Spells (applyBuiltin ev row fname args count env) := by
  by_cases few : count < row.arity.least
  · simp only [applyBuiltin, if_pos few]
    exact .refuse _ _ _
  · by_cases many : row.arity.most < count
    · simp only [applyBuiltin, if_neg few, if_pos many]
      exact .refuse _ _ _
    · simp only [applyBuiltin, if_neg few, if_neg many]
      cases row with
      | keyword => exact .blame _ _
      | special name => exact spells_special spells name
      | primitive name => exact spells_primitive spells name

theorem spells_evalArguments (last : Nat) (rest : Value) (count : Nat) :
    Spells (evalArguments ev env n last rest count) := by
  induction n generalizing last rest count with
  | zero => exact .endless
  | succ n ih =>
    refine .bind (.ask _) fun more => ?_
    split
    · exact .bind (.ask _) fun _ => .bind (spells _ _) fun _ =>
        .bind (.store (spells_pair _ _)) fun cell => .bind (.setCdr _ _) fun _ =>
          .bind (.ask _) fun rest => ih cell rest (count + 1)
    · exact .pure _

theorem spells_evalButLast (body : Value) : Spells (evalButLast ev env n body) := by
  induction n generalizing body with
  | zero => exact .endless
  | succ n ih =>
    refine .bind (.ask _) fun more => ?_
    split
    · exact .bind (.ask _) fun _ => .bind (spells _ _) fun _ => .bind (.ask _) fun rest => ih rest
    · exact .ask _

theorem spells_applyLambda (lambda : Value) : Spells (applyLambda ev n fname lambda args env) :=
  .bind (.store (spells_cons _ _)) fun _ => .bind (.ask _) fun _ =>
    .bind (spells_bindArguments _ _ _ _) fun env => .bind (spells_protect env) fun _ =>
      .bind (.ask _) fun body => .bind (spells_evalButLast spells body) fun _ =>
        .bind (spells _ _) fun _ => .bind spells_unprotect fun _ => .pure _

theorem spells_call (count : Nat) : Spells (call ev n fname function args count env) := by
  refine .bind (.ask _) fun name => ?_
  split
  · split
    · exact spells_applyBuiltin spells _ count
    · exact .blame _ _
  · refine .bind (.ask _) fun named => ?_
    split
    · exact .bind (.ask _) fun lambda => spells_applyLambda spells lambda
    · exact .blame _ _

theorem spells_apply : Spells (apply ev n form env) :=
  .bind (.ask _) fun _ => .bind (spells _ _) fun _ => .bind (.store (spells_pair _ _)) fun head =>
    .bind (spells_protect _) fun _ => .bind (.ask _) fun rest =>
      .bind (spells_evalArguments spells head rest 0) fun count => .bind (.ask _) fun _ =>
        .bind (.ask _) fun _ => .bind (spells_call spells count) fun _ =>
          .bind spells_unprotect fun _ => .pure _

theorem spells_evalStep : Spells (evalStep ev n form env) := by
  refine .bind (spells_collectIfLow form env) fun _ => .bind spells_escapeIfInterrupted fun _ => ?_
  unfold evalForm
  split
  · exact .pure _
  · refine .bind (.ask _) fun name => ?_
    split
    · exact spells_evalSymbol _ _ _
    · refine .bind (.ask _) fun head => ?_
      split
      · split
        · exact .pure _
        · exact .throw _
      · exact .bind (.ask _) fun args => spells_special spells _
      · exact spells_apply spells

end

/-- Whatever an evaluation comes to, it takes cells for no symbols but those that can be read back. -/
theorem spells_eval (fuel : Nat) (form env : Value) : Spells (eval fuel form env) := by
  induction fuel generalizing form env with
  | zero => exact .endless
  | succ fuel ih => exact spells_evalStep ih

end ArenaLisp.Lisp
