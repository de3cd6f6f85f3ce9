import ArenaLisp.Proofs.Arena.Marking
import ArenaLisp.Proofs.Machine.Secure

/-!
# Programs that run none of their bindings

A binding is an ordinary pair, and a program can evaluate it, or call a function that has it in its
body. `evalDetached` evaluates as `eval` does, but has no answer for such a program: no form that is
evaluated, and no function that a form yields, may lead to a binding of the global environment or of
the environment in use.
-/

namespace ArenaLisp

namespace Arena

/-- The cells that a list of fewer than a given number of cells has for elements. -/
def elementsWithin (a : Arena) : Nat → Value → Option (List Nat)
  | 0, _ => none
  | n + 1, list =>
    match a.cell? list with
    | some (.pair (.cell id) rest) => (a.elementsWithin n rest).map (id :: ·)
    | some (.pair .nil rest) => a.elementsWithin n rest
    | _ => some []

/-- Whether a value leads to an element of a list. A list without end counts as one of all cells. -/
def leadsInto (a : Arena) (v list : Value) : Bool :=
  match a.elementsWithin (a.capacity + 1) list with
  | none => true
  | some ids => ids.any (a.mark v).marked

variable {a : Arena} {v list : Value} {id n : Nat} {ids : List Nat}

theorem mem_elementsWithin (h : a.elementsWithin n list = some ids)
    (element : a.Element list (.cell id)) : id ∈ ids := by
  induction n generalizing list ids with
  | zero => cases h
  | succ n ih =>
    obtain ⟨cell, tail, on, pair⟩ := element
    cases on with
    | here first =>
      cases first.symm.trans pair
      simp only [elementsWithin, cell?_cell, pair, Option.map_eq_some_iff] at h
      obtain ⟨others, -, rfl⟩ := h
      exact List.mem_cons_self
    | @next first _ head rest content on =>
      have later : a.Element rest (.cell id) := ⟨cell, tail, on, pair⟩
      cases head with
      | nil =>
        simp only [elementsWithin, cell?_cell, content] at h
        exact ih h later
      | cell other =>
        simp only [elementsWithin, cell?_cell, content, Option.map_eq_some_iff] at h
        obtain ⟨others, within, rfl⟩ := h
        exact List.mem_cons_of_mem _ (ih within later)

theorem not_reaches_of_leadsInto (sound : a.Sound) (h : a.leadsInto v list = false)
    (element : a.Element list (.cell id)) : ¬ a.Reaches v id := by
  intro path
  have inside : id < a.capacity := lt_of_taken (element.live sound id rfl)
  unfold leadsInto at h
  split at h
  · cases h
  · rename_i ids within
    have member := mem_elementsWithin within element
    have marked : (a.mark v).marked id = true :=
      (marked_mark_iff (traced_of_unmarked sound.plain) inside).2 (.inr path)
    have any : ids.any (a.mark v).marked = true := List.any_eq_true.2 ⟨id, member, marked⟩
    rw [any] at h
    cases h

end Arena

namespace Lisp

open Machine

def requireDetached (v env : Value) : Lisp Unit := do
  let m ← get
  if m.arena.leadsInto v m.globe || m.arena.leadsInto v env then endless

/-- An evaluation of a form that leads to no binding, to a value that is no function with a binding
in it. -/
def detached (ev : Evaluator) : Evaluator := fun form env => do
  requireDetached form env
  let result ← ev form env
  if ← ask fun a => a.isNamed (a.car result) Symbol.lambda then requireDetached result env
  return result

def evalDetached : Nat → Evaluator
  | 0 => fun _ _ => endless
  | n + 1 => detached (evalStep (evalDetached n) n)

variable {m : Machine} {held : Set Value} {env v form : Value} {ev : Evaluator}
  {E : Fault → Machine → Prop}

theorem ensures_requireDetached (sound : m.Sound) (covers : m.Covers held env) :
    Ensures (requireDetached v env) m (fun _ n => n = m ∧ m.Detached held v) E := by
  unfold requireDetached
  rw [ensures_bind, ensures_get]
  split
  · exact ensures_endless
  · rename_i apart
    rw [Bool.not_eq_true, Bool.or_eq_false_iff] at apart
    refine ⟨rfl, fun id path binding => ?_⟩
    obtain global | here := covers.binding binding
    · exact Arena.not_reaches_of_leadsInto sound.arena apart.1 global path
    · exact Arena.not_reaches_of_leadsInto sound.arena apart.2 here path

theorem ensures_requireDetached_same :
    Ensures (requireDetached v env) m (fun _ n => n = m) E := by
  unfold requireDetached
  rw [ensures_bind, ensures_get]
  split
  · exact ensures_endless
  · rfl

theorem preserves_detached (preserves : Preserves ev) : Preserves (detached ev) := by
  intro m held form env ready member live
  unfold detached
  rw [ensures_bind]
  refine ensures_requireDetached_same.mono ?_ fun _ _ h => h
  intro _ _ is
  subst is
  rw [ensures_bind]
  refine (preserves ready member live).mono ?_ fun _ _ stops => stops
  intro result n answers
  rw [ensures_bind, ensures_ask]
  split
  · rw [ensures_bind]
    refine ensures_requireDetached_same.mono ?_ fun _ _ h => h
    intro _ _ is
    subst is
    exact answers
  · exact answers

theorem preserves_evalDetached (fuel : Nat) : Preserves (evalDetached fuel) := by
  induction fuel with
  | zero => exact fun _ _ _ => ensures_endless
  | succ n ih =>
    exact preserves_detached fun ready member live => ensures_evalStep ih ready member n live

end Lisp

end ArenaLisp
