import ArenaLisp.Proofs.Machine.Mirrors.Arguments

/-!
# Evaluation beside the interpreter on trees

Whatever the size of the arena and whenever it is collected, an evaluation comes to what the
interpreter on trees comes to, unless there is no room. Afterwards the machine has the bindings that
the interpreter has.
-/

namespace ArenaLisp

namespace Lisp

open Machine Arena
open ArenaLisp.Ideal (Interp Memory)

variable {m n : Machine} {held : Set Value} {env form : Value} {young : Set Nat}
  {memory after : Memory} {tree : Sexp} {name : Symbol} {ev : Evaluator} {ref : Ideal.Evaluator}

section

variable (mirrored : m.Mirrored held env young memory)
include mirrored

theorem mirrors_evalSymbol (shows' : m.Shows env young form (.symbol name)) :
    Mirrors (evalSymbol form name env) (Ideal.evalSymbol name) m memory (Reflects env young)
      (Models · env young) := by
  have models := mirrored.models
  unfold evalSymbol Ideal.evalSymbol
  apply mirrors_ite Iff.rfl
  · intro _
    exact mirrors_pure ⟨models, .nil⟩
  · intro _
    apply mirrors_get_bind
    apply mirrors_ask_bind
    apply mirrors_memory_bind
    unfold lookupEither
    obtain ⟨entry, value, found, known, showsValue⟩ | ⟨absent, unknown⟩ := models.layers.lookup name
    · rw [found, known]
      exact ⟨value, memory, rfl, models, showsValue⟩
    · rw [absent, unknown]
      obtain ⟨entry, value, found, known, showsValue⟩ | ⟨absent, unknown⟩ := models.globe.lookup name
      · rw [Ideal.lookup_global] at known
        rw [found, known]
        exact ⟨value, memory, rfl, models, showsValue⟩
      · rw [Ideal.lookup_global] at unknown
        rw [absent, unknown]
        apply mirrors_ite Iff.rfl
        · intro _
          exact mirrors_pure ⟨models, shows'⟩
        · intro _
          exact mirrors_blame shows' models

section

variable (faithful : Faithful ev ref) (fuel : Nat) (anchored : m.Anchored held form)
  (shows' : m.Shows env young form tree)
include faithful fuel anchored shows'

theorem mirrors_evalPair :
    Mirrors (evalPair ev fuel form env) (Ideal.evalPair ref tree) m memory (Reflects env young)
      (Models · env young) := by
  have models := mirrored.models
  have secure := mirrored.secure shows' anchored
  have called := mirrors_apply mirrored faithful fuel shows' secure
  unfold evalPair Ideal.evalPair
  apply mirrors_ask_bind
  rw [(Arena.Shows.car shows').symbol?_eq]
  generalize tree.car.symbol?.bind Symbol.builtin? = head
  cases head with
  | none => exact called
  | some row =>
    cases row with
    | special name =>
      apply mirrors_ask_bind
      exact mirrors_special mirrored faithful (Arena.Shows.cdr shows') secure.cdr name
    | primitive function => exact called
    | keyword word =>
      cases word with
      | lambda =>
        apply mirrors_memory_bind
        apply mirrors_ite models.layers.nil_iff
        · intro _
          exact mirrors_pure ⟨models, shows'⟩
        · intro _
          exact mirrors_throw models
      | symbols => exact called
      | nil => exact called
      | tee => exact called
      | specialForms => exact called
      | functions => exact called

theorem mirrors_evalForm :
    Mirrors (evalForm ev fuel form env) (Ideal.evalForm ref tree) m memory (Reflects env young)
      (Models · env young) := by
  unfold evalForm Ideal.evalForm
  apply mirrors_ite (Arena.Shows.nil_iff shows')
  · intro _
    exact mirrors_pure ⟨mirrored.models, .nil⟩
  · intro _
    apply mirrors_ask_bind
    rw [Arena.Shows.symbol?_eq shows']
    cases known : tree.symbol? with
    | some name =>
      obtain ⟨is, -⟩ := Arena.Shows.plain shows' known
      subst is
      exact mirrors_evalSymbol mirrored shows'
    | none => exact mirrors_evalPair mirrored faithful fuel anchored shows'

end

theorem ensures_collectIfLow_mirrored (anchored : m.Anchored held form)
    (shows' : m.Shows env young form tree) :
    Ensures (collectIfLow form env) m (fun _ n => n.Mirrored held env young memory ∧
      n.Anchored held form ∧ n.Shows env young form tree) NoRoom := by
  have ready := mirrored.ready
  have live := Arena.Shows.live shows'
  have liveEnv := ready.live mirrored.member
  unfold collectIfLow
  rw [ensures_bind, ensures_get]
  by_cases low : m.arena.freeCount < m.settings.threshold
  · simp only [if_pos low]
    unfold collect
    rw [ensures_modify]
    have stage := ready.stage_collect live liveEnv
    have models := mirrored.models.spared (ready.sound.spares_collect live liveEnv) fun _ => .inl
    refine ⟨mirrored.next stage models, ?_, mirrored.shows_next shows' anchored stage⟩
    exact fun id is => stage.firm ready (anchored id is)
  · simp only [if_neg low]
    exact ⟨mirrored, anchored, shows'⟩

theorem mirrors_evalStep (faithful : Faithful ev ref) (fuel : Nat)
    (anchored : m.Anchored held form) (shows' : m.Shows env young form tree) :
    Mirrors (evalStep ev fuel form env) (Ideal.evalForm ref tree) m memory (Reflects env young)
      (Models · env young) := by
  unfold evalStep
  apply Mirrors.left (ensures_collectIfLow_mirrored mirrored anchored shows')
  intro _ n collected
  obtain ⟨readied, anchored, shows'⟩ := collected
  have quiet : Ensures escapeIfInterrupted n (fun _ k => k = n) NoRoom := by
    unfold escapeIfInterrupted
    rw [ensures_bind, ensures_get, readied.models.quiet]
    rfl
  apply Mirrors.left quiet
  intro _ k same
  subst same
  exact mirrors_evalForm readied faithful fuel anchored shows'

end

theorem simulates_eval (fuel : Nat) : Simulates (eval fuel) (Ideal.eval fuel) := by
  induction fuel with
  | zero =>
    intro m held env form young memory tree _ _ _
    exact mirrors_endless
  | succ fuel ih =>
    intro m held env form young memory tree mirrored anchored shows'
    exact mirrors_evalStep mirrored ⟨preserves_eval fuel, ih⟩ fuel anchored shows'

end Lisp

end ArenaLisp
