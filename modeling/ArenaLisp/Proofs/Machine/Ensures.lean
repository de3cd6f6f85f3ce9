import ArenaLisp.Proofs.Arena.Storing
import ArenaLisp.Session

/-!
# Conditions on what a computation does

`Ensures x m Q E` says that `x`, started on the machine `m`, has no answer, or an answer that
satisfies `Q`, or a fault that satisfies `E`. The equations for the parts of a computation make a
condition on the whole one into conditions on its parts, so that a proof goes along the text of the
computation.
-/

namespace ArenaLisp.Lisp

variable {α β : Type} {m : Machine} {E E' : Fault → Machine → Prop}

/-- Every outcome of a computation satisfies one of two conditions, on the answer or on the
fault. -/
def Ensures (x : Lisp α) (m : Machine) (Q : α → Machine → Prop) (E : Fault → Machine → Prop) :
    Prop :=
  match x m with
  | none => True
  | some (.ok v, n) => Q v n
  | some (.error fault, n) => E fault n

theorem Ensures.ok {x : Lisp α} {Q : α → Machine → Prop} {v : α} {n : Machine}
    (h : Ensures x m Q E) (run : x m = some (.ok v, n)) : Q v n := by
  rw [Ensures, run] at h
  exact h

theorem Ensures.error {x : Lisp α} {Q : α → Machine → Prop} {fault : Fault} {n : Machine}
    (h : Ensures x m Q E) (run : x m = some (.error fault, n)) : E fault n := by
  rw [Ensures, run] at h
  exact h

theorem Ensures.mono {x : Lisp α} {Q Q' : α → Machine → Prop} (h : Ensures x m Q E)
    (answer : ∀ v n, Q v n → Q' v n) (fault : ∀ e n, E e n → E' e n) : Ensures x m Q' E' := by
  unfold Ensures at h ⊢
  rcases run : x m with _ | ⟨e | v, n⟩
  · trivial
  · rw [run] at h
    exact fault e n h
  · rw [run] at h
    exact answer v n h

theorem Ensures.and {x : Lisp α} {Q Q' : α → Machine → Prop} (h : Ensures x m Q E)
    (h' : Ensures x m Q' E') :
    Ensures x m (fun v n => Q v n ∧ Q' v n) fun fault n => E fault n ∧ E' fault n := by
  unfold Ensures at h h' ⊢
  generalize x m = outcome at h h'
  obtain _ | ⟨_ | _, _⟩ := outcome
  · trivial
  · exact ⟨h, h'⟩
  · exact ⟨h, h'⟩

theorem ensures_self (x : Lisp α) :
    Ensures x m (fun v n => x m = some (.ok v, n)) fun fault n => x m = some (.error fault, n) := by
  unfold Ensures
  rcases x m with _ | ⟨_ | _, _⟩ <;> trivial

section

variable {Q : α → Machine → Prop}

theorem ensures_pure {v : α} : Ensures (pure v) m Q E ↔ Q v m := Iff.rfl

theorem ensures_throw {fault : Fault} : Ensures (throw fault : Lisp α) m Q E ↔ E fault m :=
  Iff.rfl

theorem ensures_endless : Ensures (endless : Lisp α) m Q E := trivial

theorem ensures_ask {question : Arena → α} :
    Ensures (ask question) m Q E ↔ Q (question m.arena) m := Iff.rfl

theorem ensures_answer {question : Arena → Option (Except Fault α)} :
    Ensures (answer question) m Q E ↔
      ∀ result, question m.arena = some result → match result with
        | .ok v => Q v m
        | .error fault => E fault m := by
  unfold Ensures answer
  rcases question m.arena with _ | ⟨fault | v⟩ <;> simp

theorem store_apply (f : Storing α) (m : Machine) :
    store f m = some ((f.run m.arena).1, { m with arena := (f.run m.arena).2 }) := rfl

theorem ensures_store {f : Storing α} :
    Ensures (store f) m Q E ↔
      Storing.Ensures f m.arena (fun v b => Q v { m with arena := b })
        fun fault b => E fault { m with arena := b } := by
  rw [Ensures, store_apply, Storing.Ensures]
  rcases f.run m.arena with ⟨fault | v, b⟩ <;> rfl

theorem transact_apply (f : Arena → Option (Except Fault α × Arena)) (m : Machine) :
    transact f m = (f m.arena).map fun after => (after.1, { m with arena := after.2 }) := by
  obtain ⟨arena, console, settings, globe, stack, tee, interrupted, collections⟩ := m
  unfold transact
  dsimp only
  cases f arena <;> rfl

theorem ensures_transact {f : Arena → Option (Except Fault α × Arena)} :
    Ensures (transact f) m Q E ↔
      ∀ result b, f m.arena = some (result, b) → match result with
        | .ok v => Q v { m with arena := b }
        | .error fault => E fault { m with arena := b } := by
  rw [Ensures, transact_apply]
  rcases f m.arena with _ | ⟨fault | v, b⟩ <;> simp

end

theorem bind_apply {σ : Type} (x : ExceptT Fault (StateT σ Option) α)
    (f : α → ExceptT Fault (StateT σ Option) β) (m : σ) :
    (x >>= f) m = match x m with
      | none => none
      | some (.ok v, n) => f v n
      | some (.error fault, n) => some (.error fault, n) := by
  show ExceptT.bind x f m = _
  unfold ExceptT.bind ExceptT.mk
  show StateT.bind x _ m = _
  unfold StateT.bind
  rcases x m with _ | ⟨_ | _, _⟩ <;> rfl

theorem ensures_bind {x : Lisp α} {f : α → Lisp β} {Q : β → Machine → Prop} :
    Ensures (x >>= f) m Q E ↔ Ensures x m (fun v n => Ensures (f v) n Q E) E := by
  simp only [Ensures, bind_apply]
  rcases x m with _ | ⟨_ | _, _⟩ <;> rfl

theorem ensures_map {x : Lisp α} {f : α → β} {Q : β → Machine → Prop} :
    Ensures (f <$> x) m Q E ↔ Ensures x m (fun v n => Q (f v) n) E := by
  rw [map_eq_pure_bind, ensures_bind]
  rfl

theorem tryCatch_apply {σ : Type} (x : ExceptT Fault (StateT σ Option) α)
    (handle : Fault → ExceptT Fault (StateT σ Option) α) (m : σ) :
    tryCatch x handle m = match x m with
      | none => none
      | some (.ok v, n) => some (.ok v, n)
      | some (.error fault, n) => handle fault n := by
  show ExceptT.tryCatch x handle m = _
  unfold ExceptT.tryCatch ExceptT.mk
  show StateT.bind x _ m = _
  unfold StateT.bind
  rcases x m with _ | ⟨_ | _, _⟩ <;> rfl

theorem ensures_tryCatch {x : Lisp α} {handle : Fault → Lisp α} {Q : α → Machine → Prop} :
    Ensures (tryCatch x handle) m Q E ↔
      Ensures x m Q fun fault n => Ensures (handle fault) n Q E := by
  simp only [Ensures, tryCatch_apply]
  rcases x m with _ | ⟨_ | _, _⟩ <;> rfl

theorem ensures_get {Q : Machine → Machine → Prop} : Ensures get m Q E ↔ Q m m := Iff.rfl

theorem ensures_modify {f : Machine → Machine} {Q : Unit → Machine → Prop} :
    Ensures (modify f) m Q E ↔ Q () (f m) := Iff.rfl

theorem ensures_change {f : Arena → Arena} {Q : Unit → Machine → Prop} :
    Ensures (change f) m Q E ↔ Q () { m with arena := f m.arena } := Iff.rfl

theorem ensures_write {f : Console → Console} {Q : Unit → Machine → Prop} :
    Ensures (write f) m Q E ↔ Q () { m with console := f m.console } := Iff.rfl

theorem ensures_refusal {fault : String → Fault} {form : Value} {Q : α → Machine → Prop}
    {P : Machine → Prop} (here : P m) : Ensures (blame fault form) m Q fun _ n => P n := by
  rw [blame, ensures_bind, render, ensures_answer]
  intro result rendered
  obtain ⟨text, -, rfl⟩ := Option.map_eq_some_iff.1 rendered
  exact here

end ArenaLisp.Lisp
