import ArenaLisp.Proofs.Arena.Trees
import ArenaLisp.Proofs.Machine.Ensures

/-!
# A machine beside the interpreter on trees

`Mirrors x y m memory Q E` says that whatever the machine comes to with `x`, started on `m`, the
interpreter without cells comes to with `y`, started on `memory`: it has an outcome, and that is an
answer related by `Q` or the same fault. A machine that runs out of room is excused.
-/

namespace ArenaLisp.Lisp

open ArenaLisp.Ideal (Interp Memory)

variable {α β γ δ : Type} {m n : Machine} {memory after : Memory} {E : Machine → Memory → Prop}

/-- What a computation of the machine comes to is what a computation on trees comes to. -/
def Mirrors (x : Lisp α) (y : Interp β) (m : Machine) (memory : Memory)
    (Q : α → β → Machine → Memory → Prop) (E : Machine → Memory → Prop) : Prop :=
  Ensures x m (fun v n => ∃ w after, y memory = some (.ok w, after) ∧ Q v w n after)
    fun fault n => fault = .noRoom ∨ ∃ after, y memory = some (.error fault, after) ∧ E n after

/-- The only fault is that there is no room. -/
abbrev NoRoom : Fault → Machine → Prop := fun fault _ => fault = .noRoom

section

variable {x : Lisp α} {y : Interp β} {Q : α → β → Machine → Memory → Prop}

theorem Mirrors.mono {Q' : α → β → Machine → Memory → Prop} {E' : Machine → Memory → Prop}
    (h : Mirrors x y m memory Q E) (answer : ∀ v w n after, Q v w n after → Q' v w n after)
    (fault : ∀ n after, E n after → E' n after) : Mirrors x y m memory Q' E' := by
  apply Ensures.mono h
  · intro v n found
    obtain ⟨w, after, ran, holds⟩ := found
    exact ⟨w, after, ran, answer v w n after holds⟩
  · intro e n found
    obtain room | ⟨after, ran, holds⟩ := found
    · exact .inl room
    · exact .inr ⟨after, ran, fault n after holds⟩

theorem Mirrors.withFaults {P : α → Machine → Prop} {F : Fault → Machine → Prop}
    (h : Mirrors x y m memory Q E) (known : Ensures x m P F) :
    Mirrors x y m memory (fun v w n after => Q v w n after ∧ P v n)
      fun n after => E n after ∧ ∃ fault, F fault n := by
  unfold Mirrors Ensures at h ⊢
  unfold Ensures at known
  generalize x m = outcome at h known
  obtain _ | ⟨fault | v, n⟩ := outcome
  · trivial
  · obtain room | ⟨after, ran, holds⟩ := h
    · exact .inl room
    · exact .inr ⟨after, ran, holds, fault, known⟩
  · obtain ⟨w, after, ran, holds⟩ := h
    exact ⟨w, after, ran, holds, known⟩

theorem Mirrors.with {P : α → Machine → Prop} {F : Fault → Machine → Prop}
    (h : Mirrors x y m memory Q E) (known : Ensures x m P F) :
    Mirrors x y m memory (fun v w n after => Q v w n after ∧ P v n) E :=
  (h.withFaults known).mono (fun _ _ _ _ h => h) fun _ _ h => h.1

theorem Mirrors.bind {f : α → Lisp γ} {g : β → Interp δ} {Q' : γ → δ → Machine → Memory → Prop}
    (first : Mirrors x y m memory Q E)
    (next : ∀ v w n after, Q v w n after → Mirrors (f v) (g w) n after Q' E) :
    Mirrors (x >>= f) (y >>= g) m memory Q' E := by
  unfold Mirrors
  rw [ensures_bind, bind_apply]
  apply Ensures.mono first
  · intro v n found
    obtain ⟨w, after, ran, holds⟩ := found
    rw [ran]
    exact next v w n after holds
  · intro fault n found
    obtain room | ⟨after, ran, holds⟩ := found
    · exact .inl room
    · rw [ran]
      exact .inr ⟨after, rfl, holds⟩

theorem Mirrors.left {P : α → Machine → Prop} {f : α → Lisp γ}
    {Q : γ → β → Machine → Memory → Prop} (first : Ensures x m P NoRoom)
    (next : ∀ v n, P v n → Mirrors (f v) y n memory Q E) : Mirrors (x >>= f) y m memory Q E := by
  unfold Mirrors
  rw [ensures_bind]
  apply first.mono
  · exact fun v n holds => next v n holds
  · exact fun fault n room => .inl room

theorem Mirrors.finish {f : α → Lisp γ} {Q' : γ → β → Machine → Memory → Prop}
    (first : Mirrors x y m memory Q E)
    (last : ∀ v w n after, Q v w n after → Ensures (f v) n (fun v' n' => Q' v' w n' after) NoRoom) :
    Mirrors (x >>= f) y m memory Q' E := by
  unfold Mirrors
  rw [ensures_bind]
  apply Ensures.mono first
  · intro v n found
    obtain ⟨w, after, ran, holds⟩ := found
    apply (last v w n after holds).mono
    · exact fun v' n' holds => ⟨w, after, ran, holds⟩
    · exact fun fault n' room => .inl room
  · exact fun fault n found => found

theorem Mirrors.answer {g : β → δ} {Q' : α → δ → Machine → Memory → Prop}
    (h : Mirrors x y m memory Q E) (next : ∀ v w n after, Q v w n after → Q' v (g w) n after) :
    Mirrors x (y >>= fun w => pure (g w)) m memory Q' E := by
  unfold Mirrors
  rw [bind_apply]
  apply Ensures.mono h
  · intro v n found
    obtain ⟨w, after, ran, holds⟩ := found
    rw [ran]
    exact ⟨g w, after, rfl, next v w n after holds⟩
  · intro fault n found
    obtain room | ⟨after, ran, holds⟩ := found
    · exact .inl room
    · rw [ran]
      exact .inr ⟨after, rfl, holds⟩

/-- The layers of a call are there for its body only. -/
theorem Mirrors.within {layers : List Ideal.Layer} {Q' : α → β → Machine → Memory → Prop}
    {E' : Machine → Memory → Prop}
    (h : Mirrors x y m { memory with layers := layers ++ memory.layers } Q E)
    (answer : ∀ v w n after, Q v w n after →
      Q' v w n { after with layers := after.layers.drop layers.length })
    (fault : ∀ n after, E n after →
      E' n { after with layers := after.layers.drop layers.length }) :
    Mirrors x (Ideal.within layers y) m memory Q' E' := by
  apply Ensures.mono h
  · intro v n found
    obtain ⟨w, after, ran, holds⟩ := found
    refine ⟨w, _, ?_, answer v w n after holds⟩
    simp only [Ideal.within, ran, Option.map_some]
  · intro e n found
    obtain room | ⟨after, ran, holds⟩ := found
    · exact .inl room
    · refine .inr ⟨_, ?_, fault n after holds⟩
      simp only [Ideal.within, ran, Option.map_some]

theorem mirrors_ite {P P' : Prop} [Decidable P] [Decidable P'] (iff : P ↔ P') {x' : Lisp α}
    {y' : Interp β} (yes : P → Mirrors x y m memory Q E) (no : ¬ P → Mirrors x' y' m memory Q E) :
    Mirrors (if P then x else x') (if P' then y else y') m memory Q E := by
  by_cases h : P
  · rw [if_pos h, if_pos (iff.1 h)]
    exact yes h
  · rw [if_neg h, if_neg fun h' => h (iff.2 h')]
    exact no h

theorem mirrors_of_ensures {P : α → Machine → Prop} {w : β} (known : Ensures x m P NoRoom)
    (answer : ∀ v n, P v n → Q v w n memory) : Mirrors x (pure w) m memory Q E := by
  apply known.mono
  · exact fun v n holds => ⟨w, memory, rfl, answer v n holds⟩
  · exact fun fault n room => .inl room

theorem mirrors_pure {v : α} {w : β} (h : Q v w m memory) :
    Mirrors (pure v) (pure w) m memory Q E :=
  ⟨w, memory, rfl, h⟩

theorem mirrors_throw {fault : Fault} (h : E m memory) :
    Mirrors (throw fault : Lisp α) (throw fault : Interp β) m memory Q E :=
  .inr ⟨memory, rfl, h⟩

theorem mirrors_endless : Mirrors (endless : Lisp α) y m memory Q E := trivial

theorem mirrors_blame {off : Nat → Prop} {form : Value} {tree : Sexp} {fault : String → Fault}
    (shows' : m.arena.Shows off form tree) (h : E m memory) :
    Mirrors (blame fault form : Lisp α) (Ideal.blame fault tree : Interp β) m memory Q E := by
  unfold Mirrors blame Lisp.render
  rw [ensures_bind, ensures_answer]
  intro result rendered
  rw [shows'.render_eq] at rendered
  cases rendered
  exact .inr ⟨memory, rfl, h⟩

theorem mirrors_blame_both {off : Nat → Prop} {form : Value} {tree : Sexp}
    {fault : String → Fault} {f : γ → Lisp α} {g : δ → Interp β}
    (shows' : m.arena.Shows off form tree) (h : E m memory) :
    Mirrors (blame fault form >>= f) (Ideal.blame fault tree >>= g) m memory Q E := by
  apply (mirrors_blame shows' h).bind (Q := fun _ _ _ _ => False)
  intro _ _ _ _ impossible
  exact impossible.elim

theorem mirrors_blame_bind {off : Nat → Prop} {form : Value} {tree : Sexp} {fault : String → Fault}
    {f : γ → Lisp α} (shows' : m.arena.Shows off form tree) (h : E m memory) :
    Mirrors (blame fault form >>= f) (Ideal.blame fault tree : Interp β) m memory Q E := by
  unfold Mirrors
  rw [ensures_bind]
  have blamed : Mirrors (blame fault form : Lisp γ) (Ideal.blame fault tree : Interp β) m memory
      (fun _ _ _ _ => False) E := mirrors_blame shows' h
  apply Ensures.mono blamed
  · intro v n found
    obtain ⟨w, after, -, impossible⟩ := found
    exact impossible.elim
  · exact fun fault n found => found

end

section

variable {Q : γ → δ → Machine → Memory → Prop}

theorem mirrors_ask_bind {question : Arena → α} {f : α → Lisp γ} {y : Interp δ}
    (h : Mirrors (f (question m.arena)) y m memory Q E) :
    Mirrors (ask question >>= f) y m memory Q E := by
  unfold Mirrors
  rw [ensures_bind, ensures_ask]
  exact h

theorem mirrors_get_bind {f : Machine → Lisp γ} {y : Interp δ}
    (h : Mirrors (f m) y m memory Q E) : Mirrors (get >>= f) y m memory Q E := by
  unfold Mirrors
  rw [ensures_bind, ensures_get]
  exact h

theorem mirrors_change_bind {change' : Arena → Arena} {f : Unit → Lisp γ} {y : Interp δ}
    (h : Mirrors (f ()) y { m with arena := change' m.arena } memory Q E) :
    Mirrors (change change' >>= f) y m memory Q E := by
  unfold Mirrors
  rw [ensures_bind, ensures_change]
  exact h

theorem mirrors_memory_bind {x : Lisp γ} {g : Memory → Interp δ}
    (h : Mirrors x (g memory) m memory Q E) : Mirrors x (get >>= g) m memory Q E := h

theorem ensures_store_noRoom {f : Storing α} {P : α → Arena → Prop} {a : Arena}
    (h : Storing.Ensures f m.arena P a.OutOfRoom) :
    Ensures (store f) m (fun v n => ∃ b, P v b ∧ n = { m with arena := b }) NoRoom := by
  rw [ensures_store]
  apply h.mono
  · exact fun v b holds => ⟨b, holds, rfl⟩
  · exact fun fault b room => room.1

end

end ArenaLisp.Lisp
