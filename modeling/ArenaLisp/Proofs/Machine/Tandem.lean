import ArenaLisp.Proofs.Arena.Tandem
import ArenaLisp.Proofs.Machine.Ensures

/-!
# Two machines at one computation

`Tandem x y m m' Q E` says that `x`, started on `m`, and `y`, started on `m'`, come to the same as
far as `Q` and `E` tell, if both have an outcome and neither runs out of room. As for one machine, a
proof goes along the text of the two computations.
-/

namespace ArenaLisp.Lisp

variable [Ration] {α β γ δ : Type} {m m' : Machine} {E : Fault → Machine → Machine → Prop}

/-- What two computations on two machines come to agrees. -/
def Tandem (x : Lisp α) (y : Lisp β) (m m' : Machine) (Q : α → β → Machine → Machine → Prop)
    (E : Fault → Machine → Machine → Prop) : Prop :=
  ∀ p q, x m = some p → y m' = some q → Agree Q E p q

/-- No condition on the machines that a fault leaves. -/
abbrev AnyFault : Fault → Machine → Machine → Prop := fun _ _ _ => True

section

variable {x : Lisp α} {y : Lisp β} {Q : α → β → Machine → Machine → Prop}

theorem Tandem.mono {Q' : α → β → Machine → Machine → Prop}
    {E' : Fault → Machine → Machine → Prop} (h : Tandem x y m m' Q E)
    (answer : ∀ v w n n', Q v w n n' → Q' v w n n')
    (fault : ∀ e n n', E e n n' → E' e n n') : Tandem x y m m' Q' E' :=
  fun p q first second => (h p q first second).mono answer fault

theorem Tandem.withFaults {P : α → Machine → Prop} {P' : β → Machine → Prop}
    {F F' : Fault → Machine → Prop} (h : Tandem x y m m' Q E) (left : Ensures x m P F)
    (right : Ensures y m' P' F') :
    Tandem x y m m' (fun v w n n' => Q v w n n' ∧ P v n ∧ P' w n')
      fun e n n' => E e n n' ∧ F e n ∧ F' e n' := by
  intro p q first second
  have agree := h p q first second
  cases agree with
  | ok h => exact .ok ⟨h, left.ok first, right.ok second⟩
  | error h => exact .error ⟨h, left.error first, right.error second⟩
  | noRoom => exact .noRoom
  | noRoom' free => exact .noRoom' free

theorem Tandem.with {P : α → Machine → Prop} {P' : β → Machine → Prop}
    {F F' : Fault → Machine → Prop} (h : Tandem x y m m' Q E) (left : Ensures x m P F)
    (right : Ensures y m' P' F') :
    Tandem x y m m' (fun v w n n' => Q v w n n' ∧ P v n ∧ P' w n') E :=
  (h.withFaults left right).mono (fun _ _ _ _ h => h) fun _ _ _ h => h.1

theorem tandem_of_ensures {P : α → Machine → Prop} {P' : β → Machine → Prop}
    (left : Ensures x m P fun _ _ => False) (right : Ensures y m' P' fun _ _ => False) :
    Tandem x y m m' (fun v w n n' => P v n ∧ P' w n') E := by
  intro p q first second
  obtain ⟨fault | v, n⟩ := p
  · exact (left.error first).elim
  · obtain ⟨fault | w, n'⟩ := q
    · exact (right.error second).elim
    · exact .ok ⟨left.ok first, right.ok second⟩

theorem Tandem.bind {f : α → Lisp γ} {g : β → Lisp δ} {Q' : γ → δ → Machine → Machine → Prop}
    (first : Tandem x y m m' Q E)
    (next : ∀ v w n n', Q v w n n' → Tandem (f v) (g w) n n' Q' E) :
    Tandem (x >>= f) (y >>= g) m m' Q' E := by
  intro p q left right
  rw [bind_apply] at left right
  unfold Tandem at first
  generalize x m = s at first left
  generalize y m' = t at first right
  cases s with
  | none => cases left
  | some s =>
    cases t with
    | none => cases right
    | some t =>
      have agree := first s t rfl rfl
      cases agree with
      | ok h => exact next _ _ _ _ h p q left right
      | error h =>
        cases left
        cases right
        exact .error h
      | noRoom =>
        cases left
        exact .noRoom
      | noRoom' free =>
        cases right
        exact .noRoom' free

theorem tandem_left {P : α → Prop} {f : α → Lisp γ} {y : Lisp δ} {Q' : γ → δ → Machine → Machine → Prop}
    (left : Ensures x m (fun v n => n = m ∧ P v) fun _ _ => False)
    (next : ∀ v, P v → Tandem (f v) y m m' Q' E) : Tandem (x >>= f) y m m' Q' E := by
  intro p q first second
  rw [bind_apply] at first
  generalize ran : x m = s at first
  obtain _ | ⟨fault | v, n⟩ := s
  · cases first
  · exact (left.error ran).elim
  · obtain ⟨is, h⟩ := left.ok ran
    subst is
    exact next v h p q first second

theorem Tandem.map {f : α → γ} {g : β → δ} {Q' : γ → δ → Machine → Machine → Prop}
    (first : Tandem x y m m' Q E) (next : ∀ v w n n', Q v w n n' → Q' (f v) (g w) n n') :
    Tandem (f <$> x) (g <$> y) m m' Q' E := by
  rw [map_eq_pure_bind, map_eq_pure_bind]
  apply first.bind
  intro v w n n' h p q left right
  cases left
  cases right
  exact .ok (next v w n n' h)

theorem tandem_pure {v : α} {w : β} (h : Q v w m m') : Tandem (pure v) (pure w) m m' Q E := by
  intro p q first second
  cases first
  cases second
  exact .ok h

theorem tandem_throw {fault : Fault} (h : E fault m m') :
    Tandem (throw fault : Lisp α) (throw fault : Lisp β) m m' Q E := by
  intro p q first second
  cases first
  cases second
  exact .error h

theorem tandem_endless : Tandem (endless : Lisp α) y m m' Q E := by
  intro p q first
  cases first

theorem tandem_endless' : Tandem x (endless : Lisp β) m m' Q E := by
  intro p q _ second
  cases second

end

section

variable {Q : α → β → Machine → Machine → Prop}

theorem tandem_answer {f : Arena → Option (Except Fault α)} {g : Arena → Option (Except Fault β)}
    (h : ∀ p q, f m.arena = some p → g m'.arena = some q → Agree Q E (p, m) (q, m')) :
    Tandem (answer f) (answer g) m m' Q E := by
  intro p q first second
  unfold answer at first second
  generalize f m.arena = s at h first
  generalize g m'.arena = t at h second
  cases s with
  | none => cases first
  | some s =>
    cases t with
    | none => cases second
    | some t =>
      cases first
      cases second
      exact h s t rfl rfl

theorem tandem_store {f : Storing α} {g : Storing β} {E : Fault → Prop}
    {E' : Fault → Machine → Machine → Prop}
    (h : Storing.Tandem f g m.arena m'.arena
      (fun v w c d => Q v w { m with arena := c } { m' with arena := d }) E)
    (fault : ∀ e c d, E e → E' e { m with arena := c } { m' with arena := d }) :
    Tandem (store f) (store g) m m' Q E' := by
  intro p q first second
  rw [store_apply] at first second
  unfold Storing.Tandem at h
  cases first
  cases second
  generalize f.run m.arena = s at h
  generalize g.run m'.arena = t at h
  cases h with
  | ok h => exact .ok h
  | error h => exact .error (fault _ _ _ h)
  | noRoom => exact .noRoom
  | noRoom' free => exact .noRoom' free

theorem tandem_transact {f : Arena → Option (Except Fault α × Arena)}
    {g : Arena → Option (Except Fault β × Arena)}
    (h : ∀ p q, f m.arena = some p → g m'.arena = some q →
      Agree Q E (p.1, { m with arena := p.2 }) (q.1, { m' with arena := q.2 })) :
    Tandem (transact f) (transact g) m m' Q E := by
  intro p q first second
  rw [transact_apply] at first second
  obtain ⟨s, left, rfl⟩ := Option.map_eq_some_iff.1 first
  obtain ⟨t, right, rfl⟩ := Option.map_eq_some_iff.1 second
  exact h s t left right

end

theorem tandem_modify {f g : Machine → Machine} {Q : Unit → Unit → Machine → Machine → Prop}
    (h : Q () () (f m) (g m')) : Tandem (modify f) (modify g) m m' Q E := by
  intro p q first second
  cases first
  cases second
  exact .ok h

theorem tandem_change {f g : Arena → Arena} {Q : Unit → Unit → Machine → Machine → Prop}
    (h : Q () () { m with arena := f m.arena } { m' with arena := g m'.arena }) :
    Tandem (change f) (change g) m m' Q E :=
  tandem_modify h

theorem tandem_tryCatch {x : Lisp α} {y : Lisp β} {handle : Fault → Lisp α}
    {handle' : Fault → Lisp β} {Q : α → β → Machine → Machine → Prop}
    {F : Fault → Machine → Machine → Prop} (first : Tandem x y m m' Q F)
    (rethrown : handle .noRoom = throw .noRoom) (rethrown' : handle' .noRoom = throw .noRoom)
    (next : ∀ e n n', F e n n' → Tandem (handle e) (handle' e) n n' Q E) :
    Tandem (tryCatch x handle) (tryCatch y handle') m m' Q E := by
  intro p q left right
  rw [tryCatch_apply] at left right
  unfold Tandem at first
  generalize x m = s at first left
  generalize y m' = t at first right
  cases s with
  | none => cases left
  | some s =>
    cases t with
    | none => cases right
    | some t =>
      have agree := first s t rfl rfl
      cases agree with
      | ok h =>
        cases left
        cases right
        exact .ok h
      | error h => exact next _ _ _ h p q left right
      | noRoom =>
        simp only [rethrown] at left
        cases left
        exact .noRoom
      | noRoom' free =>
        simp only [rethrown'] at right
        cases right
        exact .noRoom' free

end ArenaLisp.Lisp
