import ArenaLisp.Proofs.Machine.Twins.Forms

/-!
# Calls on twins

Twins that call a function bind its parameters in environments that are the same, and evaluate its
body in them. The function leads to no binding, so what is left of its body is still there after
each of its forms. The list of the arguments is built of cells that are related one by one.
-/

namespace ArenaLisp.Lisp

open Machine Arena

variable [Ration] {R S : Nat → Nat → Prop} {m m' : Machine} {held held' : Set Value}
  {ev ev' : Evaluator}
  {env env' form form' v w args args' fname fname' : Value}

section

variable (abreast : Abreast R m held env m' held' env') (concordant : Concordant ev ev')
include abreast concordant

theorem tandem_applyBuiltin (same : Same R args args') (steady : m.Steady held args)
    (sameName : Same R fname fname') (row : Builtin) (count : Nat) :
    Tandem (applyBuiltin ev row fname args count env) (applyBuiltin ev' row fname' args' count env')
      m m' (Results R m held) AnyFault := by
  have twins := abreast.twins
  have stop : ∀ {fault : String → Fault} {f g : Unit → Lisp Value},
      Tandem (blame fault fname >>= f) (blame fault fname' >>= g) m m' (Results R m held)
        AnyFault := by
    intro fault f g
    apply (tandem_blame twins sameName).bind (Q := fun _ _ _ _ => False)
    intro _ _ _ _ h
    exact h.elim
  by_cases few : count < row.arity.least
  · simp only [applyBuiltin, if_pos few]
    exact stop
  · by_cases many : row.arity.most < count
    · simp only [applyBuiltin, if_neg few, if_pos many]
      exact stop
    · simp only [applyBuiltin, if_neg few, if_neg many]
      cases row with
      | keyword => exact tandem_blame twins sameName
      | special form => exact tandem_special abreast concordant same steady form
      | primitive function => exact tandem_primitive abreast concordant same steady function

theorem tandem_body {body body' : Value} (n k : Nat) (same : Same R body body')
    (secure : m.Secure held body) :
    Tandem (evalButLast ev env n body >>= fun last => ev last env)
      (evalButLast ev' env' k body' >>= fun last => ev' last env') m m' (Results R m held)
      AnyFault := by
  induction n generalizing k m m' R body body' with
  | zero =>
    intro p q first
    rw [bind_apply] at first
    cases first
  | succ n ih =>
    cases k with
    | zero =>
      intro p q _ second
      rw [bind_apply] at second
      cases second
    | succ k =>
      have h := abreast.twins.arenas
      have pair := h.isPair_eq (h.same_cdr same)
      rw [evalButLast, evalButLast, bind_assoc, bind_assoc]
      apply tandem_ask_bind
      by_cases more : m.arena.isPair (m.arena.cdr body) = true
      · rw [if_pos more, if_pos (pair.trans more)]
        simp only [bind_assoc]
        apply tandem_ask_bind
        apply concordant.eval abreast (h.same_car same) secure.car.anchored
        intro S _ _ n' k' abreast' follows goesOn _ _ _
        have same := follows.same secure.anchored same
        have secure := secure.stage abreast.ready goesOn.stage
        apply tandem_ask_bind
        exact ih abreast' k (abreast'.twins.arenas.same_cdr same) secure.cdr
      · rw [if_neg more, if_neg fun more' => more (pair.symm.trans more')]
        apply tandem_ask_bind
        exact concordant.last abreast (h.same_car same) secure.car.anchored

end

theorem tandem_bindArguments {params params' frame frame' : Value} {b b' : Arena} (wider : R ≤ S)
    (twins : Twins S { m with arena := b } { m' with arena := b' }) (grows : m.arena.Grows b)
    (grows' : m'.arena.Grows b') (sameParams : Same S params params') (sameArgs : Same S args args')
    (sameFrame : Same S frame frame') (sameName : Same S fname fname') :
    Tandem (bindArguments fname params args frame) (bindArguments fname' params' args' frame')
      { m with arena := b } { m' with arena := b' }
      (fun inner inner' n n' => ∃ T, R ≤ T ∧ Twins T n n' ∧ Same T inner inner') AnyFault := by
  unfold bindArguments
  have bound : Tandem (store (bindAll params args frame)) (store (bindAll params' args' frame'))
      { m with arena := b } { m' with arena := b' } (fun left left' n n' => ∃ T, S ≤ T ∧
        Twins T n n' ∧ Same T left.2.2 left'.2.2 ∧ Same T left.1 left'.1 ∧
        Same T left.2.1 left'.2.1) AnyFault := by
    apply tandem_store (E := fun _ => True)
    · apply (pairs_bindAll grows.sound grows'.sound twins.arenas sameParams sameArgs sameFrame).mono
      intro left left' c d h
      obtain ⟨T, pairing, restParams, restArgs⟩ := h
      exact ⟨T, pairing.wider, twins.pairing pairing, pairing.same, restParams, restArgs⟩
    · exact fun _ _ _ _ => trivial
  apply bound.bind
  intro left left' n n' bound
  obtain ⟨params, args, inner⟩ := left
  obtain ⟨params', args', inner'⟩ := left'
  obtain ⟨T, wider', twins, sameInner, p, a⟩ := bound
  have stop : ∀ {fault : String → Fault} {f g : Unit → Lisp Value}
      {Q : Value → Value → Machine → Machine → Prop},
      Tandem (blame fault fname >>= f) (blame fault fname' >>= g) n n' Q AnyFault := by
    intro fault f g Q
    apply (tandem_blame twins (sameName.le wider')).bind (Q := fun _ _ _ _ => False)
    intro _ _ _ _ h
    exact h.elim
  dsimp only at sameInner p a ⊢
  apply tandem_ite (not_congr p.nil_iff)
  · intro _
    exact stop
  · intro _
    apply tandem_ite (not_congr a.nil_iff)
    · intro _
      exact stop
    · intro _
      exact tandem_pure ⟨T, wider.trans wider', twins, sameInner⟩

theorem tandem_protect (twins : Twins R m m') (sound : m.Sound) (sound' : m'.Sound)
    (same : Same R v w) :
    Tandem (protect v) (protect w) m m' (fun _ _ n n' => ∃ c top d top',
      m.arena.TookCell (.pair v m.stack) top c ∧ m'.arena.TookCell (.pair w m'.stack) top' d ∧
      n = { m with arena := c, stack := .cell top } ∧
      n' = { m' with arena := d, stack := .cell top' } ∧ Twins (Adding R top top') n n')
      AnyFault := by
  unfold protect
  apply tandem_get_bind
  have stored : Tandem (store (cons v m.stack)) (store (cons w m'.stack)) m m'
      (fun stack stack' n n' => ∃ c top d top', stack = .cell top ∧ stack' = .cell top' ∧
        m.arena.TookCell (.pair v m.stack) top c ∧ m'.arena.TookCell (.pair w m'.stack) top' d ∧
        n = { m with arena := c } ∧ n' = { m' with arena := d }) AnyFault := by
    apply tandem_store (E := fun _ => True)
    · apply (tandem_cons sound.arena sound'.arena twins.arenas same twins.stack).mono
      intro _ _ c d h
      obtain ⟨top, top', is, is', took, took'⟩ := h
      exact ⟨c, top, d, top', is, is', took, took', rfl, rfl⟩
    · exact fun _ _ _ _ => trivial
  apply stored.bind
  intro _ _ _ _ h
  obtain ⟨c, top, d, top', is, is', took, took', at', at''⟩ := h
  subst is is' at' at''
  apply tandem_modify
  have pairing := twins.arenas.pairing took took' (.pair same twins.stack)
  exact ⟨c, top, d, top', took, took', rfl, rfl, (twins.pairing pairing).withStack pairing.same⟩

section

variable (abreast : Abreast R m held env m' held' env') (concordant : Concordant ev ev')
include abreast concordant

theorem tandem_applyLambda {lambda lambda' : Value} (n k : Nat) (sameName : Same R fname fname')
    (same : Same R lambda lambda') (secure : m.Secure held lambda) (sameArgs : Same R args args') :
    Tandem (applyLambda ev n fname lambda args env) (applyLambda ev' k fname' lambda' args' env')
      m m' (Results R m held) AnyFault := by
  have twins := abreast.twins
  have ready := abreast.ready
  have ready' := abreast.ready'
  have liveEnv := ready.live abreast.member
  have liveEnv' := ready'.live abreast.member'
  unfold applyLambda pushFrame
  have framed : Tandem (store (cons .nil env)) (store (cons .nil env')) m m'
      (fun frame frame' n n' => ∃ b id b' id', frame = .cell id ∧ frame' = .cell id' ∧
        m.arena.TookCell (.pair .nil env) id b ∧ m'.arena.TookCell (.pair .nil env') id' b' ∧
        n = { m with arena := b } ∧ n' = { m' with arena := b' }) AnyFault := by
    apply tandem_store (E := fun _ => True)
    · apply (tandem_cons ready.sound.arena ready'.sound.arena twins.arenas .nil abreast.same).mono
      intro _ _ b b' h
      obtain ⟨id, id', is, is', took, took'⟩ := h
      exact ⟨b, id, b', id', is, is', took, took', rfl, rfl⟩
    · exact fun _ _ _ _ => trivial
  apply framed.bind
  intro _ _ _ _ h
  obtain ⟨b, id, b', id', is, is', took, took', at', at''⟩ := h
  subst is is' at' at''
  have pairing := twins.arenas.pairing took took' (.pair .nil abreast.same)
  have wider := pairing.wider
  apply tandem_ask_bind
  have layers := layered_pushFrame ready.sound.arena liveEnv took
  have layers' := layered_pushFrame ready'.sound.arena liveEnv' took'
  have sameParams : Same _ (b.car lambda) (b'.car lambda') :=
    pairing.arenas.same_car (same.le wider)
  have bound := (tandem_bindArguments wider (twins.pairing pairing) took.grows took'.grows
    sameParams (sameArgs.le wider) pairing.same (sameName.le wider)).with
    (ensures_bindArguments ready abreast.member took.grows layers)
    (ensures_bindArguments ready' abreast.member' took'.grows layers')
  apply bound.bind
  intro inner inner' _ _ h
  obtain ⟨⟨S, wider, twins, sameInner⟩, ⟨c, is, grows, layers⟩, ⟨c', is', grows', layers'⟩⟩ := h
  subst is is'
  have grown := ready.stage_grows grows
  have grown' := ready'.stage_grows grows'
  apply (tandem_protect twins (grown.ready ready).sound (grown'.ready ready').sound sameInner).bind
  intro _ _ _ _ h
  obtain ⟨d, top, d', top', took, took', is, is', twins⟩ := h
  subst is is'
  have wider : R ≤ Adding S top top' := wider.trans fun _ _ => .inl
  have inside : Abreast (Adding S top top') (m.inside d top) (insert inner held) inner
      (m'.inside d' top') (insert inner' held') inner' := by
    refine ⟨twins, ready.ready_inside grows layers took abreast.member,
      ready'.ready_inside grows' layers' took' abreast.member', .inl rfl, .inl rfl, ?_, ?_⟩
    · exact abreast.covers.inside ready grows layers took abreast.member
    · exact sameInner.le fun _ _ => .inl
  have body := (secure.inside ready grows layers took abreast.member).cdr
  apply tandem_ask_bind
  rw [← bind_assoc, ← bind_assoc]
  apply (tandem_body inside concordant n k (twins.arenas.same_cdr (same.le wider)) body).bind
  intro result result' j j' h
  obtain ⟨T, follows, sameResult⟩ := h
  unfold unprotect
  have popped : Twins T _ _ := follows.twins.unprotected
  apply (tandem_modify (E := AnyFault) (Q := fun _ _ => Twins T) popped).bind
  intro _ _ i i' twins
  apply tandem_pure
  refine ⟨T, ⟨twins, fun related firm => ?_⟩, sameResult⟩
  exact follows.keeps (wider _ _ related)
    (ready.firm_inside grows layers took abreast.member firm)

end

end ArenaLisp.Lisp
