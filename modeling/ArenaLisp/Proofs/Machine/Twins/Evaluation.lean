import ArenaLisp.Proofs.Machine.Twins.Arguments

/-!
# Evaluation on twins

Twins that evaluate one form, one of them as a program that runs none of its bindings, come to the
same, although they may collect at different times: by induction on how deep the evaluations of the
first nest.
-/

namespace ArenaLisp

namespace Machine

open Arena

variable [Ration] {R S : Nat → Nat → Prop} {m m' k k' : Machine} {held held' : Set Value}
  {op op' : Value}
  {head head' top top' : Nat} {b b' c c' : Arena}

theorem Follows.gathers (follows : Follows R m held S k k') (ready : m.Ready held)
    (ready' : m'.Ready held') (goesOn : m.GoesOn held k) (goesOn' : m'.GoesOn held' k')
    (same : Same S op op')
    (detached : k.arena.isNamed (k.arena.car op) Symbol.lambda = true → k.Detached held op)
    (took : k.arena.TookCell (.pair op .nil) head b)
    (took' : k'.arena.TookCell (.pair op' .nil) head' b')
    (pushed : b.TookCell (.pair (.cell head) k.stack) top c)
    (pushed' : b'.TookCell (.pair (.cell head') k'.stack) top' c') :
    Gathers R m held m' held' (Adding (Adding S head head') top top')
      { k with arena := c, stack := .cell top } { k' with arena := c', stack := .cell top' }
      head head' head head' := by
  have twins := follows.twins
  obtain ⟨live, live'⟩ := twins.arenas.live same
  have pairing := twins.arenas.pairing took took' (.pair same .nil)
  have twins' := twins.pairing pairing
  have pairing' := twins'.arenas.pairing pushed pushed' (.pair pairing.same twins'.stack)
  have wider := pairing.wider.trans pairing'.wider
  have gathering := goesOn.stage.gathering ready goesOn.stack live took pushed
  refine ⟨⟨(twins'.pairing pairing').withStack pairing'.same, fun related firm => ?_⟩,
    .inl (.inr ⟨rfl, rfl⟩), .inl (.inr ⟨rfl, rfl⟩), ⟨[], op, [], gathering, ?_⟩,
    ⟨[], _, goesOn'.stage.gathering ready' goesOn'.stack live' took' pushed'⟩⟩
  · exact wider _ _ (follows.keeps related firm)
  -- the function leads to what it led to before the two cells were taken
  · have readyK := goesOn.ready ready
    have grown := readyK.stage_grows took.grows
    have taken : b.Live (.cell head) := live_cell_iff.2 (took.taken (fit_pair live (live_nil _)))
    have push := (grown.ready readyK).stage_protect taken pushed
    have stage := grown.trans readyK push
    have grows := took.grows.trans pushed.grows
    have sound := readyK.sound.arena
    have reaches : ∀ {id}, c.Reaches op id ↔ k.arena.Reaches op id := grows.reaches_iff sound live
    have symbols : ∀ w, k.arena.Live w → c.symbol? w = k.arena.symbol? w := by
      intro w live
      cases w with
      | nil => rfl
      | cell id => simp only [symbol?, cell?_cell, grows.extends'.kept id (live id rfl)]
    intro function
    have car : c.car op = k.arena.car op := by
      cases op with
      | nil => rfl
      | cell id => simp only [Arena.car, cell?_cell, grows.extends'.kept id (live id rfl)]
    have function : k.arena.isNamed (k.arena.car op) Symbol.lambda = true := by
      have there : (c.symbol? (c.car op) == some Symbol.lambda) = true := function
      rwa [car, symbols _ (sound.live_car op)] at there
    have detached := detached function
    refine ⟨gathering.anchored.secure fun id path binding => ?_, fun id member path => ?_⟩
    · have path := reaches.1 path
      have taken := sound.taken_of_reaches live path
      obtain global | ⟨env, member, here⟩ := binding
      · exact detached id path (.inl ((stage.evolves.element_iff readyK (.inl rfl)).1 global))
      · exact detached id path (.inr ⟨env, member,
          (stage.evolves.element_iff readyK (.inr (.inr member))).1 here⟩)
    · cases List.mem_singleton.1 member
      exact took.fresh (sound.taken_of_reaches live (reaches.1 path))

end Machine

namespace Lisp

open Machine Arena

variable {R S : Nat → Nat → Prop} {m m' k k' : Machine} {held held' : Set Value} {ev ev' : Evaluator}
  {env env' form form' args args' fname fname' function function' : Value}

section

variable [Ration]

section

variable (abreast : Abreast R m held env m' held' env') (concordant : Concordant ev ev')
include abreast concordant

theorem tandem_call (n j : Nat) (count : Nat) (sameName : Same R fname fname')
    (sameFunction : Same R function function') (sameArgs : Same R args args')
    (sealed : m.arena.isNamed (m.arena.car function) Symbol.lambda = true → m.Secure held function)
    (steady : m.Steady held args) :
    Tandem (call ev n fname function args count env) (call ev' j fname' function' args' count env')
      m m' (Results R m held) AnyFault := by
  have twins := abreast.twins
  have h := twins.arenas
  unfold call
  apply tandem_ask_bind
  rw [h.symbol?_eq sameFunction]
  split
  · split
    · exact tandem_applyBuiltin abreast concordant sameArgs steady sameName _ count
    · exact tandem_blame twins sameName
  · apply tandem_ask_bind
    apply tandem_ite (by rw [h.isNamed_eq (h.same_car sameFunction)])
    · intro lambda
      apply tandem_ask_bind
      exact tandem_applyLambda abreast concordant n j sameName (h.same_cdr sameFunction)
        (sealed lambda).cdr sameArgs
    · intro _
      exact tandem_blame twins sameName

theorem tandem_apply (n j : Nat) (same : Same R form form') (secure : m.Secure held form) :
    Tandem (apply ev n form env) (apply ev' j form' env') m m' (Results R m held) AnyFault := by
  have h := abreast.twins.arenas
  have ready := abreast.ready
  have ready' := abreast.ready'
  have sameName := h.same_car same
  have firmName := secure.car.anchored
  unfold apply
  apply tandem_ask_bind
  obtain ⟨live, live'⟩ := h.live sameName
  have evaluated := (concordant.agreement abreast sameName firmName).with
    (concordant.preserves ready abreast.member live)
    (concordant.preserves' ready' abreast.member' live')
  apply evaluated.bind
  intro op op' k k' h
  obtain ⟨⟨⟨S, follows, sameOp⟩, detached⟩, answers, answers'⟩ := h
  have goesOn := answers.goesOn
  have goesOn' := answers'.goesOn
  have readyK := goesOn.ready ready
  have readyK' := goesOn'.ready ready'
  have stored : Tandem (store (take (.pair op .nil))) (store (take (.pair op' .nil))) k k'
      (fun head head' l l' => ∃ b b', k.arena.TookCell (.pair op .nil) head b ∧
        k'.arena.TookCell (.pair op' .nil) head' b' ∧ l = { k with arena := b } ∧
        l' = { k' with arena := b' }) AnyFault := by
    apply tandem_store (E := fun _ => True)
    · apply (tandem_take readyK.sound.arena readyK'.sound.arena follows.twins.arenas
        (.pair sameOp .nil)).mono
      intro head head' b b' h
      obtain ⟨took, took'⟩ := h
      exact ⟨b, b', took, took', rfl, rfl⟩
    · exact fun _ _ _ _ => trivial
  apply stored.bind
  intro head head' _ _ h
  obtain ⟨b, b', took, took', is, is'⟩ := h
  subst is is'
  have pairing := follows.twins.arenas.pairing took took' (.pair sameOp .nil)
  have grown := readyK.stage_grows took.grows
  have grown' := readyK'.stage_grows took'.grows
  apply (tandem_protect (follows.twins.pairing pairing) (grown.ready readyK).sound
    (grown'.ready readyK').sound pairing.same).bind
  intro _ _ _ _ h
  obtain ⟨c, top, c', top', pushed, pushed', is, is', _⟩ := h
  subst is is'
  have gathers := follows.gathers ready ready' goesOn goesOn' sameOp detached took took' pushed
    pushed'
  apply tandem_ask_bind
  obtain ⟨ids, _, _, gathering, -⟩ := gathers.left
  have rest := gathers.follows.twins.arenas.same_cdr (gathers.follows.same secure.anchored same)
  rw [secure.cdr_eq gathering.stage] at rest ⊢
  apply (tandem_evalArguments abreast concordant n j gathers secure.cdr rest 0).bind
  intro count _ i i' h
  obtain ⟨is, T, last, last', gathers⟩ := h
  subst is
  obtain ⟨ids, function, vs, gathering, sealed⟩ := gathers.left
  obtain ⟨ids', vs', gathering'⟩ := gathers.right
  have follows := gathers.follows
  have abreastI := abreast.next follows gathering.stage gathering'.stage
  have h := follows.twins.arenas
  have sameHead : Same T (.cell head) (.cell head') := .cell gathers.sameHead
  apply tandem_ask_bind
  apply tandem_ask_bind
  obtain ⟨tail, pair⟩ := gathering.function
  have sealed : i.arena.isNamed (i.arena.car (i.arena.car (.cell head))) Symbol.lambda = true →
      i.Secure held (i.arena.car (.cell head)) := by
    rw [car_of_pair pair]
    exact fun lambda => (sealed lambda).1
  apply (tandem_call abreastI concordant n j count (follows.same firmName sameName)
    (h.same_car sameHead) (h.same_cdr sameHead) sealed gathering.steady.cdr).bind
  intro result result' l l' h
  obtain ⟨U, follows', sameResult⟩ := h
  unfold unprotect
  have popped : Twins U _ _ := follows'.twins.unprotected
  apply (tandem_modify (E := AnyFault) (Q := fun _ _ => Twins U) popped).bind
  intro _ _ o o' twins
  apply tandem_pure
  exact ⟨U, ⟨twins, (follows.trans ready gathering.stage follows').keeps⟩, sameResult⟩

/-! ### Evaluation -/

omit concordant in
theorem tandem_evalSymbol (name : Symbol) (same : Same R form form') :
    Tandem (evalSymbol form name env) (evalSymbol form' name env') m m' (Results R m held)
      AnyFault := by
  have twins := abreast.twins
  unfold evalSymbol
  apply tandem_ite Iff.rfl
  · intro _
    exact tandem_pure (abreast.results .nil)
  · intro _
    apply tandem_get_bind
    apply tandem_ask_bind
    have search := twins.arenas.lookupEither_same name abreast.same twins.globe
    generalize m.arena.lookupEither name env m.globe = x at search
    generalize m'.arena.lookupEither name env' m'.globe = y at search
    cases search with
    | found related =>
      exact tandem_pure (abreast.results (twins.arenas.same_cdr (.cell related)))
    | absent =>
      apply tandem_ite Iff.rfl
      · intro _
        exact tandem_pure (abreast.results same)
      · intro _
        exact tandem_blame twins same
    | endless => exact tandem_endless

theorem tandem_evalPair (n j : Nat) (same : Same R form form') (secure : m.Secure held form) :
    Tandem (evalPair ev n form env) (evalPair ev' j form' env') m m' (Results R m held)
      AnyFault := by
  have h := abreast.twins.arenas
  unfold evalPair
  apply tandem_ask_bind
  rw [h.symbol?_eq (h.same_car same)]
  split
  · apply tandem_ite abreast.same.nil_iff
    · intro _
      exact tandem_pure (abreast.results same)
    · intro _
      exact tandem_throw trivial
  · apply tandem_ask_bind
    exact tandem_special abreast concordant (h.same_cdr same) secure.cdr.steady _
  · exact tandem_apply abreast concordant n j same secure

theorem tandem_evalForm (n j : Nat) (same : Same R form form') (secure : m.Secure held form) :
    Tandem (evalForm ev n form env) (evalForm ev' j form' env') m m' (Results R m held)
      AnyFault := by
  unfold evalForm
  apply tandem_ite same.nil_iff
  · intro _
    exact tandem_pure (abreast.results .nil)
  · intro _
    apply tandem_ask_bind
    rw [abreast.twins.arenas.symbol?_eq same]
    split
    · exact tandem_evalSymbol abreast _ same
    · exact tandem_evalPair abreast concordant n j same secure

omit concordant in
theorem tandem_escapeIfInterrupted :
    Tandem escapeIfInterrupted escapeIfInterrupted m m' (fun _ _ n n' => n = m ∧ n' = m')
      AnyFault := by
  unfold escapeIfInterrupted
  apply tandem_get_bind
  rw [abreast.twins.interrupted]
  split
  · apply (tandem_modify (E := AnyFault) (Q := fun _ _ _ _ => True) trivial).bind
    intro _ _ _ _ _
    exact tandem_throw trivial
  · exact tandem_pure ⟨rfl, rfl⟩

theorem tandem_step {room room' : Lisp Unit} (n j : Nat) (same : Same R form form')
    (secure : m.Secure held form)
    (left : Ensures room m (fun _ k => m.Answers held form k) (m.Stops held))
    (right : Ensures room' m' (fun _ k' => m'.Answers held' form' k') (m'.Stops held'))
    (made : Tandem room room' m m' (fun _ _ k k' => m.Retains form env k ∧
      m'.Retains form' env' k' ∧ ∀ t ∈ Ration.cells, k.arena.freeCount ≤ k'.arena.freeCount)
      AnyFault) :
    Tandem (do room; escapeIfInterrupted; evalForm ev n form env)
      (do room'; escapeIfInterrupted; evalForm ev' j form' env') m m' (Results R m held)
      AnyFault := by
  have ready := abreast.ready
  apply (made.with left right).bind
  intro _ _ k k' h
  obtain ⟨⟨retains, retains', room⟩, answers, answers'⟩ := h
  obtain ⟨follows, same, sameEnv⟩ := abreast.twins.retain held same abreast.same retains retains'
    room
  have stage := answers.goesOn.stage
  have abreastK := abreast.next follows stage answers'.goesOn.stage
  apply (tandem_escapeIfInterrupted abreastK).bind
  intro _ _ _ _ h
  obtain ⟨is, is'⟩ := h
  subst is is'
  have step := tandem_evalForm abreastK concordant n j same (secure.stage ready stage)
  exact step.mono (fun _ _ _ _ results => results.after ready stage follows) fun _ _ _ h => h

end

/-- What is required of a program is required of one of the twins only. -/
theorem agreement_detached (preserves : Preserves ev) (preserves' : Preserves ev')
    (step : ∀ {R : Nat → Nat → Prop} {m : Machine} {held : Set Value} {env : Value}
      {m' : Machine} {held' : Set Value} {env' form form' : Value},
      Abreast R m held env m' held' env' → Same R form form' → m.Secure held form →
      Tandem (ev form env) (ev' form' env') m m' (Results R m held) AnyFault) :
    Agreement (detached ev) ev' := by
  intro R m held env m' held' env' form form' abreast same anchored
  obtain ⟨live, live'⟩ := abreast.twins.arenas.live same
  have ready := abreast.ready
  unfold detached
  apply tandem_left (ensures_requireDetached ready.sound abreast.covers)
  intro _ detached
  rw [← bind_pure (ev' form' env')]
  have evaluated := (step abreast same (anchored.secure detached)).with
    (preserves ready abreast.member live) (preserves' abreast.ready' abreast.member' live')
  apply evaluated.bind
  intro v w n n' h
  obtain ⟨results, answers, _⟩ := h
  have stage := answers.goesOn.stage
  have covers := abreast.covers.stage ready abreast.member stage
  have lambda : Ensures (ask fun a => a.isNamed (a.car v) Symbol.lambda) n
      (fun c k => k = n ∧ c = n.arena.isNamed (n.arena.car v) Symbol.lambda) fun _ _ => False :=
    ⟨rfl, rfl⟩
  apply tandem_left lambda
  intro c is
  subst is
  dsimp only
  split
  · apply tandem_left (ensures_requireDetached (answers.goesOn.ready ready).sound covers)
    intro _ detached
    exact tandem_pure ⟨results, fun _ => detached⟩
  · rename_i other
    exact tandem_pure ⟨results, fun function => absurd function other⟩

end

theorem ensures_collectIfLow_if (form env : Value) (m : Machine) {E : Fault → Machine → Prop} :
    Ensures (collectIfLow form env) m (fun _ n =>
      n = m ∧ m.settings.threshold ≤ m.arena.freeCount ∨ n = m.collect form env) E := by
  by_cases low : m.arena.freeCount < m.settings.threshold
  · simp only [collectIfLow, ensures_bind, ensures_get, if_pos low, collect, ensures_modify]
    exact .inr trivial
  · simp only [collectIfLow, ensures_bind, ensures_get, if_neg low]
    exact .inl ⟨rfl, Nat.le_of_not_lt low⟩

section

attribute [local instance] Ration.unlimited

theorem tandem_evalStep (abreast : Abreast R m held env m' held' env')
    (concordant : Concordant ev ev') (n j : Nat) (same : Same R form form')
    (secure : m.Secure held form) :
    Tandem (evalStep ev n form env) (evalStep ev' j form' env') m m' (Results R m held)
      AnyFault := by
  have ready := abreast.ready
  have ready' := abreast.ready'
  obtain ⟨live, live'⟩ := abreast.twins.arenas.live same
  apply tandem_step abreast concordant n j same secure
    (ensures_collectIfLow ready abreast.member live)
    (ensures_collectIfLow ready' abreast.member' live')
  apply (tandem_of_ensures (ensures_collectIfLow_if form env m)
    (ensures_collectIfLow_if form' env' m')).mono
  · intro _ _ k k' h
    obtain ⟨collected, collected'⟩ := h
    exact ⟨retains_of_collectIfLow ready.sound live (ready.live abreast.member) collected,
      retains_of_collectIfLow ready'.sound live' (ready'.live abreast.member') collected',
      fun _ rationed => nomatch rationed⟩
  · exact fun _ _ _ h => h

/-- Twins agree on the evaluation of a program that runs none of its bindings, whatever bounds they
are given. -/
theorem agreement_eval (fuel fuel' : Nat) : Agreement (evalDetached fuel) (eval fuel') := by
  induction fuel generalizing fuel' with
  | zero => exact fun _ _ _ => tandem_endless
  | succ n ih =>
    cases fuel' with
    | zero => exact fun _ _ _ => tandem_endless'
    | succ j =>
      have concordant : Concordant (evalDetached n) (eval j) :=
        ⟨preserves_evalDetached n, preserves_eval j, ih j⟩
      apply agreement_detached
      · exact fun ready member live =>
          ensures_evalStep (preserves_evalDetached n) ready member n live
      · exact preserves_eval (j + 1)
      · exact fun abreast same secure => tandem_evalStep abreast concordant n j same secure

end

end Lisp

end ArenaLisp
