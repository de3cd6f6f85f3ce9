import ArenaLisp.Proofs.Machine.Mirrors.Forms

/-!
# User functions beside the interpreter on trees

A call of a user function puts the same layers on the environment of its caller as the call on
trees, evaluates the body in them, and leaves what the caller's environment holds afterwards.
-/

namespace ArenaLisp.Lisp

open Machine Arena
open ArenaLisp.Ideal (Interp Memory)

variable {m n : Machine} {held : Set Value} {env v args fname : Value} {young : Set Nat}
  {memory : Memory} {tree fname' : Sexp} {ev : Evaluator} {ref : Ideal.Evaluator}

section

variable (mirrored : m.Mirrored held env young memory)
include mirrored

theorem mirrors_body (faithful : Faithful ev ref) (fuel : Nat) {body : Value}
    (shows' : m.Shows env young body tree) (secure : m.Secure held body) :
    Mirrors (evalButLast ev env fuel body >>= fun last => ev last env)
      (Ideal.evalButLast ref tree >>= fun last => ref last) m memory (Reflects env young)
      (Models · env young) := by
  induction fuel generalizing m memory body tree with
  | zero =>
    unfold Mirrors
    rw [ensures_bind]
    exact ensures_endless
  | succ fuel ih =>
    rw [evalButLast, Ideal.evalButLast_eq, bind_assoc]
    apply mirrors_ask_bind
    rw [(Arena.Shows.cdr shows').isPair_eq]
    by_cases more : tree.cdr.isPair = true
    · rw [if_pos more, if_pos more]
      simp only [bind_assoc]
      apply mirrors_ask_bind
      apply faithful.eval mirrored secure.car.anchored (Arena.Shows.car shows')
      intro _ _ n after readied goesOn _
      have shows' := mirrored.shows_next shows' secure.anchored goesOn.stage
      have secure := secure.stage mirrored.ready goesOn.stage
      apply mirrors_ask_bind
      exact ih readied (Arena.Shows.cdr shows') secure.cdr
    · rw [if_neg more, if_neg more, pure_bind]
      apply mirrors_ask_bind
      exact faithful.simulates mirrored secure.car.anchored (Arena.Shows.car shows')

omit mirrored in
theorem ensures_evalBody (preserves : Preserves ev) (ready : m.Ready held) (member : env ∈ held)
    (fuel : Nat) (body : Value) :
    Ensures (evalButLast ev env fuel body >>= fun last => ev last env) m (m.Answers held)
      (m.Stops held) := by
  apply Ensures.chain ready (ensures_evalButLast preserves ready member fuel body)
  · exact fun _ _ answers => answers.goesOn
  · exact fun last n answers ready => preserves ready member answers.live

theorem mirrors_bindArguments {params : Value} {params' args' : Sexp} {b : Arena} {id : Nat}
    (took : m.arena.TookCell (.pair .nil env) id b) (showsName : m.Shows env young fname fname')
    (showsParams : b.Shows (fun id => m.Reserved env young id ∨ ¬ m.arena.Taken id) params params')
    (showsArgs : m.Shows env young args args') :
    Mirrors (bindArguments fname params args (.cell id)) (Ideal.bindArguments fname' params' args')
      { m with arena := b } memory
      (fun inner layers n after => after = memory ∧ ∃ c, n = { m with arena := c } ∧
        m.arena.Grows c ∧ m.arena.Layered c env inner ∧
        c.Holds (fun id => m.Reserved env young id ∨ ¬ m.arena.Taken id) inner
          (layers ++ memory.layers) ∧ c.Beneath env layers.length inner)
      (Models · env young) := by
  have sound := mirrored.ready.sound
  have liveEnv := mirrored.ready.live mirrored.member
  have ext := took.grows.extends'
  have holds : b.Holds (fun id => m.Reserved env young id ∨ ¬ m.arena.Taken id) (.cell id)
      ([.frame] ++ memory.layers) := .frame took.content (mirrored.models.layers.extends ext)
  have bound : Storing.Ensures (bindAll params args (.cell id)) b _ _ :=
    (ensures_bindAll took.grows liveEnv (layered_pushFrame sound.arena liveEnv took)).and
      (ensures_bindWithin_holds took.grows.sound holds (.next took.content .refl)
        showsParams (Arena.Shows.extends showsArgs ext))
  unfold bindArguments Ideal.bindArguments
  apply Mirrors.left (ensures_store_noRoom bound)
  intro left n stored
  obtain ⟨c, ⟨⟨grows, layered⟩, showsLeft, showsLeft', holds, beneath⟩, is⟩ := stored
  subst is
  obtain ⟨leftParams, leftArgs, inner⟩ := left
  generalize Ideal.bindAll params' args' [.frame] = trees at showsLeft showsLeft' holds beneath
  obtain ⟨leftParams', leftArgs', layers⟩ := trees
  have models := mirrored.models_grows grows
  have showsName := mirrored.shows_grows grows showsName
  apply mirrors_ite (not_congr showsLeft.nil_iff)
  · intro _
    exact mirrors_blame_both showsName models
  · intro _
    apply mirrors_ite (not_congr showsLeft'.nil_iff)
    · intro _
      exact mirrors_blame_both showsName models
    · intro _
      exact mirrors_pure ⟨rfl, c, rfl, grows, layered, holds, beneath⟩

theorem ensures_protect_noRoom (live : m.arena.Live v) :
    Ensures (protect v) m (fun _ n => ∃ b top, m.arena.TookCell (.pair v m.stack) top b ∧
      n = { m with arena := b, stack := .cell top }) NoRoom := by
  have sound := mirrored.ready.sound
  unfold protect
  rw [ensures_bind, ensures_get, ensures_bind]
  apply (ensures_store_noRoom (Arena.ensures_cons sound.arena live sound.stack)).mono
  · intro stack n stored
    obtain ⟨b, ⟨top, is, took⟩, is'⟩ := stored
    subst is is'
    exact ⟨b, top, took, rfl⟩
  · exact fun _ _ room => room

theorem mirrors_applyLambda (faithful : Faithful ev ref) (fuel : Nat) {lambda : Value}
    {args' : Sexp} (showsName : m.Shows env young fname fname')
    (shows' : m.Shows env young lambda tree) (secure : m.Secure held lambda)
    (showsArgs : m.Shows env young args args') :
    Mirrors (applyLambda ev fuel fname lambda args env) (Ideal.applyLambda ref fname' tree args') m
      memory (Reflects env young) (Models · env young) := by
  have ready := mirrored.ready
  have liveEnv := ready.live mirrored.member
  unfold applyLambda Ideal.applyLambda pushFrame
  apply Mirrors.left (ensures_store_noRoom
    (Arena.ensures_cons ready.sound.arena (live_nil _) liveEnv))
  intro _ _ framed
  obtain ⟨b, ⟨id, is, took⟩, is'⟩ := framed
  subst is is'
  apply mirrors_ask_bind
  have ext := took.grows.extends'
  apply (mirrors_bindArguments mirrored took showsName (Arena.Shows.extends shows' ext).car
    showsArgs).bind
  intro inner layers n after bound
  obtain ⟨is, c, is', grows, layered, holds, beneath⟩ := bound
  subst is is'
  have grown := mirrored.next (ready.stage_grows grows) (mirrored.models_grows grows)
  apply Mirrors.left (ensures_protect_noRoom grown layered.live)
  intro _ n pushed
  obtain ⟨d, top, took', is⟩ := pushed
  subst is
  have inside := mirrored.inside grows layered took' holds
  have secure' := secure.inside ready grows layered took' mirrored.member
  have showsLambda := mirrored.shows_inside grows layered took' shows'
  have ready' := inside.ready
  -- the environment of the caller stays where it is beneath that of the function
  have beneath' : ∀ {k}, (m.inside d top).Stage (insert inner held) k →
      k.arena.Beneath env layers.length inner := by
    intro k stage
    have there : d.Beneath env layers.length inner := beneath.congr fun id along =>
      took'.extends.kept id (grows.sound.taken_of_along layered.live along)
    exact there.congr fun id along => stage.evolves.same ready' (.inr (.inr (.inl rfl))) along
  have body := (mirrors_body inside faithful fuel (Arena.Shows.cdr showsLambda)
    secure'.cdr).withFaults (ensures_evalBody faithful.preserves ready' (.inl rfl) fuel _)
  apply mirrors_ask_bind
  rw [← bind_assoc]
  apply Mirrors.finish (Q := Reflects env young)
  · apply body.within
    · intro v w n after h
      obtain ⟨reflects, answers⟩ := h
      have beneath := beneath' answers.goesOn.stage
      exact ⟨reflects.models.leave beneath, reflects.shows'.leave beneath⟩
    · intro n after h
      obtain ⟨models, fault, stops⟩ := h
      exact models.leave (beneath' stops.stage)
  · intro v w n after reflects
    unfold unprotect
    rw [ensures_bind, ensures_modify]
    exact ⟨reflects.models.withStack _, reflects.shows'⟩

end

end ArenaLisp.Lisp
