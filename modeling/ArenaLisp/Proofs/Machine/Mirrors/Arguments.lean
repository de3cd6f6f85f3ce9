import ArenaLisp.Proofs.Machine.Arguments
import ArenaLisp.Proofs.Machine.Mirrors.Functions

/-!
# Calls beside the interpreter on trees

While the arguments of a call are evaluated, the list of their values grows by tails written in
cells that trees are kept off. So the values keep their trees, and when the list is whole it shows
the list of them.
-/

namespace ArenaLisp

namespace Arena

variable {a : Arena} {off : Nat → Prop} {v : Value} {ids : List Nat} {vs : List Value}

theorem Shows.row {ts : List Sexp} (row : a.Row v ids vs) (out : ∀ id ∈ ids, ¬ off id)
    (shows' : List.Forall₂ (a.Shows off) vs ts) : a.Shows off v (.ofList ts) := by
  induction row generalizing ts with
  | nil =>
    cases shows'
    exact .nil
  | cons pair _ ih =>
    cases shows' with
    | cons first rest =>
      apply Shows.pair pair (out _ List.mem_cons_self) first
      exact ih (fun id member => out id (List.mem_cons_of_mem _ member)) rest

theorem Shows.isNamed_eq {t : Sexp} (shows' : a.Shows off v t) (name : Symbol) :
    a.isNamed v name = decide (t = .symbol name) := by
  unfold isNamed
  rw [shows'.symbol?_eq, Bool.eq_iff_iff, beq_iff_eq, decide_eq_true_iff]
  cases t <;> simp [Sexp.symbol?]

end Arena

namespace Lisp

open Machine Arena
open ArenaLisp.Ideal (Interp Memory)

variable {m n k : Machine} {held : Set Value} {env v fname : Value} {young : Set Nat}
  {memory after : Memory} {tree t fname' : Sexp} {head last id : Nat} {ids : List Nat}
  {vs : List Value} {ts : List Sexp} {ev : Evaluator} {ref : Ideal.Evaluator} {b c : Arena}

/-- The cells that are young while a list of arguments is under construction. -/
def gathered (young : Set Nat) (ids : List Nat) (last : Nat) : Set Nat :=
  young ∪ {id | id ∈ ids ++ [last]}

/-- A list of arguments whose values have trees. -/
structure Listing (m : Machine) (held : Set Value) (env : Value) (young : Set Nat) (n : Machine)
    (head : Nat) (ids : List Nat) (last : Nat) (vs : List Value) (ts : List Sexp)
    (memory : Memory) : Prop where
  gathering : Gathering m held n head ids last vs
  models : n.Models env (gathered young ids last) memory
  shows' : List.Forall₂ (n.Shows env (gathered young ids last)) vs ts

theorem Listing.anchored (listing : Listing m held env young n head ids last vs ts after)
    (member : v ∈ vs) : n.Anchored held v := by
  intro id is
  subst is
  obtain ⟨cell, tail, on, pair⟩ := listing.gathering.row.element_iff.2 member
  have firm := listing.gathering.firm cell (listing.gathering.row.onList_iff.1 on)
  exact firm.trans (.head pair (.here id))

theorem Listing.fresh (listing : Listing m held env young n head ids last vs ts after) :
    ∀ id ∈ gathered young ids last, id ∈ young ∨ ¬ m.Firm held id := by
  intro id member
  obtain member | member := member
  · exact .inl member
  · exact .inr (listing.gathering.young id member)

section

variable (mirrored : m.Mirrored held env young memory)
include mirrored

theorem mirrored_listing (stage : m.Stage held n) (stack : n.stack = m.stack)
    (models : n.Models env young after) (shows' : n.Shows env young v t)
    (took : n.arena.TookCell (.pair v .nil) id b) {top : Nat}
    (pushed : b.TookCell (.pair (.cell id) n.stack) top c) :
    Listing m held env young { n with arena := c, stack := .cell top } id [] id [v] [t] after := by
  have ext := took.extends.trans pushed.extends
  have spares : n.Spares env { n with arena := c } := models.spares_extends rfl rfl ext
  have fresh : ∀ other ∈ gathered young [] id, other ∈ young ∨ ¬ n.arena.Taken other := by
    intro other member
    obtain member | is := member
    · exact .inl member
    · have is : other = id := List.mem_singleton.1 is
      subst is
      exact .inr took.fresh
  refine ⟨stage.gathering mirrored.ready stack (Arena.Shows.live shows') took pushed, ?_, ?_⟩
  · exact (models.spared spares fresh).withStack _
  · have showsValue := shows'.spared spares fresh fun other path =>
      ext.kept other (Arena.Shows.taken shows' path)
    exact .cons showsValue .nil

variable (listing : Listing m held env young n head ids last vs ts after)
include listing

theorem Listing.readied : n.Mirrored held env (gathered young ids last) after := by
  have onward := mirrored.next listing.gathering.stage (listing.models.mono fun _ => .inl)
  refine ⟨onward.ready, onward.member, onward.covers, ?_, listing.models⟩
  intro id member
  obtain member | member := member
  · exact onward.firm id member
  · exact listing.gathering.firm id member

theorem Listing.evolve (stage : n.Stage held k) (stack : k.stack = n.stack) {later : Memory}
    (models : k.Models env (gathered young ids last) later) :
    Listing m held env young k head ids last vs ts later := by
  have readied := listing.readied mirrored
  refine ⟨listing.gathering.evolve mirrored.ready stage stack, models, ?_⟩
  have anchored : ∀ v ∈ vs, n.Anchored held v := fun v => listing.anchored
  apply ((List.forall₂_and_left _ _).2 ⟨anchored, listing.shows'⟩).imp
  intro v t h
  exact readied.shows_next h.2 h.1 stage

theorem Listing.append (shows' : n.Shows env (gathered young ids last) v t)
    (took : n.arena.TookCell (.pair v .nil) id b) :
    Listing m held env young { n with arena := b.setCdr last (.cell id) } head (ids ++ [last]) id
      (vs ++ [v]) (ts ++ [t]) after := by
  have readied := listing.readied mirrored
  have gathering := listing.gathering
  have spares := readied.spares_grows took.grows
  have fresh : ∀ other ∈ gathered young (ids ++ [last]) id,
      other ∈ gathered young ids last ∨ ¬ n.arena.Taken other := by
    intro other member
    obtain member | member := member
    · exact .inl (.inl member)
    · obtain member | is := List.mem_append.1 member
      · exact .inl (.inr member)
      · have is := List.mem_singleton.1 is
        subst is
        exact .inr took.fresh
  -- the last cell is young, so that the tail that is written there changes no tree
  have young' : last ∈ gathered young (ids ++ [last]) id := .inr (by simp)
  have grown := gathering.evolve mirrored.ready (readied.ready.stage_grows took.grows) rfl
  have among : last ∈ ids ++ [last] := List.mem_append_right _ List.mem_cons_self
  have unlisted : ∀ list, Scope { n with arena := b } env list → ¬ b.OnList list last := by
    intro list scope
    apply grown.unlisted last among list
    obtain is | is := scope
    · exact .inl is
    · exact .inr (.inr (is ▸ mirrored.member))
  have unbound : ∀ list, Scope { n with arena := b } env list → ¬ b.Element list (.cell last) := by
    intro list scope element
    apply grown.unbound last among
    obtain is | is := scope
    · exact .inl (is ▸ element)
    · exact .inr ⟨env, mirrored.member, is ▸ element⟩
  have written : ∀ {w s}, n.Shows env (gathered young ids last) w s →
      Shows { n with arena := b.setCdr last (.cell id) } env (gathered young (ids ++ [last]) id)
        w s := by
    intro w s shows'
    have there := shows'.spared spares fresh fun other path =>
      took.extends.kept other (Arena.Shows.taken shows' path)
    exact there.setCdr unlisted (.inl young')
  refine ⟨gathering.append mirrored.ready (Arena.Shows.live shows') took, ?_, ?_⟩
  · exact (listing.models.spared spares fresh).setCdr_young unlisted young' unbound
  · apply List.rel_append
    · exact listing.shows'.imp fun _ _ => written
    · exact .cons (written shows') .nil

theorem Listing.whole : n.Shows env young (.cell head) (.ofList ts) := by
  have gathering := listing.gathering
  apply Arena.Shows.row gathering.row
  · intro id member reserved
    obtain member' | ⟨list, scope, on | element⟩ := reserved
    · exact gathering.young id member (mirrored.firm id member')
    · apply gathering.unlisted id member list _ on
      obtain is | is := scope
      · exact .inl is
      · exact .inr (.inr (is ▸ mirrored.member))
    · apply gathering.unbound id member
      obtain is | is := scope
      · exact .inl (is ▸ element)
      · exact .inr ⟨env, mirrored.member, is ▸ element⟩
  · apply listing.shows'.imp
    intro v t shows'
    exact Arena.Shows.mono shows' fun _ reserved => reserved.mono fun _ => .inl

/-- The arguments, one after the other. What is left of them was there at the start of the call, and
is found as it was. -/
theorem mirrors_evalArguments (faithful : Faithful ev ref) (fuel : Nat) {rest : Value} (count : Nat)
    (shows' : m.Shows env young rest tree) (secure : m.Secure held rest) :
    Mirrors (evalArguments ev env fuel last rest count) (Ideal.evalArguments ref tree) n after
      (fun count' new k later => count' = count + new.length ∧ ∃ ids last vs,
        Listing m held env young k head ids last vs (ts ++ new) later)
      (Models · env young) := by
  induction fuel generalizing n after rest tree count ids last vs ts with
  | zero => exact mirrors_endless
  | succ fuel ih =>
    have readied := listing.readied mirrored
    have stage := listing.gathering.stage
    have showsRest := mirrored.shows_stage shows' secure stage listing.fresh
    have secureRest := secure.stage mirrored.ready stage
    rw [evalArguments, Ideal.evalArguments_eq]
    apply mirrors_ask_bind
    rw [showsRest.isPair_eq]
    by_cases more : tree.isPair = true
    · rw [if_pos more, if_pos more]
      apply mirrors_ask_bind
      have part := faithful.part readied secureRest.car.anchored (Arena.Shows.car showsRest)
      apply (part.mono (fun _ _ _ _ h => h) fun _ _ models => models.mono fun _ => .inl).bind
      intro val t k later h
      obtain ⟨readied, goesOn, showsVal⟩ := h
      have listing := listing.evolve mirrored goesOn.stage goesOn.stack readied.models
      have fit : k.arena.Fit (.pair val .nil) :=
        Arena.fit_pair (Arena.Shows.live showsVal) (live_nil _)
      apply Mirrors.left (ensures_store_noRoom (Arena.ensures_take readied.ready.sound.arena fit))
      intro cell _ taken
      obtain ⟨b, took, is⟩ := taken
      subst is
      have listing := listing.append mirrored showsVal took
      apply mirrors_change_bind
      apply mirrors_ask_bind
      rw [secure.cdr_eq listing.gathering.stage]
      have others := ih listing (count + 1) (Arena.Shows.cdr shows') secure.cdr
      apply others.answer
      intro count' new k later h
      obtain ⟨counted, ids, last, vs, listing⟩ := h
      refine ⟨?_, ids, last, vs, ?_⟩
      · rw [counted, List.length_cons]
        omega
      · rw [List.append_assoc] at listing
        exact listing
    · rw [if_neg more, if_neg more]
      apply mirrors_pure
      refine ⟨rfl, ids, last, vs, ?_⟩
      rw [List.append_nil]
      exact listing

omit listing in
theorem mirrors_call (faithful : Faithful ev ref) (fuel : Nat) {function args : Value}
    (showsName : m.Shows env young fname fname') (shows' : m.Shows env young function tree)
    (secure : m.Secure held function) (showsArgs : m.Shows env young args (.ofList ts))
    (secureArgs : m.Secure held args) :
    Mirrors (call ev fuel fname function args ts.length env) (Ideal.call ref fname' tree ts) m
      memory (Reflects env young) (Models · env young) := by
  have models := mirrored.models
  unfold call Ideal.call
  apply mirrors_ask_bind
  rw [Arena.Shows.symbol?_eq shows']
  cases known : tree.symbol? with
  | some name =>
    obtain ⟨-, plain⟩ := Arena.Shows.plain shows' known
    dsimp only
    cases found : name.builtin? with
    | none => exact mirrors_blame showsName models
    | some row =>
      have is : name = Symbol.ofBuiltin row := by
        obtain ⟨code⟩ := name
        exact congrArg Symbol.mk (Builtin.ofCode?_eq_some_iff.1 found)
      subst is
      exact mirrors_applyBuiltin mirrored faithful showsName showsArgs secureArgs plain
  | none =>
    apply mirrors_ask_bind
    rw [(Arena.Shows.car shows').isNamed_eq]
    apply mirrors_ite decide_eq_true_iff
    · intro _
      apply mirrors_ask_bind
      exact mirrors_applyLambda mirrored faithful fuel showsName (Arena.Shows.cdr shows')
        secure.cdr showsArgs
    · intro _
      exact mirrors_blame showsName models

omit listing in
/-- A call evaluates what stands for the function, then the arguments, and calls the function. -/
theorem mirrors_apply (faithful : Faithful ev ref) (fuel : Nat) {form : Value}
    (shows' : m.Shows env young form tree) (secure : m.Secure held form) :
    Mirrors (apply ev fuel form env) (Ideal.apply ref tree) m memory (Reflects env young)
      (Models · env young) := by
  unfold apply Ideal.apply
  apply mirrors_ask_bind
  apply faithful.eval mirrored secure.car.anchored (Arena.Shows.car shows')
  intro op t n after readied goesOn showsOp
  have stage := goesOn.stage
  have live := Arena.Shows.live showsOp
  have fit : n.arena.Fit (.pair op .nil) := Arena.fit_pair live (live_nil _)
  apply Mirrors.left (ensures_store_noRoom (Arena.ensures_take readied.ready.sound.arena fit))
  intro head _ taken
  obtain ⟨b, took, is⟩ := taken
  subst is
  have grown := readied.next (readied.ready.stage_grows took.grows)
    (readied.models_grows took.grows)
  apply Mirrors.left (ensures_protect_noRoom grown (live_cell_iff.2 (took.taken fit)))
  intro _ _ protected'
  obtain ⟨c, top, pushed, is⟩ := protected'
  subst is
  have listing := mirrored_listing mirrored stage goesOn.stack readied.models showsOp took pushed
  apply mirrors_ask_bind
  rw [secure.cdr_eq listing.gathering.stage]
  apply (mirrors_evalArguments mirrored listing faithful fuel 0 (Arena.Shows.cdr shows')
    secure.cdr).bind
  intro count new k later h
  obtain ⟨counted, ids, last, vs, listing⟩ := h
  rw [Nat.zero_add] at counted
  subst counted
  have stage := listing.gathering.stage
  have readied := mirrored.next stage (listing.models.mono fun _ => .inl)
  have showsList : k.Shows env young (.cell head) (.ofList (t :: new)) := listing.whole mirrored
  have anchored : k.Anchored held (.cell head) := listing.gathering.steady.anchored
  have secureList := readied.secure showsList anchored
  have showsName := mirrored.shows_next (Arena.Shows.car shows') secure.car.anchored stage
  apply mirrors_ask_bind
  apply mirrors_ask_bind
  apply (mirrors_call readied faithful fuel showsName (Arena.Shows.car showsList) secureList.car
    (Arena.Shows.cdr showsList) secureList.cdr).finish
  intro result t _ _ reflects
  unfold unprotect
  rw [ensures_bind, ensures_modify]
  exact ⟨reflects.models.withStack _, reflects.shows'⟩

end

end Lisp

end ArenaLisp
