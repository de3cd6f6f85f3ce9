import ArenaLisp.Proofs.Machine.Twins.Functions

/-!
# The arguments of a call on twins

Twins gather the values of the arguments in lists whose cells are related. What is called has been
evaluated before, and stays as it is meanwhile if it is a function (`Sealed`).
-/

namespace ArenaLisp

namespace Machine

open Arena

/-- A value that, if it is a function, is secure and leads to none of some cells. -/
def Sealed (m : Machine) (held : Set Value) (v : Value) (ids : List Nat) : Prop :=
  m.arena.isNamed (m.arena.car v) Symbol.lambda = true →
    m.Secure held v ∧ ∀ id ∈ ids, ¬ m.arena.Reaches v id

variable {R S T : Nat → Nat → Prop} {m m' n k k' j j' : Machine} {held held' : Set Value}
  {v v' w op op' rest : Value} {ids ids' : List Nat} {vs vs' : List Value}
  {id id' head head' last last' : Nat} {b b' : Arena}

theorem Anchored.headed (anchored : m.Anchored held v) (stage : m.Stage held n) (name : Symbol) :
    n.arena.isNamed (n.arena.car v) name = m.arena.isNamed (m.arena.car v) name := by
  have kept : ∀ id, m.Firm held id → n.arena.cell id = m.arena.cell id ∨
      ∃ tail, n.arena.cell id = (m.arena.cell id).withTail tail := fun id firm =>
    (stage.evolves.kept id firm).imp_right And.right
  have symbols : ∀ w, m.Anchored held w → n.arena.symbol? w = m.arena.symbol? w := by
    intro w anchored
    cases w with
    | nil => rfl
    | cell id =>
      unfold symbol?
      obtain same | ⟨tail, same⟩ := kept id (anchored id rfl)
      · simp only [cell?_cell, same]
      · simp only [cell?_cell, same]
        cases m.arena.cell id <;> rfl
  cases v with
  | nil => rfl
  | cell id =>
    have firm := anchored id rfl
    have heads : n.arena.car (.cell id) = m.arena.car (.cell id) := by
      unfold car
      obtain same | ⟨tail, same⟩ := kept id firm
      · simp only [cell?_cell, same]
      · simp only [cell?_cell, same]
        cases m.arena.cell id <;> rfl
    have head : m.Anchored held (m.arena.car (.cell id)) := by
      intro x is
      obtain empty | ⟨first, tail, at', pair⟩ := m.arena.car_cases (.cell id)
      · rw [empty] at is
        cases is
      · cases at'
        rw [is] at pair
        exact firm.trans (.head pair (.here x))
    unfold isNamed
    rw [heads, symbols _ head]

theorem Sealed.stage (sealed : m.Sealed held v ids) (anchored : m.Anchored held v)
    (ready : m.Ready held) (stage : m.Stage held n) : n.Sealed held v ids := by
  intro function
  rw [anchored.headed stage] at function
  obtain ⟨secure, apart⟩ := sealed function
  refine ⟨secure.stage ready stage, fun id member path => ?_⟩
  exact apart id member ((secure.reaches_iff stage).1 path)

/-- What is secure stays so when a cell that it does not lead to gets a tail. -/
theorem Secure.append {val : Value} (secure : n.Secure held v)
    (unlisted : ∀ list, n.Listed held list → ¬ n.arena.OnList list last)
    (pair : n.arena.cell last = .pair val .nil) (apart : ¬ n.arena.Reaches v last) :
    Secure { n with arena := n.arena.setCdr last w } held v ∧
      ∀ id, (n.arena.setCdr last w).Reaches v id ↔ n.arena.Reaches v id := by
  have reaches : ∀ id, (n.arena.setCdr last w).Reaches v id ↔ n.arena.Reaches v id := by
    intro id
    apply reaches_congr
    intro other path
    apply cell_setCdr_of_ne
    intro is
    exact apart (is ▸ path)
  refine ⟨⟨fun id path => ?_, fun id path binding => ?_⟩, reaches⟩
  · obtain ⟨root, among, path⟩ := secure.firm id ((reaches id).1 path)
    exact ⟨root, among, path.setCdr pair fun _ => binding_setCdr unlisted⟩
  · exact secure.detached id ((reaches id).1 path) (binding_setCdr unlisted binding)

theorem Gathering.function (gathering : Gathering m held k head ids last (op :: vs)) :
    ∃ tail, k.arena.cell head = .pair op tail := by
  have row := gathering.row
  generalize ids ++ [last] = all at row
  obtain _ | ⟨pair, _⟩ := row
  exact ⟨_, pair⟩

theorem Gathering.anchored (gathering : Gathering m held k head ids last (op :: vs)) :
    k.Anchored held op := by
  obtain ⟨tail, pair⟩ := gathering.function
  have anchored := gathering.steady.car
  rwa [car_of_pair pair] at anchored

variable [Ration]

/-- Twins at work on the arguments of a call. -/
structure Gathers (R : Nat → Nat → Prop) (m : Machine) (held : Set Value) (m' : Machine)
    (held' : Set Value) (S : Nat → Nat → Prop) (k k' : Machine) (head head' last last' : Nat) :
    Prop where
  follows : Follows R m held S k k'
  sameHead : S head head'
  sameLast : S last last'
  left : ∃ ids op vs, Gathering m held k head ids last (op :: vs) ∧
    k.Sealed held op (ids ++ [last])
  right : ∃ ids vs, Gathering m' held' k' head' ids last' vs

theorem Gathers.evolve (ready : m.Ready held) (ready' : m'.Ready held')
    (gathers : Gathers R m held m' held' S k k' head head' last last')
    (follows : Follows S k held T j j') (goesOn : k.GoesOn held j) (goesOn' : k'.GoesOn held' j') :
    Gathers R m held m' held' T j j' head head' last last' := by
  obtain ⟨ids, op, vs, gathering, sealed⟩ := gathers.left
  obtain ⟨ids', vs', gathering'⟩ := gathers.right
  have readyK := gathering.stage.ready ready
  have evolved := gathering.evolve ready goesOn.stage goesOn.stack
  have headMember : head ∈ ids ++ [last] := by
    obtain ⟨tail, pair⟩ := gathering.function
    exact gathering.row.mem_of_along (.here head)
  refine ⟨gathers.follows.trans ready gathering.stage follows, ?_, ?_, ⟨ids, op, vs, evolved, ?_⟩,
    ⟨ids', vs', gathering'.evolve ready' goesOn'.stage goesOn'.stack⟩⟩
  · exact follows.keeps gathers.sameHead (gathering.firm head headMember)
  · exact follows.keeps gathers.sameLast (gathering.firm last (by simp))
  · exact sealed.stage gathering.anchored readyK goesOn.stage

theorem Gathers.append (ready : m.Ready held) (ready' : m'.Ready held')
    (gathers : Gathers R m held m' held' S k k' head head' last last') (same : Same S v v')
    (took : k.arena.TookCell (.pair v .nil) id b) (took' : k'.arena.TookCell (.pair v' .nil) id' b') :
    Gathers R m held m' held' (Adding S id id') { k with arena := b.setCdr last (.cell id) }
      { k' with arena := b'.setCdr last' (.cell id') } head head' id id' := by
  obtain ⟨ids, op, vs, gathering, sealed⟩ := gathers.left
  obtain ⟨ids', vs', gathering'⟩ := gathers.right
  have twins := gathers.follows.twins
  obtain ⟨live, live'⟩ := twins.arenas.live same
  have pairing := twins.arenas.pairing took took' (.pair same .nil)
  have twins := (twins.pairing pairing).setCdr (pairing.wider _ _ gathers.sameLast) pairing.same
  refine ⟨⟨twins, fun related firm => ?_⟩, pairing.wider _ _ gathers.sameHead, .inr ⟨rfl, rfl⟩,
    ⟨ids ++ [last], op, vs ++ [v], gathering.append ready live took, ?_⟩,
    ⟨ids' ++ [last'], vs' ++ [v'], gathering'.append ready' live' took'⟩⟩
  · exact pairing.wider _ _ (gathers.follows.keeps related firm)
  -- the cell that was taken is none that the function leads to, and the last one is none, either
  · have readyK := gathering.stage.ready ready
    have grown := readyK.stage_grows took.grows
    have sealed := sealed.stage gathering.anchored readyK grown
    have evolved := gathering.evolve ready grown rfl
    intro function
    have function : b.isNamed (b.car op) Symbol.lambda = true := by
      simpa [isNamed] using function
    obtain ⟨secure, apart⟩ := sealed function
    obtain ⟨val, pair⟩ := last_of_row evolved.row
    obtain ⟨secure', reaches⟩ := secure.append (w := .cell id) (evolved.unlisted last (by simp)) pair
      (apart last (by simp))
    refine ⟨secure', fun other member path => ?_⟩
    have path := (reaches other).1 path
    obtain member | member := List.mem_append.1 member
    · exact apart other member path
    · cases List.mem_singleton.1 member
      have liveOp : k.arena.Live op := fun x is =>
        (gathering.anchored x is).taken gathering.stage.sound
      have old := (took.grows.reaches_iff gathering.stage.sound.arena liveOp).1 path
      exact took.fresh (gathering.stage.sound.arena.taken_of_reaches liveOp old)

end Machine

namespace Lisp

open Machine Arena

variable [Ration] {R S : Nat → Nat → Prop} {m m' k k' : Machine} {held held' : Set Value}
  {ev ev' : Evaluator}
  {env env' form form' rest rest' args args' fname fname' function function' : Value}
  {head head' last last' : Nat}

section

variable (abreast : Abreast R m held env m' held' env') (concordant : Concordant ev ev')
include abreast concordant

theorem tandem_evalArguments (n j : Nat)
    (gathers : Gathers R m held m' held' S k k' head head' last last') (secure : m.Secure held rest)
    (same : Same S rest rest') (count : Nat) :
    Tandem (evalArguments ev env n last rest count) (evalArguments ev' env' j last' rest' count) k k'
      (fun c c' i i' => c = c' ∧
        ∃ T last last', Gathers R m held m' held' T i i' head head' last last') AnyFault := by
  induction n generalizing j k k' S last last' rest rest' count with
  | zero => exact tandem_endless
  | succ n ih =>
    cases j with
    | zero => exact tandem_endless'
    | succ j =>
      obtain ⟨ids, op, vs, gathering, -⟩ := gathers.left
      obtain ⟨ids', vs', gathering'⟩ := gathers.right
      have abreastK := abreast.next gathers.follows gathering.stage gathering'.stage
      have h := abreastK.twins.arenas
      have secureK := secure.stage abreast.ready gathering.stage
      have sameCar := h.same_car same
      unfold evalArguments
      apply tandem_ask_bind
      apply tandem_ite (by rw [h.isPair_eq same])
      · intro _
        apply tandem_ask_bind
        obtain ⟨live, live'⟩ := h.live sameCar
        have evaluated := (concordant.agreement abreastK sameCar secureK.car.anchored).with
          (concordant.preserves abreastK.ready abreastK.member live)
          (concordant.preserves' abreastK.ready' abreastK.member' live')
        apply evaluated.bind
        intro val val' i i' h
        obtain ⟨⟨⟨T, follows, sameVal⟩, _⟩, answers, answers'⟩ := h
        have gathers := gathers.evolve abreast.ready abreast.ready' follows answers.goesOn
          answers'.goesOn
        have same := follows.same secureK.anchored same
        have stored : Tandem (store (take (.pair val .nil))) (store (take (.pair val' .nil))) i i'
            (fun cell cell' l l' => ∃ b b', i.arena.TookCell (.pair val .nil) cell b ∧
              i'.arena.TookCell (.pair val' .nil) cell' b' ∧ l = { i with arena := b } ∧
              l' = { i' with arena := b' }) AnyFault := by
          apply tandem_store (E := fun _ => True)
          · apply (tandem_take (answers.goesOn.ready abreastK.ready).sound.arena
              (answers'.goesOn.ready abreastK.ready').sound.arena follows.twins.arenas
              (.pair sameVal .nil)).mono
            intro cell cell' b b' h
            obtain ⟨took, took'⟩ := h
            exact ⟨b, b', took, took', rfl, rfl⟩
          · exact fun _ _ _ _ => trivial
        apply stored.bind
        intro cell cell' _ _ h
        obtain ⟨b, b', took, took', is, is'⟩ := h
        subst is is'
        have gathers := gathers.append abreast.ready abreast.ready' sameVal took took'
        have linked : Tandem (change (·.setCdr last (.cell cell)))
            (change (·.setCdr last' (.cell cell'))) { i with arena := b } { i' with arena := b' }
            (fun _ _ l l' => Gathers R m held m' held' (Adding T cell cell') l l' head head' cell
              cell') AnyFault := tandem_change gathers
        apply linked.bind
        intro _ _ l l' gathers
        apply tandem_ask_bind
        have same := same.le (S := Adding T cell cell') fun _ _ => .inl
        have rest := gathers.follows.twins.arenas.same_cdr same
        obtain ⟨ids, op, vs, gathering, -⟩ := gathers.left
        have cdr : l.arena.cdr _ = m.arena.cdr _ := secure.cdr_eq gathering.stage
        rw [cdr] at rest ⊢
        exact ih j gathers secure.cdr rest (count + 1)
      · intro _
        exact tandem_pure ⟨rfl, S, last, last', gathers⟩

end

end Lisp

end ArenaLisp
