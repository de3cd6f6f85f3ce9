import ArenaLisp.Proofs.Arena.Storing

/-!
# Clients of an arena

A client takes cells, gives them back, writes into pairs, marks and sweeps, in any order and with any
references between its cells, dangling ones too. It never gives back a cell that is free. Then the
chain stays a list of free cells without repetition, and no cell that the client still holds is
handed out (`Client.orderly`). What is given back is taken again in the reverse order
(`Client.serves`).
-/

namespace ArenaLisp.Arena

open Storing

/-- What a client may ask of an arena. -/
inductive Request where
  | allocPair (head tail : Value)
  | allocSymbol (name : Symbol)
  | cons (head tail : Value)
  | symbol (name : Symbol)
  | release (id : Nat)
  | setCar (id : Nat) (head : Value)
  | setCdr (id : Nat) (tail : Value)
  | mark (root : Value)
  | sweep

/-- What a client keeps account of. -/
structure Account where
  /-- The cells that it took and has not released since, nor lost in a sweep. -/
  held : Set Nat
  /-- No free cell had a mark at the latest sweep. -/
  tidy : Prop

namespace Request

/-- What a cell is asked for to hold. -/
def content? : Request → Option Cell
  | allocPair head tail => some (.pair head tail)
  | allocSymbol name => some (.symbol name)
  | cons head tail => some (.pair head tail)
  | symbol name => some (.symbol name)
  | _ => none

/-- Does what is asked for. The answer is the cell that was taken, if one was. -/
def perform : Request → Storing (Option Value)
  | allocPair head tail => (some ∘ .cell) <$> take (.pair head tail)
  | allocSymbol name => (some ∘ .cell) <$> take (.symbol name)
  | cons head tail => some <$> Arena.cons head tail
  | symbol name => some <$> Arena.symbol name
  | release id => do modify (Arena.release · id); return none
  | setCar id head => do modify (Arena.setCar · id head); return none
  | setCdr id tail => do modify (Arena.setCdr · id tail); return none
  | mark root => do modify (Arena.mark · root); return none
  | sweep => do modify Arena.sweep; return none

/-- Does one thing after the other, up to the first fault. -/
def serve (requests : List Request) : Storing (List (Option Value)) :=
  requests.mapM perform

/-- A free cell is not released. -/
def Allowed (a : Arena) : Request → Prop
  | release id => a.Taken id
  | _ => True

end Request

/-- The account after a request that came to an outcome. -/
def Account.after (account : Account) (a : Arena) (outcome : Except Fault (Option Value)) :
    Request → Account
  | .release id => { account with held := account.held \ {id} }
  | .sweep => ⟨{id ∈ account.held | a.marked id = true}, ∀ id, a.marked id = true → a.Taken id⟩
  | _ =>
    match outcome with
    | .ok (some (.cell id)) => { account with held := insert id account.held }
    | _ => account

/-- The arenas that a client can come to from a new one, each with its account. -/
inductive Client (size : Nat) : Arena → Account → Prop where
  | new : Client size (.new size) ⟨∅, True⟩
  | request {a b : Arena} {account : Account} {request : Request}
    {outcome : Except Fault (Option Value)} : Client size a account → request.Allowed a →
    request.perform.run a = (outcome, b) → Client size b (account.after a outcome request)

theorem Client.ask {size : Nat} {a : Arena} {account : Account} (client : Client size a account)
    (request : Request) (allowed : request.Allowed a) : Client size (request.perform.run a).2
      (account.after a (request.perform.run a).1 request) :=
  client.request allowed rfl

variable {size id : Nat} {a b : Arena} {ids rest : List Nat} {account : Account}
  {request : Request} {content : Cell} {outcome : Except Fault (Option Value)}

/-! ### The chain -/

theorem Linked.release (linked : a.Linked ids) (taken : a.Taken id) :
    (a.release id).Linked (id :: ids) := by
  have inside := lt_of_taken taken
  have absent : id ∉ ids := fun member => linked.not_taken member taken
  have first : (a.release id).cell id = .free a.freeList := by rw [cell_release inside, if_pos rfl]
  have others : ∀ other ∈ ids, (a.release id).cell other = a.cell other := by
    intro other member
    rw [cell_release inside, if_neg]
    rintro rfl
    exact absent member
  refine ⟨.cons (by rwa [capacity_release]) first ?_, List.nodup_cons.2 ⟨absent, linked.nodup⟩, ?_⟩
  · exact linked.chain.congr (capacity_release ..) others
  · simp [linked.count]

theorem linked_sweep (a : Arena) : a.sweep.Linked (a.unmarkedBelow a.capacity) :=
  ⟨chain_sweep a, (sorted_unmarkedBelow ..).nodup, freeCount_sweep a⟩

theorem Linked.freeCount_le (linked : a.Linked ids) : a.freeCount ≤ a.capacity := by
  have inside : ids ⊆ List.range a.capacity := fun id member =>
    List.mem_range.2 (linked.chain.free member).1
  rw [linked.count]
  simpa using (List.Nodup.subperm linked.nodup inside).length_le

theorem taken_release_of_ne {other : Nat} (taken : a.Taken id) (ne : other ≠ id) :
    (a.release id).Taken other ↔ a.Taken other := by
  simp [Taken, cell_release (lt_of_taken taken), ne]

/-! ### What a request comes to -/

namespace Request

theorem perform_run (asks : request.content? = some content) (a : Arena) :
    request.perform.run a = match (take content).run a with
      | (.ok id, b) => (.ok (some (.cell id)), b)
      | (.error fault, b) => (.error fault, b) := by
  cases request with
  | allocPair | allocSymbol =>
    cases asks
    rw [perform, map_eq_pure_bind, run_bind]
    rcases (take _).run a with ⟨_ | _, _⟩ <;> rfl
  | cons | symbol =>
    cases asks
    simp only [perform, Arena.cons, Arena.symbol, map_eq_pure_bind, run_bind]
    rcases (take _).run a with ⟨_ | _, _⟩ <;> rfl
  | _ => cases asks

theorem content_ne_free (asks : request.content? = some content) (next : Value) :
    content ≠ .free next := by
  rintro rfl
  cases request <;> cases asks

/-- What asking for a cell comes to. Where the chain is empty there is no room, and nothing changes.
Otherwise the first cell of the chain is filled and handed out. The client did not hold it, and nothing
else changes. -/
inductive Answers (a : Arena) (account : Account) (content : Cell) :
    List Nat → Except Fault (Option Value) × Arena → Prop where
  | noRoom : Answers a account content [] (.error .noRoom, a)
  | cell {id : Nat} {ids : List Nat} {b : Arena} : id ∉ account.held → a.Fills content id b →
    b.Linked ids → b.freeCount + 1 = a.freeCount →
    Answers a account content (id :: ids) (.ok (some (.cell id)), b)

theorem answers (linked : a.Linked ids) (held : ∀ id ∈ account.held, a.Taken id)
    (asks : request.content? = some content) :
    Answers a account content ids (request.perform.run a) := by
  rw [perform_run asks]
  cases ids with
  | nil =>
    rw [take_run_nil linked.empty]
    exact .noRoom
  | cons id ids =>
    obtain ⟨b, ran, fills, later⟩ := linked.take content
    rw [ran]
    refine .cell (fun member => ?_) fills later ?_
    · exact linked.not_taken List.mem_cons_self (held id member)
    · rw [later.count, linked.count, List.length_cons]

end Request

theorem Account.after_of_content (asks : request.content? = some content) :
    account.after a outcome request = match outcome with
      | .ok (some (.cell id)) => { account with held := insert id account.held }
      | _ => account := by
  cases request with
  | allocPair | allocSymbol | cons | symbol => rfl
  | _ => cases asks

/-! ### What a client can rely on -/

/-- What holds of an arena beside the account of its client. -/
structure Orderly (a : Arena) (account : Account) (ids : List Nat) : Prop where
  linked : a.Linked ids
  held : ∀ id ∈ account.held, a.Taken id
  all : account.tidy → ∀ id < a.capacity, ¬ a.Taken id → id ∈ ids

namespace Orderly

theorem congr (orderly : a.Orderly account ids) (size : b.capacity = a.capacity)
    (first : b.freeList = a.freeList) (count : b.freeCount = a.freeCount)
    (same : ∀ id next, b.cell id = .free next ↔ a.cell id = .free next) :
    b.Orderly account ids := by
  have taken : ∀ id, b.Taken id ↔ a.Taken id := fun id =>
    forall_congr' fun next => not_congr (same id next)
  refine ⟨orderly.linked.congr size first count fun id next => (same id next).2, ?_, ?_⟩
  · exact fun id member => (taken id).2 (orderly.held id member)
  · intro tidy id inside free
    exact orderly.all tidy id (size ▸ inside) fun taken' => free ((taken id).2 taken')

theorem alloc (orderly : a.Orderly account ids) (asks : request.content? = some content)
    (ran : request.perform.run a = (outcome, b)) :
    ∃ ids, b.Orderly (account.after a outcome request) ids := by
  have answers := Request.answers orderly.linked orderly.held asks
  rw [ran] at answers
  rw [Account.after_of_content asks]
  cases answers with
  | noRoom => exact ⟨_, orderly⟩
  | @cell id ids b _ fills later _ =>
    have free := Request.content_ne_free asks
    -- the cell that is handed out is in use now, and all others are as they were
    have taken : b.Taken id := fun next => by
      rw [fills.content]
      exact free next
    refine ⟨ids, later, ?_, ?_⟩
    · rintro other (rfl | member)
      · exact taken
      · intro next
        by_cases is : other = id
        · exact is ▸ taken next
        · rw [fills.others other is]
          exact orderly.held other member next
    · intro tidy other inside unused
      have ne : other ≠ id := by
        rintro rfl
        exact unused taken
      have member := orderly.all tidy other (fills.size ▸ inside) fun taken' =>
        unused fun next => fills.others other ne ▸ taken' next
      exact (List.mem_cons.1 member).resolve_left ne

theorem release (orderly : a.Orderly account ids) (taken : a.Taken id) :
    (a.release id).Orderly { account with held := account.held \ {id} } (id :: ids) := by
  refine ⟨orderly.linked.release taken, ?_, ?_⟩
  · rintro other ⟨member, ne⟩
    exact (taken_release_of_ne taken ne).2 (orderly.held other member)
  · intro tidy other inside free
    rw [capacity_release] at inside
    by_cases ne : other = id
    · exact ne ▸ List.mem_cons_self
    · refine List.mem_cons_of_mem _ (orderly.all tidy other inside fun taken' => free ?_)
      exact (taken_release_of_ne taken ne).2 taken'

theorem sweep (orderly : a.Orderly account ids) :
    a.sweep.Orderly ⟨{id ∈ account.held | a.marked id = true},
      ∀ id, a.marked id = true → a.Taken id⟩ (a.unmarkedBelow a.capacity) := by
  refine ⟨linked_sweep a, ?_, ?_⟩
  · rintro id ⟨member, marked⟩ next
    rw [cell_sweep marked]
    exact orderly.held id member next
  · intro tidy id inside free
    rw [capacity_sweep] at inside
    refine mem_unmarkedBelow.2 ⟨inside, ?_⟩
    rw [← Bool.not_eq_true]
    exact fun marked => free ((taken_sweep_iff (tidy id)).2 marked)

theorem step (orderly : a.Orderly account ids) (allowed : request.Allowed a)
    (ran : request.perform.run a = (outcome, b)) :
    ∃ ids, b.Orderly (account.after a outcome request) ids := by
  cases request with
  | allocPair | allocSymbol | cons | symbol => exact orderly.alloc rfl ran
  | release id =>
    cases ran
    exact ⟨_, orderly.release allowed⟩
  | setCar id head =>
    cases ran
    refine ⟨ids, orderly.congr (capacity_setCar ..) rfl rfl fun _ _ => cell_setCar_eq_free_iff⟩
  | setCdr id tail =>
    cases ran
    refine ⟨ids, orderly.congr (capacity_setCdr ..) rfl rfl fun _ _ => cell_setCdr_eq_free_iff⟩
  | mark root =>
    cases ran
    -- marks are not part of what is kept in order: only a sweep looks at them
    obtain ⟨first, count⟩ := chain_markFrom (2 * a.capacity + 1) [root] a
    refine ⟨ids, orderly.congr (capacity_mark ..) first count fun id next => ?_⟩
    exact Eq.congr_left (cell_mark ..)
  | sweep =>
    cases ran
    exact ⟨_, orderly.sweep⟩

end Orderly

/-! ### Several requests -/

namespace Request

variable {answers : List (Option Value)} {requests more : List Request}

theorem serve_cons (request : Request) (requests : List Request) (a : Arena) :
    (serve (request :: requests)).run a = match request.perform.run a with
      | (.ok answer, b) =>
        match (serve requests).run b with
        | (.ok answers, c) => (.ok (answer :: answers), c)
        | (.error fault, c) => (.error fault, c)
      | (.error fault, b) => (.error fault, b) := by
  simp only [serve, List.mapM_cons, run_bind]
  rcases request.perform.run a with ⟨_ | answer, b⟩
  · rfl
  · dsimp only
    rcases (requests.mapM perform).run b with ⟨_ | _, _⟩ <;> rfl

theorem serve_append (ran : (serve requests).run a = (.ok answers, b)) (more : List Request) :
    (serve (requests ++ more)).run a = match (serve more).run b with
      | (.ok others, c) => (.ok (answers ++ others), c)
      | (.error fault, c) => (.error fault, c) := by
  rw [serve] at ran
  simp only [serve, List.mapM_append, run_bind, ran]
  rcases (more.mapM perform).run b with ⟨_ | _, _⟩ <;> rfl

theorem serve_release {released : List Nat} (linked : a.Linked ids) (nodup : released.Nodup)
    (taken : ∀ id ∈ released, a.Taken id) :
    ∃ b, (serve (released.map release)).run a = (.ok (released.map fun _ => none), b) ∧
      b.Linked (released.reverse ++ ids) := by
  induction released generalizing a ids with
  | nil => exact ⟨a, rfl, linked⟩
  | cons id released ih =>
    obtain ⟨absent, nodup⟩ := List.nodup_cons.1 nodup
    have first : a.Taken id := taken id List.mem_cons_self
    have others : ∀ other ∈ released, (a.release id).Taken other := by
      intro other member
      have ne : other ≠ id := fun is => absent (is ▸ member)
      exact (taken_release_of_ne first ne).2 (taken other (List.mem_cons_of_mem _ member))
    obtain ⟨b, ran, later⟩ := ih (linked.release first) nodup others
    have step : (release id).perform.run a = (.ok none, a.release id) := rfl
    refine ⟨b, ?_, ?_⟩
    · rw [List.map_cons, serve_cons, step]
      simp only [ran, List.map_cons]
    · rwa [List.reverse_cons, List.append_assoc, List.singleton_append]

theorem serve_alloc (linked : a.Linked (ids ++ rest)) (enough : requests.length = ids.length)
    (ask : ∀ request ∈ requests, request.content?.isSome) :
    ∃ b, (serve requests).run a = (.ok (ids.map fun id => some (.cell id)), b) ∧
      b.Linked rest := by
  induction ids generalizing a requests with
  | nil =>
    obtain rfl := List.length_eq_zero_iff.1 enough
    exact ⟨a, rfl, linked⟩
  | cons id ids ih =>
    cases requests with
    | nil => cases enough
    | cons request requests =>
      obtain ⟨content, asks⟩ := Option.isSome_iff_exists.1 (ask request List.mem_cons_self)
      obtain ⟨b, taken, -, later⟩ := linked.take content
      have ask' : ∀ other ∈ requests, other.content?.isSome := fun other member =>
        ask other (List.mem_cons_of_mem _ member)
      obtain ⟨c, ran, end'⟩ := ih later (Nat.succ.inj enough) ask'
      refine ⟨c, ?_, end'⟩
      rw [serve_cons, perform_run asks, taken]
      simp only [ran, List.map_cons]

theorem capacity_take (content : Cell) (a : Arena) :
    ((take content).run a).2.capacity = a.capacity := by
  obtain ⟨slots, _ | id, count⟩ := a
  · rfl
  · exact Array.size_setIfInBounds

theorem capacity_perform (request : Request) (a : Arena) :
    (request.perform.run a).2.capacity = a.capacity := by
  have asking : ∀ content, request.content? = some content →
      (request.perform.run a).2.capacity = a.capacity := by
    intro content asks
    rw [perform_run asks, ← capacity_take content a]
    rcases (take content).run a with ⟨_ | _, _⟩ <;> rfl
  cases request with
  | allocPair | allocSymbol | cons | symbol => exact asking _ rfl
  | release id => exact capacity_release ..
  | setCar id head => exact capacity_setCar ..
  | setCdr id tail => exact capacity_setCdr ..
  | mark root => exact capacity_mark ..
  | sweep => exact capacity_sweep ..

end Request

/-! ### The client's whole life -/

/-- What a client can rely on at any time, where `ids` is the chain. -/
structure Serves (size : Nat) (a : Arena) (account : Account) (ids : List Nat) : Prop where
  linked : a.Linked ids
  count : a.freeCount + a.liveCount = size
  all : account.tidy → ∀ id < size, ¬ a.Taken id → id ∈ ids
  answers : ∀ (request : Request) content, request.content? = some content →
    Request.Answers a account content ids (request.perform.run a)
  /-- What is released is handed out again, the last one first. -/
  reverse : ∀ (released : List Nat) (requests : List Request), released.Nodup →
    (∀ id ∈ released, a.Taken id) → requests.length = released.length →
    (∀ request ∈ requests, request.content?.isSome) →
    ∃ b, (Request.serve (released.map .release ++ requests)).run a =
      (.ok (released.map (fun _ => none) ++ released.reverse.map fun id => some (.cell id)), b)

theorem serves_of_orderly (orderly : a.Orderly account ids) : Serves a.capacity a account ids where
  linked := orderly.linked
  count := by
    have le := orderly.linked.freeCount_le
    rw [liveCount]
    omega
  all := orderly.all
  answers _ _ asks := Request.answers orderly.linked orderly.held asks
  reverse := by
    intro released requests nodup taken enough ask
    obtain ⟨b, ran, linked⟩ := Request.serve_release orderly.linked nodup taken
    have enough' : requests.length = released.reverse.length := by simpa using enough
    obtain ⟨c, ran', -⟩ := Request.serve_alloc linked enough' ask
    refine ⟨c, ?_⟩
    rw [Request.serve_append ran, ran']

theorem Client.orderly (client : Client size a account) :
    (∃ ids, a.Orderly account ids) ∧ a.capacity = size := by
  induction client with
  | new =>
    have size' : (Arena.new size).capacity = size := by
      rw [Arena.new, capacity_sweep]
      exact Array.size_replicate
    obtain ⟨ids, list⟩ := (sound_new size).list
    exact ⟨⟨ids, list.linked, fun _ => False.elim, fun _ => list.all⟩, size'⟩
  | @request a b account request outcome _ allowed ran ih =>
    obtain ⟨⟨ids, orderly⟩, size'⟩ := ih
    refine ⟨orderly.step allowed ran, ?_⟩
    have same := Request.capacity_perform request a
    rw [ran] at same
    exact same.trans size'

/-- Whatever a client did, the arena has a chain that serves it. -/
theorem Client.serves (client : Client size a account) : ∃ ids, Serves size a account ids := by
  obtain ⟨⟨ids, orderly⟩, rfl⟩ := client.orderly
  exact ⟨ids, serves_of_orderly orderly⟩

/-- A pair that refers to a free cell is marked, and the free cell with it. The sweep leaves both, and
the free cell is not in the chain. -/
theorem serves_stray_mark : ∃ a account, Client 3 a account ∧ Serves 3 a account [2] ∧
    ¬ a.Taken 1 := by
  have pair : Client 3 _ _ := Client.new.ask (.allocPair .nil (.cell 1)) trivial
  have swept := (pair.ask (.mark (.cell 0)) trivial).ask .sweep trivial
  obtain ⟨ids, serves⟩ := Client.serves swept
  have only : ids = [2] :=
    serves.linked.chain.unique (.cons (by decide +kernel) (by decide +kernel) .nil)
  refine ⟨_, _, swept, only ▸ serves, not_taken_iff.2 ⟨.cell 2, ?_⟩⟩
  decide +kernel

end ArenaLisp.Arena
