import ArenaLisp.Proofs.Arena.Storing
import ArenaLisp.Proofs.Machine.Collection
import ArenaLisp.Proofs.Machine.Firmness

/-!
# The steps between stages

Everything that an evaluation does to a machine is one of a few things: a collection, cells that are
taken, a tail that is written, a binding or a protected value put in front of a list, a protected
value let go of. Each leads to another stage. A call works in an environment of its own, and what is
a stage for that environment is one for the caller's (`Stage.leave`).
-/

namespace ArenaLisp.Machine

open Arena

variable {m n : Machine} {held : Set Value} {list env form v : Value} {id : Nat} {b c : Arena}

/-! ### Changes of cells -/

section

variable (ready : m.Ready held) (kept : ∀ id, m.Firm held id → b.cell id = m.arena.cell id ∨
  m.Binding held id ∧ ∃ tail, b.cell id = (m.arena.cell id).withTail tail)
include ready kept

theorem Ready.taken_of_kept (firm : m.Firm held id) : b.Taken id := by
  intro next
  have taken := firm.taken ready.sound
  rcases kept id firm with same | ⟨-, tail, same⟩
  · rw [same]
    exact taken next
  · rw [same]
    cases content : m.arena.cell id with
    | pair => simp [Cell.withTail]
    | symbol => simp [Cell.withTail]
    | free next' => exact absurd content (taken next')

theorem Ready.live_of_kept (listed : m.Listed held list) : b.Live list := by
  rintro id rfl
  exact ready.taken_of_kept kept (ready.firm_along listed (.here id))

end

/-- A change of cells that spares the firm ones, but for the tails of bindings, leads to another
stage. -/
theorem Ready.stage_of_kept (ready : m.Ready held) (tee : n.tee = m.tee) (globe : n.globe = m.globe)
    (stack : n.stack = m.stack) (sound : n.arena.Sound)
    (size : n.arena.capacity = m.arena.capacity)
    (kept : ∀ id, m.Firm held id → n.arena.cell id = m.arena.cell id ∨
      m.Binding held id ∧ ∃ tail, n.arena.cell id = (m.arena.cell id).withTail tail) :
    m.Stage held n := by
  have onList : ∀ {list id}, m.Listed held list →
      (n.arena.OnList list id ↔ m.arena.OnList list id) := fun listed =>
    onList_congr fun _ along => ready.same_of_kept kept listed along
  have element : ∀ {list v}, m.Listed held list →
      (n.arena.Element list v ↔ m.arena.Element list v) := fun listed =>
    element_congr fun _ along => ready.same_of_kept kept listed along
  have listed : ∀ {list}, n.Listed held list → m.Listed held list := by
    intro list listed
    rwa [Listed, globe, stack] at listed
  have binding : ∀ {id}, n.Binding held id → m.Binding held id := by
    rintro id (global | ⟨env, member, here⟩)
    · rw [globe] at global
      exact .inl ((element (.inl rfl)).1 global)
    · exact .inr ⟨env, member, (element (.inr (.inr member))).1 here⟩
  refine ⟨⟨sound, ?_, ?_, ?_⟩, ?_, tee, size, kept, ?_, ?_, ?_, ?_, ?_⟩
  · obtain ⟨id, same, symbol⟩ := symbol?_eq_some_iff.1 ready.sound.tee
    refine symbol?_eq_some_iff.2 ⟨id, tee.trans same, ?_⟩
    rcases kept id ⟨m.tee, by simp, same ▸ .here id⟩ with unchanged | ⟨-, tail, unchanged⟩
    · rw [unchanged, symbol]
    · simp [unchanged, symbol, Cell.withTail]
  · rw [globe]
    exact ready.live_of_kept kept (.inl rfl)
  · rw [stack]
    exact ready.live_of_kept kept (.inr (.inl rfl))
  · intro list listed' id on bound
    exact ready.proper list (listed listed') id ((onList (listed listed')).1 on) (binding bound)
  · rw [globe]
    exact .refl
  · rw [stack]
    exact .refl
  · intro id _ on
    rw [globe] at on
    exact (onList (.inl rfl)).1 on
  · intro id _ on
    rw [stack] at on
    exact (onList (.inr (.inl rfl))).1 on
  · intro id _ global
    rw [globe] at global
    exact (element (.inl rfl)).1 global

theorem Ready.stage_grows (ready : m.Ready held) (grows : m.arena.Grows b) :
    m.Stage held { m with arena := b } :=
  ready.stage_of_kept rfl rfl rfl grows.sound grows.extends'.size fun _ firm =>
    .inl (grows.extends'.kept _ (firm.taken ready.sound))

theorem Ready.stage_setCdr (ready : m.Ready held) (binding : m.Binding held id)
    (live : m.arena.Live v) : m.Stage held { m with arena := m.arena.setCdr id v } := by
  refine ready.stage_of_kept rfl rfl rfl (ready.sound.arena.setCdr live id)
    (capacity_setCdr ..) fun other _ => ?_
  show (m.arena.setCdr id v).cell other = _ ∨ _
  by_cases same : other = id
  · subst same
    exact .inr ⟨binding, v, by simp [cell_setCdr]⟩
  · exact .inl (cell_setCdr_of_ne same)

theorem Ready.stage_same (ready : m.Ready held) (arena : n.arena = m.arena) (tee : n.tee = m.tee)
    (globe : n.globe = m.globe) (stack : n.stack = m.stack) : m.Stage held n :=
  ready.stage_of_kept tee globe stack (arena ▸ ready.sound.arena) (by rw [arena]) fun _ _ =>
    .inl (by rw [arena])

/-! ### Collections -/

theorem Sound.taken_of_reachable (sound : m.Sound) (live : m.arena.Live form) (liveEnv : m.arena.Live env)
    (h : m.Reachable form env id) : m.arena.Taken id := by
  obtain ⟨root, member, path⟩ := h
  simp only [List.mem_cons, List.not_mem_nil, or_false] at member
  have liveRoot : m.arena.Live root := by
    obtain rfl | rfl | rfl | rfl | rfl := member
    · exact sound.live_tee
    · exact sound.globe
    · exact sound.stack
    · exact live
    · exact liveEnv
  exact sound.arena.taken_of_reaches liveRoot path

section

variable (sound : m.Sound) (live : m.arena.Live form) (liveEnv : m.arena.Live env)
include sound live liveEnv

theorem Sound.arena_collect : (m.collect form env).arena.Sound where
  plain := marked_collect _ _
  chain := by
    have held : ∀ id, m.Reachable form env id → m.arena.Taken id := fun _ =>
      sound.taken_of_reachable live liveEnv
    obtain ⟨ids, chain, count, sorted, members⟩ := chain_collect sound.arena.plain held
    refine ⟨ids, chain, sorted.nodup, fun id inside free => (members id).2 ⟨?_, ?_⟩, count⟩
    · rwa [Machine.arena_collect, capacity_collect] at inside
    · exact fun reached => free ((taken_collect_iff sound.arena.plain held).2 reached)
  closed id head tail pair := by
    have held : ∀ id, m.Reachable form env id → m.arena.Taken id := fun _ =>
      sound.taken_of_reachable live liveEnv
    have taken : ∀ id, (m.collect form env).arena.Taken id ↔ m.Reachable form env id := fun _ =>
      taken_collect_iff sound.arena.plain held
    obtain ⟨root, member, path⟩ := (taken id).1 (taken_of_pair pair)
    have old : m.arena.cell id = .pair head tail :=
      (cell_collect sound.arena.plain held ⟨root, member, path⟩).symm.trans pair
    constructor
    · rintro id' rfl
      exact (taken id').2 ⟨root, member, path.thenHead old (.here _)⟩
    · rintro id' rfl
      exact (taken id').2 ⟨root, member, path.thenTail old not_false (.here _)⟩

theorem Sound.live_collect {root : Value} (member : root ∈ [m.tee, m.globe, m.stack, form, env]) :
    (m.collect form env).arena.Live root := by
  rintro id rfl
  exact (taken_collect_iff sound.arena.plain fun _ reached =>
    sound.taken_of_reachable live liveEnv reached).2 ⟨_, member, .here id⟩

end

theorem Ready.stage_collect (ready : m.Ready held) (live : m.arena.Live form)
    (liveEnv : m.arena.Live env) : m.Stage held (m.collect form env) := by
  refine ready.stage_of_kept rfl rfl rfl (ready.sound.arena_collect live liveEnv)
    (capacity_collect ..) fun id firm => .inl ?_
  obtain ⟨root, member, path⟩ := firm
  have reached : m.Reachable form env id := by
    simp only [List.mem_cons, List.not_mem_nil, or_false] at member
    exact ⟨root, by simp; tauto, path.reaches⟩
  exact cell_collect ready.sound.arena.plain (fun _ reached =>
    ready.sound.taken_of_reachable live liveEnv reached) reached

/-! ### Lists -/

section

variable (unlisted : ∀ list, n.Listed held list → ¬ n.arena.OnList list id)
include unlisted

theorem same_setCdr {other : Nat} (listed : n.Listed held list)
    (along : n.arena.Along list other) :
    (n.arena.setCdr id v).cell other = n.arena.cell other :=
  along.setCdr (unlisted list listed)

theorem binding_setCdr {other : Nat}
    (bound : Binding { n with arena := n.arena.setCdr id v } held other) :
    n.Binding held other := by
  rcases bound with global | ⟨env, member, here⟩
  · exact .inl ((element_congr fun _ along => same_setCdr unlisted (.inl rfl) along).1 global)
  · refine .inr ⟨env, member, ?_⟩
    exact (element_congr fun _ along => same_setCdr unlisted (.inr (.inr member)) along).1 here

theorem Stage.append (stage : m.Stage held n) (young : ¬ m.Firm held id) (live : n.arena.Live v) :
    m.Stage held { n with arena := n.arena.setCdr id v } := by
  have onList : ∀ {list other}, n.Listed held list →
      ((n.arena.setCdr id v).OnList list other ↔ n.arena.OnList list other) := fun listed =>
    onList_congr fun _ along => same_setCdr unlisted listed along
  have keep : ∀ w, n.arena.Live w → (n.arena.setCdr id v).Live w := fun w live other is =>
    taken_setCdr.2 (live other is)
  have e := stage.evolves
  refine ⟨⟨stage.sound.arena.setCdr live id, ?_, keep _ stage.sound.globe, keep _ stage.sound.stack⟩,
    ?_, e.tee, (capacity_setCdr ..).trans e.size, ?_,
    e.globe.congr fun _ along => same_setCdr unlisted (.inl rfl) along,
    e.stack.congr fun _ along => same_setCdr unlisted (.inr (.inl rfl)) along, ?_, ?_, ?_⟩
  · obtain ⟨other, is, symbol⟩ := symbol?_eq_some_iff.1 stage.sound.tee
    refine symbol?_eq_some_iff.2 ⟨other, is, ?_⟩
    show (n.arena.setCdr id v).cell other = _
    rw [cell_setCdr]
    split
    · rename_i same
      subst same
      simp [symbol, Cell.withTail]
    · exact symbol
  · intro list listed other on bound
    exact stage.proper list listed other ((onList listed).1 on)
      (binding_setCdr unlisted bound)
  · intro other firm
    have ne : other ≠ id := by
      rintro rfl
      exact young firm
    show (n.arena.setCdr id v).cell other = _ ∨ _ ∧ ∃ tail, (n.arena.setCdr id v).cell other = _
    rw [cell_setCdr_of_ne ne]
    exact e.kept other firm
  · exact fun other firm on => e.oldGlobe other firm ((onList (.inl rfl)).1 on)
  · exact fun other firm on => e.oldStack other firm ((onList (.inr (.inl rfl))).1 on)
  · exact fun other firm on => e.oldBinding other firm
      ((element_congr fun _ along => same_setCdr unlisted (.inl rfl) along).1 on)

end

theorem Ready.stage_protect (ready : m.Ready held) (live : m.arena.Live v)
    (took : m.arena.TookCell (.pair v m.stack) id b) :
    m.Stage held { m with arena := b, stack := .cell id } := by
  have standing := ready.standing.protect live took
  have e := (ready.stage_grows took.grows).evolves
  refine ⟨standing.sound, standing.proper, e.tee, e.size, e.kept, e.globe,
    .next took.content e.stack, e.oldGlobe, ?_, e.oldBinding⟩
  intro other firm on
  rcases (onList_cons_iff took.content).1 on with rfl | on
  · exact absurd (firm.taken ready.sound) took.fresh
  · exact e.oldStack other firm on

theorem Ready.stage_define {var val : Value} (ready : m.Ready held) (var' : m.arena.Live var)
    (val' : m.arena.Live val) (bound : m.arena.BoundOn var val m.globe v b) :
    m.Stage held { m with arena := b, globe := v } := by
  have standing := ready.standing.define var' val' bound
  have e := (ready.stage_grows bound.grows).evolves
  obtain ⟨entry, mid, cell, first, second, rfl⟩ := bound
  refine ⟨standing.sound, standing.proper, e.tee, e.size, e.kept, .next second.content e.globe,
    e.stack, ?_, e.oldStack, ?_⟩
  · intro other firm on
    rcases (onList_cons_iff second.content).1 on with rfl | on
    · exact absurd (first.extends.taken (firm.taken ready.sound)) second.fresh
    · exact e.oldGlobe other firm on
  · intro other firm element
    rcases (element_cons_iff second.content).1 element with same | element
    · cases same
      exact absurd (firm.taken ready.sound) first.fresh
    · exact e.oldBinding other firm element

/-- Letting go of protected values leads on from a stage to another, as long as those are kept that
were protected at first. -/
theorem Stage.pop {rest : Value} (ready : m.Ready held) (stage : m.Stage held n)
    (first : n.arena.Suffix m.stack rest) (rest' : n.arena.Suffix rest n.stack) :
    m.Stage held { n with stack := rest } := by
  have standing := (stage.ready ready).standing.pop rest'
  have e := stage.evolves
  exact ⟨standing.sound, standing.proper, e.tee, e.size, e.kept, e.globe, first, e.oldGlobe,
    fun id firm on => e.oldStack id firm (on.of_suffix rest'), e.oldBinding⟩

/-! ### Environments of calls -/

/-- The machine in which the body of a function is evaluated: its environment is protected. -/
def inside (m : Machine) (c : Arena) (id : Nat) : Machine :=
  { m with arena := c, stack := .cell id }

section

variable {inner : Value} (ready : m.Ready held) (grows : m.arena.Grows b)
  (layers : m.arena.Layered b env inner) (took : b.TookCell (.pair inner m.stack) id c)
include ready grows layers took

theorem Ready.stage_inside : m.Stage held (m.inside c id) := by
  have grown := ready.stage_grows grows
  exact grown.trans ready ((grown.ready ready).stage_protect layers.live took)

variable (member : env ∈ held)
include member

/-- A firm cell is no binding of the function's environment but of the caller's. -/
theorem Ready.binding_inside {other : Nat} (old : m.arena.Taken other)
    (binding : (m.inside c id).Binding (insert inner held) other) : m.Binding held other := by
  have e := (ready.stage_inside grows layers took).evolves
  have outer : ∀ {list}, m.Listed held list → c.Element list (.cell other) →
      m.arena.Element list (.cell other) := fun listed => (e.element_iff ready listed).1
  rcases binding with global | ⟨env', rfl | member', here⟩
  · exact .inl (outer (.inl rfl) global)
  · have here : b.Element env' (.cell other) :=
      (took.extends.element_iff grows.sound layers.live).1 here
    rcases layers.elements other here with here | fresh
    · refine .inr ⟨env, member, ?_⟩
      exact (grows.extends'.element_iff ready.sound.arena (ready.live member)).1 here
    · exact absurd old fresh
  · exact .inr ⟨env', member', outer (.inr (.inr member')) here⟩

theorem Ready.ready_inside : (m.inside c id).Ready (insert inner held) := by
  have e := (ready.stage_inside grows layers took).evolves
  have standing := (ready.standing.layer member grows layers).protect layers.live took
  refine ⟨standing.sound, standing.proper, ?_⟩
  rintro env' (rfl | member')
  · exact .inr ((element_cons_iff took.content).2 (.inl rfl))
  · exact e.holds ready member'

theorem Ready.firm_inside {other : Nat} (firm : m.Firm held other) :
    (m.inside c id).Firm (insert inner held) other := by
  have e := (ready.stage_inside grows layers took).evolves
  have ready' := ready.ready_inside grows layers took member
  obtain ⟨root, among, path⟩ := firm
  have there := path.transfer (fun _ on => e.kept _ ⟨root, among, on⟩) fun _ on =>
    ready.binding_inside grows layers took member (Firm.taken ready.sound ⟨root, among, on⟩)
  simp only [List.mem_cons, List.not_mem_nil, or_false] at among
  obtain rfl | rfl | rfl := among
  · exact ⟨m.tee, by simp [inside], there⟩
  · exact ⟨m.globe, by simp [inside], there⟩
  · refine ⟨.cell id, by simp [inside], ?_⟩
    exact e.stack.path (ready'.proper _ (.inr (.inl rfl))) there

theorem Ready.stage_leave (stage : (m.inside c id).Stage (insert inner held) n) :
    m.Stage held n := by
  have entered := ready.stage_inside grows layers took
  have ready' := ready.ready_inside grows layers took member
  have e := entered.evolves
  have e' := stage.evolves
  have firm : ∀ {other}, m.Firm held other → (m.inside c id).Firm (insert inner held) other :=
    fun firm => ready.firm_inside grows layers took member firm
  have taken : ∀ {other}, m.Firm held other → m.arena.Taken other := fun firm =>
    firm.taken ready.sound
  have cells : ∀ {other}, m.Firm held other → c.cell other = m.arena.cell other := fun firm =>
    (grows.extends'.trans took.extends).kept _ (taken firm)
  have binding : ∀ {other}, n.Binding held other → n.Binding (insert inner held) other := by
    rintro other (global | ⟨env', member', here⟩)
    · exact .inl global
    · exact .inr ⟨env', .inr member', here⟩
  refine ⟨stage.sound, ?_, e'.tee, e'.size.trans e.size, ?_, e'.globe, ?_,
    ?_, ?_, ?_⟩
  · rintro list listed other on bound
    exact stage.proper list (listed.imp_right (Or.imp_right .inr)) other on (binding bound)
  · intro other firm'
    rw [← cells firm']
    refine (e'.kept other (firm firm')).imp_right (And.imp_left fun bound => ?_)
    exact ready.binding_inside grows layers took member (taken firm') bound
  · exact (e.stack.congr fun _ along => e'.same ready' (.inr (.inl rfl)) along).trans e'.stack
  · exact fun other firm' on => e.oldGlobe other firm' (e'.oldGlobe other (firm firm') on)
  · exact fun other firm' on => e.oldStack other firm' (e'.oldStack other (firm firm') on)
  · exact fun other firm' on => e.oldBinding other firm' (e'.oldBinding other (firm firm') on)

end

end ArenaLisp.Machine
