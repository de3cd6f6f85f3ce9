import ArenaLisp.Proofs.Machine.Standing

/-!
# What an evaluation leaves alone

An evaluation rewrites the tails of bindings, those of the global environment and of the
environments in use, and frees whatever no register reaches. So what is certain to stay is what the
registers reach without going through the tail of a binding: the firm cells. They include the list
cells, the bindings and the names of every environment in use, since no list cell is a binding
itself. That nothing but the tails of bindings changes among them (`Evolves`) holds of one
evaluation after another (`Stage.trans`).
-/

namespace ArenaLisp

namespace Arena

variable {a : Arena} {off : Nat → Prop} {rest list : Value} {id : Nat}

theorem Suffix.path (h : a.Suffix rest list) (on : ∀ id, a.OnList list id → ¬ off id)
    (path : a.Path off rest id) : a.Path off list id := by
  induction h with
  | refl => exact path
  | next pair _ ih =>
    exact .tail pair (on _ (.here pair)) (ih fun id on' => on id (.next pair on'))

end Arena

namespace Machine

/-- A cell that a register reaches without going through the tail of a binding. -/
def Firm (m : Machine) (held : Set Value) (id : Nat) : Prop :=
  ∃ root ∈ [m.tee, m.globe, m.stack], m.arena.Path (m.Binding held) root id

/-- A machine on which an evaluation in any of some environments can start. -/
structure Ready (m : Machine) (held : Set Value) : Prop where
  sound : m.Sound
  proper : m.Proper held
  holds : ∀ env ∈ held, env = .nil ∨ m.arena.Element m.stack env

/-- A later state of a machine, as far as the environments in use are concerned. -/
structure Evolves (m : Machine) (held : Set Value) (n : Machine) : Prop where
  tee : n.tee = m.tee
  size : n.arena.capacity = m.arena.capacity
  /-- Of the firm cells only bindings change, and of these only the tail. -/
  kept : ∀ id, m.Firm held id → n.arena.cell id = m.arena.cell id ∨
    m.Binding held id ∧ ∃ tail, n.arena.cell id = (m.arena.cell id).withTail tail
  globe : n.arena.Suffix m.globe n.globe
  stack : n.arena.Suffix m.stack n.stack
  oldGlobe : ∀ id, m.Firm held id → n.arena.OnList n.globe id → m.arena.OnList m.globe id
  oldStack : ∀ id, m.Firm held id → n.arena.OnList n.stack id → m.arena.OnList m.stack id
  oldBinding : ∀ id, m.Firm held id → n.arena.Element n.globe (.cell id) →
    m.arena.Element m.globe (.cell id)

/-- A later state of a machine on which evaluations can go on. -/
structure Stage (m : Machine) (held : Set Value) (n : Machine) : Prop where
  sound : n.Sound
  proper : n.Proper held
  evolves : m.Evolves held n

variable {m n k : Machine} {held : Set Value} {list env v : Value} {id target : Nat}

theorem Firm.taken (sound : m.Sound) (firm : m.Firm held id) : m.arena.Taken id := by
  obtain ⟨root, member, path⟩ := firm
  exact sound.arena.taken_of_reaches (sound.root member) path.reaches

theorem Firm.trans (firm : m.Firm held id)
    (path : m.arena.Path (m.Binding held) (.cell id) target) : m.Firm held target := by
  obtain ⟨root, member, path'⟩ := firm
  exact ⟨root, member, path'.trans path⟩

namespace Ready

variable (ready : m.Ready held)
include ready

theorem live (member : env ∈ held) : m.arena.Live env := by
  rcases ready.holds env member with rfl | element
  · exact Arena.live_nil _
  · exact element.live ready.sound.arena

theorem standing : m.Standing held :=
  ⟨ready.sound, ready.proper, fun _ member => ready.live member⟩

theorem firm_path (listed : m.Listed held list)
    (path : m.arena.Path (m.Binding held) list id) : m.Firm held id := by
  rcases listed with rfl | rfl | member
  · exact ⟨m.globe, by simp, path⟩
  · exact ⟨m.stack, by simp, path⟩
  · rcases ready.holds list member with rfl | element
    · exact absurd path Arena.not_path_nil
    · exact ⟨m.stack, by simp, element.path (ready.proper _ (.inr (.inl rfl))) path⟩

theorem firm_along (listed : m.Listed held list) (along : m.arena.Along list id) :
    m.Firm held id :=
  ready.firm_path listed (along.path (ready.proper list listed))

theorem firm_element (listed : m.Listed held list) (element : m.arena.Element list (.cell id)) :
    m.Firm held id :=
  ready.firm_path listed (element.path (ready.proper list listed) (.here id))

/-- No list cell is a binding, so the cells along a list change least of all. -/
theorem same_of_kept {b : Arena} (kept : ∀ id, m.Firm held id → b.cell id = m.arena.cell id ∨
      m.Binding held id ∧ ∃ tail, b.cell id = (m.arena.cell id).withTail tail)
    (listed : m.Listed held list) (along : m.arena.Along list id) :
    b.cell id = m.arena.cell id := by
  rcases kept id (ready.firm_along listed along) with same | ⟨binding, tail, same⟩
  · exact same
  · rcases along.onList_or with on | unchanged
    · exact absurd binding (ready.proper list listed id on)
    · rw [same, unchanged]

end Ready

namespace Evolves

section

variable (ready : m.Ready held) (evolves : m.Evolves held n)
include ready evolves

theorem same (listed : m.Listed held list) (along : m.arena.Along list id) :
    n.arena.cell id = m.arena.cell id :=
  ready.same_of_kept evolves.kept listed along

theorem onList_iff (listed : m.Listed held list) :
    n.arena.OnList list id ↔ m.arena.OnList list id :=
  Arena.onList_congr fun _ along => evolves.same ready listed along

theorem element_iff (listed : m.Listed held list) :
    n.arena.Element list v ↔ m.arena.Element list v :=
  Arena.element_congr fun _ along => evolves.same ready listed along

theorem oldBinding' (firm : m.Firm held id) (binding : n.Binding held id) : m.Binding held id := by
  rcases binding with element | ⟨env, member, element⟩
  · exact .inl (evolves.oldBinding id firm element)
  · exact .inr ⟨env, member, (evolves.element_iff ready (.inr (.inr member))).1 element⟩

theorem holds (member : env ∈ held) : env = .nil ∨ n.arena.Element n.stack env := by
  refine (ready.holds env member).imp_right fun element => ?_
  exact ((evolves.element_iff ready (.inr (.inl rfl))).2 element).of_suffix evolves.stack

end

theorem firm (ready : m.Ready held) (evolves : m.Evolves held n) (proper : n.Proper held)
    (firm : m.Firm held id) : n.Firm held id := by
  obtain ⟨root, member, path⟩ := firm
  have there := path.transfer (fun id on => evolves.kept id ⟨root, member, on⟩)
    fun id on => evolves.oldBinding' ready ⟨root, member, on⟩
  simp only [List.mem_cons, List.not_mem_nil, or_false] at member
  obtain rfl | rfl | rfl := member
  · exact ⟨n.tee, by simp, evolves.tee ▸ there⟩
  · exact ⟨n.globe, by simp, evolves.globe.path (proper _ (.inl rfl)) there⟩
  · exact ⟨n.stack, by simp, evolves.stack.path (proper _ (.inr (.inl rfl))) there⟩

theorem refl (m : Machine) (held : Set Value) : m.Evolves held m where
  tee := rfl
  size := rfl
  kept _ _ := .inl rfl
  globe := .refl
  stack := .refl
  oldGlobe _ _ on := on
  oldStack _ _ on := on
  oldBinding _ _ element := element

end Evolves

namespace Stage

theorem refl (ready : m.Ready held) : m.Stage held m :=
  ⟨ready.sound, ready.proper, .refl m held⟩

theorem ready (ready : m.Ready held) (stage : m.Stage held n) : n.Ready held :=
  ⟨stage.sound, stage.proper, fun _ member => stage.evolves.holds ready member⟩

theorem firm (ready : m.Ready held) (stage : m.Stage held n) (firm : m.Firm held id) :
    n.Firm held id :=
  stage.evolves.firm ready stage.proper firm

theorem trans (ready : m.Ready held) (first : m.Stage held n) (second : n.Stage held k) :
    m.Stage held k := by
  have ready' := first.ready ready
  have e := first.evolves
  have e' := second.evolves
  have globe : k.arena.Suffix m.globe n.globe :=
    e.globe.congr fun _ along => e'.same ready' (.inl rfl) along
  have stack : k.arena.Suffix m.stack n.stack :=
    e.stack.congr fun _ along => e'.same ready' (.inr (.inl rfl)) along
  refine ⟨second.sound, second.proper, e'.tee.trans e.tee, e'.size.trans e.size,
    ?_, globe.trans e'.globe,
    stack.trans e'.stack, ?_, ?_, ?_⟩
  · intro id firm
    rcases e'.kept id (first.firm ready firm) with same | ⟨binding, tail, same⟩
    · rw [same]
      exact e.kept id firm
    · have old := e.oldBinding' ready firm binding
      refine .inr ⟨old, tail, ?_⟩
      rcases e.kept id firm with same' | ⟨-, tail', same'⟩
      · rw [same, same']
      · rw [same, same']
        cases m.arena.cell id <;> rfl
  · exact fun id firm on => e.oldGlobe id firm (e'.oldGlobe id (first.firm ready firm) on)
  · exact fun id firm on => e.oldStack id firm (e'.oldStack id (first.firm ready firm) on)
  · exact fun id firm on => e.oldBinding id firm (e'.oldBinding id (first.firm ready firm) on)

end Stage

end Machine

end ArenaLisp
