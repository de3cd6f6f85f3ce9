import Mathlib.Data.Set.Insert
import ArenaLisp.Machine.Basic
import ArenaLisp.Proofs.Arena.Storing

/-!
# Machines in good standing

What holds of a machine between its steps: its arena is sound, its registers are live, and no list
cell of an environment or of the stack is a binding (`Proper`), so that no assignment can redirect a
list. Taking cells, and putting new ones in front of the lists, keeps all this (`Standing.extend`).
-/

namespace ArenaLisp.Machine

open Arena

/-- What holds of the arena and the registers whenever no collection is under way. -/
structure Sound (m : Machine) : Prop where
  arena : m.arena.Sound
  tee : m.arena.symbol? m.tee = some Symbol.tee
  globe : m.arena.Live m.globe
  stack : m.arena.Live m.stack

/-- A binding of the global environment or of one in use. -/
def Binding (m : Machine) (held : Set Value) (id : Nat) : Prop :=
  m.arena.Element m.globe (.cell id) ∨ ∃ env ∈ held, m.arena.Element env (.cell id)

/-- The lists that a machine depends on. -/
def Listed (m : Machine) (held : Set Value) (list : Value) : Prop :=
  list = m.globe ∨ list = m.stack ∨ list ∈ held

/-- No list cell of an environment or of the stack is a binding. -/
def Proper (m : Machine) (held : Set Value) : Prop :=
  ∀ list, m.Listed held list → ∀ id, m.arena.OnList list id → ¬ m.Binding held id

/-- A machine and environments that can be in use. -/
structure Standing (m : Machine) (held : Set Value) : Prop where
  sound : m.Sound
  proper : m.Proper held
  live : ∀ env ∈ held, m.arena.Live env

variable {m n : Machine} {held held' : Set Value} {list env inner v : Value} {id top : Nat}
  {b : Arena}

theorem Sound.live_tee (sound : m.Sound) : m.arena.Live m.tee := by
  obtain ⟨id, same, symbol⟩ := symbol?_eq_some_iff.1 sound.tee
  rw [same, live_cell_iff]
  exact taken_of_symbol symbol

theorem Sound.root (sound : m.Sound) {root : Value} (member : root ∈ [m.tee, m.globe, m.stack]) :
    m.arena.Live root := by
  simp only [List.mem_cons, List.not_mem_nil, or_false] at member
  obtain rfl | rfl | rfl := member
  · exact sound.live_tee
  · exact sound.globe
  · exact sound.stack

theorem Sound.grows (sound : m.Sound) (grows : m.arena.Grows b) : Sound { m with arena := b } where
  arena := grows.sound
  tee := by
    obtain ⟨id, same, symbol⟩ := symbol?_eq_some_iff.1 sound.tee
    refine symbol?_eq_some_iff.2 ⟨id, same, ?_⟩
    exact (grows.extends'.kept id (taken_of_symbol symbol)).trans symbol
  globe := grows.extends'.live sound.globe
  stack := grows.extends'.live sound.stack

namespace Standing

theorem mono (standing : m.Standing held) (sub : held' ⊆ held) : m.Standing held' := by
  refine ⟨standing.sound, ?_, fun env member => standing.live env (sub member)⟩
  rintro list listed id on binding
  refine standing.proper list (listed.imp_right (Or.imp_right fun h => sub h)) id on ?_
  obtain isGlobal | ⟨env, member, element⟩ := binding
  · exact .inl isGlobal
  · exact .inr ⟨env, sub member, element⟩

section

variable (standing : m.Standing held)
include standing

theorem listed (listed : m.Listed held list) : m.arena.Live list := by
  rcases listed with rfl | rfl | member
  · exact standing.sound.globe
  · exact standing.sound.stack
  · exact standing.live list member

theorem taken_of_binding (binding : m.Binding held id) : m.arena.Taken id := by
  rcases binding with element | ⟨env, -, element⟩
  · exact element.live standing.sound.arena _ rfl
  · exact element.live standing.sound.arena _ rfl

section

variable (grows : m.arena.Grows b)
include grows

theorem onList_grows (listed : m.Listed held list) :
    b.OnList list id ↔ m.arena.OnList list id :=
  grows.extends'.onList_iff standing.sound.arena (standing.listed listed)

theorem element_grows (listed : m.Listed held list) :
    b.Element list v ↔ m.arena.Element list v :=
  grows.extends'.element_iff standing.sound.arena (standing.listed listed)

theorem binding_grows (binding : Binding { m with arena := b } held id) : m.Binding held id := by
  rcases binding with global | ⟨env, member, here⟩
  · exact .inl ((standing.element_grows grows (.inl rfl)).1 global)
  · exact .inr ⟨env, member, (standing.element_grows grows (.inr (.inr member))).1 here⟩

end

theorem extend (sound : n.Sound) (live : ∀ env ∈ held', n.arena.Live env)
    (lists : ∀ list, n.Listed held' list → ∀ id, n.arena.OnList list id → m.arena.Taken id →
      ∃ list, m.Listed held list ∧ m.arena.OnList list id)
    (bindings : ∀ id, n.Binding held' id → m.arena.Taken id → m.Binding held id)
    (apart : ∀ list, n.Listed held' list → ∀ id, n.arena.OnList list id → ¬ m.arena.Taken id →
      ¬ n.Binding held' id) : n.Standing held' := by
  refine ⟨sound, fun list listed id on binding => ?_, live⟩
  by_cases old : m.arena.Taken id
  · obtain ⟨list', listed', on'⟩ := lists list listed id on old
    exact standing.proper list' listed' id on' (bindings id binding old)
  · exact apart list listed id on old binding

theorem grows (grows : m.arena.Grows b) : Standing { m with arena := b } held := by
  refine standing.extend (standing.sound.grows grows) (fun env member =>
    grows.extends'.live (standing.live env member)) ?_ ?_ ?_
  · exact fun list listed id on _ => ⟨list, listed, (standing.onList_grows grows listed).1 on⟩
  · exact fun id binding _ => standing.binding_grows grows binding
  · intro list listed id on fresh
    exact absurd ((standing.onList_grows grows listed).1 on).taken fresh

theorem apart_of_took {content : Cell} (took : m.arena.TookCell content id b) :
    (∀ list, m.Listed held list → ¬ b.OnList list id) ∧
      ¬ Binding { m with arena := b } held id := by
  constructor
  · intro list listed on
    exact took.fresh ((standing.onList_grows took.grows listed).1 on).taken
  · intro binding
    exact took.fresh (standing.taken_of_binding (standing.binding_grows took.grows binding))

theorem protect (live : m.arena.Live v) (took : m.arena.TookCell (.pair v m.stack) top b) :
    Standing { m with arena := b, stack := .cell top } held := by
  have grown := standing.grows took.grows
  have stack : ∀ {id}, b.OnList (.cell top) id ↔ id = top ∨ b.OnList m.stack id :=
    onList_cons_iff took.content
  have binding : ∀ {id}, Binding { m with arena := b, stack := .cell top } held id →
      m.Binding held id := fun binding => standing.binding_grows took.grows binding
  refine standing.extend ⟨took.sound, grown.sound.tee, grown.sound.globe, ?_⟩ grown.live ?_
    (fun _ bound _ => binding bound) ?_
  · exact live_cell_iff.2 (took.taken (fit_pair live standing.sound.stack))
  · rintro list (rfl | rfl | member) id on old
    · exact ⟨_, .inl rfl, (standing.onList_grows took.grows (.inl rfl)).1 on⟩
    · rcases stack.1 on with rfl | on
      · exact absurd old took.fresh
      · exact ⟨_, .inr (.inl rfl), (standing.onList_grows took.grows (.inr (.inl rfl))).1 on⟩
    · exact ⟨_, .inr (.inr member), (standing.onList_grows took.grows (.inr (.inr member))).1 on⟩
  · exact fun _ _ id _ fresh bound => fresh (standing.taken_of_binding (binding bound))

theorem define {var val : Value} (var' : m.arena.Live var) (val' : m.arena.Live val)
    (bound : m.arena.BoundOn var val m.globe v b) :
    Standing { m with arena := b, globe := v } held := by
  have grows := bound.grows
  have grown := standing.grows grows
  obtain ⟨entry, mid, cell, first, second, rfl⟩ := bound
  have apart : cell ≠ entry := by
    rintro rfl
    exact second.fresh (first.taken (fit_pair var' val'))
  have freshCell : ¬ m.arena.Taken cell := fun taken => second.fresh (first.extends.taken taken)
  have globe : ∀ {id}, b.OnList (.cell cell) id ↔ id = cell ∨ b.OnList m.globe id :=
    onList_cons_iff second.content
  have entries : ∀ {w}, b.Element (.cell cell) w ↔ w = .cell entry ∨ b.Element m.globe w :=
    element_cons_iff second.content
  have old : ∀ {list id}, m.Listed held list → b.OnList list id → m.arena.OnList list id :=
    fun listed => (standing.onList_grows grows listed).1
  have binding : ∀ {id}, Binding { m with arena := b, globe := .cell cell } held id →
      id = entry ∨ m.Binding held id := by
    rintro id (global | ⟨env, member, here⟩)
    · rcases entries.1 global with same | global
      · cases same
        exact .inl rfl
      · exact .inr (standing.binding_grows grows (.inl global))
    · exact .inr (standing.binding_grows grows (.inr ⟨env, member, here⟩))
  refine standing.extend ⟨grows.sound, grown.sound.tee, ?_, grown.sound.stack⟩ grown.live ?_ ?_ ?_
  · exact live_cell_iff.2 (taken_of_pair second.content)
  · rintro list (rfl | rfl | member) id on known
    · rcases globe.1 on with rfl | on
      · exact absurd known freshCell
      · exact ⟨_, .inl rfl, old (.inl rfl) on⟩
    · exact ⟨_, .inr (.inl rfl), old (.inr (.inl rfl)) on⟩
    · exact ⟨_, .inr (.inr member), old (.inr (.inr member)) on⟩
  · intro id bound known
    rcases binding bound with rfl | bound
    · exact absurd known first.fresh
    · exact bound
  · rintro list listed id on fresh bound
    rcases binding bound with rfl | bound
    · rcases listed with rfl | rfl | member
      · rcases globe.1 on with same | on
        · exact apart same.symm
        · exact fresh (old (.inl rfl) on).taken
      · exact fresh (old (.inr (.inl rfl)) on).taken
      · exact fresh (old (.inr (.inr member)) on).taken
    · exact fresh (standing.taken_of_binding bound)

theorem layer (member : env ∈ held) (grows : m.arena.Grows b)
    (layers : m.arena.Layered b env inner) :
    Standing { m with arena := b } (insert inner held) := by
  have grown := standing.grows grows
  have old : ∀ {list id}, m.Listed held list → b.OnList list id → m.arena.OnList list id :=
    fun listed => (standing.onList_grows grows listed).1
  have binding : ∀ {id}, Binding { m with arena := b } (insert inner held) id →
      m.Binding held id ∨ b.Element inner (.cell id) := by
    rintro id (global | ⟨env', rfl | member', here⟩)
    · exact .inl (standing.binding_grows grows (.inl global))
    · exact .inr here
    · exact .inl (standing.binding_grows grows (.inr ⟨env', member', here⟩))
  refine standing.extend grown.sound ?_ ?_ ?_ ?_
  · rintro env' (rfl | member')
    · exact layers.live
    · exact grown.live env' member'
  · rintro list (rfl | rfl | rfl | member') id on known
    · exact ⟨_, .inl rfl, old (.inl rfl) on⟩
    · exact ⟨_, .inr (.inl rfl), old (.inr (.inl rfl)) on⟩
    · rcases layers.cells id on with on | fresh
      · exact ⟨env, .inr (.inr member), old (.inr (.inr member)) on⟩
      · exact absurd known fresh
    · exact ⟨_, .inr (.inr member'), old (.inr (.inr member')) on⟩
  · intro id bound known
    rcases binding bound with bound | here
    · exact bound
    · rcases layers.elements id here with here | fresh
      · exact .inr ⟨env, member, (standing.element_grows grows (.inr (.inr member))).1 here⟩
      · exact absurd known fresh
  · rintro list listed id on fresh bound
    rcases binding bound with bound | here
    · exact fresh (standing.taken_of_binding bound)
    · rcases listed with rfl | rfl | rfl | member'
      · exact fresh (old (.inl rfl) on).taken
      · exact fresh (old (.inr (.inl rfl)) on).taken
      · exact layers.apart id fresh on here
      · exact fresh (old (.inr (.inr member')) on).taken

theorem drop : Standing { m with stack := .nil } held := by
  have sound := standing.sound
  refine ⟨⟨sound.arena, sound.tee, sound.globe, live_nil _⟩, ?_, standing.live⟩
  rintro list (rfl | rfl | member) id on
  · exact standing.proper _ (.inl rfl) id on
  · exact absurd on not_onList_nil
  · exact standing.proper _ (.inr (.inr member)) id on

theorem pop {rest : Value} (suffix : m.arena.Suffix rest m.stack) :
    Standing { m with stack := rest } held := by
  have sound := standing.sound
  refine ⟨⟨sound.arena, sound.tee, sound.globe, suffix.live sound.arena sound.stack⟩, ?_,
    standing.live⟩
  rintro list (rfl | rfl | member) id on
  · exact standing.proper _ (.inl rfl) id on
  · exact standing.proper _ (.inr (.inl rfl)) id (on.of_suffix suffix)
  · exact standing.proper _ (.inr (.inr member)) id on

end

end Standing

end ArenaLisp.Machine
