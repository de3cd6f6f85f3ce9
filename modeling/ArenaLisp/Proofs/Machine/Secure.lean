import ArenaLisp.Proofs.Machine.Preservation

/-!
# Values that stay as they are

The evaluator goes back to a form, after the evaluation of a part of it, without having protected
the rest. What it finds then is what it left if no cell of the form is a binding: then all of them
are firm, since the form itself is, and nothing writes to them (`Secure.stage`).
-/

namespace ArenaLisp.Machine

open Arena

/-- A value whose cell is firm. -/
def Anchored (m : Machine) (held : Set Value) (v : Value) : Prop :=
  ∀ id, v = .cell id → m.Firm held id

/-- A value that leads to no binding. -/
def Detached (m : Machine) (held : Set Value) (v : Value) : Prop :=
  ∀ id, m.arena.Reaches v id → ¬ m.Binding held id

/-- A value that leads to firm cells only, and to no binding. -/
structure Secure (m : Machine) (held : Set Value) (v : Value) : Prop where
  firm : ∀ id, m.arena.Reaches v id → m.Firm held id
  detached : m.Detached held v

variable {m n : Machine} {held : Set Value} {env v w : Value} {id : Nat} {b c : Arena}

theorem Secure.anchored (secure : m.Secure held v) : m.Anchored held v := by
  intro id is
  subst is
  exact secure.firm id (.here id)

theorem Anchored.secure (anchored : m.Anchored held v) (detached : m.Detached held v) :
    m.Secure held v := by
  refine ⟨fun id path => ?_, detached⟩
  cases v with
  | nil => exact absurd path not_path_nil
  | cell first =>
    have off : m.arena.Path (m.Binding held) (.cell first) id :=
      path.transfer (fun _ _ => .inl rfl) fun other on binding => detached other on binding
    exact (anchored first rfl).trans off

theorem Secure.of_reaches (secure : m.Secure held v)
    (sub : ∀ id, m.arena.Reaches w id → m.arena.Reaches v id) : m.Secure held w :=
  ⟨fun id path => secure.firm id (sub id path), fun id path => secure.detached id (sub id path)⟩

theorem Secure.car (secure : m.Secure held v) : m.Secure held (m.arena.car v) := by
  apply secure.of_reaches
  intro id path
  obtain empty | ⟨first, tail, is, pair⟩ := m.arena.car_cases v
  · rw [empty] at path
    exact absurd path not_path_nil
  · rw [is]
    exact .head pair path

theorem Secure.cdr (secure : m.Secure held v) : m.Secure held (m.arena.cdr v) := by
  apply secure.of_reaches
  intro id path
  obtain empty | ⟨first, head, is, pair⟩ := m.arena.cdr_cases v
  · rw [empty] at path
    exact absurd path not_path_nil
  · rw [is]
    exact .tail pair not_false path

section

variable (secure : m.Secure held v)
include secure

theorem Secure.kept (stage : m.Stage held n) (path : m.arena.Reaches v id) :
    n.arena.cell id = m.arena.cell id := by
  obtain same | ⟨binding, -⟩ := stage.evolves.kept id (secure.firm id path)
  · exact same
  · exact absurd binding (secure.detached id path)

theorem Secure.reaches_iff (stage : m.Stage held n) :
    n.arena.Reaches v id ↔ m.arena.Reaches v id :=
  reaches_congr fun _ path => secure.kept stage path

theorem Secure.cdr_eq (stage : m.Stage held n) : n.arena.cdr v = m.arena.cdr v := by
  cases v with
  | nil => rfl
  | cell id =>
    have same := secure.kept stage (.here id)
    unfold Arena.cdr
    simp only [cell?_cell, same]

theorem Secure.stage (ready : m.Ready held) (stage : m.Stage held n) : n.Secure held v where
  firm id path := stage.firm ready (secure.firm id ((secure.reaches_iff stage).1 path))
  detached id path binding := by
    have there := (secure.reaches_iff stage).1 path
    have old := stage.evolves.oldBinding' ready (secure.firm id there) binding
    exact secure.detached id there old

theorem Secure.inside {inner : Value} (ready : m.Ready held) (grows : m.arena.Grows b)
    (layers : m.arena.Layered b env inner) (took : b.TookCell (.pair inner m.stack) id c)
    (member : env ∈ held) : (m.inside c id).Secure (insert inner held) v := by
  have entered := ready.stage_inside grows layers took
  have old : ∀ {other}, (m.inside c id).arena.Reaches v other → m.arena.Reaches v other :=
    (secure.reaches_iff entered).1
  constructor
  · intro other path
    exact ready.firm_inside grows layers took member (secure.firm other (old path))
  · intro other path binding
    have taken := (secure.firm other (old path)).taken ready.sound
    have bound := ready.binding_inside grows layers took member taken binding
    exact secure.detached other (old path) bound

end

/-! ### Lists of arguments -/

/-- A list of which the cells are firm and no bindings, whatever its elements lead to. -/
def Steady (m : Machine) (held : Set Value) (list : Value) : Prop :=
  ∀ id, m.arena.Along list id → m.Firm held id ∧ ¬ m.Binding held id

theorem Secure.steady (secure : m.Secure held v) : m.Steady held v :=
  fun id along => ⟨secure.firm id along.reaches, secure.detached id along.reaches⟩

theorem Steady.anchored (steady : m.Steady held v) : m.Anchored held v := by
  intro id is
  subst is
  exact (steady id (.here id)).1

theorem Steady.cdr (steady : m.Steady held v) : m.Steady held (m.arena.cdr v) := by
  intro id along
  obtain empty | ⟨first, head, is, pair⟩ := m.arena.cdr_cases v
  · rw [empty] at along
    cases along
  · apply steady id
    rw [is]
    exact .next pair along

theorem Steady.car (steady : m.Steady held v) : m.Anchored held (m.arena.car v) := by
  intro id is
  obtain empty | ⟨first, tail, at', pair⟩ := m.arena.car_cases v
  · rw [empty] at is
    cases is
  · rw [is] at pair
    have firm := (steady first (at' ▸ .here first)).1
    exact firm.trans (.head pair (.here id))

theorem Steady.second (steady : m.Steady held v) : m.Anchored held (m.arena.second v) :=
  steady.cdr.car

theorem Steady.third (steady : m.Steady held v) : m.Anchored held (m.arena.third v) :=
  steady.cdr.cdr.car

theorem Steady.stage (steady : m.Steady held v) (ready : m.Ready held) (stage : m.Stage held n) :
    n.Steady held v := by
  have same : ∀ id, m.arena.Along v id → n.arena.cell id = m.arena.cell id := by
    intro id along
    obtain ⟨firm, unbound⟩ := steady id along
    obtain same | ⟨binding, -⟩ := stage.evolves.kept id firm
    · exact same
    · exact absurd binding unbound
  intro id along
  obtain ⟨firm, unbound⟩ := steady id ((along_congr same).1 along)
  exact ⟨stage.firm ready firm, fun binding => unbound (stage.evolves.oldBinding' ready firm binding)⟩

theorem Gathering.steady {k : Machine} {head last : Nat} {ids : List Nat} {vs : List Value}
    (gathering : Gathering m held k head ids last vs) : k.Steady held (.cell head) := by
  intro id along
  have member := gathering.row.mem_of_along along
  exact ⟨gathering.firm id member, gathering.unbound id member⟩

/-! ### The environment in use -/

/-- An environment that has all bindings of those in use. -/
def Covers (m : Machine) (held : Set Value) (env : Value) : Prop :=
  ∀ e ∈ held, ∀ id, m.arena.Element e (.cell id) → m.arena.Element env (.cell id)

theorem Covers.binding (covers : m.Covers held env) (binding : m.Binding held id) :
    m.arena.Element m.globe (.cell id) ∨ m.arena.Element env (.cell id) := by
  obtain global | ⟨e, member, here⟩ := binding
  · exact .inl global
  · exact .inr (covers e member id here)

theorem Covers.stage (covers : m.Covers held env) (ready : m.Ready held) (member : env ∈ held)
    (stage : m.Stage held n) : n.Covers held env := by
  intro e among id here
  have e' := stage.evolves
  have old := (e'.element_iff ready (.inr (.inr among))).1 here
  exact (e'.element_iff ready (.inr (.inr member))).2 (covers e among id old)

theorem Covers.inside {inner : Value} (covers : m.Covers held env) (ready : m.Ready held)
    (grows : m.arena.Grows b) (layers : m.arena.Layered b env inner)
    (took : b.TookCell (.pair inner m.stack) id c) (member : env ∈ held) :
    (m.inside c id).Covers (insert inner held) inner := by
  intro e among other here
  obtain rfl | among := among
  · exact here
  · have entered := ready.stage_inside grows layers took
    have outer := covers.stage ready member entered e among other here
    have grown : b.Element env (.cell other) :=
      (took.extends.element_iff grows.sound (grows.extends'.live (ready.live member))).1 outer
    exact (took.extends.element_iff grows.sound layers.live).2 (layers.outer _ grown)

end ArenaLisp.Machine
