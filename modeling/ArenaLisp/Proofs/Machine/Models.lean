import ArenaLisp.Proofs.Arena.Environments
import ArenaLisp.Proofs.Machine.Secure

/-!
# Machines and memories

`m.Models env young memory` says that the global environment of the machine `m` holds the global
bindings of a memory, and the environment `env` its layers. The trees keep off the cells that an
evaluation may rewrite (`Reserved`): the list cells and the bindings of the two environments, and
the young cells, those of the argument lists under construction. So an evaluation rewrites no tree
that is still in use (`Shows.stage`).
-/

namespace ArenaLisp

open ArenaLisp.Ideal (Layer Memory)

namespace Ideal

variable {globals : List (Symbol × Sexp)} {name : Symbol} {value : Sexp}

/-- A global binding as a layer. -/
def Layer.global (binding : Symbol × Sexp) : Layer :=
  .binding (.symbol binding.1) binding.2

theorem lookup_global : lookup name (globals.map Layer.global) = globals.lookup name := by
  induction globals with
  | nil => rfl
  | cons binding globals ih =>
    obtain ⟨other, old⟩ := binding
    simp only [List.map_cons, lookup, Layer.global, Layer.value?, List.lookup_cons]
    by_cases is : other = name
    · simp [is]
    · have differ : (name == other) = false := by simpa using Ne.symm is
      simp only [if_neg is, differ, Option.none_or]
      exact ih

theorem update_global :
    update name value (globals.map Layer.global) =
      (updateGlobal name value globals).map Layer.global := by
  induction globals with
  | nil => rfl
  | cons binding globals ih =>
    obtain ⟨other, old⟩ := binding
    simp only [List.map_cons, update, updateGlobal]
    by_cases is : other = name
    · simp [Layer.global, Layer.value?, is]
    · simp [Layer.global, Layer.value?, is, ih]

end Ideal

namespace Machine

open Arena

/-- The environments that a name is looked up in. -/
def Scope (m : Machine) (env list : Value) : Prop :=
  list = m.globe ∨ list = env

/-- A cell that an evaluation may rewrite. -/
def Reserved (m : Machine) (env : Value) (young : Set Nat) (id : Nat) : Prop :=
  id ∈ young ∨
    ∃ list, m.Scope env list ∧ (m.arena.OnList list id ∨ m.arena.Element list (.cell id))

/-- A value that shows a tree off the cells that an evaluation may rewrite. -/
abbrev Shows (m : Machine) (env : Value) (young : Set Nat) (v : Value) (t : Sexp) : Prop :=
  m.arena.Shows (m.Reserved env young) v t

/-- A machine that has the bindings of a memory, with the interrupt flag down. -/
structure Models (m : Machine) (env : Value) (young : Set Nat) (memory : Memory) : Prop where
  globe : m.arena.Holds (m.Reserved env young) m.globe (memory.globals.map Layer.global)
  layers : m.arena.Holds (m.Reserved env young) env memory.layers
  apart : ∀ id, m.arena.Element m.globe (.cell id) → ¬ m.arena.Element env (.cell id)
  quiet : m.interrupted = false

variable {m n : Machine} {held : Set Value} {env list v w : Value} {young young' : Set Nat}
  {memory : Memory} {t value : Sexp} {name : Symbol} {id cell : Nat} {b c : Arena}

theorem reserved_congr (globe : n.globe = m.globe)
    (same : ∀ list, m.Scope env list → ∀ id, m.arena.Along list id →
      n.arena.cell id = m.arena.cell id) : n.Reserved env young id ↔ m.Reserved env young id := by
  unfold Reserved Scope
  rw [globe]
  apply or_congr Iff.rfl
  apply exists_congr
  intro list
  apply and_congr_right
  intro scope
  rw [onList_congr (same list scope), element_congr (same list scope)]

theorem Models.scope (models : m.Models env young memory) (scope : m.Scope env list) :
    ∃ layers, m.arena.Holds (m.Reserved env young) list layers := by
  obtain is | is := scope
  · subst is
    exact ⟨_, models.globe⟩
  · subst is
    exact ⟨_, models.layers⟩

theorem Models.pair (models : m.Models env young memory) (reserved : m.Reserved env ∅ id) :
    ∃ head tail, m.arena.cell id = .pair head tail := by
  obtain absent | ⟨list, scope, on | element⟩ := reserved
  · exact absurd absent (Set.notMem_empty id)
  · exact on.pair
  · obtain ⟨layers, holds⟩ := models.scope scope
    exact holds.entry element

theorem Models.withStack (models : m.Models env young memory) (stack : Value) :
    Models { m with stack } env young memory :=
  ⟨models.globe, models.layers, models.apart, models.quiet⟩

theorem Reserved.mono (reserved : m.Reserved env young id) (sub : young ⊆ young') :
    m.Reserved env young' id :=
  reserved.imp_left fun member => sub member

theorem Models.mono (models : m.Models env young' memory) (sub : young ⊆ young') :
    m.Models env young memory where
  globe := models.globe.mono fun _ reserved => reserved.mono sub
  layers := models.layers.mono fun _ reserved => reserved.mono sub
  apart := models.apart
  quiet := models.quiet

/-! ### What leaves the environments alone -/

/-- A state of the machine in which everything that the environments lead to is as before. -/
structure Spares (m : Machine) (env : Value) (n : Machine) : Prop where
  globe : n.globe = m.globe
  quiet : n.interrupted = m.interrupted
  same : ∀ list, m.Scope env list → ∀ id, m.arena.Reaches list id →
    n.arena.cell id = m.arena.cell id

section

variable (spares : m.Spares env n) (fresh : ∀ id ∈ young', id ∈ young ∨ ¬ m.arena.Taken id)
include spares fresh

theorem Spares.reserved (reserved : n.Reserved env young' id) :
    m.Reserved env young id ∨ ¬ m.arena.Taken id := by
  obtain member | elsewhere := reserved
  · exact (fresh id member).imp_left .inl
  · left
    apply (reserved_congr spares.globe _).1 (.inr elsewhere)
    exact fun list scope id along => spares.same list scope id along.reaches

theorem Shows.spared (shows' : m.Shows env young v t)
    (same : ∀ id, m.arena.Reaches v id → n.arena.cell id = m.arena.cell id) :
    n.Shows env young' v t := by
  apply Arena.Shows.congr shows' same
  intro id path reserved
  obtain reserved | untaken := spares.reserved fresh reserved
  · exact reserved
  · exact absurd (Arena.Shows.taken shows' path) untaken

theorem Models.spared (models : m.Models env young memory) : n.Models env young' memory := by
  have clear : ∀ {list layers}, m.arena.Holds (m.Reserved env young) list layers →
      ∀ id, m.arena.Reaches list id → n.Reserved env young' id → m.Reserved env young id := by
    intro list layers holds id path reserved
    obtain reserved | untaken := spares.reserved fresh reserved
    · exact reserved
    · exact absurd (holds.taken path) untaken
  have element : ∀ {list w}, m.Scope env list →
      (n.arena.Element list w ↔ m.arena.Element list w) := fun scope =>
    element_congr fun id along => spares.same _ scope id along.reaches
  constructor
  · rw [spares.globe]
    exact models.globe.congr (spares.same _ (.inl rfl)) (clear models.globe)
  · exact models.layers.congr (spares.same _ (.inr rfl)) (clear models.layers)
  · intro id global here
    rw [spares.globe] at global
    exact models.apart id ((element (.inl rfl)).1 global) ((element (.inr rfl)).1 here)
  · rw [spares.quiet, models.quiet]

end

theorem Models.spares_extends (models : m.Models env young memory) (globe : n.globe = m.globe)
    (quiet : n.interrupted = m.interrupted) (ext : m.arena.Extends n.arena) : m.Spares env n := by
  refine ⟨globe, quiet, fun list scope id path => ?_⟩
  obtain ⟨layers, holds⟩ := models.scope scope
  exact ext.kept id (holds.taken path)

theorem Sound.spares_collect {form : Value} (sound : m.Sound) (live : m.arena.Live form)
    (liveEnv : m.arena.Live env) : m.Spares env (m.collect form env) := by
  refine ⟨rfl, rfl, fun list scope id path => ?_⟩
  apply cell_collect sound.arena.plain fun _ reached =>
    sound.taken_of_reachable live liveEnv reached
  obtain is | is := scope
  · exact ⟨list, by simp [is], path⟩
  · exact ⟨list, by simp [is], path⟩

/-! ### Values in bindings -/

section

variable (unlisted : ∀ list, m.Scope env list → ¬ m.arena.OnList list cell)
include unlisted

theorem reserved_setCdr :
    Reserved { m with arena := m.arena.setCdr cell w } env young id ↔ m.Reserved env young id :=
  reserved_congr rfl fun list scope _ along => along.setCdr (unlisted list scope)

theorem element_setCdr (scope : m.Scope env list) :
    (m.arena.setCdr cell w).Element list v ↔ m.arena.Element list v :=
  element_congr fun _ along => along.setCdr (unlisted list scope)

theorem Shows.setCdr (shows' : m.Shows env young v t) (reserved : m.Reserved env young cell) :
    Shows { m with arena := m.arena.setCdr cell w } env young v t :=
  (Arena.Shows.setCdr shows' reserved).mono fun _ => (reserved_setCdr unlisted).1

theorem Models.setCdr_young (models : m.Models env young memory) (member : cell ∈ young)
    (unbound : ∀ list, m.Scope env list → ¬ m.arena.Element list (.cell cell)) :
    Models { m with arena := m.arena.setCdr cell w } env young memory := by
  have keep : ∀ {list layers}, m.Scope env list → m.arena.Holds (m.Reserved env young) list layers →
      (m.arena.setCdr cell w).Holds
        (Reserved { m with arena := m.arena.setCdr cell w } env young) list layers := by
    intro list layers scope holds
    apply (holds.setCdr (.inl member) (unlisted list scope) (unbound list scope)).mono
    exact fun _ => (reserved_setCdr unlisted).1
  refine ⟨keep (.inl rfl) models.globe, keep (.inr rfl) models.layers, ?_, models.quiet⟩
  intro id global here
  exact models.apart id ((element_setCdr unlisted (.inl rfl)).1 global)
    ((element_setCdr unlisted (.inr rfl)).1 here)

theorem Models.setCdr_global (models : m.Models env young memory)
    (found : m.arena.lookup name m.globe = .found cell) (shows' : m.Shows env young w value) :
    Models { m with arena := m.arena.setCdr cell w } env young
      { memory with globals := Ideal.updateGlobal name value memory.globals } := by
  have element := element_of_lookup found
  have reserved : m.Reserved env young cell := .inr ⟨m.globe, .inl rfl, .inr element⟩
  have clear : ∀ id, Reserved { m with arena := m.arena.setCdr cell w } env young id →
      m.Reserved env young id := fun _ => (reserved_setCdr unlisted).1
  refine ⟨?_, ?_, ?_, models.quiet⟩
  · have holds := models.globe.update found reserved (unlisted _ (.inl rfl)) shows'
    rw [Ideal.update_global] at holds
    exact holds.mono clear
  · exact (models.layers.setCdr reserved (unlisted _ (.inr rfl)) (models.apart cell element)).mono
      clear
  · intro id global here
    exact models.apart id ((element_setCdr unlisted (.inl rfl)).1 global)
      ((element_setCdr unlisted (.inr rfl)).1 here)

theorem Models.setCdr_local (models : m.Models env young memory)
    (found : m.arena.lookup name env = .found cell) (shows' : m.Shows env young w value) :
    Models { m with arena := m.arena.setCdr cell w } env young
      { memory with layers := Ideal.update name value memory.layers } := by
  have element := element_of_lookup found
  have reserved : m.Reserved env young cell := .inr ⟨env, .inr rfl, .inr element⟩
  have clear : ∀ id, Reserved { m with arena := m.arena.setCdr cell w } env young id →
      m.Reserved env young id := fun _ => (reserved_setCdr unlisted).1
  refine ⟨?_, ?_, ?_, models.quiet⟩
  · apply (models.globe.setCdr reserved (unlisted _ (.inl rfl)) _).mono clear
    exact fun global => models.apart cell global element
  · exact (models.layers.update found reserved (unlisted _ (.inr rfl)) shows').mono clear
  · intro id global here
    exact models.apart id ((element_setCdr unlisted (.inl rfl)).1 global)
      ((element_setCdr unlisted (.inr rfl)).1 here)

end

/-! ### New bindings -/

section

variable {var val : Value} (sound : m.Sound) (live : m.arena.Live env)
  (bound : m.arena.BoundOn var val m.globe v b)
include sound live bound

theorem reserved_bound (reserved : Reserved { m with arena := b, globe := v } env young id) :
    m.Reserved env young id ∨ ¬ m.arena.Taken id := by
  have ext := bound.grows.extends'
  obtain ⟨entry, mid, cell, first, second, is⟩ := bound
  subst is
  have freshCell : ¬ m.arena.Taken cell := fun taken => second.fresh (first.extends.taken taken)
  obtain member | ⟨list, is | is, on | here⟩ := reserved
  · exact .inl (.inl member)
  · subst is
    obtain is | on := (onList_cons_iff second.content).1 on
    · exact .inr (is ▸ freshCell)
    · exact .inl (.inr ⟨m.globe, .inl rfl, .inl ((ext.onList_iff sound.arena sound.globe).1 on)⟩)
  · subst is
    obtain is | here := (element_cons_iff second.content).1 here
    · cases is
      exact .inr first.fresh
    · exact .inl (.inr ⟨m.globe, .inl rfl,
        .inr ((ext.element_iff sound.arena sound.globe).1 here)⟩)
  · subst is
    exact .inl (.inr ⟨_, .inr rfl, .inl ((ext.onList_iff sound.arena live).1 on)⟩)
  · subst is
    exact .inl (.inr ⟨_, .inr rfl, .inr ((ext.element_iff sound.arena live).1 here)⟩)

theorem Shows.bindOn (shows' : m.Shows env young w t) :
    Shows { m with arena := b, globe := v } env young w t := by
  apply (Arena.Shows.extends shows' bound.grows.extends').mono
  exact fun _ => reserved_bound sound live bound

theorem Models.bindOn (models : m.Models env young memory)
    (showsVar : m.Shows env young var (.symbol name)) (showsVal : m.Shows env young val value) :
    Models { m with arena := b, globe := v } env young
      { memory with globals := (name, value) :: memory.globals } := by
  have ext := bound.grows.extends'
  have clear : ∀ id, Reserved { m with arena := b, globe := v } env young id →
      m.Reserved env young id ∨ ¬ m.arena.Taken id := fun _ => reserved_bound sound live bound
  have showsVar' := showsVar.bindOn sound live bound
  have showsVal' := showsVal.bindOn sound live bound
  obtain ⟨entry, mid, cell, first, second, is⟩ := bound
  subst is
  have fresh : ∀ {list}, m.arena.Live list → ¬ b.Element list (.cell entry) := by
    intro list live element
    have old := (ext.element_iff sound.arena live).1 element
    exact first.fresh (old.live sound.arena _ rfl)
  refine ⟨?_, (models.layers.extends ext).mono clear, ?_, models.quiet⟩
  · have content : b.cell entry = .pair var val :=
      (second.extends.kept entry (taken_of_pair first.content)).trans first.content
    exact .binding second.content content (fresh sound.globe) showsVar' showsVal'
      ((models.globe.extends ext).mono clear)
  · intro id global here
    obtain is | global := (element_cons_iff second.content).1 global
    · cases is
      exact fresh live here
    · exact models.apart id ((ext.element_iff sound.arena sound.globe).1 global)
        ((ext.element_iff sound.arena live).1 here)

end

end Machine

end ArenaLisp
