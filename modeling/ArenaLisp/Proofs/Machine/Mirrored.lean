import ArenaLisp.Proofs.Machine.Models

/-!
# Machines at work beside a memory

What is known of a machine and a memory while a form is evaluated (`Mirrored`), and how it is kept
from one stage of the evaluation to the next and in the environment of a call.
-/

namespace ArenaLisp

open ArenaLisp.Ideal (Layer Memory)

namespace Machine

open Arena

/-- A machine on which a form can be evaluated beside a memory. -/
structure Mirrored (m : Machine) (held : Set Value) (env : Value) (young : Set Nat)
    (memory : Memory) : Prop where
  ready : m.Ready held
  member : env ∈ held
  covers : m.Covers held env
  /-- The lists under construction are protected. -/
  firm : ∀ id ∈ young, m.Firm held id
  models : m.Models env young memory

variable {m n k : Machine} {held : Set Value} {env inner v : Value} {young young' : Set Nat}
  {memory after : Memory} {t : Sexp} {id cell : Nat} {b c : Arena}

namespace Mirrored

variable (mirrored : m.Mirrored held env young memory)
include mirrored

theorem reserved (binding : m.Binding held id) : m.Reserved env young id := by
  obtain global | here := mirrored.covers.binding binding
  · exact .inr ⟨m.globe, .inl rfl, .inr global⟩
  · exact .inr ⟨env, .inr rfl, .inr here⟩

theorem listed {list : Value} (scope : m.Scope env list) : m.Listed held list := by
  obtain is | is := scope
  · exact .inl is
  · exact .inr (.inr (is ▸ mirrored.member))

theorem unlisted (binding : m.Binding held id) :
    ∀ list, m.Scope env list → ¬ m.arena.OnList list id := by
  intro list scope on
  exact mirrored.ready.proper list (mirrored.listed scope) id on binding

theorem secure (shows' : m.Shows env young v t) (anchored : m.Anchored held v) :
    m.Secure held v := by
  apply anchored.secure
  intro id path binding
  obtain ⟨name, content⟩ | ⟨-, out⟩ := Arena.Shows.reached shows' path
  · obtain ⟨head, tail, content'⟩ : ∃ head tail, m.arena.cell id = .pair head tail := by
      obtain global | here := mirrored.covers.binding binding
      · exact mirrored.models.globe.entry global
      · exact mirrored.models.layers.entry here
    cases content.symm.trans content'
  · exact out (mirrored.reserved binding)

/-- A firm cell that is reserved at a later stage was so before, unless it became young. -/
theorem reserved_of_stage (stage : m.Stage held n)
    (fresh : ∀ id ∈ young', id ∈ young ∨ ¬ m.Firm held id) (firm : m.Firm held id)
    (reserved : n.Reserved env young' id) : m.Reserved env young id := by
  have e := stage.evolves
  have listed : m.Listed held env := .inr (.inr mirrored.member)
  obtain member | ⟨list, is | is, on | element⟩ := reserved
  · obtain member | soft := fresh id member
    · exact .inl member
    · exact absurd firm soft
  · subst is
    exact .inr ⟨m.globe, .inl rfl, .inl (e.oldGlobe id firm on)⟩
  · subst is
    exact .inr ⟨m.globe, .inl rfl, .inr (e.oldBinding id firm element)⟩
  · subst is
    exact .inr ⟨_, .inr rfl, .inl ((e.onList_iff mirrored.ready listed).1 on)⟩
  · subst is
    exact .inr ⟨_, .inr rfl, .inr ((e.element_iff mirrored.ready listed).1 element)⟩

theorem shows_stage (shows' : m.Shows env young v t) (secure : m.Secure held v)
    (stage : m.Stage held n) (fresh : ∀ id ∈ young', id ∈ young ∨ ¬ m.Firm held id) :
    n.Shows env young' v t := by
  apply Arena.Shows.congr shows'
  · exact fun id path => secure.kept stage path
  · exact fun id path => mirrored.reserved_of_stage stage fresh (secure.firm id path)

theorem shows_next (shows' : m.Shows env young v t) (anchored : m.Anchored held v)
    (stage : m.Stage held n) : n.Shows env young v t :=
  mirrored.shows_stage shows' (mirrored.secure shows' anchored) stage fun _ => .inl

theorem next (stage : m.Stage held n) (models : n.Models env young after) :
    n.Mirrored held env young after where
  ready := stage.ready mirrored.ready
  member := mirrored.member
  covers := mirrored.covers.stage mirrored.ready mirrored.member stage
  firm id member := stage.firm mirrored.ready (mirrored.firm id member)
  models := models

theorem spares_grows (grows : m.arena.Grows b) : m.Spares env { m with arena := b } :=
  mirrored.models.spares_extends rfl rfl grows.extends'

theorem models_grows (grows : m.arena.Grows b) : Models { m with arena := b } env young memory :=
  mirrored.models.spared (mirrored.spares_grows grows) fun _ => .inl

theorem shows_grows (grows : m.arena.Grows b) (shows' : m.Shows env young v t) :
    Shows { m with arena := b } env young v t := by
  apply shows'.spared (mirrored.spares_grows grows) fun _ => .inl
  exact fun id path => grows.extends'.kept id (Arena.Shows.taken shows' path)

theorem taken_of_reserved (reserved : m.Reserved env young id) : m.arena.Taken id := by
  obtain member | ⟨list, scope, on | element⟩ := reserved
  · exact (mirrored.firm id member).taken mirrored.ready.sound
  · exact on.taken
  · exact element.live mirrored.ready.sound.arena _ rfl

theorem not_reserved_of_took {content : Cell} (took : m.arena.TookCell content id b) :
    ¬ Reserved { m with arena := b } env young id := by
  intro reserved
  have spares := mirrored.spares_grows took.grows
  have old := (reserved_congr spares.globe fun list scope id along =>
    spares.same list scope id along.reaches).1 reserved
  exact took.fresh (mirrored.taken_of_reserved old)

/-! ### Environments of calls -/

section

variable (grows : m.arena.Grows b) (layers : m.arena.Layered b env inner)
  (took : b.TookCell (.pair inner m.stack) id c)
include grows layers took

theorem reserved_inside {other : Nat} (reserved : (m.inside c id).Reserved inner young other) :
    m.Reserved env young other ∨ ¬ m.arena.Taken other := by
  have sound := mirrored.ready.sound
  have ext := grows.extends'.trans took.extends
  have liveEnv := mirrored.ready.live mirrored.member
  obtain member | ⟨list, is | is, on | element⟩ := reserved
  · exact .inl (.inl member)
  · subst is
    exact .inl (.inr ⟨m.globe, .inl rfl, .inl ((ext.onList_iff sound.arena sound.globe).1 on)⟩)
  · subst is
    exact .inl (.inr ⟨m.globe, .inl rfl,
      .inr ((ext.element_iff sound.arena sound.globe).1 element)⟩)
  · subst is
    have there := (took.extends.onList_iff grows.sound layers.live).1 on
    obtain there | fresh := layers.cells other there
    · exact .inl (.inr ⟨env, .inr rfl,
        .inl ((grows.extends'.onList_iff sound.arena liveEnv).1 there)⟩)
    · exact .inr fresh
  · subst is
    have there := (took.extends.element_iff grows.sound layers.live).1 element
    obtain there | fresh := layers.elements other there
    · exact .inl (.inr ⟨env, .inr rfl,
        .inr ((grows.extends'.element_iff sound.arena liveEnv).1 there)⟩)
    · exact .inr fresh

theorem shows_inside (shows' : m.Shows env young v t) : (m.inside c id).Shows inner young v t := by
  apply (Arena.Shows.extends shows' (grows.extends'.trans took.extends)).mono
  exact fun _ => mirrored.reserved_inside grows layers took

theorem inside {layers' : List Layer}
    (holds : b.Holds (fun id => m.Reserved env young id ∨ ¬ m.arena.Taken id) inner layers') :
    (m.inside c id).Mirrored (insert inner held) inner young { memory with layers := layers' } := by
  have ready := mirrored.ready
  have ext := grows.extends'.trans took.extends
  have clear : ∀ other, (m.inside c id).Reserved inner young other →
      m.Reserved env young other ∨ ¬ m.arena.Taken other := fun _ =>
    mirrored.reserved_inside grows layers took
  refine ⟨ready.ready_inside grows layers took mirrored.member, .inl rfl,
    mirrored.covers.inside ready grows layers took mirrored.member, ?_, ?_, ?_, ?_,
    mirrored.models.quiet⟩
  · intro other member
    exact ready.firm_inside grows layers took mirrored.member (mirrored.firm other member)
  · exact (mirrored.models.globe.extends ext).mono clear
  · apply (holds.extends took.extends).mono
    exact fun other reserved => .inl (clear other reserved)
  · intro other global here
    have global := (ext.element_iff ready.sound.arena ready.sound.globe).1 global
    have here := (took.extends.element_iff grows.sound layers.live).1 here
    obtain here | fresh := layers.elements other here
    · apply mirrored.models.apart other global
      exact (grows.extends'.element_iff ready.sound.arena (ready.live mirrored.member)).1 here
    · exact fresh (global.live ready.sound.arena _ rfl)

end

end Mirrored

theorem reserved_beneath {depth : Nat} (beneath : n.arena.Beneath env depth inner)
    (reserved : n.Reserved env young id) : n.Reserved inner young id := by
  obtain member | ⟨list, is | is, on | element⟩ := reserved
  · exact .inl member
  · exact .inr ⟨list, .inl is, .inl on⟩
  · exact .inr ⟨list, .inl is, .inr element⟩
  · exact .inr ⟨inner, .inr rfl, .inl ((is ▸ on).of_suffix beneath.suffix)⟩
  · exact .inr ⟨inner, .inr rfl, .inr ((is ▸ element).of_suffix beneath.suffix)⟩

theorem Models.leave {depth : Nat} (models : n.Models inner young memory)
    (beneath : n.arena.Beneath env depth inner) :
    n.Models env young { memory with layers := memory.layers.drop depth } := by
  have clear : ∀ id, n.Reserved env young id → n.Reserved inner young id := fun _ =>
    reserved_beneath beneath
  refine ⟨models.globe.mono clear, (models.layers.drop beneath).mono clear, ?_, models.quiet⟩
  intro id global here
  exact models.apart id global (here.of_suffix beneath.suffix)

theorem Shows.leave {depth : Nat} (shows' : n.Shows inner young v t)
    (beneath : n.arena.Beneath env depth inner) : n.Shows env young v t :=
  Arena.Shows.mono shows' fun _ => reserved_beneath beneath

end Machine

end ArenaLisp
