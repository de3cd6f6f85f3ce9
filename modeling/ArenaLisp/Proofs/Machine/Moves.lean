import Mathlib.Logic.Relation
import ArenaLisp.Proofs.Machine.Preservation

/-!
# What an evaluation does, move by move

All that evaluations do to a machine is to collect, to take cells, to write tails, to change the
stack and the flag, and to update the global environment. A `Course` is a sequence of such moves. It
is kept apart which cells are settled, whose tails no move writes, and whether there are updates:
what holds of every course, by induction on its moves, holds of every evaluation.
-/

namespace ArenaLisp.Machine

open Arena

/-- A move that leaves the global environment alone, and writes no tail of a settled cell. -/
inductive Move (settled : Set Nat) (m : Machine) : Machine → Prop where
  | collect {form env : Value} : m.Sound → m.arena.Live form → m.arena.Live env →
    Move settled m (m.collect form env)
  | grow {b : Arena} : m.arena.Grows b → Move settled m { m with arena := b }
  | write {id : Nat} {v : Value} : id ∉ settled → ¬ m.arena.OnList m.globe id →
    Move settled m { m with arena := m.arena.setCdr id v }
  /-- Anything outside the arena and the registers that lead to settled cells. -/
  | keep {n : Machine} : n.arena = m.arena → n.tee = m.tee → n.globe = m.globe → Move settled m n

inductive Update (m : Machine) : Machine → Prop where
  | assign {id : Nat} {v : Value} : m.arena.Element m.globe (.cell id) →
    ¬ m.arena.OnList m.globe id → Update m { m with arena := m.arena.setCdr id v }
  | define {name : Symbol} {var val v : Value} {b : Arena} : m.arena.symbol? var = some name →
    m.arena.lookup name m.globe = .absent → m.arena.BoundOn var val m.globe v b →
    Update m { m with arena := b, globe := v }

def Step (settled : Set Nat) (updates : Prop) (m n : Machine) : Prop :=
  Move settled m n ∨ updates ∧ Update m n

def Course (settled : Set Nat) (updates : Prop) : Machine → Machine → Prop :=
  Relation.ReflTransGen (Step settled updates)

/-- Moves, then perhaps one update of the global environment, and nothing more in the arena. This is
what an evaluation does whose parts make no updates. -/
def Turn (settled : Set Nat) (updates : Prop) (m n : Machine) : Prop :=
  ∃ p q, Course settled updates m p ∧ (q = p ∨ p.Update q) ∧
    n.arena = q.arena ∧ n.tee = q.tee ∧ n.globe = q.globe

/-- What a machine comes to by moves followed by what a relation says. -/
structure Onward (settled : Set Nat) (updates : Prop) (R : Machine → Machine → Prop) : Prop where
  refl : ∀ m, R m m
  after : ∀ {m n k}, Course settled updates m n → R n k → R m k

variable {settled : Set Nat} {updates : Prop} {m n k : Machine} {b : Arena}

namespace Course

theorem refl : Course settled updates m m :=
  Relation.ReflTransGen.refl

theorem trans (first : Course settled updates m n) (second : Course settled updates n k) :
    Course settled updates m k :=
  Relation.ReflTransGen.trans first second

theorem move (move : Move settled m n) : Course settled updates m n :=
  .single (.inl move)

theorem update (holds : updates) (update : m.Update n) : Course settled updates m n :=
  .single (.inr ⟨holds, update⟩)

theorem grow (grows : m.arena.Grows b) : Course settled updates m { m with arena := b } :=
  .move (.grow grows)

theorem keep (arena : n.arena = m.arena) (tee : n.tee = m.tee) (globe : n.globe = m.globe) :
    Course settled updates m n :=
  .move (.keep arena tee globe)

end Course

theorem onward_course : Onward settled updates (Course settled updates) :=
  ⟨fun _ => .refl, .trans⟩

namespace Turn

theorem of_course (course : Course settled updates m n) : Turn settled updates m n :=
  ⟨n, n, course, .inl rfl, rfl, rfl, rfl⟩

theorem update (update : m.Update n) : Turn settled updates m n :=
  ⟨m, n, .refl, .inr update, rfl, rfl, rfl⟩

theorem keep (turn : Turn settled updates m n) (arena : k.arena = n.arena) (tee : k.tee = n.tee)
    (globe : k.globe = n.globe) : Turn settled updates m k := by
  obtain ⟨p, q, course, last, arena', tee', globe'⟩ := turn
  exact ⟨p, q, course, last, arena.trans arena', tee.trans tee', globe.trans globe'⟩

theorem course (turn : Turn settled updates m n) (holds : updates) :
    Course settled updates m n := by
  obtain ⟨p, q, course, rfl | update, arena, tee, globe⟩ := turn
  · exact course.trans (.keep arena tee globe)
  · exact (course.trans (.update holds update)).trans (.keep arena tee globe)

end Turn

theorem onward_turn : Onward settled updates (Turn settled updates) where
  refl _ := .of_course .refl
  after course turn := by
    obtain ⟨p, q, course', last, kept⟩ := turn
    exact ⟨p, q, course.trans course', last, kept⟩

/-- A condition under which the settled cells are handed out, and which moves keep. -/
structure Shelter (settled : Set Nat) (updates : Prop) (J : Machine → Prop) : Prop where
  taken : ∀ {m}, J m → ∀ id ∈ settled, m.arena.Taken id
  course : ∀ {m n}, J m → Course settled updates m n → J n

/-- A machine at work in an environment none of whose bindings is settled. -/
structure Working (settled : Set Nat) (J : Machine → Prop) (m : Machine) (held : Set Value)
    (env : Value) : Prop where
  ready : m.Ready held
  member : env ∈ held
  holds : J m
  apart : ∀ id, m.arena.Element env (.cell id) → id ∉ settled

section

variable {J : Machine → Prop} {held : Set Value} {env inner : Value} {id : Nat} {c : Arena}
  (shelter : Shelter settled updates J) (working : Working settled J m held env)
include shelter working

theorem Working.next (stage : m.Stage held n) (course : Course settled updates m n) :
    Working settled J n held env where
  ready := stage.ready working.ready
  member := working.member
  holds := shelter.course working.holds course
  apart id element := working.apart id
    ((stage.evolves.element_iff working.ready (.inr (.inr working.member))).1 element)

theorem Working.fresh {content : Cell} (took : m.arena.TookCell content id b) : id ∉ settled :=
  fun member => took.fresh (shelter.taken working.holds id member)

omit shelter working in
theorem Course.inside (grows : m.arena.Grows b)
    (took : b.TookCell (.pair inner m.stack) id c) :
    Course settled updates m (m.inside c id) :=
  (Course.grow (grows.trans took.grows)).trans (.keep rfl rfl rfl)

theorem Working.inside (grows : m.arena.Grows b) (layers : m.arena.Layered b env inner)
    (took : b.TookCell (.pair inner m.stack) id c) :
    Working settled J (m.inside c id) (insert inner held) inner where
  ready := working.ready.ready_inside grows layers took working.member
  member := .inl rfl
  holds := shelter.course working.holds (.inside grows took)
  apart other element member := by
    have there : b.Element inner (.cell other) :=
      (took.extends.element_iff grows.sound layers.live).1 element
    rcases layers.elements other there with here | fresh
    · have live := working.ready.live working.member
      refine working.apart other ?_ member
      exact (grows.extends'.element_iff working.ready.sound.arena live).1 here
    · exact fresh (shelter.taken working.holds other member)

end

end ArenaLisp.Machine
