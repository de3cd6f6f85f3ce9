import ArenaLisp.Proofs.Machine.Approximation
import ArenaLisp.Proofs.Machine.Definitions
import ArenaLisp.Proofs.Machine.Detached

/-!
# Evaluations that define nothing

`evalReadOnly` evaluates as `eval` does, but has no answer once the global environment or a value in
it is another than before. All evaluations without updates pass (`approximates_evalByMoves`). Nothing
that the global environment or the truth value leads to is touched (`moving_evalReadOnly`), so a
collection afterwards comes to the same arena as one before (`Untouched.collect`).
-/

namespace ArenaLisp

theorem Arena.Table.elementsWithin_eq {a : Arena} {v : Value} {rows : List Entry} {n : Nat}
    (table : a.Table v rows) (enough : rows.length < n) :
    a.elementsWithin n v = some (rows.map Entry.binding) := by
  induction table generalizing n with
  | nil =>
    obtain ⟨n, rfl⟩ : ∃ k, n = k + 1 := ⟨n - 1, by omega⟩
    rfl
  | cons pair _ _ _ ih =>
    obtain ⟨n, rfl⟩ : ∃ k, n = k + 1 := ⟨n - 1, by omega⟩
    simp only [elementsWithin, cell?_cell, pair, ih (by simpa using enough), Option.map_some,
      List.map_cons]

namespace Machine

open Arena

/-- Whether another machine has the same global environment with the same values in it. -/
def sameGlobals (m n : Machine) : Bool :=
  match m.arena.elementsWithin (m.arena.capacity + 1) m.globe with
  | none => false
  | some ids => n.globe == m.globe &&
      ids.all fun id => n.arena.cdr (.cell id) == m.arena.cdr (.cell id)

/-- The cells that the truth value and the global environment lead to. -/
def lasting (m : Machine) : Set Nat :=
  {id | m.arena.ReachedFrom [m.tee, m.globe] id}

/-- Another machine has the same global environment, and in it nothing was written. -/
structure Untouched (m n : Machine) : Prop where
  tee : n.tee = m.tee
  globe : n.globe = m.globe
  size : n.arena.capacity = m.arena.capacity
  plain : ∀ id, n.arena.marked id = false
  same : ∀ id ∈ m.lasting, n.arena.cell id = m.arena.cell id

variable {m n k p : Machine} {rows : List Entry} {id : Nat}

theorem Sound.taken_of_lasting (sound : m.Sound) (lasting : id ∈ m.lasting) :
    m.arena.Taken id := by
  obtain ⟨root, member, path⟩ := lasting
  simp only [List.mem_cons, List.not_mem_nil, or_false] at member
  obtain rfl | rfl := member
  · exact sound.arena.taken_of_reaches sound.live_tee path
  · exact sound.arena.taken_of_reaches sound.globe path

namespace Untouched

theorem refl (sound : m.Sound) : m.Untouched m :=
  ⟨rfl, rfl, rfl, sound.arena.plain, fun _ _ => rfl⟩

theorem lasting_iff (untouched : m.Untouched n) : id ∈ n.lasting ↔ id ∈ m.lasting := by
  rw [lasting, Set.mem_ofPred_eq, untouched.tee, untouched.globe]
  exact reachedFrom_congr untouched.same

theorem taken (untouched : m.Untouched n) (sound : m.Sound) (lasting : id ∈ m.lasting) :
    n.arena.Taken id := by
  intro next
  rw [untouched.same id lasting]
  exact sound.taken_of_lasting lasting next

theorem element_iff {v : Value} (untouched : m.Untouched n) :
    n.arena.Element n.globe v ↔ m.arena.Element m.globe v := by
  rw [untouched.globe]
  exact element_congr fun id along => untouched.same id ⟨m.globe, by simp, along.reaches⟩

theorem move (untouched : m.Untouched n) (sound : m.Sound) (move : Move m.lasting n k) :
    m.Untouched k := by
  cases move with
  | @collect form env soundN live liveEnv =>
    refine ⟨untouched.tee, untouched.globe, ?_, marked_collect _ _, fun id lasting => ?_⟩
    · exact (capacity_collect ..).trans untouched.size
    · obtain ⟨root, member, path⟩ := untouched.lasting_iff.2 lasting
      have reachable : n.Reachable form env id := by
        refine ⟨root, ?_, path⟩
        simp only [List.mem_cons, List.not_mem_nil, or_false] at member ⊢
        tauto
      have held : ∀ id, n.Reachable form env id → n.arena.Taken id := fun _ =>
        soundN.taken_of_reachable live liveEnv
      exact (cell_collect soundN.arena.plain held reachable).trans (untouched.same id lasting)
  | @grow b grows =>
    refine ⟨untouched.tee, untouched.globe, ?_, grows.sound.plain, fun id lasting => ?_⟩
    · exact grows.extends'.size.trans untouched.size
    · exact (grows.extends'.kept id (untouched.taken sound lasting)).trans
        (untouched.same id lasting)
  | @write id v apart =>
    refine ⟨untouched.tee, untouched.globe, ?_, fun other => ?_, fun other lasting => ?_⟩
    · exact (capacity_setCdr ..).trans untouched.size
    · exact (marked_setCdr ..).trans (untouched.plain other)
    · refine (cell_setCdr_of_ne ?_).trans (untouched.same other lasting)
      rintro rfl
      exact apart lasting
  | keep arena tee globe =>
    refine ⟨tee.trans untouched.tee, globe.trans untouched.globe, ?_, ?_, ?_⟩
    · rw [arena, untouched.size]
    · rw [arena]
      exact untouched.plain
    · rw [arena]
      exact untouched.same

theorem course (untouched : m.Untouched n) (sound : m.Sound)
    (course : Course m.lasting False n k) : m.Untouched k := by
  induction course with
  | refl => exact untouched
  | tail _ step ih =>
    rcases step with move | ⟨never, -⟩
    · exact ih.move sound move
    · exact never.elim

theorem collect (untouched : m.Untouched n) (sound : m.Sound) (stack : n.stack = m.stack)
    (empty : m.stack = .nil) : (n.collect .nil .nil).arena = (m.collect .nil .nil).arena := by
  have held : ∀ id, m.Reachable .nil .nil id → m.arena.Taken id := fun _ =>
    sound.taken_of_reachable (live_nil _) (live_nil _)
  rw [arena_collect, arena_collect, untouched.tee, untouched.globe, stack]
  refine collect_congr sound.arena.plain held untouched.size untouched.plain fun id reached => ?_
  refine untouched.same id ?_
  obtain ⟨root, member, path⟩ := reached
  simp only [empty, List.mem_cons, List.not_mem_nil, or_false, or_self] at member
  obtain rfl | rfl | rfl := member
  · exact ⟨m.tee, by simp, path⟩
  · exact ⟨m.globe, by simp, path⟩
  · exact absurd path not_path_nil

theorem table (untouched : m.Untouched n) (table : m.arena.Table m.globe rows) :
    n.arena.Table n.globe rows := by
  have same : ∀ {id}, m.arena.Reaches m.globe id → n.arena.cell id = m.arena.cell id := fun path =>
    untouched.same _ ⟨m.globe, by simp, path⟩
  rw [untouched.globe]
  refine table.same fun e member => ?_
  obtain ⟨list, binding, key⟩ := table.reaches member
  exact ⟨same list, same binding, same key⟩

theorem sameGlobals (before : m.Untouched n) (after : m.Untouched k)
    (table : m.arena.Table m.globe rows) : n.sameGlobals k = true := by
  have there := before.table table
  have elements : n.arena.elementsWithin (n.arena.capacity + 1) n.globe =
      some (rows.map Entry.binding) := there.elementsWithin_eq (Nat.lt_succ_of_le there.length_le)
  rw [Machine.sameGlobals, elements]
  simp only [Bool.and_eq_true, beq_iff_eq, List.all_eq_true, List.mem_map]
  refine ⟨after.globe.trans before.globe.symm, ?_⟩
  rintro _ ⟨e, member, rfl⟩
  have lasting : e.binding ∈ m.lasting := ⟨m.globe, by simp, (table.reaches member).2.1⟩
  simp only [cdr, cell?_cell, before.same _ lasting, after.same _ lasting]

end Untouched

theorem Turn.course_of_sameGlobals (sound : m.Sound) (untouched : m.Untouched n)
    (turn : Turn m.lasting False n k) (same : n.sameGlobals k = true) :
    Course m.lasting False n k := by
  obtain ⟨p, q, course, last, arena, tee, globe⟩ := turn
  have there := untouched.course sound course
  rcases last with rfl | update
  · exact course.trans (.keep arena tee globe)
  · -- an update that the comparison does not see wrote the value that was there
    unfold Machine.sameGlobals at same
    split at same
    · cases same
    · rename_i ids within
      simp only [Bool.and_eq_true, beq_iff_eq, List.all_eq_true] at same
      obtain ⟨sameGlobe, tails⟩ := same
      cases update with
      | @assign id v element _ =>
        have old := there.element_iff.1 element
        have kept : p.arena.cell id = n.arena.cell id := by
          have lasting : id ∈ m.lasting :=
            ⟨m.globe, by simp, old.path (fun _ _ => not_false) (.here id)⟩
          rw [there.same id lasting, untouched.same id lasting]
        have tail := tails id (mem_elementsWithin within (untouched.element_iff.2 old))
        have unchanged : p.arena.setCdr id v = p.arena := by
          apply setCdr_eq_self
          cases content : p.arena.cell id with
          | pair head rest =>
            rw [arena, cdr_of_pair (cell_setCdr_of_pair content), cdr_of_pair (kept ▸ content)]
              at tail
            rw [tail, Cell.withTail]
          | symbol => rfl
          | free => rfl
        exact course.trans (.keep (arena.trans unchanged) tee globe)
      | define _ _ bound =>
        obtain ⟨entry, mid, list, first, second, rfl⟩ := bound
        -- the list cell of the definition was free, and the global environment is not
        have lasting : list ∈ m.lasting := by
          refine ⟨m.globe, by simp, ?_⟩
          rw [← untouched.globe, ← sameGlobe, globe]
          exact .here list
        exact absurd (first.extends.taken (there.taken sound lasting)) second.fresh

end Machine

namespace Lisp

open Machine

/-- An evaluation that has no answer if the global environment or a value in it changed. -/
def readOnly (ev : Evaluator) : Evaluator := fun form env m =>
  match ev form env m with
  | none => none
  | some (outcome, n) => if m.sameGlobals n then some (outcome, n) else none

/-- Evaluates a form of a program that does not change the global environment. -/
def evalReadOnly : Nat → Evaluator
  | 0 => fun _ _ => endless
  | n + 1 => readOnly (evalStep (evalReadOnly n) n)

open Classical in
/-- An evaluation that has no answer if there was an update of the global environment since `start`. -/
noncomputable def byMoves (start : Machine) (ev : Evaluator) : Evaluator := fun form env m =>
  match ev form env m with
  | none => none
  | some (outcome, n) =>
    if Course start.lasting False start m ∧ Course start.lasting False m n then some (outcome, n)
    else none

/-- Evaluates a form of a program without updates of the global environment, at any depth. -/
noncomputable def evalByMoves (start : Machine) : Nat → Evaluator
  | 0 => fun _ _ => endless
  | n + 1 => byMoves start (evalStep (evalByMoves start n) n)

variable {m n start : Machine} {ev : Evaluator} {form env : Value}

theorem readOnly_eq_some_iff {outcome : Except Fault Value} :
    readOnly ev form env m = some (outcome, n) ↔
      ev form env m = some (outcome, n) ∧ m.sameGlobals n = true := by
  unfold readOnly
  rcases ev form env m with _ | ⟨outcome', n'⟩
  · simp
  · by_cases same : m.sameGlobals n' = true
    · simp only [same, if_true, Option.some.injEq, Prod.mk.injEq]
      constructor
      · rintro ⟨rfl, rfl⟩
        exact ⟨⟨rfl, rfl⟩, same⟩
      · exact And.left
    · simp only [same, Bool.false_eq_true, if_false, Option.some.injEq, Prod.mk.injEq, reduceCtorEq,
        false_iff]
      rintro ⟨⟨-, rfl⟩, same'⟩
      exact same same'

theorem of_byMoves {outcome : Except Fault Value}
    (ran : byMoves start ev form env m = some (outcome, n)) :
    ev form env m = some (outcome, n) ∧ Course start.lasting False start m ∧
      Course start.lasting False m n := by
  unfold byMoves at ran
  rcases evaluated : ev form env m with _ | ⟨outcome', n'⟩
  · rw [evaluated] at ran
    cases ran
  · rw [evaluated] at ran
    dsimp only at ran
    split at ran
    · rename_i courses
      cases ran
      exact ⟨rfl, courses⟩
    · cases ran

theorem readOnly_eq_some_of_course {outcome : Except Fault Value} {rows : List Entry}
    (sound : start.Sound) (defines : start.Defines rows) (untouched : start.Untouched m)
    (ran : ev form env m = some (outcome, n)) (course : Course start.lasting False m n) :
    readOnly ev form env m = some (outcome, n) :=
  readOnly_eq_some_iff.2 ⟨ran, untouched.sameGlobals (untouched.course sound course) defines.table⟩

/-- An evaluation without updates passes at every depth. -/
theorem approximates_evalByMoves {rows : List Entry} (sound : start.Sound)
    (defines : start.Defines rows) (fuel : Nat) (form env : Value) :
    Approximates (evalByMoves start fuel form env) (evalReadOnly fuel form env) := by
  induction fuel generalizing form env with
  | zero => exact .endless _
  | succ n ih =>
    intro m outcome k ran
    obtain ⟨ran, before, course⟩ := of_byMoves ran
    have untouched := (Untouched.refl sound).course sound before
    have passed := approximates_evalStep ih le_rfl ran
    exact readOnly_eq_some_of_course sound defines untouched passed course

theorem approximates_evalReadOnly (fuel : Nat) (form env : Value) :
    Approximates (evalReadOnly fuel form env) (eval fuel form env) := by
  induction fuel generalizing form env with
  | zero => exact .endless _
  | succ n ih =>
    intro m outcome k ran
    exact approximates_evalStep ih le_rfl (readOnly_eq_some_iff.1 ran).1

theorem preserves_evalReadOnly (fuel : Nat) : Preserves (evalReadOnly fuel) :=
  fun ready member live => (approximates_evalReadOnly fuel _ _).ensures
    (preserves_eval fuel ready member live)

theorem shelter_untouched (sound : m.Sound) : Shelter m.lasting False m.Untouched :=
  ⟨fun untouched _ lasting => untouched.taken sound lasting,
    fun untouched course => untouched.course sound course⟩

/-- An evaluation that changes no value of the global environment makes no update of it. -/
theorem moving_evalReadOnly (sound : m.Sound) (fuel : Nat) :
    Moving m.lasting False m.Untouched (evalReadOnly fuel) := by
  refine ⟨preserves_evalReadOnly fuel, ?_⟩
  induction fuel with
  | zero => exact fun _ _ => ensures_endless
  | succ fuel ih =>
    intro k held env form working live
    have turn := leads_evalStep (shelter_untouched sound) ⟨preserves_evalReadOnly fuel, ih⟩ working
      fuel live
    unfold Leads Ensures
    rcases ran : evalReadOnly (fuel + 1) form env k with _ | ⟨outcome, n⟩
    · trivial
    · obtain ⟨ran, same⟩ := readOnly_eq_some_iff.1 ran
      cases outcome with
      | ok v => exact (turn.ok ran).course_of_sameGlobals sound working.holds same
      | error fault => exact (turn.error ran).course_of_sameGlobals sound working.holds same

end Lisp

end ArenaLisp
