import ArenaLisp.Proofs.Machine.Definitions
import ArenaLisp.Proofs.Session.Courses

/-!
# Definitions survive

Whatever a host calls, and whatever comes of it, the global environment is a table of different
names, and its rows stay where they are (`Run.globals_grow`). A definition that fails takes cells and
does nothing else.
-/

namespace ArenaLisp

/-- A machine after it took cells. -/
def Machine.GrewTo (m n : Machine) : Prop :=
  ∃ b, n = { m with arena := b } ∧ m.arena.Grows b

namespace Lisp

open Machine Arena

variable {m : Machine} {held : Set Value} {ev : Evaluator} {var val args env : Value}

/-! ### Definitions that fail -/

theorem failing_define (sound : m.Sound) (live : m.arena.Live val) :
    Ensures (define var val) m (fun _ _ => True) fun _ n => m.GrewTo n := by
  rw [define, ensures_bind, ensures_get, ensures_bind, ensures_transact]
  intro result b defined
  rcases Arena.define_cases sound.arena sound.globe live defined with
    ⟨form, rfl, rfl⟩ | ⟨binding, -, -, rfl, -⟩ | ⟨_, v, -, -, -, rfl, -⟩ | ⟨fault, rfl, room⟩
  · exact ⟨m.arena, rfl, .refl sound.arena⟩
  · trivial
  · trivial
  · exact ⟨b, rfl, room.2⟩

theorem failing_define_return (sound : m.Sound) (live : m.arena.Live val) :
    Ensures (do define var val; return var) m (fun _ _ => True) fun _ n => m.GrewTo n := by
  rw [ensures_bind]
  exact (failing_define sound live).mono (fun _ _ _ => trivial) fun _ _ grew => grew

theorem failing_defun (ready : m.Ready held) :
    Ensures (defun args) m (fun _ _ => True) fun _ n => m.GrewTo n := by
  have sound := ready.sound.arena
  simp only [defun, ensures_bind, ensures_ask]
  split
  · rw [ensures_bind, ensures_store]
    refine (grows_symbol sound _).mono ?_ fun _ b room => ⟨b, rfl, room.2⟩
    rintro lambda b ⟨grows, live⟩
    rw [ensures_bind, ensures_ask, ensures_bind, ensures_store]
    refine (grows_cons grows.sound live (grows.sound.live_cdr args)).mono ?_
      fun _ c room => ⟨c, rfl, grows.trans room.2⟩
    rintro val c ⟨grows', live'⟩
    have ready' := (ready.stage_grows (grows.trans grows')).ready ready
    refine (failing_define_return ready'.sound live').mono (fun _ _ _ => trivial) ?_
    rintro fault _ ⟨d, rfl, grows''⟩
    exact ⟨d, rfl, (grows.trans grows').trans grows''⟩
  · rw [ensures_bind]
    exact ensures_refusal ⟨m.arena, rfl, .refl sound⟩

theorem failing_defvar (preserves : Preserves ev) (ready : m.Ready held) (member : env ∈ held) :
    Ensures (defvar ev args env) m (fun _ _ => True) fun _ n => ∃ p,
      (p = m ∨ ∃ outcome, ev (m.arena.second args) env m = some (outcome, p)) ∧ p.GrewTo n := by
  have sound := ready.sound.arena
  simp only [defvar, ensures_bind, ensures_ask]
  split
  · rw [ensures_bind, ensures_ask, ensures_bind]
    have live : m.arena.Live (m.arena.second args) := sound.live_car _
    -- besides that the evaluation preserves, the run itself is kept for the statement
    refine ((preserves ready member live).and (ensures_self _)).mono ?_ ?_
    · rintro val p ⟨answers, ran⟩
      have ready' := answers.goesOn.ready ready
      exact (failing_define_return ready'.sound answers.live).mono (fun _ _ _ => trivial)
        fun _ n grew => ⟨p, .inr ⟨_, ran⟩, grew⟩
    · rintro fault n ⟨stops, ran⟩
      exact ⟨n, .inr ⟨_, ran⟩, n.arena, rfl, .refl (stops.stage.ready ready).sound.arena⟩
  · rw [ensures_bind]
    exact ensures_refusal ⟨m, .inl rfl, m.arena, rfl, .refl sound⟩

end Lisp

namespace Run

open Machine

variable {m n : Machine} {known : Set Value}

theorem call_defines {call : Call} {fuel : Nat} {outcome : Except Fault (Option Value)}
    {rows : List Entry} (run : Run m known) (allowed : call.Allowed m known)
    (performed : call.perform fuel m = some (outcome, n)) (defines : m.Defines rows) :
    ∃ new, n.Defines (new ++ rows) := by
  obtain ⟨standing, nil⟩ := run.standing
  have leads := Call.leads call fuel standing nil allowed
  rcases outcome with fault | v
  · exact (leads.error performed).defines defines
  · exact (leads.ok performed).defines defines

theorem defines (run : Run m known) : ∃ rows, m.Defines rows := by
  induction run with
  | start made => exact ⟨[], (registers_new made).1 ▸ .nil, List.nodup_nil⟩
  | call run allowed performed ih =>
    obtain ⟨rows, defines⟩ := ih
    obtain ⟨new, defines⟩ := run.call_defines allowed performed defines
    exact ⟨_, defines⟩
  | adopt _ _ _ ih => exact ih

/-- In every state of a run the global environment is a map, and looking a name up in it comes to an
end. After any call its rows are there with the same cells in the same order, and new names are in
front of them. What a definition that fails does itself, at any stage, is to take cells. -/
theorem globals_grow (run : Run m known) : ∃ rows, m.Defines rows ∧
    (∀ name, ∃ search, search ≠ .endless ∧ m.arena.lookup name m.globe = search ∧
      ∀ bound, rows.length < bound → m.arena.lookupWithin name bound m.globe = search) ∧
    (∀ call fuel outcome n, Call.Allowed m known call →
      call.perform fuel m = some (outcome, n) → ∃ new, n.Defines (new ++ rows)) ∧
    ∀ (k n : Machine) held args env fuel fault, k.Ready held → env ∈ held →
      (Lisp.defun args k = some (.error fault, n) → k.GrewTo n) ∧
      (Lisp.defvar (Lisp.eval fuel) args env k = some (.error fault, n) →
        ∃ p, (p = k ∨ ∃ outcome,
          Lisp.eval fuel (k.arena.second args) env k = some (outcome, p)) ∧ p.GrewTo n) := by
  obtain ⟨rows, defines⟩ := run.defines
  refine ⟨rows, defines, ?_, ?_, ?_⟩
  · intro name
    refine ⟨_, ?_, defines.table.lookup_eq name, fun bound => defines.table.lookupWithin_eq name⟩
    split <;> simp
  · exact fun call fuel outcome n allowed performed => run.call_defines allowed performed defines
  · intro k n held args env fuel fault ready member
    exact ⟨(Lisp.failing_defun ready).error,
      (Lisp.failing_defvar (Lisp.preserves_eval fuel) ready member).error⟩

/-- The form `(DEFVAR A (GLOBALS))`. -/
def knot : Sexp :=
  .pair (.symbol (.ofBuiltin (.special .defvar))) (.pair (.symbol ⟨1600⟩)
    (.pair (.pair (.symbol (.ofBuiltin (.primitive .globals))) .nil) .nil))

/-- A machine that has evaluated `knot`, with the value of `A` and the number of collections. It also
protects the form `(DEFUN B)`, for which it has one cell too few, and collects before each step. -/
def tying (v : Value) (collections : Nat) : Machine where
  arena := {
    slots := #[⟨.symbol Symbol.tee, false⟩, ⟨.symbol (.ofBuiltin (.special .defvar)), false⟩,
      ⟨.symbol ⟨1600⟩, false⟩, ⟨.symbol (.ofBuiltin (.primitive .globals)), false⟩,
      ⟨.pair (.cell 3) .nil, false⟩, ⟨.pair (.cell 4) .nil, false⟩,
      ⟨.pair (.cell 2) (.cell 5), false⟩, ⟨.pair (.cell 1) (.cell 6), false⟩,
      ⟨.pair (.cell 7) .nil, false⟩, ⟨.symbol (.ofBuiltin (.special .defun)), false⟩,
      ⟨.symbol ⟨3200⟩, false⟩, ⟨.pair (.cell 10) .nil, false⟩, ⟨.pair (.cell 9) (.cell 11), false⟩,
      ⟨.pair (.cell 12) (.cell 8), false⟩, ⟨.pair (.cell 3) .nil, false⟩,
      ⟨.pair (.cell 14) (.cell 13), false⟩, ⟨.pair (.cell 2) v, false⟩,
      ⟨.pair (.cell 16) .nil, false⟩, ⟨.free .nil, false⟩]
    freeList := .cell 18
    freeCount := 1 }
  console := { pending := [] }
  settings := { workspace := 19, threshold := 19 }
  globe := .cell 17
  stack := .cell 13
  tee := .cell 0
  collections

/-- After evaluating `knot` twice the value of `A` is the global environment. -/
def knotted : Machine :=
  tying (.cell 17) 6

set_option maxRecDepth 4000 in
theorem run_knotted : ∃ known, Run knotted known := by
  have live : ∀ {m : Machine} {id head tail}, m.arena.cell id = .pair head tail →
      m.arena.Live (.cell id) := fun pair => Arena.live_cell_iff.2 (Arena.taken_of_pair pair)
  have made : Run _ _ :=
    @Run.start { workspace := 19, threshold := 19 } { pending := [] } _ rfl
  have stored : Run _ _ := @Run.call 0 (.tree knot) _ _ _ _ made trivial rfl
  have kept : Run _ _ := @Run.call 0 (.protect (.cell 7)) _ _ _ _ stored (live rfl) rfl
  have stored : Run _ _ := @Run.call 0 (.tree (.pair (.symbol (.ofBuiltin (.special .defun)))
    (.pair (.symbol ⟨3200⟩) .nil))) _ _ _ _ kept trivial rfl
  have kept : Run _ _ := @Run.call 0 (.protect (.cell 12)) _ _ _ _ stored (live rfl) rfl
  have defined : Run (tying .nil 3) _ := @Run.call 4 (.eval (.cell 7) .nil) _ _ _
    (.ok (some (.cell 2))) kept ⟨live rfl, kept.standing.2, .inl rfl⟩ rfl
  exact ⟨_, @Run.call 4 (.eval (.cell 7) .nil) _ knotted _ (.ok (some (.cell 2))) defined
    ⟨live rfl, defined.standing.2, .inl rfl⟩ rfl⟩

theorem globals_grow_knotted :
    ∃ known n, Run knotted known ∧ knotted.arena.cdr (.cell 16) = knotted.globe ∧
      (Call.eval (.cell 12) .nil).perform 4 knotted = some (.error .noRoom, n) ∧
      ∃ new, n.Defines (new ++ [⟨17, 16, 2, ⟨1600⟩⟩]) := by
  obtain ⟨known, run⟩ := run_knotted
  obtain ⟨rows, defines, -, grow, -⟩ := globals_grow run
  have table : knotted.arena.Table knotted.globe [⟨17, 16, 2, ⟨1600⟩⟩] :=
    .cons (e := ⟨17, 16, 2, ⟨1600⟩⟩) rfl rfl rfl .nil
  obtain rfl := defines.table.unique table
  have ran : ((Call.eval (.cell 12) .nil).perform 4 knotted).map (·.1) = some (.error .noRoom) := rfl
  obtain ⟨⟨_, n⟩, performed, rfl⟩ := Option.map_eq_some_iff.1 ran
  refine ⟨known, n, run, rfl, performed, grow _ _ _ _ ?_ performed⟩
  exact ⟨Arena.live_cell_iff.2 (Arena.taken_of_pair rfl), run.standing.2, .inl rfl⟩

end Run

end ArenaLisp
