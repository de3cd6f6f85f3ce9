import ArenaLisp.Proofs.Session.Transcripts
import ArenaLisp.Proofs.Text.Endings

/-!
# Sessions end

Each turn of a session takes a character of the input, or finds that it has ended. So a session whose
evaluations and printings all return takes turns until the input has ended, and no more
(`Lisp.session_ends`).
-/

namespace ArenaLisp

namespace Lisp

open Machine

variable {m n k : Machine} {held : Set Value} {fuel fuel' limit : Nat}

/-! ### Turns with larger bounds -/

theorem approximates_turnShowing (more : fuel ≤ fuel') :
    Approximates (turnShowing fuel) (turnShowing fuel') := by
  refine .tryCatch (.bind ?_ fun _ => .refl _)
  refine .next fun _ => .next fun _ => .next fun form => .next fun _ => ?_
  exact .bind (approximates_eval more form .nil) fun _ => .refl _

theorem approximates_turn (more : fuel ≤ fuel') : Approximates (turn fuel) (turn fuel') := by
  rw [turn_eq_showing, turn_eq_showing]
  exact (approximates_turnShowing more).map

theorem approximates_turnsShowing (more : fuel ≤ fuel') (limit : Nat) :
    Approximates (turnsShowing fuel limit) (turnsShowing fuel' limit) := by
  induction limit with
  | zero => exact .refl _
  | succ limit ih =>
    refine .bind (approximates_turnShowing more) fun shown => ?_
    cases shown with
    | none => exact .refl _
    | some shown => exact .bind ih fun _ => .refl _

theorem approximates_turns (more : fuel ≤ fuel') (limit : Nat) :
    Approximates (turns fuel limit) (turns fuel' limit) := by
  rw [turns_eq_showing, turns_eq_showing]
  exact (approximates_turnsShowing more limit).map

theorem approximates_runShowing (more : fuel ≤ fuel') :
    Approximates (runShowing fuel) (runShowing fuel') :=
  .next fun _ => .next fun limit => .bind (approximates_turnsShowing more limit) fun _ => .refl _

/-! ### Turns that return -/

def Proceeds (m k : Machine) : Prop :=
  ∃ fuel, turn fuel m = some (.ok true, k)

/-- What is read in the next turn is evaluated to an end, and so is its value printed. -/
def Responds (m : Machine) : Prop :=
  ∀ form k, receive (m.collect .nil .nil).prompt = some (.ok form, k) →
    (∃ fuel, eval fuel form .nil { k with console := k.console.freshLine } ≠ none) ∧
    ∀ fuel v p, eval fuel form .nil { k with console := k.console.freshLine } = some (.ok v, p) →
      p.arena.print v ≠ none

/-- A session takes turns up to one that finds the input ended. -/
inductive Ends : Machine → Machine → Prop where
  | last {m n : Machine} {fuel : Nat} : turn fuel m = some (.ok false, n) → Ends m n
  | next {m k n : Machine} : Proceeds m k → Ends k n → Ends m n

theorem receive_ne_none (m : Machine) : receive m ≠ none := by
  rw [receive, bind_apply, read_apply]
  rcases (m.console.read m.arena).1 with fault | form
  · exact fun never => by cases never
  · show (protect form >>= fun _ => pure form) _ ≠ none
    have ran : ∀ k, protect form k = (store (Arena.cons form k.stack) >>= fun stack =>
      modify ({ · with stack })) k := fun _ => rfl
    rw [bind_apply, ran, bind_apply, store_apply]
    rcases (Arena.cons form _).run _ with ⟨fault | stack, b⟩
    · exact fun never => by cases never
    · exact fun never => by cases never

theorem turn_ne_none (returns : cycle fuel m ≠ none) : turn fuel m ≠ none := by
  obtain ⟨⟨fault | ⟨⟩, k⟩, ran⟩ := Option.ne_none_iff_exists'.1 returns
  · rw [turn, tryCatch_apply, bind_apply, ran]
    cases fault <;> exact fun never => by cases never
  · rw [turn_of_ok ran]
    exact fun never => by cases never

theorem turn_returns (responds : Responds m) : ∃ fuel, turn fuel m ≠ none := by
  obtain ⟨⟨fault | form, k⟩, received⟩ :=
    Option.ne_none_iff_exists'.1 (receive_ne_none (m.collect .nil .nil).prompt)
  · refine ⟨0, turn_ne_none ?_⟩
    rw [cycle_of_unread received]
    exact fun never => by cases never
  · obtain ⟨⟨fuel, evaluates⟩, prints⟩ := responds form k received
    refine ⟨fuel, turn_ne_none ?_⟩
    obtain ⟨⟨fault | v, p⟩, evaluated⟩ := Option.ne_none_iff_exists'.1 evaluates
    · rw [cycle_of_received received, bind_apply, evaluated]
      exact fun never => by cases never
    · rw [cycle_of_received received, bind_apply, evaluated]
      exact conclude_ne_none (prints fuel v p evaluated)

/-- A turn that returns takes a character, unless the input has ended. -/
theorem turn_takes (ready : m.Ready held) (nil : .nil ∈ held) {outcome : Except Fault Bool}
    (ran : turn fuel m = some (outcome, k)) :
    (outcome = .ok false ∧ k.console.unread = []) ∨
      outcome = .ok true ∧ k.console.unread.length < m.console.unread.length ∧
        ∃ held, k.Ready held ∧ .nil ∈ held := by
  have turned := turned_turnShowing ready nil fuel
  rw [turn_eq_showing, map_eq_pure_bind, bind_apply] at ran
  rcases shows : turnShowing fuel m with _ | ⟨fault | shown, k'⟩
  · rw [shows] at ran
    cases ran
  · rw [shows] at turned
    cases turned
  · rw [shows] at ran
    cases ran
    have takes := (tells_turnShowing ready nil shows).takes
    cases shown with
    | none => exact .inl ⟨rfl, takes⟩
    | some shown => exact .inr ⟨rfl, takes, ready_turnShowing nil ready shows⟩

/-- Turns all of which return come to the end of the input, if there may be as many as characters to
read. -/
theorem turns_end (ready : m.Ready held) (nil : .nil ∈ held)
    (responds : ∀ k, Relation.ReflTransGen Proceeds m k → Responds k) :
    ∃ n fuel, Ends m n ∧ n.console.unread = [] ∧
      ∀ limit, m.console.unread.length < limit → turns fuel limit m = some (.ok (), n) := by
  induction size : m.console.unread.length using Nat.strong_induction_on generalizing m held with
  | _ size ih =>
    obtain ⟨fuel, returns⟩ := turn_returns (responds m .refl)
    obtain ⟨⟨outcome, k⟩, ran⟩ := Option.ne_none_iff_exists'.1 returns
    rcases turn_takes ready nil ran with ⟨rfl, empty⟩ | ⟨rfl, less, held', ready', nil'⟩
    · refine ⟨k, fuel, .last ran, empty, fun limit enough => ?_⟩
      obtain ⟨limit, rfl⟩ : ∃ l, limit = l + 1 := ⟨limit - 1, by omega⟩
      rw [turns, bind_apply, ran]
      rfl
    · have proceeds : Proceeds m k := ⟨fuel, ran⟩
      -- the turn and those after it were run with bounds of their own, and go on with the larger
      obtain ⟨n, fuel', ends, empty, ran'⟩ := ih _ (size ▸ less) ready' nil'
        (fun p later => responds p (.head proceeds later)) rfl
      refine ⟨n, max fuel fuel', .next proceeds ends, empty, fun limit enough => ?_⟩
      obtain ⟨limit, rfl⟩ : ∃ l, limit = l + 1 := ⟨limit - 1, by omega⟩
      rw [turns, bind_apply, approximates_turn (le_max_left ..) ran]
      exact approximates_turns (le_max_right ..) limit (ran' limit (by omega))

/-- A session on a machine whose evaluations and printings all return ends, when its input does. -/
theorem session_ends (ready : m.Ready held) (nil : .nil ∈ held)
    (responds : ∀ k, Relation.ReflTransGen Proceeds m.greet k → Responds k) :
    ∃ n, Ends m.greet n ∧ n.console.unread = [] ∧
      ∃ fuel, ∀ fuel' ≥ fuel,
        run fuel' m = some (.ok (), { n with console := n.console.freshLine }) := by
  have readyG := ready.goesOn_greet.ready ready
  obtain ⟨n, fuel, ends, empty, ran⟩ := turns_end readyG nil responds
  refine ⟨n, ends, empty, fuel, fun fuel' more => ?_⟩
  show (turns fuel' (m.greet.console.unread.length + 1) >>= fun _ => write Console.freshLine)
    m.greet = _
  rw [bind_apply, approximates_turns more _ (ran _ (Nat.lt_succ_self _))]
  rfl

/-! ### Sessions that have ended -/

theorem turn_unique {x y : Except Fault Bool × Machine} (first : turn fuel m = some x)
    (second : turn fuel' m = some y) : x = y := by
  have first' := approximates_turn (le_max_left fuel fuel') first
  have second' := approximates_turn (le_max_right fuel fuel') second
  exact Option.some.inj (first'.symm.trans second')

theorem responds_of_turn (returns : turn fuel m ≠ none) : Responds m := by
  intro form k received
  have cycled : cycle fuel m ≠ none := by
    intro endless
    rw [turn, tryCatch_apply, bind_apply, endless] at returns
    exact returns rfl
  rw [cycle_of_received received, bind_apply] at cycled
  rcases evaluated : eval fuel form .nil { k with console := k.console.freshLine } with
    _ | ⟨outcome, q⟩
  · rw [evaluated] at cycled
    exact absurd rfl cycled
  · refine ⟨⟨fuel, evaluated ▸ Option.some_ne_none _⟩, fun fuel' v p evaluated' endless => ?_⟩
    have first := approximates_eval (le_max_left fuel fuel') form .nil evaluated
    have second := approximates_eval (le_max_right fuel fuel') form .nil evaluated'
    cases first.symm.trans second
    rw [evaluated] at cycled
    refine cycled ?_
    show (print v >>= _) { q with console := q.console.freshLine } = none
    rw [bind_apply, print, answer]
    simp only [endless]

/-- Where turns that take the input to its end have an outcome, all that is read on the way is evaluated
and printed to an end. -/
theorem responds_of_turns (ready : m.Ready held) (nil : .nil ∈ held)
    (enough : m.console.unread.length < limit) (returns : turns fuel limit m ≠ none)
    (reached : Relation.ReflTransGen Proceeds m k) : Responds k := by
  induction limit generalizing m held with
  | zero => omega
  | succ limit ih =>
    rw [turns, bind_apply] at returns
    rcases ran : turn fuel m with _ | ⟨outcome, p⟩
    · rw [ran] at returns
      exact absurd rfl returns
    · rcases Relation.ReflTransGen.cases_head reached with rfl | ⟨q, ⟨fuel', ran'⟩, later⟩
      · exact responds_of_turn (ran ▸ Option.some_ne_none _)
      · cases turn_unique ran ran'
        rw [ran] at returns
        rcases turn_takes ready nil ran with ⟨ended, -⟩ | ⟨-, less, held', ready', nil'⟩
        · cases ended
        · exact ih ready' nil' (by omega) returns later

/-- Where a session has an outcome, all that is read in it is evaluated and printed to an end. -/
theorem responds_of_run (ready : m.Ready held) (nil : .nil ∈ held) (returns : run fuel m ≠ none)
    (reached : Relation.ReflTransGen Proceeds m.greet k) : Responds k := by
  have readyG := ready.goesOn_greet.ready ready
  have turned : turns fuel (m.greet.console.unread.length + 1) m.greet ≠ none := by
    intro endless
    refine returns ?_
    show (turns fuel (m.greet.console.unread.length + 1) >>= fun _ => write Console.freshLine)
      m.greet = none
    rw [bind_apply, endless]
  exact responds_of_turns readyG nil (Nat.lt_succ_self _) turned reached

/-! ### The reader and the session -/

/-- Every read ends and takes some of the input or finds its end, reads that follow each other find it
before there are more of them than characters, and so a session ends if all that it evaluates and prints
does. -/
theorem input_ends :
    (∀ (c : Console) (a : Arena), c.Progress a) ∧
    (∀ (cs : Nat → Console) (as : Nat → Arena), Console.Follows cs as →
      ∃ i ≤ (cs 0).remaining, ∀ j, i ≤ j → ((cs j).read (as j)).1 = .error .endOfInput) ∧
    ∀ (m : Machine) (known : Set Value), m.Standing known → .nil ∈ known →
      (∀ k, Relation.ReflTransGen Proceeds m.greet k → Responds k) →
      ∃ n, Ends m.greet n ∧ n.console.unread = [] ∧ ∃ fuel, ∀ fuel' ≥ fuel,
        run fuel' m = some (.ok (), { n with console := n.console.freshLine }) :=
  ⟨Console.progress_read, fun _ _ => Console.reads_end, fun _ _ standing nil =>
    session_ends standing.ready ⟨nil, .inl rfl⟩⟩

/-- Two expressions, a bracket too many and one too few. -/
def unbalanced : String :=
  "(CONS T ())) B (T"

/-- Whether a session on it has an outcome. -/
def unbalancedEnds : Bool :=
  match Machine.new { workspace := 31, threshold := 12 } (Console.ofText unbalanced) with
  | .ok m => (run 8 m).isSome
  | .error _ => false

theorem input_ends_unbalanced :
    ∃ m : Machine, m.Standing {.nil} ∧
      (∀ k, Relation.ReflTransGen Proceeds m.greet k → Responds k) ∧
      ∃ n, Ends m.greet n ∧ n.console.unread = [] ∧ ∃ fuel, ∀ fuel' ≥ fuel,
        run fuel' m = some (.ok (), { n with console := n.console.freshLine }) := by
  have ends : unbalancedEnds = true := by decide +kernel
  unfold unbalancedEnds at ends
  split at ends
  · rename_i m new
    have standing := standing_new new
    have responds : ∀ k, Relation.ReflTransGen Proceeds m.greet k → Responds k :=
      fun k => responds_of_run standing.ready ⟨rfl, .inl rfl⟩ (Option.isSome_iff_ne_none.1 ends)
    exact ⟨m, standing, responds, input_ends.2.2 m {.nil} standing rfl responds⟩
  · cases ends

end Lisp

end ArenaLisp
