import ArenaLisp.Proofs.Text.Characters
import ArenaLisp.Proofs.Text.Descent

/-!
# The end of the input

A read never puts a character back where there is one (`Reading.runs_readOn`). It takes at least one,
unless it comes to the end of the input, and then every later read does (`Console.progress_read`).
-/

namespace ArenaLisp

namespace Reading

variable {frames : List Frame} {a b : Arena} {c d : Console} {v : Value} {token : Token}

/-- What a read comes to that takes character by character, with no bound on how long it goes on. -/
inductive Runs : List Frame → Console → Arena → Result → Prop where
  | ended {frames : List Frame} {c d : Console} {a : Arena} :
    c.item? = some (none, d) → Runs frames c a (.error .endOfInput, d, a)
  | refused {frames : List Frame} {c d : Console} {a b : Arena} {token : Token} {fault : Fault} :
    c.item? = some (some token, d) → (step token frames).run a = (.error fault, b) →
    Runs frames c a (.error fault, d, b)
  | complete {frames : List Frame} {c d : Console} {a b : Arena} {token : Token} {v : Value} :
    c.item? = some (some token, d) → (step token frames).run a = (.ok (.complete v), b) →
    Runs frames c a (.ok v, d, b)
  | goesOn {frames inner : List Frame} {c d : Console} {a b : Arena} {token : Token}
    {outcome : Result} :
    c.item? = some (some token, d) → (step token frames).run a = (.ok (.within inner), b) →
    Runs inner d b outcome → Runs frames c a outcome

theorem runs_readOn (frames : List Frame) (c : Console) (a : Arena) :
    Runs frames c a (readOn frames c a) := by
  induction size : c.unread.length using Nat.strong_induction_on generalizing frames c a with
  | _ size ih =>
    have item := c.item?_eq
    rw [readOn_eq]
    rcases taken : c.nextToken with ⟨_ | token, d⟩ <;> rw [taken] at item
    · exact .ended item
    · dsimp only [goOn]
      rcases stepped : (step token frames).run a with ⟨fault | v | inner, b⟩
      · exact .refused item stepped
      · exact .complete item stepped
      · exact .goesOn item stepped (ih _ (size ▸ Console.length_of_nextToken taken) inner d b rfl)

end Reading

namespace Console

open Reading

/-! ### Progress -/

/-- The number of characters of the input that are not taken yet, and one more if a character was put
back. -/
def remaining (c : Console) : Nat :=
  c.pending.length + if c.pushedBack.isSome then 1 else 0

variable {a b : Arena} {c d : Console}

theorem remaining_eq (c : Console) : c.remaining = c.unread.length := by
  rcases c with ⟨pending, _ | kept, echo, output, last⟩ <;> rfl

theorem read_of_unread_nil (empty : c.unread = []) (a : Arena) :
    (c.read a).1 = .error .endOfInput := by
  have absent : c.nextToken.1 = none := by
    show (Token.scan c.unread).token? = none
    rw [empty]
    rfl
  rw [← readOn_nil, readOn_nil_eq]
  split
  · rfl
  · rename_i taken
    rw [taken] at absent
    cases absent

/-- What a single read does with its input. -/
structure Progress (c : Console) (a : Arena) : Prop where
  runs : Runs [] c a (c.read a)
  takes : (c.read a).1 ≠ .error .endOfInput → (c.read a).2.1.remaining < c.remaining
  keeps : (c.read a).2.1.remaining ≤ c.remaining
  /-- At the end of the input nothing is left, and so it is at every later read. -/
  ended : (c.read a).1 = .error .endOfInput → (c.read a).2.1.remaining = 0 ∧
    ∀ (d : Console) (b : Arena), d.unread = (c.read a).2.1.unread →
      (d.read b).1 = .error .endOfInput

theorem progress_read (c : Console) (a : Arena) : c.Progress a := by
  obtain ⟨keeps, takes⟩ := length_run (c.unread.length + 1) [] c a
  refine ⟨runs_readOn [] c a, ?_, ?_, ?_⟩
  · rwa [remaining_eq, remaining_eq]
  · rwa [remaining_eq, remaining_eq]
  · intro ended
    have empty := unread_run_of_end (Nat.lt_succ_self _) ended
    refine ⟨by rw [remaining_eq]; exact congrArg List.length empty, fun d b same => ?_⟩
    exact read_of_unread_nil (same.trans empty) b

/-! ### One read after the other -/

/-- Reads that follow each other on one input, whatever happens to the arena and is written in
between. -/
def Follows (c : Nat → Console) (a : Nat → Arena) : Prop :=
  ∀ i, (c (i + 1)).unread = ((c i).read (a i)).2.1.unread

variable {cs : Nat → Console} {as : Nat → Arena}

theorem Follows.ended {i j : Nat} (follows : Follows cs as) (later : i ≤ j)
    (ended : ((cs i).read (as i)).1 = .error .endOfInput) :
    ((cs j).read (as j)).1 = .error .endOfInput := by
  induction later with
  | refl => exact ended
  | @step j _ ih => exact ((progress_read (cs j) (as j)).ended ih).2 _ _ (follows j)

theorem Follows.remaining {n : Nat} (follows : Follows cs as)
    (before : ∀ i < n, ((cs i).read (as i)).1 ≠ .error .endOfInput) :
    (cs n).remaining + n ≤ (cs 0).remaining := by
  induction n with
  | zero => exact le_rfl
  | succ n ih =>
    have sofar := ih fun i less => before i (less.trans (Nat.lt_succ_self n))
    have takes := (progress_read (cs n) (as n)).takes (before n (Nat.lt_succ_self n))
    rw [remaining_eq, ← follows n, ← remaining_eq] at takes
    omega

/-- With `n` characters to read, one of the first `n + 1` reads comes to the end of the input, and so do
all that follow it. -/
theorem reads_end (follows : Follows cs as) : ∃ i ≤ (cs 0).remaining,
    ∀ j, i ≤ j → ((cs j).read (as j)).1 = .error .endOfInput := by
  -- if no read before that comes to the end, each has taken a character and none is left
  by_cases before : ∀ i < (cs 0).remaining, ((cs i).read (as i)).1 ≠ .error .endOfInput
  · have none := follows.remaining before
    have empty : (cs (cs 0).remaining).unread = [] := by
      rw [← List.length_eq_zero_iff, ← remaining_eq]
      omega
    exact ⟨_, le_rfl, fun j later => follows.ended later (read_of_unread_nil empty _)⟩
  · simp only [not_forall, not_not] at before
    obtain ⟨i, less, ended⟩ := before
    exact ⟨i, less.le, fun j later => follows.ended later ended⟩

end Console

end ArenaLisp
