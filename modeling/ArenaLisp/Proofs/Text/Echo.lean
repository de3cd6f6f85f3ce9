import ArenaLisp.Proofs.Text.Layouts
import ArenaLisp.Proofs.Text.Output

/-!
# Echo

A read does not look at what was written (`Console.read_mute`). With echo, the reads that take an input
to its end copy each character of it once (`Console.echo_readAll`).
-/

namespace ArenaLisp.Console

variable {c d : Console} {a : Arena} {n : Nat}

/-- A console at the same characters, at which nothing was written and nothing is copied. -/
def mute (c : Console) : Console :=
  { pending := c.pending, pushedBack := c.pushedBack }

@[simp] theorem unread_mute (c : Console) : c.mute.unread = c.unread := by
  rcases c with ⟨pending, _ | back, echo, output, last⟩ <;> rfl

@[simp] theorem mute_putBytes (c : Console) (bytes : List Byte) :
    (c.putBytes bytes).mute = c.mute := by
  induction bytes generalizing c with
  | nil => rfl
  | cons b bytes ih => exact ih (c.put b)

@[simp] theorem mute_putText (c : Console) (text : String) : (c.putText text).mute = c.mute :=
  mute_putBytes ..

@[simp] theorem mute_endLine (c : Console) : c.endLine.mute = c.mute := rfl

@[simp] theorem mute_freshLine (c : Console) : c.freshLine.mute = c.mute := by
  unfold freshLine
  split <;> rfl

@[simp] theorem mute_echoed (c : Console) (taken : List Byte) :
    (c.echoed taken).mute = c.mute := by
  unfold echoed
  split
  · exact mute_putBytes ..
  · rfl

theorem advance_mute (c : Console) (taken rest : List Byte) (kept : Option Byte) :
    c.mute.advance taken rest kept = (c.advance taken rest kept).mute := by
  rcases c with ⟨pending, back, echo, output, last⟩
  show _ = (echoed ⟨rest, kept, echo, output, last⟩ _).mute
  rw [mute_echoed]
  rfl

theorem nextToken_mute (c : Console) : c.mute.nextToken = (c.nextToken.1, c.nextToken.2.mute) := by
  rw [nextToken, unread_mute, advance_mute]
  rfl

theorem run_mute (n : Nat) (frames : List Frame) (c : Console) (a : Arena) :
    Reading.run n frames c.mute a = ((Reading.run n frames c a).1,
      (Reading.run n frames c a).2.1.mute, (Reading.run n frames c a).2.2) := by
  induction n generalizing frames c a with
  | zero => rfl
  | succ n ih =>
    rw [Reading.run, Reading.run, nextToken_mute]
    rcases c.nextToken with ⟨_ | token, d⟩
    · rfl
    · dsimp only
      rcases (Reading.step token frames).run a with ⟨fault | v | inner, b⟩
      · rfl
      · rfl
      · exact ih inner d b

/-- A read comes to the same whatever was written before, and wherever characters are copied. -/
theorem read_mute (c : Console) (a : Arena) :
    c.mute.read a = ((c.read a).1, (c.read a).2.1.mute, (c.read a).2.2) := by
  rw [read, unread_mute]
  exact run_mute ..

theorem readAllWithin_mute (n : Nat) (c : Console) (a : Arena) :
    readAllWithin n c.mute a = readAllWithin n c a := by
  induction n generalizing c a with
  | zero => rfl
  | succ n ih =>
    rcases read : c.read a with ⟨outcome, d, b⟩
    have read' := c.read_mute a
    rw [read] at read'
    by_cases ended : outcome = .error .endOfInput
    · subst ended
      rw [readAllWithin_of_end read, readAllWithin_of_end read']
    · rw [(readAllWithin_of_ne read ended).1, (readAllWithin_of_ne read' ended).1, ih]

theorem readAll_mute (c : Console) (a : Arena) : c.mute.readAll a = c.readAll a := by
  rw [readAll, unread_mute]
  exact readAllWithin_mute ..

/-! ### What is copied -/

/-- A console on an input that copies it. -/
def echoing (input : List Byte) : Console :=
  { ofBytes input with echo := true }

/-- The console after one expression was read after the other until the input ended, at most a given
number of them. -/
def readThroughWithin : Nat → Console → Arena → Console
  | 0, c, _ => c
  | n + 1, c, a =>
    match c.read a with
    | (.error .endOfInput, d, _) => d
    | (_, d, b) => readThroughWithin n d b

def readThrough (c : Console) (a : Arena) : Console :=
  readThroughWithin (c.unread.length + 1) c a

theorem copies_readThroughWithin (enough : c.unread.length < n) :
    c.Copies (readThroughWithin n c a) ∧ (readThroughWithin n c a).unread = [] := by
  induction n generalizing c a with
  | zero => omega
  | succ n ih =>
    have copies := copies_read c a
    have progress := c.progress_read a
    have less := progress.takes
    rw [remaining_eq, remaining_eq] at less
    have left := progress.ended
    rw [readThroughWithin]
    split
    · rename_i d b read
      rw [read] at copies left
      obtain ⟨none, -⟩ := left rfl
      rw [remaining_eq, List.length_eq_zero_iff] at none
      exact ⟨copies, none⟩
    · rename_i outcome d b ne read
      rw [read] at copies less
      have shorter := less ne
      obtain ⟨later, none⟩ := @ih d b (by dsimp only at shorter; omega)
      exact ⟨copies.trans later, none⟩

theorem output_readThrough (c : Console) (a : Arena) :
    (c.readThrough a).output.toList = c.output.toList ++ echoOf c.echo c.pending := by
  obtain ⟨⟨taken, goes⟩, none⟩ := @copies_readThroughWithin c a _ (Nat.lt_succ_self _)
  have all := goes.pending
  rw [pending_eq_nil none, List.append_nil] at all
  rw [readThrough, goes.output, all]

/-- Reading an input to its end comes to the same with echo and without. What was copied then is the
input, without the eighth bits and without carriage returns. -/
theorem echo_readAll (input : List Byte) (a : Arena) :
    (echoing input).readAll a = (ofBytes input).readAll a ∧
      (∃ b, ((ofBytes input).readAll a).getLast? = some (.error .endOfInput, b)) ∧
      ((echoing input).readThrough a).output.toList =
        (input.map (· &&& 0x7f)).filter (· != Byte.carriageReturn) ∧
      ((ofBytes input).readThrough a).output = #[] := by
  refine ⟨?_, getLast?_readAllWithin (Nat.lt_succ_self _), ?_, ?_⟩
  · rw [← readAll_mute, ← readAll_mute (ofBytes input)]
    rfl
  · rw [output_readThrough]
    rfl
  · rw [← Array.toList_inj, output_readThrough]
    rfl

/-- A comment, an open list, a dot too many and a bracket too many, a carriage return and a character
of eight bits. -/
example : ((echoing [59, 65, 13, 40, 46, 46, 41, 41, 0xc1]).readThrough (.new 4)).output =
    #[59, 65, 40, 46, 46, 41, 41, 65] := by
  decide +kernel

end ArenaLisp.Console
