import ArenaLisp.Proofs.Arena.Storing
import ArenaLisp.Proofs.Text.Lexing
import ArenaLisp.Text.Read

/-!
# What a read takes in

A read depends on the characters that are unread after blanks and a comment, and on nothing else of
the console (`Console.read_of_onward`). It takes at least one character for an expression. Unless the
input ends, its faults are ones that a session survives.
-/

namespace ArenaLisp

open Token

variable {c d : Console} {a b : Arena} {frames : List Frame} {n n' : Nat}

/-- The characters that the next token is at the start of. -/
def Console.onward (c : Console) : List Byte :=
  (skipped c.unread).2

theorem Console.onward_congr (same : d.unread = c.unread) : d.onward = c.onward := by
  rw [onward, onward, same]

theorem Console.nextToken_of_onward (same : d.onward = c.onward) :
    d.nextToken.1 = c.nextToken.1 ∧ d.nextToken.2.unread = c.nextToken.2.unread := by
  rw [unread_nextToken, unread_nextToken, left_scan, left_scan]
  show (scanItem d.onward).token? = (scanItem c.onward).token? ∧
    (scanItem d.onward).left = (scanItem c.onward).left
  rw [same]
  exact ⟨rfl, rfl⟩

theorem Console.length_nextToken {token : Token} (found : c.nextToken.1 = some token) :
    c.nextToken.2.unread.length < c.unread.length :=
  length_of_nextToken (Prod.ext found rfl)

theorem Console.unread_nextToken_eq_nil (none : c.nextToken.1 = none) :
    c.nextToken.2.unread = [] := by
  rw [unread_nextToken]
  exact left_scan_eq_nil none

namespace Reading

/-- Reads with enough rounds from consoles that go on with the same characters come to the same. -/
theorem run_of_onward (same : d.onward = c.onward) (hn : c.unread.length < n)
    (hn' : d.unread.length < n') :
    ∃ d', run n' frames d a = ((run n frames c a).1, d', (run n frames c a).2.2) ∧
      d'.onward = (run n frames c a).2.1.onward := by
  induction n generalizing n' frames c d a with
  | zero => omega
  | succ n ih =>
    obtain _ | n' := n'
    · omega
    obtain ⟨tokens, unread⟩ := Console.nextToken_of_onward same
    have less := @Console.length_nextToken c
    have less' := @Console.length_nextToken d
    rw [run, run]
    rcases taken : c.nextToken with ⟨_ | token, c'⟩
    · rw [taken] at tokens unread
      rcases taken' : d.nextToken with ⟨_ | _, d'⟩
      · rw [taken'] at unread
        exact ⟨d', rfl, Console.onward_congr unread⟩
      · rw [taken'] at tokens
        cases tokens
    · rw [taken] at tokens unread less
      rcases taken' : d.nextToken with ⟨_ | _, d'⟩
      · rw [taken'] at tokens
        cases tokens
      rw [taken'] at tokens unread less'
      cases tokens
      have onward := Console.onward_congr unread
      have shorter := less rfl
      have shorter' := less' rfl
      dsimp only at shorter shorter' ⊢
      rcases (step token frames).run a with ⟨fault | v | frames', b⟩
      · exact ⟨d', rfl, onward⟩
      · exact ⟨d', rfl, onward⟩
      · exact ih onward (by omega) (by omega)

/-- No read gives characters back, and one that does not come to the end of the input takes some. -/
theorem length_run (n : Nat) (frames : List Frame) (c : Console) (a : Arena) :
    (run n frames c a).2.1.unread.length ≤ c.unread.length ∧
      ((run n frames c a).1 ≠ .error .endOfInput →
        (run n frames c a).2.1.unread.length < c.unread.length) := by
  induction n generalizing frames c a with
  | zero => exact ⟨le_refl _, by simp [run]⟩
  | succ n ih =>
    have less := @Console.length_nextToken c
    have none := @Console.unread_nextToken_eq_nil c
    rw [run]
    rcases taken : c.nextToken with ⟨_ | token, c'⟩
    · rw [taken] at none
      have empty := none rfl
      dsimp only at empty ⊢
      exact ⟨by simp [empty], by simp⟩
    · rw [taken] at less
      have shorter := less rfl
      dsimp only at shorter ⊢
      rcases (step token frames).run a with ⟨fault | v | frames', b⟩
      · exact ⟨shorter.le, fun _ => shorter⟩
      · exact ⟨shorter.le, fun _ => shorter⟩
      · obtain ⟨le, -⟩ := ih frames' c' b
        exact ⟨le.trans shorter.le, fun _ => le.trans_lt shorter⟩

end Reading

theorem Console.read_of_onward (same : d.onward = c.onward) :
    ∃ d', d.read a = ((c.read a).1, d', (c.read a).2.2) ∧ d'.onward = (c.read a).2.1.onward :=
  Reading.run_of_onward same (Nat.lt_succ_self _) (Nat.lt_succ_self _)

/-! ### Faults -/

namespace Storing

variable {α β : Type}

/-- A computation none of whose faults ends a session. -/
def Mild (f : Storing α) : Prop :=
  ∀ a, Ensures f a (fun _ _ => True) fun fault _ => fault.isFatal = false

namespace Mild

theorem pure (v : α) : Mild (pure v) :=
  fun _ => trivial

theorem throw {fault : Fault} (ordinary : fault.isFatal = false) : Mild (throw fault : Storing α) :=
  fun _ => ordinary

theorem bind {f : Storing α} {g : α → Storing β} (first : Mild f) (next : ∀ v, Mild (g v)) :
    Mild (f >>= g) := by
  intro a
  rw [ensures_bind]
  exact (first a).mono (fun v b _ => next v b) fun _ _ ordinary => ordinary

theorem take (content : Cell) : Mild (Arena.take content) := by
  rintro ⟨slots, _ | id, count⟩
  · exact rfl
  · trivial

theorem map {f : Storing α} {g : α → β} (mild : Mild f) : Mild (g <$> f) := by
  rw [map_eq_pure_bind]
  exact mild.bind fun _ => .pure _

theorem cons (head tail : Value) : Mild (Arena.cons head tail) :=
  (take _).map

theorem symbol (name : Symbol) : Mild (Arena.symbol name) :=
  (take _).map

end Mild

end Storing

namespace Reading

open Storing

theorem mild_makeList (elements : List Value) (tail : Value) : Mild (makeList elements tail) := by
  induction elements generalizing tail with
  | nil => exact .pure tail
  | cons element elements ih => exact .bind (.cons element tail) ih

theorem mild_makeQuoted (v : Value) : Mild (makeQuoted v) :=
  .bind (.symbol _) fun _ => .bind (.cons _ _) fun _ => .cons _ _

theorem mild_makeWord (letters : List Byte) : Mild (makeWord letters) := by
  unfold makeWord
  split
  · exact .throw rfl
  · split
    · exact .pure _
    · exact .symbol _

theorem mild_deliver (v : Value) (frames : List Frame) : Mild (deliver v frames) := by
  induction frames generalizing v with
  | nil => exact .pure _
  | cons frame frames ih =>
    cases frame with
    | quoted => exact .bind (mild_makeQuoted v) ih
    | list elements => exact .pure _
    | dotted elements => exact .pure _
    | remainder elements tail =>
      unfold deliver
      split
      · exact .bind (mild_makeList elements tail) ih
      · exact .throw rfl

theorem mild_step (token : Token) (frames : List Frame) : Mild (step token frames) := by
  unfold step
  split
  · exact .pure _
  · exact .pure _
  · exact .bind (mild_makeWord _) fun v => mild_deliver v frames
  · exact .bind (mild_makeList _ _) fun v => mild_deliver v _
  · exact .throw rfl
  · exact .pure _
  · exact .pure _

theorem fault_run {fault : Fault} (failed : (run n frames c a).1 = .error fault) :
    fault = .endOfInput ∨ fault.isFatal = false := by
  induction n generalizing frames c a with
  | zero =>
    cases failed
    exact .inl rfl
  | succ n ih =>
    rw [run] at failed
    rcases taken : c.nextToken with ⟨_ | token, c'⟩
    · rw [taken] at failed
      cases failed
      exact .inl rfl
    · have mild := mild_step token frames a
      unfold Ensures at mild
      rw [taken] at failed
      dsimp only at failed
      rcases stepped : (step token frames).run a with ⟨fault | v | frames', b⟩
      · rw [stepped] at failed mild
        cases failed
        exact .inr mild
      · rw [stepped] at failed
        cases failed
      · rw [stepped] at failed
        exact ih failed

/-- A read with enough rounds comes to the end of the input only where nothing is left. -/
theorem unread_run_of_end (enough : c.unread.length < n)
    (ended : (run n frames c a).1 = .error .endOfInput) : (run n frames c a).2.1.unread = [] := by
  induction n generalizing frames c a with
  | zero => omega
  | succ n ih =>
    have less := @Console.length_nextToken c
    have none := @Console.unread_nextToken_eq_nil c
    rw [run] at ended ⊢
    rcases taken : c.nextToken with ⟨_ | token, c'⟩
    · rw [taken] at none
      exact none rfl
    · have mild := mild_step token frames a
      unfold Ensures at mild
      rw [taken] at ended less
      have shorter := less rfl
      dsimp only at ended shorter ⊢
      rcases stepped : (step token frames).run a with ⟨fault | v | frames', b⟩
      · rw [stepped] at ended mild
        cases ended
        cases mild
      · rw [stepped] at ended
        cases ended
      · rw [stepped] at ended
        exact ih (by omega) ended

end Reading

end ArenaLisp
