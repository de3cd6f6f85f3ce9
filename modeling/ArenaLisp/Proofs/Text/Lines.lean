import ArenaLisp.Proofs.Text.Lexing
import ArenaLisp.Proofs.Text.Output

/-!
# Lines

A console remembers the character that it wrote last, so a fresh line begins where one ends
(`Console.Faithful.atLineStart`). No end of a line is inside the text of a legible tree or of a number,
or at the end of the text of a fault.
-/

namespace ArenaLisp

/-- All that was written is some lines. -/
def AtLineStart (written : List Byte) : Prop :=
  written = [] ∨ written.getLast? = some Byte.newline

/-- As many lines end as are to end before anything else. -/
def EndsLines (lines : Nat) (written : List Byte) : Prop :=
  ∃ later, written = List.replicate lines Byte.newline ++ later ∧ later.head? ≠ some Byte.newline

namespace Console

variable {c : Console}

/-- The character that was written last is the last one of the output. -/
def Faithful (c : Console) : Prop :=
  c.output.toList.getLast?.getD Byte.newline = c.lastWritten

theorem Faithful.atLineStart (faithful : c.Faithful) (fresh : c.lastWritten = Byte.newline) :
    AtLineStart c.output.toList := by
  rw [Faithful, fresh] at faithful
  rcases last : c.output.toList.getLast? with _ | b
  · exact .inl (List.getLast?_eq_none_iff.1 last)
  · rw [last] at faithful
    exact .inr (last.trans (congrArg some faithful))

theorem faithful_put (c : Console) (b : Byte) : (c.put b).Faithful := by
  show (c.output.push b).toList.getLast?.getD _ = b
  rw [Array.toList_push, List.getLast?_concat]
  rfl

namespace Faithful

theorem putBytes (faithful : c.Faithful) (bytes : List Byte) : (c.putBytes bytes).Faithful := by
  induction bytes generalizing c with
  | nil => exact faithful
  | cons b bytes ih => exact ih (faithful_put c b)

theorem putText (faithful : c.Faithful) (text : String) : (c.putText text).Faithful :=
  faithful.putBytes _

theorem freshLine (faithful : c.Faithful) : c.freshLine.Faithful := by
  unfold Console.freshLine
  split
  · exact faithful
  · exact faithful_put c _

theorem echoed (faithful : c.Faithful) (taken : List Byte) : (c.echoed taken).Faithful := by
  unfold Console.echoed
  split
  · exact faithful.putBytes _
  · exact faithful

theorem nextToken (faithful : c.Faithful) : c.nextToken.2.Faithful := by
  rcases c with ⟨pending, back, echo, output, last⟩
  refine echoed (c := ⟨_, _, echo, output, last⟩) ?_ _
  exact faithful

theorem run (faithful : c.Faithful) (n : Nat) (frames : List Frame) (a : Arena) :
    (Reading.run n frames c a).2.1.Faithful := by
  induction n generalizing frames c a with
  | zero => exact faithful
  | succ n ih =>
    have next := faithful.nextToken
    rw [Reading.run]
    rcases taken : c.nextToken with ⟨_ | token, d⟩
    · rwa [taken] at next
    · rw [taken] at next
      dsimp only at next ⊢
      rcases (Reading.step token frames).run a with ⟨fault | v | inner, b⟩
      · exact next
      · exact next
      · exact ih next inner b

theorem read (faithful : c.Faithful) (a : Arena) : (c.read a).2.1.Faithful :=
  faithful.run _ [] a

end Faithful

theorem lastWritten_freshLine (c : Console) : c.freshLine.lastWritten = Byte.newline := by
  unfold freshLine
  split
  · assumption
  · rfl

theorem lastWritten_putBytes (c : Console) (bytes : List Byte) :
    (c.putBytes bytes).lastWritten = bytes.getLast?.getD c.lastWritten := by
  induction bytes generalizing c with
  | nil => rfl
  | cons b bytes ih =>
    rw [List.getLast?_cons, Option.getD_some]
    exact ih (c.put b)

end Console

/-! ### Texts without ends of lines -/

theorem Byte.ne_newline_of_isLetter {b : Byte} (letter : b.isLetter = true) : b ≠ Byte.newline := by
  rintro rfl
  cases letter

theorem newline_notMem_letters {s : Symbol} {text : String} (named : Symbol.ofName? text = some s) :
    Byte.newline ∉ s.letters := fun member =>
  Byte.ne_newline_of_isLetter ((Symbol.letters_spelling named).2.1 _ member) rfl

namespace Sexp

theorem newline_notMem_bytes {t : Sexp} (legible : t.Legible) :
    Byte.newline ∉ t.bytes ∧ Byte.newline ∉ t.tailBytes := by
  induction t with
  | nil => exact ⟨newline_notMem_letters Symbol.ofName?_nil, by decide⟩
  | symbol name =>
    obtain ⟨-, text, named⟩ := legible
    have plain := newline_notMem_letters named
    refine ⟨plain, ?_⟩
    rw [tailBytes_symbol]
    simp only [List.mem_cons, List.mem_append, plain, false_or, List.not_mem_nil, or_false]
    decide
  | pair head tail ihHead ihTail =>
    have plain : Byte.newline ∉ head.bytes ++ tail.tailBytes := fun member =>
      (List.mem_append.1 member).elim (ihHead legible.1).1 (ihTail legible.2).2
    rw [bytes_pair, tailBytes_pair]
    exact ⟨List.not_mem_cons_of_ne_of_not_mem (by decide) plain,
      List.not_mem_cons_of_ne_of_not_mem (by decide) plain⟩

theorem bytes_ne_nil {t : Sexp} (legible : t.Legible) : t.bytes ≠ [] := by
  cases t with
  | nil => exact (Symbol.letters_spelling Symbol.ofName?_nil).1
  | symbol name =>
    obtain ⟨-, text, named⟩ := legible
    exact (Symbol.letters_spelling named).1
  | pair head tail => simp [bytes_pair]

end Sexp

theorem newline_notMem_encode_toString (n : Nat) : Byte.newline ∉ Utf8.encode (toString n) := by
  have digits : (toString n).toList.all isNameChar = true := by
    rw [List.all_eq_true]
    intro c member
    rw [show toString n = String.ofList (Nat.toDigits 10 n) from rfl, String.toList_ofList] at member
    have digit := Nat.isDigit_of_mem_toDigits (by decide) (by decide) member
    simp only [Char.isDigit, Bool.and_eq_true, decide_eq_true_eq] at digit
    simp only [isNameChar, Bool.or_eq_true, Bool.and_eq_true, decide_eq_true_eq]
    exact .inl (.inr digit)
  intro member
  exact Byte.ne_newline_of_isLetter ((encode_name digits).2.2 _ member) rfl

/-! ### The ends of diagnostics -/

/-- A text with a last character that is no end of a line. -/
def EndsInLine (text : String) : Prop :=
  ∃ b ≠ Byte.newline, (Utf8.encode text).getLast? = some b

theorem EndsInLine.append {text : String} (ends : EndsInLine text) (before : String) :
    EndsInLine (before ++ text) := by
  obtain ⟨b, other, last⟩ := ends
  refine ⟨b, other, ?_⟩
  rw [Utf8.encode_append, List.getLast?_append, last]
  rfl

namespace Fault

theorem endsInLine_about {complaint : String} (ends : EndsInLine complaint) (form : String) :
    EndsInLine (about form complaint) := by
  unfold about
  split
  · exact ends.append _
  · exact ends.append _

theorem endsInLine_message {fault : Fault} (mild : fault.isFatal = false) :
    EndsInLine fault.message := by
  cases fault with
  | endOfInput | io => cases mild
  | noRoom | escape | closuresNotSupported | malformedList | illegalSymbol
  | unmatchedRightBracket | cantTakeCar | cantTakeCdr | unprintable | nameless =>
    exact ⟨_, by decide, rfl⟩
  | _ => exact endsInLine_about ⟨_, by decide, rfl⟩ _

end Fault

end ArenaLisp
