import ArenaLisp.Proofs.Text.Intake

/-!
# What a console writes

Nothing that was written is taken back. A read copies the characters that it takes off the input,
but for carriage returns, and only at a console that echoes (`Console.copies_read`). A character that
was put back was copied when it was first taken.
-/

namespace ArenaLisp

open Token

theorem Utf8.encode_append (text later : String) :
    encode (text ++ later) = encode text ++ encode later := by
  simp [encode, List.flatMap_append]

/-- What is copied to the output of characters that are taken. -/
def echoOf (echo : Bool) (taken : List Byte) : List Byte :=
  if echo then taken.filter (· != Byte.carriageReturn) else []

theorem echoOf_nil (echo : Bool) : echoOf echo [] = [] := by
  cases echo <;> rfl

theorem echoOf_append (echo : Bool) (taken later : List Byte) :
    echoOf echo (taken ++ later) = echoOf echo taken ++ echoOf echo later := by
  cases echo with
  | false => rfl
  | true => exact List.filter_append ..

/-- Nothing, or the end of a line. -/
def LineEnd (written : List Byte) : Prop :=
  written = [] ∨ written = [Byte.newline]

theorem Token.taken_scan_ne_nil {input : List Byte} (some : input ≠ []) :
    (scan input).taken ≠ [] := by
  intro empty
  have whole := scan_append input
  rw [empty, List.nil_append] at whole
  cases found : (scan input).token? with
  | none =>
    have left := left_scan_eq_nil found
    rw [Scan.left, whole] at left
    exact some (List.append_eq_nil_iff.1 left).2
  | some token =>
    have less := length_left_scan found
    rw [Scan.left, whole, List.length_append] at less
    omega

namespace Console

@[simp]
theorem unread_put (c : Console) (b : Byte) : (c.put b).unread = c.unread := rfl

@[simp]
theorem unread_putText (c : Console) (text : String) : (c.putText text).unread = c.unread :=
  unread_putBytes c _

@[simp]
theorem unread_freshLine (c : Console) : c.freshLine.unread = c.unread := by
  unfold freshLine
  split
  · rfl
  · rfl

theorem freshLine_freshLine (c : Console) : c.freshLine.freshLine = c.freshLine := by
  have fresh : c.freshLine.lastWritten = Byte.newline := by
    unfold freshLine
    split
    · assumption
    · rfl
  exact if_pos fresh

theorem pending_eq_nil {c : Console} (none : c.unread = []) : c.pending = [] := by
  rcases c with ⟨pending, _ | b, echo, output, last⟩
  · exact none
  · cases none

/-- A later state of a console, that has taken some characters off the input and written some. -/
structure Goes (c : Console) (taken written : List Byte) (d : Console) : Prop where
  pending : c.pending = taken ++ d.pending
  output : d.output.toList = c.output.toList ++ written
  echo : d.echo = c.echo

variable {c d e : Console} {taken taken' written written' : List Byte}

theorem Goes.refl (c : Console) : c.Goes [] [] c :=
  ⟨rfl, (List.append_nil _).symm, rfl⟩

theorem Goes.trans (first : c.Goes taken written d) (next : d.Goes taken' written' e) :
    c.Goes (taken ++ taken') (written ++ written') e :=
  ⟨by rw [first.pending, next.pending, List.append_assoc],
    by rw [next.output, first.output, List.append_assoc], next.echo.trans first.echo⟩

/-- A step that only writes. -/
theorem Goes.write (first : c.Goes taken written d) (next : d.Goes [] written' e) :
    c.Goes taken (written ++ written') e := by
  have both := first.trans next
  rwa [List.append_nil] at both

theorem goes_put (c : Console) (b : Byte) : c.Goes [] [b] (c.put b) :=
  ⟨rfl, Array.toList_push, rfl⟩

theorem goes_putBytes (c : Console) (bytes : List Byte) : c.Goes [] bytes (c.putBytes bytes) := by
  induction bytes generalizing c with
  | nil => exact .refl c
  | cons b bytes ih => exact (goes_put c b).trans (ih (c.put b))

theorem goes_putText (c : Console) (text : String) :
    c.Goes [] (Utf8.encode text) (c.putText text) :=
  goes_putBytes c _

theorem goes_endLine (c : Console) : c.Goes [] [Byte.newline] c.endLine :=
  goes_put c _

theorem goes_freshLine (c : Console) : ∃ blank, LineEnd blank ∧ c.Goes [] blank c.freshLine := by
  unfold freshLine
  split
  · exact ⟨[], .inl rfl, .refl c⟩
  · exact ⟨_, .inr rfl, goes_endLine c⟩

theorem goes_echoed (c : Console) (taken : List Byte) :
    c.Goes [] (echoOf c.echo taken) (c.echoed taken) := by
  unfold echoed echoOf
  split
  · exact goes_putBytes c _
  · exact .refl c

/-- A console that has copied what it took off the input. -/
def Copies (c d : Console) : Prop :=
  ∃ taken, c.Goes taken (echoOf c.echo taken) d

theorem Copies.refl (c : Console) : c.Copies c :=
  ⟨[], (echoOf_nil c.echo).symm ▸ Goes.refl c⟩

theorem Copies.trans : c.Copies d → d.Copies e → c.Copies e := by
  rintro ⟨taken, goes⟩ ⟨taken', goes'⟩
  rw [goes.echo] at goes'
  exact ⟨taken ++ taken', echoOf_append .. ▸ goes.trans goes'⟩

theorem copies_of_taken {pending taken rest : List Byte} (whole : taken ++ rest = pending)
    (back kept : Option Byte) (echo : Bool) (output : Array Byte) (last : Byte) :
    Copies ⟨pending, back, echo, output, last⟩ (echoed ⟨rest, kept, echo, output, last⟩ taken) := by
  have echoes := goes_echoed ⟨rest, kept, echo, output, last⟩ taken
  exact ⟨taken, whole.symm.trans (congrArg _ echoes.pending), echoes.output, echoes.echo⟩

theorem copies_nextToken (c : Console) : c.Copies c.nextToken.2 := by
  have whole := scan_append c.unread
  have nonempty := @taken_scan_ne_nil c.unread
  rcases c with ⟨pending, _ | b, echo, output, last⟩
  · exact copies_of_taken whole none _ echo output last
  · show Copies _ (echoed _ ((scan (b :: pending)).taken.drop 1))
    replace nonempty := nonempty (List.cons_ne_nil b pending)
    change (scan (b :: pending)).taken ++ (scan (b :: pending)).rest = b :: pending at whole
    change (scan (b :: pending)).taken ≠ [] at nonempty
    rcases found : (scan (b :: pending)).taken with _ | ⟨b', taken⟩
    · exact absurd found nonempty
    · rw [found] at whole
      exact copies_of_taken (List.cons.inj whole).2 (some b) _ echo output last

theorem copies_run (n : Nat) (frames : List Frame) (c : Console) (a : Arena) :
    c.Copies (Reading.run n frames c a).2.1 := by
  induction n generalizing frames c a with
  | zero => exact .refl c
  | succ n ih =>
    have copies := copies_nextToken c
    rw [Reading.run]
    rcases next : c.nextToken with ⟨_ | token, d⟩
    · rwa [next] at copies
    · rw [next] at copies
      dsimp only at copies ⊢
      rcases (Reading.step token frames).run a with ⟨fault | v | frames', b⟩
      · exact copies
      · exact copies
      · exact copies.trans (ih frames' d b)

theorem copies_read (c : Console) (a : Arena) : c.Copies (c.read a).2.1 :=
  copies_run _ [] c a

end Console

end ArenaLisp
