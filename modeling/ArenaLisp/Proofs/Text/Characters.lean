import ArenaLisp.Text.Progress

/-!
# Tokens from characters

`Console.nextToken` finds a token in all that is unread at once. `Console.item?` takes one character
after the other, looks at each of them, and puts the last one back if it is a bracket that ends a word.
It has no answer if a loop does not end in time, or if a character is put back where there is one
already. It always has one, and it is the same token on the same console (`Console.item?_eq`).
-/

namespace ArenaLisp

open Token

namespace Console

/-! ### Character by character -/

/-- What is to be looked at: the character that was just taken, unless there was none, and the console
after it. -/
abbrev Sight := Option Byte × Console

/-- Puts a character back, if none is there. -/
def unget? (c : Console) (b : Byte) : Option Console :=
  match c.pushedBack with
  | none => some (c.unget b)
  | some _ => none

/-- Takes characters until one fails a test, at most a given number of them. -/
def skip? (test : Byte → Bool) : Nat → Sight → Option Sight
  | _, (none, c) => some (none, c)
  | 0, (some b, c) => if test b then none else some (some b, c)
  | n + 1, (some b, c) => if test b then skip? test n c.get else some (some b, c)

/-- Takes the letters of a word, as long as there is room for them, behind those taken before. -/
def spell : Nat → List Byte → Sight → List Byte × Sight
  | 0, letters, sight => (letters, sight)
  | _, letters, (none, c) => (letters, none, c)
  | room + 1, letters, (some b, c) =>
    if b.isDelimiter then (letters, some b, c) else spell room (letters ++ [b]) c.get

def word? (sight : Sight) : Option (Option Token × Console) :=
  match spell wordLength [] sight with
  | (letters, none, c) => some (some (.word letters), c)
  | (letters, some b, c) =>
    if b.isBracket then (c.unget? b).map fun c => (some (.word letters), c)
    else some (some (.word letters), c)

/-- Takes blanks, and the comment after them. -/
def pass? (n : Nat) (sight : Sight) : Option Sight := do
  let sight ← skip? Byte.isBlank n sight
  if sight.1 = some Byte.semicolon then skip? (· != Byte.openBracket) n sight else some sight

def find? : Sight → Option (Option Token × Console)
  | (none, c) => some (none, c)
  | (some b, c) =>
    match b.token? with
    | some token => some (some token, c)
    | none => word? (some b, c)

/-- Takes the next token, character by character. -/
def item? (c : Console) : Option (Option Token × Console) :=
  pass? c.unread.length c.get >>= find?

/-! ### Characters taken one by one -/

variable {c : Console} {taken left rest more letters : List Byte} {b : Byte} {test : Byte → Bool}
  {n : Nat}

theorem echoed_nil (c : Console) : c.echoed [] = c := by
  rw [echoed]
  split <;> rfl

theorem echo_putBytes (c : Console) (bytes : List Byte) : (c.putBytes bytes).echo = c.echo := by
  induction bytes generalizing c with
  | nil => rfl
  | cons b bytes ih => exact ih (c.put b)

theorem echoed_echoed (c : Console) (taken more : List Byte) :
    (c.echoed taken).echoed more = c.echoed (taken ++ more) := by
  cases echo : c.echo with
  | false => simp [echoed, echo]
  | true =>
    have still := (echo_putBytes c (taken.filter (· != Byte.carriageReturn))).trans echo
    simp only [echoed, echo, still, if_true, List.filter_append]
    exact (List.foldl_append ..).symm

theorem echoed_behind (c : Console) (taken pending : List Byte) (kept : Option Byte) :
    { c.echoed taken with pending := pending, pushedBack := kept } =
      { c with pending := pending, pushedBack := kept }.echoed taken := by
  have bytes : ∀ (bytes : List Byte) (c : Console),
      { c.putBytes bytes with pending := pending, pushedBack := kept } =
        { c with pending := pending, pushedBack := kept }.putBytes bytes := by
    intro bytes
    induction bytes with
    | nil => exact fun _ => rfl
    | cons b bytes ih => exact fun c => ih (c.put b)
  unfold echoed
  split
  · exact bytes _ c
  · rfl

/-- What is to be looked at after some characters were taken, with some others left. -/
def sight (c : Console) (taken : List Byte) : List Byte → Sight
  | [] => (none, c.advance taken [] none)
  | b :: rest => (some b, c.advance (taken ++ [b]) rest none)

/-- What the characters taken add to the output: all but one that had been put back. -/
def fresh (c : Console) (taken : List Byte) : List Byte :=
  match c.pushedBack with
  | some _ => taken.drop 1
  | none => taken

theorem advance_eq (c : Console) (taken rest : List Byte) (kept : Option Byte) :
    c.advance taken rest kept =
      { c with pending := rest, pushedBack := kept }.echoed (c.fresh taken) := rfl

theorem get_eq_sight (c : Console) : c.get = c.sight [] c.unread := by
  rcases c with ⟨_ | ⟨b, pending⟩, _ | kept, echo, output, last⟩
  · simp [get, sight, unread, advance_eq, fresh, echoed_nil]
  · simp [get, sight, unread, advance_eq, fresh, echoed_nil]
  · rfl
  · simp [get, sight, unread, advance_eq, fresh, echoed_nil]

theorem get_of_cons (pending : c.pending = b :: rest) (empty : c.pushedBack = none) :
    c.get = (some b, { c with pending := rest, pushedBack := none }.echoed [b]) := by
  rcases c with ⟨pending', kept, echo, output, last⟩
  cases pending
  cases empty
  rfl

theorem get_of_nil (pending : c.pending = []) (empty : c.pushedBack = none) : c.get = (none, c) := by
  rcases c with ⟨pending', kept, echo, output, last⟩
  cases pending
  cases empty
  rfl

theorem fields_advance (c : Console) (taken rest : List Byte) (kept : Option Byte) :
    (c.advance taken rest kept).pending = rest ∧ (c.advance taken rest kept).pushedBack = kept := by
  have same : { c.advance taken rest kept with pending := rest, pushedBack := kept } =
      c.advance taken rest kept := echoed_behind ..
  exact ⟨(congrArg pending same).symm, (congrArg pushedBack same).symm⟩

theorem get_sight (some : taken ≠ []) (left : List Byte) :
    (c.advance taken left none).get = c.sight taken left := by
  obtain ⟨pending, empty⟩ := fields_advance c taken left none
  cases left with
  | nil => exact get_of_nil pending empty
  | cons b rest =>
    -- a character that had been put back is the first of those taken, not the next one
    have together : c.fresh (taken ++ [b]) = c.fresh taken ++ [b] := by
      unfold fresh
      split
      · exact List.drop_append_of_le_length (List.length_pos_iff.2 some)
      · rfl
    rw [get_of_cons pending empty, sight, advance_eq, advance_eq, echoed_behind, echoed_echoed,
      together]

theorem unget?_advance (c : Console) (taken rest : List Byte) (b : Byte) :
    (c.advance taken rest none).unget? b = some (c.advance taken rest (some b)) := by
  obtain ⟨pending, empty⟩ := fields_advance c taken rest none
  have whole : (c.advance taken rest none).unget b = c.advance taken rest (some b) := by
    rw [unget, pending]
    exact echoed_behind { c with pending := rest, pushedBack := none } (c.fresh taken) rest (some b)
  rw [unget?, empty, whole]

/-! ### The loops -/

theorem skip?_sight (enough : left.length ≤ n) (c : Console) (taken : List Byte) :
    skip? test n (c.sight taken left) =
      some (c.sight (taken ++ left.takeWhile test) (left.dropWhile test)) := by
  induction left generalizing n taken with
  | nil =>
    rw [List.takeWhile_nil, List.append_nil]
    cases n <;> rfl
  | cons b rest ih =>
    obtain ⟨n, rfl⟩ : ∃ k, n = k + 1 := ⟨n - 1, by simp at enough; omega⟩
    rw [sight, skip?]
    split
    · rename_i passes
      rw [get_sight (by simp), ih (Nat.le_of_succ_le_succ enough), List.takeWhile_cons_of_pos passes,
        List.dropWhile_cons_of_pos passes, List.append_assoc, List.singleton_append]
    · rename_i fails
      rw [List.takeWhile_cons_of_neg fails, List.dropWhile_cons_of_neg fails, List.append_nil, sight]

theorem spell_sight (room : Nat) (letters : List Byte) (c : Console) (taken left : List Byte) :
    spell room letters (c.sight taken left) =
      let word := (left.take room).takeWhile fun b => !b.isDelimiter
      (letters ++ word, c.sight (taken ++ word) (left.drop word.length)) := by
  induction left generalizing room letters taken with
  | nil => cases room <;> simp [sight, spell]
  | cons b rest ih =>
    cases room with
    | zero => simp [spell]
    | succ room =>
      rw [sight, spell]
      split
      · rename_i ends
        simp [ends, sight]
      · rename_i letter
        rw [get_sight (by simp), ih]
        simp [letter]

theorem word?_sight (c : Console) (taken left : List Byte) :
    word? (c.sight taken left) = some ((scanWord left).token?,
      c.advance (taken ++ (scanWord left).taken) (scanWord left).rest (scanWord left).kept) := by
  rw [word?, spell_sight, scanWord]
  dsimp only
  cases left.drop ((left.take wordLength).takeWhile fun b => !b.isDelimiter).length with
  | nil => rfl
  | cons b rest =>
    simp only [sight, List.nil_append]
    split
    · rw [unget?_advance, Option.map_some, List.append_assoc]
    · rw [List.append_assoc]

theorem pass?_sight (enough : left.length ≤ n) (c : Console) :
    pass? n (c.sight [] left) = some (c.sight (skipped left).1 (skipped left).2) := by
  have first : (c.sight (left.takeWhile Byte.isBlank) (left.dropWhile Byte.isBlank)).1 =
      (left.dropWhile Byte.isBlank).head? := by
    cases left.dropWhile Byte.isBlank <;> rfl
  have enough' := Nat.le_trans (List.dropWhile_suffix Byte.isBlank).length_le enough
  simp only [pass?, skip?_sight enough, List.nil_append, Option.bind_eq_bind, Option.bind_some, first,
    skipped]
  split
  · exact skip?_sight enough' c _
  · rfl

theorem find?_sight (c : Console) (taken left : List Byte) :
    find? (c.sight taken left) = some ((scanItem left).token?,
      c.advance (taken ++ (scanItem left).taken) (scanItem left).rest (scanItem left).kept) := by
  cases left with
  | nil => simp [sight, find?, scanItem]
  | cons b rest =>
    rw [sight, find?, scanItem]
    cases single : b.token? with
    | some token => rfl
    | none => exact word?_sight c taken (b :: rest)

theorem item?_eq (c : Console) : c.item? = some c.nextToken := by
  rw [item?, get_eq_sight, pass?_sight (Nat.le_refl _)]
  exact find?_sight c _ _

end Console

end ArenaLisp
