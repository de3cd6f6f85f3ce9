import ArenaLisp.Proofs.Text.Names
import ArenaLisp.Sexp
import ArenaLisp.Text.Progress

/-!
# The tokens of a printed tree

A legible tree is printed as the text of its tokens (`Sexp.lexes`). The text of a pair is complete with
its last bracket, whatever follows. A word is complete where a blank or a bracket follows, and a blank
is lost with it.
-/

namespace ArenaLisp

/-! ### Scanning -/

namespace Byte

/-- A character that can stand anywhere in a word. -/
def isLetter (b : Byte) : Bool :=
  !b.isDelimiter && b.token?.isNone && b != semicolon

theorem isBracket_eq_not_isBlank {b : Byte} (h : b.isDelimiter = true) :
    b.isBracket = !b.isBlank := by
  cases blank : b.isBlank with
  | false => simpa [isDelimiter, blank] using h
  | true =>
    simp only [isBlank, Bool.or_eq_true, beq_iff_eq] at blank
    obtain ((rfl | rfl) | rfl) | rfl := blank <;> rfl

theorem plain_of_token? {b : Byte} {token : Token} (h : b.token? = some token) :
    b.isBlank = false ∧ b ≠ semicolon := by
  have which : b = openBracket ∨ b = closeBracket ∨ b = apostrophe ∨ b = fullStop := by
    unfold token? at h
    grind
  obtain rfl | rfl | rfl | rfl := which <;> decide

end Byte

namespace Token

variable {input letters rest middle : List Byte} {tokens more : List Token} {token : Token}
  {b : Byte}

/-- What is left after a word: a blank that ends it is lost. -/
def afterWord : List Byte → List Byte
  | [] => []
  | b :: rest => if b.isBlank then rest else b :: rest

/-- An input before which a word ends. -/
def Stops (input : List Byte) : Prop :=
  ∀ b ∈ input.head?, b.isDelimiter = true

-- The instances are named: the search could also decide by looking at every byte there is.
instance (input : List Byte) : Decidable (Stops input) :=
  Option.decidableForallMem _

theorem skipped_blank (blank : b.isBlank = true) : (skipped (b :: input)).2 = (skipped input).2 := by
  simp only [skipped, List.dropWhile_cons, blank, if_true]
  split <;> rfl

theorem skipped_plain (plain : b.isBlank = false) (ne : b ≠ Byte.semicolon) :
    (skipped (b :: input)).2 = b :: input := by
  simp [skipped, plain, ne]

theorem token?_scan (input : List Byte) :
    (scan input).token? = (scanItem (skipped input).2).token? := rfl

theorem left_scan (input : List Byte) :
    (scan input).left = (scanItem (skipped input).2).left := rfl

theorem scan_single (h : b.token? = some token) :
    (scan (b :: input)).token? = some token ∧ (scan (b :: input)).left = input := by
  obtain ⟨plain, ne⟩ := Byte.plain_of_token? h
  rw [token?_scan, left_scan, skipped_plain plain ne, scanItem, h]
  exact ⟨rfl, rfl⟩

/-- What makes a word: some characters that do not end it, no more than there is room for, the first of
which is nothing else. -/
structure IsWord (letters : List Byte) : Prop where
  nonempty : letters ≠ []
  short : letters.length ≤ wordLength
  inside : ∀ b ∈ letters, b.isDelimiter = false
  begins : ∀ b ∈ letters.head?, b.token? = none ∧ b ≠ Byte.semicolon

instance (letters : List Byte) : Decidable (IsWord letters) :=
  letI : Decidable (∀ b ∈ letters, b.isDelimiter = false) := List.decidableBAll _ _
  letI : Decidable (∀ b ∈ letters.head?, b.token? = none ∧ b ≠ Byte.semicolon) :=
    Option.decidableForallMem _
  decidable_of_iff (letters ≠ [] ∧ letters.length ≤ wordLength ∧
      (∀ b ∈ letters, b.isDelimiter = false) ∧
      ∀ b ∈ letters.head?, b.token? = none ∧ b ≠ Byte.semicolon)
    ⟨fun ⟨nonempty, short, inside, begins⟩ => ⟨nonempty, short, inside, begins⟩,
      fun ⟨nonempty, short, inside, begins⟩ => ⟨nonempty, short, inside, begins⟩⟩

theorem takeWhile_word (word : IsWord letters) (stops : Stops rest) :
    ((letters ++ rest).take wordLength).takeWhile (fun b => !b.isDelimiter) = letters := by
  rw [List.take_append, List.take_of_length_le word.short, List.takeWhile_append_of_pos]
  · cases rest with
    | nil => simp
    | cons b rest => cases wordLength - letters.length <;> simp [stops b rfl]
  · intro b member
    rw [word.inside b member]
    rfl

theorem scan_word (word : IsWord letters) (stops : Stops rest) :
    (scan (letters ++ rest)).token? = some (.word letters) ∧
      (scan (letters ++ rest)).left = afterWord rest := by
  have found : scanItem (skipped (letters ++ rest)).2 = scanWord (letters ++ rest) := by
    obtain ⟨b, others, rfl⟩ := List.exists_cons_of_ne_nil word.nonempty
    obtain ⟨single, ne⟩ := word.begins b rfl
    have outside := word.inside b List.mem_cons_self
    simp only [Byte.isDelimiter, Bool.or_eq_false_iff] at outside
    rw [List.cons_append, skipped_plain outside.1 ne, scanItem, single]
  rw [token?_scan, left_scan, found]
  simp only [scanWord, takeWhile_word word stops, List.drop_left, Scan.left]
  cases rest with
  | nil => exact ⟨rfl, rfl⟩
  | cons b rest =>
    have bracket := Byte.isBracket_eq_not_isBlank (stops b rfl)
    cases blank : b.isBlank <;> simp [afterWord, bracket, blank]

theorem isWord_of_letters (nonempty : letters ≠ []) (all : ∀ b ∈ letters, b.isLetter = true)
    (short : letters.length < wordLength) : IsWord letters where
  nonempty := nonempty
  short := Nat.le_of_lt short
  inside b member := by
    have letter := all b member
    simp only [Byte.isLetter, Bool.and_eq_true, Bool.not_eq_true'] at letter
    exact letter.1.1
  begins b first := by
    have letter := all b (List.mem_of_mem_head? first)
    simp only [Byte.isLetter, Bool.and_eq_true, Option.isNone_iff_eq_none, bne_iff_ne] at letter
    exact ⟨letter.1.2, letter.2⟩

/-! ### Sequences of tokens -/

/-- An input begins with some tokens, after which the rest is left. -/
inductive Lexes : List Byte → List Token → List Byte → Prop where
  | done {input : List Byte} : Lexes input [] input
  | next {input rest : List Byte} {token : Token} {tokens : List Token} :
    (scan input).token? = some token → Lexes (scan input).left tokens rest →
    Lexes input (token :: tokens) rest

namespace Lexes

theorem append (first : Lexes input tokens middle) (second : Lexes middle more rest) :
    Lexes input (tokens ++ more) rest := by
  induction first with
  | done => exact second
  | next found _ ih => exact .next found (ih second)

theorem split (lexes : Lexes input (tokens ++ more) rest) :
    ∃ middle, Lexes input tokens middle ∧ Lexes middle more rest := by
  induction tokens generalizing input with
  | nil => exact ⟨input, .done, lexes⟩
  | cons token tokens ih =>
    cases lexes with
    | next found later =>
      obtain ⟨middle, first, second⟩ := ih later
      exact ⟨middle, .next found first, second⟩

theorem single (h : b.token? = some token) (later : Lexes input tokens rest) :
    Lexes (b :: input) (token :: tokens) rest := by
  obtain ⟨found, left⟩ := scan_single h
  refine .next found ?_
  rwa [left]

theorem blank (h : b.isBlank = true) (some : tokens ≠ []) (later : Lexes input tokens rest) :
    Lexes (b :: input) tokens rest := by
  cases later with
  | done => exact absurd rfl some
  | next found later =>
    rw [token?_scan, ← skipped_blank h, ← token?_scan] at found
    rw [left_scan, ← skipped_blank h, ← left_scan] at later
    exact .next found later

theorem afterWord (some : tokens ≠ []) (later : Lexes input tokens rest) :
    Lexes (afterWord input) tokens rest := by
  cases input with
  | nil => exact later
  | cons b input =>
    cases h : b.isBlank with
    | false => simpa [Token.afterWord, h] using later
    | true =>
      cases later with
      | done => exact absurd rfl some
      | next found later =>
        rw [token?_scan, skipped_blank h, ← token?_scan] at found
        rw [left_scan, skipped_blank h, ← left_scan] at later
        simpa [Token.afterWord, h] using next found later

theorem word (nonempty : letters ≠ []) (all : ∀ b ∈ letters, b.isLetter = true)
    (short : letters.length < wordLength) (stops : Stops input)
    (later : Lexes (Token.afterWord input) tokens rest) :
    Lexes (letters ++ input) (.word letters :: tokens) rest := by
  obtain ⟨found, left⟩ := scan_word (isWord_of_letters nonempty all short) stops
  refine .next found ?_
  rwa [left]

end Lexes

theorem lexes_cons_iff {c : Console} : Lexes c.unread (token :: tokens) rest ↔
    ∃ d, c.nextToken = (some token, d) ∧ Lexes d.unread tokens rest := by
  have left := Console.unread_nextToken c
  constructor
  · rintro (_ | ⟨found, later⟩)
    exact ⟨c.nextToken.2, Prod.ext found rfl, left ▸ later⟩
  · rintro ⟨d, taken, later⟩
    rw [taken] at left
    exact .next (congrArg Prod.fst taken) (left ▸ later)

end Token

theorem Console.length_of_nextToken {c d : Console} {token : Token}
    (taken : c.nextToken = (some token, d)) : d.unread.length < c.unread.length := by
  have left := unread_nextToken c
  rw [taken] at left
  rw [left]
  exact Token.length_left_scan (congrArg Prod.fst taken)

/-! ### Names -/

theorem Byte.char_injective : Function.Injective fun b : Byte => Char.ofNat b.toNat := by
  have back : ∀ b : Byte, (Char.ofNat b.toNat).toNat = b.toNat := by
    intro b
    have valid : b.toNat.isValidChar := .inl (by have := b.toNat_lt; omega)
    rw [Char.ofNat, dif_pos valid]
    rfl
  intro b b' same
  have codes := congrArg Char.toNat same
  rw [back, back] at codes
  exact UInt8.toNat_inj.1 codes

theorem encode_nameChar {c : Char} (h : isNameChar c = true) :
    ∃ b : Byte, String.utf8EncodeChar c = [b] ∧ Char.ofNat b.toNat = c ∧ b.isLetter = true := by
  have range : c.toNat < 128 := by
    have le_iff : ∀ {a b : Char}, a ≤ b ↔ a.toNat ≤ b.toNat := Iff.rfl
    simp only [isNameChar, Bool.or_eq_true, Bool.and_eq_true, decide_eq_true_eq, beq_iff_eq] at h
    obtain (⟨-, high⟩ | ⟨-, high⟩) | rfl := h
    · exact Nat.lt_of_le_of_lt (le_iff.1 high) (by decide)
    · exact Nat.lt_of_le_of_lt (le_iff.1 high) (by decide)
    · decide
  have small : ∀ n < 128, isNameChar (Char.ofNat n) = true →
      String.utf8EncodeChar (Char.ofNat n) = [UInt8.ofNat n] ∧
        Char.ofNat (UInt8.ofNat n).toNat = Char.ofNat n ∧
        Byte.isLetter (UInt8.ofNat n) = true := by decide
  have whole := small c.toNat range
  rw [Char.ofNat_toNat] at whole
  exact ⟨_, whole h⟩

theorem encode_name {text : List Char} (h : text.all isNameChar = true) :
    (text.flatMap String.utf8EncodeChar).length = text.length ∧
      (text.flatMap String.utf8EncodeChar).map (fun b => Char.ofNat b.toNat) = text ∧
      ∀ b ∈ text.flatMap String.utf8EncodeChar, Byte.isLetter b = true := by
  induction text with
  | nil => simp
  | cons c text ih =>
    obtain ⟨first, others⟩ := Bool.and_eq_true_iff.1 h
    obtain ⟨length, same, letters⟩ := ih others
    obtain ⟨b, encoded, character, letter⟩ := encode_nameChar first
    simp only [List.flatMap_cons, encoded, List.singleton_append, List.length_cons, length,
      List.map_cons, character, same, List.mem_cons, true_and]
    rintro b' (rfl | member)
    · exact letter
    · exact letters b' member

namespace Symbol

variable {s : Symbol} {text : String}

/-- The word that a symbol is written as. -/
def letters (s : Symbol) : List Byte :=
  Utf8.encode s.name

theorem letters_spelling (h : ofName? text = some s) :
    s.letters ≠ [] ∧ (∀ b ∈ s.letters, b.isLetter = true) ∧
      s.letters.length < Token.wordLength ∧
      ofName? (String.ofList (s.letters.map fun b => Char.ofNat b.toNat)) = some s := by
  obtain ⟨positive, short, spelled⟩ := name_spelling h
  obtain ⟨length, same, all⟩ := encode_name spelled
  have length' : s.letters.length = s.name.toList.length := length
  have same' : (s.letters.map fun b => Char.ofNat b.toNat) = s.name.toList := same
  refine ⟨List.length_pos_iff.1 (by omega), all, ?_, ?_⟩
  · simp only [Token.wordLength]
    omega
  · rw [same', String.ofList_toList]
    exact ofName?_name h

/-- The word of a symbol is the only one that names it. -/
theorem letters_of_ofName? {letters : List Byte}
    (named : ofName? (String.ofList (letters.map fun b => Char.ofNat b.toNat)) = some s) :
    letters = s.letters := by
  obtain ⟨-, -, -, spelled⟩ := letters_spelling named
  have same := (name_of_ofName? named).symm.trans (name_of_ofName? spelled)
  have characters := congrArg String.toList same
  rw [String.toList_ofList, String.toList_ofList] at characters
  exact List.map_injective_iff.2 Byte.char_injective characters

theorem ofName?_nil : ofName? nil.name = some nil := by
  rw [nil, name_ofBuiltin, ofName?, Builtin.ofName?_name]
  rfl

end Symbol

/-! ### Trees -/

namespace Sexp

open Token

/-- A tree whose symbols can be read back. -/
def Legible : Sexp → Prop
  | nil => True
  | symbol name => name.Legible
  | pair head tail => head.Legible ∧ tail.Legible

mutual

/-- The tokens of a tree. -/
def tokens : Sexp → List Token
  | nil => [.word Symbol.nil.letters]
  | symbol name => [.word name.letters]
  | pair head tail => .opening :: (head.tokens ++ tail.tailTokens)

/-- The tokens of a tree after the head of a list. -/
def tailTokens : Sexp → List Token
  | nil => [.closing]
  | symbol name => [.dot, .word name.letters, .closing]
  | pair head tail => head.tokens ++ tail.tailTokens

end

/-- The characters that a tree is printed as. -/
def bytes (t : Sexp) : List Byte :=
  t.chars.flatMap String.utf8EncodeChar

/-- The characters that a tree is printed as after the head of a list. -/
def tailBytes (t : Sexp) : List Byte :=
  t.tailChars.flatMap String.utf8EncodeChar

theorem encode_text (t : Sexp) : Utf8.encode t.text = t.bytes := by
  rw [text_eq, Utf8.encode, String.toList_ofList, bytes]

theorem bytes_pair (head tail : Sexp) :
    (pair head tail).bytes = Byte.openBracket :: (head.bytes ++ tail.tailBytes) := by
  rw [bytes, chars, List.cons_append, List.flatMap_cons, List.flatMap_append]
  rfl

theorem tailBytes_pair (head tail : Sexp) :
    (pair head tail).tailBytes = 32 :: (head.bytes ++ tail.tailBytes) := by
  rw [tailBytes, tailChars, List.cons_append, List.flatMap_cons, List.flatMap_append]
  rfl

theorem tailBytes_symbol (name : Symbol) :
    (symbol name).tailBytes =
      32 :: Byte.fullStop :: 32 :: (name.letters ++ [Byte.closeBracket]) := by
  simp only [tailBytes, tailChars, List.cons_append, List.flatMap_cons, List.flatMap_append]
  rfl

/-- What has to follow the text of a tree for it to end there. -/
def Ends : Sexp → List Byte → Prop
  | pair .., _ => True
  | _, rest => Stops rest

/-- What is left of an input after the text of a tree. -/
def leaves : Sexp → List Byte → List Byte
  | pair .., rest => rest
  | _, rest => afterWord rest

theorem stops_tailBytes (t : Sexp) (rest : List Byte) : Stops (t.tailBytes ++ rest) := by
  rintro b first
  cases t with
  | nil =>
    cases first
    rfl
  | symbol name =>
    rw [tailBytes_symbol] at first
    cases first
    rfl
  | pair head tail =>
    rw [tailBytes_pair] at first
    cases first
    rfl

theorem ends_of_stops {t : Sexp} {rest : List Byte} (stops : Stops rest) : t.Ends rest := by
  cases t with
  | pair => trivial
  | _ => exact stops

theorem tokens_ne_nil (t : Sexp) : t.tokens ≠ [] := by
  cases t <;> simp [tokens]

theorem tailTokens_ne_nil (t : Sexp) : t.tailTokens ≠ [] := by
  cases t with
  | pair head tail => simp [tailTokens, tokens_ne_nil head]
  | _ => simp [tailTokens]

theorem lexes_leaves {t : Sexp} {input rest : List Byte} {tokens : List Token}
    (some : tokens ≠ []) (later : Lexes input tokens rest) :
    Lexes (t.leaves input) tokens rest := by
  cases t with
  | pair => exact later
  | _ => exact later.afterWord some

/-- The text of a tree is read as its tokens, and so is the text of a tail. -/
theorem lexes {t : Sexp} (legible : t.Legible) (rest : List Byte) :
    (t.Ends rest → Lexes (t.bytes ++ rest) t.tokens (t.leaves rest)) ∧
      Lexes (t.tailBytes ++ rest) t.tailTokens rest := by
  induction t generalizing rest with
  | nil =>
    obtain ⟨nonempty, all, short, -⟩ := Symbol.letters_spelling Symbol.ofName?_nil
    exact ⟨fun stops => .word nonempty all short stops .done, .single rfl .done⟩
  | symbol name =>
    obtain ⟨-, text, named⟩ := legible
    obtain ⟨nonempty, all, short, -⟩ := Symbol.letters_spelling named
    refine ⟨fun stops => .word nonempty all short stops .done, ?_⟩
    have closed : Lexes (Byte.closeBracket :: rest) [.closing] rest := .single rfl .done
    have stops : Stops (Byte.closeBracket :: rest) := by
      rintro b ⟨⟩
      rfl
    have last := Lexes.word nonempty all short stops (closed.afterWord (by simp))
    have whole := (last.blank (b := 32) rfl (by simp)).single (b := Byte.fullStop) rfl
    rw [tailBytes_symbol, tailTokens]
    simpa using whole.blank (b := 32) rfl (by simp)
  | pair head tail ihHead ihTail =>
    obtain ⟨legibleHead, legibleTail⟩ := legible
    -- a head that is a word takes the blank behind it along, and the tail does without
    have both : Lexes (head.bytes ++ (tail.tailBytes ++ rest)) (head.tokens ++ tail.tailTokens)
        rest := by
      have first := (ihHead legibleHead (tail.tailBytes ++ rest)).1
        (ends_of_stops (stops_tailBytes tail rest))
      have second := (ihTail legibleTail rest).2
      exact first.append (lexes_leaves (tailTokens_ne_nil tail) second)
    rw [← List.append_assoc] at both
    refine ⟨fun _ => ?_, ?_⟩
    · rw [bytes_pair]
      exact .single rfl both
    · rw [tailBytes_pair]
      exact both.blank rfl (tailTokens_ne_nil (pair head tail))

end Sexp

end ArenaLisp
