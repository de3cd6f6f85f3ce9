import ArenaLisp.Proofs.Text.Endings

/-!
# Layouts

The same tokens can be written with any blanks before, between and after them, and with comments before
opening brackets (`Layout`). Inputs that lay out the same tokens are read alike, one expression after
the other: also in the middle of a list, and after a fault (`Console.readAll_layout`).
-/

namespace ArenaLisp

open Token

variable {tokens : List Token} {text : List Byte} {token : Token} {b : Byte}

/-- The texts that some tokens are written as. A comment stands where a token could begin, up to an
opening bracket. A word is followed by a blank or a bracket, or by nothing. -/
inductive Layout : List Token → List Byte → Prop where
  | done : Layout [] []
  | blank {tokens : List Token} {b : Byte} {text : List Byte} :
    b.isBlank = true → Layout tokens text → Layout tokens (b :: text)
  | single {tokens : List Token} {b : Byte} {token : Token} {text : List Byte} :
    b.token? = some token → Layout tokens text → Layout (token :: tokens) (b :: text)
  | word {tokens : List Token} {letters text : List Byte} :
    IsWord letters → Stops text → Layout tokens text →
    Layout (.word letters :: tokens) (letters ++ text)
  | comment {tokens : List Token} {remark text : List Byte} :
    (∀ b ∈ remark, b ≠ Byte.openBracket) → Layout tokens text →
    Layout (.opening :: tokens) (Byte.semicolon :: (remark ++ Byte.openBracket :: text))

namespace Layout

theorem of_blank (layout : Layout tokens (b :: text)) (blank : b.isBlank = true) :
    Layout tokens text := by
  generalize start : b :: text = whole at layout
  cases layout with
  | done => cases start
  | blank _ later =>
    cases start
    exact later
  | single single _ =>
    cases start
    rw [(Byte.plain_of_token? single).1] at blank
    cases blank
  | word word _ _ =>
    obtain ⟨b', others, rfl⟩ := List.exists_cons_of_ne_nil word.nonempty
    cases start
    have outside := word.inside b List.mem_cons_self
    rw [Byte.isDelimiter, blank] at outside
    cases outside
  | comment =>
    cases start
    cases blank

theorem afterWord (layout : Layout tokens text) : Layout tokens (Token.afterWord text) := by
  cases text with
  | nil => exact layout
  | cons b text =>
    rw [Token.afterWord]
    split
    · rename_i blank
      exact layout.of_blank blank
    · exact layout

theorem skipped_comment {remark : List Byte} (plain : ∀ b ∈ remark, b ≠ Byte.openBracket)
    (text : List Byte) :
    (skipped (Byte.semicolon :: (remark ++ Byte.openBracket :: text))).2 =
      Byte.openBracket :: text := by
  -- the semicolon is skipped with the remark behind it, since it is no bracket either
  have before : ∀ b ∈ Byte.semicolon :: remark, (b != Byte.openBracket) = true := by
    rintro b (_ | ⟨_, member⟩)
    · rfl
    · simpa using plain b member
  have begins : (Byte.semicolon :: (remark ++ Byte.openBracket :: text)).dropWhile Byte.isBlank =
      Byte.semicolon :: (remark ++ Byte.openBracket :: text) :=
    List.dropWhile_cons_of_neg (by decide)
  simp only [skipped, begins, List.head?_cons, if_true]
  rw [← List.cons_append, List.dropWhile_append_of_pos before]
  exact List.dropWhile_cons_of_neg (by decide)

theorem scan (layout : Layout tokens text) :
    (Token.scan text).token? = tokens.head? ∧ Layout tokens.tail (Token.scan text).left := by
  induction layout with
  | done => exact ⟨rfl, .done⟩
  | blank blank _ ih => rwa [token?_scan, left_scan, skipped_blank blank]
  | @single tokens b token text single later =>
    have found : (Token.scan (b :: text)).token? = some token := (scan_single single).1
    have left : (Token.scan (b :: text)).left = text := (scan_single single).2
    rw [found, left]
    exact ⟨rfl, later⟩
  | word word stops later =>
    obtain ⟨found, left⟩ := scan_word word stops
    rw [found, left]
    exact ⟨rfl, later.afterWord⟩
  | comment plain later =>
    rw [token?_scan, left_scan, skipped_comment plain]
    exact ⟨rfl, later⟩

theorem nextToken {c : Console} (layout : Layout tokens c.unread) :
    ∃ d, c.nextToken = (tokens.head?, d) ∧ Layout tokens.tail d.unread := by
  obtain ⟨found, left⟩ := layout.scan
  refine ⟨c.nextToken.2, Prod.ext found rfl, ?_⟩
  rwa [Console.unread_nextToken]

end Layout

namespace Reading

variable {c d : Console} {a : Arena} {frames : List Frame}

/-- Two consoles on which the same tokens are still to be read. -/
def LaidAlike (c d : Console) : Prop :=
  ∃ tokens, Layout tokens c.unread ∧ Layout tokens d.unread

/-- Reads from layouts of the same tokens come to the same, and leave layouts of the same tokens. -/
theorem readOn_of_laidAlike (alike : LaidAlike c d) (frames : List Frame) (a : Arena) :
    ∃ outcome b c' d', readOn frames c a = (outcome, c', b) ∧ readOn frames d a = (outcome, d', b) ∧
      LaidAlike c' d' := by
  obtain ⟨tokens, first, second⟩ := alike
  induction tokens generalizing c d frames a with
  | nil =>
    obtain ⟨c', taken, first⟩ := first.nextToken
    obtain ⟨d', taken', second⟩ := second.nextToken
    rw [readOn_eq, readOn_eq frames d, taken, taken']
    exact ⟨_, a, c', d', rfl, rfl, [], first, second⟩
  | cons token tokens ih =>
    obtain ⟨c', taken, first⟩ := first.nextToken
    obtain ⟨d', taken', second⟩ := second.nextToken
    rw [readOn_eq frames c, readOn_eq frames d, taken, taken']
    dsimp only [List.head?_cons, goOn]
    rcases (step token frames).run a with ⟨fault | v | inner, b⟩
    · exact ⟨_, b, c', d', rfl, rfl, tokens, first, second⟩
    · exact ⟨_, b, c', d', rfl, rfl, tokens, first, second⟩
    · exact ih inner b first second

end Reading

namespace Console

variable {c d : Console} {a b : Arena} {n n' : Nat}

/-- The outcomes of reading one expression after the other until the input ends, at most a given number
of them, each with the arena after it. -/
def readAllWithin : Nat → Console → Arena → List (Except Fault Value × Arena)
  | 0, _, _ => []
  | n + 1, c, a =>
    match c.read a with
    | (.error .endOfInput, _, b) => [(.error .endOfInput, b)]
    | (outcome, d, b) => (outcome, b) :: readAllWithin n d b

/-- The outcomes of reading one expression after the other until the input ends, each with the arena
after it. -/
def readAll (c : Console) (a : Arena) : List (Except Fault Value × Arena) :=
  readAllWithin (c.unread.length + 1) c a

theorem readAllWithin_of_end (ended : c.read a = (.error .endOfInput, d, b)) :
    readAllWithin (n + 1) c a = [(.error .endOfInput, b)] := by
  rw [readAllWithin, ended]

theorem readAllWithin_of_ne {outcome : Except Fault Value} (read : c.read a = (outcome, d, b))
    (goesOn : outcome ≠ .error .endOfInput) :
    readAllWithin (n + 1) c a = (outcome, b) :: readAllWithin n d b ∧
      d.unread.length < c.unread.length := by
  have takes := (progress_read c a).takes
  rw [remaining_eq, remaining_eq, read] at takes
  refine ⟨?_, takes goesOn⟩
  rw [readAllWithin, read]
  split
  · rename_i same
    cases same
    exact absurd rfl goesOn
  · rename_i same
    cases same
    rfl

theorem getLast?_readAllWithin (enough : c.unread.length < n) :
    ∃ b, (readAllWithin n c a).getLast? = some (.error .endOfInput, b) := by
  induction n generalizing c a with
  | zero => omega
  | succ n ih =>
    rcases read : c.read a with ⟨outcome, d, b⟩
    by_cases ended : outcome = .error .endOfInput
    · rw [readAllWithin_of_end (ended ▸ read)]
      exact ⟨b, rfl⟩
    · obtain ⟨later, less⟩ := @readAllWithin_of_ne _ _ _ _ n _ read ended
      obtain ⟨b', last⟩ := @ih d b (by omega)
      rw [later]
      exact ⟨b', by rw [List.getLast?_cons, last]; rfl⟩

theorem readAllWithin_of_laidAlike (alike : Reading.LaidAlike c d) (enough : c.unread.length < n)
    (enough' : d.unread.length < n') : readAllWithin n c a = readAllWithin n' d a := by
  induction n generalizing n' c d a with
  | zero => omega
  | succ n ih =>
    obtain ⟨n', rfl⟩ : ∃ k, n' = k + 1 := ⟨n' - 1, by omega⟩
    obtain ⟨outcome, b, c', d', read, read', alike'⟩ := Reading.readOn_of_laidAlike alike [] a
    by_cases ended : outcome = .error .endOfInput
    · subst ended
      rw [readAllWithin_of_end read, readAllWithin_of_end read']
    · obtain ⟨later, less⟩ := @readAllWithin_of_ne _ _ _ _ n _ read ended
      obtain ⟨later', less'⟩ := @readAllWithin_of_ne _ _ _ _ n' _ read' ended
      rw [later, later', @ih c' d' b n' alike' (by omega) (by omega)]

/-- How tokens are laid out does not matter to what is read, whatever is read and wherever it fails. -/
theorem readAll_layout {tokens : List Token} {c d : Console} (first : Layout tokens c.unread)
    (second : Layout tokens d.unread) (a : Arena) :
    c.readAll a = d.readAll a ∧ ∃ b, (c.readAll a).getLast? = some (.error .endOfInput, b) :=
  ⟨readAllWithin_of_laidAlike ⟨tokens, first, second⟩ (Nat.lt_succ_self _) (Nat.lt_succ_self _),
    getLast?_readAllWithin (Nat.lt_succ_self _)⟩

/-- A word as long as words can be, which is no symbol. -/
def longWord : List Byte :=
  (List.range wordLength).map fun n => UInt8.ofNat (97 + n)

/-- A quoted word in a list, a bracket too many and a word too long for a symbol. -/
def jumble : List Token :=
  [.opening, .quote, .word [65], .closing, .closing, .word longWord]

/-- The tokens written with nothing in between. -/
def tersely : String :=
  "('A))abcdefghijklmnopq"

/-- The same tokens with blanks and a comment. -/
def laxly : String :=
  " ; 2 )\n( 'A\t)\r\n) abcdefghijklmnopq "

theorem readAll_layout_jumble :
    Layout jumble (Console.ofText tersely).unread ∧ Layout jumble (Console.ofText laxly).unread ∧
      (Console.ofText tersely).readAll (.new 8) = (Console.ofText laxly).readAll (.new 8) := by
  have terse : (Console.ofText tersely).unread =
      [40, 39] ++ ([65] ++ ([41, 41] ++ (longWord ++ []))) := by
    decide +kernel
  have lax : (Console.ofText laxly).unread = 32 :: Byte.semicolon :: ([32, 50, 32, 41, 10] ++
      Byte.openBracket :: ([32, 39] ++ ([65] ++ ([9, 41, 13, 10, 41, 32] ++ (longWord ++ [32]))))) := by
    decide +kernel
  have first : Layout jumble (Console.ofText tersely).unread := by
    rw [terse]
    refine .single rfl (.single rfl (.word (by decide) (by decide) ?_))
    exact .single rfl (.single rfl (.word (by decide) (by decide) .done))
  have second : Layout jumble (Console.ofText laxly).unread := by
    rw [lax]
    refine .blank rfl (.comment (by simp [Byte.openBracket]) (.blank rfl (.single rfl ?_)))
    refine .word (by decide) (by decide) (.blank rfl (.single rfl (.blank rfl (.blank rfl ?_))))
    exact .single rfl (.blank rfl (.word (by decide) (by decide) (.blank rfl .done)))
  exact ⟨first, second, (readAll_layout first second _).1⟩

end Console

end ArenaLisp
