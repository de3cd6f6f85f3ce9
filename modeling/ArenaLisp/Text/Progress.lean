import ArenaLisp.Text.Read

/-!
# Progress of the reader

A scan leaves less to read if it finds a token (`length_left_scan`). So the rounds that a read is allowed
are never used up: with any larger number it reads the same (`Reading.run_eq_of_lt`).
-/

namespace ArenaLisp

namespace Token

def Scan.left (s : Scan) : List Byte :=
  s.kept.toList ++ s.rest

theorem skipped_append (input : List Byte) : (skipped input).1 ++ (skipped input).2 = input := by
  simp only [skipped]
  split <;> simp [List.append_assoc, List.takeWhile_append_dropWhile]

theorem takeWhile_take_append (p : Byte → Bool) (n : Nat) (input : List Byte) :
    (input.take n).takeWhile p ++ input.drop ((input.take n).takeWhile p).length = input := by
  obtain ⟨rest, h⟩ := (List.takeWhile_prefix p).trans (List.take_prefix n input)
  have dropped : ((input.take n).takeWhile p ++ rest).drop ((input.take n).takeWhile p).length =
      rest := List.drop_left
  rw [h] at dropped
  rw [dropped, h]

theorem scanWord_append (input : List Byte) :
    (scanWord input).taken ++ (scanWord input).rest = input := by
  have whole := takeWhile_take_append (fun b => !b.isDelimiter) wordLength input
  simp only [scanWord]
  split
  · rename_i h
    rwa [h] at whole
  · rename_i h
    rw [h] at whole
    simpa using whole

theorem scanItem_append (input : List Byte) :
    (scanItem input).taken ++ (scanItem input).rest = input := by
  unfold scanItem
  split
  · rfl
  · split
    · rfl
    · exact scanWord_append _

/-- No character is lost by a scan, and none is taken twice. -/
theorem scan_append (input : List Byte) : (scan input).taken ++ (scan input).rest = input := by
  simp only [scan, List.append_assoc, scanItem_append, skipped_append]

theorem length_left_scanWord (b : Byte) (rest : List Byte) (h : b.isDelimiter = false) :
    (scanWord (b :: rest)).left.length ≤ rest.length := by
  have whole := takeWhile_take_append (fun b => !b.isDelimiter) wordLength (b :: rest)
  have total := congrArg List.length whole
  have some_letter :
      0 < (((b :: rest).take wordLength).takeWhile fun b => !b.isDelimiter).length := by
    simp [wordLength, h]
  simp only [scanWord, Scan.left]
  simp only [List.length_append, List.length_cons] at total
  split
  · simp
  · rename_i c rest' h'
    rw [h'] at total
    simp only [List.length_cons] at total
    split <;> simp <;> omega

theorem head_dropWhile {p : Byte → Bool} {input : List Byte} {b : Byte} {rest : List Byte}
    (h : input.dropWhile p = b :: rest) : p b = false := by
  have first := List.head?_dropWhile_not p input
  rw [h] at first
  exact first

theorem skipped_not_blank {input : List Byte} {b : Byte} {rest : List Byte}
    (h : (skipped input).2 = b :: rest) : b.isBlank = false := by
  simp only [skipped] at h
  split at h
  · have opening := head_dropWhile h
    simp only [bne_eq_false_iff_eq] at opening
    subst opening
    decide
  · exact head_dropWhile h

theorem isDelimiter_of_token?_eq_none {b : Byte} (blank : b.isBlank = false)
    (h : b.token? = none) : b.isDelimiter = false := by
  simp only [Byte.isDelimiter, blank, Bool.false_or, Byte.isBracket, Bool.or_eq_false_iff,
    beq_eq_false_iff_ne]
  constructor
  · rintro rfl
    exact absurd h (by decide)
  · rintro rfl
    exact absurd h (by decide)

theorem length_left_scan {input : List Byte} {token : Token}
    (h : (scan input).token? = some token) : (scan input).left.length < input.length := by
  have whole := congrArg List.length (skipped_append input)
  rw [List.length_append] at whole
  have item : (scanItem (skipped input).2).token? = some token := h
  show (scanItem (skipped input).2).left.length < input.length
  suffices (scanItem (skipped input).2).left.length < (skipped input).2.length by omega
  cases rest : (skipped input).2 with
  | nil => simp [rest, scanItem] at item
  | cons b rest' =>
    cases single : b.token? with
    | some token => simp [scanItem, single, Scan.left]
    | none =>
      have word := isDelimiter_of_token?_eq_none (skipped_not_blank rest) single
      have := length_left_scanWord b rest' word
      simp only [scanItem, single, List.length_cons]
      omega

theorem left_scan_eq_nil {input : List Byte} (h : (scan input).token? = none) :
    (scan input).left = [] := by
  have item : (scanItem (skipped input).2).token? = none := h
  show (scanItem (skipped input).2).left = []
  cases rest : (skipped input).2 with
  | nil => simp [scanItem, Scan.left]
  | cons b rest' =>
    rw [rest] at item
    cases single : b.token? with
    | some token => simp [scanItem, single] at item
    | none =>
      simp only [scanItem, single, scanWord] at item
      split at item <;> simp at item

end Token

namespace Console

theorem unread_putBytes (c : Console) (bytes : List Byte) :
    (c.putBytes bytes).unread = c.unread := by
  induction bytes generalizing c with
  | nil => rfl
  | cons b bytes ih => exact ih (c.put b)

theorem unread_echoed (c : Console) (taken : List Byte) : (c.echoed taken).unread = c.unread := by
  unfold echoed
  split
  · exact unread_putBytes ..
  · rfl

theorem unread_advance (c : Console) (taken rest : List Byte) (kept : Option Byte) :
    (c.advance taken rest kept).unread = kept.toList ++ rest := by
  simp only [advance, unread_echoed]
  cases kept <;> rfl

theorem unread_nextToken (c : Console) : c.nextToken.2.unread = (Token.scan c.unread).left :=
  unread_advance ..

end Console

namespace Reading

theorem run_eq_of_lt {n m : Nat} {frames : List Frame} {c : Console} {a : Arena}
    (hn : c.unread.length < n) (hm : c.unread.length < m) :
    run n frames c a = run m frames c a := by
  induction n generalizing m frames c a with
  | zero => omega
  | succ n ih =>
    obtain _ | m := m
    · omega
    simp only [run]
    have unread := Console.unread_nextToken c
    have found : c.nextToken.1 = (Token.scan c.unread).token? := rfl
    rcases next : c.nextToken with ⟨_ | token, c'⟩
    · rfl
    · rw [next] at unread found
      have less := Token.length_left_scan found.symm
      rw [← unread] at less
      dsimp only at less ⊢
      rcases (step token frames).run a with ⟨_ | _ | _, a'⟩
      · rfl
      · rfl
      · exact ih (by omega) (by omega)

end Reading

end ArenaLisp
