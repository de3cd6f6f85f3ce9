import Mathlib.Data.Nat.Digits.Defs
import ArenaLisp.Proofs.Arena.Soundness
import ArenaLisp.Settings

/-!
# Workspace sizes

A text sets the workspace size exactly if it spells a decimal number above the collection threshold
for which every cell has a 32-bit number. Any other text leaves the settings as they were
(`Settings.setWorkspace_exact`). So no texts lead out of the range of sizes.
-/

namespace ArenaLisp.Settings

/-- The character of a decimal digit. -/
def numeral (digit : Fin 10) : Char :=
  Char.ofNat ('0'.toNat + digit)

/-- The number that decimal digits spell, most significant first. -/
def value (digits : List (Fin 10)) : Nat :=
  Nat.ofDigits 10 (digits.reverse.map Fin.val)

/-- A text spells a number: perhaps one plus sign, then decimal digits, at least one of them. The
first ones may be zeros, and there may be any number of them. -/
def Spells (text : String) (n : Nat) : Prop :=
  ∃ digits, digits ≠ [] ∧ value digits = n ∧
    (text.toList = digits.map numeral ∨ text.toList = '+' :: digits.map numeral)

/-- A text spells a size above the collection threshold that leaves no cell without a 32-bit
number. -/
def Grants (threshold : Nat) (text : String) (n : Nat) : Prop :=
  Spells text n ∧ threshold < n ∧ n ≤ 4294967295

/-- What is wrong with a text that spells no such size. Whether its number has 64 bits comes first,
and the threshold comes before the limit. -/
inductive Refuses (threshold : Nat) (text : String) : Refusal → Prop where
  | invalid : (∀ n, Spells text n → 2 ^ 64 ≤ n) → Refuses threshold text (.invalid text)
  | tooSmall {n : Nat} : Spells text n → n < 2 ^ 64 → n ≤ threshold →
    Refuses threshold text (.tooSmall threshold n)
  | tooLarge {n : Nat} : Spells text n → n < 2 ^ 64 → threshold < n → 4294967295 < n →
    Refuses threshold text (.tooLarge n)

variable {digits : List (Fin 10)} {characters : List Char} {text : String} {n k threshold : Nat}
  {refusal : Refusal} {settings : Settings}

/-! ### Decimal numbers -/

theorem numeral_isDigit (digit : Fin 10) : (numeral digit).isDigit = true := by
  revert digit
  decide

theorem numeral_value (digit : Fin 10) : (numeral digit).toNat - '0'.toNat = digit := by
  revert digit
  decide

theorem numeral_ne_plus (digit : Fin 10) : numeral digit ≠ '+' := by
  revert digit
  decide

theorem exists_numeral {c : Char} (decimal : c.isDigit = true) : ∃ digit, numeral digit = c := by
  have low : 48 ≤ c.toNat := (Char.isDigit_iff_toNat.1 decimal).1
  have high : c.toNat ≤ 57 := (Char.isDigit_iff_toNat.1 decimal).2
  refine ⟨⟨c.toNat - 48, by omega⟩, ?_⟩
  have code : '0'.toNat + (c.toNat - 48) = c.toNat := by
    show 48 + (c.toNat - 48) = c.toNat
    omega
  rw [numeral, code, Char.ofNat_toNat]

theorem exists_numerals (decimal : ∀ c ∈ characters, c.isDigit = true) :
    ∃ digits : List (Fin 10), digits.map numeral = characters := by
  induction characters with
  | nil => exact ⟨[], rfl⟩
  | cons c characters ih =>
    obtain ⟨digit, rfl⟩ := exists_numeral (decimal c List.mem_cons_self)
    obtain ⟨digits, rfl⟩ := ih fun c member => decimal c (List.mem_cons_of_mem _ member)
    exact ⟨digit :: digits, rfl⟩

theorem foldl_numerals (digits : List (Fin 10)) :
    (digits.map numeral).foldl (fun n c => 10 * n + (c.toNat - '0'.toNat)) 0 = value digits := by
  -- the fold takes the last digit last, so digits are added on the right
  induction digits using List.reverseRecOn with
  | nil => rfl
  | append_singleton digits digit ih =>
    have next : value (digits ++ [digit]) = digit + 10 * value digits := by
      rw [value, List.reverse_append]
      exact Nat.ofDigits_cons
    rw [List.map_append, List.foldl_append, ih, next, List.map_singleton, List.foldl_cons,
      List.foldl_nil, numeral_value, Nat.add_comm]

theorem digitsValue?_eq_some_iff :
    digitsValue? characters = some n ↔
      ∃ digits, digits ≠ [] ∧ value digits = n ∧ characters = digits.map numeral := by
  unfold digitsValue?
  constructor
  · intro h
    split at h
    · cases h
    · rename_i decimal
      obtain ⟨nonempty, all⟩ := not_or.1 decimal
      obtain ⟨digits, rfl⟩ := exists_numerals (List.all_eq_true.1 (not_not.1 all))
      rw [foldl_numerals] at h
      refine ⟨digits, ?_, Option.some.inj h, rfl⟩
      rintro rfl
      exact nonempty rfl
  · rintro ⟨digits, nonempty, rfl, rfl⟩
    have decimal : ¬ ((digits.map numeral).isEmpty ∨ ¬ (digits.map numeral).all Char.isDigit) := by
      simp [nonempty, numeral_isDigit]
    rw [if_neg decimal, foldl_numerals]

theorem unsigned_numerals (digits : List (Fin 10)) :
    unsigned (digits.map numeral) = digits.map numeral := by
  unfold unsigned
  split
  · rename_i rest is
    cases digits with
    | nil => cases is
    | cons digit digits => exact absurd (List.cons.inj is).1 (numeral_ne_plus digit)
  · rfl

theorem spells_iff : Spells text n ↔ digitsValue? (unsigned text.toList) = some n := by
  rw [digitsValue?_eq_some_iff, Spells]
  refine exists_congr fun digits => and_congr_right fun _ => and_congr_right fun _ => ?_
  constructor
  · rintro (is | is)
    · rw [is, unsigned_numerals]
    · rw [is, unsigned]
  · intro is
    unfold unsigned at is
    split at is
    · rename_i rest signed
      exact .inr (signed.trans (congrArg _ is))
    · exact .inl is

theorem Spells.unique (spells : Spells text n) (spells' : Spells text k) : n = k :=
  Option.some.inj ((spells_iff.1 spells).symm.trans (spells_iff.1 spells'))

theorem size?_eq_some_iff : size? text = some n ↔ Spells text n ∧ n < 2 ^ 64 := by
  rw [size?, Option.filter_eq_some_iff, spells_iff, decide_eq_true_iff]
  rfl

/-! ### Setting a size -/

theorem Grants.unique (grants : Grants threshold text n) (grants' : Grants threshold text k) :
    n = k :=
  grants.1.unique grants'.1

theorem Refuses.not_grants (refuses : Refuses threshold text refusal) : ¬ Grants threshold text n := by
  rintro ⟨spells, above, below⟩
  cases refuses with
  | invalid long =>
    have := long n spells
    omega
  | tooSmall spells' _ small =>
    cases spells.unique spells'
    omega
  | tooLarge spells' _ _ large =>
    cases spells.unique spells'
    omega

theorem setWorkspace_cases (settings : Settings) (text : String) :
    (∃ n, Grants settings.threshold text n ∧
      (setWorkspace text).run settings = (.ok (), { settings with workspace := n })) ∨
    ∃ refusal, Refuses settings.threshold text refusal ∧
      (setWorkspace text).run settings = (.error refusal, settings) := by
  rw [setWorkspace_run]
  cases size : size? text with
  | none =>
    refine .inr ⟨.invalid text, .invalid fun n spells => ?_, rfl⟩
    by_contra short
    rw [size?_eq_some_iff.2 ⟨spells, Nat.lt_of_not_le short⟩] at size
    cases size
  | some n =>
    obtain ⟨spells, short⟩ := size?_eq_some_iff.1 size
    dsimp only
    split_ifs with small large
    · exact .inr ⟨_, .tooSmall spells short small, rfl⟩
    · exact .inr ⟨_, .tooLarge spells short (Nat.lt_of_not_le small) large, rfl⟩
    · exact .inl ⟨n, ⟨spells, Nat.lt_of_not_le small, Nat.le_of_not_lt large⟩, rfl⟩

theorem setWorkspace_of_grants (grants : Grants settings.threshold text n) :
    (setWorkspace text).run settings = (.ok (), { settings with workspace := n }) := by
  obtain ⟨k, grants', run⟩ | ⟨refusal, refuses, -⟩ := setWorkspace_cases settings text
  · rw [run, grants.unique grants']
  · exact absurd grants refuses.not_grants

theorem setWorkspace_of_not_grants (none : ∀ n, ¬ Grants settings.threshold text n) :
    ∃ refusal, Refuses settings.threshold text refusal ∧
      (setWorkspace text).run settings = (.error refusal, settings) := by
  obtain ⟨n, grants, -⟩ | refused := setWorkspace_cases settings text
  · exact absurd grants (none n)
  · exact refused

theorem exists_refuses (none : ∀ n, ¬ Grants threshold text n) :
    ∃ refusal, Refuses threshold text refusal := by
  obtain ⟨refusal, refuses, -⟩ := @setWorkspace_of_not_grants text { threshold } none
  exact ⟨refusal, refuses⟩

theorem setWorkspace_of_refuses (refuses : Refuses settings.threshold text refusal) :
    (setWorkspace text).run settings = (.error refusal, settings) := by
  rw [setWorkspace_run]
  cases refuses with
  | invalid long =>
    cases size : size? text with
    | none => rfl
    | some n =>
      obtain ⟨spells, short⟩ := size?_eq_some_iff.1 size
      exact absurd (long n spells) (Nat.not_le.2 short)
  | tooSmall spells short small =>
    rw [size?_eq_some_iff.2 ⟨spells, short⟩]
    exact if_pos small
  | tooLarge spells short above large =>
    rw [size?_eq_some_iff.2 ⟨spells, short⟩]
    exact (if_neg (Nat.not_le.2 above)).trans (if_pos large)

/-! ### One text after the other -/

/-- The workspace size is above the collection threshold, and no cell is without a 32-bit number. -/
def InRange (settings : Settings) : Prop :=
  settings.threshold < settings.workspace ∧ settings.workspace ≤ 4294967295

/-- The settings after some texts asked for a workspace size, whether they were granted it or not. -/
def afterTexts (settings : Settings) (texts : List String) : Settings :=
  texts.foldl (fun settings text => ((setWorkspace text).run settings).2) settings

theorem InRange.setWorkspace (inRange : settings.InRange) (text : String) :
    ((setWorkspace text).run settings).2.InRange := by
  obtain ⟨n, ⟨-, above, below⟩, run⟩ | ⟨refusal, -, run⟩ := setWorkspace_cases settings text
  · rw [run]
    exact ⟨above, below⟩
  · rw [run]
    exact inRange

theorem InRange.afterTexts (inRange : settings.InRange) (texts : List String) :
    (settings.afterTexts texts).InRange := by
  induction texts generalizing settings with
  | nil => exact inRange
  | cons text texts ih => exact ih (inRange.setWorkspace text)

theorem InRange.addressable (inRange : settings.InRange) :
    ∀ id < (Arena.new settings.workspace).capacity, id < 2 ^ 32 := by
  intro id inside
  rw [Arena.capacity_new] at inside
  have := inRange.2
  omega

/-- Setting the workspace size succeeds exactly if the text spells a number above the threshold and
within the limit. Then the number is the new size and nothing else changes, and in every other case
nothing changes at all. So texts never lead out of the range of sizes, in which every cell of the arena
has a 32-bit number. -/
theorem setWorkspace_exact :
    (∀ (settings : Settings) (text : String),
      (((setWorkspace text).run settings).1 = .ok () ↔ ∃ n, Grants settings.threshold text n) ∧
      (∀ n, Grants settings.threshold text n →
        (setWorkspace text).run settings = (.ok (), { settings with workspace := n })) ∧
      ((∀ n, ¬ Grants settings.threshold text n) → ∃ refusal,
        Refuses settings.threshold text refusal ∧
        (setWorkspace text).run settings = (.error refusal, settings))) ∧
    ∀ (settings : Settings) (texts : List String), settings.InRange →
      (settings.afterTexts texts).InRange ∧
      ∀ id < (Arena.new (settings.afterTexts texts).workspace).capacity, id < 2 ^ 32 := by
  refine ⟨fun settings text => ⟨⟨fun succeeds => ?_, ?_⟩, fun n => setWorkspace_of_grants,
    setWorkspace_of_not_grants⟩, fun settings texts inRange => ?_⟩
  · by_contra none
    obtain ⟨refusal, -, run⟩ := setWorkspace_of_not_grants (not_exists.1 none)
    rw [run] at succeeds
    cases succeeds
  · rintro ⟨n, grants⟩
    rw [setWorkspace_of_grants grants]
  · have inRange' := inRange.afterTexts texts
    exact ⟨inRange', inRange'.addressable⟩

/-- A sign and leading zeros, a number that is too large by one for 64 bits, no number, and a number
that is too small. -/
theorem setWorkspace_exact_sign :
    Grants 20 "+0004096" 4096 ∧
      (setWorkspace "+0004096").run {} = (.ok (), { workspace := 4096 }) ∧
      InRange {} ∧ (afterTexts {} ["+0004096", "18446744073709551616", "++5", "20"]).InRange := by
  have grants : Grants 20 "+0004096" 4096 :=
    ⟨⟨[0, 0, 0, 4, 0, 9, 6], by decide, by decide, .inr (by decide)⟩, by decide, by decide⟩
  have inRange : InRange {} := ⟨by decide, by decide⟩
  exact ⟨grants, ((setWorkspace_exact.1 {} "+0004096").2.1 4096 grants), inRange,
    (setWorkspace_exact.2 {} _ inRange).1⟩

end ArenaLisp.Settings
