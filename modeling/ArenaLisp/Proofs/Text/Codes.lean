import ArenaLisp.Proofs.Text.Names

/-!
# The numbers that names stand for

A number is what its own name names if it is a row of the builtin table, or if its digits to the base
40 spell a short name that is not a builtin one, with nothing but zeros after the name
(`Symbol.naming_exact`). Other numbers have names too, but their names stand for other numbers.
-/

namespace ArenaLisp

namespace Builtin

theorem code_lt (row : Builtin) : row.code < 24 := by
  rcases row with word | form | function
  · cases word <;> decide
  · cases form <;> decide
  · cases function <;> decide

end Builtin

namespace Symbol

variable {text : List Char} {digits : List Nat} {c : Char} {d n : Nat} {s : Symbol}

theorem ofBuiltin_of_lt (low : s.code < 24) : ∃ row, s = ofBuiltin row := by
  obtain ⟨row, found⟩ : ∃ row, Builtin.ofCode? s.code = some row :=
    ⟨_, Array.getElem?_eq_getElem (show s.code < Builtin.table.size from low)⟩
  exact ⟨row, congrArg Symbol.mk (Builtin.ofCode?_eq_some_iff.1 found)⟩

theorem builtin?_of_le (high : 24 ≤ s.code) : s.builtin? = none :=
  Array.getElem?_eq_none (show Builtin.table.size ≤ s.code from high)

/-! ### Digits with a character -/

/-- The digits that stand for a letter or a numeral. -/
def Lettered (d : Nat) : Prop :=
  (1 ≤ d ∧ d ≤ 26) ∨ (30 ≤ d ∧ d ≤ 39)

instance (d : Nat) : Decidable (Lettered d) :=
  inferInstanceAs (Decidable (_ ∨ _))

theorem Lettered.lt (lettered : Lettered d) : d < 40 := by
  unfold Lettered at lettered
  omega

theorem lettered_of_character? (h : character? d = some c) : Lettered d := by
  unfold character? at h
  split at h
  · exact .inl ‹_›
  · split at h
    · exact .inr ‹_›
    · cases h

theorem lettered_of_digit? (h : digit? c = some d) : Lettered d :=
  lettered_of_character? (of_digit? h).2.2.1

theorem Lettered.spelled (lettered : Lettered d) :
    ∃ c, character? d = some c ∧ digit? c = some d := by
  have all : ∀ d < 40, Lettered d → (character? d).bind digit? = some d := by decide
  exact Option.bind_eq_some_iff.1 (all d lettered.lt lettered)

theorem lettered_of_digits (h : text.mapM digit? = some digits) : ∀ d ∈ digits, Lettered d := by
  induction text generalizing digits with
  | nil =>
    cases h
    simp
  | cons c text ih =>
    obtain ⟨d, digit, rest, others, rfl⟩ : ∃ d, digit? c = some d ∧ ∃ rest,
        text.mapM digit? = some rest ∧ d :: rest = digits := by
      simpa [List.mapM_cons, Option.bind_eq_some_iff] using h
    intro d' member
    rcases List.mem_cons.1 member with rfl | member
    · exact lettered_of_digit? digit
    · exact ih others d' member

theorem digits_characters (lettered : ∀ d ∈ digits, Lettered d) :
    (digits.filterMap character?).mapM digit? = some digits := by
  induction digits with
  | nil => rfl
  | cons d digits ih =>
    obtain ⟨c, character, digit⟩ := (lettered d List.mem_cons_self).spelled
    have others := ih fun d' member => lettered d' (List.mem_cons_of_mem _ member)
    rw [List.filterMap_cons_some character, List.mapM_cons, digit, others]
    rfl

/-! ### Packed names -/

/-- The number packs a name. Its three digits are those of one to three characters, with zeros only
after the last one. -/
structure Packed (s : Symbol) : Prop where
  low : 1600 ≤ s.code
  high : s.code < 64000
  first : Lettered (s.code / 1600)
  second : s.code / 40 % 40 = 0 ∨ Lettered (s.code / 40 % 40)
  third : s.code % 40 = 0 ∨ Lettered (s.code % 40)
  flush : s.code / 40 % 40 = 0 → s.code % 40 = 0

/-- Digits of a short name, filled up with zeros. -/
def filled (digits : List Nat) : List Nat :=
  digits ++ List.replicate (packedLength - digits.length) 0

theorem packed_ofDigits {x y z : Nat} (first : Lettered x) (second : y = 0 ∨ Lettered y)
    (third : z = 0 ∨ Lettered z) (flush : y = 0 → z = 0) : Packed ⟨ofDigits [x, y, z]⟩ := by
  have sum : ofDigits [x, y, z] = x * 1600 + y * 40 + z := by
    simp only [ofDigits, radix, List.foldl_cons, List.foldl_nil]
    omega
  have x_lt : x < 40 := first.lt
  have y_lt : y < 40 := second.elim (by omega) Lettered.lt
  have z_lt : z < 40 := third.elim (by omega) Lettered.lt
  have positive : 1 ≤ x := by
    unfold Lettered at first
    omega
  have top : (x * 1600 + y * 40 + z) / 1600 = x := by omega
  have middle : (x * 1600 + y * 40 + z) / 40 % 40 = y := by omega
  have last : (x * 1600 + y * 40 + z) % 40 = z := by omega
  rw [sum]
  exact {
    low := show 1600 ≤ x * 1600 + y * 40 + z by omega
    high := show x * 1600 + y * 40 + z < 64000 by omega
    first := by rwa [top]
    second := by rwa [middle]
    third := by rwa [last]
    flush := by rwa [middle, last] }

theorem packed_filled (lettered : ∀ d ∈ digits, Lettered d) (nonempty : digits ≠ [])
    (short : digits.length ≤ packedLength) : Packed ⟨ofDigits (filled digits)⟩ := by
  match digits, nonempty, short with
  | [x], _, _ => exact packed_ofDigits (lettered x (by simp)) (.inl rfl) (.inl rfl) fun _ => rfl
  | [x, y], _, _ =>
    exact packed_ofDigits (lettered x (by simp)) (.inr (lettered y (by simp))) (.inl rfl) fun _ => rfl
  | [x, y, z], _, _ =>
    have second : Lettered y := lettered y (by simp)
    refine packed_ofDigits (lettered x (by simp)) (.inr second) (.inr (lettered z (by simp))) ?_
    rintro rfl
    exact absurd second (by decide)
  | _ :: _ :: _ :: _ :: _, _, short =>
    simp only [packedLength, List.length_cons] at short
    omega

theorem Packed.digits_eq (packed : s.Packed) : ∃ digits, (∀ d ∈ digits, Lettered d) ∧ digits ≠ [] ∧
    digits.length ≤ packedLength ∧ s.digits = filled digits := by
  obtain ⟨low, high, first, second, third, flush⟩ := packed
  have top : s.code / (radix * radix) % radix = s.code / 1600 := by
    simp only [radix]
    omega
  have is : s.digits = [s.code / 1600, s.code / 40 % 40, s.code % 40] := by
    rw [Symbol.digits, top]
    rfl
  rw [is]
  rcases second with zero | second
  · refine ⟨[s.code / 1600], by simpa using first, by simp, by simp [packedLength], ?_⟩
    rw [zero, flush zero]
    rfl
  · rcases third with zero | third
    · refine ⟨[s.code / 1600, s.code / 40 % 40], by simpa using ⟨first, second⟩, by simp,
        by simp [packedLength], ?_⟩
      rw [zero]
      rfl
    · exact ⟨[s.code / 1600, s.code / 40 % 40, s.code % 40], by simpa using ⟨first, second, third⟩,
        by simp, by simp [packedLength], rfl⟩

theorem ofDigits_digits (high : s.code < 64000) : (⟨ofDigits s.digits⟩ : Symbol) = s := by
  refine congrArg Symbol.mk (?_ : ofDigits s.digits = s.code)
  simp only [ofDigits, Symbol.digits, radix, List.foldl_cons, List.foldl_nil]
  omega

theorem packed_of_packChars? (h : packChars? text = some s) : s.Packed := by
  unfold packChars? at h
  split at h
  · cases h
  · rename_i size
    obtain ⟨nonempty, short⟩ := not_or.1 size
    obtain ⟨digits, spelled, rfl⟩ := Option.map_eq_some_iff.1 h
    have length : digits.length = text.length := (of_digits spelled).1
    refine packed_filled (lettered_of_digits spelled) ?_ (by omega)
    rintro rfl
    cases text with
    | nil => exact nonempty rfl
    | cons => cases length

theorem packChars?_unpackChars_iff : packChars? s.unpackChars = some s ↔ s.Packed := by
  refine ⟨packed_of_packChars?, fun packed => ?_⟩
  obtain ⟨digits, lettered, nonempty, short, is⟩ := packed.digits_eq
  -- zero has no character, so the zeros drop out of the name, and packing fills them in again
  have missing : character? 0 = none := rfl
  have characters : s.unpackChars = digits.filterMap character? := by
    rw [unpackChars, is, filled, List.filterMap_append, List.filterMap_replicate_of_none missing,
      List.append_nil]
  have spelled := digits_characters lettered
  have length : digits.length = (digits.filterMap character?).length := (of_digits spelled).1
  have size : ¬ ((digits.filterMap character?).isEmpty ∨
      packedLength < (digits.filterMap character?).length) := by
    rw [← length, List.isEmpty_iff, not_or]
    refine ⟨fun none => nonempty ?_, by omega⟩
    rwa [none, List.length_nil, List.length_eq_zero_iff] at length
  rw [characters, packChars?, if_neg size, spelled, Option.map_some]
  refine congrArg some ?_
  rw [← ofDigits_digits packed.high, is, filled]

/-! ### Names -/

theorem code_of_ofName? {text : String} (h : ofName? text = some s) :
    s.code < 24 ∨ (1600 ≤ s.code ∧ s.code < 64000) := by
  unfold ofName? at h
  cases builtin : Builtin.ofName? text with
  | some row =>
    rw [builtin] at h
    cases h
    exact .inl row.code_lt
  | none =>
    have packed : s.Packed := packed_of_packChars? (by simpa [builtin, pack?] using h)
    exact .inr ⟨packed.low, packed.high⟩

theorem ofName?_name_iff_of_le (high : 24 ≤ s.code) :
    ofName? s.name = some s ↔ s.Packed ∧ ∀ row : Builtin, row.name ≠ s.unpack := by
  have name : s.name = s.unpack := by rw [Symbol.name, builtin?_of_le high]
  rw [name, ofName?]
  cases builtin : Builtin.ofName? s.unpack with
  | some row =>
    refine ⟨fun same => ?_, fun right => ?_⟩
    · cases same
      exact absurd row.code_lt (Nat.not_lt.2 high)
    · exact absurd (Builtin.name_of_ofName? builtin) (right.2 row)
  | none =>
    have other : ∀ row : Builtin, row.name ≠ s.unpack := by
      intro row same
      rw [← same, Builtin.ofName?_name] at builtin
      cases builtin
    have packs : pack? s.unpack = packChars? s.unpackChars := by
      rw [pack?, unpack, String.toList_ofList]
    simp only [Option.map_none, Option.none_or, packs, packChars?_unpackChars_iff]
    exact ⟨fun packed => ⟨packed, other⟩, And.left⟩

/-- What a text names has that text for its name, so that different texts name different numbers, and
it lies in one of two ranges, that of the table and that of the packed names. A number is what its own
name names exactly if it is in the table, or it packs a name that is not a builtin one. -/
theorem naming_exact :
    (∀ text s, ofName? text = some s →
      s.name = text ∧ (s.code < 24 ∨ (1600 ≤ s.code ∧ s.code < 64000))) ∧
    (∀ text other s, ofName? text = some s → ofName? other = some s → text = other) ∧
    (∀ text s, pack? text = some s → 1600 ≤ s.code ∧ ∀ row, s ≠ ofBuiltin row) ∧
    ∀ s, ofName? s.name = some s ↔
      s.code < 24 ∨ (s.Packed ∧ ∀ row : Builtin, row.name ≠ s.unpack) := by
  refine ⟨fun text s named => ⟨name_of_ofName? named, code_of_ofName? named⟩, ?_, ?_, fun s => ?_⟩
  · intro text other s named named'
    rw [← name_of_ofName? named, name_of_ofName? named']
  · intro text s packs
    have packed : s.Packed := packed_of_packChars? packs
    refine ⟨packed.low, ?_⟩
    rintro row rfl
    exact absurd (Nat.lt_of_le_of_lt packed.low row.code_lt) (by decide)
  · by_cases low : s.code < 24
    · obtain ⟨row, rfl⟩ := ofBuiltin_of_lt low
      refine iff_of_true ?_ (.inl low)
      rw [name_ofBuiltin, ofName?, Builtin.ofName?_name]
      rfl
    · rw [ofName?_name_iff_of_le (Nat.le_of_not_lt low), or_iff_right low]

/-- The digits of `X1`, and those of the number that would pack the builtin name `T`. -/
theorem naming_exact_identifier :
    ofName? "X1" = some ⟨39640⟩ ∧ (⟨39640⟩ : Symbol).name = "X1" ∧
      ofName? (⟨39640⟩ : Symbol).name = some ⟨39640⟩ ∧
      (⟨32000⟩ : Symbol).Packed ∧ ofName? (⟨32000⟩ : Symbol).name ≠ some ⟨32000⟩ := by
  obtain ⟨names, -, -, own⟩ := naming_exact
  have named : ofName? "X1" = some ⟨39640⟩ := by decide
  have packed : (⟨39640⟩ : Symbol).Packed :=
    ⟨by decide, by decide, by decide, by decide, by decide, by decide⟩
  have packed' : (⟨32000⟩ : Symbol).Packed :=
    ⟨by decide, by decide, by decide, by decide, by decide, by decide⟩
  refine ⟨named, (names "X1" _ named).1, (own _).2 (.inr ⟨packed, ?_⟩), packed', fun own' => ?_⟩
  · rintro (word | form | function)
    · cases word <;> decide
    · cases form <;> decide
    · cases function <;> decide
  · obtain low | ⟨-, other⟩ := (own _).1 own'
    · exact absurd low (by decide)
    · exact other (.keyword .tee) (by decide)

end Symbol

end ArenaLisp
