import Mathlib.Data.List.Basic
import ArenaLisp.Symbol

/-!
# Names that can be read back

A symbol that some text names is named by its own printed name, too (`Symbol.ofName?_name`). A packed
name is spelled by the digits of its number, which are not those of a row of the builtin table.
-/

namespace ArenaLisp

/-- The characters that names are made of. -/
def isNameChar (c : Char) : Bool :=
  ('A' ≤ c && c ≤ 'Z') || ('0' ≤ c && c ≤ '9') || c == '_'

namespace Builtin

@[simp] theorem ofName?_name (row : Builtin) : ofName? row.name = some row := by
  rcases row with word | form | function
  · cases word <;> rfl
  · cases form <;> rfl
  · cases function <;> rfl

theorem name_of_ofName? {text : String} {row : Builtin} (h : ofName? text = some row) :
    row.name = text :=
  beq_iff_eq.1 (@Array.find?_some _ (fun row : Builtin => row.name == text) row table h)

theorem name_spelling (row : Builtin) :
    (0 < row.name.toList.length ∧ row.name.toList.length ≤ 13) ∧ row.name.toList.all isNameChar := by
  rcases row with word | form | function
  · cases word <;> decide
  · cases form <;> decide
  · cases function <;> decide

end Builtin

namespace Symbol

variable {text : List Char} {digits : List Nat} {c : Char} {d x y z : Nat} {s : Symbol}

theorem of_digit? (h : digit? c = some d) :
    1 ≤ d ∧ d < radix ∧ character? d = some c ∧ isNameChar c = true := by
  have le_iff : ∀ {a b : Char}, a ≤ b ↔ a.toNat ≤ b.toNat := Iff.rfl
  unfold digit? at h
  split at h
  · rename_i letter
    cases h
    obtain ⟨low, high⟩ := letter
    have low' : 65 ≤ c.toNat := le_iff.1 low
    have high' : c.toNat ≤ 90 := le_iff.1 high
    have code : 'A'.toNat + (c.toNat - 'A'.toNat + 1 - 1) = c.toNat := by
      show 65 + (c.toNat - 65 + 1 - 1) = c.toNat
      omega
    refine ⟨by omega, ?_, ?_, ?_⟩
    · show c.toNat - 65 + 1 < 40
      omega
    · rw [character?, code, Char.ofNat_toNat, if_pos]
      show 1 ≤ c.toNat - 65 + 1 ∧ c.toNat - 65 + 1 ≤ 26
      omega
    · simp [isNameChar, low, high]
  · split at h
    · rename_i numeral
      cases h
      obtain ⟨low, high⟩ := numeral
      have low' : 48 ≤ c.toNat := le_iff.1 low
      have high' : c.toNat ≤ 57 := le_iff.1 high
      have code : '0'.toNat + (c.toNat - '0'.toNat + 30 - 30) = c.toNat := by
        show 48 + (c.toNat - 48 + 30 - 30) = c.toNat
        omega
      refine ⟨by omega, ?_, ?_, ?_⟩
      · show c.toNat - 48 + 30 < 40
        omega
      · rw [character?, code, Char.ofNat_toNat, if_neg, if_pos]
        · show 30 ≤ c.toNat - 48 + 30 ∧ c.toNat - 48 + 30 ≤ 39
          omega
        · show ¬ (1 ≤ c.toNat - 48 + 30 ∧ c.toNat - 48 + 30 ≤ 26)
          omega
      · simp [isNameChar, low, high]
    · cases h

theorem of_digits (h : text.mapM digit? = some digits) :
    digits.length = text.length ∧ (∀ d ∈ digits, 1 ≤ d ∧ d < radix) ∧
      digits.filterMap character? = text ∧ text.all isNameChar := by
  induction text generalizing digits with
  | nil =>
    cases h
    simp
  | cons c text ih =>
    obtain ⟨d, digit, rest, others, rfl⟩ : ∃ d, digit? c = some d ∧ ∃ rest,
        text.mapM digit? = some rest ∧ d :: rest = digits := by
      simpa [List.mapM_cons, Option.bind_eq_some_iff] using h
    obtain ⟨low, high, character, letter⟩ := of_digit? digit
    obtain ⟨length, range, spelled, letters⟩ := ih others
    refine ⟨by simp [length], ?_, by simp [character, spelled], by simp [letter, letters]⟩
    rintro d' member
    rcases List.mem_cons.1 member with rfl | member
    · exact ⟨low, high⟩
    · exact range d' member

theorem digits_ofDigits (hx : x < radix) (hy : y < radix) (hz : z < radix) :
    (⟨ofDigits [x, y, z]⟩ : Symbol).digits = [x, y, z] := by
  simp only [radix] at hx hy hz
  simp only [ofDigits, Symbol.digits, radix, List.foldl_cons, List.foldl_nil, List.cons.injEq,
    and_true]
  omega

theorem of_packChars? (h : packChars? text = some s) :
    s.unpackChars = text ∧ s.builtin? = none ∧ text.all isNameChar ∧
      0 < text.length ∧ text.length ≤ packedLength := by
  unfold packChars? at h
  split at h
  · cases h
  · rename_i size
    obtain ⟨some, short⟩ := not_or.1 size
    have short' : text.length ≤ packedLength := by omega
    obtain ⟨ds, spelled, rfl⟩ := Option.map_eq_some_iff.1 h
    obtain ⟨length, range, characters, letters⟩ := of_digits spelled
    have positive : 0 < text.length := by
      cases text with
      | nil => simp at some
      | cons => simp
    have padded : (ds ++ List.replicate (packedLength - ds.length) 0).length = 3 := by
      simp only [List.length_append, List.length_replicate, length, packedLength] at short' ⊢
      omega
    obtain ⟨x, y, z, is⟩ := List.length_eq_three.1 padded
    have below : ∀ d ∈ [x, y, z], d < radix := by
      rw [← is]
      intro d member
      rcases List.mem_append.1 member with member | member
      · exact (range d member).2
      · rw [(List.mem_replicate.1 member).2]
        decide
    -- with a first digit of at least 1 the number lies above the rows of the table
    have first : 1 ≤ x := by
      cases ds with
      | nil => simp [← length] at positive
      | cons d ds =>
        obtain ⟨same, -⟩ := List.cons.inj is
        exact (range x (by simp [same])).1
    have whole : [x, y, z].filterMap character? = text := by
      have missing : character? 0 = none := rfl
      rw [← is, List.filterMap_append, characters, List.filterMap_replicate_of_none missing,
        List.append_nil]
    simp only [List.mem_cons, List.not_mem_nil, or_false, forall_eq_or_imp, forall_eq] at below
    rw [is]
    refine ⟨?_, ?_, letters, positive, short'⟩
    · rw [unpackChars, digits_ofDigits below.1 below.2.1 below.2.2, whole]
    · have large : 1600 ≤ ofDigits [x, y, z] := by
        simp only [ofDigits, radix, List.foldl_cons, List.foldl_nil]
        omega
      exact Array.getElem?_eq_none (show 24 ≤ ofDigits [x, y, z] by omega)

theorem name_of_ofName? {text : String} (h : ofName? text = some s) : s.name = text := by
  unfold ofName? at h
  cases builtin : Builtin.ofName? text with
  | some row =>
    rw [builtin] at h
    cases h
    rw [name_ofBuiltin, Builtin.name_of_ofName? builtin]
  | none =>
    have packed : pack? text = some s := by simpa [builtin] using h
    obtain ⟨spelled, none, -⟩ := of_packChars? packed
    simp only [name, none]
    rw [unpack, spelled, String.ofList_toList]

theorem ofName?_name {text : String} (h : ofName? text = some s) : ofName? s.name = some s := by
  rw [name_of_ofName? h, h]

/-- A symbol that some text names, other than the written form of the empty value. -/
def Legible (s : Symbol) : Prop :=
  s ≠ nil ∧ ∃ text, ofName? text = some s

theorem name_spelling {text : String} (h : ofName? text = some s) :
    0 < s.name.toList.length ∧ s.name.toList.length ≤ 13 ∧ s.name.toList.all isNameChar := by
  rw [name_of_ofName? h]
  unfold ofName? at h
  cases builtin : Builtin.ofName? text with
  | some row =>
    rw [← Builtin.name_of_ofName? builtin]
    obtain ⟨⟨positive, short⟩, letters⟩ := row.name_spelling
    exact ⟨positive, short, letters⟩
  | none =>
    have packed : pack? text = some s := by simpa [builtin] using h
    obtain ⟨-, -, letters, positive, short⟩ := of_packChars? packed
    simp only [packedLength] at short
    exact ⟨positive, by omega, letters⟩

theorem legible_ofBuiltin {row : Builtin} (other : row ≠ .keyword .nil) :
    (ofBuiltin row).Legible := by
  refine ⟨fun same => other ?_, row.name, by simp [ofName?]⟩
  have rows := congrArg builtin? same
  simpa [nil] using rows

end Symbol

end ArenaLisp
