import BracketScript.Proofs.Decimal.Conversion
import BracketScript.Proofs.Token.Newline
import Mathlib.Data.Nat.Digits.Defs

/-!
# The numbers that digits denote

`Text.Numeral` says which number a string of digits denotes, without a word on how
it is read: each character stands for a digit, the last one for the number of ones.
Reading gives that number (`Text.numeral_positional`, `Text.positional_eq`), and a
decimal number is the double that the value of its digits is rounded to
(`Segment.packs_decimal`).
-/

namespace BracketScript

namespace Text

/-- A character for a digit: from ten on a letter, in either case. -/
def Stands (digit : Nat) (c : Char) : Prop :=
  c = digit.digitChar ∨ c = digit.digitChar.toUpper

instance (digit : Nat) (c : Char) : Decidable (Stands digit c) :=
  inferInstanceAs (Decidable (_ ∨ _))

/-- The text writes the number in the given radix, possibly with zeros in front. -/
def Numeral (radix : Nat) (text : List Char) (n : Nat) : Prop :=
  ∃ digits : List Nat, digits ≠ [] ∧ (∀ digit ∈ digits, digit < radix) ∧
    List.Forall₂ Stands digits text ∧ Nat.ofDigits radix digits.reverse = n

/-- The text ends here, or goes on with what is no digit. -/
def NoDigit (radix : Nat) (rest : List Char) : Prop :=
  ∀ c ∈ rest.head?, ∀ digit < radix, ¬Stands digit c

/-- What holds of both characters of each digit. -/
theorem Stands.imp {bound : Nat} {P : Nat → Char → Prop}
    (hP : ∀ digit < bound, P digit digit.digitChar ∧ P digit digit.digitChar.toUpper)
    {digit : Nat} {c : Char} (hdigit : digit < bound) (h : Stands digit c) : P digit c := by
  rcases h with rfl | rfl
  · exact (hP digit hdigit).1
  · exact (hP digit hdigit).2

theorem Stands.digitValue_eq {digit : Nat} {c : Char} (hdigit : digit < 16) (h : Stands digit c) :
    digitValue c = digit :=
  h.imp (P := fun digit c => digitValue c = digit) (by decide) hdigit

/-! ### Characters -/

theorem digitValue_lt {radix : Nat} {c : Char} (h : isDigitOf radix c = true) :
    digitValue c < radix := by
  simp only [isDigitOf, Bool.and_eq_true, decide_eq_true_eq] at h
  exact h.2

theorem stands_digitValue {radix : Nat} {c : Char} (hradix : radix ≤ 16)
    (h : isDigitOf radix c = true) : Stands (digitValue c) c := by
  have htable : ∀ k < 103, isDigitOf 16 (Char.ofNat k) = true →
      Stands (digitValue (Char.ofNat k)) (Char.ofNat k) := by decide
  simp only [isDigitOf, Bool.and_eq_true, decide_eq_true_eq] at h
  obtain ⟨hform, hvalue⟩ := h
  have hsmall : c.toNat < 103 := by
    simp only [Bool.or_eq_true, Bool.and_eq_true, decide_eq_true_eq] at hform
    rcases hform with (hdigit | ⟨-, hletter⟩) | ⟨-, hletter⟩
    · have hlast := (Segment.isDigit_iff.mp hdigit).2
      omega
    · exact Nat.lt_of_le_of_lt hletter (by decide)
    · exact Nat.lt_of_le_of_lt hletter (by decide)
  rw [← Char.ofNat_toNat c]
  refine htable c.toNat hsmall ?_
  rw [Char.ofNat_toNat, isDigitOf, hform]
  simpa using Nat.lt_of_lt_of_le hvalue hradix

/-- The digits of a radix are the characters that stand for a digit below it. -/
theorem isDigitOf_iff {radix : Nat} {c : Char} (hradix : radix ≤ 16) :
    isDigitOf radix c = true ↔ ∃ digit < radix, Stands digit c := by
  constructor
  · intro h
    exact ⟨digitValue c, digitValue_lt h, stands_digitValue hradix h⟩
  · rintro ⟨digit, hdigit, hstands⟩
    have hform := hstands.imp (P := fun _ c => isDigitOf 16 c = true) (by decide)
      (Nat.lt_of_lt_of_le hdigit hradix)
    simp only [isDigitOf, Bool.and_eq_true, decide_eq_true_eq] at hform ⊢
    rw [hstands.digitValue_eq (Nat.lt_of_lt_of_le hdigit hradix)]
    exact ⟨hform.1, hdigit⟩

theorem isDigitOf_ten (c : Char) : isDigitOf 10 c = c.isDigit := by
  cases hdigit : c.isDigit with
  | true =>
      have hlast := (Segment.isDigit_iff.mp hdigit).2
      have hzero : '0'.toNat = 48 := rfl
      simp only [isDigitOf, digitValue, hdigit, hzero, Bool.true_or, Bool.true_and, if_true,
        decide_eq_true_eq]
      omega
  | false =>
      have hvalue : ¬digitValue c < 10 := by
        simp only [digitValue, hdigit, Bool.false_eq_true, if_false]
        split <;> omega
      simp [isDigitOf, hvalue]

theorem NoDigit.isDigitOf {radix : Nat} {rest : List Char} (hradix : radix ≤ 16)
    (h : NoDigit radix rest) : ∀ c ∈ rest.head?, isDigitOf radix c = false := by
  intro c hc
  rw [← Bool.not_eq_true, isDigitOf_iff hradix]
  rintro ⟨digit, hdigit, hstands⟩
  exact h c hc digit hdigit hstands

/-! ### Strings of digits -/

theorem positional_eq_ofDigits (radix : Nat) (text : List Char) :
    positional radix text = Nat.ofDigits radix (text.map digitValue).reverse := by
  rw [Nat.ofDigits_eq_foldr, List.foldr_reverse, List.foldl_map, positional]
  simp only [Nat.mul_comm, Nat.add_comm, Nat.cast_id]

theorem positional_append (radix : Nat) (front back : List Char) :
    positional radix (front ++ back) =
      positional radix front * radix ^ back.length + positional radix back := by
  simp only [positional_eq_ofDigits, List.map_append, List.reverse_append, Nat.ofDigits_append,
    List.length_reverse, List.length_map]
  rw [Nat.mul_comm, Nat.add_comm]

theorem numeral_positional {radix : Nat} {text : List Char} (hradix : radix ≤ 16)
    (hsome : text ≠ []) (hdigits : ∀ c ∈ text, isDigitOf radix c = true) :
    Numeral radix text (positional radix text) := by
  refine ⟨text.map digitValue, by simpa using hsome, ?_, ?_, ?_⟩
  · rw [List.forall_mem_map]
    exact fun c hc => digitValue_lt (hdigits c hc)
  · rw [List.forall₂_map_left_iff, List.forall₂_same]
    exact fun c hc => stands_digitValue hradix (hdigits c hc)
  · rw [positional_eq_ofDigits]

theorem map_digitValue {digits : List Nat} {text : List Char}
    (hdigits : ∀ digit ∈ digits, digit < 16) (hstands : List.Forall₂ Stands digits text) :
    text.map digitValue = digits := by
  induction hstands with
  | nil => rfl
  | cons hfirst _ ih =>
      rw [List.forall_mem_cons] at hdigits
      rw [List.map_cons, hfirst.digitValue_eq hdigits.1, ih hdigits.2]

section Numeral

variable {radix n : Nat} {text : List Char}

theorem positional_eq (hradix : radix ≤ 16) (h : Numeral radix text n) :
    positional radix text = n := by
  obtain ⟨digits, -, hdigits, hstands, rfl⟩ := h
  have hbelow : ∀ digit ∈ digits, digit < 16 :=
    fun digit hdigit => Nat.lt_of_lt_of_le (hdigits digit hdigit) hradix
  rw [positional_eq_ofDigits, map_digitValue hbelow hstands]

theorem Numeral.ne_nil (h : Numeral radix text n) : text ≠ [] := by
  obtain ⟨digits, hsome, -, hstands, -⟩ := h
  rintro rfl
  exact hsome (List.forall₂_nil_right_iff.mp hstands)

/-- All characters of a numeral stand for digits. -/
theorem Numeral.stands (h : Numeral radix text n) :
    ∀ c ∈ text, ∃ digit < radix, Stands digit c := by
  obtain ⟨digits, -, hdigits, hstands, -⟩ := h
  induction hstands with
  | nil => simp
  | cons hfirst _ ih =>
      rw [List.forall_mem_cons] at hdigits ⊢
      exact ⟨⟨_, hdigits.1, hfirst⟩, ih hdigits.2⟩

theorem Numeral.isDigitOf (hradix : radix ≤ 16) (h : Numeral radix text n) :
    ∀ c ∈ text, isDigitOf radix c = true :=
  fun c hc => (isDigitOf_iff hradix).mpr (h.stands c hc)

/-- A numeral stands on one line. -/
theorem Numeral.count_newline (hradix : radix ≤ 16) (h : Numeral radix text n) :
    text.count '\n' = 0 := by
  refine List.count_eq_zero.mpr fun hnewline => ?_
  obtain ⟨digit, hdigit, hstands⟩ := h.stands '\n' hnewline
  exact hstands.imp (P := fun _ c => c ≠ '\n') (by decide) (Nat.lt_of_lt_of_le hdigit hradix) rfl

end Numeral

/-! ### Decimal numbers -/

theorem numeral_decimal {text : List Char} (hsome : text ≠ [])
    (hdigits : ∀ c ∈ text, c.isDigit = true) : Numeral 10 text (positional 10 text) := by
  refine numeral_positional (by norm_num) hsome fun c hc => ?_
  rw [isDigitOf_ten, hdigits c hc]

theorem Numeral.isDigit {text : List Char} {n : Nat} (h : Numeral 10 text n) :
    ∀ c ∈ text, c.isDigit = true := by
  intro c hc
  rw [← isDigitOf_ten]
  exact h.isDigitOf (by norm_num) c hc

end Text

namespace Segment

variable {whole fraction : List Char} {w f : Nat}

theorem packs_whole (hwhole : Text.Numeral 10 whole w) : Double.Packs (decimal whole []) w := by
  rw [decimal, Text.positional_eq (by norm_num) hwhole]
  exact Double.packs_ofNat w

/-- The value of a decimal fraction is rounded once, as a whole. -/
theorem packs_decimal (hwhole : Text.Numeral 10 whole w) (hfraction : Text.Numeral 10 fraction f) :
    Double.Packs (decimal whole fraction) (w + f / 10 ^ fraction.length) := by
  have hsome := hfraction.ne_nil
  have hdigits : Text.positional 10 (whole ++ fraction) = w * 10 ^ fraction.length + f := by
    rw [Text.positional_append, Text.positional_eq (by norm_num) hwhole,
      Text.positional_eq (by norm_num) hfraction]
  have hvalue : (w + f / 10 ^ fraction.length : ℚ) =
      (w * 10 ^ fraction.length + f : ℕ) / 10 ^ fraction.length := by
    push_cast
    field_simp
  have hdecimal : decimal whole fraction =
      Float.ofScientific (Text.positional 10 (whole ++ fraction)) true fraction.length := by
    cases fraction with
    | nil => exact absurd rfl hsome
    | cons c fraction => rfl
  rw [hdecimal, hdigits, hvalue]
  exact Double.packs_ofScientific _ (List.length_pos_of_ne_nil hsome)

end Segment

end BracketScript
