import BracketScript.Proofs.Token.Lexeme

/-!
# Integers in three radices

A whole number is written in binary behind `0b`, in hexadecimal behind `0x`, or in
decimal.

An integer behind a radix mark is one token, up to the first character that is no
digit, and denotes the nearest double; from `2 ^ 64` on it is a fault, and scanning
goes on behind it.  Below that all spellings of a number have one literal
(`Token.scan_integer`).
-/

namespace BracketScript

namespace Scan

/-- Goes on scanning, to the end of a text. -/
def through (scan : Scan) (cs : List Char) : Scan :=
  (segments cs).foldl step scan

/-- This is how a source is scanned. -/
theorem finish_through (source : String) :
    (start.through source.toList).finish = Token.scan source :=
  rfl

theorem step_token {text : List Char} (hline : text.count '\n' = 0) (kind : Kind)
    (literal : Option Literal) (scan : Scan) :
    scan.step ⟨text, .token kind literal⟩ =
      { scan with
        tokens := scan.tokens.push ⟨kind, String.ofList text, literal, scan.line⟩ } := by
  simp [step, hline]

theorem step_fault {text : List Char} (hline : text.count '\n' = 0) (fault : SyntaxFault)
    (scan : Scan) :
    scan.step ⟨text, .fault fault⟩ =
      { scan with errors := scan.errors.push ⟨scan.line, .line, fault⟩ } := by
  simp [step, hline]

theorem through_cons {c : Char} {cs rest : List Char} {piece : Segment}
    (h : Segment.cut c cs = (piece, rest)) (scan : Scan) :
    scan.through (c :: cs) = (scan.step piece).through rest := by
  rw [through, segments_cons, h]
  rfl

end Scan

theorem count_newline_marked {radix : Radix} {digits : List Char} {n : Nat}
    (hdigits : Text.Numeral radix.base digits n) :
    ('0' :: radix.mark :: digits).count '\n' = 0 := by
  have hmark : radix.mark ≠ '\n' := by cases radix <;> decide
  simp [hdigits.count_newline radix.base_le, hmark]

/-- The spellings of a whole number. -/
inductive Integer : (text : List Char) → Nat → Prop
  | marked {radix : Radix} {digits : List Char} {n : Nat}
      (hdigits : Text.Numeral radix.base digits n) : Integer ('0' :: radix.mark :: digits) n
  | decimal {digits : List Char} {n : Nat} (hdigits : Text.Numeral 10 digits n) : Integer digits n

namespace Integer

variable {text : List Char} {n : Nat}

theorem lexeme (h : Integer text n) (hfits : n < 2 ^ 64) :
    Lexeme text .num (some (.num (Float.ofNat n))) := by
  have hrounded := (Double.packs_ofNat n).rounded (Nat.cast_nonneg n)
  cases h with
  | marked hdigits => exact .marked hdigits hfits hrounded
  | decimal hdigits => exact .whole hdigits hrounded

theorem count_newline (h : Integer text n) : text.count '\n' = 0 := by
  cases h with
  | marked hdigits => exact count_newline_marked hdigits
  | decimal hdigits => exact hdigits.count_newline (by norm_num)

end Integer

theorem Lexeme.scan_eq {text : List Char} {kind : Kind} {literal : Option Literal}
    (h : Lexeme text kind literal) (hline : text.count '\n' = 0) :
    Token.scan (String.ofList text) =
      .ok [⟨kind, String.ofList text, literal, 1⟩, Token.eof 1] := by
  obtain ⟨c, tail, rfl⟩ := List.exists_cons_of_ne_nil h.text_ne_nil
  have hends : Ends [] := by simp [Ends]
  have hcut := h.cut hends
  rw [List.append_nil] at hcut
  rw [← Scan.finish_through, String.toList_ofList, Scan.through_cons hcut, Scan.step_token hline]
  rfl

/-- An integer behind a radix mark, wherever scanning comes to it, is one token if it
fits in 64 bits and a fault if it does not; scanning goes on behind it.  The literal
is the nearest double, the same one for all spellings of a number. -/
theorem Token.scan_integer :
    (∀ (radix : Radix) (digits : List Char) (n : Nat), Text.Numeral radix.base digits n →
      ∀ rest, Text.NoDigit radix.base rest → ∀ scan : Scan,
        (n < 2 ^ 64 → ∃ x, Double.Nearest x n ∧
          scan.through ('0' :: radix.mark :: digits ++ rest) =
            { scan with tokens := scan.tokens.push ⟨.num,
                String.ofList ('0' :: radix.mark :: digits), some (.num x), scan.line⟩ }.through
              rest) ∧
        (2 ^ 64 ≤ n →
          scan.through ('0' :: radix.mark :: digits ++ rest) =
            { scan with errors := scan.errors.push ⟨scan.line, .line, .invalidNumber⟩ }.through
              rest)) ∧
    SyntaxFault.invalidNumber.message = "Invalid number literal." ∧
    ∀ n : Nat, n < 2 ^ 64 → ∃ x, Double.Nearest x n ∧ ∀ text, Integer text n →
      Token.scan (String.ofList text) =
        .ok [⟨.num, String.ofList text, some (.num x), 1⟩, Token.eof 1] := by
  refine ⟨?_, rfl, ?_⟩
  · intro radix digits n hdigits rest hrest scan
    have hline := count_newline_marked hdigits
    rw [List.cons_append, Scan.through_cons (Segment.cut_marked hdigits hrest)]
    constructor
    · intro hfits
      refine ⟨Float.ofNat n, Double.nearest_ofNat hfits, ?_⟩
      rw [if_pos hfits, Scan.step_token hline]
    · intro hlarge
      rw [if_neg (Nat.not_lt_of_le hlarge), Scan.step_fault hline]
  · intro n hfits
    refine ⟨Float.ofNat n, Double.nearest_ofNat hfits, fun text htext => ?_⟩
    exact (htext.lexeme hfits).scan_eq htext.count_newline

/-- At the limit: the largest integer behind a zero and in mixed case, followed by a
letter that is no digit; the next integer, followed by a digit of another radix.
And `2 ^ 53 + 1`, which lies half way between two doubles. -/
theorem Token.scan_integer_limit :
    (∃ x, Double.Nearest x (2 ^ 64 - 1 : ℕ) ∧
      Scan.start.through
          ('0' :: 'x' :: '0' :: List.replicate 8 'f' ++ List.replicate 8 'F' ++ ['g']) =
        { Scan.start with tokens := #[⟨.num, "0x0ffffffffFFFFFFFF", some (.num x), 1⟩] }.through
          ['g']) ∧
    Scan.start.through ('0' :: 'b' :: '1' :: List.replicate 64 '0' ++ ['2']) =
      { Scan.start with errors := #[⟨1, .line, .invalidNumber⟩] }.through ['2'] ∧
    (∃ x, Double.Nearest x (2 ^ 53 + 1 : ℕ) ∧
      Token.scan "0x20000000000001" =
        .ok [⟨.num, "0x20000000000001", some (.num x), 1⟩, Token.eof 1] ∧
      Token.scan "9007199254740993" =
        .ok [⟨.num, "9007199254740993", some (.num x), 1⟩, Token.eof 1]) := by
  have hletter : Text.NoDigit 16 ['g'] := by
    intro c hc
    obtain rfl := Option.some.inj hc
    decide
  have hdigit : Text.NoDigit 2 ['2'] := by
    intro c hc
    obtain rfl := Option.some.inj hc
    decide
  refine ⟨?_, ?_, ?_⟩
  · exact (Token.scan_integer.1 .hexadecimal
      ('0' :: List.replicate 8 'f' ++ List.replicate 8 'F') (2 ^ 64 - 1)
      ⟨0 :: List.replicate 16 15, by decide, by decide, by decide, by decide⟩ ['g']
      hletter Scan.start).1 (by norm_num)
  · exact (Token.scan_integer.1 .binary ('1' :: List.replicate 64 '0') (2 ^ 64)
      ⟨1 :: List.replicate 64 0, by decide, by decide, by decide, by decide⟩ ['2']
      hdigit Scan.start).2 le_rfl
  · obtain ⟨x, hx, hscan⟩ := Token.scan_integer.2.2 (2 ^ 53 + 1) (by norm_num)
    refine ⟨x, hx, ?_, ?_⟩
    · exact hscan _ (@Integer.marked .hexadecimal ('2' :: List.replicate 12 '0' ++ ['1']) _
        ⟨2 :: List.replicate 12 0 ++ [1], by decide, by decide, by decide, by decide⟩)
    · exact hscan "9007199254740993".toList (.decimal
        ⟨[9, 0, 0, 7, 1, 9, 9, 2, 5, 4, 7, 4, 0, 9, 9, 3], by decide, by decide, by decide,
          by decide⟩)

end BracketScript
