import BracketScript.Decimal.Layout
import BracketScript.Proofs.Decimal.Rounding

/-!
# Number texts read back

The text of a decimal can be read back as the number it is, whatever the layout
(`Decimal.readNumber_magnitude`).  As the shortest decimal tells a double from all
others, the text of a finite double does so as well (`Decimal.text_injective`).
-/

namespace BracketScript
namespace Decimal

/-! ### Reading -/

/-- The characters are digits. -/
def AllDigits (cs : List Char) : Prop :=
  ∀ c ∈ cs, c.isDigit = true

/-- What stands in front of the first `c`, and what stands behind it. -/
def cutAt (c : Char) : List Char → List Char × List Char
  | [] => ([], [])
  | a :: cs => if a = c then ([], cs) else (a :: (cutAt c cs).1, (cutAt c cs).2)

/-- What digits with or without a point stand for. -/
def readMantissa (cs : List Char) : ℚ :=
  let (whole, fraction) := cutAt '.' cs
  Nat.ofDigitChars 10 (whole ++ fraction) 0 * 10 ^ (-(fraction.length : ℤ))

/-- What an exponent stands for. -/
def readExponent : List Char → ℤ
  | '-' :: cs => -Nat.ofDigitChars 10 cs 0
  | '+' :: cs => Nat.ofDigitChars 10 cs 0
  | cs => Nat.ofDigitChars 10 cs 0

/-- What the text of a number without a sign stands for. -/
def readNumber (cs : List Char) : ℚ :=
  let (mantissa, power) := cutAt 'e' cs
  readMantissa mantissa * 10 ^ readExponent power

section Reading

variable {w f : List Char} {c : Char}

theorem AllDigits.notMem (h : AllDigits w) (hc : c.isDigit = false) : c ∉ w := by
  intro hmem
  rw [h c hmem] at hc
  cases hc

theorem AllDigits.append (h : AllDigits w) (h' : AllDigits f) : AllDigits (w ++ f) :=
  List.forall_mem_append.mpr ⟨h, h'⟩

theorem cutAt_append (h : c ∉ w) (p : List Char) : cutAt c (w ++ c :: p) = (w, p) := by
  induction w with
  | nil => simp [cutAt]
  | cons a w ih =>
      rw [List.mem_cons, not_or] at h
      simp [cutAt, Ne.symm h.1, ih h.2]

theorem cutAt_of_notMem (h : c ∉ w) : cutAt c w = (w, []) := by
  induction w with
  | nil => rfl
  | cons a w ih =>
      rw [List.mem_cons, not_or] at h
      simp [cutAt, Ne.symm h.1, ih h.2]

theorem readMantissa_whole (h : AllDigits w) : readMantissa w = Nat.ofDigitChars 10 w 0 := by
  simp [readMantissa, cutAt_of_notMem (h.notMem (c := '.') rfl)]

theorem readMantissa_point (h : AllDigits w) (f : List Char) :
    readMantissa (w ++ '.' :: f) =
      Nat.ofDigitChars 10 (w ++ f) 0 * 10 ^ (-(f.length : ℤ)) := by
  simp [readMantissa, cutAt_append (h.notMem (c := '.') rfl)]

theorem readNumber_plain (h : 'e' ∉ w) : readNumber w = readMantissa w := by
  simp [readNumber, cutAt_of_notMem h, readExponent]

theorem readNumber_power (h : 'e' ∉ w) (p : List Char) :
    readNumber (w ++ 'e' :: p) = readMantissa w * 10 ^ readExponent p := by
  simp [readNumber, cutAt_append h]

theorem readExponent_of_allDigits (h : AllDigits w) : readExponent w = Nat.ofDigitChars 10 w 0 := by
  unfold readExponent
  split
  · exact absurd (h '-' List.mem_cons_self) (by decide)
  · exact absurd (h '+' List.mem_cons_self) (by decide)
  · rfl

end Reading

/-! ### Numerals -/

/-- The text is made of digits, perhaps with a point and with an exponent, and
stands for the number. -/
inductive Numeral : List Char → ℚ → Prop
  | whole {w : List Char} (digits : AllDigits w) (ne : w ≠ []) :
      Numeral w (Nat.ofDigitChars 10 w 0)
  | pointed {w f : List Char} (digits : AllDigits w) (ne : w ≠ []) (places : AllDigits f) :
      Numeral (w ++ '.' :: f) (Nat.ofDigitChars 10 (w ++ f) 0 * 10 ^ (-(f.length : ℤ)))
  | scaled {m p : List Char} {v : ℚ} (mantissa : Numeral m v) (plain : 'e' ∉ m)
      (power : ∀ c ∈ p, c.isDigit = true ∨ c = '-' ∨ c = '+') :
      Numeral (m ++ 'e' :: p) (v * 10 ^ readExponent p)

namespace Numeral

variable {t : List Char} {v : ℚ}

theorem read (h : Numeral t v) : readNumber t = v := by
  induction h with
  | whole digits => rw [readNumber_plain (digits.notMem rfl), readMantissa_whole digits]
  | @pointed w f digits _ places =>
      have hplain : 'e' ∉ w ++ '.' :: f := by
        simp [digits.notMem (c := 'e') rfl, places.notMem (c := 'e') rfl]
      rw [readNumber_plain hplain, readMantissa_point digits]
  | scaled _ plain _ ih => rw [readNumber_power plain, ← readNumber_plain plain, ih]

theorem front (h : Numeral t v) : ∃ c cs, t = c :: cs ∧ c.isDigit = true := by
  induction h with
  | @whole w digits ne =>
      obtain ⟨c, cs, rfl⟩ := List.exists_cons_of_ne_nil ne
      exact ⟨c, cs, rfl, digits c List.mem_cons_self⟩
  | @pointed w f digits ne _ =>
      obtain ⟨c, cs, rfl⟩ := List.exists_cons_of_ne_nil ne
      exact ⟨c, cs ++ '.' :: f, rfl, digits c List.mem_cons_self⟩
  | @scaled m p _ _ _ _ ih =>
      obtain ⟨c, cs, rfl, hc⟩ := ih
      exact ⟨c, cs ++ 'e' :: p, rfl, hc⟩

theorem chars (h : Numeral t v) : ∀ c ∈ t, c.isDigit = true ∨ c ∈ ['.', 'e', '-', '+'] := by
  induction h with
  | whole digits => exact fun c hc => Or.inl (digits c hc)
  | pointed digits _ places =>
      refine List.forall_mem_append.mpr ⟨fun c hc => Or.inl (digits c hc), ?_⟩
      exact List.forall_mem_cons.mpr ⟨by decide, fun c hc => Or.inl (places c hc)⟩
  | scaled _ _ power ih =>
      refine List.forall_mem_append.mpr ⟨ih, List.forall_mem_cons.mpr ⟨by decide, ?_⟩⟩
      intro c hc
      rcases power c hc with hdigit | rfl | rfl
      · exact Or.inl hdigit
      · exact Or.inr (by decide)
      · exact Or.inr (by decide)

end Numeral

/-! ### What layouts write -/

theorem allDigits_toDigits (n : Nat) : AllDigits (Nat.toDigits 10 n) :=
  fun _ hc => Nat.isDigit_of_mem_toDigits (by decide) (by decide) hc

theorem allDigits_zeros (n : Nat) : AllDigits (List.replicate n '0') := by
  intro c hc
  rw [List.eq_of_mem_replicate hc]
  rfl

theorem toList_repr (n : Nat) : (Nat.repr n).toList = Nat.toDigits 10 n := by
  rw [Nat.repr_eq_ofList_toDigits, String.toList_ofList]

/-- The sign and the digits of an exponent. -/
def powerText (plus : Bool) (e : Int) : List Char :=
  (if e < 0 then ['-'] else if plus then ['+'] else []) ++ Nat.toDigits 10 e.natAbs

theorem readExponent_powerText (plus : Bool) (e : Int) : readExponent (powerText plus e) = e := by
  unfold powerText
  split
  · rw [List.singleton_append, readExponent, Nat.ofDigitChars_ten_toDigits]
    omega
  · have hself : ((e.natAbs : ℕ) : ℤ) = e := by omega
    split
    · rw [List.singleton_append, readExponent, Nat.ofDigitChars_ten_toDigits, hself]
    · rw [List.nil_append, readExponent_of_allDigits (allDigits_toDigits _),
        Nat.ofDigitChars_ten_toDigits, hself]

theorem powerText_chars (plus : Bool) (e : Int) :
    ∀ c ∈ powerText plus e, c.isDigit = true ∨ c = '-' ∨ c = '+' := by
  refine List.forall_mem_append.mpr ⟨?_, fun c hc => Or.inl (allDigits_toDigits _ c hc)⟩
  split
  · simp
  · split <;> simp

section Texts

variable (d : Decimal)

theorem toList_positionalText_whole (point : Bool) (h : 0 ≤ d.exponent) :
    (positionalText point d).toList = Nat.toDigits 10 d.digits ++
      List.replicate d.exponent.toNat '0' ++ if point then ['.', '0'] else [] := by
  have hend : (if point then ".0" else "").toList = if point then ['.', '0'] else [] := by
    cases point <;> rfl
  simp only [positionalText, h, if_true, String.toList_append, toList_repr, zeros,
    String.toList_ofList, hend]

theorem toList_positionalText_inside (point : Bool) (h : d.exponent < 0)
    (hplaces : (-d.exponent).toNat < (Nat.toDigits 10 d.digits).length) :
    (positionalText point d).toList =
      (Nat.toDigits 10 d.digits).take ((Nat.toDigits 10 d.digits).length - (-d.exponent).toNat) ++
        '.' ::
        (Nat.toDigits 10 d.digits).drop
          ((Nat.toDigits 10 d.digits).length - (-d.exponent).toNat) := by
  simp only [positionalText, Int.not_le.mpr h, if_false, length_repr, hplaces, if_true,
    String.toList_append, String.toList_ofList, toList_repr]
  simp

theorem toList_positionalText_before (point : Bool) (h : d.exponent < 0)
    (hplaces : ¬(-d.exponent).toNat < (Nat.toDigits 10 d.digits).length) :
    (positionalText point d).toList = ['0'] ++ '.' ::
      (List.replicate ((-d.exponent).toNat - (Nat.toDigits 10 d.digits).length) '0' ++
        Nat.toDigits 10 d.digits) := by
  simp only [positionalText, Int.not_le.mpr h, if_false, length_repr, hplaces,
    String.toList_append, toList_repr, zeros, String.toList_ofList]
  simp

theorem toList_power (plus : Bool) (e : Int) :
    ("e" ++ (if e < 0 then "-" else if plus then "+" else "") ++ Nat.repr e.natAbs).toList =
      'e' :: powerText plus e := by
  rw [String.toList_append, String.toList_append, toList_repr, powerText]
  split
  · rfl
  · split <;> rfl

theorem toList_exponentText_one (plus : Bool) {c : Char} (h : Nat.toDigits 10 d.digits = [c]) :
    (exponentText plus d).toList = [c] ++ 'e' :: powerText plus (leading d) := by
  unfold exponentText
  dsimp only
  rw [toList_repr, h]
  dsimp only
  rw [String.toList_append, toList_power, String.toList_singleton]

theorem toList_exponentText_more (plus : Bool) {c c' : Char} {cs : List Char}
    (h : Nat.toDigits 10 d.digits = c :: c' :: cs) :
    (exponentText plus d).toList =
      ([c] ++ '.' :: c' :: cs) ++ 'e' :: powerText plus (leading d) := by
  unfold exponentText
  dsimp only
  rw [toList_repr, h]
  dsimp only
  rw [String.toList_append, toList_power]
  simp only [String.toList_append, String.toList_singleton, String.toList_ofList]
  rfl

/-- A positional text is a numeral, with a point if the layout keeps one. -/
theorem positionalText_numeral (point : Bool) :
    Numeral (positionalText point d).toList d.value ∧
      (point = true → '.' ∈ (positionalText point d).toList) := by
  have hdigits := allDigits_toDigits d.digits
  have hne : Nat.toDigits 10 d.digits ≠ [] := Nat.toDigits_ne_nil
  rcases Int.lt_or_le d.exponent 0 with hnegative | hexponent
  · by_cases hplaces : (-d.exponent).toNat < (Nat.toDigits 10 d.digits).length
    · rw [toList_positionalText_inside d point hnegative hplaces]
      refine ⟨?_, fun _ => by simp⟩
      generalize hcut : (Nat.toDigits 10 d.digits).length - (-d.exponent).toNat = cut
      have hwhole : AllDigits ((Nat.toDigits 10 d.digits).take cut) :=
        fun c hc => hdigits c (List.mem_of_mem_take hc)
      have hplaces' : AllDigits ((Nat.toDigits 10 d.digits).drop cut) :=
        fun c hc => hdigits c (List.mem_of_mem_drop hc)
      have hsome : (Nat.toDigits 10 d.digits).take cut ≠ [] := by
        simp only [ne_eq, List.take_eq_nil_iff, hne, or_false]
        omega
      have hlength : (-(((Nat.toDigits 10 d.digits).drop cut).length : ℕ) : ℤ) = d.exponent := by
        rw [List.length_drop]
        omega
      have hnumeral := Numeral.pointed hwhole hsome hplaces'
      rwa [List.take_append_drop, Nat.ofDigitChars_ten_toDigits, hlength] at hnumeral
    · rw [toList_positionalText_before d point hnegative hplaces]
      refine ⟨?_, fun _ => by simp⟩
      generalize hcount : (-d.exponent).toNat - (Nat.toDigits 10 d.digits).length = count
      have hlength : (-((List.replicate count '0' ++ Nat.toDigits 10 d.digits).length : ℕ) : ℤ) =
          d.exponent := by
        rw [List.length_append, List.length_replicate]
        omega
      have hnumeral := Numeral.pointed (allDigits_zeros 1) (by simp)
        ((allDigits_zeros count).append hdigits)
      rwa [Nat.ofDigitChars_append, Nat.ofDigitChars_append, Nat.ofDigitChars_replicate_zero,
        Nat.ofDigitChars_replicate_zero, Nat.mul_zero, Nat.ofDigitChars_ten_toDigits,
        hlength] at hnumeral
  · rw [toList_positionalText_whole d point hexponent]
    have hwhole : AllDigits (Nat.toDigits 10 d.digits ++ List.replicate d.exponent.toNat '0') :=
      hdigits.append (allDigits_zeros _)
    have hsome : Nat.toDigits 10 d.digits ++ List.replicate d.exponent.toNat '0' ≠ [] :=
      List.append_ne_nil_of_left_ne_nil hne _
    have hnumber : ((Nat.ofDigitChars 10
        (Nat.toDigits 10 d.digits ++ List.replicate d.exponent.toNat '0') 0 : ℕ) : ℚ) = d.value := by
      have hpower : (10 : ℚ) ^ d.exponent.toNat = 10 ^ d.exponent := by
        rw [← zpow_natCast, Int.toNat_of_nonneg hexponent]
      rw [Nat.ofDigitChars_append, Nat.ofDigitChars_ten_toDigits, Nat.ofDigitChars_replicate_zero,
        Nat.cast_mul, Nat.cast_pow, Nat.cast_ofNat, hpower, mul_comm]
      rfl
    cases point with
    | false =>
        refine ⟨?_, fun h => by cases h⟩
        have hnumeral := Numeral.whole hwhole hsome
        rw [hnumber] at hnumeral
        simpa using hnumeral
    | true =>
        refine ⟨?_, fun _ => by simp⟩
        have hnumeral := Numeral.pointed hwhole hsome (allDigits_zeros 1)
        have hvalue : ((Nat.ofDigitChars 10 (Nat.toDigits 10 d.digits ++
            List.replicate d.exponent.toNat '0' ++ List.replicate 1 '0') 0 : ℕ) : ℚ) *
            10 ^ (-((List.replicate 1 '0').length : ℤ)) = d.value := by
          rw [Nat.ofDigitChars_append, Nat.ofDigitChars_replicate_zero, Nat.cast_mul, hnumber,
            List.length_replicate]
          norm_num
          ring
        rw [hvalue] at hnumeral
        exact hnumeral

theorem exponentText_numeral (plus : Bool) :
    Numeral (exponentText plus d).toList d.value ∧ 'e' ∈ (exponentText plus d).toList := by
  have hdigits := allDigits_toDigits d.digits
  have hnumber : Nat.ofDigitChars 10 (Nat.toDigits 10 d.digits) 0 = d.digits :=
    Nat.ofDigitChars_ten_toDigits
  have hleading : leading d = d.exponent + (Nat.toDigits 10 d.digits).length - 1 := by
    rw [leading, length_repr]
  rcases hform : Nat.toDigits 10 d.digits with _ | ⟨c, _ | ⟨c', cs⟩⟩
  · exact absurd hform Nat.toDigits_ne_nil
  · rw [toList_exponentText_one d plus hform]
    refine ⟨?_, by simp⟩
    rw [hform] at hdigits hnumber hleading
    have hnumeral := Numeral.scaled (.whole hdigits (by simp)) (hdigits.notMem rfl)
      (powerText_chars plus (leading d))
    have hexponent : leading d = d.exponent := by
      rw [hleading]
      simp
    rw [readExponent_powerText, hnumber, hexponent] at hnumeral
    rwa [hexponent]
  · rw [toList_exponentText_more d plus hform]
    refine ⟨?_, by simp⟩
    rw [hform] at hdigits hnumber hleading
    obtain ⟨hfirst, hrest⟩ := List.forall_mem_cons.mp hdigits
    have hfirst' : AllDigits [c] := List.forall_mem_singleton.mpr hfirst
    have hplain : 'e' ∉ [c] ++ '.' :: c' :: cs := by
      have := hdigits.notMem (c := 'e') rfl
      simpa using this
    have hnumeral := Numeral.scaled (.pointed hfirst' (by simp) hrest) hplain
      (powerText_chars plus (leading d))
    have hvalue : ((Nat.ofDigitChars 10 ([c] ++ c' :: cs) 0 : ℕ) : ℚ) *
        10 ^ (-((c' :: cs).length : ℤ)) * 10 ^ leading d = d.value := by
      rw [List.singleton_append, hnumber, mul_assoc, ← zpow_add₀ (by norm_num), hleading, value]
      congr 2
      simp only [List.length_cons]
      push_cast
      ring
    rwa [readExponent_powerText, hvalue] at hnumeral

end Texts

theorem magnitude_cases (l : Layout) (d : Decimal) :
    l.magnitude d = positionalText l.point d ∨ l.magnitude d = exponentText l.plus d :=
  ite_eq_or_eq _ _ _

/-- The text of a decimal is a numeral that stands for it. -/
theorem magnitude_numeral (l : Layout) (d : Decimal) : Numeral (l.magnitude d).toList d.value := by
  rcases magnitude_cases l d with hform | hform
  · rw [hform]
    exact (positionalText_numeral d l.point).1
  · rw [hform]
    exact (exponentText_numeral d l.plus).1

/-- A layout that keeps the point never writes digits alone. -/
theorem magnitude_marked {l : Layout} (h : l.point = true) (d : Decimal) :
    '.' ∈ (l.magnitude d).toList ∨ 'e' ∈ (l.magnitude d).toList := by
  rcases magnitude_cases l d with hform | hform
  · rw [hform]
    exact Or.inl ((positionalText_numeral d l.point).2 h)
  · rw [hform]
    exact Or.inr (exponentText_numeral d l.plus).2

/-! ### Doubles -/

theorem toBits_injective {x y : Float} (h : x.toBits = y.toBits) : x = y := by
  obtain ⟨⟨bits, valid⟩⟩ := x
  obtain ⟨⟨bits', valid'⟩⟩ := y
  obtain rfl : bits = bits' := h
  rfl

/-- A double is negative if the topmost bit is set. -/
def isNegative (x : Float) : Bool :=
  x.toBits >>> 63 = 1

theorem isNegative_eq (x : Float) : isNegative x = decide (x.toBits.toNat / 2 ^ 63 = 1) := by
  have hshift : (x.toBits >>> 63).toNat = x.toBits.toNat / 2 ^ 63 := by
    rw [UInt64.toNat_shiftRight]
    exact Nat.shiftRight_eq_div_pow _ _
  unfold isNegative
  rw [decide_eq_decide, ← UInt64.toNat_inj, hshift]
  rfl

/-- A double is given by its sign and its magnitude. -/
theorem eq_of_magnitude {x y : Float} (hsign : isNegative x = isNegative y)
    (h : x.toBits.toNat % 2 ^ 63 = y.toBits.toNat % 2 ^ 63) : x = y := by
  refine toBits_injective (UInt64.toNat_inj.mp ?_)
  rw [isNegative_eq, isNegative_eq, decide_eq_decide] at hsign
  have hbound := x.toBits.toNat_lt
  have hbound' := y.toBits.toNat_lt
  omega

theorem isNaN_of_isFinite {x : Float} (h : x.isFinite = true) :
    x.isNaN = false ∧ x.isInf = false := by
  unfold Float.isFinite Float.Model.isFinite at h
  unfold Float.isNaN Float.Model.isNaN Float.isInf Float.Model.isInf
  cases hform : x.toModel.unpack with
  | notANumber | infinity _ =>
      rw [hform] at h
      cases h
  | zero _ | finite _ _ _ _ => exact ⟨rfl, rfl⟩

theorem text_of_isFinite (l : Layout) {x : Float} (h : x.isFinite = true) :
    (l.text x).toList =
      (if isNegative x then ['-'] else []) ++ (l.magnitude (shortest l.tie x)).toList := by
  obtain ⟨hnan, hinf⟩ := isNaN_of_isFinite h
  have hsign : (if x.toBits >>> 63 = 1 then "-" else "").toList =
      if isNegative x then ['-'] else [] := by
    unfold isNegative
    by_cases hbit : x.toBits >>> 63 = 1 <;> simp [hbit]
  simp only [Layout.text, hnan, hinf, Bool.false_eq_true, if_false, String.toList_append, hsign]

/-- A layout gives different finite doubles different texts. -/
theorem text_injective (l : Layout) {x y : Float} (hx : x.isFinite = true)
    (hy : y.isFinite = true) (h : l.text x = l.text y) : x = y := by
  have htexts := congrArg String.toList h
  rw [text_of_isFinite l hx, text_of_isFinite l hy] at htexts
  have hnumeral := magnitude_numeral l (shortest l.tie x)
  have hnumeral' := magnitude_numeral l (shortest l.tie y)
  obtain ⟨c, cs, hfront, hc⟩ := hnumeral.front
  obtain ⟨c', cs', hfront', hc'⟩ := hnumeral'.front
  -- A numeral begins with a digit, so a sign is no part of it.
  have hsign : isNegative x = isNegative y ∧
      (l.magnitude (shortest l.tie x)).toList = (l.magnitude (shortest l.tie y)).toList := by
    cases hs : isNegative x <;> cases hs' : isNegative y
    · simpa [hs, hs'] using htexts
    · rw [hs, hs', hfront] at htexts
      obtain rfl : c = '-' := (List.cons.inj htexts).1
      cases hc
    · rw [hs, hs', hfront'] at htexts
      obtain rfl : '-' = c' := (List.cons.inj htexts).1
      cases hc'
    · simpa [hs, hs'] using htexts
  have hvalue : (shortest l.tie x).value = (shortest l.tie y).value := by
    rw [← hnumeral.read, ← hnumeral'.read, hsign.2]
  exact eq_of_magnitude hsign.1 (magnitude_eq_of_value_eq hvalue)

end Decimal
end BracketScript
