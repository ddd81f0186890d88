import BracketScript.Proofs.Decimal.Nearest

/-!
# Rounding to a double

A number is turned into a double by dropping bits behind the mantissa; two bits tell
how the rest compares with one half (`Shows`).  What is left is rounded, and the
exponent says how much of it is there: 53 bits, or fewer if the number is small.

In either case mantissa and exponent make one pattern of bits, and carrying over into
the exponent is nothing but adding to it.  So this pattern is the one that the number
is rounded to, whatever its size (`Double.packs_round`).
-/

namespace BracketScript

namespace Double

open Float.Model Float.Model.UnpackedFloat

/-! ### Dropping bits -/

/-- What a mantissa and the two bits behind it tell about a number, in units of the
mantissa: where the number lies, on which side of the middle, and whether anything
is left behind the two bits. -/
structure Shows (em : ExtendedMantissa) (v : ℚ) : Prop where
  le : em.mantissa ≤ v
  lt : v < em.mantissa + 1
  round : em.roundBit = true ↔ em.mantissa + 1 / 2 ≤ v
  sticky : em.stickyBit = false ↔ v = em.mantissa ∨ v = em.mantissa + 1 / 2

theorem shows_exact (m : Nat) : Shows (.ofMantissaAndAccuracy m .exact) m := by
  constructor <;> norm_num [ExtendedMantissa.ofMantissaAndAccuracy]

theorem Shows.eq_iff {em : ExtendedMantissa} {v : ℚ} (h : Shows em v) :
    (em.roundBit || em.stickyBit) = false ↔ v = em.mantissa := by
  rw [Bool.or_eq_false_iff, h.sticky, ← Bool.not_eq_true, h.round, not_le]
  constructor
  · rintro ⟨hbelow, heq | heq⟩
    · exact heq
    · exact absurd heq hbelow.ne
  · exact fun heq => ⟨by linarith, Or.inl heq⟩

theorem Shows.shiftRightOne {em : ExtendedMantissa} {v : ℚ} (h : Shows em v) :
    Shows em.shiftRightOne (v / 2) := by
  have hexact := h.eq_iff
  obtain ⟨hle, hlt, -, -⟩ := h
  obtain ⟨m, roundBit, stickyBit⟩ := em
  dsimp only [ExtendedMantissa.shiftRightOne] at hle hlt hexact ⊢
  have hsplit : (m : ℚ) = 2 * (m / 2 : ℕ) + (m % 2 : ℕ) := by
    exact_mod_cast (Nat.div_add_mod m 2).symm
  rw [hsplit] at hle hlt hexact
  rcases Nat.mod_two_eq_zero_or_one m with hbit | hbit <;> rw [hbit] at hle hlt hexact ⊢ <;>
    push_cast at hle hlt hexact ⊢
  · refine ⟨by linarith, by linarith, iff_of_false Bool.false_ne_true (by linarith), ?_⟩
    rw [hexact]
    constructor
    · exact fun heq => Or.inl (by linarith)
    · rintro (heq | heq) <;> linarith
  · refine ⟨by linarith, by linarith, iff_of_true rfl (by linarith), ?_⟩
    rw [hexact]
    constructor
    · exact fun heq => Or.inr (by linarith)
    · rintro (heq | heq) <;> linarith

theorem Shows.shiftRight {em : ExtendedMantissa} {v : ℚ} (h : Shows em v) (k : Nat) :
    Shows (em >>> k) (v / 2 ^ k) := by
  show Shows (k.repeat ExtendedMantissa.shiftRightOne em) _
  induction k with
  | zero => simpa [Nat.repeat] using h
  | succ k ih =>
      rw [Nat.repeat, pow_succ, ← div_div]
      exact ih.shiftRightOne

/-- The number is at most one half away, and less if the natural number is odd. -/
def RoundsTo (v : ℚ) (n : Nat) : Prop :=
  if n % 2 = 0 then n - 1 / 2 ≤ v ∧ v ≤ n + 1 / 2 else n - 1 / 2 < v ∧ v < n + 1 / 2

theorem RoundsTo.of_lt {v : ℚ} {n : Nat} (h : n - 1 / 2 < v) (h' : v < n + 1 / 2) :
    RoundsTo v n := by
  unfold RoundsTo
  split
  · exact ⟨h.le, h'.le⟩
  · exact ⟨h, h'⟩

theorem RoundsTo.of_even {v : ℚ} {n : Nat} (hn : n % 2 = 0) (h : n - 1 / 2 ≤ v)
    (h' : v ≤ n + 1 / 2) : RoundsTo v n := by
  rw [RoundsTo, if_pos hn]
  exact ⟨h, h'⟩

theorem Shows.roundsTo {em : ExtendedMantissa} {v : ℚ} (h : Shows em v) :
    RoundsTo v em.roundedMantissa := by
  obtain ⟨hle, hlt, hround, hsticky⟩ := h
  obtain ⟨m, roundBit, stickyBit⟩ := em
  cases roundBit with
  | false =>
      -- Below the middle, the mantissa stays.
      have hbelow : v < m + 1 / 2 := by simpa using hround
      have hstays : (ExtendedMantissa.mk m false stickyBit).roundedMantissa = m := by
        cases stickyBit <;> rfl
      rw [hstays]
      exact .of_lt (by dsimp only at hle; linarith) hbelow
  | true =>
      have habove : m + 1 / 2 ≤ v := by simpa using hround
      cases stickyBit with
      | false =>
          -- In the middle, an odd mantissa goes up.
          have hmiddle : v = m + 1 / 2 := by
            rcases hsticky.mp rfl with heq | heq <;> dsimp only at heq <;> linarith
          show RoundsTo v (m + m % 2)
          refine .of_even (by omega) ?_ ?_ <;> push_cast
          · have hbit : ((m % 2 : ℕ) : ℚ) ≤ 1 := by
              exact_mod_cast Nat.lt_succ_iff.mp (Nat.mod_lt m Nat.two_pos)
            linarith
          · have hbit : (0 : ℚ) ≤ (m % 2 : ℕ) := Nat.cast_nonneg _
            linarith
      | true =>
          have hmiddle : v ≠ m + 1 / 2 := fun heq => by
            have hnone := hsticky.mpr (Or.inr heq)
            cases hnone
          have hbeyond := lt_of_le_of_ne habove hmiddle.symm
          show RoundsTo v (m + 1)
          refine .of_lt ?_ ?_ <;> push_cast
          · linarith
          · dsimp only at hlt
            linarith

theorem RoundsTo.le {v : ℚ} {n : Nat} (h : RoundsTo v n) : n - 1 / 2 ≤ v ∧ v ≤ n + 1 / 2 := by
  unfold RoundsTo at h
  split at h
  · exact h
  · exact ⟨h.1.le, h.2.le⟩

/-- Rounding does not go beyond a natural number. -/
theorem RoundsTo.le_of_lt {v : ℚ} {n bound : Nat} (h : RoundsTo v n) (hv : v < bound) :
    n ≤ bound := by
  have hlt : ((2 * n : ℕ) : ℚ) < (2 * bound + 1 : ℕ) := by
    push_cast
    linarith [h.le.1]
  norm_cast at hlt
  omega

theorem RoundsTo.ge_of_le {v : ℚ} {n bound : Nat} (h : RoundsTo v n) (hv : bound ≤ v) :
    bound ≤ n := by
  have hle : ((2 * bound : ℕ) : ℚ) ≤ (2 * n + 1 : ℕ) := by
    push_cast
    linarith [h.le.2]
  norm_cast at hle
  omega

/-! ### Rounding to a mantissa of 53 bits -/

/-- A number in units of the last place of its double, which is `2 ^ exponent`. -/
structure InPlace (exponent : Int) (v : ℚ) : Prop where
  nonneg : 0 ≤ v
  lt : v < 2 ^ 53
  low : -1074 ≤ exponent
  normal : exponent ≠ -1074 → 2 ^ 52 ≤ v

section Rounding

variable {m k : Nat} {e : Int} {accuracy : Accuracy} {v : ℚ}

theorem targetExponent_eq (m : Nat) (e : Int) :
    Format.binary64.targetExponent (totalExponent m e) = max (m.log2 + e - 52) (-1074) := by
  have hmin : Format.binary64.minExponent = -1074 := rfl
  have hbits : (Format.binary64.mantissaBits : Int) = 53 := rfl
  unfold Format.targetExponent totalExponent
  rw [hmin, hbits]
  omega

theorem mantissa_ofMantissaAndAccuracy (m : Nat) (accuracy : Accuracy) :
    (ExtendedMantissa.ofMantissaAndAccuracy m accuracy).mantissa = m := by
  rcases accuracy with _ | (_ | _ | _) <;> rfl

theorem shiftToTargetExponent_eq (h : max (m.log2 + e - 52) (-1074) = e + k) :
    shiftToTargetExponent Format.binary64 m e accuracy =
      (ExtendedMantissa.ofMantissaAndAccuracy m accuracy >>> k, e + k) := by
  have hamount : (e + k - e).toNat = k := by omega
  unfold shiftToTargetExponent shiftToExponent
  rw [targetExponent_eq, h]
  simp only [hamount]

/-- Bits are dropped until the number is in place. -/
theorem Shows.inPlace (hshows : Shows (.ofMantissaAndAccuracy m accuracy) v)
    (h : max (m.log2 + e - 52) (-1074) = e + k) : InPlace (e + k) (v / 2 ^ k) := by
  obtain ⟨hle, hlt, -, -⟩ := hshows
  rw [mantissa_ofMantissaAndAccuracy] at hle hlt
  have hpos : (0 : ℚ) < 2 ^ k := by positivity
  have hmantissa : (0 : ℚ) ≤ m := Nat.cast_nonneg m
  refine ⟨div_nonneg (by linarith) hpos.le, ?_, by omega, fun hnormal => ?_⟩
  · have hlarge : m + 1 ≤ 2 ^ 53 * 2 ^ k := by
      rw [← pow_add]
      refine Nat.succ_le_of_lt (Nat.lt_of_lt_of_le Nat.lt_log2_self ?_)
      exact Nat.pow_le_pow_right Nat.two_pos (by omega)
    rw [div_lt_iff₀ hpos]
    exact hlt.trans_le (by exact_mod_cast hlarge)
  · have hlog : 52 + k ≤ m.log2 := by omega
    have hsmall : 2 ^ 52 * 2 ^ k ≤ m := by
      rw [← pow_add]
      refine (Nat.le_log2 ?_).mp hlog
      rintro rfl
      simp at hlog
    rw [le_div_iff₀ hpos]
    exact le_trans (by exact_mod_cast hsmall) hle

/-- Mantissa and exponent of a double, once a number in place has been rounded.  All
53 bits may be carried over. -/
structure Settled (r : Nat) (t : Int) : Prop where
  le : r ≤ 2 ^ 53
  low : -1074 ≤ t
  normal : t ≠ -1074 → 2 ^ 52 ≤ r

/-- Only the smallest numbers have a mantissa of less than 53 bits. -/
theorem Settled.eq_low {r : Nat} {t : Int} (h : Settled r t) (hr : r < 2 ^ 52) : t = -1074 := by
  by_contra hne
  exact Nat.not_le_of_lt hr (h.normal hne)

theorem log2_of_bits {r : Nat} (hle : 2 ^ 52 ≤ r) (hlt : r < 2 ^ 53) : r.log2 = 52 :=
  (Nat.log2_eq_iff (Nat.lt_of_lt_of_le (by positivity) hle).ne').mpr ⟨hle, hlt⟩

theorem InPlace.settled {t : Int} {w : ℚ} {r : Nat} (h : InPlace t w) (hround : RoundsTo w r) :
    Settled r t where
  le := hround.le_of_lt (by exact_mod_cast h.lt)
  low := h.low
  normal ht := hround.ge_of_le (by exact_mod_cast h.normal ht)

/-- The pattern of bits for a mantissa and an exponent. -/
def pattern (r : Nat) (t : Int) : Nat :=
  (t + 1074).toNat * 2 ^ 52 + r

/-! ### The pattern of bits -/

section Bits

variable {r : Nat} {t : Int}

theorem toNat_packComponents (exponent : BitVec 11) (mantissa : BitVec 52) :
    (packComponents Format.binary64 .positive exponent mantissa).toNat =
      exponent.toNat * 2 ^ 52 + mantissa.toNat := by
  show (0#1 ++ exponent ++ mantissa).toNat = _
  rw [BitVec.toNat_append, BitVec.toNat_append, ← Nat.shiftLeft_add_eq_or_of_lt mantissa.isLt,
    Nat.shiftLeft_eq]
  simp

theorem Settled.toNat_pack (h : Settled r t) (hlt : r < 2 ^ 53) (hpos : 0 < r) :
    (UnpackedFloat.pack Format.binary64 (.finite .positive r t hpos)).toNat =
      min (pattern r t) Dyadic.beyond := by
  have hlow := h.low
  have hbiased : (t + Format.binary64.exponentBias +
      Format.binary64.mantissaBitsWithoutImplicit).toNat = (t + 1075).toNat := by
    have hbias : (Format.binary64.exponentBias : Int) = 1023 := rfl
    have hbits : (Format.binary64.mantissaBitsWithoutImplicit : Int) = 52 := rfl
    omega
  have hfull : (2 : Nat) ^ Format.binary64.exponentBits = 2048 := rfl
  have hmantissa : Format.binary64.mantissaBits = 53 := rfl
  unfold UnpackedFloat.pack
  dsimp only
  rw [hbiased, hfull, hmantissa]
  unfold pattern Dyadic.beyond
  by_cases hleast : 2 ^ 52 ≤ r
  · have hlog := log2_of_bits hleast hlt
    split
    · have hinfinity : (packedInfinity Format.binary64 .positive).toNat = 2047 * 2 ^ 52 := rfl
      rw [hinfinity]
      omega
    · rw [if_pos (by omega), toNat_packComponents, BitVec.toNat_ofNat, BitVec.toNat_ofNat]
      omega
  · have hless := Nat.lt_of_not_le hleast
    obtain rfl := h.eq_low hless
    have hlog : r.log2 < 52 := (Nat.log2_lt hpos.ne').mpr hless
    rw [if_neg (by omega), if_neg (by omega), toNat_packComponents, BitVec.toNat_ofNat]
    simp only [BitVec.toNat_ofNat]
    omega

/-- Rounding keeps the exponent unless it carries into a bit in front. -/
theorem Settled.shift_eq (h : Settled r t) (hlt : r < 2 ^ 53) :
    shiftToTargetExponent Format.binary64 r t .exact = (⟨r, false, false⟩, t) := by
  obtain ⟨-, hlow, hnormal⟩ := h
  have htarget : max (r.log2 + t - 52) (-1074) = t + (0 : ℕ) := by
    by_cases ht : t = -1074
    · have hlog : r.log2 < 53 := by
        rcases Nat.eq_zero_or_pos r with rfl | hpos
        · simp
        · exact (Nat.log2_lt hpos.ne').mpr hlt
      omega
    · have hlog := log2_of_bits (hnormal ht) hlt
      omega
  rw [shiftToTargetExponent_eq htarget, Nat.cast_zero, add_zero]
  rfl

theorem shift_carry (ht : -1074 ≤ t) :
    shiftToTargetExponent Format.binary64 (2 ^ 53) t .exact = (⟨2 ^ 52, false, false⟩, t + 1) := by
  have hlog : (2 ^ 53).log2 = 53 := by decide
  have htarget : max (((2 ^ 53).log2 : Int) + t - 52) (-1074) = t + (1 : ℕ) := by
    rw [hlog]
    push_cast
    omega
  rw [shiftToTargetExponent_eq htarget]
  rfl

theorem roundWithAccuracy_of_shift {em em' : ExtendedMantissa} {e₁ e₂ : Int} (s : Sign)
    (hfirst : shiftToTargetExponent Format.binary64 m e accuracy = (em, e₁))
    (hsecond : shiftToTargetExponent Format.binary64 em.roundedMantissa e₁ .exact = (em', e₂)) :
    roundWithAccuracy Format.binary64 s m e accuracy =
      if hpos : em'.mantissa = 0 then .zero s
      else .finite s em'.mantissa e₂ (Nat.pos_of_ne_zero hpos) := by
  unfold roundWithAccuracy
  rw [hfirst]
  dsimp only
  rw [hsecond]

/-- The bits of a number that has been rounded. -/
theorem Settled.toNat_round {em : ExtendedMantissa}
    (hfirst : shiftToTargetExponent Format.binary64 m e accuracy = (em, t))
    (h : Settled em.roundedMantissa t) :
    (UnpackedFloat.pack Format.binary64
      (roundWithAccuracy Format.binary64 .positive m e accuracy)).toNat =
        min (pattern em.roundedMantissa t) Dyadic.beyond := by
  rcases Nat.lt_or_eq_of_le h.le with hlt | hcarry
  · rw [roundWithAccuracy_of_shift _ hfirst (h.shift_eq hlt)]
    by_cases hzero : em.roundedMantissa = 0
    · have ht := h.eq_low (by omega)
      rw [dif_pos hzero, hzero, ht]
      rfl
    · rw [dif_neg hzero]
      exact h.toNat_pack hlt _
  · -- What is carried makes the exponent one larger, in the pattern as in the number.
    have hsecond := shift_carry h.low
    rw [← hcarry] at hsecond
    have hlow := h.low
    have hnext : Settled (2 ^ 52) (t + 1) := ⟨by norm_num, by omega, fun _ => le_rfl⟩
    rw [roundWithAccuracy_of_shift _ hfirst hsecond, dif_neg (by positivity),
      hnext.toNat_pack (by norm_num), hcarry]
    unfold pattern
    omega

/-- Rounding intervals in units of the last place. -/
theorem rounds_mul_iff {binade : Bool} {w : ℚ} (hr : 0 < r) :
    (Dyadic.mk r t binade).Rounds (w * 2 ^ t) ↔
      if r % 2 = 0 then r - (if binade then 1 / 4 else 1 / 2) ≤ w ∧ w ≤ r + 1 / 2
      else r - (if binade then 1 / 4 else 1 / 2) < w ∧ w < r + 1 / 2 := by
  have hunit : (0 : ℚ) < 2 ^ t := by positivity
  have hquarter : (2 : ℚ) ^ (t - 2) = 1 / 4 * 2 ^ t := by
    rw [zpow_sub₀ (by norm_num)]
    ring
  have hlow : (Dyadic.mk r t binade).low = (r - (if binade then 1 / 4 else 1 / 2)) * 2 ^ t := by
    have hbelow : (if binade then 1 else 2) ≤ 4 * r := by split <;> omega
    rw [Dyadic.low, Dyadic.quarter, hquarter, Nat.cast_sub hbelow, ← mul_assoc]
    cases binade
    · rw [if_neg Bool.false_ne_true, if_neg Bool.false_ne_true]
      push_cast
      ring
    · rw [if_pos rfl, if_pos rfl]
      push_cast
      ring
  have hhigh : (Dyadic.mk r t binade).high = (r + 1 / 2) * 2 ^ t := by
    rw [Dyadic.high, Dyadic.quarter, hquarter]
    push_cast
    ring
  rw [Dyadic.Rounds, hlow, hhigh]
  simp only [mul_le_mul_iff_left₀ hunit, mul_lt_mul_iff_left₀ hunit]

/-- Zero is the magnitude of what is at most half of the least double. -/
theorem rounds_zero {w : ℚ} (hw : 0 ≤ w) (hhalf : w ≤ 1 / 2) :
    (Dyadic.ofBits 0).Rounds (w * 2 ^ (-1074 : Int)) := by
  have hparts : Dyadic.ofBits 0 = ⟨0, -1074, false⟩ := by decide
  have hunit : (0 : ℚ) < 2 ^ (-1074 : Int) := by positivity
  have hlow : (Dyadic.mk 0 (-1074) false).low = 0 := by simp [Dyadic.low]
  have hhigh : (Dyadic.mk 0 (-1074) false).high = 1 / 2 * 2 ^ (-1074 : Int) := by
    rw [Dyadic.high, Dyadic.quarter, zpow_sub₀ (by norm_num)]
    generalize (2 : ℚ) ^ (-1074 : Int) = unit
    norm_num
    ring
  have hrounds : (Dyadic.mk 0 (-1074) false).low ≤ w * 2 ^ (-1074 : Int) ∧
      w * 2 ^ (-1074 : Int) ≤ (Dyadic.mk 0 (-1074) false).high := by
    rw [hlow, hhigh]
    exact ⟨mul_nonneg hw hunit.le, mul_le_mul_of_nonneg_right hhalf hunit.le⟩
  rw [hparts]
  exact hrounds

theorem ofBits_pattern_small (hr : r < 2 ^ 52) :
    Dyadic.ofBits (pattern r (-1074)) = ⟨r, -1074, false⟩ := by
  have hpattern : pattern r (-1074) = r := by
    unfold pattern
    omega
  rw [hpattern, Dyadic.ofBits, Nat.div_eq_of_lt hr, Nat.mod_eq_of_lt hr]
  rfl

theorem ofBits_pattern (ht : -1074 ≤ t) (hr : 2 ^ 52 ≤ r) (hlt : r < 2 ^ 53) :
    Dyadic.ofBits (pattern r t) = ⟨r, t, r = 2 ^ 52 ∧ t ≠ -1074⟩ := by
  obtain ⟨fraction, rfl⟩ := Nat.exists_eq_add_of_le hr
  have hquotient : pattern (2 ^ 52 + fraction) t / 2 ^ 52 = (t + 1075).toNat := by
    unfold pattern
    omega
  have hrest : pattern (2 ^ 52 + fraction) t % 2 ^ 52 = fraction := by
    unfold pattern
    omega
  have hbiased : ((t + 1075).toNat : Int) = t + 1075 := by omega
  rw [Dyadic.ofBits, hquotient, hrest, Dyadic.ofParts, if_neg (by omega), hbiased]
  have hbinade : (decide (fraction = 0) && decide (1 < (t + 1075).toNat)) =
      decide (2 ^ 52 + fraction = 2 ^ 52 ∧ t ≠ -1074) := by
    rw [← Bool.decide_and, decide_eq_decide]
    omega
  rw [hbinade, Nat.add_comm fraction]
  congr 1
  omega

theorem pattern_carry (ht : -1074 ≤ t) : pattern (2 ^ 53) t = pattern (2 ^ 52) (t + 1) := by
  unfold pattern
  omega

/-- The pattern is the one that the number is rounded to.  Below a power of two the
doubles lie closer, but no number in place is there. -/
theorem InPlace.rounds {w : ℚ} (h : InPlace t w) (hround : RoundsTo w r) :
    (Dyadic.ofBits (pattern r t)).Rounds (w * 2 ^ t) := by
  have hsettled := h.settled hround
  rcases Nat.lt_or_eq_of_le hsettled.le with hlt | rfl
  · by_cases hleast : 2 ^ 52 ≤ r
    · have hpos : 0 < r := Nat.lt_of_lt_of_le (by positivity) hleast
      rw [ofBits_pattern h.low hleast hlt, rounds_mul_iff hpos]
      by_cases hbinade : r = 2 ^ 52 ∧ t ≠ -1074
      · obtain ⟨rfl, ht⟩ := hbinade
        have hge := h.normal ht
        have hle := hround.le.2
        rw [decide_eq_true ⟨rfl, ht⟩, if_pos (by norm_num), if_pos rfl]
        push_cast at hle ⊢
        exact ⟨by linarith, hle⟩
      · rw [decide_eq_false hbinade]
        simpa [RoundsTo] using hround
    · obtain rfl := hsettled.eq_low (Nat.lt_of_not_le hleast)
      rcases Nat.eq_zero_or_pos r with rfl | hpos
      · have hle := hround.le.2
        exact rounds_zero h.nonneg (by simpa using hle)
      · rw [ofBits_pattern_small (Nat.lt_of_not_le hleast), rounds_mul_iff hpos]
        simpa [RoundsTo] using hround
  · -- All bits are carried over: the number is just below a power of two.
    have hlow := h.low
    have hhalf : w * 2 ^ t = w / 2 * 2 ^ (t + 1) := by
      rw [zpow_add_one₀ (by norm_num) t]
      ring
    rw [pattern_carry hlow, ofBits_pattern (by omega) le_rfl (by norm_num), hhalf,
      rounds_mul_iff (by positivity), decide_eq_true ⟨rfl, by omega⟩, if_pos (by norm_num),
      if_pos rfl]
    have hbelow := hround.le.1
    have hlt := h.lt
    push_cast at hbelow ⊢
    constructor <;> linarith

end Bits

/-- A number is rounded to the nearest double, if its mantissa is long enough for all
bits that the double has room for. -/
theorem packs_round (hshows : Shows (.ofMantissaAndAccuracy m accuracy) v)
    (h : e ≤ max (m.log2 + e - 52) (-1074)) :
    Packs (.ofModel (.pack (roundWithAccuracy Format.binary64 .positive m e accuracy)))
      (v * 2 ^ e) := by
  obtain ⟨k, hk⟩ := Int.le.dest h
  have hplace := hshows.inPlace hk.symm
  have hround := (hshows.shiftRight k).roundsTo
  have hvalue : v * 2 ^ e = v / 2 ^ k * 2 ^ (e + k) := by
    rw [zpow_add₀ (by norm_num), zpow_natCast]
    field_simp
  refine ⟨_, ?_, Settled.toNat_round (shiftToTargetExponent_eq hk.symm) (hplace.settled hround)⟩
  rw [hvalue]
  exact hplace.rounds hround

end Rounding

end Double

end BracketScript
