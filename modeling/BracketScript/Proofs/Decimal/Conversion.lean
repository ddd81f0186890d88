import BracketScript.Proofs.Decimal.Packing

/-!
# Numbers as doubles

A natural number is turned into a double by a product, a decimal by a quotient of two
numbers that are exact.  Either is rounded once, so the double is the one that the
number is rounded to: `Double.packs_ofNat`, `Double.packs_ofScientific`.
-/

namespace BracketScript

namespace Double

open Float.Model Float.Model.UnpackedFloat

/-! ### Quotients -/

section Quotients

/-- A fraction behind a mantissa is compared with one half. -/
theorem shows_fraction (m : Nat) {num den : Nat} (h : num < den) :
    Shows (.ofMantissaAndAccuracy m (accuracyOfFraction num den)) (m + num / den) := by
  have hpos : (0 : ℚ) < den := by exact_mod_cast Nat.zero_lt_of_lt h
  have hone : (num / den : ℚ) < 1 := by
    rw [div_lt_one hpos]
    exact_mod_cast h
  have hhalf : (num / den : ℚ) < 1 / 2 ↔ 2 * num < den := by
    rw [div_lt_iff₀ hpos, ← Nat.cast_lt (α := ℚ)]
    push_cast
    constructor <;> intro <;> linarith
  have hmiddle : (num / den : ℚ) = 1 / 2 ↔ 2 * num = den := by
    rw [div_eq_iff hpos.ne', ← Nat.cast_inj (R := ℚ)]
    push_cast
    constructor <;> intro <;> linarith
  unfold accuracyOfFraction
  by_cases hzero : num = 0
  · rw [if_pos hzero, hzero, Nat.cast_zero, zero_div, add_zero]
    exact shows_exact m
  · have hrest : (0 : ℚ) < num / den := by
      have hnum : (0 : ℚ) < num := by exact_mod_cast Nat.pos_of_ne_zero hzero
      positivity
    rw [if_neg hzero]
    generalize (num / den : ℚ) = rest at *
    rcases Nat.lt_trichotomy (2 * num) den with hlt | heq | hlt
    · have hbelow := hhalf.mpr hlt
      rw [compare_lt_iff_lt.mpr hlt]
      show Shows ⟨m, false, true⟩ _
      refine ⟨by dsimp only; linarith, by dsimp only; linarith,
        iff_of_false nofun (by dsimp only; linarith), iff_of_false nofun ?_⟩
      rintro (heq | heq) <;> dsimp only at heq <;> linarith
    · have hequal := hmiddle.mpr heq
      rw [compare_eq_iff_eq.mpr heq, hequal]
      show Shows ⟨m, true, false⟩ _
      exact ⟨by dsimp only; linarith, by dsimp only; linarith, iff_of_true rfl le_rfl,
        iff_of_true rfl (Or.inr rfl)⟩
    · have habove : 1 / 2 < rest := by
        refine lt_of_le_of_ne (not_lt.mp fun hbelow => ?_) fun hequal => ?_
        · have := hhalf.mp hbelow
          omega
        · have := hmiddle.mp hequal.symm
          omega
      rw [compare_gt_iff_gt.mpr hlt]
      show Shows ⟨m, true, true⟩ _
      refine ⟨by dsimp only; linarith, by dsimp only; linarith,
        iff_of_true rfl (by dsimp only; linarith), iff_of_false nofun ?_⟩
      rintro (heq | heq) <;> dsimp only at heq <;> linarith

theorem shows_div (m : Nat) {d : Nat} (hd : 0 < d) :
    Shows (.ofMantissaAndAccuracy (m / d) (accuracyOfFraction (m % d) d)) (m / d : ℚ) := by
  have hsplit : (m / d : ℚ) = (m / d : ℕ) + (m % d : ℕ) / d := by
    have hwhole : (m : ℚ) = d * (m / d : ℕ) + (m % d : ℕ) := by
      exact_mod_cast (Nat.div_add_mod m d).symm
    have hpos : (d : ℚ) ≠ 0 := by exact_mod_cast hd.ne'
    rw [hwhole]
    field_simp
  rw [hsplit]
  exact shows_fraction _ (Nat.mod_lt m hd)

/-- A quotient is taken to 53 bits at least, unless it is so small that a double has
fewer. -/
theorem divCore_eq (m₁ m₂ : Nat) (e₁ e₂ : Int) :
    ∃ s : Nat, divCore Format.binary64 m₁ e₁ m₂ e₂ =
        (m₁ * 2 ^ s / m₂, e₁ - e₂ - s, accuracyOfFraction (m₁ * 2 ^ s % m₂) m₂) ∧
      (e₁ - e₂ - s ≤ -1074 ∨ m₂.log2 + 53 ≤ m₁.log2 + s) := by
  have hmin : Format.binary64.minExponent = -1074 := rfl
  have hbits : (Format.binary64.mantissaBits : Int) = 53 := rfl
  unfold divCore Format.targetExponent totalExponent
  rw [hmin, hbits]
  dsimp only
  generalize htarget : min (e₁ - e₂) (max (m₁.log2 + 1 + e₁ - (m₂.log2 + 1 + e₂) - 53) (-1074)) =
    target
  obtain ⟨s, hs⟩ := Int.le.dest (show target ≤ e₁ - e₂ by omega)
  have hamount : (e₁ - e₂ - target).toNat = s := by omega
  have hexponent : e₁ - e₂ - s = target := by omega
  refine ⟨s, ?_, by omega⟩
  rw [hamount, hexponent, Nat.shiftLeft_eq]

theorem le_log2_div {m d : Nat} (hm : 0 < m) (hd : 0 < d) {s : Nat}
    (h : d.log2 + 53 ≤ m.log2 + s) : 52 ≤ (m * 2 ^ s / d).log2 := by
  have hle : 2 ^ 52 ≤ m * 2 ^ s / d := by
    rw [Nat.le_div_iff_mul_le hd]
    calc 2 ^ 52 * d ≤ 2 ^ 52 * 2 ^ (d.log2 + 1) := Nat.mul_le_mul_left _ Nat.lt_log2_self.le
      _ = 2 ^ (d.log2 + 53) := by rw [← pow_add]; congr 1; omega
      _ ≤ 2 ^ (m.log2 + s) := Nat.pow_le_pow_right Nat.two_pos h
      _ = 2 ^ m.log2 * 2 ^ s := pow_add _ _ _
      _ ≤ m * 2 ^ s := Nat.mul_le_mul_right _ ((Nat.le_log2 hm.ne').mp le_rfl)
  exact (Nat.le_log2 (Nat.lt_of_lt_of_le (by positivity) hle).ne').mpr hle

/-- The quotient of two doubles is rounded once. -/
theorem packs_div {m₁ m₂ : Nat} (h₁ : 0 < m₁) (h₂ : 0 < m₂) (e₁ e₂ : Int) :
    Packs (.ofModel (.pack (UnpackedFloat.div Format.binary64 (.finite .positive m₁ e₁ h₁)
      (.finite .positive m₂ e₂ h₂)))) (m₁ * 2 ^ e₁ / (m₂ * 2 ^ e₂)) := by
  obtain ⟨s, hcore, hlong⟩ := divCore_eq m₁ m₂ e₁ e₂
  have hdiv : UnpackedFloat.div Format.binary64 (.finite .positive m₁ e₁ h₁)
      (.finite .positive m₂ e₂ h₂) = roundWithAccuracy Format.binary64 .positive
        (m₁ * 2 ^ s / m₂) (e₁ - e₂ - s) (accuracyOfFraction (m₁ * 2 ^ s % m₂) m₂) := by
    unfold UnpackedFloat.div
    dsimp only
    rw [hcore]
    rfl
  have hvalue : (m₁ * 2 ^ e₁ / (m₂ * 2 ^ e₂) : ℚ) =
      (m₁ * 2 ^ s : ℕ) / m₂ * 2 ^ (e₁ - e₂ - s) := by
    rw [zpow_sub₀ (by norm_num), zpow_sub₀ (by norm_num), zpow_natCast]
    push_cast
    field_simp
  rw [hdiv, hvalue]
  refine packs_round (shows_div _ h₂) ?_
  rcases hlong with hsmall | hlong
  · omega
  · have hlog := le_log2_div h₁ h₂ hlong
    omega

end Quotients

/-! ### Natural numbers -/

/-- A mantissa of 53 bits and an exponent that a double has room for. -/
structure Fits (m : Nat) (e : Int) : Prop where
  le : 2 ^ 52 ≤ m
  lt : m < 2 ^ 53
  low : -1074 ≤ e
  high : e ≤ 971

section Fits

variable {m : Nat} {e : Int} {hpos : 0 < m}

theorem Fits.pack_eq (h : Fits m e) :
    UnpackedFloat.pack Format.binary64 (.finite .positive m e hpos) =
      packComponents Format.binary64 .positive (.ofNat _ (e + 1075).toNat) (.ofNat _ m) := by
  have hlog := log2_of_bits h.le h.lt
  obtain ⟨hle, hlt, hlow, hhigh⟩ := h
  have hbiased : (e + Format.binary64.exponentBias + (52 : ℕ)).toNat = (e + 1075).toNat := by
    have hbias : (Format.binary64.exponentBias : Int) = 1023 := rfl
    omega
  have hbits : 52 + 1 = Format.binary64.mantissaBits := rfl
  unfold UnpackedFloat.pack
  dsimp only
  rw [hbiased, hlog, if_neg (by omega), if_pos hbits]

theorem unpackSign_packComponents (exponent : BitVec 11) (mantissa : BitVec 52) :
    unpackSign (packComponents Format.binary64 .positive exponent mantissa) = 0#1 := by
  apply BitVec.eq_of_toNat_eq
  show (packComponents Format.binary64 .positive exponent mantissa).toNat >>> 63 % 2 ^ 1 = 0
  have hexponent := exponent.isLt
  have hmantissa := mantissa.isLt
  rw [toNat_packComponents, Nat.shiftRight_eq_div_pow]
  omega

theorem finite_eq {s s' : Sign} {m' : Nat} {e' : Int} {hpos' : 0 < m'} (hs : s = s') (hm : m = m')
    (he : e = e') : UnpackedFloat.finite s m e hpos = .finite s' m' e' hpos' := by
  subst hs hm he
  rfl

theorem unpack_eq {b : BitVec 64} (hsign : @unpackSign Format.binary64 b = 0#1)
    (hfinite : @unpackExponent Format.binary64 b ≠ -1#11)
    (hnormal : @unpackExponent Format.binary64 b ≠ 0#11)
    (hexponent : ((@unpackExponent Format.binary64 b).toNat : Int) - 1075 = e)
    (hmantissa : (1#1 ++ @unpackMantissa Format.binary64 b).toNat = m) :
    UnpackedFloat.unpack Format.binary64 b = .finite .positive m e hpos := by
  unfold UnpackedFloat.unpack
  dsimp only
  rw [if_neg hfinite, if_neg hnormal]
  refine finite_eq ?_ hmantissa hexponent
  rw [hsign]
  rfl

/-- Nothing is lost in the bits of a double. -/
theorem Fits.unpack_pack (h : Fits m e) :
    (Float.Model.pack (.finite .positive m e hpos)).unpack = .finite .positive m e hpos := by
  show UnpackedFloat.unpack Format.binary64
    (UnpackedFloat.pack Format.binary64 (.finite .positive m e hpos)) = _
  rw [h.pack_eq]
  obtain ⟨hle, hlt, hlow, hhigh⟩ := h
  have hexponent : (BitVec.ofNat 11 (e + 1075).toNat).toNat = (e + 1075).toNat := by
    rw [BitVec.toNat_ofNat]
    omega
  refine unpack_eq (unpackSign_packComponents _ _) ?_ ?_ ?_ ?_ <;>
    simp only [unpackExponent_packComponents, unpackMantissa_packComponents]
  · intro h
    have heq := congrArg BitVec.toNat h
    rw [hexponent, show (-1#11).toNat = 2047 from rfl] at heq
    omega
  · intro h
    have heq := congrArg BitVec.toNat h
    rw [hexponent, show (0#11).toNat = 0 from rfl] at heq
    omega
  · rw [hexponent]
    omega
  · rw [BitVec.toNat_append, ← Nat.shiftLeft_add_eq_or_of_lt (BitVec.isLt _), BitVec.toNat_ofNat]
    simp only [BitVec.toNat_ofNat, Nat.shiftLeft_eq]
    omega

/-- A number that fits a double is not changed by rounding. -/
theorem Fits.round_eq (h : Fits m e) :
    roundWithAccuracy Format.binary64 .positive m e .exact = .finite .positive m e hpos := by
  have hsettled : Settled m e := ⟨h.lt.le, h.low, fun _ => h.le⟩
  have hshift := hsettled.shift_eq h.lt
  rw [roundWithAccuracy_of_shift _ hshift hshift]
  exact dif_neg hpos.ne'

end Fits

section OfNat

variable {n : Nat}

theorem log2_mul_two_pow (hn : 0 < n) (j : Nat) : (n * 2 ^ j).log2 = n.log2 + j := by
  obtain ⟨hle, hlt⟩ := (Nat.log2_eq_iff hn.ne').mp (rfl : n.log2 = n.log2)
  rw [Nat.log2_eq_iff (by positivity)]
  constructor
  · rw [pow_add]
    exact Nat.mul_le_mul_right _ hle
  · rw [Nat.add_right_comm, pow_add]
    exact Nat.mul_lt_mul_of_pos_right hlt (by positivity)

/-- The exact value of a natural number below `2 ^ 53`. -/
theorem fits_mul_two_pow {j : Nat} (hn : 0 < n) (hj : n.log2 + j = 52) :
    Fits (n * 2 ^ j) (-j) := by
  have hlog := log2_mul_two_pow hn j
  rw [hj, Nat.log2_eq_iff (by positivity)] at hlog
  exact ⟨hlog.1, hlog.2, by omega, by omega⟩

theorem toFloat_eq {j : Nat} (hn : 0 < n) (hj : n.log2 + j = 52) :
    n.toUInt64.toFloat.toModel.unpack =
      .finite .positive (n * 2 ^ j) (-j) (Nat.mul_pos hn (Nat.two_pow_pos j)) := by
  have hfits := fits_mul_two_pow hn hj
  have hsmall : n < 2 ^ 53 := (Nat.log2_lt hn.ne').mp (by omega)
  have htoNat : n.toUInt64.toNat = n := by
    rw [UInt64.toNat_ofNat']
    omega
  have htarget : Format.binary64.targetExponent (totalExponent n 0) = -j := by
    rw [targetExponent_eq]
    omega
  have hshift : decreaseExponent n 0 (-j) = (n * 2 ^ j, (-j : Int)) := by
    have hamount : ((0 : Int) - -j).toNat = j := by omega
    rw [decreaseExponent, hamount, Nat.shiftLeft_eq]
    simp
  have hround : UnpackedFloat.round Format.binary64 .positive n 0 =
      .finite .positive (n * 2 ^ j) (-j) (Nat.mul_pos hn (Nat.two_pow_pos j)) := by
    rw [UnpackedFloat.round, htarget, hshift]
    exact hfits.round_eq
  show (Float.Model.pack
    (UnpackedFloat.normalize Format.binary64 n.toUInt64.toNat 0 .positive)).unpack = _
  rw [htoNat, UnpackedFloat.normalize, compare_gt_iff_gt.mpr (Int.natCast_pos.mpr hn),
    Int.toNat_natCast, hround, hfits.unpack_pack]

/-- A number of more than 53 bits is rounded once. -/
theorem ofNat_eq_of_le (h : 2 ^ 53 ≤ n) : Float.ofNat n =
    .ofModel (.pack (roundWithAccuracy Format.binary64 .positive (n * 2 ^ 53) (-(53 : ℕ))
      .exact)) := by
  have hscientific : Float.ofNat n = .ofModel (.ofScientific n 0) := by
    show Float.ofScientific n false 0 = _
    unfold Float.ofScientific
    rw [dif_neg (by omega)]
    rfl
  have hshift : n <<< Format.binary64.mantissaBits * 10 ^ (0 : Int).toNat = n * 2 ^ 53 := by
    rw [Nat.shiftLeft_eq, Int.toNat_zero, pow_zero, mul_one]
    rfl
  have hsmall : ¬ (0 : Int) < -((2 : Int) ^ Format.binary64.exponentBits + n.log2) := by
    have hpos : (0 : Int) < 2 ^ Format.binary64.exponentBits := by positivity
    omega
  rw [hscientific, Float.Model.ofScientific, UnpackedFloat.ofScientific, dif_neg (by omega),
    if_neg (by decide), if_neg hsmall, if_pos le_rfl]
  show Float.ofModel (.pack (roundWithAccuracy Format.binary64 .positive
    (n <<< Format.binary64.mantissaBits * 10 ^ (0 : Int).toNat) (-53) .exact)) = _
  rw [hshift]
  rfl

/-- A smaller one is multiplied by one. -/
theorem ofNat_eq_of_lt {j : Nat} (hn : 0 < n) (hj : n.log2 + j = 52) : Float.ofNat n = .ofModel
    (.pack (roundWithAccuracy Format.binary64 .positive (n * 2 ^ (j + 52)) (-(j + 52 : ℕ))
      .exact)) := by
  have hsmall : n < 2 ^ 53 := (Nat.log2_lt hn.ne').mp (by omega)
  have hproduct : Float.ofNat n = n.toUInt64.toFloat * .ofBits 0x3FF0000000000000 := by
    show Float.ofScientific n false 0 = _
    unfold Float.ofScientific
    rw [dif_pos ⟨hsmall, by decide⟩]
    rfl
  have hone : (Float.ofBits 0x3FF0000000000000).toModel.unpack =
      .finite .positive (2 ^ 52) (-52) (by positivity) := rfl
  have hexponent : -(j : Int) + -52 = -(j + 52 : ℕ) := by omega
  rw [hproduct]
  show Float.ofModel (.pack (UnpackedFloat.mul Format.binary64
    n.toUInt64.toFloat.toModel.unpack _)) = _
  rw [toFloat_eq hn hj, hone]
  show Float.ofModel (.pack (roundWithAccuracy Format.binary64 .positive
    (n * 2 ^ j * 2 ^ 52) (-j + -52) .exact)) = _
  rw [mul_assoc, ← pow_add, hexponent]

theorem packs_shifted {j : Nat} (hn : 0 < n) (hj : 52 ≤ n.log2 + j) :
    Packs (.ofModel (.pack (roundWithAccuracy Format.binary64 .positive (n * 2 ^ j) (-j) .exact)))
      n := by
  have hlog := log2_mul_two_pow hn j
  have hpacks := packs_round (e := -j) (shows_exact (n * 2 ^ j)) (by omega)
  have hvalue : ((n * 2 ^ j : ℕ) * 2 ^ (-j : Int) : ℚ) = n := by
    rw [zpow_neg, zpow_natCast]
    push_cast
    field_simp
  rwa [hvalue] at hpacks

/-- Zero is packed as it is. -/
theorem packs_zero {x : Float} (h : x.toBits.toNat = 0) {v : ℚ} (hv : 0 ≤ v)
    (hsmall : v * 2 ^ 1075 ≤ 1) : Packs x v := by
  refine ⟨0, ?_, h⟩
  have hvalue : v = v * 2 ^ 1074 * 2 ^ (-1074 : Int) := by
    have hpower : (2 : ℚ) ^ (1074 : Int) = 2 ^ 1074 := zpow_natCast 2 1074
    rw [zpow_neg, hpower, mul_inv_cancel_right₀ (by positivity)]
  have hhalf : v * 2 ^ 1074 ≤ 1 / 2 := by
    rw [pow_succ, ← mul_assoc] at hsmall
    generalize v * 2 ^ 1074 = w at hsmall
    linarith
  rw [hvalue]
  exact rounds_zero (by positivity) hhalf

/-- Natural numbers are rounded as they should be. -/
theorem packs_ofNat (n : Nat) : Packs (Float.ofNat n) n := by
  rcases Nat.eq_zero_or_pos n with rfl | hn
  · exact packs_zero rfl (by simp) (by simp)
  · rcases Nat.lt_or_ge n (2 ^ 53) with hsmall | hlarge
    · have hlog : n.log2 < 53 := (Nat.log2_lt hn.ne').mpr hsmall
      obtain ⟨j, hj⟩ := Nat.exists_eq_add_of_le (Nat.le_of_lt_succ hlog)
      rw [ofNat_eq_of_lt hn hj.symm]
      exact packs_shifted hn (by omega)
    · have hlog : 53 ≤ n.log2 := (Nat.le_log2 hn.ne').mpr hlarge
      rw [ofNat_eq_of_le hlarge]
      exact packs_shifted hn (by omega)

/-- Those of 64 bits are not too large for a double. -/
theorem nearest_ofNat (h : n < 2 ^ 64) : Nearest (Float.ofNat n) n := by
  rcases (packs_ofNat n).rounded (Nat.cast_nonneg n) with ⟨-, hnearest⟩ | ⟨hlarge, -⟩
  · exact hnearest
  · have hlt : (n : ℚ) < 2 ^ 64 := by exact_mod_cast h
    have hpow : (2 : ℚ) ^ 1024 = 2 ^ 54 * 2 ^ 970 := by rw [← pow_add]
    have hunit : (2 : ℚ) ^ 64 ≤ 2 ^ 970 := pow_le_pow_right₀ (by norm_num) (by norm_num)
    rw [hpow] at hlarge
    generalize (2 : ℚ) ^ 970 = unit at hlarge hunit
    linarith

end OfNat

/-! ### Decimals -/

section OfScientific

/-- The table holds the powers of ten that doubles have. -/
def holdsPower (k : Nat) : Bool :=
  match (Float.exactlyRepresentablePowersOfTen[k]?).map fun x : Float => x.toModel.unpack with
  | some (.finite .positive m e _) => m * 2 ^ e.toNat = 10 ^ k * 2 ^ (-e).toNat
  | _ => false

theorem unpack_power {k : Nat} (h : k < Float.exactlyRepresentablePowersOfTen.size) :
    ∃ m e hpos, (Float.exactlyRepresentablePowersOfTen[k]).toModel.unpack =
      .finite .positive m e hpos ∧ (m * 2 ^ e : ℚ) = 10 ^ k := by
  have htable : ∀ k < 23, holdsPower k = true := by decide +kernel
  have hholds := htable k h
  unfold holdsPower at hholds
  rw [Array.getElem?_eq_getElem h, Option.map_some] at hholds
  cases hunpack : (Float.exactlyRepresentablePowersOfTen[k]).toModel.unpack with
  | finite sign m e hpos =>
      rw [hunpack] at hholds
      cases sign with
      | positive =>
          refine ⟨m, e, hpos, rfl, ?_⟩
          have hvalue : (m * 2 ^ e.toNat : ℚ) = 10 ^ k * 2 ^ (-e).toNat := by
            exact_mod_cast of_decide_eq_true hholds
          have hexponent : (2 : ℚ) ^ e * 2 ^ (-e).toNat = 2 ^ e.toNat := by
            rw [← zpow_natCast, ← zpow_natCast, ← zpow_add₀ (by norm_num)]
            congr 1
            omega
          rw [← hexponent, ← mul_assoc] at hvalue
          exact mul_right_cancel₀ (by positivity) hvalue
      | negative => cases hholds
  | _ =>
      rw [hunpack] at hholds
      cases hholds

variable {m k : Nat}

/-- A decimal of few digits is the quotient of two doubles. -/
theorem packs_ofScientific_small (hm : m < 2 ^ 53) (hk : k ≤ 22) :
    Packs (Float.ofScientific m true k) (m / 10 ^ k) := by
  have hsize : k < Float.exactlyRepresentablePowersOfTen.size := Nat.lt_succ_of_le hk
  obtain ⟨d, e, hd, hpower, hvalue⟩ := unpack_power hsize
  have hquotient : Float.ofScientific m true k =
      m.toUInt64.toFloat / Float.exactlyRepresentablePowersOfTen[k] := by
    unfold Float.ofScientific
    rw [dif_pos ⟨hm, hk⟩]
    rfl
  rw [hquotient]
  show Packs (.ofModel (.pack (UnpackedFloat.div Format.binary64 m.toUInt64.toFloat.toModel.unpack
    (Float.exactlyRepresentablePowersOfTen[k]).toModel.unpack))) _
  rw [hpower]
  rcases Nat.eq_zero_or_pos m with rfl | hpos
  · exact packs_zero rfl (by simp) (by simp)
  · have hlog : m.log2 < 53 := (Nat.log2_lt hpos.ne').mpr hm
    obtain ⟨j, hj⟩ := Nat.exists_eq_add_of_le (Nat.le_of_lt_succ hlog)
    have hpacks := packs_div (Nat.mul_pos hpos (Nat.two_pow_pos j)) hd (-j) e
    have hexact : ((m * 2 ^ j : ℕ) * 2 ^ (-j : Int) : ℚ) = m := by
      rw [zpow_neg, zpow_natCast]
      push_cast
      field_simp
    rw [hexact, hvalue] at hpacks
    rwa [toFloat_eq hpos hj.symm]

/-- A decimal with more zeros behind the point than a double can have is zero. -/
theorem packs_ofScientific_tiny {x : Float} (hx : x.toBits.toNat = 0)
    (h : 2048 + m.log2 < k) : Packs x (m / 10 ^ k) := by
  refine packs_zero hx (by positivity) ?_
  have hbound : m * 2 ^ 1075 ≤ 10 ^ k :=
    calc m * 2 ^ 1075 ≤ 2 ^ (m.log2 + 1) * 2 ^ 1075 :=
          Nat.mul_le_mul_right _ Nat.lt_log2_self.le
      _ = 2 ^ (m.log2 + 1 + 1075) := (pow_add _ _ _).symm
      _ ≤ 2 ^ k := Nat.pow_le_pow_right Nat.two_pos (by omega)
      _ ≤ 10 ^ k := Nat.pow_le_pow_left (by norm_num) k
  have hcast : (m * 2 ^ 1075 : ℚ) ≤ 10 ^ k := by exact_mod_cast hbound
  rw [div_mul_eq_mul_div, div_le_one (by positivity)]
  exact hcast

/-- Decimals are rounded as they should be. -/
theorem packs_ofScientific (m : Nat) (hk : 0 < k) :
    Packs (Float.ofScientific m true k) (m / 10 ^ k) := by
  by_cases hsmall : m < 2 ^ 53 ∧ k ≤ 22
  · exact packs_ofScientific_small hsmall.1 hsmall.2
  · have hmodel : Float.ofScientific m true k = .ofModel (.ofScientific m (-k)) := by
      unfold Float.ofScientific
      rw [dif_neg hsmall]
      show Float.ofModel (.ofScientific m (Int.negOfNat k)) = _
      rw [Int.negOfNat_eq]
      rfl
    have hwidth : (2 : Int) ^ Format.binary64.exponentBits = 2048 := rfl
    rw [hmodel, Float.Model.ofScientific, UnpackedFloat.ofScientific, hwidth]
    by_cases hzero : m = 0
    · rw [dif_pos hzero, hzero]
      exact packs_zero rfl (by simp) (by simp)
    · rw [dif_neg hzero, if_neg (by omega)]
      by_cases htiny : -(k : Int) < -(2048 + m.log2)
      · rw [if_pos htiny]
        exact packs_ofScientific_tiny rfl (by omega)
      · rw [if_neg htiny, if_neg (by omega)]
        have hpower : (- -(k : Int)).toNat = k := by omega
        have hten : 0 < 10 ^ (- -(k : Int)).toNat := by positivity
        have hvalue : (m / 10 ^ k : ℚ) =
            m * 2 ^ (0 : Int) / ((10 ^ (- -(k : Int)).toNat : ℕ) * 2 ^ (0 : Int)) := by
          rw [hpower, zpow_zero, mul_one, mul_one, Nat.cast_pow, Nat.cast_ofNat]
        rw [hvalue]
        exact packs_div (Nat.pos_of_ne_zero hzero) hten 0 0

end OfScientific

end Double

end BracketScript
