import BracketScript.Proofs.Decimal.Reading

/-!
# The nearest double

`Dyadic.Rounds` says of a magnitude that a rational lies in its rounding interval.
The interval was not chosen freely: its ends are half way to the neighbours, so a
rational that lies in it has no double nearer to it, and if another one is equally
near, then the mantissa is even (`Double.nearest_of_rounds`).

Beyond the largest double there is infinity (`Double.Rounded`).  The intervals go on
there as if there were more doubles, so it is one pattern of bits that says what a
number is rounded to (`Double.Packs`), and there is one double for each number
(`Double.Packs.eq_of_rounded`).
-/

namespace BracketScript

namespace Dyadic

theorem value_lt_high (x : Dyadic) : x.value < x.high := by
  refine mul_lt_mul_of_pos_right ?_ x.quarter_pos
  exact_mod_cast Nat.lt_add_of_pos_right Nat.two_pos

theorem value_nonneg (x : Dyadic) : 0 ≤ x.value :=
  mul_nonneg (Nat.cast_nonneg _) x.quarter_pos.le

theorem value_ofBits_zero : (ofBits 0).value = 0 := by
  simp [value, mantissa_ofBits]

section Order

variable {bits bits' : Nat}

theorem value_ofBits_lt (h : bits < bits') : (ofBits bits).value < (ofBits bits').value :=
  calc (ofBits bits).value < (ofBits bits).high := value_lt_high _
    _ ≤ (ofBits bits').low := high_ofBits_le h
    _ ≤ (ofBits bits').value := low_le_value _

theorem value_ofBits_le (h : bits ≤ bits') : (ofBits bits).value ≤ (ofBits bits').value := by
  rcases Nat.lt_or_eq_of_le h with hlt | rfl
  · exact (value_ofBits_lt hlt).le
  · exact le_rfl

/-- The interval of a double does not reach beyond the middle to one above. -/
theorem high_ofBits_le_middle (h : bits < bits') :
    (ofBits bits).high ≤ ((ofBits bits).value + (ofBits bits').value) / 2 := by
  rw [(next_ofBits bits).high_eq]
  have hnext := value_ofBits_le (Nat.succ_le_of_lt h)
  linarith

/-- Nor does it reach beyond the middle to one below. -/
theorem middle_le_low_ofBits (h : bits' < bits) :
    ((ofBits bits').value + (ofBits bits).value) / 2 ≤ (ofBits bits).low := by
  obtain ⟨before, rfl⟩ := Nat.exists_eq_add_of_lt h
  rw [← high_ofBits, (next_ofBits _).high_eq]
  have hbefore := value_ofBits_le (Nat.le_add_right bits' before)
  linarith

variable {v : ℚ}

/-- Where a rational rounds to, it is at least as near as to any other
magnitude. -/
theorem Rounds.abs_sub_le (h : (ofBits bits).Rounds v) (bits' : Nat) :
    |(ofBits bits).value - v| ≤ |(ofBits bits').value - v| := by
  obtain ⟨hlow, hhigh⟩ := h.le
  rcases Nat.lt_trichotomy bits bits' with hlt | rfl | hlt
  · have habove := value_ofBits_lt hlt
    have hmiddle := high_ofBits_le_middle hlt
    calc |(ofBits bits).value - v| ≤ (ofBits bits').value - v :=
          abs_le.mpr ⟨by linarith, by linarith⟩
      _ ≤ |(ofBits bits').value - v| := le_abs_self _
  · exact le_rfl
  · have hbelow := value_ofBits_lt hlt
    have hmiddle := middle_le_low_ofBits hlt
    calc |(ofBits bits).value - v| ≤ -((ofBits bits').value - v) :=
          abs_le.mpr ⟨by linarith, by linarith⟩
      _ ≤ |(ofBits bits').value - v| := neg_le_abs _

/-- What is equally near to two magnitudes is in the middle. -/
theorem eq_middle_of_tie (hne : (ofBits bits').value ≠ (ofBits bits).value)
    (htie : |(ofBits bits').value - v| = |(ofBits bits).value - v|) :
    v = ((ofBits bits).value + (ofBits bits').value) / 2 := by
  rcases abs_eq_abs.mp htie with hsame | hopposite
  · exact absurd (sub_left_inj.mp hsame) hne
  · linarith

/-- If another magnitude is equally near, then the rational is an end of the
interval. -/
theorem Rounds.even_of_tie (h : (ofBits bits).Rounds v)
    (hne : (ofBits bits').value ≠ (ofBits bits).value)
    (htie : |(ofBits bits').value - v| = |(ofBits bits).value - v|) :
    (ofBits bits).mantissa % 2 = 0 := by
  obtain ⟨hlow, hhigh⟩ := h.le
  have hmiddle := eq_middle_of_tie hne htie
  rcases Nat.lt_trichotomy bits bits' with hlt | rfl | hlt
  · have hend := high_ofBits_le_middle hlt
    exact h.even (Or.inr (le_antisymm hhigh (by linarith)))
  · exact absurd rfl hne
  · have hend := middle_le_low_ofBits hlt
    exact h.even (Or.inl (le_antisymm (by linarith) hlow))

/-- A magnitude that is equally near, and whose mantissa is even as well, is the
same one. -/
theorem Rounds.eq_of_tie (h : (ofBits bits).Rounds v)
    (htie : |(ofBits bits').value - v| = |(ofBits bits).value - v|)
    (heven : (ofBits bits').mantissa % 2 = 0) : bits' = bits := by
  by_contra hbits
  have hne : (ofBits bits').value ≠ (ofBits bits).value := by
    rcases Nat.lt_or_gt_of_ne hbits with hlt | hlt
    · exact (value_ofBits_lt hlt).ne
    · exact (value_ofBits_lt hlt).ne'
  have heven' := h.even_of_tie hne htie
  rw [mantissa_ofBits_mod] at heven heven'
  obtain ⟨hlow, hhigh⟩ := h.le
  have hmiddle := eq_middle_of_tie hne htie
  -- A magnitude between the two would be nearer, so they are neighbours, and one of
  -- their patterns is odd.
  rcases Nat.lt_or_gt_of_ne hbits with hlt | hlt
  · have hnext : bits' + 1 < bits := by omega
    obtain ⟨before, rfl⟩ := Nat.exists_eq_add_of_lt hnext
    have hbetween := value_ofBits_lt (show bits' < bits' + 1 + before by omega)
    have hend := middle_le_low_ofBits (Nat.lt_succ_self (bits' + 1 + before))
    linarith
  · have hnext : bits + 1 < bits' := by omega
    have hbetween := value_ofBits_lt hnext
    have hend := high_ofBits_le_middle (Nat.lt_succ_self bits)
    linarith

/-- The pattern behind that of the largest double, which stands for infinity. -/
def beyond : Nat := 2047 * 2 ^ 52

theorem low_beyond : (ofBits beyond).low = 2 ^ 1024 - 2 ^ 970 := by
  have hparts : ofBits beyond = ⟨2 ^ 52, 972, true⟩ := by decide
  have hpow : (2 : ℚ) ^ 1024 = 2 ^ 54 * 2 ^ 970 := by rw [← pow_add]
  have hquarter : (2 : ℚ) ^ ((972 : Int) - 2) = 2 ^ 970 := zpow_natCast 2 970
  rw [hparts, low, quarter, hquarter, hpow, if_pos rfl]
  generalize (2 : ℚ) ^ 970 = unit
  push_cast
  ring

/-- Where a number is rounded to infinity. -/
theorem Rounds.beyond_le_iff (h : (ofBits bits).Rounds v) :
    beyond ≤ bits ↔ 2 ^ 1024 - 2 ^ 970 ≤ v := by
  rw [← low_beyond]
  constructor
  · intro hle
    rcases Nat.lt_or_eq_of_le hle with hlt | rfl
    · exact ((low_lt_high _).le.trans (high_ofBits_le hlt)).trans h.le.1
    · exact h.le.1
  · intro hle
    by_contra hlt
    have hend := high_ofBits_le (Nat.lt_of_not_le hlt)
    have heq : v = (ofBits bits).high := le_antisymm h.le.2 (hend.trans hle)
    -- The largest double is odd, so this end does not belong to it.
    have heven := h.even (Or.inr heq)
    rw [mantissa_ofBits_mod] at heven
    have hnext : bits + 1 < beyond := by
      have hodd : (beyond - 1) % 2 = 1 := by decide
      have hne : bits ≠ beyond - 1 := by rintro rfl; omega
      omega
    have hbehind := high_ofBits_le hnext
    have hproper := (ofBits (bits + 1)).low_lt_high
    rw [← high_ofBits, ← heq] at hproper
    linarith

end Order

end Dyadic

namespace Double

/-- The number that a finite double is. -/
def value (x : Float) : ℚ :=
  if Decimal.isNegative x then -(Dyadic.ofFloat x).value else (Dyadic.ofFloat x).value

/-- The double is what a number is rounded to: no finite double is nearer, and
where another one is equally near, the mantissa is even.  A zero has the sign of
the number. -/
structure Nearest (x : Float) (v : ℚ) : Prop where
  finite : x.isFinite = true
  sign : Decimal.isNegative x = decide (v < 0)
  nearest (y : Float) (hy : y.isFinite = true) : |value x - v| ≤ |value y - v|
  even (y : Float) (hy : y.isFinite = true) (hne : value y ≠ value x)
    (htie : |value y - v| = |value x - v|) : (Dyadic.ofFloat x).mantissa % 2 = 0

/-- The magnitude of a double is at least as near to a number that is not negative
as the double itself. -/
theorem abs_magnitude_sub_le (y : Float) {v : ℚ} (hv : 0 ≤ v) :
    |(Dyadic.ofFloat y).value - v| ≤ |value y - v| := by
  have hmagnitude := (Dyadic.ofFloat y).value_nonneg
  unfold value
  split
  · calc |(Dyadic.ofFloat y).value - v| ≤ (Dyadic.ofFloat y).value + v :=
          abs_le.mpr ⟨by linarith, by linarith⟩
      _ = -(-(Dyadic.ofFloat y).value - v) := by ring
      _ ≤ |-(Dyadic.ofFloat y).value - v| := neg_le_abs _
  · exact le_rfl

/-- A double without a sign is the nearest one to what rounds to its magnitude. -/
theorem nearest_of_rounds {x : Float} {v : ℚ} (hfinite : x.isFinite = true)
    (hsign : Decimal.isNegative x = false) (hv : 0 ≤ v) (h : (Dyadic.ofFloat x).Rounds v) :
    Nearest x v := by
  have hvalue : value x = (Dyadic.ofFloat x).value := by
    rw [value, hsign]
    rfl
  have hnearest (y : Float) : |value x - v| ≤ |(Dyadic.ofFloat y).value - v| := by
    rw [hvalue]
    exact h.abs_sub_le _
  constructor
  · exact hfinite
  · rw [hsign, eq_comm, decide_eq_false_iff_not]
    exact not_lt.mpr hv
  · exact fun y _ => (hnearest y).trans (abs_magnitude_sub_le y hv)
  · intro y _ hne htie
    by_cases hsame : (Dyadic.ofFloat y).value = (Dyadic.ofFloat x).value
    · -- The other double is this one with the opposite sign.  Being equally near
      -- to it, the number is zero, and then so is this double.
      have hopposite : value y = -value x := by
        rw [hvalue, ← hsame]
        unfold value at hne ⊢
        split
        · rfl
        · next hpositive =>
            rw [hsign] at hne
            simp [hpositive, hsame] at hne
      have hzero : value x = 0 := by
        rcases abs_eq_abs.mp htie with hequal | hequal
        · linarith
        · have hnone : v = 0 := by linarith
          have hclosest : |(Dyadic.ofFloat x).value - v| ≤ |(Dyadic.ofBits 0).value - v| :=
            h.abs_sub_le 0
          rw [hnone, ← hvalue, Dyadic.value_ofBits_zero, sub_zero, sub_zero, abs_zero] at hclosest
          exact abs_nonpos_iff.mp hclosest
      exact absurd (by rw [hopposite, hzero, neg_zero]) hne
    · have hmagnitude : |(Dyadic.ofFloat y).value - v| ≤ |(Dyadic.ofFloat x).value - v| := by
        rw [← hvalue, ← htie]
        exact abs_magnitude_sub_le y hv
      exact h.even_of_tie hsame (le_antisymm hmagnitude (h.abs_sub_le _))

/-! ### Large numbers -/

/-- The double that a number is rounded to which is not negative.  From half a unit
behind the largest double on, that is infinity. -/
def Rounded (x : Float) (v : ℚ) : Prop :=
  v < 2 ^ 1024 - 2 ^ 970 ∧ Nearest x v ∨ 2 ^ 1024 - 2 ^ 970 ≤ v ∧ x = 1 / 0

/-- The double has the pattern of the magnitude that a number is rounded to, as if
there were no largest one, or that of infinity if this comes first. -/
def Packs (x : Float) (v : ℚ) : Prop :=
  ∃ bits, (Dyadic.ofBits bits).Rounds v ∧ x.toBits.toNat = min bits Dyadic.beyond

theorem toBits_infinity : (1 / 0 : Float).toBits.toNat = Dyadic.beyond := by
  decide +kernel

theorem isFinite_of_toBits_lt {x : Float} (h : x.toBits.toNat < Dyadic.beyond) :
    x.isFinite = true := by
  have hexponent : @Float.Model.UnpackedFloat.unpackExponent .binary64 x.toBits.toBitVec ≠
      -1#11 := by
    intro heq
    have hbits := congrArg BitVec.toNat heq
    have hvalue : (@Float.Model.UnpackedFloat.unpackExponent .binary64 x.toBits.toBitVec).toNat =
        x.toBits.toNat / 2 ^ 52 % 2 ^ 11 := by
      rw [Float.Model.UnpackedFloat.unpackExponent, BitVec.toNat_cast, BitVec.extractLsb_toNat,
        Nat.shiftRight_eq_div_pow]
      rfl
    rw [hvalue, show (-1#11).toNat = 2047 from rfl] at hbits
    unfold Dyadic.beyond at h
    omega
  show (Float.Model.UnpackedFloat.unpack .binary64 x.toBits.toBitVec).isFinite = true
  unfold Float.Model.UnpackedFloat.unpack
  dsimp only
  rw [if_neg hexponent]
  by_cases hsmall : @Float.Model.UnpackedFloat.unpackExponent .binary64 x.toBits.toBitVec = 0#11
  · rw [if_pos hsmall]
    by_cases hzero : @Float.Model.UnpackedFloat.unpackMantissa .binary64 x.toBits.toBitVec = 0#52
    · rw [dif_pos hzero]
      rfl
    · rw [dif_neg hzero]
      rfl
  · rw [if_neg hsmall]
    rfl

theorem value_of_positive {x : Float} (h : Decimal.isNegative x = false) :
    value x = (Dyadic.ofBits (x.toBits.toNat % 2 ^ 63)).value := by
  rw [value, h, ← Dyadic.ofFloat_eq]
  rfl

/-- A pattern below that of infinity is one of a finite double without a sign. -/
theorem of_toBits_lt {x : Float} (h : x.toBits.toNat < Dyadic.beyond) :
    x.isFinite = true ∧ Decimal.isNegative x = false ∧
      x.toBits.toNat % 2 ^ 63 = x.toBits.toNat := by
  have hlt : x.toBits.toNat < 2 ^ 63 := Nat.lt_trans h (by decide)
  refine ⟨isFinite_of_toBits_lt h, ?_, Nat.mod_eq_of_lt hlt⟩
  rw [Decimal.isNegative_eq, decide_eq_false_iff_not]
  omega

section Packs

variable {x y : Float} {v : ℚ}

theorem Packs.rounded (h : Packs x v) (hv : 0 ≤ v) : Rounded x v := by
  obtain ⟨bits, hrounds, hbits⟩ := h
  by_cases hlarge : Dyadic.beyond ≤ bits
  · refine Or.inr ⟨hrounds.beyond_le_iff.mp hlarge, ?_⟩
    rw [Nat.min_eq_right hlarge] at hbits
    exact Decimal.toBits_injective (UInt64.toNat_inj.mp (hbits.trans toBits_infinity.symm))
  · have hfits := Nat.lt_of_not_le hlarge
    rw [hrounds.beyond_le_iff, not_le] at hlarge
    rw [Nat.min_eq_left hfits.le] at hbits
    subst hbits
    obtain ⟨hfinite, hsign, hmod⟩ := of_toBits_lt hfits
    refine Or.inl ⟨hlarge, nearest_of_rounds hfinite hsign hv ?_⟩
    rwa [Dyadic.ofFloat_eq, hmod]

/-- The double that is nearest to a number is the one it is rounded to: another one
that is equally near would have an even mantissa as well. -/
theorem Nearest.eq_of_rounds (hy : Nearest y v) (hv : 0 ≤ v) (h : x.toBits.toNat < Dyadic.beyond)
    (hrounds : (Dyadic.ofBits x.toBits.toNat).Rounds v) : y = x := by
  obtain ⟨hfinite, hsign, hmod⟩ := of_toBits_lt h
  have hpositive : Decimal.isNegative y = false := by
    rw [hy.sign, decide_eq_false_iff_not]
    exact not_lt.mpr hv
  have hx : value x = (Dyadic.ofBits x.toBits.toNat).value := by rw [value_of_positive hsign, hmod]
  have hnear := hy.nearest x hfinite
  rw [hx, value_of_positive hpositive] at hnear
  have htie := le_antisymm hnear (hrounds.abs_sub_le _)
  refine Decimal.eq_of_magnitude (hpositive.trans hsign.symm) ?_
  rw [hmod]
  by_contra hne
  refine hne (hrounds.eq_of_tie htie ?_)
  rw [← Dyadic.ofFloat_eq]
  apply hy.even x hfinite <;> rw [hx, value_of_positive hpositive]
  · rcases Nat.lt_or_gt_of_ne hne with hlt | hlt
    · exact (Dyadic.value_ofBits_lt hlt).ne'
    · exact (Dyadic.value_ofBits_lt hlt).ne
  · exact htie.symm

theorem Packs.eq_of_rounded (h : Packs x v) (hv : 0 ≤ v) (hy : Rounded y v) : y = x := by
  obtain ⟨bits, hrounds, hbits⟩ := h
  rcases hy with ⟨hsmall, hnearest⟩ | ⟨hlarge, rfl⟩
  · rw [← not_le, ← hrounds.beyond_le_iff, not_le] at hsmall
    rw [Nat.min_eq_left hsmall.le] at hbits
    subst hbits
    exact hnearest.eq_of_rounds hv hsmall hrounds
  · rw [← hrounds.beyond_le_iff] at hlarge
    rw [Nat.min_eq_right hlarge] at hbits
    exact Decimal.toBits_injective (UInt64.toNat_inj.mp (toBits_infinity.trans hbits.symm))

end Packs

end Double

end BracketScript
