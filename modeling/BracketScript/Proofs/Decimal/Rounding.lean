import BracketScript.Decimal.Shortest
import Mathlib.Algebra.Order.Field.Power
import Mathlib.Algebra.Order.Ring.Rat
import Mathlib.Algebra.Field.Rat
import Mathlib.Tactic.FieldSimp
import Mathlib.Tactic.Linarith
import Mathlib.Tactic.Positivity
import Mathlib.Tactic.Ring

/-!
# Shortest decimals read back

Doubles of one sign are ordered like their bit patterns, and the interval of
rationals that round to one ends where that of the next begins
(`Dyadic.high_ofBits`).  An end belongs to the double with the even pattern.  So
a rational rounds to at most one double (`Dyadic.Rounds.unique`).

The shortest decimal of a double rounds to it: the walk over finer and finer grids
meets a point of the interval before it has to stop (`Decimal.refine_rounds`).
Hence doubles with equal shortest decimals have equal magnitudes
(`Decimal.magnitude_eq_of_value_eq`).
-/

namespace BracketScript

namespace Dyadic

/-- The magnitude with the given parts of the bit pattern. -/
def ofParts (biased fraction : Nat) : Dyadic :=
  if biased = 0 then
    ⟨fraction, -1074, false⟩
  else
    ⟨fraction + 2 ^ 52, (biased : Int) - 1075, fraction = 0 && 1 < biased⟩

/-- The magnitude whose bit pattern, without the sign, is `bits`. -/
def ofBits (bits : Nat) : Dyadic :=
  ofParts (bits / 2 ^ 52) (bits % 2 ^ 52)

theorem ofFloat_eq (x : Float) : ofFloat x = ofBits (x.toBits.toNat % 2 ^ 63) :=
  rfl

/-- A quarter of the distance to the double above. -/
def quarter (x : Dyadic) : ℚ :=
  2 ^ (x.exponent - 2)

/-- The magnitude itself. -/
def value (x : Dyadic) : ℚ :=
  (4 * x.mantissa : ℕ) * x.quarter

/-- The end of the rounding interval towards zero. -/
def low (x : Dyadic) : ℚ :=
  (4 * x.mantissa - (if x.atBinade then 1 else 2) : ℕ) * x.quarter

/-- The end of the rounding interval away from zero. -/
def high (x : Dyadic) : ℚ :=
  (4 * x.mantissa + 2 : ℕ) * x.quarter

/-- The rational rounds to the magnitude: ties go to the even mantissa. -/
def Rounds (x : Dyadic) (v : ℚ) : Prop :=
  if x.mantissa % 2 = 0 then x.low ≤ v ∧ v ≤ x.high else x.low < v ∧ v < x.high

theorem quarter_pos (x : Dyadic) : 0 < x.quarter := by
  unfold quarter
  positivity

theorem low_lt_high (x : Dyadic) : x.low < x.high := by
  refine mul_lt_mul_of_pos_right ?_ x.quarter_pos
  exact_mod_cast (by omega : 4 * x.mantissa - _ < 4 * x.mantissa + 2)

theorem low_le_value (x : Dyadic) : x.low ≤ x.value := by
  refine mul_le_mul_of_nonneg_right ?_ x.quarter_pos.le
  exact_mod_cast Nat.sub_le _ _

theorem Rounds.le {x : Dyadic} {v : ℚ} (h : x.Rounds v) : x.low ≤ v ∧ v ≤ x.high := by
  unfold Rounds at h
  split at h
  · exact h
  · exact ⟨h.1.le, h.2.le⟩

theorem Rounds.even {x : Dyadic} {v : ℚ} (h : x.Rounds v) (hend : v = x.low ∨ v = x.high) :
    x.mantissa % 2 = 0 := by
  unfold Rounds at h
  split at h
  · assumption
  · rcases hend with rfl | rfl
    · exact absurd h.1 (lt_irrefl _)
    · exact absurd h.2 (lt_irrefl _)

/-- The second magnitude is the next one above the first.  A power of two is twice
as far from the magnitude above as from the one below. -/
inductive Next (x y : Dyadic) : Prop
  | within (hexponent : y.exponent = x.exponent) (hbinade : y.atBinade = false)
    (hmantissa : y.mantissa = x.mantissa + 1)
  | across (hexponent : y.exponent = x.exponent + 1) (hbinade : y.atBinade = true)
    (hmantissa : 2 * y.mantissa = x.mantissa + 1)

theorem quarter_of_exponent_succ {x y : Dyadic} (h : y.exponent = x.exponent + 1) :
    y.quarter = 2 * x.quarter := by
  unfold quarter
  rw [← zpow_one_add₀ (by norm_num), h]
  congr 1
  ring

/-- Where the interval of a magnitude ends, that of the next one begins. -/
theorem Next.high_eq_low {x y : Dyadic} (h : Next x y) : x.high = y.low := by
  cases h with
  | within hexponent hbinade hmantissa =>
      have hnat : 4 * y.mantissa - 2 = 4 * x.mantissa + 2 := by omega
      simp [high, low, quarter, hexponent, hbinade, hnat]
  | across hexponent hbinade hmantissa =>
      have hnat : 4 * x.mantissa + 2 = (4 * y.mantissa - 1) * 2 := by omega
      simp only [high, low, hbinade, hnat, quarter_of_exponent_succ hexponent, if_true]
      push_cast
      ring

/-- That is half way between the two. -/
theorem Next.high_eq {x y : Dyadic} (h : Next x y) : x.high = (x.value + y.value) / 2 := by
  have hvalue : y.value = (4 * x.mantissa + 4 : ℕ) * x.quarter := by
    cases h with
    | within hexponent _ hmantissa => simp [value, quarter, hexponent, hmantissa, mul_add]
    | across hexponent _ hmantissa =>
        have hnat : 4 * x.mantissa + 4 = 4 * y.mantissa * 2 := by omega
        rw [value, quarter_of_exponent_succ hexponent, hnat]
        push_cast
        ring
  rw [hvalue, high, value]
  push_cast
  ring

/-! ### The intervals of all doubles -/

section OfBits

variable (bits : Nat)

theorem mantissa_ofBits : (ofBits bits).mantissa =
    if bits / 2 ^ 52 = 0 then bits % 2 ^ 52 else bits % 2 ^ 52 + 2 ^ 52 := by
  unfold ofBits ofParts
  split <;> rfl

theorem mantissa_ofBits_lt : (ofBits bits).mantissa < 2 ^ 53 := by
  rw [mantissa_ofBits]
  split <;> omega

theorem mantissa_ofBits_mod : (ofBits bits).mantissa % 2 = bits % 2 := by
  rw [mantissa_ofBits]
  split <;> omega

theorem mantissa_ofBits_eq_zero : (ofBits bits).mantissa = 0 ↔ bits = 0 := by
  rw [mantissa_ofBits]
  split <;> omega

theorem next_ofParts (biased fraction : Nat) :
    Next (ofParts biased fraction) (ofParts biased (fraction + 1)) := by
  by_cases hbiased : biased = 0
  · exact .within (by simp [ofParts, hbiased]) (by simp [ofParts, hbiased])
      (by simp [ofParts, hbiased])
  · refine .within (by simp [ofParts, hbiased]) (by simp [ofParts, hbiased]) ?_
    simp only [ofParts, hbiased, if_false]
    omega

/-- The last double of a binary exponent and the first of the next one. -/
theorem next_ofParts_last (biased : Nat) :
    Next (ofParts biased (2 ^ 52 - 1)) (ofParts (biased + 1) 0) := by
  by_cases hbiased : biased = 0
  · subst hbiased
    exact .within rfl rfl rfl
  · refine .across ?_ ?_ ?_
    · simp only [ofParts, hbiased, if_false, Nat.add_one_ne_zero]
      omega
    · simp [ofParts, Nat.pos_of_ne_zero hbiased]
    · simp [ofParts, hbiased]

/-- The doubles of one sign are ordered like their bit patterns. -/
theorem next_ofBits : Next (ofBits bits) (ofBits (bits + 1)) := by
  unfold ofBits
  by_cases hlast : bits % 2 ^ 52 = 2 ^ 52 - 1
  · have hbiased : (bits + 1) / 2 ^ 52 = bits / 2 ^ 52 + 1 := by omega
    have hfraction : (bits + 1) % 2 ^ 52 = 0 := by omega
    rw [hbiased, hfraction, hlast]
    exact next_ofParts_last _
  · have hbiased : (bits + 1) / 2 ^ 52 = bits / 2 ^ 52 := by omega
    have hfraction : (bits + 1) % 2 ^ 52 = bits % 2 ^ 52 + 1 := by omega
    rw [hbiased, hfraction]
    exact next_ofParts _ _

/-- Where the interval of a double ends, that of the next one begins. -/
theorem high_ofBits : (ofBits bits).high = (ofBits (bits + 1)).low :=
  (next_ofBits bits).high_eq_low

theorem high_ofBits_le {bits bits' : Nat} (h : bits < bits') :
    (ofBits bits).high ≤ (ofBits bits').low := by
  induction bits', h using Nat.le_induction with
  | base => exact (high_ofBits bits).le
  | succ bits' _ ih =>
      calc (ofBits bits).high ≤ (ofBits bits').low := ih
        _ ≤ (ofBits bits').high := (low_lt_high _).le
        _ = (ofBits (bits' + 1)).low := high_ofBits bits'

end OfBits

/-- A rational does not round to two doubles. -/
theorem Rounds.unique {bits bits' : Nat} {v : ℚ} (h : (ofBits bits).Rounds v)
    (h' : (ofBits bits').Rounds v) : bits = bits' := by
  -- The later of two intervals lies behind the earlier one.  They can only have
  -- an end in common, and then their patterns are neighbours, one of them odd.
  have hlater {bits bits' : Nat} (hlt : bits < bits') (h : (ofBits bits).Rounds v)
      (h' : (ofBits bits').Rounds v) : False := by
    have hbehind := high_ofBits_le hlt
    have hhigh : v = (ofBits bits).high := by linarith [h.le.2, h'.le.1]
    have hlow : v = (ofBits bits').low := by linarith [h.le.2, h'.le.1]
    have heven := h.even (Or.inr hhigh)
    have heven' := h'.even (Or.inl hlow)
    rw [mantissa_ofBits_mod] at heven heven'
    obtain hnext | hnext : bits' = bits + 1 ∨ bits + 1 < bits' := by omega
    · omega
    · have hbetween := high_ofBits_le hnext
      have hproper := (ofBits (bits + 1)).low_lt_high
      rw [← high_ofBits] at hproper
      linarith
  rcases Nat.lt_trichotomy bits bits' with hlt | heq | hlt
  · exact absurd h' fun h' => hlater hlt h h'
  · exact heq
  · exact absurd h fun h => hlater hlt h' h

end Dyadic

namespace Decimal

/-- The number that the decimal is. -/
def value (d : Decimal) : ℚ :=
  d.digits * 10 ^ d.exponent

/-! ### Points of a grid -/

/-- A grid shows a magnitude, its interval and the distance of two points in one
unit. -/
theorem exists_unit (x : Dyadic) (e : Int) :
    ∃ unit : ℚ, 0 < unit ∧ (Grid.of x e).low = x.low * unit ∧
      (Grid.of x e).value = x.value * unit ∧ (Grid.of x e).high = x.high * unit ∧
      (Grid.of x e).cell = 10 ^ e * unit := by
  have htwo : (2 : ℚ) ^ (x.exponent - 2) * 2 ^ (-(x.exponent - 2)).toNat =
      2 ^ (x.exponent - 2).toNat := by
    rw [← zpow_natCast, ← zpow_natCast, ← zpow_add₀ (by norm_num)]
    congr 1
    omega
  have hten : (10 : ℚ) ^ e * 10 ^ (-e).toNat = 10 ^ e.toNat := by
    rw [← zpow_natCast, ← zpow_natCast, ← zpow_add₀ (by norm_num)]
    congr 1
    omega
  have hscale : ((2 ^ (x.exponent - 2).toNat * 10 ^ (-e).toNat : ℕ) : ℚ) =
      x.quarter * (2 ^ (-(x.exponent - 2)).toNat * 10 ^ (-e).toNat) := by
    push_cast
    rw [← htwo, Dyadic.quarter]
    ring
  have hmultiple (n : ℕ) : ((n * (2 ^ (x.exponent - 2).toNat * 10 ^ (-e).toNat) : ℕ) : ℚ) =
      n * x.quarter * (2 ^ (-(x.exponent - 2)).toNat * 10 ^ (-e).toNat) := by
    rw [Nat.cast_mul, hscale]
    ring
  refine ⟨2 ^ (-(x.exponent - 2)).toNat * 10 ^ (-e).toNat, by positivity, hmultiple _, hmultiple _,
    hmultiple _, ?_⟩
  show ((2 ^ (-(x.exponent - 2)).toNat * 10 ^ e.toNat : ℕ) : ℚ) = _
  push_cast
  rw [← hten]
  ring

theorem point_eq {g : Grid} {e : Int} {unit : ℚ} (h : g.cell = 10 ^ e * unit) (d : Nat) :
    ((d * g.cell : ℕ) : ℚ) = value ⟨d, e⟩ * unit := by
  rw [Nat.cast_mul, h, value]
  ring

theorem holds_iff (x : Dyadic) (e : Int) (d : Nat) :
    (Grid.of x e).holds d = true ↔ x.Rounds (value ⟨d, e⟩) := by
  obtain ⟨unit, hunit, hlow, -, hhigh, hcell⟩ := exists_unit x e
  have hpoint := point_eq hcell d
  have hle : (Grid.of x e).low ≤ d * (Grid.of x e).cell ↔ x.low ≤ value ⟨d, e⟩ := by
    rw [← @Nat.cast_le ℚ, hpoint, hlow, mul_le_mul_iff_of_pos_right hunit]
  have hge : d * (Grid.of x e).cell ≤ (Grid.of x e).high ↔ value ⟨d, e⟩ ≤ x.high := by
    rw [← @Nat.cast_le ℚ, hpoint, hhigh, mul_le_mul_iff_of_pos_right hunit]
  have hlt : (Grid.of x e).low < d * (Grid.of x e).cell ↔ x.low < value ⟨d, e⟩ := by
    rw [← @Nat.cast_lt ℚ, hpoint, hlow, mul_lt_mul_iff_of_pos_right hunit]
  have hgt : d * (Grid.of x e).cell < (Grid.of x e).high ↔ value ⟨d, e⟩ < x.high := by
    rw [← @Nat.cast_lt ℚ, hpoint, hhigh, mul_lt_mul_iff_of_pos_right hunit]
  have hclosed : (Grid.of x e).closed = decide (x.mantissa % 2 = 0) := rfl
  unfold Grid.holds Dyadic.Rounds
  simp only [hclosed, decide_eq_true_eq]
  split
  · simp [hle, hge]
  · simp [hlt, hgt]

theorem holds_of_pick? {g : Grid} {tie : Tie} {d : Nat} (h : g.pick? tie = some d) :
    g.holds d = true ∧ 0 < d := by
  unfold Grid.pick? at h
  dsimp only at h
  split at h
  · cases h
  · next hfloor _ =>
      cases h
      simpa using hfloor
  · next hceiling =>
      cases h
      exact ⟨hceiling, Nat.succ_pos _⟩
  · next hfloor hceiling =>
      rw [Bool.and_eq_true, decide_eq_true_eq] at hfloor
      split at h
      · cases h
        exact hfloor
      · split at h
        · cases h
          exact ⟨hceiling, Nat.succ_pos _⟩
        · cases tie with
          | up =>
              cases h
              exact ⟨hceiling, Nat.succ_pos _⟩
          | toEven =>
              cases h
              split
              · exact hfloor
              · exact ⟨hceiling, Nat.succ_pos _⟩

theorem exists_pick?_of_holds {g : Grid} (tie : Tie) (h : g.holds (g.value / g.cell + 1) = true) :
    ∃ d, g.pick? tie = some d := by
  unfold Grid.pick?
  dsimp only
  rw [h]
  split
  · contradiction
  · contradiction
  · exact ⟨_, rfl⟩
  · split
    · exact ⟨_, rfl⟩
    · split
      · exact ⟨_, rfl⟩
      · cases tie <;> exact ⟨_, rfl⟩

/-- A grid whose points are closer to each other than the value is to its upper end
has a point to pick. -/
theorem exists_pick? {x : Dyadic} {e : Int} (tie : Tie) (h : 10 ^ e < x.high - x.value) :
    ∃ d, (Grid.of x e).pick? tie = some d := by
  obtain ⟨unit, hunit, -, hvalue, -, hcell⟩ := exists_unit x e
  have hten : (0 : ℚ) < 10 ^ e := by positivity
  have hpositive : 0 < (Grid.of x e).cell := by
    rw [← @Nat.cast_pos ℚ, hcell]
    positivity
  -- The point above the value is less than a cell away from it.
  have habove : (Grid.of x e).value < ((Grid.of x e).value / (Grid.of x e).cell + 1) *
      (Grid.of x e).cell := by
    rw [Nat.add_one_mul]
    exact Nat.lt_div_mul_add hpositive
  have hnear : ((Grid.of x e).value / (Grid.of x e).cell + 1) * (Grid.of x e).cell ≤
      (Grid.of x e).value + (Grid.of x e).cell := by
    rw [Nat.add_one_mul]
    exact Nat.add_le_add_right (Nat.div_mul_le_self _ _) _
  refine exists_pick?_of_holds tie ((holds_iff x e _).mpr ?_)
  generalize (Grid.of x e).value / (Grid.of x e).cell + 1 = d at habove hnear
  have hpoint := point_eq hcell d
  have hlt : x.value < value ⟨d, e⟩ := by
    rwa [← @Nat.cast_lt ℚ, hpoint, hvalue, mul_lt_mul_iff_of_pos_right hunit] at habove
  have hle : value ⟨d, e⟩ ≤ x.value + 10 ^ e := by
    rwa [← @Nat.cast_le ℚ, hpoint, Nat.cast_add, hvalue, hcell, ← add_mul,
      mul_le_mul_iff_of_pos_right hunit] at hnear
  have hlow := x.low_le_value
  unfold Dyadic.Rounds
  split
  · exact ⟨by linarith, by linarith⟩
  · exact ⟨by linarith, by linarith⟩

/-! ### The walk -/

/-- A walk that comes to a grid with close points ends at a decimal that rounds
to the magnitude. -/
theorem refine_rounds {x : Dyadic} (tie : Tie) (steps : Nat) (e : Int)
    (h : 10 ^ (e - steps) < x.high - x.value) :
    x.Rounds (refine x tie (steps + 1) e).value ∧ 0 < (refine x tie (steps + 1) e).digits := by
  induction steps generalizing e with
  | zero =>
      obtain ⟨d, hd⟩ := exists_pick? tie (by simpa using h)
      obtain ⟨hholds, hpositive⟩ := holds_of_pick? hd
      rw [refine, hd]
      exact ⟨(holds_iff x e d).mp hholds, hpositive⟩
  | succ steps ih =>
      rw [refine]
      cases hpick : (Grid.of x e).pick? tie with
      | some d =>
          obtain ⟨hholds, hpositive⟩ := holds_of_pick? hpick
          exact ⟨(holds_iff x e d).mp hholds, hpositive⟩
      | none =>
          refine ih (e - 1) ?_
          have hexponent : e - 1 - (steps : ℤ) = e - (steps + 1 : ℕ) := by
            push_cast
            ring
          rwa [hexponent]

theorem length_repr (n : Nat) : (Nat.repr n).length = (Nat.toDigits 10 n).length := by
  rw [Nat.repr_eq_ofList_toDigits, String.length_ofList]

theorem lt_ten_pow_length_repr (n : Nat) : n < 10 ^ (Nat.repr n).length := by
  rw [length_repr, ← Nat.length_toDigits_le_iff (by decide) Nat.length_toDigits_pos]

theorem ten_pow_length_repr_le {n : Nat} (h : 0 < n) : 10 ^ ((Nat.repr n).length - 1) ≤ n := by
  rw [length_repr]
  rcases Nat.eq_zero_or_pos ((Nat.toDigits 10 n).length - 1) with hzero | hpositive
  · rw [hzero]
    exact h
  · rw [← Nat.not_lt, ← Nat.length_toDigits_le_iff (by decide) hpositive]
    omega

/-- The walk starts at most two places above the leading digit. -/
theorem leadingBound_le {x : Dyadic} (h : x.mantissa ≠ 0) :
    10 ^ (leadingBound x - 2) ≤ x.value := by
  obtain ⟨unit, hunit, -, hvalue, -, hcell⟩ := exists_unit x 0
  rw [zpow_zero, one_mul] at hcell
  have hpositive : 0 < x.value :=
    mul_pos (by exact_mod_cast (by omega : 0 < 4 * x.mantissa)) x.quarter_pos
  have hvalue' : 0 < (Grid.of x 0).value := by
    rw [← @Nat.cast_pos ℚ, hvalue]
    positivity
  have hcell' : 0 < (Grid.of x 0).cell := by
    rw [← @Nat.cast_pos ℚ, hcell]
    exact hunit
  unfold leadingBound
  dsimp only
  generalize (Grid.of x 0).value = value at hvalue hvalue'
  generalize (Grid.of x 0).cell = cell at hcell hcell'
  split
  · next hle =>
      have hquotient : 0 < value / cell := Nat.div_pos hle hcell'
      have hdigits := ten_pow_length_repr_le hquotient
      have hlength : 0 < (Nat.repr (value / cell)).length := by
        rw [length_repr]
        exact Nat.length_toDigits_pos
      generalize (Nat.repr (value / cell)).length = length at hdigits hlength
      have hbelow : ((value / cell : ℕ) : ℚ) ≤ x.value := by
        have hfloor : ((value / cell * cell : ℕ) : ℚ) ≤ value := by
          exact_mod_cast Nat.div_mul_le_self value cell
        rwa [Nat.cast_mul, hvalue, hcell, mul_le_mul_iff_of_pos_right hunit] at hfloor
      calc (10 : ℚ) ^ ((length : ℤ) - 2) ≤ 10 ^ ((length - 1 : ℕ) : ℤ) :=
            zpow_le_zpow_right₀ (by norm_num) (by omega)
        _ = ((10 ^ (length - 1) : ℕ) : ℚ) := by rw [zpow_natCast]; norm_cast
        _ ≤ (value / cell : ℕ) := by exact_mod_cast hdigits
        _ ≤ x.value := hbelow
  · have hdigits := lt_ten_pow_length_repr (cell / value)
    generalize (Nat.repr (cell / value)).length = length at hdigits
    have habove : (cell : ℚ) ≤ value * 10 ^ length := by
      rw [Nat.div_lt_iff_lt_mul hvalue', mul_comm] at hdigits
      exact_mod_cast hdigits.le
    rw [hvalue, hcell, mul_right_comm] at habove
    have hone : 1 ≤ x.value * 10 ^ length := le_of_mul_le_mul_right (by linarith) hunit
    have hexponent : (2 : ℤ) - length - 2 = -(length : ℤ) := by ring
    rw [hexponent, zpow_neg, zpow_natCast]
    exact inv_le_of_inv_le₀ hpositive (by rw [inv_le_iff_one_le_mul₀ hpositive]; linarith)

/-- The shortest decimal of a double other than zero rounds to it. -/
theorem refine_leadingBound_rounds {x : Dyadic} (h : x.mantissa ≠ 0) (hsize : x.mantissa < 2 ^ 53)
    (tie : Tie) :
    x.Rounds (refine x tie 20 (leadingBound x)).value ∧
      0 < (refine x tie 20 (leadingBound x)).digits := by
  -- Seventeen places below the leading digit, points are closer than half the
  -- distance of two doubles.
  refine refine_rounds tie 19 (leadingBound x) ?_
  have hbound := leadingBound_le h
  have hsplit : (10 : ℚ) ^ (leadingBound x - (19 : ℕ)) = 10 ^ (leadingBound x - 2) / 10 ^ 17 := by
    rw [← zpow_natCast, ← zpow_sub₀ (by norm_num)]
    congr 1
    push_cast
    ring
  have hvalue : x.value < 4 * 2 ^ 53 * x.quarter := by
    unfold Dyadic.value
    refine mul_lt_mul_of_pos_right ?_ x.quarter_pos
    exact_mod_cast (by omega : 4 * x.mantissa < 4 * 2 ^ 53)
  have hgap : x.high - x.value = 2 * x.quarter := by
    unfold Dyadic.high Dyadic.value
    push_cast
    ring
  have hquarter := x.quarter_pos
  rw [hsplit, hgap, div_lt_iff₀ (by norm_num)]
  calc 10 ^ (leadingBound x - 2) ≤ x.value := hbound
    _ < 4 * 2 ^ 53 * x.quarter := hvalue
    _ ≤ 2 * x.quarter * 10 ^ 17 := by nlinarith

/-- Doubles whose shortest decimals are the same number have the same magnitude. -/
theorem magnitude_eq_of_value_eq {tie : Tie} {x y : Float}
    (h : (shortest tie x).value = (shortest tie y).value) :
    x.toBits.toNat % 2 ^ 63 = y.toBits.toNat % 2 ^ 63 := by
  have hzero {x : Float} (hx : (Dyadic.ofFloat x).mantissa = 0) :
      (shortest tie x).value = 0 ∧ x.toBits.toNat % 2 ^ 63 = 0 := by
    refine ⟨by simp [shortest, hx, value], ?_⟩
    rwa [Dyadic.ofFloat_eq, Dyadic.mantissa_ofBits_eq_zero] at hx
  have hother {x : Float} (hx : (Dyadic.ofFloat x).mantissa ≠ 0) :
      0 < (shortest tie x).value ∧
        (Dyadic.ofBits (x.toBits.toNat % 2 ^ 63)).Rounds (shortest tie x).value := by
    have hsize : (Dyadic.ofFloat x).mantissa < 2 ^ 53 := Dyadic.mantissa_ofBits_lt _
    obtain ⟨hrounds, hdigits⟩ := refine_leadingBound_rounds hx hsize tie
    simp only [shortest, hx, if_false]
    refine ⟨?_, hrounds⟩
    unfold value
    positivity
  by_cases hx : (Dyadic.ofFloat x).mantissa = 0
  · by_cases hy : (Dyadic.ofFloat y).mantissa = 0
    · rw [(hzero hx).2, (hzero hy).2]
    · have hpositive := (hother hy).1
      rw [← h, (hzero hx).1] at hpositive
      exact absurd hpositive (lt_irrefl _)
  · by_cases hy : (Dyadic.ofFloat y).mantissa = 0
    · have hpositive := (hother hx).1
      rw [h, (hzero hy).1] at hpositive
      exact absurd hpositive (lt_irrefl _)
    · have hrounds := (hother hx).2
      rw [h] at hrounds
      exact hrounds.unique (hother hy).2

end Decimal

end BracketScript
