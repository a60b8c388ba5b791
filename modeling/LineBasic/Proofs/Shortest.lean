import LineBasic.Proofs.Rounding
import Mathlib.Tactic.LinearCombination

/-! Shortest decimals. The decimal that is written for a number lies in the interval of the number, so
it reads back as the number: a decimal is taken from a grid only if it lies there, and the grid of
seventeen digits is so fine that one of the two neighbours of the number does. -/

namespace LineBasic.Number

/-- The number that a decimal stands for. -/
def Decimal.value (d : Decimal) : ℚ := d.digits * 10 ^ d.power

theorem Decimal.value_strip (digits : Nat) (power : Int) :
    (strip digits power).value = digits * 10 ^ power := by
  induction digits, power using strip.induct with
  | case1 digits power hzero ih =>
      have hsplit : (digits : ℚ) = (digits / 10 : Nat) * 10 := by
        exact_mod_cast (Nat.div_mul_cancel (Nat.dvd_of_mod_eq_zero hzero.2)).symm
      rw [strip, dif_pos hzero, ih, zpow_add₀ (by norm_num), zpow_one, hsplit]
      ring
  | case2 digits power hzero =>
      rw [strip, dif_neg hzero]
      rfl

section Grid

/-- The two naturals that the ends of an interval and the points of a grid are multiplied by, so that
they can be compared. -/
theorem grid_ratio (power grid : Int) :
    0 < scaleUp 10 (scaleUp 2 1 (2 - power)) grid ∧
      (scaleUp 10 (scaleUp 2 1 (power - 2)) (-grid) : ℚ) * 10 ^ grid =
        scaleUp 10 (scaleUp 2 1 (2 - power)) grid * 2 ^ (power - 2) := by
  have hneg : 2 - power = -(power - 2) := by ring
  have hpos : 0 < scaleUp 10 (scaleUp 2 1 (2 - power)) grid :=
    scaleUp_pos (by decide) (scaleUp_pos (by decide) (by decide) _) _
  refine ⟨hpos, ?_⟩
  have hposQ : (0 : ℚ) < scaleUp 10 (scaleUp 2 1 (2 - power)) grid := by exact_mod_cast hpos
  have houter := scaleUp_div (by decide : 0 < 10) (scaleUp 2 1 (power - 2))
    (scaleUp 2 1 (2 - power)) (-grid)
  have hinner := scaleUp_div (by decide : 0 < 2) 1 1 (power - 2)
  rw [← hneg, Nat.cast_one, div_one, one_mul] at hinner
  rw [neg_neg, hinner, div_eq_iff hposQ.ne'] at houter
  push_cast at houter
  rw [houter, zpow_neg]
  field_simp

/-- The difference between an end of an interval and a point of a grid, scaled. -/
theorem grid_difference (power grid : Int) (a b : Nat) :
    ((b * scaleUp 10 (scaleUp 2 1 (2 - power)) grid : Nat) -
          (a * scaleUp 10 (scaleUp 2 1 (power - 2)) (-grid) : Nat) : ℚ) * 10 ^ grid =
      (b * 10 ^ grid - a * 2 ^ (power - 2)) * scaleUp 10 (scaleUp 2 1 (2 - power)) grid := by
  push_cast
  linear_combination (-(a : ℚ)) * (grid_ratio power grid).2

theorem mul_unit_lt_iff (power grid : Int) (a b : Nat) :
    a * scaleUp 10 (scaleUp 2 1 (power - 2)) (-grid) <
        b * scaleUp 10 (scaleUp 2 1 (2 - power)) grid ↔
      (a * 2 ^ (power - 2) : ℚ) < b * 10 ^ grid := by
  have hpos : (0 : ℚ) < scaleUp 10 (scaleUp 2 1 (2 - power)) grid := by
    exact_mod_cast (grid_ratio power grid).1
  have hgrid : (0 : ℚ) < 10 ^ grid := by positivity
  rw [← Nat.cast_lt (α := ℚ), ← sub_pos, ← mul_pos_iff_of_pos_right hgrid, grid_difference,
    mul_pos_iff_of_pos_right hpos, sub_pos]

theorem lt_mul_unit_iff (power grid : Int) (a b : Nat) :
    b * scaleUp 10 (scaleUp 2 1 (2 - power)) grid <
        a * scaleUp 10 (scaleUp 2 1 (power - 2)) (-grid) ↔
      (b * 10 ^ grid : ℚ) < a * 2 ^ (power - 2) := by
  have hpos : (0 : ℚ) < scaleUp 10 (scaleUp 2 1 (2 - power)) grid := by
    exact_mod_cast (grid_ratio power grid).1
  have hgrid : (0 : ℚ) < 10 ^ grid := by positivity
  rw [← Nat.cast_lt (α := ℚ), ← sub_pos, ← neg_sub, ← mul_pos_iff_of_pos_right hgrid, neg_mul,
    grid_difference, ← neg_mul, mul_pos_iff_of_pos_right hpos, neg_sub, sub_pos]

theorem mul_unit_eq_iff (power grid : Int) (a b : Nat) :
    a * scaleUp 10 (scaleUp 2 1 (power - 2)) (-grid) =
        b * scaleUp 10 (scaleUp 2 1 (2 - power)) grid ↔
      (a * 2 ^ (power - 2) : ℚ) = b * 10 ^ grid := by
  rw [eq_iff_le_not_lt, eq_iff_le_not_lt, ← not_lt, ← not_lt, lt_mul_unit_iff, mul_unit_lt_iff]

end Grid

section Hits

variable {i : Interval} {power leading : Int} {count : Nat}

/-- Whether the number lies between the ends of its interval. -/
def Interval.Ordered (i : Interval) : Prop := i.low < i.value ∧ i.value < i.high

theorem Format.interval_ordered (f : Format) {mantissa : Nat} (hpos : 0 < mantissa) (power : Int) :
    (f.interval mantissa power).Ordered := by
  unfold Interval.Ordered Format.interval
  dsimp only
  split <;> omega

/-- The grid point at or below the value of an interval. -/
theorem below_bounds (i : Interval) (power grid : Int) :
    ((i.value * scaleUp 10 (scaleUp 2 1 (power - 2)) (-grid) /
          scaleUp 10 (scaleUp 2 1 (2 - power)) grid : Nat) : ℚ) * 10 ^ grid ≤
        i.value * 2 ^ (power - 2) ∧
      (i.value * 2 ^ (power - 2) : ℚ) <
        ((i.value * scaleUp 10 (scaleUp 2 1 (power - 2)) (-grid) /
          scaleUp 10 (scaleUp 2 1 (2 - power)) grid + 1 : Nat) : ℚ) * 10 ^ grid := by
  have hpos := (grid_ratio power grid).1
  constructor
  · rw [← not_lt, ← mul_unit_lt_iff, not_lt]
    exact Nat.div_mul_le_self _ _
  · rw [← mul_unit_lt_iff]
    exact Nat.lt_mul_of_div_lt (Nat.lt_succ_self _) hpos

/-- A decimal that is taken from a grid lies in the interval. -/
theorem Interval.contains_of_onGrid? {d : Decimal} (hi : i.Ordered)
    (h : i.onGrid? power leading count = some d) : i.Contains power d.value := by
  obtain ⟨hbelow, habove⟩ := below_bounds i power (leading - count + 1)
  have hunit : (0 : ℚ) < 2 ^ (power - 2) := by positivity
  have hlow : (i.low * 2 ^ (power - 2) : ℚ) < i.value * 2 ^ (power - 2) :=
    mul_lt_mul_of_pos_right (by exact_mod_cast hi.1) hunit
  have hhigh : (i.value * 2 ^ (power - 2) : ℚ) < i.high * 2 ^ (power - 2) :=
    mul_lt_mul_of_pos_right (by exact_mod_cast hi.2) hunit
  unfold onGrid? at h
  dsimp only at h
  split at h
  · rename_i hhit
    rw [Bool.and_eq_true, Bool.or_eq_true, decide_eq_true_eq, Bool.and_eq_true, beq_iff_eq,
      mul_unit_lt_iff, mul_unit_eq_iff] at hhit
    obtain rfl := Option.some.inj h
    rw [Contains, Decimal.value_strip]
    exact ⟨hhit.1, .inl (lt_of_le_of_lt hbelow hhigh)⟩
  · split at h
    · rename_i hhit
      rw [Bool.or_eq_true, decide_eq_true_eq, Bool.and_eq_true, beq_iff_eq, lt_mul_unit_iff,
        @eq_comm Nat, mul_unit_eq_iff] at hhit
      obtain rfl := Option.some.inj h
      rw [Contains, Decimal.value_strip]
      exact ⟨.inl (hlow.trans habove), hhit.imp_right fun htie => ⟨htie.1, htie.2.symm⟩⟩
    · cases h

/-- From a grid that is finer than the interval is wide a decimal is taken. -/
theorem Interval.isSome_onGrid? (power leading : Int) (count : Nat)
    (h : (i.low * 2 ^ (power - 2) : ℚ) + 10 ^ (leading - count + 1) < i.high * 2 ^ (power - 2)) :
    (i.onGrid? power leading count).isSome := by
  have hchoice : ∀ (lowHit lowNearer highHit : Bool) (below above : Decimal),
      (lowHit || highHit) = true →
      (if lowHit && (lowNearer || !highHit) then some below
        else if highHit then some above else none).isSome := by
    intro lowHit lowNearer highHit below above
    cases lowHit <;> cases lowNearer <;> cases highHit <;> simp
  refine hchoice _ _ _ _ _ ?_
  rw [Bool.or_eq_true, Bool.or_eq_true, Bool.or_eq_true, decide_eq_true_eq, decide_eq_true_eq,
    mul_unit_lt_iff, lt_mul_unit_iff]
  by_contra hmiss
  rw [not_or, not_or, not_or, not_lt, not_lt] at hmiss
  obtain ⟨⟨hlow, -⟩, hhigh, -⟩ := hmiss
  rw [Nat.cast_add, Nat.cast_one, add_mul, one_mul] at hhigh
  linarith

end Hits

section Shortest

variable {f : Format} {mantissa : Nat} {power : Int}

/-- The first decimal digit of a number stands at its leading exponent. -/
theorem leadingExponent_spec (hpos : 0 < mantissa) (power : Int) :
    (10 : ℚ) ^ leadingExponent mantissa power ≤ mantissa * 2 ^ power ∧
      (mantissa * 2 ^ power : ℚ) < 10 ^ (leadingExponent mantissa power + 1) := by
  have hspec := floorLog_spec (by decide : 1 < 10) decimalLength_bounds
    (scaleUp_pos (by decide : 0 < 2) hpos power) (scaleUp_pos (by decide : 0 < 2) Nat.one_pos (-power))
  rw [scaleUp_div (by decide), Nat.cast_one, div_one] at hspec
  push_cast at hspec
  exact hspec

/-- The formats that are not wider than a double. -/
structure Format.Fits (f : Format) : Prop where
  leading : f.leadingBit ≤ 2 ^ 52
  least : -1074 ≤ f.leastPower
  top : f.leastPower + f.topExponent ≤ 1000

/-- Seventeen digits are enough: their grid is finer than the interval is wide. -/
theorem isSome_onGrid?_seventeen (hf : f.Fits) (h : f.Normalized mantissa power) :
    ((f.interval mantissa power).onGrid? power (leadingExponent mantissa power) 17).isSome := by
  refine Interval.isSome_onGrid? _ _ _ ?_
  have hunit : (0 : ℚ) < 2 ^ power := by positivity
  have hgrid : (10 : ℚ) ^ (leadingExponent mantissa power - (17 : Nat) + 1) * 10 ^ 16 ≤
      mantissa * 2 ^ power := by
    have hsplit : leadingExponent mantissa power - (17 : Nat) + 1 =
        leadingExponent mantissa power - (16 : Nat) := by
      push_cast
      ring
    rw [hsplit, zpow_sub₀ (by norm_num), zpow_natCast, div_mul_cancel₀ _ (by norm_num)]
    exact (leadingExponent_spec h.pos power).1
  have hhigh : ((f.interval mantissa power).high : ℚ) = 4 * mantissa + 2 := by
    simp [Format.interval]
  have hfits : (f.leadingBit : ℚ) ≤ 2 ^ 52 := by exact_mod_cast hf.leading
  have hmantissa : (mantissa : ℚ) + 1 ≤ 2 * f.leadingBit := by exact_mod_cast h.lt
  rw [quarter_unit, hhigh]
  generalize (10 : ℚ) ^ (leadingExponent mantissa power - (17 : Nat) + 1) = step at hgrid
  by_cases hnarrow : mantissa = f.leadingBit ∧ f.leastPower < power
  · have hlow : ((f.interval mantissa power).low : ℚ) ≤ 4 * mantissa := by
      have hnat : (f.interval mantissa power).low ≤ 4 * mantissa := by
        unfold Format.interval
        dsimp only
        split <;> omega
      exact_mod_cast hnat
    have hleading : (mantissa : ℚ) ≤ 2 ^ 52 := by
      rw [hnarrow.1]
      exact hfits
    have hproduct : (mantissa : ℚ) * 2 ^ power ≤ 2 ^ 52 * 2 ^ power :=
      mul_le_mul_of_nonneg_right hleading hunit.le
    have hends : ((f.interval mantissa power).low : ℚ) * (2 ^ power / 4) ≤
        4 * mantissa * (2 ^ power / 4) :=
      mul_le_mul_of_nonneg_right hlow (by positivity)
    linarith
  · have hlow : ((f.interval mantissa power).low : ℚ) = 4 * mantissa - 2 := by
      have hnat : (f.interval mantissa power).low = 4 * mantissa - 2 := by
        unfold Format.interval
        dsimp only
        rw [if_neg hnarrow]
      have hpos := h.pos
      rw [hnat, Nat.cast_sub (by omega)]
      push_cast
      ring
    have hproduct : (mantissa : ℚ) * 2 ^ power ≤ 2 ^ 53 * 2 ^ power :=
      mul_le_mul_of_nonneg_right (by linarith) hunit.le
    rw [hlow]
    linarith

/-- **The shortest decimal of a number lies in the interval of the number.** -/
theorem Format.contains_shortest (hf : f.Fits) (h : f.Normalized mantissa power) :
    (f.interval mantissa power).Contains power (f.shortest mantissa power).value := by
  unfold Format.shortest
  dsimp only
  cases hfound : (List.range 17).findSome? fun n =>
      (f.interval mantissa power).onGrid? power (leadingExponent mantissa power) (n + 1) with
  | none =>
      have hnone := List.findSome?_eq_none_iff.mp hfound 16 (by decide)
      have hsome := isSome_onGrid?_seventeen hf h
      rw [hnone] at hsome
      cases hsome
  | some d =>
      obtain ⟨n, -, hn⟩ := List.exists_of_findSome?_eq_some hfound
      exact Interval.contains_of_onGrid? (f.interval_ordered h.pos power) hn

end Shortest

theorem Format.fits_single : Format.single.Fits := by
  constructor <;> decide

theorem Format.fits_double : Format.double.Fits := by
  constructor <;> decide

section Reading

variable {f : Format} {mantissa : Nat} {power : Int}

/-- The bit pattern of a positive number. -/
def Format.pattern (f : Format) (mantissa : Nat) (power : Int) : Nat :=
  (power - f.leastPower).toNat * f.leadingBit + mantissa

/-- The exponent of a decimal says between which powers of ten it lies. -/
theorem Decimal.exponent_spec {d : Decimal} (hd : 0 < d.digits) :
    (10 : ℚ) ^ d.exponent ≤ d.value ∧ d.value < 10 ^ (d.exponent + 1) := by
  obtain ⟨hlow, hhigh, hpos⟩ := decimalLength_bounds d.digits hd
  have hten : (0 : ℚ) < 10 ^ d.power := by positivity
  constructor
  · have hsplit : d.exponent = ((decimalLength d.digits - 1 : Nat) : Int) + d.power := by
      unfold Decimal.exponent
      omega
    rw [hsplit, zpow_add₀ (by norm_num), zpow_natCast]
    exact mul_le_mul_of_nonneg_right (by exact_mod_cast hlow) hten.le
  · have hsplit : d.exponent + 1 = (decimalLength d.digits : Int) + d.power := by
      unfold Decimal.exponent
      omega
    rw [hsplit, zpow_add₀ (by norm_num), zpow_natCast]
    exact mul_lt_mul_of_pos_right (by exact_mod_cast hhigh) hten

theorem two_pow_le_ten_pow : (2 : ℚ) ^ (1200 : Int) ≤ 10 ^ (400 : Int) := by
  calc (2 : ℚ) ^ (1200 : Int) = ((2 : ℚ) ^ (3 : Nat)) ^ (400 : Nat) := by
        rw [← pow_mul]
        rfl
    _ ≤ 10 ^ (400 : Nat) := pow_le_pow_left₀ (by norm_num) (by norm_num) _

/-- No number of a format is far outside the range of a double. -/
theorem Interval.Contains.exponent_bounds {d : Decimal} (hf : f.Fits)
    (h : f.Normalized mantissa power) (hfinite : f.pattern mantissa power < f.infinityBits)
    (hd : 0 < d.digits) (hmem : (f.interval mantissa power).Contains power d.value) :
    -400 ≤ d.exponent ∧ d.exponent ≤ 400 := by
  obtain ⟨hbottom, htop⟩ := Decimal.exponent_spec hd
  have hleast := hf.least.trans h.least
  have hpower : power ≤ 1000 := by
    have hsteps : (power - f.leastPower).toNat < f.topExponent := by
      by_contra hge
      have hmul := Nat.mul_le_mul_right f.leadingBit (not_lt.mp hge)
      unfold Format.pattern Format.infinityBits at hfinite
      omega
    have hbound := hf.top
    have hfrom := h.least
    omega
  have hfraction : f.fractionBits ≤ 52 := (Nat.pow_le_pow_iff_right (by decide)).mp hf.leading
  have htwo : (1 : ℚ) < 2 := by norm_num
  have hone : (1 : ℚ) < 10 := by norm_num
  constructor
  · have hvalue : (10 : ℚ) ^ (-400 : Int) < d.value := by
      calc
        (10 : ℚ) ^ (-400 : Int) ≤ 2 ^ (-1200 : Int) := by
          rw [zpow_neg, zpow_neg]
          exact inv_anti₀ (by positivity) two_pow_le_ten_pow
        _ < 2 ^ (power - 1) := zpow_lt_zpow_right₀ htwo (by omega)
        _ ≤ d.value := hmem.half_unit_le h.pos
    have hless := (zpow_lt_zpow_iff_right₀ hone).mp (hvalue.trans htop)
    omega
  · have hvalue : d.value < (10 : ℚ) ^ (400 : Int) := by
      calc
        d.value < 2 ^ (f.fractionBits + power + 1) := hmem.lt_next h
        _ ≤ 2 ^ (1200 : Int) := zpow_le_zpow_right₀ htwo.le (by omega)
        _ ≤ 10 ^ (400 : Int) := two_pow_le_ten_pow
    have hless := (zpow_lt_zpow_iff_right₀ hone).mp (lt_of_le_of_lt hbottom hvalue)
    omega

/-- **A decimal in the interval of a number reads as the number.** -/
theorem Decimal.toBits_of_contains {d : Decimal} (hf : f.Fits) (h : f.Normalized mantissa power)
    (hfinite : f.pattern mantissa power < f.infinityBits)
    (hmem : (f.interval mantissa power).Contains power d.value) :
    d.toBits f = f.pattern mantissa power := by
  have hd : 0 < d.digits := by
    rcases Nat.eq_zero_or_pos d.digits with hzero | hpos
    · have hhalf := hmem.half_unit_le h.pos
      rw [Decimal.value, hzero, Nat.cast_zero, zero_mul] at hhalf
      exact absurd hhalf (not_le.mpr (by positivity))
    · exact hpos
  obtain ⟨hleast, hmost⟩ := hmem.exponent_bounds hf h hfinite hd
  have hratio := scaleUp_div (by decide : 0 < 10) d.digits 1 d.power
  rw [Nat.cast_one, div_one] at hratio
  push_cast at hratio
  unfold Decimal.toBits
  rw [if_neg hd.ne', if_neg (by omega), if_neg (by omega),
    Format.roundQuotient_of_contains h (scaleUp_pos (by decide) Nat.one_pos _)]
  · exact Nat.min_eq_right hfinite.le
  · rw [hratio]
    exact hmem

end Reading

end LineBasic.Number
