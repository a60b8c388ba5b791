import LineBasic.Number.Decimal
import Mathlib.Algebra.Order.Field.Power
import Mathlib.Algebra.Order.Ring.Rat
import Mathlib.Data.Nat.Digits.Lemmas
import Mathlib.Tactic.FieldSimp
import Mathlib.Tactic.Linarith
import Mathlib.Tactic.Positivity
import Mathlib.Tactic.Ring

/-! Rounding of quotients. A quotient of naturals is a rational number, and the pattern that it rounds
to depends on that number only: every number in the interval of a pattern rounds to the pattern. -/

namespace LineBasic.Number

/-- Scaling the two sides of a quotient by the parts of a power multiplies the quotient by it. -/
theorem scaleUp_div {base : Nat} (hbase : 0 < base) (num den : Nat) (power : Int) :
    (scaleUp base num power : ℚ) / scaleUp base den (-power) = num / den * (base : ℚ) ^ power := by
  have hne : (base : ℚ) ≠ 0 := by positivity
  rcases le_total 0 power with hpower | hpower
  · obtain ⟨n, rfl⟩ := Int.eq_ofNat_of_zero_le hpower
    have hdown : scaleUp base den (-(n : Int)) = den := by
      have hzero : (-(n : Int)).toNat = 0 := by omega
      rw [scaleUp, hzero, Nat.pow_eq, pow_zero, mul_one]
    have hup : scaleUp base num (n : Int) = num * base ^ n := rfl
    rw [hdown, hup, zpow_natCast]
    push_cast
    ring
  · obtain ⟨n, hn⟩ := Int.eq_ofNat_of_zero_le (Int.neg_nonneg_of_nonpos hpower)
    obtain rfl : power = -(n : Int) := by omega
    have hdown : scaleUp base num (-(n : Int)) = num := by
      have hzero : (-(n : Int)).toNat = 0 := by omega
      rw [scaleUp, hzero, Nat.pow_eq, pow_zero, mul_one]
    have hup : scaleUp base den (- -(n : Int)) = den * base ^ n := by
      rw [neg_neg]
      rfl
    rw [hdown, hup, zpow_neg, zpow_natCast]
    push_cast
    field_simp

theorem scaleUp_pos {base n : Nat} (hbase : 0 < base) (hn : 0 < n) (power : Int) :
    0 < scaleUp base n power :=
  Nat.mul_pos hn (Nat.pow_pos hbase)

/-- The integer logarithm of a quotient, from the number of digits of both sides. -/
theorem floorLog_spec {base : Nat} (hbase : 1 < base) {digitCount : Nat → Nat}
    (hcount : ∀ n, 0 < n → base ^ (digitCount n - 1) ≤ n ∧ n < base ^ digitCount n ∧
      0 < digitCount n)
    {num den : Nat} (hnum : 0 < num) (hden : 0 < den) :
    (base : ℚ) ^ floorLog base digitCount num den ≤ num / den ∧
      (num / den : ℚ) < (base : ℚ) ^ (floorLog base digitCount num den + 1) := by
  have hpos : (0 : ℚ) < base := by exact_mod_cast (by omega : 0 < base)
  have hdenQ : (0 : ℚ) < den := by exact_mod_cast hden
  obtain ⟨hnumLow, hnumHigh, hnumCount⟩ := hcount num hnum
  obtain ⟨hdenLow, hdenHigh, hdenCount⟩ := hcount den hden
  let guess : Int := (digitCount num : Int) - digitCount den
  have hlow : (base : ℚ) ^ (guess - 1) ≤ num / den := by
    have hsplit : guess - 1 = ((digitCount num - 1 : Nat) : Int) - (digitCount den : Nat) := by omega
    rw [hsplit, zpow_sub₀ hpos.ne', zpow_natCast, zpow_natCast]
    refine div_le_div₀ (by positivity) (by exact_mod_cast hnumLow) hdenQ ?_
    exact_mod_cast hdenHigh.le
  have hhigh : (num / den : ℚ) < (base : ℚ) ^ (guess + 1) := by
    have hsplit : guess + 1 = (digitCount num : Int) - ((digitCount den - 1 : Nat) : Int) := by omega
    rw [hsplit, zpow_sub₀ hpos.ne', zpow_natCast, zpow_natCast]
    refine div_lt_div₀ (by exact_mod_cast hnumHigh) (by exact_mod_cast hdenLow) (by positivity)
      (by positivity)
  have htest : scaleUp base num (-guess) < scaleUp base den guess ↔
      (num / den : ℚ) < (base : ℚ) ^ guess := by
    have hscaled := scaleUp_div (by omega : 0 < base) num den (-guess)
    rw [neg_neg] at hscaled
    have hup : (0 : ℚ) < scaleUp base den guess := by
      exact_mod_cast scaleUp_pos (by omega) hden guess
    rw [← Nat.cast_lt (α := ℚ), ← div_lt_one hup, hscaled, zpow_neg, ← div_eq_mul_inv,
      div_lt_one (zpow_pos hpos guess)]
  unfold floorLog
  dsimp only
  split
  · rename_i hless
    rw [sub_add_cancel]
    exact ⟨hlow, htest.mp hless⟩
  · rename_i hless
    exact ⟨not_lt.mp fun h => hless (htest.mpr h), hhigh⟩

theorem log2_bounds (n : Nat) (hn : 0 < n) :
    2 ^ (n.log2 + 1 - 1) ≤ n ∧ n < 2 ^ (n.log2 + 1) ∧ 0 < n.log2 + 1 :=
  ⟨Nat.log2_self_le hn.ne', Nat.lt_log2_self, Nat.succ_pos _⟩

theorem decimalLength_bounds (n : Nat) (hn : 0 < n) :
    10 ^ (decimalLength n - 1) ≤ n ∧ n < 10 ^ decimalLength n ∧ 0 < decimalLength n := by
  have hpos : 0 < decimalLength n := Nat.length_toDigits_pos
  refine ⟨?_, (Nat.length_toDigits_le_iff (by decide) hpos).mp (Nat.le_refl _), hpos⟩
  rcases Nat.eq_or_lt_of_le hpos with hone | hlong
  · rw [← hone]
    exact hn
  · by_contra hless
    have hshort := (Nat.length_toDigits_le_iff (by decide) (by omega)).mpr (not_le.mp hless)
    change decimalLength n ≤ _ at hshort
    omega

/-- A quotient rounds to a natural at most half a unit away, where a half needs that to be even. -/
theorem roundDiv_of_le {num den n : Nat} (hden : 0 < den) (hlow : 2 * (n * den) ≤ 2 * num + den)
    (hhigh : 2 * num ≤ 2 * (n * den) + den)
    (htie : 2 * (n * den) = 2 * num + den ∨ 2 * num = 2 * (n * den) + den → n % 2 = 0) :
    roundDiv num den = n := by
  obtain ⟨low, hlowEq⟩ : ∃ low, low = num / den := ⟨_, rfl⟩
  obtain ⟨part, hpart⟩ : ∃ part, part = num % den := ⟨_, rfl⟩
  have hlt : part < den := hpart ▸ Nat.mod_lt num hden
  have hnum : num = low * den + part := by
    rw [hlowEq, hpart, Nat.div_add_mod']
  -- the natural is one of the two neighbours of the quotient
  have hle : n ≤ low + 1 := by
    by_contra hgt
    have hmul : (low + 2) * den ≤ n * den := Nat.mul_le_mul_right den (by omega)
    rw [Nat.add_mul] at hmul
    omega
  have hge : low ≤ n := by
    by_contra hgt
    have hmul : (n + 1) * den ≤ low * den := Nat.mul_le_mul_right den (by omega)
    rw [Nat.add_mul] at hmul
    omega
  unfold roundDiv
  dsimp only
  rw [← hlowEq, ← hpart]
  rcases Nat.lt_or_ge n (low + 1) with hn | hn
  · obtain rfl : n = low := by omega
    have hsmall : 2 * part ≤ den := by omega
    split
    · rfl
    · rw [if_neg (by omega)]
      have heven := htie (.inr (by omega))
      omega
  · obtain rfl : n = low + 1 := by omega
    rw [Nat.add_mul] at hlow htie
    have hlarge : den ≤ 2 * part := by omega
    rw [if_neg (by omega)]
    split
    · rfl
    · have heven := htie (.inl (by omega))
      omega

/-- The same in terms of the quotient itself. -/
theorem roundDiv_eq {num den n : Nat} (hden : 0 < den) (hlow : (n : ℚ) - 1 / 2 ≤ num / den)
    (hhigh : (num / den : ℚ) ≤ n + 1 / 2)
    (htie : (num / den : ℚ) = n - 1 / 2 ∨ (num / den : ℚ) = n + 1 / 2 → n % 2 = 0) :
    roundDiv num den = n := by
  have hdenQ : (0 : ℚ) < den := by exact_mod_cast hden
  rw [le_div_iff₀ hdenQ] at hlow
  rw [div_le_iff₀ hdenQ] at hhigh
  rw [div_eq_iff hdenQ.ne', div_eq_iff hdenQ.ne'] at htie
  refine roundDiv_of_le hden ?_ ?_ ?_
  · have hQ : 2 * (n * den : ℚ) ≤ 2 * num + den := by linarith
    exact_mod_cast hQ
  · have hQ : (2 * num : ℚ) ≤ 2 * (n * den) + den := by linarith
    exact_mod_cast hQ
  · rintro (heq | heq)
    · have hQ : 2 * (n * den : ℚ) = 2 * num + den := by exact_mod_cast heq
      exact htie (.inl (by linarith))
    · have hQ : (2 * num : ℚ) = 2 * (n * den) + den := by exact_mod_cast heq
      exact htie (.inr (by linarith))

/-- Numbers at most half a unit away from so many units, where a half needs their count to be even. -/
structure Near (n : Nat) (unit : Int) (q : ℚ) : Prop where
  low : ((n : ℚ) - 1 / 2) * 2 ^ unit ≤ q
  high : q ≤ (n + 1 / 2) * 2 ^ unit
  tie : q = (n - 1 / 2) * 2 ^ unit ∨ q = (n + 1 / 2) * 2 ^ unit → n % 2 = 0

/-- A quotient that is measured in a unit rounds to the units it is near to. -/
theorem Near.roundDiv_scaleUp {num den n : Nat} {unit : Int} (h : Near n unit (num / den)) (hden : 0 < den) :
    roundDiv (scaleUp 2 num (-unit)) (scaleUp 2 den unit) = n := by
  have hscaled := scaleUp_div (by decide : 0 < 2) num den (-unit)
  have hunit : (0 : ℚ) < 2 ^ unit := by positivity
  rw [neg_neg, zpow_neg, ← div_eq_mul_inv] at hscaled
  push_cast at hscaled
  refine roundDiv_eq (scaleUp_pos (by decide) hden unit) ?_ ?_ ?_
  · rw [hscaled, le_div_iff₀ hunit]
    exact h.low
  · rw [hscaled, div_le_iff₀ hunit]
    exact h.high
  · rw [hscaled, div_eq_iff hunit.ne', div_eq_iff hunit.ne']
    exact h.tie

/-- A number at most a quarter of a unit below so many units is near to twice as many half units. -/
theorem near_halfUnits {n : Nat} {unit : Int} {q : ℚ} (hlow : ((n : ℚ) - 1 / 4) * 2 ^ unit ≤ q)
    (hhigh : q ≤ n * 2 ^ unit) : Near (2 * n) (unit - 1) q := by
  have hhalf : (2 : ℚ) ^ unit = 2 * 2 ^ (unit - 1) := by
    rw [zpow_sub₀ (by norm_num), zpow_one]
    ring
  have hpos : (0 : ℚ) < 2 ^ (unit - 1) := by positivity
  rw [hhalf] at hlow hhigh
  refine ⟨?_, ?_, fun _ => Nat.mul_mod_right 2 n⟩ <;> push_cast <;> linarith

/-- Whether a number lies in the interval of a pattern whose unit is four times two to a power. -/
def Interval.Contains (i : Interval) (power : Int) (q : ℚ) : Prop :=
  (i.low * 2 ^ (power - 2) < q ∨ i.closed = true ∧ i.low * 2 ^ (power - 2) = q) ∧
    (q < i.high * 2 ^ (power - 2) ∨ i.closed = true ∧ q = i.high * 2 ^ (power - 2))

/-- The mantissas and powers of the positive finite numbers of a format. -/
structure Format.Normalized (f : Format) (mantissa : Nat) (power : Int) : Prop where
  pos : 0 < mantissa
  lt : mantissa < 2 * f.leadingBit
  least : f.leastPower ≤ power
  leading : f.leastPower < power → f.leadingBit ≤ mantissa

section Contains

variable {f : Format} {mantissa : Nat} {power : Int} {q : ℚ}

theorem leadingBit_cast (f : Format) : (f.leadingBit : ℚ) = 2 ^ (f.fractionBits : Int) := by
  rw [zpow_natCast]
  exact_mod_cast rfl

theorem leadingBit_mul_unit (f : Format) (unit : Int) :
    (f.leadingBit : ℚ) * 2 ^ unit = 2 ^ (f.fractionBits + unit) := by
  rw [leadingBit_cast, zpow_add₀ (by norm_num)]

theorem quarter_unit (power : Int) : (2 : ℚ) ^ (power - 2) = 2 ^ power / 4 := by
  rw [zpow_sub₀ (by norm_num)]
  norm_num

/-- A number of the interval is at most half a unit away from its value. -/
theorem Interval.Contains.near (h : (f.interval mantissa power).Contains power q)
    (hpos : 0 < mantissa) : Near mantissa power q := by
  have hunit : (0 : ℚ) < 2 ^ power := by positivity
  have hclosed : (f.interval mantissa power).closed = true → mantissa % 2 = 0 := by
    intro hclosed
    simpa [Format.interval] using hclosed
  have hlow : (4 * mantissa - 2 : ℚ) ≤ (f.interval mantissa power).low := by
    have hnat : 4 * mantissa - 2 ≤ (f.interval mantissa power).low := by
      unfold Format.interval
      dsimp only
      split <;> omega
    have hcast : ((4 * mantissa - 2 : Nat) : ℚ) ≤ (f.interval mantissa power).low := by
      exact_mod_cast hnat
    rw [Nat.cast_sub (by omega)] at hcast
    push_cast at hcast
    exact hcast
  have hhigh : ((f.interval mantissa power).high : ℚ) = 4 * mantissa + 2 := by
    simp [Format.interval]
  have hlowUnits : (4 * mantissa - 2 : ℚ) * 2 ^ power ≤ (f.interval mantissa power).low * 2 ^ power :=
    mul_le_mul_of_nonneg_right hlow hunit.le
  obtain ⟨hleft, hright⟩ := h
  rw [quarter_unit] at hleft hright
  rw [hhigh] at hright
  refine ⟨?_, ?_, ?_⟩
  · rcases hleft with hless | ⟨-, heq⟩ <;> linarith
  · rcases hright with hless | ⟨-, heq⟩ <;> linarith
  · rintro (heq | heq)
    · rcases hleft with hless | ⟨htie, -⟩
      · linarith
      · exact hclosed htie
    · rcases hright with hless | ⟨htie, -⟩
      · linarith
      · exact hclosed htie

/-- Below a power of two a number of the interval is at most a quarter of a unit away. -/
theorem Interval.Contains.nearBelow (h : (f.interval f.leadingBit power).Contains power q)
    (hpower : f.leastPower < power) : ((f.leadingBit : ℚ) - 1 / 4) * 2 ^ power ≤ q := by
  have hpos : 0 < f.leadingBit := Nat.pow_pos (by decide)
  have hlow : ((f.interval f.leadingBit power).low : ℚ) = 4 * f.leadingBit - 1 := by
    have hnat : (f.interval f.leadingBit power).low = 4 * f.leadingBit - 1 := by
      unfold Format.interval
      dsimp only
      rw [if_pos ⟨rfl, hpower⟩]
    rw [hnat, Nat.cast_sub (by omega)]
    push_cast
    ring
  have hleft := h.1
  rw [quarter_unit, hlow] at hleft
  rcases hleft with hless | ⟨-, heq⟩ <;> linarith

/-- A number of the interval is at least half a unit. -/
theorem Interval.Contains.half_unit_le (h : (f.interval mantissa power).Contains power q)
    (hpos : 0 < mantissa) : 2 ^ (power - 1) ≤ q := by
  have hunit : (0 : ℚ) ≤ 2 ^ power := by positivity
  have hmantissa : (1 : ℚ) ≤ mantissa := by exact_mod_cast hpos
  calc
    (2 : ℚ) ^ (power - 1) = 1 / 2 * 2 ^ power := by
      rw [zpow_sub₀ (by norm_num), zpow_one]
      ring
    _ ≤ (mantissa - 1 / 2) * 2 ^ power := mul_le_mul_of_nonneg_right (by linarith) hunit
    _ ≤ q := (h.near hpos).low

/-- A number of the interval stays below the next power of two. -/
theorem Interval.Contains.lt_next (h : (f.interval mantissa power).Contains power q)
    (hn : f.Normalized mantissa power) : q < 2 ^ (f.fractionBits + power + 1) := by
  have hunit : (0 : ℚ) < 2 ^ power := by positivity
  have hmantissa : (mantissa : ℚ) + 1 ≤ 2 * f.leadingBit := by exact_mod_cast hn.lt
  calc
    q ≤ (mantissa + 1 / 2) * 2 ^ power := (h.near hn.pos).high
    _ < 2 * f.leadingBit * 2 ^ power := mul_lt_mul_of_pos_right (by linarith) hunit
    _ = 2 ^ (f.fractionBits + power + 1) := by
      rw [mul_assoc, leadingBit_mul_unit, zpow_add_one₀ (by norm_num), mul_comm]

/-- A number of the interval that lies below the least mantissa of its power belongs to a power of two. -/
theorem Interval.Contains.eq_leadingBit (h : (f.interval mantissa power).Contains power q)
    (hn : f.Normalized mantissa power) (hleast : f.leastPower < power)
    (hbelow : q < f.leadingBit * 2 ^ power) : mantissa = f.leadingBit := by
  have hunit : (0 : ℚ) ≤ 2 ^ power := by positivity
  have hless : (mantissa : ℚ) - 1 / 2 < f.leadingBit :=
    lt_of_mul_lt_mul_right (lt_of_le_of_lt (h.near hn.pos).low hbelow) hunit
  have hcast : (mantissa : ℚ) < (f.leadingBit + 1 : Nat) := by
    push_cast
    linarith
  exact Nat.le_antisymm (Nat.lt_succ_iff.mp (by exact_mod_cast hcast)) (hn.leading hleast)

end Contains

/-- **Every number in the interval of a pattern rounds to the pattern.** -/
theorem Format.roundQuotient_of_contains {f : Format} {mantissa : Nat} {power : Int}
    (h : f.Normalized mantissa power) {num den : Nat} (hden : 0 < den)
    (hmem : (f.interval mantissa power).Contains power (num / den)) :
    f.roundQuotient num den =
      min f.infinityBits ((power - f.leastPower).toNat * f.leadingBit + mantissa) := by
  have hnum : 0 < num := by
    have hhalf := hmem.half_unit_le h.pos
    rcases Nat.eq_zero_or_pos num with hzero | hpos
    · rw [hzero, Nat.cast_zero, zero_div] at hhalf
      exact absurd hhalf (not_le.mpr (by positivity))
    · exact hpos
  obtain ⟨hlogLow, hlogHigh⟩ := floorLog_spec (by decide : 1 < 2) log2_bounds hnum hden
  unfold Format.roundQuotient
  rw [if_neg hnum.ne']
  dsimp only
  generalize floorLog 2 (fun n => n.log2 + 1) num den = log at hlogLow hlogHigh
  push_cast at hlogLow hlogHigh
  have hone : (1 : ℚ) < 2 := by norm_num
  have hlog : log ≤ f.fractionBits + power := by
    have hless := (zpow_lt_zpow_iff_right₀ hone).mp (lt_of_le_of_lt hlogLow (hmem.lt_next h))
    omega
  rcases eq_or_lt_of_le (max_le h.least (by omega : log - f.fractionBits ≤ power)) with
    hsame | hless
  · rw [hsame, (hmem.near h.pos).roundDiv_scaleUp hden]
  · -- only a power of two can be rounded up to, with a unit of half the size
    have hleast : f.leastPower < power := lt_of_le_of_lt (le_max_left _ _) hless
    have hlogLess : log + 1 ≤ f.fractionBits + power := by
      have := lt_of_le_of_lt (le_max_right _ _) hless
      omega
    have htop : (num / den : ℚ) < f.leadingBit * 2 ^ power := by
      rw [leadingBit_mul_unit]
      exact lt_of_lt_of_le hlogHigh ((zpow_le_zpow_iff_right₀ hone).mpr hlogLess)
    obtain rfl := hmem.eq_leadingBit h hleast htop
    have hnear : Near (2 * f.leadingBit) (power - 1) (num / den) :=
      near_halfUnits (hmem.nearBelow hleast) htop.le
    have hbottom : (2 : ℚ) ^ (f.fractionBits + (power - 1)) ≤ num / den := by
      have hleading : (1 : ℚ) ≤ f.leadingBit := by exact_mod_cast h.pos
      rw [← leadingBit_mul_unit]
      refine le_trans (mul_le_mul_of_nonneg_right ?_ (by positivity)) hnear.low
      push_cast
      linarith
    have hlogEq : log = f.fractionBits + power - 1 := by
      have hge := (zpow_lt_zpow_iff_right₀ hone).mp (lt_of_le_of_lt hbottom hlogHigh)
      omega
    have hpower : max f.leastPower (log - f.fractionBits) = power - 1 := by omega
    have hsteps : (power - f.leastPower).toNat = (power - 1 - f.leastPower).toNat + 1 := by omega
    rw [hpower, hnear.roundDiv_scaleUp hden, hsteps]
    congr 1
    ring

end LineBasic.Number
