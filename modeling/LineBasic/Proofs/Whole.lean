import LineBasic.Proofs.FloatBits

/-! Whole numbers as doubles. A whole number of at most 53 bits is a double exactly, and such doubles are
ordered as the numbers are. -/

namespace LineBasic.Number

open Float.Model Float.Model.UnpackedFloat

section Rounding

variable {spec : Float.Model.Format} {sign : Sign} {mantissa : Nat} {exponent : Int}

theorem ofBitVec_toBitVec (sign : Sign) : Sign.ofBitVec sign.toBitVec = sign := by
  cases sign <;> rfl

theorem finite_congr {other : Sign} {mantissa' : Nat} {exponent' : Int} {h : 0 < mantissa} {h' : 0 < mantissa'}
    (hsign : sign = other) (hmantissa : mantissa = mantissa') (hexponent : exponent = exponent') :
    UnpackedFloat.finite sign mantissa exponent h = .finite other mantissa' exponent' h' := by
  subst hsign hmantissa hexponent
  rfl

theorem unpackSign_packComponents (sign : Sign) (biased : BitVec spec.exponentBits)
    (fraction : BitVec spec.mantissaBitsWithoutImplicit) :
    unpackSign (packComponents spec sign biased fraction) = sign.toBitVec := by
  have hm := spec.hm
  have he := spec.he
  have hsign : unpackSign (packComponents spec sign biased fraction) = BitVec.cast (by omega)
      ((packComponents spec sign biased fraction).extractLsb
        (spec.mantissaBitsWithoutImplicit + spec.exponentBits)
        (spec.mantissaBitsWithoutImplicit + spec.exponentBits)) := rfl
  rw [hsign]
  apply BitVec.eq_of_getLsbD_eq
  intro i hi
  obtain rfl : i = 0 := by omega
  simp [packComponents, BitVec.getLsbD_append, BitVec.getElem_append]

/-- A normal number is restored from its pattern. -/
theorem unpack_pack (hpos : 0 < mantissa) (hwidth : mantissa.log2 + 1 = spec.mantissaBits)
    (hlow : 0 < exponent + spec.exponentBias + spec.mantissaBitsWithoutImplicit)
    (hhigh : exponent + spec.exponentBias + spec.mantissaBitsWithoutImplicit + 1 < 2 ^ spec.exponentBits) :
    UnpackedFloat.unpack spec (UnpackedFloat.pack spec (.finite sign mantissa exponent hpos)) =
      .finite sign mantissa exponent hpos := by
  generalize hbiased : (exponent + spec.exponentBias + spec.mantissaBitsWithoutImplicit).toNat = biased
  have hcast : (biased : Int) = exponent + spec.exponentBias + spec.mantissaBitsWithoutImplicit := by omega
  have hroom : biased + 1 < 2 ^ spec.exponentBits := by
    rw [← hcast] at hhigh
    exact_mod_cast hhigh
  have hfield : (BitVec.ofNat spec.exponentBits biased).toNat = biased := by
    rw [BitVec.toNat_ofNat, Nat.mod_eq_of_lt (by omega)]
  have hfull : BitVec.ofNat spec.exponentBits biased ≠ -1#_ := by
    rw [ne_full_iff, hfield]
    exact hroom
  have hzero : BitVec.ofNat spec.exponentBits biased ≠ 0#_ := by
    intro heq
    rw [← BitVec.toNat_inj, hfield, BitVec.toNat_zero] at heq
    omega
  have hbits : spec.mantissaBits = 1 + spec.mantissaBitsWithoutImplicit := rfl
  have hlog : mantissa.log2 = spec.mantissaBitsWithoutImplicit := by omega
  obtain ⟨hleast, hless⟩ := (Nat.log2_eq_iff hpos.ne').mp hlog
  have hwhole : (1#1 ++ BitVec.ofNat spec.mantissaBitsWithoutImplicit mantissa).toNat = mantissa := by
    have hmod : mantissa % 2 ^ spec.mantissaBitsWithoutImplicit =
        mantissa - 2 ^ spec.mantissaBitsWithoutImplicit := by
      rw [Nat.mod_eq_sub_mod hleast, Nat.mod_eq_of_lt]
      rw [Nat.pow_succ] at hless
      omega
    rw [toNat_implicit, BitVec.toNat_ofNat, hmod]
    omega
  have hpacked : UnpackedFloat.pack spec (.finite sign mantissa exponent hpos) =
      packComponents spec sign (BitVec.ofNat _ biased) (BitVec.ofNat _ mantissa) := by
    unfold UnpackedFloat.pack
    dsimp only
    rw [hbiased, if_neg (by omega), if_pos hwidth]
  rw [hpacked]
  unfold UnpackedFloat.unpack
  rw [unpackExponent_packComponents, if_neg hfull, if_neg hzero]
  exact finite_congr (by rw [unpackSign_packComponents, ofBitVec_toBitVec])
    (by rw [unpackMantissa_packComponents, hwhole]) (by rw [hfield]; omega)

/-- A mantissa loses nothing if zeros are shifted out. -/
theorem shiftRight_exact (kept shift : Nat) :
    (⟨kept * 2 ^ shift, false, false⟩ : ExtendedMantissa) >>> shift = ⟨kept, false, false⟩ := by
  change Nat.repeat ExtendedMantissa.shiftRightOne shift _ = _
  induction shift generalizing kept with
  | zero => rw [Nat.pow_zero, Nat.mul_one, Nat.repeat]
  | succ shift ih =>
      have hsplit : kept * 2 ^ (shift + 1) = kept * 2 * 2 ^ shift := by rw [Nat.pow_succ]; ring
      rw [Nat.repeat, hsplit, ih (kept * 2)]
      simp [ExtendedMantissa.shiftRightOne]

theorem log2_mul_two_pow {n : Nat} (h : 0 < n) (shift : Nat) : (n * 2 ^ shift).log2 = n.log2 + shift := by
  obtain ⟨hleast, hless⟩ := (Nat.log2_eq_iff h.ne').mp rfl
  refine (Nat.log2_eq_iff (Nat.mul_pos h (Nat.two_pow_pos shift)).ne').mpr ⟨?_, ?_⟩
  · rw [Nat.pow_add]
    exact Nat.mul_le_mul_right _ hleast
  · rw [Nat.add_right_comm, Nat.pow_add]
    exact Nat.mul_lt_mul_of_pos_right hless (Nat.two_pow_pos shift)

/-- Rounding loses nothing if it drops zeros. -/
theorem roundWithAccuracy_exact (sign : Sign) {kept : Nat} (hkept : 0 < kept) (shift : Nat)
    (htarget : spec.targetExponent (totalExponent kept (exponent + shift)) = exponent + shift) :
    roundWithAccuracy spec sign (kept * 2 ^ shift) exponent .exact =
      .finite sign kept (exponent + shift) hkept := by
  have htotal : totalExponent (kept * 2 ^ shift) exponent = totalExponent kept (exponent + shift) := by
    rw [totalExponent, totalExponent, log2_mul_two_pow hkept]
    push_cast
    ring
  have hfirst : shiftToTargetExponent spec (kept * 2 ^ shift) exponent .exact =
      (⟨kept, false, false⟩, exponent + shift) := by
    unfold shiftToTargetExponent shiftToExponent
    rw [htotal, htarget]
    have hamount : (exponent + shift - exponent).toNat = shift := by omega
    dsimp only
    rw [hamount]
    exact Prod.ext (shiftRight_exact kept shift) rfl
  have hsecond : shiftToTargetExponent spec kept (exponent + shift) .exact =
      (⟨kept, false, false⟩, exponent + shift) := by
    unfold shiftToTargetExponent shiftToExponent
    rw [htarget]
    dsimp only
    rw [Int.sub_self]
    exact Prod.ext rfl (Int.add_zero _)
  have hrounded : ExtendedMantissa.roundedMantissa ⟨kept, false, false⟩ = kept := rfl
  unfold roundWithAccuracy
  rw [hfirst]
  dsimp only
  rw [hrounded, hsecond]
  exact dif_neg hkept.ne'

end Rounding

section Whole

variable {m n : Nat}

/-- A whole number with as many zeros added as make it fill the mantissa of a double. -/
def scaled (n : Nat) : Nat := n * 2 ^ (52 - n.log2)

theorem scaled_pos (h : 0 < n) : 0 < scaled n := Nat.mul_pos h (Nat.two_pow_pos _)

/-- A natural number in the form that a double has it in. -/
def ofWhole (n : Nat) : UnpackedFloat :=
  if h : 0 < n then .finite .positive (scaled n) (n.log2 - 52) (scaled_pos h) else .zero .positive

theorem ofWhole_of_pos (h : 0 < n) : ofWhole n = .finite .positive (scaled n) (n.log2 - 52) (scaled_pos h) := dif_pos h

theorem log2_le (hpos : 0 < n) (hless : n < 2 ^ 53) : n.log2 ≤ 52 :=
  Nat.lt_succ_iff.mp ((Nat.log2_lt hpos.ne').mpr hless)

theorem log2_scaled (hpos : 0 < n) (hless : n < 2 ^ 53) : (scaled n).log2 = 52 := by
  have hlog := log2_le hpos hless
  rw [scaled, log2_mul_two_pow hpos]
  omega

/-- The scaled number stands at the exponent that its format wants. -/
theorem targetExponent_scaled (hpos : 0 < n) (hless : n < 2 ^ 53) :
    Float.Model.Format.binary64.targetExponent (totalExponent (scaled n) (n.log2 - 52)) = n.log2 - 52 := by
  have hbits : (Float.Model.Format.binary64.mantissaBits : Int) = 53 := rfl
  have hleast : Float.Model.Format.binary64.minExponent = -1074 := rfl
  rw [Float.Model.Format.targetExponent, totalExponent, log2_scaled hpos hless, hbits, hleast]
  omega

theorem unpack_pack_scaled (hpos : 0 < n) (hless : n < 2 ^ 53) (sign : Sign) :
    UnpackedFloat.unpack .binary64 (UnpackedFloat.pack .binary64
        (.finite sign (scaled n) (n.log2 - 52) (scaled_pos hpos))) =
      .finite sign (scaled n) (n.log2 - 52) (scaled_pos hpos) := by
  have hlog := log2_le hpos hless
  have hbias : (Float.Model.Format.binary64.exponentBias : Int) = 1023 := rfl
  refine unpack_pack (scaled_pos hpos) ?_ ?_ ?_
  · rw [log2_scaled hpos hless]
    rfl
  · rw [hbias]
    dsimp only
    omega
  · rw [hbias]
    dsimp only
    omega

theorem unpack_pack_ofWhole (h : n < 2 ^ 53) :
    UnpackedFloat.unpack .binary64 (UnpackedFloat.pack .binary64 (ofWhole n)) = ofWhole n := by
  rcases Nat.eq_zero_or_pos n with rfl | hpos
  · rfl
  · rw [ofWhole_of_pos hpos]
    exact unpack_pack_scaled hpos h .positive

/-- Conversion of a number that fills at most the mantissa drops nothing. -/
theorem ofInt_eq_ofWhole (h : n < 2 ^ 53) : UnpackedFloat.ofInt .binary64 (n : Int) = ofWhole n := by
  rcases Nat.eq_zero_or_pos n with rfl | hpos
  · rfl
  · have hlog := log2_le hpos h
    have hcompare : compare (n : Int) 0 = .gt := compare_gt_iff_gt.mpr (by omega)
    have htotal : totalExponent n 0 = totalExponent (scaled n) (n.log2 - 52) := by
      rw [totalExponent, totalExponent, log2_scaled hpos h]
      omega
    have hdecrease : decreaseExponent n 0 (n.log2 - 52) = (scaled n, (n.log2 : Int) - 52) := by
      have hamount : (0 - ((n.log2 : Int) - 52)).toNat = 52 - n.log2 := by omega
      unfold decreaseExponent
      rw [hamount]
      dsimp only
      rw [Nat.shiftLeft_eq]
      exact Prod.ext rfl (by dsimp only; omega)
    rw [ofWhole_of_pos hpos]
    unfold UnpackedFloat.ofInt UnpackedFloat.normalize
    rw [hcompare]
    dsimp only
    unfold UnpackedFloat.round
    rw [Int.toNat_natCast, htotal, targetExponent_scaled hpos h]
    dsimp only
    rw [hdecrease]
    have hround := roundWithAccuracy_exact .positive (scaled_pos hpos) 0
      (by simpa using targetExponent_scaled hpos h)
    rw [Nat.pow_zero, Nat.mul_one] at hround
    exact hround.trans (finite_congr rfl rfl (Int.add_zero _))

/-- Multiplication by one rounds to the number itself. -/
theorem mul_one_ofWhole (h : n < 2 ^ 53) (hone : 0 < 2 ^ 52) :
    UnpackedFloat.mul .binary64 (ofWhole n) (.finite .positive (2 ^ 52) (-52) hone) = ofWhole n := by
  rcases Nat.eq_zero_or_pos n with rfl | hpos
  · rfl
  · rw [ofWhole_of_pos hpos]
    change roundWithAccuracy .binary64 .positive (scaled n * 2 ^ 52) (n.log2 - 52 + -52) .exact = _
    have hexponent : (n.log2 : Int) - 52 + -52 + (52 : Nat) = n.log2 - 52 := by omega
    have hround := roundWithAccuracy_exact .positive (scaled_pos hpos) 52 (hexponent ▸ targetExponent_scaled hpos h)
    exact hround.trans (finite_congr rfl rfl hexponent)

/-- A natural number of 53 bits is the double that stands for it. -/
theorem unpack_ofNat (h : n < 2 ^ 53) : (Float.ofNat n).toModel.unpack = ofWhole n := by
  have hone : (Float.ofBits 0x3FF0000000000000).toModel.unpack =
      .finite .positive (2 ^ 52) (-52) (Nat.two_pow_pos 52) := by rfl
  have hnat : n.toUInt64.toNat = n := by
    exact UInt64.toNat_ofNat_of_lt (h.trans (by decide))
  have hfloat : n.toUInt64.toFloat.toModel.unpack = ofWhole n := by
    change UnpackedFloat.unpack .binary64 (UnpackedFloat.pack .binary64
      (UnpackedFloat.ofInt .binary64 (n.toUInt64.toNat : Int))) = _
    rw [hnat, ofInt_eq_ofWhole h, unpack_pack_ofWhole h]
  have hproduct : Float.ofNat n = n.toUInt64.toFloat * Float.ofBits 0x3FF0000000000000 := by
    change Float.ofScientific n false 0 = _
    unfold Float.ofScientific
    rw [dif_pos ⟨h, by decide⟩]
    rfl
  rw [hproduct]
  change UnpackedFloat.unpack .binary64 (UnpackedFloat.pack .binary64 (UnpackedFloat.mul .binary64
    n.toUInt64.toFloat.toModel.unpack (Float.ofBits 0x3FF0000000000000).toModel.unpack)) = _
  rw [hfloat, hone, mul_one_ofWhole h, unpack_pack_ofWhole h]

/-- A whole number in the form that a double has it in. -/
def ofSigned : Int → UnpackedFloat
  | .ofNat n => ofWhole n
  | .negSucc n => (ofWhole (n + 1)).neg

theorem unpack_ofInt {z : Int} (h : z.natAbs < 2 ^ 53) : (Float.ofInt z).toModel.unpack = ofSigned z := by
  cases z with
  | ofNat n => exact unpack_ofNat h
  | negSucc n =>
      have hless : n + 1 < 2 ^ 53 := h
      change UnpackedFloat.unpack .binary64 (UnpackedFloat.pack .binary64
        (Float.ofNat (n + 1)).toModel.unpack.neg) = (ofWhole (n + 1)).neg
      rw [unpack_ofNat hless, ofWhole_of_pos (Nat.succ_pos n)]
      exact unpack_pack_scaled (Nat.succ_pos n) hless .negative

theorem lt_of_log2_lt (hn : 0 < n) (h : m.log2 < n.log2) : m < n :=
  calc m < 2 ^ (m.log2 + 1) := Nat.lt_log2_self
    _ ≤ 2 ^ n.log2 := Nat.pow_le_pow_right (by decide) h
    _ ≤ n := Nat.log2_self_le hn.ne'

/-- Exponents first and then mantissas compare as the numbers do. -/
theorem compare_scaled (hm : 0 < m) (hn : 0 < n) :
    (compare ((m.log2 : Int) - 52) (n.log2 - 52)).then (compare (scaled m) (scaled n)) = compare m n := by
  rcases lt_trichotomy m.log2 n.log2 with hlog | hlog | hlog
  · rw [compare_lt_iff_lt.mpr (by omega : (m.log2 : Int) - 52 < n.log2 - 52),
      compare_lt_iff_lt.mpr (lt_of_log2_lt hn hlog)]
    rfl
  · have hscale : StrictMono fun k : Nat => k * 2 ^ (52 - n.log2) :=
      fun _ _ hless => Nat.mul_lt_mul_of_pos_right hless (Nat.two_pow_pos _)
    rw [compare_eq_iff_eq.mpr (by omega : (m.log2 : Int) - 52 = n.log2 - 52), scaled, scaled, hlog,
      Ordering.then, ← cmp_eq_compare, ← cmp_eq_compare]
    exact hscale.cmp_map_eq m n
  · rw [compare_gt_iff_gt.mpr (by omega : (m.log2 : Int) - 52 > n.log2 - 52),
      compare_gt_iff_gt.mpr (lt_of_log2_lt hm hlog)]
    rfl

theorem compare_natCast (m n : Nat) : compare (m : Int) n = compare m n := by
  rw [← cmp_eq_compare, ← cmp_eq_compare]
  exact (Nat.strictMono_cast (α := Int)).cmp_map_eq m n

theorem ofSigned_of_pos {z : Int} (h : 0 < z) :
    ∃ n : Nat, ∃ hn : 0 < n, z = n ∧ ofSigned z = .finite .positive (scaled n) (n.log2 - 52) (scaled_pos hn) := by
  obtain ⟨n, rfl⟩ := Int.eq_ofNat_of_zero_le h.le
  have hn : 0 < n := by exact_mod_cast h
  exact ⟨n, hn, rfl, ofWhole_of_pos hn⟩

theorem ofSigned_of_neg {z : Int} (h : z < 0) :
    ∃ n : Nat, ∃ hn : 0 < n, z = -(n : Int) ∧
      ofSigned z = .finite .negative (scaled n) (n.log2 - 52) (scaled_pos hn) := by
  obtain ⟨n, rfl⟩ := Int.eq_negSucc_of_lt_zero h
  refine ⟨n + 1, n.succ_pos, rfl, ?_⟩
  rw [ofSigned, ofWhole_of_pos n.succ_pos]
  rfl

/-- **Whole numbers compare as doubles as they do by themselves.** -/
theorem compare_ofSigned (z w : Int) : (ofSigned z).compare (ofSigned w) = some (compare z w) := by
  rcases lt_trichotomy z 0 with hz | rfl | hz
  · obtain ⟨m, hm, rfl, hform⟩ := ofSigned_of_neg hz
    rcases lt_trichotomy w 0 with hw | rfl | hw
    · obtain ⟨n, hn, rfl, hother⟩ := ofSigned_of_neg hw
      have hanti : StrictAnti fun k : Int => -k := fun _ _ hless => neg_lt_neg hless
      have hswap : (compare m n).swap = compare (-(m : Int)) (-(n : Int)) := by
        rw [← compare_natCast, ← cmp_eq_compare, ← cmp_eq_compare, cmp_swap]
        exact (hanti.cmp_map_eq (m : Int) n).symm
      rw [hform, hother, ← hswap, ← compare_scaled hm hn]
      rfl
    · rw [hform, compare_lt_iff_lt.mpr hz]
      rfl
    · obtain ⟨n, hn, rfl, hother⟩ := ofSigned_of_pos hw
      rw [hform, hother, compare_lt_iff_lt.mpr (hz.trans hw)]
      rfl
  · rcases lt_trichotomy w 0 with hw | rfl | hw
    · obtain ⟨n, hn, rfl, hother⟩ := ofSigned_of_neg hw
      rw [hother, compare_gt_iff_gt.mpr hw]
      rfl
    · rfl
    · obtain ⟨n, hn, rfl, hother⟩ := ofSigned_of_pos hw
      rw [hother, compare_lt_iff_lt.mpr hw]
      rfl
  · obtain ⟨m, hm, rfl, hform⟩ := ofSigned_of_pos hz
    rcases lt_trichotomy w 0 with hw | rfl | hw
    · obtain ⟨n, hn, rfl, hother⟩ := ofSigned_of_neg hw
      rw [hform, hother, compare_gt_iff_gt.mpr (hw.trans hz)]
      rfl
    · rw [hform, compare_gt_iff_gt.mpr hz]
      rfl
    · obtain ⟨n, hn, rfl, hother⟩ := ofSigned_of_pos hw
      rw [hform, hother, compare_natCast]
      exact congrArg some (compare_scaled hm hn)

theorem lt_ofInt_iff {z w : Int} (hz : z.natAbs < 2 ^ 53) (hw : w.natAbs < 2 ^ 53) :
    Float.ofInt z < Float.ofInt w ↔ z < w := by
  have hmodel : Float.ofInt z < Float.ofInt w ↔ (Float.ofInt z).toModel < (Float.ofInt w).toModel :=
    decide_eq_true_iff
  rw [hmodel]
  change ((Float.ofInt z).toModel.unpack.compare (Float.ofInt w).toModel.unpack == some .lt) = true ↔ _
  rw [unpack_ofInt hz, unpack_ofInt hw, compare_ofSigned, beq_iff_eq, Option.some_inj]
  exact compare_lt_iff_lt

theorem le_ofInt_iff {z w : Int} (hz : z.natAbs < 2 ^ 53) (hw : w.natAbs < 2 ^ 53) :
    Float.ofInt z ≤ Float.ofInt w ↔ z ≤ w := by
  have hmodel : Float.ofInt z ≤ Float.ofInt w ↔ (Float.ofInt z).toModel ≤ (Float.ofInt w).toModel :=
    decide_eq_true_iff
  rw [hmodel]
  change ((Float.ofInt z).toModel.unpack.compare (Float.ofInt w).toModel.unpack).any (·.isLE) = true ↔ _
  rw [unpack_ofInt hz, unpack_ofInt hw, compare_ofSigned]
  exact Int.isLE_compare

end Whole

end LineBasic.Number
