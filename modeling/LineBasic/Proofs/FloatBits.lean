import LineBasic.Proofs.PlainText

/-! The bit patterns of singles and doubles. A pattern whose exponent field is not full denotes a
finite number, and the number has that pattern. -/

namespace LineBasic.Number

open Float.Model Float.Model.UnpackedFloat

section Packing

variable {spec : Float.Model.Format} {b : BitVec spec.numBits}

theorem toBitVec_ofBitVec (v : BitVec 1) : (Sign.ofBitVec v).toBitVec = v := by
  revert v
  decide

/-- A pattern is made up of its three fields. -/
theorem packComponents_unpack (b : BitVec spec.numBits) :
    packComponents spec (Sign.ofBitVec (unpackSign b)) (unpackExponent b) (unpackMantissa b) = b := by
  have hm := spec.hm
  have he := spec.he
  have hsign : unpackSign b = BitVec.cast (by omega)
      (b.extractLsb (spec.mantissaBitsWithoutImplicit + spec.exponentBits)
        (spec.mantissaBitsWithoutImplicit + spec.exponentBits)) := rfl
  rw [packComponents, toBitVec_ofBitVec]
  apply BitVec.eq_of_getLsbD_eq
  intro i hi
  simp only [hsign, unpackExponent, unpackMantissa, BitVec.getLsbD_append, BitVec.getLsbD_cast,
    BitVec.getLsbD_extractLsb]
  split
  · rw [decide_eq_true (by omega), Bool.true_and, Nat.zero_add]
  · split
    · rw [decide_eq_true (by omega), Bool.true_and, Nat.add_sub_cancel' (by omega)]
    · rw [decide_eq_true (by omega), Bool.true_and]
      congr 1
      omega

theorem toNat_implicit {width : Nat} (v : BitVec width) : (1#1 ++ v).toNat = 2 ^ width + v.toNat := by
  rw [BitVec.toNat_append, ← Nat.shiftLeft_add_eq_or_of_lt v.isLt, Nat.shiftLeft_eq]
  simp

theorem ofNat_add_two_pow {width : Nat} (v : BitVec width) :
    BitVec.ofNat width (2 ^ width + v.toNat) = v := by
  apply BitVec.eq_of_toNat_eq
  rw [BitVec.toNat_ofNat, Nat.add_mod_left, Nat.mod_eq_of_lt v.isLt]

/-- With its implicit bit a mantissa is as long as the format has mantissa bits. -/
theorem log2_implicit {width mantissa : Nat} (h : mantissa < 2 ^ width) :
    (2 ^ width + mantissa).log2 = width := by
  have hpos : 2 ^ width + mantissa ≠ 0 := (Nat.add_pos_left (Nat.two_pow_pos width) _).ne'
  refine (Nat.log2_eq_iff hpos).mpr ⟨Nat.le_add_right _ _, ?_⟩
  rw [Nat.pow_succ, Nat.mul_two]
  exact Nat.add_lt_add_left h _

/-- A field is not full if a greater number fits into it. -/
theorem ne_full_iff {width : Nat} {v : BitVec width} : v ≠ -1#_ ↔ v.toNat + 1 < 2 ^ width := by
  have hless := v.isLt
  rw [Ne, BitVec.neg_one_eq_allOnes, ← BitVec.toNat_inj, BitVec.toNat_allOnes]
  omega

/-- Packing restores what was unpacked from a pattern whose exponent field is not full. -/
theorem pack_unpack (hwidth : 1 < spec.exponentBits) (h : unpackExponent b ≠ -1#_) :
    UnpackedFloat.pack spec (UnpackedFloat.unpack spec b) = b := by
  have hfull := ne_full_iff.mp h
  have hfour : 2 ^ 2 ≤ 2 ^ spec.exponentBits := Nat.pow_le_pow_right (by decide) hwidth
  have hmantissa := (unpackMantissa b).isLt
  have hbits : spec.mantissaBits = 1 + spec.mantissaBitsWithoutImplicit := rfl
  unfold UnpackedFloat.unpack
  rw [if_neg h]
  by_cases hzero : unpackExponent b = 0#_
  · rw [if_pos hzero]
    by_cases hnone : unpackMantissa b = 0#_
    · rw [dif_pos hnone]
      have hwhole := packComponents_unpack b
      rw [hzero, hnone] at hwhole
      exact hwhole
    · rw [dif_neg hnone]
      have hpos : (unpackMantissa b).toNat ≠ 0 := by
        intro hzeros
        exact hnone (BitVec.toNat_inj.mp (by simpa using hzeros))
      have hlog : (unpackMantissa b).toNat.log2 + 1 ≠ spec.mantissaBits := by
        have hless := (Nat.log2_lt hpos).mpr hmantissa
        omega
      have hbiased : ((unpackExponent b).toNat -
          ((spec.exponentBias : Int) + spec.mantissaBitsWithoutImplicit) + 1 + spec.exponentBias +
          spec.mantissaBitsWithoutImplicit).toNat = 1 := by
        rw [hzero, BitVec.toNat_zero]
        omega
      unfold UnpackedFloat.pack
      rw [hbiased, if_neg (by omega), if_neg hlog, BitVec.ofNat_toNat, BitVec.setWidth_eq, ← hzero]
      exact packComponents_unpack b
  · rw [if_neg hzero]
    have hlog : (2 ^ spec.mantissaBitsWithoutImplicit + (unpackMantissa b).toNat).log2 + 1 =
        spec.mantissaBits := by
      rw [log2_implicit hmantissa, hbits, Nat.add_comm]
    have hbiased : ((unpackExponent b).toNat -
        ((spec.exponentBias : Int) + spec.mantissaBitsWithoutImplicit) + spec.exponentBias +
        spec.mantissaBitsWithoutImplicit).toNat = (unpackExponent b).toNat := by omega
    unfold UnpackedFloat.pack
    dsimp only
    rw [hbiased, if_neg (by omega), toNat_implicit, if_pos hlog, BitVec.ofNat_toNat,
      BitVec.setWidth_eq, ofNat_add_two_pow]
    exact packComponents_unpack b

/-- The exponent field of a positive pattern below infinity is not full. -/
theorem unpackExponent_ne (h : b.toNat <
    (2 ^ spec.exponentBits - 1) * 2 ^ spec.mantissaBitsWithoutImplicit) :
    unpackExponent b ≠ -1#_ := by
  have he := spec.he
  have hfield : (unpackExponent b).toNat =
      b.toNat / 2 ^ spec.mantissaBitsWithoutImplicit % 2 ^ spec.exponentBits := by
    unfold unpackExponent
    rw [BitVec.toNat_cast, BitVec.extractLsb_toNat, Nat.shiftRight_eq_div_pow]
    congr 2
    omega
  have hless : b.toNat / 2 ^ spec.mantissaBitsWithoutImplicit < 2 ^ spec.exponentBits - 1 :=
    Nat.div_lt_of_lt_mul (by rwa [Nat.mul_comm])
  rw [ne_full_iff, hfield, Nat.mod_eq_of_lt (by omega)]
  omega

theorem isFinite_unpack (h : unpackExponent b ≠ -1#_) :
    (UnpackedFloat.unpack spec b).isFinite = true := by
  unfold UnpackedFloat.unpack
  rw [if_neg h]
  by_cases hzero : unpackExponent b = 0#_
  · rw [if_pos hzero]
    by_cases hnone : unpackMantissa b = 0#_
    · rw [dif_pos hnone]
      rfl
    · rw [dif_neg hnone]
      rfl
  · rw [if_neg hzero]
    rfl

end Packing

theorem field_single {bits : Nat} (h : bits < Format.single.infinityBits) :
    (UInt32.ofNat bits).toBitVec.toNat = bits ∧
      @unpackExponent Float.Model.Format.binary32 (UInt32.ofNat bits).toBitVec ≠ -1#_ := by
  have hbits : (UInt32.ofNat bits).toBitVec.toNat = bits := by
    have hsize : Format.single.infinityBits < 2 ^ 32 := by decide
    exact Nat.mod_eq_of_lt (h.trans hsize)
  refine ⟨hbits, unpackExponent_ne ?_⟩
  rw [hbits]
  exact h

theorem field_double {bits : Nat} (h : bits < Format.double.infinityBits) :
    (UInt64.ofNat bits).toBitVec.toNat = bits ∧
      @unpackExponent Float.Model.Format.binary64 (UInt64.ofNat bits).toBitVec ≠ -1#_ := by
  have hbits : (UInt64.ofNat bits).toBitVec.toNat = bits := by
    have hsize : Format.double.infinityBits < 2 ^ 64 := by decide
    exact Nat.mod_eq_of_lt (h.trans hsize)
  refine ⟨hbits, unpackExponent_ne ?_⟩
  rw [hbits]
  exact h

/-- A pattern below infinity is that of the single it stands for. -/
theorem toBits_ofBits_single {bits : Nat} (h : bits < Format.single.infinityBits) :
    (Float32.ofBits (UInt32.ofNat bits)).toBits.toNat = bits := by
  obtain ⟨hbits, hne⟩ := field_single h
  change (UnpackedFloat.pack Float.Model.Format.binary32
    (UnpackedFloat.unpack Float.Model.Format.binary32 (UInt32.ofNat bits).toBitVec)).toNat = bits
  rw [pack_unpack (by decide) hne, hbits]

/-- A pattern below infinity is that of the double it stands for. -/
theorem toBits_ofBits_double {bits : Nat} (h : bits < Format.double.infinityBits) :
    (Float.ofBits (UInt64.ofNat bits)).toBits.toNat = bits := by
  obtain ⟨hbits, hne⟩ := field_double h
  change (UnpackedFloat.pack Float.Model.Format.binary64
    (UnpackedFloat.unpack Float.Model.Format.binary64 (UInt64.ofNat bits).toBitVec)).toNat = bits
  rw [pack_unpack (by decide) hne, hbits]

/-- Of the patterns up to that of infinity, only infinity's is not finite. -/
theorem isFinite_single_iff {bits : Nat} (h : bits ≤ Format.single.infinityBits) :
    (Float32.ofBits (UInt32.ofNat bits)).isFinite = true ↔ bits < Format.single.infinityBits := by
  constructor
  · intro hfinite
    refine lt_of_le_of_ne h ?_
    rintro rfl
    exact absurd hfinite (by decide)
  · intro hless
    obtain ⟨-, hne⟩ := field_single hless
    change (UnpackedFloat.unpack Float.Model.Format.binary32
      (UnpackedFloat.pack Float.Model.Format.binary32 (UnpackedFloat.unpack
        Float.Model.Format.binary32 (UInt32.ofNat bits).toBitVec))).isFinite = true
    rw [pack_unpack (by decide) hne]
    exact isFinite_unpack hne

theorem isFinite_double_iff {bits : Nat} (h : bits ≤ Format.double.infinityBits) :
    (Float.ofBits (UInt64.ofNat bits)).isFinite = true ↔ bits < Format.double.infinityBits := by
  constructor
  · intro hfinite
    refine lt_of_le_of_ne h ?_
    rintro rfl
    exact absurd hfinite (by decide)
  · intro hless
    obtain ⟨-, hne⟩ := field_double hless
    change (UnpackedFloat.unpack Float.Model.Format.binary64
      (UnpackedFloat.pack Float.Model.Format.binary64 (UnpackedFloat.unpack
        Float.Model.Format.binary64 (UInt64.ofNat bits).toBitVec))).isFinite = true
    rw [pack_unpack (by decide) hne]
    exact isFinite_unpack hne

/-- No decimal has a pattern past that of infinity. -/
theorem toBits_le (f : Format) (d : Decimal) : d.toBits f ≤ f.infinityBits := by
  unfold Decimal.toBits Format.roundQuotient
  split
  · exact Nat.zero_le _
  · split
    · exact le_refl _
    · split
      · exact Nat.zero_le _
      · split
        · exact Nat.zero_le _
        · exact Nat.min_le_left _ _

end LineBasic.Number
