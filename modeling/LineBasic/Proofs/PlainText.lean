import LineBasic.Proofs.Shortest
import Mathlib.Data.List.TakeWhile

/-! The plain text of a number. It is a run of digits with at most one point inside, and it reads back
as the number it was written for. -/

namespace LineBasic.Number

/-- A text of digits, possibly with a point and more digits. -/
structure IsPlain (text whole fraction : List Char) : Prop where
  whole_ne : whole ≠ []
  whole_digits : ∀ c ∈ whole, c.isDigit = true
  fraction_digits : ∀ c ∈ fraction, c.isDigit = true
  text_eq : text = whole ∧ fraction = [] ∨ text = whole ++ '.' :: fraction

/-- The decimal that a plain text stands for. -/
def plainDecimal (whole fraction : List Char) : Decimal :=
  ⟨digitsValue (whole ++ fraction), 0 - fraction.length⟩

theorem digitsValue_toDigits (n : Nat) : digitsValue (Nat.toDigits 10 n) = n :=
  Nat.ofDigitChars_ten_toDigits

theorem digitsValue_append (left right : List Char) :
    digitsValue (left ++ right) = 10 ^ right.length * digitsValue left + digitsValue right := by
  change Nat.ofDigitChars 10 (left ++ right) 0 = _
  rw [Nat.ofDigitChars_append, Nat.ofDigitChars_eq_ofDigitChars_zero]
  rfl

theorem digitsValue_replicate_zero (count : Nat) : digitsValue (List.replicate count '0') = 0 := by
  change Nat.ofDigitChars 10 (List.replicate count '0') 0 = 0
  rw [Nat.ofDigitChars_replicate_zero, Nat.mul_zero]

theorem isDigit_of_mem_toDigits {n : Nat} : ∀ c ∈ Nat.toDigits 10 n, c.isDigit = true :=
  fun _ hc => Nat.isDigit_of_mem_toDigits (by decide) (by decide) hc

theorem isDigit_of_mem_zeros {count : Nat} : ∀ c ∈ List.replicate count '0', c.isDigit = true := by
  intro c hc
  rw [(List.mem_replicate.mp hc).2]
  decide

/-- Zeros at the end of the digits are made up for by the power. -/
theorem plainDecimal_value {d : Decimal} {whole fraction : List Char} (zeros : Nat)
    (hdigits : digitsValue (whole ++ fraction) = 10 ^ zeros * d.digits)
    (hpower : d.power = zeros - fraction.length) :
    (plainDecimal whole fraction).value = d.value := by
  have hscale : (10 : ℚ) ^ d.power = 10 ^ zeros * 10 ^ (0 - fraction.length : Int) := by
    rw [hpower, ← zpow_natCast, ← zpow_add₀ (by norm_num)]
    congr 1
    omega
  unfold plainDecimal Decimal.value
  rw [hdigits, hscale]
  push_cast
  ring

section Positional

variable (d : Decimal)

theorem Decimal.isPlain_belowOne (zeros : Nat)
    (hpower : d.power = -(zeros + (Nat.toDigits 10 d.digits).length : Nat)) :
    let fraction := List.replicate zeros '0' ++ Nat.toDigits 10 d.digits
    IsPlain ('0' :: '.' :: fraction) ['0'] fraction ∧
      (plainDecimal ['0'] fraction).value = d.value := by
  intro fraction
  refine ⟨⟨List.cons_ne_nil _ _, ?_, ?_, .inr rfl⟩, plainDecimal_value 0 ?_ ?_⟩
  · exact fun c hc => List.mem_singleton.mp hc ▸ rfl
  · exact fun c hc => (List.mem_append.mp hc).elim (isDigit_of_mem_zeros c) (isDigit_of_mem_toDigits c)
  · rw [← List.append_assoc, digitsValue_append, digitsValue_toDigits, digitsValue_append,
      digitsValue_replicate_zero]
    simp [digitsValue]
  · rw [List.length_append, List.length_replicate, hpower]
    omega

theorem Decimal.isPlain_wholeNumber (hpower : 0 ≤ d.power) :
    let whole := Nat.toDigits 10 d.digits ++ List.replicate d.power.toNat '0'
    IsPlain whole whole [] ∧ (plainDecimal whole []).value = d.value := by
  intro whole
  refine ⟨⟨List.append_ne_nil_of_left_ne_nil Nat.toDigits_ne_nil _, ?_, List.forall_mem_nil _,
    .inl ⟨rfl, rfl⟩⟩, plainDecimal_value d.power.toNat ?_ ?_⟩
  · exact fun c hc => (List.mem_append.mp hc).elim (isDigit_of_mem_toDigits c) (isDigit_of_mem_zeros c)
  · rw [List.append_nil, digitsValue_append, digitsValue_toDigits, digitsValue_replicate_zero,
      List.length_replicate, Nat.add_zero]
  · rw [List.length_nil, Int.toNat_of_nonneg hpower, Nat.cast_zero, sub_zero]

theorem Decimal.isPlain_cut {cut : Nat} (hcut : 0 < cut)
    (hpower : d.power = cut - (Nat.toDigits 10 d.digits).length)
    (hle : cut ≤ (Nat.toDigits 10 d.digits).length) :
    let whole := (Nat.toDigits 10 d.digits).take cut
    let fraction := (Nat.toDigits 10 d.digits).drop cut
    IsPlain (whole ++ '.' :: fraction) whole fraction ∧
      (plainDecimal whole fraction).value = d.value := by
  intro whole fraction
  refine ⟨⟨?_, ?_, ?_, .inr rfl⟩, plainDecimal_value 0 ?_ ?_⟩
  · rw [← List.length_pos_iff, List.length_take]
    exact lt_min hcut (hcut.trans_le hle)
  · exact fun c hc => isDigit_of_mem_toDigits c (List.mem_of_mem_take hc)
  · exact fun c hc => isDigit_of_mem_toDigits c (List.mem_of_mem_drop hc)
  · rw [List.take_append_drop, digitsValue_toDigits, pow_zero, Nat.one_mul]
  · rw [List.length_drop, hpower]
    omega

/-- The positional text of a decimal stands for the decimal. -/
theorem Decimal.isPlain_positional :
    ∃ whole fraction, IsPlain d.positional.toList whole fraction ∧
      (plainDecimal whole fraction).value = d.value := by
  have hlength : 0 < (Nat.toDigits 10 d.digits).length := Nat.length_toDigits_pos
  unfold positional
  dsimp only
  split
  · simp only [String.toList_append, String.toList_ofList]
    exact ⟨_, _, d.isPlain_belowOne _ (by omega)⟩
  · split
    · rename_i hwhole
      rw [String.toList_ofList]
      exact ⟨_, _, d.isPlain_wholeNumber hwhole⟩
    · simp only [String.toList_append, String.toList_ofList, List.append_assoc]
      refine ⟨_, _, d.isPlain_cut ?_ ?_ ?_⟩ <;> omega

end Positional

section IsPlain

variable {text whole fraction : List Char}

theorem IsPlain.takeWhile (h : IsPlain text whole fraction) : text.takeWhile Char.isDigit = whole := by
  rcases h.text_eq with ⟨rfl, -⟩ | rfl
  · exact List.takeWhile_eq_self_iff.mpr h.whole_digits
  · rw [List.takeWhile_append_of_pos h.whole_digits, List.takeWhile_cons_of_neg (by decide),
      List.append_nil]

theorem IsPlain.dropWhile (h : IsPlain text whole fraction) :
    text.dropWhile Char.isDigit = [] ∧ fraction = [] ∨
      text.dropWhile Char.isDigit = '.' :: fraction := by
  rcases h.text_eq with ⟨rfl, hnil⟩ | rfl
  · exact .inl ⟨List.dropWhile_eq_nil_iff.mpr h.whole_digits, hnil⟩
  · refine .inr ?_
    rw [List.dropWhile_append_of_pos h.whole_digits, List.dropWhile_cons_of_neg (by decide)]

theorem IsPlain.fraction_takeWhile (h : IsPlain text whole fraction) :
    fraction.takeWhile Char.isDigit = fraction ∧ fraction.dropWhile Char.isDigit = [] :=
  ⟨List.takeWhile_eq_self_iff.mpr h.fraction_digits, List.dropWhile_eq_nil_iff.mpr h.fraction_digits⟩

/-- A plain text starts with a digit. -/
theorem IsPlain.head (h : IsPlain text whole fraction) :
    ∃ c rest, text = c :: rest ∧ c.isDigit = true := by
  obtain ⟨c, rest, hwhole⟩ := List.exists_cons_of_ne_nil h.whole_ne
  have hdigit := h.whole_digits c (hwhole ▸ List.mem_cons_self)
  rcases h.text_eq with ⟨rfl, -⟩ | rfl
  · exact ⟨c, rest, hwhole, hdigit⟩
  · exact ⟨c, rest ++ '.' :: fraction, by rw [hwhole, List.cons_append], hdigit⟩

theorem splitSign_of_isDigit {c : Char} {rest : List Char} (h : c.isDigit = true) :
    splitSign (c :: rest) = (false, c :: rest) := by
  unfold splitSign
  split
  · rename_i heq
    cases heq
    cases h
  · rename_i heq
    cases heq
    cases h
  · rfl

/-- A plain text is read as the decimal it stands for. -/
theorem IsPlain.ofText? (h : IsPlain text whole fraction) :
    Written.ofText? text = some ⟨false, plainDecimal whole fraction⟩ := by
  obtain ⟨c, rest, htext, hdigit⟩ := h.head
  have hsign : splitSign text = (false, text) := by
    rw [htext]
    exact splitSign_of_isDigit hdigit
  have hne : whole.isEmpty = false := List.isEmpty_eq_false_iff.mpr h.whole_ne
  unfold Written.ofText?
  rw [hsign]
  dsimp only
  rw [h.takeWhile]
  rcases h.dropWhile with ⟨hdrop, rfl⟩ | hdrop
  · rw [hdrop, hne]
    rfl
  · rw [hdrop]
    change (if whole.isEmpty && (fraction.takeWhile Char.isDigit).isEmpty then none
      else (exponentPart? (fraction.dropWhile Char.isDigit)).map _) = _
    rw [h.fraction_takeWhile.2, hne]
    change some (Written.mk false (plainDecimal whole (fraction.takeWhile Char.isDigit))) = _
    rw [h.fraction_takeWhile.1]

end IsPlain

section Decode

variable {f : Format} {bits : Nat}

/-- What a positive pattern below infinity denotes. -/
theorem Format.decode_of_lt (hbits : bits < f.infinityBits) :
    ∃ mantissa power, f.decode bits = .finite false mantissa power ∧
      f.pattern mantissa power = bits ∧
      (bits = 0 ∧ mantissa = 0 ∨ f.Normalized mantissa power) := by
  have hleading : 0 < f.leadingBit := Nat.pow_pos (by decide)
  have hstored : bits / f.leadingBit < f.topExponent := Nat.div_lt_of_lt_mul (by
    rw [Nat.mul_comm]
    exact hbits)
  have htop : f.topExponent < twoTo f.exponentBits := by
    have hpos : 0 < twoTo f.exponentBits := Nat.pow_pos (by decide)
    unfold Format.topExponent
    omega
  have hsign : bits / f.signBit = 0 := by
    refine Nat.div_eq_of_lt ?_
    have hsignBit : f.signBit = twoTo f.exponentBits * f.leadingBit := by
      unfold Format.signBit Format.leadingBit twoTo
      rw [Nat.pow_eq, Nat.pow_eq, Nat.pow_eq, Nat.mul_comm, ← Nat.pow_add]
    have hmul := Nat.mul_le_mul_right f.leadingBit htop.le
    rw [hsignBit]
    exact lt_of_lt_of_le hbits hmul
  have hfraction : bits % f.leadingBit < f.leadingBit := Nat.mod_lt _ hleading
  have hsplit := Nat.div_add_mod bits f.leadingBit
  unfold Format.decode
  dsimp only
  rw [hsign, Nat.mod_eq_of_lt (hstored.trans htop), if_neg hstored.ne]
  split
  · rename_i hzero
    refine ⟨_, _, rfl, ?_, ?_⟩
    · unfold Format.pattern
      rw [sub_self, Int.toNat_zero, Nat.zero_mul, Nat.zero_add]
      rw [hzero, Nat.mul_zero, Nat.zero_add] at hsplit
      exact hsplit
    · rcases Nat.eq_zero_or_pos (bits % f.leadingBit) with hnone | hpos
      · refine .inl ⟨?_, hnone⟩
        rw [← hsplit, hzero, hnone, Nat.mul_zero]
      · exact .inr ⟨hpos, by omega, le_refl _, fun hless => absurd hless (lt_irrefl _)⟩
  · rename_i hpos
    have hfirst : 1 ≤ bits / f.leadingBit := Nat.pos_of_ne_zero hpos
    refine ⟨_, _, rfl, ?_, .inr ⟨by omega, by omega, ?_, fun _ => Nat.le_add_right _ _⟩⟩
    case refine_2 => exact Int.le_add_of_nonneg_right (Int.natCast_nonneg _)
    unfold Format.pattern
    have hsteps : (f.leastPower + (bits / f.leadingBit - 1 : Nat) - f.leastPower).toNat =
        bits / f.leadingBit - 1 := by omega
    rw [hsteps, ← Nat.add_assoc, ← Nat.succ_mul, Nat.succ_eq_add_one, Nat.sub_add_cancel (by omega),
      Nat.mul_comm]
    exact hsplit

/-- **The plain text of a number reads back as the number.** -/
theorem Format.isPlain_plainText (hf : f.Fits) (hbits : bits < f.infinityBits) :
    ∃ whole fraction, IsPlain (f.plainText (f.decode bits)).toList whole fraction ∧
      (plainDecimal whole fraction).toBits f = bits := by
  obtain ⟨mantissa, power, hdecode, hpattern, hcases⟩ := Format.decode_of_lt hbits
  rw [hdecode]
  unfold Format.plainText
  dsimp only
  rw [if_neg Bool.false_ne_true]
  rcases hcases with ⟨rfl, rfl⟩ | hnormal
  · rw [if_pos rfl]
    refine ⟨['0'], [], ⟨by simp, fun c hc => ?_, by simp, .inl ⟨rfl, rfl⟩⟩, rfl⟩
    rw [List.mem_singleton.mp hc]
    rfl
  · rw [if_neg hnormal.pos.ne']
    obtain ⟨whole, fraction, hplain, hvalue⟩ := (f.shortest mantissa power).isPlain_positional
    refine ⟨whole, fraction, hplain, ?_⟩
    rw [← hpattern] at hbits ⊢
    refine Decimal.toBits_of_contains hf hnormal hbits ?_
    rw [hvalue]
    exact Format.contains_shortest hf hnormal

end Decode

end LineBasic.Number
