import LineBasic.Code.Listing
import LineBasic.Code.Literal
import LineBasic.Proofs.FloatBits
import LineBasic.Proofs.Spelling

/-! Numeric constants as they are listed. The listing of an integer, of a single and of a double is one
number token whose value is the number. -/

namespace LineBasic

open Token Number

/-- A single that a constant can stand for: finite and without a sign. -/
def IsSingle (value : Float32) : Prop :=
  ∃ bits, bits < Format.single.infinityBits ∧ value = Float32.ofBits (UInt32.ofNat bits)

/-- A double that a constant can stand for. -/
def IsDouble (value : Float) : Prop :=
  ∃ bits, bits < Format.double.infinityBits ∧ value = Float.ofBits (UInt64.ofNat bits)

section Plain

variable {text whole fraction sigil : List Char}

theorem Number.IsPlain.mem (h : IsPlain text whole fraction) :
    ∀ c ∈ text, c.isDigit = true ∨ c = '.' := by
  intro c hc
  rcases h.text_eq with ⟨rfl, -⟩ | rfl
  · exact .inl (h.whole_digits c hc)
  · rcases List.mem_append.mp hc with hc | hc
    · exact .inl (h.whole_digits c hc)
    · rcases List.mem_cons.mp hc with rfl | hc
      · exact .inr rfl
      · exact .inl (h.fraction_digits c hc)

/-- What tells a digit and a point from the other characters of a constant. -/
theorem plain_char {c : Char} (h : c.isDigit = true ∨ c = '.') :
    isSigil c = false ∧ c.toUpper = c ∧ c ≠ 'D' ∧ c ≠ 'd' ∧ c ≠ 'E' := by
  rcases h with h | rfl
  · rw [Chars.isDigit_iff] at h
    have hup : c.toUpper = c := by rw [Chars.eq_iff, Chars.toNat_toUpper, if_neg (by omega)]
    refine ⟨?_, hup, ?_, ?_, ?_⟩
    · simp only [isSigil, Bool.or_eq_false_iff, beq_eq_false_iff_ne, ne_eq, Chars.eq_iff]
      simp
      omega
    all_goals
      rw [ne_eq, Chars.eq_iff]
      simp
      omega
  · decide

theorem withoutSigil_plain (h : ∀ c ∈ text, c.isDigit = true ∨ c = '.') (hsigil : IsSuffix sigil) :
    Literal.withoutSigil (text ++ sigil) = text := by
  have hend : Text.dropEndWhile (fun c => c == '!' || c == '#' || c == '%') (text ++ sigil) = text := by
    have hsuffix : ∀ c ∈ sigil.reverse, (c == '!' || c == '#' || c == '%') = true := by
      rcases hsigil with rfl | rfl | rfl <;> simp
    have htext : text.reverse.dropWhile (fun c => c == '!' || c == '#' || c == '%') = text.reverse := by
      rw [List.dropWhile_eq_self_iff]
      intro hlength
      have hmem : text.reverse[0] ∈ text := List.mem_reverse.mp (List.getElem_mem hlength)
      have hplain := (plain_char (h _ hmem)).1
      simp only [isSigil, Bool.or_eq_false_iff] at hplain
      rw [hplain.1.2, hplain.2, hplain.1.1.2]
      exact Bool.false_ne_true
    rw [Text.dropEndWhile, List.reverse_append, List.dropWhile_append_of_pos hsuffix, htext,
      List.reverse_reverse]
  rw [Literal.withoutSigil, hend]
  refine (List.map_congr_left fun c hc => ?_).trans (List.map_id text)
  obtain ⟨-, -, hD, hd, -⟩ := plain_char (h c hc)
  simp [hD, hd]

theorem numberKind_sigil (h : IsPlain text whole fraction) :
    numberKind (text ++ ['!']) = .float ∧ numberKind (text ++ ['#']) = .double := by
  obtain ⟨c, rest, htext, hdigit⟩ := h.head
  have hany : text.any Char.isDigit = true := by
    rw [htext, List.any_cons, hdigit, Bool.true_or]
  unfold numberKind
  simp [hany]

/-- A plain text without a sigil is told apart by its point and its size alone. -/
theorem numberKind_plain (h : IsPlain text whole fraction) :
    numberKind text =
      if text.contains '.' then .fixed
      else if (int16? text).isSome then .int
      else if (text.dropWhile (· == '0')).length > 7 then .double
      else .fixed := by
  obtain ⟨c, rest, htext, hdigit⟩ := h.head
  have hany : text.any Char.isDigit = true := by
    rw [htext, List.any_cons, hdigit, Bool.true_or]
  have hlast : ∀ d, isSigil d = true → text.getLast? ≠ some d := by
    intro d hd hget
    have hplain := (plain_char (h.mem d (List.mem_of_getLast? hget))).1
    rw [hd] at hplain
    cases hplain
  have hletter : ∀ d, (d = 'D' ∨ d = 'E') → (text.any fun c => c.toUpper == d) = false := by
    intro d hd
    rw [List.any_eq_false]
    intro e he
    obtain ⟨-, hup, hD, -, hE⟩ := plain_char (h.mem e he)
    rw [hup, beq_iff_eq]
    rintro rfl
    rcases hd with rfl | rfl
    · exact hD rfl
    · exact hE rfl
  unfold numberKind
  rw [hany, if_neg (by simp), if_neg (hlast '%' rfl), if_neg (hlast '!' rfl), if_neg (hlast '#' rfl),
    hletter 'D' (.inl rfl), hletter 'E' (.inr rfl), if_neg Bool.false_ne_true, if_neg Bool.false_ne_true]

end Plain

section Float

/-- The plain text of a single reads back as the single. -/
theorem plain_single {value : Float32} (h : IsSingle value) :
    ∃ whole fraction, IsPlain (plainSingle value).toList whole fraction ∧
      Literal.single (plainSingle value).toList = .ok (.single value) := by
  obtain ⟨bits, hbits, rfl⟩ := h
  obtain ⟨whole, fraction, hplain, hvalue⟩ := Format.isPlain_plainText Format.fits_single hbits
  have htext : plainSingle (Float32.ofBits (UInt32.ofNat bits)) =
      Format.single.plainText (Format.single.decode bits) := by
    rw [plainSingle, ofSingle, toBits_ofBits_single hbits]
  rw [htext]
  refine ⟨whole, fraction, hplain, ?_⟩
  have hsingle : Written.toSingle ⟨false, plainDecimal whole fraction⟩ =
      Float32.ofBits (UInt32.ofNat bits) := by
    rw [Written.toSingle, hvalue]
    rfl
  rw [Literal.single, hplain.ofText?]
  dsimp only
  rw [hsingle, if_pos ((isFinite_single_iff hbits.le).mpr hbits)]
  rfl

/-- The plain text of a double reads back as the double. -/
theorem plain_double {value : Float} (h : IsDouble value) :
    ∃ whole fraction, IsPlain (plainDouble value).toList whole fraction ∧
      Literal.double (plainDouble value).toList = .ok (.double value) := by
  obtain ⟨bits, hbits, rfl⟩ := h
  obtain ⟨whole, fraction, hplain, hvalue⟩ := Format.isPlain_plainText Format.fits_double hbits
  have htext : plainDouble (Float.ofBits (UInt64.ofNat bits)) =
      Format.double.plainText (Format.double.decode bits) := by
    rw [plainDouble, ofDouble, toBits_ofBits_double hbits]
  rw [htext]
  refine ⟨whole, fraction, hplain, ?_⟩
  have hdouble : Written.toDouble ⟨false, plainDecimal whole fraction⟩ =
      Float.ofBits (UInt64.ofNat bits) := by
    rw [Written.toDouble, hvalue]
    rfl
  rw [Literal.double, hplain.ofText?]
  dsimp only
  rw [hdouble, if_pos ((isFinite_double_iff hbits.le).mpr hbits)]
  rfl

end Float

/-- A text that is one number token of the value. -/
structure Stands (text : List Char) (token : Token) (value : Expr) : Prop where
  spells : Spells text [token]
  kind : token.kind.isNumber = true
  ofToken : Literal.ofToken token = .ok value

theorem ofToken_ofNumber (text : List Char) :
    Literal.ofToken (ofNumber text) =
      match numberKind text with
      | .int =>
          match int16? (Literal.withoutSigil text) with
          | some value => .ok (.int value)
          | none => .error (.of .overflow)
      | .fixed =>
          if (((Literal.withoutSigil text).filter Char.isDigit).dropWhile (· == '0')).length > 7 then
            Literal.double (Literal.withoutSigil text)
          else Literal.single (Literal.withoutSigil text)
      | .float => Literal.single (Literal.withoutSigil text)
      | .double => Literal.double (Literal.withoutSigil text)
      | .hex => Literal.bits 16 (text.drop 2)
      | .octal =>
          Literal.bits 8 ((text.dropWhile (· == '&')).dropWhile fun c => c == 'O' || c == 'o')
      | _ => .error (.of .syntaxError "EXPECTED NUMBER") := by
  unfold Literal.ofToken ofNumber
  dsimp only
  rw [String.toList_ofList]
  rfl

theorem stands_double {value : Float} (h : IsDouble value) :
    Stands (plainDouble value ++ "#").toList (ofNumber (plainDouble value ++ "#").toList)
      (.double value) := by
  obtain ⟨whole, fraction, hplain, hread⟩ := plain_double h
  have htext : (plainDouble value ++ "#").toList = (plainDouble value).toList ++ ['#'] :=
    String.toList_append
  have hkind := (numberKind_sigil hplain).2
  rw [htext]
  refine ⟨spells_number hplain (.inr (.inr rfl)), ?_, ?_⟩
  · rw [ofNumber, hkind]
    rfl
  · rw [ofToken_ofNumber, hkind, withoutSigil_plain hplain.mem (.inr (.inr rfl))]
    exact hread

/-- The digits that count are among the characters from the first one on. -/
theorem length_significant_le {text : List Char} (h : ∀ c ∈ text, c.isDigit = true ∨ c = '.') :
    ((text.filter Char.isDigit).dropWhile (· == '0')).length ≤
      (text.dropWhile fun c => c == '0' || c == '.').length := by
  induction text with
  | nil => exact Nat.le_refl 0
  | cons c rest ih =>
      have hrest := ih fun d hd => h d (List.mem_cons_of_mem c hd)
      rcases h c List.mem_cons_self with hdigit | rfl
      · rw [List.filter_cons_of_pos hdigit]
        by_cases hzero : c = '0'
        · subst hzero
          rw [List.dropWhile_cons_of_pos (by decide), List.dropWhile_cons_of_pos (by decide)]
          exact hrest
        · have hpoint : c ≠ '.' := by
            rintro rfl
            cases hdigit
          rw [List.dropWhile_cons_of_neg (by simp [hzero]),
            List.dropWhile_cons_of_neg (by simp [hzero, hpoint]), List.length_cons, List.length_cons]
          exact Nat.succ_le_succ (List.length_filter_le _ _)
      · rw [List.filter_cons_of_neg (by decide), List.dropWhile_cons_of_pos (by decide)]
        exact hrest

theorem stands_single {value : Float32} (h : IsSingle value) :
    Stands (singleLiteral value).toList (ofNumber (singleLiteral value).toList) (.single value) := by
  obtain ⟨whole, fraction, hplain, hread⟩ := plain_single h
  unfold singleLiteral
  dsimp only
  split
  · rename_i hshort
    rw [Bool.and_eq_true, decide_eq_true_eq] at hshort
    have hkind : numberKind (plainSingle value).toList = .fixed := by
      rw [numberKind_plain hplain, if_pos hshort.1]
    have hspells := spells_number hplain (.inl rfl)
    have hclean := withoutSigil_plain hplain.mem (.inl rfl)
    rw [List.append_nil] at hspells hclean
    refine ⟨hspells, ?_, ?_⟩
    · rw [ofNumber, hkind]
      rfl
    · have hcount := length_significant_le hplain.mem
      rw [ofToken_ofNumber, hkind, hclean]
      dsimp only
      rw [if_neg (by omega)]
      exact hread
  · have htext : (plainSingle value ++ "!").toList = (plainSingle value).toList ++ ['!'] :=
      String.toList_append
    have hkind := (numberKind_sigil hplain).1
    rw [htext]
    refine ⟨spells_number hplain (.inr (.inl rfl)), ?_, ?_⟩
    · rw [ofNumber, hkind]
      rfl
    · rw [ofToken_ofNumber, hkind, withoutSigil_plain hplain.mem (.inr (.inl rfl))]
      exact hread

section Digits

theorem toList_toString (n : Nat) : (toString n).toList = Nat.toDigits 10 n := Nat.toList_repr

theorem ofNumber_digits_isNumber (n : Nat) : (ofNumber (Nat.toDigits 10 n)).kind.isNumber = true := by
  rw [ofNumber, numberKind_plain (isPlain_toDigits n)]
  dsimp only
  repeat' split
  all_goals rfl

/-- The digits of a line number are read as the number. -/
theorem lineNumber_digits {n : Nat} (h : n ≤ Line.maxNumber) :
    Literal.lineNumber (String.ofList (Nat.toDigits 10 n)) = .ok n := by
  have hdigits : (Nat.toDigits 10 n).all Char.isDigit = true :=
    List.all_eq_true.mpr isDigit_of_mem_toDigits
  have hne : (Nat.toDigits 10 n).isEmpty = false := List.isEmpty_eq_false_iff.mpr Nat.toDigits_ne_nil
  unfold Literal.lineNumber
  dsimp only
  rw [String.toList_ofList, hdigits, hne, digitsValue_toDigits, if_pos h]
  rfl

theorem int16?_digits {n : Nat} (h : n ≤ 32767) :
    int16? (Nat.toDigits 10 n) = some (Int16.ofInt n) := by
  have hdigits : (Nat.toDigits 10 n).all Char.isDigit = true :=
    List.all_eq_true.mpr isDigit_of_mem_toDigits
  have hne : (Nat.toDigits 10 n).isEmpty = false := List.isEmpty_eq_false_iff.mpr Nat.toDigits_ne_nil
  obtain ⟨c, rest, htext, hdigit⟩ := (isPlain_toDigits n).head
  have hsign : splitSign (Nat.toDigits 10 n) = (false, Nat.toDigits 10 n) := by
    rw [htext]
    exact splitSign_of_isDigit hdigit
  have hrange : (decide ((-32768 : Int) ≤ n) && decide ((n : Int) ≤ 32767)) = true := by
    rw [Bool.and_eq_true, decide_eq_true_eq, decide_eq_true_eq]
    omega
  unfold int16?
  rw [hsign]
  dsimp only
  rw [hdigits, hne, digitsValue_toDigits]
  simp only [Bool.not_true, Bool.or_false, Bool.false_eq_true, if_false, hrange, if_true]

theorem numberKind_digits {n : Nat} (h : n ≤ 32767) : numberKind (Nat.toDigits 10 n) = .int := by
  have hpoint : (Nat.toDigits 10 n).contains '.' = false := by
    rw [List.contains_eq_mem, decide_eq_false_iff_not]
    intro hmem
    exact absurd (isDigit_of_mem_toDigits _ hmem) (by decide)
  rw [numberKind_plain (isPlain_toDigits n), hpoint, int16?_digits h]
  rfl

/-- The digits of a natural in base sixteen, in capitals, stand for the natural. -/
theorem hex_digits (n : Nat) :
    (∀ c ∈ (Nat.toDigits 16 n).map Char.toUpper, isHexDigit c = true) ∧
      ((Nat.toDigits 16 n).map Char.toUpper).foldl (fun n c => 16 * n + Literal.digitValue c) 0 = n := by
  have hdigit : ∀ d < 16, isHexDigit d.digitChar.toUpper = true ∧
      Literal.digitValue d.digitChar.toUpper = d := by decide
  induction n using Nat.strongRecOn with
  | ind n ih =>
      rcases Nat.lt_or_ge n 16 with hless | hge
      · rw [Nat.toDigits_of_lt_base hless]
        obtain ⟨hchar, hvalue⟩ := hdigit n hless
        refine ⟨?_, ?_⟩
        · intro c hc
          rw [List.map_cons, List.map_nil, List.mem_singleton] at hc
          rw [hc, hchar]
        · rw [List.map_cons, List.map_nil, List.foldl_cons, List.foldl_nil, hvalue]
          omega
      · obtain ⟨hchars, hvalues⟩ := ih (n / 16) (by omega)
        obtain ⟨hchar, hvalue⟩ := hdigit (n % 16) (Nat.mod_lt n (by decide))
        rw [Nat.toDigits_of_base_le (by decide) hge, List.map_append, List.map_cons, List.map_nil]
        refine ⟨?_, ?_⟩
        · intro c hc
          rcases List.mem_append.mp hc with hc | hc
          · exact hchars c hc
          · rw [List.mem_singleton.mp hc, hchar]
        · rw [List.foldl_append, hvalues, List.foldl_cons, List.foldl_nil, hvalue]
          omega

end Digits

/-- The token that an integer is listed as. -/
def intToken (value : Int16) : Token :=
  if value < 0 then ⟨.hex, intLiteral value⟩ else ofNumber (intLiteral value).toList

/-- The sixteen bits of a negative integer are read as the integer. -/
theorem ofNat_toInt16 {value : Int16} (h : value.toInt < 0) :
    (UInt16.ofNat (value.toInt + 65536).toNat).toInt16 = value := by
  have hlow := value.le_toInt
  refine Int16.toInt_inj.mp ?_
  have hbits : (UInt16.ofNat (value.toInt + 65536).toNat).toInt16 =
      Int16.ofInt (value.toInt + 65536) := by
    have hnat : (((value.toInt + 65536).toNat : Nat) : Int) = value.toInt + 65536 :=
      Int.toNat_of_nonneg (by omega)
    rw [UInt16.toInt16_ofNat', ← Int16.ofInt_eq_ofNat, hnat]
  rw [hbits, Int16.toInt_ofInt]
  exact (Int.add_bmod_right value.toInt 65536).trans value.toInt_bmod

theorem stands_int (value : Int16) : Stands (intLiteral value).toList (intToken value) (.int value) := by
  have hlow := value.le_toInt
  have hhigh := value.toInt_lt
  have hzero : (0 : Int16).toInt = 0 := rfl
  unfold intToken
  split
  · rename_i hneg
    have hbelow : value.toInt < 0 := hzero ▸ Int16.lt_iff_toInt_lt.mp hneg
    have hliteral : intLiteral value =
        "&H" ++ String.ofList ((Nat.toDigits 16 (value.toInt + 65536).toNat).map Char.toUpper) := by
      unfold intLiteral
      rw [if_pos hneg]
    have htext : (intLiteral value).toList =
        '&' :: 'H' :: (Nat.toDigits 16 (value.toInt + 65536).toNat).map Char.toUpper := by
      rw [hliteral, String.toList_append, String.toList_ofList, String.toList_ofList]
      rfl
    have hne : (Nat.toDigits 16 (value.toInt + 65536).toNat).map Char.toUpper ≠ [] := by
      rw [ne_eq, List.map_eq_nil_iff]
      exact Nat.toDigits_ne_nil
    obtain ⟨hchars, hvalue⟩ := hex_digits (value.toInt + 65536).toNat
    have hspells := spells_hex hne hchars
    rw [← htext, String.ofList_toList] at hspells
    refine ⟨hspells, rfl, ?_⟩
    change Literal.bits 16 ((intLiteral value).toList.drop 2) = _
    rw [htext, List.drop_succ_cons, List.drop_succ_cons, List.drop_zero]
    unfold Literal.bits
    rw [hvalue, List.isEmpty_eq_false_iff.mpr hne]
    dsimp only
    rw [if_neg (by simp; omega), ofNat_toInt16 hbelow]
    rfl
  · rename_i hneg
    have hnonneg : 0 ≤ value.toInt := by
      rw [Int16.lt_iff_toInt_lt, hzero] at hneg
      omega
    have hliteral : intLiteral value = toString value.toInt.toNat := by
      unfold intLiteral
      rw [if_neg hneg]
    rw [hliteral, toList_toString]
    have hplain := isPlain_toDigits value.toInt.toNat
    have hint : int16? (Nat.toDigits 10 value.toInt.toNat) = some value := by
      rw [int16?_digits (by omega), Int.toNat_of_nonneg hnonneg, Int16.ofInt_toInt]
    have hkind : numberKind (Nat.toDigits 10 value.toInt.toNat) = .int := numberKind_digits (by omega)
    have hclean := withoutSigil_plain hplain.mem (.inl rfl)
    rw [List.append_nil] at hclean
    refine ⟨spells_digits _, ofNumber_digits_isNumber _, ?_⟩
    rw [ofToken_ofNumber, hkind, hclean, hint]

end LineBasic
