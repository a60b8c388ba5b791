import LineBasic.Proofs.Evaluation
import LineBasic.Proofs.Lossless

/-! Texts with blanks put between their tokens. Each token of a statement ends where its own characters
say so: taken out of its text and put in front of any break, it is read again as the same token. So a
text and its tokens with blanks between them are scanned to the same tokens. -/

namespace LineBasic

namespace Token

variable {tail : List Char}

section Number

theorem takeWhile_append_digits {digits : List Char} (h : ∀ c ∈ digits, c.isDigit = true)
    (htail : ∀ c ∈ tail.head?, c.isDigit = false) :
    (digits ++ tail).takeWhile Char.isDigit = digits ∧ (digits ++ tail).dropWhile Char.isDigit = tail := by
  rw [takeWhile_append_of_head htail, dropWhile_append_of_head htail, List.takeWhile_eq_self_iff.mpr h,
    List.dropWhile_eq_nil_iff.mpr h]
  exact ⟨rfl, rfl⟩

/-- Digits, or digits around a point. -/
def IsMantissa (text : List Char) : Prop :=
  (∀ c ∈ text, c.isDigit = true) ∨
    ∃ whole fraction, text = whole ++ '.' :: fraction ∧ (∀ c ∈ whole, c.isDigit = true) ∧
      ∀ c ∈ fraction, c.isDigit = true

theorem isMantissa_spanMantissa (text : List Char) : IsMantissa (Number.spanMantissa text).1 := by
  unfold Number.spanMantissa
  dsimp only
  split
  · exact .inr ⟨_, _, rfl, fun _ => List.mem_takeWhile_imp, fun _ => List.mem_takeWhile_imp⟩
  · exact .inl fun _ => List.mem_takeWhile_imp

theorem IsMantissa.span {text : List Char} (h : IsMantissa text)
    (htail : ∀ c ∈ tail.head?, c.isDigit = false ∧ c ≠ '.') :
    Number.spanMantissa (text ++ tail) = (text, tail) := by
  have hdigit : ∀ c ∈ tail.head?, c.isDigit = false := fun c hc => (htail c hc).1
  unfold Number.spanMantissa
  rcases h with hdigits | ⟨whole, fraction, rfl, hwhole, hfraction⟩
  · obtain ⟨htake, hdrop⟩ := takeWhile_append_digits hdigits hdigit
    rw [htake, hdrop]
    dsimp only
    split
    · exact absurd rfl (htail '.' rfl).2
    · rfl
  · have hpoint : ∀ c ∈ ('.' :: (fraction ++ tail)).head?, c.isDigit = false := by simp
    obtain ⟨htake, hdrop⟩ := takeWhile_append_digits hwhole hpoint
    obtain ⟨htake', hdrop'⟩ := takeWhile_append_digits hfraction hdigit
    rw [List.append_assoc, List.cons_append, htake, hdrop]
    change (whole ++ '.' :: (fraction ++ tail).takeWhile Char.isDigit,
      (fraction ++ tail).dropWhile Char.isDigit) = _
    rw [htake', hdrop']

/-- Nothing, or the mark of an exponent, a sign or none, and digits. -/
def IsExponent (text : List Char) : Prop :=
  text = [] ∨ ∃ mark sign digits, text = mark :: (sign ++ digits) ∧
    (mark.toUpper == 'E' || mark.toUpper == 'D') = true ∧ (sign = [] ∨ sign = ['+'] ∨ sign = ['-']) ∧
    ∀ c ∈ digits, c.isDigit = true

theorem isExponent_spanExponent (text : List Char) : IsExponent (spanExponent text).1 := by
  unfold spanExponent
  split
  · rename_i mark rest
    split
    · rename_i hmark
      split
      · rename_i sign digits
        split
        · rename_i hsign
          refine .inr ⟨mark, [sign], _, rfl, hmark, .inr ?_, fun _ => List.mem_takeWhile_imp⟩
          simpa using hsign
        · exact .inr ⟨mark, [], (sign :: digits).takeWhile Char.isDigit, rfl, hmark, .inl rfl,
            fun _ => List.mem_takeWhile_imp⟩
      · exact .inr ⟨mark, [], [], rfl, hmark, .inl rfl, by simp⟩
    · exact .inl rfl
  · exact .inl rfl

/-- Whether a text goes on with nothing that belongs to a number but a sigil. -/
def EndsDigits (tail : List Char) : Prop :=
  ∀ c ∈ tail.head?, c.isDigit = false ∧ c.isAlpha = false ∧ c ≠ '.' ∧ c ≠ '+' ∧ c ≠ '-'

theorem IsExponent.span {text : List Char} (h : IsExponent text) (htail : EndsDigits tail) :
    spanExponent (text ++ tail) = (text, tail) := by
  have hdigit : ∀ c ∈ tail.head?, c.isDigit = false := fun c hc => (htail c hc).1
  rcases h with rfl | ⟨mark, sign, digits, rfl, hmark, hsign, hdigits⟩
  · exact spanExponent_of_head fun c hc => (htail c hc).2.1
  · obtain ⟨htake, hdrop⟩ := takeWhile_append_digits hdigits hdigit
    simp only [List.cons_append, List.append_assoc, spanExponent, if_pos hmark]
    rcases hsign with rfl | rfl | rfl
    · rw [List.nil_append, List.nil_append]
      -- Without a sign, neither the first digit nor what follows the digits is one.
      have hhead : ∀ c ∈ (digits ++ tail).head?, (c == '+' || c == '-') = false := by
        intro c hc
        cases digits with
        | nil =>
            obtain ⟨-, -, -, hplus, hminus⟩ := htail c hc
            simp [hplus, hminus]
        | cons d more =>
            obtain rfl : d = c := Option.some.inj hc
            have hd := hdigits d List.mem_cons_self
            rw [Bool.or_eq_false_iff, beq_eq_false_iff_ne, beq_eq_false_iff_ne]
            constructor <;> (rintro rfl; cases hd)
      cases hrest : digits ++ tail with
      | nil =>
          obtain ⟨rfl, rfl⟩ := List.append_eq_nil_iff.mp hrest
          rfl
      | cons c rest =>
          rw [hrest] at hhead htake hdrop
          dsimp only
          rw [hhead c rfl, if_neg Bool.false_ne_true, htake, hdrop]
    · rw [List.singleton_append]
      dsimp only
      rw [if_pos (by decide), htake, hdrop, List.singleton_append]
    · rw [List.singleton_append]
      dsimp only
      rw [if_pos (by decide), htake, hdrop, List.singleton_append]

/-- Nothing, or a sigil that a number can have. -/
def IsNumberSigil (text : List Char) : Prop := text = [] ∨ text = ['!'] ∨ text = ['#'] ∨ text = ['%']

theorem isNumberSigil_spanNumberSigil (text : List Char) : IsNumberSigil (spanNumberSigil text).1 := by
  unfold spanNumberSigil
  split
  · split
    · rename_i hsigil
      simp only [Bool.or_eq_true, beq_iff_eq] at hsigil
      rcases hsigil with (rfl | rfl) | rfl
      · exact .inr (.inl rfl)
      · exact .inr (.inr (.inl rfl))
      · exact .inr (.inr (.inr rfl))
    · exact .inl rfl
  · exact .inl rfl

theorem IsNumberSigil.span {text : List Char} (h : IsNumberSigil text) (htail : Breaks tail) :
    spanNumberSigil (text ++ tail) = (text, tail) := by
  rcases h with rfl | rfl | rfl | rfl
  · exact spanNumberSigil_append htail []
  · rfl
  · rfl
  · rfl

theorem IsNumberSigil.endsDigits {text : List Char} (h : IsNumberSigil text) (htail : Breaks tail) :
    EndsDigits (text ++ tail) := by
  intro c hc
  rcases h with rfl | rfl | rfl | rfl
  · obtain ⟨ha, hd, hpoint, -, hplus, hminus, -⟩ := isBreak_iff.mp (htail c hc)
    exact ⟨hd, ha, hpoint, hplus, hminus⟩
  · cases hc
    decide
  · cases hc
    decide
  · cases hc
    decide

/-- What follows a mantissa is no part of it. -/
theorem IsExponent.endsMantissa {text : List Char} (h : IsExponent text) (htail : EndsDigits tail) :
    ∀ c ∈ (text ++ tail).head?, c.isDigit = false ∧ c ≠ '.' := by
  intro c hc
  rcases h with rfl | ⟨mark, sign, digits, rfl, hmark, -⟩
  · exact ⟨(htail c hc).1, (htail c hc).2.2.1⟩
  · obtain rfl : mark = c := Option.some.inj hc
    have halpha : mark.isAlpha = true := by
      rw [← Chars.isAlpha_toUpper]
      rw [Bool.or_eq_true, beq_iff_eq, beq_iff_eq] at hmark
      rcases hmark with hmark | hmark <;> rw [hmark] <;> rfl
    rw [Chars.isAlpha_iff] at halpha
    rw [← Bool.not_eq_true, Chars.isDigit_iff, ne_eq, Chars.eq_iff]
    constructor
    · omega
    · simp
      omega

/-- **A number that was read is read again**, in front of every break. -/
theorem spanNumber_again (text : List Char) (htail : Breaks tail) :
    spanNumber ((spanNumber text).1 ++ tail) = ((spanNumber text).1, tail) := by
  have hparts : ∃ mantissa exponent sigil, (spanNumber text).1 = mantissa ++ exponent ++ sigil ∧
      IsMantissa mantissa ∧ IsExponent exponent ∧ IsNumberSigil sigil ∧
      (mantissa.any Char.isDigit = false → exponent = []) := by
    have hmantissa := isMantissa_spanMantissa text
    unfold spanNumber
    generalize Number.spanMantissa text = span at hmantissa
    obtain ⟨mantissa, rest⟩ := span
    dsimp only
    cases hany : mantissa.any Char.isDigit with
    | true =>
        refine ⟨mantissa, _, _, rfl, hmantissa, isExponent_spanExponent rest,
          isNumberSigil_spanNumberSigil _, ?_⟩
        simp [hany]
    | false =>
        exact ⟨mantissa, _, _, rfl, hmantissa, .inl rfl, isNumberSigil_spanNumberSigil _, fun _ => rfl⟩
  obtain ⟨mantissa, exponent, sigil, hwhole, hmantissa, hexponent, hsigil, hnone⟩ := hparts
  have hends := hsigil.endsDigits htail
  rw [hwhole, List.append_assoc, List.append_assoc]
  unfold spanNumber
  rw [hmantissa.span (hexponent.endsMantissa hends)]
  dsimp only
  cases hany : mantissa.any Char.isDigit with
  | true =>
      rw [if_pos rfl, hexponent.span hends]
      dsimp only
      rw [hsigil.span htail, List.append_assoc]
  | false =>
      rw [hnone hany, if_neg Bool.false_ne_true, List.nil_append]
      dsimp only
      rw [hsigil.span htail]

end Number

namespace Piece

section Word

/-- The letters that a reserved word takes are enough to find it again. -/
theorem longestKeyword?_take {word rest : List Char} {keyword : Keyword} {n : Nat}
    (h : longestKeyword? word rest = some (keyword, n)) :
    longestKeyword? word (rest.take n) = some (keyword, n) := by
  unfold longestKeyword? at h ⊢
  split at h
  · rename_i hsome
    rw [if_pos hsome]
    obtain ⟨m, hm, heq⟩ := List.exists_of_findSome?_eq_some h
    obtain ⟨found, hfound, hpair⟩ := Option.map_eq_some_iff.mp heq
    obtain ⟨rfl, rfl⟩ := Prod.mk.inj hpair
    rw [List.mem_reverse, List.mem_range, Nat.lt_succ_iff] at hm
    -- The letters that are taken are the first of those that follow, at most eight.
    have hletters : rest.take m = ((rest.takeWhile Char.isAlpha).take 8).take m := by
      have hstart : (rest.takeWhile Char.isAlpha).take 8 <+: rest :=
        (List.take_prefix _ _).trans (List.takeWhile_prefix _)
      obtain ⟨more, hmore⟩ := hstart
      conv_lhs => rw [← hmore, List.take_append_of_le_length hm]
    have hlength : (rest.take m).length = m := by
      rw [hletters, List.length_take, Nat.min_eq_left hm]
    have hm8 : m ≤ 8 := hm.trans (List.length_take_le _ _)
    have halpha : ∀ c ∈ rest.take m, c.isAlpha = true := by
      intro c hc
      rw [hletters] at hc
      exact List.mem_takeWhile_imp (List.mem_of_mem_take (List.mem_of_mem_take hc))
    have hagain : ((rest.take m).takeWhile Char.isAlpha).take 8 = rest.take m := by
      rw [List.takeWhile_eq_self_iff.mpr halpha, List.take_of_length_le (hlength.trans_le hm8)]
    dsimp only
    rw [hagain, hlength, List.range_succ, List.reverse_append, List.reverse_singleton,
      List.singleton_append, List.findSome?_cons, List.take_take, Nat.min_self, hletters, hfound]
    rfl
  · cases h

theorem reserved?_take {taken rest : List Char} {digitSeen : Bool} {c : Char} {keyword : Keyword} {n : Nat}
    (h : reserved? taken digitSeen c rest = some (keyword, n)) :
    reserved? taken digitSeen c (rest.take n) = some (keyword, n) := by
  unfold reserved? at h ⊢
  split
  · rename_i hdigit
    rw [if_pos hdigit] at h
    cases h
  · rename_i hdigit
    rw [if_neg hdigit] at h
    exact longestKeyword?_take h

/-- **A word that was read is read again** from its own characters. -/
theorem ReadsWord.again {taken text : List Char} {digitSeen : Bool} {piece : Piece}
    (h : ReadsWord taken digitSeen text piece) (hne : text ≠ []) :
    ∃ c more, text = c :: more ++ piece.rest ∧
      ReadsWord taken digitSeen (c :: more) ⟨piece.token, [], piece.mode⟩ := by
  induction h with
  | ended => exact absurd rfl hne
  | @sigil taken digitSeen c rest hsigil => exact ⟨c, [], rfl, .sigil taken digitSeen [] hsigil⟩
  | @reserved taken rest digitSeen c keyword n hsigil hfound =>
      refine ⟨c, rest.take n, by rw [List.cons_append, List.take_append_drop], ?_⟩
      have hreads := ReadsWord.reserved hsigil (reserved?_take hfound)
      rwa [List.take_take, Nat.min_self, List.drop_take, Nat.sub_self, List.take_zero] at hreads
  | @longer taken rest digitSeen c piece hsigil hnone hgoes _ ih =>
      obtain ⟨next, more, hrest, hagain⟩ := ih (ne_nil_of_goesOn hgoes)
      have hmore : goesOn (digitSeen || c.isDigit) (next :: more) = true := by
        rw [hrest] at hgoes
        exact hgoes
      exact ⟨c, next :: more, by rw [List.cons_append, ← hrest],
        .longer hsigil (reserved?_eq_none hnone _) hmore hagain⟩
  | @name taken rest digitSeen c hsigil hnone _ =>
      exact ⟨c, [], rfl, .name hsigil (reserved?_eq_none hnone []) rfl⟩

theorem word_again (taken : List Char) (digitSeen : Bool) (c : Char) (rest : List Char) :
    ∃ more, rest = more ++ (word taken digitSeen (c :: rest)).rest ∧
      word taken digitSeen (c :: more) =
        ⟨(word taken digitSeen (c :: rest)).token, [], (word taken digitSeen (c :: rest)).mode⟩ := by
  obtain ⟨d, more, htext, hagain⟩ := (readsWord_word taken digitSeen (c :: rest)).again (List.cons_ne_nil c rest)
  obtain ⟨rfl, hrest⟩ := List.cons.inj htext
  exact ⟨more, hrest, hagain.eq⟩

end Word

theorem radix_again (text : List Char) :
    ∃ more, text = more ++ (radix text).rest ∧ radix more = ⟨(radix text).token, [], (radix text).mode⟩ := by
  have hrun : ∀ (p : Char → Bool) (digits : List Char),
      (digits.takeWhile p).takeWhile p = digits.takeWhile p ∧ (digits.takeWhile p).dropWhile p = [] := by
    intro p digits
    exact ⟨List.takeWhile_eq_self_iff.mpr fun _ => List.mem_takeWhile_imp,
      List.dropWhile_eq_nil_iff.mpr fun _ => List.mem_takeWhile_imp⟩
  cases text with
  | nil => exact ⟨[], rfl, rfl⟩
  | cons mark digits =>
      by_cases hhex : (mark.toUpper == 'H') = true
      · refine ⟨mark :: digits.takeWhile isHexDigit, ?_, ?_⟩
        · simp [radix, hhex, ofLexeme]
        · simp only [radix, if_pos hhex, (hrun isHexDigit digits).1, (hrun isHexDigit digits).2]
          rfl
      · by_cases hoctal : (mark.toUpper == 'O') = true
        · refine ⟨mark :: digits.takeWhile isOctalDigit, ?_, ?_⟩
          · simp [radix, hhex, hoctal, ofLexeme]
          · simp only [radix, if_neg hhex, if_pos hoctal, (hrun isOctalDigit digits).1,
              (hrun isOctalDigit digits).2]
            rfl
        · by_cases hdigit : isOctalDigit mark = true
          · refine ⟨mark :: digits.takeWhile isOctalDigit, ?_, ?_⟩
            · simp [radix, hhex, hoctal, hdigit, ofLexeme]
            · simp only [radix, if_neg hhex, if_neg hoctal, if_pos hdigit, List.takeWhile_cons_of_pos hdigit,
                List.dropWhile_cons_of_pos hdigit, (hrun isOctalDigit digits).1, (hrun isOctalDigit digits).2]
              rfl
          · refine ⟨[], ?_, ?_⟩
            · simp [radix, hhex, hoctal, hdigit, ofLexeme]
            · simp only [radix, if_neg hhex, if_neg hoctal, if_neg hdigit]
              rfl

theorem symbol_again (c : Char) (rest : List Char) :
    ∃ more, rest = more ++ (symbol c rest).rest ∧
      symbol c more = ⟨(symbol c rest).token, [], (symbol c rest).mode⟩ := by
  cases rest with
  | nil => exact ⟨[], rfl, rfl⟩
  | cons next rest =>
      simp only [symbol]
      cases hjoined : Kind.joined? (symbolKind c) (symbolKind next) with
      | none => exact ⟨[], rfl, rfl⟩
      | some kind =>
          refine ⟨[next], rfl, ?_⟩
          dsimp only
          rw [hjoined]
          rfl

/-- A string that its line closes is read again, whatever follows it. -/
theorem quoted_again (text : List Char) (mode : Mode)
    (h : Reader.isOpenString (quoted text mode).token = false) :
    ∃ more, text = more ++ (quoted text mode).rest ∧
      ∀ tail, quoted (more ++ tail) mode = ⟨(quoted text mode).token, tail, mode⟩ := by
  have hbody := List.takeWhile_append_dropWhile (p := fun c => c != '"' && c != '\n') (l := text)
  unfold quoted at h ⊢
  dsimp only at h ⊢
  generalize hinside : (text.takeWhile fun c => c != '"' && c != '\n') = body at hbody h
  have hall : ∀ c ∈ body, (c != '"' && c != '\n') = true := by
    rw [← hinside]
    exact fun _ => List.mem_takeWhile_imp
  split at h
  · rename_i rest hrest
    refine ⟨body ++ ['"'], ?_, fun tail => ?_⟩
    · rw [List.append_assoc, List.singleton_append]
      rw [hrest] at hbody
      exact hbody.symm
    · rw [List.append_assoc, List.singleton_append, List.takeWhile_append_of_pos hall,
        List.dropWhile_append_of_pos hall]
      simp
  · simp [Reader.isOpenString] at h

/-- **Every token of a statement is read again**, in front of every break. -/
theorem ofStatement_again (c : Char) (rest : List Char)
    (h : Reader.isOpenString (ofStatement c rest).token = false) :
    ∃ more, rest = more ++ (ofStatement c rest).rest ∧
      ∀ tail, Breaks tail →
        ofStatement c (more ++ tail) = ⟨(ofStatement c rest).token, tail, (ofStatement c rest).mode⟩ := by
  unfold ofStatement at h ⊢
  by_cases hnumber : (c.isDigit || c == '.') = true
  · simp only [if_pos hnumber] at h ⊢
    have hhead := head?_spanNumber (c := c) (by simpa using hnumber) rest
    obtain ⟨more, hmore⟩ := List.head?_eq_some_iff.mp hhead
    have hparts := spanNumber_parts (c :: rest)
    rw [hmore, List.cons_append] at hparts
    refine ⟨more, (List.cons.inj hparts).2.symm, fun tail htail => ?_⟩
    have hagain := spanNumber_again (c :: rest) htail
    rw [hmore, List.cons_append] at hagain
    change ofLexeme (numberKind (spanNumber (c :: (more ++ tail))).1) (spanNumber (c :: (more ++ tail))).1
      (spanNumber (c :: (more ++ tail))).2 = ofLexeme (numberKind (spanNumber (c :: rest)).1)
      (spanNumber (c :: rest)).1 tail
    rw [hagain, hmore]
  · by_cases hword : c.isAlpha = true
    · simp only [if_neg hnumber, if_pos hword] at h ⊢
      obtain ⟨more, hrest, hagain⟩ := word_again [] false c rest
      refine ⟨more, hrest, fun tail htail => ?_⟩
      rw [word_append htail, hagain]
      rfl
    · by_cases hquote : (c == '"') = true
      · simp only [if_neg hnumber, if_neg hword, if_pos hquote] at h ⊢
        obtain ⟨more, hrest, hagain⟩ := quoted_again rest .statement h
        refine ⟨more, hrest, fun tail _ => ?_⟩
        rw [hagain tail, (sound_quoted rest .statement).2.1]
      · by_cases hradix : (c == '&') = true
        · simp only [if_neg hnumber, if_neg hword, if_neg hquote, if_pos hradix]
          obtain ⟨more, hrest, hagain⟩ := radix_again rest
          refine ⟨more, hrest, fun tail htail => ?_⟩
          rw [radix_append htail, hagain]
          rfl
        · simp only [if_neg hnumber, if_neg hword, if_neg hquote, if_neg hradix]
          obtain ⟨more, hrest, hagain⟩ := symbol_again c rest
          refine ⟨more, hrest, fun tail htail => ?_⟩
          rw [symbol_append htail, hagain]
          rfl

end Piece

/-- A token that is read again from its own text where blanks follow it: no remark or DATA starts with it,
and it is no string that its line leaves open. -/
def StandsApart (token : Token) : Prop :=
  token.kind ≠ .keyword .REM ∧ token.kind ≠ .keyword .DATA ∧ Reader.isOpenString token = false

instance : DecidablePred StandsApart :=
  fun token => inferInstanceAs (Decidable (token.kind ≠ _ ∧ token.kind ≠ _ ∧ Reader.isOpenString token = _))

theorem StandsApart.modeAfter {token : Token} (h : token.StandsApart) :
    token.kind.modeAfter = .statement := by
  obtain ⟨hremark, hdata, -⟩ := h
  cases hkind : token.kind with
  | keyword word =>
      rw [hkind] at hremark hdata
      cases word with
      | REM => exact absurd rfl hremark
      | DATA => exact absurd rfl hdata
      | _ => rfl
  | _ => rfl

namespace Scanner

/-- **A token is found again** where its own text stands in front of a blank. -/
theorem Reads.again {scanner after : Scanner} {token : Token} (h : Reads scanner token after)
    (hmode : scanner.mode = .statement) (hapart : token.StandsApart) :
    after.mode = .statement ∧ ∀ b : List Char,
      Reads ⟨token.display.toList ++ ' ' :: b, .statement, scanner.lineStart⟩ token
        ⟨' ' :: b, .statement, after.lineStart⟩ := by
  cases h with
  | remark hremark =>
      rw [hmode] at hremark
      cases hremark
  | lineEnd => exact ⟨rfl, fun b => .lineEnd nofun rfl⟩
  | data _ _ _ hdata =>
      rw [hmode] at hdata
      cases hdata
  | @lineNumber c rest hskip _ hstart hdigit =>
      refine ⟨rfl, fun b => ?_⟩
      have hspace := isSpace_of_dropWhile hskip
      have hblank : ∀ d ∈ (' ' :: b).head?, d.isDigit = false := by simp
      have hdigits : ∀ d ∈ c :: rest.takeWhile Char.isDigit, d.isDigit = true :=
        List.forall_mem_cons.mpr ⟨hdigit, fun _ => List.mem_takeWhile_imp⟩
      obtain ⟨htake, hdrop⟩ := takeWhile_append_digits hdigits hblank
      rw [List.cons_append] at htake hdrop
      rw [display_of_kind (by simp) (by simp), String.toList_ofList, List.takeWhile_cons_of_pos hdigit,
        List.cons_append]
      have hreads := @Reads.lineNumber ⟨c :: (rest.takeWhile Char.isDigit ++ ' ' :: b), .statement, true⟩ c _
        (List.dropWhile_cons_of_neg (by simp [hspace])) rfl rfl hdigit
      rwa [htake, hdrop, ← hstart] at hreads
  | @statement c rest hskip hmark hline _ hnumber =>
      have hspace := isSpace_of_dropWhile hskip
      have hafter : (Piece.ofStatement c rest).mode = .statement := by
        rw [(Piece.sound_ofStatement c rest).2, hapart.modeAfter]
      refine ⟨hafter, fun b => ?_⟩
      obtain ⟨more, hmore, hagain⟩ := Piece.ofStatement_again c rest hapart.2.2
      have hdisplay : (Piece.ofStatement c rest).token.display.toList = c :: more := by
        have hparts := Piece.ofStatement_parts c rest
        conv_rhs at hparts => rw [hmore, ← List.cons_append]
        exact List.append_cancel_right hparts
      rw [hdisplay, List.cons_append]
      have hreads := @Reads.statement ⟨c :: (more ++ ' ' :: b), .statement, scanner.lineStart⟩ c _
        (List.dropWhile_cons_of_neg (by simp [hspace])) hmark hline rfl hnumber
      rwa [hagain _ (breaks_cons (by decide)), hafter] at hreads

/-- The tokens with a blank behind each are scanned to themselves. -/
theorem tokens_spaced (scanner : Scanner) (hmode : scanner.mode = .statement)
    (h : ∀ token ∈ scanner.tokens, token.StandsApart) :
    tokens ⟨scanner.tokens.flatMap fun token => token.display.toList ++ [' '], .statement, scanner.lineStart⟩ =
      scanner.tokens := by
  induction scanner using tokens.induct with
  | case1 scanner hnone =>
      rw [tokens_of_next?_eq_none hnone]
      exact tokens_of_next?_eq_none rfl
  | case2 scanner token after hsome ih =>
      rw [tokens_of_next?_eq_some hsome] at h ⊢
      obtain ⟨htoken, hrest⟩ := List.forall_mem_cons.mp h
      obtain ⟨hafter, hagain⟩ := (reads_of_next? hsome).again hmode htoken
      rw [List.flatMap_cons, List.append_assoc, List.singleton_append, (hagain _).tokens_eq,
        tokens_blank (by decide) _ (by decide), ih hafter hrest]

end Scanner

/-- The tokens of a text with single blanks between them. -/
def spaced (tokens : List Token) : String := " ".intercalate (tokens.map display)

theorem toList_spaced (tokens : List Token) :
    (spaced (tokens ++ [endOfInput])).toList = tokens.flatMap fun token => token.display.toList ++ [' '] := by
  unfold spaced
  induction tokens with
  | nil => rfl
  | cons token rest ih =>
      rw [List.cons_append, List.map_cons, List.flatMap_cons, ← ih]
      cases hrest : (rest ++ [endOfInput]).map display with
      | nil => simp at hrest
      | cons next more =>
          rw [String.intercalate_cons_cons, String.toList_append, String.toList_append]
          rfl

/-- **Blanks between tokens make no difference.** A text in which no remark and no DATA starts and every
string is closed has the same tokens as these have with single blanks between them. -/
theorem lex_spaced (text : String) (h : ∀ token ∈ lex text, token.StandsApart) :
    lex (spaced (lex text)) = lex text := by
  have hbody : ∀ token ∈ (Scanner.ofText text.toList).tokens, token.StandsApart :=
    fun token hmem => h token (List.mem_append_left _ hmem)
  rw [lex, lex, toList_spaced]
  exact congrArg (· ++ [endOfInput]) (Scanner.tokens_spaced (Scanner.ofText text.toList) rfl hbody)

/-- A line without a blank: words run into one another and into numbers, an exponent has a sign and no digit,
and one character is no token of the language. -/
def crunched : String := "10FORI=1TO.5e+3STEP2E-:A1B$=\"x y\"<>&hFg=>12#@?ERRORX"

theorem lex_spaced_crunched :
    (∀ token ∈ lex crunched, token.StandsApart) ∧
      spaced (lex crunched) =
        "10 FOR I = 1 TO .5e+3 STEP 2E- : A1 B$ = \"x y\" <> &hF g => 12# @ ? ERROR X " ∧
      lex (spaced (lex crunched)) = lex crunched := by
  obtain ⟨hapart, hspaced⟩ : (∀ token ∈ lex crunched, token.StandsApart) ∧ spaced (lex crunched) =
      "10 FOR I = 1 TO .5e+3 STEP 2E- : A1 B$ = \"x y\" <> &hF g => 12# @ ? ERROR X " := by
    rw [lex_eq]
    decide +kernel
  exact ⟨hapart, hspaced, lex_spaced crunched hapart⟩

end Token

end LineBasic
