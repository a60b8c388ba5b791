import LineBasic.Proofs.Lexed

/-! Letter case in scanning. The classes of characters that the scanner tells apart do not separate a
letter from its capital, so a text in capitals is scanned to the same tokens in capitals: cut at the same
places, and of the same kinds. -/

namespace LineBasic

section Classes

theorem Text.isBlank_toUpper (c : Char) : isBlank c.toUpper = isBlank c := by
  have hcode := Chars.toNat_toUpper c
  by_cases h : 97 ≤ c.toNat ∧ c.toNat ≤ 122
  · rw [if_pos h] at hcode
    have hsmall : ∀ n : Nat, 65 ≤ n ∧ n ≤ 122 → ((9 ≤ n && n ≤ 13) || n == 0x20 || n == 0x85 || n == 0xA0 ||
        n == 0x1680 || (0x2000 ≤ n && n ≤ 0x200A) || n == 0x2028 || n == 0x2029 || n == 0x202F ||
        n == 0x205F || n == 0x3000) = false := by
      intro n hn
      simp
      omega
    unfold isBlank
    rw [hcode, hsmall _ (by omega), hsmall _ (by omega)]
  · rw [if_neg h] at hcode
    unfold isBlank
    rw [hcode]

namespace Token

theorem isSpace_toUpper (c : Char) : isSpace c.toUpper = isSpace c := by
  unfold isSpace
  rw [Chars.beq_toUpper rfl, Chars.beq_toUpper rfl, Chars.beq_toUpper rfl]

theorem isOctalDigit_toUpper (c : Char) : isOctalDigit c.toUpper = isOctalDigit c := by
  rw [Bool.eq_iff_iff]
  simp only [isOctalDigit, Bool.and_eq_true, decide_eq_true_eq, Chars.le_iff, Chars.toNat_toUpper]
  have hseven : '7'.toNat = 55 := rfl
  split <;> omega

theorem isHexDigit_toUpper (c : Char) : isHexDigit c.toUpper = isHexDigit c := by
  rw [Bool.eq_iff_iff]
  simp only [isHexDigit, Bool.or_eq_true, Bool.and_eq_true, decide_eq_true_eq, Chars.isDigit_iff,
    Chars.le_iff, Chars.toNat_toUpper]
  have hcodes : 'A'.toNat = 65 ∧ 'F'.toNat = 70 ∧ 'a'.toNat = 97 ∧ 'f'.toNat = 102 := ⟨rfl, rfl, rfl, rfl⟩
  split <;> omega

end Token

end Classes

section Texts

variable {p : Char → Bool}

theorem takeWhile_capitals (hp : ∀ c, p c.toUpper = p c) (text : List Char) :
    (text.map Char.toUpper).takeWhile p = (text.takeWhile p).map Char.toUpper := by
  have hsame : p ∘ Char.toUpper = p := funext hp
  rw [List.takeWhile_map, hsame]

theorem dropWhile_capitals (hp : ∀ c, p c.toUpper = p c) (text : List Char) :
    (text.map Char.toUpper).dropWhile p = (text.dropWhile p).map Char.toUpper := by
  have hsame : p ∘ Char.toUpper = p := funext hp
  rw [List.dropWhile_map, hsame]

theorem any_capitals (hp : ∀ c, p c.toUpper = p c) (text : List Char) :
    (text.map Char.toUpper).any p = text.any p := by
  have hsame : p ∘ Char.toUpper = p := funext hp
  rw [List.any_map, hsame]

theorem all_capitals (hp : ∀ c, p c.toUpper = p c) (text : List Char) :
    (text.map Char.toUpper).all p = text.all p := by
  have hsame : p ∘ Char.toUpper = p := funext hp
  rw [List.all_map, hsame]

theorem filter_capitals (hp : ∀ c, p c.toUpper = p c) (text : List Char) :
    (text.map Char.toUpper).filter p = (text.filter p).map Char.toUpper := by
  have hsame : p ∘ Char.toUpper = p := funext hp
  rw [List.filter_map, hsame]

theorem Text.dropEndWhile_capitals (hp : ∀ c, p c.toUpper = p c) (text : List Char) :
    dropEndWhile p (text.map Char.toUpper) = (dropEndWhile p text).map Char.toUpper := by
  rw [dropEndWhile, dropEndWhile, ← List.map_reverse, dropWhile_capitals hp, List.map_reverse]

theorem Text.trimEnd_capitals (text : List Char) :
    trimEnd (text.map Char.toUpper) = (trimEnd text).map Char.toUpper :=
  dropEndWhile_capitals isBlank_toUpper text

theorem getLast?_capitals {d : Char} (hd : d.isAlpha = false) (text : List Char) :
    (text.map Char.toUpper).getLast? = some d ↔ text.getLast? = some d := by
  rw [List.getLast?_map, Option.map_eq_some_iff]
  constructor
  · rintro ⟨c, hc, hup⟩
    rwa [← (Chars.toUpper_eq_iff hd).mp hup]
  · intro hlast
    exact ⟨d, hlast, (Chars.toUpper_eq_iff hd).mpr rfl⟩

theorem contains_capitals {d : Char} (hd : d.isAlpha = false) (text : List Char) :
    (text.map Char.toUpper).contains d = text.contains d := by
  rw [Bool.eq_iff_iff, List.contains_iff_mem, List.contains_iff_mem, List.mem_map]
  constructor
  · rintro ⟨c, hc, hup⟩
    rwa [← (Chars.toUpper_eq_iff hd).mp hup]
  · intro hmem
    exact ⟨d, hmem, (Chars.toUpper_eq_iff hd).mpr rfl⟩

/-- Digits are their own capitals. -/
theorem capitals_of_isDigit {text : List Char} (h : text.all Char.isDigit = true) :
    text.map Char.toUpper = text := by
  have hfix : ∀ c ∈ text, c.toUpper = id c := by
    intro c hc
    have hdigit := List.all_eq_true.mp h c hc
    apply Chars.toUpper_of_not_isAlpha
    rw [Chars.isDigit_iff] at hdigit
    rw [← Bool.not_eq_true, Chars.isAlpha_iff]
    omega
  rw [List.map_congr_left hfix, List.map_id]

/-- Texts are the same in capitals where their characters are. -/
theorem Text.upper_eq_iff {s t : String} :
    upper s = upper t ↔ s.toList.map Char.toUpper = t.toList.map Char.toUpper := by
  rw [← String.toList_inj, upper, upper, String.toList_map, String.toList_map]

end Texts

namespace Number

theorem splitSign_capitals (text : List Char) :
    splitSign (text.map Char.toUpper) = ((splitSign text).1, (splitSign text).2.map Char.toUpper) := by
  cases text with
  | nil => rfl
  | cons c rest =>
      by_cases hminus : c = '-'
      · subst hminus
        rfl
      · by_cases hplus : c = '+'
        · subst hplus
          rfl
        · have hup : c.toUpper ≠ '-' ∧ c.toUpper ≠ '+' :=
            ⟨fun h => hminus ((Chars.toUpper_eq_iff rfl).mp h), fun h => hplus ((Chars.toUpper_eq_iff rfl).mp h)⟩
          simp [splitSign, hminus, hplus, hup]

theorem int16?_capitals (text : List Char) : int16? (text.map Char.toUpper) = int16? text := by
  unfold int16?
  rw [splitSign_capitals]
  dsimp only
  rw [all_capitals Chars.isDigit_toUpper, List.isEmpty_map]
  split
  · rfl
  · rename_i hdigits
    rw [Bool.or_eq_true, not_or, Bool.not_eq_true', Bool.not_eq_false] at hdigits
    rw [capitals_of_isDigit hdigits.2]

theorem spanMantissa_capitals (text : List Char) :
    spanMantissa (text.map Char.toUpper) =
      ((spanMantissa text).1.map Char.toUpper, (spanMantissa text).2.map Char.toUpper) := by
  unfold spanMantissa
  rw [takeWhile_capitals Chars.isDigit_toUpper, dropWhile_capitals Chars.isDigit_toUpper]
  cases text.dropWhile Char.isDigit with
  | nil => rfl
  | cons c rest =>
      by_cases hpoint : c = '.'
      · subst hpoint
        rw [List.map_cons]
        change (_ ++ '.' :: (rest.map Char.toUpper).takeWhile Char.isDigit, _) = _
        rw [takeWhile_capitals Chars.isDigit_toUpper, dropWhile_capitals Chars.isDigit_toUpper]
        simp
      · have hup : c.toUpper ≠ '.' := fun h => hpoint ((Chars.toUpper_eq_iff rfl).mp h)
        simp [hpoint, hup]

end Number

namespace Token

section Numbers

theorem spanExponent_capitals (text : List Char) :
    spanExponent (text.map Char.toUpper) =
      ((spanExponent text).1.map Char.toUpper, (spanExponent text).2.map Char.toUpper) := by
  cases text with
  | nil => rfl
  | cons mark rest =>
      cases rest with
      | nil =>
          simp only [List.map_cons, List.map_nil, spanExponent, Chars.toUpper_toUpper]
          split <;> rfl
      | cons sign digits =>
          simp only [List.map_cons, spanExponent, Chars.toUpper_toUpper, Chars.beq_toUpper (d := '+') rfl,
            Chars.beq_toUpper (d := '-') rfl]
          rw [← List.map_cons, takeWhile_capitals Chars.isDigit_toUpper, dropWhile_capitals Chars.isDigit_toUpper,
            takeWhile_capitals Chars.isDigit_toUpper, dropWhile_capitals Chars.isDigit_toUpper]
          split
          · split <;> rfl
          · rfl

theorem spanNumberSigil_capitals (text : List Char) :
    spanNumberSigil (text.map Char.toUpper) =
      ((spanNumberSigil text).1.map Char.toUpper, (spanNumberSigil text).2.map Char.toUpper) := by
  cases text with
  | nil => rfl
  | cons c rest =>
      rw [List.map_cons, spanNumberSigil, spanNumberSigil, Chars.beq_toUpper rfl, Chars.beq_toUpper rfl,
        Chars.beq_toUpper rfl]
      split <;> rfl

theorem spanNumber_capitals (text : List Char) :
    spanNumber (text.map Char.toUpper) =
      ((spanNumber text).1.map Char.toUpper, (spanNumber text).2.map Char.toUpper) := by
  unfold spanNumber
  rw [Number.spanMantissa_capitals]
  dsimp only
  rw [any_capitals Chars.isDigit_toUpper]
  split
  · rw [spanExponent_capitals]
    dsimp only
    rw [spanNumberSigil_capitals]
    simp
  · rw [spanNumberSigil_capitals]
    simp

theorem numberKind_capitals (literal : List Char) :
    numberKind (literal.map Char.toUpper) = numberKind literal := by
  have hmark : ∀ (d c : Char), (c.toUpper.toUpper == d) = (c.toUpper == d) := by
    intro d c
    rw [Chars.toUpper_toUpper]
  unfold numberKind
  rw [any_capitals Chars.isDigit_toUpper, any_capitals (hmark 'D'), any_capitals (hmark 'E'),
    contains_capitals rfl, Number.int16?_capitals, dropWhile_capitals (Chars.beq_toUpper rfl), List.length_map]
  simp only [getLast?_capitals (d := '%') rfl, getLast?_capitals (d := '!') rfl,
    getLast?_capitals (d := '#') rfl]

end Numbers

/-- The token with its text in capitals. -/
def capitals (token : Token) : Token := ⟨token.kind, Text.upper token.literal⟩

theorem capitals_ofList (kind : Kind) (text : List Char) :
    capitals ⟨kind, String.ofList text⟩ = ⟨kind, String.ofList (text.map Char.toUpper)⟩ := by
  rw [capitals, Text.upper_ofList]

namespace Piece

/-- The piece of the text in capitals. -/
def capitals (piece : Piece) : Piece :=
  ⟨piece.token.capitals, piece.rest.map Char.toUpper, piece.mode⟩

theorem capitals_mk (kind : Kind) (lexeme rest : List Char) (mode : Mode) :
    capitals ⟨⟨kind, String.ofList lexeme⟩, rest, mode⟩ =
      ⟨⟨kind, String.ofList (lexeme.map Char.toUpper)⟩, rest.map Char.toUpper, mode⟩ := by
  rw [capitals, capitals_ofList]

theorem ofLexeme_capitals (kind : Kind) (lexeme rest : List Char) :
    ofLexeme kind (lexeme.map Char.toUpper) (rest.map Char.toUpper) = (ofLexeme kind lexeme rest).capitals :=
  (capitals_mk kind lexeme rest .statement).symm

theorem number_capitals (text : List Char) : number (text.map Char.toUpper) = (number text).capitals := by
  unfold number
  rw [spanNumber_capitals]
  dsimp only
  rw [numberKind_capitals, ofLexeme_capitals]

theorem radix_capitals (text : List Char) : radix (text.map Char.toUpper) = (radix text).capitals := by
  cases text with
  | nil => exact ofLexeme_capitals .illegal ['&'] []
  | cons mark digits =>
      have hlexeme : ∀ (kind : Kind) (lexeme rest : List Char),
          ofLexeme kind ('&' :: lexeme.map Char.toUpper) (rest.map Char.toUpper) =
            (ofLexeme kind ('&' :: lexeme) rest).capitals :=
        fun kind lexeme rest => ofLexeme_capitals kind ('&' :: lexeme) rest
      rw [List.map_cons, radix, radix, Chars.toUpper_toUpper, isOctalDigit_toUpper]
      dsimp only
      rw [← List.map_cons, takeWhile_capitals isHexDigit_toUpper, dropWhile_capitals isHexDigit_toUpper,
        takeWhile_capitals isOctalDigit_toUpper, dropWhile_capitals isOctalDigit_toUpper,
        takeWhile_capitals isOctalDigit_toUpper, dropWhile_capitals isOctalDigit_toUpper, List.isEmpty_map,
        List.isEmpty_map]
      split
      · exact hlexeme _ (mark :: _) _
      · split
        · exact hlexeme _ (mark :: _) _
        · split
          · exact hlexeme _ _ _
          · exact hlexeme _ [] _

theorem quoted_capitals (text : List Char) (mode : Mode) :
    quoted (text.map Char.toUpper) mode = (quoted text mode).capitals := by
  have hbody : ∀ c : Char, (c.toUpper != '"' && c.toUpper != '\n') = (c != '"' && c != '\n') := by
    intro c
    rw [Chars.bne_toUpper rfl, Chars.bne_toUpper rfl]
  unfold quoted
  rw [takeWhile_capitals hbody, dropWhile_capitals hbody]
  cases text.dropWhile fun c => c != '"' && c != '\n' with
  | nil => exact (capitals_mk .illegal ('"' :: _) [] mode).symm
  | cons c rest =>
      by_cases hquote : c = '"'
      · subst hquote
        exact (capitals_mk .text _ rest mode).symm
      · rw [List.map_cons]
        split
        · rename_i heq
          exact absurd ((Chars.toUpper_eq_iff rfl).mp (List.cons.inj heq).1) hquote
        · split
          · rename_i heq
            exact absurd (List.cons.inj heq).1 hquote
          · exact (capitals_mk .illegal ('"' :: _) (c :: rest) mode).symm

theorem longestKeyword?_capitals (word rest : List Char) :
    longestKeyword? (word.map Char.toUpper) (rest.map Char.toUpper) = longestKeyword? word rest := by
  have hword : ∀ text : List Char,
      Keyword.ofWord? (String.ofList (text.map Char.toUpper)) = Keyword.ofWord? (String.ofList text) := by
    intro text
    unfold Keyword.ofWord?
    rw [Text.upper_ofList, Text.upper_ofList, Text.map_toUpper_toUpper]
  unfold longestKeyword?
  rw [hword, takeWhile_capitals Chars.isAlpha_toUpper, ← List.map_take]
  simp only [List.length_map, ← List.map_take, ← List.map_append, hword]

theorem word_toUpper (taken : List Char) (digitSeen : Bool) (text : List Char) :
    word (taken.map Char.toUpper) digitSeen (text.map Char.toUpper) = (word taken digitSeen text).capitals := by
  induction text generalizing taken digitSeen with
  | nil =>
      rw [List.map_nil, word, word, ← List.map_reverse]
      exact ofLexeme_capitals _ _ []
  | cons c rest ih =>
      rw [List.map_cons, word, word, ← List.map_cons, ← List.map_reverse, longestKeyword?_capitals,
        Chars.isDigit_toUpper, isSigil_toUpper, goesOn_capitals]
      split
      · exact ofLexeme_capitals _ _ _
      · split
        · rw [capitals_mk, List.map_append, List.map_take, List.map_drop]
        · split
          · exact ih (c :: taken) _
          · exact ofLexeme_capitals _ _ _

theorem symbolKind_toUpper (c : Char) : symbolKind c.toUpper = symbolKind c := by
  cases ha : c.isAlpha with
  | false => rw [Chars.toUpper_of_not_isAlpha ha]
  | true =>
      have hletter : ∀ d : Char, d.isAlpha = true → symbolKind d = .illegal := by
        intro d hd
        have hmark : d ≠ remarkMark := by
          rintro rfl
          cases hd
        unfold symbolKind
        split <;> first | cases hd | exact if_neg hmark
      have hup : c.toUpper.isAlpha = true := by rw [Chars.isAlpha_toUpper, ha]
      rw [hletter _ hup, hletter _ ha]

theorem symbol_capitals {c : Char} (hc : c.isAlpha = false) (rest : List Char) :
    symbol c (rest.map Char.toUpper) = (symbol c rest).capitals := by
  have halone : ∀ mode, (⟨⟨symbolKind c, String.ofList [c]⟩, rest.map Char.toUpper, mode⟩ : Piece) =
      capitals ⟨⟨symbolKind c, String.ofList [c]⟩, rest, mode⟩ := by
    intro mode
    rw [capitals_mk, List.map_singleton, Chars.toUpper_of_not_isAlpha hc]
  cases rest with
  | nil => exact halone _
  | cons next more =>
      rw [List.map_cons, symbol, symbol, symbolKind_toUpper]
      split
      · have hjoined := ofLexeme_capitals (‹Kind›) [c, next] more
        rwa [List.map_cons, List.map_singleton, Chars.toUpper_of_not_isAlpha hc] at hjoined
      · exact halone _

theorem ofStatement_capitals (c : Char) (rest : List Char) :
    ofStatement c.toUpper (rest.map Char.toUpper) = (ofStatement c rest).capitals := by
  unfold ofStatement
  rw [Chars.isDigit_toUpper, Chars.isAlpha_toUpper, Chars.beq_toUpper rfl, Chars.beq_toUpper rfl,
    Chars.beq_toUpper rfl]
  split
  · exact number_capitals (c :: rest)
  · split
    · exact word_toUpper [] false (c :: rest)
    · rename_i halpha
      rw [Bool.not_eq_true] at halpha
      rw [Chars.toUpper_of_not_isAlpha halpha]
      split
      · exact quoted_capitals rest .statement
      · split
        · exact radix_capitals rest
        · exact symbol_capitals halpha rest

theorem ofData_capitals (c : Char) (rest : List Char) :
    ofData c.toUpper (rest.map Char.toUpper) = (ofData c rest).capitals := by
  have hitem : ∀ c : Char, (c.toUpper != ',' && c.toUpper != ':' && c.toUpper != '\n') =
      (c != ',' && c != ':' && c != '\n') := by
    intro c
    rw [Chars.bne_toUpper rfl, Chars.bne_toUpper rfl, Chars.bne_toUpper rfl]
  unfold ofData
  rw [Chars.beq_toUpper rfl, Chars.beq_toUpper rfl, Chars.beq_toUpper rfl]
  split
  · exact (capitals_mk .comma [','] rest .data).symm
  · split
    · exact (capitals_mk .colon [':'] rest .statement).symm
    · split
      · exact quoted_capitals rest .data
      · dsimp only
        rw [← List.map_cons, takeWhile_capitals hitem, dropWhile_capitals hitem, Text.trimEnd_capitals,
          capitals_mk]

end Piece

namespace Scanner

/-- The scanner of the text in capitals. -/
def capitals (scanner : Scanner) : Scanner := { scanner with rest := scanner.rest.map Char.toUpper }

/-- A step in a text in capitals finds the same token in capitals. -/
theorem next?_capitals (scanner : Scanner) :
    scanner.capitals.next? = scanner.next?.map fun found => (found.1.capitals, found.2.capitals) := by
  have hmark : ∀ c : Char, c.toUpper = endMark ↔ c = endMark := fun c => Chars.toUpper_eq_iff rfl
  have hline : ∀ c : Char, c.toUpper = '\n' ↔ c = '\n' := fun c => Chars.toUpper_eq_iff rfl
  have hend : ∀ rest : List Char, some (endOfLine, ofText (rest.map Char.toUpper)) =
      (some (endOfLine, ofText rest)).map fun found => (found.1.capitals, found.2.capitals) := by
    intro rest
    exact congrArg (fun token => some (token, _)) (capitals_ofList .eol ['\n']).symm
  obtain ⟨text, mode, lineStart⟩ := scanner
  cases mode with
  | remark =>
      change next? ⟨text.map Char.toUpper, .remark, lineStart⟩ = _
      rw [next?_remark, next?_remark, takeWhile_capitals (Chars.bne_toUpper rfl),
        dropWhile_capitals (Chars.bne_toUpper rfl), Text.trimEnd_capitals, Option.map_some, capitals_ofList]
      rfl
  | data =>
      change next? ⟨text.map Char.toUpper, .data, lineStart⟩ = _
      rw [next?_data, next?_data, dropWhile_capitals isSpace_toUpper]
      cases text.dropWhile isSpace with
      | nil => rfl
      | cons c rest =>
          simp only [List.map_cons, hmark, hline, Piece.ofData_capitals]
          split
          · rfl
          · split
            · exact hend rest
            · rfl
  | statement =>
      change next? ⟨text.map Char.toUpper, .statement, lineStart⟩ = _
      rw [next?_statement, next?_statement, dropWhile_capitals isSpace_toUpper]
      cases text.dropWhile isSpace with
      | nil => rfl
      | cons c rest =>
          simp only [List.map_cons, hmark, hline, Chars.isDigit_toUpper, Piece.ofStatement_capitals]
          split
          · rfl
          · split
            · exact hend rest
            · split
              · rw [← List.map_cons, takeWhile_capitals Chars.isDigit_toUpper,
                  dropWhile_capitals Chars.isDigit_toUpper, Option.map_some, capitals_ofList]
                rfl
              · rfl

theorem tokens_capitals (scanner : Scanner) : scanner.capitals.tokens = scanner.tokens.map Token.capitals := by
  induction scanner using tokens.induct with
  | case1 scanner hnone =>
      have hnext := next?_capitals scanner
      rw [hnone] at hnext
      rw [tokens_of_next?_eq_none hnone, tokens_of_next?_eq_none hnext]
      rfl
  | case2 scanner token after hsome ih =>
      have hnext := next?_capitals scanner
      rw [hsome] at hnext
      rw [tokens_of_next?_eq_some hsome, tokens_of_next?_eq_some hnext, List.map_cons, ih]

end Scanner

/-- **A text in capitals is scanned to the same tokens in capitals.** -/
theorem lex_upper (text : String) : lex (Text.upper text) = (lex text).map capitals := by
  have htext : Scanner.ofText (Text.upper text).toList = (Scanner.ofText text.toList).capitals := by
    rw [Text.upper, String.toList_map]
    rfl
  have hend : capitals endOfInput = endOfInput := capitals_ofList .eof []
  rw [lex, lex, htext, Scanner.tokens_capitals, List.map_append, List.map_singleton, hend]

end Token

end LineBasic
