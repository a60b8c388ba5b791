import LineBasic.Proofs.PlainText
import LineBasic.Proofs.Words

/-! Texts that spell tokens. A text spells a list of tokens if it is scanned to them in front of every
break; then texts that are put together at breaks spell the tokens of one after those of the other.
Each kind of lexeme of a listing spells its token. -/

namespace LineBasic.Token

/-- A text on one line that is scanned to the tokens, whatever stands after a break. -/
structure Spells (text : List Char) (tokens : List Token) : Prop where
  inLine : '\n' ∉ text
  scan : ∀ tail, Breaks tail → lexFragment (text ++ tail) false = tokens ++ lexFragment tail false

section Step

variable {c : Char} {rest : List Char}

@[simp]
theorem lexFragment_nil (inData : Bool) : lexFragment [] inData = [] := by
  cases inData <;> exact Scanner.tokens_of_next?_eq_none rfl

theorem lexFragment_newline (inData : Bool) (text : List Char) :
    lexFragment ('\n' :: text) inData = endOfLine :: (Scanner.ofText text).tokens := by
  cases inData <;> exact Scanner.tokens_of_next?_eq_some rfl

theorem lexFragment_space (inData : Bool) (hspace : isSpace c = true) :
    lexFragment (c :: rest) inData = lexFragment rest inData := by
  cases inData with
  | false => exact Scanner.tokens_blank hspace rest (by decide) false
  | true => exact Scanner.tokens_blank hspace rest (by decide) false

/-- A character that a token of a statement or of DATA starts with. -/
structure Starts (c : Char) : Prop where
  space : isSpace c = false
  mark : c ≠ endMark
  line : c ≠ '\n'

theorem tokens_ofStatement (hc : Starts c) :
    lexFragment (c :: rest) false =
      (Piece.ofStatement c rest).token ::
        Scanner.tokens ⟨(Piece.ofStatement c rest).rest, (Piece.ofStatement c rest).mode, false⟩ := by
  have hskip : (c :: rest).dropWhile isSpace = c :: rest := List.dropWhile_cons_of_neg (by simp [hc.space])
  exact (Scanner.Reads.statement hskip hc.mark hc.line rfl rfl).tokens_eq

theorem tokens_ofData (hc : Starts c) :
    lexFragment (c :: rest) true =
      (Piece.ofData c rest).token ::
        Scanner.tokens ⟨(Piece.ofData c rest).rest, (Piece.ofData c rest).mode, false⟩ := by
  have hskip : (c :: rest).dropWhile isSpace = c :: rest := List.dropWhile_cons_of_neg (by simp [hc.space])
  exact (Scanner.Reads.data hskip hc.mark hc.line rfl).tokens_eq

theorem starts_of_isAlpha (h : c.isAlpha = true) : Starts c := by
  rw [Chars.isAlpha_iff] at h
  have hmark : endMark.toNat = 26 := rfl
  refine ⟨?_, ?_, ?_⟩
  · simp only [isSpace, Bool.or_eq_false_iff, beq_eq_false_iff_ne, ne_eq, Chars.eq_iff]
    simp
    omega
  · rw [ne_eq, Chars.eq_iff, hmark]
    omega
  · rw [ne_eq, Chars.eq_iff]
    simp
    omega

theorem starts_of_isDigit (h : c.isDigit = true) : Starts c := by
  rw [Chars.isDigit_iff] at h
  have hmark : endMark.toNat = 26 := rfl
  refine ⟨?_, ?_, ?_⟩
  · simp only [isSpace, Bool.or_eq_false_iff, beq_eq_false_iff_ne, ne_eq, Chars.eq_iff]
    simp
    omega
  · rw [ne_eq, Chars.eq_iff, hmark]
    omega
  · rw [ne_eq, Chars.eq_iff]
    simp
    omega

end Step

namespace Spells

variable {text more : List Char} {tokens others : List Token}

theorem nil : Spells [] [] := ⟨by simp, fun _ _ => rfl⟩

/-- Texts that meet at a break spell their tokens one after the other. -/
theorem append (h : Spells text tokens) (hmore : Spells more others) (hbreak : Breaks more) :
    Spells (text ++ more) (tokens ++ others) := by
  refine ⟨by simp [h.inLine, hmore.inLine], fun tail htail => ?_⟩
  have hwhole : Breaks (more ++ tail) := by
    cases more with
    | nil => exact htail
    | cons c rest => exact breaks_cons (hbreak c rfl)
  rw [List.append_assoc, h.scan _ hwhole, hmore.scan tail htail, List.append_assoc]

theorem space (h : Spells text tokens) : Spells (' ' :: text) tokens := by
  refine ⟨by simp [h.inLine], fun tail htail => ?_⟩
  rw [List.cons_append, lexFragment_space false (by decide)]
  exact h.scan tail htail

/-- A text, a blank, and a text. -/
theorem append_space (h : Spells text tokens) (hmore : Spells more others) :
    Spells (text ++ ' ' :: more) (tokens ++ others) :=
  h.append hmore.space (breaks_cons (by decide))

theorem eq_of_nil (h : Spells text tokens) : lexFragment text false = tokens := by
  have hnil := h.scan [] breaks_nil
  rwa [List.append_nil, lexFragment_nil, List.append_nil] at hnil

end Spells

/-- The symbols that are never part of a longer one. -/
def isLone (c : Char) : Bool :=
  c == '+' || c == '-' || c == '*' || c == '/' || c == '\\' || c == '^' || c == ',' || c == ';' ||
    c == ':' || c == '(' || c == ')'

section Symbol

variable {c : Char} {rest : List Char}

/-- The token of a symbol of one character. -/
def ofSymbol (c : Char) : Token := ⟨Piece.symbolKind c, String.ofList [c]⟩

theorem lexFragment_lone (h : isLone c = true) :
    lexFragment (c :: rest) false = ofSymbol c :: lexFragment rest false := by
  have hpiece : Starts c ∧ Piece.ofStatement c rest = ⟨ofSymbol c, rest, .statement⟩ := by
    simp only [isLone, Bool.or_eq_true, beq_iff_eq, or_assoc] at h
    rcases h with rfl | rfl | rfl | rfl | rfl | rfl | rfl | rfl | rfl | rfl | rfl <;>
      exact ⟨⟨by decide, by decide, by decide⟩, by cases rest <;> rfl⟩
  rw [tokens_ofStatement hpiece.1, hpiece.2]
  rfl

theorem Spells.lone {text : List Char} {tokens : List Token} (h : isLone c = true)
    (htext : Spells text tokens) : Spells (c :: text) (ofSymbol c :: tokens) := by
  refine ⟨?_, fun tail htail => ?_⟩
  · rw [List.mem_cons, not_or]
    refine ⟨?_, htext.inLine⟩
    rintro rfl
    cases h
  · rw [List.cons_append, lexFragment_lone h, htext.scan tail htail, List.cons_append]

end Symbol

/-- A line feed in a text is always scanned as one: a text is on one line if none of its tokens ends
a line. -/
theorem spells_of_scan {text : List Char} {tokens : List Token}
    (hkind : ∀ token ∈ tokens, token.kind ≠ .eol)
    (h : ∀ tail, Breaks tail → lexFragment (text ++ tail) false = tokens ++ lexFragment tail false) :
    Spells text tokens := by
  refine ⟨fun hmem => ?_, h⟩
  obtain ⟨before, after, rfl⟩ := List.append_of_mem hmem
  -- What is scanned up to the line feed does not depend on what follows the text.
  have hscan : ∀ tail, Breaks tail → (∀ token ∈ lexFragment tail false, token.kind ≠ .eol) →
      lexFragment before false = tokens ++ lexFragment tail false := by
    intro tail htail hline
    have hwhole := h tail htail
    rw [List.append_assoc, List.cons_append] at hwhole
    rcases Scanner.tokens_extend_newline_cases (after ++ tail) ⟨before, .statement, false⟩ with
      htokens | ⟨-, htokens⟩
    · have hmem : endOfLine ∈ tokens ++ lexFragment tail false := by
        rw [← hwhole]
        change endOfLine ∈ Scanner.tokens (Scanner.extend ⟨before, .statement, false⟩ ('\n' :: (after ++ tail)))
        rw [htokens]
        simp
      rcases List.mem_append.mp hmem with hmem | hmem
      · exact absurd rfl (hkind _ hmem)
      · exact absurd rfl (hline _ hmem)
    · rw [← hwhole]
      exact htokens.symm
  have hcolon : lexFragment [':'] false = [ofSymbol ':'] := by
    rw [lexFragment_lone (by decide), lexFragment_nil]
  have hnone := hscan [] breaks_nil (by simp)
  have hsome := hscan [':'] (breaks_cons (by decide)) (by rw [hcolon]; decide)
  rw [hnone, hcolon, lexFragment_nil] at hsome
  simp at hsome

/-- A symbol or a word that is one piece before a break spells its token. -/
theorem spells_of_ofStatement {c : Char} {rest : List Char} {token : Token} (hc : Starts c)
    (hkind : token.kind ≠ .eol)
    (h : ∀ tail, Breaks tail → Piece.ofStatement c (rest ++ tail) = ⟨token, tail, .statement⟩) :
    Spells (c :: rest) [token] := by
  refine spells_of_scan (by simpa using hkind) fun tail htail => ?_
  rw [List.cons_append, tokens_ofStatement hc, h tail htail]
  rfl

section Word

theorem ofStatement_of_isAlpha {c : Char} (h : c.isAlpha = true) (rest : List Char) :
    Piece.ofStatement c rest = Piece.word [] false (c :: rest) := by
  have hdigit : (c.isDigit || c == '.') = false := by
    rw [Chars.isAlpha_iff] at h
    rw [Bool.or_eq_false_iff, beq_eq_false_iff_ne, ne_eq, Chars.eq_iff]
    refine ⟨?_, by simp; omega⟩
    rw [← Bool.not_eq_true, Chars.isDigit_iff]
    omega
  rw [Piece.ofStatement, hdigit, if_neg Bool.false_ne_true, if_pos h]

theorem spells_name {text : List Char} (h : IsName text) : Spells text [⟨.ident, String.ofList text⟩] := by
  obtain ⟨c, rest, rfl, hc⟩ := h.head
  refine spells_of_ofStatement (starts_of_isAlpha hc) (by simp) fun tail htail => ?_
  rw [ofStatement_of_isAlpha hc, Piece.word_append htail, h.whole]
  rfl

/-- A reserved word and the mode it leaves. -/
theorem tokens_keyword (keyword : Keyword) {tail : List Char} (htail : Breaks tail) :
    lexFragment (keyword.spelling.toList ++ tail) false =
      ofKeyword keyword :: Scanner.tokens ⟨tail, Piece.modeAfter keyword, false⟩ := by
  obtain ⟨-, hletters⟩ := keyword.capitals_spelling
  have hword := Piece.word_spelling keyword
  cases hspelling : keyword.spelling.toList with
  | nil =>
      rw [hspelling] at hword
      cases keyword <;> cases hword
  | cons c rest =>
      rw [hspelling] at hword hletters
      have hc : c.isAlpha = true := by
        rw [List.all_cons, Bool.and_eq_true] at hletters
        exact hletters.1
      rw [List.cons_append, tokens_ofStatement (starts_of_isAlpha hc), ofStatement_of_isAlpha hc,
        Piece.word_append htail, hword]
      rfl

theorem spells_keyword (keyword : Keyword) (h : Piece.modeAfter keyword = .statement) :
    Spells keyword.spelling.toList [ofKeyword keyword] := by
  refine spells_of_scan (by simp [ofKeyword]) fun tail htail => ?_
  rw [tokens_keyword keyword htail, h]
  rfl

/-- A remark may follow its reserved word without a break. -/
theorem lexFragment_remark (text : List Char) :
    lexFragment ('R' :: 'E' :: 'M' :: text) false =
      ofKeyword .REM :: Scanner.tokens ⟨text, .remark, false⟩ := by
  have hlongest : Piece.longestKeyword? ['R', 'E', 'M'] text = some (.REM, 0) := by
    have hword : Keyword.ofWord? (String.ofList ['R', 'E', 'M']) = some .REM :=
      Keyword.ofWord?_eq_some_iff.mpr rfl
    rw [Piece.longestKeyword?, hword, Option.isSome_some, if_pos rfl]
    dsimp only
    rw [List.range_succ_eq_map, List.reverse_cons, List.findSome?_append]
    have hlonger : (((List.range ((text.takeWhile Char.isAlpha).take 8).length).map Nat.succ).reverse.findSome?
        fun n => (Keyword.ofWord? (String.ofList (['R', 'E', 'M'] ++
          ((text.takeWhile Char.isAlpha).take 8).take n))).map fun keyword => (keyword, n)) = none := by
      rw [List.findSome?_eq_none_iff]
      intro n hn
      obtain ⟨m, hm, rfl⟩ := List.mem_map.mp (List.mem_reverse.mp hn)
      rw [List.mem_range] at hm
      have hne : ((text.takeWhile Char.isAlpha).take 8).take m.succ ≠ [] := by
        rw [ne_eq, ← List.length_eq_zero_iff, List.length_take]
        omega
      have hnone := Keyword.ofWord?_remark hne
      rw [Option.map_eq_none_iff]
      exact hnone
    rw [hlonger]
    simp [hword]
  have hRE : ∀ word ∈ [['R'], ['R', 'E']], Keyword.ofWord? (String.ofList word) = none := by
    simp only [Keyword.ofWord?_eq_ofLetters?]
    decide
  have hpiece : Piece.ofStatement 'R' ('E' :: 'M' :: text) = ⟨ofKeyword .REM, text, .remark⟩ := by
    have hR := fun rest => Piece.longestKeyword?_eq_none (hRE ['R'] (by simp)) rest
    have hE := fun rest => Piece.longestKeyword?_eq_none (hRE ['R', 'E'] (by simp)) rest
    rw [ofStatement_of_isAlpha (by decide), Piece.word]
    simp only [isSigil, Piece.word, Piece.goesOn, List.reverse_cons, List.reverse_nil, List.nil_append,
      List.cons_append, hR, hE, hlongest]
    rfl
  rw [tokens_ofStatement (starts_of_isAlpha (by decide)), hpiece]

end Word

section Literal

variable {text whole fraction sigil tail : List Char}

/-- Whether a number that stands in front is left as it is. -/
def EndsNumber (tail : List Char) : Prop :=
  ∀ c ∈ tail.head?, c.isDigit = false ∧ c.isAlpha = false ∧ c ≠ '.' ∧ isSigil c = false

theorem Breaks.endsNumber (h : Breaks tail) : EndsNumber tail := by
  intro c hc
  obtain ⟨ha, hd, hpoint, hsigil, -⟩ := isBreak_iff.mp (h c hc)
  exact ⟨hd, ha, hpoint, hsigil⟩

/-- The sigils that numbers are listed with. -/
def IsSuffix (sigil : List Char) : Prop := sigil = [] ∨ sigil = ['!'] ∨ sigil = ['#']

theorem spanMantissa_plain (h : Number.IsPlain text whole fraction)
    (htail : ∀ c ∈ tail.head?, c.isDigit = false ∧ c ≠ '.') :
    Number.spanMantissa (text ++ tail) = (text, tail) := by
  have hdigit : ∀ c ∈ tail.head?, c.isDigit = false := fun c hc => (htail c hc).1
  unfold Number.spanMantissa
  rw [takeWhile_append_of_head hdigit, dropWhile_append_of_head hdigit, h.takeWhile]
  rcases h.dropWhile with ⟨hdrop, hnil⟩ | hdrop
  · have htext : text = whole := by
      rw [← List.takeWhile_append_dropWhile (p := Char.isDigit) (l := text), hdrop, h.takeWhile,
        List.append_nil]
    rw [hdrop, List.nil_append, htext]
    split
    · exact absurd rfl (htail '.' rfl).2
    · rfl
  · have htext : text = whole ++ '.' :: fraction := by
      rw [← h.takeWhile, ← hdrop, List.takeWhile_append_dropWhile]
    rw [hdrop]
    change (whole ++ '.' :: (fraction ++ tail).takeWhile Char.isDigit,
      (fraction ++ tail).dropWhile Char.isDigit) = _
    rw [takeWhile_append_of_head hdigit, dropWhile_append_of_head hdigit, h.fraction_takeWhile.1,
      h.fraction_takeWhile.2, List.nil_append, ← htext]

theorem spanExponent_of_head (h : ∀ c ∈ tail.head?, c.isAlpha = false) :
    spanExponent tail = ([], tail) := by
  cases tail with
  | nil => rfl
  | cons c rest =>
      have ha := h c rfl
      have hmark : ¬(c.toUpper == 'E' || c.toUpper == 'D') = true := by
        rw [Chars.toUpper_of_not_isAlpha ha, Bool.or_eq_true, beq_iff_eq, beq_iff_eq]
        rintro (rfl | rfl) <;> cases ha
      simp only [spanExponent, if_neg hmark]

theorem spanNumberSigil_suffix (hsigil : IsSuffix sigil) (htail : EndsNumber tail) :
    spanNumberSigil (sigil ++ tail) = (sigil, tail) := by
  rcases hsigil with rfl | rfl | rfl
  · cases tail with
    | nil => rfl
    | cons c rest =>
        obtain ⟨-, -, -, hc⟩ := htail c rfl
        simp only [isSigil, Bool.or_eq_false_iff] at hc
        simp only [List.nil_append, spanNumberSigil, hc.1.2, hc.2, hc.1.1.2]
        rfl
  · rfl
  · rfl

/-- The token of a number as it is listed. -/
def ofNumber (text : List Char) : Token := ⟨numberKind text, String.ofList text⟩

theorem lexFragment_number (h : Number.IsPlain text whole fraction) (hsigil : IsSuffix sigil)
    (htail : EndsNumber tail) :
    lexFragment (text ++ sigil ++ tail) false = ofNumber (text ++ sigil) :: lexFragment tail false := by
  have hhead : ∀ c ∈ (sigil ++ tail).head?, c.isDigit = false ∧ c.isAlpha = false ∧ c ≠ '.' := by
    intro c hc
    rcases hsigil with rfl | rfl | rfl
    · obtain ⟨hd, ha, hpoint, -⟩ := htail c hc
      exact ⟨hd, ha, hpoint⟩
    · cases hc
      decide
    · cases hc
      decide
  have hspan : spanNumber (text ++ (sigil ++ tail)) = (text ++ sigil, tail) := by
    unfold spanNumber
    rw [spanMantissa_plain h fun c hc => ⟨(hhead c hc).1, (hhead c hc).2.2⟩]
    dsimp only
    rw [spanExponent_of_head fun c hc => (hhead c hc).2.1, ite_self]
    dsimp only
    rw [spanNumberSigil_suffix hsigil htail, List.append_nil]
  obtain ⟨c, rest, htext, hdigit⟩ := h.head
  have hnumber : Piece.number (c :: (rest ++ (sigil ++ tail))) =
      Piece.ofLexeme (numberKind (text ++ sigil)) (text ++ sigil) tail := by
    rw [← List.cons_append, ← htext, Piece.number, hspan]
  have hpiece : Piece.ofStatement c (rest ++ (sigil ++ tail)) =
      Piece.ofLexeme (numberKind (text ++ sigil)) (text ++ sigil) tail := by
    rw [← hnumber, Piece.ofStatement, hdigit]
    rfl
  rw [List.append_assoc, htext, List.cons_append, tokens_ofStatement (starts_of_isDigit hdigit), hpiece,
    htext]
  rfl

theorem spells_number (h : Number.IsPlain text whole fraction) (hsigil : IsSuffix sigil) :
    Spells (text ++ sigil) [ofNumber (text ++ sigil)] := by
  refine spells_of_scan ?_ fun _ htail => lexFragment_number h hsigil htail.endsNumber
  simpa [ofNumber] using ne_eol_of_isFrame (numberKind_isFrame (text ++ sigil))

/-- The digits of a natural are a plain text. -/
theorem isPlain_toDigits (n : Nat) : Number.IsPlain (Nat.toDigits 10 n) (Nat.toDigits 10 n) [] :=
  ⟨List.ne_nil_of_length_pos Nat.length_toDigits_pos, Number.isDigit_of_mem_toDigits,
    fun _ hc => absurd hc List.not_mem_nil, .inl ⟨rfl, rfl⟩⟩

theorem spells_digits (n : Nat) : Spells (Nat.toDigits 10 n) [ofNumber (Nat.toDigits 10 n)] := by
  have h := spells_number (isPlain_toDigits n) (.inl rfl)
  rwa [List.append_nil] at h

/-- A string in quotes, whatever follows it. -/
theorem quoted_closed (h : ∀ c ∈ text, c ≠ '"' ∧ c ≠ '\n') (mode : Mode) :
    Piece.quoted (text ++ '"' :: tail) mode = ⟨⟨.text, String.ofList text⟩, tail, mode⟩ := by
  have hbody : ∀ c ∈ text, (c != '"' && c != '\n') = true := by
    intro c hc
    simp [h c hc]
  unfold Piece.quoted
  rw [List.takeWhile_append_of_pos hbody, List.dropWhile_append_of_pos hbody]
  simp

theorem lexFragment_quoted (h : ∀ c ∈ text, c ≠ '"' ∧ c ≠ '\n') :
    lexFragment ('"' :: (text ++ '"' :: tail)) false =
      ⟨.text, String.ofList text⟩ :: lexFragment tail false := by
  have hpiece : Piece.ofStatement '"' (text ++ '"' :: tail) =
      ⟨⟨.text, String.ofList text⟩, tail, .statement⟩ := quoted_closed h .statement
  rw [tokens_ofStatement ⟨by decide, by decide, by decide⟩, hpiece]
  rfl

theorem spells_quoted (h : ∀ c ∈ text, c ≠ '"' ∧ c ≠ '\n') :
    Spells ('"' :: (text ++ ['"'])) [⟨.text, String.ofList text⟩] := by
  refine spells_of_scan (by simp) fun tail _ => ?_
  rw [List.cons_append, List.append_assoc]
  exact lexFragment_quoted h

/-- A number by its bits. -/
theorem spells_hex (hne : text ≠ []) (h : ∀ c ∈ text, isHexDigit c = true) :
    Spells ('&' :: 'H' :: text) [⟨.hex, String.ofList ('&' :: 'H' :: text)⟩] := by
  refine spells_of_ofStatement ⟨by decide, by decide, by decide⟩ (by simp) fun tail htail => ?_
  change Piece.radix ('H' :: (text ++ tail)) = _
  have hempty : text.isEmpty = false := List.isEmpty_eq_false_iff.mpr hne
  rw [Piece.radix, if_pos (by decide), takeWhile_append_of_head htail.isHexDigit,
    dropWhile_append_of_head htail.isHexDigit, List.takeWhile_eq_self_iff.mpr h,
    List.dropWhile_eq_nil_iff.mpr h]
  dsimp only
  rw [hempty]
  rfl

end Literal

end LineBasic.Token
