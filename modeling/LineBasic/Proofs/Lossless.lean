import LineBasic.Proofs.Relist

/-! What the tokens of a text keep of it. Every step of the scanner takes a token's own text off the front
of what is left, with blanks before it and, in a remark or an item of DATA, after it. So the tokens spell
the text up to blanks, there are as many ends of lines as line feeds, and a line number stands only where
a line starts. -/

namespace LineBasic

namespace Text

/-- The characters of a text that are not blanks. -/
def solid (text : List Char) : List Char := text.filter fun c => !isBlank c

theorem solid_append (a b : List Char) : solid (a ++ b) = solid a ++ solid b := List.filter_append a b

theorem solid_eq_nil {text : List Char} (h : ∀ c ∈ text, isBlank c = true) : solid text = [] := by
  apply List.filter_eq_nil_iff.mpr
  intro c hc
  rw [h c hc]
  decide

theorem solid_trimEnd (text : List Char) : solid (trimEnd text) = solid text := by
  have hblank : solid (text.reverse.takeWhile isBlank).reverse = [] := by
    apply solid_eq_nil
    intro c hc
    exact List.mem_takeWhile_imp (List.mem_reverse.mp hc)
  calc solid (trimEnd text)
      = solid (trimEnd text) ++ solid (text.reverse.takeWhile isBlank).reverse := by
        rw [hblank, List.append_nil]
    _ = solid text := by rw [← solid_append, trimEnd, dropEndWhile_append_takeWhile]

end Text

namespace Token

section Spans

theorem spanMantissa_parts (text : List Char) :
    (Number.spanMantissa text).1 ++ (Number.spanMantissa text).2 = text := by
  have hwhole := List.takeWhile_append_dropWhile (p := Char.isDigit) (l := text)
  unfold Number.spanMantissa
  split
  · rename_i rest hrest
    rw [hrest] at hwhole
    rw [List.append_assoc, List.cons_append, List.takeWhile_append_dropWhile, hwhole]
  · exact hwhole

theorem spanExponent_parts (text : List Char) : (spanExponent text).1 ++ (spanExponent text).2 = text := by
  unfold spanExponent
  split
  · split
    · split
      · split <;> simp
      · rfl
    · rfl
  · rfl

theorem spanNumberSigil_parts (text : List Char) :
    (spanNumberSigil text).1 ++ (spanNumberSigil text).2 = text := by
  unfold spanNumberSigil
  split
  · split <;> rfl
  · rfl

theorem spanNumber_parts (text : List Char) : (spanNumber text).1 ++ (spanNumber text).2 = text := by
  unfold spanNumber
  dsimp only
  rw [List.append_assoc, spanNumberSigil_parts]
  split
  · rw [List.append_assoc, spanExponent_parts, spanMantissa_parts]
  · rw [List.append_nil, spanMantissa_parts]

end Spans

theorem display_of_kind {token : Token} (htext : token.kind ≠ .text) (heof : token.kind ≠ .eof) :
    token.display = token.literal := by
  unfold display
  split
  · exact absurd ‹_› htext
  · exact absurd ‹_› heof
  · rfl

namespace Piece

theorem word_parts (taken : List Char) (digitSeen : Bool) (text : List Char) :
    (word taken digitSeen text).token.literal.toList ++ (word taken digitSeen text).rest =
      taken.reverse ++ text := by
  have hreads := readsWord_word taken digitSeen text
  generalize word taken digitSeen text = piece at hreads ⊢
  induction hreads with
  | ended | sigil | name => simp [ofLexeme]
  | reserved => simp
  | longer _ _ _ _ ih => rw [ih, List.reverse_cons, List.append_assoc, List.singleton_append]

theorem radix_parts (text : List Char) :
    (radix text).token.literal.toList ++ (radix text).rest = '&' :: text := by
  unfold radix
  repeat' split
  all_goals simp [ofLexeme]

theorem radix_kind (text : List Char) : (radix text).token.kind ≠ .text := by
  unfold radix
  repeat' split
  all_goals
    dsimp only [ofLexeme]
    first | decide | split <;> decide

theorem symbol_parts (c : Char) (rest : List Char) :
    (symbol c rest).token.literal.toList ++ (symbol c rest).rest = c :: rest := by
  unfold symbol
  dsimp only
  repeat' split
  all_goals simp [ofLexeme]

theorem symbol_kind (c : Char) (rest : List Char) : (symbol c rest).token.kind ≠ .text := by
  have halone : symbolKind c ≠ .text := by
    intro hkind
    have hmark := (sound_symbolKind c).1
    rw [hkind] at hmark
    cases hmark
  unfold symbol
  dsimp only
  split
  · split
    · rename_i kind hjoined
      unfold Kind.joined? at hjoined
      split at hjoined <;> cases hjoined <;> simp [ofLexeme]
    · exact halone
  · exact halone

theorem quoted_parts (text : List Char) (mode : Mode) :
    (quoted text mode).token.display.toList ++ (quoted text mode).rest = '"' :: text := by
  have hbody := List.takeWhile_append_dropWhile (p := fun c => c != '"' && c != '\n') (l := text)
  unfold quoted
  dsimp only
  split
  · rename_i rest hrest
    rw [hrest] at hbody
    simp [display, hbody]
  · simp [display, hbody]

/-- A token of a statement is the text that was read for it. -/
theorem ofStatement_parts (c : Char) (rest : List Char) :
    (ofStatement c rest).token.display.toList ++ (ofStatement c rest).rest = c :: rest := by
  have heof := ne_eof_of_isFrame (ofStatement_isFrame c rest)
  revert heof
  unfold ofStatement
  split
  · intro heof
    have htext : (number (c :: rest)).token.kind ≠ .text := by
      intro hkind
      change numberKind (spanNumber (c :: rest)).1 = .text at hkind
      rcases numberKind_cases (spanNumber (c :: rest)).1 with h | h <;> rw [hkind] at h <;> cases h
    rw [display_of_kind htext heof]
    change (String.ofList (spanNumber (c :: rest)).1).toList ++ (spanNumber (c :: rest)).2 = _
    rw [String.toList_ofList, spanNumber_parts]
  · split
    · intro heof
      have htext : (word [] false (c :: rest)).token.kind ≠ .text := by
        rcases word_cases [] false (c :: rest) with ⟨hkind, -⟩ | ⟨keyword, hkind, -⟩ <;> simp [hkind]
      rw [display_of_kind htext heof, word_parts, List.reverse_nil, List.nil_append]
    · split
      · rename_i hquote
        intro _
        rw [quoted_parts, eq_of_beq hquote]
      · split
        · rename_i hmark
          intro heof
          rw [display_of_kind (radix_kind rest) heof, radix_parts, eq_of_beq hmark]
        · intro heof
          rw [display_of_kind (symbol_kind c rest) heof, symbol_parts]

/-- A token of a DATA statement is the text that was read for it, less the blanks at its end. -/
theorem solid_ofData (c : Char) (rest : List Char) :
    Text.solid (ofData c rest).token.display.toList ++ Text.solid (ofData c rest).rest =
      Text.solid (c :: rest) := by
  unfold ofData
  split
  · rename_i hcomma
    rw [← Text.solid_append, eq_of_beq hcomma]
    simp [display]
  · split
    · rename_i hcolon
      rw [← Text.solid_append, eq_of_beq hcolon]
      simp [display]
    · split
      · rename_i hquote
        rw [← Text.solid_append, quoted_parts, eq_of_beq hquote]
      · dsimp only
        rw [display_of_kind (by simp) (by simp), String.toList_ofList, Text.solid_trimEnd,
          ← Text.solid_append, List.takeWhile_append_dropWhile]

end Piece

namespace Scanner

theorem solid_dropWhile_isSpace (text : List Char) : Text.solid (text.dropWhile isSpace) = Text.solid text := by
  have hblank : Text.solid (text.takeWhile isSpace) = [] := by
    apply Text.solid_eq_nil
    intro c hc
    have hspace := List.mem_takeWhile_imp hc
    simp only [isSpace, Bool.or_eq_true, beq_iff_eq] at hspace
    obtain (rfl | rfl) | rfl := hspace <;> decide
  calc Text.solid (text.dropWhile isSpace)
      = Text.solid (text.takeWhile isSpace) ++ Text.solid (text.dropWhile isSpace) := by
        rw [hblank, List.nil_append]
    _ = Text.solid text := by rw [← Text.solid_append, List.takeWhile_append_dropWhile]

/-- A step takes a token's text off what is left, up to blanks. -/
theorem solid_of_next? {scanner after : Scanner} {token : Token} (h : scanner.next? = some (token, after)) :
    Text.solid token.display.toList ++ Text.solid after.rest = Text.solid scanner.rest := by
  cases reads_of_next? h with
  | remark =>
      rw [display_of_kind (by simp) (by simp), String.toList_ofList, Text.solid_trimEnd, ← Text.solid_append,
        List.takeWhile_append_dropWhile]
  | lineEnd _ hskip =>
      rw [← solid_dropWhile_isSpace scanner.rest, hskip]
      rfl
  | @data c rest hskip =>
      rw [← solid_dropWhile_isSpace scanner.rest, hskip]
      exact Piece.solid_ofData c rest
  | lineNumber hskip =>
      rw [← solid_dropWhile_isSpace scanner.rest, hskip, display_of_kind (by simp) (by simp),
        String.toList_ofList, ← Text.solid_append, List.takeWhile_append_dropWhile]
  | statement hskip =>
      rw [← solid_dropWhile_isSpace scanner.rest, hskip, ← Text.solid_append, Piece.ofStatement_parts]

/-- The tokens of a text without an end mark spell the text, up to blanks. -/
theorem solid_tokens (scanner : Scanner) (h : endMark ∉ scanner.rest) :
    scanner.tokens.flatMap (fun token => Text.solid token.display.toList) = Text.solid scanner.rest := by
  induction scanner using tokens.induct with
  | case1 scanner hnone =>
      rw [tokens_of_next?_eq_none hnone, List.flatMap_nil, ← solid_dropWhile_isSpace]
      obtain ⟨-, hrest | ⟨more, hrest⟩⟩ := dropWhile_isSpace_of_next?_eq_none hnone
      · rw [hrest]
        rfl
      · exact absurd ((List.dropWhile_suffix isSpace).subset (hrest ▸ List.mem_cons_self)) h
  | case2 scanner token after hsome ih =>
      have hafter := ih fun hmark => h ((suffix_of_next? hsome).subset hmark)
      rw [tokens_of_next?_eq_some hsome, List.flatMap_cons, hafter, solid_of_next? hsome]

/-- A line number is read only where a line starts, and after a step a line starts only where one was
ended. -/
theorem lineStart_of_next? {scanner after : Scanner} {token : Token}
    (hmode : scanner.lineStart = true → scanner.mode = .statement)
    (h : scanner.next? = some (token, after)) :
    (token.kind = .lineNumber → scanner.lineStart = true) ∧
      (after.lineStart = true → token.kind = .eol ∧ after.mode = .statement) := by
  have hframe : ∀ {kind : Kind}, kind.isFrame = false → kind ≠ .lineNumber := by
    rintro _ hfalse rfl
    cases hfalse
  cases reads_of_next? h with
  | remark hremark =>
      refine ⟨by simp, fun hstart => ?_⟩
      rw [hmode hstart] at hremark
      cases hremark
  | lineEnd => exact ⟨by simp [endOfLine], fun _ => ⟨rfl, rfl⟩⟩
  | @data c rest _ _ _ hdata =>
      refine ⟨fun hkind => absurd hkind (hframe (Piece.ofData_isFrame c rest)), fun hstart => ?_⟩
      rw [hmode hstart] at hdata
      cases hdata
  | lineNumber _ _ hstart => exact ⟨fun _ => hstart, fun hfalse => absurd hfalse Bool.false_ne_true⟩
  | @statement c rest =>
      exact ⟨fun hkind => absurd hkind (hframe (Piece.ofStatement_isFrame c rest)),
        fun hfalse => absurd hfalse Bool.false_ne_true⟩

/-- Where no line starts, the first token is no line number, and every later one ends a line before it. -/
theorem isChain_tokens (scanner : Scanner) (hmode : scanner.lineStart = true → scanner.mode = .statement) :
    (∀ token ∈ scanner.tokens.head?, token.kind = .lineNumber → scanner.lineStart = true) ∧
      scanner.tokens.IsChain fun before token => token.kind = .lineNumber → before.kind = .eol := by
  induction scanner using tokens.induct with
  | case1 scanner hnone =>
      rw [tokens_of_next?_eq_none hnone]
      exact ⟨by simp, .nil⟩
  | case2 scanner token after hsome ih =>
      obtain ⟨hnumber, hstart⟩ := lineStart_of_next? hmode hsome
      obtain ⟨hhead, hchain⟩ := ih fun hline => (hstart hline).2
      rw [tokens_of_next?_eq_some hsome, List.isChain_cons]
      refine ⟨by simpa using hnumber, ?_, hchain⟩
      intro next hnext hkind
      exact (hstart (hhead next hnext hkind)).1

/-- The ends of lines are the line feeds: a text is scanned line by line. -/
theorem countP_eol_tokens (text : List Char) (h : endMark ∉ text) :
    (ofText text).tokens.countP (fun token => token.kind = .eol) = text.count '\n' := by
  by_cases hline : '\n' ∈ text
  · obtain ⟨line, b, htext, hfirst⟩ := List.eq_append_cons_of_mem hline
    have hshorter : b.length < text.length := by
      rw [htext, List.length_append, List.length_cons]
      omega
    rw [htext] at h ⊢
    rw [List.mem_append, List.mem_cons, not_or, not_or] at h
    have hscan := tokens_extend_newline b (ofText line) h.1
    have hnone : (ofText line).tokens.countP (fun token => token.kind = .eol) = 0 := by
      apply List.countP_eq_zero.mpr
      intro token htoken
      simpa using kind_ne_eol (ofText line) hfirst token htoken
    have hothers := countP_eol_tokens b h.2.2
    change (ofText (line ++ '\n' :: b)).tokens = _ at hscan
    rw [hscan, List.countP_append, hnone, List.count_append, List.count_eq_zero.mpr hfirst,
      List.countP_cons_of_pos (by simp [endOfLine]), hothers, List.count_cons_self]
  · rw [List.count_eq_zero.mpr hline]
    apply List.countP_eq_zero.mpr
    intro token htoken
    simpa using kind_ne_eol (ofText text) hline token htoken
termination_by text.length

end Scanner

/-- What a list of tokens keeps of the text that it is scanned from. -/
structure Keeps (tokens : List Token) (text : String) : Prop where
  /-- The end token is the last and the only one of its kind. -/
  ends : ∃ body, tokens = body ++ [endOfInput] ∧ ∀ token ∈ body, token.kind ≠ .eof
  /-- Every line feed ends a line. -/
  lines : tokens.countP (fun token => token.kind = .eol) = text.toList.count '\n'
  /-- A line number is the first token or follows the end of a line. -/
  numbers : tokens.IsChain fun before token => token.kind = .lineNumber → before.kind = .eol
  /-- The tokens spell the text, up to blanks. -/
  spelled : Text.solid (String.join (tokens.map display)).toList = Text.solid text.toList

/-- **Scanning loses, adds and moves nothing of a text without an end mark.** -/
theorem lex_keeps (text : String) (h : endMark ∉ text.toList) : Keeps (lex text) text := by
  refine ⟨⟨_, rfl, Scanner.kind_ne_eof _⟩, ?_, ?_, ?_⟩
  · rw [lex, List.countP_append, Scanner.countP_eol_tokens _ h]
    rfl
  · rw [lex, List.isChain_append]
    refine ⟨(Scanner.isChain_tokens _ fun _ => rfl).2, .singleton _, ?_⟩
    intro last _ final hfinal hkind
    rw [← Option.some.inj hfinal] at hkind
    cases hkind
  · rw [String.toList_join, List.flatMap_map, Text.solid, List.filter_flatMap, lex, List.flatMap_append]
    change (Scanner.ofText text.toList).tokens.flatMap (fun token => Text.solid token.display.toList) ++ [] = _
    rw [Scanner.solid_tokens _ h, List.append_nil]
    rfl

/-- A remark and an item of DATA have blanks after them, reserved words stand among other letters, and no
quote closes the string. -/
def mixed : String := "10 FORI=1TO.5e+3 \t\n\n 20DATA a b \u2003, \"c:rem \r\n'tail\u00A0\n30 x&hFg<>12"

theorem lex_keeps_mixed : endMark ∉ mixed.toList ∧ Keeps (lex mixed) mixed :=
  ⟨by decide, lex_keeps mixed (by decide)⟩

end Token

end LineBasic
