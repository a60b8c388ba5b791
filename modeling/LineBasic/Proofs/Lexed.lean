import Mathlib.Data.List.DropRight
import LineBasic.Proofs.Lines
import LineBasic.Proofs.ListedCommand

/-! The tokens of a line as scanning leaves them. A name is one in capitals too, a quoted text has no
quote inside, a constant has no sign, an item of DATA is trimmed and has no separator, and nothing
follows the text of a remark. -/

namespace LineBasic

namespace Token

/-- What a token of a statement is like. -/
structure Sound (token : Token) : Prop where
  inLine : token.kind.endsLine = false
  verbatim : token.kind ≠ .raw
  name : token.kind = .ident → IsName (token.literal.toList.map Char.toUpper)
  quoted : token.kind = .text → Quotable token.literal
  unsigned : token.kind.isNumber = true → ∀ c ∈ token.literal.toList.head?, c ≠ '-'

/-- What a token of a DATA statement is like. -/
def DataSound (token : Token) : Prop :=
  match token.kind with
  | .comma | .colon | .illegal => True
  | .text => Quotable token.literal
  | .raw => (Datum.raw token.literal).Legible
  | _ => False

theorem DataSound.inLine {token : Token} (h : token.DataSound) : token.kind.endsLine = false := by
  unfold DataSound at h
  split at h <;> rename_i hkind <;> first | (rw [hkind]; rfl) | exact absurd h id

/-- The mode in which the text after a token of a statement is read. -/
def Kind.modeAfter : Kind → Mode
  | .keyword word => Piece.modeAfter word
  | _ => .statement

/-- The tokens of the rest of a line, by the mode it is read in. -/
inductive Lexed : Mode → List Token → Prop
  | nil (mode : Mode) : Lexed mode []
  | statement {token : Token} {rest : List Token} (h : token.Sound)
      (hrest : Lexed token.kind.modeAfter rest) : Lexed .statement (token :: rest)
  | data {token : Token} {rest : List Token} (h : token.DataSound)
      (hrest : Lexed (if token.kind = .colon then .statement else .data) rest) :
      Lexed .data (token :: rest)
  | remark {token : Token} (hkind : token.kind = .raw) (h : (Command.remark token.literal).Legible) :
      Lexed .remark [token]

namespace Piece

/-- The kinds of tokens whose text is not looked at. -/
def isMark : Kind → Bool
  | .eol | .eof | .raw | .ident | .text => false
  | kind => !kind.isNumber

theorem sound_of_isMark {token : Token} (h : isMark token.kind = true) : token.Sound := by
  have hnumber : token.kind.isNumber = false := by
    cases hkind : token.kind <;> rw [hkind] at h <;> first | rfl | cases h
  refine ⟨?_, ?_, ?_, ?_, ?_⟩
  · cases hkind : token.kind <;> rw [hkind] at h <;> first | rfl | cases h
  all_goals intro hkind
  · rw [hkind] at h
    cases h
  · rw [hkind] at h
    cases h
  · rw [hkind] at h
    cases h
  · rw [hnumber] at hkind
    cases hkind

/-- The first character of a constant. -/
theorem head?_spanNumber {c : Char} (h : c.isDigit = true ∨ c = '.') (rest : List Char) :
    (spanNumber (c :: rest)).1.head? = some c := by
  have hmantissa : (Number.spanMantissa (c :: rest)).1.head? = some c := by
    unfold Number.spanMantissa
    rcases h with h | rfl
    · rw [List.takeWhile_cons_of_pos h]
      dsimp only
      split <;> rfl
    · rfl
  unfold spanNumber
  dsimp only
  cases hspan : (Number.spanMantissa (c :: rest)).1 with
  | nil =>
      rw [hspan] at hmantissa
      cases hmantissa
  | cons d more =>
      rw [hspan] at hmantissa
      exact hmantissa

theorem sound_number {c : Char} (h : c.isDigit = true ∨ c = '.') (rest : List Char) :
    (number (c :: rest)).token.Sound ∧
      (number (c :: rest)).mode = (number (c :: rest)).token.kind.modeAfter := by
  have hkind := numberKind_cases (spanNumber (c :: rest)).1
  change Token.Sound ⟨numberKind (spanNumber (c :: rest)).1, String.ofList (spanNumber (c :: rest)).1⟩ ∧
    Mode.statement = (numberKind (spanNumber (c :: rest)).1).modeAfter
  have hsign : c ≠ '-' := by
    rintro rfl
    rcases h with h | h <;> revert h <;> decide
  generalize numberKind (spanNumber (c :: rest)).1 = kind at hkind
  rcases hkind with rfl | hkind
  · exact ⟨sound_of_isMark rfl, rfl⟩
  · refine ⟨⟨Reader.endsLine_of_isNumber hkind, ?_, ?_, ?_, ?_⟩, ?_⟩
    · rintro rfl
      cases hkind
    · rintro rfl
      cases hkind
    · rintro rfl
      cases hkind
    · intro _ d hd
      rw [String.toList_ofList, head?_spanNumber h] at hd
      rw [← Option.some.inj hd]
      exact hsign
    · cases kind with
      | keyword word => cases hkind
      | _ => rfl

theorem word_cases (taken : List Char) (digitSeen : Bool) (text : List Char) :
    ((word taken digitSeen text).token.kind = .ident ∧ (word taken digitSeen text).mode = .statement) ∨
      ∃ keyword, (word taken digitSeen text).token.kind = .keyword keyword ∧
        (word taken digitSeen text).mode = modeAfter keyword := by
  have hreads := readsWord_word taken digitSeen text
  generalize word taken digitSeen text = piece at hreads ⊢
  induction hreads with
  | ended | sigil | name => exact .inl ⟨rfl, rfl⟩
  | reserved => exact .inr ⟨_, rfl, rfl⟩
  | longer _ _ _ _ ih => exact ih

theorem sound_word {c : Char} (h : c.isAlpha = true) (rest : List Char) :
    (word [] false (c :: rest)).token.Sound ∧
      (word [] false (c :: rest)).mode = (word [] false (c :: rest)).token.kind.modeAfter := by
  rcases word_cases [] false (c :: rest) with ⟨hkind, hmode⟩ | ⟨keyword, hkind, hmode⟩
  · refine ⟨⟨by rw [hkind]; rfl, by simp [hkind], fun _ => IsName.of_word h hkind, by simp [hkind],
      by simp [hkind, Kind.isNumber]⟩, ?_⟩
    rw [hkind, hmode]
    rfl
  · refine ⟨sound_of_isMark (by rw [hkind]; rfl), ?_⟩
    rw [hkind, hmode]
    rfl

theorem quotable_body (text : List Char) :
    Quotable (String.ofList (text.takeWhile fun c => c != '"' && c != '\n')) := by
  intro c hc
  rw [String.toList_ofList] at hc
  simpa using List.mem_takeWhile_imp hc

theorem sound_quoted (text : List Char) (mode : Mode) :
    (quoted text mode).token.Sound ∧ (quoted text mode).mode = mode ∧
      (quoted text mode).token.DataSound ∧ (quoted text mode).token.kind ≠ .colon ∧
      (quoted text mode).token.kind.modeAfter = .statement := by
  unfold quoted
  dsimp only
  split
  · exact ⟨⟨rfl, by simp, by simp, fun _ => quotable_body text, by simp [Kind.isNumber]⟩, rfl,
      quotable_body text, by simp, rfl⟩
  · exact ⟨sound_of_isMark rfl, rfl, trivial, by simp, rfl⟩

theorem sound_radix (text : List Char) :
    (radix text).token.Sound ∧ (radix text).mode = (radix text).token.kind.modeAfter := by
  have hhead : ∀ kind more rest, (kind = .illegal ∨ kind = .hex ∨ kind = .octal) →
      (ofLexeme kind ('&' :: more) rest).token.Sound ∧
        (ofLexeme kind ('&' :: more) rest).mode = (ofLexeme kind ('&' :: more) rest).token.kind.modeAfter := by
    intro kind more rest hkind
    unfold ofLexeme
    rcases hkind with rfl | rfl | rfl
    · exact ⟨sound_of_isMark rfl, rfl⟩
    · exact ⟨⟨rfl, by simp, by simp, by simp, by simp⟩, rfl⟩
    · exact ⟨⟨rfl, by simp, by simp, by simp, by simp⟩, rfl⟩
  unfold radix
  split
  · split
    · exact hhead _ _ _ (by split <;> simp)
    · split
      · exact hhead _ _ _ (by split <;> simp)
      · split
        · exact hhead _ _ _ (by simp)
        · exact hhead _ _ _ (by simp)
  · exact hhead _ _ _ (by simp)

theorem sound_symbolKind (c : Char) :
    isMark (symbolKind c) = true ∧
      (if c = remarkMark then Mode.remark else .statement) = (symbolKind c).modeAfter := by
  by_cases hc : c = remarkMark
  · subst hc
    exact ⟨rfl, rfl⟩
  · rw [if_neg hc]
    unfold symbolKind
    split <;> first | exact ⟨rfl, rfl⟩ | (rw [if_neg hc]; exact ⟨rfl, rfl⟩)

theorem sound_symbol (c : Char) (rest : List Char) :
    (symbol c rest).token.Sound ∧ (symbol c rest).mode = (symbol c rest).token.kind.modeAfter := by
  obtain ⟨hmark, hmode⟩ := sound_symbolKind c
  unfold symbol
  dsimp only
  split
  · split
    · rename_i kind hjoined
      unfold Kind.joined? at hjoined
      split at hjoined <;> cases hjoined <;> exact ⟨sound_of_isMark rfl, rfl⟩
    · exact ⟨sound_of_isMark hmark, hmode⟩
  · exact ⟨sound_of_isMark hmark, hmode⟩

theorem sound_ofStatement (c : Char) (rest : List Char) :
    (ofStatement c rest).token.Sound ∧
      (ofStatement c rest).mode = (ofStatement c rest).token.kind.modeAfter := by
  unfold ofStatement
  split
  · rename_i hnumber
    exact sound_number (by simpa using hnumber) rest
  · split
    · rename_i halpha
      exact sound_word halpha rest
    · split
      · obtain ⟨hsound, hmode, -, -, hafter⟩ := sound_quoted rest .statement
        exact ⟨hsound, by rw [hmode, hafter]⟩
      · split
        · exact sound_radix rest
        · exact sound_symbol c rest

theorem trimEnd_mem {text : List Char} {c : Char} (h : c ∈ Text.trimEnd text) : c ∈ text := by
  rw [← Text.dropEndWhile_append_takeWhile Text.isBlank text]
  exact List.mem_append_left _ h

theorem trimEnd_trimEnd (text : List Char) : Text.trimEnd (Text.trimEnd text) = Text.trimEnd text := by
  unfold Text.trimEnd Text.dropEndWhile
  rw [List.reverse_reverse, List.dropWhile_idempotent]

theorem legible_remark (text : List Char) :
    (Command.remark (String.ofList (Text.trimEnd (text.takeWhile (· != '\n'))))).Legible := by
  refine ⟨?_, ?_⟩
  · rw [String.toList_ofList]
    intro hline
    have hchar := List.mem_takeWhile_imp (trimEnd_mem hline)
    simp at hchar
  · rw [String.toList_ofList, trimEnd_trimEnd]

theorem legible_item {c : Char} (hc : Starts c) (hquote : c ≠ '"') (rest : List Char) :
    (Datum.raw (String.ofList (Text.trimEnd
      ((c :: rest).takeWhile fun d => d != ',' && d != ':' && d != '\n')))).Legible := by
  refine ⟨?_, ?_, ?_⟩
  · intro d hd
    rw [String.toList_ofList] at hd
    have hchar := List.mem_takeWhile_imp (trimEnd_mem hd)
    simpa [and_assoc] using hchar
  · rw [String.toList_ofList, trimEnd_trimEnd]
  · intro d hd
    rw [String.toList_ofList] at hd
    have hprefix := Text.dropEndWhile_append_takeWhile Text.isBlank
      ((c :: rest).takeWhile fun d => d != ',' && d != ':' && d != '\n')
    have hfirst : ((c :: rest).takeWhile fun d => d != ',' && d != ':' && d != '\n').head? = some d := by
      rw [← hprefix, List.head?_append, ← Text.trimEnd, hd]
      rfl
    rw [List.takeWhile_cons] at hfirst
    split at hfirst
    · obtain rfl := Option.some.inj hfirst
      exact ⟨hc, hquote⟩
    · cases hfirst

theorem sound_ofData {c : Char} (hc : Starts c) (rest : List Char) :
    (ofData c rest).token.DataSound ∧
      (ofData c rest).mode = if (ofData c rest).token.kind = .colon then .statement else .data := by
  unfold ofData
  split
  · exact ⟨trivial, rfl⟩
  · split
    · exact ⟨trivial, rfl⟩
    · split
      · obtain ⟨-, hmode, hsound, hkind, -⟩ := sound_quoted rest .data
        exact ⟨hsound, by rw [hmode, if_neg hkind]⟩
      · rename_i hquote
        exact ⟨legible_item hc (by simpa using hquote) rest, rfl⟩

end Piece

/-- The tokens of a line: those of its statements, after its number, if it has one. -/
def LineLexed (line : List Token) : Prop :=
  Lexed .statement line ∨
    ∃ number rest, line = number :: rest ∧ number.kind = .lineNumber ∧ Lexed .statement rest

end Token

open Token

theorem splitLines_endOfLine (tokens : List Token) :
    splitLines (endOfLine :: tokens) = [] :: splitLines tokens := rfl

/-- A remark is the last token of its line. -/
theorem splitLines_after_remark (text : List Char) :
    ∃ others, splitLines (Scanner.tokens ⟨text.dropWhile (· != '\n'), .statement, false⟩) = [] :: others := by
  cases htext : text.dropWhile (· != '\n') with
  | nil => exact ⟨[], by rw [Scanner.tokens_of_next?_eq_none rfl]; rfl⟩
  | cons c rest =>
      have hc := List.head?_dropWhile_not (· != '\n') text
      rw [htext] at hc
      obtain rfl : c = '\n' := by simpa using hc
      have htokens := lexFragment_newline false rest
      change Scanner.tokens ⟨'\n' :: rest, .statement, false⟩ = _ at htokens
      exact ⟨_, by rw [htokens, splitLines_endOfLine]⟩

theorem isSpace_of_dropWhile {text rest : List Char} {c : Char} (h : text.dropWhile isSpace = c :: rest) :
    isSpace c = false := by
  have hhead := List.head?_dropWhile_not isSpace text
  rw [h] at hhead
  simpa using hhead

/-- The lines of a text from a position on. -/
structure LinesLexed (scanner : Scanner) (first : List Token) (others : List (List Token)) : Prop where
  lines : splitLines scanner.tokens = first :: others
  first : if scanner.lineStart then LineLexed first else Lexed scanner.mode first
  others : ∀ line ∈ others, LineLexed line

theorem exists_linesLexed (scanner : Scanner) (hmode : scanner.lineStart = true → scanner.mode = .statement) :
    ∃ first others, LinesLexed scanner first others := by
  induction scanner using Scanner.tokens.induct with
  | case1 scanner hnone =>
      refine ⟨[], [], ?_, ?_, by simp⟩
      · rw [Scanner.tokens_of_next?_eq_none hnone]
        rfl
      · split
        · exact .inl (.nil _)
        · exact .nil _
  | case2 scanner token after hsome ih =>
      have htokens := Scanner.tokens_of_next?_eq_some hsome
      have hnotStart : scanner.mode ≠ .statement → scanner.lineStart = false :=
        fun hother => Bool.eq_false_iff.mpr fun hstart => hother (hmode hstart)
      cases Scanner.reads_of_next? hsome with
      | remark hremark =>
          have hstart := hnotStart (by simp [hremark])
          rw [hstart] at htokens ih
          obtain ⟨first, others, hlines⟩ := ih fun hfalse => absurd hfalse Bool.false_ne_true
          obtain ⟨more, hmore⟩ := splitLines_after_remark scanner.rest
          obtain ⟨rfl, rfl⟩ := List.cons.inj (hlines.lines.symm.trans hmore)
          refine ⟨_, _, by rw [htokens, splitLines_cons (by simp) hmore], ?_, hlines.others⟩
          rw [hstart, if_neg Bool.false_ne_true, hremark]
          exact .remark rfl (Piece.legible_remark _)
      | lineEnd =>
          obtain ⟨first, others, hlines⟩ := ih fun _ => rfl
          refine ⟨[], first :: others, by rw [htokens, splitLines_endOfLine, hlines.lines], ?_,
            List.forall_mem_cons.mpr ⟨hlines.first, hlines.others⟩⟩
          split
          · exact .inl (.nil _)
          · exact .nil _
      | @data c rest hskip hmark hline hdata =>
          have hstart := hnotStart (by simp [hdata])
          obtain ⟨hsound, hafter⟩ := Piece.sound_ofData ⟨isSpace_of_dropWhile hskip, hmark, hline⟩ rest
          rw [hstart] at htokens ih
          obtain ⟨first, others, hlines⟩ := ih fun hfalse => absurd hfalse Bool.false_ne_true
          refine ⟨_, _, by rw [htokens, splitLines_cons (Kind.ne_of_endsLine hsound.inLine rfl) hlines.lines], ?_, hlines.others⟩
          have hfirst : Lexed (Piece.ofData c rest).mode first := hlines.first
          rw [hstart, if_neg Bool.false_ne_true, hdata]
          exact .data hsound (hafter ▸ hfirst)
      | lineNumber _ _ hstart =>
          obtain ⟨first, others, hlines⟩ := ih fun hfalse => absurd hfalse Bool.false_ne_true
          refine ⟨_, _, by rw [htokens, splitLines_cons (by simp) hlines.lines], ?_, hlines.others⟩
          rw [hstart, if_pos rfl]
          exact .inr ⟨_, first, rfl, rfl, hlines.first⟩
      | @statement c rest _ _ _ hstatement =>
          obtain ⟨hsound, hafter⟩ := Piece.sound_ofStatement c rest
          obtain ⟨first, others, hlines⟩ := ih fun hfalse => absurd hfalse Bool.false_ne_true
          refine ⟨_, _, by rw [htokens, splitLines_cons (Kind.ne_of_endsLine hsound.inLine rfl) hlines.lines], ?_, hlines.others⟩
          have hfirst : Lexed (Piece.ofStatement c rest).mode first := hlines.first
          have hwhole : Lexed .statement ((Piece.ofStatement c rest).token :: first) :=
            .statement hsound (hafter ▸ hfirst)
          split
          · exact .inl hwhole
          · rw [hstatement]
            exact hwhole

/-- **Every line of a text is scanned to the tokens of statements, after its number.** -/
theorem lineLexed_of_mem {text : List Char} {line : List Token}
    (h : line ∈ splitLines (Scanner.ofText text).tokens) : LineLexed line := by
  obtain ⟨first, others, hlines⟩ := exists_linesLexed (Scanner.ofText text) fun _ => rfl
  rw [hlines.lines] at h
  rcases List.mem_cons.mp h with rfl | hmem
  · exact hlines.first
  · exact hlines.others line hmem

namespace Token

/-- A name that a scanner finds is one in capitals. -/
theorem Scanner.isName_of_mem_tokens {scanner : Scanner} {token : Token} (hmem : token ∈ scanner.tokens)
    (hkind : token.kind = .ident) : IsName (token.literal.toList.map Char.toUpper) := by
  have hstep : ∀ {scanner after : Scanner} {token : Token}, scanner.next? = some (token, after) →
      token.kind = .ident → IsName (token.literal.toList.map Char.toUpper) := by
    intro scanner after token h hident
    cases Scanner.reads_of_next? h with
    | remark | lineEnd | lineNumber => cases hident
    | @data c rest hskip hmark hline =>
        have hsound := (Piece.sound_ofData ⟨isSpace_of_dropWhile hskip, hmark, hline⟩ rest).1
        rw [DataSound, hident] at hsound
        exact absurd hsound id
    | @statement c rest => exact (Piece.sound_ofStatement c rest).1.name hident
  exact Scanner.forall_mem_tokens hstep scanner token hmem hkind

/-- A name that is found in a text is one in capitals. -/
theorem isName_of_mem_lex {text : String} {token : Token} (hmem : token ∈ lex text)
    (hkind : token.kind = .ident) : IsName (token.literal.toList.map Char.toUpper) := by
  rcases List.mem_append.mp hmem with hmem | hmem
  · exact Scanner.isName_of_mem_tokens hmem hkind
  · rw [List.mem_singleton.mp hmem] at hkind
    cases hkind

/-- A word in capitals that is scanned as a single name is the text of a name. -/
theorem IsName.of_lex {text : String} (h : lex text = [⟨.ident, text⟩, endOfInput])
    (hcapitals : Text.upper text = text) : IsName text.toList := by
  have hletters : text.toList.map Char.toUpper = text.toList := by
    have hupper := congrArg String.toList hcapitals
    rwa [Text.upper, String.toList_map] at hupper
  have hfound := isName_of_mem_lex (h ▸ List.mem_cons_self) rfl
  rwa [hletters] at hfound

end Token

end LineBasic
