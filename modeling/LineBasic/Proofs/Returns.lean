import LineBasic.Proofs.CaseBlind

/-! Carriage returns at the end of a text. They are blanks between tokens, and trimmed from a remark and
from an item of DATA; only a string without an end takes them in, and of it readers do not see the text.
So a line is read the same with the returns at its end and without them. -/

namespace LineBasic

open Token

/-- A text of carriage returns alone. -/
def Returns (tail : List Char) : Prop := ∀ c ∈ tail, c = '\r'

theorem returns_nil : Returns [] := by simp [Returns]

section Tail

variable {tail : List Char}

theorem Returns.breaks (h : Returns tail) : Breaks tail := by
  intro c hc
  rw [h c (List.mem_of_mem_head? hc)]
  rfl

/-- A run of characters that returns go on with takes all of them in, if it takes in the text, and none
otherwise. -/
theorem Returns.span {p : Char → Bool} (h : Returns tail) (hp : p '\r' = true) (text : List Char) :
    (text.dropWhile p = [] ∧ text.takeWhile p = text ∧
      (text ++ tail).takeWhile p = text ++ tail ∧ (text ++ tail).dropWhile p = []) ∨
    (text.dropWhile p ≠ [] ∧ (text ++ tail).takeWhile p = text.takeWhile p ∧
      (text ++ tail).dropWhile p = text.dropWhile p ++ tail) := by
  have htail : ∀ c ∈ tail, p c = true := by
    intro c hc
    rw [h c hc, hp]
  by_cases hall : ∀ c ∈ text, p c = true
  · left
    have hboth : ∀ c ∈ text ++ tail, p c = true := by
      intro c hc
      rcases List.mem_append.mp hc with hc | hc
      · exact hall c hc
      · exact htail c hc
    exact ⟨List.dropWhile_eq_nil_iff.mpr hall, List.takeWhile_eq_self_iff.mpr hall,
      List.takeWhile_eq_self_iff.mpr hboth, List.dropWhile_eq_nil_iff.mpr hboth⟩
  · right
    have hdrop : text.dropWhile p ≠ [] := fun hnil => hall (List.dropWhile_eq_nil_iff.mp hnil)
    have htake : ¬(text.takeWhile p).length = text.length := by
      intro hlength
      exact hall (List.takeWhile_eq_self_iff.mp ((List.takeWhile_prefix p).eq_of_length hlength))
    refine ⟨hdrop, ?_, ?_⟩
    · rw [List.takeWhile_append, if_neg htake]
    · rw [List.dropWhile_append, if_neg (by rwa [List.isEmpty_iff])]

theorem Returns.trimEnd (h : Returns tail) (text : List Char) : Text.trimEnd (text ++ tail) = Text.trimEnd text := by
  have hblank : ∀ c ∈ tail.reverse, Text.isBlank c = true := by
    intro c hc
    rw [h c (List.mem_reverse.mp hc)]
    rfl
  unfold Text.trimEnd Text.dropEndWhile
  rw [List.reverse_append, List.dropWhile_append_of_pos hblank]

theorem Returns.dropWhile_isSpace (h : Returns tail) (text : List Char) :
    (text.dropWhile isSpace = [] ∧ (text ++ tail).dropWhile isSpace = []) ∨
      (text.dropWhile isSpace ≠ [] ∧ (text ++ tail).dropWhile isSpace = text.dropWhile isSpace ++ tail) := by
  rcases h.span (p := isSpace) rfl text with ⟨hdrop, -, -, hboth⟩ | ⟨hdrop, -, hboth⟩
  · exact .inl ⟨hdrop, hboth⟩
  · exact .inr ⟨hdrop, hboth⟩

end Tail

namespace Token

namespace Piece

/-- The same piece for readers, with returns after what it leaves. -/
structure Padded (piece padded : Piece) : Prop where
  seen : padded.token.folded = piece.token.folded
  rest : ∃ more, Returns more ∧ padded.rest = piece.rest ++ more
  mode : padded.mode = piece.mode

variable {tail : List Char}

theorem padded_extend (h : Returns tail) (piece : Piece) : Padded piece (piece.extend tail) :=
  ⟨rfl, ⟨tail, h, rfl⟩, rfl⟩

/-- An open string takes the returns in, but is open with and without them. -/
theorem padded_quoted (h : Returns tail) (text : List Char) (mode : Mode) :
    Padded (quoted text mode) (quoted (text ++ tail) mode) := by
  unfold quoted
  rcases h.span (p := fun c => c != '"' && c != '\n') rfl text with
    ⟨hdrop, -, -, hboth⟩ | ⟨hdrop, htake, hboth⟩
  · rw [hdrop, hboth]
    refine ⟨?_, ⟨[], returns_nil, rfl⟩, rfl⟩
    simp [folded, Reader.isOpenString]
  · rw [htake, hboth]
    obtain ⟨c, rest, hrest⟩ := List.exists_cons_of_ne_nil hdrop
    rw [hrest, List.cons_append]
    by_cases hquote : c = '"'
    · subst hquote
      exact ⟨rfl, ⟨tail, h, rfl⟩, rfl⟩
    · split
      · rename_i heq
        exact absurd (List.cons.inj heq).1 hquote
      · split
        · rename_i heq
          exact absurd (List.cons.inj heq).1 hquote
        · exact ⟨rfl, ⟨tail, h, List.cons_append.symm⟩, rfl⟩

theorem padded_ofStatement (h : Returns tail) (c : Char) (rest : List Char) :
    Padded (ofStatement c rest) (ofStatement c (rest ++ tail)) := by
  unfold ofStatement
  split
  · rw [← List.cons_append, number_append h.breaks]
    exact padded_extend h _
  · split
    · rw [word_append h.breaks]
      exact padded_extend h _
    · split
      · exact padded_quoted h rest .statement
      · split
        · rw [radix_append h.breaks]
          exact padded_extend h _
        · rw [symbol_append h.breaks]
          exact padded_extend h _

theorem padded_ofData (h : Returns tail) (c : Char) (rest : List Char) :
    Padded (ofData c rest) (ofData c (rest ++ tail)) := by
  unfold ofData
  split
  · exact ⟨rfl, ⟨tail, h, rfl⟩, rfl⟩
  · split
    · exact ⟨rfl, ⟨tail, h, rfl⟩, rfl⟩
    · split
      · exact padded_quoted h rest .data
      · dsimp only
        rcases h.span (p := fun c => c != ',' && c != ':' && c != '\n') rfl (c :: rest) with
          ⟨hdrop, htake, hall, hboth⟩ | ⟨-, htake, hboth⟩
        · rw [← List.cons_append, hall, hboth, hdrop, htake, h.trimEnd]
          exact ⟨rfl, ⟨[], returns_nil, rfl⟩, rfl⟩
        · rw [← List.cons_append, htake, hboth]
          exact ⟨rfl, ⟨tail, h, rfl⟩, rfl⟩

end Piece

namespace Scanner

variable {tail : List Char}

/-- A step reads the same token for readers when returns follow the text. -/
theorem Reads.extend_returns (h : Returns tail) {scanner after : Scanner} {token : Token}
    (hreads : Reads scanner token after) :
    ∃ other more, Returns more ∧ other.folded = token.folded ∧
      Reads (scanner.extend tail) other (after.extend more) := by
  have hskipped : ∀ {c rest}, scanner.rest.dropWhile isSpace = c :: rest →
      (scanner.extend tail).rest.dropWhile isSpace = c :: (rest ++ tail) := by
    intro c rest hskip
    rcases h.dropWhile_isSpace scanner.rest with ⟨hdrop, -⟩ | ⟨-, hboth⟩
    · rw [hskip] at hdrop
      cases hdrop
    · exact hboth.trans (by rw [hskip, List.cons_append])
  have hpiece : ∀ {piece padded : Piece} (lineStart : Bool), Piece.Padded piece padded →
      Reads (scanner.extend tail) padded.token ⟨padded.rest, padded.mode, lineStart⟩ →
      ∃ other more, Returns more ∧ other.folded = piece.token.folded ∧
        Reads (scanner.extend tail) other (extend ⟨piece.rest, piece.mode, lineStart⟩ more) := by
    intro piece padded lineStart hpadded hpadding
    obtain ⟨more, hmore, hrest⟩ := hpadded.rest
    rw [hrest, hpadded.mode] at hpadding
    exact ⟨padded.token, more, hmore, hpadded.seen, hpadding⟩
  cases hreads with
  | remark hmode =>
      have hwhole := Reads.remark (show (scanner.extend tail).mode = .remark from hmode)
      dsimp only [extend] at hwhole
      rcases h.span (p := (· != '\n')) rfl scanner.rest with ⟨hdrop, htake, hall, hboth⟩ | ⟨-, htake, hboth⟩
      · refine ⟨_, [], returns_nil, rfl, ?_⟩
        rw [hall, hboth, h.trimEnd] at hwhole
        rw [htake, hdrop]
        exact hwhole
      · refine ⟨_, tail, h, rfl, ?_⟩
        rwa [htake, hboth] at hwhole
  | lineEnd hmode hskip => exact ⟨endOfLine, tail, h, rfl, .lineEnd hmode (hskipped hskip)⟩
  | @data c rest hskip hmark hline hmode =>
      exact hpiece scanner.lineStart (Piece.padded_ofData h c rest) (.data (hskipped hskip) hmark hline hmode)
  | lineNumber hskip hmode hstart hdigit =>
      have hwhole := Reads.lineNumber (hskipped hskip) hmode hstart hdigit
      rw [← List.cons_append, takeWhile_append_of_head h.breaks.isDigit,
        dropWhile_append_of_head h.breaks.isDigit] at hwhole
      exact ⟨_, tail, h, rfl, hwhole⟩
  | @statement c rest hskip hmark hline hmode hnumber =>
      exact hpiece false (Piece.padded_ofStatement h c rest)
        (.statement (hskipped hskip) hmark hline hmode hnumber)

theorem next?_extend_returns_of_none (h : Returns tail) {scanner : Scanner} (hnext : scanner.next? = none) :
    (scanner.extend tail).next? = none := by
  obtain ⟨hmode, hrest⟩ := dropWhile_isSpace_of_next?_eq_none hnext
  obtain ⟨text, mode, lineStart⟩ := scanner
  dsimp only at hmode hrest
  dsimp only [extend]
  have hskip : (text ++ tail).dropWhile isSpace = [] ∨
      ∃ more, (text ++ tail).dropWhile isSpace = endMark :: more := by
    rcases h.dropWhile_isSpace text with ⟨-, hboth⟩ | ⟨hdrop, hboth⟩
    · exact .inl hboth
    · obtain ⟨more, hmark⟩ := hrest.resolve_left hdrop
      exact .inr ⟨more ++ tail, by rw [hboth, hmark, List.cons_append]⟩
  cases mode with
  | remark => exact absurd rfl hmode
  | data =>
      rw [next?_data]
      rcases hskip with hskip | ⟨more, hskip⟩
      · rw [hskip]
      · rw [hskip]
        rfl
  | statement =>
      rw [next?_statement]
      rcases hskip with hskip | ⟨more, hskip⟩
      · rw [hskip]
      · rw [hskip]
        rfl

/-- **Returns at the end of a text change no token that readers could tell apart.** -/
theorem tokens_extend_returns (h : Returns tail) (scanner : Scanner) :
    (scanner.extend tail).tokens.map folded = scanner.tokens.map folded := by
  induction scanner using tokens.induct generalizing tail with
  | case1 scanner hnone =>
      rw [tokens_of_next?_eq_none hnone, tokens_of_next?_eq_none (next?_extend_returns_of_none h hnone)]
  | case2 scanner token after hsome ih =>
      obtain ⟨other, more, hmore, hseen, hreads⟩ := (reads_of_next? hsome).extend_returns h
      rw [tokens_of_next?_eq_some hsome, hreads.tokens_eq, List.map_cons, List.map_cons, hseen,
        ih hmore]

end Scanner

end Token

/-- **A text is read the same with returns after it.** -/
theorem Parsed.ofTokens_lex_returns {tail : List Char} (h : Returns tail) (text : List Char) :
    ofTokens (lex (String.ofList (text ++ tail))) = ofTokens (lex (String.ofList text)) := by
  have hseen : (lex (String.ofList (text ++ tail))).map folded = (lex (String.ofList text)).map folded := by
    rw [lex, lex, String.toList_ofList, String.toList_ofList, List.map_append, List.map_append]
    exact congrArg (· ++ _) (Scanner.tokens_extend_returns h (Scanner.ofText text))
  calc ofTokens (lex (String.ofList (text ++ tail)))
      = ofTokens ((lex (String.ofList (text ++ tail))).map folded) := (ofTokens_folded _).symm
    _ = ofTokens ((lex (String.ofList text)).map folded) := by rw [hseen]
    _ = ofTokens (lex (String.ofList text)) := ofTokens_folded _

end LineBasic
