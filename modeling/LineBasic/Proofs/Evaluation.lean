import LineBasic.Proofs.Words
import LineBasic.Session.Run

/-! Evaluation of fixed texts. Most of the time that evaluating a fixed session takes goes into taking its texts
apart and searching all spellings for the letters of its words. The functions here go shorter ways: the characters
of a text are read off its bytes, words are looked up by their letters, and a line is scanned as the characters it
was entered with. Each is equal to the function that it stands in for. -/

namespace LineBasic

namespace Text

theorem utf8EncodeChar_of_lt {c : Char} (h : c.toNat < 128) : String.utf8EncodeChar c = [UInt8.ofNat c.toNat] :=
  if_pos (Nat.le_of_lt_succ h)

/-- A character that takes several bytes starts with one that is no character by itself. -/
theorem exists_utf8EncodeChar_of_le {c : Char} (h : 128 ≤ c.toNat) :
    ∃ byte more, String.utf8EncodeChar c = byte :: more ∧ 128 ≤ byte.toNat := by
  have hmarked {n size mark : Nat} (hsize : 0 < size) (hmark : 128 ≤ mark) (hbyte : mark + size ≤ 256) :
      128 ≤ (UInt8.ofNat (n % size + mark)).toNat := by
    have := Nat.mod_lt n hsize
    rw [UInt8.toNat_ofNat']
    omega
  unfold String.utf8EncodeChar
  dsimp only
  rw [if_neg (show ¬c.val.toNat ≤ 127 from Nat.not_le.mpr h)]
  split
  · exact ⟨_, _, rfl, hmarked (by decide) (by decide) (by decide)⟩
  · split
    · exact ⟨_, _, rfl, hmarked (by decide) (by decide) (by decide)⟩
    · exact ⟨_, _, rfl, hmarked (by decide) (by decide) (by decide)⟩

/-- The characters of some bytes, if each byte is a character. -/
def ofBytes? : List UInt8 → Option (List Char)
  | [] => some []
  | byte :: rest => if byte.toNat < 128 then (ofBytes? rest).map (Char.ofNat byte.toNat :: ·) else none

theorem ofBytes?_encoded {text chars : List Char} (h : ofBytes? (text.flatMap String.utf8EncodeChar) = some chars) :
    chars = text := by
  induction text generalizing chars with
  | nil => exact (Option.some.inj h).symm
  | cons c rest ih =>
      rw [List.flatMap_cons] at h
      by_cases hc : c.toNat < 128
      · have hbyte : (UInt8.ofNat c.toNat).toNat = c.toNat := by
          rw [UInt8.toNat_ofNat']
          omega
        rw [utf8EncodeChar_of_lt hc, List.singleton_append, ofBytes?, hbyte, if_pos hc, Option.map_eq_some_iff] at h
        obtain ⟨more, hmore, rfl⟩ := h
        rw [ih hmore, Char.ofNat_toNat]
      · obtain ⟨byte, more, hencoded, hbyte⟩ := exists_utf8EncodeChar_of_le (Nat.not_lt.mp hc)
        rw [hencoded, List.cons_append, ofBytes?, if_neg (Nat.not_lt.mpr hbyte)] at h
        cases h

/-- The characters of a text, read off its bytes where these allow it. -/
def characters (text : String) : List Char :=
  (ofBytes? text.toByteArray.data.toList).getD text.toList

theorem characters_eq (text : String) : characters text = text.toList := by
  have hbytes : text.toByteArray.data.toList = text.toList.flatMap String.utf8EncodeChar := by
    rw [← String.ofList_toList (s := text), String.toByteArray_ofList, List.utf8Encode, List.data_toByteArray,
      String.toList_ofList]
  unfold characters
  cases hchars : ofBytes? text.toByteArray.data.toList with
  | none => rfl
  | some chars =>
      rw [hbytes] at hchars
      exact ofBytes?_encoded hchars

end Text

namespace Token

namespace Piece

def longestByTable? (word rest : List Char) : Option (Keyword × Nat) :=
  if (Keyword.ofLetters? (word.map Char.toUpper)).isSome then
    let letters := (rest.takeWhile Char.isAlpha).take 8
    (List.range (letters.length + 1)).reverse.findSome? fun n =>
      (Keyword.ofLetters? ((word ++ letters.take n).map Char.toUpper)).map fun keyword => (keyword, n)
  else none

theorem longestKeyword?_eq (word rest : List Char) : longestKeyword? word rest = longestByTable? word rest := by
  unfold longestKeyword? longestByTable?
  simp only [Keyword.ofWord?_eq_ofLetters?]

def wordByTable (taken : List Char) (digitSeen : Bool) : List Char → Piece
  | [] => ofLexeme .ident taken.reverse []
  | c :: rest =>
      let lexeme := (c :: taken).reverse
      let digitSeen := digitSeen || c.isDigit
      if isSigil c then ofLexeme .ident lexeme rest
      else
        match if digitSeen then none else longestByTable? lexeme rest with
        | some (keyword, n) =>
            ⟨⟨.keyword keyword, String.ofList (lexeme ++ rest.take n)⟩, rest.drop n,
              modeAfter keyword⟩
        | none =>
            if goesOn digitSeen rest then wordByTable (c :: taken) digitSeen rest
            else ofLexeme .ident lexeme rest

theorem word_eq (taken : List Char) (digitSeen : Bool) (text : List Char) :
    word taken digitSeen text = wordByTable taken digitSeen text := by
  induction text generalizing taken digitSeen with
  | nil => rfl
  | cons c rest ih =>
      conv =>
        lhs
        simp only [word, longestKeyword?_eq, ih]
      rfl

end Piece

namespace Scanner

/-- Reads the next token. Only the tokens that start with a letter are read in another way. -/
def nextByTable? (scanner : Scanner) : Option (Token × Scanner) :=
  match scanner.mode, scanner.rest.dropWhile isSpace with
  | .statement, c :: rest =>
      if c.isAlpha then
        let piece := Piece.wordByTable [] false (c :: rest)
        some (piece.token, ⟨piece.rest, piece.mode, false⟩)
      else scanner.next?
  | _, _ => scanner.next?

theorem next?_eq (scanner : Scanner) : scanner.next? = scanner.nextByTable? := by
  unfold nextByTable?
  split
  · rename_i c rest hmode htext
    split
    · rename_i hc
      have hother : ∀ d : Char, d.isAlpha = false → c ≠ d := by
        rintro d hd rfl
        rw [hc] at hd
        cases hd
      have hdigit : c.isDigit = false := by
        rw [← Bool.not_eq_true, Chars.isDigit_iff]
        have hletter := Chars.isAlpha_iff.mp hc
        omega
      have hstatement : Piece.ofStatement c rest = Piece.wordByTable [] false (c :: rest) := by
        rw [Piece.ofStatement, hdigit, beq_false_of_ne (hother '.' (by decide)), hc, Piece.word_eq]
        rfl
      rw [next?, if_neg (by rw [hmode]; decide), htext]
      dsimp only
      rw [if_neg (hother endMark (by decide)), if_neg (hother '\n' (by decide)), if_neg (by rw [hmode]; decide), hdigit,
        Bool.and_false, if_neg Bool.false_ne_true, hstatement]
    · rfl
  · rfl

/-- The tokens of at most so many steps. -/
def tokensWithin : Nat → Scanner → List Token
  | 0, _ => []
  | steps + 1, scanner =>
      match scanner.nextByTable? with
      | none => []
      | some (token, after) => token :: tokensWithin steps after

theorem tokens_eq {steps : Nat} {scanner : Scanner} (h : scanner.size < steps) :
    scanner.tokens = tokensWithin steps scanner := by
  induction steps generalizing scanner with
  | zero => omega
  | succ steps ih =>
      rw [tokensWithin, ← next?_eq]
      cases hnext : scanner.next? with
      | none => exact tokens_of_next?_eq_none hnext
      | some found =>
          obtain ⟨token, after⟩ := found
          have hless := size_lt_of_next? hnext
          rw [tokens_of_next?_eq_some hnext, ih (by omega)]

end Scanner

/-- The tokens of a source text given by its characters. -/
def lexCharacters (text : List Char) : List Token :=
  Scanner.tokensWithin (2 * text.length + 2) (.ofText text) ++ [endOfInput]

theorem lex_ofList (text : List Char) : lex (String.ofList text) = lexCharacters text := by
  have hsize := (Scanner.ofText text).size_le
  rw [lex, String.toList_ofList, lexCharacters, Scanner.tokens_eq (Nat.lt_succ_of_le hsize)]
  rfl

theorem lex_eq (text : String) : lex text = lexCharacters (Text.characters text) := by
  rw [Text.characters_eq, ← lex_ofList, String.ofList_toList]

end Token

/-- The tokens of a plain file. -/
theorem Image.tokens_of_text {bytes : List UInt8} (h : Form.ofBytes bytes = .text) :
    tokens bytes = Token.lexCharacters ((bytes.takeWhile (· != 0x1A)).map fun byte => Char.ofNat byte.toNat) := by
  rw [tokens, h]
  exact Token.lex_ofList _

namespace Session

/-- The characters of a line as entered, with the number from AUTO. -/
def numberedCharacters (session : Session) (entered : List Char) : Option (List Char) × Session :=
  let text := Text.dropEndWhile (fun c => c == '\r' || c == '\n') entered
  let hasNumber := ((text.dropWhile Text.isBlank).head?).any Char.isDigit
  if hasNumber then (some text, session)
  else
    match session.settings.nextAuto with
    | (none, _) => (some text, session)
    | (some number, settings) =>
        let after := { session with settings }
        if text.all Text.isBlank then (none, after)
        else (some ((toString number).toList ++ ' ' :: text), after)

theorem numberedText_eq_map (session : Session) (entered : String) :
    session.numberedText entered =
      (session.numberedCharacters entered.toList).map (Option.map String.ofList) id := by
  have hjoin (number : Nat) (text : List Char) :
      toString number ++ " " ++ String.ofList text = String.ofList ((toString number).toList ++ ' ' :: text) := by
    rw [← String.toList_inj]
    simp
  unfold numberedText numberedCharacters
  dsimp only
  split
  · rfl
  · cases session.settings.nextAuto with
    | mk next settings =>
        cases next with
        | none => rfl
        | some number =>
            dsimp only
            split
            · rfl
            · rw [hjoin]
              rfl

/-- Takes in a line of source given by its characters. -/
def enterCharacters (session : Session) (entered : List Char) : Bool × Session :=
  match session.numberedCharacters entered with
  | (none, after) => (true, after)
  | (some text, after) =>
      let parsed := Parsed.ofTokens (Token.lexCharacters text)
      if parsed.faults.isEmpty then (true, parsed.lines.foldl takeLine after)
      else (false, after.report (.faults parsed.faults))

theorem enter_eq (session : Session) (entered : String) :
    session.enter entered = session.enterCharacters (Text.characters entered) := by
  rw [Text.characters_eq, enter, enterCharacters, numberedText_eq_map]
  cases session.numberedCharacters entered.toList with
  | mk text after =>
      cases text with
      | none => rfl
      | some text =>
          dsimp only [Prod.map, Option.map_some, id_eq]
          rw [Token.lex_ofList]

end Session

end LineBasic
