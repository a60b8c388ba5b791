import LineBasic.Token.Scanner

/-! The token list of a text. Every step of the scanner leaves less of the text, or leaves the
remark mode, so scanning ends for every text; the list ends with its only end token. -/

namespace LineBasic.Token

theorem length_dropWhile_le (p : Char → Bool) (text : List Char) :
    (text.dropWhile p).length ≤ text.length :=
  (List.dropWhile_suffix p).length_le

theorem length_spanExponent_le (text : List Char) :
    (spanExponent text).2.length ≤ text.length := by
  unfold spanExponent
  split
  · rename_i mark rest
    split
    · split
      · rename_i sign digits
        have h1 := length_dropWhile_le Char.isDigit digits
        have h2 := length_dropWhile_le Char.isDigit (sign :: digits)
        split <;> simp_all <;> omega
      · simp
    · simp
  · simp

theorem length_spanNumberSigil_le (text : List Char) :
    (spanNumberSigil text).2.length ≤ text.length := by
  unfold spanNumberSigil
  split
  · split <;> simp
  · simp

/-- A constant that starts with a digit or a point takes at least that character. -/
theorem length_spanNumber_lt (c : Char) (rest : List Char) (h : c.isDigit ∨ c = '.') :
    (spanNumber (c :: rest)).2.length < (c :: rest).length := by
  have hm : (Number.spanMantissa (c :: rest)).2.length ≤ rest.length := by
    rcases h with h | h
    · have := length_dropWhile_le Char.isDigit rest
      unfold Number.spanMantissa
      rw [List.dropWhile_cons_of_pos h]
      split
      · rename_i more hr
        have := length_dropWhile_le Char.isDigit more
        simp_all
        omega
      · simp_all
    · subst h
      have : ('.' :: rest).dropWhile Char.isDigit = '.' :: rest := by
        rw [List.dropWhile_cons_of_neg (by decide)]
      unfold Number.spanMantissa
      rw [this]
      exact length_dropWhile_le Char.isDigit rest
  unfold spanNumber
  simp only [List.length_cons]
  refine Nat.lt_succ_of_le (Nat.le_trans (length_spanNumberSigil_le _) ?_)
  split
  · exact Nat.le_trans (length_spanExponent_le _) hm
  · exact hm

theorem length_radix_le (text : List Char) : (Piece.radix text).rest.length ≤ text.length := by
  unfold Piece.radix
  split
  · rename_i mark digits
    have h1 := length_dropWhile_le isHexDigit digits
    have h2 := length_dropWhile_le isOctalDigit digits
    have h3 := length_dropWhile_le isOctalDigit (mark :: digits)
    split
    · simp [Piece.ofLexeme]; omega
    · split
      · simp [Piece.ofLexeme]; omega
      · split <;> simp_all [Piece.ofLexeme]
  · simp [Piece.ofLexeme]

theorem length_quoted_le (text : List Char) (mode : Mode) :
    (Piece.quoted text mode).rest.length ≤ text.length := by
  have h := length_dropWhile_le (fun c => c != '"' && c != '\n') text
  unfold Piece.quoted
  split
  · rename_i rest hr
    rw [hr, List.length_cons] at h
    simp
    omega
  · exact h

theorem length_word_lt (c : Char) (rest taken : List Char) (digitSeen : Bool) :
    (Piece.word taken digitSeen (c :: rest)).rest.length < (c :: rest).length := by
  induction rest generalizing c taken digitSeen with
  | nil =>
      unfold Piece.word
      dsimp only
      split
      · simp [Piece.ofLexeme]
      · split
        · simp
        · simp [Piece.goesOn, Piece.ofLexeme]
  | cons next rest ih =>
      unfold Piece.word
      dsimp only
      split
      · simp [Piece.ofLexeme]
      · split
        · simp only [List.length_drop, List.length_cons]
          omega
        · split
          · exact Nat.lt_succ_of_lt (ih next _ _)
          · simp [Piece.ofLexeme]

theorem length_symbol_le (c : Char) (rest : List Char) :
    (Piece.symbol c rest).rest.length ≤ rest.length := by
  unfold Piece.symbol
  dsimp only
  cases rest with
  | nil => simp
  | cons next more =>
      dsimp only
      split <;> simp [Piece.ofLexeme]

/-- A token of a statement takes at least its first character. -/
theorem length_ofStatement_le (c : Char) (rest : List Char) :
    (Piece.ofStatement c rest).rest.length ≤ rest.length := by
  unfold Piece.ofStatement
  split
  · rename_i h
    exact Nat.le_of_lt_succ (length_spanNumber_lt c rest (by simpa using h))
  · split
    · exact Nat.le_of_lt_succ (length_word_lt c rest [] false)
    · split
      · exact length_quoted_le rest .statement
      · split
        · exact length_radix_le rest
        · exact length_symbol_le c rest

/-- A token of a DATA statement takes at least its first character, where no line ends. -/
theorem length_ofData_le (c : Char) (rest : List Char) (h : c ≠ '\n') :
    (Piece.ofData c rest).rest.length ≤ rest.length := by
  unfold Piece.ofData
  split
  · simp
  · split
    · simp
    · split
      · exact length_quoted_le rest .data
      · dsimp only
        rw [List.dropWhile_cons_of_pos (by simp_all)]
        exact length_dropWhile_le _ rest

namespace Scanner

/-- What a step of the scanner reads, and what it leaves: the rest of a remark, the end of a line, a piece of a
DATA statement, a line number, or a piece of another statement. -/
inductive Reads (scanner : Scanner) : Token → Scanner → Prop
  | remark (hmode : scanner.mode = .remark) :
      Reads scanner ⟨.raw, String.ofList (Text.trimEnd (scanner.rest.takeWhile (· != '\n')))⟩
        ⟨scanner.rest.dropWhile (· != '\n'), .statement, scanner.lineStart⟩
  | lineEnd {rest : List Char} (hmode : scanner.mode ≠ .remark)
      (hskip : scanner.rest.dropWhile isSpace = '\n' :: rest) :
      Reads scanner endOfLine ⟨rest, .statement, true⟩
  | data {c : Char} {rest : List Char} (hskip : scanner.rest.dropWhile isSpace = c :: rest) (hmark : c ≠ endMark)
      (hline : c ≠ '\n') (hmode : scanner.mode = .data) :
      Reads scanner (Piece.ofData c rest).token
        ⟨(Piece.ofData c rest).rest, (Piece.ofData c rest).mode, scanner.lineStart⟩
  | lineNumber {c : Char} {rest : List Char} (hskip : scanner.rest.dropWhile isSpace = c :: rest)
      (hmode : scanner.mode = .statement) (hstart : scanner.lineStart = true) (hdigit : c.isDigit = true) :
      Reads scanner ⟨.lineNumber, String.ofList ((c :: rest).takeWhile Char.isDigit)⟩
        ⟨(c :: rest).dropWhile Char.isDigit, .statement, false⟩
  | statement {c : Char} {rest : List Char} (hskip : scanner.rest.dropWhile isSpace = c :: rest)
      (hmark : c ≠ endMark) (hline : c ≠ '\n') (hmode : scanner.mode = .statement)
      (hnumber : (scanner.lineStart && c.isDigit) = false) :
      Reads scanner (Piece.ofStatement c rest).token
        ⟨(Piece.ofStatement c rest).rest, (Piece.ofStatement c rest).mode, false⟩

variable {scanner after : Scanner} {token : Token}

theorem reads_of_next? (h : scanner.next? = some (token, after)) : Reads scanner token after := by
  unfold next? at h
  split at h
  · rename_i hmode
    obtain ⟨rfl, rfl⟩ := Prod.mk.inj (Option.some.inj h)
    exact .remark hmode
  · rename_i hmode
    split at h
    · cases h
    · rename_i c rest hskip
      split at h
      · cases h
      · rename_i hmark
        split at h
        · rename_i hline
          subst hline
          obtain ⟨rfl, rfl⟩ := Prod.mk.inj (Option.some.inj h)
          exact .lineEnd hmode hskip
        · rename_i hline
          split at h
          · rename_i hdata
            obtain ⟨rfl, rfl⟩ := Prod.mk.inj (Option.some.inj h)
            exact .data hskip hmark hline hdata
          · rename_i hdata
            have hstatement : scanner.mode = .statement := by
              cases hcase : scanner.mode with
              | statement => rfl
              | data => exact absurd hcase hdata
              | remark => exact absurd hcase hmode
            split at h
            · rename_i hnumber
              rw [Bool.and_eq_true] at hnumber
              obtain ⟨rfl, rfl⟩ := Prod.mk.inj (Option.some.inj h)
              exact .lineNumber hskip hstatement hnumber.1 hnumber.2
            · rename_i hnumber
              obtain ⟨rfl, rfl⟩ := Prod.mk.inj (Option.some.inj h)
              exact .statement hskip hmark hline hstatement (Bool.eq_false_iff.mpr hnumber)

theorem Reads.next?_eq (h : Reads scanner token after) : scanner.next? = some (token, after) := by
  cases h with
  | remark hmode => rw [next?, if_pos hmode]
  | lineEnd hmode hskip =>
      rw [next?, if_neg hmode, hskip]
      rfl
  | data hskip hmark hline hmode =>
      rw [next?, if_neg (by rw [hmode]; decide), hskip]
      dsimp only
      rw [if_neg hmark, if_neg hline, if_pos hmode]
  | @lineNumber c rest hskip hmode hstart hdigit =>
      have hne : ∀ d : Char, d.isDigit = false → c ≠ d := by
        rintro d hd rfl
        rw [hdigit] at hd
        cases hd
      rw [next?, if_neg (by rw [hmode]; decide), hskip]
      dsimp only
      rw [if_neg (hne endMark (by decide)), if_neg (hne '\n' (by decide)), if_neg (by rw [hmode]; decide), hstart,
        hdigit, Bool.and_self, if_pos rfl]
  | statement hskip hmark hline hmode hnumber =>
      rw [next?, if_neg (by rw [hmode]; decide), hskip]
      dsimp only
      rw [if_neg hmark, if_neg hline, if_neg (by rw [hmode]; decide), hnumber, if_neg Bool.false_ne_true]

/-- What a scanner still has to do: two for each character, and one for a remark not yet read. -/
def size (scanner : Scanner) : Nat :=
  2 * scanner.rest.length + if scanner.mode = .remark then 1 else 0

theorem size_le (scanner : Scanner) : scanner.size ≤ 2 * scanner.rest.length + 1 := by
  unfold size
  split <;> simp

/-- Every step makes progress. -/
theorem size_lt_of_next? (h : scanner.next? = some (token, after)) : after.size < scanner.size := by
  have hfound : ∀ {c rest}, scanner.rest.dropWhile isSpace = c :: rest → after.rest.length ≤ rest.length →
      after.size < scanner.size := by
    intro c rest hskip hlength
    have hless := length_dropWhile_le isSpace scanner.rest
    have hsize : 2 * scanner.rest.length ≤ scanner.size := Nat.le_add_right _ _
    have hafter := after.size_le
    rw [hskip, List.length_cons] at hless
    omega
  cases reads_of_next? h with
  | remark hmode =>
      have hless := length_dropWhile_le (· != '\n') scanner.rest
      simp [size, hmode]
      omega
  | lineEnd _ hskip => exact hfound hskip (Nat.le_refl _)
  | @data c rest hskip _ hline => exact hfound hskip (length_ofData_le c rest hline)
  | @lineNumber c rest hskip _ _ hdigit =>
      refine hfound hskip ?_
      rw [List.dropWhile_cons_of_pos hdigit]
      exact length_dropWhile_le _ rest
  | @statement c rest hskip => exact hfound hskip (length_ofStatement_le c rest)

/-- All tokens from the scanner's position on. -/
def tokens (scanner : Scanner) : List Token :=
  match _h : scanner.next? with
  | none => []
  | some (token, after) => token :: after.tokens
termination_by scanner.size
decreasing_by exact size_lt_of_next? _h

theorem tokens_of_next?_eq_none {scanner : Scanner} (h : scanner.next? = none) :
    scanner.tokens = [] := by
  rw [tokens]
  split <;> simp_all

theorem tokens_of_next?_eq_some {scanner after : Scanner} {token : Token}
    (h : scanner.next? = some (token, after)) : scanner.tokens = token :: after.tokens := by
  rw [tokens]
  split <;> simp_all

theorem Reads.tokens_eq {scanner after : Scanner} {token : Token} (h : Reads scanner token after) :
    scanner.tokens = token :: after.tokens :=
  tokens_of_next?_eq_some h.next?_eq

/-- Where the first steps agree, all tokens do. -/
theorem tokens_congr {scanner other : Scanner} (h : scanner.next? = other.next?) : scanner.tokens = other.tokens := by
  cases hnext : other.next? with
  | none => rw [tokens_of_next?_eq_none hnext, tokens_of_next?_eq_none (h.trans hnext)]
  | some found => rw [tokens_of_next?_eq_some hnext, tokens_of_next?_eq_some (h.trans hnext)]

/-- Blanks in front of a token are skipped. -/
theorem tokens_blank {c : Char} (hspace : isSpace c = true) (text : List Char) {mode : Mode} (hmode : mode ≠ .remark)
    (lineStart : Bool) : tokens ⟨c :: text, mode, lineStart⟩ = tokens ⟨text, mode, lineStart⟩ := by
  refine tokens_congr ?_
  rw [next?, next?, if_neg hmode, if_neg hmode, List.dropWhile_cons_of_pos hspace]

end Scanner

/-- The tokens of a source text, with the end token last. -/
def lex (text : String) : List Token :=
  (Scanner.ofText text.toList).tokens ++ [endOfInput]

/-- The characters of a byte string, one for each byte. -/
def latinText (bytes : List UInt8) : String :=
  String.ofList (bytes.map fun byte => Char.ofNat byte.toNat)

/-- The tokens of a text stored in bytes. -/
def lexBytes (bytes : List UInt8) : List Token :=
  lex (latinText bytes)

/-- The tokens of verbatim text inside a stored program line, which has no line number and is not
ended by a token of its own. -/
def lexFragment (text : List Char) (inData : Bool) : List Token :=
  Scanner.tokens ⟨text, if inData then .data else .statement, false⟩

end LineBasic.Token
