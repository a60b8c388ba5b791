import LineBasic.Proofs.Chars
import LineBasic.Token.Lex

/-! Scanning of a text that goes on. A token that is cut off by the end of a text is the same token
when a break follows instead, and what follows is then left to be read. So texts that are joined at
a break are scanned one after the other; a line feed breaks every token, also an open string, a
remark and a DATA item. -/

namespace LineBasic.Token

/-- The characters that go on with no number, word or operator. -/
def isBreak (c : Char) : Bool :=
  !(c.isAlpha || c.isDigit || c == '.' || isSigil c || c == '+' || c == '-' ||
    c == '<' || c == '>' || c == '=')

/-- Whether a text starts with a break, or is empty. -/
def Breaks (tail : List Char) : Prop := ∀ c ∈ tail.head?, isBreak c = true

theorem breaks_nil : Breaks [] := by
  intro c hc
  simp at hc

theorem breaks_cons {c : Char} {rest : List Char} (h : isBreak c = true) : Breaks (c :: rest) := by
  intro d hd
  rw [List.head?_cons, Option.mem_some_iff] at hd
  rwa [← hd]

section Span

variable {p : Char → Bool} {tail : List Char}

/-- A run of characters ends where a text goes on with another kind of character. -/
theorem takeWhile_append_of_head (h : ∀ c ∈ tail.head?, p c = false) (text : List Char) :
    (text ++ tail).takeWhile p = text.takeWhile p := by
  induction text with
  | nil =>
      cases tail with
      | nil => rfl
      | cons c rest =>
          have hc : ¬p c = true := by simp [h c rfl]
          rw [List.nil_append, List.takeWhile_cons_of_neg hc, List.takeWhile_nil]
  | cons c text ih =>
      rw [List.cons_append, List.takeWhile_cons, List.takeWhile_cons, ih]

theorem dropWhile_append_of_head (h : ∀ c ∈ tail.head?, p c = false) (text : List Char) :
    (text ++ tail).dropWhile p = text.dropWhile p ++ tail := by
  induction text with
  | nil =>
      cases tail with
      | nil => rfl
      | cons c rest =>
          have hc : ¬p c = true := by simp [h c rfl]
          rw [List.nil_append, List.dropWhile_cons_of_neg hc, List.dropWhile_nil, List.nil_append]
  | cons c text ih =>
      rw [List.cons_append, List.dropWhile_cons, List.dropWhile_cons, ih]
      split <;> rfl

end Span

section Break

variable {tail : List Char} {c : Char}

theorem isBreak_iff : isBreak c = true ↔
    c.isAlpha = false ∧ c.isDigit = false ∧ c ≠ '.' ∧ isSigil c = false ∧ c ≠ '+' ∧ c ≠ '-' ∧
      c ≠ '<' ∧ c ≠ '>' ∧ c ≠ '=' := by
  simp only [isBreak, Bool.not_eq_true', Bool.or_eq_false_iff, beq_eq_false_iff_ne, and_assoc, ne_eq]

theorem isOctalDigit_of_isDigit (h : c.isDigit = false) : isOctalDigit c = false := by
  rw [← Bool.not_eq_true, Chars.isDigit_iff] at h
  rw [← Bool.not_eq_true, isOctalDigit, Bool.and_eq_true, decide_eq_true_eq, decide_eq_true_eq,
    Chars.le_iff, Chars.le_iff]
  change ¬(48 ≤ c.toNat ∧ c.toNat ≤ 55)
  omega

theorem isHexDigit_of_isAlpha (ha : c.isAlpha = false) (hd : c.isDigit = false) :
    isHexDigit c = false := by
  rw [← Bool.not_eq_true, Chars.isAlpha_iff] at ha
  rw [isHexDigit, hd, Bool.false_or, ← Bool.not_eq_true]
  simp only [Bool.or_eq_true, Bool.and_eq_true, decide_eq_true_eq, Chars.le_iff]
  change ¬((65 ≤ c.toNat ∧ c.toNat ≤ 70) ∨ (97 ≤ c.toNat ∧ c.toNat ≤ 102))
  omega

theorem Breaks.isDigit (h : Breaks tail) : ∀ c ∈ tail.head?, c.isDigit = false :=
  fun c hc => (isBreak_iff.mp (h c hc)).2.1

theorem Breaks.isAlpha (h : Breaks tail) : ∀ c ∈ tail.head?, c.isAlpha = false :=
  fun c hc => (isBreak_iff.mp (h c hc)).1

theorem Breaks.isOctalDigit (h : Breaks tail) : ∀ c ∈ tail.head?, isOctalDigit c = false :=
  fun c hc => isOctalDigit_of_isDigit (h.isDigit c hc)

theorem Breaks.isHexDigit (h : Breaks tail) : ∀ c ∈ tail.head?, isHexDigit c = false :=
  fun c hc => isHexDigit_of_isAlpha (h.isAlpha c hc) (h.isDigit c hc)

end Break

section Number

variable {tail : List Char}

theorem spanMantissa_append (h : Breaks tail) (text : List Char) :
    Number.spanMantissa (text ++ tail) =
      ((Number.spanMantissa text).1, (Number.spanMantissa text).2 ++ tail) := by
  unfold Number.spanMantissa
  rw [takeWhile_append_of_head h.isDigit, dropWhile_append_of_head h.isDigit]
  cases hrest : text.dropWhile Char.isDigit with
  | nil =>
      cases tail with
      | nil => rfl
      | cons c more =>
          have hc : c ≠ '.' := (isBreak_iff.mp (h c rfl)).2.2.1
          dsimp only [List.nil_append]
          split
          · rename_i heq
            exact absurd (List.cons.inj heq).1 hc
          · rfl
  | cons c rest =>
      by_cases hc : c = '.'
      · subst hc
        simp only [List.cons_append, takeWhile_append_of_head h.isDigit,
          dropWhile_append_of_head h.isDigit]
      · dsimp only [List.cons_append]
        split
        · rename_i heq
          exact absurd (List.cons.inj heq).1 hc
        · split
          · rename_i heq
            exact absurd (List.cons.inj heq).1 hc
          · rfl

theorem spanExponent_append (h : Breaks tail) (text : List Char) :
    spanExponent (text ++ tail) = ((spanExponent text).1, (spanExponent text).2 ++ tail) := by
  cases text with
  | nil =>
      cases tail with
      | nil => rfl
      | cons c rest =>
          have hup : c.toUpper = c := Chars.toUpper_of_not_isAlpha (h.isAlpha c rfl)
          have hmark : ¬(c == 'E' || c == 'D') = true := by
            have ha := h.isAlpha c rfl
            rw [Bool.or_eq_true, beq_iff_eq, beq_iff_eq]
            rintro (rfl | rfl) <;> simp at ha
          simp only [List.nil_append, spanExponent, hup, if_neg hmark]
  | cons mark rest =>
      simp only [List.cons_append, spanExponent]
      by_cases hmark : (mark.toUpper == 'E' || mark.toUpper == 'D') = true
      · rw [if_pos hmark, if_pos hmark]
        cases rest with
        | nil =>
            cases tail with
            | nil => rfl
            | cons c more =>
                obtain ⟨-, hd, -, -, hplus, hminus, -⟩ := isBreak_iff.mp (h c rfl)
                have hsign : ¬(c == '+' || c == '-') = true := by simp [hplus, hminus]
                simp only [List.nil_append, if_neg hsign]
                rw [List.takeWhile_cons_of_neg (by simp [hd]), List.dropWhile_cons_of_neg (by simp [hd])]
        | cons sign digits =>
            simp only [List.cons_append]
            split
            · rw [takeWhile_append_of_head h.isDigit, dropWhile_append_of_head h.isDigit]
            · rw [← List.cons_append, takeWhile_append_of_head h.isDigit,
                dropWhile_append_of_head h.isDigit]
      · rw [if_neg hmark, if_neg hmark]
        rfl

theorem spanNumberSigil_append (h : Breaks tail) (text : List Char) :
    spanNumberSigil (text ++ tail) =
      ((spanNumberSigil text).1, (spanNumberSigil text).2 ++ tail) := by
  cases text with
  | nil =>
      cases tail with
      | nil => rfl
      | cons c rest =>
          have hsigil := (isBreak_iff.mp (h c rfl)).2.2.2.1
          have hc : ¬(c == '!' || c == '#' || c == '%') = true := by
            intro heq
            simp_all [isSigil]
          simp only [List.nil_append, spanNumberSigil, if_neg hc]
  | cons c rest =>
      simp only [List.cons_append, spanNumberSigil]
      split <;> rfl

theorem spanNumber_append (h : Breaks tail) (text : List Char) :
    spanNumber (text ++ tail) = ((spanNumber text).1, (spanNumber text).2 ++ tail) := by
  unfold spanNumber
  rw [spanMantissa_append h]
  dsimp only
  split
  · rw [spanExponent_append h, spanNumberSigil_append h]
  · rw [spanNumberSigil_append h]

end Number

namespace Piece

/-- The piece of a text that goes on after it. -/
def extend (piece : Piece) (tail : List Char) : Piece :=
  { piece with rest := piece.rest ++ tail }

variable {tail : List Char}

theorem number_append (h : Breaks tail) (text : List Char) :
    number (text ++ tail) = (number text).extend tail := by
  rw [number, spanNumber_append h]
  rfl

theorem radix_append (h : Breaks tail) (text : List Char) :
    radix (text ++ tail) = (radix text).extend tail := by
  cases text with
  | nil =>
      cases tail with
      | nil => rfl
      | cons c rest =>
          have ha := h.isAlpha c rfl
          have hup : c.toUpper = c := Chars.toUpper_of_not_isAlpha ha
          have hhex : ¬(c == 'H') = true := by
            rw [beq_iff_eq]
            rintro rfl
            simp at ha
          have hoct : ¬(c == 'O') = true := by
            rw [beq_iff_eq]
            rintro rfl
            simp at ha
          have hdigit : ¬isOctalDigit c = true := by simp [h.isOctalDigit c rfl]
          simp only [List.nil_append, radix, hup, if_neg hhex, if_neg hoct, if_neg hdigit]
          rfl
  | cons mark digits =>
      simp only [List.cons_append, radix]
      rw [takeWhile_append_of_head h.isHexDigit, dropWhile_append_of_head h.isHexDigit,
        takeWhile_append_of_head h.isOctalDigit, dropWhile_append_of_head h.isOctalDigit,
        ← List.cons_append, takeWhile_append_of_head h.isOctalDigit,
        dropWhile_append_of_head h.isOctalDigit]
      split
      · rfl
      · split
        · rfl
        · split <;> rfl

/-- No more letters are taken for a reserved word than there are. -/
theorem length_le_of_longestKeyword? {word rest : List Char} {keyword : Keyword} {n : Nat}
    (h : longestKeyword? word rest = some (keyword, n)) : n ≤ rest.length := by
  unfold longestKeyword? at h
  split at h
  · obtain ⟨m, hm, heq⟩ := List.exists_of_findSome?_eq_some h
    rw [Option.map_eq_some_iff] at heq
    obtain ⟨found, -, hpair⟩ := heq
    obtain ⟨-, rfl⟩ := Prod.mk.inj hpair
    rw [List.mem_reverse, List.mem_range] at hm
    have htake := List.length_take_le 8 (rest.takeWhile Char.isAlpha)
    have hwhile := (List.takeWhile_prefix (l := rest) Char.isAlpha).length_le
    rw [List.length_take] at hm htake
    omega
  · cases h

theorem longestKeyword?_append (h : Breaks tail) (word rest : List Char) :
    longestKeyword? word (rest ++ tail) = longestKeyword? word rest := by
  unfold longestKeyword?
  rw [takeWhile_append_of_head h.isAlpha]

theorem goesOn_append (h : Breaks tail) (digitSeen : Bool) (rest : List Char) :
    goesOn digitSeen (rest ++ tail) = goesOn digitSeen rest := by
  cases rest with
  | nil =>
      cases tail with
      | nil => rfl
      | cons c more =>
          obtain ⟨ha, hd, hpoint, hsigil, -⟩ := isBreak_iff.mp (h c rfl)
          simp [goesOn, ha, hd, hpoint, hsigil]
  | cons c rest => rfl

/-- The reserved word that is found at the letter `c`, unless a digit stands in the word. -/
def reserved? (taken : List Char) (digitSeen : Bool) (c : Char) (rest : List Char) : Option (Keyword × Nat) :=
  if digitSeen || c.isDigit then none else longestKeyword? (c :: taken).reverse rest

theorem length_le_of_reserved? {taken rest : List Char} {digitSeen : Bool} {c : Char} {keyword : Keyword} {n : Nat}
    (h : reserved? taken digitSeen c rest = some (keyword, n)) : n ≤ rest.length := by
  unfold reserved? at h
  split at h
  · cases h
  · exact length_le_of_longestKeyword? h

theorem reserved?_append (h : Breaks tail) (taken : List Char) (digitSeen : Bool) (c : Char) (rest : List Char) :
    reserved? taken digitSeen c (rest ++ tail) = reserved? taken digitSeen c rest := by
  rw [reserved?, reserved?, longestKeyword?_append h]

/-- What becomes of a text of which some characters are taken for a word. A sigil ends the word, a reserved word
ends where it is spelled, and another word goes on while there are characters for it. -/
inductive ReadsWord : (taken : List Char) → (digitSeen : Bool) → (text : List Char) → Piece → Prop
  | ended (taken : List Char) (digitSeen : Bool) :
      ReadsWord taken digitSeen [] (ofLexeme .ident taken.reverse [])
  | sigil (taken : List Char) (digitSeen : Bool) {c : Char} (rest : List Char) (hsigil : isSigil c = true) :
      ReadsWord taken digitSeen (c :: rest) (ofLexeme .ident (c :: taken).reverse rest)
  | reserved {taken rest : List Char} {digitSeen : Bool} {c : Char} {keyword : Keyword} {n : Nat}
      (hsigil : isSigil c = false) (hfound : reserved? taken digitSeen c rest = some (keyword, n)) :
      ReadsWord taken digitSeen (c :: rest)
        ⟨⟨.keyword keyword, String.ofList ((c :: taken).reverse ++ rest.take n)⟩, rest.drop n, modeAfter keyword⟩
  | longer {taken rest : List Char} {digitSeen : Bool} {c : Char} {piece : Piece} (hsigil : isSigil c = false)
      (hnone : reserved? taken digitSeen c rest = none) (hgoes : goesOn (digitSeen || c.isDigit) rest = true)
      (hrest : ReadsWord (c :: taken) (digitSeen || c.isDigit) rest piece) :
      ReadsWord taken digitSeen (c :: rest) piece
  | name {taken rest : List Char} {digitSeen : Bool} {c : Char} (hsigil : isSigil c = false)
      (hnone : reserved? taken digitSeen c rest = none) (hstops : goesOn (digitSeen || c.isDigit) rest = false) :
      ReadsWord taken digitSeen (c :: rest) (ofLexeme .ident (c :: taken).reverse rest)

theorem readsWord_word (taken : List Char) (digitSeen : Bool) (text : List Char) :
    ReadsWord taken digitSeen text (word taken digitSeen text) := by
  induction text generalizing taken digitSeen with
  | nil => exact .ended taken digitSeen
  | cons c rest ih =>
      cases hsigil : isSigil c with
      | true =>
          rw [word, if_pos hsigil]
          exact .sigil taken digitSeen rest hsigil
      | false =>
          rw [word, if_neg (Bool.eq_false_iff.mp hsigil), ← reserved?]
          cases hreserved : reserved? taken digitSeen c rest with
          | some found => exact .reserved hsigil hreserved
          | none =>
              dsimp only
              cases hgoes : goesOn (digitSeen || c.isDigit) rest with
              | true => exact .longer hsigil hreserved hgoes (ih _ _)
              | false => exact .name hsigil hreserved hgoes

theorem ReadsWord.eq {taken text : List Char} {digitSeen : Bool} {piece : Piece}
    (h : ReadsWord taken digitSeen text piece) : word taken digitSeen text = piece := by
  induction h with
  | ended taken digitSeen => rfl
  | sigil taken digitSeen rest hsigil => rw [word, if_pos hsigil]
  | reserved hsigil hfound => rw [word, if_neg (Bool.eq_false_iff.mp hsigil), ← reserved?, hfound]
  | longer hsigil hnone hgoes _ ih =>
      rw [word, if_neg (Bool.eq_false_iff.mp hsigil), ← reserved?, hnone]
      dsimp only
      rw [if_pos hgoes, ih]
  | name hsigil hnone hstops =>
      rw [word, if_neg (Bool.eq_false_iff.mp hsigil), ← reserved?, hnone]
      dsimp only
      rw [if_neg (Bool.eq_false_iff.mp hstops)]

theorem ne_nil_of_goesOn {digitSeen : Bool} {text : List Char} (h : goesOn digitSeen text = true) : text ≠ [] := by
  rintro rfl
  cases h

/-- A word that a break follows is the one that the end of the text follows. -/
theorem ReadsWord.append (hbreaks : Breaks tail) {taken text : List Char} {digitSeen : Bool} {piece : Piece}
    (h : ReadsWord taken digitSeen text piece) (hne : text ≠ []) :
    ReadsWord taken digitSeen (text ++ tail) (piece.extend tail) := by
  induction h with
  | ended => exact absurd rfl hne
  | sigil taken digitSeen rest hsigil => exact .sigil taken digitSeen (rest ++ tail) hsigil
  | reserved hsigil hfound =>
      have hlength := length_le_of_reserved? hfound
      rw [← reserved?_append hbreaks] at hfound
      have hreads := ReadsWord.reserved hsigil hfound
      rwa [List.take_append_of_le_length hlength, List.drop_append_of_le_length hlength] at hreads
  | longer hsigil hnone hgoes _ ih =>
      have hrest := ne_nil_of_goesOn hgoes
      rw [← goesOn_append hbreaks] at hgoes
      exact .longer hsigil ((reserved?_append hbreaks _ _ _ _).trans hnone) hgoes (ih hrest)
  | name hsigil hnone hstops =>
      rw [← goesOn_append hbreaks] at hstops
      exact .name hsigil ((reserved?_append hbreaks _ _ _ _).trans hnone) hstops

theorem word_append (h : Breaks tail) (taken : List Char) (digitSeen : Bool) (c : Char)
    (rest : List Char) :
    word taken digitSeen (c :: (rest ++ tail)) = (word taken digitSeen (c :: rest)).extend tail :=
  ((readsWord_word taken digitSeen (c :: rest)).append h (List.cons_ne_nil c rest)).eq

/-- Only the three relational characters are joined. -/
theorem joined?_symbolKind_of_isBreak {c next : Char} (h : isBreak next = true) :
    Kind.joined? (symbolKind c) (symbolKind next) = none := by
  obtain ⟨-, -, -, -, -, -, hlt, hgt, heq⟩ := isBreak_iff.mp h
  have hkind : symbolKind next ≠ .lt ∧ symbolKind next ≠ .gt ∧ symbolKind next ≠ .eq := by
    unfold symbolKind
    split <;> simp_all
    split <;> simp
  unfold Kind.joined?
  split <;> simp_all

theorem symbol_append (h : Breaks tail) (c : Char) (rest : List Char) :
    symbol c (rest ++ tail) = (symbol c rest).extend tail := by
  cases rest with
  | nil =>
      cases tail with
      | nil => rfl
      | cons next more =>
          simp only [List.nil_append, symbol, joined?_symbolKind_of_isBreak (h next rfl)]
          rfl
  | cons next more =>
      simp only [List.cons_append, symbol]
      split <;> rfl

/-- The body of a string ends with its line. -/
theorem quoted_append_newline (text b : List Char) (mode : Mode) :
    quoted (text ++ '\n' :: b) mode = (quoted text mode).extend ('\n' :: b) := by
  have hstop : ∀ c ∈ ('\n' :: b).head?, (c != '"' && c != '\n') = false := by
    intro c hc
    rw [List.head?_cons, Option.mem_some_iff] at hc
    rw [← hc]
    rfl
  unfold quoted
  rw [takeWhile_append_of_head hstop, dropWhile_append_of_head hstop]
  cases hrest : text.dropWhile (fun c => c != '"' && c != '\n') with
  | nil => rfl
  | cons c rest =>
      by_cases hc : c = '"'
      · subst hc
        rfl
      · dsimp only [List.cons_append]
        split
        · rename_i heq
          exact absurd (List.cons.inj heq).1 hc
        · split
          · rename_i heq
            exact absurd (List.cons.inj heq).1 hc
          · rfl

theorem ofStatement_append_newline (c : Char) (rest b : List Char) :
    ofStatement c (rest ++ '\n' :: b) = (ofStatement c rest).extend ('\n' :: b) := by
  have hbreak : Breaks ('\n' :: b) := breaks_cons (by decide)
  unfold ofStatement
  split
  · exact number_append hbreak (c :: rest)
  · split
    · exact word_append hbreak [] false c rest
    · split
      · exact quoted_append_newline rest b .statement
      · split
        · exact radix_append hbreak rest
        · exact symbol_append hbreak c rest

theorem ofData_append_newline (c : Char) (rest b : List Char) :
    ofData c (rest ++ '\n' :: b) = (ofData c rest).extend ('\n' :: b) := by
  have hstop : ∀ d ∈ ('\n' :: b).head?, (d != ',' && d != ':' && d != '\n') = false := by
    intro d hd
    rw [List.head?_cons, Option.mem_some_iff] at hd
    rw [← hd]
    rfl
  unfold ofData
  split
  · rfl
  · split
    · rfl
    · split
      · exact quoted_append_newline rest b .data
      · dsimp only
        rw [← List.cons_append, takeWhile_append_of_head hstop, dropWhile_append_of_head hstop]
        rfl

end Piece

section Suffix

theorem spanExponent_suffix (text : List Char) : (spanExponent text).2 <:+ text := by
  unfold spanExponent
  split
  · rename_i mark rest
    split
    · split
      · rename_i sign digits
        split
        · exact ((List.dropWhile_suffix _).trans (List.suffix_cons _ _)).trans (List.suffix_cons _ _)
        · exact (List.dropWhile_suffix _).trans (List.suffix_cons _ _)
      · exact List.suffix_cons _ _
    · exact List.suffix_rfl
  · exact List.suffix_rfl

theorem spanNumber_suffix (text : List Char) : (spanNumber text).2 <:+ text := by
  have hsigil : ∀ rest : List Char, (spanNumberSigil rest).2 <:+ rest := by
    intro rest
    unfold spanNumberSigil
    split
    · split
      · exact List.suffix_cons _ _
      · exact List.suffix_rfl
    · exact List.suffix_rfl
  have hmantissa : (Number.spanMantissa text).2 <:+ text := by
    unfold Number.spanMantissa
    split
    · rename_i more hrest
      have hdrop : '.' :: more <:+ text := hrest ▸ List.dropWhile_suffix _
      exact ((List.dropWhile_suffix _).trans (List.suffix_cons _ _)).trans hdrop
    · exact List.dropWhile_suffix _
  unfold spanNumber
  refine (hsigil _).trans ?_
  split
  · exact (spanExponent_suffix _).trans hmantissa
  · exact hmantissa

namespace Piece

theorem radix_suffix (text : List Char) : (radix text).rest <:+ text := by
  unfold radix
  split
  · split
    · exact (List.dropWhile_suffix _).trans (List.suffix_cons _ _)
    · split
      · exact (List.dropWhile_suffix _).trans (List.suffix_cons _ _)
      · split
        · exact List.dropWhile_suffix _
        · exact List.suffix_rfl
  · exact List.suffix_rfl

theorem quoted_suffix (text : List Char) (mode : Mode) : (quoted text mode).rest <:+ text := by
  unfold quoted
  split
  · rename_i rest hrest
    have hdrop : '"' :: rest <:+ text := hrest ▸ List.dropWhile_suffix _
    exact (List.suffix_cons _ _).trans hdrop
  · exact List.dropWhile_suffix _

theorem word_suffix (taken : List Char) (digitSeen : Bool) (text : List Char) :
    (word taken digitSeen text).rest <:+ text := by
  have hreads := readsWord_word taken digitSeen text
  generalize word taken digitSeen text = piece at hreads ⊢
  induction hreads with
  | ended => exact List.suffix_rfl
  | sigil | name => exact List.suffix_cons _ _
  | reserved => exact (List.drop_suffix _ _).trans (List.suffix_cons _ _)
  | longer _ _ _ _ ih => exact ih.trans (List.suffix_cons _ _)

theorem symbol_suffix (c : Char) (rest : List Char) : (symbol c rest).rest <:+ rest := by
  unfold symbol
  dsimp only
  split
  · split
    · exact List.suffix_cons _ _
    · exact List.suffix_rfl
  · exact List.suffix_rfl

theorem ofStatement_suffix (c : Char) (rest : List Char) : (ofStatement c rest).rest <:+ c :: rest := by
  unfold ofStatement
  split
  · exact spanNumber_suffix (c :: rest)
  · split
    · exact word_suffix [] false (c :: rest)
    · split
      · exact (quoted_suffix rest .statement).trans (List.suffix_cons _ _)
      · split
        · exact (radix_suffix rest).trans (List.suffix_cons _ _)
        · exact (symbol_suffix c rest).trans (List.suffix_cons _ _)

theorem ofData_suffix (c : Char) (rest : List Char) : (ofData c rest).rest <:+ c :: rest := by
  unfold ofData
  split
  · exact List.suffix_cons _ _
  · split
    · exact List.suffix_cons _ _
    · split
      · exact (quoted_suffix rest .data).trans (List.suffix_cons _ _)
      · exact List.dropWhile_suffix _

end Piece

end Suffix

section Kind

/-- The kinds of the tokens between statements: the number of a line, its end, and the end of all. -/
def Kind.isFrame : Kind → Bool
  | .lineNumber | .eol | .eof => true
  | _ => false

theorem numberKind_cases (literal : List Char) :
    numberKind literal = .illegal ∨ (numberKind literal).isNumber = true := by
  unfold numberKind
  repeat' split
  all_goals first | exact .inl rfl | exact .inr rfl

theorem numberKind_isFrame (literal : List Char) : (numberKind literal).isFrame = false := by
  rcases numberKind_cases literal with hkind | hkind
  · rw [hkind]
    rfl
  · generalize numberKind literal = kind at hkind
    cases kind <;> first | rfl | cases hkind

theorem symbolKind_isFrame (c : Char) : (Piece.symbolKind c).isFrame = false := by
  unfold Piece.symbolKind
  split <;> try rfl
  split <;> rfl

theorem joined?_isFrame {first second kind : Kind} (h : Kind.joined? first second = some kind) :
    kind.isFrame = false := by
  unfold Kind.joined? at h
  split at h <;> cases h <;> rfl

namespace Piece

theorem word_isFrame (taken : List Char) (digitSeen : Bool) (text : List Char) :
    (word taken digitSeen text).token.kind.isFrame = false := by
  have hreads := readsWord_word taken digitSeen text
  generalize word taken digitSeen text = piece at hreads ⊢
  induction hreads with
  | ended | sigil | reserved | name => rfl
  | longer _ _ _ _ ih => exact ih

theorem quoted_isFrame (text : List Char) (mode : Mode) :
    (quoted text mode).token.kind.isFrame = false := by
  unfold quoted
  split <;> rfl

theorem radix_isFrame (text : List Char) : (radix text).token.kind.isFrame = false := by
  unfold radix
  repeat' split
  all_goals try rfl
  all_goals
    dsimp only [ofLexeme]
    split <;> rfl

theorem symbol_isFrame (c : Char) (rest : List Char) :
    (symbol c rest).token.kind.isFrame = false := by
  unfold symbol
  dsimp only
  split
  · split
    · rename_i kind hjoined
      exact joined?_isFrame hjoined
    · exact symbolKind_isFrame c
  · exact symbolKind_isFrame c

/-- No piece of a statement is a token between statements. -/
theorem ofStatement_isFrame (c : Char) (rest : List Char) :
    (ofStatement c rest).token.kind.isFrame = false := by
  unfold ofStatement
  split
  · exact numberKind_isFrame _
  · split
    · exact word_isFrame [] false (c :: rest)
    · split
      · exact quoted_isFrame rest .statement
      · split
        · exact radix_isFrame rest
        · exact symbol_isFrame c rest

theorem ofData_isFrame (c : Char) (rest : List Char) :
    (ofData c rest).token.kind.isFrame = false := by
  unfold ofData
  split
  · rfl
  · split
    · rfl
    · split
      · exact quoted_isFrame rest .data
      · rfl

end Piece

theorem ne_eol_of_isFrame {kind : Kind} (h : kind.isFrame = false) : kind ≠ .eol := by
  rintro rfl
  cases h

theorem ne_eof_of_isFrame {kind : Kind} (h : kind.isFrame = false) : kind ≠ .eof := by
  rintro rfl
  cases h

end Kind

namespace Scanner

/-- The scanner of a text that goes on. -/
def extend (scanner : Scanner) (tail : List Char) : Scanner :=
  { scanner with rest := scanner.rest ++ tail }

section Step

variable (text : List Char) (lineStart : Bool)

/-- A remark is the rest of its line. -/
theorem next?_remark :
    next? ⟨text, .remark, lineStart⟩ =
      some (⟨.raw, String.ofList (Text.trimEnd (text.takeWhile (· != '\n')))⟩,
        ⟨text.dropWhile (· != '\n'), .statement, lineStart⟩) := rfl

/-- A step in a DATA statement, by the first character that is not skipped. -/
theorem next?_data :
    next? ⟨text, .data, lineStart⟩ =
      match text.dropWhile isSpace with
      | [] => none
      | c :: rest =>
          if c = endMark then none
          else if c = '\n' then some (endOfLine, ofText rest)
          else
            some ((Piece.ofData c rest).token,
              ⟨(Piece.ofData c rest).rest, (Piece.ofData c rest).mode, lineStart⟩) := rfl

/-- A step in any other statement. -/
theorem next?_statement :
    next? ⟨text, .statement, lineStart⟩ =
      match text.dropWhile isSpace with
      | [] => none
      | c :: rest =>
          if c = endMark then none
          else if c = '\n' then some (endOfLine, ofText rest)
          else if lineStart && c.isDigit then
            some (⟨.lineNumber, String.ofList ((c :: rest).takeWhile Char.isDigit)⟩,
              ⟨(c :: rest).dropWhile Char.isDigit, .statement, false⟩)
          else
            some ((Piece.ofStatement c rest).token,
              ⟨(Piece.ofStatement c rest).rest, (Piece.ofStatement c rest).mode, false⟩) := rfl

end Step

/-- What a step leaves is the end of what it found. -/
theorem suffix_of_next? {scanner after : Scanner} {token : Token}
    (h : scanner.next? = some (token, after)) : after.rest <:+ scanner.rest := by
  have hfound : ∀ {c rest left}, scanner.rest.dropWhile isSpace = c :: rest → left <:+ c :: rest →
      left <:+ scanner.rest :=
    fun hskip hleft => hleft.trans (hskip ▸ List.dropWhile_suffix _)
  cases reads_of_next? h with
  | remark => exact List.dropWhile_suffix _
  | lineEnd _ hskip => exact hfound hskip (List.suffix_cons _ _)
  | data hskip => exact hfound hskip (Piece.ofData_suffix _ _)
  | lineNumber hskip => exact hfound hskip (List.dropWhile_suffix _)
  | statement hskip => exact hfound hskip (Piece.ofStatement_suffix _ _)

/-- A property of the tokens that single steps find holds for all tokens of a text. -/
theorem forall_mem_tokens {P : Token → Prop}
    (hstep : ∀ {scanner after token}, next? scanner = some (token, after) → P token)
    (scanner : Scanner) : ∀ token ∈ scanner.tokens, P token := by
  induction scanner using tokens.induct with
  | case1 scanner hnone =>
      rw [tokens_of_next?_eq_none hnone]
      simp
  | case2 scanner token after hsome ih =>
      rw [tokens_of_next?_eq_some hsome]
      intro other hother
      rcases List.mem_cons.mp hother with rfl | hother
      · exact hstep hsome
      · exact ih other hother

/-- The end token is no token of a text. -/
theorem kind_ne_eof (scanner : Scanner) : ∀ token ∈ scanner.tokens, token.kind ≠ .eof := by
  refine forall_mem_tokens (fun {scanner after token} h => ?_) scanner
  cases reads_of_next? h with
  | remark | lineNumber => simp
  | lineEnd => simp [endOfLine]
  | @data c rest => exact ne_eof_of_isFrame (Piece.ofData_isFrame c rest)
  | @statement c rest => exact ne_eof_of_isFrame (Piece.ofStatement_isFrame c rest)

/-- Only a line feed is scanned as the end of a line. -/
theorem kind_ne_eol (scanner : Scanner) (hline : '\n' ∉ scanner.rest) :
    ∀ token ∈ scanner.tokens, token.kind ≠ .eol := by
  induction scanner using tokens.induct with
  | case1 scanner hnone => simp [tokens_of_next?_eq_none hnone]
  | case2 scanner token after hsome ih =>
      have hrest : '\n' ∉ after.rest := fun hmem => hline ((suffix_of_next? hsome).subset hmem)
      have hkind : token.kind ≠ .eol := by
        cases reads_of_next? hsome with
        | remark | lineNumber => simp
        | lineEnd _ hskip =>
            exact absurd ((List.dropWhile_suffix isSpace).subset (hskip ▸ List.mem_cons_self)) hline
        | @data c rest => exact ne_eol_of_isFrame (Piece.ofData_isFrame c rest)
        | @statement c rest => exact ne_eol_of_isFrame (Piece.ofStatement_isFrame c rest)
      rw [tokens_of_next?_eq_some hsome]
      exact List.forall_mem_cons.mpr ⟨hkind, ih hrest⟩

section Newline

variable (b : List Char)

theorem dropWhile_isSpace_append_newline (text : List Char) :
    (text ++ '\n' :: b).dropWhile isSpace = text.dropWhile isSpace ++ '\n' :: b :=
  dropWhile_append_of_head (by simp [isSpace]) text

/-- A step reads the same token when a new line follows. -/
theorem Reads.extend_newline {scanner after : Scanner} {token : Token} (h : Reads scanner token after) :
    Reads (scanner.extend ('\n' :: b)) token (after.extend ('\n' :: b)) := by
  have hskipped : ∀ {c rest}, scanner.rest.dropWhile isSpace = c :: rest →
      (scanner.extend ('\n' :: b)).rest.dropWhile isSpace = c :: (rest ++ '\n' :: b) := by
    intro c rest hskip
    dsimp only [extend]
    rw [dropWhile_isSpace_append_newline, hskip, List.cons_append]
  cases h with
  | remark hmode =>
      have hline : ∀ c ∈ ('\n' :: b).head?, (c != '\n') = false := by simp
      have hreads := Reads.remark (show (scanner.extend ('\n' :: b)).mode = .remark from hmode)
      dsimp only [extend] at hreads
      rwa [takeWhile_append_of_head hline, dropWhile_append_of_head hline] at hreads
  | lineEnd hmode hskip => exact .lineEnd hmode (hskipped hskip)
  | data hskip hmark hline hmode =>
      have hreads := Reads.data (hskipped hskip) hmark hline hmode
      rwa [Piece.ofData_append_newline] at hreads
  | lineNumber hskip hmode hstart hdigit =>
      have hline : ∀ d ∈ ('\n' :: b).head?, d.isDigit = false := by simp
      have hreads := Reads.lineNumber (hskipped hskip) hmode hstart hdigit
      rwa [← List.cons_append, takeWhile_append_of_head hline, dropWhile_append_of_head hline] at hreads
  | statement hskip hmark hline hmode hnumber =>
      have hreads := Reads.statement (hskipped hskip) hmark hline hmode hnumber
      rwa [Piece.ofStatement_append_newline] at hreads

/-- No step is possible only where nothing but blanks is left, or at the marked end. -/
theorem dropWhile_isSpace_of_next?_eq_none {scanner : Scanner} (h : scanner.next? = none) :
    scanner.mode ≠ .remark ∧ (scanner.rest.dropWhile isSpace = [] ∨
      ∃ more, scanner.rest.dropWhile isSpace = endMark :: more) := by
  obtain ⟨text, mode, lineStart⟩ := scanner
  cases mode with
  | remark =>
      rw [next?_remark] at h
      cases h
  | data =>
      refine ⟨by simp, ?_⟩
      rw [next?_data] at h
      split at h
      · exact .inl ‹_›
      · rename_i c rest hrest
        split at h
        · rename_i hmark
          exact .inr ⟨rest, hmark ▸ hrest⟩
        · split at h <;> cases h
  | statement =>
      refine ⟨by simp, ?_⟩
      rw [next?_statement] at h
      split at h
      · exact .inl ‹_›
      · rename_i c rest hrest
        split at h
        · rename_i hmark
          exact .inr ⟨rest, hmark ▸ hrest⟩
        · split at h
          · cases h
          · split at h <;> cases h

/-- A step that finds the end of a text finds the end of the line when a new line follows, unless it
finds the marked end. -/
theorem next?_extend_newline_of_none {scanner : Scanner} (h : scanner.next? = none) :
    (scanner.extend ('\n' :: b)).next? = some (endOfLine, ofText b) ∨
      (endMark ∈ scanner.rest ∧ (scanner.extend ('\n' :: b)).next? = none) := by
  obtain ⟨hmode, hrest⟩ := dropWhile_isSpace_of_next?_eq_none h
  obtain ⟨text, mode, lineStart⟩ := scanner
  dsimp only at hmode hrest
  dsimp only [extend]
  have hskip := dropWhile_isSpace_append_newline b text
  rcases hrest with hrest | ⟨more, hrest⟩
  · left
    cases mode with
    | remark => exact absurd rfl hmode
    | data =>
        rw [next?_data, hskip, hrest]
        rfl
    | statement =>
        rw [next?_statement, hskip, hrest]
        rfl
  · refine .inr ⟨(List.dropWhile_suffix isSpace).subset (hrest ▸ List.mem_cons_self), ?_⟩
    cases mode with
    | remark => exact absurd rfl hmode
    | data =>
        rw [next?_data, hskip, hrest]
        rfl
    | statement =>
        rw [next?_statement, hskip, hrest]
        rfl

/-- A text and a new line after it are scanned one after the other, unless the text is marked as
ended before the new line. -/
theorem tokens_extend_newline_cases (scanner : Scanner) :
    (scanner.extend ('\n' :: b)).tokens = scanner.tokens ++ endOfLine :: (ofText b).tokens ∨
      (endMark ∈ scanner.rest ∧ (scanner.extend ('\n' :: b)).tokens = scanner.tokens) := by
  induction scanner using tokens.induct with
  | case1 scanner hnone =>
      rw [tokens_of_next?_eq_none hnone]
      rcases next?_extend_newline_of_none b hnone with hline | ⟨hmark, hend⟩
      · exact .inl (tokens_of_next?_eq_some hline)
      · exact .inr ⟨hmark, tokens_of_next?_eq_none hend⟩
  | case2 scanner token after hsome ih =>
      rw [tokens_of_next?_eq_some hsome, ((reads_of_next? hsome).extend_newline b).tokens_eq]
      rcases ih with htokens | ⟨hmark, htokens⟩
      · rw [htokens]
        exact .inl rfl
      · rw [htokens]
        exact .inr ⟨(suffix_of_next? hsome).subset hmark, rfl⟩

/-- A text and a new line after it are scanned one after the other. -/
theorem tokens_extend_newline (scanner : Scanner) (hmark : endMark ∉ scanner.rest) :
    (scanner.extend ('\n' :: b)).tokens = scanner.tokens ++ endOfLine :: (ofText b).tokens := by
  rcases tokens_extend_newline_cases b scanner with htokens | ⟨hmem, -⟩
  · exact htokens
  · exact absurd hmem hmark

end Newline

end Scanner

end LineBasic.Token
