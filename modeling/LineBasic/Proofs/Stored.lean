import LineBasic.Proofs.Blocks
import LineBasic.Proofs.Lexed

/-! Programs in stored form. A token has one or more stored forms; a line is stored as its tokens with
a blank after each, between its pointer and number and the zero byte that ends it. Decoding gives back
the lines, whatever their tokens are, as long as no two relational operators stand side by side. The
cipher of protected programs has an inverse, so a program that is stored under it is decoded alike. -/

namespace LineBasic

namespace Token

/-- Two tokens that are not joined if they stand side by side. -/
def Apart (first second : Token) : Prop :=
  ¬(first.kind.isRelational = true ∧ second.kind.isRelational = true)

instance (first second : Token) : Decidable (Apart first second) :=
  inferInstanceAs (Decidable (¬(_ ∧ _)))

/-- The tokens that a token is stored as: two for an operator of two characters. -/
def parts (token : Token) : List Token :=
  if token = ⟨.le, "<="⟩ then [⟨.lt, "<"⟩, ⟨.eq, "="⟩]
  else if token = ⟨.ge, ">="⟩ then [⟨.gt, ">"⟩, ⟨.eq, "="⟩]
  else if token = ⟨.ne, "<>"⟩ then [⟨.lt, "<"⟩, ⟨.gt, ">"⟩]
  else [token]

section Joining

/-- A token that stands apart from the next one is not joined to it. -/
theorem joinPairs_of_apart {token : Token} {rest : List Token} (h : ∀ next ∈ rest.head?, Apart token next) :
    joinPairs (token :: rest) = token :: joinPairs rest := by
  cases rest with
  | nil => rfl
  | cons next rest =>
      refine joinPairs_of_none ?_ rest
      cases hjoin : join? token next with
      | none => rfl
      | some joined =>
          obtain ⟨kind, hkind, -⟩ := Option.map_eq_some_iff.mp hjoin
          exact absurd (isRelational_of_joined? hkind) (h next rfl)

/-- A token is stored as an operator and its halves, or as itself. -/
theorem parts_cases (token : Token) :
    (∃ first second, parts token = [first, second] ∧ join? first second = some token) ∨ parts token = [token] := by
  unfold parts
  split
  · exact .inl ⟨_, _, rfl, by subst_vars; rfl⟩
  · split
    · exact .inl ⟨_, _, rfl, by subst_vars; rfl⟩
    · split
      · exact .inl ⟨_, _, rfl, by subst_vars; rfl⟩
      · exact .inr rfl

theorem parts_ne_nil (token : Token) : parts token ≠ [] := by
  obtain ⟨first, second, hparts, -⟩ | hparts := parts_cases token <;> simp [hparts]

/-- The stored form of a token begins with an operator only where the token is one. -/
theorem isRelational_of_head?_parts {token first : Token} (h : first ∈ (parts token).head?)
    (hfirst : first.kind.isRelational = true) : token.kind.isRelational = true := by
  obtain ⟨left, right, hparts, hjoin⟩ | hparts := parts_cases token
  · obtain ⟨kind, hkind, rfl⟩ := Option.map_eq_some_iff.mp hjoin
    unfold Kind.joined? at hkind
    split at hkind <;> cases hkind <;> rfl
  · rw [hparts] at h
    cases h
    exact hfirst

/-- Joining puts the halves of operators together again, where operators stand apart. -/
theorem joinRelational_parts {tokens : List Token} (h : tokens.IsChain Apart) :
    joinRelational (tokens.flatMap parts) = tokens := by
  rw [joinRelational_eq_joinPairs]
  induction tokens with
  | nil => rfl
  | cons token rest ih =>
      rw [List.flatMap_cons]
      obtain ⟨first, second, hparts, hjoin⟩ | hparts := parts_cases token
      · rw [hparts, List.cons_append, List.cons_append, List.nil_append, joinPairs_of_some hjoin, ih h.tail]
      · rw [hparts, List.singleton_append, joinPairs_of_apart, ih h.tail]
        intro next hnext hboth
        cases rest with
        | nil => cases hnext
        | cons other others =>
            rw [List.flatMap_cons, List.head?_append_of_ne_nil _ (parts_ne_nil other)] at hnext
            exact h.rel ⟨hboth.1, isRelational_of_head?_parts hnext hboth.2⟩

end Joining

section Name

/-- The characters of a name. -/
def IsNameChar (c : Char) : Prop :=
  c.isAlpha = true ∨ c.isDigit = true ∨ isSigil c = true ∨ c = '.'

theorem isNameChar_of_goesOn {digitSeen : Bool} {c : Char} {rest : List Char}
    (h : Piece.goesOn digitSeen (c :: rest) = true) : IsNameChar c := by
  simp only [Piece.goesOn, Bool.or_eq_true, Bool.and_eq_true, beq_iff_eq] at h
  obtain (((⟨halpha, -⟩ | hdigit) | hsigil) | hpoint) := h
  · exact .inl halpha
  · exact .inr (.inl hdigit)
  · exact .inr (.inr (.inl hsigil))
  · exact .inr (.inr (.inr hpoint))

/-- A name goes on with the characters of a name only. -/
theorem isNameChar_of_word (taken : List Char) (digitSeen : Bool) (c : Char) (rest : List Char)
    (hkind : (Piece.word taken digitSeen (c :: rest)).token.kind = .ident)
    (hwhole : (Piece.word taken digitSeen (c :: rest)).rest = []) : ∀ d ∈ rest, IsNameChar d := by
  induction rest generalizing c taken digitSeen with
  | nil => simp
  | cons next rest ih =>
      unfold Piece.word at hkind hwhole
      dsimp only at hkind hwhole
      split at hkind
      · rename_i hsigil
        rw [if_pos hsigil] at hwhole
        cases hwhole
      · rename_i hsigil
        rw [if_neg hsigil] at hwhole
        split at hkind
        · cases hkind
        · rename_i hnone
          rw [hnone] at hwhole
          dsimp only at hwhole
          split at hkind
          · rename_i hgoes
            rw [if_pos hgoes] at hwhole
            exact List.forall_mem_cons.mpr ⟨isNameChar_of_goesOn hgoes, ih _ _ next hkind hwhole⟩
          · rename_i hgoes
            rw [if_neg hgoes] at hwhole
            cases hwhole

theorem IsName.isNameChar {text : List Char} (h : IsName text) : ∀ c ∈ text, IsNameChar c := by
  obtain ⟨c, rest, rfl, hc⟩ := h.head
  refine List.forall_mem_cons.mpr ⟨.inl hc, isNameChar_of_word [] false c rest ?_ ?_⟩
  · rw [h.whole]
    rfl
  · rw [h.whole]
    rfl

end Name

end Token

namespace Image

open Token

section Cipher

/-- Applies the cipher to the byte at a position. -/
def encipher (position : Nat) (byte : UInt8) : UInt8 :=
  let mixed := (byte - 13 + UInt8.ofNat (position % 13)) ^^^ keyAt position
  mixed + 11 - UInt8.ofNat (position % 11)

/-- Applies the cipher to the bytes after the mark of a protected program. -/
def protect (bytes : List UInt8) : List UInt8 :=
  bytes.mapIdx fun n byte => encipher (n % 143) byte

/-- Two shifts with a key mixed in between are undone in reverse order. -/
theorem mix_cancel (byte key low high first second : UInt8) :
    ((((byte - low + high) ^^^ key) + first - second - first + second) ^^^ key) + low - high = byte := by
  have hshift : ((byte - low + high) ^^^ key) + first - second - first + second =
      (byte - low + high) ^^^ key := by grind
  rw [hshift, UInt8.xor_assoc, UInt8.xor_self, UInt8.xor_zero]
  grind

theorem decipher_encipher (position : Nat) (byte : UInt8) :
    decipher position (encipher position byte) = byte :=
  mix_cancel byte (keyAt position) 13 _ 11 _

theorem encipher_decipher (position : Nat) (byte : UInt8) :
    encipher position (decipher position byte) = byte :=
  mix_cancel byte (keyAt position) 11 _ 13 _

theorem unprotect_protect (bytes : List UInt8) : unprotect (protect bytes) = bytes := by
  refine List.ext_getElem? fun position => ?_
  simp [unprotect, protect, List.getElem?_mapIdx, Function.comp_def, decipher_encipher]

theorem protect_unprotect (bytes : List UInt8) : protect (unprotect bytes) = bytes := by
  refine List.ext_getElem? fun position => ?_
  simp [unprotect, protect, List.getElem?_mapIdx, Function.comp_def, encipher_decipher]

end Cipher

section StoredAs

/-- Two bytes, the lower one first. -/
def littleEndian (n : UInt16) : List UInt8 :=
  [UInt8.ofNat (n.toNat % 256), UInt8.ofNat (n.toNat / 256)]

/-- The operators of one character and their codes. -/
def operators : List (Token × UInt8) :=
  [(⟨.gt, ">"⟩, 0xE6), (⟨.eq, "="⟩, 0xE7), (⟨.lt, "<"⟩, 0xE8), (⟨.plus, "+"⟩, 0xE9),
    (⟨.minus, "-"⟩, 0xEA), (⟨.asterisk, "*"⟩, 0xEB), (⟨.slash, "/"⟩, 0xEC), (⟨.caret, "^"⟩, 0xED),
    (⟨.backslash, "\\"⟩, 0xF4)]

/-- The operators of two characters and the codes of these. -/
def joinedOperators : List (Token × UInt8 × UInt8) :=
  [(⟨.le, "<="⟩, 0xE8, 0xE7), (⟨.ge, ">="⟩, 0xE6, 0xE7), (⟨.ne, "<>"⟩, 0xE8, 0xE6)]

/-- The separators, which stand for themselves. -/
def separators : List (Token × UInt8) :=
  [(⟨.comma, ","⟩, 0x2C), (⟨.semicolon, ";"⟩, 0x3B), (⟨.leftParen, "("⟩, 0x28),
    (⟨.rightParen, ")"⟩, 0x29), (⟨.colon, ":"⟩, 0x3A)]

/-- The stored forms of a token. Words that take the rest of their statement with them, REM and DATA,
are left out. -/
inductive StoredAs : Token → List UInt8 → Prop
  | keyword {word : Keyword} {code : UInt8} (hword : word ≠ .REM ∧ word ≠ .DATA)
      (hcode : (code, word.spelling) ∈ Codes.plain) : StoredAs (.ofKeyword word) [code]
  | extended {word : Keyword} {code : UInt8} (hword : word ≠ .REM ∧ word ≠ .DATA)
      (hcode : (code, word.spelling) ∈ Codes.afterFE) : StoredAs (.ofKeyword word) [0xFE, code]
  | operator {token : Token} {code : UInt8} (h : (token, code) ∈ operators) : StoredAs token [code]
  | joined {token : Token} {first second : UInt8} (h : (token, first, second) ∈ joinedOperators) :
      StoredAs token [first, second]
  | small {n : Nat} (h : n ≤ 10) : StoredAs ⟨.int, toString n⟩ [UInt8.ofNat (0x11 + n)]
  | byte (n : UInt8) : StoredAs ⟨.int, toString n.toNat⟩ [0x0F, n]
  | word (n : UInt16) (h : n.toNat ≤ 32767) :
      StoredAs ⟨.int, toString n.toNat⟩ (0x1C :: littleEndian n)
  | hex (n : UInt16) :
      StoredAs ⟨.hex, "&H" ++ String.ofList ((Nat.toDigits 16 n.toNat).map Char.toUpper)⟩
        (0x0C :: littleEndian n)
  | octal (n : UInt16) :
      StoredAs ⟨.octal, "&O" ++ String.ofList (Nat.toDigits 8 n.toNat)⟩ (0x0B :: littleEndian n)
  | name {text : String} (hcapitals : Text.upper text = text)
      (hlex : lex text = [⟨.ident, text⟩, endOfInput]) :
      StoredAs ⟨.ident, text⟩ (text.toList.map fun c => UInt8.ofNat c.toNat)
  | string {body : List UInt8} (h : ∀ byte ∈ body, byte ≠ 0x00 ∧ byte ≠ 0x0A ∧ byte ≠ 0x22) :
      StoredAs ⟨.text, latinText body⟩ (0x22 :: (body ++ [0x22]))
  | separator {token : Token} {byte : UInt8} (h : (token, byte) ∈ separators) : StoredAs token [byte]

end StoredAs

section Read

/-- The bytes are read as the elements, in front of a blank. -/
def Reads (bytes : List UInt8) (elements : List Element) : Prop :=
  ∀ rest, rest.head? = some 0x20 → payload? (bytes ++ rest) =
    (payload? rest).map fun (more, after) => (elements ++ more, after)

variable {byte : UInt8} {front bytes : List UInt8} {element : Element} {elements : List Element}

theorem reads_nil : Reads [] [] := by
  intro rest _
  cases hrest : payload? rest with
  | none => simp [hrest]
  | some found => simp [hrest]

theorem Reads.cons (h : Reads bytes elements) (hne : element ≠ .finish)
    (hfrom : ∀ rest, rest.head? = some 0x20 →
      elementFrom? byte (front ++ (bytes ++ rest)) = some (element, bytes ++ rest)) :
    Reads (byte :: (front ++ bytes)) (element :: elements) := by
  intro rest hrest
  rw [List.cons_append, List.append_assoc, payload?_cons (hfrom rest hrest) hne, h rest hrest,
    Option.map_map]
  rfl

theorem reads_single (hne : element ≠ .finish)
    (hfrom : ∀ rest, rest.head? = some 0x20 →
      elementFrom? byte (front ++ rest) = some (element, rest)) :
    Reads (byte :: front) [element] := by
  have hreads : Reads (byte :: (front ++ [])) [element] := reads_nil.cons hne hfrom
  rwa [List.append_nil] at hreads

end Read

section Render

/-- In front of a blank the elements stand for the tokens. -/
def Renders (elements : List Element) (tokens : List Token) : Prop :=
  ∀ more, tokensOf [] (elements ++ .verbatim [' '] :: more) = tokens ++ tokensOf [] more

theorem appendWord_append {text : List Char} (hlast : ∀ c ∈ text.getLast?, c.isAlphanum = false)
    (more : List Char) (word : String) :
    appendWord (text ++ more) word = text ++ appendWord more word := by
  cases hmore : more.getLast? with
  | none =>
      obtain rfl := List.getLast?_eq_none_iff.mp hmore
      rw [List.append_nil]
      cases htext : text.getLast? with
      | none =>
          obtain rfl := List.getLast?_eq_none_iff.mp htext
          rfl
      | some c => simp [appendWord, htext, hlast c htext]
  | some c =>
      have hwhole : (text ++ more).getLast? = some c := by rw [List.getLast?_append, hmore]; rfl
      simp only [appendWord, hwhole, hmore]
      split <;> rw [List.append_assoc]

/-- Text that is scanned to the same tokens whatever follows it can be scanned on its own. A word that
is spelled out after it needs no blank. -/
theorem tokensOf_append {text : List Char} {scanned : List Token}
    (hscan : ∀ tail, lexFragment (text ++ tail) false = scanned ++ lexFragment tail false)
    (hlast : ∀ c ∈ text.getLast?, c.isAlphanum = false) (more : List Char) (elements : List Element) :
    tokensOf (text ++ more) elements = scanned ++ tokensOf more elements := by
  induction elements generalizing more with
  | nil => exact hscan more
  | cons element elements ih =>
      cases element with
      | finish => exact ih more
      | verbatim added =>
          rw [tokensOf, tokensOf, List.append_assoc]
          exact ih (more ++ added)
      | word added =>
          rw [tokensOf, tokensOf, appendWord_append hlast]
          exact ih _
      | token value => rw [tokensOf, tokensOf, hscan, List.append_assoc]
      | remark mark body => rw [tokensOf, tokensOf, hscan, List.append_assoc]
      | data body => rw [tokensOf, tokensOf, hscan, List.append_assoc]

theorem tokensOf_blank (elements : List Element) : tokensOf [' '] elements = tokensOf [] elements := by
  have hscan : ∀ tail, lexFragment ([' '] ++ tail) false = [] ++ lexFragment tail false :=
    fun tail => lexFragment_space false (by decide)
  exact tokensOf_append hscan (by simp) [] elements

theorem renders_tokens (values : List Token) : Renders (values.map .token) values := by
  intro more
  induction values with
  | nil => exact tokensOf_blank more
  | cons value values ih =>
      rw [List.map_cons, List.cons_append, tokensOf, lexFragment_nil, ih]
      rfl

theorem tokensOf_verbatim (text : List Char) (pieces : List (List Char)) (more : List Element) :
    tokensOf text (pieces.map .verbatim ++ more) = tokensOf (text ++ pieces.flatten) more := by
  induction pieces generalizing text with
  | nil => rw [List.flatten_nil, List.append_nil]; rfl
  | cons piece pieces ih =>
      rw [List.map_cons, List.cons_append, tokensOf, ih, List.flatten_cons, List.append_assoc]

/-- Verbatim text that spells a token. -/
theorem renders_verbatim {pieces : List (List Char)} {token : Token} (h : Spells pieces.flatten [token]) :
    Renders (pieces.map .verbatim) [token] := by
  intro more
  have hscan : ∀ tail, lexFragment (pieces.flatten ++ [' '] ++ tail) false =
      [token] ++ lexFragment tail false := by
    intro tail
    have hbreak : Breaks ([' '] ++ tail) := breaks_cons (by decide)
    rw [List.append_assoc, h.scan _ hbreak]
    exact congrArg ([token] ++ ·) (lexFragment_space false (by decide))
  rw [tokensOf_verbatim, List.nil_append, tokensOf]
  have happend := tokensOf_append hscan (by simp) [] more
  rwa [List.append_nil] at happend

end Render

section Keyword

variable {table : List (UInt8 × String)} {code : UInt8} {keyword : Keyword}

/-- The code of a word stands for the word, unless it is one that takes the rest of its statement with
it, or WHILE in front of a plus sign. -/
theorem coded?_keyword (hcode : table.lookup code = some keyword.spelling)
    (h : keyword ≠ .REM ∧ keyword ≠ .DATA) {rest : List UInt8} (hplus : rest.head? ≠ some 0xE9) :
    coded? table code rest = some (.token (.ofKeyword keyword), rest) := by
  have hoperator : operatorKind? keyword.spelling = none := by cases keyword <;> rfl
  have hword : Keyword.ofWord? keyword.spelling = some keyword := by
    have hcapitals := keyword.capitals_spelling.1
    have hfound := Keyword.ofWord?_eq_some_iff.mpr hcapitals.symm
    rwa [String.ofList_toList] at hfound
  have hkeep : (if rest.head? = some 0xE9 then rest.tail else rest) = rest := if_neg hplus
  simp only [coded?, hcode, hoperator, hword, hkeep]
  split
  · contradiction
  · rename_i heq
    exact absurd (Option.some.inj heq) h.1
  · rename_i heq
    exact absurd (Option.some.inj heq) h.2
  · rename_i heq
    cases heq
    rfl
  · rename_i heq
    cases heq
    rfl
  · contradiction

/-- Where the codes of a table ascend, each entry is found by its code. -/
theorem lookup_of_mem {table : List (UInt8 × String)} {text : String}
    (hascends : (table.map fun entry => entry.1.toNat).IsChain (· < ·)) (h : (code, text) ∈ table) :
    table.lookup code = some text := by
  obtain ⟨before, after, rfl⟩ := List.append_of_mem h
  rw [List.isChain_iff_pairwise, List.map_append, List.pairwise_append] at hascends
  refine List.lookup_eq_some_iff.mpr ⟨before, after, rfl, fun entry hentry => ?_⟩
  have hless : entry.1.toNat < code.toNat := hascends.2.2 _ (List.mem_map_of_mem hentry) _ List.mem_cons_self
  rw [bne_iff_ne]
  rintro rfl
  exact absurd hless (Nat.lt_irrefl _)

/-- The codes of words of one byte are no other bytes. -/
theorem codes_plain : ∀ entry ∈ Codes.plain, entry.1 ∉ leads ∧ 0x81 ≤ entry.1.toNat ∧ entry.1.toNat ≤ 0xF4 := by
  decide +kernel

theorem elementFrom?_plain {text : String} (h : (code, text) ∈ Codes.plain) (rest : List UInt8) :
    Codes.plain.lookup code = some text ∧ elementFrom? code rest = coded? Codes.plain code rest := by
  obtain ⟨hlead, hlow, hhigh⟩ := codes_plain _ h
  dsimp only at hlead hlow hhigh
  refine ⟨lookup_of_mem (by decide +kernel) h, ?_⟩
  rw [elementFrom?_alone hlead, if_neg (by simp; omega), if_pos (by simp; omega)]

end Keyword

section Forms

theorem parts_of_isRelational {token : Token} (h : token.kind.isRelational = false) :
    token.parts = [token] := by
  unfold parts
  rw [if_neg, if_neg, if_neg]
  all_goals
    rintro rfl
    cases h

theorem word16_littleEndian (n : UInt16) :
    word16 (UInt8.ofNat (n.toNat % 256)) (UInt8.ofNat (n.toNat / 256)) = n.toNat := by
  have hlt := n.toNat_lt
  unfold word16
  rw [UInt8.toNat_ofNat', UInt8.toNat_ofNat']
  omega

theorem decimalToken_nat {n : Nat} (h : n ≤ 32767) :
    decimalToken (toString n) = .token ⟨.int, toString n⟩ := by
  rw [decimalToken, toList_toString, numberKind_digits h]

theorem signedText_nat {n : Nat} (h : n ≤ 32767) : signedText n = toString n := by
  have hvalue : (UInt16.ofNat n).toInt16.toInt = n := by
    rw [UInt16.toInt16_ofNat', ← Int16.ofInt_eq_ofNat, Int16.toInt_ofInt_of_le (by omega) (by omega)]
  rw [signedText, hvalue]
  rfl

theorem toNat_latin (byte : UInt8) : (latin byte).toNat = byte.toNat := by
  have hcodes : ∀ n < 2 ^ 8, (Char.ofNat n).toNat = n := by decide +kernel
  exact hcodes byte.toNat byte.toNat_lt

/-- A form that is read as one token. -/
theorem read_token {byte : UInt8} {front : List UInt8} {token : Token} (hparts : token.parts = [token])
    (h : ∀ rest, rest.head? = some 0x20 →
      elementFrom? byte (front ++ rest) = some (.token token, rest)) :
    ∃ elements, Reads (byte :: front) elements ∧ Renders elements token.parts := by
  rw [hparts]
  exact ⟨[.token token], reads_single nofun h, renders_tokens [token]⟩

/-- A form that is read as two tokens, each by its code. -/
theorem read_pair {first second : UInt8} {left right : Token}
    (hfirst : ∀ rest, elementFrom? first rest = some (.token left, rest))
    (hsecond : ∀ rest, elementFrom? second rest = some (.token right, rest)) :
    ∃ elements, Reads [first, second] elements ∧ Renders elements [left, right] := by
  have hlast : Reads [second] [.token right] := reads_single nofun fun rest _ => hsecond rest
  have hreads : Reads (first :: ([] ++ [second])) [.token left, .token right] :=
    hlast.cons nofun fun rest _ => hfirst _
  exact ⟨_, hreads, renders_tokens [left, right]⟩

theorem read_operator {token : Token} {code : UInt8} (h : (token, code) ∈ operators) :
    ∃ elements, Reads [code] elements ∧ Renders elements token.parts := by
  simp only [operators, List.mem_cons, List.not_mem_nil, or_false, Prod.mk.injEq] at h
  rcases h with h | h | h | h | h | h | h | h | h
  all_goals
    obtain ⟨rfl, rfl⟩ := h
    exact read_token rfl fun _ _ => rfl

theorem read_joined {token : Token} {first second : UInt8}
    (h : (token, first, second) ∈ joinedOperators) :
    ∃ elements, Reads [first, second] elements ∧ Renders elements token.parts := by
  simp only [joinedOperators, List.mem_cons, List.not_mem_nil, or_false, Prod.mk.injEq] at h
  rcases h with h | h | h
  all_goals
    obtain ⟨rfl, rfl, rfl⟩ := h
    exact read_pair (fun _ => rfl) fun _ => rfl

theorem ofNat_not_mem_leads {n : Nat} (hlt : n < 256) (h : n ∉ leads.map UInt8.toNat) :
    (UInt8.ofNat n).toNat = n ∧ UInt8.ofNat n ∉ leads := by
  have hnat : (UInt8.ofNat n).toNat = n := by
    rw [UInt8.toNat_ofNat']
    omega
  exact ⟨hnat, fun hmem => h (hnat ▸ List.mem_map_of_mem hmem)⟩

theorem elementFrom?_small {n : Nat} (h : n ≤ 10) (rest : List UInt8) :
    elementFrom? (UInt8.ofNat (0x11 + n)) rest = some (.token ⟨.int, toString n⟩, rest) := by
  obtain ⟨hnat, hlead⟩ : (UInt8.ofNat (0x11 + n)).toNat = 0x11 + n ∧ UInt8.ofNat (0x11 + n) ∉ leads :=
    ofNat_not_mem_leads (by omega) (by simp [leads]; omega)
  rw [elementFrom?_alone hlead, hnat, if_pos (by simp; omega), Nat.add_sub_cancel_left,
    decimalToken_nat (by omega)]

theorem elementFrom?_nameChar {c : Char} (h : IsNameChar c) (rest : List UInt8) :
    elementFrom? (UInt8.ofNat c.toNat) rest = some (.verbatim [c], rest) := by
  have hrange : 33 ≤ c.toNat ∧ c.toNat ≤ 122 ∧ c.toNat ≠ 34 ∧ c.toNat ≠ 58 := by
    rcases h with h | h | h | rfl
    · rw [Chars.isAlpha_iff] at h
      omega
    · rw [Chars.isDigit_iff] at h
      omega
    · simp only [isSigil, Bool.or_eq_true, beq_iff_eq, or_assoc] at h
      rcases h with rfl | rfl | rfl | rfl <;> decide
    · decide
  obtain ⟨hnat, hlead⟩ : (UInt8.ofNat c.toNat).toNat = c.toNat ∧ UInt8.ofNat c.toNat ∉ leads :=
    ofNat_not_mem_leads (by omega) (by simp [leads]; omega)
  rw [elementFrom?_alone hlead, hnat, if_neg (by simp; omega), if_neg (by simp; omega), latin, hnat,
    Char.ofNat_toNat]

theorem reads_chars {text : List Char} (h : ∀ c ∈ text, IsNameChar c) :
    Reads (text.map fun c => UInt8.ofNat c.toNat) ((text.map fun c => [c]).map .verbatim) := by
  induction text with
  | nil => exact reads_nil
  | cons c text ih =>
      rw [List.forall_mem_cons] at h
      have hreads : Reads (UInt8.ofNat c.toNat :: ([] ++ text.map fun c => UInt8.ofNat c.toNat))
          (.verbatim [c] :: (text.map fun c => [c]).map .verbatim) :=
        (ih h.2).cons nofun fun rest _ => elementFrom?_nameChar h.1 _
      exact hreads

theorem read_name {text : String} (hcapitals : Text.upper text = text)
    (hlex : lex text = [⟨.ident, text⟩, endOfInput]) :
    ∃ elements, Reads (text.toList.map fun c => UInt8.ofNat c.toNat) elements ∧
      Renders elements [⟨.ident, text⟩] := by
  have hname := IsName.of_lex hlex hcapitals
  have hspells := spells_name hname
  rw [String.ofList_toList] at hspells
  refine ⟨_, reads_chars hname.isNameChar, renders_verbatim ?_⟩
  rwa [← List.flatMap_def, List.flatMap_singleton']

theorem splitQuoted?_append {body : List UInt8}
    (h : ∀ byte ∈ body, byte ≠ 0x00 ∧ byte ≠ 0x0A ∧ byte ≠ 0x22) (rest : List UInt8) :
    splitQuoted? (body ++ 0x22 :: rest) = some (body, rest) := by
  induction body with
  | nil => rfl
  | cons byte body ih =>
      rw [List.forall_mem_cons] at h
      obtain ⟨⟨hzero, -, hquote⟩, hbody⟩ := h
      rw [List.cons_append, splitQuoted?, if_neg (by simp [hzero]), if_neg (by simp [hquote]), ih hbody]
      rfl

theorem read_string {body : List UInt8}
    (h : ∀ byte ∈ body, byte ≠ 0x00 ∧ byte ≠ 0x0A ∧ byte ≠ 0x22) :
    ∃ elements, Reads (0x22 :: (body ++ [0x22])) elements ∧
      Renders elements [⟨.text, latinText body⟩] := by
  have hreads : Reads (0x22 :: (body ++ [0x22])) [.verbatim ('"' :: (body.map latin ++ ['"']))] := by
    refine reads_single nofun fun rest _ => ?_
    rw [List.append_assoc]
    change (splitQuoted? (body ++ 0x22 :: rest)).map _ = _
    rw [splitQuoted?_append h]
    rfl
  have hchars : ∀ c ∈ body.map latin, c ≠ '"' ∧ c ≠ '\n' := by
    intro c hc
    obtain ⟨byte, hbyte, rfl⟩ := List.mem_map.mp hc
    obtain ⟨-, hline, hquote⟩ := h byte hbyte
    rw [ne_eq, ne_eq, Chars.eq_iff, Chars.eq_iff, toNat_latin]
    exact ⟨fun heq => hquote (UInt8.toNat_inj.mp heq), fun heq => hline (UInt8.toNat_inj.mp heq)⟩
  have hrenders : Renders (['"' :: (body.map latin ++ ['"'])].map .verbatim) [⟨.text, latinText body⟩] := by
    refine renders_verbatim ?_
    rw [List.flatten_singleton]
    exact spells_quoted hchars
  exact ⟨_, hreads, hrenders⟩

theorem read_separator {token : Token} {byte : UInt8} (h : (token, byte) ∈ separators) :
    ∃ elements, Reads [byte] elements ∧ Renders elements token.parts := by
  -- a separator is a character that is never joined to what follows
  have hlone : ∀ (c : Char) (byte : UInt8), isLone c = true →
      (∀ rest : List UInt8, rest.head? = some 0x20 →
        elementFrom? byte ([] ++ rest) = some (.verbatim [c], rest)) →
      ∃ elements, Reads [byte] elements ∧ Renders elements [ofSymbol c] := by
    intro c byte hc hfrom
    have hrenders : Renders ([[c]].map .verbatim) [ofSymbol c] := renders_verbatim (Spells.nil.lone hc)
    exact ⟨[.verbatim [c]], reads_single nofun hfrom, hrenders⟩
  simp only [separators, List.mem_cons, List.not_mem_nil, or_false, Prod.mk.injEq] at h
  rcases h with h | h | h | h | h <;> obtain ⟨rfl, rfl⟩ := h
  · exact hlone ',' _ rfl fun _ _ => rfl
  · exact hlone ';' _ rfl fun _ _ => rfl
  · exact hlone '(' _ rfl fun _ _ => rfl
  · exact hlone ')' _ rfl fun _ _ => rfl
  · refine hlone ':' _ rfl fun rest hrest => elementFrom?_colon ?_ ?_
    · simp [hrest]
    · obtain ⟨tail, rfl⟩ := List.head?_eq_some_iff.mp hrest
      simp

/-- Each stored form of a token is read back as the token. -/
theorem StoredAs.read {token : Token} {bytes : List UInt8} (h : StoredAs token bytes) :
    ∃ elements, Reads bytes elements ∧ Renders elements token.parts := by
  cases h with
  | keyword hword hcode =>
      refine read_token (parts_of_isRelational rfl) fun rest hrest => ?_
      obtain ⟨hlookup, hfrom⟩ := elementFrom?_plain hcode ([] ++ rest)
      rw [hfrom]
      exact coded?_keyword hlookup hword (by simp [hrest])
  | @extended word code hword hcode =>
      refine read_token (parts_of_isRelational rfl) fun rest hrest => ?_
      exact coded?_keyword (lookup_of_mem (by decide +kernel) hcode) hword (by simp [hrest])
  | operator h => exact read_operator h
  | joined h => exact read_joined h
  | small h => exact read_token (parts_of_isRelational rfl) fun rest _ => elementFrom?_small h rest
  | byte n =>
      have hlt := n.toNat_lt
      refine read_token (parts_of_isRelational rfl) fun rest _ => ?_
      rw [← decimalToken_nat (by omega)]
      rfl
  | word n h =>
      refine read_token (parts_of_isRelational rfl) fun rest _ => ?_
      rw [← decimalToken_nat h, ← signedText_nat h, ← word16_littleEndian n]
      rfl
  | hex n =>
      refine read_token (parts_of_isRelational rfl) fun rest _ => ?_
      rw [← word16_littleEndian n]
      rfl
  | octal n =>
      refine read_token (parts_of_isRelational rfl) fun rest _ => ?_
      rw [← word16_littleEndian n]
      rfl
  | name hcapitals hlex =>
      rw [parts_of_isRelational rfl]
      exact read_name hcapitals hlex
  | string h =>
      rw [parts_of_isRelational rfl]
      exact read_string h
  | separator h => exact read_separator h

end Forms

/-- A line in stored form: its number, and its tokens each with one of its stored forms. Relational
operators stand apart, since neighbours would be read as one. -/
structure StoredLine where
  pointer : UInt16
  number : UInt16
  items : List (Token × List UInt8)
  pointer_ne : pointer ≠ 0
  stored : ∀ item ∈ items, StoredAs item.1 item.2
  apart : (items.map Prod.fst).IsChain Apart

namespace StoredLine

/-- The bytes of the tokens, with a blank after each. -/
def payload (line : StoredLine) : List UInt8 := line.items.flatMap fun item => item.2 ++ [0x20]

def bytes (line : StoredLine) : List UInt8 :=
  littleEndian line.pointer ++ littleEndian line.number ++ line.payload ++ [0x00]

def tokens (line : StoredLine) : List Token := block line.number.toNat (line.items.map Prod.fst)

end StoredLine

section Lines

/-- Tokens in stored form, with a blank after each, are read back as the tokens that they are made of. -/
theorem exists_elements {items : List (Token × List UInt8)}
    (h : ∀ item ∈ items, StoredAs item.1 item.2) : ∃ elements,
      (∀ rest, payload? ((items.flatMap fun item => item.2 ++ [0x20]) ++ 0x00 :: rest) =
        some (elements, rest)) ∧
      tokensOf [] elements = (items.map Prod.fst).flatMap parts := by
  induction items with
  | nil => exact ⟨[], payload?_zero, lexFragment_nil false⟩
  | cons item items ih =>
      rw [List.forall_mem_cons] at h
      obtain ⟨others, hothers, hrest⟩ := ih h.2
      obtain ⟨elements, hreads, hrenders⟩ := h.1.read
      refine ⟨elements ++ .verbatim [' '] :: others, fun rest => ?_, ?_⟩
      · have hblank : ∀ rest, elementFrom? 0x20 rest = some (.verbatim [' '], rest) := fun _ => rfl
        rw [List.flatMap_cons, List.append_assoc, List.append_assoc, hreads _ rfl,
          List.singleton_append, payload?_cons (hblank _) nofun, hothers]
        rfl
      · rw [hrenders, hrest, List.map_cons, List.flatMap_cons]

/-- A line in stored form is a complete record of its tokens. -/
theorem StoredLine.exists_chunk (line : StoredLine) :
    ∃ chunk : Chunk, chunk.bytes = line.bytes ∧ chunk.record.tokens = line.tokens := by
  obtain ⟨elements, hread, htokens⟩ := exists_elements line.stored
  have hpointer : word16 (UInt8.ofNat (line.pointer.toNat % 256)) (UInt8.ofNat (line.pointer.toNat / 256)) ≠
      0 := by
    rw [word16_littleEndian]
    exact fun hzero => line.pointer_ne (UInt16.toNat_inj.mp hzero)
  have hnumber := word16_littleEndian line.number
  refine ⟨⟨line.bytes, ⟨line.number.toNat, elements⟩,
    ⟨_, _, _, _, line.payload, rfl, hpointer, hnumber.symm⟩, fun rest => ?_⟩, rfl, ?_⟩
  · have hlist : line.bytes ++ rest =
        UInt8.ofNat (line.pointer.toNat % 256) :: UInt8.ofNat (line.pointer.toNat / 256) ::
          UInt8.ofNat (line.number.toNat % 256) :: UInt8.ofNat (line.number.toNat / 256) ::
            (line.payload ++ 0x00 :: rest) := by
      simp [StoredLine.bytes, littleEndian]
    rw [hlist, record?, if_neg hpointer, StoredLine.payload, hread, hnumber]
    rfl
  · have hjoin := joinRelational_parts line.apart
    change block line.number.toNat (joinRelational (tokensOf [] elements)) = _
    rw [htokens, hjoin]
    rfl

theorem exists_chunks (lines : List StoredLine) : ∃ pieces : List Chunk,
    pieces.flatMap Chunk.bytes = lines.flatMap StoredLine.bytes ∧
      (pieces.flatMap fun chunk => chunk.record.tokens) = lines.flatMap StoredLine.tokens := by
  induction lines with
  | nil => exact ⟨[], rfl, rfl⟩
  | cons line lines ih =>
      obtain ⟨chunk, hbytes, htokens⟩ := line.exists_chunk
      obtain ⟨pieces, hpieces, hrest⟩ := ih
      exact ⟨chunk :: pieces, by simp only [List.flatMap_cons, hbytes, hpieces],
        by simp only [List.flatMap_cons, htokens, hrest]⟩

/-- Decoding gives back the lines of a program in stored form, and those of one that is stored under
the cipher. On bytes of every length the cipher and its inverse undo each other. -/
theorem tokens_stored_lines (lines : List StoredLine) :
    let records := lines.flatMap StoredLine.bytes ++ [0x00, 0x00]
    let decoded := lines.flatMap StoredLine.tokens ++ [endOfInput]
    tokens (0xFF :: records) = decoded ∧ tokens (0xFE :: protect records) = decoded ∧
      ∀ bytes, unprotect (protect bytes) = bytes ∧ protect (unprotect bytes) = bytes := by
  intro records decoded
  obtain ⟨pieces, hbytes, htokens⟩ := exists_chunks lines
  have hchunks : chunks records = pieces := by
    rw [← chunks_flatMap pieces (rfl : record? [0x00, 0x00] = none), hbytes]
  have hdecoded : ∀ bytes, IsStored bytes → body bytes = records → tokens bytes = decoded := by
    intro bytes hstored hbody
    rw [tokens_stored hstored, hbody, hchunks, htokens]
  refine ⟨hdecoded _ (.inl rfl) rfl, hdecoded _ (.inr rfl) ?_, fun bytes =>
    ⟨unprotect_protect bytes, protect_unprotect bytes⟩⟩
  exact unprotect_protect records

/-- `10 IF A$<="HI" THEN PRINT 300,&H1F:CHAIN B`. -/
def chainLine : StoredLine where
  pointer := 0x1001
  number := 10
  items :=
    [(.ofKeyword .IF, [0x8B]), (⟨.ident, "A$"⟩, [0x41, 0x24]), (⟨.le, "<="⟩, [0xE8, 0xE7]),
      (⟨.text, latinText [0x48, 0x49]⟩, [0x22, 0x48, 0x49, 0x22]), (.ofKeyword .THEN, [0xCD]),
      (.ofKeyword .PRINT, [0x91]), (⟨.int, "300"⟩, [0x1C, 0x2C, 0x01]), (⟨.comma, ","⟩, [0x2C]),
      (⟨.hex, "&H1F"⟩, [0x0C, 0x1F, 0x00]), (⟨.colon, ":"⟩, [0x3A]), (.ofKeyword .CHAIN, [0xFE, 0x8C]),
      (⟨.ident, "B"⟩, [0x42])]
  pointer_ne := by decide
  stored := by
    simp only [List.forall_mem_cons, List.not_mem_nil, false_implies, implies_true, and_true]
    exact ⟨.keyword (by decide) (by decide), .name (by decide +kernel) (by decide +kernel),
      .joined (by decide), .string (by simp), .keyword (by decide) (by decide),
      .keyword (by decide) (by decide), .word 300 (by decide), .separator (by decide), .hex 0x1F,
      .separator (by decide), .extended (by decide) (by decide),
      .name (by decide +kernel) (by decide +kernel)⟩
  apart := by decide

/-- The line is decoded alike with and without the cipher. -/
theorem tokens_stored_lines_chain :
    let records := chainLine.bytes ++ [0x00, 0x00]
    tokens (0xFF :: records) = tokens (0xFE :: protect records) ∧
      tokens (0xFF :: records) =
        [⟨.lineNumber, "10"⟩, .ofKeyword .IF, ⟨.ident, "A$"⟩, ⟨.le, "<="⟩, ⟨.text, "HI"⟩,
          .ofKeyword .THEN, .ofKeyword .PRINT, ⟨.int, "300"⟩, ⟨.comma, ","⟩, ⟨.hex, "&H1F"⟩,
          ⟨.colon, ":"⟩, .ofKeyword .CHAIN, ⟨.ident, "B"⟩, endOfLine, endOfInput] := by
  obtain ⟨hplain, hprotected, -⟩ := tokens_stored_lines [chainLine]
  exact ⟨hplain.trans hprotected.symm, hplain⟩

end Lines

end Image

end LineBasic
