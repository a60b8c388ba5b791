import LineBasic.Code.Name
import LineBasic.Proofs.Scan
import LineBasic.Proofs.WordTable

/-! Words of a text. A reserved word is scanned as itself wherever a break follows it, and a name that
was scanned once is scanned as the same name in capitals. The letters FN may be put in front of any
name, since no reserved word starts with them. -/

namespace LineBasic

theorem Text.upper_ofList (text : List Char) :
    Text.upper (String.ofList text) = String.ofList (text.map Char.toUpper) := by
  rw [Text.upper, String.map_eq_internal, String.toList_ofList]

theorem Text.map_toUpper_toUpper (text : List Char) :
    (text.map Char.toUpper).map Char.toUpper = text.map Char.toUpper := by
  rw [List.map_map]
  exact List.map_congr_left fun c _ => Chars.toUpper_toUpper c

namespace Keyword

/-- One reserved word is the start of another. -/
theorem eq_of_isPrefixOf_spelling : ∀ word ∈ all, ∀ other ∈ all,
    other.spelling.toList.isPrefixOf word.spelling.toList = true →
      other = word ∨ word = .ERROR ∧ other = .ERR := by
  simp only [toList_spelling]
  decide +kernel

theorem spelling_inj {word other : Keyword} (h : other.spelling = word.spelling) : other = word :=
  letters_inj (by rw [← toList_spelling, ← toList_spelling, h])

/-- What the table of the reserved words shows, gone through once: no word stands there twice, every word
is made of capital letters, none starts with FN, and only REM itself with the letters of REM. -/
theorem table_all : all.Nodup ∧ ∀ word ∈ all,
    word.spelling.toList.map Char.toUpper = word.spelling.toList ∧
      word.spelling.toList.all Char.isAlpha = true ∧ word.spelling.toList ≠ [] ∧
      word.spelling.toList.take 2 ≠ ['F', 'N'] ∧
      (word.spelling.toList.take 3 = ['R', 'E', 'M'] → word.spelling.toList.length = 3) := by
  simp only [toList_spelling]
  decide +kernel

theorem capitals_spelling (word : Keyword) :
    word.spelling.toList.map Char.toUpper = word.spelling.toList ∧
      word.spelling.toList.all Char.isAlpha = true := by
  obtain ⟨hcapitals, hletters, -⟩ := table_all.2 word (mem_all word)
  exact ⟨hcapitals, hletters⟩

theorem spelling_ne_nil (word : Keyword) : word.spelling.toList ≠ [] :=
  (table_all.2 word (mem_all word)).2.2.1

theorem ofWord?_eq_some_iff {text : List Char} {word : Keyword} :
    ofWord? (String.ofList text) = some word ↔ word.spelling.toList = text.map Char.toUpper := by
  unfold ofWord?
  rw [Text.upper_ofList]
  constructor
  · intro h
    have hfound := List.find?_some h
    rw [beq_iff_eq] at hfound
    rw [hfound, String.toList_ofList]
  · intro h
    have hspelling : word.spelling = String.ofList (text.map Char.toUpper) := by
      rw [← h, String.ofList_toList]
    rw [List.find?_eq_some_iff_append]
    obtain ⟨before, after, hall⟩ := List.append_of_mem (mem_all word)
    have hnodup := table_all.1
    rw [hall] at hnodup
    refine ⟨by simp [hspelling], before, after, hall, ?_⟩
    intro other hother
    rw [Bool.not_eq_true', beq_eq_false_iff_ne, ← hspelling]
    intro heq
    rw [spelling_inj heq] at hother
    exact (List.nodup_append.mp hnodup).2.2 word hother word List.mem_cons_self rfl

/-- The table answers as the search through all words does. -/
theorem ofWord?_eq_ofLetters? (text : List Char) :
    ofWord? (String.ofList text) = ofLetters? (text.map Char.toUpper) :=
  Option.ext fun word => by rw [ofWord?_eq_some_iff, ofLetters?_eq_some_iff, toList_spelling]

theorem ofWord?_eq_none_iff {text : List Char} :
    ofWord? (String.ofList text) = none ↔
      ∀ word : Keyword, word.spelling.toList ≠ text.map Char.toUpper := by
  constructor
  · intro h word heq
    rw [ofWord?_eq_some_iff.mpr heq] at h
    cases h
  · intro h
    cases hword : ofWord? (String.ofList text) with
    | none => rfl
    | some word => exact absurd (ofWord?_eq_some_iff.mp hword) (h word)

theorem ofWord?_capitals {text : List Char} (h : ofWord? (String.ofList text) = none) :
    ofWord? (String.ofList (text.map Char.toUpper)) = none := by
  rw [ofWord?_eq_none_iff] at h ⊢
  rwa [Text.map_toUpper_toUpper]

/-- No reserved word starts with FN. -/
theorem ofWord?_function (text : List Char) : ofWord? (String.ofList ('F' :: 'N' :: text)) = none := by
  rw [ofWord?_eq_none_iff]
  intro word heq
  obtain ⟨-, -, -, hstart, -⟩ := table_all.2 word (mem_all word)
  refine hstart ?_
  rw [heq]
  rfl

/-- Only REM itself starts with its letters. -/
theorem ofWord?_remark {text : List Char} (h : text ≠ []) :
    ofWord? (String.ofList ('R' :: 'E' :: 'M' :: text)) = none := by
  rw [ofWord?_eq_none_iff]
  intro word heq
  obtain ⟨-, -, -, -, hstart⟩ := table_all.2 word (mem_all word)
  have hlength := hstart (by rw [heq]; rfl)
  rw [heq] at hlength
  simp only [List.map_cons, List.length_cons, List.length_map] at hlength
  exact h (List.length_eq_zero_iff.mp (by omega))

end Keyword

namespace Token

/-- The text of a name: a word in capitals that is scanned whole and is not reserved. -/
structure IsName (text : List Char) : Prop where
  head : ∃ c rest, text = c :: rest ∧ c.isAlpha = true
  capitals : text.map Char.toUpper = text
  whole : Piece.word [] false text = Piece.ofLexeme .ident text []

namespace Piece

theorem longestKeyword?_eq_none {word : List Char} (h : Keyword.ofWord? (String.ofList word) = none)
    (rest : List Char) : longestKeyword? word rest = none := by
  rw [longestKeyword?, h]
  rfl

/-- Where no longer word is found, the word itself is not reserved. -/
theorem ofWord?_of_longestKeyword? {word rest : List Char} (h : longestKeyword? word rest = none) :
    Keyword.ofWord? (String.ofList word) = none := by
  cases hword : Keyword.ofWord? (String.ofList word) with
  | none => rfl
  | some keyword =>
      rw [longestKeyword?, hword, Option.isSome_some, if_pos rfl, List.findSome?_eq_none_iff] at h
      have hzero := h 0 (by simp)
      rw [List.take_zero, List.append_nil, hword] at hzero
      cases hzero

theorem isSigil_toUpper (c : Char) : isSigil c.toUpper = isSigil c := by
  unfold isSigil
  rw [Chars.beq_toUpper rfl, Chars.beq_toUpper rfl, Chars.beq_toUpper rfl, Chars.beq_toUpper rfl]

theorem goesOn_capitals (digitSeen : Bool) (text : List Char) :
    goesOn digitSeen (text.map Char.toUpper) = goesOn digitSeen text := by
  cases text with
  | nil => rfl
  | cons c rest =>
      rw [List.map_cons, goesOn, goesOn, Chars.isAlpha_toUpper, Chars.isDigit_toUpper, isSigil_toUpper,
        Chars.beq_toUpper rfl]

/-- Where no reserved word is found, there is none whatever follows. -/
theorem reserved?_eq_none {taken rest : List Char} {digitSeen : Bool} {c : Char}
    (h : reserved? taken digitSeen c rest = none) (more : List Char) : reserved? taken digitSeen c more = none := by
  unfold reserved? at h ⊢
  split
  · rfl
  · rename_i hdigit
    rw [if_neg hdigit] at h
    exact longestKeyword?_eq_none (ofWord?_of_longestKeyword? h) more

section Capitals

variable {lead : List Char} {taken text rest : List Char} {digitSeen : Bool} {c : Char} {piece : Piece}

/-- Characters that make a name in small letters make one in capitals, also after others. -/
theorem reserved?_capitals
    (hlead : ∀ text, Keyword.ofWord? (String.ofList text) = none →
      Keyword.ofWord? (String.ofList (lead ++ text.map Char.toUpper)) = none)
    (h : reserved? taken digitSeen c rest = none) (more : List Char) :
    reserved? (taken.map Char.toUpper ++ lead.reverse) digitSeen c.toUpper more = none := by
  unfold reserved? at h ⊢
  rw [Chars.isDigit_toUpper]
  split
  · rfl
  · rename_i hdigit
    rw [if_neg hdigit] at h
    have hnone := hlead _ (ofWord?_of_longestKeyword? h)
    have hreverse : (c.toUpper :: (taken.map Char.toUpper ++ lead.reverse)).reverse =
        lead ++ (c :: taken).reverse.map Char.toUpper := by simp
    rw [hreverse]
    exact longestKeyword?_eq_none hnone more

/-- A word that is scanned as a name is scanned as a name in capitals too, also after letters that
make no reserved word of it. -/
theorem ReadsWord.capitals
    (hlead : ∀ text, Keyword.ofWord? (String.ofList text) = none →
      Keyword.ofWord? (String.ofList (lead ++ text.map Char.toUpper)) = none)
    (h : ReadsWord taken digitSeen text piece) (hident : piece.token.kind = .ident) :
    ∃ lexeme, text = lexeme ++ piece.rest ∧ (text ≠ [] → lexeme ≠ []) ∧
      piece.token.literal = String.ofList (taken.reverse ++ lexeme) ∧
      ReadsWord (taken.map Char.toUpper ++ lead.reverse) digitSeen (lexeme.map Char.toUpper)
        (ofLexeme .ident (lead ++ (taken.reverse ++ lexeme).map Char.toUpper) []) := by
  induction h with
  | ended taken digitSeen =>
      refine ⟨[], rfl, fun hne => absurd rfl hne, by simp [ofLexeme], ?_⟩
      simpa using ReadsWord.ended (taken.map Char.toUpper ++ lead.reverse) digitSeen
  | @sigil taken digitSeen c rest hsigil =>
      rw [← isSigil_toUpper] at hsigil
      refine ⟨[c], rfl, by simp, by simp [ofLexeme], ?_⟩
      simpa using ReadsWord.sigil (taken.map Char.toUpper ++ lead.reverse) digitSeen [] hsigil
  | reserved => cases hident
  | @longer taken rest digitSeen c piece hsigil hnone hgoes _ ih =>
      obtain ⟨lexeme, htext, hne, hliteral, hreads⟩ := ih hident
      obtain ⟨d, more, rfl⟩ := List.exists_cons_of_ne_nil (hne (ne_nil_of_goesOn hgoes))
      refine ⟨c :: d :: more, by rw [List.cons_append, ← htext], by simp, by simp [hliteral], ?_⟩
      have hhead : goesOn (digitSeen || c.toUpper.isDigit) ((d :: more).map Char.toUpper) = true := by
        rw [goesOn_capitals, Chars.isDigit_toUpper]
        rw [htext] at hgoes
        exact hgoes
      rw [← isSigil_toUpper] at hsigil
      refine .longer hsigil (reserved?_capitals hlead hnone _) hhead ?_
      rw [Chars.isDigit_toUpper]
      simpa using hreads
  | @name taken rest digitSeen c hsigil hnone _ =>
      rw [← isSigil_toUpper] at hsigil
      refine ⟨[c], rfl, by simp, by simp [ofLexeme], ?_⟩
      simpa using ReadsWord.name hsigil (reserved?_capitals hlead hnone []) rfl

end Capitals

theorem isSigil_of_isAlpha {c : Char} (h : c.isAlpha = true) : isSigil c = false := by
  rw [Chars.isAlpha_iff] at h
  simp only [isSigil, Bool.or_eq_false_iff, beq_eq_false_iff_ne, ne_eq, Chars.eq_iff]
  refine ⟨⟨⟨?_, ?_⟩, ?_⟩, ?_⟩ <;> simp <;> omega

theorem reserved?_of_isAlpha {c : Char} (h : c.isAlpha = true) (taken rest : List Char) :
    reserved? taken false c rest = longestKeyword? (taken.reverse ++ [c]) rest := by
  rw [reserved?, Chars.isDigit_of_isAlpha h, Bool.or_false, if_neg Bool.false_ne_true, List.reverse_cons]

theorem longestKeyword?_nil {word : List Char} {keyword : Keyword}
    (h : Keyword.ofWord? (String.ofList word) = some keyword) : longestKeyword? word [] = some (keyword, 0) := by
  have hrange : (List.range ((([] : List Char).takeWhile Char.isAlpha).take 8).length.succ).reverse = [0] := rfl
  rw [longestKeyword?, h, Option.isSome_some, if_pos rfl]
  dsimp only
  rw [hrange, List.findSome?_cons, List.take_zero, List.append_nil, h]
  rfl

/-- Letters that no reserved word starts with but the one they spell out are scanned as that. -/
theorem readsWord_letters {keyword : Keyword} (taken : List Char) (c : Char) (rest : List Char)
    (hletters : ∀ d ∈ c :: rest, d.isAlpha = true)
    (hshort : ∀ more, more <+: rest → more ≠ rest →
      Keyword.ofWord? (String.ofList (taken.reverse ++ c :: more)) = none)
    (hword : Keyword.ofWord? (String.ofList (taken.reverse ++ c :: rest)) = some keyword) :
    ReadsWord taken false (c :: rest)
      ⟨⟨.keyword keyword, String.ofList (taken.reverse ++ c :: rest)⟩, [], modeAfter keyword⟩ := by
  induction rest generalizing taken c with
  | nil =>
      have hc : c.isAlpha = true := hletters c List.mem_cons_self
      have hfound : reserved? taken false c [] = some (keyword, 0) := by
        rw [reserved?_of_isAlpha hc, longestKeyword?_nil hword]
      simpa using ReadsWord.reserved (isSigil_of_isAlpha hc) hfound
  | cons d rest ih =>
      have hc : c.isAlpha = true := hletters c List.mem_cons_self
      have hd : d.isAlpha = true := hletters d (by simp)
      have hreverse : (c :: taken).reverse ++ d :: rest = taken.reverse ++ c :: d :: rest := by simp
      have hnone : reserved? taken false c (d :: rest) = none := by
        rw [reserved?_of_isAlpha hc]
        exact longestKeyword?_eq_none (hshort [] List.nil_prefix (by simp)) _
      have hgoes : goesOn (false || c.isDigit) (d :: rest) = true := by
        simp [goesOn, hd, Chars.isDigit_of_isAlpha hc]
      refine .longer (isSigil_of_isAlpha hc) hnone hgoes ?_
      rw [Chars.isDigit_of_isAlpha hc, ← hreverse]
      refine ih (c :: taken) d (fun e he => hletters e (List.mem_cons_of_mem c he)) ?_ ?_
      · intro more hmore hne
        rw [List.reverse_cons, List.append_assoc]
        exact hshort (d :: more) (List.cons_prefix_cons.mpr ⟨rfl, hmore⟩) (by simpa using hne)
      · rw [hreverse]
        exact hword

/-- A reserved word is scanned as itself. -/
theorem word_spelling (keyword : Keyword) :
    word [] false keyword.spelling.toList = ⟨ofKeyword keyword, [], modeAfter keyword⟩ := by
  by_cases herror : keyword = .ERROR
  · rw [herror]
    decide +kernel
  obtain ⟨hcapitals, hletters⟩ := keyword.capitals_spelling
  have hword : Keyword.ofWord? (String.ofList keyword.spelling.toList) = some keyword :=
    Keyword.ofWord?_eq_some_iff.mpr hcapitals.symm
  rw [List.all_eq_true] at hletters
  cases hspelling : keyword.spelling.toList with
  | nil => exact absurd hspelling keyword.spelling_ne_nil
  | cons c rest =>
      rw [hspelling] at hletters hword hcapitals
      rw [(readsWord_letters [] c rest hletters ?_ hword).eq]
      · rw [List.reverse_nil, List.nil_append, ← hspelling, String.ofList_toList]
        rfl
      · intro more hmore hne
        rw [List.reverse_nil, List.nil_append, Keyword.ofWord?_eq_none_iff]
        intro other hother
        have hpart : (c :: more).map Char.toUpper <+: c :: rest := by
          rw [← hcapitals]
          exact (List.cons_prefix_cons.mpr ⟨rfl, hmore⟩).map _
        have hstart : other.spelling.toList.isPrefixOf keyword.spelling.toList = true := by
          rw [List.isPrefixOf_iff_prefix, hother, hspelling]
          exact hpart
        rcases Keyword.eq_of_isPrefixOf_spelling keyword (Keyword.mem_all keyword) other
          (Keyword.mem_all other) hstart with rfl | ⟨hkeyword, -⟩
        · rw [hspelling] at hother
          have hlength := congrArg List.length hother
          rw [List.length_map, List.length_cons, List.length_cons] at hlength
          exact hne (hmore.eq_of_length (by omega))
        · exact herror hkeyword

end Piece

section IsName

variable {text : List Char}

theorem IsName.readsWord (h : IsName text) :
    Piece.ReadsWord [] false text (Piece.ofLexeme .ident text []) :=
  h.whole ▸ Piece.readsWord_word [] false text

/-- The text of a name that was scanned is one in capitals. -/
theorem IsName.of_word {c : Char} {rest : List Char} (hc : c.isAlpha = true)
    (h : (Piece.word [] false (c :: rest)).token.kind = .ident) :
    IsName ((Piece.word [] false (c :: rest)).token.literal.toList.map Char.toUpper) := by
  have hlead : ∀ text, Keyword.ofWord? (String.ofList text) = none →
      Keyword.ofWord? (String.ofList ([] ++ text.map Char.toUpper)) = none :=
    fun text hnone => Keyword.ofWord?_capitals hnone
  obtain ⟨lexeme, htext, hne, hliteral, hreads⟩ := (Piece.readsWord_word [] false (c :: rest)).capitals hlead h
  have hwhole := hreads.eq
  rw [List.reverse_nil, List.nil_append] at hliteral hwhole
  rw [hliteral, String.toList_ofList]
  obtain ⟨d, more, rfl⟩ := List.exists_cons_of_ne_nil (hne (by simp))
  obtain ⟨rfl, -⟩ := List.cons.inj htext
  exact ⟨⟨c.toUpper, more.map Char.toUpper, rfl, by rwa [Chars.isAlpha_toUpper]⟩,
    Text.map_toUpper_toUpper _, hwhole⟩

/-- The letters FN in front of a name make a name. -/
theorem IsName.function (h : IsName text) : IsName ('F' :: 'N' :: text) := by
  have hlead : ∀ word, Keyword.ofWord? (String.ofList word) = none →
      Keyword.ofWord? (String.ofList (['F', 'N'] ++ word.map Char.toUpper)) = none :=
    fun word _ => Keyword.ofWord?_function _
  obtain ⟨c, rest, rfl, hc⟩ := h.head
  obtain ⟨lexeme, htext, -, -, hbehind⟩ := h.readsWord.capitals hlead rfl
  obtain rfl : c :: rest = lexeme := htext.trans (List.append_nil lexeme)
  rw [List.reverse_nil, List.nil_append, h.capitals] at hbehind
  have hgoes : Piece.goesOn false (c :: rest) = true := by simp [Piece.goesOn, hc]
  have hF (more : List Char) : Piece.reserved? [] false 'F' more = none := by
    rw [Piece.reserved?_of_isAlpha (by decide)]
    refine Piece.longestKeyword?_eq_none ?_ more
    rw [Keyword.ofWord?_eq_ofLetters?]
    decide
  have hN (more : List Char) : Piece.reserved? ['F'] false 'N' more = none := by
    rw [Piece.reserved?_of_isAlpha (by decide)]
    exact Piece.longestKeyword?_eq_none (Keyword.ofWord?_function []) more
  refine ⟨⟨'F', _, rfl, rfl⟩, ?_, (Piece.ReadsWord.longer rfl (hF _) rfl (.longer rfl (hN _) hgoes hbehind)).eq⟩
  rw [List.map_cons, List.map_cons, h.capitals]
  rfl

theorem IsName.ofWord (h : IsName text) : Name.ofWord (String.ofList text) = ⟨String.ofList text⟩ := by
  rw [Name.ofWord, Text.upper_ofList, h.capitals]

end IsName

end Token

end LineBasic
