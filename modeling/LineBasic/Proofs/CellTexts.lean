import Std.Data.String.ToInt
import LineBasic.Memory
import LineBasic.Proofs.Evaluation
import LineBasic.Proofs.Lexed

/-! The texts that cells are found by. A name that stands in a text has a sigil at its end, or none, and no
comma, so that the text of a cell gives back its name, up to the sigil of a single, and its subscripts. Cells
with one text have one type. -/

namespace LineBasic

namespace Token

/-- A name in two parts: characters that are neither sigils nor commas, and then a sigil or nothing. -/
structure Parts (text stem : List Char) (sigil : Option Char) : Prop where
  text : text = stem ++ sigil.toList
  stem : ∀ c ∈ stem, isSigil c = false ∧ c ≠ ','
  sigil : ∀ c ∈ sigil, isSigil c = true

/-- A sigil ends a name, and a comma is never in one. -/
theorem Piece.ReadsWord.exists_parts {taken text : List Char} {digitSeen : Bool} {piece : Piece}
    (h : ReadsWord taken digitSeen text piece) (hhead : ∀ c ∈ text.head?, c ≠ ',')
    (hident : piece.token.kind = .ident) :
    ∃ lexeme stem sigil, piece.token.literal = String.ofList (taken.reverse ++ lexeme) ∧
      Parts lexeme stem sigil := by
  induction h with
  | ended => exact ⟨[], [], none, by simp [ofLexeme], rfl, by simp, by simp⟩
  | @sigil _ _ c _ hsigil => exact ⟨[c], [], some c, by simp [ofLexeme], rfl, by simp, by simpa using hsigil⟩
  | reserved => cases hident
  | @longer taken rest digitSeen c piece hsigil _ hgoes _ ih =>
      have hnext : ∀ d ∈ rest.head?, d ≠ ',' := by
        rintro d hd rfl
        obtain ⟨more, rfl⟩ := List.head?_eq_some_iff.mp hd
        simp [goesOn, isSigil] at hgoes
      obtain ⟨lexeme, stem, sigil, hliteral, hparts⟩ := ih hnext hident
      refine ⟨c :: lexeme, c :: stem, sigil, by simp [hliteral], ?_, ?_, hparts.sigil⟩
      · rw [hparts.text, List.cons_append]
      · exact List.forall_mem_cons.mpr ⟨⟨hsigil, hhead c rfl⟩, hparts.stem⟩
  | @name _ _ _ c hsigil =>
      have hcomma : c ≠ ',' := hhead c rfl
      exact ⟨[c], [c], none, by simp [ofLexeme], rfl, by simp [hsigil, hcomma], by simp⟩

theorem IsName.exists_parts {text : List Char} (h : IsName text) : ∃ stem sigil, Parts text stem sigil := by
  have hhead : ∀ c ∈ text.head?, c ≠ ',' := by
    obtain ⟨c, rest, rfl, hc⟩ := h.head
    rintro d hd rfl
    cases hd
    cases hc
  obtain ⟨lexeme, stem, sigil, hliteral, hparts⟩ := h.readsWord.exists_parts hhead rfl
  have hlexeme : text = lexeme := String.ofList_inj.mp hliteral
  exact ⟨stem, sigil, hlexeme ▸ hparts⟩

/-- The type that a sigil gives. -/
def sigilType : Option Char → ValueType
  | some '$' => .text
  | some '#' => .double
  | some '%' => .int
  | _ => .single

theorem sigilType_filter (sigil : Option Char) : sigilType (sigil.filter (· != '!')) = sigilType sigil := by
  cases sigil with
  | none => rfl
  | some c =>
      by_cases hc : c = '!'
      · rw [hc]
        rfl
      · rw [Option.filter_some, if_pos (by simp [hc])]

/-- Sigils that differ where the mark of a single is left out. -/
theorem sigils_cases {sigil other : Option Char}
    (h : sigil.filter (· != '!') = other.filter (· != '!')) :
    sigil = other ∨ sigil = some '!' ∧ other = none ∨ sigil = none ∧ other = some '!' := by
  cases sigil with
  | none =>
      cases other with
      | none => exact .inl rfl
      | some d => simpa [Option.filter_some] using h.symm
  | some c =>
      cases other with
      | none => simpa [Option.filter_some] using h
      | some d =>
          rw [Option.filter_some, Option.filter_some] at h
          grind

namespace Parts

variable {text other stem stem' : List Char} {sigil sigil' : Option Char}

theorem dropEndWhile_stem (h : Parts text stem sigil) : Text.dropEndWhile (· == '!') stem = stem := by
  have hlast : ∀ c ∈ stem, (c == '!') = false := by
    intro c hc
    have hsigil := (h.stem c hc).1
    simp only [isSigil, Bool.or_eq_false_iff] at hsigil
    exact hsigil.1.2
  unfold Text.dropEndWhile
  cases hreverse : stem.reverse with
  | nil => rw [List.dropWhile_nil, ← hreverse, List.reverse_reverse]
  | cons c rest =>
      have hc : c ∈ stem := List.mem_reverse.mp (hreverse ▸ List.mem_cons_self)
      rw [List.dropWhile_cons_of_neg (by simp [hlast c hc]), ← hreverse, List.reverse_reverse]

/-- The text that values are kept under, by the parts of the name. -/
theorem key (h : Parts text stem sigil) :
    Text.dropEndWhile (· == '!') text = stem ++ (sigil.filter (· != '!')).toList := by
  rw [h.text]
  cases sigil with
  | none => simpa using h.dropEndWhile_stem
  | some c =>
      unfold Text.dropEndWhile
      rw [Option.toList_some, List.reverse_append, List.reverse_singleton, List.singleton_append]
      by_cases hc : c = '!'
      · rw [List.dropWhile_cons_of_pos (by simp [hc]), Option.filter_some, if_neg (by simp [hc]),
          Option.toList_none, List.append_nil]
        exact h.dropEndWhile_stem
      · rw [List.dropWhile_cons_of_neg (by simp [hc]), Option.filter_some, if_pos (by simp [hc])]
        simp

/-- The type of a name is that of its sigil. -/
theorem type (h : Parts text stem sigil) : Name.type ⟨String.ofList text⟩ = sigilType sigil := by
  unfold Name.type
  dsimp only
  rw [String.toList_ofList, h.text]
  cases sigil with
  | some c =>
      rw [Option.toList_some, List.getLast?_concat]
      rfl
  | none =>
      rw [Option.toList_none, List.append_nil]
      split
      all_goals try rfl
      all_goals
        rename_i hlast
        have hsigil := (h.stem _ (List.mem_of_getLast? hlast)).1
        cases hsigil

/-- The parts of a text under which values are kept, if it comes from two names. -/
theorem parts_inj (h : Parts text stem sigil) (h' : Parts other stem' sigil')
    (hkey : Text.dropEndWhile (· == '!') text = Text.dropEndWhile (· == '!') other) :
    stem = stem' ∧ sigil.filter (· != '!') = sigil'.filter (· != '!') := by
  have hstem : ∀ {text stem : List Char} {sigil : Option Char}, Parts text stem sigil →
      (stem ++ (sigil.filter (· != '!')).toList).filter (!isSigil ·) = stem := by
    intro text stem sigil hparts
    have hsigil : (sigil.filter (· != '!')).toList.filter (!isSigil ·) = [] := by
      simp only [List.filter_eq_nil_iff, Option.mem_toList, Option.filter_eq_some_iff]
      rintro c ⟨hc, -⟩
      simp [hparts.sigil c hc]
    rw [List.filter_append, hsigil, List.append_nil, List.filter_eq_self]
    intro c hc
    simp [(hparts.stem c hc).1]
  rw [h.key, h'.key] at hkey
  have hsame : stem = stem' := by
    rw [← hstem h, hkey, hstem h']
  rw [hsame] at hkey
  refine ⟨hsame, ?_⟩
  have hsigils := List.append_cancel_left hkey
  cases hfirst : sigil.filter (· != '!') <;> cases hsecond : sigil'.filter (· != '!') <;>
    simp_all

end Parts

end Token

namespace Name

/-- A name as it is found in a text. -/
def IsScanned (name : Name) : Prop :=
  ∃ (text : String) (token : Token),
    token ∈ Token.lex text ∧ token.kind = .ident ∧ name = .ofWord token.literal

/-- Two spellings of one name: the sigil of a single may be left out. -/
def Same (name other : Name) : Prop :=
  name = other ∨ name.spelling = other.spelling ++ "!" ∨ other.spelling = name.spelling ++ "!"

variable {name other : Name}

/-- A name is found in its own spelling. -/
theorem isScanned_of_spelling {spelling : String}
    (h : ⟨.ident, spelling⟩ ∈ Token.lexCharacters (Text.characters spelling) ∧ Text.upper spelling = spelling) :
    IsScanned ⟨spelling⟩ := by
  rw [← Token.lex_eq] at h
  exact ⟨spelling, _, h.1, rfl, congrArg Name.mk h.2.symm⟩

theorem IsScanned.exists_parts (h : name.IsScanned) :
    ∃ stem sigil, Token.Parts name.spelling.toList stem sigil := by
  obtain ⟨text, token, hmem, hkind, rfl⟩ := h
  rw [ofWord, Text.upper, String.toList_map]
  exact (Token.isName_of_mem_lex hmem hkind).exists_parts

theorem toList_key (name : Name) :
    name.key.toList = Text.dropEndWhile (· == '!') name.spelling.toList := String.toList_ofList

theorem comma_not_mem_key (h : name.IsScanned) : ',' ∉ name.key.toList := by
  obtain ⟨stem, sigil, hparts⟩ := h.exists_parts
  rw [toList_key, hparts.key, List.mem_append, not_or]
  refine ⟨fun hmem => (hparts.stem _ hmem).2 rfl, fun hmem => ?_⟩
  rw [Option.mem_toList, Option.filter_eq_some_iff] at hmem
  cases hparts.sigil _ hmem.1

/-- Values of a name are kept under the same text exactly if it is spelled the same, but for the sigil of a
single. -/
theorem same_iff_key_eq (h : name.IsScanned) (h' : other.IsScanned) :
    name.Same other ↔ name.key = other.key := by
  have hmark : ∀ {name other : Name}, other.IsScanned → name.spelling = other.spelling ++ "!" →
      name.key = other.key := by
    intro name other hother hname
    rw [← String.toList_inj, toList_key, toList_key, hname, String.toList_append]
    simp [Text.dropEndWhile]
  constructor
  · rintro (rfl | hname | hother)
    · rfl
    · exact hmark h' hname
    · exact (hmark h hother).symm
  · intro hkey
    obtain ⟨stem, sigil, hparts⟩ := h.exists_parts
    obtain ⟨stem', sigil', hparts'⟩ := h'.exists_parts
    have htexts := congrArg String.toList hkey
    rw [toList_key, toList_key] at htexts
    obtain ⟨rfl, hsigils⟩ := hparts.parts_inj hparts' htexts
    rcases Token.sigils_cases hsigils with rfl | ⟨rfl, rfl⟩ | ⟨rfl, rfl⟩
    · left
      rw [Name.mk.injEq, ← String.toList_inj, hparts.text, hparts'.text]
    · right
      left
      rw [← String.toList_inj, String.toList_append, hparts.text, hparts'.text]
      simp
    · right
      right
      rw [← String.toList_inj, String.toList_append, hparts.text, hparts'.text]
      simp

theorem type_eq_of_key_eq (h : name.IsScanned) (h' : other.IsScanned) (hkey : name.key = other.key) :
    name.type = other.type := by
  obtain ⟨stem, sigil, hparts⟩ := h.exists_parts
  obtain ⟨stem', sigil', hparts'⟩ := h'.exists_parts
  have htexts := congrArg String.toList hkey
  rw [toList_key, toList_key] at htexts
  have htype := hparts.type
  have htype' := hparts'.type
  rw [String.ofList_toList] at htype htype'
  rw [htype, htype', ← Token.sigilType_filter, (hparts.parts_inj hparts' htexts).2, Token.sigilType_filter]

end Name

namespace Memory

variable {name other : Name}

theorem comma_not_mem_toString (n : Int) : ',' ∉ (toString n).toList := by
  have hdigits : ∀ m : Nat, ',' ∉ (Nat.repr m).toList := by
    intro m hmem
    rw [Nat.toList_repr] at hmem
    cases Number.isDigit_of_mem_toDigits _ hmem
  cases n with
  | ofNat m => exact hdigits m
  | negSucc m =>
      change ',' ∉ ("-" ++ Nat.repr (m + 1)).toList
      rw [String.toList_append, List.mem_append, not_or]
      exact ⟨by decide, hdigits (m + 1)⟩

/-- A text without commas in front of a comma is found again. -/
theorem append_comma_inj {left right : List Char} (h : ',' ∉ left) (h' : ',' ∉ right)
    {rest more : List Char} (heq : left ++ ',' :: rest = right ++ ',' :: more) :
    left = right ∧ rest = more := by
  have hlonger : ∀ {short long middle rest more : List Char}, ',' ∉ long → long = short ++ middle →
      ',' :: rest = middle ++ ',' :: more → long = short ∧ rest = more := by
    intro short long middle rest more hlong hsplit hrest
    cases middle with
    | nil => exact ⟨by rw [hsplit, List.append_nil], List.tail_eq_of_cons_eq hrest⟩
    | cons c others =>
        rw [hsplit, ← List.head_eq_of_cons_eq hrest] at hlong
        simp at hlong
  rcases List.append_eq_append_iff.mp heq with ⟨middle, hright, hrest⟩ | ⟨middle, hleft, hmore⟩
  · obtain ⟨hsame, htail⟩ := hlonger h' hright hrest
    exact ⟨hsame.symm, htail⟩
  · obtain ⟨hsame, htail⟩ := hlonger h hleft hmore
    exact ⟨hsame, htail.symm⟩

theorem toList_cellOf_cons (name : Name) (n : Int16) (rest : List Int16) :
    (cellOf name (n :: rest)).toList = (toString n.toInt).toList ++ ',' :: (cellOf name rest).toList := by
  change (toString n.toInt ++ "," ++ cellOf name rest).toList = _
  simp

/-- **Different cells have different texts.** -/
theorem cellOf_inj (h : name.IsScanned) (h' : other.IsScanned) {indices others : List Int16}
    (hcell : cellOf name indices = cellOf other others) : name.key = other.key ∧ indices = others := by
  induction indices generalizing others with
  | nil =>
      cases others with
      | nil => exact ⟨hcell, rfl⟩
      | cons n rest =>
          have hcomma := Name.comma_not_mem_key h
          change name.key = cellOf other (n :: rest) at hcell
          rw [hcell, toList_cellOf_cons] at hcomma
          simp at hcomma
  | cons n rest ih =>
      cases others with
      | nil =>
          have hcomma := Name.comma_not_mem_key h'
          change cellOf name (n :: rest) = other.key at hcell
          rw [← hcell, toList_cellOf_cons] at hcomma
          simp at hcomma
      | cons m more =>
          have htexts := congrArg String.toList hcell
          rw [toList_cellOf_cons, toList_cellOf_cons] at htexts
          obtain ⟨hfirst, hrest⟩ :=
            append_comma_inj (comma_not_mem_toString _) (comma_not_mem_toString _) htexts
          have hn : n.toInt = m.toInt := Int.repr_injective (String.toList_inj.mp hfirst)
          obtain ⟨hkey, rfl⟩ := ih (String.toList_inj.mp hrest)
          exact ⟨hkey, by rw [Int16.toInt_inj.mp hn]⟩

end Memory

end LineBasic
