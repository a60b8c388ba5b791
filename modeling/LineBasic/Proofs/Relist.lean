import LineBasic.Proofs.Evaluation
import LineBasic.Proofs.Legibility

/-! Listings that are read again. The lines read from a text are listed one by one, and the listing is
read as a text: it gives back the same lines, with the semicolons that it was written with, and no
fault, exactly where every line is faithful. -/

namespace LineBasic

open Token Reader

section InLine

/-- A joined list of texts is on one line where they are. -/
theorem not_mem_joinWith {c : Char} {separator : String} (hseparator : c ∉ separator.toList)
    {texts : List String} (h : ∀ text ∈ texts, c ∉ text.toList) : c ∉ (joinWith separator texts).toList := by
  induction texts with
  | nil => simp [joinWith]
  | cons text rest ih =>
      have htext := h text List.mem_cons_self
      have hrest := ih fun other hother => h other (List.mem_cons_of_mem text hother)
      cases rest with
      | nil => exact htext
      | cons next more =>
          rw [joinWith]
          · simp [htext, hseparator, hrest]
          · simp

theorem Command.inLine_listing {c : Command} (h : c.Legible) : '\n' ∉ c.listing.toList := by
  cases hverbatim : c.isVerbatim with
  | false => exact (spells_tokens h hverbatim).inLine
  | true =>
      cases c with
      | remark text =>
          rw [listing, String.toList_append, List.mem_append, not_or]
          exact ⟨by decide, h.1⟩
      | data items =>
          rw [listing, String.toList_append, List.mem_append, not_or]
          refine ⟨by decide, not_mem_joinWith (by decide) ?_⟩
          intro text htext
          obtain ⟨item, hitem, rfl⟩ := List.mem_map.mp htext
          have hlegible := h.2 item hitem
          cases item with
          | quoted text =>
              have hquoted : '\n' ∉ text.toList := fun hline => (hlegible _ hline).2 rfl
              simpa [datum] using hquoted
          | raw text => exact fun hline => (hlegible.1 _ hline).2.2 rfl
      | _ => cases hverbatim

namespace Statement

theorem inLine_branchListing {list : List Statement} (h : '\n' ∉ (listingAll list).toList) :
    '\n' ∉ (branchListing list).toList := by
  unfold branchListing
  split
  · exact (spells_line _).inLine
  · exact h

mutual

theorem inLine_listing : ∀ {s : Statement}, s.Legible → '\n' ∉ s.listing.toList
  | command c, h => by
      rw [Legible] at h
      rw [listing]
      exact Command.inLine_listing h
  | choice condition thenList elseList, h => by
      rw [Legible] at h
      obtain ⟨hcondition, -, hthen, helse, -⟩ := h
      have hfirst := (Expr.spells_tokens hcondition).inLine
      have hsecond := inLine_branchListing (inLine_listingAll hthen)
      have hthird := inLine_branchListing (inLine_listingAll helse)
      rw [listing_choice]
      cases elseList.isEmpty <;> simp [hfirst, hsecond, hthird]

theorem inLine_listingAll : ∀ {list : List Statement}, LegibleAll list → '\n' ∉ (listingAll list).toList
  | [], _ => by
      rw [listingAll]
      simp
  | [s], h => by
      rw [LegibleAll] at h
      rw [listingAll]
      exact inLine_listing h.1
  | s :: next :: rest, h => by
      rw [LegibleAll] at h
      have hfirst := inLine_listing h.1
      have hrest := inLine_listingAll h.2.2
      rw [listingAll_cons s (by simp)]
      simp [hfirst, hrest]

end

end Statement

theorem Line.inLine_listing {line : Line} (h : line.Legible) : '\n' ∉ line.listing.toList := by
  have htext := Statement.inLine_listingAll h.statements
  unfold listing
  dsimp only
  split
  · rename_i number _
    have hnumber := (spells_line number).inLine
    split
    · exact hnumber
    · rw [String.toList_append, String.toList_append, List.mem_append, List.mem_append, not_or, not_or]
      exact ⟨⟨hnumber, by decide⟩, htext⟩
  · exact htext

end InLine

section Scan

/-- A text that starts with a statement starts with no line number. -/
theorem tokens_ofText_of_opens {text : List Char} {token : Token} {rest : List Token}
    (h : lexFragment text false = token :: rest) (hopens : token.kind.opensStatement = true) :
    (Scanner.ofText text).tokens = lexFragment text false := by
  have hstep : (Scanner.ofText text).next? = Scanner.next? ⟨text, .statement, false⟩ := by
    unfold Scanner.ofText
    rw [Scanner.next?_statement, Scanner.next?_statement]
    cases hskip : text.dropWhile isSpace with
    | nil => rfl
    | cons c more =>
        have hdigit : c.isDigit = false := by
          rw [← Bool.not_eq_true]
          intro hdigit
          obtain ⟨-, hmark, hline⟩ := starts_of_isDigit hdigit
          have hpiece : Piece.ofStatement c more = Piece.number (c :: more) := by
            rw [Piece.ofStatement, hdigit]
            rfl
          have htokens := (@Scanner.Reads.statement ⟨text, .statement, false⟩ c more hskip hmark hline rfl rfl).tokens_eq
          rw [hpiece] at htokens
          change lexFragment text false = _ at htokens
          rw [h] at htokens
          obtain ⟨rfl, -⟩ := List.cons.inj htokens
          change (numberKind (spanNumber (c :: more)).1).opensStatement = true at hopens
          rcases numberKind_cases (spanNumber (c :: more)).1 with hkind | hkind
          · rw [hkind] at hopens
            cases hopens
          · rw [Kind.isNumber_of_opensStatement hopens] at hkind
            cases hkind
        dsimp only
        rw [hdigit, Bool.and_false, Bool.and_false]
  exact Scanner.tokens_congr hstep

/-- A line number and what follows it on the line. -/
theorem tokens_ofText_number (number : Nat) {tail : List Char}
    (htail : ∀ c ∈ tail.head?, c.isDigit = false) :
    (Scanner.ofText ((toString number).toList ++ tail)).tokens =
      ⟨.lineNumber, toString number⟩ :: lexFragment tail false := by
  have hdigits : ∀ c ∈ (toString number).toList, c.isDigit = true := by
    rw [toList_toString]
    exact fun c => Number.isDigit_of_mem_toDigits c
  have htake : ((toString number).toList ++ tail).takeWhile Char.isDigit = (toString number).toList := by
    rw [takeWhile_append_of_head htail, List.takeWhile_eq_self_iff.mpr hdigits]
  have hdrop : ((toString number).toList ++ tail).dropWhile Char.isDigit = tail := by
    rw [dropWhile_append_of_head htail, List.dropWhile_eq_nil_iff.mpr hdigits, List.nil_append]
  obtain ⟨c, rest, hcons⟩ : ∃ c rest, (toString number).toList = c :: rest := by
    obtain ⟨c, rest, hcons, -⟩ := (isPlain_toDigits number).head
    exact ⟨c, rest, by rw [toList_toString, hcons]⟩
  have hc : c.isDigit = true := hdigits c (by rw [hcons]; exact List.mem_cons_self)
  have hskip : ((toString number).toList ++ tail).dropWhile isSpace = c :: (rest ++ tail) := by
    rw [hcons, List.cons_append, List.dropWhile_cons_of_neg (by simp [(starts_of_isDigit hc).space])]
  have hreads := @Scanner.Reads.lineNumber (.ofText ((toString number).toList ++ tail)) c _ hskip rfl rfl hc
  rw [← List.cons_append, ← hcons, htake, hdrop, String.ofList_toList] at hreads
  exact hreads.tokens_eq

end Scan

namespace Line

/-- Whether a line reads back from its listing. -/
def isFaithful (line : Line) : Bool := Statement.areFaithful line.statements

/-- The line with the semicolons that its listing has. -/
def separated (line : Line) : Line := { line with statements := Statement.separatedAll line.statements }

/-- The token of the number of a line. -/
def numberTokens (line : Line) : List Token :=
  line.number.toList.map fun number => ⟨.lineNumber, toString number⟩

/-- The tokens that the listing of a line is scanned to. -/
def listedTokens (line : Line) : List Token :=
  line.numberTokens ++ lexFragment (Statement.listingAll line.statements).toList false

variable {line : Line}

theorem listingAll_isEmpty (h : Statement.LegibleAll line.statements) :
    (Statement.listingAll line.statements).isEmpty = true ↔ line.statements = [] := by
  constructor
  · intro hempty
    by_contra hne
    obtain ⟨token, rest, hscan, -⟩ := Statement.exists_lead_all hne h breaks_nil
    rw [String.isEmpty_iff] at hempty
    rw [hempty] at hscan
    cases hscan.symm.trans (lexFragment_nil false)
  · intro hnil
    rw [hnil, Statement.listingAll]
    rfl

/-- The number of a line is scanned first, and then its statements as if they stood alone. -/
theorem tokens_listing (h : line.Legible) {tail : List Char} (htail : EndsLine tail) :
    (Scanner.ofText (line.listing.toList ++ tail)).tokens = line.numberTokens ++
      lexFragment ((Statement.listingAll line.statements).toList ++ tail) false := by
  have hnothing := listingAll_isEmpty h.statements
  obtain ⟨number, statements⟩ := line
  cases number with
  | none =>
      obtain ⟨token, rest, hscan, hopens⟩ :=
        Statement.exists_lead_all (h.nonempty rfl) h.statements htail.breaks
      exact tokens_ofText_of_opens hscan hopens
  | some number =>
      unfold listing
      dsimp only at hnothing ⊢
      by_cases hnil : statements = []
      · subst hnil
        rw [if_pos (hnothing.mpr rfl)]
        exact tokens_ofText_number number htail.breaks.isDigit
      · have htext : (toString number ++ " " ++ Statement.listingAll statements).toList ++ tail =
            (toString number).toList ++ ' ' :: ((Statement.listingAll statements).toList ++ tail) := by
          simp
        rw [if_neg (fun hempty => hnil (hnothing.mp hempty)), htext,
          tokens_ofText_number number (by simp), lexFragment_space false (by decide)]
        rfl

theorem tokens_ofText_listing (h : line.Legible) :
    (Scanner.ofText line.listing.toList).tokens = line.listedTokens := by
  have htokens := tokens_listing h (.inl rfl)
  rw [List.append_nil, List.append_nil] at htokens
  exact htokens

/-- A line that reads back is scanned the same whatever lines follow it. -/
theorem tokens_of_isFaithful (h : line.Legible) (hfaithful : line.isFaithful = true) (b : List Char) :
    (Scanner.ofText (line.listing.toList ++ '\n' :: b)).tokens =
      line.listedTokens ++ endOfLine :: (Scanner.ofText b).tokens := by
  rw [tokens_listing h (.inr ⟨b, rfl⟩), listedTokens, List.append_assoc, ← lexFragment_newline false]
  congr 1
  by_cases hnil : line.statements = []
  · rw [hnil, Statement.listingAll, String.toList_empty, lexFragment_nil]
    rfl
  · have hscan : ∀ tail, EndsLine tail → lexFragment
        ((Statement.listingAll line.statements).toList ++ tail) false =
          Statement.tokensAll line.statements ++ lexFragment tail false :=
      fun tail htail => Statement.lexFragment_listingAll hnil h.statements hfaithful
        (Command.precedes_of_endsLine _ htail)
    have halone := hscan [] (.inl rfl)
    rw [List.append_nil, lexFragment_nil, List.append_nil] at halone
    rw [hscan _ (.inr ⟨b, rfl⟩), halone]

theorem splitNumber_listedTokens (h : line.Legible) :
    splitNumber line.listedTokens =
      .ok (line.number, lexFragment (Statement.listingAll line.statements).toList false) := by
  obtain ⟨number, statements⟩ := line
  cases number with
  | none =>
      obtain ⟨token, rest, hscan, hopens⟩ :=
        Statement.exists_lead_all (h.nonempty rfl) h.statements breaks_nil
      rw [List.append_nil] at hscan
      have hkind : token.kind ≠ .lineNumber := by
        intro hkind
        rw [hkind] at hopens
        cases hopens
      change splitNumber (lexFragment (Statement.listingAll statements).toList false) = _
      dsimp only at hscan ⊢
      rw [hscan, splitNumber, if_neg hkind]
      rfl
  | some number =>
      have hnumber : Literal.lineNumber (toString number) = .ok number := by
        have hdigits := lineNumber_digits (h.number number rfl)
        rwa [← toList_toString, String.ofList_toList] at hdigits
      change splitNumber (⟨.lineNumber, toString number⟩ ::
        lexFragment (Statement.listingAll statements).toList false) = _
      rw [splitNumber, if_pos rfl, hnumber]
      rfl

theorem statements_ne_nil {budget : Nat} {tokens rest : List Token}
    (h : (kindAt tokens).opensStatement = true) :
    Reader.statements (budget + 1) tokens ≠ .ok ([], rest) := by
  intro hread
  rw [statements_opens h] at hread
  obtain ⟨first, mid, -, hread⟩ := bind_eq_ok hread
  rw [bind_ok (run_peekKind _)] at hread
  split at hread
  · obtain ⟨others, last, -, hpure⟩ := bind_eq_ok hread
    cases hpure
  · cases hread

/-- **A line comes back from its listing exactly where it is faithful**, and never as nothing. -/
theorem ofTokens?_listedTokens (h : line.Legible) :
    if line.isFaithful then ofTokens? line.listedTokens = .ok (some line.separated)
    else ofTokens? line.listedTokens ≠ .ok (some line.separated) ∧ ofTokens? line.listedTokens ≠ .ok none := by
  have hline := Statement.inLine_listingAll h.statements
  have hread := statements_listingAll h.statements hline (Nat.lt_succ_self _)
  rw [ofTokens?_of_splitNumber (splitNumber_listedTokens h), (inLine_lexFragment hline).leftInLine_eq]
  change if line.isFaithful then _ else _ at hread
  cases hgood : line.isFaithful with
  | true =>
      rw [hgood, if_pos rfl] at hread
      rw [if_pos rfl, hread]
      have hsome : (line.number.isNone && (Statement.separatedAll line.statements).isEmpty) = false := by
        rw [← Bool.not_eq_true, Bool.and_eq_true, Option.isNone_iff_eq_none, List.isEmpty_iff]
        rintro ⟨hnone, hnil⟩
        exact Statement.separatedAll_ne_nil (h.nonempty hnone) hnil
      dsimp only
      rw [hsome, if_neg Bool.false_ne_true]
      rfl
  | false =>
      rw [hgood, if_neg Bool.false_ne_true] at hread
      rw [if_neg Bool.false_ne_true]
      constructor
      · intro hsame
        split at hsame
        · rename_i list rest hlist
          split at hsame
          · cases hsame
          · have hline := congrArg Line.statements (Option.some.inj (Except.ok.inj hsame))
            dsimp only [separated] at hline
            rw [hline] at hlist
            exact hread rest hlist
        · cases hsame
      · intro hnothing
        split at hnothing
        · rename_i list rest hlist
          split at hnothing
          · rename_i hempty
            rw [Bool.and_eq_true, Option.isNone_iff_eq_none, List.isEmpty_iff] at hempty
            obtain ⟨hnone, rfl⟩ := hempty
            obtain ⟨token, more, hscan, hopens⟩ :=
              Statement.exists_lead_all (h.nonempty hnone) h.statements breaks_nil
            rw [List.append_nil] at hscan
            refine statements_ne_nil ?_ hlist
            rw [hscan]
            exact hopens
          · cases hnothing
        · cases hnothing

/-- The first line of a listing is scanned to its tokens, whatever lines follow it. -/
theorem exists_splitLines_listing (h : line.Legible) (b : List Char) :
    ∃ others, splitLines (Scanner.ofText (line.listing.toList ++ '\n' :: b)).tokens =
      line.listedTokens :: others := by
  have hline : ∀ token ∈ line.listedTokens, token.kind ≠ .eol := by
    rw [← tokens_ofText_listing h]
    exact Scanner.kind_ne_eol _ (inLine_listing h)
  have htokens := Scanner.tokens_extend_newline_cases b (Scanner.ofText line.listing.toList)
  rw [tokens_ofText_listing h] at htokens
  change (Scanner.ofText (line.listing.toList ++ '\n' :: b)).tokens = _ ∨
    (_ ∧ (Scanner.ofText (line.listing.toList ++ '\n' :: b)).tokens = _) at htokens
  rcases htokens with htokens | ⟨-, htokens⟩
  · exact ⟨_, by rw [htokens, splitLines_append_endOfLine, splitLines_inLine hline]; rfl⟩
  · exact ⟨[], by rw [htokens, splitLines_inLine hline]⟩

end Line

namespace Parsed

variable {line : Line} {lines : List Line}

/-- The lines of a listing and its faults, when it is read as a text. -/
def reread (lines : List Line) : Parsed :=
  ofLines (splitLines (Scanner.ofText (Parsed.listing ⟨lines, []⟩).toList).tokens)

theorem listing_cons (line : Line) (lines : List Line) :
    (Parsed.listing ⟨line :: lines, []⟩).toList =
      line.listing.toList ++ '\n' :: (Parsed.listing ⟨lines, []⟩).toList := by
  change (line.listing ++ "\n" ++ Parsed.listing ⟨lines, []⟩).toList = _
  simp

theorem reread_of_isFaithful (h : line.Legible) (hfaithful : line.isFaithful = true) :
    reread (line :: lines) = ⟨line.separated :: (reread lines).lines, (reread lines).faults⟩ := by
  have hline : ∀ token ∈ line.listedTokens, token.kind ≠ .eol := by
    rw [← Line.tokens_ofText_listing h]
    exact Scanner.kind_ne_eol _ (Line.inLine_listing h)
  have hread := Line.ofTokens?_listedTokens h
  rw [hfaithful, if_pos rfl] at hread
  unfold reread
  rw [listing_cons, Line.tokens_of_isFaithful h hfaithful, splitLines_append_endOfLine,
    splitLines_inLine hline, List.singleton_append, ofLines_cons, hread]
  rfl

theorem reread_of_not_isFaithful (h : line.Legible) (hfaithful : line.isFaithful = false)
    (others : List Line) : reread (line :: lines) ≠ ⟨line.separated :: others, []⟩ := by
  obtain ⟨rest, hrest⟩ := Line.exists_splitLines_listing h (Parsed.listing ⟨lines, []⟩).toList
  have hread := Line.ofTokens?_listedTokens h
  rw [hfaithful, if_neg Bool.false_ne_true] at hread
  unfold reread
  rw [listing_cons, hrest, ofLines_cons]
  intro hsame
  cases hfound : Line.ofTokens? line.listedTokens with
  | error fault =>
      rw [hfound] at hsame
      cases congrArg faults hsame
  | ok found =>
      cases found with
      | none => exact hread.2 hfound
      | some first =>
          rw [hfound] at hsame
          have hfirst := (List.cons.inj (congrArg Parsed.lines hsame)).1
          rw [hfirst] at hfound
          exact hread.1 hfound

/-- Legible lines come back exactly where each of them is faithful: the first that is not leaves a fault
or another line in its place. -/
theorem reread_eq_iff (h : ∀ line ∈ lines, line.Legible) :
    reread lines = ⟨lines.map Line.separated, []⟩ ↔ ∀ line ∈ lines, line.isFaithful = true := by
  induction lines with
  | nil =>
      have hempty : reread [] = ⟨[], []⟩ := by
        have htokens : (Scanner.ofText (Parsed.listing ⟨[], []⟩).toList).tokens = [] :=
          Scanner.tokens_of_next?_eq_none rfl
        rw [reread, htokens]
        rfl
      exact ⟨fun _ line hline => absurd hline List.not_mem_nil, fun _ => hempty⟩
  | cons line rest ih =>
      have hline := h line List.mem_cons_self
      have hrest := ih fun other hother => h other (List.mem_cons_of_mem line hother)
      rw [List.map_cons, List.forall_mem_cons]
      cases hfaithful : line.isFaithful with
      | true =>
          rw [reread_of_isFaithful hline hfaithful, ← hrest]
          constructor
          · intro hsame
            obtain ⟨hlines, hfaults⟩ := Parsed.mk.inj hsame
            refine ⟨rfl, ?_⟩
            rw [← (List.cons.inj hlines).2, ← hfaults]
          · rintro ⟨-, hsame⟩
            rw [hsame]
      | false =>
          constructor
          · exact fun hsame => absurd hsame (reread_of_not_isFaithful hline hfaithful _)
          · exact fun hall => absurd hall.1 Bool.false_ne_true

/-- **The lines read from a text come back from their listing, without a fault, exactly where every one
of them is faithful**; the semicolons that the listing puts between two expressions of PRINT are read
with them. -/
theorem relist_eq_iff (text : String) :
    ofTokens (lex (ofTokens (lex text)).listing) = ⟨(ofTokens (lex text)).lines.map Line.separated, []⟩ ↔
      ∀ line ∈ (ofTokens (lex text)).lines, line.isFaithful = true := by
  rw [ofTokens_lex (ofTokens (lex text)).listing]
  exact reread_eq_iff fun line hline => legible_of_mem hline

/-- A function called without arguments is listed with empty parentheses, which cannot be read. -/
theorem relist_call_without_arguments :
    (ofTokens (lex "10 PRINT FNA")).faults = [] ∧
      (ofTokens (lex "10 PRINT FNA")).listing = "10 PRINT FNA()\n" ∧
      (ofTokens (lex (ofTokens (lex "10 PRINT FNA")).listing)).lines = [] ∧
      (ofTokens (lex (ofTokens (lex "10 PRINT FNA")).listing)).faults ≠ [] := by
  simp only [lex_eq]
  decide +kernel

end Parsed

end LineBasic
