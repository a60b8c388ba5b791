import LineBasic.Proofs.ListedStatement

/-! Reading of the listings of statements. A statement comes back where all of its parts do and where
an ELSE that follows is left to the IF it was listed for; otherwise something else comes back, or
nothing. Both halves are shown together, by one induction over statements: what stands after a
statement on its line is kept apart from it, and every branch says what may stand there. -/

namespace LineBasic

open Token Reader

/-- What follows a statement on its line: nothing, another statement, or the ELSE of an IF around
it. -/
inductive Following where
  | nothing
  | colon (text : List Char)
  | otherwise (text : List Char)

namespace Following

def text : Following → List Char
  | nothing => []
  | colon text => ' ' :: ':' :: ' ' :: text
  | otherwise text => ' ' :: (Keyword.ELSE.spelling.toList ++ ' ' :: text)

def tokens : Following → List Token
  | nothing => []
  | colon text => ofSymbol ':' :: lexFragment text false
  | otherwise text => ofKeyword .ELSE :: lexFragment text false

def isElse : Following → Bool
  | otherwise _ => true
  | _ => false

theorem lexFragment_text (f : Following) : lexFragment f.text false = f.tokens := by
  cases f with
  | nothing => exact lexFragment_nil false
  | colon text => exact Statement.lexFragment_colon text
  | otherwise text => exact Statement.lexFragment_else text

theorem breaks_text (f : Following) : Breaks f.text := by
  cases f with
  | nothing => exact breaks_nil
  | colon text => exact breaks_cons (by decide)
  | otherwise text => exact breaks_cons (by decide)

theorem ended_tokens (f : Following) : Ended f.tokens := by
  cases f with
  | nothing => exact ended_nil
  | colon text => exact ended_cons (.inl rfl)
  | otherwise text => exact ended_cons (.inr rfl)

/-- What follows the first branch of IF. -/
def ofBranches (elseList : List Statement) (f : Following) : Following :=
  if elseList.isEmpty then f else otherwise ((Statement.branchListing elseList).toList ++ f.text)

theorem text_ofBranches (elseList : List Statement) (f : Following) :
    (ofBranches elseList f).text = Statement.elseText elseList f.text := by
  unfold ofBranches Statement.elseText
  cases elseList.isEmpty <;> rfl

end Following

/-- The kinds of tokens that a statement starts with. -/
def Token.Kind.opensStatement : Kind → Bool
  | .ident => true
  | .keyword word => word != .ELSE
  | _ => false

theorem Token.Kind.isNumber_of_opensStatement {kind : Kind} (h : kind.opensStatement = true) :
    kind.isNumber = false := by
  cases kind <;> first | rfl | cases h

namespace Command

theorem exists_lead (c : Command) :
    ∃ token rest, c.tokens = token :: rest ∧ token.kind.opensStatement = true := by
  cases c with
  | assign target value =>
      cases target with
      | scalar name => exact ⟨_, _, by rw [tokens, Variable.tokens, Variable.toExpr, Expr.tokens]; rfl, rfl⟩
      | element name subscripts =>
          exact ⟨_, _, by rw [tokens, Variable.tokens, Variable.toExpr, Expr.tokens]; rfl, rfl⟩
  | load path andRun => cases andRun <;> exact ⟨_, _, rfl, rfl⟩
  | resume target => cases target <;> exact ⟨_, _, rfl, rfl⟩
  | _ => exact ⟨_, _, rfl, rfl⟩

end Command

namespace Statement

theorem tokens_ne_nil (s : Statement) : s.tokens ≠ [] := by
  cases s with
  | command c =>
      obtain ⟨token, rest, htokens, -⟩ := c.exists_lead
      rw [tokens, htokens]
      simp
  | choice condition thenList elseList =>
      rw [tokens_choice]
      simp

/-- The first token of a statement's text. -/
theorem exists_lead {s : Statement} (h : s.Legible) {tail : List Char} (htail : Breaks tail) :
    ∃ token rest, lexFragment (s.listing.toList ++ tail) false = token :: rest ∧
      token.kind.opensStatement = true := by
  cases s with
  | choice condition thenList elseList =>
      rw [Legible] at h
      exact ⟨_, _, lexFragment_choice h.1 thenList elseList tail, rfl⟩
  | command c =>
      rw [Legible] at h
      rw [listing]
      cases hverbatim : c.isVerbatim with
      | false =>
          obtain ⟨token, rest, htokens, hopens⟩ := c.exists_lead
          rw [(Command.spells_tokens h hverbatim).scan tail htail, htokens]
          exact ⟨token, _, rfl, hopens⟩
      | true =>
          cases c with
          | remark text =>
              have htext : (Command.remark text).listing.toList ++ tail =
                  'R' :: 'E' :: 'M' :: (text.toList ++ tail) := by simp [Command.listing]
              rw [htext]
              exact ⟨_, _, lexFragment_remark _, rfl⟩
          | data items =>
              have htext : (Command.data items).listing.toList ++ tail = Keyword.DATA.spelling.toList ++
                  ' ' :: ((joinWith "," (items.map Command.datum)).toList ++ tail) := by
                simp [Command.listing, Keyword.spelling]
              rw [htext]
              exact ⟨_, _, tokens_keyword .DATA (breaks_cons (by decide)), rfl⟩
          | _ => cases hverbatim

theorem exists_lead_all {list : List Statement} (hne : list ≠ []) (h : LegibleAll list)
    {tail : List Char} (htail : Breaks tail) :
    ∃ token rest, lexFragment ((listingAll list).toList ++ tail) false = token :: rest ∧
      token.kind.opensStatement = true := by
  cases list with
  | nil => exact absurd rfl hne
  | cons s rest =>
      rw [LegibleAll] at h
      by_cases hnil : rest = []
      · subst hnil
        rw [listingAll]
        exact exists_lead h.1 htail
      · rw [listingAll_text s hnil]
        exact exists_lead h.1 (breaks_cons (by decide))

/-- What may follow a statement that was read from a text. -/
def Allows (s : Statement) : Following → Prop
  | .nothing => True
  | .colon text => s.isFollowable = true ∧ kindAt (lexFragment text false) ≠ .keyword .ELSE
  | .otherwise _ => ∀ text, s.last ≠ .remark text

/-- Whether a statement reads back from its listing in its place on the line. -/
def fits (s : Statement) : Following → Bool
  | .otherwise _ => s.isFaithful && s.isClosed
  | _ => s.isFaithful

/-- What may follow the statements of a branch. -/
def AllowsAll (list : List Statement) : Following → Prop
  | .nothing => True
  | .colon _ => False
  | .otherwise _ => ∀ text, lastAll list ≠ .remark text

def fitsAll (list : List Statement) : Following → Bool
  | .otherwise _ => areFaithful list && areClosed list
  | _ => areFaithful list

/-- The listing of a statement reads back, or not, by what follows it. -/
def Readable (s : Statement) : Prop :=
  ∀ (f : Following) (budget : Nat), s.Allows f →
    4 * (lexFragment (s.listing.toList ++ f.text) false).length ≤ budget →
    if s.fits f then
      statementWithin budget (lexFragment (s.listing.toList ++ f.text) false) =
        .ok (s.separated, f.tokens)
    else
      ∀ after, Ended after →
        statementWithin budget (lexFragment (s.listing.toList ++ f.text) false) ≠ .ok (s.separated, after)

/-- The listing of the statements of a branch reads back, or not, by what follows them. -/
def ReadableAll (list : List Statement) : Prop :=
  ∀ (f : Following) (budget : Nat), AllowsAll list f →
    4 * (lexFragment ((listingAll list).toList ++ f.text) false).length + 1 ≤ budget →
    if fitsAll list f then
      branchStatements budget (lexFragment ((listingAll list).toList ++ f.text) false) =
        .ok (separatedAll list, f.tokens)
    else
      ∀ after, branchStatements budget (lexFragment ((listingAll list).toList ++ f.text) false) ≠
        .ok (separatedAll list, after)

end Statement

section Data

/-- Trimming keeps everything up to a character that is not blank. -/
theorem Text.length_lt_trimEnd {c : Char} (h : Text.isBlank c = false) (text more : List Char) :
    text.length < (Text.trimEnd (text ++ c :: more)).length := by
  have hdrop : ∀ blanks : List Char,
      text.length < ((blanks ++ c :: text.reverse).dropWhile Text.isBlank).length := by
    intro blanks
    induction blanks with
    | nil =>
        rw [List.nil_append, List.dropWhile_cons_of_neg (by simp [h]), List.length_cons,
          List.length_reverse]
        exact Nat.lt_succ_self _
    | cons b rest ih =>
        rw [List.cons_append, List.dropWhile_cons]
        split
        · exact ih
        · simp only [List.length_cons, List.length_append, List.length_reverse]
          omega
  rw [Text.trimEnd, Text.dropEndWhile, List.length_reverse, List.reverse_append, List.reverse_cons,
    List.append_assoc]
  exact hdrop more.reverse

/-- An item that does not end before ELSE takes in the word. -/
theorem lexFragment_raw {text : String} (h : (Datum.raw text).Legible) (more : List Char) :
    ∃ literal rest, lexFragment (text.toList ++ (Following.otherwise more).text) true =
      ⟨.raw, literal⟩ :: rest ∧ literal ≠ text := by
  obtain ⟨hchars, -, hhead⟩ := h
  let inItem : Char → Bool := fun d => d != ',' && d != ':' && d != '\n'
  have hitem : ∀ c ∈ text.toList, inItem c = true := by
    intro c hc
    simp [inItem, hchars c hc]
  have hpiece : ∀ (c : Char) (rest : List Char), inItem c = true → c ≠ '"' →
      Piece.ofData c rest = ⟨⟨.raw, String.ofList (Text.trimEnd ((c :: rest).takeWhile inItem))⟩,
        (c :: rest).dropWhile inItem, .data⟩ := by
    intro c rest hc hquote
    simp only [inItem, Bool.and_eq_true, bne_iff_ne] at hc
    unfold Piece.ofData
    rw [if_neg (by simpa using hc.1.1), if_neg (by simpa using hc.1.2), if_neg (by simpa using hquote)]
  cases htext : text.toList with
  | nil =>
      have hempty : text = "" := by
        rw [← String.toList_inj, htext]
        rfl
      have hword : (Following.otherwise more).text =
          ' ' :: 'E' :: (['L', 'S', 'E'] ++ ' ' :: more) := rfl
      rw [List.nil_append, hword, lexFragment_space true (by decide),
        tokens_ofData ⟨by decide, by decide, by decide⟩, hpiece _ _ (by decide) (by decide)]
      refine ⟨_, _, rfl, ?_⟩
      rw [hempty, List.takeWhile_cons_of_pos (by decide)]
      intro heq
      have hlength := Text.length_lt_trimEnd (c := 'E') (by decide) []
        ((['L', 'S', 'E'] ++ ' ' :: more).takeWhile inItem)
      have hnil := congrArg String.toList heq
      rw [String.toList_ofList] at hnil
      rw [List.nil_append, hnil] at hlength
      exact absurd hlength (by decide)
  | cons c rest =>
      rw [htext] at hitem hhead
      obtain ⟨hstarts, hquote⟩ := hhead c rfl
      rw [List.cons_append, tokens_ofData hstarts, hpiece c _ (hitem c List.mem_cons_self) hquote]
      refine ⟨_, _, rfl, ?_⟩
      intro heq
      have hword : (Following.otherwise more).text.takeWhile inItem =
          ' ' :: 'E' :: (['L', 'S', 'E'] ++ ' ' :: more).takeWhile inItem := rfl
      have hliteral := congrArg String.toList heq
      rw [String.toList_ofList, ← List.cons_append, List.takeWhile_append_of_pos hitem, hword, htext,
        List.append_cons] at hliteral
      have hlength := Text.length_lt_trimEnd (c := 'E') (by decide) (c :: rest ++ [' '])
        ((['L', 'S', 'E'] ++ ' ' :: more).takeWhile inItem)
      rw [hliteral, List.length_append] at hlength
      simp at hlength

/-- The last item of DATA before ELSE is another one, or is followed by no end of a statement. -/
theorem datum_before_else {item : Datum} (h : item.Legible) (more : List Char) :
    ∃ found after, datum (lexFragment ((Command.datum item).toList ++ (Following.otherwise more).text) true) =
      .ok (found, after) ∧ (found = item → kindAt after = .raw) := by
  cases item with
  | quoted text =>
      have htext : (Command.datum (.quoted text)).toList ++ (Following.otherwise more).text =
          '"' :: (text.toList ++ '"' :: (Following.otherwise more).text) := by simp [Command.datum]
      have hbody : ∀ c ∈ text.toList, (c != '"' && c != '\n') = true := by
        intro c hc
        simp [h c hc]
      have hpiece : Piece.ofData '"' (text.toList ++ '"' :: (Following.otherwise more).text) =
          ⟨⟨.text, text⟩, (Following.otherwise more).text, .data⟩ := by
        change Piece.quoted (text.toList ++ '"' :: (Following.otherwise more).text) .data = _
        unfold Piece.quoted
        rw [List.takeWhile_append_of_pos hbody, List.dropWhile_append_of_pos hbody]
        simp
      have hnone : (Datum.raw "").Legible := ⟨by simp, rfl, by simp⟩
      obtain ⟨literal, rest, hraw, -⟩ := lexFragment_raw hnone more
      rw [htext, tokens_ofData ⟨by decide, by decide, by decide⟩, hpiece]
      refine ⟨.quoted text, lexFragment (Following.otherwise more).text true, rfl, fun _ => ?_⟩
      change lexFragment (Following.otherwise more).text true = _ at hraw
      rw [hraw]
      rfl
  | raw text =>
      obtain ⟨literal, rest, hraw, hne⟩ := lexFragment_raw h more
      rw [Command.datum, hraw]
      refine ⟨.raw literal, rest, rfl, ?_⟩
      intro heq
      exact absurd (Datum.raw.inj heq) hne

theorem commaList_before_else {items : List Datum} (hne : items ≠ []) (h : ∀ item ∈ items, item.Legible)
    (more : List Char) {budget : Nat} {after : List Token}
    (hread : commaList datum budget (lexFragment ((joinWith "," (items.map Command.datum)).toList ++
      (Following.otherwise more).text) true) = .ok (items, after)) : ¬Ended after := by
  induction items generalizing budget with
  | nil => exact absurd rfl hne
  | cons item rest ih =>
      cases budget with
      | zero => cases hread
      | succ fuel =>
          have hitem := h item List.mem_cons_self
          rw [commaList] at hread
          cases rest with
          | nil =>
              obtain ⟨found, mid, hfound, hraw⟩ := datum_before_else hitem more
              have hjoin : joinWith "," ([item].map Command.datum) = Command.datum item := rfl
              rw [hjoin, bind_ok hfound] at hread
              obtain ⟨comma, rest, haccept, hrest⟩ := bind_eq_ok hread
              have hhead : found = item := by
                split at hrest
                · obtain ⟨others, mid, -, hpure⟩ := bind_eq_ok hrest
                  cases hpure
                  rfl
                · cases hrest
                  rfl
              have hkind := hraw hhead
              rw [accept_neg (by rw [hkind]; decide)] at haccept
              cases haccept
              cases hrest
              rintro (hend | helse)
              · rw [hkind] at hend
                cases hend
              · rw [hkind] at helse
                cases helse
          | cons next others =>
              have htext : (joinWith "," ((item :: next :: others).map Command.datum)).toList ++
                  (Following.otherwise more).text = (Command.datum item).toList ++
                    ',' :: ((joinWith "," ((next :: others).map Command.datum)).toList ++
                      (Following.otherwise more).text) := by
                simp [joinWith]
              rw [htext, Datum.lexFragment_tokens hitem (.inr ⟨_, rfl⟩), lexFragment_data_symbol (.inl rfl),
                bind_ok (datum_tokens (.inl rfl)), bind_ok (accept_pos (by rfl) (by rfl)), if_pos rfl] at hread
              obtain ⟨found, mid, hothers, hpure⟩ := bind_eq_ok hread
              cases hpure
              exact ih (by simp) (fun other hother => h other (List.mem_cons_of_mem item hother)) hothers

end Data

namespace Reader

section Choice

variable {budget : Nat} {condition : Expr} {thenList : List Statement} {tokens : List Token}

/-- What comes after the first branch of IF. -/
def choiceElse (budget : Nat) (condition : Expr) (thenList : List Statement) : Reader Statement := do
  if ← atColonElse then
    let _ ← next
  if ← accept (.keyword .ELSE) then return .choice condition thenList (← branch budget)
  else return .choice condition thenList []

theorem choice_then (h : condition.Legible) :
    choice (budget + 1) (condition.tokens ++ ofKeyword .THEN :: tokens) =
      if condition.isFaithful then (branch budget >>= choiceElse budget condition) tokens
      else .error misread := by
  rw [choice, bind_if (expr_tokens h (stops_cons rfl (by decide))), bind_ok (run_next (by rfl) _)]
  rfl

/-- A second branch is never empty. -/
theorem branch_ne_nil {list : List Statement} {rest : List Token}
    (h : branch budget tokens = .ok (list, rest)) : list ≠ [] := by
  cases budget with
  | zero => cases h
  | succ fuel =>
      rw [branch, bind_ok (run_peekKind _)] at h
      cases hnumber : (kindAt tokens).isNumber with
      | true =>
          rw [hnumber, if_pos rfl] at h
          obtain ⟨line, after, -, hpure⟩ := bind_eq_ok h
          cases hpure
          simp
      | false =>
          rw [hnumber, if_neg Bool.false_ne_true] at h
          obtain ⟨found, after, -, hpure⟩ := bind_eq_ok h
          cases found with
          | nil => cases hpure
          | cons s others =>
              cases hpure
              simp

/-- The kind of the token after the next. -/
def secondKindAt (tokens : List Token) : Kind := kindAt tokens.tail

theorem run_peekSecondKind (tokens : List Token) :
    peekSecondKind tokens = .ok (secondKindAt tokens, tokens) := rfl

theorem run_atColonElse (tokens : List Token) :
    atColonElse tokens =
      .ok (decide (kindAt tokens = .colon ∧ secondKindAt tokens = .keyword .ELSE), tokens) := by
  rw [atColonElse, bind_ok (run_peekKind _)]
  split
  · rename_i hcolon
    rw [bind_ok (run_peekSecondKind _), run_pure]
    simp [hcolon, beq_eq_decide]
  · rename_i hcolon
    rw [run_pure]
    simp [hcolon]

/-- A colon before ELSE is skipped. -/
theorem choiceElse_eq :
    choiceElse budget condition thenList tokens =
      (accept (.keyword .ELSE) >>= fun hasElse =>
        if hasElse then branch budget >>= fun elseList => pure (.choice condition thenList elseList)
        else pure (.choice condition thenList []))
        (if kindAt tokens = .colon ∧ secondKindAt tokens = .keyword .ELSE then tokens.tail else tokens) := by
  rw [choiceElse, bind_ok (run_atColonElse _)]
  by_cases hcolon : kindAt tokens = .colon ∧ secondKindAt tokens = .keyword .ELSE
  · rw [decide_eq_true hcolon, if_pos hcolon]
    cases tokens with
    | nil => cases hcolon.1
    | cons token rest =>
        have hkind : token.kind = .colon := hcolon.1
        exact bind_ok (run_next (by rw [hkind]; rfl) rest)
  · rw [decide_eq_false hcolon, if_neg hcolon]
    rfl

theorem choiceElse_else {token : Token} (h : token.kind = .keyword .ELSE) :
    choiceElse budget condition thenList (token :: tokens) =
      (branch budget >>= fun elseList => pure (.choice condition thenList elseList)) tokens := by
  rw [choiceElse_eq, if_neg (by rw [kindAt_cons, h]; simp), bind_ok (accept_pos h rfl), if_pos rfl]

theorem choiceElse_none (h : kindAt tokens ≠ .keyword .ELSE)
    (hcolon : ¬(kindAt tokens = .colon ∧ secondKindAt tokens = .keyword .ELSE)) :
    choiceElse budget condition thenList tokens = .ok (.choice condition thenList [], tokens) := by
  rw [choiceElse_eq, if_neg hcolon, bind_ok (accept_neg h)]
  rfl

/-- The condition and the first branch that come out are those that went in. -/
theorem choiceElse_eq_ok {s : Statement} {rest : List Token}
    (h : choiceElse budget condition thenList tokens = .ok (s, rest)) :
    ∃ elseList, s = .choice condition thenList elseList := by
  rw [choiceElse_eq] at h
  obtain ⟨hasElse, after, -, h⟩ := bind_eq_ok h
  cases hasElse with
  | false =>
      cases h
      exact ⟨[], rfl⟩
  | true =>
      obtain ⟨elseList, after, -, h⟩ := bind_eq_ok h
      cases h
      exact ⟨elseList, rfl⟩

theorem branch_line {line : Nat} (h : line ≤ Line.maxNumber) :
    branch (budget + 1) (lineToken line :: tokens) = .ok ([.command (.goto line)], tokens) := by
  have hkind : (kindAt (lineToken line :: tokens)).isNumber = true := ofNumber_digits_isNumber line
  rw [branch, bind_ok (run_peekKind _), hkind, if_pos rfl, bind_ok (lineRef_token h tokens)]
  rfl

theorem branch_statements (h : (kindAt tokens).opensStatement = true) :
    branch (budget + 1) tokens =
      match branchStatements budget tokens with
      | .ok ([], _) => .error (.of .syntaxError "EXPECTED STATEMENT")
      | result => result := by
  rw [branch, bind_ok (run_peekKind _), Kind.isNumber_of_opensStatement h, if_neg Bool.false_ne_true, run_bind]
  rcases branchStatements budget tokens with fault | ⟨_ | ⟨s, rest⟩, after⟩ <;> rfl

end Choice

end Reader

namespace Statement

/-- What may follow a branch of IF. -/
def AllowsBranch (list : List Statement) : Following → Prop
  | .colon text =>
      (loneGoto? list).isSome = true ∧ kindAt (lexFragment text false) ≠ .keyword .ELSE
  | f => AllowsAll list f

/-- The listing of a branch reads back, or not, by what follows it. -/
def BranchReadable (list : List Statement) : Prop :=
  ∀ (f : Following) (budget : Nat), AllowsBranch list f →
    4 * (lexFragment ((branchListing list).toList ++ f.text) false).length + 2 ≤ budget →
    if fitsAll list f then
      branch budget (lexFragment ((branchListing list).toList ++ f.text) false) =
        .ok (separatedAll list, f.tokens)
    else
      ∀ after, branch budget (lexFragment ((branchListing list).toList ++ f.text) false) ≠
        .ok (separatedAll list, after)

theorem fitsAll_goto (line : Nat) (f : Following) : fitsAll [command (.goto line)] f = true := by
  cases f <;> rfl

theorem separatedAll_ne_nil {list : List Statement} (h : list ≠ []) : separatedAll list ≠ [] := by
  cases list with
  | nil => exact absurd rfl h
  | cons s rest =>
      rw [separatedAll]
      simp

theorem branchReadable {list : List Statement} (hne : list ≠ []) (h : LegibleAll list)
    (hread : ReadableAll list) : BranchReadable list := by
  intro f budget hallows hbudget
  obtain ⟨fuel, rfl⟩ : ∃ fuel, budget = fuel + 1 := ⟨budget - 1, by omega⟩
  cases hlone : loneGoto? list with
  | some line =>
      obtain rfl := loneGoto?_eq_some hlone
      rw [LegibleAll, Legible] at h
      have hscan : lexFragment ((branchListing [command (.goto line)]).toList ++ f.text) false =
          lineToken line :: f.tokens := by
        rw [← f.lexFragment_text]
        exact (spells_line line).scan f.text f.breaks_text
      rw [fitsAll_goto, if_pos rfl, hscan, branch_line h.1]
      rfl
  | none =>
      have htext : branchListing list = listingAll list := by rw [branchListing, hlone]
      have hall : AllowsAll list f := by
        cases f with
        | nothing => exact hallows
        | otherwise text => exact hallows
        | colon text =>
            rw [AllowsBranch, hlone] at hallows
            exact absurd hallows.1 Bool.false_ne_true
      rw [htext] at hbudget ⊢
      obtain ⟨token, rest, hscan, hopens⟩ := exists_lead_all hne h f.breaks_text
      have hfirst : (kindAt (lexFragment ((listingAll list).toList ++ f.text) false)).opensStatement =
          true := by
        rw [hscan]
        exact hopens
      have hlist := hread f fuel hall (by omega)
      rw [branch_statements hfirst]
      have hnil := separatedAll_ne_nil hne
      generalize separatedAll list = found at hlist hnil
      split
      · rename_i hfits
        rw [if_pos hfits] at hlist
        rw [hlist]
        cases found with
        | nil => exact absurd rfl hnil
        | cons s others => rfl
      · rename_i hfits
        rw [if_neg hfits] at hlist
        intro after hbranch
        split at hbranch
        · cases hbranch
        · exact hlist after hbranch

/-- What follows IF follows its last branch. -/
theorem allowsBranch_of_allows {condition : Expr} {thenList elseList : List Statement} {f : Following}
    (h : (choice condition thenList elseList).Allows f) :
    AllowsBranch (if elseList.isEmpty then thenList else elseList) f := by
  cases f with
  | nothing => trivial
  | colon text => exact h
  | otherwise text =>
      intro remark hlast
      rw [Allows] at h
      refine h remark ?_
      rw [last, ← hlast]
      cases elseList.isEmpty <;> rfl

/-- Tokens where no ELSE of an IF stands. -/
theorem not_else_of_allows {s : Statement} {f : Following} (h : s.Allows f) (hf : f.isElse = false) :
    kindAt f.tokens ≠ .keyword .ELSE ∧
      ¬(kindAt f.tokens = .colon ∧ secondKindAt f.tokens = .keyword .ELSE) := by
  cases f with
  | nothing => exact ⟨by simp [Following.tokens], by simp [Following.tokens]⟩
  | otherwise text => cases hf
  | colon text =>
      refine ⟨kindAt_ne (by decide) _, ?_⟩
      rintro ⟨-, hsecond⟩
      refine h.2 ?_
      rw [← hsecond, Following.tokens, secondKindAt, List.tail_cons]

section Choice

variable {condition : Expr} {thenList elseList : List Statement} {f : Following}

theorem fits_choice_lone (condition : Expr) (thenList : List Statement) (f : Following) :
    (choice condition thenList []).fits f =
      (condition.isFaithful && fitsAll thenList f && !f.isElse) := by
  cases f <;> simp [fits, fitsAll, isFaithful, areFaithful, isClosed, Following.isElse]

theorem fits_choice_else (condition : Expr) (thenList : List Statement) (hne : elseList ≠ [])
    (f : Following) :
    (choice condition thenList elseList).fits f =
      (condition.isFaithful && fitsAll thenList (f.ofBranches elseList) && fitsAll elseList f) := by
  have hempty : elseList.isEmpty = false := List.isEmpty_eq_false_iff.mpr hne
  rw [Following.ofBranches, hempty, if_neg Bool.false_ne_true]
  cases f <;> simp only [fits, fitsAll, isFaithful, isClosed, hempty] <;>
    cases condition.isFaithful <;> cases areFaithful thenList <;> cases areFaithful elseList <;>
      cases areClosed thenList <;> rfl

theorem statementWithin_choice (h : condition.Legible) (thenList elseList : List Statement)
    (f : Following) (budget : Nat) :
    statementWithin (budget + 2)
        (lexFragment ((choice condition thenList elseList).listing.toList ++ f.text) false) =
      if condition.isFaithful then
        (branch budget >>= choiceElse budget condition)
          (lexFragment ((branchListing thenList).toList ++ (f.ofBranches elseList).text) false)
      else .error misread := by
  rw [lexFragment_choice h, Following.text_ofBranches, statementWithin, bind_ok (run_peekKind _),
    if_neg (kindAt_ne (by decide) _), bind_ok (run_next (by rfl) _), if_pos (by rfl), choice_then h]

/-- A first branch that does not come back leaves no way for the whole. -/
theorem not_choice_of_branch {budget : Nat} {tokens : List Token}
    (h : ∀ after, branch budget tokens ≠ .ok (thenList, after)) (after : List Token) :
    (branch budget >>= choiceElse budget condition) tokens ≠
      .ok (choice condition thenList elseList, after) := by
  intro hread
  obtain ⟨found, mid, hbranch, helse⟩ := bind_eq_ok hread
  obtain ⟨others, hwhole⟩ := choiceElse_eq_ok helse
  rw [choice.injEq] at hwhole
  rw [← hwhole.2.1] at hbranch
  exact h mid hbranch

theorem allowsBranch_then (h : (choice condition thenList elseList).Legible)
    (hallows : (choice condition thenList elseList).Allows f) :
    AllowsBranch thenList (f.ofBranches elseList) := by
  have hwhole := allowsBranch_of_allows hallows
  rw [Legible] at h
  unfold Following.ofBranches
  cases hempty : elseList.isEmpty with
  | true =>
      rw [hempty, if_pos rfl] at hwhole
      rw [if_pos rfl]
      exact hwhole
  | false =>
      rw [if_neg Bool.false_ne_true]
      exact h.2.2.2.2 (List.isEmpty_eq_false_iff.mp hempty)

theorem readable_choice_lone (h : (choice condition thenList []).Legible)
    (hthen : BranchReadable thenList) : Readable (choice condition thenList []) := by
  intro f budget hallows hbudget
  have hallowsThen := allowsBranch_then h hallows
  rw [Legible] at h
  have hlength := hbudget
  rw [lexFragment_choice h.1, ← Following.text_ofBranches, List.length_cons, List.length_append,
    List.length_cons] at hlength
  obtain ⟨fuel, rfl⟩ : ∃ fuel, budget = fuel + 2 := ⟨budget - 2, by omega⟩
  have hbranch := hthen (f.ofBranches []) fuel hallowsThen (by omega)
  rw [statementWithin_choice h.1, fits_choice_lone, separated, separatedAll]
  change if fitsAll thenList f then _ else _ at hbranch
  cases condition.isFaithful with
  | false =>
      rw [Bool.false_and, Bool.false_and, if_neg Bool.false_ne_true]
      intro after _ herror
      cases herror
  | true =>
      rw [Bool.true_and, if_pos rfl]
      cases hfits : fitsAll thenList f with
      | false =>
          rw [hfits, if_neg Bool.false_ne_true] at hbranch
          rw [Bool.false_and, if_neg Bool.false_ne_true]
          exact fun after _ => not_choice_of_branch hbranch after
      | true =>
          rw [hfits, if_pos rfl] at hbranch
          rw [Bool.true_and, bind_ok hbranch]
          change if !f.isElse then choiceElse _ _ _ f.tokens = _ else
            ∀ after, _ → choiceElse _ _ _ f.tokens ≠ _
          cases helse : f.isElse with
          | false =>
              obtain ⟨hfirst, hsecond⟩ := not_else_of_allows hallows helse
              exact choiceElse_none hfirst hsecond
          | true =>
              -- The ELSE goes to this IF, which has none of its own.
              intro after _ hread
              cases f with
              | nothing => cases helse
              | colon text => cases helse
              | otherwise text =>
                  rw [Following.tokens, choiceElse_else rfl] at hread
                  obtain ⟨found, mid, hfound, hpure⟩ := bind_eq_ok hread
                  cases hpure
                  exact branch_ne_nil hfound rfl

theorem readable_choice_else (hne : elseList ≠ []) (h : (choice condition thenList elseList).Legible)
    (hthen : BranchReadable thenList) (helse : BranchReadable elseList) :
    Readable (choice condition thenList elseList) := by
  intro f budget hallows hbudget
  have hallowsThen := allowsBranch_then h hallows
  have hempty : elseList.isEmpty = false := List.isEmpty_eq_false_iff.mpr hne
  have hallowsElse := allowsBranch_of_allows hallows
  rw [hempty, if_neg Bool.false_ne_true] at hallowsElse
  rw [Legible] at h
  have hlength := hbudget
  rw [lexFragment_choice h.1, ← Following.text_ofBranches, List.length_cons, List.length_append,
    List.length_cons] at hlength
  obtain ⟨fuel, rfl⟩ : ∃ fuel, budget = fuel + 2 := ⟨budget - 2, by omega⟩
  have hbranch := hthen (f.ofBranches elseList) fuel hallowsThen (by omega)
  rw [statementWithin_choice h.1, fits_choice_else condition thenList hne, separated]
  cases condition.isFaithful with
  | false =>
      rw [Bool.false_and, Bool.false_and, if_neg Bool.false_ne_true]
      intro after _ herror
      cases herror
  | true =>
      rw [Bool.true_and, if_pos rfl]
      cases hfits : fitsAll thenList (f.ofBranches elseList) with
      | false =>
          rw [hfits, if_neg Bool.false_ne_true] at hbranch
          rw [Bool.false_and, if_neg Bool.false_ne_true]
          exact fun after _ => not_choice_of_branch hbranch after
      | true =>
          have hfollowing : f.ofBranches elseList =
              .otherwise ((branchListing elseList).toList ++ f.text) := by
            rw [Following.ofBranches, hempty, if_neg Bool.false_ne_true]
          rw [hfits, if_pos rfl] at hbranch
          rw [hfollowing, fitsAll, Bool.and_eq_true] at hfits
          -- The second branch is shorter than the whole, for the first one is scanned to its tokens.
          have hprecedes := lastAll_precedes (h.2.2.2.2 hne) hfits.2 (f.ofBranches elseList).breaks_text
          rw [lexFragment_branch hprecedes (lexFragment_listingAll h.2.1 h.2.2.1 hfits.1 hprecedes),
            Following.lexFragment_text, hfollowing, Following.tokens, List.length_append,
            List.length_cons] at hlength
          have hsecond := helse f fuel hallowsElse (by omega)
          rw [Bool.true_and, bind_ok hbranch, hfollowing, Following.tokens, choiceElse_else rfl]
          split
          · rename_i hfitsElse
            rw [if_pos hfitsElse] at hsecond
            rw [bind_ok hsecond]
            rfl
          · rename_i hfitsElse
            rw [if_neg hfitsElse] at hsecond
            intro after _ hread
            obtain ⟨found, mid, hfound, hpure⟩ := bind_eq_ok hread
            cases hpure
            exact hsecond _ hfound

end Choice

section Command

variable {c : Command} {f : Following}

/-- A command is left alone by what may follow it, but for DATA before ELSE. -/
theorem precedes_of_allows (h : (command c).Allows f) (hdata : c.isVerbatim = false ∨ f.isElse = false) :
    c.Precedes f.text := by
  cases f with
  | nothing => exact Command.precedes_of_endsLine c (.inl rfl)
  | colon text =>
      refine Command.precedes_of_closes ?_ (.inr ⟨_, rfl⟩)
      rintro remark rfl
      cases h.1
  | otherwise text =>
      rcases hdata with hverbatim | helse
      · exact Command.precedes_of_breaks hverbatim (breaks_cons (by decide))
      · cases helse

theorem isClosed_of_not_verbatim (h : c.isVerbatim = false) : (command c).isClosed = true := by
  cases c with
  | data items => cases h
  | _ => simp [isClosed]

/-- A run from a line is read where a program was to be loaded. -/
theorem not_load_of_number {path : Expr} (h : path.Legible) (hlead : path.leadsWithNumber = true)
    (budget : Nat) (rest after : List Token) :
    statementWithin (budget + 1) ((Command.load path true).tokens ++ rest) ≠
      .ok (command (.load path true), after) := by
  intro hread
  have htokens : (Command.load path true).tokens ++ rest = ofKeyword .RUN :: (path.tokens ++ rest) := rfl
  obtain ⟨hopens, hnumber⟩ := kindAt_append h rest
  rw [htokens, statementWithin_keyword (by decide)] at hread
  obtain ⟨found, mid, hfound, hpure⟩ := bind_eq_ok hread
  cases hpure
  change (atEnd >>= _) _ = _ at hfound
  rw [bind_ok (atEnd_neg (not_ended_of_opensExpr hopens)), if_neg Bool.false_ne_true,
    bind_ok (run_peekKind _), hnumber, hlead, if_pos rfl] at hfound
  obtain ⟨line, mid, -, hrun⟩ := bind_eq_ok hfound
  cases hrun

theorem not_data_before_else {items : List Datum} (h : (Command.data items).Legible) (budget : Nat)
    (text : List Char) {after : List Token}
    (hread : statementWithin (budget + 1) (lexFragment ((Command.data items).listing.toList ++
      (Following.otherwise text).text) false) = .ok (command (.data items), after)) :
    ¬Ended after := by
  have htext : (Command.data items).listing.toList ++ (Following.otherwise text).text =
      Keyword.DATA.spelling.toList ++ ' ' :: ((joinWith "," (items.map Command.datum)).toList ++
        (Following.otherwise text).text) := by
    simp [Command.listing, Keyword.spelling]
  have hspace : ∀ more, lexFragment (' ' :: more) true = lexFragment more true :=
    fun _ => lexFragment_space true (by decide)
  rw [htext, tokens_keyword .DATA (breaks_cons (by decide))] at hread
  change statementWithin (budget + 1) (ofKeyword .DATA :: lexFragment _ true) = _ at hread
  rw [hspace, statementWithin_keyword (by decide)] at hread
  obtain ⟨found, mid, hfound, hpure⟩ := bind_eq_ok hread
  cases hpure
  change (listOf datum >>= _) _ = _ at hfound
  obtain ⟨others, mid, hothers, hpure⟩ := bind_eq_ok hfound
  cases hpure
  rw [listOf, run_sized] at hothers
  exact commaList_before_else h.1 h.2 text hothers

theorem readable_command (h : c.Legible) : Readable (command c) := by
  intro f budget hallows hbudget
  obtain ⟨token, rest, hscan, -⟩ := exists_lead (s := command c) (by rw [Legible]; exact h) f.breaks_text
  obtain ⟨fuel, rfl⟩ : ∃ fuel, budget = fuel + 1 := by
    rw [hscan, List.length_cons] at hbudget
    exact ⟨budget - 1, by omega⟩
  rw [listing, separated]
  by_cases hdata : c.isVerbatim = false ∨ f.isElse = false
  · rw [Command.lexFragment_listing h (precedes_of_allows hallows hdata), Following.lexFragment_text]
    have hfits : (command c).fits f = c.isFaithful := by
      cases f with
      | otherwise text =>
          rcases hdata with hverbatim | helse
          · rw [fits, isFaithful, isClosed_of_not_verbatim hverbatim, Bool.and_true]
          · cases helse
      | _ => simp only [fits, isFaithful]
    rw [hfits, Command.isFaithful]
    cases hruns : c.runsFromNumber with
    | false =>
        rw [Bool.not_false, Bool.and_true, commandRead h hruns fuel f.tokens f.ended_tokens]
        split
        · rfl
        · intro after _ herror
          cases herror
    | true =>
        rw [Bool.not_true, Bool.and_false, if_neg Bool.false_ne_true]
        cases c with
        | load path andRun =>
            cases andRun with
            | false => cases hruns
            | true => exact fun after _ => not_load_of_number h hruns fuel f.tokens after
        | _ => cases hruns
  · rw [not_or, Bool.not_eq_false, Bool.not_eq_false] at hdata
    cases f with
    | nothing => cases hdata.2
    | colon text => cases hdata.2
    | otherwise text =>
        cases c with
        | remark remark => exact absurd rfl (hallows remark)
        | data items => exact fun after hended hread => not_data_before_else h fuel text hread hended
        | _ => cases hdata.1

end Command

end Statement

namespace Reader

section Branch

variable {budget : Nat} {tokens : List Token}

theorem branchStatements_opens (h : (kindAt tokens).opensStatement = true) :
    branchStatements (budget + 1) tokens =
      (statementWithin budget >>= fun first => atEnd >>= fun ended =>
        if ended then branchStatements budget >>= fun others => pure (first :: others)
        else refuse "EXPECTED END OF STATEMENT") tokens := by
  rw [branchStatements, bind_ok (run_peekKind _)]
  generalize kindAt tokens = kind at h
  cases kind with
  | ident => rfl
  | keyword word => cases word <;> first | rfl | cases h
  | _ => cases h

theorem branchStatements_ended {f : Following} (h : ∀ text, f ≠ .colon text) :
    branchStatements (budget + 1) f.tokens = .ok ([], f.tokens) := by
  cases f with
  | nothing =>
      rw [branchStatements]
      rfl
  | otherwise text =>
      rw [branchStatements]
      rfl
  | colon text => exact absurd rfl (h text)

theorem branchStatements_colon (h : kindAt tokens ≠ .keyword .ELSE) :
    branchStatements (budget + 1) (ofSymbol ':' :: tokens) = branchStatements budget tokens := by
  have hsecond : secondKindAt (ofSymbol ':' :: tokens) = kindAt tokens := rfl
  rw [branchStatements, bind_ok (run_peekKind _)]
  change (peekSecondKind >>= _) _ = _
  rw [bind_ok (run_peekSecondKind _), hsecond, if_neg h]
  rfl

end Branch

end Reader

namespace Statement

section Lists

variable {s : Statement} {list : List Statement} {f : Following}

theorem not_colon_of_allowsAll (h : AllowsAll list f) (text : List Char) : f ≠ .colon text := by
  rintro rfl
  exact h

/-- The first statement does not come back: the list does not. -/
theorem not_list_of_first {budget : Nat} {tokens : List Token}
    (hopens : (kindAt tokens).opensStatement = true)
    (h : ∀ after, Ended after → statementWithin budget tokens ≠ .ok (s, after)) (after : List Token) :
    branchStatements (budget + 1) tokens ≠ .ok (s :: list, after) := by
  intro hread
  rw [branchStatements_opens hopens] at hread
  obtain ⟨first, mid, hfirst, hread⟩ := bind_eq_ok hread
  by_cases hended : Ended mid
  · rw [bind_ok (atEnd_pos hended), if_pos rfl] at hread
    obtain ⟨others, last, -, hpure⟩ := bind_eq_ok hread
    cases hpure
    exact h mid hended hfirst
  · rw [bind_ok (atEnd_neg hended), if_neg Bool.false_ne_true] at hread
    cases hread

theorem kindAt_listing (h : s.Legible) {tail : List Char} (htail : Breaks tail) :
    (kindAt (lexFragment (s.listing.toList ++ tail) false)).opensStatement = true := by
  obtain ⟨token, rest, hscan, hopens⟩ := exists_lead h htail
  rw [hscan]
  exact hopens

theorem readableAll_single (h : s.Legible) (hs : Readable s) : ReadableAll [s] := by
  intro f budget hallows hbudget
  have hallowsOne : s.Allows f := by
    cases f with
    | nothing => trivial
    | colon text => exact absurd hallows id
    | otherwise text =>
        rw [AllowsAll, lastAll] at hallows
        exact hallows
  have hfits : fitsAll [s] f = s.fits f := by
    cases f <;> simp [fitsAll, fits, areFaithful, areClosed]
  rw [listingAll] at hbudget ⊢
  obtain ⟨fuel, rfl⟩ : ∃ fuel, budget = fuel + 1 := ⟨budget - 1, by omega⟩
  obtain ⟨token, rest, hscan, -⟩ := exists_lead h f.breaks_text
  have hlength : 0 < (lexFragment (s.listing.toList ++ f.text) false).length := by
    rw [hscan]
    exact Nat.succ_pos _
  have hopens := kindAt_listing h f.breaks_text
  have hread := hs f fuel hallowsOne (by omega)
  rw [hfits, separatedAll, separatedAll]
  split
  · rename_i hgood
    rw [if_pos hgood] at hread
    obtain ⟨less, rfl⟩ : ∃ less, fuel = less + 1 := ⟨fuel - 1, by omega⟩
    rw [branchStatements_opens hopens, bind_ok hread, bind_ok (atEnd_pos f.ended_tokens), if_pos rfl,
      bind_ok (branchStatements_ended (not_colon_of_allowsAll hallows))]
    rfl
  · rename_i hbad
    rw [if_neg hbad] at hread
    exact not_list_of_first hopens hread

theorem not_else_of_opensStatement {kind : Kind} (h : kind.opensStatement = true) :
    kind ≠ .keyword .ELSE := by
  rintro rfl
  cases h

theorem fitsAll_cons (s : Statement) (hne : list ≠ []) (f : Following) :
    fitsAll (s :: list) f = (s.isFaithful && fitsAll list f) := by
  cases f <;> simp [fitsAll, areFaithful, areClosed_cons s hne, Bool.and_assoc]

/-- A list comes back behind its first statement exactly where it comes back itself. -/
theorem comesBack_cons {reader : Reader (List Statement)} {left rest : List Token} {fits : Bool} (first : Statement)
    (h : if fits then reader left = .ok (list, rest) else ∀ after, reader left ≠ .ok (list, after)) :
    if fits then (reader >>= fun others => pure (first :: others)) left = .ok (first :: list, rest)
    else ∀ after, (reader >>= fun others => pure (first :: others)) left ≠ .ok (first :: list, after) := by
  cases fits with
  | true => exact bind_ok h
  | false =>
      intro after hwhole
      obtain ⟨others, mid, hothers, hpure⟩ := bind_eq_ok hwhole
      cases hpure
      exact h after hothers

theorem readableAll_cons (hne : list ≠ []) (h : LegibleAll (s :: list)) (hs : Readable s)
    (hlist : ReadableAll list) : ReadableAll (s :: list) := by
  intro f budget hallows hbudget
  rw [LegibleAll] at h
  obtain ⟨hlegible, hfollowable, hrest⟩ := h
  have hallowsRest : AllowsAll list f := by
    cases f with
    | nothing => trivial
    | colon text => exact hallows
    | otherwise text =>
        rw [AllowsAll, lastAll_cons s hne] at hallows
        exact hallows
  rw [listingAll_text s hne] at hbudget ⊢
  let g := Following.colon ((listingAll list).toList ++ f.text)
  have hopensRest : (kindAt (lexFragment ((listingAll list).toList ++ f.text) false)).opensStatement =
      true := by
    obtain ⟨token, rest, hscan, hopens⟩ := exists_lead_all hne hrest f.breaks_text
    rw [hscan]
    exact hopens
  have hnotElse := not_else_of_opensStatement hopensRest
  have hopens : (kindAt (lexFragment (s.listing.toList ++ g.text) false)).opensStatement = true :=
    kindAt_listing hlegible g.breaks_text
  obtain ⟨fuel, rfl⟩ : ∃ fuel, budget = fuel + 1 := ⟨budget - 1, by omega⟩
  change 4 * (lexFragment (s.listing.toList ++ g.text) false).length + 1 ≤ fuel + 1 at hbudget
  have hread := hs g fuel ⟨hfollowable hne, hnotElse⟩ (by omega)
  change if fitsAll (s :: list) f then
      branchStatements (fuel + 1) (lexFragment (s.listing.toList ++ g.text) false) = _
    else ∀ after, branchStatements (fuel + 1) (lexFragment (s.listing.toList ++ g.text) false) ≠ _
  rw [fitsAll_cons s hne, separatedAll]
  change if s.isFaithful then _ else _ at hread
  cases hgood : s.isFaithful with
  | false =>
      rw [hgood, if_neg Bool.false_ne_true] at hread
      exact not_list_of_first hopens hread
  | true =>
      rw [hgood, if_pos rfl] at hread
      have hprecedes : s.last.Precedes g.text :=
        Command.precedes_of_closes (last_ne_remark_of_isFollowable (hfollowable hne)) (.inr ⟨_, rfl⟩)
      rw [lexFragment_listing hlegible hgood hprecedes, Following.lexFragment_text, Following.tokens,
        List.length_append, List.length_cons] at hbudget
      obtain ⟨less, rfl⟩ : ∃ less, fuel = less + 1 := ⟨fuel - 1, by omega⟩
      have hothers := hlist f less hallowsRest (by omega)
      rw [← branchStatements_colon hnotElse] at hothers
      rw [Bool.true_and, branchStatements_opens hopens, bind_ok hread, bind_ok (atEnd_pos g.ended_tokens), if_pos rfl]
      exact comesBack_cons s.separated hothers

mutual

/-- **A statement comes back from its listing exactly where it fits what follows it.** -/
theorem readable : ∀ {s : Statement}, s.Legible → Readable s
  | command c, h => by
      rw [Legible] at h
      exact readable_command h
  | choice condition thenList elseList, h => by
      have hparts := h
      rw [Legible] at hparts
      obtain ⟨-, hne, hthen, helse, -⟩ := hparts
      have hfirst := branchReadable hne hthen (readableAll hne hthen)
      by_cases hnil : elseList = []
      · subst hnil
        exact readable_choice_lone h hfirst
      · exact readable_choice_else hnil h hfirst (branchReadable hnil helse (readableAll hnil helse))

theorem readableAll : ∀ {list : List Statement}, list ≠ [] → LegibleAll list → ReadableAll list
  | [], hne, _ => absurd rfl hne
  | [s], _, h => by
      rw [LegibleAll] at h
      exact readableAll_single h.1 (readable h.1)
  | s :: next :: rest, _, h => by
      have hparts := h
      rw [LegibleAll] at hparts
      exact readableAll_cons (by simp) h (readable hparts.1) (readableAll (by simp) hparts.2.2)

end

end Lists

end Statement

namespace Reader

section Line

variable {budget : Nat} {tokens : List Token} {s : Statement} {list : List Statement}

theorem statements_opens (h : (kindAt tokens).opensStatement = true) :
    statements (budget + 1) tokens =
      (statement >>= fun first => peekKind >>= fun kind =>
        if kind.isTerminator then statements budget >>= fun others => pure (first :: others)
        else refuse "EXPECTED END OF STATEMENT") tokens := by
  rw [statements, bind_ok (run_peekKind _)]
  generalize kindAt tokens = kind at h
  cases kind with
  | ident => rfl
  | keyword word => rfl
  | _ => cases h

theorem statements_colon :
    statements (budget + 1) (ofSymbol ':' :: tokens) = statements budget tokens := by
  rw [statements, bind_ok (run_peekKind _)]
  rfl

/-- The first statement of a line: if it comes back, what follows it is read next. -/
theorem statements_first (budget : Nat) (list : List Statement) (h : s.Legible) {f : Following}
    (hallows : s.Allows f) (hf : f.isElse = false) (hline : '\n' ∉ s.listing.toList ++ f.text) :
    if s.isFaithful then
      statements (budget + 1) (lexFragment (s.listing.toList ++ f.text) false) =
        (statements budget >>= fun others => pure (s.separated :: others)) f.tokens
    else
      ∀ after, statements (budget + 1) (lexFragment (s.listing.toList ++ f.text) false) ≠
        .ok (s.separated :: list, after) := by
  have hleft : leftInLine (lexFragment (s.listing.toList ++ f.text) false) =
      (lexFragment (s.listing.toList ++ f.text) false).length := (inLine_lexFragment hline).leftInLine_eq
  have hread := Statement.readable h f (budgetFor (leftInLine (lexFragment (s.listing.toList ++ f.text) false)))
    hallows (by rw [budgetFor, hleft]; omega)
  have hopens := Statement.kindAt_listing h f.breaks_text
  have hfits : s.fits f = s.isFaithful := by
    cases f with
    | otherwise text => cases hf
    | _ => rfl
  have hended : (kindAt f.tokens).isTerminator = true := by
    cases f with
    | otherwise text => cases hf
    | _ => rfl
  rw [hfits] at hread
  have hstatement : ∀ tokens, statement tokens = statementWithin (budgetFor (leftInLine tokens)) tokens := run_sized _
  rw [← hstatement] at hread
  rw [statements_opens hopens]
  cases hgood : s.isFaithful with
  | true =>
      rw [hgood, if_pos rfl] at hread
      rw [if_pos rfl, bind_ok hread, bind_ok (run_peekKind _), if_pos hended]
  | false =>
      rw [hgood, if_neg Bool.false_ne_true] at hread
      rw [if_neg Bool.false_ne_true]
      intro after hwhole
      obtain ⟨first, mid, hfirst, hwhole⟩ := bind_eq_ok hwhole
      rw [bind_ok (run_peekKind _)] at hwhole
      split at hwhole
      · rename_i hend
        obtain ⟨others, last, -, hpure⟩ := bind_eq_ok hwhole
        cases hpure
        exact hread mid (.inl hend) hfirst
      · cases hwhole

theorem listingAll_last (s : Statement) :
    (Statement.listingAll [s]).toList = s.listing.toList ++ Following.nothing.text := by
  rw [Statement.listingAll]
  exact (List.append_nil _).symm

theorem listingAll_before (s : Statement) {rest : List Statement} (hnil : rest ≠ []) :
    (Statement.listingAll (s :: rest)).toList =
      s.listing.toList ++ (Following.colon (Statement.listingAll rest).toList).text := by
  have hcons := Statement.listingAll_text s hnil []
  rw [List.append_nil, List.append_nil] at hcons
  exact hcons

/-- A statement that may be followed stands in front of the listing of others. -/
theorem allows_listingAll {rest : List Statement} (hfollowable : s.isFollowable = true) (hnil : rest ≠ [])
    (hrest : Statement.LegibleAll rest) : s.Allows (.colon (Statement.listingAll rest).toList) := by
  obtain ⟨token, more, hscan, hopens⟩ := Statement.exists_lead_all hnil hrest breaks_nil
  rw [List.append_nil] at hscan
  refine ⟨hfollowable, Statement.not_else_of_opensStatement ?_⟩
  rw [hscan]
  exact hopens

/-- The end of the line, with a budget that is more than what its last statement is read from. -/
theorem statements_last (h : s.Legible)
    (hbudget : (lexFragment (s.listing.toList ++ Following.nothing.text) false).length < budget + 1) :
    (statements budget >>= fun others => pure (s.separated :: others)) Following.nothing.tokens =
      .ok ([s.separated], []) := by
  obtain ⟨token, more, hscan, -⟩ := Statement.exists_lead h Following.nothing.breaks_text
  obtain ⟨less, rfl⟩ : ∃ less, budget = less + 1 := by
    rw [hscan, List.length_cons] at hbudget
    exact ⟨budget - 1, by omega⟩
  rfl

/-- The budget for a line is enough for the statements behind its first one. -/
theorem length_lexFragment_before (h : s.Legible) (hgood : s.isFaithful = true)
    (hfollowable : s.isFollowable = true) (text : List Char) :
    (lexFragment text false).length + 1 <
      (lexFragment (s.listing.toList ++ (Following.colon text).text) false).length := by
  have hprecedes : s.last.Precedes (Following.colon text).text :=
    Command.precedes_of_closes (Statement.last_ne_remark_of_isFollowable hfollowable) (.inr ⟨_, rfl⟩)
  have hpos := List.length_pos_iff.mpr s.tokens_ne_nil
  rw [Statement.lexFragment_listing h hgood hprecedes, Following.lexFragment_text, Following.tokens,
    List.length_append, List.length_cons]
  omega

/-- **The statements of a line come back from their listing exactly where each of them does.** -/
theorem statements_listingAll (h : Statement.LegibleAll list) (hline : '\n' ∉ (Statement.listingAll list).toList)
    (hbudget : (lexFragment (Statement.listingAll list).toList false).length < budget) :
    if Statement.areFaithful list then
      statements budget (lexFragment (Statement.listingAll list).toList false) =
        .ok (Statement.separatedAll list, [])
    else
      ∀ after, statements budget (lexFragment (Statement.listingAll list).toList false) ≠
        .ok (Statement.separatedAll list, after) := by
  obtain ⟨fuel, rfl⟩ : ∃ fuel, budget = fuel + 1 := ⟨budget - 1, by omega⟩
  induction list generalizing fuel with
  | nil =>
      rw [Statement.areFaithful, if_pos rfl]
      change statements (fuel + 1) (lexFragment [] false) = _
      rw [lexFragment_nil]
      rfl
  | cons s rest ih =>
      rw [Statement.LegibleAll] at h
      obtain ⟨hs, hfollowable, hrest⟩ := h
      rw [Statement.areFaithful, Statement.separatedAll]
      by_cases hnil : rest = []
      · subst hnil
        rw [listingAll_last] at hline hbudget ⊢
        have hfirst := statements_first fuel [] hs (f := .nothing) trivial rfl hline
        rw [statements_last hs hbudget] at hfirst
        rw [Statement.areFaithful, Bool.and_true, Statement.separatedAll]
        exact hfirst
      · rw [listingAll_before s hnil] at hline hbudget ⊢
        have hfirst := statements_first fuel (Statement.separatedAll rest) hs
          (allows_listingAll (hfollowable hnil) hnil hrest) rfl hline
        cases hgood : s.isFaithful with
        | false =>
            rw [hgood, if_neg Bool.false_ne_true] at hfirst
            exact hfirst
        | true =>
            have hless := length_lexFragment_before hs hgood (hfollowable hnil) (Statement.listingAll rest).toList
            obtain ⟨less, rfl⟩ : ∃ less, fuel = less + 2 := ⟨fuel - 2, by omega⟩
            have hotherLine : '\n' ∉ (Statement.listingAll rest).toList := fun hmem =>
              hline (by simpa [Following.text] using .inr hmem)
            have hothers := ih hrest hotherLine less (by omega)
            rw [← statements_colon] at hothers
            rw [hgood, if_pos rfl] at hfirst
            rw [Bool.true_and, hfirst]
            exact Statement.comesBack_cons s.separated hothers

end Line

end Reader

end LineBasic
