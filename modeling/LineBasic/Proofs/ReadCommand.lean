import LineBasic.Proofs.ListedCommand

/-! Reading of the tokens that a command is listed as. Every command comes back, with the semicolons
that PRINT was listed with, where its expressions do; the exception is a program loaded to be run from
a path that starts with a number, which is listed as the run from a line. -/

namespace LineBasic

open Token

namespace Expr

/-- Whether the listing of an expression starts with a number. -/
def leadsWithNumber : Expr → Bool
  | int _ | single _ | double _ => true
  | binary op left _ => !(left.level < op.level : Bool) && left.leadsWithNumber
  | _ => false

end Expr

/-- The kinds of tokens that an expression starts with. -/
def Token.Kind.opensExpr : Kind → Bool
  | .minus | .plus | .leftParen | .text | .ident => true
  | .keyword word =>
      match word with
      | .NOT | .ERL | .ERR | .CSRLIN | .TRUE | .FALSE => true
      | _ => false
  | kind => kind.isNumber

namespace Expr

theorem opens_number {text : List Char} {token : Token} {value : Expr} (h : Stands text token value) :
    token.kind.opensExpr = true := by
  have hkind := h.kind
  obtain ⟨kind, literal⟩ := token
  cases kind <;> first | rfl | cases hkind

/-- The first token of an expression. -/
theorem exists_lead : ∀ {e : Expr}, e.Legible → ∃ token rest, e.tokens = token :: rest ∧
    token.kind.opensExpr = true ∧ token.kind.isNumber = e.leadsWithNumber
  | int value, _ => ⟨_, [], by rw [tokens], opens_number (stands_int value), (stands_int value).kind⟩
  | single value, h => by
      rw [Legible] at h
      exact ⟨_, [], by rw [tokens], opens_number (stands_single h), (stands_single h).kind⟩
  | double value, h => by
      rw [Legible] at h
      exact ⟨_, [], by rw [tokens], opens_number (stands_double h), (stands_double h).kind⟩
  | text _, _ => ⟨_, [], by rw [tokens], rfl, rfl⟩
  | truth true, _ => ⟨_, [], by rw [tokens], rfl, rfl⟩
  | truth false, _ => ⟨_, [], by rw [tokens], rfl, rfl⟩
  | scalar _, _ => ⟨_, [], by rw [tokens], rfl, rfl⟩
  | element _ _, _ => ⟨_, _, by rw [tokens], rfl, rfl⟩
  | call _ _, _ => ⟨_, _, by rw [tokens], rfl, rfl⟩
  | unary .negate _, _ => ⟨_, _, by rw [tokens], rfl, rfl⟩
  | unary .positive _, _ => ⟨_, _, by rw [tokens], rfl, rfl⟩
  | unary .not _, _ => ⟨_, _, by rw [tokens], rfl, rfl⟩
  | faultLine, _ => ⟨_, [], by rw [tokens], rfl, rfl⟩
  | faultCode, _ => ⟨_, [], by rw [tokens], rfl, rfl⟩
  | cursorRow, _ => ⟨_, [], by rw [tokens], rfl, rfl⟩
  | binary op left right, h => by
      rw [Legible] at h
      obtain ⟨token, rest, htokens, hopens, hnumber⟩ := exists_lead h.1
      rw [tokens, htokens, leadsWithNumber, ← hnumber]
      by_cases hneeded : left.level < op.level
      · rw [decide_eq_true hneeded]
        exact ⟨_, _, rfl, rfl, rfl⟩
      · rw [decide_eq_false hneeded]
        exact ⟨token, _, rfl, hopens, rfl⟩

end Expr

namespace Command

/-- The expressions and variables of a command, in the order they are written. -/
def exprs : Command → List Expr
  | chain path _ _ => [path]
  | clear arguments | color arguments | locate arguments | palette arguments | screen arguments =>
      arguments.filterMap id
  | define _ _ body => [body]
  | dim targets | read targets => targets.map Variable.toExpr
  | error expr | load expr _ | merge expr | whileLoop expr => [expr]
  | files pattern => pattern.toList
  | forLoop _ start limit step => start :: limit :: step.toList
  | key number text => [number, text]
  | assign target value => [target.toExpr, value]
  | onGoto selector _ | onGosub selector _ => [selector]
  | print items =>
      items.filterMap fun
        | .expr value => some value
        | _ => none
  | _ => []

/-- Whether a command is listed as the run of a program from a line. -/
def runsFromNumber : Command → Bool
  | load path true => path.leadsWithNumber
  | _ => false

/-- Whether a command reads back from its listing. -/
def isFaithful (c : Command) : Bool := c.exprs.all Expr.isFaithful && !c.runsFromNumber

/-- The command with the semicolons that its listing has. -/
def separated : Command → Command
  | print items => print (separateItems false items)
  | c => c

end Command

namespace Reader

section Steps

variable {α β : Type} {reader : Reader α} {next : α → Reader β} {tokens rest : List Token} {value : α}
  {good : Bool} {fault : Fault}

theorem bind_if (h : reader tokens = if good then .ok (value, rest) else .error fault) :
    (reader >>= next) tokens = if good then next value rest else .error fault := by
  cases good with
  | false => exact bind_error h
  | true => exact bind_ok h

theorem kindAt_append {e : Expr} (h : e.Legible) (rest : List Token) :
    (kindAt (e.tokens ++ rest)).opensExpr = true ∧
      (kindAt (e.tokens ++ rest)).isNumber = e.leadsWithNumber := by
  obtain ⟨token, more, htokens, hopens, hnumber⟩ := Expr.exists_lead h
  rw [htokens]
  exact ⟨hopens, hnumber⟩

/-- What starts an expression is none of the other tokens. -/
theorem ne_of_opensExpr {kind other : Kind} (h : kind.opensExpr = true) (hother : other.opensExpr = false) :
    kind ≠ other := by
  rintro rfl
  rw [h] at hother
  cases hother

theorem not_ended_of_opensExpr (h : (kindAt tokens).opensExpr = true) : ¬Ended tokens := by
  rintro (hend | helse)
  · cases hkind : kindAt tokens <;> rw [hkind] at h hend <;> cases hend <;> cases h
  · rw [helse] at h
    cases h

theorem lineRef_token {line : Nat} (h : line ≤ Line.maxNumber) (tokens : List Token) :
    lineRef (lineToken line :: tokens) = .ok (line, tokens) := by
  have hkind : (lineToken line).kind.isNumber = true := ofNumber_digits_isNumber line
  have hnumber : Literal.lineNumber (lineToken line).literal = .ok line := lineNumber_digits h
  rw [run_lineRef hkind, hnumber]

theorem lineRef?_token {line : Nat} (h : line ≤ Line.maxNumber) (tokens : List Token) :
    lineRef? (lineToken line :: tokens) = .ok (some line, tokens) :=
  lineRef?_pos (ofNumber_digits_isNumber line) (lineRef_token h tokens)

theorem lineRef?_tokens {line : Option Nat} (h : ∀ number ∈ line, number ≤ Line.maxNumber)
    (hrest : (kindAt rest).isNumber = false) :
    lineRef? (line.toList.map lineToken ++ rest) = .ok (line, rest) := by
  cases line with
  | none => exact lineRef?_neg hrest
  | some number => exact lineRef?_token (h number rfl) rest

theorem Ended.not_number (h : Ended tokens) : (kindAt tokens).isNumber = false := by
  rcases h with h | h
  · cases hkind : kindAt tokens <;> rw [hkind] at h <;> first | rfl | cases h
  · rw [h]
    rfl

theorem name_token {name : Name} (h : name.Legible) (tokens : List Token) :
    Reader.name (name.token :: tokens) = .ok (name, tokens) := by
  rw [run_name rfl]
  change Except.ok (Name.ofWord name.spelling, tokens) = _
  rw [Name.ofWord_spelling h]

end Steps

section Lists

variable {α : Type} {item : Reader α} {spelled : α → List Token} {good : α → Bool}
  {Follows : List Token → Prop} {rest : List Token}

theorem length_commaTokens (list : List α) (spelled : α → List Token) :
    list.length ≤ (commaTokens (list.map spelled)).length + 1 := by
  induction list with
  | nil => exact Nat.zero_le _
  | cons a more ih =>
      cases more with
      | nil => simp
      | cons b others =>
          simp only [List.map_cons, commaTokens, List.length_append, List.length_cons] at ih ⊢
          omega

/-- A list of items that can each be read before a comma and before what follows the list. -/
theorem commaList_tokens (hcomma : ∀ tokens, Follows (ofSymbol ',' :: tokens)) (hrest : Follows rest)
    (hend : kindAt rest ≠ .comma) {list : List α} (hne : list ≠ [])
    (h : ∀ a ∈ list, ∀ rest, Follows rest →
      item (spelled a ++ rest) = if good a then .ok (a, rest) else .error misread)
    {budget : Nat} (hbudget : list.length ≤ budget) :
    commaList item budget (commaTokens (list.map spelled) ++ rest) =
      if list.all good then .ok (list, rest) else .error misread := by
  induction list generalizing budget with
  | nil => exact absurd rfl hne
  | cons a more ih =>
      rw [List.length_cons] at hbudget
      obtain ⟨fuel, rfl⟩ : ∃ fuel, budget = fuel + 1 := ⟨budget - 1, by omega⟩
      have hfirst := h a List.mem_cons_self
      rw [commaList, List.all_cons]
      cases more with
      | nil =>
          change (item >>= _) (spelled a ++ rest) = _
          rw [bind_if (hfirst rest hrest), bind_ok (accept_neg hend), List.all_nil, Bool.and_true]
          rfl
      | cons b others =>
          have htokens : commaTokens ((a :: b :: others).map spelled) ++ rest =
              spelled a ++ ofSymbol ',' :: (commaTokens ((b :: others).map spelled) ++ rest) := by
            simp [commaTokens]
          have hothers := ih (by simp) (fun c hc => h c (List.mem_cons_of_mem a hc)) (Nat.le_of_succ_le_succ hbudget)
          rw [htokens, bind_if (hfirst _ (hcomma _)), bind_ok (accept_pos (by rfl) (by rfl)), if_pos rfl,
            bind_if hothers]
          cases good a <;> rfl

theorem inLine_commaTokens {parts : List (List Token)} (h : ∀ part ∈ parts, InLine part) :
    InLine (commaTokens parts) := by
  induction parts with
  | nil => exact nofun
  | cons part more ih =>
      rw [List.forall_mem_cons] at h
      cases more with
      | nil => exact h.1
      | cons next others =>
          exact List.forall_mem_append.mpr ⟨h.1, List.forall_mem_cons.mpr ⟨rfl, ih h.2⟩⟩

theorem listOf_tokens (item : Reader α) (spelled : α → List Token) (good : α → Bool)
    (Follows : List Token → Prop) (hcomma : ∀ tokens, Follows (ofSymbol ',' :: tokens)) (hrest : Follows rest)
    (hend : kindAt rest ≠ .comma) {list : List α} (hne : list ≠ []) (hline : ∀ a ∈ list, InLine (spelled a))
    (h : ∀ a ∈ list, ∀ rest, Follows rest →
      item (spelled a ++ rest) = if good a then .ok (a, rest) else .error misread) :
    listOf item (commaTokens (list.map spelled) ++ rest) =
      if list.all good then .ok (list, rest) else .error misread := by
  have hlength := length_commaTokens list spelled
  have hleft := leftInLine_append (inLine_commaTokens (List.forall_mem_map.mpr hline)) rest
  rw [listOf, run_sized]
  exact commaList_tokens hcomma hrest hend hne h (by omega)

theorem listOf_names {names : List Name} (hne : names ≠ []) (h : ∀ name ∈ names, name.Legible)
    (hend : kindAt rest ≠ .comma) :
    listOf name (commaTokens (names.map fun name => [name.token]) ++ rest) = .ok (names, rest) := by
  have hread := listOf_tokens name (fun name => [name.token]) (fun _ => true) (fun _ => True)
    (fun _ => trivial) trivial hend hne (fun name hname => (Name.spells_token (h name hname)).inLine_tokens)
    fun name hname rest _ => name_token (h name hname) rest
  simpa using hread

theorem listOf_lines {lines : List Nat} (hne : lines ≠ []) (h : ∀ line ∈ lines, line ≤ Line.maxNumber)
    (hend : kindAt rest ≠ .comma) :
    listOf lineRef (commaTokens (lines.map fun line => [lineToken line]) ++ rest) = .ok (lines, rest) := by
  have hread := listOf_tokens lineRef (fun line => [lineToken line]) (fun _ => true) (fun _ => True)
    (fun _ => trivial) trivial hend hne (fun line _ => (spells_line line).inLine_tokens)
    fun line hline rest _ => lineRef_token (h line hline) rest
  simpa using hread

theorem listOf_targets {targets : List Variable} (hne : targets ≠ [])
    (h : ∀ target ∈ targets, target.Legible) (hrest : Ended rest) :
    listOf target (commaTokens (targets.map Variable.tokens) ++ rest) =
      if (targets.map Variable.toExpr).all Expr.isFaithful then .ok (targets, rest)
      else .error misread := by
  rw [List.all_map]
  exact listOf_tokens target Variable.tokens _ (fun rest => kindAt rest ≠ .leftParen)
    (fun _ => by simp [ofSymbol, Piece.symbolKind])
    (hrest.ne rfl (by simp)) (hrest.ne rfl (by simp)) hne
    (fun target htarget => (Variable.spells_tokens (h target htarget)).inLine_tokens)
    fun target htarget rest hparen => Variable.target_tokens (h target htarget) hparen

/-- Positional arguments that are not all left out have a token, and it does not end the statement. -/
theorem not_ended_positions {arguments : List (Option Expr)} (h : PositionsLegible arguments)
    (hne : arguments ≠ []) (rest : List Token) : ¬Ended (positionTokens arguments ++ rest) := by
  have hcomma : ∀ tokens, ¬Ended (ofSymbol ',' :: tokens) := by
    rintro tokens (hend | helse)
    · cases hend
    · cases helse
  cases arguments with
  | nil => exact absurd rfl hne
  | cons first more =>
      cases first with
      | some e =>
          have hlegible := h.all e List.mem_cons_self
          cases more with
          | nil => exact not_ended_of_opensExpr (kindAt_append hlegible rest).1
          | cons second others =>
              change ¬Ended (e.tokens ++ ofSymbol ',' :: positionTokens (second :: others) ++ rest)
              rw [List.append_assoc]
              exact not_ended_of_opensExpr (kindAt_append hlegible _).1
      | none =>
          cases more with
          | nil =>
              rcases h.last with hnil | ⟨before, e, hlast⟩
              · cases hnil
              · have hsome := congrArg List.getLast? hlast
                rw [List.getLast?_append_of_ne_nil _ (by simp)] at hsome
                cases hsome
          | cons second others => exact hcomma _

theorem positionsFrom_tokens {arguments : List (Option Expr)} (h : PositionsLegible arguments)
    (hne : arguments ≠ []) (hrest : Ended rest) {budget : Nat} (hbudget : arguments.length ≤ budget) :
    positionsFrom budget (positionTokens arguments ++ rest) =
      if (arguments.filterMap id).all Expr.isFaithful then .ok (arguments, rest)
      else .error misread := by
  induction arguments generalizing budget with
  | nil => exact absurd rfl hne
  | cons first more ih =>
      rw [List.length_cons] at hbudget
      obtain ⟨fuel, rfl⟩ : ∃ fuel, budget = fuel + 1 := ⟨budget - 1, by omega⟩
      have hothers := fun hmore => ih h.tail hmore (Nat.le_of_succ_le_succ hbudget)
      rw [positionsFrom, bind_ok (run_peekKind _)]
      cases first with
      | none =>
          cases more with
          | nil => exact absurd (.inr rfl) (not_ended_positions h hne [ofKeyword .ELSE])
          | cons second others =>
              have htokens : positionTokens (none :: second :: others) ++ rest =
                  ofSymbol ',' :: (positionTokens (second :: others) ++ rest) := rfl
              rw [htokens, if_pos (by rfl), bind_ok (run_pure _ _)]
              dsimp only
              rw [bind_ok (accept_pos (by rfl) (by rfl)), if_pos rfl,
                bind_ok (atEnd_neg (not_ended_positions h.tail (by simp) rest)),
                if_neg Bool.false_ne_true, bind_if (hothers (by simp))]
              rfl
      | some e =>
          have hlegible := h.all e List.mem_cons_self
          have hread : ∀ after, Stops after → (some <$> expr) (e.tokens ++ after) =
              if e.isFaithful then .ok (some e, after) else .error misread := by
            intro after hafter
            rw [run_map, expr_tokens hlegible hafter]
            cases e.isFaithful <;> rfl
          have hkind : ∀ after, kindAt (e.tokens ++ after) ≠ .comma := fun after =>
            ne_of_opensExpr (kindAt_append hlegible after).1 rfl
          cases more with
          | nil =>
              have htokens : positionTokens [some e] ++ rest = e.tokens ++ rest := rfl
              rw [htokens, if_neg (hkind rest), bind_if (hread rest hrest.stops)]
              dsimp only
              rw [bind_ok (accept_neg (hrest.ne rfl (by simp))), if_neg Bool.false_ne_true]
              change _ = if e.isFaithful && true then _ else _
              rw [Bool.and_true]
              rfl
          | cons second others =>
              have htokens : positionTokens (some e :: second :: others) ++ rest =
                  e.tokens ++ ofSymbol ',' :: (positionTokens (second :: others) ++ rest) := by
                simp [positionTokens, commaTokens]
              rw [htokens, if_neg (hkind _), bind_if (hread _ (stops_cons rfl (by decide)))]
              dsimp only
              rw [bind_ok (accept_pos (by rfl) (by rfl)), if_pos rfl,
                bind_ok (atEnd_neg (not_ended_positions h.tail (by simp) rest)),
                if_neg Bool.false_ne_true, bind_if (hothers (by simp))]
              change _ = if e.isFaithful && ((second :: others).filterMap id).all Expr.isFaithful then _
                else _
              cases e.isFaithful <;> rfl

/-- Positional arguments up to the end of the statement. -/
theorem positions_tokens {arguments : List (Option Expr)} (h : PositionsLegible arguments)
    (hrest : Ended rest) :
    positions (positionTokens arguments ++ rest) =
      if (arguments.filterMap id).all Expr.isFaithful then .ok (arguments, rest)
      else .error misread := by
  by_cases hne : arguments = []
  · subst hne
    change positions rest = .ok ([], rest)
    rw [positions, bind_ok (atEnd_pos hrest)]
    rfl
  · rw [positions, bind_ok (atEnd_neg (not_ended_positions h hne rest)), if_neg Bool.false_ne_true]
    have hlength : arguments.length ≤ (positionTokens arguments).length + 1 :=
      length_commaTokens arguments _
    have hleft := leftInLine_append (spells_positions h).inLine_tokens rest
    rw [run_sized]
    exact positionsFrom_tokens h hne hrest (by omega)

end Lists

section Print

variable {budget : Nat} {more rest : List Token}

theorem printItems_expr {e : Expr} (h : e.Legible) (hmore : Stops more) :
    printItems (budget + 1) (e.tokens ++ more) =
      if e.isFaithful then (printItems budget >>= fun items => pure (.expr e :: items)) more
      else .error misread := by
  have hopens := (kindAt_append h more).1
  have hread : (PrintItem.expr <$> expr) (e.tokens ++ more) =
      if e.isFaithful then .ok (.expr e, more) else .error misread := by
    rw [run_map, expr_tokens h hmore]
    cases e.isFaithful <;> rfl
  rw [printItems, bind_ok (atEnd_neg (not_ended_of_opensExpr hopens)), if_neg Bool.false_ne_true,
    bind_ok (run_peekKind _)]
  refine Eq.trans ?_ (bind_if hread : (PrintItem.expr <$> expr >>= fun item =>
    printItems budget >>= fun items => pure (item :: items)) (e.tokens ++ more) = _)
  -- The first token is none of those that PRINT has a use of its own for.
  generalize kindAt (e.tokens ++ more) = kind at hopens
  cases kind with
  | comma => cases hopens
  | semicolon => cases hopens
  | keyword word => cases word <;> first | rfl | cases hopens
  | _ => rfl

theorem printItems_symbol {c : Char} {item : PrintItem}
    (h : c = ',' ∧ item = .comma ∨ c = ';' ∧ item = .semicolon) :
    printItems (budget + 1) (ofSymbol c :: more) =
      (printItems budget >>= fun items => pure (item :: items)) more := by
  have hend : ¬Ended (ofSymbol c :: more) := by
    rcases h with ⟨rfl, -⟩ | ⟨rfl, -⟩ <;> rintro (hend | helse) <;> contradiction
  rw [printItems, bind_ok (atEnd_neg hend), if_neg Bool.false_ne_true, bind_ok (run_peekKind _)]
  rcases h with ⟨rfl, rfl⟩ | ⟨rfl, rfl⟩ <;> rfl

theorem length_separateItems (afterExpr : Bool) (items : List PrintItem) :
    (separateItems afterExpr items).length ≤ (printTokens afterExpr items).length := by
  induction items generalizing afterExpr with
  | nil => exact Nat.le_refl 0
  | cons item rest ih =>
      cases item with
      | comma => exact Nat.succ_le_succ (ih false)
      | semicolon => exact Nat.succ_le_succ (ih false)
      | expr value =>
          have hrest := ih true
          have hpos := value.length_tokens_pos
          cases afterExpr with
          | false =>
              simp only [separateItems, printTokens, Bool.false_eq_true, if_false, List.length_cons,
                List.length_append]
              omega
          | true =>
              simp only [separateItems, printTokens, if_true, List.length_cons, List.length_append]
              omega

theorem stops_printTokens (hrest : Ended rest) (items : List PrintItem) :
    Stops (printTokens true items ++ rest) := by
  rcases items with _ | ⟨item, more⟩
  · exact hrest.stops
  · cases item with
    | comma => exact stops_cons rfl (by decide)
    | semicolon => exact stops_cons rfl (by decide)
    | expr value => exact stops_cons rfl (by decide)

/-- The items of PRINT come back with their semicolons. -/
theorem printItems_tokens {items : List PrintItem} (h : ∀ value, .expr value ∈ items → value.Legible)
    (hrest : Ended rest) (afterExpr : Bool)
    (hbudget : (separateItems afterExpr items).length < budget) :
    printItems budget (printTokens afterExpr items ++ rest) =
      if (Command.print items).exprs.all Expr.isFaithful then .ok (separateItems afterExpr items, rest)
      else .error misread := by
  induction items generalizing afterExpr budget with
  | nil =>
      obtain ⟨fuel, rfl⟩ : ∃ fuel, budget = fuel + 1 := ⟨budget - 1, by omega⟩
      rw [printItems]
      change (atEnd >>= _) rest = _
      rw [bind_ok (atEnd_pos hrest)]
      rfl
  | cons item more ih =>
      obtain ⟨fuel, rfl⟩ : ∃ fuel, budget = fuel + 1 := ⟨budget - 1, by omega⟩
      have hlegible : ∀ value, .expr value ∈ more → value.Legible :=
        fun value hvalue => h value (List.mem_cons_of_mem item hvalue)
      cases item with
      | comma =>
          rw [printTokens, List.cons_append, printItems_symbol (.inl ⟨rfl, rfl⟩),
            bind_if (ih hlegible false (Nat.lt_of_succ_lt_succ hbudget))]
          rfl
      | semicolon =>
          rw [printTokens, List.cons_append, printItems_symbol (.inr ⟨rfl, rfl⟩),
            bind_if (ih hlegible false (Nat.lt_of_succ_lt_succ hbudget))]
          rfl
      | expr value =>
          have hvalue := h value List.mem_cons_self
          have hexprs : (Command.print (.expr value :: more)).exprs.all Expr.isFaithful =
              (value.isFaithful && (Command.print more).exprs.all Expr.isFaithful) := rfl
          have hstops := stops_printTokens hrest more
          rw [hexprs]
          cases afterExpr with
          | false =>
              rw [printTokens, if_neg Bool.false_ne_true, List.append_assoc,
                printItems_expr hvalue hstops, bind_if (ih hlegible true (Nat.lt_of_succ_lt_succ hbudget))]
              cases value.isFaithful <;> rfl
          | true =>
              simp only [separateItems, if_true, List.length_cons] at hbudget
              obtain ⟨spare, rfl⟩ : ∃ spare, fuel = spare + 1 := ⟨fuel - 1, by omega⟩
              rw [printTokens, if_pos rfl, List.cons_append, List.cons_append, List.append_assoc,
                printItems_symbol (.inr ⟨rfl, rfl⟩), run_bind, printItems_expr hvalue hstops,
                bind_if (ih hlegible true (by omega))]
              cases value.isFaithful with
              | false => rfl
              | true =>
                  cases (Command.print more).exprs.all Expr.isFaithful <;> rfl

end Print

section Commands

variable {budget : Nat} {rest : List Token}

/-- Whether a command comes back from its tokens wherever a statement may end. -/
def CommandRead (c : Command) : Prop :=
  ∀ (budget : Nat) (rest : List Token), Ended rest →
    statementWithin (budget + 1) (c.tokens ++ rest) =
      if c.exprs.all Expr.isFaithful then .ok (.command c.separated, rest) else .error misread

theorem statementWithin_keyword {keyword : Keyword} (h : keyword ≠ .IF) (tokens : List Token) :
    statementWithin (budget + 1) (ofKeyword keyword :: tokens) =
      (command (ofKeyword keyword) >>= fun c => pure (.command c)) tokens := by
  have hident : kindAt (ofKeyword keyword :: tokens) ≠ .ident := by simp [ofKeyword]
  have hif : (ofKeyword keyword).kind ≠ .keyword .IF := by simpa [ofKeyword] using h
  rw [statementWithin, bind_ok (run_peekKind _), if_neg hident, bind_ok (run_next (by rfl) _), if_neg hif]

/-- A command that starts with its reserved word. -/
theorem commandRead_of_keyword {c : Command} (keyword : Keyword) {tokens : List Token}
    (hkeyword : keyword ≠ .IF) (htokens : c.tokens = ofKeyword keyword :: tokens)
    (h : ∀ {rest : List Token}, Ended rest → command (ofKeyword keyword) (tokens ++ rest) =
      if c.exprs.all Expr.isFaithful then .ok (c.separated, rest) else .error misread) :
    CommandRead c := by
  intro budget rest hrest
  rw [htokens, List.cons_append, statementWithin_keyword hkeyword, bind_if (h hrest)]
  rfl

theorem commandRead_word {c : Command} (keyword : Keyword) (hkeyword : keyword ≠ .IF)
    (htokens : c.tokens = [ofKeyword keyword]) (hexprs : c.exprs = []) (hsame : c.separated = c)
    (h : command (ofKeyword keyword) = pure c) : CommandRead c := by
  refine commandRead_of_keyword keyword hkeyword htokens fun _ => ?_
  rw [h, hexprs, hsame]
  rfl

theorem commandRead_expr {c : Command} (keyword : Keyword) {e : Expr} {build : Expr → Command}
    (hkeyword : keyword ≠ .IF) (htokens : c.tokens = ofKeyword keyword :: e.tokens)
    (hexprs : c.exprs = [e]) (hsame : c.separated = build e)
    (hcommand : command (ofKeyword keyword) = expr >>= fun e => pure (build e)) (h : e.Legible) :
    CommandRead c := by
  refine commandRead_of_keyword keyword hkeyword htokens fun hrest => ?_
  rw [hcommand, bind_if (expr_tokens h hrest.stops), hexprs, hsame, List.all_cons, List.all_nil,
    Bool.and_true]
  rfl

theorem commandRead_positions {c : Command} (keyword : Keyword) {arguments : List (Option Expr)}
    {build : List (Option Expr) → Command} (hkeyword : keyword ≠ .IF)
    (htokens : c.tokens = ofKeyword keyword :: positionTokens arguments)
    (hexprs : c.exprs = arguments.filterMap id) (hsame : c.separated = build arguments)
    (hcommand : command (ofKeyword keyword) = positions >>= fun list => pure (build list))
    (h : PositionsLegible arguments) : CommandRead c := by
  refine commandRead_of_keyword keyword hkeyword htokens fun hrest => ?_
  rw [hcommand, bind_if (positions_tokens h hrest), hexprs, hsame]
  rfl

theorem commandRead_line {c : Command} (keyword : Keyword) {line : Nat} {build : Nat → Command}
    (hkeyword : keyword ≠ .IF) (htokens : c.tokens = [ofKeyword keyword, lineToken line])
    (hexprs : c.exprs = []) (hsame : c.separated = build line)
    (hcommand : command (ofKeyword keyword) = lineRef >>= fun line => pure (build line))
    (h : line ≤ Line.maxNumber) : CommandRead c := by
  refine commandRead_of_keyword keyword hkeyword htokens fun {rest} _ => ?_
  rw [hcommand, List.singleton_append, bind_ok (lineRef_token h rest), hexprs, hsame]
  rfl

theorem commandRead_line? {c : Command} (keyword : Keyword) {line : Option Nat}
    {build : Option Nat → Command} (hkeyword : keyword ≠ .IF)
    (htokens : c.tokens = ofKeyword keyword :: line.toList.map lineToken)
    (hexprs : c.exprs = []) (hsame : c.separated = build line)
    (hcommand : command (ofKeyword keyword) = lineRef? >>= fun line => pure (build line))
    (h : ∀ number ∈ line, number ≤ Line.maxNumber) : CommandRead c := by
  refine commandRead_of_keyword keyword hkeyword htokens fun {rest} hrest => ?_
  rw [hcommand, bind_ok (lineRef?_tokens h hrest.not_number), hexprs, hsame]
  rfl

theorem commandRead_targets {c : Command} (keyword : Keyword) {targets : List Variable}
    {build : List Variable → Command} (hkeyword : keyword ≠ .IF)
    (htokens : c.tokens = ofKeyword keyword :: commaTokens (targets.map Variable.tokens))
    (hexprs : c.exprs = targets.map Variable.toExpr) (hsame : c.separated = build targets)
    (hcommand : command (ofKeyword keyword) = listOf target >>= fun list => pure (build list))
    (hne : targets ≠ []) (h : ∀ target ∈ targets, target.Legible) : CommandRead c := by
  refine commandRead_of_keyword keyword hkeyword htokens fun hrest => ?_
  rw [hcommand, bind_if (listOf_targets hne h hrest), hexprs, hsame]
  rfl

theorem commandRead_auto {start step : Option Nat} (h : (Command.auto start step).Legible) :
    CommandRead (.auto start step) := by
  refine commandRead_of_keyword .AUTO (by decide) rfl fun {rest} hrest => ?_
  obtain ⟨hstart, hstep⟩ := h
  rw [List.append_assoc]
  change (lineRef? >>= _) _ = _
  cases step with
  | none =>
      change (lineRef? >>= _) (start.toList.map lineToken ++ rest) = _
      rw [bind_ok (lineRef?_tokens hstart hrest.not_number), bind_ok (accept_neg (hrest.ne rfl (by simp)))]
      rfl
  | some line =>
      change (lineRef? >>= _) (start.toList.map lineToken ++ ofSymbol ',' :: lineToken line :: rest) = _
      rw [bind_ok (lineRef?_tokens hstart rfl), bind_ok (accept_pos (by rfl) (by rfl)), if_pos rfl,
        bind_ok (lineRef_token (hstep line rfl) rest)]
      rfl

theorem commandRead_chain {path : Expr} {line : Option Nat} {all : Bool}
    (h : (Command.chain path line all).Legible) : CommandRead (.chain path line all) := by
  refine commandRead_of_keyword .CHAIN (by decide) rfl fun {rest} hrest => ?_
  obtain ⟨hpath, hline⟩ := h
  have hexprs : (Command.chain path line all).exprs.all Expr.isFaithful = path.isFaithful :=
    Bool.and_true _
  have hall : ∀ tokens, expect (.keyword .ALL) (ofKeyword .ALL :: tokens) = .ok ((), tokens) :=
    fun tokens => expect_pos rfl rfl
  rw [List.append_assoc, List.append_assoc, hexprs]
  change (expr >>= _) _ = _
  cases all with
  | false =>
      cases line with
      | none =>
          change (expr >>= _) (path.tokens ++ rest) = _
          rw [bind_if (expr_tokens hpath hrest.stops), bind_ok (accept_neg (hrest.ne rfl (by simp)))]
          rfl
      | some number =>
          change (expr >>= _) (path.tokens ++ ofSymbol ',' :: lineToken number :: rest) = _
          rw [bind_if (expr_tokens hpath (stops_cons rfl (by decide))), bind_ok (accept_pos (by rfl) (by rfl)),
            if_pos rfl, bind_ok (lineRef?_token (hline number rfl) rest),
            bind_ok (accept_neg (hrest.ne rfl (by simp)))]
          rfl
  | true =>
      cases line with
      | none =>
          change (expr >>= _) (path.tokens ++ ofSymbol ',' :: ofSymbol ',' :: ofKeyword .ALL :: rest) = _
          rw [bind_if (expr_tokens hpath (stops_cons rfl (by decide))), bind_ok (accept_pos (by rfl) (by rfl)),
            if_pos rfl, bind_ok (lineRef?_neg rfl), bind_ok (accept_pos (by rfl) (by rfl)), if_pos rfl,
            bind_ok (hall rest)]
          rfl
      | some number =>
          change (expr >>= _) (path.tokens ++ ofSymbol ',' :: lineToken number :: ofSymbol ',' ::
            ofKeyword .ALL :: rest) = _
          rw [bind_if (expr_tokens hpath (stops_cons rfl (by decide))), bind_ok (accept_pos (by rfl) (by rfl)),
            if_pos rfl, bind_ok (lineRef?_token (hline number rfl) _), bind_ok (accept_pos (by rfl) (by rfl)),
            if_pos rfl, bind_ok (hall rest)]
          rfl

theorem datum_tokens {item : Datum} {rest : List Token}
    (hrest : kindAt rest = .comma ∨ Ended rest) : datum (item.tokens ++ rest) = .ok (item, rest) := by
  cases item with
  | quoted text => rfl
  | raw text =>
      rw [Datum.tokens]
      split
      · rename_i hempty
        rw [String.isEmpty_iff] at hempty
        subst hempty
        rw [List.nil_append, datum, bind_ok (run_peekKind _)]
        -- Neither a comma nor the end of a statement is an item.
        rcases hrest with hcomma | hend | helse
        · rw [hcomma]
          rfl
        · cases hkind : kindAt rest <;> rw [hkind] at hend <;> first | rfl | cases hend
        · rw [helse]
          rfl
      · rfl

theorem inLine_datum (item : Datum) : InLine item.tokens := by
  cases item with
  | quoted text => exact List.forall_mem_singleton.mpr rfl
  | raw text =>
      rw [Datum.tokens]
      split
      · exact List.forall_mem_nil _
      · exact List.forall_mem_singleton.mpr rfl

theorem commandRead_data {items : List Datum} (hne : items ≠ []) : CommandRead (.data items) := by
  refine commandRead_of_keyword .DATA (by decide) rfl fun {rest} hrest => ?_
  have hread := listOf_tokens datum Datum.tokens (fun _ => true)
    (fun rest => kindAt rest = .comma ∨ Ended rest) (fun _ => .inl rfl) (.inr hrest)
    (hrest.ne rfl (by simp)) hne (fun item _ => inLine_datum item) fun _ _ _ hfollows => datum_tokens hfollows
  change (listOf datum >>= _) _ = _
  rw [bind_if hread]
  simp only [List.all_eq_true, implies_true, if_true]
  rfl

theorem commandRead_define {name : Name} {parameters : List Name} {body : Expr}
    (h : (Command.define name parameters body).Legible) :
    CommandRead (.define name parameters body) := by
  refine commandRead_of_keyword .DEF (by decide) rfl fun {rest} hrest => ?_
  obtain ⟨⟨hname, hfunction, hfn⟩, hparameters, hbody⟩ := h
  have hexprs : (Command.define name parameters body).exprs.all Expr.isFaithful = body.isFaithful :=
    Bool.and_true _
  have hread : ∀ tokens, functionName (name.token :: tokens) = .ok (name, tokens) := by
    intro tokens
    rw [functionName, bind_ok (name_token hname tokens), if_neg hfn, bind_ok (run_pure _ _)]
    dsimp only
    rw [if_pos hfunction]
    rfl
  have hvalue : (expect .eq >>= fun _ => expr >>= fun body => pure (Command.define name parameters body))
      (BinaryOp.equal.token :: (body.tokens ++ rest)) =
      if body.isFaithful then .ok (.define name parameters body, rest) else .error misread := by
    rw [bind_ok (expect_pos (by rfl) (by rfl)), bind_if (expr_tokens hbody hrest.stops)]
    rfl
  rw [hexprs, List.cons_append, List.append_assoc, List.cons_append]
  change (functionName >>= _) _ = _
  rw [bind_ok (hread _)]
  by_cases hnil : parameters = []
  · subst hnil
    change (accept .leftParen >>= _) (BinaryOp.equal.token :: (body.tokens ++ rest)) = _
    rw [bind_ok (accept_neg (kindAt_ne (by decide) _)), if_neg Bool.false_ne_true]
    exact hvalue
  · rw [List.isEmpty_eq_false_iff.mpr hnil, if_neg Bool.false_ne_true, List.cons_append,
      List.append_assoc, List.singleton_append, bind_ok (accept_pos (by rfl) (by rfl)), if_pos rfl,
      bind_ok (listOf_names hnil hparameters (kindAt_ne (by decide) _)), bind_ok (expect_pos (by rfl) (by rfl))]
    exact hvalue

theorem commandRead_files {pattern : Option Expr} (h : ∀ e ∈ pattern, e.Legible) :
    CommandRead (.files pattern) := by
  refine commandRead_of_keyword .FILES (by decide) rfl fun {rest} hrest => ?_
  change (atEnd >>= _) _ = _
  cases pattern with
  | none =>
      change (atEnd >>= _) rest = _
      rw [bind_ok (atEnd_pos hrest)]
      rfl
  | some e =>
      have hlegible := h e rfl
      have hexprs : (Command.files (some e)).exprs.all Expr.isFaithful = e.isFaithful := Bool.and_true _
      rw [hexprs, Option.toList_some, List.flatMap_singleton,
        bind_ok (atEnd_neg (not_ended_of_opensExpr (kindAt_append hlegible rest).1)),
        if_neg Bool.false_ne_true, bind_if (expr_tokens hlegible hrest.stops)]
      rfl

theorem commandRead_forLoop {counter : Name} {start limit : Expr} {step : Option Expr}
    (h : (Command.forLoop counter start limit step).Legible) :
    CommandRead (.forLoop counter start limit step) := by
  refine commandRead_of_keyword .FOR (by decide) rfl fun {rest} hrest => ?_
  obtain ⟨hcounter, hstart, hlimit, hstep⟩ := h
  rw [List.cons_append, List.cons_append, List.append_assoc, List.cons_append, List.append_assoc]
  change (name >>= _) _ = _
  rw [bind_ok (name_token hcounter _), bind_ok (expect_pos (by rfl) (by rfl)),
    bind_if (expr_tokens hstart (stops_cons rfl (by decide))), bind_ok (expect_pos (by rfl) (by rfl))]
  cases step with
  | none =>
      have hexprs : (Command.forLoop counter start limit none).exprs.all Expr.isFaithful =
          (start.isFaithful && limit.isFaithful) := by simp [Command.exprs]
      rw [List.nil_append, bind_if (expr_tokens hlimit hrest.stops),
        bind_ok (accept_neg (hrest.ne rfl (by simp))), hexprs]
      cases start.isFaithful <;> rfl
  | some e =>
      have hexprs : (Command.forLoop counter start limit (some e)).exprs.all Expr.isFaithful =
          (start.isFaithful && (limit.isFaithful && e.isFaithful)) := by simp [Command.exprs]
      rw [List.cons_append, bind_if (expr_tokens hlimit (stops_cons rfl (by decide))),
        bind_ok (accept_pos (by rfl) (by rfl)), if_pos rfl, bind_if (expr_tokens (hstep e rfl) hrest.stops), hexprs]
      cases start.isFaithful <;> cases limit.isFaithful <;> rfl

theorem commandRead_key {number text : Expr} (h : (Command.key number text).Legible) :
    CommandRead (.key number text) := by
  refine commandRead_of_keyword .KEY (by decide) rfl fun {rest} hrest => ?_
  have hexprs : (Command.key number text).exprs.all Expr.isFaithful =
      (number.isFaithful && text.isFaithful) := by simp [Command.exprs]
  rw [List.append_assoc, List.cons_append, hexprs]
  change (expr >>= _) _ = _
  rw [bind_if (expr_tokens h.1 (stops_cons rfl (by decide))), bind_ok (expect_pos (by rfl) (by rfl)),
    bind_if (expr_tokens h.2 hrest.stops)]
  cases number.isFaithful <;> rfl

theorem commandRead_assign {assignee : Variable} {value : Expr}
    (h : (Command.assign assignee value).Legible) : CommandRead (.assign assignee value) := by
  intro budget rest hrest
  have hexprs : (Command.assign assignee value).exprs.all Expr.isFaithful =
      (assignee.toExpr.isFaithful && value.isFaithful) := by simp [Command.exprs]
  have hident : ∀ tokens, kindAt (assignee.tokens ++ tokens) = .ident := by
    intro tokens
    cases assignee with
    | scalar name => rw [Variable.tokens, Variable.toExpr, Expr.tokens]; rfl
    | element name subscripts => rw [Variable.tokens, Variable.toExpr, Expr.tokens]; rfl
  have hread : assignment (assignee.tokens ++ BinaryOp.equal.token :: (value.tokens ++ rest)) =
      if assignee.toExpr.isFaithful then
        if value.isFaithful then .ok (.assign assignee value, rest) else .error misread
      else .error misread := by
    rw [assignment, bind_if (Variable.target_tokens h.1 (kindAt_ne (by decide) _)),
      bind_ok (expect_pos (by rfl) (by rfl)), bind_if (expr_tokens h.2 hrest.stops)]
    rfl
  rw [Command.tokens, List.append_assoc, List.cons_append, statementWithin, bind_ok (run_peekKind _),
    if_pos (hident _), run_bind, hread, hexprs]
  cases assignee.toExpr.isFaithful <;> cases value.isFaithful <;> rfl

theorem commandRead_list {first last : Option Nat} (h : (Command.list first last).Legible) :
    CommandRead (.list first last) := by
  refine commandRead_of_keyword .LIST (by decide) rfl fun {rest} hrest => ?_
  obtain ⟨hfirst, hlast⟩ := h
  have hhyphen : kindAt rest ≠ .minus := hrest.ne rfl (by simp)
  change (lineRef? >>= _) _ = _
  cases first with
  | none =>
      cases last with
      | none =>
          change (lineRef? >>= _) rest = _
          rw [bind_ok (lineRef?_neg hrest.not_number), bind_ok (accept_neg hhyphen)]
          rfl
      | some b =>
          change (lineRef? >>= _) (ofSymbol '-' :: lineToken b :: rest) = _
          rw [bind_ok (lineRef?_neg rfl), bind_ok (accept_pos (by rfl) (by rfl)), if_pos rfl,
            bind_ok (lineRef?_token (hlast b rfl) rest)]
          rfl
  | some a =>
      cases last with
      | none =>
          change (lineRef? >>= _) (lineToken a :: ofSymbol '-' :: rest) = _
          rw [bind_ok (lineRef?_token (hfirst a rfl) _), bind_ok (accept_pos (by rfl) (by rfl)), if_pos rfl,
            bind_ok (lineRef?_neg hrest.not_number)]
          rfl
      | some b =>
          dsimp only
          split
          · rename_i heq
            subst heq
            rw [List.singleton_append, bind_ok (lineRef?_token (hfirst a rfl) rest),
              bind_ok (accept_neg hhyphen)]
            rfl
          · change (lineRef? >>= _) (lineToken a :: ofSymbol '-' :: lineToken b :: rest) = _
            rw [bind_ok (lineRef?_token (hfirst a rfl) _), bind_ok (accept_pos (by rfl) (by rfl)), if_pos rfl,
              bind_ok (lineRef?_token (hlast b rfl) rest)]
            rfl

theorem commandRead_load {path : Expr} (h : path.Legible) : CommandRead (.load path false) := by
  refine commandRead_of_keyword .LOAD (by decide) rfl fun {rest} hrest => ?_
  have hexprs : (Command.load path false).exprs.all Expr.isFaithful = path.isFaithful := Bool.and_true _
  rw [hexprs]
  change (expr >>= _) _ = _
  rw [bind_if (expr_tokens h hrest.stops), bind_ok (accept_neg (hrest.ne rfl (by simp)))]
  rfl

/-- A path that starts with no number is loaded and run. -/
theorem commandRead_loadRun {path : Expr} (h : path.Legible) (hlead : path.leadsWithNumber = false) :
    CommandRead (.load path true) := by
  refine commandRead_of_keyword .RUN (by decide) rfl fun {rest} hrest => ?_
  have hexprs : (Command.load path true).exprs.all Expr.isFaithful = path.isFaithful := Bool.and_true _
  obtain ⟨hopens, hnumber⟩ := kindAt_append h rest
  rw [hexprs]
  change (atEnd >>= _) _ = _
  rw [bind_ok (atEnd_neg (not_ended_of_opensExpr hopens)), if_neg Bool.false_ne_true,
    bind_ok (run_peekKind _), hnumber, hlead, if_neg Bool.false_ne_true,
    bind_if (expr_tokens h hrest.stops), bind_ok (accept_neg (hrest.ne rfl (by simp)))]
  rfl

theorem commandRead_next {counters : List Name} (h : ∀ name ∈ counters, name.Legible) :
    CommandRead (.next counters) := by
  refine commandRead_of_keyword .NEXT (by decide) rfl fun {rest} hrest => ?_
  change (atEnd >>= _) _ = _
  by_cases hnil : counters = []
  · subst hnil
    change (atEnd >>= _) rest = _
    rw [bind_ok (atEnd_pos hrest)]
    rfl
  · have hend : ¬Ended (commaTokens (counters.map fun name => [name.token]) ++ rest) := by
      obtain ⟨first, more, rfl⟩ := List.exists_cons_of_ne_nil hnil
      cases more <;> rintro (hend | helse) <;> contradiction
    rw [bind_ok (atEnd_neg hend), if_neg Bool.false_ne_true,
      bind_ok (listOf_names hnil h (hrest.ne rfl (by simp)))]
    rfl

theorem commandRead_onError {line : Nat} (h : line ≤ Line.maxNumber) : CommandRead (.onError line) := by
  refine commandRead_of_keyword .ON (by decide) rfl fun {rest} hrest => ?_
  change (accept (.keyword .ERROR) >>= _)
    (ofKeyword .ERROR :: ofKeyword .GOTO :: lineToken line :: rest) = _
  rw [bind_ok (accept_pos (by rfl) (by rfl)), if_pos rfl, bind_ok (expect_pos (by rfl) (by rfl)),
    bind_ok (lineRef_token h rest)]
  rfl

/-- A jump that a number selects. -/
theorem commandRead_jump {c : Command} {keyword : Keyword} {selector : Expr} {lines : List Nat}
    (hc : keyword = .GOTO ∧ c = .onGoto selector lines ∨ keyword = .GOSUB ∧ c = .onGosub selector lines)
    (hselector : selector.Legible) (hne : lines ≠ []) (hlines : ∀ line ∈ lines, line ≤ Line.maxNumber) :
    CommandRead c := by
  have htokens : c.tokens = ofKeyword .ON :: (selector.tokens ++
      ofKeyword keyword :: commaTokens (lines.map fun line => [lineToken line])) := by
    rcases hc with ⟨rfl, rfl⟩ | ⟨rfl, rfl⟩ <;> rfl
  refine commandRead_of_keyword .ON (by decide) htokens fun {rest} hrest => ?_
  have hexprs : c.exprs.all Expr.isFaithful = selector.isFaithful := by
    rcases hc with ⟨-, rfl⟩ | ⟨-, rfl⟩ <;> exact Bool.and_true _
  have herror : kindAt (selector.tokens ++ ofKeyword keyword ::
      (commaTokens (lines.map fun line => [lineToken line]) ++ rest)) ≠ .keyword .ERROR :=
    ne_of_opensExpr (kindAt_append hselector _).1 rfl
  have hstops : Stops (ofKeyword keyword ::
      (commaTokens (lines.map fun line => [lineToken line]) ++ rest)) := by
    rcases hc with ⟨rfl, -⟩ | ⟨rfl, -⟩ <;> exact stops_cons rfl (by decide)
  have hcomma : kindAt rest ≠ .comma := hrest.ne rfl (by simp)
  have hread := listOf_lines hne hlines hcomma
  rw [List.append_assoc, List.cons_append, hexprs]
  change (accept (.keyword .ERROR) >>= _) _ = _
  rw [bind_ok (accept_neg herror), if_neg Bool.false_ne_true, bind_if (expr_tokens hselector hstops),
    bind_ok (run_next (by rfl) _)]
  rcases hc with ⟨rfl, rfl⟩ | ⟨rfl, rfl⟩
  · change (if selector.isFaithful = true then (listOf lineRef >>= fun lines =>
      pure (Command.onGoto selector lines)) _ else _) = _
    rw [bind_ok hread]
    rfl
  · change (if selector.isFaithful = true then (listOf lineRef >>= fun lines =>
      pure (Command.onGosub selector lines)) _ else _) = _
    rw [bind_ok hread]
    rfl

theorem commandRead_print {items : List PrintItem} (h : ∀ value, .expr value ∈ items → value.Legible) :
    CommandRead (.print items) := by
  refine commandRead_of_keyword .PRINT (by decide) rfl fun {rest} hrest => ?_
  have hlength := length_separateItems false items
  have hleft := leftInLine_append (spells_printItems h false).inLine_tokens rest
  change (tokensLeft >>= fun count => printItems (count + 1) >>= fun items => pure (Command.print items)) _ = _
  rw [run_sized]
  exact bind_if (printItems_tokens h hrest false (by omega))

theorem commandRead_remark (text : String) : CommandRead (.remark text) :=
  commandRead_of_keyword .REM (by decide) rfl fun _ => rfl

theorem commandRead_resume {target : ResumeAt} (h : (Command.resume target).Legible) :
    CommandRead (.resume target) := by
  cases target with
  | retry =>
      refine commandRead_of_keyword .RESUME (by decide) rfl fun {rest} hrest => ?_
      change (accept (.keyword .NEXT) >>= _) rest = _
      rw [bind_ok (accept_neg (hrest.ne rfl (by simp))), if_neg Bool.false_ne_true,
        bind_ok (lineRef?_neg hrest.not_number)]
      rfl
  | next => exact commandRead_of_keyword .RESUME (by decide) rfl fun _ => rfl
  | line number =>
      obtain ⟨hnumber, hzero⟩ := h number rfl
      obtain ⟨n, rfl⟩ := Nat.exists_eq_succ_of_ne_zero hzero
      refine commandRead_of_keyword .RESUME (by decide) rfl fun {rest} hrest => ?_
      have hnext : kindAt (lineToken n.succ :: rest) ≠ .keyword .NEXT := by
        intro hkind
        have hnumeric := ofNumber_digits_isNumber n.succ
        rw [kindAt_cons] at hkind
        rw [lineToken] at hkind
        rw [hkind] at hnumeric
        cases hnumeric
      change (accept (.keyword .NEXT) >>= _) (lineToken n.succ :: rest) = _
      rw [bind_ok (accept_neg hnext), if_neg Bool.false_ne_true, bind_ok (lineRef?_token hnumber rest)]
      rfl

theorem commandRead_run {line : Option Nat} (h : ∀ number ∈ line, number ≤ Line.maxNumber) :
    CommandRead (.run line) := by
  refine commandRead_of_keyword .RUN (by decide) rfl fun {rest} hrest => ?_
  change (atEnd >>= _) _ = _
  cases line with
  | none =>
      change (atEnd >>= _) rest = _
      rw [bind_ok (atEnd_pos hrest)]
      rfl
  | some number =>
      have hnumeric : (lineToken number).kind.isNumber = true := ofNumber_digits_isNumber number
      have hend : ¬Ended (lineToken number :: rest) := by
        intro hend
        have hnot := hend.not_number
        rw [kindAt_cons, hnumeric] at hnot
        cases hnot
      change (atEnd >>= _) (lineToken number :: rest) = _
      rw [bind_ok (atEnd_neg hend), if_neg Bool.false_ne_true, bind_ok (run_peekKind _), kindAt_cons,
        hnumeric, if_pos rfl, bind_ok (lineRef_token (h number rfl) rest)]
      rfl

/-- **Reading recovers every command from its tokens**, or refuses it for a call without arguments. -/
theorem commandRead {c : Command} (h : c.Legible) (hruns : c.runsFromNumber = false) : CommandRead c := by
  cases c with
  | auto start step => exact commandRead_auto h
  | beep => exact commandRead_word .BEEP (by decide) rfl rfl rfl rfl
  | chain path line all => exact commandRead_chain h
  | clear arguments => exact commandRead_positions .CLEAR (by decide) rfl rfl rfl rfl h
  | clearScreen => exact commandRead_word .CLS (by decide) rfl rfl rfl rfl
  | color arguments => exact commandRead_positions .COLOR (by decide) rfl rfl rfl rfl h
  | common names =>
      refine commandRead_of_keyword .COMMON (by decide) rfl fun {rest} hrest => ?_
      change (listOf name >>= _) _ = _
      rw [bind_ok (listOf_names h.1 h.2 (hrest.ne rfl (by simp)))]
      rfl
  | cont => exact commandRead_word .CONT (by decide) rfl rfl rfl rfl
  | data items => exact commandRead_data h.1
  | define name parameters body => exact commandRead_define h
  | dim targets => exact commandRead_targets .DIM (by decide) rfl rfl rfl rfl h.1 h.2
  | finish => exact commandRead_word .END (by decide) rfl rfl rfl rfl
  | error code => exact commandRead_expr .ERROR (by decide) rfl rfl rfl rfl h
  | files pattern => exact commandRead_files h
  | forLoop counter start limit step => exact commandRead_forLoop h
  | gosub line => exact commandRead_line .GOSUB (by decide) rfl rfl rfl rfl h
  | goto line => exact commandRead_line .GOTO (by decide) rfl rfl rfl rfl h
  | key number text => exact commandRead_key h
  | assign target value => exact commandRead_assign h
  | list first last => exact commandRead_list h
  | load path andRun =>
      cases andRun with
      | false => exact commandRead_load h
      | true => exact commandRead_loadRun h hruns
  | locate arguments => exact commandRead_positions .LOCATE (by decide) rfl rfl rfl rfl h
  | merge path => exact commandRead_expr .MERGE (by decide) rfl rfl rfl rfl h
  | new => exact commandRead_word .NEW (by decide) rfl rfl rfl rfl
  | next counters => exact commandRead_next h
  | onError line => exact commandRead_onError h
  | onGoto selector lines => exact commandRead_jump (.inl ⟨rfl, rfl⟩) h.1 h.2.1 h.2.2
  | onGosub selector lines => exact commandRead_jump (.inr ⟨rfl, rfl⟩) h.1 h.2.1 h.2.2
  | palette arguments => exact commandRead_positions .PALETTE (by decide) rfl rfl rfl rfl h
  | print items => exact commandRead_print h
  | read targets => exact commandRead_targets .READ (by decide) rfl rfl rfl rfl h.1 h.2
  | remark text => exact commandRead_remark text
  | restore line => exact commandRead_line? .RESTORE (by decide) rfl rfl rfl rfl h
  | resume target => exact commandRead_resume h
  | returnTo line => exact commandRead_line? .RETURN (by decide) rfl rfl rfl rfl h
  | run line => exact commandRead_run h
  | screen arguments => exact commandRead_positions .SCREEN (by decide) rfl rfl rfl rfl h
  | stop => exact commandRead_word .STOP (by decide) rfl rfl rfl rfl
  | traceOff => exact commandRead_word .TROFF (by decide) rfl rfl rfl rfl
  | traceOn => exact commandRead_word .TRON (by decide) rfl rfl rfl rfl
  | wend => exact commandRead_word .WEND (by decide) rfl rfl rfl rfl
  | whileLoop condition => exact commandRead_expr .WHILE (by decide) rfl rfl rfl rfl h

end Commands

end Reader

end LineBasic
