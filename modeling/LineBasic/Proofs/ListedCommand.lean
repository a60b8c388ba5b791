import LineBasic.Proofs.ReadExpr

/-! The tokens that a command is listed as. A command's listing spells its tokens, whatever stands
after a break; only the items of DATA and the text of a remark, which are verbatim, ask for more of
what follows. -/

namespace LineBasic

open Token

/-- The token of a line number. -/
def lineToken (line : Nat) : Token := ofNumber (Nat.toDigits 10 line)

/-- Tokens with a comma between each two parts. -/
def commaTokens : List (List Token) → List Token
  | [] => []
  | [part] => part
  | part :: rest => part ++ ofSymbol ',' :: commaTokens rest

/-- What an item of DATA read from a text is like: one with quotes has none inside, one without is
trimmed and has no separator inside. -/
def Datum.Legible : Datum → Prop
  | quoted text => Quotable text
  | raw text =>
      (∀ c ∈ text.toList, c ≠ ',' ∧ c ≠ ':' ∧ c ≠ '\n') ∧ Text.trimEnd text.toList = text.toList ∧
        ∀ c ∈ text.toList.head?, Starts c ∧ c ≠ '"'

/-- The tokens of an item of DATA; an empty one has none. -/
def Datum.tokens : Datum → List Token
  | quoted text => [⟨.text, text⟩]
  | raw text => if text.isEmpty then [] else [⟨.raw, text⟩]

/-- What positional arguments read from a text are like: the last position is not empty. -/
structure PositionsLegible (arguments : List (Option Expr)) : Prop where
  all : ∀ e, some e ∈ arguments → e.Legible
  last : arguments = [] ∨ ∃ before e, arguments = before ++ [some e]

theorem PositionsLegible.tail {first : Option Expr} {more : List (Option Expr)}
    (h : PositionsLegible (first :: more)) : PositionsLegible more := by
  refine ⟨fun e he => h.all e (List.mem_cons_of_mem first he), ?_⟩
  rcases h.last with hnil | ⟨before, e, hlast⟩
  · cases hnil
  · cases before with
    | nil =>
        obtain ⟨-, rfl⟩ := List.cons.inj hlast
        exact .inl rfl
    | cons a others =>
        obtain ⟨-, rfl⟩ := List.cons.inj hlast
        exact .inr ⟨others, e, rfl⟩

/-- The tokens of positional arguments. -/
def positionTokens (arguments : List (Option Expr)) : List Token :=
  commaTokens (arguments.map fun
    | some e => e.tokens
    | none => [])

/-- The tokens of the items of PRINT, with the semicolons that keep expressions apart. -/
def printTokens (afterExpr : Bool) : List PrintItem → List Token
  | [] => []
  | .expr value :: rest =>
      (if afterExpr then ofSymbol ';' :: value.tokens else value.tokens) ++ printTokens true rest
  | .comma :: rest => ofSymbol ',' :: printTokens false rest
  | .semicolon :: rest => ofSymbol ';' :: printTokens false rest

/-- The items of PRINT with a semicolon between each two adjacent expressions. -/
def separateItems (afterExpr : Bool) : List PrintItem → List PrintItem
  | [] => []
  | .expr value :: rest =>
      if afterExpr then .semicolon :: .expr value :: separateItems true rest
      else .expr value :: separateItems true rest
  | .comma :: rest => .comma :: separateItems false rest
  | .semicolon :: rest => .semicolon :: separateItems false rest

namespace Command

/-- The tokens of a command's listing. -/
def tokens : Command → List Token
  | auto start step =>
      ofKeyword .AUTO :: (start.toList.map lineToken ++
        match step with
        | some line => [ofSymbol ',', lineToken line]
        | none => [])
  | beep => [ofKeyword .BEEP]
  | chain path line all =>
      ofKeyword .CHAIN :: (path.tokens ++
        (match line, all with
          | some line, _ => [ofSymbol ',', lineToken line]
          | none, true => [ofSymbol ',']
          | none, false => []) ++
        if all then [ofSymbol ',', ofKeyword .ALL] else [])
  | clear arguments => ofKeyword .CLEAR :: positionTokens arguments
  | clearScreen => [ofKeyword .CLS]
  | color arguments => ofKeyword .COLOR :: positionTokens arguments
  | common names => ofKeyword .COMMON :: commaTokens (names.map fun name => [name.token])
  | cont => [ofKeyword .CONT]
  | data items => ofKeyword .DATA :: commaTokens (items.map Datum.tokens)
  | define name parameters body =>
      ofKeyword .DEF :: name.token ::
        ((if parameters.isEmpty then []
          else ofSymbol '(' :: (commaTokens (parameters.map fun name => [name.token]) ++ [ofSymbol ')'])) ++
          BinaryOp.equal.token :: body.tokens)
  | dim targets => ofKeyword .DIM :: commaTokens (targets.map Variable.tokens)
  | finish => [ofKeyword .END]
  | error code => ofKeyword .ERROR :: code.tokens
  | files pattern => ofKeyword .FILES :: pattern.toList.flatMap Expr.tokens
  | forLoop counter start limit step =>
      ofKeyword .FOR :: counter.token :: BinaryOp.equal.token :: (start.tokens ++
        ofKeyword .TO :: (limit.tokens ++
          match step with
          | some e => ofKeyword .STEP :: e.tokens
          | none => []))
  | gosub line => [ofKeyword .GOSUB, lineToken line]
  | goto line => [ofKeyword .GOTO, lineToken line]
  | key number text => ofKeyword .KEY :: (number.tokens ++ ofSymbol ',' :: text.tokens)
  | assign target value => target.tokens ++ BinaryOp.equal.token :: value.tokens
  | list first last =>
      ofKeyword .LIST ::
        match first, last with
        | none, none => []
        | some a, some b =>
            if a = b then [lineToken a] else [lineToken a, ofSymbol '-', lineToken b]
        | some a, none => [lineToken a, ofSymbol '-']
        | none, some b => [ofSymbol '-', lineToken b]
  | load path andRun => ofKeyword (if andRun then .RUN else .LOAD) :: path.tokens
  | locate arguments => ofKeyword .LOCATE :: positionTokens arguments
  | merge path => ofKeyword .MERGE :: path.tokens
  | new => [ofKeyword .NEW]
  | next counters => ofKeyword .NEXT :: commaTokens (counters.map fun name => [name.token])
  | onError line => [ofKeyword .ON, ofKeyword .ERROR, ofKeyword .GOTO, lineToken line]
  | onGoto selector lines =>
      ofKeyword .ON :: (selector.tokens ++
        ofKeyword .GOTO :: commaTokens (lines.map fun line => [lineToken line]))
  | onGosub selector lines =>
      ofKeyword .ON :: (selector.tokens ++
        ofKeyword .GOSUB :: commaTokens (lines.map fun line => [lineToken line]))
  | palette arguments => ofKeyword .PALETTE :: positionTokens arguments
  | print items => ofKeyword .PRINT :: printTokens false items
  | read targets => ofKeyword .READ :: commaTokens (targets.map Variable.tokens)
  | remark text => [ofKeyword .REM, ⟨.raw, text⟩]
  | restore line => ofKeyword .RESTORE :: line.toList.map lineToken
  | resume .retry => [ofKeyword .RESUME]
  | resume .next => [ofKeyword .RESUME, ofKeyword .NEXT]
  | resume (.line number) => [ofKeyword .RESUME, lineToken number]
  | returnTo line => ofKeyword .RETURN :: line.toList.map lineToken
  | run line => ofKeyword .RUN :: line.toList.map lineToken
  | screen arguments => ofKeyword .SCREEN :: positionTokens arguments
  | stop => [ofKeyword .STOP]
  | traceOff => [ofKeyword .TROFF]
  | traceOn => [ofKeyword .TRON]
  | wend => [ofKeyword .WEND]
  | whileLoop condition => ofKeyword .WHILE :: condition.tokens

/-- What a command read from a text is like. -/
def Legible : Command → Prop
  | auto start step => (∀ line ∈ start, line ≤ Line.maxNumber) ∧ ∀ line ∈ step, line ≤ Line.maxNumber
  | chain path line _ => path.Legible ∧ ∀ number ∈ line, number ≤ Line.maxNumber
  | clear arguments | color arguments | locate arguments | palette arguments | screen arguments =>
      PositionsLegible arguments
  | common names => names ≠ [] ∧ ∀ name ∈ names, name.Legible
  | data items => items ≠ [] ∧ ∀ item ∈ items, item.Legible
  | define name parameters body =>
      (name.Legible ∧ name.isFunction = true ∧ name ≠ ⟨"FN"⟩) ∧ (∀ name ∈ parameters, name.Legible) ∧
        body.Legible
  | dim targets | read targets => targets ≠ [] ∧ ∀ target ∈ targets, target.Legible
  | error expr | load expr _ | merge expr | whileLoop expr => expr.Legible
  | files pattern => ∀ e ∈ pattern, e.Legible
  | forLoop counter start limit step =>
      counter.Legible ∧ start.Legible ∧ limit.Legible ∧ ∀ e ∈ step, e.Legible
  | gosub line | goto line | onError line => line ≤ Line.maxNumber
  | key number text => number.Legible ∧ text.Legible
  | assign target value => target.Legible ∧ value.Legible
  | list first last => (∀ line ∈ first, line ≤ Line.maxNumber) ∧ ∀ line ∈ last, line ≤ Line.maxNumber
  | next counters => ∀ name ∈ counters, name.Legible
  | onGoto selector lines | onGosub selector lines =>
      selector.Legible ∧ lines ≠ [] ∧ ∀ line ∈ lines, line ≤ Line.maxNumber
  | print items => ∀ value, .expr value ∈ items → value.Legible
  | remark text => '\n' ∉ text.toList ∧ Text.trimEnd text.toList = text.toList
  | restore line | returnTo line | run line => ∀ number ∈ line, number ≤ Line.maxNumber
  | resume target => ∀ line, target = .line line → line ≤ Line.maxNumber ∧ line ≠ 0
  | _ => True

end Command

section Spells

variable {text : String} {tokens : List Token}

theorem spells_line (line : Nat) : Spells (toString line).toList [lineToken line] := by
  rw [toList_toString]
  exact spells_digits line

/-- A reserved word and a blank before a text. -/
theorem spells_after (lead : String) (keyword : Keyword) (hmode : Piece.modeAfter keyword = .statement)
    (hlead : lead.toList = keyword.spelling.toList ++ [' ']) (h : Spells text.toList tokens) :
    Spells (lead ++ text).toList (ofKeyword keyword :: tokens) := by
  rw [String.toList_append, hlead, List.append_assoc]
  exact (spells_keyword keyword hmode).append_space h

/-- A reserved word between blanks after a text. -/
theorem spells_between (lead : String) {more : String} {others : List Token} (keyword : Keyword)
    (hmode : Piece.modeAfter keyword = .statement)
    (hlead : lead.toList = ' ' :: (keyword.spelling.toList ++ [' '])) (h : Spells text.toList tokens)
    (hmore : Spells more.toList others) :
    Spells (text ++ lead ++ more).toList (tokens ++ ofKeyword keyword :: others) := by
  have htext : (text ++ lead ++ more).toList =
      text.toList ++ ' ' :: (keyword.spelling.toList ++ ' ' :: more.toList) := by
    rw [String.toList_append, String.toList_append, hlead]
    simp
  rw [htext]
  exact h.append_space ((spells_keyword keyword hmode).append_space hmore)

theorem spells_withArguments (keyword : Keyword) (hmode : Piece.modeAfter keyword = .statement)
    (h : Spells text.toList tokens) :
    Spells (Command.withArguments keyword.spelling text).toList (ofKeyword keyword :: tokens) := by
  unfold Command.withArguments
  split
  · rename_i hempty
    rw [String.isEmpty_iff] at hempty
    rw [hempty] at h
    have hnil : tokens = [] := h.eq_of_nil.symm.trans (lexFragment_nil false)
    rw [hnil]
    exact spells_keyword keyword hmode
  · have htext : (keyword.spelling ++ " " ++ text).toList =
        keyword.spelling.toList ++ ' ' :: text.toList := by simp
    rw [htext]
    exact (spells_keyword keyword hmode).append_space h

theorem spells_comma {more : String} {others : List Token} (h : Spells text.toList tokens)
    (hmore : Spells more.toList others) :
    Spells (text ++ ", " ++ more).toList (tokens ++ ofSymbol ',' :: others) := by
  have htext : (text ++ ", " ++ more).toList = text.toList ++ ',' :: ' ' :: more.toList := by simp
  rw [htext]
  exact h.append (hmore.space.lone rfl) (breaks_cons (by decide))

/-- Parts that are separated by commas. -/
theorem spells_joinWith {α : Type} {listing : α → String} {spelled : α → List Token} {list : List α}
    (h : ∀ a ∈ list, Spells (listing a).toList (spelled a)) :
    Spells (joinWith ", " (list.map listing)).toList (commaTokens (list.map spelled)) := by
  induction list with
  | nil => exact Spells.nil
  | cons a rest ih =>
      have hrest := ih fun b hb => h b (List.mem_cons_of_mem a hb)
      cases rest with
      | nil => exact h a List.mem_cons_self
      | cons b more => exact spells_comma (h a List.mem_cons_self) hrest

theorem spells_names {names : List Name} (h : ∀ name ∈ names, name.Legible) :
    Spells (Command.names names).toList (commaTokens (names.map fun name => [name.token])) :=
  spells_joinWith fun name hname => Name.spells_token (h name hname)

theorem spells_numbers (lines : List Nat) :
    Spells (Command.numbers lines).toList (commaTokens (lines.map fun line => [lineToken line])) :=
  spells_joinWith fun line _ => spells_line line

theorem spells_targets {targets : List Variable} (h : ∀ target ∈ targets, target.Legible) :
    Spells (Command.targetList targets).toList (commaTokens (targets.map Variable.tokens)) :=
  spells_joinWith fun target htarget => Variable.spells_tokens (h target htarget)

theorem spells_positions {arguments : List (Option Expr)} (h : PositionsLegible arguments) :
    Spells (Command.positions arguments).toList (positionTokens arguments) := by
  refine spells_joinWith fun argument hargument => ?_
  cases argument with
  | none => exact Spells.nil
  | some e => exact Expr.spells_tokens (h.all e hargument)

theorem spells_withLine (keyword : Keyword) (hmode : Piece.modeAfter keyword = .statement)
    (line : Option Nat) :
    Spells (Command.withLine keyword.spelling line).toList
      (ofKeyword keyword :: line.toList.map lineToken) := by
  cases line with
  | none => exact spells_keyword keyword hmode
  | some line =>
      have htext : (keyword.spelling ++ " " ++ toString line).toList =
          keyword.spelling.toList ++ ' ' :: (toString line).toList := by simp
      rw [Command.withLine, htext]
      exact (spells_keyword keyword hmode).append_space (spells_line line)

theorem breaks_printItems (afterExpr : Bool) (items : List PrintItem) :
    Breaks (Command.printItems afterExpr items).toList := by
  rcases items with _ | ⟨item, rest⟩
  · exact breaks_nil
  · cases item with
    | comma =>
        rw [Command.printItems, String.toList_append]
        exact breaks_cons (by decide)
    | semicolon =>
        rw [Command.printItems, String.toList_append]
        exact breaks_cons (by decide)
    | expr value =>
        rw [Command.printItems, String.toList_append, String.toList_append]
        cases afterExpr <;> exact breaks_cons (by decide)

theorem spells_printItems {items : List PrintItem} (h : ∀ value, .expr value ∈ items → value.Legible)
    (afterExpr : Bool) :
    Spells (Command.printItems afterExpr items).toList (printTokens afterExpr items) := by
  induction items generalizing afterExpr with
  | nil => exact Spells.nil
  | cons item rest ih =>
      have hrest := fun after => ih (fun value hvalue => h value (List.mem_cons_of_mem item hvalue)) after
      cases item with
      | comma =>
          have htext : ("," ++ Command.printItems false rest).toList =
              ',' :: (Command.printItems false rest).toList := by simp
          rw [Command.printItems, printTokens, htext]
          exact (hrest false).lone rfl
      | semicolon =>
          have htext : (";" ++ Command.printItems false rest).toList =
              ';' :: (Command.printItems false rest).toList := by simp
          rw [Command.printItems, printTokens, htext]
          exact (hrest false).lone rfl
      | expr value =>
          have hvalue := (Expr.spells_tokens (h value List.mem_cons_self)).append (hrest true)
            (breaks_printItems true rest)
          cases afterExpr with
          | false =>
              have htext : (" " ++ value.listing ++ Command.printItems true rest).toList =
                  ' ' :: (value.listing.toList ++ (Command.printItems true rest).toList) := by simp
              rw [Command.printItems, printTokens, if_neg Bool.false_ne_true, if_neg Bool.false_ne_true,
                htext]
              exact hvalue.space
          | true =>
              have htext : ("; " ++ value.listing ++ Command.printItems true rest).toList =
                  ';' :: ' ' :: (value.listing.toList ++ (Command.printItems true rest).toList) := by simp
              rw [Command.printItems, printTokens, if_pos rfl, if_pos rfl, htext, List.cons_append]
              exact hvalue.space.lone rfl

end Spells

namespace Command

/-- Whether a command takes what follows it verbatim. -/
def isVerbatim : Command → Bool
  | data _ | remark _ => true
  | _ => false

theorem spells_auto (start step : Option Nat) :
    Spells (auto start step).listing.toList (auto start step).tokens := by
  unfold listing tokens
  dsimp only
  refine spells_withArguments .AUTO rfl ?_
  cases start with
  | none =>
      cases step with
      | none => exact Spells.nil
      | some line =>
          have htext : ("" ++ (", " ++ toString line)).toList = ',' :: ' ' :: (toString line).toList := by
            simp
          rw [htext]
          exact (spells_line line).space.lone rfl
  | some first =>
      cases step with
      | none =>
          dsimp only
          rw [String.append_empty]
          exact spells_line first
      | some line =>
          have hcomma := spells_comma (spells_line first) (spells_line line)
          dsimp only
          rw [← String.append_assoc]
          exact hcomma

theorem spells_chain {path : Expr} (h : path.Legible) (line : Option Nat) (all : Bool) :
    Spells (chain path line all).listing.toList (chain path line all).tokens := by
  have hpath := Expr.spells_tokens h
  have hline : Spells (match line, all with
        | some line, _ => ", " ++ toString line
        | none, true => ","
        | none, false => "").toList
      (match line, all with
        | some line, _ => [ofSymbol ',', lineToken line]
        | none, true => [ofSymbol ',']
        | none, false => []) ∧
      Breaks (match line, all with
        | some line, _ => ", " ++ toString line
        | none, true => ","
        | none, false => "").toList := by
    cases line with
    | some line =>
        have htext : (", " ++ toString line).toList = ',' :: ' ' :: (toString line).toList := by simp
        dsimp only
        rw [htext]
        exact ⟨(spells_line line).space.lone rfl, breaks_cons (by decide)⟩
    | none =>
        cases all with
        | true => exact ⟨Spells.nil.lone (c := ',') rfl, breaks_cons (by decide)⟩
        | false => exact ⟨Spells.nil, breaks_nil⟩
  have hall : Spells (if all then ", ALL" else "").toList
      (if all then [ofSymbol ',', ofKeyword .ALL] else []) ∧
      Breaks (if all then ", ALL" else "").toList := by
    cases all with
    | false => exact ⟨Spells.nil, breaks_nil⟩
    | true => exact ⟨(spells_keyword .ALL rfl).space.lone (c := ',') rfl, breaks_cons (by decide)⟩
  have hwhole := (hpath.append hline.1 hline.2).append hall.1 hall.2
  rw [← String.toList_append, ← String.toList_append] at hwhole
  unfold listing tokens
  dsimp only
  have hchain := spells_after "CHAIN " .CHAIN rfl rfl hwhole
  rw [← String.append_assoc, ← String.append_assoc] at hchain
  exact hchain

theorem spells_define {name : Name} {parameters : List Name} {body : Expr} (hname : name.Legible)
    (hparameters : ∀ name ∈ parameters, name.Legible) (hbody : body.Legible) :
    Spells (define name parameters body).listing.toList (define name parameters body).tokens := by
  have hequal : Spells (" = " ++ body.listing).toList (BinaryOp.equal.token :: body.tokens) := by
    have htext : (" = " ++ body.listing).toList = ' ' :: ('=' :: ' ' :: body.listing.toList) := by simp
    rw [htext]
    exact (BinaryOp.equal.spells_token.append_space (Expr.spells_tokens hbody)).space
  have hlist : Spells (if parameters.isEmpty then "" else "(" ++ names parameters ++ ")").toList
      (if parameters.isEmpty then [] else
        ofSymbol '(' :: (commaTokens (parameters.map fun name => [name.token]) ++ [ofSymbol ')'])) ∧
      Breaks (if parameters.isEmpty then "" else "(" ++ names parameters ++ ")").toList := by
    split
    · exact ⟨Spells.nil, breaks_nil⟩
    · have htext : ("(" ++ names parameters ++ ")").toList = '(' :: ((names parameters).toList ++ [')']) := by
        simp
      rw [htext]
      exact ⟨((spells_names hparameters).append (Spells.nil.lone (c := ')') rfl)
        (breaks_cons (by decide))).lone rfl, breaks_cons (by decide)⟩
  have hbreak : Breaks (" = " ++ body.listing).toList := by
    rw [String.toList_append]
    exact breaks_cons (by decide)
  have hrest := hlist.1.append hequal hbreak
  have hfirst : Breaks ((if parameters.isEmpty then "" else "(" ++ names parameters ++ ")").toList ++
      (" = " ++ body.listing).toList) := by
    split
    · exact hbreak
    · rw [String.toList_append, String.toList_append]
      exact breaks_cons (by decide)
  have hwhole := (Name.spells_token hname).append hrest hfirst
  rw [← String.toList_append, ← String.toList_append] at hwhole
  have hdef := spells_after "DEF " .DEF rfl rfl hwhole
  rw [listing, tokens]
  rw [← String.append_assoc, ← String.append_assoc, ← String.append_assoc] at hdef
  exact hdef

theorem spells_assign {target : Variable} {value : Expr} (htarget : target.Legible)
    (hvalue : value.Legible) :
    Spells (assign target value).listing.toList (assign target value).tokens := by
  have htext : (target.listing ++ " = " ++ value.listing).toList =
      target.listing.toList ++ ' ' :: ('=' :: ' ' :: value.listing.toList) := by simp
  rw [listing, tokens, htext]
  exact (Variable.spells_tokens htarget).append_space
    (BinaryOp.equal.spells_token.append_space (Expr.spells_tokens hvalue))

theorem spells_forLoop {counter : Name} {start limit : Expr} {step : Option Expr}
    (h : (forLoop counter start limit step).Legible) :
    Spells (forLoop counter start limit step).listing.toList (forLoop counter start limit step).tokens := by
  obtain ⟨hcounter, hstart, hlimit, hstep⟩ := h
  have hbounds := spells_between " TO " .TO rfl rfl (Expr.spells_tokens hstart)
    (Expr.spells_tokens hlimit)
  have hopen : ∀ {text : String} {tokens : List Token}, Spells text.toList tokens →
      Spells ("FOR " ++ (counter.spelling ++ " = " ++ text)).toList
        (ofKeyword .FOR :: counter.token :: BinaryOp.equal.token :: tokens) := by
    intro text tokens htokens
    refine spells_after "FOR " .FOR rfl rfl ?_
    have htext : (counter.spelling ++ " = " ++ text).toList =
        counter.spelling.toList ++ ' ' :: ('=' :: ' ' :: text.toList) := by simp
    rw [htext]
    exact (Name.spells_token hcounter).append_space
      (BinaryOp.equal.spells_token.append_space htokens)
  unfold listing tokens
  dsimp only
  cases step with
  | none =>
      have hwhole := hopen hbounds
      rw [List.append_nil]
      simp only [String.append_assoc, String.append_empty] at hwhole ⊢
      exact hwhole
  | some e =>
      have hwhole := hopen (spells_between " STEP " .STEP rfl rfl hbounds
        (Expr.spells_tokens (hstep e rfl)))
      simp only [String.append_assoc, List.append_assoc, List.cons_append] at hwhole ⊢
      exact hwhole

/-- A line number may also be followed by a hyphen. -/
theorem lexFragment_line_hyphen (line : Nat) (rest : List Char) :
    lexFragment ((toString line).toList ++ '-' :: rest) false =
      lineToken line :: ofSymbol '-' :: lexFragment rest false := by
  have hend : EndsNumber ('-' :: rest) := by
    intro c hc
    cases hc
    decide
  have hline := lexFragment_number (isPlain_toDigits line) (.inl rfl) hend
  rw [List.append_nil] at hline
  rw [toList_toString, hline, lexFragment_lone (by decide)]
  rfl

theorem spells_list (first last : Option Nat) :
    Spells (list first last).listing.toList (list first last).tokens := by
  unfold listing tokens
  dsimp only
  cases first with
  | none =>
      cases last with
      | none => exact spells_keyword .LIST rfl
      | some b =>
          have hrange : Spells ("-" ++ toString b).toList [ofSymbol '-', lineToken b] := by
            have htext : ("-" ++ toString b).toList = '-' :: (toString b).toList := by simp
            rw [htext]
            exact (spells_line b).lone rfl
          have hlead : "LIST -" ++ toString b = "LIST " ++ ("-" ++ toString b) := by
            rw [← String.append_assoc]
            rfl
          dsimp only
          rw [hlead]
          exact spells_after "LIST " .LIST rfl rfl hrange
  | some a =>
      cases last with
      | none =>
          have hrange : Spells (toString a ++ "-").toList [lineToken a, ofSymbol '-'] := by
            refine ⟨by simpa using (spells_line a).inLine, fun tail _ => ?_⟩
            rw [String.toList_append, List.append_assoc]
            exact lexFragment_line_hyphen a tail
          have hlist := spells_after "LIST " .LIST rfl rfl hrange
          rw [← String.append_assoc] at hlist
          exact hlist
      | some b =>
          dsimp only
          split
          · exact spells_after "LIST " .LIST rfl rfl (spells_line a)
          · have hrange : Spells (toString a ++ ("-" ++ toString b)).toList
                [lineToken a, ofSymbol '-', lineToken b] := by
              have ha := (spells_line a).inLine
              have hb := (spells_line b).inLine
              refine ⟨by simp_all, fun tail htail => ?_⟩
              have htext : (toString a ++ ("-" ++ toString b)).toList ++ tail =
                  (toString a).toList ++ '-' :: ((toString b).toList ++ tail) := by simp
              rw [htext, lexFragment_line_hyphen, (spells_line b).scan tail htail]
              rfl
            have hlist := spells_after "LIST " .LIST rfl rfl hrange
            rw [← String.append_assoc, ← String.append_assoc] at hlist
            exact hlist

/-- The listing of a command spells its tokens, unless it is verbatim. -/
theorem spells_tokens {c : Command} (h : c.Legible) (hverbatim : c.isVerbatim = false) :
    Spells c.listing.toList c.tokens := by
  cases c with
  | auto start step => exact spells_auto start step
  | beep => exact spells_keyword .BEEP rfl
  | chain path line all => exact spells_chain h.1 line all
  | clear arguments => exact spells_withArguments .CLEAR rfl (spells_positions h)
  | clearScreen => exact spells_keyword .CLS rfl
  | color arguments => exact spells_withArguments .COLOR rfl (spells_positions h)
  | common names => exact spells_after "COMMON " .COMMON rfl rfl (spells_names h.2)
  | cont => exact spells_keyword .CONT rfl
  | data items => cases hverbatim
  | define name parameters body => exact spells_define h.1.1 h.2.1 h.2.2
  | dim targets => exact spells_after "DIM " .DIM rfl rfl (spells_targets h.2)
  | finish => exact spells_keyword .END rfl
  | error code => exact spells_after "ERROR " .ERROR rfl rfl (Expr.spells_tokens h)
  | files pattern =>
      cases pattern with
      | none => exact spells_keyword .FILES rfl
      | some e =>
          have hfiles := spells_after "FILES " .FILES rfl rfl (Expr.spells_tokens (h e rfl))
          rw [tokens, Option.toList_some, List.flatMap_singleton]
          exact hfiles
  | forLoop counter start limit step => exact spells_forLoop h
  | gosub line => exact spells_after "GOSUB " .GOSUB rfl rfl (spells_line line)
  | goto line => exact spells_after "GOTO " .GOTO rfl rfl (spells_line line)
  | key number text =>
      have hkey := spells_after "KEY " .KEY rfl rfl
        (spells_comma (Expr.spells_tokens h.1) (Expr.spells_tokens h.2))
      rw [← String.append_assoc, ← String.append_assoc] at hkey
      exact hkey
  | assign target value => exact spells_assign h.1 h.2
  | list first last => exact spells_list first last
  | load path andRun =>
      cases andRun with
      | false => exact spells_after "LOAD " .LOAD rfl rfl (Expr.spells_tokens h)
      | true => exact spells_after "RUN " .RUN rfl rfl (Expr.spells_tokens h)
  | locate arguments => exact spells_withArguments .LOCATE rfl (spells_positions h)
  | merge path => exact spells_after "MERGE " .MERGE rfl rfl (Expr.spells_tokens h)
  | new => exact spells_keyword .NEW rfl
  | next counters => exact spells_withArguments .NEXT rfl (spells_names h)
  | onError line =>
      have hline := spells_after "ERROR " .ERROR rfl rfl
        (spells_after "GOTO " .GOTO rfl rfl (spells_line line))
      have htrap := spells_after "ON " .ON rfl rfl hline
      have hlead : "ON ERROR GOTO " = "ON " ++ ("ERROR " ++ "GOTO ") := by decide
      rw [listing, hlead, String.append_assoc, String.append_assoc]
      exact htrap
  | onGoto selector lines =>
      have hjump := spells_after "ON " .ON rfl rfl
        (spells_between " GOTO " .GOTO rfl rfl (Expr.spells_tokens h.1) (spells_numbers lines))
      rw [← String.append_assoc, ← String.append_assoc] at hjump
      exact hjump
  | onGosub selector lines =>
      have hjump := spells_after "ON " .ON rfl rfl
        (spells_between " GOSUB " .GOSUB rfl rfl (Expr.spells_tokens h.1) (spells_numbers lines))
      rw [← String.append_assoc, ← String.append_assoc] at hjump
      exact hjump
  | palette arguments => exact spells_withArguments .PALETTE rfl (spells_positions h)
  | print items =>
      rw [listing, tokens, String.toList_append]
      exact (spells_keyword .PRINT rfl).append (spells_printItems h false) (breaks_printItems false items)
  | read targets => exact spells_after "READ " .READ rfl rfl (spells_targets h.2)
  | remark text => cases hverbatim
  | restore line => exact spells_withLine .RESTORE rfl line
  | resume target =>
      cases target with
      | retry => exact spells_keyword .RESUME rfl
      | next =>
          have hresume := spells_after "RESUME " .RESUME rfl rfl (spells_keyword .NEXT rfl)
          have hlead : "RESUME NEXT" = "RESUME " ++ Keyword.NEXT.spelling := by decide
          rw [listing, hlead]
          exact hresume
      | line number => exact spells_after "RESUME " .RESUME rfl rfl (spells_line number)
  | returnTo line => exact spells_withLine .RETURN rfl line
  | run line => exact spells_withLine .RUN rfl line
  | screen arguments => exact spells_withArguments .SCREEN rfl (spells_positions h)
  | stop => exact spells_keyword .STOP rfl
  | traceOff => exact spells_keyword .TROFF rfl
  | traceOn => exact spells_keyword .TRON rfl
  | wend => exact spells_keyword .WEND rfl
  | whileLoop condition => exact spells_after "WHILE " .WHILE rfl rfl (Expr.spells_tokens h)

end Command

section Verbatim

variable {tail : List Char}

/-- Whether a line ends before a text. -/
def EndsLine (tail : List Char) : Prop := tail = [] ∨ ∃ rest, tail = '\n' :: rest

/-- Whether a line or a statement ends before a text. -/
def Closes (tail : List Char) : Prop := EndsLine tail ∨ ∃ rest, tail = ' ' :: ':' :: rest

theorem EndsLine.breaks (h : EndsLine tail) : Breaks tail := by
  rcases h with rfl | ⟨rest, rfl⟩
  · exact breaks_nil
  · exact breaks_cons (by decide)

theorem Closes.breaks (h : Closes tail) : Breaks tail := by
  rcases h with h | ⟨rest, rfl⟩
  · exact h.breaks
  · exact breaks_cons (by decide)

theorem lexFragment_data_symbol {c : Char} (h : c = ',' ∨ c = ':') (rest : List Char) :
    lexFragment (c :: rest) true = ofSymbol c :: lexFragment rest (c == ',') := by
  rcases h with rfl | rfl
  · rw [tokens_ofData ⟨by decide, by decide, by decide⟩]
    rfl
  · rw [tokens_ofData ⟨by decide, by decide, by decide⟩]
    rfl

/-- Where a statement ends, DATA is left. -/
theorem Closes.lexFragment (h : Closes tail) : lexFragment tail true = lexFragment tail false := by
  rcases h with (rfl | ⟨rest, rfl⟩) | ⟨rest, rfl⟩
  · rw [lexFragment_nil, lexFragment_nil]
  · rw [lexFragment_newline, lexFragment_newline]
  · rw [lexFragment_space true (by decide), lexFragment_space false (by decide),
      lexFragment_data_symbol (.inr rfl), lexFragment_lone (by decide)]
    rfl

theorem Text.trimEnd_append_space (text : List Char) :
    Text.trimEnd (text ++ [' ']) = Text.trimEnd text := by
  unfold Text.trimEnd Text.dropEndWhile
  rw [List.reverse_append, List.reverse_singleton, List.singleton_append,
    List.dropWhile_cons_of_pos (by decide)]

/-- The characters up to the separator behind an item are the item and perhaps a blank. -/
theorem span_item {text : List Char} (hitem : ∀ c ∈ text, (c != ',' && c != ':' && c != '\n') = true)
    (htrim : Text.trimEnd text = text) (htail : Closes tail ∨ ∃ rest, tail = ',' :: rest) :
    Text.trimEnd ((text ++ tail).takeWhile fun d => d != ',' && d != ':' && d != '\n') = text ∧
      lexFragment ((text ++ tail).dropWhile fun d => d != ',' && d != ':' && d != '\n') true =
        lexFragment tail true := by
  rw [List.takeWhile_append_of_pos hitem, List.dropWhile_append_of_pos hitem]
  rcases htail with ((rfl | ⟨more, rfl⟩) | ⟨more, rfl⟩) | ⟨more, rfl⟩
  · exact ⟨by rw [List.takeWhile_nil, List.append_nil, htrim], rfl⟩
  · refine ⟨?_, rfl⟩
    rw [List.takeWhile_cons_of_neg (by decide), List.append_nil, htrim]
  · have htake : (' ' :: ':' :: more).takeWhile (fun d => d != ',' && d != ':' && d != '\n') = [' '] := rfl
    refine ⟨?_, (lexFragment_space true (by decide)).symm⟩
    rw [htake, Text.trimEnd_append_space, htrim]
  · refine ⟨?_, rfl⟩
    rw [List.takeWhile_cons_of_neg (by decide), List.append_nil, htrim]

/-- An item of DATA before a comma or the end of the statement. -/
theorem Datum.lexFragment_tokens {item : Datum} (h : item.Legible)
    (htail : Closes tail ∨ ∃ rest, tail = ',' :: rest) :
    lexFragment ((Command.datum item).toList ++ tail) true = item.tokens ++ lexFragment tail true := by
  cases item with
  | quoted text =>
      have htext : (Command.datum (.quoted text)).toList ++ tail =
          '"' :: (text.toList ++ '"' :: tail) := by simp [Command.datum]
      have hpiece : Piece.ofData '"' (text.toList ++ '"' :: tail) = ⟨⟨.text, String.ofList text.toList⟩, tail, .data⟩ :=
        quoted_closed h .data
      rw [htext, tokens_ofData ⟨by decide, by decide, by decide⟩, hpiece, String.ofList_toList]
      rfl
  | raw text =>
      obtain ⟨hchars, htrim, hhead⟩ := h
      cases htext : text.toList with
      | nil =>
          have hempty : text.isEmpty = true := by
            rw [String.isEmpty_iff, ← String.toList_inj, htext]
            rfl
          rw [Command.datum, tokens, hempty, htext]
          rfl
      | cons c rest =>
          have hempty : text.isEmpty = false := by
            rw [← Bool.not_eq_true, String.isEmpty_iff]
            rintro rfl
            cases htext
          rw [htext] at hchars htrim hhead
          obtain ⟨hstarts, hquote⟩ := hhead c rfl
          obtain ⟨hcomma, hcolon, -⟩ := hchars c List.mem_cons_self
          obtain ⟨hitem, hrest⟩ := span_item (fun d hd => by simp [hchars d hd]) htrim htail
          rw [List.cons_append] at hitem hrest
          have hpiece : Piece.ofData c (rest ++ tail) =
              ⟨⟨.raw, text⟩, (c :: (rest ++ tail)).dropWhile fun d => d != ',' && d != ':' && d != '\n', .data⟩ := by
            unfold Piece.ofData
            rw [if_neg (by simpa using hcomma), if_neg (by simpa using hcolon),
              if_neg (by simpa using hquote)]
            dsimp only
            rw [hitem, ← htext, String.ofList_toList]
          rw [Command.datum, tokens, hempty, htext, List.cons_append, tokens_ofData hstarts, hpiece, ← hrest]
          rfl

theorem lexFragment_items {items : List Datum} (hne : items ≠ []) (h : ∀ item ∈ items, item.Legible)
    (htail : Closes tail) :
    lexFragment ((joinWith "," (items.map Command.datum)).toList ++ tail) true =
      commaTokens (items.map Datum.tokens) ++ lexFragment tail false := by
  induction items with
  | nil => exact absurd rfl hne
  | cons item rest ih =>
      have hitem := h item List.mem_cons_self
      cases rest with
      | nil =>
          have hlast := Datum.lexFragment_tokens hitem (.inl htail)
          rw [htail.lexFragment] at hlast
          exact hlast
      | cons next more =>
          have hothers := ih (by simp) fun other hother => h other (List.mem_cons_of_mem item hother)
          have htext : (joinWith "," ((item :: next :: more).map Command.datum)).toList ++ tail =
              (Command.datum item).toList ++
                ',' :: ((joinWith "," ((next :: more).map Command.datum)).toList ++ tail) := by
            simp [joinWith]
          rw [htext, Datum.lexFragment_tokens hitem (.inr ⟨_, rfl⟩),
            lexFragment_data_symbol (.inl rfl)]
          change item.tokens ++ ofSymbol ',' :: lexFragment
            ((joinWith "," ((next :: more).map Command.datum)).toList ++ tail) true = _
          rw [hothers]
          simp [commaTokens]

end Verbatim

namespace Command

/-- Whether a command's listing is left alone by what follows it. -/
def Precedes : Command → List Char → Prop
  | remark _, tail => EndsLine tail
  | data _, tail => Closes tail
  | _, tail => Breaks tail

theorem precedes_of_endsLine (c : Command) {tail : List Char} (h : EndsLine tail) : c.Precedes tail := by
  cases c with
  | remark text => exact h
  | data items => exact .inl h
  | _ => exact h.breaks

theorem precedes_of_closes {c : Command} {tail : List Char} (hremark : ∀ text, c ≠ remark text)
    (h : Closes tail) : c.Precedes tail := by
  cases c with
  | remark text => exact absurd rfl (hremark text)
  | data items => exact h
  | _ => exact h.breaks

theorem precedes_of_breaks {c : Command} {tail : List Char} (hverbatim : c.isVerbatim = false)
    (h : Breaks tail) : c.Precedes tail := by
  cases c with
  | remark text => cases hverbatim
  | data items => cases hverbatim
  | _ => exact h

theorem lexFragment_remark_listing {text : String} (h : (remark text).Legible) {tail : List Char}
    (htail : EndsLine tail) :
    lexFragment ((remark text).listing.toList ++ tail) false =
      (remark text).tokens ++ lexFragment tail false := by
  obtain ⟨hline, htrim⟩ := h
  have hchars : ∀ c ∈ text.toList, (c != '\n') = true := by
    intro c hc
    rw [bne_iff_ne]
    rintro rfl
    exact hline hc
  have hspan : (text.toList ++ tail).takeWhile (· != '\n') = text.toList ∧
      (text.toList ++ tail).dropWhile (· != '\n') = tail := by
    rw [List.takeWhile_append_of_pos hchars, List.dropWhile_append_of_pos hchars]
    rcases htail with rfl | ⟨rest, rfl⟩
    · exact ⟨List.append_nil _, rfl⟩
    · rw [List.takeWhile_cons_of_neg (by decide), List.dropWhile_cons_of_neg (by decide)]
      exact ⟨List.append_nil _, rfl⟩
  have hreads := @Scanner.Reads.remark ⟨text.toList ++ tail, .remark, false⟩ rfl
  rw [hspan.1, hspan.2, htrim, String.ofList_toList] at hreads
  have htext : (remark text).listing.toList ++ tail = 'R' :: 'E' :: 'M' :: (text.toList ++ tail) := by
    simp [listing]
  rw [htext, lexFragment_remark, hreads.tokens_eq]
  rfl

/-- **The listing of a command is scanned to its tokens**, and what follows is scanned as if it stood
alone. -/
theorem lexFragment_listing {c : Command} (h : c.Legible) {tail : List Char} (htail : c.Precedes tail) :
    lexFragment (c.listing.toList ++ tail) false = c.tokens ++ lexFragment tail false := by
  cases hverbatim : c.isVerbatim with
  | false =>
      refine (spells_tokens h hverbatim).scan tail ?_
      cases c <;> first | exact htail | cases hverbatim
  | true =>
      cases c with
      | remark text => exact lexFragment_remark_listing h htail
      | data items =>
          have htext : (data items).listing.toList ++ tail = Keyword.DATA.spelling.toList ++
              ' ' :: ((joinWith "," (items.map datum)).toList ++ tail) := by
            simp [listing, Keyword.spelling]
          have hspace : ∀ more, lexFragment (' ' :: more) true = lexFragment more true :=
            fun _ => lexFragment_space true (by decide)
          rw [htext, tokens_keyword .DATA (breaks_cons (by decide))]
          change ofKeyword .DATA :: lexFragment _ true = _
          rw [hspace, lexFragment_items h.1 h.2 htail]
          rfl
      | _ => cases hverbatim

end Command

end LineBasic
