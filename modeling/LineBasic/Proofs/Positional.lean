import LineBasic.Proofs.InLine
import LineBasic.Proofs.ReadCommand
import Mathlib.Data.List.Forall2

/-! Positional arguments. An expression is read off its own tokens alone: the tokens behind it change
nothing as long as none of them could go on with it, and a greater budget changes nothing either. So the
arguments of LOCATE, COLOR, SCREEN, PALETTE and CLEAR are read position by position, whatever expressions
stand there; a position without tokens is a gap, and only a gap at the end is refused. -/

namespace LineBasic.Reader

open Token

/-- Whether the tokens start with nothing that could belong to an expression in front of them. -/
def Parted (tokens : List Token) : Prop := Stops tokens ∧ kindAt tokens ≠ .ident

theorem Ended.parted {tokens : List Token} (h : Ended tokens) : Parted tokens :=
  ⟨h.stops, h.ne rfl (by simp)⟩

theorem parted_comma (tokens : List Token) : Parted (ofSymbol ',' :: tokens) :=
  ⟨stops_cons rfl (by decide), kindAt_ne (by decide) tokens⟩

/-- What the first reader reads off some tokens, the second one reads off the same tokens with others
behind them. Where the first reader leaves nothing, the others have to stand apart. -/
structure Carries {α : Type} (reader wider : Reader α) : Prop where
  ok : ∀ {tokens rest more : List Token} {value : α}, reader tokens = .ok (value, rest) →
    (rest = [] → Parted more) → wider (tokens ++ more) = .ok (value, rest ++ more)
  nil : ∀ {value : α} {rest : List Token}, reader [] = .ok (value, rest) → rest = []

section Rules

variable {α β : Type} {reader wider : Reader α}

theorem Carries.bind {after after' : α → Reader β} (h : Carries reader wider)
    (hafter : ∀ value, Carries (after value) (after' value)) :
    Carries (reader >>= after) (wider >>= after') where
  ok hread hmore := by
    obtain ⟨value, middle, hfirst, hsecond⟩ := bind_eq_ok hread
    have hmiddle : middle = [] → Parted _ := fun hnil => hmore ((hafter value).nil (hnil ▸ hsecond))
    rw [bind_ok (h.ok hfirst hmiddle)]
    exact (hafter value).ok hsecond hmore
  nil hread := by
    obtain ⟨value, middle, hfirst, hsecond⟩ := bind_eq_ok hread
    obtain rfl := h.nil hfirst
    exact (hafter value).nil hsecond

theorem carries_pure (value : α) : Carries (pure value) (pure value) where
  ok hread _ := by
    cases hread
    rfl
  nil hread := by
    cases hread
    rfl

theorem carries_throw (fault : Fault) (wider : Reader α) : Carries (throw fault) wider where
  ok hread _ := by cases hread
  nil hread := by cases hread

theorem carries_refuse (detail : String) (wider : Reader α) : Carries (refuse detail) wider :=
  carries_throw _ wider

theorem carries_exhausted (wider : Reader α) : Carries exhausted wider := carries_throw _ wider

theorem carries_lift (action : Except Fault α) :
    Carries (liftM action : Reader α) (liftM action : Reader α) := by
  cases action with
  | error fault => exact carries_throw fault _
  | ok value => exact carries_pure value

theorem Carries.ite {p : Prop} [Decidable p] {other other' : Reader α} (h : Carries reader wider)
    (hother : Carries other other') :
    Carries (if p then reader else other) (if p then wider else other') := by
  split
  · exact h
  · exact hother

/-- The next token. Past the last one a reader has to fail, as it would take a token of the others. -/
theorem Carries.next {after after' : Token → Reader β}
    (hend : ∀ {value rest}, after endOfInput [] ≠ .ok (value, rest))
    (h : ∀ token, Carries (after token) (after' token)) :
    Carries (Reader.next >>= after) (Reader.next >>= after') where
  ok {tokens} _ _ _ hread hmore := by
    cases tokens with
    | nil => exact absurd hread hend
    | cons token tokens =>
        rw [List.cons_append, bind_ok (run_next_cons _ _)]
        rw [bind_ok (run_next_cons _ _)] at hread
        split at hread <;> rename_i hkind
        · rw [if_pos hkind]
          exact (h token).ok hread hmore
        · rw [if_neg hkind]
          exact (h token).ok hread hmore
  nil hread := absurd hread hend

/-- A look at the next token. Tokens that stand apart count as the end of the source. -/
theorem Carries.peek {after after' : Kind → Reader β} (h : ∀ kind, Carries (after kind) (after' kind))
    (hend : ∀ {more}, Parted more → after' (kindAt more) = after' .eof) :
    Carries (peekKind >>= after) (peekKind >>= after') where
  ok {tokens rest more value} hread hmore := by
    rw [bind_ok (run_peekKind _)] at hread ⊢
    cases tokens with
    | nil =>
        have hmore := hmore ((h .eof).nil hread)
        rw [List.nil_append, hend hmore]
        exact (h .eof).ok hread fun _ => hmore
    | cons token tokens => exact (h token.kind).ok hread hmore
  nil hread := (h .eof).nil hread

/-- A token that is taken if it is of a certain kind. -/
theorem Carries.taken {p : Kind → Prop} [DecidablePred p] {after after' : Token → Reader β}
    {other other' : Reader β} (heof : ¬p .eof) (hp : ∀ kind, p kind → kind.endsLine = false) (hend : ∀ {more}, Parted more → ¬p (kindAt more))
    (h : ∀ token, Carries (after token) (after' token)) (hother : Carries other other') :
    Carries (peekKind >>= fun kind => if p kind then Reader.next >>= after else other)
      (peekKind >>= fun kind => if p kind then Reader.next >>= after' else other') where
  ok {tokens rest more value} hread hmore := by
    rw [bind_ok (run_peekKind _)] at hread ⊢
    cases tokens with
    | nil =>
        rw [kindAt_nil, if_neg heof] at hread
        have hmore := hmore (hother.nil hread)
        rw [List.nil_append, if_neg (hend hmore)]
        exact hother.ok hread fun _ => hmore
    | cons token tokens =>
        rw [List.cons_append, kindAt_cons] at *
        split at hread
        · rename_i hfound
          rw [bind_ok (run_next (hp _ hfound) tokens)] at hread
          rw [if_pos hfound, bind_ok (run_next (hp _ hfound) _)]
          exact (h token).ok hread hmore
        · rename_i hnone
          rw [if_neg hnone]
          exact hother.ok hread hmore
  nil hread := by
    rw [bind_ok (run_peekKind _), kindAt_nil, if_neg heof] at hread
    exact hother.nil hread

theorem carries_accept {kind : Kind} (hkind : kind.endsLine = false)
    (hend : ∀ {more}, Parted more → kindAt more ≠ kind) : Carries (accept kind) (accept kind) := by
  have heof : Kind.eof ≠ kind := by
    rintro rfl
    cases hkind
  exact .taken (p := (· = kind)) heof (by rintro _ rfl; exact hkind) hend (fun _ => carries_pure true)
    (carries_pure false)

theorem carries_expect {kind : Kind} (heof : .eof ≠ kind) : Carries (expect kind) (expect kind) := by
  refine Carries.next (fun hread => ?_) fun token => (carries_pure ()).ite (carries_refuse _ _)
  change (if Kind.eof = kind then pure () else refuse (expectation kind) : Reader Unit) [] = _ at hread
  rw [if_neg heof] at hread
  cases hread

end Rules

section Expressions

variable {small big : Nat}

/-- Past the last token no expression can be read. -/
theorem operand_nil (budget : Nat) {value : Expr} {rest : List Token} :
    operand budget [] ≠ .ok (value, rest) := by
  intro hread
  cases budget with
  | zero =>
      rw [operand] at hread
      cases hread
  | succ budget =>
      rw [operand] at hread
      cases hread

theorem exprAbove_nil (budget : Nat) (level : Level) {value : Expr} {rest : List Token} :
    exprAbove budget level [] ≠ .ok (value, rest) := by
  intro hread
  cases budget with
  | zero =>
      rw [exprAbove] at hread
      cases hread
  | succ budget =>
      rw [exprAbove] at hread
      obtain ⟨left, middle, hoperand, -⟩ := bind_eq_ok hread
      exact operand_nil budget hoperand

/-- The readers of expressions with a budget are carried over to those with another one. -/
structure ExprsCarry (small big : Nat) : Prop where
  exprAbove : ∀ level, Carries (exprAbove small level) (exprAbove big level)
  operators : ∀ level left, Carries (operators small level left) (operators big level left)
  operand : Carries (operand small) (operand big)
  named : ∀ word, Carries (named small word) (named big word)
  arguments : Carries (arguments small) (arguments big)

theorem carries_operators (h : ExprsCarry small big) (level : Level) (left : Expr) :
    Carries (operators (small + 1) level left) (operators (big + 1) level left) := by
  rw [operators, operators]
  refine Carries.peek (fun kind => ?_) fun hmore => ?_
  · split
    · refine (carries_pure left).ite (Carries.next (fun hread => ?_) fun _ => ?_)
      · obtain ⟨right, middle, hright, -⟩ := bind_eq_ok hread
        exact exprAbove_nil small _ hright
      · exact (h.exprAbove _).bind fun right => h.operators level _
    · exact carries_pure left
  · rw [hmore.1.1]
    rfl

theorem carries_operand (h : ExprsCarry small big) : Carries (operand (small + 1)) (operand (big + 1)) := by
  have hunary : ∀ op, Carries (exprAbove small .ofUnary >>= fun inner => pure (Expr.unary op inner))
      (exprAbove big .ofUnary >>= fun inner => pure (Expr.unary op inner)) :=
    fun op => (h.exprAbove _).bind fun inner => carries_pure _
  rw [operand, operand]
  refine Carries.next (fun hread => by cases hread) fun token => ?_
  split
  case h_1 => exact hunary .negate
  case h_2 => exact hunary .positive
  case h_3 => exact hunary .not
  case h_4 =>
    exact (h.exprAbove _).bind fun inner => (carries_expect (by decide)).bind fun _ => carries_pure inner
  case h_12 => exact h.named _
  case h_22 => exact (carries_refuse _ _).ite (carries_refuse _ _)
  all_goals first | exact carries_pure _ | exact carries_lift _

theorem carries_named (h : ExprsCarry small big) (word : String) :
    Carries (named (small + 1) word) (named (big + 1) word) := by
  have hparen : Carries (accept .leftParen) (accept .leftParen) :=
    carries_accept rfl fun hmore => hmore.1.2
  have hrest : ∀ name : Name, Carries
      (accept .leftParen >>= fun paren =>
        if paren then arguments small >>= fun list =>
          if name.isFunction || (Builtin.ofName? name.spelling).isSome then pure (Expr.call name list)
          else pure (Expr.element name list)
        else if name.isFunction then pure (Expr.call name [])
        else pure (Expr.scalar name))
      (accept .leftParen >>= fun paren =>
        if paren then arguments big >>= fun list =>
          if name.isFunction || (Builtin.ofName? name.spelling).isSome then pure (Expr.call name list)
          else pure (Expr.element name list)
        else if name.isFunction then pure (Expr.call name [])
        else pure (Expr.scalar name)) := by
    intro name
    refine hparen.bind fun paren => Carries.ite (h.arguments.bind fun list => ?_) ?_
    · exact (carries_pure _).ite (carries_pure _)
    · exact (carries_pure _).ite (carries_pure _)
  rw [named, named]
  refine Carries.taken (fun hfn => absurd hfn.2 (by decide)) (fun kind hfn => ?_) (fun hmore hfn => hmore.2 hfn.2)
    (fun token => hrest _) (hrest _)
  rw [hfn.2]
  rfl

theorem carries_arguments (h : ExprsCarry small big) : Carries (arguments (small + 1)) (arguments (big + 1)) := by
  rw [arguments, arguments]
  refine (h.exprAbove _).bind fun first => Carries.next (fun hread => by cases hread) fun token => ?_
  split
  · exact carries_pure _
  · exact h.arguments.bind fun others => carries_pure _
  · exact carries_refuse _ _

theorem exprsCarry (hle : small ≤ big) : ExprsCarry small big := by
  induction small generalizing big with
  | zero =>
      refine ⟨fun level => ?_, fun level left => ?_, ?_, fun word => ?_, ?_⟩
      · rw [exprAbove]
        exact carries_exhausted _
      · rw [operators]
        exact carries_exhausted _
      · rw [operand]
        exact carries_exhausted _
      · rw [named]
        exact carries_exhausted _
      · rw [arguments]
        exact carries_exhausted _
  | succ small ih =>
      obtain ⟨big, rfl⟩ : ∃ fuel, big = fuel + 1 := ⟨big - 1, by omega⟩
      have h := ih (Nat.le_of_succ_le_succ hle)
      refine ⟨fun level => ?_, carries_operators h, carries_operand h, carries_named h, carries_arguments h⟩
      rw [exprAbove, exprAbove]
      exact h.operand.bind fun left => h.operators level left

/-- **An expression is read the same whatever stands behind it and apart from it.** -/
theorem carries_expr : Carries expr expr where
  ok {tokens rest more value} hread hmore := by
    have hle : budgetFor (leftInLine tokens) ≤ budgetFor (leftInLine (tokens ++ more)) := by
      have hleft := leftInLine_le_append tokens more
      rw [budgetFor, budgetFor]
      omega
    rw [expr, run_sized] at hread ⊢
    exact ((exprsCarry hle).exprAbove .lowest).ok hread hmore
  nil hread := by
    rw [expr, run_sized] at hread
    exact absurd hread (exprAbove_nil _ _)

/-- A statement may end at a colon, at ELSE, and at the end of its line or of the source. -/
theorem ended_iff {tokens : List Token} :
    Ended tokens ↔ kindAt tokens ∈ [.colon, .keyword .ELSE, .eol, .eof] := by
  unfold Ended
  cases kindAt tokens <;> simp [Kind.isTerminator]

/-- No expression starts with a comma or where a statement may end. -/
theorem kindAt_of_expr {tokens rest : List Token} {e : Expr} (h : expr tokens = .ok (e, rest)) :
    kindAt tokens ≠ .comma ∧ ¬Ended tokens := by
  have hread : ∃ left middle, operand (4 * leftInLine tokens + 2 + 1) tokens = .ok (left, middle) := by
    rw [expr, run_sized, budgetFor, exprAbove] at h
    obtain ⟨left, middle, hoperand, -⟩ := bind_eq_ok h
    exact ⟨left, middle, hoperand⟩
  obtain ⟨left, middle, hoperand⟩ := hread
  cases tokens with
  | nil => exact absurd hoperand (operand_nil _)
  | cons token tokens =>
      rw [operand, bind_ok (run_next_cons token tokens)] at hoperand
      rw [ended_iff, kindAt_cons]
      refine ⟨fun hkind => ?_, fun hend => ?_⟩
      · rw [hkind] at hoperand
        dsimp only at hoperand
        split at hoperand <;> cases hoperand
      · simp only [List.mem_cons, List.not_mem_nil, or_false] at hend
        rcases hend with hkind | hkind | hkind | hkind <;>
          (rw [hkind] at hoperand; cases hoperand)

end Expressions

/-- The statements with positional arguments. -/
inductive Positional where
  | locate
  | color
  | screen
  | palette
  | clear
  deriving Repr, DecidableEq

namespace Positional

def keyword : Positional → Keyword
  | locate => .LOCATE
  | color => .COLOR
  | screen => .SCREEN
  | palette => .PALETTE
  | clear => .CLEAR

def command : Positional → List (Option Expr) → Command
  | locate => .locate
  | color => .color
  | screen => .screen
  | palette => .palette
  | clear => .clear

/-- The reading of each of them, however its reserved word is written. -/
theorem statementWithin_eq {form : Positional} {token : Token} (hkind : token.kind = .keyword form.keyword)
    (budget : Nat) (tokens : List Token) :
    statementWithin (budget + 1) (token :: tokens) =
      (positions >>= fun arguments => pure (.command (form.command arguments))) tokens := by
  have hcommand : Reader.command token = positions >>= fun arguments => pure (form.command arguments) := by
    rw [Reader.command, hkind]
    cases form <;> rfl
  have hident : kindAt (token :: tokens) ≠ .ident := by simp [hkind]
  have hif : token.kind ≠ .keyword .IF := by
    rw [hkind]
    cases form <;> decide
  rw [statementWithin, bind_ok (run_peekKind _), if_neg hident, bind_ok (run_next (by rw [hkind]; rfl) _),
    if_neg hif, hcommand,
    run_bind, run_bind, run_bind]
  cases positions tokens <;> rfl

end Positional

/-- The complaint about a gap at the end of positional arguments. -/
def trailingComma : Fault := .of .syntaxError "TRAILING COMMA"

/-- The tokens at one position: those of an expression and no more, or none at a gap. -/
def IsPosition : Option Expr → List Token → Prop
  | some e, tokens => expr tokens = .ok (e, [])
  | none, tokens => tokens = []

section Positions

variable {arguments : List (Option Expr)} {parts : List (List Token)} {tokens more rest : List Token}

/-- The expression at a position is read off in front of what stands apart from it. -/
theorem IsPosition.expr_eq {e : Expr} (h : IsPosition (some e) tokens) (hmore : Parted more) :
    expr (tokens ++ more) = .ok (e, more) :=
  carries_expr.ok h fun _ => hmore

theorem IsPosition.some_expr_eq {e : Expr} (h : IsPosition (some e) tokens) (hmore : Parted more) :
    (some <$> expr) (tokens ++ more) = .ok (some e, more) := by
  rw [run_map, h.expr_eq hmore]

/-- Tokens that an expression that can be listed may have at a position. -/
theorem isPosition_tokens {e : Expr} (h : e.Legible) (hfaithful : e.isFaithful = true) :
    IsPosition (some e) e.tokens := by
  have hread := expr_tokens h ended_nil.stops
  rw [List.append_nil, if_pos hfaithful] at hread
  exact hread

/-- What stands at a position stands in one line. -/
theorem IsPosition.inLine {argument : Option Expr} (h : IsPosition argument tokens) : InLine tokens := by
  cases argument with
  | none =>
      obtain rfl : tokens = [] := h
      exact nofun
  | some e => exact stays_expr.inLine h

theorem inLine_parts (h : List.Forall₂ IsPosition arguments parts) : ∀ part ∈ parts, InLine part := by
  induction h with
  | nil => exact List.forall_mem_nil _
  | cons hfirst _ ih => exact List.forall_mem_cons.mpr ⟨hfirst.inLine, ih⟩

/-- Positional arguments other than a lone gap start with a token that does not end the statement. -/
theorem not_ended_parts (h : List.Forall₂ IsPosition arguments parts) (hne : arguments ≠ [])
    (hgap : arguments ≠ [none]) (hrest : Ended rest) : ¬Ended (commaTokens parts ++ rest) := by
  cases h with
  | nil => exact absurd rfl hne
  | @cons first part others more hfirst hothers =>
      cases hothers with
      | nil =>
          cases first with
          | none => exact absurd rfl hgap
          | some e => exact (kindAt_of_expr (hfirst.expr_eq hrest.parted)).2
      | @cons _ second _ more _ _ =>
          have htokens : commaTokens (part :: second :: more) ++ rest =
              part ++ ofSymbol ',' :: (commaTokens (second :: more) ++ rest) := by simp [commaTokens]
          rw [htokens]
          cases first with
          | none =>
              obtain rfl : part = [] := hfirst
              rw [ended_iff]
              simp [ofSymbol, Piece.symbolKind]
          | some e => exact (kindAt_of_expr (hfirst.expr_eq (parted_comma _))).2

/-- One position is read, up to the comma behind it. -/
theorem positionsFrom_step {first : Option Expr} {part : List Token} (hfirst : IsPosition first part)
    (hmore : Parted more) (hgap : first = none → kindAt more = .comma) (budget : Nat) :
    positionsFrom (budget + 1) (part ++ more) =
      (accept .comma >>= fun comma =>
        if comma then atEnd >>= fun ended =>
          if ended then refuse "TRAILING COMMA"
          else positionsFrom budget >>= fun others => pure (first :: others)
        else pure [first]) more := by
  rw [positionsFrom, bind_ok (run_peekKind _)]
  cases first with
  | none =>
      obtain rfl : part = [] := hfirst
      rw [List.nil_append, if_pos (hgap rfl), bind_ok (run_pure _ _)]
  | some e => rw [if_neg (kindAt_of_expr (hfirst.expr_eq hmore)).1, bind_ok (hfirst.some_expr_eq hmore)]

/-- One position is read for each one that was written, until none is left. Where that one is a gap, the
comma in front of it is refused. -/
theorem positionsFrom_parts (h : List.Forall₂ IsPosition arguments parts) (hne : arguments ≠ [])
    (hgap : arguments ≠ [none]) (hrest : Ended rest) {budget : Nat} (hbudget : arguments.length ≤ budget) :
    positionsFrom budget (commaTokens parts ++ rest) =
      if arguments.getLast? = some none then .error trailingComma else .ok (arguments, rest) := by
  induction h generalizing budget with
  | nil => exact absurd rfl hne
  | @cons first part others more hfirst hothers ih =>
      rw [List.length_cons] at hbudget
      obtain ⟨fuel, rfl⟩ : ∃ fuel, budget = fuel + 1 := ⟨budget - 1, by omega⟩
      cases hothers with
      | nil =>
          have hsome : first ≠ none := fun hnone => hgap (by rw [hnone])
          have hstep := positionsFrom_step hfirst hrest.parted (fun hnone => absurd hnone hsome) fuel
          change positionsFrom (fuel + 1) (part ++ rest) = _
          rw [hstep, bind_ok (accept_neg (hrest.ne rfl (by simp))), if_neg Bool.false_ne_true,
            List.getLast?_singleton, if_neg (by simpa using hsome)]
          rfl
      | @cons next second others more hnext hmore =>
          have htokens : commaTokens (part :: second :: more) ++ rest =
              part ++ ofSymbol ',' :: (commaTokens (second :: more) ++ rest) := by simp [commaTokens]
          have hothers : List.Forall₂ IsPosition (next :: others) (second :: more) := .cons hnext hmore
          rw [htokens, positionsFrom_step hfirst (parted_comma _) (fun _ => rfl),
            bind_ok (accept_pos (by rfl) (by rfl)), if_pos rfl, List.getLast?_cons_cons]
          by_cases hlast : next :: others = [none]
          · -- The comma is followed by a gap alone, which is where the statement ends.
            have hend : Ended (commaTokens (second :: more) ++ rest) := by
              obtain ⟨rfl, rfl⟩ := List.cons_eq_cons.mp hlast
              cases hmore
              obtain rfl : second = [] := hnext
              exact hrest
            rw [hlast, bind_ok (atEnd_pos hend), if_pos rfl]
            rfl
          · have hread := ih (by simp) hlast (Nat.le_of_succ_le_succ hbudget)
            rw [bind_ok (atEnd_neg (not_ended_parts hothers (by simp) hlast hrest)), if_neg Bool.false_ne_true]
            by_cases hgap : (next :: others).getLast? = some none
            · rw [if_pos hgap] at hread ⊢
              exact bind_error hread
            · rw [if_neg hgap] at hread ⊢
              exact bind_ok hread

/-- Positional arguments as they were written. A lone gap is written as nothing, like no arguments. -/
theorem positions_parts (h : List.Forall₂ IsPosition arguments parts) (hrest : Ended rest) :
    positions (commaTokens parts ++ rest) =
      if arguments = [none] then .ok ([], rest)
      else if arguments.getLast? = some none then .error trailingComma else .ok (arguments, rest) := by
  by_cases hempty : arguments = [] ∨ arguments = [none]
  · -- Neither of the two has a token.
    have hread : positions (commaTokens parts ++ rest) = .ok ([], rest) := by
      have hparts : commaTokens parts = [] := by
        rcases hempty with rfl | rfl
        · cases h
          rfl
        · obtain _ | ⟨hfirst, hothers⟩ := h
          cases hothers
          exact hfirst
      rw [hparts, List.nil_append, positions, bind_ok (atEnd_pos hrest), if_pos rfl]
      rfl
    rw [hread]
    rcases hempty with rfl | rfl <;> rfl
  · obtain ⟨hne, hgap⟩ := not_or.mp hempty
    rw [if_neg hgap, positions, bind_ok (atEnd_neg (not_ended_parts h hne hgap hrest)),
      if_neg Bool.false_ne_true]
    have hleft := leftInLine_append (inLine_commaTokens (inLine_parts h)) rest
    have hlength := length_commaTokens parts id
    have hcount := h.length_eq
    rw [List.map_id] at hlength
    rw [run_sized]
    exact positionsFrom_parts h hne hgap hrest (by omega)

/-- **Positional arguments keep their gaps.** Of any expressions and gaps in any number and order, each
of the five statements is read with exactly these, in front of a colon, inside an IF in front of ELSE, and
at the end of the line or of the source; what follows is left alone. A gap behind a comma at the end is
refused as a syntax error, and a lone gap is no argument at all. -/
theorem positional_arguments_keep_gaps (form : Positional) {token : Token}
    (htoken : token.kind = .keyword form.keyword) (h : List.Forall₂ IsPosition arguments parts)
    (hrest : kindAt rest ∈ [.colon, .keyword .ELSE, .eol, .eof]) (budget : Nat) :
    (arguments.getLast? ≠ some none →
      statementWithin (budget + 1) (token :: (commaTokens parts ++ rest)) =
        .ok (.command (form.command arguments), rest)) ∧
    (2 ≤ arguments.length → arguments.getLast? = some none →
      statementWithin (budget + 1) (token :: (commaTokens parts ++ rest)) =
        .error (.of .syntaxError "TRAILING COMMA")) ∧
    (arguments = [none] →
      statementWithin (budget + 1) (token :: (commaTokens parts ++ rest)) =
        .ok (.command (form.command []), rest)) := by
  have hread := positions_parts h (ended_iff.mpr hrest)
  rw [Positional.statementWithin_eq htoken]
  refine ⟨fun hlast => ?_, fun hlength hlast => ?_, fun hgap => ?_⟩
  · have hne : arguments ≠ [none] := fun heq => hlast (by rw [heq]; rfl)
    rw [if_neg hne, if_neg hlast] at hread
    rw [bind_ok hread]
    rfl
  · have hne : arguments ≠ [none] := by
      rintro rfl
      exact absurd hlength (by decide)
    rw [if_neg hne, if_pos hlast] at hread
    exact bind_error hread
  · rw [if_pos hgap] at hread
    rw [bind_ok hread]
    rfl

/-- What stands at the positions of COLOR ,5,,(A+1) in front of ELSE and of LOCATE ,5, at a colon. -/
theorem positional_arguments_keep_gaps_colorLocate :
    statementWithin 1 ([⟨.keyword .COLOR, "color"⟩, ⟨.comma, ","⟩, ⟨.int, "5"⟩, ⟨.comma, ","⟩, ⟨.comma, ","⟩,
        ⟨.leftParen, "("⟩, ⟨.ident, "A"⟩, ⟨.plus, "+"⟩, ⟨.int, "1"⟩, ⟨.rightParen, ")"⟩,
        ⟨.keyword .ELSE, "ELSE"⟩, ⟨.keyword .CLS, "CLS"⟩]) =
      .ok (.command (.color [none, some (.int 5), none, some (.binary .add (.scalar (.ofWord "A")) (.int 1))]),
        [⟨.keyword .ELSE, "ELSE"⟩, ⟨.keyword .CLS, "CLS"⟩]) ∧
    statementWithin 1 ([⟨.keyword .LOCATE, "LOCATE"⟩, ⟨.comma, ","⟩, ⟨.int, "5"⟩, ⟨.comma, ","⟩,
        ⟨.colon, ":"⟩]) =
      .error (.of .syntaxError "TRAILING COMMA") := by
  have hgap : IsPosition none [] := rfl
  have hfive : IsPosition (some (.int 5)) [⟨.int, "5"⟩] := rfl
  have hsum : IsPosition (some (.binary .add (.scalar (.ofWord "A")) (.int 1)))
      [⟨.leftParen, "("⟩, ⟨.ident, "A"⟩, ⟨.plus, "+"⟩, ⟨.int, "1"⟩, ⟨.rightParen, ")"⟩] := by
    unfold IsPosition
    decide +kernel
  constructor
  · refine (positional_arguments_keep_gaps .color rfl
      (.cons hgap (.cons hfive (.cons hgap (.cons hsum .nil)))) ?_ 0).1 ?_
    · decide
    · simp
  · refine (positional_arguments_keep_gaps .locate rfl
      (.cons hgap (.cons hfive (.cons hgap .nil))) ?_ 0).2.1 ?_ ?_
    · decide
    · decide
    · rfl

end Positions

end LineBasic.Reader
