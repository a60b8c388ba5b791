import LineBasic.Proofs.ListedExpr
import LineBasic.Proofs.Readers

/-! Reading of the tokens that an expression is listed as. The expression comes back, except that a
call without arguments, which is listed with empty parentheses, is refused. The proof follows the
levels of the operators: an operand without parentheses binds more strongly than what stands around
it, and the reader stops at what binds less. -/

namespace LineBasic

open Token

namespace Expr

mutual

/-- Whether every call in an expression has arguments. -/
def isFaithful : Expr → Bool
  | element _ subscripts => areFaithful subscripts
  | call _ arguments => !arguments.isEmpty && areFaithful arguments
  | unary _ operand => operand.isFaithful
  | binary _ left right => left.isFaithful && right.isFaithful
  | _ => true

def areFaithful : List Expr → Bool
  | [] => true
  | expr :: rest => expr.isFaithful && areFaithful rest

end

theorem length_encloseTokens (needed : Bool) (tokens : List Token) :
    tokens.length ≤ (encloseTokens needed tokens).length := by
  cases needed with
  | false => exact Nat.le_refl _
  | true =>
      simp only [encloseTokens, if_true, List.length_cons, List.length_append]
      omega

/-- Every expression is listed as some token. -/
theorem length_tokens_pos (e : Expr) : 0 < e.tokens.length := by
  cases e <;> simp [tokens]

end Expr

theorem BinaryOp.endsLine_token (op : BinaryOp) : op.token.kind.endsLine = false := by cases op <;> rfl

theorem UnaryOp.endsLine_token (op : UnaryOp) : op.token.kind.endsLine = false := by cases op <;> rfl

/-- A text on one line has tokens of one line. -/
theorem inLine_lexFragment {text : List Char} (h : '\n' ∉ text) : Reader.InLine (lexFragment text false) :=
  Reader.inLine_of_ne (Scanner.kind_ne_eol _ h) (Scanner.kind_ne_eof _)

theorem Token.Spells.inLine_tokens {text : List Char} {tokens : List Token} (h : Spells text tokens) :
    Reader.InLine tokens := by
  have hscan := h.scan [] breaks_nil
  rw [List.append_nil, lexFragment_nil, List.append_nil] at hscan
  rw [← hscan]
  exact inLine_lexFragment h.inLine

namespace Reader

/-- The complaint about a token that starts no expression. -/
def misread : Fault := .of .syntaxError "EXPECTED EXPRESSION"

/-- How strongly the operator binds that comes next; where none comes, nothing binds. -/
def nextLevel (tokens : List Token) : Level :=
  match BinaryOp.ofKind? (kindAt tokens) with
  | some op => op.level
  | none => Level.lowest

theorem BinaryOp.level_pos (op : BinaryOp) : 0 < op.level := by cases op <;> decide

theorem nextLevel_token (op : BinaryOp) (tokens : List Token) :
    nextLevel (op.token :: tokens) = op.level := by
  have hkind : kindAt (op.token :: tokens) = op.kind := rfl
  rw [nextLevel, hkind, BinaryOp.ofKind?_kind]

section Operators

variable {budget : Nat} {level : Level} {left : Expr} {tokens : List Token}

theorem operators_stop (h : nextLevel tokens ≤ level) :
    operators (budget + 1) level left tokens = .ok (left, tokens) := by
  rw [operators, bind_ok (run_peekKind _)]
  rw [nextLevel] at h
  cases hop : BinaryOp.ofKind? (kindAt tokens) with
  | none => rfl
  | some op =>
      rw [hop] at h
      dsimp only
      rw [if_pos h]
      rfl

theorem operators_step {op : BinaryOp} (h : level < op.level) :
    operators (budget + 1) level left (op.token :: tokens) =
      match exprAbove budget op.level tokens with
      | .ok (right, rest) => operators budget level (.binary op left right) rest
      | .error fault => .error fault := by
  have hkind : kindAt (op.token :: tokens) = op.kind := rfl
  rw [operators, bind_ok (run_peekKind _), hkind, BinaryOp.ofKind?_kind]
  dsimp only
  rw [if_neg (Nat.not_le.mpr h), bind_ok (run_next op.endsLine_token _), run_bind]
  rcases exprAbove budget op.level tokens with fault | ⟨right, rest⟩ <;> rfl

end Operators

/-- What reading of an expression's tokens comes to: the operators after the expression are left to
be read, with most of the budget, or the expression is refused. -/
def Recovers (text : List Token) (e : Expr) (budget : Nat) (level : Level) (rest : List Token) : Prop :=
  if e.isFaithful then
    ∃ left, budget ≤ left + text.length ∧
      exprAbove budget level (text ++ rest) = operators left level e rest
  else exprAbove budget level (text ++ rest) = .error misread

section Operand

variable {budget : Nat} {level : Level} {e : Expr} {rest : List Token} {text : List Token}

theorem exprAbove_ok (h : operand budget text = .ok (e, rest)) :
    exprAbove (budget + 1) level text = operators budget level e rest := by
  rw [exprAbove, bind_ok h]

theorem exprAbove_error {fault : Fault} (h : operand budget text = .error fault) :
    exprAbove (budget + 1) level text = .error fault := by
  rw [exprAbove, bind_error h]

/-- An operand is an expression of its own. -/
theorem recovers_of_operand (hbudget : 0 < budget) (hlength : 0 < text.length)
    (h : operand (budget - 1) (text ++ rest) =
      if e.isFaithful then .ok (e, rest) else .error misread) :
    Recovers text e budget level rest := by
  obtain ⟨fuel, rfl⟩ := Nat.exists_eq_add_of_lt hbudget
  rw [Nat.zero_add] at h ⊢
  rw [Nat.add_sub_cancel] at h
  unfold Recovers
  split
  · rename_i hfaithful
    rw [if_pos hfaithful] at h
    exact ⟨fuel, by omega, exprAbove_ok h⟩
  · rename_i hfaithful
    rw [if_neg hfaithful] at h
    exact exprAbove_error h

/-- An expression whose operators all bind more strongly is read to its end. -/
theorem Recovers.exprAbove (h : Recovers text e budget level rest) (hbudget : text.length < budget)
    (hlevel : nextLevel rest ≤ level) :
    exprAbove budget level (text ++ rest) = if e.isFaithful then .ok (e, rest) else .error misread := by
  unfold Recovers at h
  split at h
  · rename_i hfaithful
    obtain ⟨left, hleft, hread⟩ := h
    obtain ⟨fuel, rfl⟩ : ∃ fuel, left = fuel + 1 := ⟨left - 1, by omega⟩
    rw [hread, operators_stop hlevel, if_pos hfaithful]
  · rename_i hfaithful
    rw [h, if_neg hfaithful]

theorem operand_number {token : Token} {value : Expr} (hkind : token.kind.isNumber = true)
    (h : Literal.ofToken token = .ok value) :
    operand (budget + 1) (token :: rest) = .ok (value, rest) := by
  rw [operand, bind_ok (run_next (endsLine_of_isNumber hkind) rest)]
  obtain ⟨kind, literal⟩ := token
  cases kind <;> first | (dsimp only; rw [h]; rfl) | cases hkind

/-- An expression in parentheses. -/
theorem operand_paren (h : exprAbove budget .lowest (text ++ ofSymbol ')' :: rest) =
      if e.isFaithful then .ok (e, ofSymbol ')' :: rest) else .error misread) :
    operand (budget + 1) (ofSymbol '(' :: (text ++ ofSymbol ')' :: rest)) =
      if e.isFaithful then .ok (e, rest) else .error misread := by
  rw [operand, bind_ok (run_next (by rfl) _)]
  change (exprAbove budget .lowest >>= fun inner => expect .rightParen >>= fun _ => pure inner) _ = _
  split at h
  · rename_i hfaithful
    rw [if_pos hfaithful, bind_ok h, bind_ok (expect_pos (by rfl) (by rfl))]
    rfl
  · rename_i hfaithful
    rw [if_neg hfaithful, bind_error h]

theorem operand_unary {op : UnaryOp} {inner : Expr}
    (h : exprAbove budget .ofUnary text =
      if inner.isFaithful then .ok (inner, rest) else .error misread) :
    operand (budget + 1) (op.token :: text) =
      if inner.isFaithful then .ok (.unary op inner, rest) else .error misread := by
  have hread : operand (budget + 1) (op.token :: text) =
      (Reader.exprAbove budget .ofUnary >>= fun inner => pure (.unary op inner)) text := by
    rw [operand, bind_ok (run_next op.endsLine_token _)]
    cases op <;> rfl
  rw [hread]
  split at h
  · rename_i hfaithful
    rw [if_pos hfaithful, bind_ok h]
    rfl
  · rename_i hfaithful
    rw [if_neg hfaithful, bind_error h]

end Operand

section Named

variable {budget : Nat} {name : Name} {rest : List Token}

theorem named_scalar (hname : name.Legible) (hfunction : name.isFunction = false)
    (hrest : kindAt rest ≠ .leftParen) :
    named (budget + 1) name.spelling rest = .ok (.scalar name, rest) := by
  have hword : ¬(Name.ofWord name.spelling = ⟨"FN"⟩ ∧ kindAt rest = .ident) := by
    rw [Name.ofWord_spelling hname]
    rintro ⟨rfl, -⟩
    exact absurd hfunction (by decide)
  rw [named, bind_ok (run_peekKind _), if_neg hword, bind_ok (run_pure _ _)]
  dsimp only
  rw [bind_ok (accept_neg hrest), Name.ofWord_spelling hname, if_neg Bool.false_ne_true, hfunction]
  rfl

/-- A name before a parenthesis. -/
theorem named_paren {list : List Expr} {faithful : Bool} (hname : name.Legible) (inside : List Token)
    (h : arguments budget inside = if faithful then .ok (list, rest) else .error misread) :
    named (budget + 1) name.spelling (ofSymbol '(' :: inside) =
      if faithful then
        .ok (if name.isFunction || (Builtin.ofName? name.spelling).isSome then .call name list
          else .element name list, rest)
      else .error misread := by
  have hword : ¬(Name.ofWord name.spelling = ⟨"FN"⟩ ∧
      kindAt (ofSymbol '(' :: inside) = .ident) := by
    rintro ⟨-, hkind⟩
    cases hkind
  rw [named, bind_ok (run_peekKind _), if_neg hword, bind_ok (run_pure _ _)]
  dsimp only
  rw [bind_ok (accept_pos (by rfl) (by rfl)), Name.ofWord_spelling hname, if_pos rfl]
  cases faithful with
  | false =>
      rw [if_neg Bool.false_ne_true] at h ⊢
      rw [bind_error h]
  | true =>
      rw [if_pos rfl] at h ⊢
      rw [bind_ok h]
      cases name.isFunction || (Builtin.ofName? name.spelling).isSome <;> rfl

theorem operand_named (name : Name) (tokens : List Token) :
    operand (budget + 1) (name.token :: tokens) = named budget name.spelling tokens := by
  rw [operand, bind_ok (run_next (by rfl) _)]
  rfl

end Named

/-- Expressions that reading recovers wherever nothing binds more strongly behind them. -/
def Recoverable (e : Expr) : Prop :=
  ∀ {budget : Nat} {level : Level} {rest : List Token}, 4 * e.tokens.length ≤ budget →
    (∀ op left right, e = .binary op left right → level < op.level) → nextLevel rest ≤ e.level →
    kindAt rest ≠ .leftParen → Recovers e.tokens e budget level rest

section Tokens

variable {budget : Nat} {level : Level} {e : Expr} {rest : List Token}

theorem recoverable_of_operand (hlength : 0 < e.tokens.length)
    (h : ∀ {budget : Nat} {rest : List Token}, 4 * e.tokens.length ≤ budget + 1 →
      nextLevel rest ≤ e.level → kindAt rest ≠ .leftParen →
      operand budget (e.tokens ++ rest) = if e.isFaithful then .ok (e, rest) else .error misread) :
    Recoverable e := by
  intro budget level rest hbudget _ hnext hparen
  exact recovers_of_operand (by omega) hlength (h (by omega) hnext hparen)

/-- Parentheses keep an expression apart from everything around it. -/
theorem Recoverable.enclose (h : Recoverable e) (needed : Bool)
    (hbudget : 4 * (Expr.encloseTokens needed e.tokens).length ≤ budget)
    (hlevel : needed = false → ∀ op left right, e = .binary op left right → level < op.level)
    (hnext : needed = false → nextLevel rest ≤ e.level) (hparen : kindAt rest ≠ .leftParen) :
    Recovers (Expr.encloseTokens needed e.tokens) e budget level rest := by
  cases needed with
  | false => exact h hbudget (hlevel rfl) (hnext rfl) hparen
  | true =>
      have htokens : Expr.encloseTokens true e.tokens =
          ofSymbol '(' :: (e.tokens ++ [ofSymbol ')']) := rfl
      rw [htokens] at hbudget ⊢
      simp only [List.length_cons, List.length_append, List.length_nil] at hbudget
      obtain ⟨fuel, rfl⟩ : ∃ fuel, budget = fuel + 2 := ⟨budget - 2, by omega⟩
      refine recovers_of_operand (by omega) (by simp) ?_
      have hinner : Recovers e.tokens e fuel .lowest (ofSymbol ')' :: rest) := by
        refine h (by omega) (fun op _ _ _ => BinaryOp.level_pos op) ?_ (by simp [ofSymbol, Piece.symbolKind])
        exact Nat.zero_le _
      have hread := hinner.exprAbove (by omega) (Nat.zero_le _)
      have happend : ofSymbol '(' :: (e.tokens ++ [ofSymbol ')']) ++ rest =
          ofSymbol '(' :: (e.tokens ++ ofSymbol ')' :: rest) := by simp
      rw [happend]
      exact operand_paren hread

theorem recoverable_unary {op : UnaryOp} {inner : Expr} (h : Recoverable inner) :
    Recoverable (.unary op inner) := by
  refine recoverable_of_operand (Expr.length_tokens_pos _) fun {budget rest} hbudget hnext hparen => ?_
  have hlevel : (Expr.unary op inner).level = Level.ofUnary := rfl
  rw [hlevel] at hnext
  rw [Expr.tokens, List.length_cons] at hbudget
  rw [Expr.tokens, List.cons_append, Expr.isFaithful]
  obtain ⟨fuel, rfl⟩ : ∃ fuel, budget = fuel + 1 := ⟨budget - 1, by omega⟩
  have hpos := Nat.lt_of_lt_of_le inner.length_tokens_pos
    (Expr.length_encloseTokens (inner.level < Level.ofUnary) inner.tokens)
  refine operand_unary (Recovers.exprAbove (h.enclose _ (by omega) ?_ ?_ hparen) (by omega) hnext)
  · intro hneeded binary left right hinner
    rw [decide_eq_false_iff_not, hinner] at hneeded
    have hne : binary.level ≠ Level.ofUnary := by cases binary <;> decide
    exact Nat.lt_of_le_of_ne (Nat.not_lt.mp hneeded) hne.symm
  · intro hneeded
    rw [decide_eq_false_iff_not] at hneeded
    exact Nat.le_trans hnext (Nat.not_lt.mp hneeded)

theorem recoverable_binary {op : BinaryOp} {left right : Expr} (hleft : Recoverable left)
    (hright : Recoverable right) : Recoverable (.binary op left right) := by
  intro budget level rest hbudget hlevel hnext hparen
  have hop : level < op.level := hlevel op left right rfl
  have hstop : nextLevel rest ≤ op.level := hnext
  rw [Expr.tokens, List.length_append, List.length_cons] at hbudget
  rw [Expr.tokens]
  -- The left operand ends at the operator, which binds no more strongly than it does.
  have hfirst : Recovers (Expr.encloseTokens (left.level < op.level) left.tokens) left budget level
      (op.token :: (Expr.encloseTokens (right.level ≤ op.level) right.tokens ++ rest)) := by
    refine hleft.enclose _ (by omega) ?_ ?_ ?_
    · intro hneeded inner a b heq
      rw [decide_eq_false_iff_not, heq] at hneeded
      exact Nat.lt_of_lt_of_le hop (Nat.not_lt.mp hneeded)
    · intro hneeded
      rw [decide_eq_false_iff_not] at hneeded
      rw [nextLevel_token]
      exact Nat.not_lt.mp hneeded
    · rw [kindAt_cons]
      cases op <;> decide
  have happend : Expr.encloseTokens (left.level < op.level) left.tokens ++
      op.token :: Expr.encloseTokens (right.level ≤ op.level) right.tokens ++ rest =
      Expr.encloseTokens (left.level < op.level) left.tokens ++
        op.token :: (Expr.encloseTokens (right.level ≤ op.level) right.tokens ++ rest) := by simp
  unfold Recovers at hfirst ⊢
  rw [happend, List.length_append, List.length_cons]
  rw [Expr.isFaithful]
  cases hl : left.isFaithful with
  | false =>
      rw [hl, if_neg Bool.false_ne_true] at hfirst
      exact hfirst
  | true =>
      rw [hl, if_pos rfl] at hfirst
      obtain ⟨fuel, hfuel, hread⟩ := hfirst
      obtain ⟨spare, rfl⟩ : ∃ spare, fuel = spare + 1 := ⟨fuel - 1, by omega⟩
      have hsecond : Recovers (Expr.encloseTokens (right.level ≤ op.level) right.tokens) right spare
          op.level rest := by
        refine hright.enclose _ (by omega) ?_ ?_ hparen
        · intro hneeded inner a b heq
          rw [decide_eq_false_iff_not, heq] at hneeded
          exact Nat.not_le.mp hneeded
        · intro hneeded
          rw [decide_eq_false_iff_not] at hneeded
          exact Nat.le_trans hstop (Nat.le_of_lt (Nat.not_le.mp hneeded))
      have hoperand := hsecond.exprAbove (by omega) hstop
      rw [hread, operators_step hop, hoperand]
      cases hr : right.isFaithful with
      | false => rfl
      | true => exact ⟨spare, by omega, rfl⟩

theorem recoverable_word {token : Token} (htokens : e.tokens = [token])
    (h : ∀ budget rest, operand (budget + 1) (token :: rest) =
      if e.isFaithful then .ok (e, rest) else .error misread) : Recoverable e := by
  refine recoverable_of_operand (Expr.length_tokens_pos e) fun {budget rest} hbudget _ _ => ?_
  rw [htokens] at hbudget ⊢
  rw [List.length_singleton] at hbudget
  obtain ⟨fuel, rfl⟩ : ∃ fuel, budget = fuel + 1 := ⟨budget - 1, by omega⟩
  exact h fuel rest

/-- Lists of arguments that reading recovers up to their right parenthesis. An empty one is refused. -/
def ArgumentsRecoverable (list : List Expr) : Prop :=
  ∀ {budget : Nat} {rest : List Token}, 4 * (Expr.tokensAll list).length + 3 ≤ budget →
    arguments budget (Expr.tokensAll list ++ ofSymbol ')' :: rest) =
      if !list.isEmpty && Expr.areFaithful list then .ok (list, rest) else .error misread

theorem recoverable_named {name : Name} {list : List Expr} (hname : name.Legible)
    (hlist : ArgumentsRecoverable list)
    (htokens : e.tokens = name.token :: ofSymbol '(' :: (Expr.tokensAll list ++ [ofSymbol ')']))
    (hvalue : (if name.isFunction || (Builtin.ofName? name.spelling).isSome then .call name list
      else .element name list) = e)
    (hfaithful : e.isFaithful = (!list.isEmpty && Expr.areFaithful list)) : Recoverable e := by
  refine recoverable_of_operand (Expr.length_tokens_pos e) fun {budget rest} hbudget _ _ => ?_
  rw [htokens] at hbudget ⊢
  simp only [List.length_cons, List.length_append, List.length_nil] at hbudget
  obtain ⟨fuel, rfl⟩ : ∃ fuel, budget = fuel + 2 := ⟨budget - 2, by omega⟩
  have happend : name.token :: ofSymbol '(' :: (Expr.tokensAll list ++ [ofSymbol ')']) ++ rest =
      name.token :: ofSymbol '(' :: (Expr.tokensAll list ++ ofSymbol ')' :: rest) := by simp
  rw [happend, operand_named, named_paren hname _ (hlist (by omega)), hvalue, hfaithful]

theorem arguments_nil : ArgumentsRecoverable [] := by
  intro budget rest hbudget
  obtain ⟨fuel, rfl⟩ : ∃ fuel, budget = fuel + 3 := ⟨budget - 3, by omega⟩
  rfl

theorem Recoverable.arguments_single (h : Recoverable e) : ArgumentsRecoverable [e] := by
  intro budget rest hbudget
  rw [Expr.tokensAll] at hbudget ⊢
  obtain ⟨fuel, rfl⟩ : ∃ fuel, budget = fuel + 1 := ⟨budget - 1, by omega⟩
  have hinner : Recovers e.tokens e fuel .lowest (ofSymbol ')' :: rest) :=
    h (by omega) (fun op _ _ _ => BinaryOp.level_pos op) (Nat.zero_le _)
      (by simp [ofSymbol, Piece.symbolKind])
  have hread := hinner.exprAbove (by omega) (Nat.zero_le _)
  rw [arguments]
  cases hfaithful : e.isFaithful with
  | false =>
      rw [hfaithful, if_neg Bool.false_ne_true] at hread
      rw [bind_error hread, Expr.areFaithful, hfaithful]
      rfl
  | true =>
      rw [hfaithful, if_pos rfl] at hread
      rw [bind_ok hread, bind_ok (run_next (by rfl) _), Expr.areFaithful, hfaithful]
      rfl

theorem Recoverable.arguments_cons {list : List Expr} (h : Recoverable e) (hne : list ≠ [])
    (hlist : ArgumentsRecoverable list) : ArgumentsRecoverable (e :: list) := by
  intro budget rest hbudget
  have htokens : Expr.tokensAll (e :: list) = e.tokens ++ ofSymbol ',' :: Expr.tokensAll list := by
    cases list with
    | nil => exact absurd rfl hne
    | cons next more => rw [Expr.tokensAll]; simp
  have hempty : list.isEmpty = false := List.isEmpty_eq_false_iff.mpr hne
  rw [htokens] at hbudget ⊢
  rw [List.length_append, List.length_cons] at hbudget
  obtain ⟨fuel, rfl⟩ : ∃ fuel, budget = fuel + 1 := ⟨budget - 1, by omega⟩
  have hinner : Recovers e.tokens e fuel .lowest
      (ofSymbol ',' :: (Expr.tokensAll list ++ ofSymbol ')' :: rest)) :=
    h (by omega) (fun op _ _ _ => BinaryOp.level_pos op) (Nat.zero_le _)
      (by simp [ofSymbol, Piece.symbolKind])
  have hread := hinner.exprAbove (by omega) (Nat.zero_le _)
  have hpos := e.length_tokens_pos
  have hothers : arguments fuel (Expr.tokensAll list ++ ofSymbol ')' :: rest) = _ := hlist (by omega)
  rw [hempty] at hothers
  rw [List.append_assoc, List.cons_append, arguments, Expr.areFaithful]
  cases hfaithful : e.isFaithful with
  | false =>
      rw [hfaithful, if_neg Bool.false_ne_true] at hread
      rw [bind_error hread]
      rfl
  | true =>
      rw [hfaithful, if_pos rfl] at hread
      rw [bind_ok hread, bind_ok (run_next (by rfl) _)]
      change (arguments fuel >>= fun others => pure (e :: others)) _ = _
      cases hall : Expr.areFaithful list with
      | false =>
          rw [hall] at hothers
          rw [bind_error hothers]
          rfl
      | true =>
          rw [hall] at hothers
          rw [bind_ok hothers]
          rfl

end Tokens

mutual

/-- **Reading recovers every expression from its tokens, or refuses it.** -/
theorem recoverable : ∀ {e : Expr}, e.Legible → Recoverable e
  | .int value, _ =>
      recoverable_word rfl fun _ _ => operand_number (stands_int value).kind (stands_int value).ofToken
  | .single value, h => by
      rw [Expr.Legible] at h
      exact recoverable_word rfl fun _ _ => operand_number (stands_single h).kind (stands_single h).ofToken
  | .double value, h => by
      rw [Expr.Legible] at h
      exact recoverable_word rfl fun _ _ => operand_number (stands_double h).kind (stands_double h).ofToken
  | .text value, _ => recoverable_word rfl fun _ _ => rfl
  | .truth true, _ => recoverable_word rfl fun _ _ => rfl
  | .truth false, _ => recoverable_word rfl fun _ _ => rfl
  | .faultLine, _ => recoverable_word rfl fun _ _ => rfl
  | .faultCode, _ => recoverable_word rfl fun _ _ => rfl
  | .cursorRow, _ => recoverable_word rfl fun _ _ => rfl
  | .scalar name, h => by
      rw [Expr.Legible] at h
      refine recoverable_of_operand (Expr.length_tokens_pos _) fun {budget rest} hbudget _ hparen => ?_
      rw [Expr.tokens] at hbudget ⊢
      obtain ⟨fuel, rfl⟩ : ∃ fuel, budget = fuel + 2 := ⟨budget - 2, by simp at hbudget; omega⟩
      exact (operand_named name rest).trans (named_scalar h.1 h.2 hparen)
  | .element name subscripts, h => by
      rw [Expr.Legible] at h
      obtain ⟨hname, hkind, hne, hall⟩ := h
      refine recoverable_named hname (arguments_recoverable hall) rfl (by rw [hkind]; rfl) ?_
      rw [Expr.isFaithful, List.isEmpty_eq_false_iff.mpr hne]
      rfl
  | .call name list, h => by
      rw [Expr.Legible] at h
      obtain ⟨hname, hkind, hall⟩ := h
      exact recoverable_named hname (arguments_recoverable hall) rfl (by rw [hkind]; rfl) rfl
  | .unary op inner, h => by
      rw [Expr.Legible] at h
      exact recoverable_unary (recoverable h)
  | .binary op left right, h => by
      rw [Expr.Legible] at h
      exact recoverable_binary (recoverable h.1) (recoverable h.2)

theorem arguments_recoverable : ∀ {es : List Expr}, Expr.LegibleAll es → ArgumentsRecoverable es
  | [], _ => arguments_nil
  | [e], h => by
      rw [Expr.LegibleAll] at h
      exact Recoverable.arguments_single (recoverable h.1)
  | e :: next :: rest, h => by
      rw [Expr.LegibleAll] at h
      exact Recoverable.arguments_cons (recoverable h.1) (by simp) (arguments_recoverable h.2)

end

section Whole

variable {e : Expr} {rest : List Token}

/-- Whether an expression ends before the tokens. -/
def Stops (tokens : List Token) : Prop :=
  BinaryOp.ofKind? (kindAt tokens) = none ∧ kindAt tokens ≠ .leftParen

theorem Stops.nextLevel (h : Stops rest) : nextLevel rest = Level.lowest := by
  rw [Reader.nextLevel, h.1]

theorem Ended.stops (h : Ended rest) : Stops rest := by
  refine ⟨?_, h.ne rfl (by simp)⟩
  cases hop : BinaryOp.ofKind? (kindAt rest) with
  | none => rfl
  | some op =>
      rcases h with h | h
      · cases hkind : kindAt rest <;> simp_all [Kind.isTerminator, BinaryOp.ofKind?]
      · rw [h] at hop
        cases hop

theorem stops_cons {token : Token} (hop : BinaryOp.ofKind? token.kind = none)
    (hparen : token.kind ≠ .leftParen) : Stops (token :: rest) := ⟨hop, hparen⟩

theorem expr_tokens (h : e.Legible) (hrest : Stops rest) :
    expr (e.tokens ++ rest) = if e.isFaithful then .ok (e, rest) else .error misread := by
  have hleft := leftInLine_append (Expr.spells_tokens h).inLine_tokens rest
  have hnext := hrest.nextLevel
  have hread : Recovers e.tokens e (budgetFor (leftInLine (e.tokens ++ rest))) .lowest rest := by
    refine recoverable h (by rw [budgetFor]; omega) (fun op _ _ _ => BinaryOp.level_pos op) ?_ hrest.2
    rw [hnext]
    exact Nat.zero_le _
  rw [expr, run_sized]
  exact hread.exprAbove (by rw [budgetFor]; omega) (Nat.le_of_eq hnext)

end Whole

end Reader

namespace Variable

/-- The tokens of a variable's listing. -/
def tokens (target : Variable) : List Token := target.toExpr.tokens

/-- What a variable read from a text is like. It may have any name. -/
def Legible : Variable → Prop
  | scalar name => name.Legible
  | element name subscripts => name.Legible ∧ subscripts ≠ [] ∧ Expr.LegibleAll subscripts

theorem spells_tokens {target : Variable} (h : target.Legible) :
    Spells target.listing.toList target.tokens := by
  cases target with
  | scalar name =>
      rw [listing, tokens, toExpr, Expr.listing, Expr.tokens]
      exact Name.spells_token h
  | element name subscripts =>
      rw [listing, tokens, toExpr, Expr.listing, Expr.tokens]
      exact Expr.spells_parenthesized h.1 (Expr.spells_tokensAll h.2.2)

theorem target_tokens {target : Variable} {rest : List Token} (h : target.Legible)
    (hrest : Reader.kindAt rest ≠ .leftParen) :
    Reader.target (target.tokens ++ rest) =
      if target.toExpr.isFaithful then .ok (target, rest) else .error Reader.misread := by
  cases target with
  | scalar name =>
      have hfaithful : (Variable.scalar name).toExpr.isFaithful = true := by
        simp [toExpr, Expr.isFaithful]
      rw [hfaithful, if_pos rfl, tokens, toExpr, Expr.tokens, List.singleton_append, Reader.target,
        Reader.bind_ok (Reader.run_name rfl), Reader.bind_ok (Reader.accept_neg hrest)]
      change Except.ok (Variable.scalar (Name.ofWord name.spelling), rest) = _
      rw [Name.ofWord_spelling h]
  | element name subscripts =>
      have hempty : subscripts.isEmpty = false := List.isEmpty_eq_false_iff.mpr h.2.1
      have happend : name.token :: ofSymbol '(' :: (Expr.tokensAll subscripts ++ [ofSymbol ')']) ++ rest =
          name.token :: ofSymbol '(' :: (Expr.tokensAll subscripts ++ ofSymbol ')' :: rest) := by simp
      have hread : Reader.exprList (Expr.tokensAll subscripts ++ ofSymbol ')' :: rest) =
          if !subscripts.isEmpty && Expr.areFaithful subscripts then .ok (subscripts, rest)
          else .error Reader.misread := by
        have hleft := Reader.leftInLine_append (Expr.spells_tokensAll h.2.2).inLine_tokens (ofSymbol ')' :: rest)
        rw [Reader.exprList, Reader.run_sized]
        refine Reader.arguments_recoverable h.2.2 ?_
        rw [Reader.budgetFor]
        omega
      rw [hempty] at hread
      rw [tokens, toExpr, Expr.tokens, Expr.isFaithful, happend, Reader.target,
        Reader.bind_ok (Reader.run_name rfl), Reader.bind_ok (Reader.accept_pos (by rfl) (by rfl)), if_pos rfl]
      cases hfaithful : Expr.areFaithful subscripts with
      | false =>
          rw [hfaithful] at hread
          rw [Reader.bind_error hread]
          rfl
      | true =>
          rw [hfaithful] at hread
          rw [Reader.bind_ok hread]
          change Except.ok (Variable.element (Name.ofWord name.spelling) subscripts, rest) = _
          rw [Name.ofWord_spelling h.1]
          rfl

end Variable

end LineBasic
