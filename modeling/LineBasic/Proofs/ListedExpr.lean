import LineBasic.Code.Reader
import LineBasic.Proofs.Constants

/-! The tokens that an expression is listed as. What an expression read from a text can hold is said
once, as a condition on the tree; under it the listing spells the tokens. -/

namespace LineBasic

open Token

namespace BinaryOp

/-- The kind of an operator's token. -/
def kind : BinaryOp → Kind
  | imp => .keyword .IMP
  | eqv => .keyword .EQV
  | xor => .keyword .XOR
  | or => .keyword .OR
  | and => .keyword .AND
  | equal => .eq
  | notEqual => .ne
  | less => .lt
  | lessEqual => .le
  | greater => .gt
  | greaterEqual => .ge
  | add => .plus
  | subtract => .minus
  | modulus => .keyword .MOD
  | divideInt => .backslash
  | multiply => .asterisk
  | divide => .slash
  | power => .caret

def token (op : BinaryOp) : Token := ⟨op.kind, op.spelling⟩

theorem ofKind?_kind (op : BinaryOp) : ofKind? op.kind = some op := by cases op <;> rfl

theorem spells_token (op : BinaryOp) : Spells op.spelling.toList [op.token] := by
  have hlone : ∀ c, isLone c = true → Spells [c] [ofSymbol c] := fun c hc => Spells.nil.lone hc
  have hsymbol : ∀ (c : Char) (rest : List Char) (kind : Kind), Starts c → kind ≠ .eol →
      (∀ tail, Breaks tail → Piece.ofStatement c (rest ++ tail) = Piece.symbol c (rest ++ tail)) →
      Piece.symbol c rest = Piece.ofLexeme kind (c :: rest) [] →
      Spells (c :: rest) [⟨kind, String.ofList (c :: rest)⟩] := by
    intro c rest kind hc hkind hpiece hwhole
    refine spells_of_ofStatement hc hkind fun tail htail => ?_
    rw [hpiece tail htail, Piece.symbol_append htail, hwhole]
    rfl
  cases op with
  | imp => exact spells_keyword .IMP rfl
  | eqv => exact spells_keyword .EQV rfl
  | xor => exact spells_keyword .XOR rfl
  | or => exact spells_keyword .OR rfl
  | and => exact spells_keyword .AND rfl
  | modulus => exact spells_keyword .MOD rfl
  | add => exact hlone '+' rfl
  | subtract => exact hlone '-' rfl
  | divideInt => exact hlone '\\' rfl
  | multiply => exact hlone '*' rfl
  | divide => exact hlone '/' rfl
  | power => exact hlone '^' rfl
  | equal =>
      exact hsymbol '=' [] .eq ⟨by decide, by decide, by decide⟩ (by decide)
        (fun _ _ => rfl) rfl
  | notEqual =>
      exact hsymbol '<' ['>'] .ne ⟨by decide, by decide, by decide⟩ (by decide)
        (fun _ _ => rfl) rfl
  | less =>
      exact hsymbol '<' [] .lt ⟨by decide, by decide, by decide⟩ (by decide)
        (fun _ _ => rfl) rfl
  | lessEqual =>
      exact hsymbol '<' ['='] .le ⟨by decide, by decide, by decide⟩ (by decide)
        (fun _ _ => rfl) rfl
  | greater =>
      exact hsymbol '>' [] .gt ⟨by decide, by decide, by decide⟩ (by decide)
        (fun _ _ => rfl) rfl
  | greaterEqual =>
      exact hsymbol '>' ['='] .ge ⟨by decide, by decide, by decide⟩ (by decide)
        (fun _ _ => rfl) rfl

end BinaryOp

namespace UnaryOp

def token : UnaryOp → Token
  | negate => ofSymbol '-'
  | positive => ofSymbol '+'
  | not => ofKeyword .NOT

theorem spells_token (op : UnaryOp) {text : List Char} {tokens : List Token}
    (h : Spells text tokens) : Spells (op.spelling.toList ++ text) (op.token :: tokens) := by
  cases op with
  | negate => exact h.lone rfl
  | positive => exact h.lone rfl
  | not => exact (spells_keyword .NOT rfl).append_space h

end UnaryOp

/-- The token of a name. -/
def Name.token (name : Name) : Token := ⟨.ident, name.spelling⟩

/-- A name as texts have them. -/
def Name.Legible (name : Name) : Prop := IsName name.spelling.toList

theorem Name.spells_token {name : Name} (h : name.Legible) :
    Spells name.spelling.toList [name.token] := by
  have hspells := spells_name h
  rwa [String.ofList_toList] at hspells

theorem Name.ofWord_spelling {name : Name} (h : name.Legible) : Name.ofWord name.spelling = name := by
  have hword := IsName.ofWord h
  rwa [String.ofList_toList] at hword

/-- A text that can stand in quotes. -/
def Quotable (text : String) : Prop := ∀ c ∈ text.toList, c ≠ '"' ∧ c ≠ '\n'

namespace Expr

/-- Tokens in parentheses, where these are written. -/
def encloseTokens (needed : Bool) (tokens : List Token) : List Token :=
  if needed then ofSymbol '(' :: (tokens ++ [ofSymbol ')']) else tokens

mutual

/-- The tokens of an expression's listing. -/
def tokens : Expr → List Token
  | int value => [intToken value]
  | single value => [ofNumber (singleLiteral value).toList]
  | double value => [ofNumber (Number.plainDouble value ++ "#").toList]
  | text value => [⟨.text, value⟩]
  | truth value => [ofKeyword (if value then .TRUE else .FALSE)]
  | scalar name => [name.token]
  | element name subscripts =>
      name.token :: ofSymbol '(' :: (tokensAll subscripts ++ [ofSymbol ')'])
  | call name arguments =>
      name.token :: ofSymbol '(' :: (tokensAll arguments ++ [ofSymbol ')'])
  | unary op operand => op.token :: encloseTokens (operand.level < Level.ofUnary) operand.tokens
  | binary op left right =>
      encloseTokens (left.level < op.level) left.tokens ++
        op.token :: encloseTokens (right.level ≤ op.level) right.tokens
  | faultLine => [ofKeyword .ERL]
  | faultCode => [ofKeyword .ERR]
  | cursorRow => [ofKeyword .CSRLIN]

def tokensAll : List Expr → List Token
  | [] => []
  | [expr] => expr.tokens
  | expr :: rest => expr.tokens ++ ofSymbol ',' :: tokensAll rest

end

mutual

/-- What an expression read from a text is like. A name before a parenthesis is that of a function or
of an array; a name that stands alone is no function's, unless it is called without arguments. -/
def Legible : Expr → Prop
  | single value => IsSingle value
  | double value => IsDouble value
  | text value => Quotable value
  | scalar name => name.Legible ∧ name.isFunction = false
  | element name subscripts =>
      name.Legible ∧ (name.isFunction || (Builtin.ofName? name.spelling).isSome) = false ∧
        subscripts ≠ [] ∧ LegibleAll subscripts
  | call name arguments =>
      name.Legible ∧ (name.isFunction || (Builtin.ofName? name.spelling).isSome) = true ∧
        LegibleAll arguments
  | unary _ operand => operand.Legible
  | binary _ left right => left.Legible ∧ right.Legible
  | _ => True

def LegibleAll : List Expr → Prop
  | [] => True
  | expr :: rest => expr.Legible ∧ LegibleAll rest

end

theorem spells_enclose {text : String} {tokens : List Token} (needed : Bool)
    (h : Spells text.toList tokens) :
    Spells (enclose needed text).toList (encloseTokens needed tokens) := by
  cases needed with
  | false => exact h
  | true =>
      have htext : (enclose true text).toList = '(' :: (text.toList ++ [')']) := by
        simp [enclose]
      rw [htext]
      exact (h.append (Spells.nil.lone (c := ')') rfl) (breaks_cons (by decide))).lone rfl

theorem spells_parenthesized {name : Name} {text : String} {tokens : List Token} (hname : name.Legible)
    (h : Spells text.toList tokens) :
    Spells (name.spelling ++ "(" ++ text ++ ")").toList
      (name.token :: ofSymbol '(' :: (tokens ++ [ofSymbol ')'])) := by
  have htext : (name.spelling ++ "(" ++ text ++ ")").toList =
      name.spelling.toList ++ '(' :: (text.toList ++ [')']) := by
    simp
  rw [htext]
  exact (Name.spells_token hname).append
    ((h.append (Spells.nil.lone (c := ')') rfl) (breaks_cons (by decide))).lone rfl)
    (breaks_cons (by decide))

mutual

/-- **The listing of an expression spells its tokens.** -/
theorem spells_tokens : ∀ {e : Expr}, e.Legible → Spells e.listing.toList e.tokens
  | int value, _ => by
      rw [listing, tokens]
      exact (stands_int value).spells
  | single value, h => by
      rw [Legible] at h
      rw [listing, tokens]
      exact (stands_single h).spells
  | double value, h => by
      rw [Legible] at h
      rw [listing, tokens]
      exact (stands_double h).spells
  | text value, h => by
      rw [Legible] at h
      have hspells := spells_quoted h
      rw [String.ofList_toList] at hspells
      have htext : ("\"" ++ value ++ "\"").toList = '"' :: (value.toList ++ ['"']) := by simp
      rw [listing, tokens, htext]
      exact hspells
  | truth true, _ => by
      rw [listing, tokens]
      exact spells_keyword .TRUE rfl
  | truth false, _ => by
      rw [listing, tokens]
      exact spells_keyword .FALSE rfl
  | scalar name, h => by
      rw [Legible] at h
      rw [listing, tokens]
      exact Name.spells_token h.1
  | element name subscripts, h => by
      rw [Legible] at h
      rw [listing, tokens]
      exact spells_parenthesized h.1 (spells_tokensAll h.2.2.2)
  | call name arguments, h => by
      rw [Legible] at h
      rw [listing, tokens]
      exact spells_parenthesized h.1 (spells_tokensAll h.2.2)
  | unary op operand, h => by
      rw [Legible] at h
      rw [listing, tokens, String.toList_append]
      exact op.spells_token (spells_enclose _ (spells_tokens h))
  | binary op left right, h => by
      rw [Legible] at h
      have htext : ∀ l r : String, (l ++ " " ++ op.spelling ++ " " ++ r).toList =
          l.toList ++ ' ' :: (op.spelling.toList ++ ' ' :: r.toList) := by simp
      rw [listing, tokens, htext]
      exact (spells_enclose _ (spells_tokens h.1)).append_space
        (op.spells_token.append_space (spells_enclose _ (spells_tokens h.2)))
  | faultLine, _ => by
      rw [listing, tokens]
      exact spells_keyword .ERL rfl
  | faultCode, _ => by
      rw [listing, tokens]
      exact spells_keyword .ERR rfl
  | cursorRow, _ => by
      rw [listing, tokens]
      exact spells_keyword .CSRLIN rfl

theorem spells_tokensAll : ∀ {es : List Expr}, LegibleAll es →
    Spells (listingAll es).toList (tokensAll es)
  | [], _ => by
      rw [listingAll, tokensAll]
      exact Spells.nil
  | [e], h => by
      rw [LegibleAll] at h
      rw [listingAll, tokensAll]
      exact spells_tokens h.1
  | e :: next :: rest, h => by
      rw [LegibleAll] at h
      have htext : ∀ l r : String, (l ++ ", " ++ r).toList = l.toList ++ ',' :: ' ' :: r.toList := by
        simp
      rw [listingAll, tokensAll, htext]
      · exact (spells_tokens h.1).append ((spells_tokensAll h.2).space.lone rfl)
          (breaks_cons (by decide))
      · simp
      · simp

end

end Expr

end LineBasic
