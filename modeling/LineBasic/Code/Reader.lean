import LineBasic.Code.Builtin
import LineBasic.Code.Literal
import LineBasic.Code.Statement

/-! Reading of expressions and statements off the tokens of a source. A reader has its place in the one
list of all tokens, which is given by the tokens that are still to come, and it keeps its place where it
fails. It takes no token that ends a line: there it sees that token again and again. Readers that call
themselves take a budget of nested calls, which the public ones compute from the number of tokens that
are left in the line. -/

namespace LineBasic

/-- Reads a value off the tokens to come, or fails. Either way it tells which tokens are left. -/
structure Reader (α : Type) where
  outcome : List Token → Except Fault α × List Token

namespace Reader

instance : Monad Reader where
  pure value := ⟨fun tokens => (.ok value, tokens)⟩
  bind reader next := ⟨fun tokens =>
    match reader.outcome tokens with
    | (.ok value, rest) => (next value).outcome rest
    | (.error fault, rest) => (.error fault, rest)⟩

instance : MonadExceptOf Fault Reader where
  throw fault := ⟨fun tokens => (.error fault, tokens)⟩
  tryCatch reader handle := ⟨fun tokens =>
    match reader.outcome tokens with
    | (.ok value, rest) => (.ok value, rest)
    | (.error fault, rest) => (handle fault).outcome rest⟩

/-- What does not look at the tokens. -/
instance : MonadLift (Except Fault) Reader where
  monadLift result := ⟨fun tokens => (result, tokens)⟩

/-- Fails with a syntax error. -/
def refuse {α : Type} (detail : String) : Reader α := throw (.of .syntaxError detail)

/-- Fails because a budget was too small, which a public reader's budget never is. -/
def exhausted {α : Type} : Reader α := throw (.of .internal)

/-- The kind of the first of the tokens. Behind the last token there is the end of the source. -/
def kindAt (tokens : List Token) : Token.Kind := (tokens.head?.getD Token.endOfInput).kind

/-- The kind of the next token. -/
def peekKind : Reader Token.Kind := ⟨fun tokens => (.ok (kindAt tokens), tokens)⟩

/-- The kind of the token after the next. -/
def peekSecondKind : Reader Token.Kind := ⟨fun tokens => (.ok (kindAt tokens.tail), tokens)⟩

/-- The next token, which is taken unless it ends the line. -/
def next : Reader Token := ⟨fun tokens =>
  (.ok (tokens.head?.getD Token.endOfInput), if (kindAt tokens).endsLine then tokens else tokens.tail)⟩

/-- The number of tokens before the end of the line. -/
def leftInLine (tokens : List Token) : Nat :=
  (tokens.takeWhile fun token => !token.kind.endsLine).length

/-- The number of tokens that are left in the line. -/
def tokensLeft : Reader Nat := ⟨fun tokens => (.ok (leftInLine tokens), tokens)⟩

/-- Takes the next token if it has the kind, and tells whether it did. -/
def accept (kind : Token.Kind) : Reader Bool := do
  if (← peekKind) = kind then
    let _ ← next
    return true
  else return false

/-- The complaint about a token that is not of the kind asked for. -/
def expectation : Token.Kind → String
  | .ident => "EXPECTED IDENTIFIER"
  | .leftParen => "EXPECTED LEFT PARENTHESIS"
  | .rightParen => "EXPECTED RIGHT PARENTHESIS"
  | .comma => "EXPECTED COMMA"
  | .eq => "EXPECTED EQUALS SIGN"
  | .keyword .TO => "EXPECTED TO"
  | .keyword .GOTO => "EXPECTED GOTO"
  | _ => "UNEXPECTED TOKEN"

/-- Takes the next token, which has to be of the kind. -/
def expect (kind : Token.Kind) : Reader Unit := do
  if (← next).kind = kind then return () else refuse (expectation kind)

/-- Whether a statement may end here: at a colon, at ELSE or where the line ends. -/
def atEnd : Reader Bool := do
  let kind ← peekKind
  return kind.isTerminator || kind == .keyword .ELSE

/-- Whether a colon stands here and ELSE after it. -/
def atColonElse : Reader Bool := do
  if (← peekKind) = .colon then return (← peekSecondKind) == .keyword .ELSE else return false

/-- Items separated by commas, at least one. -/
def commaList {α : Type} (item : Reader α) : Nat → Reader (List α)
  | 0 => exhausted
  | budget + 1 => do
      let first ← item
      if ← accept .comma then return first :: (← commaList item budget)
      else return [first]

/-- Items separated by commas, for a reader of items that needs no budget. -/
def listOf {α : Type} (item : Reader α) : Reader (List α) := do
  commaList item ((← tokensLeft) + 1)

/-- A name. -/
def name : Reader Name := do
  let token ← next
  if token.kind = .ident then return .ofWord token.literal
  else refuse "EXPECTED IDENTIFIER"

/-- A reference to a line. -/
def lineRef : Reader Nat := do
  let token ← next
  if token.kind.isNumber then Literal.lineNumber token.literal
  else refuse "EXPECTED LINE NUMBER"

/-- A reference to a line, if a number stands here. -/
def lineRef? : Reader (Option Nat) := do
  if (← peekKind).isNumber then return some (← lineRef) else return none

end Reader

/-- The binary operator that a kind of token stands for. -/
def BinaryOp.ofKind? : Token.Kind → Option BinaryOp
  | .keyword .IMP => some imp
  | .keyword .EQV => some eqv
  | .keyword .XOR => some xor
  | .keyword .OR => some or
  | .keyword .AND => some and
  | .eq => some equal
  | .ne => some notEqual
  | .lt => some less
  | .le => some lessEqual
  | .gt => some greater
  | .ge => some greaterEqual
  | .plus => some add
  | .minus => some subtract
  | .keyword .MOD => some modulus
  | .backslash => some divideInt
  | .asterisk => some multiply
  | .slash => some divide
  | .caret => some power
  | _ => none

namespace Reader

/-- Whether an illegal token is a string that its line does not close. -/
def isOpenString (token : Token) : Bool :=
  token.kind == .illegal && token.literal.toList.head? == some '"'

mutual

/-- An expression whose operators bind more strongly than the level. -/
def exprAbove : Nat → Level → Reader Expr
  | 0, _ => exhausted
  | budget + 1, level => do operators budget level (← operand budget)

/-- The operators after an operand, as long as they bind more strongly than the level. -/
def operators : Nat → Level → Expr → Reader Expr
  | 0, _, _ => exhausted
  | budget + 1, level, left => do
      match BinaryOp.ofKind? (← peekKind) with
      | some op =>
          if op.level ≤ level then return left
          else
            let _ ← next
            let right ← exprAbove budget op.level
            operators budget level (.binary op left right)
      | none => return left

/-- A constant, a variable, a call, or an expression after a unary operator or in parentheses. -/
def operand : Nat → Reader Expr
  | 0 => exhausted
  | budget + 1 => do
      let token ← next
      match token.kind with
      | .minus => return .unary .negate (← exprAbove budget .ofUnary)
      | .plus => return .unary .positive (← exprAbove budget .ofUnary)
      | .keyword .NOT => return .unary .not (← exprAbove budget .ofUnary)
      | .leftParen =>
          let inner ← exprAbove budget .lowest
          expect .rightParen
          return inner
      | .int | .fixed | .float | .double | .hex | .octal => Literal.ofToken token
      | .text => return .text token.literal
      | .ident => named budget token.literal
      | .keyword .ERL => return .faultLine
      | .keyword .ERR => return .faultCode
      | .keyword .CSRLIN => return .cursorRow
      | .keyword .TRUE => return .truth true
      | .keyword .FALSE => return .truth false
      | .eol | .eof | .colon | .keyword .ELSE =>
          throw (.of .missingOperand "EXPECTED EXPRESSION")
      | _ =>
          if isOpenString token then refuse "UNTERMINATED STRING"
          else refuse "EXPECTED EXPRESSION"

/-- An expression that starts with a name. Before a parenthesis it is that of a function, built in or
defined by the program, or of an array. The letters FN may stand apart from the rest of a name. -/
def named : Nat → String → Reader Expr
  | 0, _ => exhausted
  | budget + 1, word => do
      let name ←
        if Name.ofWord word = ⟨"FN"⟩ ∧ (← peekKind) = .ident then
          pure (Name.ofWord ("FN" ++ (← next).literal))
        else pure (Name.ofWord word)
      if ← accept .leftParen then
        let list ← arguments budget
        if name.isFunction || (Builtin.ofName? name.spelling).isSome then return .call name list
        else return .element name list
      else if name.isFunction then return .call name []
      else return .scalar name

/-- Expressions separated by commas and ended by a right parenthesis. -/
def arguments : Nat → Reader (List Expr)
  | 0 => exhausted
  | budget + 1 => do
      let first ← exprAbove budget .lowest
      match (← next).kind with
      | .rightParen => return [first]
      | .comma => return first :: (← arguments budget)
      | _ => refuse "EXPECTED END OR SEPARATOR"

end

/-- A budget of nested calls that suffices for so many tokens: at most four for each. -/
def budgetFor (count : Nat) : Nat := 4 * count + 4

/-- An expression. -/
def expr : Reader Expr := do exprAbove (budgetFor (← tokensLeft)) .lowest

/-- Expressions in parentheses whose left one has been taken. -/
def exprList : Reader (List Expr) := do arguments (budgetFor (← tokensLeft))

/-- A scalar or an element of an array. -/
def target : Reader Variable := do
  let name ← name
  if ← accept .leftParen then return .element name (← exprList)
  else return .scalar name

/-- The rest of a list of positional arguments, where any position may be left empty but the last. -/
def positionsFrom : Nat → Reader (List (Option Expr))
  | 0 => exhausted
  | budget + 1 => do
      let first ← if (← peekKind) = .comma then pure none else some <$> expr
      if ← accept .comma then
        if ← atEnd then refuse "TRAILING COMMA"
        else return first :: (← positionsFrom budget)
      else return [first]

/-- Positional arguments up to the end of the statement. -/
def positions : Reader (List (Option Expr)) := do
  if ← atEnd then return [] else positionsFrom ((← tokensLeft) + 1)

end Reader

end LineBasic
