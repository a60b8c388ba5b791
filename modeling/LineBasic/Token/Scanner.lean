import LineBasic.Number.Decimal
import LineBasic.Token.Basic

/-! Scanning of source text. The scanner turns any text into tokens and rejects nothing: what is no
token becomes an illegal one. Reserved words end as soon as they are spelled, so that `FORI=1TO10`
reads as it does with blanks; remarks and the items of a DATA statement are taken verbatim. -/

namespace LineBasic.Token

/-- The blanks between tokens: space, tab and carriage return. -/
def isSpace (c : Char) : Bool := c == ' ' || c == '\t' || c == '\r'

/-- The character that ends a saved listing. -/
def endMark : Char := Char.ofNat 0x1A

/-- The mark that starts a remark without the reserved word. -/
def remarkMark : Char := Char.ofNat 39

/-- The characters that end a name and give it a type. -/
def isSigil (c : Char) : Bool := c == '$' || c == '%' || c == '!' || c == '#'

def isOctalDigit (c : Char) : Bool := '0' ≤ c && c ≤ '7'

def isHexDigit (c : Char) : Bool :=
  c.isDigit || ('A' ≤ c && c ≤ 'F') || ('a' ≤ c && c ≤ 'f')

/-- What stands at the scanner's position. -/
inductive Mode where
  | statement
  | remark
  | data
  deriving Repr, DecidableEq

/-- The kind of a numeric constant, by its sigil, exponent mark and size. -/
def numberKind (literal : List Char) : Kind :=
  if !literal.any Char.isDigit then .illegal
  else if literal.getLast? = some '%' then .int
  else if literal.getLast? = some '!' then .float
  else if literal.getLast? = some '#' then .double
  else if literal.any fun c => c.toUpper == 'D' then .double
  else if literal.any fun c => c.toUpper == 'E' then .float
  else if literal.contains '.' then .fixed
  else if (Number.int16? literal).isSome then .int
  else if (literal.dropWhile (· == '0')).length > 7 then .double
  else .fixed

/-- Splits off an exponent: `E` or `D`, an optional sign and any digits. -/
def spanExponent : List Char → List Char × List Char
  | mark :: rest =>
      if mark.toUpper == 'E' || mark.toUpper == 'D' then
        match rest with
        | sign :: digits =>
            if sign == '+' || sign == '-' then
              (mark :: sign :: digits.takeWhile Char.isDigit, digits.dropWhile Char.isDigit)
            else (mark :: rest.takeWhile Char.isDigit, rest.dropWhile Char.isDigit)
        | [] => ([mark], [])
      else ([], mark :: rest)
  | [] => ([], [])

/-- Splits off the sigil of a numeric constant. -/
def spanNumberSigil : List Char → List Char × List Char
  | c :: rest => if c == '!' || c == '#' || c == '%' then ([c], rest) else ([], c :: rest)
  | [] => ([], [])

/-- Splits off a numeric constant. An exponent needs a digit before it. -/
def spanNumber (text : List Char) : List Char × List Char :=
  let (mantissa, afterMantissa) := Number.spanMantissa text
  let (exponent, afterExponent) :=
    if mantissa.any Char.isDigit then spanExponent afterMantissa else ([], afterMantissa)
  let (sigil, rest) := spanNumberSigil afterExponent
  (mantissa ++ exponent ++ sigil, rest)

/-- A token read from the text, the text after it, and the mode the scanner goes on in. -/
structure Piece where
  token : Token
  rest : List Char
  mode : Mode
  deriving Repr, DecidableEq

namespace Piece

/-- A piece whose token is the text it was read from. -/
def ofLexeme (kind : Kind) (lexeme rest : List Char) : Piece :=
  ⟨⟨kind, String.ofList lexeme⟩, rest, .statement⟩

/-- A numeric constant. -/
def number (text : List Char) : Piece :=
  let (literal, rest) := spanNumber text
  ofLexeme (numberKind literal) literal rest

/-- A hexadecimal or octal constant, read after its ampersand. -/
def radix (text : List Char) : Piece :=
  match text with
  | mark :: digits =>
      if mark.toUpper == 'H' then
        let lexeme := digits.takeWhile isHexDigit
        ofLexeme (if lexeme.isEmpty then .illegal else .hex) ('&' :: mark :: lexeme)
          (digits.dropWhile isHexDigit)
      else if mark.toUpper == 'O' then
        let lexeme := digits.takeWhile isOctalDigit
        ofLexeme (if lexeme.isEmpty then .illegal else .octal) ('&' :: mark :: lexeme)
          (digits.dropWhile isOctalDigit)
      else if isOctalDigit mark then
        ofLexeme .octal ('&' :: text.takeWhile isOctalDigit) (text.dropWhile isOctalDigit)
      else ofLexeme .illegal ['&'] text
  | [] => ofLexeme .illegal ['&'] []

/-- A quoted string, read after its first quote. It ends at the next quote of the line; without
one it is illegal. -/
def quoted (text : List Char) (mode : Mode) : Piece :=
  let body := text.takeWhile fun c => c != '"' && c != '\n'
  match text.dropWhile fun c => c != '"' && c != '\n' with
  | '"' :: rest => ⟨⟨.text, String.ofList body⟩, rest, mode⟩
  | rest => ⟨⟨.illegal, String.ofList ('"' :: body)⟩, rest, mode⟩

/-- The mode after a reserved word. -/
def modeAfter : Keyword → Mode
  | .REM => .remark
  | .DATA => .data
  | _ => .statement

/-- The reserved word that starts with the letters `word` and takes in the most of the letters that
follow, with the number of letters taken. There is none unless `word` itself is reserved. -/
def longestKeyword? (word rest : List Char) : Option (Keyword × Nat) :=
  if (Keyword.ofWord? (String.ofList word)).isSome then
    let letters := (rest.takeWhile Char.isAlpha).take 8
    (List.range (letters.length + 1)).reverse.findSome? fun n =>
      (Keyword.ofWord? (String.ofList (word ++ letters.take n))).map fun keyword => (keyword, n)
  else none

/-- Whether a name goes on: with a letter while it has no digit, or with a digit, sigil or point. -/
def goesOn (digitSeen : Bool) : List Char → Bool
  | c :: _ => (c.isAlpha && !digitSeen) || c.isDigit || isSigil c || c == '.'
  | [] => false

/-- A reserved word or a name. The characters taken so far come last first; a sigil ends a name and
a reserved word ends where it is spelled. -/
def word (taken : List Char) (digitSeen : Bool) : List Char → Piece
  | [] => ofLexeme .ident taken.reverse []
  | c :: rest =>
      let lexeme := (c :: taken).reverse
      let digitSeen := digitSeen || c.isDigit
      if isSigil c then ofLexeme .ident lexeme rest
      else
        match if digitSeen then none else longestKeyword? lexeme rest with
        | some (keyword, n) =>
            ⟨⟨.keyword keyword, String.ofList (lexeme ++ rest.take n)⟩, rest.drop n,
              modeAfter keyword⟩
        | none =>
            if goesOn digitSeen rest then word (c :: taken) digitSeen rest
            else ofLexeme .ident lexeme rest

/-- The kind of a symbol of one character. -/
def symbolKind (c : Char) : Kind :=
  match c with
  | '<' => .lt
  | '>' => .gt
  | '=' => .eq
  | '+' => .plus
  | '-' => .minus
  | '*' => .asterisk
  | '/' => .slash
  | '\\' => .backslash
  | '^' => .caret
  | ',' => .comma
  | ';' => .semicolon
  | ':' => .colon
  | '(' => .leftParen
  | ')' => .rightParen
  | '[' => .leftBracket
  | ']' => .rightBracket
  | '?' => .keyword .PRINT
  | _ => if c = remarkMark then .keyword .REM else .illegal

/-- An operator, a separator or an illegal character. Two relational characters form one token. -/
def symbol (c : Char) (rest : List Char) : Piece :=
  let alone : Piece :=
    ⟨⟨symbolKind c, String.ofList [c]⟩, rest, if c = remarkMark then .remark else .statement⟩
  match rest with
  | next :: more =>
      match Kind.joined? (symbolKind c) (symbolKind next) with
      | some kind => ofLexeme kind [c, next] more
      | none => alone
  | [] => alone

/-- A token of a statement that starts with the character `c`. -/
def ofStatement (c : Char) (rest : List Char) : Piece :=
  if c.isDigit || c == '.' then number (c :: rest)
  else if c.isAlpha then word [] false (c :: rest)
  else if c == '"' then quoted rest .statement
  else if c == '&' then radix rest
  else symbol c rest

/-- A token of a DATA statement that starts with the character `c`: a separator, a quoted item, or
an item as it stands, without the blanks at its end. A colon ends the statement. -/
def ofData (c : Char) (rest : List Char) : Piece :=
  if c == ',' then ⟨⟨.comma, ","⟩, rest, .data⟩
  else if c == ':' then ⟨⟨.colon, ":"⟩, rest, .statement⟩
  else if c == '"' then quoted rest .data
  else
    let inItem := fun c => c != ',' && c != ':' && c != '\n'
    ⟨⟨.raw, String.ofList (Text.trimEnd ((c :: rest).takeWhile inItem))⟩,
      (c :: rest).dropWhile inItem, .data⟩

end Piece

/-- A position in a text: what is left of it, how to read it, and whether the next token may be a
line number. -/
structure Scanner where
  rest : List Char
  mode : Mode
  lineStart : Bool
  deriving Repr, DecidableEq

namespace Scanner

/-- The scanner at the start of a source text. -/
def ofText (text : List Char) : Scanner := ⟨text, .statement, true⟩

/-- Reads the next token, unless the text or its marked end is reached. After the reserved word of a
remark the next token is the rest of the line, even if that is empty. -/
def next? (scanner : Scanner) : Option (Token × Scanner) :=
  if scanner.mode = .remark then
    some
      (⟨.raw, String.ofList (Text.trimEnd (scanner.rest.takeWhile (· != '\n')))⟩,
        ⟨scanner.rest.dropWhile (· != '\n'), .statement, scanner.lineStart⟩)
  else
    match scanner.rest.dropWhile isSpace with
    | [] => none
    | c :: rest =>
        if c = endMark then none
        else if c = '\n' then some (endOfLine, ⟨rest, .statement, true⟩)
        else if scanner.mode = .data then
          let piece := Piece.ofData c rest
          some (piece.token, ⟨piece.rest, piece.mode, scanner.lineStart⟩)
        else if scanner.lineStart && c.isDigit then
          some
            (⟨.lineNumber, String.ofList ((c :: rest).takeWhile Char.isDigit)⟩,
              ⟨(c :: rest).dropWhile Char.isDigit, .statement, false⟩)
        else
          let piece := Piece.ofStatement c rest
          some (piece.token, ⟨piece.rest, piece.mode, false⟩)

end Scanner

end LineBasic.Token
