import LineBasic.Token.Keyword

/-! Tokens: the pieces that a line of source text or a stored program line is made of. A token has
a kind and the text it was written with; the text of a quoted string is held without its quotes. -/

namespace LineBasic

namespace Token

inductive Kind where
  | illegal
  | eof
  | eol
  | lineNumber
  | ident
  | raw
  | int
  | fixed
  | float
  | double
  | hex
  | octal
  | text
  | plus
  | minus
  | asterisk
  | slash
  | backslash
  | caret
  | eq
  | ne
  | lt
  | gt
  | le
  | ge
  | comma
  | semicolon
  | colon
  | leftParen
  | rightParen
  | leftBracket
  | rightBracket
  | keyword (word : Keyword)
  deriving Repr, DecidableEq

namespace Kind

/-- The name that a kind goes by in diagnostics; symbols and reserved words stand for themselves. -/
def label : Kind → String
  | illegal => "ILLEGAL"
  | eof => "EOF"
  | eol => "EOL"
  | lineNumber => "####"
  | ident => "IDENT"
  | raw => "BSTR"
  | int => "INT"
  | fixed => "FIXED"
  | float => "FLOAT"
  | double => "DOUBLE"
  | hex => "&H"
  | octal => "&O"
  | text => "STRING"
  | plus => "+"
  | minus => "-"
  | asterisk => "*"
  | slash => "/"
  | backslash => "\\"
  | caret => "^"
  | eq => "="
  | ne => "<>"
  | lt => "<"
  | gt => ">"
  | le => "<="
  | ge => ">="
  | comma => ","
  | semicolon => ";"
  | colon => ":"
  | leftParen => "("
  | rightParen => ")"
  | leftBracket => "["
  | rightBracket => "]"
  | keyword word => word.spelling

/-- The kind of a bare word: reserved, or a name. -/
def ofWord (word : String) : Kind :=
  match Keyword.ofWord? word with
  | some reserved => keyword reserved
  | none => ident

def isKeyword : Kind → Bool
  | keyword _ => true
  | _ => false

/-- Kinds of numeric constants. -/
def isNumber : Kind → Bool
  | int | fixed | float | double | hex | octal => true
  | _ => false

/-- Kinds that end a line: the end of the line itself and the end of the source. -/
def endsLine : Kind → Bool
  | eol | eof => true
  | _ => false

theorem endsLine_iff {kind : Kind} : kind.endsLine = true ↔ kind = eol ∨ kind = eof := by
  cases kind <;> simp [endsLine]

/-- No kind that stands in a line ends one. -/
theorem ne_of_endsLine {kind ending : Kind} (h : kind.endsLine = false) (hending : ending.endsLine = true) :
    kind ≠ ending := by
  rintro rfl
  rw [h] at hending
  cases hending

/-- Kinds that may end a statement. -/
def isTerminator : Kind → Bool
  | eol | eof | colon => true
  | _ => false

/-- The relational operator that two adjacent ones form, in either order. -/
def joined? : Kind → Kind → Option Kind
  | lt, eq | eq, lt => some le
  | gt, eq | eq, gt => some ge
  | lt, gt | gt, lt => some ne
  | _, _ => none

end Kind

end Token

structure Token where
  kind : Token.Kind
  literal : String
  deriving Repr, DecidableEq

namespace Token

/-- The token that ends every token list. -/
def endOfInput : Token := ⟨.eof, ""⟩

/-- The token of a line feed. -/
def endOfLine : Token := ⟨.eol, "\n"⟩

/-- A reserved word as written in capitals. -/
def ofKeyword (word : Keyword) : Token := ⟨.keyword word, word.spelling⟩

/-- The source text of a token. -/
def display (token : Token) : String :=
  match token.kind with
  | .text => "\"" ++ token.literal ++ "\""
  | .eof => ""
  | _ => token.literal

end Token

end LineBasic
