import LineBasic.Text.Blank

/-! The reserved words of the language. A word is reserved in any letter case; its constructor is
named by its capital spelling, which is also how it is listed. -/

namespace LineBasic

inductive Keyword where
  | ALL | AND | AUTO | BEEP | CHAIN | CLEAR | CLS | COLOR | COMMON | CONT | CSRLIN | DATA | DEF
  | DIM | ELSE | END | EQV | ERL | ERR | ERROR | FALSE | FILES | FOR | GOSUB | GOTO | IF | IMP
  | KEY | LET | LIST | LOAD | LOCATE | MERGE | MOD | NEW | NEXT | NOT | ON | OR | PALETTE
  | PRINT | READ | REM | RESTORE | RESUME | RETURN | RUN | SCREEN | STEP | STOP | THEN | TO
  | TROFF | TRON | TRUE | USING | WEND | WHILE | XOR
  deriving Repr, DecidableEq

namespace Keyword

def all : List Keyword :=
  [.ALL, .AND, .AUTO, .BEEP, .CHAIN, .CLEAR, .CLS, .COLOR, .COMMON, .CONT, .CSRLIN, .DATA,
   .DEF, .DIM, .ELSE, .END, .EQV, .ERL, .ERR, .ERROR, .FALSE, .FILES, .FOR, .GOSUB, .GOTO, .IF,
   .IMP, .KEY, .LET, .LIST, .LOAD, .LOCATE, .MERGE, .MOD, .NEW, .NEXT, .NOT, .ON, .OR,
   .PALETTE, .PRINT, .READ, .REM, .RESTORE, .RESUME, .RETURN, .RUN, .SCREEN, .STEP, .STOP,
   .THEN, .TO, .TROFF, .TRON, .TRUE, .USING, .WEND, .WHILE, .XOR]

/-- The word in capitals. -/
def spelling : Keyword → String
  | .ALL => "ALL"
  | .AND => "AND"
  | .AUTO => "AUTO"
  | .BEEP => "BEEP"
  | .CHAIN => "CHAIN"
  | .CLEAR => "CLEAR"
  | .CLS => "CLS"
  | .COLOR => "COLOR"
  | .COMMON => "COMMON"
  | .CONT => "CONT"
  | .CSRLIN => "CSRLIN"
  | .DATA => "DATA"
  | .DEF => "DEF"
  | .DIM => "DIM"
  | .ELSE => "ELSE"
  | .END => "END"
  | .EQV => "EQV"
  | .ERL => "ERL"
  | .ERR => "ERR"
  | .ERROR => "ERROR"
  | .FALSE => "FALSE"
  | .FILES => "FILES"
  | .FOR => "FOR"
  | .GOSUB => "GOSUB"
  | .GOTO => "GOTO"
  | .IF => "IF"
  | .IMP => "IMP"
  | .KEY => "KEY"
  | .LET => "LET"
  | .LIST => "LIST"
  | .LOAD => "LOAD"
  | .LOCATE => "LOCATE"
  | .MERGE => "MERGE"
  | .MOD => "MOD"
  | .NEW => "NEW"
  | .NEXT => "NEXT"
  | .NOT => "NOT"
  | .ON => "ON"
  | .OR => "OR"
  | .PALETTE => "PALETTE"
  | .PRINT => "PRINT"
  | .READ => "READ"
  | .REM => "REM"
  | .RESTORE => "RESTORE"
  | .RESUME => "RESUME"
  | .RETURN => "RETURN"
  | .RUN => "RUN"
  | .SCREEN => "SCREEN"
  | .STEP => "STEP"
  | .STOP => "STOP"
  | .THEN => "THEN"
  | .TO => "TO"
  | .TROFF => "TROFF"
  | .TRON => "TRON"
  | .TRUE => "TRUE"
  | .USING => "USING"
  | .WEND => "WEND"
  | .WHILE => "WHILE"
  | .XOR => "XOR"

/-- The reserved word that `word` spells in any letter case. -/
def ofWord? (word : String) : Option Keyword :=
  let capitals := Text.upper word
  all.find? fun keyword => keyword.spelling == capitals

theorem mem_all (keyword : Keyword) : keyword ∈ all := by
  cases keyword <;> decide

end Keyword

end LineBasic
