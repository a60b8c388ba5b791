import LineBasic.Token.Keyword

/-! A table of the reserved words by their letters. Looking letters up in it is a matter of the few words
with the same first letter, and takes no comparison of texts. -/

namespace LineBasic.Keyword

/-- The letters of the word in capitals. -/
def letters : Keyword → List Char
  | .ALL => ['A', 'L', 'L']
  | .AND => ['A', 'N', 'D']
  | .AUTO => ['A', 'U', 'T', 'O']
  | .BEEP => ['B', 'E', 'E', 'P']
  | .CHAIN => ['C', 'H', 'A', 'I', 'N']
  | .CLEAR => ['C', 'L', 'E', 'A', 'R']
  | .CLS => ['C', 'L', 'S']
  | .COLOR => ['C', 'O', 'L', 'O', 'R']
  | .COMMON => ['C', 'O', 'M', 'M', 'O', 'N']
  | .CONT => ['C', 'O', 'N', 'T']
  | .CSRLIN => ['C', 'S', 'R', 'L', 'I', 'N']
  | .DATA => ['D', 'A', 'T', 'A']
  | .DEF => ['D', 'E', 'F']
  | .DIM => ['D', 'I', 'M']
  | .ELSE => ['E', 'L', 'S', 'E']
  | .END => ['E', 'N', 'D']
  | .EQV => ['E', 'Q', 'V']
  | .ERL => ['E', 'R', 'L']
  | .ERR => ['E', 'R', 'R']
  | .ERROR => ['E', 'R', 'R', 'O', 'R']
  | .FALSE => ['F', 'A', 'L', 'S', 'E']
  | .FILES => ['F', 'I', 'L', 'E', 'S']
  | .FOR => ['F', 'O', 'R']
  | .GOSUB => ['G', 'O', 'S', 'U', 'B']
  | .GOTO => ['G', 'O', 'T', 'O']
  | .IF => ['I', 'F']
  | .IMP => ['I', 'M', 'P']
  | .KEY => ['K', 'E', 'Y']
  | .LET => ['L', 'E', 'T']
  | .LIST => ['L', 'I', 'S', 'T']
  | .LOAD => ['L', 'O', 'A', 'D']
  | .LOCATE => ['L', 'O', 'C', 'A', 'T', 'E']
  | .MERGE => ['M', 'E', 'R', 'G', 'E']
  | .MOD => ['M', 'O', 'D']
  | .NEW => ['N', 'E', 'W']
  | .NEXT => ['N', 'E', 'X', 'T']
  | .NOT => ['N', 'O', 'T']
  | .ON => ['O', 'N']
  | .OR => ['O', 'R']
  | .PALETTE => ['P', 'A', 'L', 'E', 'T', 'T', 'E']
  | .PRINT => ['P', 'R', 'I', 'N', 'T']
  | .READ => ['R', 'E', 'A', 'D']
  | .REM => ['R', 'E', 'M']
  | .RESTORE => ['R', 'E', 'S', 'T', 'O', 'R', 'E']
  | .RESUME => ['R', 'E', 'S', 'U', 'M', 'E']
  | .RETURN => ['R', 'E', 'T', 'U', 'R', 'N']
  | .RUN => ['R', 'U', 'N']
  | .SCREEN => ['S', 'C', 'R', 'E', 'E', 'N']
  | .STEP => ['S', 'T', 'E', 'P']
  | .STOP => ['S', 'T', 'O', 'P']
  | .THEN => ['T', 'H', 'E', 'N']
  | .TO => ['T', 'O']
  | .TROFF => ['T', 'R', 'O', 'F', 'F']
  | .TRON => ['T', 'R', 'O', 'N']
  | .TRUE => ['T', 'R', 'U', 'E']
  | .USING => ['U', 'S', 'I', 'N', 'G']
  | .WEND => ['W', 'E', 'N', 'D']
  | .WHILE => ['W', 'H', 'I', 'L', 'E']
  | .XOR => ['X', 'O', 'R']

/-- The reserved words with a first letter. -/
def startingWith : Char → List Keyword
  | 'A' => [.ALL, .AND, .AUTO]
  | 'B' => [.BEEP]
  | 'C' => [.CHAIN, .CLEAR, .CLS, .COLOR, .COMMON, .CONT, .CSRLIN]
  | 'D' => [.DATA, .DEF, .DIM]
  | 'E' => [.ELSE, .END, .EQV, .ERL, .ERR, .ERROR]
  | 'F' => [.FALSE, .FILES, .FOR]
  | 'G' => [.GOSUB, .GOTO]
  | 'I' => [.IF, .IMP]
  | 'K' => [.KEY]
  | 'L' => [.LET, .LIST, .LOAD, .LOCATE]
  | 'M' => [.MERGE, .MOD]
  | 'N' => [.NEW, .NEXT, .NOT]
  | 'O' => [.ON, .OR]
  | 'P' => [.PALETTE, .PRINT]
  | 'R' => [.READ, .REM, .RESTORE, .RESUME, .RETURN, .RUN]
  | 'S' => [.SCREEN, .STEP, .STOP]
  | 'T' => [.THEN, .TO, .TROFF, .TRON, .TRUE]
  | 'U' => [.USING]
  | 'W' => [.WEND, .WHILE]
  | 'X' => [.XOR]
  | _ => []

/-- The reserved word with some letters, which are capitals. -/
def ofLetters? : List Char → Option Keyword
  | [] => none
  | c :: rest => (startingWith c).find? fun word => word.letters == c :: rest

theorem toList_spelling (word : Keyword) : word.spelling.toList = word.letters := by
  cases word <;> rfl

/-- Every word is found by its letters, so it stands under its first one. -/
theorem ofLetters?_letters (word : Keyword) : ofLetters? word.letters = some word := by
  cases word <;> rfl

theorem letters_inj {word other : Keyword} (h : word.letters = other.letters) : word = other := by
  have hfound := ofLetters?_letters word
  rw [h, ofLetters?_letters, Option.some.injEq] at hfound
  exact hfound.symm

theorem ofLetters?_eq_some_iff {text : List Char} {word : Keyword} :
    ofLetters? text = some word ↔ word.letters = text := by
  constructor
  · intro h
    cases text with
    | nil => cases h
    | cons c rest =>
        have hletters := List.find?_some h
        exact beq_iff_eq.mp hletters
  · rintro rfl
    exact ofLetters?_letters word

end LineBasic.Keyword
