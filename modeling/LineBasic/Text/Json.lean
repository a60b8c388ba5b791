import LineBasic.Text.Blank

/-! JSON documents: a strict reader, and the quoting of strings. Half of a surrogate pair may be
escaped in a string without its other half; such a string is well-formed but has no text. -/

namespace LineBasic.Text

/-- A JSON value. Numbers are read but their values are not kept. -/
inductive Json where
  | null
  | bool (value : Bool)
  | number
  | string (value : Option String)
  | array (items : List Json)
  | object (fields : List (Option String × Json))
  deriving Inhabited

namespace Json

def openBrace : Char := Char.ofNat 0x7B

def closeBrace : Char := Char.ofNat 0x7D

/-- The blanks that may stand between the parts of a document. -/
def isSpace (c : Char) : Bool := c == ' ' || c == '\n' || c == '\t' || c == '\r'

def hexValue? (c : Char) : Option Nat :=
  if c.isDigit then some (c.toNat - 48)
  else if 'a' ≤ c && c ≤ 'f' then some (c.toNat - 87)
  else if 'A' ≤ c && c ≤ 'F' then some (c.toNat - 55)
  else none

/-- The number that four hexadecimal digits stand for. -/
def hex4? (a b c d : Char) : Option Nat := do
  return ((← hexValue? a) * 16 + (← hexValue? b)) * 256 + (← hexValue? c) * 16 + (← hexValue? d)

def isHighSurrogate (n : Nat) : Bool := 0xD800 ≤ n && n ≤ 0xDBFF

def isSurrogate (n : Nat) : Bool := 0xD800 ≤ n && n ≤ 0xDFFF

/-- The sixteen-bit units that the rest of a string is made of, up to its closing quote, and the
text after it. A character that is not escaped is one unit, whatever its size. -/
def units? : List Char → Option (List Nat × List Char)
  | [] => none
  | '"' :: rest => some ([], rest)
  | '\\' :: 'u' :: a :: b :: c :: d :: rest => do
      let n ← hex4? a b c d
      let (units, after) ← units? rest
      return (n :: units, after)
  | '\\' :: escaped :: rest => do
      let n ←
        match escaped with
        | '"' => some 0x22
        | '\\' => some 0x5C
        | '/' => some 0x2F
        | 'b' => some 0x08
        | 'f' => some 0x0C
        | 'n' => some 0x0A
        | 'r' => some 0x0D
        | 't' => some 0x09
        | _ => none
      let (units, after) ← units? rest
      return (n :: units, after)
  | c :: rest =>
      if c.toNat < 0x20 || c == '\\' then none
      else do
        let (units, after) ← units? rest
        return (c.toNat :: units, after)

/-- The characters of a string's units, unless half of a surrogate pair stands alone. -/
def characters? : List Nat → Option (List Char)
  | [] => some []
  | high :: low :: rest =>
      if isHighSurrogate high then
        if isSurrogate low && !isHighSurrogate low then do
          let chars ← characters? rest
          return Char.ofNat (0x10000 + (high - 0xD800) * 0x400 + (low - 0xDC00)) :: chars
        else none
      else if isSurrogate high then none
      else do return Char.ofNat high :: (← characters? (low :: rest))
  | [last] => if isSurrogate last then none else some [Char.ofNat last]

/-- A string after its opening quote. -/
def string? (text : List Char) : Option (Option String × List Char) := do
  let (units, after) ← units? text
  return ((characters? units).map String.ofList, after)

/-- At least one digit, and the text after all that follow. -/
def digits? (text : List Char) : Option (List Char) :=
  if (text.head?).any Char.isDigit then some (text.dropWhile Char.isDigit) else none

/-- The text after the whole part of a number, which has no needless zero in front. -/
def wholePart? : List Char → Option (List Char)
  | '0' :: rest => if (rest.head?).any Char.isDigit then none else some rest
  | text => digits? text

/-- The text after an exponent, if there is one. -/
def exponentPart? : List Char → Option (List Char)
  | mark :: sign :: rest =>
      if mark == 'e' || mark == 'E' then
        if sign == '+' || sign == '-' then digits? rest else digits? (sign :: rest)
      else some (mark :: sign :: rest)
  | [mark] => if mark == 'e' || mark == 'E' then none else some [mark]
  | [] => some []

/-- The text after a number. -/
def number? (text : List Char) : Option (List Char) := do
  let unsigned := match text with
    | '-' :: rest => rest
    | other => other
  let afterWhole ← wholePart? unsigned
  match afterWhole with
  | '.' :: rest => exponentPart? (← digits? rest)
  | rest => exponentPart? rest

mutual

/-- A value, with at most `budget` nested calls. -/
def value? : Nat → List Char → Option (Json × List Char)
  | 0, _ => none
  | budget + 1, text =>
      match text.dropWhile isSpace with
      | 'n' :: 'u' :: 'l' :: 'l' :: rest => some (null, rest)
      | 't' :: 'r' :: 'u' :: 'e' :: rest => some (bool true, rest)
      | 'f' :: 'a' :: 'l' :: 's' :: 'e' :: rest => some (bool false, rest)
      | '"' :: rest => (string? rest).map fun (s, after) => (.string s, after)
      | '[' :: rest =>
          match rest.dropWhile isSpace with
          | ']' :: after => some (array [], after)
          | _ => (items? budget rest).map fun (items, after) => (array items, after)
      | c :: rest =>
          if c = openBrace then
            if (rest.dropWhile isSpace).head? = some closeBrace then
              some (object [], (rest.dropWhile isSpace).tail)
            else (fields? budget rest).map fun (fields, after) => (object fields, after)
          else (number? (c :: rest)).map fun after => (number, after)
      | [] => none

/-- The items of an array, at least one, and its closing bracket. -/
def items? : Nat → List Char → Option (List Json × List Char)
  | 0, _ => none
  | budget + 1, text => do
      let (item, after) ← value? budget text
      match after.dropWhile isSpace with
      | ']' :: rest => return ([item], rest)
      | ',' :: rest =>
          let (items, final) ← items? budget rest
          return (item :: items, final)
      | _ => none

/-- The fields of an object, at least one, and its closing brace. -/
def fields? : Nat → List Char → Option (List (Option String × Json) × List Char)
  | 0, _ => none
  | budget + 1, text =>
      match text.dropWhile isSpace with
      | '"' :: rest => do
          let (name, afterName) ← string? rest
          match afterName.dropWhile isSpace with
          | ':' :: more =>
              let (value, after) ← value? budget more
              match after.dropWhile isSpace with
              | ',' :: rest =>
                  let (fields, final) ← fields? budget rest
                  return ((name, value) :: fields, final)
              | c :: rest => if c = closeBrace then return ([(name, value)], rest) else none
              | [] => none
          | _ => none
      | _ => none

end

/-- Reads a whole text as one document. -/
def ofText? (text : String) : Option Json :=
  match value? (2 * text.length + 2) text.toList with
  | some (json, rest) => if rest.all isSpace then some json else none
  | none => none

/-- A character as it stands in a quoted string. -/
def escape (c : Char) : List Char :=
  match c.toNat with
  | 0x22 => ['\\', '"']
  | 0x5C => ['\\', '\\']
  | 0x08 => ['\\', 'b']
  | 0x0C => ['\\', 'f']
  | 0x0A => ['\\', 'n']
  | 0x0D => ['\\', 'r']
  | 0x09 => ['\\', 't']
  | n =>
      if n < 0x20 then
        ['\\', 'u', '0', '0'] ++ (if n < 0x10 then ['0'] else []) ++ Nat.toDigits 16 n
      else [c]

/-- A text in quotes. -/
def quote (text : String) : String :=
  String.ofList ('"' :: text.toList.flatMap escape ++ ['"'])

end Json

end LineBasic.Text
