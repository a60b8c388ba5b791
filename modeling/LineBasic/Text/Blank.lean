/-! Blank characters and trimming. Blank means the 25 characters of the Unicode property
White_Space, which is wider than the three characters that separate the tokens of a line. -/

namespace LineBasic.Text

/-- The Unicode property White_Space. -/
def isBlank (c : Char) : Bool :=
  let n := c.toNat
  (9 ≤ n && n ≤ 13) || n == 0x20 || n == 0x85 || n == 0xA0 || n == 0x1680 ||
    (0x2000 ≤ n && n ≤ 0x200A) || n == 0x2028 || n == 0x2029 || n == 0x202F ||
    n == 0x205F || n == 0x3000

/-- Drops the longest suffix whose characters all satisfy `p`. -/
def dropEndWhile (p : Char → Bool) (text : List Char) : List Char :=
  (text.reverse.dropWhile p).reverse

/-- Drops the blanks at the end. -/
def trimEnd (text : List Char) : List Char :=
  dropEndWhile isBlank text

/-- Drops the blanks at both ends. -/
def trim (text : List Char) : List Char :=
  trimEnd (text.dropWhile isBlank)

@[simp]
theorem trimEnd_nil : trimEnd [] = [] := rfl

/-- Trimming removes a suffix and nothing else. -/
theorem dropEndWhile_append_takeWhile (p : Char → Bool) (text : List Char) :
    dropEndWhile p text ++ (text.reverse.takeWhile p).reverse = text := by
  rw [dropEndWhile, ← List.reverse_append, List.takeWhile_append_dropWhile, List.reverse_reverse]

/-- Letters `a` to `z` in upper case, every other character as it is. -/
def upper (text : String) : String :=
  text.map Char.toUpper

end LineBasic.Text
