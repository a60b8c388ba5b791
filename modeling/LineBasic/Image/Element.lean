import LineBasic.Image.Codes
import LineBasic.Number.Decimal
import LineBasic.Number.Packed
import LineBasic.Token.Scanner

/-! The payload of a stored program line. It is a sequence of elements, each of one or more bytes: a
code for a word or an operator, a constant in binary form, or verbatim text. Reading an element fails
where the bytes end too early. -/

namespace LineBasic.Image

/-- One element of a payload. -/
inductive Element where
  /-- The zero byte that ends the payload. -/
  | finish
  /-- Text that stands for itself. -/
  | verbatim (text : List Char)
  /-- A word that is no reserved word of this dialect and is spelled out. -/
  | word (text : String)
  /-- A token with a code of its own, or a constant. -/
  | token (value : Token)
  /-- A remark with its mark and its text. -/
  | remark (mark : String) (body : List Char)
  /-- The items of a DATA statement. -/
  | data (body : List Char)
  deriving DecidableEq

/-- A byte as a character. -/
def latin (byte : UInt8) : Char := Char.ofNat byte.toNat

/-- Two bytes as a number, the lower one first. -/
def word16 (low high : UInt8) : Nat := low.toNat + 256 * high.toNat

/-- The kinds of the operators that have codes. -/
def operatorKind? : String → Option Token.Kind
  | ">" => some .gt
  | "=" => some .eq
  | "<" => some .lt
  | "+" => some .plus
  | "-" => some .minus
  | "*" => some .asterisk
  | "/" => some .slash
  | "^" => some .caret
  | "\\" => some .backslash
  | _ => none

/-- Splits bytes before the zero that ends the payload; there has to be one. -/
def splitAtZero? (bytes : List UInt8) : Option (List UInt8 × List UInt8) :=
  match bytes.dropWhile (· != 0) with
  | [] => none
  | rest => some (bytes.takeWhile (· != 0), rest)

/-- The bytes of a DATA statement: up to a zero, or up to a colon outside quotes. -/
def splitData? (quoted : Bool) : List UInt8 → Option (List UInt8 × List UInt8)
  | [] => none
  | byte :: rest =>
      if byte == 0 || (byte == 0x3A && !quoted) then some ([], byte :: rest)
      else
        (splitData? (quoted != (byte == 0x22)) rest).map fun (body, after) => (byte :: body, after)

/-- The bytes of a quoted string after its first quote, with the quote that ends it. At the end of
the payload the string ends as well. -/
def splitQuoted? : List UInt8 → Option (List UInt8 × List UInt8)
  | [] => none
  | byte :: rest =>
      if byte == 0 then some ([], byte :: rest)
      else if byte == 0x22 then some ([], rest)
      else (splitQuoted? rest).map fun (body, after) => (byte :: body, after)

/-- A remark that goes on to the end of the payload. -/
def remark? (mark : String) (bytes : List UInt8) : Option (Element × List UInt8) :=
  (splitAtZero? bytes).map fun (body, rest) => (.remark mark (body.map latin), rest)

/-- The element that a word's code stands for; a code without a word is a character. WHILE is stored
with a plus sign after it. -/
def coded? (table : List (UInt8 × String)) (code : UInt8) (rest : List UInt8) :
    Option (Element × List UInt8) :=
  match table.lookup code with
  | none => some (.verbatim [latin code], rest)
  | some text =>
      match operatorKind? text, Keyword.ofWord? text with
      | some kind, _ => some (.token ⟨kind, text⟩, rest)
      | none, some .REM => remark? text rest
      | none, some .DATA =>
          (splitData? false rest).map fun (body, after) => (.data (body.map latin), after)
      | none, some .WHILE =>
          some (.token ⟨.keyword .WHILE, text⟩, if rest.head? = some 0xE9 then rest.tail else rest)
      | none, some word => some (.token ⟨.keyword word, text⟩, rest)
      | none, none =>
          if text = String.ofList [Token.remarkMark] then remark? text rest
          else some (.word text, rest)

/-- A decimal constant as a token. -/
def decimalToken (literal : String) : Element :=
  .token ⟨Token.numberKind literal.toList, literal⟩

/-- An integer with a sign in decimal digits. -/
def signedText (n : Nat) : String := toString (UInt16.ofNat n).toInt16.toInt

/-- The element that starts with a byte. A colon is stored before ELSE, and before the code of a
remark that is written with its mark alone. -/
def elementFrom? (byte : UInt8) (rest : List UInt8) : Option (Element × List UInt8) :=
  match byte.toNat, rest with
  | 0x00, _ => some (.finish, rest)
  | 0x22, _ =>
      (splitQuoted? rest).map fun (body, after) =>
        (.verbatim ('"' :: body.map latin ++ ['"']), after)
  | 0x3A, 0xA1 :: _ => some (.verbatim [], rest)
  | 0x3A, 0x8F :: 0xD9 :: after => remark? (String.ofList [Token.remarkMark]) after
  | 0x0B, low :: high :: after =>
      some (.token ⟨.octal, "&O" ++ String.ofList (Nat.toDigits 8 (word16 low high))⟩, after)
  | 0x0C, low :: high :: after =>
      some (.token ⟨.hex, "&H" ++ String.ofList
        ((Nat.toDigits 16 (word16 low high)).map Char.toUpper)⟩, after)
  | 0x0D, low :: high :: after => some (decimalToken (toString (word16 low high)), after)
  | 0x0E, low :: high :: after => some (decimalToken (toString (word16 low high)), after)
  | 0x0F, value :: after => some (decimalToken (toString value.toNat), after)
  | 0x1C, low :: high :: after => some (decimalToken (signedText (word16 low high)), after)
  | 0x1D, a :: b :: c :: d :: after =>
      some (.token ⟨.float,
        Number.plainSingle (Number.singleOfDouble (Number.ofPacked [a, b, c, d])) ++ "!"⟩, after)
  | 0x1F, a :: b :: c :: d :: e :: f :: g :: h :: after =>
      some (.token ⟨.double,
        Number.plainDouble (Number.ofPacked [a, b, c, d, e, f, g, h]) ++ "#"⟩, after)
  | 0xFD, code :: after => coded? Codes.afterFD code after
  | 0xFE, code :: after => coded? Codes.afterFE code after
  | 0xFF, code :: after => coded? Codes.afterFF code after
  | 0x0B, _ | 0x0C, _ | 0x0D, _ | 0x0E, _ | 0x0F, _ | 0x1C, _ | 0x1D, _ | 0x1F, _ | 0xFD, _
  | 0xFE, _ | 0xFF, _ => none
  | n, _ =>
      if 0x11 ≤ n && n ≤ 0x1B then some (decimalToken (toString (n - 0x11)), rest)
      else if 0x81 ≤ n && n ≤ 0xF4 then coded? Codes.plain byte rest
      else some (.verbatim [latin byte], rest)

/-- The next element of a payload. -/
def element? : List UInt8 → Option (Element × List UInt8)
  | [] => none
  | byte :: rest => elementFrom? byte rest

theorem length_le_of_splitAtZero? {bytes body rest : List UInt8}
    (h : splitAtZero? bytes = some (body, rest)) : rest.length ≤ bytes.length := by
  have := (List.dropWhile_suffix (l := bytes) (· != 0)).length_le
  unfold splitAtZero? at h
  split at h <;> simp_all

theorem length_le_of_splitData? {quoted : Bool} {bytes body rest : List UInt8}
    (h : splitData? quoted bytes = some (body, rest)) : rest.length ≤ bytes.length := by
  induction bytes generalizing quoted body with
  | nil => simp [splitData?] at h
  | cons byte bytes ih =>
      unfold splitData? at h
      split at h
      · simp at h
        simp [← h.2]
      · simp only [Option.map_eq_some_iff, Prod.mk.injEq, Prod.exists] at h
        obtain ⟨_, _, h, -, rfl⟩ := h
        exact Nat.le_succ_of_le (ih h)

theorem length_le_of_splitQuoted? {bytes body rest : List UInt8}
    (h : splitQuoted? bytes = some (body, rest)) : rest.length ≤ bytes.length := by
  induction bytes generalizing body with
  | nil => simp [splitQuoted?] at h
  | cons byte bytes ih =>
      unfold splitQuoted? at h
      split at h
      · simp at h
        simp [← h.2]
      · split at h
        · simp at h
          simp [← h.2]
        · simp only [Option.map_eq_some_iff, Prod.mk.injEq, Prod.exists] at h
          obtain ⟨_, _, h, -, rfl⟩ := h
          exact Nat.le_succ_of_le (ih h)

theorem length_le_of_remark? {mark : String} {bytes rest : List UInt8} {element : Element}
    (h : remark? mark bytes = some (element, rest)) : rest.length ≤ bytes.length := by
  simp only [remark?, Option.map_eq_some_iff, Prod.mk.injEq, Prod.exists] at h
  obtain ⟨_, _, h, -, rfl⟩ := h
  exact length_le_of_splitAtZero? h

theorem length_le_of_coded? {table : List (UInt8 × String)} {code : UInt8}
    {bytes rest : List UInt8} {element : Element}
    (h : coded? table code bytes = some (element, rest)) : rest.length ≤ bytes.length := by
  unfold coded? at h
  split at h
  · simp at h
    simp [← h.2]
  · split at h
    · simp at h
      simp [← h.2]
    · exact length_le_of_remark? h
    · simp only [Option.map_eq_some_iff, Prod.mk.injEq, Prod.exists] at h
      obtain ⟨_, _, h, -, rfl⟩ := h
      exact length_le_of_splitData? h
    · simp only [Option.some.injEq, Prod.mk.injEq] at h
      rw [← h.2]
      split <;> simp
    · simp at h
      simp [← h.2]
    · split at h
      · exact length_le_of_remark? h
      · simp at h
        simp [← h.2]

/-- An element takes at least its first byte. -/
theorem length_lt_of_element? {bytes rest : List UInt8} {element : Element}
    (h : element? bytes = some (element, rest)) : rest.length < bytes.length := by
  cases bytes with
  | nil => simp [element?] at h
  | cons byte bytes =>
      simp only [element?] at h
      suffices rest.length ≤ bytes.length by simp; omega
      unfold elementFrom? at h
      split at h
      · simp at h; simp [← h.2]
      · simp only [Option.map_eq_some_iff, Prod.mk.injEq, Prod.exists] at h
        obtain ⟨_, _, h, -, rfl⟩ := h
        exact length_le_of_splitQuoted? h
      · simp at h; simp [← h.2]
      · have := length_le_of_remark? h
        simp; omega
      · simp at h; simp [← h.2]; omega
      · simp at h; simp [← h.2]; omega
      · simp at h; simp [← h.2]; omega
      · simp at h; simp [← h.2]; omega
      · simp at h; simp [← h.2]
      · simp at h; simp [← h.2]; omega
      · simp at h; simp [← h.2]; omega
      · simp at h; simp [← h.2]; omega
      · have := length_le_of_coded? h
        simp; omega
      · have := length_le_of_coded? h
        simp; omega
      · have := length_le_of_coded? h
        simp; omega
      all_goals try (simp at h; done)
      · split at h
        · simp at h; simp [← h.2]
        · split at h
          · exact length_le_of_coded? h
          · simp at h; simp [← h.2]

end LineBasic.Image
