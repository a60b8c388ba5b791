import LineBasic.Image.Cipher
import LineBasic.Image.Element
import LineBasic.Token.Lex
import LineBasic.Token.Relational

/-! Program files. A file is plain text, a program in stored form, or a stored program under the
protection cipher; its first byte tells which. A stored program is a sequence of records, each with a
pointer, a line number and a payload, and a zero pointer ends it. Decoding never fails: of a damaged
program the lines before the damage are kept. -/

namespace LineBasic.Image

/-- The elements of a payload up to the zero byte that ends it, and the bytes after that. -/
def payload? (bytes : List UInt8) : Option (List Element × List UInt8) :=
  match _h : element? bytes with
  | none => none
  | some (.finish, rest) => some ([], rest)
  | some (element, rest) => (payload? rest).map fun (elements, after) => (element :: elements, after)
termination_by bytes.length
decreasing_by exact length_lt_of_element? _h

/-- Adds a spelled-out word to verbatim text, with a blank where the two would run together. -/
def appendWord (text : List Char) (word : String) : List Char :=
  match text.getLast? with
  | some c => if c.isAlphanum then text ++ ' ' :: word.toList else text ++ word.toList
  | none => word.toList

/-- The tokens of a payload's elements. Neighbouring verbatim text is gathered and scanned as one. -/
def tokensOf (text : List Char) : List Element → List Token
  | [] => Token.lexFragment text false
  | .finish :: rest => tokensOf text rest
  | .verbatim more :: rest => tokensOf (text ++ more) rest
  | .word more :: rest => tokensOf (appendWord text more) rest
  | .token value :: rest => Token.lexFragment text false ++ value :: tokensOf [] rest
  | .remark mark body :: rest =>
      Token.lexFragment text false ++
        ⟨.keyword .REM, mark⟩ :: ⟨.raw, String.ofList (Text.trimEnd body)⟩ :: tokensOf [] rest
  | .data body :: rest =>
      Token.lexFragment text false ++
        .ofKeyword .DATA :: (Token.lexFragment body true ++ tokensOf [] rest)

/-- A complete record: its line number and the elements of its payload. -/
structure Record where
  number : Nat
  elements : List Element
  deriving DecidableEq

/-- The tokens of a record, from its line number to the end of the line. -/
def Record.tokens (record : Record) : List Token :=
  ⟨.lineNumber, toString record.number⟩ ::
    (Token.joinRelational (tokensOf [] record.elements) ++ [Token.endOfLine])

/-- The next record, unless a zero pointer or the end of the bytes comes first. -/
def record? : List UInt8 → Option (Record × List UInt8)
  | a :: b :: c :: d :: rest =>
      if word16 a b = 0 then none
      else (payload? rest).map fun (elements, after) => (⟨word16 c d, elements⟩, after)
  | _ => none

theorem length_le_of_payload? {bytes rest : List UInt8} {elements : List Element}
    (h : payload? bytes = some (elements, rest)) : rest.length ≤ bytes.length := by
  fun_induction payload? bytes generalizing elements with
  | case1 => simp at h
  | case2 bytes after he =>
      simp only [Option.some.injEq, Prod.mk.injEq] at h
      have := length_lt_of_element? he
      rw [← h.2]
      omega
  | case3 bytes element after _ he ih =>
      simp only [Option.map_eq_some_iff, Prod.mk.injEq, Prod.exists] at h
      obtain ⟨_, _, h, -, rfl⟩ := h
      have := ih h
      have := length_lt_of_element? he
      omega

theorem length_lt_of_record? {bytes rest : List UInt8} {record : Record}
    (h : record? bytes = some (record, rest)) : rest.length < bytes.length := by
  unfold record? at h
  split at h
  · split at h
    · simp at h
    · simp only [Option.map_eq_some_iff, Prod.mk.injEq, Prod.exists] at h
      obtain ⟨_, _, h, -, rfl⟩ := h
      have := length_le_of_payload? h
      simp
      omega
  · simp at h

/-- The complete records at the start of the bytes. -/
def records (bytes : List UInt8) : List Record :=
  match _h : record? bytes with
  | none => []
  | some (record, rest) => record :: records rest
termination_by bytes.length
decreasing_by exact length_lt_of_record? _h

/-- The tokens of a stored program. -/
def recordTokens (bytes : List UInt8) : List Token :=
  (records bytes).flatMap Record.tokens ++ [Token.endOfInput]

/-- The forms a program file comes in. -/
inductive Form where
  | text
  | stored
  | guarded
  deriving Repr, DecidableEq

/-- The form of a file, by its first byte. -/
def Form.ofBytes (bytes : List UInt8) : Form :=
  match bytes.head? with
  | some 0xFF => .stored
  | some 0xFE => .guarded
  | _ => .text

/-- The text of a plain file, up to the mark that ends a listing. -/
def plainText (bytes : List UInt8) : String :=
  Token.latinText (bytes.takeWhile (· != 0x1A))

/-- The tokens of a program file in any form. -/
def tokens (bytes : List UInt8) : List Token :=
  match Form.ofBytes bytes with
  | .text => Token.lex (plainText bytes)
  | .stored => recordTokens bytes.tail
  | .guarded => recordTokens (unprotect bytes.tail)

end LineBasic.Image
