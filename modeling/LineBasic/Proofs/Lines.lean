import LineBasic.Proofs.InLine
import LineBasic.Proofs.Scan

/-! Lines are read apart. A reader stays in its line, and where it fails the reading goes on behind that
line, so the lines of a source can be split off and read alone. The end of a line ends every token too:
the tokens of two texts joined by a line feed are the tokens of the two, and the lines and faults of the
whole are those of the parts, one after the other. No line, however malformed, changes how another one
is read. -/

namespace LineBasic

/-- The tokens of each line, without the tokens that end the lines. -/
def splitLines : List Token → List (List Token)
  | [] => [[]]
  | token :: rest =>
      if token.kind = .eol then [] :: splitLines rest
      else
        match splitLines rest with
        | first :: others => (token :: first) :: others
        | [] => [[token]]

theorem splitLines_ne_nil (tokens : List Token) : splitLines tokens ≠ [] := by
  cases tokens with
  | nil => simp [splitLines]
  | cons token rest =>
      unfold splitLines
      split
      · simp
      · split <;> simp

/-- The tokens that end lines separate the lines. -/
theorem splitLines_append {token : Token} (h : token.kind = .eol) (tokens others : List Token) :
    splitLines (tokens ++ token :: others) = splitLines tokens ++ splitLines others := by
  induction tokens with
  | nil =>
      change splitLines (token :: others) = [] :: splitLines others
      rw [splitLines, if_pos h]
  | cons first rest ih =>
      rw [List.cons_append, splitLines, splitLines, ih]
      split
      · rfl
      · cases hrest : splitLines rest with
        | nil => exact absurd hrest (splitLines_ne_nil rest)
        | cons head more => rfl

theorem splitLines_append_endOfLine (tokens others : List Token) :
    splitLines (tokens ++ Token.endOfLine :: others) = splitLines tokens ++ splitLines others :=
  splitLines_append rfl tokens others

theorem splitLines_cons {token : Token} (h : token.kind ≠ .eol) {tokens first : List Token}
    {others : List (List Token)} (hrest : splitLines tokens = first :: others) :
    splitLines (token :: tokens) = (token :: first) :: others := by
  rw [splitLines, if_neg h, hrest]

theorem splitLines_inLine {tokens : List Token} (h : ∀ token ∈ tokens, token.kind ≠ .eol) :
    splitLines tokens = [tokens] := by
  induction tokens with
  | nil => rfl
  | cons token rest ih =>
      exact splitLines_cons (h token List.mem_cons_self)
        (ih fun other hother => h other (List.mem_cons_of_mem token hother))

namespace Line

/-- Splits the line number off the tokens of a line. -/
def splitNumber : List Token → Except Fault (Option Nat × List Token)
  | token :: rest =>
      if token.kind = .lineNumber then do return (some (← Literal.lineNumber token.literal), rest)
      else return (none, token :: rest)
  | [] => return (none, [])

/-- What is read off the tokens of one line alone. -/
def ofTokens? (tokens : List Token) : Except Fault (Option Line) := (Reader.line.outcome tokens).1

end Line

namespace Reader

variable {line tail : List Token}

theorem read_label? (tokens : List Token) : label? tokens = Line.splitNumber tokens := by
  cases tokens with
  | nil => rfl
  | cons token rest =>
      rw [label?, bind_ok (run_peekKind _), kindAt_cons, Line.splitNumber]
      split
      · rename_i hkind
        rw [bind_ok (run_next (by rw [hkind]; rfl) rest)]
        cases Literal.lineNumber token.literal <;> rfl
      · rfl

theorem stays_label? : StaysInLine label? := by
  refine stays_nextOf (p := (· = .lineNumber)) (fun kind hkind => ?_) (fun token => ?_) (stays_pure none)
  · rw [hkind]
    rfl
  · exact (stays_lift _).bind fun number => stays_pure _

theorem stays_lineStatements : StaysInLine lineStatements := stays_sized fun count => stays_statements (count + 1)

theorem InLine.eq_nil (h : InLine line) (hend : AtLineEnd line) : line = [] := by
  cases line with
  | nil => rfl
  | cons token rest => exact absurd rfl (Token.Kind.ne_of_endsLine (h token List.mem_cons_self) hend)

theorem InLine.ne (h : InLine line) {ending : Token.Kind} (hending : ending.endsLine = true) :
    ∀ token ∈ line, token.kind ≠ ending :=
  fun token hmem => Token.Kind.ne_of_endsLine (h token hmem) hending

theorem skipLine_append (h : InLine line) (tail : List Token) : skipLine (line ++ tail) = skipLine tail := by
  induction line with
  | nil => rfl
  | cons token rest ih =>
      rw [List.cons_append, skipLine]
      split
      · rename_i heol
        exact absurd heol (h.ne rfl token List.mem_cons_self)
      · rename_i heof
        exact absurd heof (h.ne rfl token List.mem_cons_self)
      · exact ih h.tail

theorem outcome_passLineEnd (h : AtLineEnd tail) : passLineEnd.outcome tail = (.ok (), skipLine tail) := by
  cases tail with
  | nil => rfl
  | cons token rest =>
      obtain ⟨kind, literal⟩ := token
      change kind.endsLine = true at h
      cases kind <;> first | rfl | cases h

theorem AtLineEnd.cases (h : AtLineEnd tail) :
    kindAt tail = .eof ∨ ∃ token rest, tail = token :: rest ∧ token.kind = .eol := by
  cases tail with
  | nil => exact .inl rfl
  | cons token rest =>
      rcases Token.Kind.endsLine_iff.mp (h : token.kind.endsLine = true) with heol | heof
      · exact .inr ⟨token, rest, rfl, heol⟩
      · exact .inl heof

theorem takeWhile_atEnd (h : kindAt tail = .eof) : tail.takeWhile (·.kind != .eof) = [] := by
  cases tail with
  | nil => rfl
  | cons token rest =>
      have hkind : token.kind = .eof := h
      rw [List.takeWhile_cons_of_neg (by simp [hkind])]

theorem skipLine_atEnd (h : kindAt tail = .eof) : skipLine tail = tail := by
  cases tail with
  | nil => rfl
  | cons token rest =>
      have hkind : token.kind = .eof := h
      rw [skipLine, hkind]

theorem takeWhile_inLine (h : InLine line) (tail : List Token) :
    (line ++ tail).takeWhile (·.kind != .eof) = line ++ tail.takeWhile (·.kind != .eof) := by
  refine List.takeWhile_append_of_pos fun token hmem => ?_
  rw [bne_iff_ne]
  exact h.ne rfl token hmem

theorem InLine.kindAt_ne_eof {first : Token} {others : List Token} (h : InLine (first :: others))
    (tail : List Token) : kindAt (first :: others ++ tail) ≠ .eof :=
  h.ne rfl first List.mem_cons_self

/-- The statements of a line are read up to where the line ends, or one of them cannot be read. -/
theorem outcome_body (hline : InLine line) (number : Option Nat) :
    (∃ found, ∀ tail, AtLineEnd tail → (body number).outcome (line ++ tail) = (.ok found, skipLine tail)) ∨
      ∃ fault rest, rest <:+ line ∧
        ∀ tail, AtLineEnd tail → (body number).outcome (line ++ tail) = (.error fault, rest ++ tail) := by
  obtain ⟨result, rest, hrest, houtcome⟩ := stays_lineStatements line hline
  cases result with
  | error fault =>
      refine .inr ⟨fault, rest, hrest, fun tail htail => ?_⟩
      rw [body, outcome_bind, houtcome tail htail]
  | ok statements =>
      have halone := houtcome [] rfl
      have hnil : rest = [] := by
        refine (hline.of_suffix hrest).eq_nil ?_
        have hread : lineStatements line = .ok (statements, rest) := by
          unfold read
          rw [← List.append_nil line, halone, List.append_nil]
        rw [lineStatements, run_sized] at hread
        exact atLineEnd_of_statements hread
      subst hnil
      refine .inl ⟨if number.isNone && statements.isEmpty then none else some ⟨number, statements⟩, fun tail htail => ?_⟩
      rw [body, outcome_bind, houtcome tail htail]
      dsimp only
      rw [outcome_bind, List.nil_append, outcome_passLineEnd htail]
      dsimp only
      split <;> rfl

theorem outcome_line (tokens : List Token) :
    Reader.line.outcome tokens =
      match label?.outcome tokens with
      | (.ok number, rest) =>
          match (body number).outcome rest with
          | (.ok found, last) => (.ok found, last)
          | (.error fault, last) => (.error (fault.inLine number), last)
      | (.error fault, rest) => (.error fault, rest) := by
  rw [Reader.line, outcome_bind]
  rcases label?.outcome tokens with ⟨fault | number, rest⟩
  · rfl
  · dsimp only
    rw [outcome_tryCatch]
    rcases (body number).outcome rest with ⟨fault | found, last⟩ <;> rfl

/-- **A line is read without regard to what follows it.** It is read up to its end, or the reading fails
in it. -/
theorem exists_outcome_line (hline : InLine line) :
    (∃ found, ∀ tail, AtLineEnd tail → Reader.line.outcome (line ++ tail) = (.ok found, skipLine tail)) ∨
      ∃ fault rest, rest <:+ line ∧
        ∀ tail, AtLineEnd tail → Reader.line.outcome (line ++ tail) = (.error fault, rest ++ tail) := by
  obtain ⟨result, rest, hrest, hlabel⟩ := stays_label? line hline
  cases result with
  | error fault =>
      refine .inr ⟨fault, rest, hrest, fun tail htail => ?_⟩
      rw [outcome_line, hlabel tail htail]
  | ok number =>
      obtain ⟨found, hbody⟩ | ⟨fault, last, hlast, hbody⟩ := outcome_body (hline.of_suffix hrest) number
      · refine .inl ⟨found, fun tail htail => ?_⟩
        rw [outcome_line, hlabel tail htail]
        dsimp only
        rw [hbody tail htail]
      · refine .inr ⟨fault.inLine number, last, hlast.trans hrest, fun tail htail => ?_⟩
        rw [outcome_line, hlabel tail htail]
        dsimp only
        rw [hbody tail htail]

end Reader

namespace Line

open Reader

/-- The reading of a line whose number was split off. -/
theorem ofTokens?_of_splitNumber {tokens body : List Token} {number : Option Nat}
    (h : splitNumber tokens = .ok (number, body)) :
    ofTokens? tokens =
      match Reader.statements (leftInLine body + 1) body with
      | .ok (statements, _) =>
          if number.isNone && statements.isEmpty then .ok none else .ok (some ⟨number, statements⟩)
      | .error fault => .error (fault.inLine number) := by
  have hlist : lineStatements.outcome body = (Reader.statements (leftInLine body + 1)).outcome body := rfl
  rw [← read_label?] at h
  rw [ofTokens?, outcome_line, outcome_of_ok h]
  dsimp only
  rw [Reader.body, outcome_bind, hlist]
  unfold Reader.read
  rcases (Reader.statements (leftInLine body + 1)).outcome body with ⟨fault | list, rest⟩
  · rfl
  · dsimp only
    rw [outcome_bind]
    cases number.isNone && list.isEmpty <;> rfl

theorem ofTokens?_of_splitNumber_error {tokens : List Token} {fault : Fault}
    (h : splitNumber tokens = .error fault) : ofTokens? tokens = .error fault := by
  rw [← read_label?] at h
  have hlabel := outcome_of_error h
  rw [ofTokens?, outcome_line]
  rcases houtcome : label?.outcome tokens with ⟨result, rest⟩
  rw [houtcome] at hlabel
  cases hlabel
  rfl

end Line

namespace Parsed

open Reader

/-- Two readings, one after the other. -/
def append (first second : Parsed) : Parsed :=
  ⟨first.lines ++ second.lines, first.faults ++ second.faults⟩

theorem cons_append (first second : Parsed) (read : Except Fault (Option Line)) :
    (first.append second).cons read = (first.cons read).append second := by
  rcases read with fault | ⟨_ | line⟩ <;> rfl

/-- The reading of lines that are given by their tokens. -/
def ofLines (lines : List (List Token)) : Parsed :=
  lines.foldr (fun line parsed => parsed.cons (Line.ofTokens? line)) empty

theorem ofLines_cons (line : List Token) (lines : List (List Token)) :
    ofLines (line :: lines) = (ofLines lines).cons (Line.ofTokens? line) := rfl

theorem ofLines_append (lines others : List (List Token)) :
    ofLines (lines ++ others) = (ofLines lines).append (ofLines others) := by
  induction lines with
  | nil => rfl
  | cons line lines ih => rw [List.cons_append, ofLines_cons, ih, cons_append, ofLines_cons]

/-- One line of a source is read as if it stood alone, and then what comes behind it. -/
theorem readLines_line {line tail : List Token} (hline : InLine line) (htail : AtLineEnd tail)
    (hsome : kindAt (line ++ tail) ≠ .eof) (budget : Nat) :
    readLines (budget + 1) (line ++ tail) = (readLines budget (skipLine tail)).cons (Line.ofTokens? line) := by
  rw [readLines, if_neg hsome, Line.ofTokens?]
  obtain ⟨found, houtcome⟩ | ⟨fault, rest, hrest, houtcome⟩ := exists_outcome_line hline
  · have halone := houtcome [] rfl
    rw [List.append_nil] at halone
    rw [houtcome tail htail, halone]
  · have halone := houtcome [] rfl
    rw [List.append_nil] at halone
    rw [houtcome tail htail, halone]
    dsimp only
    rw [skipLine_append (hline.of_suffix hrest)]

theorem readLines_nil {tokens : List Token} (h : kindAt tokens = .eof) (budget : Nat) :
    readLines budget tokens = empty := by
  cases budget with
  | zero => rfl
  | succ budget => rw [readLines, if_pos h]

theorem readLines_eq {budget : Nat} {tokens : List Token} (h : tokens.length < budget) :
    readLines budget tokens = ofLines (splitLines (tokens.takeWhile (·.kind != .eof))) := by
  induction budget generalizing tokens with
  | zero => omega
  | succ budget ih =>
      obtain ⟨line, tail, rfl, hline, htail⟩ := exists_line tokens
      rw [takeWhile_inLine hline]
      obtain hend | ⟨token, rest, rfl, hkind⟩ := htail.cases
      · rw [takeWhile_atEnd hend, List.append_nil, splitLines_inLine (hline.ne rfl)]
        cases line with
        | nil => exact readLines_nil hend _
        | cons first others =>
            rw [readLines_line hline htail (hline.kindAt_ne_eof tail), skipLine_atEnd hend, readLines_nil hend]
            rfl
      · have hsome : kindAt (line ++ token :: rest) ≠ .eof := by
          cases line with
          | nil =>
              change token.kind ≠ .eof
              rw [hkind]
              nofun
          | cons first others => exact hline.kindAt_ne_eof _
        have hskip : skipLine (token :: rest) = rest := by rw [skipLine, hkind]
        have hlength : rest.length < budget := by
          rw [List.length_append, List.length_cons] at h
          omega
        rw [readLines_line hline htail hsome, hskip, ih hlength,
          List.takeWhile_cons_of_pos (by simp [hkind]), splitLines_append hkind,
          splitLines_inLine (hline.ne rfl), List.singleton_append, ofLines_cons]

/-- **The lines of a source are read apart**: each as if it stood alone, up to the end of the source. -/
theorem ofTokens_eq (tokens : List Token) :
    ofTokens tokens = ofLines (splitLines (tokens.takeWhile (·.kind != .eof))) :=
  readLines_eq (Nat.lt_succ_self tokens.length)

/-- The end token of a text is the only one, so that all its lines are read. -/
theorem ofTokens_lex (text : String) :
    ofTokens (Token.lex text) = ofLines (splitLines (Token.Scanner.ofText text.toList).tokens) := by
  have hkind : ∀ token ∈ (Token.Scanner.ofText text.toList).tokens, (token.kind != .eof) = true := by
    intro token hmem
    simpa using Token.Scanner.kind_ne_eof _ token hmem
  rw [ofTokens_eq, Token.lex, List.takeWhile_append_of_pos hkind]
  simp [Token.endOfInput]

/-- A line feed ends a line of text, whatever the line is like. The character that marks the end of a
listing would hide what follows it. -/
theorem ofTokens_lex_newline (piece rest : List Char) (hmark : Token.endMark ∉ piece) :
    ofTokens (Token.lex (String.ofList (piece ++ '\n' :: rest))) =
      (ofTokens (Token.lex (String.ofList piece))).append (ofTokens (Token.lex (String.ofList rest))) := by
  have htokens := Token.Scanner.tokens_extend_newline rest (Token.Scanner.ofText piece) hmark
  rw [ofTokens_lex, ofTokens_lex, ofTokens_lex, String.toList_ofList, String.toList_ofList, String.toList_ofList,
    ← ofLines_append, ← splitLines_append_endOfLine, ← htokens]
  rfl

/-- The reading of two texts joined by a line feed. The character that marks the end of a listing
would hide what follows the first text. -/
theorem ofTokens_lex_append_newline (a b : String) (hmark : Token.endMark ∉ a.toList) :
    (ofTokens (Token.lex (a ++ "\n" ++ b))).lines =
        (ofTokens (Token.lex a)).lines ++ (ofTokens (Token.lex b)).lines ∧
      (ofTokens (Token.lex (a ++ "\n" ++ b))).faults =
        (ofTokens (Token.lex a)).faults ++ (ofTokens (Token.lex b)).faults := by
  have htext : a ++ "\n" ++ b = String.ofList (a.toList ++ '\n' :: b.toList) := by
    rw [← String.toList_inj]
    simp
  have hwhole := ofTokens_lex_newline a.toList b.toList hmark
  rw [← htext, String.ofList_toList, String.ofList_toList] at hwhole
  rw [hwhole]
  exact ⟨rfl, rfl⟩

/-- An open string and an open parenthesis leave the next line alone. -/
theorem ofTokens_lex_open_string :
    Token.endMark ∉ "10 PRINT (\"".toList ∧
      (ofTokens (Token.lex ("10 PRINT (\"" ++ "\n" ++ "20 CLS"))).lines =
        (ofTokens (Token.lex "10 PRINT (\"")).lines ++ (ofTokens (Token.lex "20 CLS")).lines ∧
      (ofTokens (Token.lex ("10 PRINT (\"" ++ "\n" ++ "20 CLS"))).faults =
        (ofTokens (Token.lex "10 PRINT (\"")).faults ++ (ofTokens (Token.lex "20 CLS")).faults :=
  ⟨by decide, ofTokens_lex_append_newline _ _ (by decide)⟩

end Parsed

end LineBasic
