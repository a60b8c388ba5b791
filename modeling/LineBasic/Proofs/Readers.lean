import LineBasic.Code.StatementReader

/-! Readers by what they do to the tokens in front of them. A reader is opened up here and nowhere
else: one equation for each of the small readers, and one for readers in a row. -/

namespace LineBasic.Reader

section Run

variable {α β : Type} {reader : Reader α} {next : α → Reader β} {tokens rest : List Token} {value : α}
  {fault : Fault}

/-- What a reader reads off tokens, when it does not matter where it fails. -/
def read (reader : Reader α) (tokens : List Token) : Except Fault (α × List Token) :=
  match reader.outcome tokens with
  | (.ok value, rest) => .ok (value, rest)
  | (.error fault, _) => .error fault

instance : CoeFun (Reader α) fun _ => List Token → Except Fault (α × List Token) := ⟨read⟩

theorem outcome_of_ok (h : reader tokens = .ok (value, rest)) : reader.outcome tokens = (.ok value, rest) := by
  unfold read at h
  split at h
  · rename_i houtcome
    cases h
    exact houtcome
  · cases h

theorem outcome_of_error (h : reader tokens = .error fault) : (reader.outcome tokens).1 = .error fault := by
  unfold read at h
  split at h
  · cases h
  · rename_i houtcome
    cases h
    rw [houtcome]

theorem outcome_bind (reader : Reader α) (next : α → Reader β) (tokens : List Token) :
    (reader >>= next).outcome tokens =
      match reader.outcome tokens with
      | (.ok value, rest) => (next value).outcome rest
      | (.error fault, rest) => (.error fault, rest) := rfl

theorem outcome_tryCatch (reader : Reader α) (handle : Fault → Reader α) (tokens : List Token) :
    (tryCatch reader handle).outcome tokens =
      match reader.outcome tokens with
      | (.ok value, rest) => (.ok value, rest)
      | (.error fault, rest) => (handle fault).outcome rest := rfl

/-- Readers one after the other: a fault of the first skips the second. -/
theorem run_bind (reader : Reader α) (next : α → Reader β) (tokens : List Token) :
    (reader >>= next) tokens =
      match reader tokens with
      | .ok (value, rest) => next value rest
      | .error fault => .error fault := by
  unfold read
  rw [outcome_bind]
  rcases reader.outcome tokens with ⟨fault | value, rest⟩ <;> rfl

theorem bind_ok (h : reader tokens = .ok (value, rest)) :
    (reader >>= next) tokens = next value rest := by
  rw [run_bind, h]

theorem bind_error (h : reader tokens = .error fault) :
    (reader >>= next) tokens = .error fault := by
  rw [run_bind, h]

theorem run_pure (value : α) (tokens : List Token) :
    (pure value : Reader α) tokens = .ok (value, tokens) := rfl

/-- What a reader in a row has given was given by the first and the second. -/
theorem bind_eq_ok {result : β} (h : (reader >>= next) tokens = .ok (result, rest)) :
    ∃ value after, reader tokens = .ok (value, after) ∧ next value after = .ok (result, rest) := by
  rw [run_bind] at h
  cases hfirst : reader tokens with
  | error fault =>
      rw [hfirst] at h
      cases h
  | ok found =>
      obtain ⟨value, after⟩ := found
      rw [hfirst] at h
      exact ⟨value, after, rfl, h⟩

theorem run_map (f : α → β) (reader : Reader α) (tokens : List Token) :
    (f <$> reader) tokens =
      match reader tokens with
      | .ok (value, rest) => .ok (f value, rest)
      | .error fault => .error fault := by
  change (reader >>= fun value => pure (f value)) tokens = _
  rw [run_bind]
  rcases reader tokens with fault | ⟨value, rest⟩ <;> rfl

end Run

@[simp]
theorem kindAt_cons (token : Token) (tokens : List Token) : kindAt (token :: tokens) = token.kind := rfl

theorem kindAt_ne {token : Token} {kind : Token.Kind} (h : token.kind ≠ kind) (tokens : List Token) :
    kindAt (token :: tokens) ≠ kind := h

@[simp]
theorem kindAt_nil : kindAt [] = .eof := rfl

theorem leftInLine_cons {token : Token} (h : token.kind.endsLine = false) (tokens : List Token) :
    leftInLine (token :: tokens) = leftInLine tokens + 1 := by
  rw [leftInLine, List.takeWhile_cons_of_pos (by simp [h]), List.length_cons, leftInLine]

/-- Tokens of one line, without a token that ends it. -/
def InLine (line : List Token) : Prop := ∀ token ∈ line, token.kind.endsLine = false

theorem InLine.of_suffix {line rest : List Token} (h : InLine line) (hrest : rest <:+ line) : InLine rest :=
  fun token hmem => h token (hrest.subset hmem)

theorem InLine.tail {token : Token} {rest : List Token} (h : InLine (token :: rest)) : InLine rest :=
  h.of_suffix (List.suffix_cons token rest)

theorem inLine_of_ne {tokens : List Token} (heol : ∀ token ∈ tokens, token.kind ≠ .eol)
    (heof : ∀ token ∈ tokens, token.kind ≠ .eof) : InLine tokens := by
  intro token hmem
  rw [Bool.eq_false_iff]
  intro hend
  rcases Token.Kind.endsLine_iff.mp hend with hkind | hkind
  · exact heol token hmem hkind
  · exact heof token hmem hkind

theorem leftInLine_append {line : List Token} (h : InLine line) (rest : List Token) :
    leftInLine (line ++ rest) = line.length + leftInLine rest := by
  induction line with
  | nil => rw [List.nil_append, List.length_nil, Nat.zero_add]
  | cons token others ih =>
      rw [List.cons_append, leftInLine_cons (h token List.mem_cons_self), ih h.tail, List.length_cons]
      omega

theorem leftInLine_le_append (tokens more : List Token) : leftInLine tokens ≤ leftInLine (tokens ++ more) := by
  induction tokens with
  | nil => exact Nat.zero_le _
  | cons token rest ih =>
      cases hkind : token.kind.endsLine with
      | true =>
          rw [leftInLine, List.takeWhile_cons_of_neg (by simp [hkind])]
          exact Nat.zero_le _
      | false =>
          rw [List.cons_append, leftInLine_cons hkind, leftInLine_cons hkind]
          exact Nat.succ_le_succ ih

theorem InLine.leftInLine_eq {line : List Token} (h : InLine line) : leftInLine line = line.length := by
  have hleft := leftInLine_append h []
  rwa [List.append_nil] at hleft

section Small

variable {kind : Token.Kind} {token : Token} {tokens : List Token}

theorem run_peekKind (tokens : List Token) : peekKind tokens = .ok (kindAt tokens, tokens) := rfl

theorem run_tokensLeft (tokens : List Token) : tokensLeft tokens = .ok (leftInLine tokens, tokens) := rfl

/-- A reader that asks how many tokens are left in the line. -/
theorem run_sized {α : Type} (reader : Nat → Reader α) (tokens : List Token) :
    (tokensLeft >>= reader) tokens = reader (leftInLine tokens) tokens := bind_ok (run_tokensLeft tokens)

theorem run_next_cons (token : Token) (tokens : List Token) :
    next (token :: tokens) = .ok (token, if token.kind.endsLine then token :: tokens else tokens) := rfl

theorem run_next (h : token.kind.endsLine = false) (tokens : List Token) :
    next (token :: tokens) = .ok (token, tokens) := by
  rw [run_next_cons, h]
  rfl

theorem accept_pos (h : token.kind = kind) (hkind : kind.endsLine = false) :
    accept kind (token :: tokens) = .ok (true, tokens) := by
  rw [accept, bind_ok (run_peekKind _), kindAt_cons, if_pos h, bind_ok (run_next (by rw [h, hkind]) tokens)]
  rfl

theorem accept_neg (h : kindAt tokens ≠ kind) : accept kind tokens = .ok (false, tokens) := by
  rw [accept, bind_ok (run_peekKind _), if_neg h]
  rfl

theorem expect_pos (h : token.kind = kind) (hkind : kind.endsLine = false) :
    expect kind (token :: tokens) = .ok ((), tokens) := by
  rw [expect, bind_ok (run_next (by rw [h, hkind]) tokens), if_pos h]
  rfl

/-- Whether a statement may end before the tokens. -/
def Ended (tokens : List Token) : Prop :=
  (kindAt tokens).isTerminator = true ∨ kindAt tokens = .keyword .ELSE

theorem run_atEnd (tokens : List Token) :
    atEnd tokens =
      .ok ((kindAt tokens).isTerminator || kindAt tokens == .keyword .ELSE, tokens) := rfl

theorem atEnd_iff : atEnd tokens = .ok (true, tokens) ↔ Ended tokens := by
  rw [run_atEnd, Ended]
  simp

theorem atEnd_pos (h : Ended tokens) : atEnd tokens = .ok (true, tokens) := atEnd_iff.mpr h

theorem atEnd_neg (h : ¬Ended tokens) : atEnd tokens = .ok (false, tokens) := by
  rw [run_atEnd]
  rw [Ended, not_or] at h
  simp [h]

/-- No token that goes on with a statement comes where the statement ends. -/
theorem Ended.ne (h : Ended tokens) (hkind : kind.isTerminator = false) (helse : kind ≠ .keyword .ELSE) :
    kindAt tokens ≠ kind := by
  rintro rfl
  rcases h with h | h
  · rw [hkind] at h
    cases h
  · exact helse h

theorem ended_nil : Ended [] := .inl rfl

theorem ended_cons (h : token.kind = .colon ∨ token.kind = .keyword .ELSE) : Ended (token :: tokens) := by
  rcases h with h | h
  · exact .inl (by rw [kindAt_cons, h]; rfl)
  · exact .inr h

theorem run_name (h : token.kind = .ident) :
    name (token :: tokens) = .ok (.ofWord token.literal, tokens) := by
  rw [name, bind_ok (run_next (by rw [h]; rfl) tokens), if_pos h]
  rfl

/-- A number stands in its line. -/
theorem endsLine_of_isNumber {kind : Token.Kind} (h : kind.isNumber = true) : kind.endsLine = false := by
  cases kind <;> first | rfl | cases h

theorem run_lineRef (h : token.kind.isNumber = true) :
    lineRef (token :: tokens) =
      match Literal.lineNumber token.literal with
      | .ok value => .ok (value, tokens)
      | .error fault => .error fault := by
  rw [lineRef, bind_ok (run_next (endsLine_of_isNumber h) tokens), if_pos h]
  cases Literal.lineNumber token.literal <;> rfl

theorem lineRef?_neg (h : (kindAt tokens).isNumber = false) : lineRef? tokens = .ok (none, tokens) := by
  rw [lineRef?, bind_ok (run_peekKind _), h]
  rfl

theorem lineRef?_pos {value : Nat} {rest : List Token} (h : (kindAt tokens).isNumber = true)
    (hread : lineRef tokens = .ok (value, rest)) : lineRef? tokens = .ok (some value, rest) := by
  rw [lineRef?, bind_ok (run_peekKind _), h, if_pos rfl, bind_ok hread]
  rfl

end Small

end LineBasic.Reader
