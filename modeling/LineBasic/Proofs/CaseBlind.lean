import LineBasic.Proofs.Evaluation
import LineBasic.Proofs.Legibility
import LineBasic.Proofs.LetterCase

/-! Letter case in reading. A reader looks at the text of a token as a name, as a constant or as a line
number, and each is the same in capitals; only quoted and verbatim text is kept as it stands. Of what is
no token at all a reader sees only whether it is a string without an end. So texts that differ in letter
case alone are read as the same lines with the same faults, where nothing is quoted or verbatim. -/

namespace LineBasic

section Constants

namespace Number

theorem exponentPart?_capitals (text : List Char) : exponentPart? (text.map Char.toUpper) = exponentPart? text := by
  cases text with
  | nil => rfl
  | cons mark rest =>
      rw [List.map_cons, exponentPart?, exponentPart?, splitSign_capitals, Chars.toUpper_toUpper]
      dsimp only
      rw [all_capitals Chars.isDigit_toUpper, List.isEmpty_map]
      split
      · rename_i hdigits
        rw [Bool.and_eq_true] at hdigits
        rw [capitals_of_isDigit hdigits.2]
      · rfl

theorem ofText?_capitals (text : List Char) : Written.ofText? (text.map Char.toUpper) = Written.ofText? text := by
  have hdigits : ∀ more : List Char,
      (more.takeWhile Char.isDigit).map Char.toUpper = more.takeWhile Char.isDigit := by
    intro more
    apply capitals_of_isDigit
    exact List.all_eq_true.mpr fun c hc => List.mem_takeWhile_imp hc
  unfold Written.ofText?
  rw [splitSign_capitals]
  dsimp only
  rw [takeWhile_capitals Chars.isDigit_toUpper, dropWhile_capitals Chars.isDigit_toUpper, hdigits]
  cases (splitSign text).2.dropWhile Char.isDigit with
  | nil => rfl
  | cons c rest =>
      by_cases hpoint : c = '.'
      · subst hpoint
        have hup : '.'.toUpper = '.' := rfl
        simp only [List.map_cons, hup, takeWhile_capitals Chars.isDigit_toUpper,
          dropWhile_capitals Chars.isDigit_toUpper, hdigits, exponentPart?_capitals]
      · have hup : c.toUpper ≠ '.' := fun h => hpoint ((Chars.toUpper_eq_iff rfl).mp h)
        have hexponent := exponentPart?_capitals (c :: rest)
        rw [List.map_cons] at hexponent
        simp [hpoint, hup, hexponent]

end Number

namespace Literal

theorem digitValue_toUpper (c : Char) : digitValue c.toUpper = digitValue c := by
  unfold digitValue
  rw [Chars.isDigit_toUpper, Chars.toUpper_toUpper]
  split
  · rename_i hdigit
    have hletter : c.isAlpha = false := by
      rw [Chars.isDigit_iff] at hdigit
      rw [← Bool.not_eq_true, Chars.isAlpha_iff]
      omega
    rw [Chars.toUpper_of_not_isAlpha hletter]
  · rfl

theorem bits_capitals (base : Nat) (digits : List Char) : bits base (digits.map Char.toUpper) = bits base digits := by
  unfold bits
  simp only [List.foldl_map, digitValue_toUpper, List.isEmpty_map]

theorem single_capitals (text : List Char) : single (text.map Char.toUpper) = single text := by
  rw [single, single, Number.ofText?_capitals]

theorem double_capitals (text : List Char) : double (text.map Char.toUpper) = double text := by
  rw [double, double, Number.ofText?_capitals]

/-- Either case of a letter stands for both. -/
theorem beq_letter_toUpper {large small : Char} (h : 65 ≤ large.toNat ∧ large.toNat ≤ 90)
    (hsmall : small.toNat = large.toNat + 32) (c : Char) :
    (c.toUpper == large || c.toUpper == small) = (c == large || c == small) := by
  rw [Bool.eq_iff_iff]
  simp only [Bool.or_eq_true, beq_iff_eq, Chars.eq_iff, Chars.toNat_toUpper]
  split <;> omega

theorem withoutSigil_capitals (literal : List Char) :
    withoutSigil (literal.map Char.toUpper) = (withoutSigil literal).map Char.toUpper := by
  have hsigil : ∀ c : Char, (c.toUpper == '!' || c.toUpper == '#' || c.toUpper == '%') =
      (c == '!' || c == '#' || c == '%') := by
    intro c
    rw [Chars.beq_toUpper rfl, Chars.beq_toUpper rfl, Chars.beq_toUpper rfl]
  have hmark : ∀ c : Char, (if c.toUpper == 'D' || c.toUpper == 'd' then 'E' else c.toUpper) =
      (if c == 'D' || c == 'd' then 'E' else c).toUpper := by
    intro c
    rw [beq_letter_toUpper (by decide) (by decide)]
    split <;> rfl
  unfold withoutSigil
  rw [Text.dropEndWhile_capitals hsigil, List.map_map, List.map_map]
  exact List.map_congr_left fun c _ => hmark c

/-- A constant is the same in capitals. -/
theorem ofToken_capitals (token : Token) : ofToken token.capitals = ofToken token := by
  obtain ⟨kind, literal⟩ := token
  have htext : (Text.upper literal).toList = literal.toList.map Char.toUpper := by
    rw [Text.upper, String.toList_map]
  unfold ofToken Token.capitals
  dsimp only
  rw [htext, withoutSigil_capitals]
  split
  · rw [Number.int16?_capitals]
  · rw [filter_capitals Chars.isDigit_toUpper, dropWhile_capitals (Chars.beq_toUpper rfl), List.length_map,
      double_capitals, single_capitals]
  · exact single_capitals _
  · exact double_capitals _
  · rw [← List.map_drop, bits_capitals]
  · rw [dropWhile_capitals (Chars.beq_toUpper rfl),
      dropWhile_capitals (beq_letter_toUpper (by decide) (by decide)), bits_capitals]
  · rfl

theorem lineNumber_upper (literal : String) : lineNumber (Text.upper literal) = lineNumber literal := by
  have htext : (Text.upper literal).toList = literal.toList.map Char.toUpper := by
    rw [Text.upper, String.toList_map]
  unfold lineNumber
  dsimp only
  rw [htext, List.isEmpty_map, all_capitals Chars.isDigit_toUpper]
  split
  · rfl
  · rename_i hdigits
    rw [Bool.or_eq_true, not_or, Bool.not_eq_true', Bool.not_eq_false] at hdigits
    rw [capitals_of_isDigit hdigits.2]

end Literal

end Constants

/-- The token as readers see it: in capitals, unless its text is kept as it stands; and what is no token
only as a string without an end or not. -/
def Token.folded (token : Token) : Token :=
  match token.kind with
  | .text | .raw => token
  | .illegal => ⟨.illegal, if Reader.isOpenString token then "\"" else ""⟩
  | _ => token.capitals

namespace Token

variable (token : Token)

@[simp]
theorem kind_folded : token.folded.kind = token.kind := by
  unfold folded
  split <;> first | rfl | exact Eq.symm ‹_›

theorem literal_folded (h : token.kind ≠ .illegal) :
    token.folded.literal = token.literal ∨ token.folded.literal = Text.upper token.literal := by
  unfold folded
  split
  · exact .inl rfl
  · exact .inl rfl
  · exact absurd ‹_› h
  · exact .inr rfl

theorem folded_of_text (h : token.kind = .text) : token.folded = token := by
  rw [folded, h]

theorem ofToken_folded : Literal.ofToken token.folded = Literal.ofToken token := by
  unfold folded
  split
  · rfl
  · rfl
  · rename_i hkind
    rw [Literal.ofToken, Literal.ofToken, hkind]
  · exact Literal.ofToken_capitals token

theorem lineNumber_folded (h : token.kind ≠ .illegal) :
    Literal.lineNumber token.folded.literal = Literal.lineNumber token.literal := by
  rcases token.literal_folded h with h | h
  · rw [h]
  · rw [h, Literal.lineNumber_upper]

/-- A word is the same name in capitals, also after letters in front. -/
theorem ofWord_folded (h : token.kind ≠ .illegal) (lead : String) :
    Name.ofWord (lead ++ token.folded.literal) = Name.ofWord (lead ++ token.literal) := by
  rcases token.literal_folded h with h | h
  · rw [h]
  · rw [h, Name.ofWord, Name.ofWord, Name.mk.injEq]
    apply String.toList_inj.mp
    simp only [Text.upper, String.toList_map, String.toList_append, List.map_append, Text.map_toUpper_toUpper]

theorem isOpenString_folded : Reader.isOpenString token.folded = Reader.isOpenString token := by
  by_cases hkind : token.kind = .illegal
  · rw [folded, hkind]
    dsimp only
    split
    · exact Eq.symm ‹_›
    · exact Eq.symm (Bool.eq_false_of_not_eq_true ‹_›)
  · have hother : (token.kind == .illegal) = false := by rw [beq_eq_false_iff_ne]; exact hkind
    rw [Reader.isOpenString, Reader.isOpenString, kind_folded, hother, Bool.false_and, Bool.false_and]

theorem isOpenString_capitals : Reader.isOpenString token.capitals = Reader.isOpenString token := by
  have hhead : ∀ text : List Char, ((text.map Char.toUpper).head? == some '"') = (text.head? == some '"') := by
    intro text
    cases text with
    | nil => rfl
    | cons c rest => exact Chars.beq_toUpper rfl c
  unfold Reader.isOpenString capitals
  dsimp only
  rw [Text.upper, String.toList_map, hhead]

/-- Readers see a token and the same in capitals as one, unless its text is kept as it stands. -/
theorem folded_capitals (h : token.kind ≠ .text ∧ token.kind ≠ .raw) : token.capitals.folded = token.folded := by
  obtain ⟨htext, hraw⟩ := h
  have hkind : token.capitals.kind = token.kind := rfl
  unfold folded
  rw [isOpenString_capitals, hkind]
  split
  · exact absurd ‹_› htext
  · exact absurd ‹_› hraw
  · rfl
  · rw [capitals, capitals, Token.mk.injEq]
    refine ⟨rfl, String.toList_inj.mp ?_⟩
    rw [Text.upper, Text.upper, String.toList_map, String.toList_map, Text.map_toUpper_toUpper]

end Token

namespace Reader

open Token

/-- A reader that does not tell small letters from capitals: in capitals it gives the same value or the
same fault, and leaves the same tokens in capitals. -/
def Blind {α : Type} (reader : Reader α) : Prop :=
  ∀ tokens : List Token,
    reader (tokens.map folded) = (reader tokens).map fun found => (found.1, found.2.map folded)

section Rules

variable {α β : Type} {reader other : Reader α} {next : α → Reader β}

theorem blind_pure (value : α) : Blind (pure value : Reader α) := fun _ => rfl

theorem blind_throw (fault : Fault) : Blind (throw fault : Reader α) := fun _ => rfl

theorem blind_refuse (detail : String) : Blind (refuse detail : Reader α) := blind_throw _

theorem blind_exhausted : Blind (exhausted : Reader α) := blind_throw _

theorem blind_lift (action : Except Fault α) : Blind (liftM action : Reader α) := by
  intro tokens
  cases action <;> rfl

theorem Blind.bind (h : Blind reader) (hnext : ∀ value, Blind (next value)) : Blind (reader >>= next) := by
  intro tokens
  rw [run_bind, run_bind, h tokens]
  rcases reader tokens with fault | ⟨value, rest⟩
  · rfl
  · exact hnext value rest

theorem Blind.map (h : Blind reader) (f : α → β) : Blind (f <$> reader) := by
  intro tokens
  rw [run_map, run_map, h tokens]
  rcases reader tokens with fault | ⟨value, rest⟩ <;> rfl

theorem Blind.ite {p : Prop} [Decidable p] (h : Blind reader) (hother : Blind other) :
    Blind (if p then reader else other) := by
  by_cases hp : p
  · rwa [if_pos hp]
  · rwa [if_neg hp]

theorem leftInLine_folded (tokens : List Token) : leftInLine (tokens.map folded) = leftInLine tokens := by
  have hkind : (fun token : Token => !token.kind.endsLine) ∘ folded = fun token => !token.kind.endsLine := by
    funext token
    rw [Function.comp_apply, kind_folded]
  rw [leftInLine, leftInLine, List.takeWhile_map, hkind, List.length_map]

/-- What a reader does may depend on how many tokens are left. -/
theorem blind_sized {reader : Nat → Reader α} (h : ∀ count, Blind (reader count)) :
    Blind (tokensLeft >>= reader) := by
  intro tokens
  rw [run_sized, run_sized, leftInLine_folded]
  exact h _ tokens

end Rules

section Small

variable {α : Type}

theorem kindAt_folded (tokens : List Token) : kindAt (tokens.map folded) = kindAt tokens := by
  cases tokens with
  | nil => rfl
  | cons token rest => exact kind_folded token

theorem blind_peekKind : Blind peekKind := by
  intro tokens
  rw [run_peekKind, run_peekKind, kindAt_folded]
  rfl

theorem blind_peekSecondKind : Blind peekSecondKind := by
  intro tokens
  change Except.ok (kindAt (tokens.map folded).tail, _) = Except.ok (kindAt tokens.tail, _)
  rw [← List.map_tail, kindAt_folded]

theorem folded_endOfInput : endOfInput.folded = endOfInput := by
  change endOfInput.capitals = endOfInput
  simp [Token.capitals, Text.upper, endOfInput]

theorem run_next_folded (tokens : List Token) :
    next (tokens.map folded) = (next tokens).map fun found => (found.1.folded, found.2.map folded) := by
  cases tokens with
  | nil =>
      change Except.ok (endOfInput, []) = Except.ok (endOfInput.folded, [])
      rw [folded_endOfInput]
  | cons token rest =>
      change Except.ok (token.folded, if token.folded.kind.endsLine then _ else _) = _
      rw [kind_folded]
      change _ = Except.ok (token.folded, (if token.kind.endsLine then token :: rest else rest).map folded)
      split <;> rfl

/-- The next token is taken by a reader that does with it the same in capitals. -/
theorem Blind.next {reader : Token → Reader α} (hsame : ∀ token, reader token.folded = reader token)
    (h : ∀ token, Blind (reader token)) : Blind (Reader.next >>= reader) := by
  intro tokens
  rw [run_bind, run_bind, run_next_folded]
  rcases Reader.next tokens with fault | ⟨token, rest⟩
  · rfl
  · change reader token.folded (rest.map folded) = _
    rw [hsame]
    exact h token rest

theorem blind_skip {reader : Reader α} (h : Blind reader) : Blind (Reader.next >>= fun _ => reader) :=
  Blind.next (fun _ => rfl) fun _ => h

theorem blind_accept (kind : Kind) : Blind (accept kind) :=
  blind_peekKind.bind fun _ => Blind.ite (blind_skip (blind_pure true)) (blind_pure false)

theorem blind_expect (kind : Kind) : Blind (expect kind) := by
  refine Blind.next (fun token => ?_) fun token => Blind.ite (blind_pure ()) (blind_refuse _)
  rw [kind_folded]

theorem blind_atEnd : Blind atEnd := blind_peekKind.bind fun _ => blind_pure _

theorem blind_atColonElse : Blind atColonElse :=
  blind_peekKind.bind fun _ => Blind.ite (blind_peekSecondKind.bind fun _ => blind_pure _) (blind_pure false)

theorem blind_commaList {item : Reader α} (h : Blind item) (budget : Nat) : Blind (commaList item budget) := by
  induction budget with
  | zero => exact blind_exhausted
  | succ budget ih =>
      refine h.bind fun first => (blind_accept .comma).bind fun found => ?_
      exact Blind.ite (ih.bind fun others => blind_pure _) (blind_pure _)

theorem blind_listOf {item : Reader α} (h : Blind item) : Blind (listOf item) :=
  blind_sized fun _ => blind_commaList h _

/-- The next token is taken only if it is of a kind, by a reader that does with it the same in capitals. -/
theorem Blind.nextOf {kind : Kind} {p : Prop} [Decidable p] {reader : Token → Reader α} {other : Reader α}
    (hsame : ∀ token, token.kind = kind → reader token.folded = reader token)
    (h : ∀ token, Blind (reader token)) (hother : Blind other) :
    Blind (peekKind >>= fun found => if p ∧ found = kind then Reader.next >>= reader else other) := by
  intro tokens
  rw [bind_ok (run_peekKind _), bind_ok (run_peekKind _), kindAt_folded]
  split
  · rename_i hfound
    rw [run_bind, run_bind, run_next_folded]
    cases hnext : Reader.next tokens with
    | error fault => rfl
    | ok found =>
        obtain ⟨token, rest⟩ := found
        have hkind : token.kind = kind := by
          cases hnext
          exact hfound.2
        change reader token.folded (rest.map folded) = _
        rw [hsame token hkind]
        exact h token rest
  · exact hother tokens

theorem ofWord_ident (token : Token) (h : token.kind = .ident) :
    Name.ofWord token.folded.literal = Name.ofWord token.literal := by
  have hword := ofWord_folded token (by rw [h]; decide) ""
  rwa [String.empty_append, String.empty_append] at hword

theorem blind_name : Blind name := by
  refine Blind.next (fun token => ?_) fun token => Blind.ite (blind_pure _) (blind_refuse _)
  rw [kind_folded]
  split
  · rw [ofWord_ident token ‹_›]
  · rfl

theorem blind_lineRef : Blind lineRef := by
  refine Blind.next (fun token => ?_) fun token => Blind.ite (blind_lift _) (blind_refuse _)
  rw [kind_folded]
  split
  · rename_i hnumber
    have hkind : token.kind ≠ .illegal := by
      intro hillegal
      rw [hillegal] at hnumber
      cases hnumber
    rw [lineNumber_folded token hkind]
  · rfl

theorem blind_lineRef? : Blind lineRef? :=
  blind_peekKind.bind fun _ => Blind.ite (blind_lineRef.bind fun _ => blind_pure _) (blind_pure none)

end Small

section Expressions

/-- The readers of expressions with a budget do not tell small letters from capitals. -/
structure ExprsBlind (budget : Nat) : Prop where
  exprAbove : ∀ level, Blind (exprAbove budget level)
  operators : ∀ level left, Blind (operators budget level left)
  operand : Blind (operand budget)
  named : ∀ word, Blind (named budget word)
  arguments : Blind (arguments budget)

variable {budget : Nat}

theorem blind_operators (h : ExprsBlind budget) (level : Level) (left : Expr) :
    Blind (operators (budget + 1) level left) := by
  rw [operators]
  refine blind_peekKind.bind fun kind => ?_
  split
  · refine Blind.ite (blind_pure left) (blind_skip ?_)
    exact (h.exprAbove _).bind fun right => h.operators level _
  · exact blind_pure left

theorem named_folded (budget : Nat) (token : Token) (h : token.kind = .ident) :
    named budget token.folded.literal = named budget token.literal := by
  cases budget with
  | zero => rw [named, named]
  | succ budget => rw [named, named, ofWord_ident token h]

theorem blind_operand (h : ExprsBlind budget) : Blind (operand (budget + 1)) := by
  have hunary : ∀ op, Blind (exprAbove budget .ofUnary >>= fun inner => pure (Expr.unary op inner)) :=
    fun op => (h.exprAbove _).bind fun inner => blind_pure _
  rw [operand]
  refine Blind.next (fun token => ?_) fun token => ?_
  · rw [kind_folded, ofToken_folded, isOpenString_folded]
    split
    all_goals try rfl
    · rename_i hkind
      rw [folded_of_text token hkind]
    · exact named_folded budget token ‹_›
  · split
    · exact hunary .negate
    · exact hunary .positive
    · exact hunary .not
    · exact (h.exprAbove _).bind fun inner => (blind_expect _).bind fun _ => blind_pure inner
    · exact blind_lift _
    · exact blind_lift _
    · exact blind_lift _
    · exact blind_lift _
    · exact blind_lift _
    · exact blind_lift _
    · exact blind_pure _
    · exact h.named _
    · exact blind_pure _
    · exact blind_pure _
    · exact blind_pure _
    · exact blind_pure _
    · exact blind_pure _
    · exact blind_throw _
    · exact blind_throw _
    · exact blind_throw _
    · exact blind_throw _
    · exact Blind.ite (blind_refuse _) (blind_refuse _)

theorem blind_named (h : ExprsBlind budget) (word : String) : Blind (named (budget + 1) word) := by
  have hrest : ∀ name : Name, Blind (accept .leftParen >>= fun paren =>
      if paren then arguments budget >>= fun list =>
        if name.isFunction || (Builtin.ofName? name.spelling).isSome then pure (Expr.call name list)
        else pure (Expr.element name list)
      else if name.isFunction then pure (Expr.call name [])
      else pure (Expr.scalar name)) := by
    intro name
    refine (blind_accept _).bind fun paren => Blind.ite (h.arguments.bind fun list => ?_) ?_
    · exact Blind.ite (blind_pure _) (blind_pure _)
    · exact Blind.ite (blind_pure _) (blind_pure _)
  rw [named]
  refine Blind.nextOf (fun token hkind => ?_) (fun token => hrest _) (hrest _)
  rw [ofWord_folded token (by rw [hkind]; decide)]

theorem blind_arguments (h : ExprsBlind budget) : Blind (arguments (budget + 1)) := by
  rw [arguments]
  refine (h.exprAbove _).bind fun first => Blind.next (fun token => ?_) fun token => ?_
  · rw [kind_folded]
  · split
    · exact blind_pure _
    · exact h.arguments.bind fun others => blind_pure _
    · exact blind_refuse _

theorem exprsBlind (budget : Nat) : ExprsBlind budget := by
  induction budget with
  | zero =>
      refine ⟨fun level => ?_, fun level left => ?_, ?_, fun word => ?_, ?_⟩
      · rw [exprAbove]
        exact blind_exhausted
      · rw [operators]
        exact blind_exhausted
      · rw [operand]
        exact blind_exhausted
      · rw [named]
        exact blind_exhausted
      · rw [arguments]
        exact blind_exhausted
  | succ budget ih =>
      refine ⟨fun level => ?_, blind_operators ih, blind_operand ih, blind_named ih, blind_arguments ih⟩
      rw [exprAbove]
      exact ih.operand.bind fun left => ih.operators level left

theorem blind_expr : Blind expr := blind_sized fun _ => (exprsBlind _).exprAbove .lowest

theorem blind_exprList : Blind exprList := blind_sized fun _ => (exprsBlind _).arguments

theorem blind_target : Blind target := by
  refine blind_name.bind fun name => (blind_accept _).bind fun paren => ?_
  exact Blind.ite (blind_exprList.bind fun list => blind_pure _) (blind_pure _)

theorem blind_positionsFrom (budget : Nat) : Blind (positionsFrom budget) := by
  induction budget with
  | zero => exact blind_exhausted
  | succ budget ih =>
      have hrest : ∀ first : Option Expr, Blind (accept .comma >>= fun found =>
          if found then atEnd >>= fun ended =>
            if ended then refuse "TRAILING COMMA" else positionsFrom budget >>= fun others => pure (first :: others)
          else pure [first]) := by
        intro first
        refine (blind_accept _).bind fun found => Blind.ite (blind_atEnd.bind fun ended => ?_) (blind_pure _)
        exact Blind.ite (blind_refuse _) (ih.bind fun others => blind_pure _)
      refine blind_peekKind.bind fun kind => ?_
      split
      · exact hrest none
      · exact (blind_expr.map some).bind hrest

theorem blind_positions : Blind positions :=
  blind_atEnd.bind fun _ => Blind.ite (blind_pure []) (blind_sized fun _ => blind_positionsFrom _)

end Expressions

section Commands

theorem blind_assignment : Blind assignment :=
  blind_target.bind fun _ => (blind_expect _).bind fun _ => blind_expr.bind fun _ => blind_pure _

theorem blind_auto : Blind auto :=
  blind_lineRef?.bind fun _ => (blind_accept _).bind fun _ =>
    Blind.ite (blind_lineRef.bind fun _ => blind_pure _) (blind_pure _)

theorem blind_chain : Blind chain := by
  refine blind_expr.bind fun path => (blind_accept _).bind fun comma => Blind.ite ?_ (blind_pure _)
  refine blind_lineRef?.bind fun line => (blind_accept _).bind fun second => Blind.ite ?_ (blind_pure _)
  exact (blind_expect _).bind fun _ => blind_pure _

/-- An item of DATA keeps the letters it is written with, in the token as well. -/
theorem blind_datum : Blind datum := by
  intro tokens
  cases tokens with
  | nil => rfl
  | cons token rest =>
      obtain ⟨kind, literal⟩ := token
      cases kind <;> rfl

theorem blind_remark :
    Blind (peekKind >>= fun kind =>
      if kind = .raw then Reader.next >>= fun token => pure (Command.remark token.literal)
      else pure (Command.remark "")) := by
  intro tokens
  cases tokens with
  | nil => rfl
  | cons token rest =>
      obtain ⟨kind, literal⟩ := token
      cases kind <;> rfl

theorem blind_functionName : Blind functionName := by
  have hrest : ∀ whole : Name, Blind (if whole.isFunction then pure whole else refuse "EXPECTED FN") :=
    fun whole => Blind.ite (blind_pure whole) (blind_refuse _)
  refine blind_name.bind fun first => ?_
  split
  · exact blind_name.bind fun second => hrest _
  · exact hrest first

theorem blind_definition : Blind definition := by
  have hrest : ∀ function parameters, Blind (expect .eq >>= fun _ =>
      expr >>= fun body => pure (Command.define function parameters body)) :=
    fun function parameters => (blind_expect _).bind fun _ => blind_expr.bind fun body => blind_pure _
  refine blind_functionName.bind fun function => (blind_accept _).bind fun paren => ?_
  split
  · exact (blind_listOf blind_name).bind fun list => (blind_expect _).bind fun _ => hrest function list
  · exact hrest function []

theorem blind_forLoop : Blind forLoop := by
  refine blind_name.bind fun counter => (blind_expect _).bind fun _ => blind_expr.bind fun start => ?_
  refine (blind_expect _).bind fun _ => blind_expr.bind fun limit => (blind_accept _).bind fun step => ?_
  exact Blind.ite (blind_expr.bind fun _ => blind_pure _) (blind_pure _)

theorem blind_list : Blind list :=
  blind_lineRef?.bind fun _ => (blind_accept _).bind fun _ =>
    Blind.ite (blind_lineRef?.bind fun _ => blind_pure _) (blind_pure _)

theorem blind_load : Blind load := by
  refine blind_expr.bind fun path => (blind_accept _).bind fun comma => Blind.ite ?_ (blind_pure _)
  exact blind_name.bind fun letter => Blind.ite (blind_pure _) (blind_refuse _)

theorem blind_trapOrJump : Blind trapOrJump := by
  refine (blind_accept _).bind fun trap => Blind.ite ?_ ?_
  · exact (blind_expect _).bind fun _ => blind_lineRef.bind fun line => blind_pure _
  · refine blind_expr.bind fun selector => Blind.next (fun token => ?_) fun token => ?_
    · rw [kind_folded]
    · split
      · exact (blind_listOf blind_lineRef).bind fun lines => blind_pure _
      · exact (blind_listOf blind_lineRef).bind fun lines => blind_pure _
      · exact blind_refuse _

theorem blind_printItems (budget : Nat) : Blind (printItems budget) := by
  induction budget with
  | zero => exact blind_exhausted
  | succ budget ih =>
      have hrest : ∀ item, Blind (printItems budget >>= fun items => pure (item :: items)) :=
        fun item => ih.bind fun items => blind_pure _
      have hsign : ∀ item : PrintItem, Blind ((fun _ => item) <$> Reader.next) :=
        fun item => blind_skip (blind_pure item)
      refine blind_atEnd.bind fun ended => Blind.ite (blind_pure []) (blind_peekKind.bind fun kind => ?_)
      split
      · exact (hsign .comma).bind hrest
      · exact (hsign .semicolon).bind hrest
      · exact (blind_refuse _).bind hrest
      · exact (blind_expr.map PrintItem.expr).bind hrest

theorem blind_resume : Blind resume := by
  refine (blind_accept _).bind fun next => Blind.ite (blind_pure _) (blind_lineRef?.bind fun line => ?_)
  split <;> exact blind_pure _

theorem blind_runOrLoad : Blind runOrLoad := by
  refine blind_atEnd.bind fun ended => Blind.ite (blind_pure _) (blind_peekKind.bind fun kind => Blind.ite ?_ ?_)
  · exact blind_lineRef.bind fun line => blind_pure _
  · refine blind_expr.bind fun path => (blind_accept _).bind fun comma => Blind.ite ?_ (blind_pure _)
    exact blind_name.bind fun _ => blind_pure _

theorem command_folded (token : Token) : command token.folded = command token := by
  unfold command
  rw [kind_folded, isOpenString_folded]

/-- A value that a reader gives, put into a statement. -/
theorem Blind.builds {α : Type} {reader : Reader α} (h : Blind reader) (f : α → Command) :
    Blind (reader >>= fun value => pure (f value)) :=
  h.bind fun value => blind_pure (f value)

/-- A value that may be left out at the end of a statement. -/
theorem Blind.optional {α : Type} {reader : Reader α} (h : Blind reader) (without : Command) (f : α → Command) :
    Blind (atEnd >>= fun ended => if ended then pure without else reader >>= fun value => pure (f value)) :=
  blind_atEnd.bind fun _ => Blind.ite (blind_pure without) (h.builds f)

theorem blind_command (token : Token) : Blind (command token) := by
  unfold command
  split
  · exact blind_assignment
  · exact blind_auto
  · exact blind_pure _
  · exact blind_chain
  · exact blind_positions.builds _
  · exact blind_pure _
  · exact blind_positions.builds _
  · exact (blind_listOf blind_name).builds _
  · exact blind_pure _
  · exact (blind_listOf blind_datum).builds _
  · exact blind_definition
  · exact (blind_listOf blind_target).builds _
  · exact blind_pure _
  · exact blind_expr.builds _
  · exact blind_expr.optional _ fun pattern => .files (some pattern)
  · exact blind_forLoop
  · exact blind_lineRef.builds _
  · exact blind_lineRef.builds _
  · exact blind_expr.bind fun number => (blind_expect _).bind fun _ => blind_expr.builds _
  · exact blind_list
  · exact blind_load
  · exact blind_positions.builds _
  · exact blind_expr.builds _
  · exact blind_pure _
  · exact (blind_listOf blind_name).optional _ _
  · exact blind_trapOrJump
  · exact blind_positions.builds _
  · exact blind_sized fun _ => (blind_printItems _).builds _
  · exact (blind_listOf blind_target).builds _
  · exact blind_remark
  · exact blind_lineRef?.builds _
  · exact blind_resume
  · exact blind_lineRef?.builds _
  · exact blind_runOrLoad
  · exact blind_positions.builds _
  · exact blind_pure _
  · exact blind_pure _
  · exact blind_pure _
  · exact blind_pure _
  · exact blind_expr.builds _
  · exact Blind.ite (blind_refuse _) (blind_refuse _)

end Commands

section Statements

/-- The readers of statements with a budget do not tell small letters from capitals. -/
structure StatementsBlind (budget : Nat) : Prop where
  statement : Blind (statementWithin budget)
  choice : Blind (choice budget)
  branch : Blind (branch budget)
  statements : Blind (branchStatements budget)

variable {budget : Nat}

theorem blind_statementWithin (h : StatementsBlind budget) : Blind (statementWithin (budget + 1)) := by
  rw [statementWithin]
  refine blind_peekKind.bind fun kind => Blind.ite (blind_assignment.bind fun _ => blind_pure _) ?_
  refine Blind.next (fun token => ?_) fun token => Blind.ite h.choice ?_
  · rw [kind_folded, command_folded]
  · exact (blind_command token).bind fun _ => blind_pure _

theorem blind_choice (h : StatementsBlind budget) : Blind (choice (budget + 1)) := by
  have helse : ∀ condition thenList, Blind (accept (.keyword .ELSE) >>= fun found =>
      if found then branch budget >>= fun elseList => pure (Statement.choice condition thenList elseList)
      else pure (Statement.choice condition thenList [])) :=
    fun condition thenList => (blind_accept _).bind fun found =>
      Blind.ite (h.branch.bind fun _ => blind_pure _) (blind_pure _)
  have hrest : ∀ condition thenList, Blind (atColonElse >>= fun colon =>
      if colon then Reader.next >>= fun _ =>
        accept (.keyword .ELSE) >>= fun found =>
          if found then branch budget >>= fun elseList => pure (Statement.choice condition thenList elseList)
          else pure (Statement.choice condition thenList [])
      else accept (.keyword .ELSE) >>= fun found =>
          if found then branch budget >>= fun elseList => pure (Statement.choice condition thenList elseList)
          else pure (Statement.choice condition thenList [])) := by
    intro condition thenList
    refine blind_atColonElse.bind fun colon => ?_
    exact Blind.ite (blind_skip (helse condition thenList)) (helse condition thenList)
  rw [choice]
  refine blind_expr.bind fun condition => Blind.next (fun token => ?_) fun token => ?_
  · rw [kind_folded]
  · split
    · exact h.branch.bind (hrest condition)
    · exact (blind_lineRef.map _).bind (hrest condition)
    · exact (blind_refuse _).bind (hrest condition)

theorem blind_branch (h : StatementsBlind budget) : Blind (branch (budget + 1)) := by
  rw [branch]
  refine blind_peekKind.bind fun kind => Blind.ite (blind_lineRef.bind fun _ => blind_pure _) ?_
  refine h.statements.bind fun list => ?_
  cases list with
  | nil => exact blind_refuse _
  | cons s others => exact blind_pure _

theorem blind_branchStatements (h : StatementsBlind budget) : Blind (branchStatements (budget + 1)) := by
  rw [branchStatements]
  refine blind_peekKind.bind fun kind => ?_
  split
  · exact blind_pure []
  · exact blind_pure []
  · exact blind_pure []
  · exact blind_peekSecondKind.bind fun second => Blind.ite (blind_pure []) (blind_skip h.statements)
  · refine h.statement.bind fun first => blind_atEnd.bind fun ended => Blind.ite ?_ (blind_refuse _)
    exact h.statements.bind fun others => blind_pure _

theorem statementsBlind (budget : Nat) : StatementsBlind budget := by
  induction budget with
  | zero =>
      refine ⟨?_, ?_, ?_, ?_⟩
      · rw [statementWithin]
        exact blind_exhausted
      · rw [choice]
        exact blind_exhausted
      · rw [branch]
        exact blind_exhausted
      · rw [branchStatements]
        exact blind_exhausted
  | succ budget ih =>
      exact ⟨blind_statementWithin ih, blind_choice ih, blind_branch ih, blind_branchStatements ih⟩

/-- **Statements are read without regard to letter case.** -/
theorem blind_statements (budget : Nat) : Blind (statements budget) := by
  induction budget with
  | zero => exact blind_exhausted
  | succ budget ih =>
      refine blind_peekKind.bind fun kind => ?_
      split
      · exact blind_pure []
      · exact blind_pure []
      · exact blind_skip ih
      · have hstatement : Blind statement := blind_sized fun _ => (statementsBlind _).statement
        refine hstatement.bind fun first => blind_peekKind.bind fun kind => Blind.ite ?_ (blind_refuse _)
        exact ih.bind fun others => blind_pure _

end Statements

end Reader

open Token

namespace Line

theorem splitNumber_folded (tokens : List Token) :
    splitNumber (tokens.map folded) = (splitNumber tokens).map fun found => (found.1, found.2.map folded) := by
  cases tokens with
  | nil => rfl
  | cons token rest =>
      rw [List.map_cons, splitNumber, splitNumber, kind_folded]
      split
      · rename_i hkind
        rw [lineNumber_folded token (by rw [hkind]; decide)]
        cases Literal.lineNumber token.literal <;> rfl
      · rfl

/-- A line is read without regard to letter case. -/
theorem ofTokens?_folded (tokens : List Token) : ofTokens? (tokens.map folded) = ofTokens? tokens := by
  cases hsplit : splitNumber tokens with
  | error fault =>
      have hfolded := splitNumber_folded tokens
      rw [hsplit] at hfolded
      rw [ofTokens?_of_splitNumber_error hfolded, ofTokens?_of_splitNumber_error hsplit]
  | ok found =>
      obtain ⟨number, body⟩ := found
      have hfolded := splitNumber_folded tokens
      rw [hsplit] at hfolded
      rw [ofTokens?_of_splitNumber hfolded, ofTokens?_of_splitNumber hsplit, Reader.leftInLine_folded,
        Reader.blind_statements _ body]
      rcases Reader.statements (Reader.leftInLine body + 1) body with fault | ⟨statements, rest⟩ <;> rfl

end Line

theorem splitLines_folded (tokens : List Token) :
    splitLines (tokens.map folded) = (splitLines tokens).map (List.map folded) := by
  induction tokens with
  | nil => rfl
  | cons token rest ih =>
      rw [List.map_cons, splitLines, splitLines, kind_folded, ih]
      split
      · rfl
      · cases splitLines rest <;> rfl

/-- **The lines of a list of tokens and their faults do not depend on letter case.** -/
theorem Parsed.ofTokens_folded (tokens : List Token) : ofTokens (tokens.map folded) = ofTokens tokens := by
  have hline : (fun (line : List Token) (parsed : Parsed) => parsed.cons (Line.ofTokens? (line.map folded))) =
      fun line parsed => parsed.cons (Line.ofTokens? line) := by
    funext line parsed
    rw [Line.ofTokens?_folded]
  have hkind : (fun token : Token => token.kind != .eof) ∘ folded = fun token => token.kind != .eof := by
    funext token
    change (token.folded.kind != .eof) = _
    rw [kind_folded]
  rw [ofTokens_eq, ofTokens_eq, List.takeWhile_map, hkind, splitLines_folded, ofLines, ofLines, List.foldr_map,
    hline]

namespace Token

theorem Kind.modeAfter_of_ne {kind : Kind} (hremark : kind ≠ .keyword .REM) (hdata : kind ≠ .keyword .DATA) :
    kind.modeAfter = .statement := by
  cases kind with
  | keyword word =>
      change Piece.modeAfter word = .statement
      unfold Piece.modeAfter
      split
      · exact absurd rfl hremark
      · exact absurd rfl hdata
      · rfl
  | _ => rfl

/-- Only after a reserved word for it is text taken verbatim. -/
theorem Scanner.kind_ne_raw (scanner : Scanner) (hmode : scanner.mode = .statement)
    (h : ∀ token ∈ scanner.tokens, token.kind ≠ .keyword .REM ∧ token.kind ≠ .keyword .DATA) :
    ∀ token ∈ scanner.tokens, token.kind ≠ .raw := by
  induction scanner using tokens.induct with
  | case1 scanner hnone =>
      rw [tokens_of_next?_eq_none hnone]
      simp
  | case2 scanner token after hsome ih =>
      rw [tokens_of_next?_eq_some hsome, List.forall_mem_cons] at h ⊢
      have hfirst : token.kind ≠ .raw ∧ after.mode = .statement := by
        cases reads_of_next? hsome with
        | remark hremark =>
            rw [hmode] at hremark
            cases hremark
        | lineEnd => exact ⟨by simp [endOfLine], rfl⟩
        | data _ _ _ hdata =>
            rw [hmode] at hdata
            cases hdata
        | lineNumber => exact ⟨by simp, rfl⟩
        | @statement c rest =>
            obtain ⟨hsound, hafter⟩ := Piece.sound_ofStatement c rest
            exact ⟨hsound.verbatim, hafter.trans (Kind.modeAfter_of_ne h.1.1 h.1.2)⟩
      exact ⟨hfirst.1, ih hfirst.2 h.2⟩

/-- A text that is all code: nothing in it is quoted, a remark or an item of DATA. -/
def IsCode (text : String) : Prop :=
  ∀ token ∈ lex text, token.kind ≠ .text ∧ token.kind ≠ .keyword .REM ∧ token.kind ≠ .keyword .DATA

instance (text : String) : Decidable (IsCode text) :=
  inferInstanceAs (Decidable (∀ token ∈ lex text,
    token.kind ≠ .text ∧ token.kind ≠ .keyword .REM ∧ token.kind ≠ .keyword .DATA))

theorem isCode_upper {text : String} : IsCode (Text.upper text) ↔ IsCode text := by
  rw [IsCode, IsCode, lex_upper, List.forall_mem_map]
  rfl

theorem IsCode.not_verbatim {text : String} (h : IsCode text) :
    ∀ token ∈ lex text, token.kind ≠ .text ∧ token.kind ≠ .raw := by
  intro token htoken
  refine ⟨(h token htoken).1, ?_⟩
  rcases List.mem_append.mp htoken with hmem | hmem
  · refine Scanner.kind_ne_raw _ rfl (fun other hother => ?_) token hmem
    exact (h other (List.mem_append_left _ hother)).2
  · rw [List.mem_singleton.mp hmem]
    decide

end Token

namespace Parsed

/-- A code is read the same in capitals. -/
theorem ofTokens_lex_upper {text : String} (h : IsCode text) :
    ofTokens (lex (Text.upper text)) = ofTokens (lex text) := by
  have hseen : ((lex text).map capitals).map folded = (lex text).map folded := by
    rw [List.map_map]
    exact List.map_congr_left fun token htoken => folded_capitals token (h.not_verbatim token htoken)
  rw [lex_upper, ← ofTokens_folded, hseen, ofTokens_folded]

/-- **Letter case of code never matters**: two texts that are the same in capitals, one of them all code,
are read as the same lines with the same faults. -/
theorem ofTokens_lex_of_same_letters {s t : String} (h : Text.upper s = Text.upper t) (hcode : IsCode s) :
    ofTokens (lex s) = ofTokens (lex t) := by
  have hother : IsCode t := isCode_upper.mp (h ▸ isCode_upper.mpr hcode)
  calc ofTokens (lex s)
      = ofTokens (lex (Text.upper s)) := (ofTokens_lex_upper hcode).symm
    _ = ofTokens (lex (Text.upper t)) := by rw [h]
    _ = ofTokens (lex t) := ofTokens_lex_upper hother

/-- Reserved words run into names, exponents, digits of another base and a name in two parts; the second
line has a fault. -/
def mostlySmall : String := "10 fori%=&hfeTO1d2:x=fn q(Mid$(a$,1e0))\n20 goto x"

def mostlyLarge : String := "10 FoRI%=&HFeto1D2:X=Fn Q(mID$(A$,1E0))\n20 GOTO X"

theorem ofTokens_lex_of_same_letters_mixed :
    Text.upper mostlySmall = Text.upper mostlyLarge ∧ IsCode mostlySmall ∧
      ofTokens (lex mostlySmall) = ofTokens (lex mostlyLarge) := by
  have hletters : Text.upper mostlySmall = Text.upper mostlyLarge := by
    rw [Text.upper_eq_iff, ← Text.characters_eq, ← Text.characters_eq]
    decide +kernel
  have hcode : IsCode mostlySmall := by
    rw [IsCode, lex_eq]
    decide +kernel
  exact ⟨hletters, hcode, ofTokens_lex_of_same_letters hletters hcode⟩

end Parsed

end LineBasic
