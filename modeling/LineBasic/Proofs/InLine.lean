import LineBasic.Code.Parse
import LineBasic.Proofs.Readers

/-! Readers stay in their line. A reader has its place in the tokens of a whole source, and nothing but
what it does keeps it from reading on behind the end of a line. It takes no token that ends a line, it
treats all of them alike, and it looks past the next token only where that is a colon. So what follows a
line decides neither what is read off it nor where in it a reader fails. -/

namespace LineBasic

namespace Reader

/-- Where a line ends: at the token for that, or at the end of the source. -/
def AtLineEnd (tokens : List Token) : Prop := (kindAt tokens).endsLine = true

variable {α β : Type}

/-- On the tokens of a line a reader gives the same whatever follows them, and leaves some of them in
front of what follows. -/
def StaysOn (line : List Token) (reader : Reader α) : Prop :=
  ∃ result rest, rest <:+ line ∧
    ∀ tail, AtLineEnd tail → reader.outcome (line ++ tail) = (result, rest ++ tail)

/-- A reader that never looks or moves past the end of the line it is in. -/
def StaysInLine (reader : Reader α) : Prop := ∀ line, InLine line → StaysOn line reader

theorem leftInLine_eq_zero {tail : List Token} (h : AtLineEnd tail) : leftInLine tail = 0 := by
  cases tail with
  | nil => rfl
  | cons token rest =>
      have hkind : token.kind.endsLine = true := h
      rw [leftInLine, List.takeWhile_cons_of_neg (by simp [hkind])]
      rfl

theorem leftInLine_append_end {line tail : List Token} (h : InLine line) (htail : AtLineEnd tail) :
    leftInLine (line ++ tail) = line.length := by
  rw [leftInLine_append h, leftInLine_eq_zero htail, Nat.add_zero]

/-- The first line of a source, and what follows it from the token that ends it. -/
theorem exists_line (tokens : List Token) :
    ∃ line tail, tokens = line ++ tail ∧ InLine line ∧ AtLineEnd tail := by
  induction tokens with
  | nil => exact ⟨[], [], rfl, nofun, rfl⟩
  | cons token rest ih =>
      obtain ⟨line, tail, rfl, hline, htail⟩ := ih
      cases hkind : token.kind.endsLine with
      | true => exact ⟨[], token :: (line ++ tail), rfl, nofun, hkind⟩
      | false => exact ⟨token :: line, tail, rfl, List.forall_mem_cons.mpr ⟨hkind, hline⟩, htail⟩

/-- Kinds that end a line are treated alike. -/
def EndsAlike (next : Token.Kind → α) : Prop := next .eol = next .eof

theorem EndsAlike.eq {next : Token.Kind → α} (h : EndsAlike next) {kind : Token.Kind}
    (hkind : kind.endsLine = true) : next kind = next .eof := by
  rcases Token.Kind.endsLine_iff.mp hkind with rfl | rfl
  · exact h
  · rfl

/-- What is done only with a token of the line, and anything else with the rest. -/
theorem endsAlike_ite {p : Token.Kind → Prop} [DecidablePred p] (hp : ∀ kind, p kind → kind.endsLine = false)
    (inLine : Token.Kind → α) (other : α) : EndsAlike fun kind => if p kind then inLine kind else other := by
  have hne : ∀ ending : Token.Kind, ending.endsLine = true → ¬p ending :=
    fun ending hending hfound => Token.Kind.ne_of_endsLine (hp ending hfound) hending rfl
  rw [EndsAlike, if_neg (hne .eol rfl), if_neg (hne .eof rfl)]

section Rules

variable {reader other : Reader α} {next : α → Reader β} {line : List Token}

theorem stays_pure (value : α) : StaysInLine (pure value : Reader α) :=
  fun line _ => ⟨.ok value, line, List.suffix_refl line, fun _ _ => rfl⟩

theorem stays_throw (fault : Fault) : StaysInLine (throw fault : Reader α) :=
  fun line _ => ⟨.error fault, line, List.suffix_refl line, fun _ _ => rfl⟩

theorem stays_refuse (detail : String) : StaysInLine (refuse detail : Reader α) := stays_throw _

theorem stays_exhausted : StaysInLine (exhausted : Reader α) := stays_throw _

theorem stays_lift (result : Except Fault α) : StaysInLine (liftM result : Reader α) :=
  fun line _ => ⟨result, line, List.suffix_refl line, fun _ _ => rfl⟩

/-- Tokens that are read up to the last one are those of one line. -/
theorem StaysInLine.inLine {tokens : List Token} {value : α} (h : StaysInLine reader)
    (hread : reader tokens = .ok (value, [])) : InLine tokens := by
  obtain ⟨line, tail, rfl, hline, htail⟩ := exists_line tokens
  obtain ⟨result, rest, -, houtcome⟩ := h line hline
  have hleft := congrArg Prod.snd ((houtcome tail htail).symm.trans (outcome_of_ok hread))
  obtain ⟨-, rfl⟩ := List.append_eq_nil_iff.mp hleft
  rwa [List.append_nil]

theorem StaysOn.bind (h : StaysOn line reader)
    (hnext : ∀ value rest, rest <:+ line → StaysOn rest (next value)) : StaysOn line (reader >>= next) := by
  obtain ⟨result, rest, hrest, houtcome⟩ := h
  cases result with
  | error fault =>
      refine ⟨.error fault, rest, hrest, fun tail htail => ?_⟩
      rw [outcome_bind, houtcome tail htail]
  | ok value =>
      obtain ⟨result, last, hlast, hthen⟩ := hnext value rest hrest
      refine ⟨result, last, hlast.trans hrest, fun tail htail => ?_⟩
      rw [outcome_bind, houtcome tail htail]
      exact hthen tail htail

theorem StaysInLine.bind (h : StaysInLine reader) (hnext : ∀ value, StaysInLine (next value)) :
    StaysInLine (reader >>= next) :=
  fun line hline => (h line hline).bind fun value rest hrest => hnext value rest (hline.of_suffix hrest)

theorem StaysInLine.map (h : StaysInLine reader) (f : α → β) : StaysInLine (f <$> reader) :=
  h.bind fun value => stays_pure (f value)

theorem StaysInLine.ite {p : Prop} [Decidable p] (h : StaysInLine reader) (hother : StaysInLine other) :
    StaysInLine (if p then reader else other) := by
  by_cases hp : p
  · rwa [if_pos hp]
  · rwa [if_neg hp]

/-- The number of tokens that are left is counted up to the end of the line. -/
theorem stays_sized {reader : Nat → Reader α} (h : ∀ count, StaysInLine (reader count)) :
    StaysInLine (tokensLeft >>= reader) :=
  StaysInLine.bind
    (fun line hline => ⟨.ok line.length, line, List.suffix_refl line, fun tail htail =>
      by
        rw [← leftInLine_append_end hline htail]
        rfl⟩)
    h

/-- A look at the next token, which is in the line or ends it. -/
theorem stays_look {next : Token.Kind → Reader α} (halike : EndsAlike next) (hend : StaysOn [] (next .eof))
    (hin : ∀ token rest, InLine (token :: rest) → StaysOn (token :: rest) (next token.kind)) :
    StaysInLine (peekKind >>= next) := by
  intro line hline
  cases line with
  | nil =>
      obtain ⟨result, rest, hrest, houtcome⟩ := hend
      refine ⟨result, rest, hrest, fun tail htail => ?_⟩
      change (next (kindAt tail)).outcome tail = _
      rw [halike.eq htail]
      exact houtcome tail htail
  | cons token rest => exact hin token rest hline

theorem stays_peek {next : Token.Kind → Reader α} (halike : EndsAlike next)
    (h : ∀ kind, StaysInLine (next kind)) : StaysInLine (peekKind >>= next) :=
  stays_look halike (h .eof [] nofun) fun token rest hline => h token.kind (token :: rest) hline

/-- A token of the line is taken. -/
theorem staysOn_take {next : Token → Reader α} {token : Token} {rest : List Token}
    (hline : InLine (token :: rest)) (h : StaysInLine (next token)) :
    StaysOn (token :: rest) (Reader.next >>= next) := by
  obtain ⟨result, last, hlast, houtcome⟩ := h rest hline.tail
  refine ⟨result, last, hlast.trans (List.suffix_cons token rest), fun tail htail => ?_⟩
  change (next token).outcome (if token.kind.endsLine then token :: (rest ++ tail) else rest ++ tail) = _
  rw [hline token List.mem_cons_self]
  exact houtcome tail htail

/-- The next token, when all that end a line are treated alike. -/
theorem stays_next {next : Token → Reader α}
    (heol : ∀ literal, next ⟨.eol, literal⟩ = next Token.endOfInput)
    (heof : ∀ literal, next ⟨.eof, literal⟩ = next Token.endOfInput)
    (h : ∀ token, StaysInLine (next token)) : StaysInLine (Reader.next >>= next) := by
  have halike : ∀ token : Token, token.kind.endsLine = true → next token = next Token.endOfInput := by
    rintro ⟨kind, literal⟩ hend
    cases kind <;> first | exact heol literal | exact heof literal | cases hend
  intro line hline
  cases line with
  | nil =>
      obtain ⟨result, rest, hrest, houtcome⟩ := h Token.endOfInput [] hline
      refine ⟨result, rest, hrest, fun tail htail => ?_⟩
      change (next (tail.head?.getD Token.endOfInput)).outcome
        (if (kindAt tail).endsLine then tail else tail.tail) = _
      have hkind : (kindAt tail).endsLine = true := htail
      rw [if_pos hkind, halike _ hkind]
      exact houtcome tail htail
  | cons token rest => exact staysOn_take hline (h token)

theorem stays_skip (h : StaysInLine reader) : StaysInLine (Reader.next >>= fun _ => reader) :=
  stays_next (fun _ => rfl) (fun _ => rfl) fun _ => h

end Rules

section Small

theorem stays_accept (kind : Token.Kind) (h : kind.endsLine = false) : StaysInLine (accept kind) :=
  stays_peek (endsAlike_ite (p := (· = kind)) (by rintro _ rfl; exact h) _ _)
    fun found => (stays_skip (stays_pure true)).ite (stays_pure false)

theorem stays_expect (kind : Token.Kind) (h : kind.endsLine = false) : StaysInLine (expect kind) := by
  have halike : EndsAlike fun found => if found = kind then (pure () : Reader Unit) else refuse (expectation kind) :=
    endsAlike_ite (by rintro _ rfl; exact h) _ _
  exact stays_next (fun _ => halike) (fun _ => rfl) fun _ => (stays_pure ()).ite (stays_refuse _)

theorem stays_atEnd : StaysInLine atEnd := stays_peek rfl fun _ => stays_pure _

/-- Only from a colon a reader looks one token further, which may end the line but no more. -/
theorem staysOn_peekSecond {token : Token} {rest : List Token} {next : Token.Kind → Reader α}
    (hline : InLine (token :: rest)) (halike : EndsAlike next) (h : ∀ kind, StaysInLine (next kind)) :
    StaysOn (token :: rest) (peekSecondKind >>= next) := by
  cases rest with
  | nil =>
      obtain ⟨result, last, hlast, houtcome⟩ := h .eof [token] hline
      refine ⟨result, last, hlast, fun tail htail => ?_⟩
      change (next (kindAt tail)).outcome (token :: tail) = _
      rw [halike.eq htail]
      exact houtcome tail htail
  | cons second others => exact h second.kind (token :: second :: others) hline

theorem stays_atColonElse : StaysInLine atColonElse := by
  refine stays_look rfl (stays_pure false [] nofun) fun token rest hline => ?_
  split
  · exact staysOn_peekSecond hline rfl fun kind => stays_pure _
  · exact stays_pure false _ hline

theorem stays_commaList {item : Reader α} (h : StaysInLine item) (budget : Nat) :
    StaysInLine (commaList item budget) := by
  induction budget with
  | zero => exact stays_exhausted
  | succ budget ih =>
      refine h.bind fun first => (stays_accept .comma rfl).bind fun found => ?_
      exact StaysInLine.ite (ih.bind fun others => stays_pure _) (stays_pure _)

theorem stays_listOf {item : Reader α} (h : StaysInLine item) : StaysInLine (listOf item) :=
  stays_sized fun count => stays_commaList h (count + 1)

/-- The next token is taken where it is of a kind that does not end a line. -/
theorem stays_nextOf {p : Token.Kind → Prop} [DecidablePred p] {next : Token → Reader α} {other : Reader α}
    (hp : ∀ kind, p kind → kind.endsLine = false) (h : ∀ token, StaysInLine (next token))
    (hother : StaysInLine other) :
    StaysInLine (peekKind >>= fun kind => if p kind then Reader.next >>= next else other) := by
  refine stays_look (endsAlike_ite hp _ _) ?_ fun token rest hline => ?_
  · have hend : ¬p .eof := fun hfound => by cases hp .eof hfound
    rw [if_neg hend]
    exact hother [] nofun
  · split
    · exact staysOn_take hline (h token)
    · exact hother _ hline

theorem stays_name : StaysInLine name :=
  stays_next (fun _ => rfl) (fun _ => rfl) fun _ => (stays_pure _).ite (stays_refuse _)

theorem stays_lineRef : StaysInLine lineRef :=
  stays_next (fun _ => rfl) (fun _ => rfl) fun _ => (stays_lift _).ite (stays_refuse _)

theorem stays_lineRef? : StaysInLine lineRef? :=
  stays_peek rfl fun _ => (stays_lineRef.bind fun _ => stays_pure _).ite (stays_pure none)

end Small

section Expressions

/-- The readers of expressions with a budget stay in their line. -/
structure ExprsStay (budget : Nat) : Prop where
  exprAbove : ∀ level, StaysInLine (exprAbove budget level)
  operators : ∀ level left, StaysInLine (operators budget level left)
  operand : StaysInLine (operand budget)
  named : ∀ word, StaysInLine (named budget word)
  arguments : StaysInLine (arguments budget)

variable {budget : Nat}

theorem stays_operators (h : ExprsStay budget) (level : Level) (left : Expr) :
    StaysInLine (operators (budget + 1) level left) := by
  rw [operators]
  refine stays_peek rfl fun kind => ?_
  split
  · refine (stays_pure left).ite (stays_skip ?_)
    exact (h.exprAbove _).bind fun right => h.operators level _
  · exact stays_pure left

theorem stays_operand (h : ExprsStay budget) : StaysInLine (operand (budget + 1)) := by
  have hunary : ∀ op, StaysInLine (exprAbove budget .ofUnary >>= fun inner => pure (Expr.unary op inner)) :=
    fun op => (h.exprAbove _).bind fun inner => stays_pure _
  rw [operand]
  refine stays_next (fun _ => rfl) (fun _ => rfl) fun token => ?_
  split
  · exact hunary .negate
  · exact hunary .positive
  · exact hunary .not
  · exact (h.exprAbove _).bind fun inner => (stays_expect _ rfl).bind fun _ => stays_pure inner
  · exact stays_lift _
  · exact stays_lift _
  · exact stays_lift _
  · exact stays_lift _
  · exact stays_lift _
  · exact stays_lift _
  · exact stays_pure _
  · exact h.named _
  · exact stays_pure _
  · exact stays_pure _
  · exact stays_pure _
  · exact stays_pure _
  · exact stays_pure _
  · exact stays_throw _
  · exact stays_throw _
  · exact stays_throw _
  · exact stays_throw _
  · exact (stays_refuse _).ite (stays_refuse _)

theorem stays_named (h : ExprsStay budget) (word : String) : StaysInLine (named (budget + 1) word) := by
  have hrest : ∀ name : Name, StaysInLine (accept .leftParen >>= fun paren =>
      if paren then arguments budget >>= fun list =>
        if name.isFunction || (Builtin.ofName? name.spelling).isSome then pure (Expr.call name list)
        else pure (Expr.element name list)
      else if name.isFunction then pure (Expr.call name [])
      else pure (Expr.scalar name)) := by
    intro name
    refine (stays_accept _ rfl).bind fun paren => StaysInLine.ite (h.arguments.bind fun list => ?_) ?_
    · exact (stays_pure _).ite (stays_pure _)
    · exact (stays_pure _).ite (stays_pure _)
  rw [named]
  refine stays_nextOf (fun kind hfound => ?_) (fun token => hrest _) (hrest _)
  rw [hfound.2]
  rfl

theorem stays_arguments (h : ExprsStay budget) : StaysInLine (arguments (budget + 1)) := by
  rw [arguments]
  refine (h.exprAbove _).bind fun first => stays_next (fun _ => rfl) (fun _ => rfl) fun token => ?_
  split
  · exact stays_pure _
  · exact h.arguments.bind fun others => stays_pure _
  · exact stays_refuse _

theorem exprsStay (budget : Nat) : ExprsStay budget := by
  induction budget with
  | zero =>
      refine ⟨fun level => ?_, fun level left => ?_, ?_, fun word => ?_, ?_⟩
      · rw [exprAbove]
        exact stays_exhausted
      · rw [operators]
        exact stays_exhausted
      · rw [operand]
        exact stays_exhausted
      · rw [named]
        exact stays_exhausted
      · rw [arguments]
        exact stays_exhausted
  | succ budget ih =>
      refine ⟨fun level => ?_, stays_operators ih, stays_operand ih, stays_named ih, stays_arguments ih⟩
      rw [exprAbove]
      exact ih.operand.bind fun left => ih.operators level left

theorem stays_expr : StaysInLine expr := stays_sized fun _ => (exprsStay _).exprAbove .lowest

theorem stays_exprList : StaysInLine exprList := stays_sized fun _ => (exprsStay _).arguments

theorem stays_target : StaysInLine target := by
  refine stays_name.bind fun name => (stays_accept _ rfl).bind fun paren => ?_
  exact (stays_exprList.bind fun list => stays_pure _).ite (stays_pure _)

theorem stays_positionsFrom (budget : Nat) : StaysInLine (positionsFrom budget) := by
  induction budget with
  | zero => exact stays_exhausted
  | succ budget ih =>
      have hrest : ∀ first : Option Expr, StaysInLine (accept .comma >>= fun found =>
          if found then atEnd >>= fun ended =>
            if ended then refuse "TRAILING COMMA" else positionsFrom budget >>= fun others => pure (first :: others)
          else pure [first]) := by
        intro first
        refine (stays_accept _ rfl).bind fun found => (stays_atEnd.bind fun ended => ?_).ite (stays_pure _)
        exact (stays_refuse _).ite (ih.bind fun others => stays_pure _)
      refine stays_peek rfl fun kind => ?_
      split
      · exact hrest none
      · exact (stays_expr.map some).bind hrest

theorem stays_positions : StaysInLine positions :=
  stays_atEnd.bind fun _ => (stays_pure []).ite (stays_sized fun count => stays_positionsFrom (count + 1))

end Expressions

section Commands

theorem stays_assignment : StaysInLine assignment :=
  stays_target.bind fun _ => (stays_expect _ rfl).bind fun _ => stays_expr.bind fun _ => stays_pure _

theorem stays_auto : StaysInLine auto :=
  stays_lineRef?.bind fun _ => (stays_accept _ rfl).bind fun _ =>
    (stays_lineRef.bind fun _ => stays_pure _).ite (stays_pure _)

theorem stays_chain : StaysInLine chain := by
  refine stays_expr.bind fun path => (stays_accept _ rfl).bind fun comma => StaysInLine.ite ?_ (stays_pure _)
  refine stays_lineRef?.bind fun line => (stays_accept _ rfl).bind fun second => StaysInLine.ite ?_ (stays_pure _)
  exact (stays_expect _ rfl).bind fun _ => stays_pure _

theorem stays_datum : StaysInLine datum := by
  refine stays_look rfl (stays_pure _ [] nofun) fun token rest hline => ?_
  split
  · exact staysOn_take hline (stays_pure _)
  · exact staysOn_take hline (stays_pure _)
  · exact stays_refuse _ _ hline
  · exact stays_pure _ _ hline

theorem stays_remark :
    StaysInLine (peekKind >>= fun kind =>
      if kind = .raw then Reader.next >>= fun token => pure (Command.remark token.literal)
      else pure (Command.remark "")) := by
  refine stays_nextOf (fun kind hkind => ?_) (fun token => stays_pure _) (stays_pure _)
  rw [hkind]
  rfl

theorem stays_functionName : StaysInLine functionName := by
  have hrest : ∀ whole : Name, StaysInLine (if whole.isFunction then pure whole else refuse "EXPECTED FN") :=
    fun whole => (stays_pure whole).ite (stays_refuse _)
  refine stays_name.bind fun first => ?_
  split
  · exact stays_name.bind fun second => hrest _
  · exact hrest first

theorem stays_definition : StaysInLine definition := by
  have hrest : ∀ function parameters, StaysInLine (expect .eq >>= fun _ =>
      expr >>= fun body => pure (Command.define function parameters body)) :=
    fun function parameters => (stays_expect _ rfl).bind fun _ => stays_expr.bind fun body => stays_pure _
  refine stays_functionName.bind fun function => (stays_accept _ rfl).bind fun paren => ?_
  split
  · exact (stays_listOf stays_name).bind fun list => (stays_expect _ rfl).bind fun _ => hrest function list
  · exact hrest function []

theorem stays_forLoop : StaysInLine forLoop := by
  refine stays_name.bind fun counter => (stays_expect _ rfl).bind fun _ => stays_expr.bind fun start => ?_
  refine (stays_expect _ rfl).bind fun _ => stays_expr.bind fun limit => (stays_accept _ rfl).bind fun step => ?_
  exact (stays_expr.bind fun _ => stays_pure _).ite (stays_pure _)

theorem stays_list : StaysInLine list :=
  stays_lineRef?.bind fun _ => (stays_accept _ rfl).bind fun _ =>
    (stays_lineRef?.bind fun _ => stays_pure _).ite (stays_pure _)

theorem stays_load : StaysInLine load := by
  refine stays_expr.bind fun path => (stays_accept _ rfl).bind fun comma => StaysInLine.ite ?_ (stays_pure _)
  exact stays_name.bind fun letter => (stays_pure _).ite (stays_refuse _)

theorem stays_trapOrJump : StaysInLine trapOrJump := by
  refine (stays_accept _ rfl).bind fun trap => StaysInLine.ite ?_ ?_
  · exact (stays_expect _ rfl).bind fun _ => stays_lineRef.bind fun line => stays_pure _
  · refine stays_expr.bind fun selector => stays_next (fun _ => rfl) (fun _ => rfl) fun token => ?_
    split
    · exact (stays_listOf stays_lineRef).bind fun lines => stays_pure _
    · exact (stays_listOf stays_lineRef).bind fun lines => stays_pure _
    · exact stays_refuse _

theorem stays_printItems (budget : Nat) : StaysInLine (printItems budget) := by
  induction budget with
  | zero => exact stays_exhausted
  | succ budget ih =>
      have hrest : ∀ item, StaysInLine (printItems budget >>= fun items => pure (item :: items)) :=
        fun item => ih.bind fun items => stays_pure _
      have hsign : ∀ item : PrintItem, StaysInLine ((fun _ => item) <$> Reader.next) :=
        fun item => stays_skip (stays_pure item)
      refine stays_atEnd.bind fun ended => (stays_pure []).ite (stays_peek rfl fun kind => ?_)
      split
      · exact (hsign .comma).bind hrest
      · exact (hsign .semicolon).bind hrest
      · exact (stays_refuse _).bind hrest
      · exact (stays_expr.map PrintItem.expr).bind hrest

theorem stays_resume : StaysInLine resume := by
  refine (stays_accept _ rfl).bind fun next => (stays_pure _).ite (stays_lineRef?.bind fun line => ?_)
  split <;> exact stays_pure _

theorem stays_runOrLoad : StaysInLine runOrLoad := by
  refine stays_atEnd.bind fun ended => (stays_pure _).ite (stays_peek rfl fun kind => StaysInLine.ite ?_ ?_)
  · exact stays_lineRef.bind fun line => stays_pure _
  · refine stays_expr.bind fun path => (stays_accept _ rfl).bind fun comma => StaysInLine.ite ?_ (stays_pure _)
    exact stays_name.bind fun _ => stays_pure _

/-- A value that a reader gives, put into a statement. -/
theorem StaysInLine.builds {reader : Reader α} (h : StaysInLine reader) (f : α → Command) :
    StaysInLine (reader >>= fun value => pure (f value)) :=
  h.bind fun value => stays_pure (f value)

/-- A value that may be left out at the end of a statement. -/
theorem StaysInLine.optional {reader : Reader α} (h : StaysInLine reader) (without : Command) (f : α → Command) :
    StaysInLine (atEnd >>= fun ended => if ended then pure without else reader >>= fun value => pure (f value)) :=
  stays_atEnd.bind fun _ => (stays_pure without).ite (h.builds f)

theorem stays_command (token : Token) : StaysInLine (command token) := by
  unfold command
  split
  · exact stays_assignment
  · exact stays_auto
  · exact stays_pure _
  · exact stays_chain
  · exact stays_positions.builds _
  · exact stays_pure _
  · exact stays_positions.builds _
  · exact (stays_listOf stays_name).builds _
  · exact stays_pure _
  · exact (stays_listOf stays_datum).builds _
  · exact stays_definition
  · exact (stays_listOf stays_target).builds _
  · exact stays_pure _
  · exact stays_expr.builds _
  · exact stays_expr.optional _ fun pattern => .files (some pattern)
  · exact stays_forLoop
  · exact stays_lineRef.builds _
  · exact stays_lineRef.builds _
  · exact stays_expr.bind fun number => (stays_expect _ rfl).bind fun _ => stays_expr.builds _
  · exact stays_list
  · exact stays_load
  · exact stays_positions.builds _
  · exact stays_expr.builds _
  · exact stays_pure _
  · exact (stays_listOf stays_name).optional _ _
  · exact stays_trapOrJump
  · exact stays_positions.builds _
  · exact stays_sized fun count => (stays_printItems (count + 1)).builds _
  · exact (stays_listOf stays_target).builds _
  · exact stays_remark
  · exact stays_lineRef?.builds _
  · exact stays_resume
  · exact stays_lineRef?.builds _
  · exact stays_runOrLoad
  · exact stays_positions.builds _
  · exact stays_pure _
  · exact stays_pure _
  · exact stays_pure _
  · exact stays_pure _
  · exact stays_expr.builds _
  · exact (stays_refuse _).ite (stays_refuse _)

end Commands

section Statements

/-- The readers of statements with a budget stay in their line. -/
structure StatementsStay (budget : Nat) : Prop where
  statement : StaysInLine (statementWithin budget)
  choice : StaysInLine (choice budget)
  branch : StaysInLine (branch budget)
  statements : StaysInLine (branchStatements budget)

variable {budget : Nat}

theorem stays_statementWithin (h : StatementsStay budget) : StaysInLine (statementWithin (budget + 1)) := by
  rw [statementWithin]
  refine stays_peek rfl fun kind => (stays_assignment.bind fun _ => stays_pure _).ite ?_
  refine stays_next (fun _ => rfl) (fun _ => rfl) fun token => h.choice.ite ?_
  exact (stays_command token).bind fun _ => stays_pure _

theorem stays_choice (h : StatementsStay budget) : StaysInLine (choice (budget + 1)) := by
  have helse : ∀ condition thenList, StaysInLine (accept (.keyword .ELSE) >>= fun found =>
      if found then branch budget >>= fun elseList => pure (Statement.choice condition thenList elseList)
      else pure (Statement.choice condition thenList [])) :=
    fun condition thenList => (stays_accept _ rfl).bind fun found =>
      (h.branch.bind fun _ => stays_pure _).ite (stays_pure _)
  have hrest : ∀ condition thenList, StaysInLine (atColonElse >>= fun colon =>
      if colon then Reader.next >>= fun _ =>
        accept (.keyword .ELSE) >>= fun found =>
          if found then branch budget >>= fun elseList => pure (Statement.choice condition thenList elseList)
          else pure (Statement.choice condition thenList [])
      else accept (.keyword .ELSE) >>= fun found =>
          if found then branch budget >>= fun elseList => pure (Statement.choice condition thenList elseList)
          else pure (Statement.choice condition thenList [])) :=
    fun condition thenList => stays_atColonElse.bind fun colon =>
      (stays_skip (helse condition thenList)).ite (helse condition thenList)
  rw [choice]
  refine stays_expr.bind fun condition => stays_next (fun _ => rfl) (fun _ => rfl) fun token => ?_
  split
  · exact h.branch.bind (hrest condition)
  · exact (stays_lineRef.map _).bind (hrest condition)
  · exact (stays_refuse _).bind (hrest condition)

theorem stays_branch (h : StatementsStay budget) : StaysInLine (branch (budget + 1)) := by
  rw [branch]
  refine stays_peek rfl fun kind => (stays_lineRef.bind fun _ => stays_pure _).ite ?_
  refine h.statements.bind fun list => ?_
  cases list with
  | nil => exact stays_refuse _
  | cons s others => exact stays_pure _

theorem stays_branchStatements (h : StatementsStay budget) : StaysInLine (branchStatements (budget + 1)) := by
  rw [branchStatements]
  refine stays_look rfl (stays_pure [] [] nofun) fun token rest hline => ?_
  split
  · exact stays_pure [] _ hline
  · exact stays_pure [] _ hline
  · exact stays_pure [] _ hline
  · exact staysOn_peekSecond hline rfl fun second => (stays_pure []).ite (stays_skip h.statements)
  · refine StaysInLine.bind h.statement (fun first => stays_atEnd.bind fun ended => ?_) _ hline
    exact (h.statements.bind fun others => stays_pure _).ite (stays_refuse _)

theorem statementsStay (budget : Nat) : StatementsStay budget := by
  induction budget with
  | zero =>
      refine ⟨?_, ?_, ?_, ?_⟩
      · rw [statementWithin]
        exact stays_exhausted
      · rw [choice]
        exact stays_exhausted
      · rw [branch]
        exact stays_exhausted
      · rw [branchStatements]
        exact stays_exhausted
  | succ budget ih =>
      exact ⟨stays_statementWithin ih, stays_choice ih, stays_branch ih, stays_branchStatements ih⟩

theorem stays_statement : StaysInLine statement := stays_sized fun _ => (statementsStay _).statement

theorem stays_statements (budget : Nat) : StaysInLine (statements budget) := by
  induction budget with
  | zero => exact stays_exhausted
  | succ budget ih =>
      refine stays_peek rfl fun kind => ?_
      split
      · exact stays_pure []
      · exact stays_pure []
      · exact stays_skip ih
      · refine stays_statement.bind fun first => stays_peek rfl fun kind => StaysInLine.ite ?_ (stays_refuse _)
        exact ih.bind fun others => stays_pure _

/-- The statements of a line are read up to its end. -/
theorem atLineEnd_of_statements {tokens rest : List Token} {list : List Statement}
    (h : statements budget tokens = .ok (list, rest)) : AtLineEnd rest := by
  induction budget generalizing tokens list with
  | zero => cases h
  | succ budget ih =>
      rw [statements, bind_ok (run_peekKind _)] at h
      split at h
      · rename_i hkind
        cases h
        rw [AtLineEnd, hkind]
        rfl
      · rename_i hkind
        cases h
        rw [AtLineEnd, hkind]
        rfl
      · obtain ⟨token, after, -, hrest⟩ := bind_eq_ok h
        exact ih hrest
      · obtain ⟨first, after, -, hrest⟩ := bind_eq_ok h
        rw [bind_ok (run_peekKind _)] at hrest
        split at hrest
        · obtain ⟨others, last, hothers, hpure⟩ := bind_eq_ok hrest
          cases hpure
          exact ih hothers
        · cases hrest

end Statements

end Reader

end LineBasic
