import LineBasic.Proofs.Lexed

/-! What readers give for the tokens of a line. A reader is described by what holds of the tokens
before it and of its value and the tokens after it, where it succeeds; readers in a row are described
by their parts. Expressions that are read from a line are legible. -/

namespace LineBasic

open Token

namespace Reader

/-- From tokens with one property, a reader that succeeds gives a value and tokens with another. -/
def Yields {α : Type} (before : List Token → Prop) (reader : Reader α)
    (after : α → List Token → Prop) : Prop :=
  ∀ ⦃tokens : List Token⦄ ⦃value : α⦄ ⦃rest : List Token⦄, before tokens →
    reader tokens = .ok (value, rest) → after value rest

section Rules

variable {α β : Type} {before : List Token → Prop} {reader : Reader α} {next : α → Reader β}
  {after : α → List Token → Prop} {last : β → List Token → Prop}

theorem Yields.bind (h : Yields before reader after) (hnext : ∀ value, Yields (after value) (next value) last) :
    Yields before (reader >>= next) last := by
  intro tokens value rest hbefore hread
  obtain ⟨first, mid, hfirst, hsecond⟩ := bind_eq_ok hread
  exact hnext first (h hbefore hfirst) hsecond

theorem yields_pure {value : α} (h : ∀ tokens, before tokens → after value tokens) :
    Yields before (pure value) after := by
  intro tokens found rest hbefore hread
  cases hread
  exact h tokens hbefore

theorem yields_throw (fault : Fault) : Yields before (throw fault : Reader α) after := by
  intro tokens value rest _ hread
  cases hread

theorem yields_refuse (detail : String) : Yields before (refuse detail : Reader α) after :=
  yields_throw _

theorem yields_exhausted : Yields before (exhausted : Reader α) after := yields_throw _

theorem Yields.ite {p : Prop} [Decidable p] {other : Reader α} (h : p → Yields before reader after)
    (hother : ¬p → Yields before other after) : Yields before (if p then reader else other) after := by
  split
  · exact h ‹_›
  · exact hother ‹_›

theorem Yields.map {f : α → β} (h : Yields before reader after)
    (hf : ∀ value tokens, after value tokens → last (f value) tokens) : Yields before (f <$> reader) last := by
  intro tokens found rest hbefore hread
  rw [run_map] at hread
  split at hread
  · rename_i value mid hvalue
    cases hread
    exact hf value rest (h hbefore hvalue)
  · cases hread

theorem Yields.mono {weaker : α → List Token → Prop} (h : Yields before reader after)
    (hafter : ∀ value tokens, after value tokens → weaker value tokens) : Yields before reader weaker :=
  fun _ _ _ hbefore hread => hafter _ _ (h hbefore hread)

theorem Yields.of_imp {stronger : List Token → Prop} (h : Yields before reader after)
    (hbefore : ∀ tokens, stronger tokens → before tokens) : Yields stronger reader after :=
  fun _ _ _ hstronger hread => h (hbefore _ hstronger) hread

theorem yields_lift {action : Except Fault α}
    (h : ∀ value tokens, before tokens → action = .ok value → after value tokens) :
    Yields before (liftM action : Reader α) after := by
  intro tokens found rest hbefore hread
  cases action with
  | error fault => cases hread
  | ok value =>
      cases hread
      exact h _ _ hbefore rfl

theorem Yields.peek {next : Kind → Reader β}
    (h : ∀ kind, Yields (fun tokens => before tokens ∧ kindAt tokens = kind) (next kind) last) :
    Yields before (peekKind >>= next) last := by
  intro tokens value rest hbefore hread
  rw [bind_ok (run_peekKind tokens)] at hread
  exact h (kindAt tokens) ⟨hbefore, rfl⟩ hread

/-- What a reader gives may depend on how many tokens are left. -/
theorem yields_sized {reader : Nat → Reader α}
    (h : ∀ count, Yields before (reader count) after) : Yields before (tokensLeft >>= reader) after := by
  intro tokens value rest hbefore hread
  rw [run_sized] at hread
  exact h _ hbefore hread

end Rules

/-- From the tokens of statements, a reader gives a value with a property and leaves tokens of
statements. -/
def Gives {α : Type} (reader : Reader α) (found : α → Prop) : Prop :=
  Yields (Lexed .statement) reader fun value rest => found value ∧ Lexed .statement rest

section Gives

variable {α β : Type} {reader other : Reader α} {next : α → Reader β} {found : α → Prop} {last : β → Prop}

theorem Gives.bind (h : Gives reader found) (hnext : ∀ value, found value → Gives (next value) last) :
    Gives (reader >>= next) last :=
  Yields.bind h fun value _ _ _ hmid hread => hnext value hmid.1 hmid.2 hread

theorem gives_pure {value : α} (h : found value) : Gives (pure value) found :=
  yields_pure fun _ hbefore => ⟨h, hbefore⟩

theorem gives_refuse (detail : String) : Gives (refuse detail : Reader α) found := yields_refuse detail

theorem gives_exhausted : Gives (exhausted : Reader α) found := yields_exhausted

theorem Gives.map {f : α → β} (h : Gives reader found) (hf : ∀ value, found value → last (f value)) :
    Gives (f <$> reader) last :=
  Yields.map h fun value _ hafter => ⟨hf value hafter.1, hafter.2⟩

theorem gives_ite {p : Prop} [Decidable p] (h : p → Gives reader found) (hother : ¬p → Gives other found) :
    Gives (if p then reader else other) found :=
  Yields.ite h hother

theorem gives_peek {next : Kind → Reader β} (h : ∀ kind, Gives (next kind) last) :
    Gives (peekKind >>= next) last :=
  Yields.peek fun kind => Yields.of_imp (h kind) fun _ hbefore => hbefore.1

theorem gives_lift {action : Except Fault α} (h : ∀ value, action = .ok value → found value) :
    Gives (liftM action : Reader α) found :=
  yields_lift fun value _ hbefore hvalue => ⟨h value hvalue, hbefore⟩

end Gives

section Small

variable {α : Type} {last : α → List Token → Prop}

/-- The next token, which is the end of the source where there is no other. -/
theorem Yields.next {next : Token → Reader α}
    (h : ∀ token, (token.kind.endsLine = false → token.Sound) →
      Yields (Lexed token.kind.modeAfter) (next token) last) :
    Yields (Lexed .statement) (Reader.next >>= next) last := by
  intro tokens value rest hbefore hread
  cases hbefore with
  | nil => exact h endOfInput nofun (.nil _) hread
  | statement hsound hrest =>
      rw [bind_ok (run_next hsound.inLine _)] at hread
      exact h _ (fun _ => hsound) hrest hread

/-- A token that was looked at is taken. -/
theorem yields_taken {kind : Kind} (hkind : kind.modeAfter = .statement) :
    Yields (fun tokens => Lexed .statement tokens ∧ kindAt tokens = kind) next
      fun token rest => token.kind = kind ∧ (kind.endsLine = false → token.Sound) ∧ Lexed .statement rest := by
  intro tokens token rest hbefore hread
  obtain ⟨hlexed, rfl⟩ := hbefore
  cases hlexed with
  | nil =>
      cases hread
      exact ⟨rfl, nofun, .nil _⟩
  | statement hsound hrest =>
      rw [run_next hsound.inLine] at hread
      cases hread
      rw [kindAt_cons] at hkind
      exact ⟨rfl, fun _ => hsound, hkind ▸ hrest⟩

theorem gives_accept {kind : Kind} (hkind : kind.modeAfter = .statement) :
    Gives (accept kind) fun _ => True := by
  refine Yields.peek fun found => Yields.ite ?_ fun _ => ?_
  · rintro rfl
    exact (yields_taken hkind).bind fun _ => yields_pure fun _ hafter => ⟨trivial, hafter.2.2⟩
  · exact yields_pure fun _ hbefore => ⟨trivial, hbefore.1⟩

theorem gives_expect {kind : Kind} (hkind : kind.modeAfter = .statement) :
    Gives (expect kind) fun _ => True := by
  refine Yields.next fun token hsound => Yields.ite ?_ fun _ => yields_refuse _
  rintro rfl
  rw [hkind]
  exact gives_pure trivial

theorem gives_atEnd : Gives atEnd fun _ => True := gives_peek fun _ => gives_pure trivial

/-- A word that is scanned as a name is the name in capitals. -/
theorem legible_ofWord {word : String} (h : IsName (word.toList.map Char.toUpper)) :
    (Name.ofWord word).Legible := by
  have hspelling : (Name.ofWord word).spelling.toList = word.toList.map Char.toUpper := by
    rw [Name.ofWord, Text.upper, String.toList_map]
  rw [Name.Legible, hspelling]
  exact h

theorem legible_function {word : String} (h : IsName (word.toList.map Char.toUpper)) :
    (Name.ofWord ("FN" ++ word)).Legible := by
  refine legible_ofWord ?_
  rw [String.toList_append, List.map_append]
  exact h.function

theorem gives_name : Gives name Name.Legible := by
  refine Yields.next fun token hsound => Yields.ite (fun hkind => ?_) fun _ => yields_refuse _
  rw [hkind]
  exact gives_pure (legible_ofWord ((hsound (by rw [hkind]; rfl)).name hkind))

theorem lineNumber_le {literal : String} {line : Nat} (h : Literal.lineNumber literal = .ok line) :
    line ≤ Line.maxNumber := by
  unfold Literal.lineNumber at h
  dsimp only at h
  split at h
  · cases h
  · split at h
    · cases h
      assumption
    · cases h

theorem modeAfter_of_isNumber {kind : Kind} (h : kind.isNumber = true) : kind.modeAfter = .statement := by
  cases kind with
  | keyword word => cases h
  | _ => rfl

theorem gives_lineRef : Gives lineRef fun line => line ≤ Line.maxNumber := by
  refine Yields.next fun token hsound => Yields.ite (fun hkind => ?_) fun _ => yields_refuse _
  rw [modeAfter_of_isNumber hkind]
  exact gives_lift fun line hline => lineNumber_le hline

theorem gives_lineRef? : Gives lineRef? fun line => ∀ number ∈ line, number ≤ Line.maxNumber := by
  refine gives_peek fun kind => gives_ite (fun _ => ?_) fun _ => gives_pure (by simp)
  exact gives_lineRef.bind fun line hline => gives_pure (by simpa using hline)

end Small

end Reader

section Constants

open Number

theorem negative_of_head {text : List Char} (h : ∀ c ∈ text.head?, c ≠ '-') {written : Written}
    (hread : Written.ofText? text = some written) : written.negative = false := by
  have hsign : (splitSign text).1 = false := by
    unfold splitSign
    split
    · exact absurd rfl (h '-' rfl)
    · rfl
    · rfl
  unfold Written.ofText? at hread
  dsimp only at hread
  rw [Option.ite_none_left_eq_some, Option.map_eq_some_iff] at hread
  obtain ⟨-, exponent, -, rfl⟩ := hread
  exact hsign

theorem head?_withoutSigil {literal : List Char} (h : ∀ c ∈ literal.head?, c ≠ '-') :
    ∀ c ∈ (Literal.withoutSigil literal).head?, c ≠ '-' := by
  intro c hc
  have hprefix := Text.dropEndWhile_append_takeWhile (fun c => c == '!' || c == '#' || c == '%') literal
  rw [Literal.withoutSigil, List.head?_map, Option.mem_def, Option.map_eq_some_iff] at hc
  obtain ⟨d, hd, rfl⟩ := hc
  have hfirst : d ∈ literal.head? := by
    rw [← hprefix, List.head?_append, hd]
    rfl
  split
  · decide
  · exact h d hfirst

theorem legible_single {text : List Char} (h : ∀ c ∈ text.head?, c ≠ '-') {value : Expr}
    (hread : Literal.single text = .ok value) : value.Legible := by
  unfold Literal.single at hread
  split at hread
  · rename_i written hwritten
    split at hread
    · rename_i hfinite
      cases hread
      rw [Written.toSingle, negative_of_head h hwritten, Format.withSign,
        if_neg Bool.false_ne_true] at hfinite ⊢
      rw [Expr.Legible]
      exact ⟨_, (isFinite_single_iff (toBits_le _ _)).mp hfinite, rfl⟩
    · cases hread
  · cases hread

theorem legible_double {text : List Char} (h : ∀ c ∈ text.head?, c ≠ '-') {value : Expr}
    (hread : Literal.double text = .ok value) : value.Legible := by
  unfold Literal.double at hread
  split at hread
  · rename_i written hwritten
    split at hread
    · rename_i hfinite
      cases hread
      rw [Written.toDouble, negative_of_head h hwritten, Format.withSign,
        if_neg Bool.false_ne_true] at hfinite ⊢
      rw [Expr.Legible]
      exact ⟨_, (isFinite_double_iff (toBits_le _ _)).mp hfinite, rfl⟩
    · cases hread
  · cases hread

theorem legible_bits {base : Nat} {digits : List Char} {value : Expr}
    (h : Literal.bits base digits = .ok value) : value.Legible := by
  unfold Literal.bits at h
  dsimp only at h
  split at h
  · cases h
  · cases h
    simp [Expr.Legible]

/-- The value of a constant is legible. -/
theorem legible_ofToken {token : Token} (hsound : token.Sound) {value : Expr}
    (h : Literal.ofToken token = .ok value) : value.Legible := by
  have hhead : token.kind.isNumber = true →
      ∀ c ∈ (Literal.withoutSigil token.literal.toList).head?, c ≠ '-' :=
    fun hkind => head?_withoutSigil (hsound.unsigned hkind)
  unfold Literal.ofToken at h
  dsimp only at h
  split at h
  · split at h
    · cases h
      simp [Expr.Legible]
    · cases h
  · rename_i hkind
    split at h
    · exact legible_double (hhead (by rw [hkind]; rfl)) h
    · exact legible_single (hhead (by rw [hkind]; rfl)) h
  · rename_i hkind
    exact legible_single (hhead (by rw [hkind]; rfl)) h
  · rename_i hkind
    exact legible_double (hhead (by rw [hkind]; rfl)) h
  · exact legible_bits h
  · exact legible_bits h
  · cases h

end Constants

namespace Reader

section Lists

variable {α : Type} {item : Reader α} {found : α → Prop} {before : List Token → Prop}

/-- Lists of items, where commas are taken from tokens of the same kind. -/
theorem yields_commaList (hitem : Yields before item fun value rest => found value ∧ before rest)
    (hcomma : Yields before (accept .comma) fun _ rest => before rest) (budget : Nat) :
    Yields before (commaList item budget) fun list rest =>
      (list ≠ [] ∧ ∀ value ∈ list, found value) ∧ before rest := by
  induction budget with
  | zero => exact yields_exhausted
  | succ fuel ih =>
      refine hitem.bind fun first => ?_
      intro tokens list rest hmid hread
      obtain ⟨more, mid, haccept, hread⟩ := bind_eq_ok hread
      have hafter := hcomma hmid.2 haccept
      cases more with
      | false =>
          cases hread
          exact ⟨⟨by simp, by simpa using hmid.1⟩, hafter⟩
      | true =>
          obtain ⟨others, last, hothers, hpure⟩ := bind_eq_ok hread
          cases hpure
          obtain ⟨⟨-, hall⟩, hrest⟩ := ih hafter hothers
          refine ⟨⟨by simp, ?_⟩, hrest⟩
          intro value hvalue
          rcases List.mem_cons.mp hvalue with rfl | hvalue
          · exact hmid.1
          · exact hall value hvalue

theorem gives_listOf (h : Gives item found) :
    Gives (listOf item) fun list => list ≠ [] ∧ ∀ value ∈ list, found value := by
  have hcomma : Yields (Lexed .statement) (accept .comma) fun _ rest => Lexed .statement rest :=
    Yields.mono (gives_accept rfl) fun _ _ hafter => hafter.2
  exact yields_sized fun _ => yields_commaList h hcomma _

end Lists

section Expressions

/-- The readers of expressions with a budget give legible ones. -/
structure ExprsGiven (budget : Nat) : Prop where
  exprAbove : ∀ level, Gives (exprAbove budget level) Expr.Legible
  operators : ∀ level left, left.Legible → Gives (operators budget level left) Expr.Legible
  operand : Gives (operand budget) Expr.Legible
  named : ∀ word, IsName (word.toList.map Char.toUpper) → Gives (named budget word) Expr.Legible
  arguments : Gives (arguments budget) fun list => list ≠ [] ∧ Expr.LegibleAll list

theorem modeAfter_of_operator {kind : Kind} {op : BinaryOp} (h : BinaryOp.ofKind? kind = some op) :
    kind.modeAfter = .statement := by
  cases kind with
  | keyword word => cases word <;> first | rfl | cases h
  | _ => rfl

variable {budget : Nat}

theorem gives_operators (h : ExprsGiven budget) (level : Level) {left : Expr} (hleft : left.Legible) :
    Gives (operators (budget + 1) level left) Expr.Legible := by
  rw [operators]
  refine Yields.peek fun kind => ?_
  split
  · rename_i op hop
    refine Yields.ite (fun _ => yields_pure fun _ hbefore => ⟨hleft, hbefore.1⟩) fun _ => ?_
    refine (yields_taken (modeAfter_of_operator hop)).bind fun _ => ?_
    refine Yields.of_imp ((h.exprAbove op.level).bind fun right hright => h.operators level _ ?_)
      fun _ hafter => hafter.2.2
    rw [Expr.Legible]
    exact ⟨hleft, hright⟩
  · exact yields_pure fun _ hbefore => ⟨hleft, hbefore.1⟩

theorem gives_unary (h : ExprsGiven budget) (op : UnaryOp) :
    Gives (exprAbove budget .ofUnary >>= fun inner => pure (.unary op inner)) Expr.Legible :=
  (h.exprAbove _).bind fun inner hinner => gives_pure (by rw [Expr.Legible]; exact hinner)

theorem gives_operand (h : ExprsGiven budget) : Gives (operand (budget + 1)) Expr.Legible := by
  rw [operand]
  refine Yields.next fun token hsound => ?_
  obtain ⟨kind, literal⟩ := token
  dsimp only at hsound ⊢
  split
  · exact gives_unary h .negate
  · exact gives_unary h .positive
  · exact gives_unary h .not
  · refine (h.exprAbove _).bind fun inner hinner => ?_
    exact (gives_expect rfl).bind fun _ _ => gives_pure hinner
  · exact gives_lift fun value hvalue => legible_ofToken (hsound rfl) hvalue
  · exact gives_lift fun value hvalue => legible_ofToken (hsound rfl) hvalue
  · exact gives_lift fun value hvalue => legible_ofToken (hsound rfl) hvalue
  · exact gives_lift fun value hvalue => legible_ofToken (hsound rfl) hvalue
  · exact gives_lift fun value hvalue => legible_ofToken (hsound rfl) hvalue
  · exact gives_lift fun value hvalue => legible_ofToken (hsound rfl) hvalue
  · exact gives_pure (by rw [Expr.Legible]; exact (hsound rfl).quoted rfl)
  · exact h.named literal ((hsound rfl).name rfl)
  · exact gives_pure (by simp [Expr.Legible])
  · exact gives_pure (by simp [Expr.Legible])
  · exact gives_pure (by simp [Expr.Legible])
  · exact gives_pure (by simp [Expr.Legible])
  · exact gives_pure (by simp [Expr.Legible])
  · exact yields_throw _
  · exact yields_throw _
  · exact yields_throw _
  · exact yields_throw _
  · exact Yields.ite (fun _ => yields_refuse _) fun _ => yields_refuse _

/-- Before a parenthesis a name is a function's or an array's. -/
theorem gives_parenthesized {name : Name} (hname : name.Legible) (h : ExprsGiven budget) :
    Gives (arguments budget >>= fun list =>
      if name.isFunction || (Builtin.ofName? name.spelling).isSome then pure (.call name list)
      else pure (.element name list)) Expr.Legible := by
  refine h.arguments.bind fun list hlist => gives_ite (fun hcall => ?_) fun hcall => ?_
  · refine gives_pure ?_
    rw [Expr.Legible]
    exact ⟨hname, hcall, hlist.2⟩
  · refine gives_pure ?_
    rw [Expr.Legible]
    exact ⟨hname, by simpa using hcall, hlist⟩

theorem gives_named (h : ExprsGiven budget) {word : String} (hword : IsName (word.toList.map Char.toUpper)) :
    Gives (named (budget + 1) word) Expr.Legible := by
  have hrest : ∀ name : Name, name.Legible → Gives (accept .leftParen >>= fun paren =>
      if paren then arguments budget >>= fun list =>
        if name.isFunction || (Builtin.ofName? name.spelling).isSome then pure (.call name list)
        else pure (.element name list)
      else if name.isFunction then pure (.call name [])
      else pure (.scalar name)) Expr.Legible := by
    intro name hname
    refine (gives_accept rfl).bind fun paren _ => gives_ite (fun _ => gives_parenthesized hname h) fun _ => ?_
    refine gives_ite (fun hfunction => gives_pure ?_) fun hfunction => gives_pure ?_
    · rw [Expr.Legible, Expr.LegibleAll, hfunction]
      exact ⟨hname, rfl, trivial⟩
    · rw [Expr.Legible]
      exact ⟨hname, by simpa using hfunction⟩
  rw [named]
  refine Yields.peek fun kind => Yields.ite (fun hfn => ?_) fun _ => ?_
  · obtain ⟨-, rfl⟩ := hfn
    refine (yields_taken rfl).bind fun token => ?_
    intro tokens value rest hbefore hread
    obtain ⟨hkind, hsound, hlexed⟩ := hbefore
    exact hrest _ (legible_function ((hsound rfl).name hkind)) hlexed hread
  · intro tokens value rest hbefore hread
    exact hrest _ (legible_ofWord hword) hbefore.1 hread

theorem gives_arguments (h : ExprsGiven budget) :
    Gives (arguments (budget + 1)) fun list => list ≠ [] ∧ Expr.LegibleAll list := by
  rw [arguments]
  refine (h.exprAbove _).bind fun first hfirst => Yields.next fun token hsound => ?_
  obtain ⟨kind, literal⟩ := token
  dsimp only at hsound ⊢
  split
  · refine gives_pure ⟨by simp, ?_⟩
    rw [Expr.LegibleAll, Expr.LegibleAll]
    exact ⟨hfirst, trivial⟩
  · refine h.arguments.bind fun others hothers => gives_pure ⟨by simp, ?_⟩
    rw [Expr.LegibleAll]
    exact ⟨hfirst, hothers.2⟩
  · exact yields_refuse _

theorem exprsGiven (budget : Nat) : ExprsGiven budget := by
  induction budget with
  | zero =>
      refine ⟨fun level => ?_, fun level left hleft => ?_, ?_, fun word hword => ?_, ?_⟩
      · rw [exprAbove]
        exact gives_exhausted
      · rw [operators]
        exact gives_exhausted
      · rw [operand]
        exact gives_exhausted
      · rw [named]
        exact gives_exhausted
      · rw [arguments]
        exact gives_exhausted
  | succ fuel ih =>
      refine ⟨fun level => ?_, fun level left hleft => gives_operators ih level hleft, gives_operand ih,
        fun word hword => gives_named ih hword, gives_arguments ih⟩
      rw [exprAbove]
      exact ih.operand.bind fun left hleft => ih.operators level left hleft

/-- **An expression that is read from a line is legible.** -/
theorem gives_expr : Gives expr Expr.Legible := yields_sized fun _ => (exprsGiven _).exprAbove _

theorem gives_exprList : Gives exprList fun list => list ≠ [] ∧ Expr.LegibleAll list :=
  yields_sized fun _ => (exprsGiven _).arguments

theorem gives_target : Gives target Variable.Legible := by
  refine gives_name.bind fun name hname => (gives_accept rfl).bind fun paren _ => ?_
  refine gives_ite (fun _ => gives_exprList.bind fun list hlist => ?_) fun _ => gives_pure ?_
  · exact gives_pure ⟨hname, hlist⟩
  · exact hname

end Expressions

end Reader

end LineBasic
