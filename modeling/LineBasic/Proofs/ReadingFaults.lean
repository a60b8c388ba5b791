import LineBasic.Proofs.Lines

/-! No reader runs out of its budget. A reader that calls itself takes a token from its line before it
comes back to itself, and a budget is four for each token that is left in the line. So the budgets only
make the readers total, and a reading fails for reasons that lie in the source alone: a syntax error, a
number that is too large, or an operand that is missing. -/

namespace LineBasic

/-- Why a line cannot be read. -/
def Fault.IsOfReading (fault : Fault) : Prop :=
  fault.code = Cause.syntaxError.code ∨ fault.code = Cause.overflow.code ∨
    fault.code = Cause.missingOperand.code

namespace Reader

variable {α β : Type}

/-- From tokens with one property, a reader gives a value and tokens with another, or the source is at
fault. -/
def Lasts (before : List Token → Prop) (reader : Reader α) (after : α → List Token → Prop) : Prop :=
  ∀ tokens, before tokens →
    match reader.outcome tokens with
    | (.ok value, rest) => after value rest
    | (.error fault, _) => fault.IsOfReading

/-- Fewer tokens than so many are left in the line. -/
def Fewer (count : Nat) (tokens : List Token) : Prop := leftInLine tokens < count

theorem Fewer.mono {count more : Nat} (h : count ≤ more) {tokens : List Token} (hfewer : Fewer count tokens) :
    Fewer more tokens := Nat.lt_of_lt_of_le hfewer h

section Rules

variable {before : List Token → Prop} {reader : Reader α} {next : α → Reader β}
  {after : α → List Token → Prop} {last : β → List Token → Prop} {count : Nat}

theorem Lasts.bind (h : Lasts before reader after) (hnext : ∀ value, Lasts (after value) (next value) last) :
    Lasts before (reader >>= next) last := by
  intro tokens hbefore
  have hfirst := h tokens hbefore
  rw [outcome_bind]
  rcases hread : reader.outcome tokens with ⟨fault | value, rest⟩ <;> rw [hread] at hfirst
  · exact hfirst
  · exact hnext value rest hfirst

theorem Lasts.of_imp {stronger : List Token → Prop} (h : Lasts before reader after)
    (hbefore : ∀ tokens, stronger tokens → before tokens) : Lasts stronger reader after :=
  fun tokens hstronger => h tokens (hbefore tokens hstronger)

theorem Lasts.mono {weaker : α → List Token → Prop} (h : Lasts before reader after)
    (hafter : ∀ value tokens, after value tokens → weaker value tokens) : Lasts before reader weaker := by
  intro tokens hbefore
  have houtcome := h tokens hbefore
  rcases hread : reader.outcome tokens with ⟨fault | value, rest⟩ <;> rw [hread] at houtcome
  · exact houtcome
  · exact hafter value rest houtcome

theorem Lasts.ite {p : Prop} [Decidable p] {other : Reader α} (h : p → Lasts before reader after)
    (hother : ¬p → Lasts before other after) : Lasts before (if p then reader else other) after := by
  split
  · exact h ‹_›
  · exact hother ‹_›

theorem lasts_pure {value : α} (h : ∀ tokens, before tokens → after value tokens) :
    Lasts before (pure value) after := h

theorem lasts_throw {fault : Fault} (h : fault.IsOfReading) : Lasts before (throw fault : Reader α) after :=
  fun _ _ => h

theorem lasts_refuse (detail : String) : Lasts before (refuse detail : Reader α) after :=
  lasts_throw (.inl rfl)

theorem lasts_lift {result : Except Fault α} (hok : ∀ value tokens, before tokens → after value tokens)
    (herror : ∀ fault, result = .error fault → fault.IsOfReading) :
    Lasts before (liftM result : Reader α) after := by
  intro tokens hbefore
  cases result with
  | error fault => exact herror fault rfl
  | ok value => exact hok value tokens hbefore

theorem lasts_peek {next : Token.Kind → Reader α}
    (h : ∀ kind, Lasts (fun tokens => before tokens ∧ kindAt tokens = kind) (next kind) after) :
    Lasts before (peekKind >>= next) after :=
  fun tokens hbefore => h (kindAt tokens) tokens ⟨hbefore, rfl⟩

theorem lasts_peekSecond {next : Token.Kind → Reader α} (h : ∀ kind, Lasts before (next kind) after) :
    Lasts before (peekSecondKind >>= next) after :=
  fun tokens hbefore => h (kindAt tokens.tail) tokens hbefore

theorem lasts_sized {reader : Nat → Reader α}
    (h : ∀ left, left < count → Lasts (Fewer (left + 1)) (reader left) after) :
    Lasts (Fewer count) (tokensLeft >>= reader) after :=
  fun tokens hfewer => h (leftInLine tokens) hfewer tokens (Nat.lt_succ_self _)

/-- There are no fewer tokens than none. -/
theorem lasts_none : Lasts (Fewer 0) reader after :=
  fun _ hfewer => absurd hfewer (Nat.not_lt_zero _)

theorem lasts_fewer (h : ∀ less, count = less + 1 → Lasts (Fewer (less + 1)) reader after) :
    Lasts (Fewer count) reader after := by
  cases count with
  | zero => exact lasts_none
  | succ less => exact h less rfl

/-- What is left behind a token. One that ends the line is not taken. -/
def Behind (count : Nat) (token : Token) (tokens : List Token) : Prop :=
  Fewer (if token.kind.endsLine then count + 1 else count) tokens

theorem Behind.fewer {token : Token} {tokens : List Token} (h : Behind count token tokens) :
    Fewer (count + 1) tokens := by
  refine h.mono ?_
  split
  · exact Nat.le_refl _
  · exact Nat.le_succ _

theorem lasts_behind {token : Token} (hkind : token.kind.endsLine = false)
    (h : Lasts (Fewer count) reader after) : Lasts (Behind count token) reader after := by
  refine h.of_imp fun tokens hbehind => ?_
  rwa [Behind, hkind] at hbehind

theorem Fewer.rest {token : Token} {rest : List Token} (h : Fewer (count + 1) (token :: rest))
    (hkind : token.kind.endsLine = false) : Fewer count rest := by
  rw [Fewer, leftInLine_cons hkind] at h
  exact Nat.lt_of_succ_lt_succ h

theorem outcome_next_bind (next : Token → Reader α) (token : Token) (rest : List Token) :
    (Reader.next >>= next).outcome (token :: rest) =
      (next token).outcome (if token.kind.endsLine then token :: rest else rest) := rfl

theorem lasts_next {next : Token → Reader α} (h : ∀ token, Lasts (Behind count token) (next token) after) :
    Lasts (Fewer (count + 1)) (Reader.next >>= next) after := by
  intro tokens hfewer
  cases tokens with
  | nil => exact h Token.endOfInput [] hfewer
  | cons token rest =>
      rw [outcome_next_bind]
      refine h token _ ?_
      cases hkind : token.kind.endsLine with
      | true => rwa [Behind, hkind]
      | false =>
          rw [Behind, hkind]
          exact hfewer.rest hkind

/-- The next token is known to be one of the line. -/
theorem lasts_take {kind : Token.Kind} {next : Token → Reader α} (hkind : kind.endsLine = false)
    (h : ∀ token, Lasts (Fewer count) (next token) after) :
    Lasts (fun tokens => Fewer (count + 1) tokens ∧ kindAt tokens = kind) (Reader.next >>= next) after := by
  rintro tokens ⟨hfewer, rfl⟩
  cases tokens with
  | nil => cases hkind
  | cons token rest =>
      have hline : token.kind.endsLine = false := hkind
      rw [outcome_next_bind, hline]
      exact h token rest (hfewer.rest hline)

theorem lasts_accept {kind : Token.Kind} {next : Bool → Reader α} (hkind : kind.endsLine = false)
    (hfound : Lasts (Fewer count) (next true) after) (hother : Lasts (Fewer (count + 1)) (next false) after) :
    Lasts (Fewer (count + 1)) (accept kind >>= next) after := by
  have haccept : Lasts (Fewer (count + 1)) (accept kind) fun found =>
      Fewer (if found then count else count + 1) := by
    refine lasts_peek fun found => .ite (fun heq => ?_) fun _ => lasts_pure fun tokens h => h.1
    exact lasts_take (by rw [heq, hkind]) fun token => lasts_pure fun tokens h => h
  refine haccept.bind fun found => ?_
  cases found with
  | false => exact hother
  | true => exact hfound

end Rules

/-- A reader that leaves no more tokens in the line than it finds. -/
def Keeps (reader : Reader α) : Prop := ∀ count, Lasts (Fewer count) reader fun _ => Fewer count

/-- A reader that takes a token of the line at least. -/
def Takes (reader : Reader α) : Prop := ∀ count, Lasts (Fewer (count + 1)) reader fun _ => Fewer count

section Counts

variable {reader other : Reader α} {next : α → Reader β} {count : Nat}

theorem Takes.keeps (h : Takes reader) : Keeps reader := fun _ => lasts_fewer fun less hless =>
  (h less).mono fun _ _ hfewer => hfewer.mono (by omega)

theorem Keeps.bind (h : Keeps reader) (hnext : ∀ value, Keeps (next value)) : Keeps (reader >>= next) :=
  fun count => (h count).bind fun value => hnext value count

theorem Takes.bind (h : Takes reader) (hnext : ∀ value, Keeps (next value)) : Takes (reader >>= next) :=
  fun count => (h count).bind fun value => hnext value count

theorem keeps_pure (value : α) : Keeps (pure value : Reader α) := fun _ => lasts_pure fun _ h => h

theorem keeps_refuse (detail : String) : Keeps (refuse detail : Reader α) := fun _ => lasts_refuse detail

theorem Keeps.map (h : Keeps reader) (f : α → β) : Keeps (f <$> reader) :=
  h.bind fun value => keeps_pure (f value)

theorem Takes.map (h : Takes reader) (f : α → β) : Takes (f <$> reader) :=
  Takes.bind h fun value => keeps_pure (f value)

theorem Keeps.ite {p : Prop} [Decidable p] (h : Keeps reader) (hother : Keeps other) :
    Keeps (if p then reader else other) := fun count => .ite (fun _ => h count) fun _ => hother count

theorem keeps_peek {next : Token.Kind → Reader α} (h : ∀ kind, Keeps (next kind)) : Keeps (peekKind >>= next) :=
  fun count => lasts_peek fun kind => (h kind count).of_imp fun _ hfewer => hfewer.1

theorem keeps_next {next : Token → Reader α} (h : ∀ token, Keeps (next token)) : Keeps (Reader.next >>= next) := by
  refine fun count => lasts_fewer fun less hless => lasts_next fun token => ?_
  subst hless
  exact (h token (less + 1)).of_imp fun _ hbehind => hbehind.fewer

theorem keeps_accept (kind : Token.Kind) : Keeps (accept kind) :=
  keeps_peek fun _ => (keeps_next fun _ => keeps_pure true).ite (keeps_pure false)

theorem keeps_expect (kind : Token.Kind) : Keeps (expect kind) :=
  keeps_next fun _ => (keeps_pure ()).ite (keeps_refuse _)

theorem keeps_atEnd : Keeps atEnd := keeps_peek fun _ => keeps_pure _

theorem takes_name : Takes name := by
  refine fun count => lasts_next fun token => .ite (fun hkind => ?_) fun _ => lasts_refuse _
  exact lasts_behind (by rw [hkind]; rfl) (lasts_pure fun _ h => h)

theorem isOfReading_lineNumber {literal : String} {fault : Fault} (h : Literal.lineNumber literal = .error fault) :
    fault.IsOfReading := by
  unfold Literal.lineNumber at h
  dsimp only at h
  split at h
  · cases h
    exact .inl rfl
  · split at h
    · cases h
    · cases h
      exact .inl rfl

theorem takes_lineRef : Takes lineRef := by
  refine fun count => lasts_next fun token => .ite (fun hkind => ?_) fun _ => lasts_refuse _
  exact lasts_behind (endsLine_of_isNumber hkind) (lasts_lift (fun _ _ h => h) fun _ => isOfReading_lineNumber)

theorem keeps_lineRef? : Keeps lineRef? :=
  keeps_peek fun _ => (takes_lineRef.keeps.bind fun _ => keeps_pure _).ite (keeps_pure none)

/-- Every comma that is taken makes up for a call. -/
theorem lasts_commaList {item : Reader α} (h : Keeps item) {budget : Nat} (hbudget : count ≤ budget) :
    Lasts (Fewer count) (commaList item budget) fun _ => Fewer count := by
  induction budget generalizing count with
  | zero =>
      obtain rfl := Nat.le_zero.mp hbudget
      exact lasts_none
  | succ budget ih =>
      refine lasts_fewer fun less hless => ?_
      subst hless
      refine (h (less + 1)).bind fun first => lasts_accept rfl ?_ (keeps_pure _ _)
      refine (ih (Nat.le_of_succ_le_succ hbudget)).bind fun others => lasts_pure fun _ hfewer => ?_
      exact hfewer.mono (Nat.le_succ less)

theorem keeps_sized {reader : Nat → Reader α}
    (h : ∀ left, Lasts (Fewer (left + 1)) (reader left) fun _ => Fewer (left + 1)) : Keeps (tokensLeft >>= reader) :=
  fun _ => lasts_sized fun left hleft => (h left).mono fun _ _ hfewer => hfewer.mono hleft

theorem takes_sized {reader : Nat → Reader α}
    (h : ∀ left, Lasts (Fewer (left + 1)) (reader left) fun _ => Fewer left) : Takes (tokensLeft >>= reader) :=
  fun _ => lasts_sized fun left hleft =>
    (h left).mono fun _ _ hfewer => hfewer.mono (Nat.le_of_lt_succ hleft)

theorem keeps_listOf {item : Reader α} (h : Keeps item) : Keeps (listOf item) :=
  keeps_sized fun _ => lasts_commaList h (Nat.le_refl _)

end Counts

section Literals

variable {fault : Fault}

theorem isOfReading_bits {base : Nat} {digits : List Char} (h : Literal.bits base digits = .error fault) :
    fault.IsOfReading := by
  unfold Literal.bits at h
  dsimp only at h
  split at h
  · cases h
    exact .inr (.inl rfl)
  · cases h

theorem isOfReading_single {text : List Char} (h : Literal.single text = .error fault) : fault.IsOfReading := by
  unfold Literal.single at h
  split at h
  · split at h
    · cases h
    · cases h
      exact .inr (.inl rfl)
  · cases h
    exact .inl rfl

theorem isOfReading_double {text : List Char} (h : Literal.double text = .error fault) : fault.IsOfReading := by
  unfold Literal.double at h
  split at h
  · split at h
    · cases h
    · cases h
      exact .inr (.inl rfl)
  · cases h
    exact .inl rfl

theorem isOfReading_ofToken {token : Token} (h : Literal.ofToken token = .error fault) : fault.IsOfReading := by
  unfold Literal.ofToken at h
  dsimp only at h
  split at h
  · split at h
    · cases h
    · cases h
      exact .inr (.inl rfl)
  · split at h
    · exact isOfReading_double h
    · exact isOfReading_single h
  · exact isOfReading_single h
  · exact isOfReading_double h
  · exact isOfReading_bits h
  · exact isOfReading_bits h
  · cases h
    exact .inl rfl

end Literals

section Expressions

/-- What a budget suffices for: four for each token that is left in the line, and so much more that a
reader has one more than those it calls. -/
structure ExprsLast (budget : Nat) : Prop where
  exprAbove : ∀ count level, 4 * count + 2 ≤ budget →
    Lasts (Fewer (count + 1)) (exprAbove budget level) fun _ => Fewer count
  operators : ∀ count level left, 4 * count + 1 ≤ budget →
    Lasts (Fewer (count + 1)) (operators budget level left) fun _ => Fewer (count + 1)
  operand : ∀ count, 4 * count + 1 ≤ budget → Lasts (Fewer (count + 1)) (operand budget) fun _ => Fewer count
  named : ∀ count word, 4 * count + 3 ≤ budget →
    Lasts (Fewer (count + 1)) (named budget word) fun _ => Fewer (count + 1)
  arguments : ∀ count, 4 * count + 3 ≤ budget →
    Lasts (Fewer (count + 1)) (arguments budget) fun _ => Fewer count

variable {budget count : Nat}

theorem endsLine_of_operator {kind : Token.Kind} {op : BinaryOp} (h : BinaryOp.ofKind? kind = some op) :
    kind.endsLine = false := by
  cases kind <;> first | rfl | cases h

theorem lasts_exprAbove (h : ExprsLast budget) (level : Level) (hbudget : 4 * count + 1 ≤ budget) :
    Lasts (Fewer (count + 1)) (exprAbove (budget + 1) level) fun _ => Fewer count := by
  rw [exprAbove]
  refine (h.operand count hbudget).bind fun left => lasts_fewer fun less hless => ?_
  subst hless
  exact h.operators less level left (by omega)

theorem lasts_operators (h : ExprsLast budget) (level : Level) (left : Expr) (hbudget : 4 * count ≤ budget) :
    Lasts (Fewer (count + 1)) (operators (budget + 1) level left) fun _ => Fewer (count + 1) := by
  rw [operators]
  refine lasts_peek fun kind => ?_
  split
  · rename_i op hop
    refine .ite (fun _ => lasts_pure fun _ hfewer => hfewer.1) fun _ => ?_
    refine lasts_take (endsLine_of_operator hop) fun _ => lasts_fewer fun less hless => ?_
    subst hless
    refine (h.exprAbove less op.level (by omega)).bind fun right => lasts_fewer fun last hlast => ?_
    subst hlast
    exact (h.operators last level _ (by omega)).mono fun _ _ hfewer => hfewer.mono (by omega)
  · exact lasts_pure fun _ hfewer => hfewer.1

theorem lasts_operand (h : ExprsLast budget) (hbudget : 4 * count ≤ budget) :
    Lasts (Fewer (count + 1)) (operand (budget + 1)) fun _ => Fewer count := by
  have hinner : ∀ level, Lasts (Fewer count) (Reader.exprAbove budget level) fun _ => Fewer count := by
    refine fun level => lasts_fewer fun less hless => ?_
    subst hless
    exact (h.exprAbove less level (by omega)).mono fun _ _ hfewer => hfewer.mono (Nat.le_succ less)
  have hunary : ∀ op, Lasts (Fewer count)
      (Reader.exprAbove budget .ofUnary >>= fun inner => pure (Expr.unary op inner)) fun _ => Fewer count :=
    fun op => (hinner _).bind fun inner => keeps_pure _ _
  have hliteral : ∀ token : Token, Lasts (Fewer count) (liftM (Literal.ofToken token) : Reader Expr)
      fun _ => Fewer count := fun token => lasts_lift (fun _ _ hfewer => hfewer) fun _ => isOfReading_ofToken
  have hnamed : ∀ word, Lasts (Fewer count) (Reader.named budget word) fun _ => Fewer count := by
    refine fun word => lasts_fewer fun less hless => ?_
    subst hless
    exact h.named less word (by omega)
  have hrefuse : ∀ detail, Lasts (Fewer count) (refuse detail : Reader Expr) fun _ => Fewer count := lasts_refuse
  have hmissing : ∀ before, Lasts before (throw (.of .missingOperand "EXPECTED EXPRESSION") : Reader Expr)
      fun _ => Fewer count := fun _ => lasts_throw (.inr (.inr rfl))
  rw [operand]
  refine lasts_next fun token => ?_
  cases hkind : token.kind.endsLine with
  | true =>
      rcases Token.Kind.endsLine_iff.mp hkind with heol | heof
      · rw [heol]
        exact hmissing _
      · rw [heof]
        exact hmissing _
  | false =>
      refine lasts_behind hkind ?_
      split
      · exact hunary .negate
      · exact hunary .positive
      · exact hunary .not
      · exact (hinner _).bind fun inner => (keeps_expect _ _).bind fun _ => keeps_pure _ _
      · exact hliteral token
      · exact hliteral token
      · exact hliteral token
      · exact hliteral token
      · exact hliteral token
      · exact hliteral token
      · exact keeps_pure _ _
      · exact hnamed _
      · exact keeps_pure _ _
      · exact keeps_pure _ _
      · exact keeps_pure _ _
      · exact keeps_pure _ _
      · exact keeps_pure _ _
      · exact hmissing _
      · exact hmissing _
      · exact hmissing _
      · exact hmissing _
      · exact .ite (fun _ => hrefuse _) fun _ => hrefuse _

theorem lasts_named (h : ExprsLast budget) (word : String) (hbudget : 4 * count + 2 ≤ budget) :
    Lasts (Fewer (count + 1)) (named (budget + 1) word) fun _ => Fewer (count + 1) := by
  have harguments : Lasts (Fewer count) (Reader.arguments budget) fun _ => Fewer (count + 1) := by
    refine lasts_fewer fun less hless => ?_
    subst hless
    exact (h.arguments less (by omega)).mono fun _ _ hfewer => hfewer.mono (by omega)
  have hrest : ∀ name : Name, Lasts (Fewer (count + 1)) (accept .leftParen >>= fun paren =>
      if paren then Reader.arguments budget >>= fun list =>
        if name.isFunction || (Builtin.ofName? name.spelling).isSome then pure (Expr.call name list)
        else pure (Expr.element name list)
      else if name.isFunction then pure (Expr.call name [])
      else pure (Expr.scalar name)) fun _ => Fewer (count + 1) := by
    refine fun name => lasts_accept rfl (harguments.bind fun list => ?_) ?_
    · exact ((keeps_pure _).ite (keeps_pure _)) _
    · exact ((keeps_pure _).ite (keeps_pure _)) _
  rw [named]
  refine lasts_peek fun kind => .ite (fun hfound => ?_) fun _ => (hrest _).of_imp fun _ hfewer => hfewer.1
  refine lasts_take (by rw [hfound.2]; rfl) fun token => (hrest _).of_imp fun _ hfewer => ?_
  exact hfewer.mono (Nat.le_succ count)

theorem lasts_arguments (h : ExprsLast budget) (hbudget : 4 * count + 2 ≤ budget) :
    Lasts (Fewer (count + 1)) (arguments (budget + 1)) fun _ => Fewer count := by
  rw [arguments]
  refine (h.exprAbove count _ hbudget).bind fun first => lasts_fewer fun less hless => ?_
  subst hless
  refine lasts_next fun token => ?_
  split
  · rename_i hkind
    exact lasts_behind (by rw [hkind]; rfl) (lasts_pure fun _ hfewer => hfewer.mono (Nat.le_succ less))
  · rename_i hkind
    refine lasts_behind (by rw [hkind]; rfl) (lasts_fewer fun last hlast => ?_)
    subst hlast
    refine (h.arguments last (by omega)).bind fun others => lasts_pure fun _ hfewer => ?_
    exact hfewer.mono (by omega)
  · exact lasts_refuse _

theorem exprsLast (budget : Nat) : ExprsLast budget := by
  induction budget with
  | zero =>
      refine ⟨fun _ _ h => ?_, fun _ _ _ h => ?_, fun _ h => ?_, fun _ _ h => ?_, fun _ h => ?_⟩ <;> omega
  | succ budget ih =>
      exact ⟨fun _ level h => lasts_exprAbove ih level (by omega),
        fun _ level left h => lasts_operators ih level left (by omega), fun _ h => lasts_operand ih (by omega),
        fun _ word h => lasts_named ih word (by omega), fun _ h => lasts_arguments ih (by omega)⟩

theorem takes_expr : Takes expr :=
  takes_sized fun left => (exprsLast _).exprAbove left _ (by rw [budgetFor]; omega)

theorem takes_exprList : Takes exprList :=
  takes_sized fun left => (exprsLast _).arguments left (by rw [budgetFor]; omega)

theorem takes_target : Takes target := by
  refine takes_name.bind fun name => (keeps_accept _).bind fun paren => ?_
  exact (takes_exprList.keeps.bind fun list => keeps_pure _).ite (keeps_pure _)

theorem lasts_positionsFrom (hbudget : count ≤ budget) :
    Lasts (Fewer count) (positionsFrom budget) fun _ => Fewer count := by
  induction budget generalizing count with
  | zero =>
      obtain rfl := Nat.le_zero.mp hbudget
      exact lasts_none
  | succ budget ih =>
      have hrest : ∀ first : Option Expr, Lasts (Fewer count) (accept .comma >>= fun found =>
          if found then atEnd >>= fun ended =>
            if ended then refuse "TRAILING COMMA" else positionsFrom budget >>= fun others => pure (first :: others)
          else pure [first]) fun _ => Fewer count := by
        refine fun first => lasts_fewer fun less hless => ?_
        subst hless
        refine lasts_accept rfl ((keeps_atEnd less).bind fun ended => ?_) (keeps_pure _ _)
        refine .ite (fun _ => lasts_refuse _) fun _ => (ih (Nat.le_of_succ_le_succ hbudget)).bind fun others => ?_
        exact lasts_pure fun _ hfewer => hfewer.mono (Nat.le_succ less)
      refine lasts_peek fun kind => ?_
      split
      · exact (hrest none).of_imp fun _ hfewer => hfewer.1
      · exact ((takes_expr.keeps.map some count).bind hrest).of_imp fun _ hfewer => hfewer.1

theorem keeps_positions : Keeps positions :=
  keeps_atEnd.bind fun _ => (keeps_pure []).ite (keeps_sized fun _ => lasts_positionsFrom (Nat.le_refl _))

end Expressions

section Commands

theorem takes_assignment : Takes assignment :=
  takes_target.bind fun _ => (keeps_expect _).bind fun _ => takes_expr.keeps.bind fun _ => keeps_pure _

theorem keeps_auto : Keeps auto :=
  keeps_lineRef?.bind fun _ => (keeps_accept _).bind fun _ =>
    (takes_lineRef.keeps.bind fun _ => keeps_pure _).ite (keeps_pure _)

theorem keeps_chain : Keeps chain := by
  refine takes_expr.keeps.bind fun path => (keeps_accept _).bind fun comma => Keeps.ite ?_ (keeps_pure _)
  refine keeps_lineRef?.bind fun line => (keeps_accept _).bind fun second => Keeps.ite ?_ (keeps_pure _)
  exact (keeps_expect _).bind fun _ => keeps_pure _

theorem keeps_datum : Keeps datum := by
  refine keeps_peek fun kind => ?_
  split
  · exact keeps_next fun _ => keeps_pure _
  · exact keeps_next fun _ => keeps_pure _
  · exact keeps_refuse _
  · exact keeps_pure _

theorem keeps_functionName : Keeps functionName := by
  have hrest : ∀ whole : Name, Keeps (if whole.isFunction then pure whole else refuse "EXPECTED FN") :=
    fun whole => (keeps_pure whole).ite (keeps_refuse _)
  refine takes_name.keeps.bind fun first => ?_
  split
  · exact takes_name.keeps.bind fun second => hrest _
  · exact hrest first

theorem keeps_definition : Keeps definition := by
  have hrest : ∀ function parameters, Keeps (expect .eq >>= fun _ =>
      expr >>= fun body => pure (Command.define function parameters body)) :=
    fun function parameters => (keeps_expect _).bind fun _ => takes_expr.keeps.bind fun body => keeps_pure _
  refine keeps_functionName.bind fun function => (keeps_accept _).bind fun paren => ?_
  split
  · exact (keeps_listOf takes_name.keeps).bind fun list => (keeps_expect _).bind fun _ => hrest function list
  · exact hrest function []

theorem keeps_forLoop : Keeps forLoop := by
  refine takes_name.keeps.bind fun counter => (keeps_expect _).bind fun _ => takes_expr.keeps.bind fun start => ?_
  refine (keeps_expect _).bind fun _ => takes_expr.keeps.bind fun limit => (keeps_accept _).bind fun step => ?_
  exact (takes_expr.keeps.bind fun _ => keeps_pure _).ite (keeps_pure _)

theorem keeps_list : Keeps list :=
  keeps_lineRef?.bind fun _ => (keeps_accept _).bind fun _ =>
    (keeps_lineRef?.bind fun _ => keeps_pure _).ite (keeps_pure _)

theorem keeps_load : Keeps load := by
  refine takes_expr.keeps.bind fun path => (keeps_accept _).bind fun comma => Keeps.ite ?_ (keeps_pure _)
  exact takes_name.keeps.bind fun letter => (keeps_pure _).ite (keeps_refuse _)

theorem keeps_trapOrJump : Keeps trapOrJump := by
  refine (keeps_accept _).bind fun trap => Keeps.ite ?_ ?_
  · exact (keeps_expect _).bind fun _ => takes_lineRef.keeps.bind fun line => keeps_pure _
  · refine takes_expr.keeps.bind fun selector => keeps_next fun token => ?_
    split
    · exact (keeps_listOf takes_lineRef.keeps).bind fun lines => keeps_pure _
    · exact (keeps_listOf takes_lineRef.keeps).bind fun lines => keeps_pure _
    · exact keeps_refuse _

theorem lasts_printItems {count budget : Nat} (hbudget : count ≤ budget) :
    Lasts (Fewer count) (printItems budget) fun _ => Fewer count := by
  induction budget generalizing count with
  | zero =>
      obtain rfl := Nat.le_zero.mp hbudget
      exact lasts_none
  | succ budget ih =>
      refine lasts_fewer fun less hless => ?_
      subst hless
      have hrest : ∀ item, Lasts (Fewer less) (printItems budget >>= fun items => pure (item :: items))
          fun _ => Fewer (less + 1) := by
        refine fun item => (ih (Nat.le_of_succ_le_succ hbudget)).bind fun items => ?_
        exact lasts_pure fun _ hfewer => hfewer.mono (Nat.le_succ less)
      refine (keeps_atEnd (less + 1)).bind fun ended => .ite (fun _ => keeps_pure [] _) fun _ => ?_
      refine lasts_peek fun kind => ?_
      split
      · exact (lasts_take rfl fun _ => keeps_pure _ _).bind hrest
      · exact (lasts_take rfl fun _ => keeps_pure _ _).bind hrest
      · exact (lasts_refuse _).bind hrest
      · exact ((takes_expr.map _ less).bind hrest).of_imp fun _ hfewer => hfewer.1

theorem keeps_resume : Keeps resume := by
  refine (keeps_accept _).bind fun next => (keeps_pure _).ite (keeps_lineRef?.bind fun line => ?_)
  split <;> exact keeps_pure _

theorem keeps_runOrLoad : Keeps runOrLoad := by
  refine keeps_atEnd.bind fun ended => (keeps_pure _).ite (keeps_peek fun kind => Keeps.ite ?_ ?_)
  · exact takes_lineRef.keeps.bind fun line => keeps_pure _
  · refine takes_expr.keeps.bind fun path => (keeps_accept _).bind fun comma => Keeps.ite ?_ (keeps_pure _)
    exact takes_name.keeps.bind fun _ => keeps_pure _

/-- A value that a reader gives, put into a statement. -/
theorem Keeps.builds {reader : Reader α} (h : Keeps reader) (f : α → Command) :
    Keeps (reader >>= fun value => pure (f value)) :=
  h.bind fun value => keeps_pure (f value)

/-- A value that may be left out at the end of a statement. -/
theorem Keeps.optional {reader : Reader α} (h : Keeps reader) (without : Command) (f : α → Command) :
    Keeps (atEnd >>= fun ended => if ended then pure without else reader >>= fun value => pure (f value)) :=
  keeps_atEnd.bind fun _ => (keeps_pure without).ite (h.builds f)

theorem keeps_command (token : Token) : Keeps (command token) := by
  have hexpr := takes_expr.keeps
  have hname := takes_name.keeps
  have htarget := takes_target.keeps
  have hline := takes_lineRef.keeps
  unfold command
  split
  · exact takes_assignment.keeps
  · exact keeps_auto
  · exact keeps_pure _
  · exact keeps_chain
  · exact keeps_positions.builds _
  · exact keeps_pure _
  · exact keeps_positions.builds _
  · exact (keeps_listOf hname).builds _
  · exact keeps_pure _
  · exact (keeps_listOf keeps_datum).builds _
  · exact keeps_definition
  · exact (keeps_listOf htarget).builds _
  · exact keeps_pure _
  · exact hexpr.builds _
  · exact hexpr.optional _ fun pattern => .files (some pattern)
  · exact keeps_forLoop
  · exact hline.builds _
  · exact hline.builds _
  · exact hexpr.bind fun number => (keeps_expect _).bind fun _ => hexpr.builds _
  · exact keeps_list
  · exact keeps_load
  · exact keeps_positions.builds _
  · exact hexpr.builds _
  · exact keeps_pure _
  · exact (keeps_listOf hname).optional _ _
  · exact keeps_trapOrJump
  · exact keeps_positions.builds _
  · exact Keeps.builds (keeps_sized fun _ => lasts_printItems (Nat.le_refl _)) _
  · exact (keeps_listOf htarget).builds _
  · exact keeps_peek fun _ => (keeps_next fun _ => keeps_pure _).ite (keeps_pure _)
  · exact keeps_lineRef?.builds _
  · exact keeps_resume
  · exact keeps_lineRef?.builds _
  · exact keeps_runOrLoad
  · exact keeps_positions.builds _
  · exact keeps_pure _
  · exact keeps_pure _
  · exact keeps_pure _
  · exact keeps_pure _
  · exact hexpr.builds _
  · exact (keeps_refuse _).ite (keeps_refuse _)

/-- No statement starts where a line ends. -/
theorem lasts_command_of_endsLine {token : Token} {before : List Token → Prop}
    {after : Command → List Token → Prop} (h : token.kind.endsLine = true) :
    Lasts before (command token) after := by
  have hrefuse : Lasts before (if isOpenString token then refuse "UNTERMINATED STRING" else refuse "EXPECTED STATEMENT")
      after := .ite (fun _ => lasts_refuse _) fun _ => lasts_refuse _
  unfold command
  rcases Token.Kind.endsLine_iff.mp h with heol | heof
  · rw [heol]
    exact hrefuse
  · rw [heof]
    exact hrefuse

end Commands

section Statements

/-- What a budget suffices for: four for each token that is left in the line, and so much more that a
reader has one more than those it calls. -/
structure StatementsLast (budget : Nat) : Prop where
  statement : ∀ count, 4 * count + 1 ≤ budget →
    Lasts (Fewer (count + 1)) (statementWithin budget) fun _ => Fewer count
  choice : ∀ count, 4 * count + 4 ≤ budget → Lasts (Fewer (count + 1)) (choice budget) fun _ => Fewer (count + 1)
  branch : ∀ count, 4 * count + 3 ≤ budget → Lasts (Fewer (count + 1)) (branch budget) fun _ => Fewer (count + 1)
  statements : ∀ count, 4 * count + 2 ≤ budget →
    Lasts (Fewer (count + 1)) (branchStatements budget) fun _ => Fewer (count + 1)

variable {budget count : Nat}

theorem lasts_statementWithin (h : StatementsLast budget) (hbudget : 4 * count ≤ budget) :
    Lasts (Fewer (count + 1)) (statementWithin (budget + 1)) fun _ => Fewer count := by
  rw [statementWithin]
  refine lasts_peek fun kind => .ite (fun _ => ?_) fun _ => ?_
  · exact ((takes_assignment.bind fun _ => keeps_pure _) count).of_imp fun _ hfewer => hfewer.1
  · refine Lasts.of_imp (lasts_next fun token => ?_) fun _ hfewer => hfewer.1
    cases hkind : token.kind.endsLine with
    | true =>
        have hif : token.kind ≠ .keyword .IF := (Token.Kind.ne_of_endsLine rfl hkind).symm
        rw [if_neg hif]
        exact (lasts_command_of_endsLine hkind).bind fun _ => keeps_pure _ count
    | false =>
        refine lasts_behind hkind (.ite (fun _ => lasts_fewer fun less hless => ?_) fun _ => ?_)
        · subst hless
          exact h.choice less (by omega)
        · exact ((keeps_command token).bind fun _ => keeps_pure _) count

theorem keeps_atColonElse : Keeps atColonElse :=
  keeps_peek fun _ => Keeps.ite (fun _ => lasts_peekSecond fun _ => keeps_pure _ _) (keeps_pure false)

theorem lasts_choice (h : StatementsLast budget) (hbudget : 4 * count + 3 ≤ budget) :
    Lasts (Fewer (count + 1)) (choice (budget + 1)) fun _ => Fewer (count + 1) := by
  have helse : ∀ condition thenList, Lasts (Fewer (count + 1)) (accept (.keyword .ELSE) >>= fun found =>
      if found then Reader.branch budget >>= fun elseList => pure (Statement.choice condition thenList elseList)
      else pure (Statement.choice condition thenList [])) fun _ => Fewer (count + 1) :=
    fun condition thenList => (keeps_accept _ _).bind fun found =>
      .ite (fun _ => (h.branch count hbudget).bind fun _ => keeps_pure _ _) fun _ => keeps_pure _ _
  have hrest : ∀ condition thenList, Lasts (Fewer (count + 1)) (atColonElse >>= fun colon =>
      if colon then Reader.next >>= fun _ =>
        accept (.keyword .ELSE) >>= fun found =>
          if found then Reader.branch budget >>= fun elseList => pure (Statement.choice condition thenList elseList)
          else pure (Statement.choice condition thenList [])
      else accept (.keyword .ELSE) >>= fun found =>
          if found then Reader.branch budget >>= fun elseList => pure (Statement.choice condition thenList elseList)
          else pure (Statement.choice condition thenList [])) fun _ => Fewer (count + 1) :=
    fun condition thenList => (keeps_atColonElse _).bind fun colon =>
      .ite (fun _ => lasts_next fun token => (helse condition thenList).of_imp fun _ hbehind => hbehind.fewer)
        fun _ => helse condition thenList
  rw [choice]
  refine ((takes_expr.keeps _).bind fun condition => lasts_next fun token => ?_)
  split
  · rename_i hkind
    refine lasts_behind (by rw [hkind]; rfl) (Lasts.bind ?_ (hrest condition))
    refine lasts_fewer fun less hless => ?_
    subst hless
    exact (h.branch less (by omega)).mono fun _ _ hfewer => hfewer.mono (Nat.le_succ _)
  · rename_i hkind
    refine lasts_behind (by rw [hkind]; rfl) (Lasts.bind ?_ (hrest condition))
    exact (takes_lineRef.keeps.map _ count).mono fun _ _ hfewer => hfewer.mono (Nat.le_succ _)
  · exact (lasts_refuse _).bind (hrest condition)

theorem lasts_branch (h : StatementsLast budget) (hbudget : 4 * count + 2 ≤ budget) :
    Lasts (Fewer (count + 1)) (branch (budget + 1)) fun _ => Fewer (count + 1) := by
  rw [branch]
  refine lasts_peek fun kind => .ite (fun _ => ?_) fun _ => ?_
  · exact (takes_lineRef.keeps.bind (fun _ => keeps_pure _) _).of_imp fun _ hfewer => hfewer.1
  · refine Lasts.of_imp ((h.statements count hbudget).bind fun list => ?_) fun _ hfewer => hfewer.1
    cases list with
    | nil => exact lasts_refuse _
    | cons first others => exact keeps_pure _ _

theorem lasts_branchStatements (h : StatementsLast budget) (hbudget : 4 * count + 1 ≤ budget) :
    Lasts (Fewer (count + 1)) (branchStatements (budget + 1)) fun _ => Fewer (count + 1) := by
  have hothers : Lasts (Fewer count) (Reader.branchStatements budget) fun _ => Fewer (count + 1) := by
    refine lasts_fewer fun less hless => ?_
    subst hless
    exact (h.statements less (by omega)).mono fun _ _ hfewer => hfewer.mono (Nat.le_succ _)
  rw [branchStatements]
  refine lasts_peek fun kind => ?_
  split
  · exact lasts_pure fun _ hfewer => hfewer.1
  · exact lasts_pure fun _ hfewer => hfewer.1
  · exact lasts_pure fun _ hfewer => hfewer.1
  · refine lasts_peekSecond fun second => .ite (fun _ => lasts_pure fun _ hfewer => hfewer.1) fun _ => ?_
    exact lasts_take rfl fun _ => hothers
  · refine Lasts.of_imp ((h.statement count hbudget).bind fun first => (keeps_atEnd _).bind fun ended => ?_)
      fun _ hfewer => hfewer.1
    exact .ite (fun _ => hothers.bind fun others => keeps_pure _ _) fun _ => lasts_refuse _

theorem statementsLast (budget : Nat) : StatementsLast budget := by
  induction budget with
  | zero => refine ⟨fun _ h => ?_, fun _ h => ?_, fun _ h => ?_, fun _ h => ?_⟩ <;> omega
  | succ budget ih =>
      exact ⟨fun _ h => lasts_statementWithin ih (by omega), fun _ h => lasts_choice ih (by omega),
        fun _ h => lasts_branch ih (by omega), fun _ h => lasts_branchStatements ih (by omega)⟩

theorem takes_statement : Takes statement :=
  takes_sized fun left => (statementsLast _).statement left (by rw [budgetFor]; omega)

theorem lasts_statements (hbudget : count ≤ budget) :
    Lasts (Fewer count) (statements budget) fun _ => Fewer count := by
  induction budget generalizing count with
  | zero =>
      obtain rfl := Nat.le_zero.mp hbudget
      exact lasts_none
  | succ budget ih =>
      refine lasts_fewer fun less hless => ?_
      subst hless
      have hothers : Lasts (Fewer less) (statements budget) fun _ => Fewer (less + 1) :=
        (ih (Nat.le_of_succ_le_succ hbudget)).mono fun _ _ hfewer => hfewer.mono (Nat.le_succ less)
      refine lasts_peek fun kind => ?_
      split
      · exact lasts_pure fun _ hfewer => hfewer.1
      · exact lasts_pure fun _ hfewer => hfewer.1
      · exact lasts_take rfl fun _ => hothers
      · refine Lasts.of_imp ((takes_statement less).bind fun first => lasts_peek fun kind => ?_)
          fun _ hfewer => hfewer.1
        refine .ite (fun _ => ?_) fun _ => ?_
        · exact (hothers.bind fun others => keeps_pure _ _).of_imp fun _ hfewer => hfewer.1
        · exact lasts_refuse _

theorem keeps_label? : Keeps label? :=
  keeps_peek fun _ => Keeps.ite (keeps_next fun _ => Keeps.bind
    (fun _ => lasts_lift (fun _ _ h => h) fun _ => isOfReading_lineNumber) fun _ => keeps_pure _) (keeps_pure none)

theorem keeps_lineStatements : Keeps lineStatements := keeps_sized fun _ => lasts_statements (Nat.le_refl _)

theorem isOfReading_of_keeps {reader : Reader α} (h : Keeps reader) {tokens rest : List Token} {fault : Fault}
    (hread : reader.outcome tokens = (.error fault, rest)) : fault.IsOfReading := by
  have houtcome := h (leftInLine tokens + 1) tokens (Nat.lt_succ_self _)
  rwa [hread] at houtcome

theorem isOfReading_body {number : Option Nat} {tokens rest : List Token} {fault : Fault}
    (h : (body number).outcome tokens = (.error fault, rest)) : fault.IsOfReading := by
  rw [body, outcome_bind] at h
  rcases hlist : lineStatements.outcome tokens with ⟨result, after⟩
  rw [hlist] at h
  cases result with
  | error cause =>
      cases h
      exact isOfReading_of_keeps keeps_lineStatements hlist
  | ok statements =>
      -- The end of a line can always be passed.
      have hend : passLineEnd.outcome after = (.ok (), if kindAt after = .eol then after.tail else after) := rfl
      dsimp only at h
      rw [outcome_bind, hend] at h
      dsimp only at h
      split at h <;> cases h

/-- A line that cannot be read is at fault itself. -/
theorem isOfReading_line {tokens rest : List Token} {fault : Fault}
    (h : Reader.line.outcome tokens = (.error fault, rest)) : fault.IsOfReading := by
  rw [outcome_line] at h
  rcases hlabel : label?.outcome tokens with ⟨result, after⟩
  rw [hlabel] at h
  cases result with
  | error cause =>
      cases h
      exact isOfReading_of_keeps keeps_label? hlabel
  | ok number =>
      dsimp only at h
      rcases hbody : (body number).outcome after with ⟨result, last⟩
      rw [hbody] at h
      cases result with
      | ok found => cases h
      | error cause =>
          cases h
          -- The number that is put into the fault leaves its cause.
          have hcause := isOfReading_body hbody
          exact hcause

end Statements

end Reader

namespace Parsed

theorem isOfReading_ofLines (lines : List (List Token)) : ∀ fault ∈ (ofLines lines).faults, fault.IsOfReading := by
  induction lines with
  | nil => exact List.forall_mem_nil _
  | cons line others ih =>
      rw [ofLines_cons]
      rcases hread : Line.ofTokens? line with fault | ⟨_ | found⟩
      · exact List.forall_mem_cons.mpr ⟨Reader.isOfReading_line (Prod.ext hread rfl), ih⟩
      · exact ih
      · exact ih

/-- **Why a line is left out.** Its fault is a syntax error, a number that is too large or an operand that
is missing. No budget is ever used up. -/
theorem isOfReading_of_mem_faults {tokens : List Token} {fault : Fault} (h : fault ∈ (ofTokens tokens).faults) :
    fault.IsOfReading := by
  rw [ofTokens_eq] at h
  exact isOfReading_ofLines _ fault h

end Parsed

end LineBasic
