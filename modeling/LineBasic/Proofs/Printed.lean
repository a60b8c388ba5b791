import LineBasic.Proofs.Relist

/-! Expressions that are printed and read again. An expression is printed with the fewest parentheses
that the levels of its operators allow, and the reader finds the same tree in them: an assignment of a
printable expression, listed as a line, is read as that line and without a fault. -/

namespace LineBasic

open Token

/-- A name that its own spelling is scanned as, held in capitals as every name is. -/
structure Name.IsWord (name : Name) : Prop where
  scanned : lex name.spelling = [name.token, endOfInput]
  held : Name.ofWord name.spelling = name

instance (name : Name) : Decidable name.IsWord :=
  decidable_of_iff (lex name.spelling = [name.token, endOfInput] ∧ Name.ofWord name.spelling = name)
    ⟨fun h => ⟨h.1, h.2⟩, fun h => ⟨h.scanned, h.held⟩⟩

theorem Name.IsWord.legible {name : Name} (h : name.IsWord) : name.Legible :=
  IsName.of_lex h.scanned (congrArg Name.spelling h.held)

theorem Name.isWord_iff {name : Name} :
    name.IsWord ↔ lexCharacters (Text.characters name.spelling) = [name.token, endOfInput] ∧
      Name.ofWord name.spelling = name := by
  rw [← lex_eq]
  exact ⟨fun h => ⟨h.scanned, h.held⟩, fun h => ⟨h.1, h.2⟩⟩

theorem Builtin.isWord (builtin : Builtin) : Name.IsWord ⟨builtin.spelling⟩ := by
  rw [Name.isWord_iff]
  cases builtin <;> decide +kernel

namespace Expr

/-- The expressions that are printed as they are read. A name that stands alone is no defined function's,
and one before subscripts is no built-in function's either. -/
inductive Printable : Expr → Prop
  | int (value : Int16) : Printable (.int value)
  | text {value : String} (quotable : Quotable value) : Printable (.text value)
  | truth (value : Bool) : Printable (.truth value)
  | faultLine : Printable .faultLine
  | faultCode : Printable .faultCode
  | cursorRow : Printable .cursorRow
  | scalar {name : Name} (word : name.IsWord) (own : name.isFunction = false) : Printable (.scalar name)
  | element {name : Name} {subscripts : List Expr} (word : name.IsWord) (own : name.isFunction = false)
      (free : Builtin.ofName? name.spelling = none) (nonempty : subscripts ≠ [])
      (each : ∀ e ∈ subscripts, Printable e) : Printable (.element name subscripts)
  | builtin (function : Builtin) {arguments : List Expr} (nonempty : arguments ≠ [])
      (each : ∀ e ∈ arguments, Printable e) : Printable (.call ⟨function.spelling⟩ arguments)
  | function {name : Name} {arguments : List Expr} (word : name.IsWord) (defined : name.isFunction = true)
      (nonempty : arguments ≠ []) (each : ∀ e ∈ arguments, Printable e) : Printable (.call name arguments)
  | unary (op : UnaryOp) {operand : Expr} (inner : Printable operand) : Printable (.unary op operand)
  | binary (op : BinaryOp) {left right : Expr} (first : Printable left) (second : Printable right) :
      Printable (.binary op left right)

theorem legibleAll_iff {es : List Expr} : LegibleAll es ↔ ∀ e ∈ es, e.Legible := by
  induction es with
  | nil => simp [LegibleAll]
  | cons e rest ih => rw [LegibleAll, ih, List.forall_mem_cons]

theorem areFaithful_iff {es : List Expr} : areFaithful es = true ↔ ∀ e ∈ es, e.isFaithful = true := by
  induction es with
  | nil => simp [areFaithful]
  | cons e rest ih => rw [areFaithful, Bool.and_eq_true, ih, List.forall_mem_cons]

theorem Printable.legible {e : Expr} (h : e.Printable) : e.Legible := by
  induction h with
  | int | truth | faultLine | faultCode | cursorRow => simp [Legible]
  | text quotable =>
      rw [Legible]
      exact quotable
  | scalar word own =>
      rw [Legible]
      exact ⟨word.legible, own⟩
  | element word own free nonempty _ ih =>
      rw [Legible, own, free]
      exact ⟨word.legible, rfl, nonempty, legibleAll_iff.mpr ih⟩
  | builtin function _ _ ih =>
      have hfound : (Builtin.ofName? function.spelling).isSome = true := by
        cases function <;> decide
      rw [Legible, hfound, Bool.or_true]
      exact ⟨function.isWord.legible, rfl, legibleAll_iff.mpr ih⟩
  | function word defined _ _ ih =>
      rw [Legible, defined]
      exact ⟨word.legible, rfl, legibleAll_iff.mpr ih⟩
  | unary op _ ih =>
      rw [Legible]
      exact ih
  | binary op _ _ first second =>
      rw [Legible]
      exact ⟨first, second⟩

theorem Printable.isFaithful {e : Expr} (h : e.Printable) : e.isFaithful = true := by
  induction h with
  | int | text | truth | faultLine | faultCode | cursorRow | scalar => simp [Expr.isFaithful]
  | element _ _ _ _ _ ih =>
      rw [Expr.isFaithful]
      exact areFaithful_iff.mpr ih
  | builtin _ nonempty _ ih | function _ _ nonempty _ ih =>
      rw [Expr.isFaithful, Bool.and_eq_true, areFaithful_iff]
      exact ⟨by simpa using nonempty, ih⟩
  | unary op _ ih =>
      rw [Expr.isFaithful]
      exact ih
  | binary op _ _ first second => rw [Expr.isFaithful, first, second, Bool.and_self]

end Expr

namespace Parsed

/-- A faithful line that stands alone is read back from its listing. -/
theorem ofTokens_lex_listing {line : Line} (h : line.Legible) (hfaithful : line.isFaithful = true) :
    ofTokens (lex line.listing) = ⟨[line.separated], []⟩ := by
  have htokens := Line.tokens_ofText_listing h
  have hline : ∀ token ∈ line.listedTokens, token.kind ≠ .eol := by
    rw [← htokens]
    exact Scanner.kind_ne_eol _ (Line.inLine_listing h)
  have hread := Line.ofTokens?_listedTokens h
  rw [hfaithful, if_pos rfl] at hread
  rw [ofTokens_lex, htokens, splitLines_inLine hline, ofLines_cons, hread]
  rfl

/-- The assignment of an expression to `A`, in line 10. -/
def assignment (e : Expr) : Line := ⟨some 10, [.command (.assign (.scalar ⟨"A"⟩) e)]⟩

theorem listing_assignment (e : Expr) : (assignment e).listing = "10 A = " ++ e.listing := by
  have hbody : Statement.listingAll (assignment e).statements = "A = " ++ e.listing := by
    rw [assignment, Statement.listingAll, Statement.listing, Command.listing, Variable.listing,
      Variable.toExpr, Expr.listing]
    rfl
  have hnonempty : ("A = " ++ e.listing).isEmpty = false := by
    rw [← Bool.not_eq_true, String.isEmpty_iff, String.append_eq_empty_iff]
    simp
  calc (assignment e).listing
      = toString 10 ++ " " ++ ("A = " ++ e.listing) := by
        rw [Line.listing, hbody, hnonempty]
        rfl
    _ = "10 A = " ++ e.listing := by
        rw [← String.append_assoc]
        rfl

theorem legible_assignment {e : Expr} (h : e.Printable) : (assignment e).Legible := by
  have htarget : Name.Legible ⟨"A"⟩ := Name.IsWord.legible (by decide +kernel)
  refine ⟨by simp [assignment, Line.maxNumber], ?_, by simp [assignment]⟩
  rw [assignment, Statement.LegibleAll, Statement.LegibleAll, Statement.Legible]
  exact ⟨⟨htarget, h.legible⟩, fun hne => absurd rfl hne, trivial⟩

theorem isFaithful_assignment {e : Expr} (h : e.Printable) : (assignment e).isFaithful = true := by
  simp [assignment, Line.isFaithful, Statement.areFaithful, Statement.isFaithful, Command.isFaithful,
    Command.exprs, Command.runsFromNumber, Variable.toExpr, h.isFaithful, Expr.isFaithful]

theorem separated_assignment (e : Expr) : (assignment e).separated = assignment e := by
  rw [assignment, Line.separated, Statement.separatedAll, Statement.separatedAll, Statement.separated]
  rfl

/-- **A printable expression is read back from its text**: assigned to a variable in a line, it gives that
line and no fault. -/
theorem ofTokens_lex_printed {e : Expr} (h : e.Printable) :
    ofTokens (lex ("10 A = " ++ e.listing)) =
      ⟨[⟨some 10, [.command (.assign (.scalar ⟨"A"⟩) e)]⟩], []⟩ := by
  rw [← listing_assignment, ofTokens_lex_listing (legible_assignment h) (isFaithful_assignment h),
    separated_assignment]
  rfl

/-- A product of a negated power and a difference: the parentheses that are left are those that the tree
needs, and the negative constant is written by its bits. -/
def nested : Expr :=
  .binary .multiply
    (.unary .negate (.binary .power (.int (-3)) (.unary .not (.scalar ⟨"X%"⟩))))
    (.binary .subtract
      (.call ⟨"MID$"⟩ [.text "a b", .call ⟨"FNQ"⟩ [.truth true]])
      (.binary .subtract (.element ⟨"B"⟩ [.faultLine, .int 7]) .cursorRow))

theorem printable_nested : nested.Printable := by
  have hfunction : (Expr.call ⟨"FNQ"⟩ [.truth true]).Printable :=
    .function (by decide +kernel) rfl (by simp) (by simp [Expr.Printable.truth])
  have hcall : (Expr.call ⟨"MID$"⟩ [.text "a b", .call ⟨"FNQ"⟩ [.truth true]]).Printable := by
    refine .builtin .mid (by simp) ?_
    rw [List.forall_mem_cons, List.forall_mem_singleton]
    exact ⟨.text (by simp [Quotable]), hfunction⟩
  have helement : (Expr.element ⟨"B"⟩ [.faultLine, .int 7]).Printable := by
    refine .element (by decide +kernel) rfl (by decide) (by simp) ?_
    rw [List.forall_mem_cons, List.forall_mem_singleton]
    exact ⟨.faultLine, .int 7⟩
  have hscalar : (Expr.scalar ⟨"X%"⟩).Printable := .scalar (by decide +kernel) rfl
  exact .binary _ (.unary _ (.binary _ (.int _) (.unary _ hscalar)))
    (.binary _ hcall (.binary _ helement .cursorRow))

theorem ofTokens_lex_printed_nested : nested.Printable ∧
    nested.listing = "-&HFFFD ^ (NOT X%) * (MID$(\"a b\", FNQ(TRUE)) - (B(ERL, 7) - CSRLIN))" ∧
    ofTokens (lex ("10 A = " ++ nested.listing)) =
      ⟨[⟨some 10, [.command (.assign (.scalar ⟨"A"⟩) nested)]⟩], []⟩ :=
  ⟨printable_nested, by decide +kernel, ofTokens_lex_printed printable_nested⟩

end Parsed

end LineBasic
