import LineBasic.Proofs.CellTexts
import LineBasic.Proofs.Joining
import LineBasic.Proofs.Relist
import LineBasic.Proofs.WellFormed

/-! The names that statements store values under. Whatever form a program comes in, a name in it was
scanned from a text, so that the cell of the name has one type. Readers take tokens off the front and find
names nowhere else, which is shown reader by reader. -/

namespace LineBasic

open Token

/-- A legible name is scanned: its text is that of a name. -/
theorem Name.Legible.isScanned {name : Name} (h : name.Legible) : name.IsScanned := by
  have hfragment := (Name.spells_token h).eq_of_nil
  have htokens := tokens_ofText_of_opens hfragment rfl
  refine ⟨name.spelling, name.token, ?_, rfl, (Name.ofWord_spelling h).symm⟩
  rw [lex, htokens, hfragment]
  exact List.mem_cons_self

namespace Command

/-- The names that a command stores values under, or keeps values for: those of variables, of the counter of
a loop and, once a function is called, of its parameters. -/
def targets : Command → List Name
  | assign target _ => [target.name]
  | common names => names
  | read targets => targets.map Variable.name
  | forLoop counter _ _ _ => [counter]
  | define _ parameters _ => parameters
  | _ => []

/-- A command whose targets are names as they stand in texts. -/
def Scanned (c : Command) : Prop := ∀ name ∈ c.targets, name.IsScanned

theorem scanned_of_nil {c : Command} (h : c.targets = []) : c.Scanned := by
  intro name hname
  rw [h] at hname
  cases hname

end Command

namespace Statement

/-- A statement in which the targets of every command, at any depth, are names as they stand in texts. -/
def Scanned (s : Statement) : Prop := ∀ c ∈ s.commands, c.Scanned

/-- Statements in which the targets of every command, at any depth, are names as they stand in texts. -/
def AllScanned (list : List Statement) : Prop := ∀ c ∈ commandsOfAll list, c.Scanned

theorem allScanned_nil : AllScanned [] := nofun

theorem Scanned.cons {s : Statement} {list : List Statement} (h : s.Scanned) (hlist : AllScanned list) :
    AllScanned (s :: list) := by
  intro c hc
  rw [commandsOfAll] at hc
  exact (List.mem_append.mp hc).elim (h c) (hlist c)

theorem scanned_command {c : Command} (h : c.Scanned) : (command c).Scanned := by
  intro other hother
  rw [commands] at hother
  rwa [List.mem_singleton.mp hother]

theorem scanned_choice {condition : Expr} {thenList elseList : List Statement} (hthen : AllScanned thenList)
    (helse : AllScanned elseList) : (choice condition thenList elseList).Scanned := by
  intro c hc
  rw [commands] at hc
  exact (List.mem_append.mp hc).elim (hthen c) (helse c)

theorem allScanned_goto (line : Nat) : AllScanned [command (.goto line)] :=
  (scanned_command (Command.scanned_of_nil rfl)).cons allScanned_nil

end Statement

namespace Reader

/-- Tokens in which every name was scanned from a text. -/
def Named (tokens : List Token) : Prop :=
  ∀ token ∈ tokens, token.kind = .ident → (Name.ofWord token.literal).IsScanned

/-- From tokens with scanned names, a reader gives a value with a property and leaves such tokens. -/
def Scans {α : Type} (reader : Reader α) (found : α → Prop) : Prop :=
  Yields Named reader fun value rest => found value ∧ Named rest

/-- From tokens with scanned names, a reader leaves such tokens. -/
abbrev Passes {α : Type} (reader : Reader α) : Prop := Scans reader fun _ => True

section Rules

variable {α β : Type} {reader other : Reader α} {next : α → Reader β} {found : α → Prop} {last : β → Prop}

theorem Scans.bind (h : Scans reader found) (hnext : ∀ value, found value → Scans (next value) last) :
    Scans (reader >>= next) last :=
  Yields.bind h fun value _ _ _ hmid hread => hnext value hmid.1 hmid.2 hread

/-- A reader after one of which nothing is known but the tokens it leaves. -/
theorem Scans.after (h : Scans reader found) (hnext : ∀ value, Scans (next value) last) :
    Scans (reader >>= next) last :=
  h.bind fun value _ => hnext value

theorem scans_pure {value : α} (h : found value) : Scans (pure value) found :=
  yields_pure fun _ hbefore => ⟨h, hbefore⟩

theorem passes_pure (value : α) : Passes (pure value) := scans_pure trivial

theorem scans_refuse (detail : String) : Scans (refuse detail : Reader α) found := yields_refuse _

theorem passes_refuse (detail : String) : Passes (refuse detail : Reader α) := scans_refuse detail

theorem scans_exhausted : Scans (exhausted : Reader α) found := yields_exhausted

theorem passes_lift (action : Except Fault α) : Passes (liftM action : Reader α) :=
  yields_lift fun _ _ hbefore _ => ⟨trivial, hbefore⟩

theorem Scans.ite {p : Prop} [Decidable p] (h : Scans reader found) (hother : Scans other found) :
    Scans (if p then reader else other) found :=
  Yields.ite (fun _ => h) fun _ => hother

theorem Scans.map {f : α → β} (h : Scans reader found) (hf : ∀ value, found value → last (f value)) :
    Scans (f <$> reader) last :=
  Yields.map h fun value _ hafter => ⟨hf value hafter.1, hafter.2⟩

theorem Passes.map (h : Passes reader) (f : α → β) : Passes (f <$> reader) := Scans.map h fun _ _ => trivial

end Rules

section Small

variable {α : Type} {found : α → Prop} {item : Reader α}

theorem passes_peekKind : Passes peekKind := by
  intro tokens kind rest hbefore hread
  cases hread
  exact ⟨trivial, hbefore⟩

theorem passes_peekSecondKind : Passes peekSecondKind := by
  intro tokens kind rest hbefore hread
  cases hread
  exact ⟨trivial, hbefore⟩

theorem passes_atColonElse : Passes atColonElse :=
  passes_peekKind.after fun _ => (passes_peekSecondKind.after fun _ => passes_pure _).ite (passes_pure false)

theorem scans_next :
    Scans Reader.next fun token => token.kind = .ident → (Name.ofWord token.literal).IsScanned := by
  intro tokens token rest hbefore hread
  cases tokens with
  | nil =>
      cases hread
      exact ⟨nofun, List.forall_mem_nil _⟩
  | cons first others =>
      obtain ⟨hfirst, hothers⟩ := List.forall_mem_cons.mp hbefore
      cases hread
      refine ⟨hfirst, ?_⟩
      split
      · exact hbefore
      · exact hothers

theorem passes_accept (kind : Kind) : Passes (accept kind) :=
  passes_peekKind.after fun _ => (scans_next.after fun _ => passes_pure true).ite (passes_pure false)

theorem passes_expect (kind : Kind) : Passes (expect kind) :=
  scans_next.after fun _ => (passes_pure ()).ite (scans_refuse _)

theorem passes_atEnd : Passes atEnd := passes_peekKind.after fun _ => passes_pure _

theorem scans_listOf (h : Scans item found) : Scans (listOf item) fun list => ∀ value ∈ list, found value := by
  have hcomma : Yields Named (accept .comma) fun _ rest => Named rest :=
    Yields.mono (passes_accept .comma) fun _ _ hafter => hafter.2
  exact yields_sized fun _ => (yields_commaList h hcomma _).mono fun _ _ hafter => ⟨hafter.1.2, hafter.2⟩

theorem passes_listOf (h : Scans item found) : Passes (listOf item) :=
  Yields.mono (scans_listOf h) fun _ _ hafter => ⟨trivial, hafter.2⟩

theorem scans_name : Scans name Name.IsScanned := by
  refine scans_next.bind fun token htoken => Yields.ite (fun hkind => ?_) fun _ => scans_refuse _
  exact scans_pure (htoken hkind)

theorem passes_lineRef : Passes lineRef := scans_next.after fun _ => (passes_lift _).ite (scans_refuse _)

theorem passes_lineRef? : Passes lineRef? :=
  passes_peekKind.after fun _ => (passes_lineRef.after fun _ => passes_pure _).ite (passes_pure none)

end Small

section Expressions

/-- The readers of expressions with a budget leave tokens with scanned names. -/
structure ExprsPass (budget : Nat) : Prop where
  exprAbove : ∀ level, Passes (exprAbove budget level)
  operators : ∀ level left, Passes (operators budget level left)
  operand : Passes (operand budget)
  named : ∀ word, Passes (named budget word)
  arguments : Passes (arguments budget)

variable {budget : Nat}

theorem passes_operators (h : ExprsPass budget) (level : Level) (left : Expr) :
    Passes (operators (budget + 1) level left) := by
  rw [operators]
  refine passes_peekKind.after fun kind => ?_
  split
  · refine (passes_pure left).ite (scans_next.after fun _ => ?_)
    exact (h.exprAbove _).after fun right => h.operators level _
  · exact passes_pure left

theorem passes_operand (h : ExprsPass budget) : Passes (operand (budget + 1)) := by
  have hunary : ∀ op, Passes (exprAbove budget .ofUnary >>= fun inner => pure (Expr.unary op inner)) :=
    fun op => (h.exprAbove _).after fun inner => passes_pure _
  rw [operand]
  refine scans_next.after fun token => ?_
  split
  case h_1 => exact hunary .negate
  case h_2 => exact hunary .positive
  case h_3 => exact hunary .not
  case h_4 => exact (h.exprAbove _).after fun inner => (passes_expect _).after fun _ => passes_pure inner
  case h_12 => exact h.named _
  case h_22 => exact (scans_refuse _).ite (scans_refuse _)
  all_goals first | exact passes_pure _ | exact passes_lift _

theorem passes_named (h : ExprsPass budget) (word : String) : Passes (named (budget + 1) word) := by
  have hrest : ∀ name : Name, Passes (accept .leftParen >>= fun paren =>
      if paren then arguments budget >>= fun list =>
        if name.isFunction || (Builtin.ofName? name.spelling).isSome then pure (Expr.call name list)
        else pure (Expr.element name list)
      else if name.isFunction then pure (Expr.call name [])
      else pure (Expr.scalar name)) := by
    intro name
    refine (passes_accept _).after fun paren => Scans.ite (h.arguments.after fun list => ?_) ?_
    · exact (passes_pure _).ite (passes_pure _)
    · exact (passes_pure _).ite (passes_pure _)
  rw [named]
  refine passes_peekKind.after fun kind => ?_
  split
  · exact scans_next.after fun token => hrest _
  · exact hrest _

theorem passes_arguments (h : ExprsPass budget) : Passes (arguments (budget + 1)) := by
  rw [arguments]
  refine (h.exprAbove _).after fun first => scans_next.after fun token => ?_
  split
  · exact passes_pure _
  · exact h.arguments.after fun others => passes_pure _
  · exact scans_refuse _

theorem exprsPass (budget : Nat) : ExprsPass budget := by
  induction budget with
  | zero =>
      refine ⟨fun level => ?_, fun level left => ?_, ?_, fun word => ?_, ?_⟩
      · rw [exprAbove]
        exact scans_exhausted
      · rw [operators]
        exact scans_exhausted
      · rw [operand]
        exact scans_exhausted
      · rw [named]
        exact scans_exhausted
      · rw [arguments]
        exact scans_exhausted
  | succ budget ih =>
      refine ⟨fun level => ?_, passes_operators ih, passes_operand ih, passes_named ih, passes_arguments ih⟩
      rw [exprAbove]
      exact ih.operand.after fun left => ih.operators level left

theorem passes_expr : Passes expr := yields_sized fun _ => (exprsPass _).exprAbove .lowest

theorem passes_exprList : Passes exprList := yields_sized fun _ => (exprsPass _).arguments

/-- The name of a variable that is stored to is scanned. -/
theorem scans_target : Scans target fun target => target.name.IsScanned := by
  refine scans_name.bind fun name hname => (passes_accept _).after fun paren => ?_
  exact Scans.ite (passes_exprList.after fun list => scans_pure hname) (scans_pure hname)

theorem passes_positionsFrom (budget : Nat) : Passes (positionsFrom budget) := by
  induction budget with
  | zero => exact scans_exhausted
  | succ budget ih =>
      have hrest : ∀ first : Option Expr, Passes (accept .comma >>= fun found =>
          if found then atEnd >>= fun ended =>
            if ended then refuse "TRAILING COMMA" else positionsFrom budget >>= fun others => pure (first :: others)
          else pure [first]) := by
        intro first
        refine (passes_accept _).after fun found => Scans.ite (passes_atEnd.after fun ended => ?_) (passes_pure _)
        exact (scans_refuse _).ite (ih.after fun others => passes_pure _)
      refine passes_peekKind.after fun kind => ?_
      split
      · exact hrest none
      · exact (passes_expr.map _).after hrest

theorem passes_positions : Passes positions :=
  passes_atEnd.after fun _ => (passes_pure []).ite (yields_sized fun _ => passes_positionsFrom _)

end Expressions

section Commands

variable {α : Type} {reader : Reader α}

/-- A command that stores nothing. -/
theorem scans_command {c : Command} (h : c.targets = []) : Scans (pure c) Command.Scanned :=
  scans_pure (Command.scanned_of_nil h)

/-- A value that a reader gives, put into a command that stores nothing. -/
theorem Scans.builds {found : α → Prop} (h : Scans reader found) {build : α → Command}
    (hbuild : ∀ value, (build value).targets = []) :
    Scans (reader >>= fun value => pure (build value)) Command.Scanned :=
  h.after fun value => scans_command (hbuild value)

/-- A value that may be left out at the end of a command that stores nothing. -/
theorem Scans.optional {found : α → Prop} (h : Scans reader found) {alone : Command} {build : α → Command}
    (halone : alone.targets = []) (hbuild : ∀ value, (build value).targets = []) :
    Scans (atEnd >>= fun ended => if ended then pure alone else reader >>= fun value => pure (build value))
      Command.Scanned :=
  passes_atEnd.after fun _ => (scans_command halone).ite (h.builds hbuild)

theorem scans_assignment : Scans assignment Command.Scanned := by
  refine scans_target.bind fun target htarget => (passes_expect _).after fun _ => passes_expr.after fun value => ?_
  exact scans_pure (List.forall_mem_singleton.mpr htarget)

theorem scans_auto : Scans auto Command.Scanned :=
  passes_lineRef?.after fun _ => (passes_accept _).after fun _ =>
    (passes_lineRef.builds fun _ => rfl).ite (scans_command rfl)

theorem scans_chain : Scans chain Command.Scanned := by
  refine passes_expr.after fun path => (passes_accept _).after fun comma => Scans.ite ?_ (scans_command rfl)
  refine passes_lineRef?.after fun line => (passes_accept _).after fun second => Scans.ite ?_ (scans_command rfl)
  exact (passes_expect _).after fun _ => scans_command rfl

theorem passes_datum : Passes datum := by
  refine passes_peekKind.after fun kind => ?_
  split
  · exact scans_next.after fun _ => passes_pure _
  · exact scans_next.after fun _ => passes_pure _
  · exact scans_refuse _
  · exact passes_pure _

theorem passes_functionName : Passes functionName := by
  have hrest : ∀ whole : Name, Passes (if whole.isFunction then pure whole else refuse "EXPECTED FN") :=
    fun whole => (passes_pure whole).ite (scans_refuse _)
  refine scans_name.after fun first => ?_
  split
  · exact scans_name.after fun second => hrest _
  · exact hrest first

/-- The parameters of a function that is defined are scanned. -/
theorem scans_definition : Scans definition Command.Scanned := by
  have hrest : ∀ function (parameters : List Name), (∀ name ∈ parameters, name.IsScanned) →
      Scans (expect .eq >>= fun _ => expr >>= fun body => pure (Command.define function parameters body))
        Command.Scanned :=
    fun function parameters hparameters =>
      (passes_expect _).after fun _ => passes_expr.after fun body => scans_pure hparameters
  refine passes_functionName.after fun function => (passes_accept _).after fun paren => ?_
  split
  · exact (scans_listOf scans_name).bind fun list hlist => (passes_expect _).after fun _ => hrest function list hlist
  · exact hrest function [] nofun

theorem scans_forLoop : Scans forLoop Command.Scanned := by
  refine scans_name.bind fun counter hcounter => (passes_expect _).after fun _ => passes_expr.after fun start => ?_
  refine (passes_expect _).after fun _ => passes_expr.after fun limit => (passes_accept _).after fun step => ?_
  have htargets : ∀ change, (Command.forLoop counter start limit change).Scanned :=
    fun _ => List.forall_mem_singleton.mpr hcounter
  exact (passes_expr.after fun change => scans_pure (htargets _)).ite (scans_pure (htargets none))

theorem scans_list : Scans list Command.Scanned :=
  passes_lineRef?.after fun _ => (passes_accept _).after fun _ =>
    (passes_lineRef?.builds fun _ => rfl).ite (scans_command rfl)

theorem scans_load : Scans load Command.Scanned := by
  refine passes_expr.after fun path => (passes_accept _).after fun comma => Scans.ite ?_ (scans_command rfl)
  exact scans_name.after fun letter => (scans_command rfl).ite (scans_refuse _)

theorem scans_trapOrJump : Scans trapOrJump Command.Scanned := by
  refine (passes_accept _).after fun trap => Scans.ite ?_ ?_
  · exact (passes_expect _).after fun _ => passes_lineRef.builds fun _ => rfl
  · refine passes_expr.after fun selector => scans_next.after fun token => ?_
    split
    · exact (passes_listOf passes_lineRef).builds fun _ => rfl
    · exact (passes_listOf passes_lineRef).builds fun _ => rfl
    · exact scans_refuse _

theorem passes_printItems (budget : Nat) : Passes (printItems budget) := by
  induction budget with
  | zero => exact scans_exhausted
  | succ budget ih =>
      have hrest : ∀ item, Passes (printItems budget >>= fun items => pure (item :: items)) :=
        fun item => ih.after fun items => passes_pure _
      have hsign : ∀ item : PrintItem, Passes ((fun _ => item) <$> Reader.next) :=
        fun item => scans_next.map fun _ _ => trivial
      refine passes_atEnd.after fun ended => (passes_pure []).ite (passes_peekKind.after fun kind => ?_)
      split
      · exact (hsign .comma).after hrest
      · exact (hsign .semicolon).after hrest
      · exact Scans.after (passes_refuse _) hrest
      · exact (passes_expr.map _).after hrest

theorem scans_resume : Scans resume Command.Scanned := by
  refine (passes_accept _).after fun next => Scans.ite (scans_command rfl) (passes_lineRef?.after fun line => ?_)
  split <;> exact scans_command rfl

theorem scans_runOrLoad : Scans runOrLoad Command.Scanned := by
  refine passes_atEnd.after fun ended => (scans_command rfl).ite (passes_peekKind.after fun kind => Scans.ite ?_ ?_)
  · exact passes_lineRef.builds fun _ => rfl
  · refine passes_expr.after fun path => (passes_accept _).after fun comma => Scans.ite ?_ (scans_command rfl)
    exact scans_name.after fun _ => scans_command rfl

theorem scans_remark :
    Scans (peekKind >>= fun kind =>
      if kind = .raw then Reader.next >>= fun token => pure (Command.remark token.literal)
      else pure (Command.remark "")) Command.Scanned :=
  passes_peekKind.after fun _ => (scans_next.builds fun _ => rfl).ite (scans_command rfl)

/-- **The targets of every command that is read are scanned names.** -/
theorem scans_commandOf (token : Token) : Scans (command token) Command.Scanned := by
  unfold command
  split
  · exact scans_assignment
  · exact scans_auto
  · exact scans_command rfl
  · exact scans_chain
  · exact passes_positions.builds fun _ => rfl
  · exact scans_command rfl
  · exact passes_positions.builds fun _ => rfl
  · exact (scans_listOf scans_name).map fun _ hnames => hnames
  · exact scans_command rfl
  · exact (passes_listOf passes_datum).builds fun _ => rfl
  · exact scans_definition
  · exact (passes_listOf scans_target).builds fun _ => rfl
  · exact scans_command rfl
  · exact passes_expr.builds fun _ => rfl
  · exact passes_expr.optional rfl fun _ => rfl
  · exact scans_forLoop
  · exact passes_lineRef.builds fun _ => rfl
  · exact passes_lineRef.builds fun _ => rfl
  · exact passes_expr.after fun number => (passes_expect _).after fun _ => passes_expr.builds fun _ => rfl
  · exact scans_list
  · exact scans_load
  · exact passes_positions.builds fun _ => rfl
  · exact passes_expr.builds fun _ => rfl
  · exact scans_command rfl
  · exact (passes_listOf scans_name).optional rfl fun _ => rfl
  · exact scans_trapOrJump
  · exact passes_positions.builds fun _ => rfl
  · exact yields_sized fun _ => (passes_printItems _).builds fun _ => rfl
  · refine (scans_listOf scans_target).bind fun list hlist => scans_pure fun name hname => ?_
    obtain ⟨target, htarget, rfl⟩ := List.mem_map.mp hname
    exact hlist target htarget
  · exact scans_remark
  · exact passes_lineRef?.builds fun _ => rfl
  · exact scans_resume
  · exact passes_lineRef?.builds fun _ => rfl
  · exact scans_runOrLoad
  · exact passes_positions.builds fun _ => rfl
  · exact scans_command rfl
  · exact scans_command rfl
  · exact scans_command rfl
  · exact scans_command rfl
  · exact passes_expr.builds fun _ => rfl
  · exact (scans_refuse _).ite (scans_refuse _)

end Commands

section Statements

open Statement

/-- The readers of statements with a budget give scanned targets. -/
structure StatementsScanned (budget : Nat) : Prop where
  statement : Scans (statementWithin budget) Scanned
  choice : Scans (choice budget) Scanned
  branch : Scans (branch budget) AllScanned
  statements : Scans (branchStatements budget) AllScanned

variable {budget : Nat}

theorem scans_statementWithin (h : StatementsScanned budget) : Scans (statementWithin (budget + 1)) Scanned := by
  rw [statementWithin]
  refine passes_peekKind.after fun kind => Scans.ite ?_ (scans_next.after fun token => h.choice.ite ?_)
  · exact scans_assignment.bind fun _ hc => scans_pure (scanned_command hc)
  · exact (scans_commandOf token).bind fun _ hc => scans_pure (scanned_command hc)

theorem scans_choice (h : StatementsScanned budget) : Scans (choice (budget + 1)) Scanned := by
  have helse : ∀ condition thenList, AllScanned thenList → Scans (accept (.keyword .ELSE) >>= fun found =>
      if found then branch budget >>= fun elseList => pure (Statement.choice condition thenList elseList)
      else pure (Statement.choice condition thenList [])) Scanned :=
    fun condition thenList hthen => (passes_accept _).after fun found =>
      (h.branch.bind fun _ helse => scans_pure (scanned_choice hthen helse)).ite
        (scans_pure (scanned_choice hthen allScanned_nil))
  have hrest : ∀ condition thenList, AllScanned thenList → Scans (atColonElse >>= fun colon =>
      if colon then Reader.next >>= fun _ =>
        accept (.keyword .ELSE) >>= fun found =>
          if found then branch budget >>= fun elseList => pure (Statement.choice condition thenList elseList)
          else pure (Statement.choice condition thenList [])
      else accept (.keyword .ELSE) >>= fun found =>
          if found then branch budget >>= fun elseList => pure (Statement.choice condition thenList elseList)
          else pure (Statement.choice condition thenList [])) Scanned := by
    intro condition thenList hthen
    refine passes_atColonElse.after fun colon => ?_
    exact Scans.ite (scans_next.after fun _ => helse condition thenList hthen) (helse condition thenList hthen)
  rw [choice]
  refine passes_expr.after fun condition => scans_next.after fun token => ?_
  split
  · exact h.branch.bind (hrest condition)
  · have hgoto : Scans ((fun line => [Statement.command (.goto line)]) <$> lineRef) AllScanned :=
      Scans.map passes_lineRef fun line _ => allScanned_goto line
    exact hgoto.bind (hrest condition)
  · exact Scans.bind (scans_refuse _) (hrest condition)

theorem scans_branch (h : StatementsScanned budget) : Scans (branch (budget + 1)) AllScanned := by
  rw [branch]
  refine passes_peekKind.after fun kind => Scans.ite ?_ (h.statements.bind fun list hlist => ?_)
  · exact passes_lineRef.after fun line => scans_pure (allScanned_goto line)
  · cases list with
    | nil => exact scans_refuse _
    | cons s others => exact scans_pure hlist

theorem scans_branchStatements (h : StatementsScanned budget) :
    Scans (branchStatements (budget + 1)) AllScanned := by
  rw [branchStatements]
  refine passes_peekKind.after fun kind => ?_
  split
  · exact scans_pure allScanned_nil
  · exact scans_pure allScanned_nil
  · exact scans_pure allScanned_nil
  · refine passes_peekSecondKind.after fun second => (scans_pure allScanned_nil).ite ?_
    exact scans_next.after fun _ => h.statements
  · refine h.statement.bind fun first hfirst => passes_atEnd.after fun ended => Scans.ite ?_ (scans_refuse _)
    exact h.statements.bind fun others hothers => scans_pure (hfirst.cons hothers)

theorem statementsScanned (budget : Nat) : StatementsScanned budget := by
  induction budget with
  | zero =>
      refine ⟨?_, ?_, ?_, ?_⟩
      · rw [statementWithin]
        exact scans_exhausted
      · rw [choice]
        exact scans_exhausted
      · rw [branch]
        exact scans_exhausted
      · rw [branchStatements]
        exact scans_exhausted
  | succ budget ih =>
      exact ⟨scans_statementWithin ih, scans_choice ih, scans_branch ih, scans_branchStatements ih⟩

/-- **The targets of all statements of a line are scanned names.** -/
theorem scans_statements (budget : Nat) : Scans (statements budget) AllScanned := by
  induction budget with
  | zero => exact scans_exhausted
  | succ budget ih =>
      refine passes_peekKind.after fun kind => ?_
      split
      · exact scans_pure allScanned_nil
      · exact scans_pure allScanned_nil
      · exact scans_next.after fun _ => ih
      · have hstatement : Scans statement Scanned :=
          yields_sized fun _ => (statementsScanned _).statement
        refine hstatement.bind fun first hfirst => passes_peekKind.after fun kind => Scans.ite ?_ (scans_refuse _)
        exact ih.bind fun others hothers => scans_pure (hfirst.cons hothers)

end Statements

end Reader

namespace Token

open Reader

theorem named_of_mem {tokens others : List Token} (h : Named tokens) (hsub : ∀ token ∈ others, token ∈ tokens) :
    Named others :=
  fun token htoken => h token (hsub token htoken)

/-- Names that a scanner finds are scanned, also where it starts in the middle of a line. -/
theorem named_tokens_scanner (scanner : Scanner) : Named scanner.tokens :=
  fun _ hmem hkind => Name.Legible.isScanned (legible_ofWord (Scanner.isName_of_mem_tokens hmem hkind))

theorem named_lexFragment (text : List Char) (inData : Bool) : Named (lexFragment text inData) :=
  named_tokens_scanner _

theorem named_lex (text : String) : Named (lex text) :=
  fun token hmem hkind => ⟨text, token, hmem, hkind, rfl⟩

theorem named_joinRelational {tokens : List Token} (h : Named tokens) : Named (joinRelational tokens) := by
  rw [joinRelational_eq_joinPairs]
  induction tokens using joinPairs.induct with
  | case1 left right rest joined hjoin ih =>
      rw [joinPairs_of_some hjoin]
      refine List.forall_mem_cons.mpr ⟨fun hkind => ?_, ih (named_of_mem h fun token htoken => by simp [htoken])⟩
      obtain ⟨kind, hjoined, rfl⟩ := Option.map_eq_some_iff.mp hjoin
      obtain rfl : kind = .ident := hkind
      unfold Kind.joined? at hjoined
      split at hjoined <;> cases hjoined
  | case2 left right rest hjoin ih =>
      rw [joinPairs_of_none hjoin]
      obtain ⟨hleft, hrest⟩ := List.forall_mem_cons.mp h
      exact List.forall_mem_cons.mpr ⟨hleft, ih hrest⟩
  | case3 tokens hshort =>
      rw [joinPairs_of_short hshort]
      exact h

end Token

namespace Image

open Reader

/-- An element that is no name by itself: names stand in the text that is handed to the scanner. -/
def Element.Nameless : Element → Prop
  | .token value => value.kind ≠ .ident
  | _ => True

theorem nameless_decimalToken (literal : String) : (decimalToken literal).Nameless := by
  intro hkind
  change numberKind literal.toList = .ident at hkind
  rcases numberKind_cases literal.toList with hnumber | hnumber
  · rw [hnumber] at hkind
    cases hkind
  · rw [hkind] at hnumber
    cases hnumber

section Elements

variable {α : Type} {bytes rest : List UInt8} {element : Element}

theorem nameless_of_map {read : Option (α × List UInt8)} (build : α → Element)
    (hbuild : ∀ value, (build value).Nameless)
    (h : (read.map fun (value, rest) => (build value, rest)) = some (element, rest)) : element.Nameless := by
  obtain ⟨⟨value, after⟩, -, heq⟩ := Option.map_eq_some_iff.mp h
  exact (Prod.mk.inj heq).1 ▸ hbuild value

theorem nameless_of_remark? {mark : String} (h : remark? mark bytes = some (element, rest)) : element.Nameless :=
  nameless_of_map (fun body : List UInt8 => .remark mark (body.map latin)) (fun _ => trivial) h

theorem nameless_of_coded? {table : List (UInt8 × String)} {code : UInt8}
    (h : coded? table code bytes = some (element, rest)) : element.Nameless := by
  unfold coded? at h
  split at h
  · cases h
    trivial
  · split at h
    · rename_i kind _ hkind
      cases h
      rintro rfl
      unfold operatorKind? at hkind
      split at hkind <;> cases hkind
    · exact nameless_of_remark? h
    · exact nameless_of_map (fun body : List UInt8 => .data (body.map latin)) (fun _ => trivial) h
    · cases h
      intro hkind
      cases hkind
    · cases h
      intro hkind
      cases hkind
    · split at h
      · exact nameless_of_remark? h
      · cases h
        trivial

/-- **No element of a payload is a name.** -/
theorem nameless_of_element? (h : element? bytes = some (element, rest)) : element.Nameless := by
  cases bytes with
  | nil => cases h
  | cons byte bytes =>
      rw [element?] at h
      unfold elementFrom? at h
      split at h
      case h_2 =>
        exact nameless_of_map (fun body : List UInt8 => .verbatim ('"' :: body.map latin ++ ['"']))
          (fun _ => trivial) h
      case h_4 => exact nameless_of_remark? h
      case h_13 | h_14 | h_15 => exact nameless_of_coded? h
      case h_27 =>
        split at h
        · cases h
          exact nameless_decimalToken _
        · split at h
          · exact nameless_of_coded? h
          · cases h
            trivial
      all_goals
        cases h <;> first | trivial | exact nameless_decimalToken _ | (intro hkind; cases hkind)

theorem nameless_of_payload? {elements : List Element} (h : payload? bytes = some (elements, rest)) :
    ∀ element ∈ elements, element.Nameless := by
  fun_induction payload? bytes generalizing elements rest with
  | case1 => cases h
  | case2 bytes after helement =>
      cases h
      exact List.forall_mem_nil _
  | case3 bytes first after hfinish helement ih =>
      obtain ⟨⟨others, last⟩, hothers, heq⟩ := Option.map_eq_some_iff.mp h
      obtain ⟨rfl, -⟩ := Prod.mk.inj heq
      exact List.forall_mem_cons.mpr ⟨nameless_of_element? helement, ih hothers⟩

theorem named_tokensOf {elements : List Element} (h : ∀ element ∈ elements, element.Nameless) (text : List Char) :
    Named (tokensOf text elements) := by
  fun_induction tokensOf text elements with
  | case1 text => exact named_lexFragment text false
  | case2 text rest ih | case3 text more rest ih | case4 text more rest ih =>
      exact ih (List.forall_mem_cons.mp h).2
  | case5 text value rest ih =>
      obtain ⟨hvalue, hrest⟩ := List.forall_mem_cons.mp h
      exact List.forall_mem_append.mpr ⟨named_lexFragment text false,
        List.forall_mem_cons.mpr ⟨fun hkind => absurd hkind hvalue, ih hrest⟩⟩
  | case6 text mark body rest ih =>
      exact List.forall_mem_append.mpr ⟨named_lexFragment text false,
        List.forall_mem_cons.mpr ⟨nofun, List.forall_mem_cons.mpr ⟨nofun, ih (List.forall_mem_cons.mp h).2⟩⟩⟩
  | case7 text body rest ih =>
      exact List.forall_mem_append.mpr ⟨named_lexFragment text false,
        List.forall_mem_cons.mpr ⟨nofun, List.forall_mem_append.mpr
          ⟨named_lexFragment body true, ih (List.forall_mem_cons.mp h).2⟩⟩⟩

end Elements

theorem nameless_of_record? {bytes rest : List UInt8} {record : Record} (h : record? bytes = some (record, rest)) :
    ∀ element ∈ record.elements, element.Nameless := by
  unfold record? at h
  split at h
  · split at h
    · cases h
    · obtain ⟨⟨elements, after⟩, helements, heq⟩ := Option.map_eq_some_iff.mp h
      obtain ⟨rfl, -⟩ := Prod.mk.inj heq
      exact nameless_of_payload? helements
  · cases h

theorem named_tokens_record {record : Record} (h : ∀ element ∈ record.elements, element.Nameless) :
    Named record.tokens := by
  refine List.forall_mem_cons.mpr ⟨nofun, List.forall_mem_append.mpr ⟨?_, ?_⟩⟩
  · exact named_joinRelational (named_tokensOf h [])
  · exact List.forall_mem_singleton.mpr nofun

theorem named_recordTokens (bytes : List UInt8) : Named (recordTokens bytes) := by
  refine List.forall_mem_append.mpr ⟨?_, List.forall_mem_singleton.mpr nofun⟩
  fun_induction records bytes with
  | case1 bytes hnone => exact List.forall_mem_nil _
  | case2 bytes record rest hrecord ih =>
      rw [List.flatMap_cons]
      exact List.forall_mem_append.mpr ⟨named_tokens_record (nameless_of_record? hrecord), ih⟩

/-- **In a file of any form every name is scanned from a text.** -/
theorem named_tokens (bytes : List UInt8) : Named (tokens bytes) := by
  unfold tokens
  split
  · exact named_lex _
  · exact named_recordTokens _
  · exact named_recordTokens _

end Image

/-- A line in which the targets of every command are names as they stand in texts. -/
def Line.Scanned (line : Line) : Prop := Statement.AllScanned line.statements

theorem Line.scanned_of_ofTokens? {tokens : List Token} (h : Reader.Named tokens) {line : Line}
    (hread : ofTokens? tokens = .ok (some line)) : line.Scanned := by
  cases hsplit : splitNumber tokens with
  | error fault =>
      rw [ofTokens?_of_splitNumber_error hsplit] at hread
      cases hread
  | ok found =>
      obtain ⟨number, body⟩ := found
      have hbody : Reader.Named body := by
        cases tokens with
        | nil =>
            cases hsplit
            exact List.forall_mem_nil _
        | cons token rest =>
            rw [splitNumber] at hsplit
            split at hsplit
            · cases hnumber : Literal.lineNumber token.literal with
              | error fault =>
                  rw [hnumber] at hsplit
                  cases hsplit
              | ok line =>
                  rw [hnumber] at hsplit
                  cases hsplit
                  exact (List.forall_mem_cons.mp h).2
            · cases hsplit
              exact h
      rw [ofTokens?_of_splitNumber hsplit] at hread
      split at hread
      · rename_i statements rest hstatements
        split at hread
        · cases hread
        · cases hread
          exact (Reader.scans_statements _ hbody hstatements).1
      · cases hread

theorem mem_of_mem_splitLines {tokens line : List Token} (h : line ∈ splitLines tokens) :
    ∀ token ∈ line, token ∈ tokens := by
  induction tokens generalizing line with
  | nil =>
      rw [List.mem_singleton.mp h]
      exact List.forall_mem_nil _
  | cons first rest ih =>
      rw [splitLines] at h
      split at h
      · rcases List.mem_cons.mp h with rfl | h
        · exact List.forall_mem_nil _
        · exact fun token htoken => List.mem_cons_of_mem first (ih h token htoken)
      · split at h
        · rename_i head others hsplit
          rw [hsplit] at ih
          rcases List.mem_cons.mp h with rfl | h
          · intro token htoken
            rcases List.mem_cons.mp htoken with rfl | htoken
            · exact List.mem_cons_self
            · exact List.mem_cons_of_mem first (ih List.mem_cons_self token htoken)
          · exact fun token htoken => List.mem_cons_of_mem first (ih (List.mem_cons_of_mem head h) token htoken)
        · rw [List.mem_singleton.mp h]
          exact List.forall_mem_singleton.mpr List.mem_cons_self

/-- **The targets in every line that is read are scanned names.** -/
theorem Parsed.scanned_of_mem {tokens : List Token} (h : Reader.Named tokens) {line : Line}
    (hline : line ∈ (ofTokens tokens).lines) : line.Scanned := by
  rw [ofTokens_eq] at hline
  obtain ⟨found, hfound, hread⟩ := exists_of_mem_ofLines hline
  refine Line.scanned_of_ofTokens? (Token.named_of_mem h fun token htoken => ?_) hread
  exact (List.takeWhile_prefix _).subset (mem_of_mem_splitLines hfound token htoken)

end LineBasic
