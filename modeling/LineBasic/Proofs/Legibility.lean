import LineBasic.Proofs.ReadStatement
import LineBasic.Proofs.Yields

/-! Statements that are read from the lines of a text are legible. What is read of a line before a
statement leaves the rest of the line as scanning gave it; only DATA leaves tokens that are read in
their own way, and they are left at the end of the statement. -/

namespace LineBasic

open Token

namespace Reader

/-- A command read from a line that may be followed by others. -/
def IsPlain (c : Command) : Prop := c.Legible ∧ (Statement.command c).isFollowable = true

theorem gives_assignment : Gives assignment IsPlain := by
  refine gives_target.bind fun target htarget => (gives_expect rfl).bind fun _ _ => ?_
  exact gives_expr.bind fun value hvalue => gives_pure ⟨⟨htarget, hvalue⟩, rfl⟩

theorem gives_auto : Gives auto IsPlain := by
  refine gives_lineRef?.bind fun start hstart => (gives_accept rfl).bind fun comma _ => ?_
  refine gives_ite (fun _ => gives_lineRef.bind fun step hstep => ?_) fun _ => ?_
  · exact gives_pure ⟨⟨hstart, by simpa using hstep⟩, rfl⟩
  · exact gives_pure ⟨⟨hstart, by simp⟩, rfl⟩

theorem gives_chain : Gives chain IsPlain := by
  refine gives_expr.bind fun path hpath => (gives_accept rfl).bind fun comma _ => ?_
  refine gives_ite (fun _ => gives_lineRef?.bind fun line hline => ?_) fun _ => ?_
  · refine (gives_accept rfl).bind fun all _ => gives_ite (fun _ => ?_) fun _ => ?_
    · exact (gives_expect rfl).bind fun _ _ => gives_pure ⟨⟨hpath, hline⟩, rfl⟩
    · exact gives_pure ⟨⟨hpath, hline⟩, rfl⟩
  · exact gives_pure ⟨⟨hpath, by simp⟩, rfl⟩

theorem gives_functionName :
    Gives functionName fun name => name.Legible ∧ name.isFunction = true ∧ name ≠ ⟨"FN"⟩ := by
  have hlast : ∀ whole : Name, whole.Legible → whole ≠ ⟨"FN"⟩ →
      Gives (if whole.isFunction then pure whole else refuse "EXPECTED FN")
        fun name => name.Legible ∧ name.isFunction = true ∧ name ≠ ⟨"FN"⟩ := by
    intro whole hwhole hne
    exact gives_ite (fun hfunction => gives_pure ⟨hwhole, hfunction, hne⟩) fun _ => gives_refuse _
  refine gives_name.bind fun first hfirst => gives_ite (fun _ => ?_) fun hne => hlast first hfirst hne
  refine gives_name.bind fun more hmore => hlast _ ?_ ?_
  · refine legible_function ?_
    rw [IsName.capitals hmore]
    exact hmore
  · -- The letters FN are followed by a name, which has at least one letter.
    intro hfn
    have htext := congrArg (fun name => name.spelling.toList) hfn
    obtain ⟨c, rest, hspelling, -⟩ := hmore.head
    rw [Name.ofWord, Text.upper, String.toList_map, String.toList_append, hspelling] at htext
    simp at htext

theorem gives_definition : Gives definition IsPlain := by
  refine gives_functionName.bind fun function hfunction => (gives_accept rfl).bind fun paren _ => ?_
  have hrest : ∀ parameters : List Name, (∀ name ∈ parameters, name.Legible) →
      Gives (expect .eq >>= fun _ => expr >>= fun body => pure (.define function parameters body)) IsPlain := by
    intro parameters hparameters
    refine (gives_expect rfl).bind fun _ _ => gives_expr.bind fun body hbody => ?_
    exact gives_pure ⟨⟨hfunction, hparameters, hbody⟩, rfl⟩
  refine gives_ite (fun _ => (gives_listOf gives_name).bind fun list hlist => ?_) fun _ => ?_
  · exact (gives_expect rfl).bind fun _ _ => hrest list hlist.2
  · exact hrest [] (by simp)

theorem gives_forLoop : Gives forLoop IsPlain := by
  refine gives_name.bind fun counter hcounter => (gives_expect rfl).bind fun _ _ => ?_
  refine gives_expr.bind fun start hstart => (gives_expect rfl).bind fun _ _ => ?_
  refine gives_expr.bind fun limit hlimit => (gives_accept rfl).bind fun hasStep _ => ?_
  refine gives_ite (fun _ => gives_expr.bind fun step hstep => ?_) fun _ => ?_
  · exact gives_pure ⟨⟨hcounter, hstart, hlimit, by simpa using hstep⟩, rfl⟩
  · exact gives_pure ⟨⟨hcounter, hstart, hlimit, by simp⟩, rfl⟩

theorem gives_list : Gives list IsPlain := by
  refine gives_lineRef?.bind fun first hfirst => (gives_accept rfl).bind fun minus _ => ?_
  refine gives_ite (fun _ => gives_lineRef?.bind fun last hlast => ?_) fun _ => ?_
  · exact gives_pure ⟨⟨hfirst, hlast⟩, rfl⟩
  · exact gives_pure ⟨⟨hfirst, hfirst⟩, rfl⟩

theorem gives_load : Gives load IsPlain := by
  refine gives_expr.bind fun path hpath => (gives_accept rfl).bind fun comma _ => ?_
  refine gives_ite (fun _ => gives_name.bind fun name _ => ?_) fun _ => ?_
  · exact gives_ite (fun _ => gives_pure ⟨hpath, rfl⟩) fun _ => gives_refuse _
  · exact gives_pure ⟨hpath, rfl⟩

theorem gives_trapOrJump : Gives trapOrJump IsPlain := by
  refine (gives_accept rfl).bind fun trap _ => gives_ite (fun _ => ?_) fun _ => ?_
  · refine (gives_expect rfl).bind fun _ _ => gives_lineRef.bind fun line hline => ?_
    exact gives_pure ⟨hline, rfl⟩
  · refine gives_expr.bind fun selector hselector => Yields.next fun token _ => ?_
    obtain ⟨kind, literal⟩ := token
    dsimp only
    split
    · refine (gives_listOf gives_lineRef).bind fun lines hlines => ?_
      exact gives_pure ⟨⟨hselector, hlines⟩, rfl⟩
    · refine (gives_listOf gives_lineRef).bind fun lines hlines => ?_
      exact gives_pure ⟨⟨hselector, hlines⟩, rfl⟩
    · exact yields_refuse _

theorem gives_printItems (budget : Nat) :
    Gives (printItems budget) fun items => ∀ value, .expr value ∈ items → value.Legible := by
  induction budget with
  | zero => exact gives_exhausted
  | succ fuel ih =>
      have hrest : ∀ item : PrintItem, (∀ value, item = .expr value → value.Legible) →
          Gives (printItems fuel >>= fun others => pure (item :: others))
            fun items => ∀ value, .expr value ∈ items → value.Legible := by
        intro item hitem
        refine ih.bind fun items hitems => gives_pure ?_
        intro value hvalue
        rcases List.mem_cons.mp hvalue with heq | hvalue
        · exact hitem value heq.symm
        · exact hitems value hvalue
      have hsymbol : ∀ (kind : Kind) (item : PrintItem), kind.modeAfter = .statement →
          (∀ value, item ≠ .expr value) →
          Yields (fun tokens => Lexed .statement tokens ∧ kindAt tokens = kind)
            ((fun _ => item) <$> next >>= fun item => printItems fuel >>= fun others => pure (item :: others))
            fun items rest => (∀ value, .expr value ∈ items → value.Legible) ∧ Lexed .statement rest := by
        intro kind item hkind hitem
        have htaken : Yields (fun tokens => Lexed .statement tokens ∧ kindAt tokens = kind)
            ((fun _ => item) <$> next) fun found rest => found = item ∧ Lexed .statement rest :=
          Yields.map (yields_taken hkind) fun _ _ hafter => ⟨rfl, hafter.2.2⟩
        refine htaken.bind fun found tokens items rest hbefore hread => ?_
        obtain ⟨rfl, hlexed⟩ := hbefore
        exact hrest found (fun value hvalue => absurd hvalue (hitem value)) hlexed hread
      refine gives_atEnd.bind fun ended _ => gives_ite (fun _ => gives_pure (by simp)) fun _ => ?_
      refine Yields.peek fun kind => ?_
      split
      · exact hsymbol .comma .comma rfl (by simp)
      · exact hsymbol .semicolon .semicolon rfl (by simp)
      · intro tokens items rest _ hread
        cases hread
      · refine Yields.of_imp ?_ fun _ hbefore => hbefore.1
        have hexpr : Gives (PrintItem.expr <$> expr) fun item => ∀ value, item = .expr value → value.Legible := by
          refine gives_expr.map fun value hvalue other hother => ?_
          cases hother
          exact hvalue
        exact hexpr.bind hrest

theorem gives_resume : Gives resume IsPlain := by
  refine (gives_accept rfl).bind fun next _ => gives_ite (fun _ => gives_pure ⟨by simp [Command.Legible], rfl⟩)
    fun _ => gives_lineRef?.bind fun line hline => ?_
  split
  · exact gives_pure ⟨by simp [Command.Legible], rfl⟩
  · exact gives_pure ⟨by simp [Command.Legible], rfl⟩
  · rename_i number hzero
    refine gives_pure ⟨?_, rfl⟩
    intro found hfound
    cases hfound
    exact ⟨hline _ rfl, hzero⟩

theorem gives_runOrLoad : Gives runOrLoad IsPlain := by
  refine gives_atEnd.bind fun ended _ => gives_ite (fun _ => gives_pure ⟨by simp [Command.Legible], rfl⟩)
    fun _ => gives_peek fun kind => gives_ite (fun _ => ?_) fun _ => ?_
  · exact gives_lineRef.bind fun line hline => gives_pure ⟨by simpa [Command.Legible] using hline, rfl⟩
  · refine gives_expr.bind fun path hpath => (gives_accept rfl).bind fun comma _ => ?_
    refine gives_ite (fun _ => gives_name.bind fun name _ => ?_) fun _ => ?_
    · exact gives_pure ⟨hpath, rfl⟩
    · exact gives_pure ⟨hpath, rfl⟩

theorem positionsLegible_cons {first : Option Expr} {others : List (Option Expr)}
    (hfirst : ∀ e ∈ first, e.Legible) (hothers : PositionsLegible others ∧ others ≠ []) :
    PositionsLegible (first :: others) := by
  obtain ⟨⟨hall, hlast⟩, hne⟩ := hothers
  refine ⟨?_, ?_⟩
  · intro e he
    rcases List.mem_cons.mp he with heq | he
    · exact hfirst e heq.symm
    · exact hall e he
  · obtain ⟨before, e, rfl⟩ := hlast.resolve_left hne
    exact .inr ⟨first :: before, e, rfl⟩

theorem gives_positionsFrom (budget : Nat) :
    Gives (positionsFrom budget) fun arguments => PositionsLegible arguments ∧ arguments ≠ [] := by
  induction budget with
  | zero => exact gives_exhausted
  | succ fuel ih =>
      -- An empty position is one before a comma, so that another one follows.
      have hmore : ∀ first : Option Expr, (∀ e ∈ first, e.Legible) →
          Gives (atEnd >>= fun ended =>
            if ended then refuse "TRAILING COMMA"
            else positionsFrom fuel >>= fun others => pure (first :: others))
            fun arguments => PositionsLegible arguments ∧ arguments ≠ [] := by
        intro first hfirst
        refine gives_atEnd.bind fun ended _ => gives_ite (fun _ => gives_refuse _) fun _ => ?_
        refine ih.bind fun others hothers => gives_pure ⟨positionsLegible_cons hfirst hothers, by simp⟩
      rw [positionsFrom]
      refine Yields.peek fun kind => Yields.ite (fun hkind => ?_) fun _ => ?_
      · intro tokens arguments rest hbefore hread
        obtain ⟨hlexed, hcomma⟩ := hbefore
        rw [bind_ok (run_pure _ _)] at hread
        obtain ⟨comma, mid, haccept, hread⟩ := bind_eq_ok hread
        have hmid := (gives_accept rfl hlexed haccept).2
        cases comma with
        | true => exact hmore none (by simp) hmid hread
        | false =>
            cases tokens with
            | nil =>
                rw [← hcomma] at hkind
                cases hkind
            | cons token others =>
                have htoken : token.kind = .comma := hcomma.trans hkind
                rw [accept_pos htoken (by rfl)] at haccept
                cases haccept
      · refine Yields.of_imp ?_ fun _ hbefore => hbefore.1
        have hexpr : Gives (some <$> expr) fun first => ∃ e, first = some e ∧ e.Legible :=
          gives_expr.map fun e he => ⟨e, rfl, he⟩
        refine hexpr.bind fun first hfirst => (gives_accept rfl).bind fun comma _ => ?_
        obtain ⟨e, rfl, he⟩ := hfirst
        refine gives_ite (fun _ => hmore _ (by simpa using he)) fun _ => gives_pure ⟨⟨?_, ?_⟩, by simp⟩
        · simpa using he
        · exact .inr ⟨[], e, rfl⟩

theorem gives_positions : Gives positions PositionsLegible := by
  refine gives_atEnd.bind fun ended _ => gives_ite (fun _ => gives_pure ⟨by simp, .inl rfl⟩) fun _ => ?_
  refine yields_sized fun count => (gives_positionsFrom _).mono fun arguments rest hafter => ?_
  exact ⟨hafter.1.1, hafter.2⟩

section Verbatim

theorem yields_datum :
    Yields (Lexed .data) datum fun item rest => item.Legible ∧ Lexed .data rest := by
  intro tokens item rest hbefore hread
  have hempty : (Datum.raw "").Legible := ⟨by simp, rfl, by simp⟩
  cases hbefore with
  | nil =>
      cases hread
      exact ⟨hempty, .nil _⟩
  | @data token more hsound hmore =>
      have hlexed : Lexed .data (token :: more) := .data hsound hmore
      obtain ⟨kind, literal⟩ := token
      rw [datum, bind_ok (run_peekKind _), kindAt_cons] at hread
      cases kind with
      | raw =>
          cases hread
          exact ⟨hsound, hmore⟩
      | text =>
          cases hread
          exact ⟨hsound, hmore⟩
      | illegal => cases hread
      | comma =>
          cases hread
          exact ⟨hempty, hlexed⟩
      | colon =>
          cases hread
          exact ⟨hempty, hlexed⟩
      | _ => exact absurd hsound id

theorem yields_accept_data : Yields (Lexed .data) (accept .comma) fun _ rest => Lexed .data rest := by
  intro tokens found rest hbefore hread
  cases hbefore with
  | nil =>
      cases hread
      exact .nil _
  | @data token more hsound hmore =>
      by_cases hkind : token.kind = .comma
      · rw [accept_pos hkind (by rfl)] at hread
        cases hread
        rw [hkind, if_neg (by decide)] at hmore
        exact hmore
      · rw [accept_neg (kindAt_ne hkind _)] at hread
        cases hread
        exact .data hsound hmore

theorem yields_data :
    Yields (Lexed .data) (listOf datum) fun items rest =>
      (Command.data items).Legible ∧ Lexed .data rest :=
  yields_sized fun _ => yields_commaList yields_datum yields_accept_data _

theorem yields_remark :
    Yields (Lexed .remark)
      (peekKind >>= fun kind =>
        if kind = .raw then next >>= fun token => pure (Command.remark token.literal)
        else pure (Command.remark ""))
      fun c rest => c.Legible ∧ rest = [] := by
  intro tokens c rest hbefore hread
  cases hbefore with
  | nil =>
      cases hread
      exact ⟨⟨by simp, rfl⟩, rfl⟩
  | @remark token hkind h =>
      rw [bind_ok (run_peekKind _), kindAt_cons, if_pos hkind,
        bind_ok (run_next (by rw [hkind]; rfl) _)] at hread
      cases hread
      exact ⟨h, rfl⟩

end Verbatim

/-- What a command and the tokens it leaves are like. -/
structure CommandLeft (c : Command) (rest : List Token) : Prop where
  legible : c.Legible
  lexed : Lexed .statement rest ∨ Lexed .data rest
  remark : (Statement.command c).isFollowable = false → rest = []

theorem Gives.commandLeft {reader : Reader Command} (h : Gives reader IsPlain) :
    Yields (Lexed .statement) reader CommandLeft := by
  refine Yields.mono h fun c rest hafter => ?_
  obtain ⟨⟨hlegible, hfollowable⟩, hrest⟩ := hafter
  refine ⟨hlegible, .inl hrest, ?_⟩
  intro hremark
  rw [hfollowable] at hremark
  cases hremark

section Command

variable {α : Type} {reader : Reader α} {found : α → Prop} {build : α → Command}

theorem Gives.builds (h : Gives reader found) (hbuild : ∀ value, found value → IsPlain (build value)) :
    Yields (Lexed .statement) (reader >>= fun value => pure (build value)) CommandLeft :=
  Gives.commandLeft (h.bind fun value hvalue => gives_pure (hbuild value hvalue))

/-- A command with arguments, or without them at the end of the statement. -/
theorem Gives.optional {alone : Command} (halone : IsPlain alone) (h : Gives reader found)
    (hbuild : ∀ value, found value → IsPlain (build value)) :
    Yields (Lexed .statement)
      (atEnd >>= fun ended => if ended then pure alone else reader >>= fun value => pure (build value))
      CommandLeft := by
  refine Gives.commandLeft (gives_atEnd.bind fun ended _ => ?_)
  exact gives_ite (fun _ => gives_pure halone) fun _ =>
    h.bind fun value hvalue => gives_pure (hbuild value hvalue)

/-- **A command that is read from a line is legible.** -/
theorem yields_command (token : Token) :
    Yields (Lexed token.kind.modeAfter) (command token) CommandLeft := by
  obtain ⟨kind, literal⟩ := token
  unfold command
  dsimp only
  split
  · exact gives_assignment.commandLeft
  · exact gives_auto.commandLeft
  · exact (gives_pure ⟨trivial, rfl⟩).commandLeft
  · exact gives_chain.commandLeft
  · exact gives_positions.builds fun _ h => ⟨h, rfl⟩
  · exact (gives_pure ⟨trivial, rfl⟩).commandLeft
  · exact gives_positions.builds fun _ h => ⟨h, rfl⟩
  · exact (gives_listOf gives_name).builds fun _ h => ⟨h, rfl⟩
  · exact (gives_pure ⟨trivial, rfl⟩).commandLeft
  · exact yields_data.bind fun items => yields_pure fun _ h => ⟨h.1, .inr h.2, nofun⟩
  · exact gives_definition.commandLeft
  · exact (gives_listOf gives_target).builds fun _ h => ⟨h, rfl⟩
  · exact (gives_pure ⟨trivial, rfl⟩).commandLeft
  · exact gives_expr.builds fun _ h => ⟨h, rfl⟩
  · exact gives_expr.optional ⟨by simp [Command.Legible], rfl⟩ fun _ h => ⟨by simpa [Command.Legible] using h, rfl⟩
  · exact gives_forLoop.commandLeft
  · exact gives_lineRef.builds fun _ h => ⟨h, rfl⟩
  · exact gives_lineRef.builds fun _ h => ⟨h, rfl⟩
  · refine Gives.commandLeft (gives_expr.bind fun number hnumber => (gives_expect rfl).bind fun _ _ => ?_)
    exact gives_expr.bind fun text htext => gives_pure ⟨⟨hnumber, htext⟩, rfl⟩
  · exact gives_list.commandLeft
  · exact gives_load.commandLeft
  · exact gives_positions.builds fun _ h => ⟨h, rfl⟩
  · exact gives_expr.builds fun _ h => ⟨h, rfl⟩
  · exact (gives_pure ⟨trivial, rfl⟩).commandLeft
  · exact (gives_listOf gives_name).optional ⟨by simp [Command.Legible], rfl⟩ fun _ h => ⟨h.2, rfl⟩
  · exact gives_trapOrJump.commandLeft
  · exact gives_positions.builds fun _ h => ⟨h, rfl⟩
  · exact yields_sized fun _ => (gives_printItems _).builds fun _ h => ⟨h, rfl⟩
  · exact (gives_listOf gives_target).builds fun _ h => ⟨h, rfl⟩
  · exact yields_remark.mono fun c rest h => ⟨h.1, .inl (h.2 ▸ .nil _), fun _ => h.2⟩
  · exact gives_lineRef?.builds fun _ h => ⟨h, rfl⟩
  · exact gives_resume.commandLeft
  · exact gives_lineRef?.builds fun _ h => ⟨h, rfl⟩
  · exact gives_runOrLoad.commandLeft
  · exact gives_positions.builds fun _ h => ⟨h, rfl⟩
  · exact (gives_pure ⟨trivial, rfl⟩).commandLeft
  · exact (gives_pure ⟨trivial, rfl⟩).commandLeft
  · exact (gives_pure ⟨trivial, rfl⟩).commandLeft
  · exact (gives_pure ⟨trivial, rfl⟩).commandLeft
  · exact gives_expr.builds fun _ h => ⟨h, rfl⟩
  · exact Yields.ite (fun _ => yields_refuse _) fun _ => yields_refuse _

end Command

/-- Tokens before which the statements of a branch end. -/
def Stopped (tokens : List Token) : Prop :=
  kindAt tokens = .eol ∨ kindAt tokens = .eof ∨ kindAt tokens = .keyword .ELSE ∨
    (kindAt tokens = .colon ∧ secondKindAt tokens = .keyword .ELSE)

/-- What a statement and the tokens it leaves are like. -/
structure StatementLeft (s : Statement) (rest : List Token) : Prop where
  legible : s.Legible
  lexed : Lexed .statement rest ∨ Lexed .data rest
  stopped : s.isFollowable = false → Stopped rest
  remark : ∀ text, s.last = .remark text → rest = []

/-- What the statements of a branch and the tokens they leave are like. -/
structure BranchLeft (list : List Statement) (rest : List Token) : Prop where
  legible : Statement.LegibleAll list
  lexed : Lexed .statement rest
  stopped : Statement.loneGoto? list = none → Stopped rest
  remark : ∀ text, Statement.lastAll list = .remark text → rest = []

/-- The readers of statements with a budget give legible ones. -/
structure StatementsGiven (budget : Nat) : Prop where
  statement : Yields (Lexed .statement) (statementWithin budget) StatementLeft
  choice : Yields (Lexed .statement) (choice budget) StatementLeft
  branch : Yields (Lexed .statement) (branch budget) BranchLeft
  statements : Yields (Lexed .statement) (branchStatements budget) fun list rest =>
    BranchLeft list rest ∧ Stopped rest

section Statements

variable {budget : Nat} {condition : Expr} {thenList : List Statement}

theorem stopped_nil : Stopped [] := .inr (.inl rfl)

theorem CommandLeft.statement {c : Command} {rest : List Token} (h : CommandLeft c rest) :
    StatementLeft (.command c) rest := by
  refine ⟨?_, h.lexed, ?_, ?_⟩
  · rw [Statement.Legible]
    exact h.legible
  · intro hfollowable
    rw [h.remark hfollowable]
    exact stopped_nil
  · intro text hlast
    rw [Statement.last] at hlast
    subst hlast
    exact h.remark rfl

/-- After DATA a statement ends as after others. -/
theorem lexed_of_ended {rest : List Token} (h : Lexed .statement rest ∨ Lexed .data rest)
    (hended : Ended rest) : Lexed .statement rest := by
  rcases h with h | h
  · exact h
  · cases h with
    | nil => exact .nil _
    | @data token more hsound hmore =>
        obtain ⟨kind, literal⟩ := token
        have hcolon : kind = .colon := by
          rcases hended with hend | helse
          · cases kind with
            | colon => rfl
            | eol => exact absurd hsound id
            | eof => exact absurd hsound id
            | _ => cases hend
          · rw [kindAt_cons] at helse
            dsimp only at helse
            subst helse
            exact absurd hsound id
        subst hcolon
        exact .statement (Piece.sound_of_isMark rfl) hmore

theorem yields_statement (h : StatementsGiven budget) :
    Yields (Lexed .statement) (statementWithin (budget + 1)) StatementLeft := by
  rw [statementWithin]
  refine Yields.peek fun kind => Yields.ite (fun _ => ?_) fun _ => ?_
  · refine Yields.of_imp (gives_assignment.commandLeft.bind fun c => ?_) fun _ hbefore => hbefore.1
    exact yields_pure fun _ hafter => hafter.statement
  · refine Yields.of_imp (Yields.next fun token hsound => Yields.ite (fun hkind => ?_) fun _ => ?_)
      fun _ hbefore => hbefore.1
    · rw [hkind]
      exact h.choice
    · exact (yields_command token).bind fun c => yields_pure fun _ hafter => hafter.statement

theorem choiceElse_cases {tokens rest : List Token} {s : Statement} (hlexed : Lexed .statement tokens)
    (h : choiceElse budget condition thenList tokens = .ok (s, rest)) :
    (s = .choice condition thenList [] ∧ rest = tokens) ∨
      ∃ elseList mid, s = .choice condition thenList elseList ∧ tokens ≠ [] ∧ Lexed .statement mid ∧
        branch budget mid = .ok (elseList, rest) := by
  rw [choiceElse_eq] at h
  by_cases hcolon : kindAt tokens = .colon ∧ secondKindAt tokens = .keyword .ELSE
  · rw [if_pos hcolon] at h
    cases hlexed with
    | nil => cases hcolon.1
    | @statement token more hsound hmore =>
        have hkind : token.kind = .colon := hcolon.1
        rw [hkind] at hmore
        cases hmore with
        | nil => cases hcolon.2
        | @statement second others hsecond hothers =>
            have helse : second.kind = .keyword .ELSE := hcolon.2
            rw [helse] at hothers
            rw [List.tail_cons, bind_ok (accept_pos helse (by rfl)), if_pos rfl] at h
            obtain ⟨elseList, last, hbranch, hpure⟩ := bind_eq_ok h
            cases hpure
            exact .inr ⟨elseList, others, rfl, by simp, hothers, hbranch⟩
  · rw [if_neg hcolon] at h
    by_cases helse : kindAt tokens = .keyword .ELSE
    · cases hlexed with
      | nil => cases helse
      | @statement token more hsound hmore =>
          have hkind : token.kind = .keyword .ELSE := helse
          rw [hkind] at hmore
          rw [bind_ok (accept_pos hkind (by rfl)), if_pos rfl] at h
          obtain ⟨elseList, last, hbranch, hpure⟩ := bind_eq_ok h
          cases hpure
          exact .inr ⟨elseList, more, rfl, by simp, hmore, hbranch⟩
    · rw [bind_ok (accept_neg helse)] at h
      cases h
      exact .inl ⟨rfl, rfl⟩

theorem yields_choiceElse (h : StatementsGiven budget) (hcondition : condition.Legible)
    (hne : thenList ≠ []) :
    Yields (BranchLeft thenList) (choiceElse budget condition thenList) StatementLeft := by
  intro tokens s rest hbefore hread
  rcases choiceElse_cases hbefore.lexed hread with ⟨rfl, rfl⟩ | ⟨elseList, mid, rfl, htokens, hmid, hbranch⟩
  · refine ⟨?_, .inl hbefore.lexed, ?_, ?_⟩
    · rw [Statement.Legible, Statement.LegibleAll]
      exact ⟨hcondition, hne, hbefore.legible, trivial, fun h => absurd rfl h⟩
    · intro hfollowable
      rw [Statement.isFollowable, List.isEmpty_nil, if_pos rfl] at hfollowable
      exact hbefore.stopped (Option.isSome_eq_false_iff.mp hfollowable |> Option.isNone_iff_eq_none.mp)
    · intro text hlast
      rw [Statement.last, List.isEmpty_nil, if_pos rfl] at hlast
      exact hbefore.remark text hlast
  · have hleft := h.branch hmid hbranch
    have hempty : elseList.isEmpty = false := List.isEmpty_eq_false_iff.mpr (branch_ne_nil hbranch)
    refine ⟨?_, .inl hleft.lexed, ?_, ?_⟩
    · rw [Statement.Legible]
      refine ⟨hcondition, hne, hbefore.legible, hleft.legible, ?_⟩
      intro _ text hlast
      exact htokens (hbefore.remark text hlast)
    · intro hfollowable
      rw [Statement.isFollowable, hempty, if_neg Bool.false_ne_true] at hfollowable
      exact hleft.stopped (Option.isSome_eq_false_iff.mp hfollowable |> Option.isNone_iff_eq_none.mp)
    · intro text hlast
      rw [Statement.last, hempty, if_neg Bool.false_ne_true] at hlast
      exact hleft.remark text hlast

theorem branchLeft_goto {line : Nat} {rest : List Token} (hline : line ≤ Line.maxNumber)
    (hrest : Lexed .statement rest) : BranchLeft [.command (.goto line)] rest := by
  refine ⟨?_, hrest, nofun, ?_⟩
  · rw [Statement.LegibleAll, Statement.LegibleAll, Statement.Legible]
    exact ⟨hline, fun h => absurd rfl h, trivial⟩
  · intro text hlast
    rw [Statement.lastAll, Statement.last] at hlast
    cases hlast

theorem yields_choice (h : StatementsGiven budget) :
    Yields (Lexed .statement) (choice (budget + 1)) StatementLeft := by
  rw [choice]
  refine Yields.bind gives_expr fun condition => ?_
  intro tokens s rest hbefore hread
  obtain ⟨hcondition, hlexed⟩ := hbefore
  refine Yields.next (fun token hsound => ?_) hlexed hread
  obtain ⟨kind, literal⟩ := token
  dsimp only
  split
  · intro tokens s rest hbefore hread
    obtain ⟨thenList, mid, hbranch, hread⟩ := bind_eq_ok hread
    exact yields_choiceElse h hcondition (branch_ne_nil hbranch) (h.branch hbefore hbranch) hread
  · have hgoto : Gives ((fun line => [Statement.command (.goto line)]) <$> lineRef) fun list =>
        ∃ line, line ≤ Line.maxNumber ∧ list = [Statement.command (.goto line)] :=
      gives_lineRef.map fun line hline => ⟨line, hline, rfl⟩
    intro tokens s rest hbefore hread
    obtain ⟨thenList, mid, hline, hread⟩ := bind_eq_ok hread
    obtain ⟨⟨line, hle, rfl⟩, hmid⟩ := hgoto hbefore hline
    exact yields_choiceElse h hcondition (by simp) (branchLeft_goto hle hmid) hread
  · intro tokens s rest _ hread
    cases hread

theorem yields_branch (h : StatementsGiven budget) :
    Yields (Lexed .statement) (branch (budget + 1)) BranchLeft := by
  rw [branch]
  refine Yields.peek fun kind => Yields.ite (fun _ => ?_) fun _ => ?_
  · refine Yields.of_imp (Yields.bind gives_lineRef fun line => ?_) fun _ hbefore => hbefore.1
    exact yields_pure fun _ hafter => branchLeft_goto hafter.1 hafter.2
  · refine Yields.of_imp (Yields.bind h.statements fun list => ?_) fun _ hbefore => hbefore.1
    cases list with
    | nil => exact yields_refuse _
    | cons s others => exact yields_pure fun _ hafter => hafter.1

theorem branchLeft_nil {rest : List Token} (hrest : Lexed .statement rest) (hstopped : Stopped rest) :
    BranchLeft [] rest := by
  refine ⟨?_, hrest, fun _ => hstopped, ?_⟩
  · rw [Statement.LegibleAll]
    trivial
  · intro text hlast
    rw [Statement.lastAll] at hlast
    cases hlast

/-- Where a branch ends no statement is read. -/
theorem branchStatements_stopped {tokens rest : List Token} {list : List Statement} (h : Stopped tokens)
    (hread : branchStatements budget tokens = .ok (list, rest)) : list = [] ∧ rest = tokens := by
  cases budget with
  | zero => cases hread
  | succ fuel =>
      rw [branchStatements, bind_ok (run_peekKind _)] at hread
      rcases h with hkind | hkind | hkind | ⟨hkind, hsecond⟩
      · rw [hkind] at hread
        cases hread
        exact ⟨rfl, rfl⟩
      · rw [hkind] at hread
        cases hread
        exact ⟨rfl, rfl⟩
      · rw [hkind] at hread
        cases hread
        exact ⟨rfl, rfl⟩
      · rw [hkind] at hread
        change (peekSecondKind >>= _) _ = _ at hread
        rw [bind_ok (run_peekSecondKind _), if_pos hsecond] at hread
        cases hread
        exact ⟨rfl, rfl⟩

/-- A statement and those after it in a branch. -/
theorem branchLeft_cons {s : Statement} {list : List Statement} {mid rest : List Token}
    (hs : StatementLeft s mid) (hlist : BranchLeft list rest) (hstopped : Stopped rest)
    (hread : branchStatements budget mid = .ok (list, rest)) : BranchLeft (s :: list) rest := by
  refine ⟨?_, hlist.lexed, fun _ => hstopped, ?_⟩
  · rw [Statement.LegibleAll]
    refine ⟨hs.legible, ?_, hlist.legible⟩
    intro hne
    rw [← Bool.not_eq_false]
    intro hfollowable
    exact hne (branchStatements_stopped (hs.stopped hfollowable) hread).1
  · intro text hlast
    by_cases hnil : list = []
    · subst hnil
      rw [Statement.lastAll] at hlast
      have hmid := hs.remark text hlast
      subst hmid
      exact (branchStatements_stopped stopped_nil hread).2
    · rw [Statement.lastAll_cons s hnil] at hlast
      exact hlist.remark text hlast

theorem yields_branchStatements (h : StatementsGiven budget) :
    Yields (Lexed .statement) (branchStatements (budget + 1)) fun list rest =>
      BranchLeft list rest ∧ Stopped rest := by
  rw [branchStatements]
  refine Yields.peek fun kind => ?_
  split
  · exact yields_pure fun _ hbefore => ⟨branchLeft_nil hbefore.1 (.inl hbefore.2), .inl hbefore.2⟩
  · exact yields_pure fun _ hbefore =>
      ⟨branchLeft_nil hbefore.1 (.inr (.inl hbefore.2)), .inr (.inl hbefore.2)⟩
  · exact yields_pure fun _ hbefore =>
      ⟨branchLeft_nil hbefore.1 (.inr (.inr (.inl hbefore.2))), .inr (.inr (.inl hbefore.2))⟩
  · intro tokens list rest hbefore hread
    rw [bind_ok (run_peekSecondKind _)] at hread
    split at hread
    · rename_i hsecond
      cases hread
      have hstopped : Stopped tokens := .inr (.inr (.inr ⟨hbefore.2, hsecond⟩))
      exact ⟨branchLeft_nil hbefore.1 hstopped, hstopped⟩
    · obtain ⟨token, mid, hnext, hread⟩ := bind_eq_ok hread
      exact h.statements (yields_taken rfl hbefore hnext).2.2 hread
  · intro tokens list rest hbefore hread
    obtain ⟨s, mid, hs, hread⟩ := bind_eq_ok hread
    have hleft := h.statement hbefore.1 hs
    by_cases hended : Ended mid
    · rw [bind_ok (atEnd_pos hended), if_pos rfl] at hread
      obtain ⟨others, last, hothers, hpure⟩ := bind_eq_ok hread
      cases hpure
      obtain ⟨hlist, hstopped⟩ := h.statements (lexed_of_ended hleft.lexed hended) hothers
      exact ⟨branchLeft_cons hleft hlist hstopped hothers, hstopped⟩
    · rw [bind_ok (atEnd_neg hended), if_neg Bool.false_ne_true] at hread
      cases hread

theorem statementsGiven (budget : Nat) : StatementsGiven budget := by
  induction budget with
  | zero =>
      refine ⟨?_, ?_, ?_, ?_⟩
      · rw [statementWithin]
        exact yields_exhausted
      · rw [choice]
        exact yields_exhausted
      · rw [branch]
        exact yields_exhausted
      · rw [branchStatements]
        exact yields_exhausted
  | succ fuel ih => exact ⟨yields_statement ih, yields_choice ih, yields_branch ih, yields_branchStatements ih⟩

/-- No statement starts with ELSE. -/
theorem statements_else {token : Token} (h : token.kind = .keyword .ELSE) (tokens : List Token)
    (result : List Statement × List Token) : statements budget (token :: tokens) ≠ .ok result := by
  obtain ⟨kind, literal⟩ := token
  dsimp only at h
  subst h
  cases budget with
  | zero => nofun
  | succ fuel =>
      intro hread
      rw [statements, bind_ok (run_peekKind _)] at hread
      obtain ⟨s, mid, hs, -⟩ := bind_eq_ok hread
      rw [statement, run_sized, budgetFor, statementWithin] at hs
      cases hs

/-- Where a branch ends a line has no other statement. -/
theorem statements_stopped {tokens rest : List Token} {list : List Statement} (h : Stopped tokens)
    (hread : statements budget tokens = .ok (list, rest)) : list = [] := by
  cases budget with
  | zero => cases hread
  | succ fuel =>
      rcases h with hkind | hkind | hkind | ⟨hkind, hsecond⟩
      · rw [statements, bind_ok (run_peekKind _), hkind] at hread
        cases hread
        rfl
      · rw [statements, bind_ok (run_peekKind _), hkind] at hread
        cases hread
        rfl
      · cases tokens with
        | nil => cases hkind
        | cons token others => exact absurd hread (statements_else hkind others _)
      · rw [statements, bind_ok (run_peekKind _), hkind] at hread
        rcases tokens with _ | ⟨token, _ | ⟨second, others⟩⟩
        · cases hkind
        · cases hsecond
        · have hcolon : token.kind = .colon := hkind
          have hread : statements fuel (second :: others) = .ok (list, rest) := by
            rwa [bind_ok (run_next (by rw [hcolon]; rfl) _)] at hread
          exact absurd hread (statements_else hsecond others _)

/-- **Statements that are read from a line are legible.** -/
theorem yields_statements (budget : Nat) :
    Yields (Lexed .statement) (statements budget) fun list _ => Statement.LegibleAll list := by
  have hnil : Statement.LegibleAll [] := by
    rw [Statement.LegibleAll]
    trivial
  induction budget with
  | zero => exact yields_exhausted
  | succ fuel ih =>
      rw [statements]
      refine Yields.peek fun kind => ?_
      split
      · exact yields_pure fun _ _ => hnil
      · exact yields_pure fun _ _ => hnil
      · exact (yields_taken rfl).bind fun _ => Yields.of_imp ih fun _ hafter => hafter.2.2
      · intro tokens list rest hbefore hread
        obtain ⟨s, mid, hs, hread⟩ := bind_eq_ok hread
        have hleft : StatementLeft s mid := yields_sized (fun _ => (statementsGiven _).statement) hbefore.1 hs
        rw [bind_ok (run_peekKind _)] at hread
        split at hread
        · rename_i hended
          obtain ⟨others, last, hothers, hpure⟩ := bind_eq_ok hread
          cases hpure
          rw [Statement.LegibleAll]
          refine ⟨hleft.legible, ?_, ih (lexed_of_ended hleft.lexed (.inl hended)) hothers⟩
          intro hne
          rw [← Bool.not_eq_false]
          intro hfollowable
          exact hne (statements_stopped (hleft.stopped hfollowable) hothers)
        · cases hread

end Statements

end Reader

namespace Line

/-- What a line read from a text is like. -/
structure Legible (line : Line) : Prop where
  number : ∀ number ∈ line.number, number ≤ maxNumber
  statements : Statement.LegibleAll line.statements
  nonempty : line.number = none → line.statements ≠ []

theorem lexed_of_splitNumber {tokens body : List Token} {number : Option Nat} (h : LineLexed tokens)
    (hsplit : splitNumber tokens = .ok (number, body)) :
    Lexed .statement body ∧ ∀ line ∈ number, line ≤ maxNumber := by
  cases tokens with
  | nil =>
      cases hsplit
      exact ⟨.nil _, by simp⟩
  | cons token rest =>
      rw [splitNumber] at hsplit
      split at hsplit
      · rename_i hkind
        have hrest : Lexed .statement rest := by
          rcases h with h | ⟨first, others, heq, -, hothers⟩
          · cases h with
            | statement hsound hrest =>
                rw [hkind] at hrest
                exact hrest
          · obtain ⟨-, rfl⟩ := List.cons.inj heq
            exact hothers
        cases hnumber : Literal.lineNumber token.literal with
        | error fault =>
            rw [hnumber] at hsplit
            cases hsplit
        | ok line =>
            rw [hnumber] at hsplit
            cases hsplit
            exact ⟨hrest, by simpa using Reader.lineNumber_le hnumber⟩
      · rename_i hkind
        cases hsplit
        rcases h with h | ⟨first, others, heq, hfirst, -⟩
        · exact ⟨h, by simp⟩
        · obtain ⟨rfl, -⟩ := List.cons.inj heq
          exact absurd hfirst hkind

theorem legible_of_ofTokens? {tokens : List Token} {line : Line} (h : LineLexed tokens)
    (hread : ofTokens? tokens = .ok (some line)) : line.Legible := by
  cases hsplit : splitNumber tokens with
  | error fault =>
      rw [ofTokens?_of_splitNumber_error hsplit] at hread
      cases hread
  | ok found =>
      obtain ⟨number, body⟩ := found
      obtain ⟨hbody, hnumber⟩ := lexed_of_splitNumber h hsplit
      rw [ofTokens?_of_splitNumber hsplit] at hread
      split at hread
      · rename_i statements rest hstatements
        split at hread
        · cases hread
        · rename_i hsome
          cases hread
          refine ⟨hnumber, Reader.yields_statements _ hbody hstatements, ?_⟩
          intro hnone hnil
          subst hnone hnil
          exact hsome rfl
      · cases hread

end Line

/-- **Every line that is read from a text is legible.** -/
theorem Parsed.legible_of_mem {text : String} {line : Line} (h : line ∈ (ofTokens (lex text)).lines) :
    line.Legible := by
  have hlines : ∀ lines : List (List Token), (∀ tokens ∈ lines, LineLexed tokens) →
      ∀ line ∈ (ofLines lines).lines, line.Legible := by
    intro lines
    induction lines with
    | nil => exact fun _ line hline => absurd hline List.not_mem_nil
    | cons tokens others ih =>
        intro hlexed line hline
        have hothers := ih fun other hother => hlexed other (List.mem_cons_of_mem tokens hother)
        rw [ofLines_cons] at hline
        cases hread : Line.ofTokens? tokens with
        | error fault =>
            rw [hread] at hline
            exact hothers line hline
        | ok found =>
            rw [hread] at hline
            cases found with
            | none => exact hothers line hline
            | some first =>
                rcases List.mem_cons.mp hline with rfl | hline
                · exact Line.legible_of_ofTokens? (hlexed tokens List.mem_cons_self) hread
                · exact hothers line hline
  rw [ofTokens_lex] at h
  exact hlines _ (fun tokens htokens => lineLexed_of_mem htokens) line h

end LineBasic
