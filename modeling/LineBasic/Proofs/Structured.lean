import LineBasic.Proofs.Moves
import LineBasic.Proofs.Position

/-! Structured execution. A program of assignments, PRINT, remarks, DATA and IF can be read as a tree:
lines in ascending order, statements from left to right, and for an IF the statements of one of its
branches. A session knows only the cursor of its next statement, but it carries out the same
statements in the same order, with the same effect. -/

namespace LineBasic

namespace Command

/-- The commands that neither jump nor stop. -/
def isPlain : Command → Bool
  | assign _ _ | print _ | remark _ | data _ => true
  | _ => false

end Command

namespace Statement

mutual

/-- Whether a statement consists of plain commands and IF, at every depth. -/
def isPlain : Statement → Bool
  | command c => c.isPlain
  | choice _ thenList elseList => allPlain thenList && allPlain elseList

/-- Whether all statements of a list consist of plain commands and IF. -/
def allPlain : List Statement → Bool
  | [] => true
  | first :: rest => first.isPlain && allPlain rest

end

end Statement

/-! The recursive reading of a program. It gives the statements that it carried out, each with the
number of its line. -/

namespace Structured

open SessionAct

/-- Whether a condition holds. -/
def test (condition : Expr) : SessionAct Bool := do
  let value ← eval condition
  value.isTrue

mutual

/-- Carries out a statement: for an IF the chosen branch. -/
def statement (line : Nat) : Statement → SessionAct (List (Nat × Statement))
  | .command c => do
      command c
      return [(line, .command c)]
  | .choice condition thenList elseList => do
      let visited ← if ← test condition then block line thenList else block line elseList
      return (line, .choice condition thenList elseList) :: visited

/-- Carries out statements from left to right. -/
def block (line : Nat) : List Statement → SessionAct (List (Nat × Statement))
  | [] => return []
  | first :: rest => do
      let visited ← statement line first
      return visited ++ (← block line rest)

end

/-- Shows the number of a line, where lines are traced. -/
def enterLine (line : Nat) : SessionAct Unit :=
  modify fun session =>
    if session.settings.tracing then session.print ("[" ++ toString line ++ "]") else session

/-- Carries out lines one after the other. -/
def lines : List (Nat × List Statement) → SessionAct (List (Nat × Statement))
  | [] => return []
  | (line, statements) :: rest => do
      enterLine line
      let visited ← block line statements
      return visited ++ (← lines rest)

end Structured

namespace Session

/-- The session at another position. -/
def place (session : Session) (cursor : Option Cursor) (current : Cursor) (traced : Option Nat) :
    Session :=
  { session with cursor, current, traced }

/-- Steps that carry out these statements, each given with the number of its line, without a fault. -/
inductive Visits : Session → List (Nat × Statement) → Session → Prop
  | nil (session : Session) : Visits session [] session
  | cons {session after last : Session} {line : Nat} {path : List Nat} {next : Statement}
      {rest : List (Nat × Statement)} (hcursor : session.cursor = some ⟨some line, path⟩)
      (hnext : session.program.statement? ⟨some line, path⟩ = some next)
      (hstep : SessionAct.step.outcome session = (.ok ⟨⟩, after)) (hrest : Visits after rest last) :
      Visits session ((line, next) :: rest) last

theorem Visits.append {session middle last : Session} {first rest : List (Nat × Statement)}
    (h : Visits session first middle) (h' : Visits middle rest last) :
    Visits session (first ++ rest) last := by
  induction h with
  | nil _ => exact h'
  | cons hcursor hnext hstep _ ih => exact .cons hcursor hnext hstep (ih h')

end Session

namespace SessionAct

open Act

/-- An action that does the same at every position, and changes nothing but the workspace and what
was printed. -/
def Local {α : Type} (action : SessionAct α) : Prop :=
  ∀ session : Session, ∃ result work column events, ∀ cursor current traced,
    action.outcome (session.place cursor current traced) =
      (result, { session with work, column, events }.place cursor current traced)

theorem local_pure {α : Type} (value : α) : Local (pure value) :=
  fun session => ⟨.ok value, session.work, session.column, session.events, fun _ _ _ => rfl⟩

theorem local_lift {α : Type} (result : Except Fault α) : Local (liftM result : SessionAct α) :=
  fun session => ⟨result, session.work, session.column, session.events, fun _ _ _ => rfl⟩

theorem Local.bind {α β : Type} {action : SessionAct α} {next : α → SessionAct β}
    (h : Local action) (hnext : ∀ value, Local (next value)) : Local (action >>= next) := by
  intro session
  obtain ⟨result, work, column, events, hfirst⟩ := h session
  cases result with
  | error fault =>
      refine ⟨.error fault, work, column, events, fun cursor current traced => ?_⟩
      rw [outcome_bind, hfirst]
  | ok value =>
      obtain ⟨result, work', column', events', hsecond⟩ :=
        hnext value { session with work, column, events }
      refine ⟨result, work', column', events', fun cursor current traced => ?_⟩
      rw [outcome_bind, hfirst]
      exact hsecond cursor current traced

theorem local_eval (expr : Expr) : Local (eval expr) := by
  intro session
  let evaluated := (Workspace.eval session.scope expr).outcome session.work
  exact ⟨evaluated.1, evaluated.2, session.column, session.events, fun _ _ _ => rfl⟩

theorem local_evalAll (exprs : List Expr) : Local (evalAll exprs) := by
  intro session
  let evaluated := (Workspace.evalAll session.scope exprs).outcome session.work
  exact ⟨evaluated.1, evaluated.2, session.column, session.events, fun _ _ _ => rfl⟩

theorem local_onWork {α : Type} (action : Act Workspace α) : Local (onWork action) := by
  intro session
  let done := action.outcome session.work
  exact ⟨done.1, done.2, session.column, session.events, fun _ _ _ => rfl⟩

theorem outcome_changeMemory (step : Memory → Except Fault Memory) (session : Session) :
    (changeMemory step).outcome session =
      match step session.work.memory with
      | .error fault => (.error fault, session)
      | .ok memory => (.ok ⟨⟩, { session with work := { session.work with memory } }) := by
  unfold changeMemory
  rw [outcome_bind, outcome_get]
  dsimp only
  rw [outcome_bind, outcome_lift]
  cases step session.work.memory <;> rfl

theorem local_changeMemory (step : Memory → Except Fault Memory) : Local (changeMemory step) := by
  intro session
  have hmemory : ∀ cursor current traced,
      (session.place cursor current traced).work.memory = session.work.memory := fun _ _ _ => rfl
  cases hstep : step session.work.memory with
  | error fault =>
      refine ⟨.error fault, session.work, session.column, session.events, fun _ _ _ => ?_⟩
      rw [outcome_changeMemory, hmemory, hstep]
  | ok memory =>
      refine ⟨.ok ⟨⟩, { session.work with memory }, session.column, session.events,
        fun _ _ _ => ?_⟩
      rw [outcome_changeMemory, hmemory, hstep]
      rfl

theorem local_store (target : Variable) (value : Value) : Local (store target value) := by
  cases target with
  | scalar name => exact local_changeMemory fun memory => memory.store name value
  | element name subscripts =>
      exact (local_evalAll subscripts).bind fun _ => local_onWork _

theorem local_printText (column : Nat) (text : String) (items : List PrintItem) :
    Local (printText column text items) := by
  induction items generalizing text with
  | nil => exact local_pure _
  | cons item rest ih =>
      cases item with
      | expr expr =>
          refine (local_eval expr).bind fun value => ?_
          cases value <;> exact ih _
      | comma => exact ih _
      | semicolon => exact ih _

theorem local_print (text : String) : Local (modify fun session => session.print text) := by
  intro session
  exact ⟨.ok ⟨⟩, session.work, columnAfter session.column text, appendPrint text session.events,
    fun _ _ _ => rfl⟩

theorem local_printItems (items : List PrintItem) : Local (printItems items) := by
  intro session
  refine ((local_printText session.column "" items).bind fun text => ?_) session
  exact local_print _

theorem local_command {c : Command} (h : c.isPlain = true) : Local (command c) := by
  cases c with
  | assign target value => exact (local_eval value).bind fun result => local_store target result
  | print items => exact local_printItems items
  | remark _ | data _ => exact local_pure _
  | _ => cases h

end SessionAct

namespace Structured

open Act SessionAct

theorem local_test (condition : Expr) : Local (test condition) :=
  (local_eval condition).bind fun _ => local_lift _

mutual

theorem local_statement (line : Nat) (next : Statement) (h : next.isPlain = true) :
    Local (statement line next) := by
  cases next with
  | command c => exact (local_command h).bind fun _ => local_pure _
  | choice condition thenList elseList =>
      rw [Statement.isPlain, Bool.and_eq_true] at h
      refine (local_test condition).bind fun holds => ?_
      cases holds with
      | true => exact (local_block line thenList h.1).bind fun _ => local_pure _
      | false => exact (local_block line elseList h.2).bind fun _ => local_pure _

theorem local_block (line : Nat) (list : List Statement) (h : Statement.allPlain list = true) :
    Local (block line list) := by
  cases list with
  | nil => exact local_pure _
  | cons first rest =>
      rw [Statement.allPlain, Bool.and_eq_true] at h
      refine (local_statement line first h.1).bind fun visited => ?_
      exact (local_block line rest h.2).bind fun _ => local_pure _

end

theorem local_enterLine (line : Nat) : Local (enterLine line) := by
  intro session
  by_cases htracing : session.settings.tracing = true
  · obtain ⟨result, work, column, events, hprint⟩ :=
      local_print ("[" ++ toString line ++ "]") session
    refine ⟨result, work, column, events, fun cursor current traced => ?_⟩
    rw [← hprint]
    unfold enterLine
    rw [outcome_modify, outcome_modify, if_pos (by exact htracing)]
  · refine ⟨.ok ⟨⟩, session.work, session.column, session.events, fun cursor current traced => ?_⟩
    unfold enterLine
    rw [outcome_modify, if_neg (by exact htracing)]

theorem local_lines {entries : List (Nat × List Statement)}
    (h : ∀ entry ∈ entries, Statement.allPlain entry.2 = true) : Local (lines entries) := by
  induction entries with
  | nil => exact local_pure _
  | cons entry rest ih =>
      obtain ⟨hentry, hrest⟩ := List.forall_mem_cons.mp h
      refine (local_enterLine entry.1).bind fun _ => ?_
      refine (local_block entry.1 entry.2 hentry).bind fun visited => ?_
      exact (ih hrest).bind fun _ => local_pure _

end Structured

namespace SessionAct

open Act

theorem Local.outcome_place {α : Type} {action : SessionAct α} (h : Local action)
    (session : Session) (cursor : Option Cursor) (current : Cursor) (traced : Option Nat) :
    action.outcome (session.place cursor current traced) =
      ((action.outcome session).1, (action.outcome session).2.place cursor current traced) := by
  obtain ⟨result, work, column, events, houtcome⟩ := h session
  have hhere : action.outcome session = _ :=
    houtcome session.cursor session.current session.traced
  rw [houtcome, hhere]
  rfl

/-- What a local action leaves in place. -/
theorem Local.unchanged {α : Type} {action : SessionAct α} (h : Local action) (session : Session) :
    (action.outcome session).2.program = session.program ∧
      (action.outcome session).2.state = session.state := by
  obtain ⟨result, work, column, events, houtcome⟩ := h session
  have hhere : action.outcome session = _ :=
    houtcome session.cursor session.current session.traced
  rw [hhere]
  exact ⟨rfl, rfl⟩

end SessionAct

namespace Session

open Act SessionAct

/-- A session that is about to carry out the statement under a cursor and that, once it has begun,
differs from another session in its position only. -/
def StandsAt (session : Session) (cursor : Cursor) (reading : Session) : Prop :=
  session.cursor = some cursor ∧
    beginStatement { session with cursor := none } cursor =
      reading.place (session.program.advance? cursor) cursor cursor.line

/-- Inside a line that was entered nothing is traced. -/
theorem standsAt_place (reading : Session) {line : Nat} {path : List Nat} (current : Cursor)
    (hpath : path ≠ [0]) :
    StandsAt (reading.place (some ⟨some line, path⟩) current (some line)) ⟨some line, path⟩ reading := by
  refine ⟨rfl, ?_⟩
  have htrace : traceText { reading.place (some ⟨some line, path⟩) current (some line) with
      cursor := none } ⟨some line, path⟩ = none := by
    unfold traceText
    dsimp only
    refine if_neg ?_
    rw [Bool.and_eq_true, Bool.or_eq_true, bne_iff_ne, beq_iff_eq]
    rintro ⟨-, htraced | hzero⟩
    · exact htraced rfl
    · exact hpath hzero
  unfold beginStatement
  rw [htrace]
  rfl

/-- At the start of a line its number is traced. -/
theorem standsAt_start (reading : Session) (line : Nat) (current : Cursor) (traced : Option Nat) :
    StandsAt (reading.place (some (.start (some line))) current traced) (.start (some line))
      ((Structured.enterLine line).outcome reading).2 := by
  refine ⟨rfl, ?_⟩
  have htrace : ∀ session : Session, traceText session (.start (some line)) =
      if session.settings.tracing then some ("[" ++ toString line ++ "]") else none := by
    intro session
    have hpath : ([0] == [0]) = true := by decide
    unfold traceText Cursor.start
    dsimp only
    rw [hpath, Bool.or_true, Bool.and_true]
  have henter : ((Structured.enterLine line).outcome reading).2 =
      if reading.settings.tracing then reading.print ("[" ++ toString line ++ "]") else reading := rfl
  unfold beginStatement
  rw [htrace, henter]
  change _ = (ite (reading.settings.tracing = true) _ _ : Session).place _ _ _
  by_cases htracing : reading.settings.tracing = true
  · rw [if_pos htracing, if_pos (by exact htracing)]
    rfl
  · rw [if_neg htracing, if_neg (by exact htracing)]
    rfl

/-- What the steps of a session come to, given the outcome of a recursive reading: they visit the
statements that were read and end at a target, in the line that was traced last, or they meet the same
fault. -/
def Follows (session : Session) (target : Option Cursor) (traced : Option Nat) :
    Except Fault (List (Nat × Statement)) × Session → Prop
  | (.ok visited, final) => ∃ current, Visits session visited (final.place target current traced)
  | (.error fault, final) =>
      ∃ visited last cursor current traced, Visits session visited last ∧
        step.outcome last = (.error fault, final.place cursor current traced)

variable {session after reading : Session} {line : Nat} {path : List Nat} {next : Statement}
  {target : Option Cursor} {traced : Option Nat}

theorem Follows.cons {action : SessionAct (List (Nat × Statement))}
    (hcursor : session.cursor = some ⟨some line, path⟩)
    (hnext : session.program.statement? ⟨some line, path⟩ = some next)
    (hstep : step.outcome session = (.ok ⟨⟩, after))
    (h : Follows after target traced (action.outcome reading)) :
    Follows session target traced
      ((do return (line, next) :: (← action) : SessionAct _).outcome reading) := by
  rw [outcome_bind]
  revert h
  rcases action.outcome reading with ⟨fault | visited, final⟩
  · rintro ⟨visited, last, cursor, current, traced, hvisits, hlast⟩
    exact ⟨_, last, cursor, current, traced, .cons hcursor hnext hstep hvisits, hlast⟩
  · rintro ⟨current, hvisits⟩
    exact ⟨current, .cons hcursor hnext hstep hvisits⟩

theorem Follows.append {first second : SessionAct (List (Nat × Statement))} {middle : Option Cursor}
    {traced' : Option Nat} (h : Follows session middle traced (first.outcome reading))
    (hsecond : ∀ visited final current, first.outcome reading = (.ok visited, final) →
      Follows (final.place middle current traced) target traced' (second.outcome final)) :
    Follows session target traced'
      ((do return (← first) ++ (← second) : SessionAct _).outcome reading) := by
  rw [outcome_bind]
  revert h hsecond
  rcases first.outcome reading with ⟨fault | visited, final⟩
  · intro h _
    exact h
  · rintro ⟨current, hvisits⟩ hsecond
    have hrest := hsecond visited final current rfl
    dsimp only
    rw [outcome_bind]
    revert hrest
    rcases second.outcome final with ⟨fault | rest, final'⟩
    · rintro ⟨visited', last, cursor, current', traced, hvisits', hlast⟩
      exact ⟨_, last, cursor, current', traced, hvisits.append hvisits', hlast⟩
    · rintro ⟨current', hvisits'⟩
      exact ⟨current', hvisits.append hvisits'⟩

theorem StandsAt.program {cursor : Cursor} (h : StandsAt session cursor reading) :
    reading.program = session.program := by
  have hprogram := congrArg Session.program h.2
  rw [beginStatement_program] at hprogram
  exact hprogram.symm

theorem StandsAt.outcome_step (h : StandsAt session ⟨some line, path⟩ reading)
    (hnext : session.program.statement? ⟨some line, path⟩ = some next) :
    step.outcome session =
      (SessionAct.statement next).outcome
        (reading.place (session.program.advance? ⟨some line, path⟩) ⟨some line, path⟩ (some line)) := by
  rw [outcome_step_of_some h.1 hnext, h.2]

/-- A plain command is carried out where it stands. -/
theorem follows_command {c : Command} (hplain : c.isPlain = true)
    (hnext : session.program.statement? ⟨some line, path⟩ = some (.command c))
    (hstands : StandsAt session ⟨some line, path⟩ reading) :
    Follows session (session.program.advance? ⟨some line, path⟩) (some line)
      ((Structured.statement line (.command c)).outcome reading) := by
  have hstep := hstands.outcome_step hnext
  rw [SessionAct.statement, (local_command hplain).outcome_place] at hstep
  rw [Structured.statement, outcome_bind]
  revert hstep
  rcases (command c).outcome reading with ⟨fault | _, final⟩
  · intro hstep
    exact ⟨[], session, _, _, _, .nil session, hstep⟩
  · intro hstep
    exact ⟨_, .cons hstands.1 hnext hstep (.nil _)⟩

/-- The cursor after IF: at the start of the chosen branch, or after the IF where that is empty. -/
def afterChoice (line : Nat) (path : List Nat) (branch : Nat) (list : List Statement)
    (behind : Option Cursor) : Option Cursor :=
  if list.isEmpty then behind else some ⟨some line, path ++ [branch, 0]⟩

theorem outcome_choose (condition : Expr) (session : Session) :
    (choose condition).outcome session =
      match (Structured.test condition).outcome session with
      | (.error fault, after) => (.error fault, after)
      | (.ok holds, after) =>
          match after.program.enterBranch? after.current (if holds then 0 else 1) with
          | some cursor => (.ok ⟨⟩, { after with cursor := some cursor })
          | none => (.ok ⟨⟩, after) := by
  unfold choose Structured.test
  rw [outcome_bind, outcome_bind]
  rcases (eval condition).outcome session with ⟨fault | value, after⟩
  · rfl
  · dsimp only
    rw [outcome_bind, outcome_lift]
    cases value.isTrue with
    | error fault => rfl
    | ok holds =>
        dsimp only
        rw [outcome_bind, outcome_get]
        dsimp only
        cases after.program.enterBranch? after.current (if holds then 0 else 1) <;> rfl

/-- IF tests its condition and goes on in the branch that it selects. -/
theorem outcome_step_choice {condition : Expr} {thenList elseList : List Statement}
    (hnext : session.program.statement? ⟨some line, path⟩ =
      some (.choice condition thenList elseList))
    (hstands : StandsAt session ⟨some line, path⟩ reading) :
    step.outcome session =
      match (Structured.test condition).outcome reading with
      | (.error fault, final) =>
          (.error fault, final.place (session.program.advance? ⟨some line, path⟩)
            ⟨some line, path⟩ (some line))
      | (.ok holds, final) =>
          (.ok ⟨⟩, final.place (afterChoice line path (if holds then 0 else 1)
            (if holds then thenList else elseList) (session.program.advance? ⟨some line, path⟩))
            ⟨some line, path⟩ (some line)) := by
  have hprogram : ((Structured.test condition).outcome reading).2.program = session.program := by
    rw [((Structured.local_test condition).unchanged reading).1, hstands.program]
  rw [hstands.outcome_step hnext, SessionAct.statement, outcome_choose,
    (Structured.local_test condition).outcome_place]
  revert hprogram
  rcases (Structured.test condition).outcome reading with ⟨fault | holds, final⟩
  · intro _
    rfl
  · intro hprogram
    have henter : final.program.enterBranch? ⟨some line, path⟩ (if holds then 0 else 1) =
        if (if holds then thenList else elseList).isEmpty then none
        else some ⟨some line, path ++ [if holds then 0 else 1, 0]⟩ := by
      rw [hprogram]
      unfold Program.enterBranch?
      rw [hnext]
      cases holds <;> rfl
    dsimp only [place]
    rw [henter]
    unfold afterChoice
    by_cases hempty : (if holds then thenList else elseList).isEmpty = true
    · rw [if_pos hempty, if_pos hempty]
    · rw [if_neg hempty, if_neg hempty]

/-- IF is carried out by carrying out the branch that it selects. -/
theorem follows_choice {condition : Expr} {thenList elseList : List Statement}
    (hnext : session.program.statement? ⟨some line, path⟩ =
      some (.choice condition thenList elseList))
    (hstands : StandsAt session ⟨some line, path⟩ reading)
    (hbranch : ∀ (holds : Bool) (final : Session), final.program = session.program →
      (if holds then thenList else elseList) ≠ [] →
      Follows (final.place (some ⟨some line, path ++ [if holds then 0 else 1, 0]⟩)
          ⟨some line, path⟩ (some line)) (session.program.advance? ⟨some line, path⟩) (some line)
        ((Structured.block line (if holds then thenList else elseList)).outcome final)) :
    Follows session (session.program.advance? ⟨some line, path⟩) (some line)
      ((Structured.statement line (.choice condition thenList elseList)).outcome reading) := by
  have hstep := outcome_step_choice hnext hstands
  have hprogram : ((Structured.test condition).outcome reading).2.program = session.program := by
    rw [((Structured.local_test condition).unchanged reading).1, hstands.program]
  rw [Structured.statement, outcome_bind]
  revert hstep hprogram
  rcases (Structured.test condition).outcome reading with ⟨fault | holds, final⟩
  · intro hstep _
    exact ⟨[], session, _, _, _, .nil session, hstep⟩
  · intro hstep hprogram
    have hrest : Follows (final.place (afterChoice line path (if holds then 0 else 1)
          (if holds then thenList else elseList) (session.program.advance? ⟨some line, path⟩))
          ⟨some line, path⟩ (some line)) (session.program.advance? ⟨some line, path⟩) (some line)
        ((Structured.block line (if holds then thenList else elseList)).outcome final) := by
      unfold afterChoice
      by_cases hempty : (if holds then thenList else elseList) = []
      · rw [hempty]
        exact ⟨_, .nil _⟩
      · rw [if_neg (by rw [List.isEmpty_iff]; exact hempty)]
        exact hbranch holds final hprogram hempty
    cases holds <;> exact Follows.cons hstands.1 hnext hstep hrest

theorem statement?_of_listAt? {program : Program} {top list : List Statement}
    (htop : program.lines.get? line = some top) (hlist : listAt? top path = some list) (index : Nat) :
    program.statement? ⟨some line, path ++ [index]⟩ = list[index]? := by
  unfold Program.statement? Program.statementsOf?
  dsimp only
  rw [htop]
  exact statementAt?_of_listAt? hlist index

/-- A session that has carried out a branch goes on after its IF. -/
theorem follows_branch {program : Program} {index branch : Nat} {top chosen : List Statement}
    (htop : program.lines.get? line = some top)
    (hchosen : listAt? top (path ++ [index, branch]) = some chosen) (hne : chosen ≠ [])
    (hblock : ∀ session reading : Session, session.program.lines.get? line = some top →
      StandsAt session ⟨some line, path ++ [index, branch] ++ [0]⟩ reading →
      Follows session
        (session.program.advance? ⟨some line, path ++ [index, branch] ++ [chosen.length - 1]⟩)
        (some line)
        ((Structured.block line chosen).outcome reading))
    {final : Session} (hprogram : final.program = program) (current : Cursor) :
    Follows (final.place (some ⟨some line, path ++ [index] ++ [branch, 0]⟩) current (some line))
      (program.advance? ⟨some line, path ++ [index]⟩) (some line)
      ((Structured.block line chosen).outcome final) := by
  have hpath : path ++ [index] ++ [branch, 0] = path ++ [index, branch] ++ [0] := by simp
  have hpos : 0 < chosen.length := List.length_pos_iff.mpr hne
  have hend : program.statement? ⟨some line, path ++ [index, branch] ++ [chosen.length - 1 + 1]⟩ =
      none := by
    rw [statement?_of_listAt? htop hchosen, Nat.sub_add_cancel hpos]
    exact List.getElem?_eq_none (Nat.le_refl _)
  rw [hpath, ← Program.advance?_branch hend, ← hprogram]
  refine hblock _ final (by rw [← hprogram] at htop; exact htop) (standsAt_place final current ?_)
  intro hzero
  have hlength := congrArg List.length hzero
  simp at hlength

mutual

/-- A statement is carried out where it stands, and then the session goes on after it. -/
theorem follows_statement (next : Statement) (hplain : next.isPlain = true) {session reading : Session}
    {line index : Nat} {path : List Nat} {top list : List Statement}
    (htop : session.program.lines.get? line = some top) (hlist : listAt? top path = some list)
    (hindex : list[index]? = some next)
    (hstands : StandsAt session ⟨some line, path ++ [index]⟩ reading) :
    Follows session (session.program.advance? ⟨some line, path ++ [index]⟩) (some line)
      ((Structured.statement line next).outcome reading) := by
  have hnext : session.program.statement? ⟨some line, path ++ [index]⟩ = some next := by
    rw [statement?_of_listAt? htop hlist, hindex]
  cases next with
  | command c => exact follows_command hplain hnext hstands
  | choice condition thenList elseList =>
      rw [Statement.isPlain, Bool.and_eq_true] at hplain
      refine follows_choice hnext hstands fun holds final hprogram hne => ?_
      cases holds with
      | true =>
          have hchosen := listAt?_branch hlist hindex 0
          refine follows_branch htop hchosen hne (fun _ _ htop' hstands' => ?_) hprogram _
          exact follows_block thenList hplain.1 htop' hchosen (List.nil_append _).symm hne hstands'
      | false =>
          have hchosen := listAt?_branch hlist hindex 1
          refine follows_branch htop hchosen hne (fun _ _ htop' hstands' => ?_) hprogram _
          exact follows_block elseList hplain.2 htop' hchosen (List.nil_append _).symm hne hstands'

/-- The statements that are left of a list are carried out one after the other, and then the session
leaves the list after its last statement. -/
theorem follows_block (rest : List Statement) (hplain : Statement.allPlain rest = true)
    {session reading : Session} {line : Nat} {path : List Nat} {top list before : List Statement}
    (htop : session.program.lines.get? line = some top) (hlist : listAt? top path = some list)
    (hsplit : list = before ++ rest) (hrest : rest ≠ [])
    (hstands : StandsAt session ⟨some line, path ++ [before.length]⟩ reading) :
    Follows session (session.program.advance? ⟨some line, path ++ [list.length - 1]⟩) (some line)
      ((Structured.block line rest).outcome reading) := by
  cases rest with
  | nil => exact absurd rfl hrest
  | cons first rest =>
      rw [Statement.allPlain, Bool.and_eq_true] at hplain
      have hindex : list[before.length]? = some first := by
        rw [hsplit, List.getElem?_append_right (Nat.le_refl _), Nat.sub_self]
        rfl
      have hfirst := follows_statement first hplain.1 htop hlist hindex hstands
      rw [Structured.block]
      refine Follows.append hfirst fun visited final current houtcome => ?_
      have hprogram : final.program = session.program := by
        have hunchanged := ((Structured.local_statement line first hplain.1).unchanged reading).1
        rw [houtcome, hstands.program] at hunchanged
        exact hunchanged
      cases rest with
      | nil =>
          have hlength : list.length - 1 = before.length := by
            rw [hsplit, List.length_append, List.length_singleton, Nat.add_sub_cancel]
          rw [hlength]
          exact ⟨current, .nil _⟩
      | cons second rest =>
          have hsplit' : list = (before ++ [first]) ++ second :: rest := by
            rw [hsplit, List.append_assoc, List.singleton_append]
          have hlength : (before ++ [first]).length = before.length + 1 := List.length_append
          have hsome : (session.program.statement?
              ⟨some line, path ++ [before.length + 1]⟩).isSome := by
            rw [statement?_of_listAt? htop hlist, hsplit', ← hlength,
              List.getElem?_append_right (Nat.le_refl _), Nat.sub_self]
            rfl
          rw [Program.advance?_of_isSome hsome, ← hprogram]
          refine follows_block (second :: rest) hplain.2 (by rw [← hprogram] at htop; exact htop)
            hlist hsplit' (List.cons_ne_nil _ _) ?_
          rw [hlength]
          refine standsAt_place final current fun hzero => ?_
          have hlast := congrArg List.getLast? hzero
          simp at hlast

end

/-- The start of the first of some lines. -/
def firstOf (entries : List (Nat × List Statement)) : Option Cursor :=
  entries.head?.map fun entry => .start (some entry.1)

/-- The line that was traced last, once some lines were carried out. -/
def lastOf (traced : Option Nat) : List (Nat × List Statement) → Option Nat
  | [] => traced
  | entry :: rest => lastOf (some entry.1) rest

/-- A line is carried out from its start, and then the session goes on in the following line. -/
theorem follows_line {program : Program} {line : Nat} {statements : List Statement}
    {lower upper : List (Nat × List Statement)}
    (hsplit : program.lines.entries = lower ++ (line, statements) :: upper) (hne : statements ≠ [])
    (hplain : Statement.allPlain statements = true) {reading : Session}
    (hprogram : reading.program = program) (current : Cursor) (traced : Option Nat) :
    Follows (reading.place (some (.start (some line))) current traced) (firstOf upper) (some line)
      ((Structured.block line statements).outcome
        ((Structured.enterLine line).outcome reading).2) := by
  subst hprogram
  have htop : reading.program.lines.get? line = some statements := Numbered.get?_of_split hsplit
  have hlist : listAt? statements [] = some statements := rfl
  have hpos : 0 < statements.length := List.length_pos_iff.mpr hne
  have hend : reading.program.statement? ⟨some line, [statements.length - 1 + 1]⟩ = none := by
    rw [Nat.sub_add_cancel hpos]
    exact (statement?_of_listAt? htop hlist _).trans (List.getElem?_eq_none (Nat.le_refl _))
  have hadvance : reading.program.advance? ⟨some line, [statements.length - 1]⟩ = firstOf upper := by
    rw [Program.advance?_line hend, Numbered.after?_of_split hsplit, firstOf, Option.map_map]
    rfl
  have hplaced : (reading.place (some (.start (some line))) current traced).program.lines.get? line =
      some statements := htop
  have hstands : StandsAt (reading.place (some (.start (some line))) current traced)
      ⟨some line, [] ++ [([] : List Statement).length]⟩
      ((Structured.enterLine line).outcome reading).2 :=
    standsAt_start reading line current traced
  rw [← hadvance]
  exact follows_block statements hplain hplaced hlist (List.nil_append _).symm hne hstands

/-- The lines that are left of a program are carried out one after the other. -/
theorem follows_lines {program : Program}
    (hne : ∀ entry ∈ program.lines.entries, entry.2 ≠ [])
    (hplain : ∀ entry ∈ program.lines.entries, Statement.allPlain entry.2 = true)
    {lower upper : List (Nat × List Statement)} (hsplit : program.lines.entries = lower ++ upper)
    {reading : Session} (hprogram : reading.program = program) (current : Cursor)
    (traced : Option Nat) :
    Follows (reading.place (firstOf upper) current traced) none (lastOf traced upper)
      ((Structured.lines upper).outcome reading) := by
  induction upper generalizing lower reading current traced with
  | nil => exact ⟨current, .nil _⟩
  | cons entry rest ih =>
      obtain ⟨line, statements⟩ := entry
      have hmem : (line, statements) ∈ program.lines.entries := by
        rw [hsplit]
        exact List.mem_append_right _ List.mem_cons_self
      have hline := follows_line hsplit (hne _ hmem) (hplain _ hmem) hprogram current traced
      have hentered : ((Structured.enterLine line).outcome reading).2.program = program := by
        rw [((Structured.local_enterLine line).unchanged reading).1, hprogram]
      rw [Structured.lines, outcome_bind]
      refine hline.append fun visited final current' houtcome => ?_
      have hfinal : final.program = program := by
        have hlocal := Structured.local_block line statements (hplain _ hmem)
        have hunchanged := (hlocal.unchanged ((Structured.enterLine line).outcome reading).2).1
        rw [houtcome, hentered] at hunchanged
        exact hunchanged
      have hsplit' : program.lines.entries = (lower ++ [(line, statements)]) ++ rest := by
        rw [hsplit, List.append_assoc, List.singleton_append]
      exact ih hsplit' hfinal current' (some line)

/-- The direct line that runs the program. -/
def runLine : Line := ⟨none, [.command (.run none)]⟩

/-- RUN clears the session and goes to the start of the first line. -/
theorem outcome_step_run (session : Session) :
    step.outcome (session.startDirect runLine) =
      (.ok ⟨⟩, (session.startDirect runLine).clear.place (firstOf session.program.lines.entries)
        (.start none) none) := by
  have hfirst : (session.startDirect runLine).program.firstCursor? =
      firstOf session.program.lines.entries := by
    change ((session.program.lines.entries.head?.map (·.1)).map fun number =>
      Cursor.start (some number)) = _
    rw [Option.map_map]
    rfl
  rw [← hfirst]
  rfl

/-- **A session carries out a program of plain statements as its recursive reading does.** RUN,
followed by steps, visits the statements that the recursive reading visits, in the same order. If
that meets no fault, one more step ends the run: the session is idle, with the variables and the
output of the recursive reading. If it does, a step meets the same fault. -/
theorem run_follows_lines (session : Session) (hstored : session.program.Stored)
    (hplain : ∀ entry ∈ session.program.lines.entries, Statement.allPlain entry.2 = true) :
    ∃ started, step.outcome (session.startDirect runLine) = (.ok ⟨⟩, started) ∧
      match (Structured.lines session.program.lines.entries).outcome
        (session.startDirect runLine).clear with
      | (.ok visited, final) =>
          ∃ last current, Visits started visited last ∧ last.nextStatement? = none ∧
            step.outcome last = (.ok ⟨⟩, { final.halt .idle with current })
      | (.error fault, final) =>
          ∃ visited last cursor current traced, Visits started visited last ∧
            step.outcome last = (.error fault, final.place cursor current traced) := by
  let asked := session.startDirect runLine
  refine ⟨_, outcome_step_run session, ?_⟩
  have hne : ∀ entry ∈ asked.program.lines.entries, entry.2 ≠ [] := hstored.ne_nil
  have hsplit : asked.program.lines.entries = [] ++ session.program.lines.entries := rfl
  have hprogram : asked.clear.program = asked.program := rfl
  have hfollows : Follows
      (asked.clear.place (firstOf session.program.lines.entries) (.start none) none) none
      (lastOf none session.program.lines.entries)
      ((Structured.lines session.program.lines.entries).outcome asked.clear) :=
    follows_lines hne hplain hsplit hprogram _ _
  have hstate : ((Structured.lines session.program.lines.entries).outcome asked.clear).2.state =
      .running :=
    ((Structured.local_lines hplain).unchanged asked.clear).2
  revert hfollows hstate
  rcases (Structured.lines session.program.lines.entries).outcome asked.clear with
    ⟨fault | visited, final⟩
  · intro hfollows _
    exact hfollows
  · rintro ⟨current, hvisits⟩ hstate
    refine ⟨_, current, hvisits, rfl, ?_⟩
    rw [outcome_step_of_none rfl]
    unfold endOfProgram
    rw [outcome_bind, outcome_get]
    dsimp only
    rw [if_neg]
    · rfl
    · intro htrapped
      change final.state = .trapped at htrapped
      rw [hstate] at htrapped
      cases htrapped

/-- A program in which the first IF chooses its other branch and the second IF is the last statement
of the branch that is chosen around it. -/
def branching : Program :=
  (Program.empty.insert ⟨some 20, [.command (.print [.expr (.text "B")])]⟩).insert
    ⟨some 10, [
      .choice (.int 0) [.command (.print [])] [
        .choice (.int 1) [.command (.print [.expr (.text "A"), .semicolon])] []],
      .command (.remark "")]⟩

theorem run_follows_lines_branching :
    ∃ started last ended,
      step.outcome ({ program := branching : Session }.startDirect runLine) = (.ok ⟨⟩, started) ∧
      Visits started [
        (10, .choice (.int 0) [.command (.print [])] [
          .choice (.int 1) [.command (.print [.expr (.text "A"), .semicolon])] []]),
        (10, .choice (.int 1) [.command (.print [.expr (.text "A"), .semicolon])] []),
        (10, .command (.print [.expr (.text "A"), .semicolon])),
        (10, .command (.remark "")),
        (20, .command (.print [.expr (.text "B")]))] last ∧
      step.outcome last = (.ok ⟨⟩, ended) ∧ ended.state = .idle ∧ ended.events = [.print "AB\n"] := by
  have hstored : branching.Stored := .insert _ (.insert _ (.empty false))
  obtain ⟨started, hstarted, hrun⟩ :=
    run_follows_lines { program := branching } hstored (by decide)
  obtain ⟨last, current, hvisits, -, hended⟩ := hrun
  exact ⟨started, last, _, hstarted, hvisits, hended, rfl, rfl⟩

end Session

end LineBasic
