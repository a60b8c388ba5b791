import LineBasic.Proofs.DirectLines
import LineBasic.Proofs.Legibility

/-! What a stored program can rely on. Whatever tokens a line is read from, its number is in range and
every IF in it has a statement after THEN. Storing, deleting, merging and clearing keep this, so that a
cursor at the start of a stored line, or of a THEN branch, is at a statement, and LIST shows every line. -/

namespace LineBasic

namespace Statement

mutual

/-- Every IF, at any depth, has a statement after THEN. -/
def Whole : Statement → Prop
  | command _ => True
  | choice _ thenList elseList => thenList ≠ [] ∧ WholeAll thenList ∧ WholeAll elseList

/-- Every IF in the statements, at any depth, has a statement after THEN. -/
def WholeAll : List Statement → Prop
  | [] => True
  | statement :: rest => statement.Whole ∧ WholeAll rest

end

theorem WholeAll.of_mem {list : List Statement} (h : WholeAll list) {s : Statement} (hs : s ∈ list) : s.Whole := by
  induction list with
  | nil => cases hs
  | cons first rest ih =>
      rw [WholeAll] at h
      rcases List.mem_cons.mp hs with rfl | hs
      · exact h.1
      · exact ih h.2 hs

end Statement

section Paths

variable {list : List Statement} {path : List Nat} {s : Statement}

/-- Statements that stand in whole ones are whole. -/
theorem whole_of_statementAt? (h : Statement.WholeAll list) (hs : statementAt? list path = some s) : s.Whole := by
  induction list, path using statementAt?.induct with
  | case1 list index => exact h.of_mem (List.mem_of_getElem? hs)
  | case2 list index branch rest condition thenList elseList hchoice ih =>
      rw [statementAt?, hchoice] at hs
      have hwhole := h.of_mem (List.mem_of_getElem? hchoice)
      rw [Statement.Whole] at hwhole
      refine ih ?_ hs
      split
      · exact hwhole.2.1
      · exact hwhole.2.2
  | case3 list index branch rest hother =>
      rw [statementAt?] at hs
      split at hs
      · exact absurd ‹_› (hother _ _ _)
      · cases hs
  | case4 list =>
      rw [statementAt?] at hs
      cases hs

/-- Below an IF a path goes on into one of its branches. -/
theorem statementAt?_branch {thenList elseList : List Statement} {condition : Expr}
    (h : statementAt? list path = some (.choice condition thenList elseList)) (branch index : Nat) :
    statementAt? list (path ++ [branch, index]) = (if branch = 0 then thenList else elseList)[index]? := by
  induction list, path using statementAt?.induct with
  | case1 list outer =>
      rw [statementAt?] at h
      rw [List.cons_append, List.nil_append, statementAt?, h]
      rfl
  | case2 list outer inner rest _ _ _ hchoice ih =>
      rw [statementAt?, hchoice] at h
      rw [List.cons_append, List.cons_append, statementAt?, hchoice]
      exact ih h
  | case3 list outer inner rest hother =>
      rw [statementAt?] at h
      split at h
      · exact absurd ‹_› (hother _ _ _)
      · cases h
  | case4 list =>
      rw [statementAt?] at h
      cases h

end Paths

namespace Reader

section Finds

variable {α β : Type} {reader other : Reader α} {next : α → Reader β} {found : α → Prop} {last : β → Prop}

/-- Whatever the tokens are, what a reader gives has a property. -/
def Finds (reader : Reader α) (found : α → Prop) : Prop :=
  Yields (fun _ => True) reader fun value _ => found value

theorem finds_any (reader : Reader α) : Finds reader fun _ => True := fun _ _ _ _ _ => trivial

theorem Finds.bind (h : Finds reader found) (hnext : ∀ value, found value → Finds (next value) last) :
    Finds (reader >>= next) last :=
  Yields.bind h fun value _ _ _ hvalue hread => hnext value hvalue trivial hread

/-- What a reader that goes on gives does not depend on what it read before. -/
theorem finds_after (reader : Reader α) (hnext : ∀ value, Finds (next value) last) : Finds (reader >>= next) last :=
  (finds_any reader).bind fun value _ => hnext value

theorem finds_pure {value : α} (h : found value) : Finds (pure value) found := yields_pure fun _ _ => h

theorem finds_ite {p : Prop} [Decidable p] (h : Finds reader found) (hother : Finds other found) :
    Finds (if p then reader else other) found :=
  Yields.ite (fun _ => h) fun _ => hother

end Finds

/-- The readers of statements with a budget give whole ones. -/
structure WholeFound (budget : Nat) : Prop where
  statement : Finds (statementWithin budget) Statement.Whole
  choice : Finds (choice budget) Statement.Whole
  branch : Finds (branch budget) fun list => list ≠ [] ∧ Statement.WholeAll list
  statements : Finds (branchStatements budget) Statement.WholeAll

section Whole

variable {budget : Nat}

theorem whole_command (c : Command) : (Statement.command c).Whole := by
  rw [Statement.Whole]
  trivial

theorem wholeAll_goto (line : Nat) : Statement.WholeAll [.command (.goto line)] := by
  rw [Statement.WholeAll, Statement.WholeAll]
  exact ⟨whole_command _, trivial⟩

theorem finds_statementWithin (h : WholeFound budget) : Finds (statementWithin (budget + 1)) Statement.Whole := by
  rw [statementWithin]
  refine finds_after _ fun kind => finds_ite ?_ ?_
  · exact finds_after _ fun c => finds_pure (whole_command c)
  · refine finds_after _ fun token => finds_ite h.choice ?_
    exact finds_after _ fun c => finds_pure (whole_command c)

theorem finds_choiceElse (h : WholeFound budget) (condition : Expr) {thenList : List Statement}
    (hne : thenList ≠ []) (hwhole : Statement.WholeAll thenList) :
    Finds (choiceElse budget condition thenList) Statement.Whole := by
  have hbranches : Finds (accept (.keyword .ELSE) >>= fun hasElse =>
      if hasElse then branch budget >>= fun elseList => pure (.choice condition thenList elseList)
      else pure (.choice condition thenList [])) Statement.Whole := by
    refine finds_after _ fun hasElse => finds_ite ?_ (finds_pure ?_)
    · refine h.branch.bind fun elseList helse => finds_pure ?_
      rw [Statement.Whole]
      exact ⟨hne, hwhole, helse.2⟩
    · rw [Statement.Whole, Statement.WholeAll]
      exact ⟨hne, hwhole, trivial⟩
  intro tokens s rest _ hread
  rw [choiceElse_eq] at hread
  exact hbranches trivial hread

theorem finds_choice (h : WholeFound budget) : Finds (choice (budget + 1)) Statement.Whole := by
  rw [choice]
  refine finds_after _ fun condition => finds_after _ fun token => ?_
  obtain ⟨kind, literal⟩ := token
  dsimp only
  split
  · exact h.branch.bind fun thenList hthen => finds_choiceElse h condition hthen.1 hthen.2
  · have hgoto : Finds ((fun line => [Statement.command (.goto line)]) <$> lineRef)
        fun list => ∃ line, list = [Statement.command (.goto line)] :=
      Yields.map (finds_any lineRef) fun line _ _ => ⟨line, rfl⟩
    refine hgoto.bind ?_
    rintro _ ⟨line, rfl⟩
    exact finds_choiceElse h condition (by simp) (wholeAll_goto line)
  · exact yields_throw _

theorem finds_branch (h : WholeFound budget) :
    Finds (branch (budget + 1)) fun list => list ≠ [] ∧ Statement.WholeAll list := by
  rw [branch]
  refine finds_after _ fun kind => finds_ite ?_ ?_
  · exact finds_after _ fun line => finds_pure ⟨by simp, wholeAll_goto line⟩
  · refine h.statements.bind fun list hlist => ?_
    cases list with
    | nil => exact yields_refuse _
    | cons first rest => exact finds_pure ⟨by simp, hlist⟩

theorem finds_branchStatements (h : WholeFound budget) :
    Finds (branchStatements (budget + 1)) Statement.WholeAll := by
  have hnil : Statement.WholeAll [] := by
    rw [Statement.WholeAll]
    trivial
  rw [branchStatements]
  refine finds_after _ fun kind => ?_
  split
  · exact finds_pure hnil
  · exact finds_pure hnil
  · exact finds_pure hnil
  · refine finds_after _ fun second => finds_ite (finds_pure hnil) ?_
    exact finds_after _ fun _ => h.statements
  · refine h.statement.bind fun first hfirst => finds_after _ fun ended => finds_ite ?_ (yields_refuse _)
    refine h.statements.bind fun others hothers => finds_pure ?_
    rw [Statement.WholeAll]
    exact ⟨hfirst, hothers⟩

theorem wholeFound (budget : Nat) : WholeFound budget := by
  induction budget with
  | zero =>
      refine ⟨?_, ?_, ?_, ?_⟩
      · rw [statementWithin]
        exact yields_exhausted
      · rw [choice]
        exact yields_exhausted
      · rw [branch]
        exact yields_exhausted
      · rw [branchStatements]
        exact yields_exhausted
  | succ fuel ih =>
      exact ⟨finds_statementWithin ih, finds_choice ih, finds_branch ih, finds_branchStatements ih⟩

/-- **The statements of a line are whole.** -/
theorem finds_statements (budget : Nat) : Finds (statements budget) Statement.WholeAll := by
  have hnil : Statement.WholeAll [] := by
    rw [Statement.WholeAll]
    trivial
  induction budget with
  | zero => exact yields_exhausted
  | succ fuel ih =>
      rw [statements]
      refine finds_after _ fun kind => ?_
      split
      · exact finds_pure hnil
      · exact finds_pure hnil
      · exact finds_after _ fun _ => ih
      · have hstatement : Finds statement Statement.Whole :=
          yields_sized fun _ => (wholeFound _).statement
        refine hstatement.bind fun first hfirst => finds_after _ fun after => finds_ite ?_ (yields_refuse _)
        refine ih.bind fun others hothers => finds_pure ?_
        rw [Statement.WholeAll]
        exact ⟨hfirst, hothers⟩

end Whole

end Reader

/-- The lines that are read from tokens, whatever tokens they are. -/
def Line.IsRead (line : Line) : Prop := ∃ tokens, line ∈ (Parsed.ofTokens tokens).lines

/-- A line that is read has a number in range and whole statements. -/
structure Line.Sound (line : Line) : Prop where
  number_le : ∀ number ∈ line.number, number ≤ maxNumber
  whole : Statement.WholeAll line.statements

theorem Line.number_le_of_splitNumber {tokens body : List Token} {number : Option Nat}
    (h : splitNumber tokens = .ok (number, body)) : ∀ n ∈ number, n ≤ maxNumber := by
  cases tokens with
  | nil =>
      cases h
      nofun
  | cons token rest =>
      rw [splitNumber] at h
      split at h
      · cases hliteral : Literal.lineNumber token.literal with
        | error fault =>
            rw [hliteral] at h
            cases h
        | ok value =>
            rw [hliteral] at h
            cases h
            intro n hn
            cases hn
            exact Reader.lineNumber_le hliteral
      · cases h
        nofun

theorem Line.sound_of_ofTokens? {tokens : List Token} {line : Line} (h : ofTokens? tokens = .ok (some line)) :
    line.Sound := by
  cases hsplit : splitNumber tokens with
  | error fault =>
      rw [ofTokens?_of_splitNumber_error hsplit] at h
      cases h
  | ok found =>
      obtain ⟨number, body⟩ := found
      rw [ofTokens?_of_splitNumber hsplit] at h
      split at h
      · rename_i statements rest hstatements
        split at h
        · cases h
        · cases h
          exact ⟨number_le_of_splitNumber hsplit, Reader.finds_statements _ trivial hstatements⟩
      · cases h

theorem Parsed.exists_of_mem_ofLines {lines : List (List Token)} {line : Line} (h : line ∈ (ofLines lines).lines) :
    ∃ tokens ∈ lines, Line.ofTokens? tokens = .ok (some line) := by
  induction lines with
  | nil => cases h
  | cons tokens others ih =>
      have hothers : line ∈ (ofLines others).lines →
          ∃ found ∈ tokens :: others, Line.ofTokens? found = .ok (some line) := fun hline =>
        (ih hline).imp fun _ hfound => ⟨List.mem_cons_of_mem tokens hfound.1, hfound.2⟩
      rw [ofLines_cons] at h
      cases hread : Line.ofTokens? tokens with
      | error fault =>
          rw [hread] at h
          exact hothers h
      | ok found =>
          rw [hread] at h
          cases found with
          | none => exact hothers h
          | some first =>
              rcases List.mem_cons.mp h with rfl | h
              · exact ⟨tokens, List.mem_cons_self, hread⟩
              · exact hothers h

/-- **A line that is read from any tokens is sound.** -/
theorem Line.IsRead.sound {line : Line} (h : line.IsRead) : line.Sound := by
  obtain ⟨tokens, hline⟩ := h
  rw [Parsed.ofTokens_eq] at hline
  obtain ⟨found, -, hread⟩ := Parsed.exists_of_mem_ofLines hline
  exact sound_of_ofTokens? hread

theorem Numbered.mem_merge {β : Type} {numbered other : Numbered β} {entry : Nat × β}
    (h : entry ∈ (numbered.merge other).entries) : entry ∈ numbered.entries ∨ entry ∈ other.entries := by
  unfold merge at h
  generalize other.entries = added at h
  induction added generalizing numbered with
  | nil => exact .inl h
  | cons first rest ih =>
      rcases ih h with hplaced | hrest
      · rcases mem_place hplaced with rfl | hthere
        · exact .inr List.mem_cons_self
        · exact .inl hthere
      · exact .inr (List.mem_cons_of_mem first hrest)

namespace Program

/-- The programs that come about by typing lines, reading files of any form, merging and clearing. -/
inductive Built : Program → Prop
  | empty : Built .empty
  | insert {program : Program} {line : Line} (h : Built program) (hline : line.IsRead) : Built (program.insert line)
  | ofBytes (bytes : List UInt8) : Built (ofBytes bytes).1
  | merge {program other : Program} (h : Built program) (hother : Built other) : Built (program.merge other)

/-- A program in which every line has a number in range and a statement, and every IF a statement after
THEN. -/
structure WellFormed (program : Program) : Prop where
  number_le : ∀ entry ∈ program.lines.entries, entry.1 ≤ Line.maxNumber
  nonempty : ∀ entry ∈ program.lines.entries, entry.2 ≠ []
  whole : ∀ entry ∈ program.lines.entries, Statement.WholeAll entry.2
  direct : Statement.WholeAll program.direct

theorem wellFormed_of_lines_nil (guarded : Bool) : WellFormed { guarded } where
  number_le := nofun
  nonempty := nofun
  whole := nofun
  direct := by
    rw [Statement.WholeAll]
    trivial

theorem WellFormed.insert {program : Program} (h : program.WellFormed) {line : Line} (hline : line.Sound) :
    (program.insert line).WellFormed := by
  unfold Program.insert
  split
  · exact ⟨h.number_le, h.nonempty, h.whole, hline.whole⟩
  · rename_i number hnumber
    split
    · have hkept : ∀ entry ∈ (program.lines.erase number).entries, entry ∈ program.lines.entries :=
        fun entry hentry => (List.mem_filter.mp hentry).1
      exact ⟨fun entry hentry => h.number_le entry (hkept entry hentry),
        fun entry hentry => h.nonempty entry (hkept entry hentry),
        fun entry hentry => h.whole entry (hkept entry hentry), h.direct⟩
    · rename_i hsome
      have hplaced : ∀ entry ∈ (program.lines.insert number line.statements).entries,
          entry = (number, line.statements) ∨ entry ∈ program.lines.entries :=
        fun entry hentry => Numbered.mem_place hentry
      refine ⟨fun entry hentry => ?_, fun entry hentry => ?_, fun entry hentry => ?_, h.direct⟩
      · rcases hplaced entry hentry with rfl | hentry
        · exact hline.number_le number hnumber
        · exact h.number_le entry hentry
      · rcases hplaced entry hentry with rfl | hentry
        · exact fun hnil => hsome (List.isEmpty_iff.mpr hnil)
        · exact h.nonempty entry hentry
      · rcases hplaced entry hentry with rfl | hentry
        · exact hline.whole
        · exact h.whole entry hentry

theorem WellFormed.insertAll {lines : List Line} (hlines : ∀ line ∈ lines, line.Sound) {program : Program}
    (h : program.WellFormed) : (lines.foldl Program.insert program).WellFormed := by
  induction lines generalizing program with
  | nil => exact h
  | cons line rest ih =>
      obtain ⟨hline, hrest⟩ := List.forall_mem_cons.mp hlines
      exact ih hrest (h.insert hline)

theorem wellFormed_ofBytes (bytes : List UInt8) : (ofBytes bytes).1.WellFormed := by
  refine WellFormed.insertAll (fun line hline => ?_) (wellFormed_of_lines_nil _)
  exact Line.IsRead.sound ⟨_, (List.mem_filter.mp hline).1⟩

theorem WellFormed.merge {program other : Program} (h : program.WellFormed) (hother : other.WellFormed) :
    (program.merge other).WellFormed where
  number_le entry hentry := (Numbered.mem_merge hentry).elim (h.number_le entry) (hother.number_le entry)
  nonempty entry hentry := (Numbered.mem_merge hentry).elim (h.nonempty entry) (hother.nonempty entry)
  whole entry hentry := (Numbered.mem_merge hentry).elim (h.whole entry) (hother.whole entry)
  direct := h.direct

theorem Built.wellFormed {program : Program} (h : program.Built) : program.WellFormed := by
  induction h with
  | empty => exact wellFormed_of_lines_nil false
  | insert _ hline ih => exact ih.insert hline.sound
  | ofBytes bytes => exact wellFormed_ofBytes bytes
  | merge _ _ ih ihOther => exact ih.merge ihOther

section Cursors

variable {program : Program}

theorem start_eq_ok_iff {number : Nat} {cursor : Cursor} :
    program.start number = .ok cursor ↔
      (∃ statements, (number, statements) ∈ program.lines.entries) ∧ cursor = .start (some number) := by
  rw [← Numbered.contains_iff, start]
  split
  · rename_i hthere
    constructor
    · intro h
      cases h
      exact ⟨hthere, rfl⟩
    · rintro ⟨-, rfl⟩
      rfl
  · rename_i hmissing
    exact ⟨nofun, fun h => absurd h.1 hmissing⟩

/-- At the start of a stored line there is a statement. -/
theorem WellFormed.statement?_start (h : program.WellFormed) {number : Nat} {cursor : Cursor}
    (hstart : program.start number = .ok cursor) : ∃ s, program.statement? cursor = some s := by
  obtain ⟨⟨statements, hentry⟩, rfl⟩ := start_eq_ok_iff.mp hstart
  obtain ⟨first, rest, rfl⟩ := List.exists_cons_of_ne_nil (h.nonempty _ hentry)
  refine ⟨first, Option.bind_eq_some_iff.mpr ⟨first :: rest, Numbered.mem_entries_iff.mp hentry, rfl⟩⟩

theorem WellFormed.wholeAll (h : program.WellFormed) {line : Option Nat} {list : List Statement}
    (hlist : program.statementsOf? line = some list) : Statement.WholeAll list := by
  cases line with
  | none =>
      cases hlist
      exact h.direct
  | some number => exact h.whole _ (Numbered.mem_entries_iff.mpr hlist)

/-- THEN can be entered at every IF, and there is a statement. -/
theorem WellFormed.enterBranch?_then (h : program.WellFormed) {cursor : Cursor} {condition : Expr}
    {thenList elseList : List Statement}
    (hif : program.statement? cursor = some (.choice condition thenList elseList)) :
    ∃ inner s, program.enterBranch? cursor 0 = some inner ∧ program.statement? inner = some s := by
  obtain ⟨list, hlist, hat⟩ := Option.bind_eq_some_iff.mp hif
  have hwhole := whole_of_statementAt? (h.wholeAll hlist) hat
  rw [Statement.Whole] at hwhole
  obtain ⟨first, rest, rfl⟩ := List.exists_cons_of_ne_nil hwhole.1
  refine ⟨⟨cursor.line, cursor.path ++ [0, 0]⟩, first, ?_, ?_⟩
  · rw [enterBranch?, hif]
    rfl
  · exact Option.bind_eq_some_iff.mpr ⟨list, hlist, statementAt?_branch hat 0 0⟩

/-- The listing of a line with its line feed. -/
def lineText (entry : Nat × List Statement) : String := Line.listing ⟨some entry.1, entry.2⟩ ++ "\n"

/-- LIST without bounds shows all lines of a program that is not guarded, and nothing of one that is. -/
theorem WellFormed.list_all (h : program.WellFormed) :
    program.list none none =
      if program.guarded then .error (.of .illegalFunctionCall)
      else .ok (String.join (program.lines.entries.map lineText)) := by
  have hall : (program.lines.entries.filter fun entry =>
      (none : Option Nat).getD 0 ≤ entry.1 && entry.1 ≤ (none : Option Nat).getD Line.maxNumber) =
        program.lines.entries := by
    rw [List.filter_eq_self]
    intro entry hentry
    simpa using h.number_le entry hentry
  have hjoin : ∀ entries : List (Nat × List Statement),
      entries.foldr (fun entry text => (Line.listing ⟨some entry.1, entry.2⟩) ++ "\n" ++ text) "" =
        String.join (entries.map lineText) := by
    intro entries
    induction entries with
    | nil => rfl
    | cons first rest ih => rw [List.foldr_cons, ih, List.map_cons, String.join_cons, lineText]
  unfold list
  rw [hall]
  dsimp only
  rw [hjoin]
  rfl

end Cursors

end Program

namespace Session

variable {session after : Session}

/-- Properties of programs and of lines that hold of whatever comes about by typing lines, reading files of
any form, merging and clearing. -/
structure Supplies (keeps : Program → Prop) (reads : Line → Prop) : Prop where
  empty : keeps .empty
  insert : ∀ {program line}, keeps program → reads line → keeps (program.insert line)
  ofBytes : ∀ bytes, keeps (Program.ofBytes bytes).1
  merge : ∀ {program other}, keeps program → keeps other → keeps (program.merge other)
  typed : ∀ {text line}, line ∈ (Parsed.ofTokens (Token.lex text)).lines → reads line

theorem supplies_built : Supplies Program.Built Line.IsRead where
  empty := .empty
  insert := .insert
  ofBytes := .ofBytes
  merge := .merge
  typed hline := ⟨_, hline⟩

/-- The program and the lines that wait have the properties. -/
structure Furnished (keeps : Program → Prop) (reads : Line → Prop) (session : Session) : Prop where
  program : keeps session.program
  waiting : ∀ line ∈ session.waiting, reads line

theorem waiting_interrupt (session : Session) : session.interrupt.waiting = [] := by
  unfold interrupt breakOff
  dsimp only
  split
  · split <;> rfl
  · rfl

section Furnished

variable {keeps : Program → Prop} {reads : Line → Prop}

theorem Furnished.of_program (h : session.Furnished keeps reads) (hprogram : keeps after.program)
    (hwaiting : ∀ line ∈ after.waiting, line ∈ session.waiting) : after.Furnished keeps reads :=
  ⟨hprogram, fun line hline => h.waiting line (hwaiting line hline)⟩

theorem Furnished.takeLine (hsupplies : Supplies keeps reads) (h : session.Furnished keeps reads) {line : Line}
    (hline : reads line) : (session.takeLine line).Furnished keeps reads := by
  unfold Session.takeLine
  split
  · split
    · exact h
    · split
      · refine ⟨h.program, fun other hother => ?_⟩
        rcases List.mem_append.mp hother with hother | hother
        · exact h.waiting other hother
        · rw [List.mem_singleton.mp hother]
          exact hline
      · exact ⟨hsupplies.insert h.program hline, h.waiting⟩
  · exact ⟨hsupplies.insert h.program hline, h.waiting⟩

theorem Supplies.reads_of_mem_taken (hsupplies : Supplies keeps reads) {text : String} {line : Line}
    (h : line ∈ session.taken text) : reads line := by
  unfold taken at h
  split at h
  · cases h
  · dsimp only at h
    split at h
    · exact hsupplies.typed h
    · cases h

theorem Furnished.enter (hsupplies : Supplies keeps reads) (h : session.Furnished keeps reads) (text : String) :
    (session.enter text).2.Furnished keeps reads := by
  have hlines : ∀ (lines : List Line) (before : Session), before.Furnished keeps reads →
      (∀ line ∈ lines, reads line) → (lines.foldl Session.takeLine before).Furnished keeps reads := by
    intro lines
    induction lines with
    | nil => exact fun _ hbefore _ => hbefore
    | cons line rest ih =>
        intro before hbefore hread
        obtain ⟨hline, hrest⟩ := List.forall_mem_cons.mp hread
        exact ih _ (hbefore.takeLine hsupplies hline) hrest
  obtain ⟨auto, events, hready, -⟩ := exists_readied session text
  rw [enter_eq_takeLines, hready]
  exact hlines _ _ (h.of_program h.program fun _ => id) fun line => hsupplies.reads_of_mem_taken

theorem Furnished.interrupt (h : session.Furnished keeps reads) : session.interrupt.Furnished keeps reads := by
  refine h.of_program ?_ ?_
  · rw [program_interrupt]
    exact h.program
  · rw [waiting_interrupt]
    nofun

theorem Furnished.completeLoad (hsupplies : Supplies keeps reads) (h : session.Furnished keeps reads)
    (answer : Except Fault (List UInt8)) : (session.completeLoad answer).Furnished keeps reads := by
  refine h.of_program ?_ fun line hline => (keepsPlace_completeLoad session answer).waiting ▸ hline
  obtain hbrings | ⟨request, bytes, hloading, rfl, ⟨hmerge, hform⟩ | hother⟩ := answer_cases session answer
  · rw [program_of_refused hbrings]
    exact h.program
  · rw [program_of_merged hloading hmerge hform]
    exact hsupplies.merge h.program (hsupplies.ofBytes bytes)
  · rw [program_of_replaced hloading hother]
    exact hsupplies.ofBytes bytes

theorem Furnished.inner (hsupplies : Supplies keeps reads) (h : session.Furnished keeps reads)
    (hmove : Inner session after) : after.Furnished keeps reads := by
  cases hmove with
  | step =>
      refine h.of_program ?_ fun line hline => (keepsQueue_stepOrRaise session).waiting ▸ hline
      by_cases hnew : session.nextStatement? = some (.command .new)
      · rw [program_stepOrRaise_new hnew]
        exact hsupplies.empty
      · rw [program_stepOrRaise hnew]
        exact h.program
  | obey => exact Furnished.interrupt (h.of_program h.program fun _ => id)
  | start _ _ _ hwaiting =>
      have hline := h.waiting _ (hwaiting ▸ List.mem_cons_self)
      refine h.of_program (hsupplies.insert h.program hline) fun line hrest => ?_
      rw [hwaiting]
      exact List.mem_cons_of_mem _ hrest
  | report | sendKey | sendBreak => exact h.of_program h.program fun _ => id
  | interrupt => exact h.interrupt

theorem Furnished.move (hsupplies : Supplies keeps reads) (h : session.Furnished keeps reads)
    (hmove : Move session after) : after.Furnished keeps reads := by
  obtain hinner | ⟨text, rfl⟩ | ⟨answer, rfl⟩ := hmove.comes
  · exact h.inner hsupplies hinner
  · exact h.enter hsupplies text
  · exact h.completeLoad hsupplies answer

/-- Every session that a host can bring about holds a program and lines with the properties. -/
theorem Reachable.furnishedWith (hsupplies : Supplies keeps reads) (h : session.Reachable) :
    session.Furnished keeps reads := by
  induction h with
  | new => exact ⟨hsupplies.empty, nofun⟩
  | move _ hmove ih => exact ih.move hsupplies hmove

end Furnished

/-- The program of a session that a host can bring about was built from lines, files and merging. -/
theorem Reachable.furnished (h : session.Reachable) : session.Furnished Program.Built Line.IsRead :=
  h.furnishedWith supplies_built

end Session

namespace Program

/-- **Stored programs are well formed.** Every program that comes about by typing lines, by reading files
of any form, by merging and by clearing has line numbers in range, a statement on every line, and a statement
after every THEN; so has the program of every session that a host can bring about. A line can be started
exactly if it is stored, and then, as at every THEN, there is a statement to carry out. The lines stand in
ascending order, each once, and LIST without bounds shows all of them, unless the program is guarded. -/
theorem built_programs_are_wellFormed :
    (∀ session : Session, session.Reachable → session.program.Built) ∧
    ∀ program : Program, program.Built →
      program.WellFormed ∧
      (∀ number cursor, program.start number = .ok cursor ↔
        (∃ statements, (number, statements) ∈ program.lines.entries) ∧ cursor = .start (some number)) ∧
      (∀ number cursor, program.start number = .ok cursor → ∃ s, program.statement? cursor = some s) ∧
      (∀ cursor condition thenList elseList,
        program.statement? cursor = some (.choice condition thenList elseList) →
        ∃ inner s, program.enterBranch? cursor 0 = some inner ∧ program.statement? inner = some s) ∧
      program.lines.entries.Pairwise (fun entry later => entry.1 < later.1) ∧
      program.list none none =
        if program.guarded then .error (.of .illegalFunctionCall)
        else .ok (String.join (program.lines.entries.map lineText)) := by
  refine ⟨fun session h => h.furnished.program, fun program h => ?_⟩
  have hwell := h.wellFormed
  exact ⟨hwell, fun _ _ => start_eq_ok_iff, fun _ _ => hwell.statement?_start,
    fun _ _ _ _ => hwell.enterBranch?_then, program.lines.ascending, hwell.list_all⟩

/-- The first line of a text. -/
def typedLine (text : String) : Line := (Parsed.ofTokens (Token.lex text)).lines.headD ⟨none, []⟩

/-- A program with two typed lines, of which one is deleted again, and a line that is merged from a file. -/
def mergedStore : Program :=
  (((Program.empty.insert (typedLine "65529 PRINT 1")).insert (typedLine "7 NEXT")).insert (typedLine "7")).merge
    (ofBytes "20 IF A THEN 5 ELSE IF B THEN 7".toUTF8.toList).1

theorem built_programs_are_wellFormed_mergedStore :
    (Session.afterCalls [.enter "10 IF A THEN 20"]).program.Built ∧ mergedStore.Built ∧
      (∃ s, mergedStore.statement? (.start (some 20)) = some s) ∧
      (∀ cursor, mergedStore.start 7 ≠ .ok cursor) ∧
      mergedStore.list none none = .ok "20 IF A THEN 5 ELSE IF B THEN 7\n65529 PRINT 1\n" := by
  obtain ⟨hsession, hbuilt⟩ := built_programs_are_wellFormed
  have hread : ∀ text, (Parsed.ofTokens (Token.lexCharacters (Text.characters text))).lines ≠ [] →
      (typedLine text).IsRead := by
    intro text hlines
    rw [← Token.lex_eq] at hlines
    obtain ⟨line, rest, hline⟩ := List.exists_cons_of_ne_nil hlines
    refine ⟨Token.lex text, ?_⟩
    rw [typedLine, hline]
    exact List.mem_cons_self
  have hstore : mergedStore.Built :=
    (((Built.empty.insert (hread _ (by decide +kernel))).insert (hread _ (by decide +kernel))).insert
      (hread _ (by decide +kernel))).merge (.ofBytes _)
  obtain ⟨hthere, hgone, htexts⟩ : mergedStore.start 20 = .ok (.start (some 20)) ∧
      mergedStore.lines.contains 7 = false ∧
      mergedStore.guarded = false ∧ String.join (mergedStore.lines.entries.map lineText) =
        "20 IF A THEN 5 ELSE IF B THEN 7\n65529 PRINT 1\n" := by
    rw [mergedStore, ofBytes, Image.tokens_of_text (by decide +kernel)]
    simp only [typedLine, Token.lex_eq]
    decide +kernel
  obtain ⟨-, hstart, hstatement, -, -, hlist⟩ := hbuilt mergedStore hstore
  refine ⟨hsession _ (Session.reachable_afterCalls _), hstore, hstatement 20 _ hthere, fun cursor hcursor => ?_, ?_⟩
  · have hcontains := Numbered.contains_iff.mpr ((hstart 7 cursor).mp hcursor).1
    rw [hgone] at hcontains
    cases hcontains
  · rw [hlist, htexts.1, htexts.2]
    rfl

/-- LIST does not show the line that a guarded file has stored. -/
theorem guarded_line_unlisted :
    (ofBytes Session.guardedFile).1.Built ∧
      (ofBytes Session.guardedFile).1.start 10 = .ok (.start (some 10)) ∧
      (ofBytes Session.guardedFile).1.list none none = .error (.of .illegalFunctionCall) :=
  ⟨.ofBytes _, by decide +kernel⟩

end Program

end LineBasic
