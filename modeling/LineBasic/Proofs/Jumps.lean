import LineBasic.Proofs.Sound
import LineBasic.Proofs.Subroutine

/-! Jumps to lines that are not stored. Nine statements go to a line or will go to one, and all fail alike
where it is missing. Most look for the line before they do anything; RETURN, RESUME and RESTORE look for it
when they have already closed the subroutine, left the handler or gone back to the first of the data. -/

namespace LineBasic

namespace Session

variable {session after : Session} {number : Nat} {c : Command}

/-- The commands with a line to go to, each where it gets as far as looking for the line. -/
inductive JumpsTo (number : Nat) (session : Session) : Command → Prop
  | goto : JumpsTo number session (.goto number)
  | gosub : JumpsTo number session (.gosub number)
  | returnTo (hopen : (session.stack.lastIndex? Frame.isGosub).isSome) :
      JumpsTo number session (.returnTo (some number))
  | run : JumpsTo number session (.run (some number))
  | restore : JumpsTo number session (.restore (some number))
  | resume (hstate : session.state = .trapped) : JumpsTo number session (.resume (.line number))
  | onGoto {selector : Expr} {lines : List Nat}
      (hselected : ((SessionAct.selected selector lines).outcome session.begun).1 = .ok (some number)) :
      JumpsTo number session (.onGoto selector lines)
  | onGosub {selector : Expr} {lines : List Nat}
      (hselected : ((SessionAct.selected selector lines).outcome session.begun).1 = .ok (some number)) :
      JumpsTo number session (.onGosub selector lines)
  | onError (hpos : 0 < number) : JumpsTo number session (.onError number)

/-- Everything that a jump could change, the place in the program apart, is as it was. -/
structure Unmoved (session after : Session) : Prop where
  stack : after.stack = session.stack
  dataPosition : after.dataPosition = session.dataPosition
  values : Memory.SameValues session.work.memory after.work.memory
  functions : after.functions = session.functions
  onError : after.settings.onError = session.settings.onError
  resume : after.settings.resume = session.settings.resume
  state : after.state = session.state

/-- What a command has done by the time that it misses its line. -/
def Leaves (session : Session) : Command → Session → Prop
  | .returnTo _, after => ∃ (stack : Stack Frame) (lower above : List Frame) (back : Option Cursor),
      session.stack.toList = lower ++ .gosub back :: above ∧ (∀ frame ∈ above, frame.isGosub = false) ∧
      stack.toList = lower ∧ after = { session.begun with stack }
  | .restore _, after => after = { session.begun with dataPosition := 0 }
  | .resume _, after => after = session.begun.leaveHandler
  | _, after => Unmoved session after

/-- Whether a command has changed nothing when it looks for its line. -/
def LooksFirst (session : Session) : Command → Prop
  | .returnTo _ | .resume _ => False
  | .restore _ => session.dataPosition = 0
  | _ => True

theorem unmoved_begun (session : Session) : Unmoved session session.begun := by
  unfold begun
  split
  · unfold SessionAct.beginStatement
    split <;> exact ⟨rfl, rfl, .refl _, rfl, rfl, rfl, rfl⟩
  · exact ⟨rfl, rfl, .refl _, rfl, rfl, rfl, rfl⟩

theorem Unmoved.withWork (h : Unmoved session after) {work : Workspace}
    (hwork : Memory.SameValues after.work.memory work.memory) : Unmoved session { after with work } :=
  { h with values := h.values.trans hwork }

end Session

theorem Program.start_of_missing {program : Program} {number : Nat} (h : program.lines.contains number = false) :
    program.start number = .error (.of .undefinedLineNumber) := by
  rw [start, h]
  rfl

namespace SessionAct

open Act Session

variable {session : Session} {number : Nat}

theorem outcome_goto_missing (h : session.program.lines.contains number = false) :
    (goto number).outcome session = (.error (.of .undefinedLineNumber), session) := by
  rw [outcome_goto, Program.start_of_missing h]

theorem outcome_gosub_missing (h : session.program.lines.contains number = false) :
    (gosub number).outcome session = (.error (.of .undefinedLineNumber), session) := by
  rw [outcome_gosub, Program.start_of_missing h]

theorem outcome_run_missing (h : session.program.lines.contains number = false) :
    (run (some number)).outcome session = (.error (.of .undefinedLineNumber), session) := by
  unfold run
  dsimp only
  rw [outcome_bind, outcome_map, outcome_lineStart, Program.start_of_missing h]
  rfl

theorem outcome_onError_missing (h : session.program.lines.contains number = false) (hpos : 0 < number) :
    (onError number).outcome session = (.error (.of .undefinedLineNumber), session) := by
  unfold onError
  rw [if_neg (Nat.pos_iff_ne_zero.mp hpos), outcome_bind, outcome_lineStart, Program.start_of_missing h]

/-- RESTORE is back at the first item when it looks for its line. -/
theorem outcome_restore_missing (h : session.program.lines.contains number = false) :
    (restore (some number)).outcome session =
      (.error (.of .undefinedLineNumber), { session with dataPosition := 0 }) := by
  unfold restore
  rw [outcome_bind, outcome_modify]
  dsimp only
  rw [outcome_bind, outcome_lineStart, Program.start_of_missing h]

/-- RETURN has closed the subroutine, with the loops in it, when it looks for its line. -/
theorem exists_returnTo_missing (h : session.program.lines.contains number = false)
    (hopen : (session.stack.lastIndex? Frame.isGosub).isSome) :
    ∃ (stack : Stack Frame) (lower above : List Frame) (back : Option Cursor),
      session.stack.toList = lower ++ .gosub back :: above ∧ (∀ frame ∈ above, frame.isGosub = false) ∧
      stack.toList = lower ∧
      (returnTo (some number)).outcome session = (.error (.of .undefinedLineNumber), { session with stack }) := by
  obtain ⟨index, hindex⟩ := Option.isSome_iff_exists.mp hopen
  obtain ⟨lower, entry, above, hsplit, rfl, hgosub, habove⟩ := Stack.split_of_lastIndex? hindex
  obtain ⟨back, rfl⟩ : ∃ back, entry = .gosub back := by
    cases entry with
    | gosub back => exact ⟨back, rfl⟩
    | forLoop _ _ _ _ | whileLoop _ => cases hgosub
  obtain ⟨stack, hlower, houtcome⟩ := outcome_returnTo (some number) hsplit hindex
  exact ⟨stack, lower, above, back, hsplit, habove, hlower, houtcome.trans (outcome_goto_missing h)⟩

/-- A selector that selects a line is evaluated, and leaves all variables alone. -/
theorem exists_selected (h : session.Sound) {selector : Expr} {lines : List Nat} {target : Option Nat}
    (hselected : ((selected selector lines).outcome session).1 = .ok target) :
    ∃ work, (selected selector lines).outcome session = (.ok target, { session with work }) ∧
      Memory.SameValues session.work.memory work.memory := by
  cases hresult : ((eval selector).outcome session).1 with
  | error fault =>
      have heval : (eval selector).outcome session = (.error fault, ((eval selector).outcome session).2) :=
        congrArg (·, _) hresult
      unfold selected evalInt at hselected
      rw [outcome_bind, outcome_bind, heval] at hselected
      cases hselected
  | ok value =>
      obtain ⟨work, heval, -, hsame⟩ := h.exists_eval hresult
      revert hselected
      unfold selected evalInt
      rw [outcome_bind, outcome_bind, heval]
      dsimp only
      rw [outcome_lift]
      cases value.toInt with
      | error fault => exact nofun
      | ok n =>
          dsimp only
          split
          · intro htarget
            exact ⟨work, congrArg (·, _) htarget, hsame⟩
          · exact nofun

end SessionAct

namespace Session

open Act SessionAct

variable {session after : Session} {number : Nat} {c : Command}

/-- **A jump to a missing line fails**, and one that looks for its line first leaves no trace. RETURN has
closed the subroutine by then, with the loops in it; RESTORE is back at the first item; and RESUME is out of
the handler and has forgotten the place to resume at. -/
theorem missing_line_moves_nothing (h : session.Reachable) (hnext : session.nextStatement? = some (.command c))
    (hjump : JumpsTo number session c) (hmissing : session.program.lines.contains number = false) :
    ∃ after, step.outcome session = (.error (.of .undefinedLineNumber), after) ∧
      Leaves session c after ∧ (Unmoved session after ↔ LooksFirst session c) := by
  have hbegun := unmoved_begun session
  have hgone : session.begun.program.lines.contains number = false := by rwa [program_begun]
  have hsound : session.begun.Sound := h.ready.begun.toSound
  rw [outcome_step hnext]
  cases hjump with
  | goto => exact ⟨_, outcome_goto_missing hgone, hbegun, iff_of_true hbegun trivial⟩
  | gosub => exact ⟨_, outcome_gosub_missing hgone, hbegun, iff_of_true hbegun trivial⟩
  | run => exact ⟨_, outcome_run_missing hgone, hbegun, iff_of_true hbegun trivial⟩
  | onError hpos => exact ⟨_, outcome_onError_missing hgone hpos, hbegun, iff_of_true hbegun trivial⟩
  | onGoto hselected =>
      obtain ⟨work, houtcome, hsame⟩ := exists_selected hsound hselected
      have hunmoved := hbegun.withWork hsame
      refine ⟨_, ?_, hunmoved, iff_of_true hunmoved trivial⟩
      change (selected _ _ >>= _).outcome session.begun = _
      rw [outcome_bind, houtcome]
      exact outcome_goto_missing hgone
  | onGosub hselected =>
      obtain ⟨work, houtcome, hsame⟩ := exists_selected hsound hselected
      have hunmoved := hbegun.withWork hsame
      refine ⟨_, ?_, hunmoved, iff_of_true hunmoved trivial⟩
      change (selected _ _ >>= _).outcome session.begun = _
      rw [outcome_bind, houtcome]
      exact outcome_gosub_missing hgone
  | restore =>
      exact ⟨_, outcome_restore_missing hgone, rfl, fun hunmoved => hunmoved.dataPosition.symm,
        fun hstart => { hbegun with dataPosition := hstart.symm }⟩
  | resume hstate =>
      obtain ⟨failed, hresume⟩ := Option.isSome_iff_exists.mp (h.consistent.trap hstate).1
      refine ⟨session.begun.leaveHandler, ?_, rfl, iff_of_false (fun hunmoved => ?_) id⟩
      · change (resume (.line number)).outcome session.begun = _
        rw [outcome_resume (hbegun.state.trans hstate) (hbegun.resume.trans hresume)]
        exact outcome_goto_missing hgone
      · have hrunning := hunmoved.state
        rw [hstate] at hrunning
        cases hrunning
  | returnTo hopen =>
      rw [← hbegun.stack] at hopen
      obtain ⟨stack, lower, above, back, hsplit, habove, hlower, houtcome⟩ := exists_returnTo_missing hgone hopen
      rw [hbegun.stack] at hsplit
      refine ⟨_, houtcome, ⟨stack, lower, above, back, hsplit, habove, hlower, rfl⟩,
        iff_of_false (fun hunmoved => ?_) id⟩
      have hlists := congrArg Stack.toList hunmoved.stack
      rw [hlower, hsplit] at hlists
      simpa using congrArg List.length hlists

/-- A session that is about to select a missing line. -/
def beforeSelection : Session :=
  afterCalls [.enter "10 A=2", .enter "20 ON A GOSUB 10,9999", .enter "RUN", .execute 2]

theorem missing_line_moves_nothing_beforeSelection :
    ∃ after, step.outcome beforeSelection = (.error (.of .undefinedLineNumber), after) ∧
      after.stack = beforeSelection.stack ∧ after.work.memory.fetch ⟨"A"⟩ = .single 2 := by
  obtain ⟨hnext, hselected, hmissing, hbefore⟩ :
      beforeSelection.nextStatement? = some (.command (.onGosub (.scalar ⟨"A"⟩) [10, 9999])) ∧
      ((selected (.scalar ⟨"A"⟩) [10, 9999]).outcome beforeSelection.begun).1 = .ok (some 9999) ∧
      beforeSelection.program.lines.contains 9999 = false ∧
      beforeSelection.work.memory.fetch ⟨"A"⟩ = .single 2 := by
    rw [beforeSelection, afterCalls_eq]
    decide +kernel
  have hname : Name.IsScanned ⟨"A"⟩ := Name.isScanned_of_spelling (by decide +kernel)
  obtain ⟨after, houtcome, hunmoved, -⟩ :=
    missing_line_moves_nothing (reachable_afterCalls _) hnext (.onGosub hselected) hmissing
  exact ⟨after, houtcome, hunmoved.stack, (hunmoved.values ⟨"A"⟩ [] hname).trans hbefore⟩

/-- A session that is about to go back in its data to a missing line, when it has read some. -/
def beforeRestore : Session :=
  afterCalls [.enter "10 DATA 1,2,3", .enter "20 READ A,B", .enter "30 RESTORE 9999", .enter "RUN", .execute 3]

/-- A RESTORE that fails goes back to the first item. -/
theorem missing_line_restores_start :
    beforeRestore.Reachable ∧ beforeRestore.nextStatement? = some (.command (.restore (some 9999))) ∧
      beforeRestore.program.lines.contains 9999 = false ∧ beforeRestore.dataPosition = 2 ∧
      (step.outcome beforeRestore).2.dataPosition = 0 := by
  refine ⟨reachable_afterCalls _, ?_⟩
  rw [beforeRestore, afterCalls_eq]
  decide +kernel

end Session

end LineBasic
