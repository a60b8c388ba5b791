import LineBasic.Proofs.Entering
import LineBasic.Proofs.Footprint
import Mathlib.Logic.Relation

/-! The moves of a session. Everything that a host does to a session, and everything that a session
does when it is carried on, is a sequence of moves: a statement is carried out, a waiting line is
started, a break is obeyed, an event is handed out, or something comes in from outside. -/

namespace LineBasic

namespace Session

/-- The statement that the next step carries out, if any is left. -/
def nextStatement? (session : Session) : Option Statement :=
  session.cursor.bind session.program.statement?

/-- One thing that happens to a session. -/
inductive Move : Session → Session → Prop
  /-- A running session carries out a statement. -/
  | step {session : Session} (hevents : session.events = []) (hloading : session.loading = none)
      (hrunning : session.isRunning = true) (hbreak : session.keys.breakSeen = false) :
      Move session session.stepOrRaise
  /-- A running session obeys a break. -/
  | obey {session : Session} (hevents : session.events = []) (hloading : session.loading = none)
      (hrunning : session.isRunning = true) (hbreak : session.keys.breakSeen = true) :
      Move session { session with keys := session.keys.clearBreak }.interrupt
  /-- A session that is not running starts a line that waits. -/
  | start {session : Session} {line : Line} {rest : List Line} (hevents : session.events = [])
      (hloading : session.loading = none) (hrunning : session.isRunning = false)
      (hwaiting : session.waiting = line :: rest) :
      Move session ({ session with waiting := rest }.startDirect line)
  /-- The oldest event is handed out. -/
  | report {session : Session} {event : Event} {rest : List Event}
      (hevents : session.events = event :: rest) : Move session { session with events := rest }
  | enter (session : Session) (text : String) : Move session (session.enter text).2
  | interrupt (session : Session) : Move session session.interrupt
  | sendKey (session : Session) (stroke : List UInt8) : Move session (session.sendKey stroke)
  | sendBreak (session : Session) : Move session session.sendBreak
  | completeLoad (session : Session) (answer : Except Fault (List UInt8)) :
      Move session (session.completeLoad answer)

/-- Carrying a session on is a sequence of moves. -/
theorem moves_execute (cycles : Nat) (session : Session) :
    Relation.ReflTransGen Move session (execute cycles session).2 := by
  induction cycles generalizing session with
  | zero =>
      unfold execute
      split
      · exact .single (.report ‹_›)
      · split <;> exact .refl
  | succ cycles ih =>
      unfold execute
      split
      · exact .single (.report ‹_›)
      · exact .refl
      · rename_i hevents hloading
        split
        · rename_i hrunning
          split
          · exact .head (.start hevents hloading (by simpa using hrunning) ‹_›) (ih _)
          · exact .refl
        · rename_i hrunning
          have hrunning : session.isRunning = true := by simpa using hrunning
          split
          · exact .head (.obey hevents hloading hrunning ‹_›) (ih _)
          · rename_i hbreak
            exact .head (.step hevents hloading hrunning (by simpa using hbreak)) (ih _)

/-- One thing that happens when a line of source is taken in. -/
inductive Entry : Session → Session → Prop
  | auto (session : Session) (auto : Option AutoNumber) :
      Entry session { session with settings := { session.settings with auto } }
  | wait (session : Session) (line : Line) :
      Entry session { session with waiting := session.waiting ++ [line] }
  | start {session : Session} (line : Line) (hbusy : session.isBusy = false) :
      Entry session (session.startDirect line)
  | store {session : Session} {line : Line} (hline : line.isDirect = false) :
      Entry session
        { session with
          program := session.program.insert line
          settings := { session.settings with restart := none }
          data := none
          dataPosition := 0 }
  | report (session : Session) (faults : List Fault) :
      Entry session (session.report (.faults faults))

abbrev Entries : Session → Session → Prop := Relation.ReflTransGen Entry

theorem entries_takeLine (session : Session) (line : Line) :
    Entries session (session.takeLine line) := by
  unfold takeLine
  split
  · split
    · exact .refl
    · split
      · exact .single (.wait session line)
      · rename_i hbusy
        exact .single (.start line (by simpa using hbusy))
  · rename_i hdirect
    exact .single (.store (by simpa using hdirect))

theorem entries_takeLines (session : Session) (lines : List Line) :
    Entries session (lines.foldl takeLine session) := by
  induction lines generalizing session with
  | nil => exact .refl
  | cons line rest ih => exact (entries_takeLine session line).trans (ih _)

theorem entries_numberedText (session : Session) (text : String) :
    Entries session (session.numberedText text).2 := by
  rw [numberedText_eq]
  exact .single (.auto session _)

/-- Taking in a line of source is a sequence of entries. -/
theorem entries_enter (session : Session) (text : String) :
    Entries session (session.enter text).2 := by
  have hnumbered := entries_numberedText session text
  unfold enter
  revert hnumbered
  rcases session.numberedText text with ⟨none | entered, after⟩
  · exact id
  · intro hafter
    dsimp only
    split
    · exact hafter.trans (entries_takeLines after _)
    · exact hafter.tail (.report after _)

end Session

namespace SessionAct

/-- A step past the last statement ends the program. -/
theorem outcome_step_of_none {session : Session} (h : session.nextStatement? = none) :
    step.outcome session = endOfProgram.outcome { session with cursor := none } := by
  unfold step
  rw [Act.outcome_bind, Act.outcome_get]
  dsimp only
  rw [Act.outcome_bind, Act.outcome_set]
  dsimp only
  cases hcursor : session.cursor with
  | none => rfl
  | some cursor =>
      rw [Session.nextStatement?, hcursor, Option.bind_some] at h
      dsimp only
      rw [h]

/-- A step carries out the statement under the cursor, with the cursor moved past it. -/
theorem outcome_step_of_some {session : Session} {cursor : Cursor} {next : Statement}
    (hcursor : session.cursor = some cursor) (hnext : session.program.statement? cursor = some next) :
    step.outcome session =
      (statement next).outcome (beginStatement { session with cursor := none } cursor) := by
  unfold step
  rw [Act.outcome_bind, Act.outcome_get]
  dsimp only
  rw [Act.outcome_bind, Act.outcome_set]
  dsimp only
  rw [hcursor]
  dsimp only
  rw [hnext]
  rfl

theorem beginStatement_program (session : Session) (cursor : Cursor) :
    (beginStatement session cursor).program = session.program := by
  unfold beginStatement
  split <;> rfl

theorem beginStatement_stack (session : Session) (cursor : Cursor) :
    (beginStatement session cursor).stack = session.stack := by
  unfold beginStatement
  split <;> rfl

end SessionAct

end LineBasic
