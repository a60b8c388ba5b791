import LineBasic.Proofs.DataCache

/-! Guarded lines. A program file may be guarded against listing, and one mark of the program stands for
all lines that came from such a file. Lines are typed over, deleted and merged into it one by one; the
mark goes only where the whole program does, in NEW and where a file takes its place. So a line of a
guarded file is not listed as long as it stands. -/

namespace LineBasic

namespace Numbered

variable {β : Type} {numbered : Numbered β} {n number : Nat} {value : β}

theorem contains_iff : numbered.contains n = true ↔ ∃ value, (n, value) ∈ numbered.entries := by
  rw [contains, Option.isSome_iff_exists]
  simp only [mem_entries_iff]

theorem mem_place_self (entries : List (Nat × β)) : (number, value) ∈ place number value entries := by
  induction entries with
  | nil => exact List.mem_cons_self
  | cons first rest ih =>
      unfold place
      split
      · exact List.mem_cons_self
      · split
        · exact List.mem_cons_self
        · exact List.mem_cons_of_mem _ ih

theorem mem_place_of_ne {entries : List (Nat × β)} {entry : Nat × β} (h : entry ∈ entries)
    (hne : entry.1 ≠ number) : entry ∈ place number value entries := by
  induction entries with
  | nil => cases h
  | cons first rest ih =>
      unfold place
      split
      · exact List.mem_cons_of_mem _ h
      · split
        · rename_i hsame
          rcases List.mem_cons.mp h with rfl | hrest
          · exact absurd hsame.symm hne
          · exact List.mem_cons_of_mem _ hrest
        · rcases List.mem_cons.mp h with rfl | hrest
          · exact List.mem_cons_self
          · exact List.mem_cons_of_mem _ (ih hrest)

/-- A number that is there stays when an entry is put in its place. -/
theorem contains_insert (h : numbered.contains n = true) (number : Nat) (value : β) :
    (numbered.insert number value).contains n = true := by
  obtain ⟨old, hmem⟩ := contains_iff.mp h
  rw [contains_iff]
  by_cases hsame : n = number
  · subst hsame
    exact ⟨value, mem_place_self numbered.entries⟩
  · exact ⟨old, mem_place_of_ne hmem hsame⟩

theorem contains_erase (h : numbered.contains n = true) (hne : n ≠ number) :
    (numbered.erase number).contains n = true := by
  obtain ⟨value, hmem⟩ := contains_iff.mp h
  exact contains_iff.mpr ⟨value, List.mem_filter.mpr ⟨hmem, bne_iff_ne.mpr hne⟩⟩

theorem contains_merge (h : numbered.contains n = true) (other : Numbered β) :
    (numbered.merge other).contains n = true := by
  unfold merge
  generalize other.entries = added
  induction added generalizing numbered with
  | nil => exact h
  | cons entry rest ih => exact ih (contains_insert h entry.1 entry.2)

end Numbered

namespace Program

variable {program : Program} {n : Nat}

theorem guarded_insert (program : Program) (line : Line) : (program.insert line).guarded = program.guarded := by
  unfold insert
  split
  · rfl
  · split <;> rfl

theorem guarded_merge (h : program.guarded = true) (other : Program) : (program.merge other).guarded = true := by
  change (program.guarded || other.guarded) = true
  rw [h, Bool.true_or]

/-- A line stays when one with another number is stored or deleted. -/
theorem contains_insert {line : Line} (h : program.lines.contains n = true) (hline : line.number ≠ some n) :
    (program.insert line).lines.contains n = true := by
  unfold insert
  split
  · exact h
  · rename_i number hnumber
    split
    · apply Numbered.contains_erase h
      rintro rfl
      exact hline hnumber
    · exact Numbered.contains_insert h number line.statements

theorem guarded_ofBytes (bytes : List UInt8) :
    (ofBytes bytes).1.guarded = decide (Image.Form.ofBytes bytes = .guarded) := by
  have hlines : ∀ (lines : List Line) (program : Program),
      (lines.foldl insert program).guarded = program.guarded := by
    intro lines
    induction lines with
    | nil => exact fun _ => rfl
    | cons line rest ih => exact fun program => (ih _).trans (guarded_insert program line)
  exact hlines _ _

theorem list_of_guarded (h : program.guarded = true) (first last : Option Nat) :
    program.list first last = .error (.of .illegalFunctionCall) := by
  rw [list, if_pos h]
  rfl

end Program

namespace Session

/-- The program is the same. -/
def SameProgram (session after : Session) : Prop := after.program = session.program

instance : AllowsChange SameProgram where
  refl _ := rfl
  trans _ _ _ h h' := h'.trans h
  change h _ := h.steady.program

end Session

namespace SessionAct

open Act Session

theorem sameProgram_onError (line : Nat) : Relates SameProgram (onError line) := by
  unfold onError
  split
  · refine Relates.bind (fun _ => rfl) fun _ => relates_get_bind fun session => ?_
    split <;> rfl
  · exact (relates_lineStart line).bind fun _ _ => rfl

theorem sameProgram_resume (target : ResumeAt) : Relates SameProgram (resume target) := by
  intro session
  by_cases htrapped : session.state = .trapped ∧ session.settings.resume.isSome
  · obtain ⟨hstate, hsome⟩ := htrapped
    obtain ⟨failed, hresume⟩ := Option.isSome_iff_exists.mp hsome
    rw [outcome_resume hstate hresume]
    cases target with
    | retry => rfl
    | next => rfl
    | line number => exact relates_goto (R := SameProgram) number session.leaveHandler
  · rw [outcome_resume_of_not htrapped]
    rfl

/-- Only NEW has to do with the program as a whole. -/
theorem sameProgram_command {c : Command} (hc : c ≠ .new) : Relates SameProgram (command c) := by
  by_cases hordinary : c.isOrdinary = true
  · exact relates_command hordinary
  · cases c with
    | auto _ _ => exact fun _ => rfl
    | chain path _ _ | load path _ | merge path => exact (relates_evalText path).bind fun _ _ => rfl
    | clear arguments => exact (relates_evalInts arguments).bind fun _ _ => rfl
    | cont =>
        refine relates_get_bind fun session => ?_
        dsimp only
        split <;> rfl
    | finish =>
        refine relates_get_bind fun session => ?_
        dsimp only
        split <;> rfl
    | new => exact absurd rfl hc
    | onError line => exact sameProgram_onError line
    | read targets => exact (changes_read targets).mono fun _ _ h => h.steady.program
    | restore line => exact (changes_restore line).mono fun _ _ h => h.steady.program
    | resume target => exact sameProgram_resume target
    | run line =>
        cases line with
        | none => exact fun _ => rfl
        | some number => exact ((relates_lineStart number).map some).bind fun _ _ => rfl
    | stop =>
        intro session
        change session.breakOff.program = session.program
        unfold breakOff
        split <;> rfl
    | _ => exact absurd rfl hordinary

theorem outcome_list {session : Session} (h : session.program.guarded = true) (first last : Option Nat) :
    (command (.list first last)).outcome session = (.error (.of .illegalFunctionCall), session) := by
  rw [command, outcome_bind, outcome_get]
  dsimp only
  rw [Program.list_of_guarded h]
  rfl

end SessionAct

namespace Session

open Act SessionAct

variable {session after : Session}

theorem program_raise (session : Session) (fault : Fault) : (session.raise fault).program = session.program := by
  unfold raise
  dsimp only
  split
  · rfl
  · split <;> rfl

theorem program_settle (outcome : Except Fault Unit × Session) : (settle outcome).program = outcome.2.program := by
  rcases outcome with ⟨fault | _, after⟩
  · exact program_raise after fault
  · rfl

theorem program_begun (session : Session) : session.begun.program = session.program :=
  (steady_begun session).program

theorem program_stepOrRaise (h : session.nextStatement? ≠ some (.command .new)) :
    session.stepOrRaise.program = session.program := by
  rw [stepOrRaise_eq, program_settle]
  cases hnext : session.nextStatement? with
  | none =>
      rw [outcome_step_of_none hnext]
      unfold endOfProgram
      rw [outcome_bind, outcome_get]
      dsimp only
      split <;> rfl
  | some next =>
      rw [outcome_step hnext, ← program_begun session]
      cases next with
      | command c =>
          refine sameProgram_command ?_ session.begun
          rintro rfl
          exact h hnext
      | choice condition _ _ => exact relates_choose (R := SameProgram) condition session.begun

theorem program_stepOrRaise_new (h : session.nextStatement? = some (.command .new)) :
    session.stepOrRaise.program = .empty := by
  rw [stepOrRaise_eq, program_settle, outcome_step h]
  rfl

theorem program_interrupt (session : Session) : session.interrupt.program = session.program := by
  unfold interrupt breakOff
  dsimp only
  split
  · split <;> rfl
  · rfl

section Files

variable {answer : Except Fault (List UInt8)} {request : LoadRequest} {bytes : List UInt8}

/-- What comes in answer to a request: nothing that is taken in, a file to be merged, or a file that takes
the place of the program. -/
theorem answer_cases (session : Session) (answer : Except Fault (List UInt8)) :
    session.bringsLines answer = false ∨
    ∃ request bytes, session.loading = some request ∧ answer = .ok bytes ∧
      ((request.kind = .merge ∧ Image.Form.ofBytes bytes ≠ .guarded) ∨ request.kind ≠ .merge) := by
  by_cases hbrings : session.bringsLines answer = false
  · exact .inl hbrings
  · unfold bringsLines at hbrings
    cases answer with
    | error fault => exact absurd rfl hbrings
    | ok bytes =>
        cases hloading : session.loading with
        | none =>
            rw [hloading] at hbrings
            exact absurd rfl hbrings
        | some request =>
            refine .inr ⟨request, bytes, rfl, rfl, ?_⟩
            by_cases hkind : request.kind = .merge
            · refine .inl ⟨hkind, fun hform => hbrings ?_⟩
              dsimp only
              rw [hloading, Option.any_some, Program.guarded_ofBytes, hform, hkind]
              rfl
            · exact .inr hkind

theorem program_of_refused (h : session.bringsLines answer = false) :
    (session.completeLoad answer).program = session.program := by
  unfold completeLoad
  split
  · rfl
  · rename_i request hloading
    cases answer with
    | error fault => exact program_raise _ fault
    | ok bytes =>
        rw [bringsLines, hloading, Option.any_some, Bool.not_eq_false', Bool.and_eq_true,
          decide_eq_true_eq] at h
        dsimp only
        rw [h.1]
        dsimp only
        rw [mergeProgram, if_pos h.2, program_raise]
        split <;> rfl

theorem program_of_merged (hloading : session.loading = some request) (hkind : request.kind = .merge)
    (hform : Image.Form.ofBytes bytes ≠ .guarded) :
    (session.completeLoad (.ok bytes)).program = session.program.merge (Program.ofBytes bytes).1 := by
  have hguarded : ¬(Program.ofBytes bytes).1.guarded = true := by
    rw [Program.guarded_ofBytes, decide_eq_true_eq]
    exact hform
  unfold completeLoad mergeProgram
  rw [hloading]
  dsimp only
  rw [hkind]
  dsimp only
  rw [if_neg hguarded]
  split <;> rfl

theorem program_of_replaced (hloading : session.loading = some request) (hkind : request.kind ≠ .merge) :
    (session.completeLoad (.ok bytes)).program = (Program.ofBytes bytes).1 := by
  unfold completeLoad
  rw [hloading]
  dsimp only
  split
  · rename_i andRun _
    cases andRun <;> rfl
  · exact absurd ‹_› hkind
  · unfold chainProgram
    dsimp only
    split
    · rfl
    · split
      · rfl
      · exact program_raise _ _

end Files

theorem guarded_enter (session : Session) (text : String) :
    (session.enter text).2.program.guarded = session.program.guarded := by
  have hentries := entries_enter session text
  generalize (session.enter text).2 = after at hentries
  induction hentries with
  | refl => rfl
  | tail _ hentry ih =>
      cases hentry with
      | start line _ => exact (Program.guarded_insert _ line).trans ih
      | store _ => exact (Program.guarded_insert _ _).trans ih
      | auto | wait | report => exact ih

/-- A line stands after, if it did before. -/
def KeepsLine (n : Nat) (session after : Session) : Prop :=
  session.program.lines.contains n = true → after.program.lines.contains n = true

instance (n : Nat) : IsPreorder Session (KeepsLine n) where
  refl _ := id
  trans _ _ _ h h' := h' ∘ h

theorem keepsLine_takeLine {n : Nat} {line : Line} (hline : line.number ≠ some n) (session : Session) :
    KeepsLine n session (session.takeLine line) := by
  intro hthere
  unfold takeLine
  split
  · split
    · exact hthere
    · split
      · exact hthere
      · exact Program.contains_insert hthere hline
  · exact Program.contains_insert hthere hline

theorem keepsLine_enter {n : Nat} {text : String} (h : ∀ line ∈ session.taken text, line.number ≠ some n) :
    KeepsLine n session (session.enter text).2 := by
  obtain ⟨ready, hready, heq⟩ := exists_enter session text
  have hlines := relates_takeLines (fun line hline => keepsLine_takeLine (h line hline)) ready
  intro hthere
  rw [heq]
  apply hlines
  rwa [hready.lines]

/-- What happens to a session without a line or a file coming in. -/
inductive Inner : Session → Session → Prop
  | step {session : Session} (hevents : session.events = []) (hloading : session.loading = none)
      (hrunning : session.isRunning = true) (hbreak : session.keys.breakSeen = false) :
      Inner session session.stepOrRaise
  | obey {session : Session} (hevents : session.events = []) (hloading : session.loading = none)
      (hrunning : session.isRunning = true) (hbreak : session.keys.breakSeen = true) :
      Inner session { session with keys := session.keys.clearBreak }.interrupt
  | start {session : Session} {line : Line} {rest : List Line} (hevents : session.events = [])
      (hloading : session.loading = none) (hrunning : session.isRunning = false)
      (hwaiting : session.waiting = line :: rest) :
      Inner session ({ session with waiting := rest }.startDirect line)
  | report {session : Session} {event : Event} {rest : List Event} (hevents : session.events = event :: rest) :
      Inner session { session with events := rest }
  | interrupt (session : Session) : Inner session session.interrupt
  | sendKey (session : Session) (stroke : List UInt8) : Inner session (session.sendKey stroke)
  | sendBreak (session : Session) : Inner session session.sendBreak

theorem Inner.move (h : Inner session after) : Move session after := by
  cases h with
  | step hevents hloading hrunning hbreak => exact .step hevents hloading hrunning hbreak
  | obey hevents hloading hrunning hbreak => exact .obey hevents hloading hrunning hbreak
  | start hevents hloading hrunning hwaiting => exact .start hevents hloading hrunning hwaiting
  | report hevents => exact .report hevents
  | interrupt => exact .interrupt session
  | sendKey stroke => exact .sendKey session stroke
  | sendBreak => exact .sendBreak session

/-- Of what happens without a line or a file coming in, only NEW has to do with the lines. -/
theorem Inner.program (h : Inner session after) (hfresh : Fresh session) :
    (after.program.lines = session.program.lines ∧ after.program.guarded = session.program.guarded) ∨
      (session.nextStatement? = some (.command .new) ∧ after = session.stepOrRaise ∧ after.program = .empty) := by
  have hsame : after.program = session.program →
      after.program.lines = session.program.lines ∧ after.program.guarded = session.program.guarded := by
    intro heq
    rw [heq]
    exact ⟨rfl, rfl⟩
  cases h with
  | step =>
      by_cases hnew : session.nextStatement? = some (.command .new)
      · exact .inr ⟨hnew, rfl, program_stepOrRaise_new hnew⟩
      · exact .inl (hsame (program_stepOrRaise hnew))
  | obey => exact .inl (hsame (program_interrupt _))
  | start _ _ _ hwaiting =>
      have hline := hfresh.waiting _ (hwaiting ▸ List.mem_cons_self)
      exact .inl ⟨(keepsData_startDirect hline _).lines, Program.guarded_insert _ _⟩
  | interrupt => exact .inl (hsame (program_interrupt session))
  | report | sendKey | sendBreak => exact .inl ⟨rfl, rfl⟩

/-- Everything that happens to a session, by what comes in. -/
theorem Move.comes (h : Move session after) :
    Inner session after ∨ (∃ text, after = (session.enter text).2) ∨
      ∃ answer, after = session.completeLoad answer := by
  cases h with
  | step hevents hloading hrunning hbreak => exact .inl (.step hevents hloading hrunning hbreak)
  | obey hevents hloading hrunning hbreak => exact .inl (.obey hevents hloading hrunning hbreak)
  | start hevents hloading hrunning hwaiting => exact .inl (.start hevents hloading hrunning hwaiting)
  | report hevents => exact .inl (.report hevents)
  | enter text => exact .inr (.inl ⟨text, rfl⟩)
  | interrupt => exact .inl (.interrupt session)
  | sendKey stroke => exact .inl (.sendKey session stroke)
  | sendBreak => exact .inl (.sendBreak session)
  | completeLoad answer => exact .inr (.inr ⟨answer, rfl⟩)

/-- The lines of the program that a guarded file put there, by all that happened to the session. A file
that is loaded or chained brings its lines in place of all others; a line that is typed, or merged from a
file, is one of its own from then on. -/
inductive Marked : Session → (Nat → Prop) → Prop
  | new (random : Random) : Marked (.new random) fun _ => False
  | inner {session after : Session} {lines : Nat → Prop} (h : Marked session lines)
      (hmove : Inner session after) : Marked after fun n => lines n ∧ after.program.lines.contains n = true
  | enter {session : Session} {lines : Nat → Prop} (h : Marked session lines) (text : String) :
      Marked (session.enter text).2 fun n => lines n ∧ ∀ line ∈ session.taken text, line.number ≠ some n
  | refuse {session : Session} {lines : Nat → Prop} (h : Marked session lines)
      {answer : Except Fault (List UInt8)} (hanswer : session.bringsLines answer = false) :
      Marked (session.completeLoad answer) lines
  | merge {session : Session} {lines : Nat → Prop} (h : Marked session lines) {request : LoadRequest}
      (hloading : session.loading = some request) (hkind : request.kind = .merge) {bytes : List UInt8}
      (hform : Image.Form.ofBytes bytes ≠ .guarded) :
      Marked (session.completeLoad (.ok bytes))
        fun n => lines n ∧ (Program.ofBytes bytes).1.lines.contains n = false
  | replace {session : Session} {lines : Nat → Prop} (h : Marked session lines) {request : LoadRequest}
      (hloading : session.loading = some request) (hkind : request.kind ≠ .merge) (bytes : List UInt8) :
      Marked (session.completeLoad (.ok bytes))
        fun n => Image.Form.ofBytes bytes = .guarded ∧ (Program.ofBytes bytes).1.lines.contains n = true

theorem Marked.reachable {lines : Nat → Prop} (h : Marked session lines) : session.Reachable := by
  induction h with
  | new random => exact .new random
  | inner _ hmove ih => exact ih.move hmove.move
  | enter _ text ih => exact ih.move (.enter _ text)
  | refuse | merge | replace => exact Reachable.move ‹_› (.completeLoad _ _)

/-- In every session it is told which lines came from a guarded file. -/
theorem exists_marked (h : session.Reachable) : ∃ lines, Marked session lines := by
  induction h with
  | new random => exact ⟨_, .new random⟩
  | @move before after _ hmove ih =>
      obtain ⟨lines, hmarked⟩ := ih
      obtain hinner | ⟨text, rfl⟩ | ⟨answer, rfl⟩ := hmove.comes
      · exact ⟨_, hmarked.inner hinner⟩
      · exact ⟨_, hmarked.enter text⟩
      · obtain hbrings | ⟨request, bytes, hloading, rfl, ⟨hmerge, hform⟩ | hother⟩ := answer_cases before answer
        · exact ⟨_, hmarked.refuse hbrings⟩
        · exact ⟨_, hmarked.merge hloading hmerge hform⟩
        · exact ⟨_, hmarked.replace hloading hother bytes⟩

/-- **A line that a guarded file put there stands in a guarded program.** -/
theorem Marked.guarded {lines : Nat → Prop} (h : Marked session lines) {n : Nat} (hn : lines n) :
    session.program.lines.contains n = true ∧ session.program.guarded = true := by
  induction h with
  | new => exact hn.elim
  | inner hmarked hmove ih =>
      obtain ⟨hlines, hthere⟩ := hn
      refine ⟨hthere, ?_⟩
      obtain ⟨-, hguarded⟩ | ⟨-, -, hempty⟩ := hmove.program hmarked.reachable.fresh
      · rw [hguarded]
        exact (ih hlines).2
      · rw [hempty] at hthere
        cases hthere
  | enter _ text ih =>
      obtain ⟨hlines, huntouched⟩ := hn
      refine ⟨keepsLine_enter huntouched (ih hlines).1, ?_⟩
      rw [guarded_enter]
      exact (ih hlines).2
  | refuse _ hanswer ih =>
      rw [program_of_refused hanswer]
      exact ih hn
  | merge _ hloading hkind hform ih =>
      obtain ⟨hthere, hguarded⟩ := ih hn.1
      rw [program_of_merged hloading hkind hform]
      exact ⟨Numbered.contains_merge hthere _, Program.guarded_merge hguarded _⟩
  | replace _ hloading hkind bytes =>
      rw [program_of_replaced hloading hkind, Program.guarded_ofBytes, decide_eq_true_eq]
      exact ⟨hn.2, hn.1⟩

/-- A guarded program stays guarded until NEW leaves no line of it, or a file that is loaded or chained
leaves none but its own. -/
theorem Move.guarded (h : Move session after) (hfresh : Fresh session) (hguarded : session.program.guarded = true) :
    after.program.guarded = true ∨
    (session.nextStatement? = some (.command .new) ∧ after = session.stepOrRaise ∧ after.program = .empty) ∨
    ∃ request bytes, session.loading = some request ∧ request.kind ≠ .merge ∧
      after = session.completeLoad (.ok bytes) ∧ after.program = (Program.ofBytes bytes).1 := by
  obtain hinner | ⟨text, rfl⟩ | ⟨answer, rfl⟩ := h.comes
  · obtain ⟨-, hsame⟩ | hnew := hinner.program hfresh
    · exact .inl (hsame.trans hguarded)
    · exact .inr (.inl hnew)
  · exact .inl ((guarded_enter session text).trans hguarded)
  · obtain hbrings | ⟨request, bytes, hloading, rfl, ⟨hmerge, hform⟩ | hother⟩ := answer_cases session answer
    · left
      rw [program_of_refused hbrings, hguarded]
    · left
      rw [program_of_merged hloading hmerge hform]
      exact Program.guarded_merge hguarded _
    · exact .inr (.inr ⟨request, bytes, hloading, hother, rfl, program_of_replaced hloading hother⟩)

/-- **Guarded lines are never listed.** In every session that a host can bring about it is told which
lines a guarded file put there. While one of them stands, no part of the program is listed, and a LIST that
is carried out fails and prints nothing. This stays so until NEW leaves no line, or a file that is loaded
or chained leaves none but its own. -/
theorem guarded_lines_never_listed :
    (∀ calls, (afterCalls calls).Reachable) ∧
    (∀ session : Session, session.Reachable → ∃ lines, Marked session lines) ∧
    ∀ (session : Session) (lines : Nat → Prop), Marked session lines → ∀ n, lines n →
      session.program.lines.contains n = true ∧
      (∀ first last, session.program.list first last = .error (.of .illegalFunctionCall)) ∧
      (∀ first last, session.nextStatement? = some (.command (.list first last)) →
        step.outcome session = (.error (.of .illegalFunctionCall), session.begun)) ∧
      ∀ after, Move session after →
        (∀ first last, after.program.list first last = .error (.of .illegalFunctionCall)) ∨
        (session.nextStatement? = some (.command .new) ∧ after = session.stepOrRaise ∧ after.program = .empty) ∨
        ∃ request bytes, session.loading = some request ∧ request.kind ≠ .merge ∧
          after = session.completeLoad (.ok bytes) ∧ after.program = (Program.ofBytes bytes).1 := by
  refine ⟨reachable_afterCalls, fun session => exists_marked, fun session lines hmarked n hn => ?_⟩
  obtain ⟨hthere, hguarded⟩ := hmarked.guarded hn
  refine ⟨hthere, Program.list_of_guarded hguarded, fun first last hnext => ?_, fun after hmove => ?_⟩
  · rw [outcome_step hnext]
    apply outcome_list
    rw [program_begun, hguarded]
  · obtain hstays | hends := hmove.guarded hmarked.reachable.fresh hguarded
    · exact .inl (Program.list_of_guarded hstays)
    · exact .inr hends

/-- A guarded file with the line `10 PRINT 1`. -/
def guardedFile : List UInt8 := [0xFE, 0x4E, 0xA7, 0xBF, 0x54, 0xE2, 0x12, 0xAD, 0xF1, 0x89, 0xF9]

/-- A session that has asked for a file. -/
def awaitingFile : Session := afterCalls [.enter "LOAD \"A\"", .execute 1]

/-- The guarded file with a line typed into it. -/
def typedInto : Session := ((awaitingFile.completeLoad (.ok guardedFile)).enter "20 PRINT 2").2

theorem guarded_lines_never_listed_typedInto :
    ∃ lines, Marked typedInto lines ∧ lines 10 ∧
      typedInto.program.list none none = .error (.of .illegalFunctionCall) := by
  obtain ⟨hcalls, hmarks, hlisted⟩ := guarded_lines_never_listed
  obtain ⟨before, hbefore⟩ := hmarks awaitingFile (hcalls _)
  obtain ⟨hloading, hfile, hother⟩ : awaitingFile.loading = some ⟨"A", .load false⟩ ∧
      (Image.Form.ofBytes guardedFile = .guarded ∧ (Program.ofBytes guardedFile).1.lines.contains 10 = true) ∧
      ∀ line ∈ (awaitingFile.completeLoad (.ok guardedFile)).taken "20 PRINT 2", line.number ≠ some 10 := by
    rw [awaitingFile, afterCalls_eq, taken_eq]
    decide +kernel
  have hmarked := (hbefore.replace hloading (by decide) guardedFile).enter "20 PRINT 2"
  exact ⟨_, hmarked, ⟨hfile, hother⟩, (hlisted _ _ hmarked 10 ⟨hfile, hother⟩).2.1 none none⟩

end Session

end LineBasic
