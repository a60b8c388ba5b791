import LineBasic.Proofs.DataOrder
import LineBasic.Proofs.Reachable

/-! The gathered DATA items of a session. They are gathered once and kept, while lines are typed,
loaded and merged. Each move keeps the program's lines and the gathered items as they are, or forgets
the items, so that items that are kept are always those of the program. -/

namespace LineBasic

namespace Session

open Act SessionAct

variable {session after : Session}

/-- The items that READ goes through: those gathered before, or else those of the program. -/
def items (session : Session) : List DataItem := session.data.getD session.program.data

/-- The program's lines and the items that READ goes through are the same, and every line that came
to wait is a direct one. -/
structure KeepsItems (session after : Session) : Prop where
  lines : after.program.lines = session.program.lines
  items : after.items = session.items
  waiting : ∀ line ∈ after.waiting, line ∈ session.waiting ∨ line.isDirect = true

/-- The DATA position is the same as well. -/
structure KeepsData (session after : Session) : Prop extends KeepsItems session after where
  position : after.dataPosition = session.dataPosition

theorem KeepsItems.trans {first second third : Session} (h : KeepsItems first second)
    (h' : KeepsItems second third) : KeepsItems first third where
  lines := h'.lines.trans h.lines
  items := h'.items.trans h.items
  waiting line hline := by
    rcases h'.waiting line hline with hsecond | hdirect
    · exact h.waiting line hsecond
    · exact .inr hdirect

/-- A change to other parts of a session. -/
theorem KeepsData.of_fields (hlines : after.program.lines = session.program.lines)
    (hdata : after.data = session.data) (hposition : after.dataPosition = session.dataPosition)
    (hwaiting : after.waiting = session.waiting) : KeepsData session after where
  lines := hlines
  items := by rw [Session.items, Session.items, hdata, Program.data_congr hlines]
  waiting line hline := .inl (hwaiting ▸ hline)
  position := hposition

instance : IsPreorder Session KeepsData where
  refl _ := .of_fields rfl rfl rfl rfl
  trans _ _ _ h h' := ⟨h.toKeepsItems.trans h'.toKeepsItems, h'.position.trans h.position⟩

theorem Change.keepsItems (h : Change session after) : KeepsItems session after := by
  cases h <;> exact ⟨rfl, rfl, fun _ => .inl⟩

theorem Changes.keepsItems (h : Changes session after) : KeepsItems session after := by
  induction h with
  | refl => exact ⟨rfl, rfl, fun _ => .inl⟩
  | tail _ hlast ih => exact ih.trans hlast.keepsItems

instance : AllowsChange KeepsData where
  change h hposition := ⟨h.keepsItems, hposition⟩

theorem keepsData_raise (session : Session) (fault : Fault) :
    KeepsData session (session.raise fault) := by
  unfold raise
  dsimp only
  split
  · exact .of_fields rfl rfl rfl rfl
  · split <;> exact .of_fields rfl rfl rfl rfl

theorem keepsData_settle (outcome : Except Fault Unit × Session) :
    KeepsData outcome.2 (settle outcome) := by
  rcases outcome with ⟨fault | _, after⟩
  · exact keepsData_raise after fault
  · exact refl_of KeepsData after

theorem keepsData_breakOff (session : Session) : KeepsData session session.breakOff := by
  unfold breakOff
  split <;> exact .of_fields rfl rfl rfl rfl

theorem keepsData_interrupt (session : Session) : KeepsData session session.interrupt := by
  have hquiet : KeepsData session
      { session with
        settings := { session.settings with auto := none }
        loading := none
        waiting := [] } :=
    ⟨⟨rfl, rfl, fun _ hline => absurd hline List.not_mem_nil⟩, rfl⟩
  unfold interrupt
  dsimp only
  split
  · exact trans_of KeepsData hquiet (keepsData_breakOff _)
  · exact hquiet

theorem keepsData_begun (session : Session) : KeepsData session session.begun := by
  cases hnext : session.nextStatement? with
  | none =>
      rw [begun_of_none hnext]
      exact .of_fields rfl rfl rfl rfl
  | some next =>
      obtain ⟨cursor, hcursor, -⟩ := exists_cursor hnext
      rw [begun_of_some hcursor hnext]
      unfold beginStatement
      split <;> exact .of_fields rfl rfl rfl rfl

end Session

/-- Whether the command sets the DATA position anew. -/
def Command.resetsData : Command → Bool
  | clear _ | new | restore _ | run _ => true
  | _ => false

namespace SessionAct

open Act Session

theorem keepsData_changeSettings (change : Settings → Settings) :
    Relates KeepsData (changeSettings change) :=
  fun _ => .of_fields rfl rfl rfl rfl

theorem keepsData_requestLoad (path : Expr) (kind : LoadKind) :
    Relates KeepsData (requestLoad path kind) :=
  (relates_evalText path).bind fun _ _ => .of_fields rfl rfl rfl rfl

theorem keepsData_cont : Relates KeepsData cont := by
  refine relates_get_bind fun session => ?_
  dsimp only
  split
  · exact .of_fields rfl rfl rfl rfl
  · exact refl_of KeepsData session

theorem keepsData_finish : Relates KeepsData finish := by
  refine relates_get_bind fun session => ?_
  dsimp only
  split
  · exact refl_of KeepsData session
  · exact .of_fields rfl rfl rfl rfl

theorem keepsData_onError (line : Nat) : Relates KeepsData (onError line) := by
  unfold onError
  split
  · refine (keepsData_changeSettings _).bind fun _ => relates_get_bind fun session => ?_
    split
    · exact .of_fields rfl rfl rfl rfl
    · exact refl_of KeepsData session
  · exact (relates_lineStart line).bind fun _ => keepsData_changeSettings _

theorem keepsData_resume (target : ResumeAt) : Relates KeepsData (resume target) := by
  intro session
  by_cases htrapped : session.state = .trapped ∧ session.settings.resume.isSome
  · obtain ⟨hstate, hsome⟩ := htrapped
    obtain ⟨failed, hresume⟩ := Option.isSome_iff_exists.mp hsome
    have hleft : KeepsData session session.leaveHandler := .of_fields rfl rfl rfl rfl
    rw [outcome_resume hstate hresume]
    cases target with
    | retry => exact trans_of KeepsData hleft (relates_goOnAt _ _)
    | next => exact trans_of KeepsData hleft (relates_goOnAt _ _)
    | line number => exact trans_of KeepsData hleft (relates_goto number _)
  · rw [outcome_resume_of_not htrapped]
    exact refl_of KeepsData session

theorem keepsData_endOfProgram : Relates KeepsData endOfProgram := by
  refine relates_get_bind fun session => ?_
  split
  · exact refl_of KeepsData session
  · exact .of_fields rfl rfl rfl rfl

/-- A command that neither reads items nor sets their position anew has nothing to do with them. -/
theorem keepsData_command {c : Command} (hresets : c.resetsData = false)
    (hread : ∀ targets, c ≠ .read targets) : Relates KeepsData (command c) := by
  by_cases hc : c.isOrdinary = true
  · exact relates_command hc
  · cases c with
    | auto _ _ => exact fun _ => .of_fields rfl rfl rfl rfl
    | chain path _ _ | load path _ | merge path => exact keepsData_requestLoad path _
    | cont => exact keepsData_cont
    | finish => exact keepsData_finish
    | onError line => exact keepsData_onError line
    | read targets => exact absurd rfl (hread targets)
    | resume target => exact keepsData_resume target
    | stop => exact keepsData_breakOff
    | clear | new | restore | run => cases hresets
    | _ => exact absurd rfl hc

/-- CLEAR and RUN fail before they clear anything. -/
theorem keepsData_of_error {c : Command} {session : Session} (hresets : c.resetsData = true)
    (hrestore : ∀ line, c ≠ .restore line)
    (herror : ((command c).outcome session).1.isOk = false) :
    KeepsData session ((command c).outcome session).2 := by
  cases c with
  | clear arguments =>
      have hvalues : KeepsData session ((evalInts arguments).outcome session).2 :=
        relates_evalInts arguments session
      rw [command, outcome_bind] at herror ⊢
      revert herror hvalues
      rcases (evalInts arguments).outcome session with ⟨fault | values, after⟩
      · exact fun _ hvalues => hvalues
      · intro herror
        cases herror
  | new => cases herror
  | restore line => exact absurd rfl (hrestore line)
  | run line =>
      cases line with
      | none => cases herror
      | some number =>
          rw [command, run, outcome_bind, outcome_map, outcome_lineStart] at herror ⊢
          cases hstart : session.program.start number with
          | error fault => exact refl_of KeepsData session
          | ok start =>
              rw [hstart] at herror
              cases herror
  | _ => cases hresets

end SessionAct

namespace Session

open Act SessionAct

variable {session after : Session}

/-- The items that READ goes through are those of the program, and only direct lines wait. -/
structure Fresh (session : Session) : Prop where
  items : session.items = session.program.data
  waiting : ∀ line ∈ session.waiting, line.isDirect = true

theorem Fresh.data (h : Fresh session) :
    session.data = none ∨ session.data = some session.program.data := by
  cases hdata : session.data with
  | none => exact .inl rfl
  | some list =>
      have hitems := h.items
      rw [Session.items, hdata, Option.getD_some] at hitems
      exact .inr (congrArg some hitems)

theorem KeepsItems.fresh (h : KeepsItems session after) (hfresh : Fresh session) : Fresh after where
  items := by rw [h.items, hfresh.items, Program.data_congr h.lines]
  waiting line hline := (h.waiting line hline).elim (hfresh.waiting line) id

/-- Whatever became of the program, items that are forgotten are not out of date. -/
theorem Fresh.forget (h : Fresh session) (hdata : after.data = none)
    (hwaiting : after.waiting = session.waiting) : Fresh after where
  items := by rw [Session.items, hdata, Option.getD_none]
  waiting := hwaiting ▸ h.waiting

/-- The session is up to date after, if it was before. -/
def KeepsFresh (session after : Session) : Prop := Fresh session → Fresh after

instance : AllowsChange KeepsFresh where
  refl _ := id
  trans _ _ _ h h' := h' ∘ h
  change h _ := h.keepsItems.fresh

theorem keepsFresh_command (c : Command) : Relates KeepsFresh (command c) := by
  cases c with
  | clear arguments => exact (relates_evalInts arguments).bind fun _ _ h => h.forget rfl rfl
  | new => exact fun _ h => h.forget rfl rfl
  | run line =>
      cases line with
      | none => exact fun _ h => h.forget rfl rfl
      | some number =>
          exact ((relates_lineStart number).map some).bind fun _ _ h => h.forget rfl rfl
  | read targets => exact (changes_read targets).mono fun _ _ h => h.keepsItems.fresh
  | restore line => exact (changes_restore line).mono fun _ _ h => h.keepsItems.fresh
  | _ => exact (keepsData_command rfl (by rintro _ ⟨⟩)).mono fun _ _ h => h.fresh

theorem keepsFresh_statement (next : Statement) : Relates KeepsFresh (statement next) := by
  cases next with
  | command c => exact keepsFresh_command c
  | choice condition _ _ => exact relates_choose condition

theorem Fresh.stepOrRaise (h : Fresh session) : Fresh session.stepOrRaise := by
  rw [stepOrRaise_eq]
  apply (keepsData_settle _).fresh
  have hbegun := (keepsData_begun session).fresh h
  cases hnext : session.nextStatement? with
  | none =>
      rw [outcome_step_of_none hnext, ← begun_of_none hnext]
      exact (keepsData_endOfProgram session.begun).fresh hbegun
  | some next =>
      rw [outcome_step hnext]
      exact keepsFresh_statement next session.begun hbegun

/-- A direct line takes the place of the direct line alone. -/
theorem keepsData_startDirect {line : Line} (hline : line.isDirect = true) (session : Session) :
    KeepsData session (session.startDirect line) := by
  refine .of_fields ?_ rfl rfl rfl
  change (session.program.insert line).lines = session.program.lines
  rw [Program.insert, Option.isNone_iff_eq_none.mp hline]

theorem keepsData_takeLine {line : Line} (hline : line.isDirect = true) (session : Session) :
    KeepsData session (session.takeLine line) := by
  rw [takeLine, if_pos hline]
  split
  · exact refl_of KeepsData session
  · split
    · refine ⟨⟨rfl, rfl, fun other hother => ?_⟩, rfl⟩
      rcases List.mem_append.mp hother with hbefore | hlast
      · exact .inl hbefore
      · exact .inr (List.mem_singleton.mp hlast ▸ hline)
    · exact keepsData_startDirect hline session

theorem Fresh.takeLine (h : Fresh session) (line : Line) : Fresh (session.takeLine line) := by
  by_cases hline : line.isDirect = true
  · exact (keepsData_takeLine hline session).fresh h
  · rw [Session.takeLine, if_neg hline]
    exact h.forget rfl rfl

/-- The lines that are taken in when a text is entered. A text with a line that cannot be read is not
taken in at all. -/
def taken (session : Session) (entered : String) : List Line :=
  match (session.numberedText entered).1 with
  | none => []
  | some text =>
      let parsed := Parsed.ofTokens (Token.lex text)
      if parsed.faults.isEmpty then parsed.lines else []

/-- They are evaluated by the characters of the text. -/
theorem taken_eq (session : Session) (entered : String) :
    session.taken entered =
      match (session.numberedCharacters (Text.characters entered)).1 with
      | none => []
      | some text =>
          let parsed := Parsed.ofTokens (Token.lexCharacters text)
          if parsed.faults.isEmpty then parsed.lines else [] := by
  rw [taken, numberedText_eq_map, Prod.map_fst, Text.characters_eq]
  cases (session.numberedCharacters entered.toList).1 with
  | none => rfl
  | some text =>
      dsimp only [Option.map_some]
      rw [Token.lex_ofList]

theorem keepsData_numberedText (session : Session) (entered : String) :
    KeepsData session (session.numberedText entered).2 := by
  rw [numberedText_eq]
  exact .of_fields rfl rfl rfl rfl

/-- Before its lines are taken in, a text that is entered has nothing to do with DATA items. -/
theorem exists_enter (session : Session) (entered : String) :
    ∃ ready, KeepsData session ready ∧
      (session.enter entered).2 = (session.taken entered).foldl Session.takeLine ready := by
  have hnumbered := keepsData_numberedText session entered
  unfold enter taken
  revert hnumbered
  rcases session.numberedText entered with ⟨none | text, ready⟩
  · exact fun hready => ⟨ready, hready, rfl⟩
  · intro hready
    dsimp only
    split
    · exact ⟨ready, hready, rfl⟩
    · refine ⟨ready.report _, ?_, rfl⟩
      apply trans_of KeepsData hready
      exact .of_fields rfl rfl rfl rfl

/-- What holds for each line that is taken in holds for all of them together. -/
theorem relates_takeLines {R : Session → Session → Prop} [IsPreorder Session R] {lines : List Line}
    (h : ∀ line ∈ lines, ∀ session : Session, R session (session.takeLine line))
    (session : Session) : R session (lines.foldl Session.takeLine session) := by
  induction lines generalizing session with
  | nil => exact refl_of R session
  | cons line rest ih =>
      obtain ⟨hline, hrest⟩ := List.forall_mem_cons.mp h
      exact trans_of R (hline session) (ih hrest _)

theorem Fresh.enter (h : Fresh session) (entered : String) : Fresh (session.enter entered).2 := by
  obtain ⟨ready, hready, heq⟩ := exists_enter session entered
  have hlines : KeepsFresh ready ((session.taken entered).foldl Session.takeLine ready) :=
    relates_takeLines (fun line _ _ hbefore => hbefore.takeLine line) ready
  rw [heq]
  exact hlines (hready.fresh h)

theorem keepsData_enter {entered : String}
    (hlines : ∀ line ∈ session.taken entered, line.isDirect = true) :
    KeepsData session (session.enter entered).2 := by
  obtain ⟨ready, hready, heq⟩ := exists_enter session entered
  rw [heq]
  apply trans_of KeepsData hready
  exact relates_takeLines (fun line hline => keepsData_takeLine (hlines line hline)) ready

theorem Fresh.mergeProgram (h : Fresh session) (program : Program) :
    Fresh (session.mergeProgram program) := by
  unfold Session.mergeProgram
  split
  · exact (keepsData_raise _ _).fresh h
  · exact h.forget rfl rfl

theorem Fresh.chainProgram (h : Fresh session) (program : Program) (line : Option Nat) (all : Bool) :
    Fresh (session.chainProgram program line all) := by
  unfold Session.chainProgram
  dsimp only
  split
  · exact h.forget rfl rfl
  · split
    · exact h.forget rfl rfl
    · exact (keepsData_raise _ _).fresh (h.forget rfl rfl)

theorem Fresh.takeIn (h : Fresh session) (program : Program) (kind : LoadKind) :
    Fresh (match kind with
      | .load andRun => session.loadProgram program andRun
      | .merge => session.mergeProgram program
      | .chain line all => session.chainProgram program line all) := by
  cases kind with
  | load andRun => cases andRun <;> exact h.forget rfl rfl
  | merge => exact h.mergeProgram program
  | chain line all => exact h.chainProgram program line all

theorem Fresh.completeLoad (h : Fresh session) (answer : Except Fault (List UInt8)) :
    Fresh (session.completeLoad answer) := by
  unfold Session.completeLoad
  split
  · exact h
  · rename_i request _
    dsimp only
    cases answer with
    | error fault => exact (keepsData_raise _ fault).fresh ⟨h.items, h.waiting⟩
    | ok bytes =>
        refine Fresh.takeIn ?_ (Program.ofBytes bytes).1 request.kind
        split <;> exact ⟨h.items, h.waiting⟩

/-- Whether the answer to a request changes the program: the file came, and it is not a guarded one
that was to be merged. -/
def bringsLines (session : Session) : Except Fault (List UInt8) → Bool
  | .error _ => false
  | .ok bytes => session.loading.any fun request =>
      !(request.kind = .merge && (Program.ofBytes bytes).1.guarded)

theorem keepsData_completeLoad {answer : Except Fault (List UInt8)}
    (h : session.bringsLines answer = false) : KeepsData session (session.completeLoad answer) := by
  unfold Session.completeLoad
  split
  · exact refl_of KeepsData session
  · rename_i request hloading
    dsimp only
    cases answer with
    | error fault =>
        apply trans_of KeepsData _ (keepsData_raise _ fault)
        exact .of_fields rfl rfl rfl rfl
    | ok bytes =>
        rw [bringsLines, hloading, Option.any_some, Bool.not_eq_false', Bool.and_eq_true,
          decide_eq_true_eq] at h
        dsimp only
        rw [h.1]
        dsimp only
        rw [mergeProgram, if_pos h.2]
        apply trans_of KeepsData _ (keepsData_raise _ _)
        split <;> exact .of_fields rfl rfl rfl rfl

theorem Fresh.move (h : Fresh session) (hmove : Move session after) : Fresh after := by
  cases hmove with
  | step => exact h.stepOrRaise
  | obey =>
      apply (keepsData_interrupt _).fresh
      exact ⟨h.items, h.waiting⟩
  | start _ _ _ hwaiting =>
      have hlines := h.waiting
      rw [hwaiting] at hlines
      obtain ⟨hline, hrest⟩ := List.forall_mem_cons.mp hlines
      apply (keepsData_startDirect hline _).fresh
      exact ⟨h.items, hrest⟩
  | report | sendKey | sendBreak => exact ⟨h.items, h.waiting⟩
  | enter entered => exact h.enter entered
  | interrupt => exact (keepsData_interrupt session).fresh h
  | completeLoad answer => exact h.completeLoad answer

/-- **The gathered items are never out of date.** -/
theorem Reachable.fresh (h : Reachable session) : Fresh session := by
  induction h with
  | new => exact ⟨rfl, fun _ hline => absurd hline List.not_mem_nil⟩
  | move _ hmove ih => exact ih.move hmove

end Session

end LineBasic
