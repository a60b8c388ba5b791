import LineBasic.Proofs.Reachable

/-! What has to do with neither the lines that wait nor the break flag. A statement may print, report and
assign keys, and a file may take the place of the whole program; but only the calls of a host bring direct
lines and breaks, and only a call that carries the session on tells that it has stopped. Nor does any of it
change which statement was carried out last: that does only the next statement. -/

namespace LineBasic

namespace Session

open Act SessionAct

variable {session after : Session}

/-- The lines that wait and the break flag are the same, and the session has not told that it stopped. -/
structure KeepsQueue (session after : Session) : Prop where
  waiting : after.waiting = session.waiting
  breakSeen : after.keys.breakSeen = session.keys.breakSeen
  untold : .stopped ∉ session.events → .stopped ∉ after.events

/-- The same, and the statement that was carried out last is the same too. -/
structure KeepsPlace (session after : Session) : Prop extends KeepsQueue session after where
  current : after.current = session.current

theorem KeepsPlace.of_fields (hwaiting : after.waiting = session.waiting) (hkeys : after.keys = session.keys)
    (hevents : after.events = session.events) (hcurrent : after.current = session.current) :
    KeepsPlace session after where
  waiting := hwaiting
  breakSeen := by rw [hkeys]
  untold h := by rwa [hevents]
  current := hcurrent

instance : IsPreorder Session KeepsQueue where
  refl _ := ⟨rfl, rfl, id⟩
  trans _ _ _ h h' := ⟨h'.waiting.trans h.waiting, h'.breakSeen.trans h.breakSeen, h'.untold ∘ h.untold⟩

instance : IsPreorder Session KeepsPlace where
  refl _ := .of_fields rfl rfl rfl rfl
  trans _ _ _ h h' :=
    { trans_of KeepsQueue h.toKeepsQueue h'.toKeepsQueue with current := h'.current.trans h.current }

theorem not_mem_appendPrint {events : List Event} (text : String) (h : .stopped ∉ events) :
    .stopped ∉ appendPrint text events := by
  fun_induction appendPrint text events with
  | case1 => simp
  | case2 before => simp
  | case3 event rest _ ih =>
      rw [List.mem_cons, not_or] at h ⊢
      exact ⟨h.1, ih h.2⟩

theorem keepsPlace_print (session : Session) (text : String) : KeepsPlace session (session.print text) where
  waiting := rfl
  breakSeen := rfl
  untold := not_mem_appendPrint text
  current := rfl

theorem not_mem_report {events : List Event} {event : Event} (hevent : event ≠ .stopped) (h : .stopped ∉ events) :
    .stopped ∉ events ++ [event] := by
  rw [List.mem_append, List.mem_singleton, not_or]
  exact ⟨h, hevent.symm⟩

theorem keepsPlace_report (session : Session) {event : Event} (h : event ≠ .stopped) :
    KeepsPlace session (session.report event) where
  waiting := rfl
  breakSeen := rfl
  untold := not_mem_report h
  current := rfl

theorem Change.keepsPlace (h : Change session after) : KeepsPlace session after := by
  cases h with
  | print text => exact keepsPlace_print session text
  | files pattern => exact keepsPlace_report session (by rintro ⟨⟩)
  | keys label text => exact ⟨⟨rfl, rfl, id⟩, rfl⟩
  | work | cursor | push | truncate | column | functions | gather | dataPosition | display =>
      exact .of_fields rfl rfl rfl rfl

instance : AllowsChange KeepsPlace where
  change h _ := h.keepsPlace

theorem Changes.keepsPlace (h : Changes session after) : KeepsPlace session after := by
  induction h with
  | refl => exact refl_of KeepsPlace session
  | tail _ hlast ih => exact trans_of KeepsPlace ih hlast.keepsPlace

theorem keepsPlace_raise (session : Session) (fault : Fault) : KeepsPlace session (session.raise fault) := by
  have hfaults : ∀ list, Event.faults list ≠ .stopped := by rintro _ ⟨⟩
  unfold raise
  dsimp only
  split
  · exact .of_fields rfl rfl rfl rfl
  · split
    · exact ⟨⟨rfl, rfl, fun h => not_mem_report (hfaults _) (not_mem_appendPrint "\n" h)⟩, rfl⟩
    · exact ⟨⟨rfl, rfl, not_mem_report (hfaults _)⟩, rfl⟩

theorem keepsPlace_breakOff (session : Session) : KeepsPlace session session.breakOff := by
  unfold breakOff
  split
  · exact ⟨⟨rfl, rfl, not_mem_appendPrint _⟩, rfl⟩
  · exact .of_fields rfl rfl rfl rfl

/-- The statement that is about to be carried out is the only one that takes the place of the last. -/
theorem keepsPlace_begun (session : Session) :
    KeepsPlace { session with current := session.begun.current } session.begun := by
  cases hnext : session.nextStatement? with
  | none =>
      rw [begun_of_none hnext]
      exact .of_fields rfl rfl rfl rfl
  | some next =>
      obtain ⟨cursor, hcursor, -⟩ := exists_cursor hnext
      rw [begun_of_some hcursor hnext]
      unfold beginStatement
      split
      · exact ⟨⟨rfl, rfl, not_mem_appendPrint _⟩, rfl⟩
      · exact .of_fields rfl rfl rfl rfl

theorem keepsPlace_mergeProgram (session : Session) (program : Program) :
    KeepsPlace session (session.mergeProgram program) := by
  unfold mergeProgram
  split
  · exact keepsPlace_raise session _
  · exact .of_fields rfl rfl rfl rfl

theorem keepsPlace_chainProgram (session : Session) (program : Program) (line : Option Nat) (all : Bool) :
    KeepsPlace session (session.chainProgram program line all) := by
  unfold chainProgram
  dsimp only
  split
  · exact .of_fields rfl rfl rfl rfl
  · split
    · exact .of_fields rfl rfl rfl rfl
    · refine trans_of KeepsPlace ?_ (keepsPlace_raise _ _)
      exact .of_fields rfl rfl rfl rfl

theorem keepsPlace_takeIn (session : Session) (program : Program) (kind : LoadKind) :
    KeepsPlace session (match kind with
      | .load andRun => session.loadProgram program andRun
      | .merge => session.mergeProgram program
      | .chain line all => session.chainProgram program line all) := by
  cases kind with
  | load andRun => cases andRun <;> exact .of_fields rfl rfl rfl rfl
  | merge => exact keepsPlace_mergeProgram session program
  | chain line all => exact keepsPlace_chainProgram session program line all

/-- A file that comes in has nothing to do with the lines that wait. -/
theorem keepsPlace_completeLoad (session : Session) (answer : Except Fault (List UInt8)) :
    KeepsPlace session (session.completeLoad answer) := by
  unfold completeLoad
  split
  · exact refl_of KeepsPlace session
  · rename_i request _
    have hwaited : KeepsPlace session { session with loading := none } := .of_fields rfl rfl rfl rfl
    dsimp only
    cases answer with
    | error fault => exact trans_of KeepsPlace hwaited (keepsPlace_raise _ fault)
    | ok bytes =>
        refine trans_of KeepsPlace ?_ (keepsPlace_takeIn _ (Program.ofBytes bytes).1 request.kind)
        split
        · exact hwaited
        · exact trans_of KeepsPlace hwaited (keepsPlace_report _ (by rintro ⟨⟩))

end Session

namespace SessionAct

open Act Session

theorem keepsPlace_onError (line : Nat) : Relates KeepsPlace (onError line) := by
  have hsettings : ∀ change, Relates KeepsPlace (changeSettings change) := fun _ _ => .of_fields rfl rfl rfl rfl
  unfold onError
  split
  · refine (hsettings _).bind fun _ => relates_get_bind fun session => ?_
    split
    · exact .of_fields rfl rfl rfl rfl
    · exact refl_of KeepsPlace session
  · exact (relates_lineStart line).bind fun _ => hsettings _

theorem keepsPlace_resume (target : ResumeAt) : Relates KeepsPlace (resume target) := by
  intro session
  by_cases htrapped : session.state = .trapped ∧ session.settings.resume.isSome
  · obtain ⟨hstate, hsome⟩ := htrapped
    obtain ⟨failed, hresume⟩ := Option.isSome_iff_exists.mp hsome
    have hleft : KeepsPlace session session.leaveHandler := .of_fields rfl rfl rfl rfl
    rw [outcome_resume hstate hresume]
    cases target with
    | retry => exact trans_of KeepsPlace hleft (relates_goOnAt _ _)
    | next => exact trans_of KeepsPlace hleft (relates_goOnAt _ _)
    | line number => exact trans_of KeepsPlace hleft (relates_goto number _)
  · rw [outcome_resume_of_not htrapped]
    exact refl_of KeepsPlace session

/-- No command has to do with the lines that wait. -/
theorem keepsPlace_command (c : Command) : Relates KeepsPlace (command c) := by
  by_cases hordinary : c.isOrdinary = true
  · exact relates_command hordinary
  · cases c with
    | auto _ _ => exact fun _ => .of_fields rfl rfl rfl rfl
    | chain path _ _ | load path _ | merge path =>
        exact (relates_evalText path).bind fun _ _ => .of_fields rfl rfl rfl rfl
    | clear arguments => exact (relates_evalInts arguments).bind fun _ _ => .of_fields rfl rfl rfl rfl
    | cont =>
        refine relates_get_bind fun session => ?_
        dsimp only
        split <;> exact .of_fields rfl rfl rfl rfl
    | finish =>
        refine relates_get_bind fun session => ?_
        dsimp only
        split <;> exact .of_fields rfl rfl rfl rfl
    | new => exact fun _ => .of_fields rfl rfl rfl rfl
    | onError line => exact keepsPlace_onError line
    | read targets => exact (changes_read targets).mono fun _ _ h => h.keepsPlace
    | restore line => exact (changes_restore line).mono fun _ _ h => h.keepsPlace
    | resume target => exact keepsPlace_resume target
    | run line =>
        cases line with
        | none => exact fun _ => .of_fields rfl rfl rfl rfl
        | some number => exact ((relates_lineStart number).map some).bind fun _ _ => .of_fields rfl rfl rfl rfl
    | stop => exact keepsPlace_breakOff
    | _ => exact absurd rfl hordinary

theorem keepsPlace_endOfProgram : Relates KeepsPlace endOfProgram := by
  refine relates_get_bind fun session => ?_
  split
  · exact refl_of KeepsPlace session
  · exact .of_fields rfl rfl rfl rfl

end SessionAct

namespace Session

open Act SessionAct

variable {session after : Session}

/-- A step keeps everything of this but the statement that was carried out last. That is the one that it
carries out, where there is one. -/
theorem keepsPlace_stepOrRaise (session : Session) :
    KeepsPlace { session with current := session.begun.current } session.stepOrRaise := by
  have hsettle : ∀ outcome : Except Fault Unit × Session, KeepsPlace outcome.2 (settle outcome) := by
    rintro ⟨fault | _, after⟩
    · exact keepsPlace_raise after fault
    · exact refl_of KeepsPlace after
  rw [stepOrRaise_eq]
  refine trans_of KeepsPlace (trans_of KeepsPlace (keepsPlace_begun session) ?_) (hsettle _)
  cases hnext : session.nextStatement? with
  | none =>
      rw [outcome_step_of_none hnext, ← begun_of_none hnext]
      exact keepsPlace_endOfProgram session.begun
  | some next =>
      rw [outcome_step hnext]
      cases next with
      | command c => exact keepsPlace_command c session.begun
      | choice condition _ _ => exact relates_choose condition session.begun

theorem keepsQueue_stepOrRaise (session : Session) : KeepsQueue session session.stepOrRaise := by
  obtain ⟨hwaiting, hseen, huntold⟩ := (keepsPlace_stepOrRaise session).toKeepsQueue
  exact ⟨hwaiting, hseen, huntold⟩

end Session

end LineBasic
