import LineBasic.Proofs.DataCache

/-! What READ gives. Every attempt to read an item gives the next one that is unread, as a value for
the variable that asked for it, or the fault that the data are used up. Runs in which nothing sets the
DATA position anew hand out the items one after another, so that after RESTORE they are those from a
line on. -/

namespace LineBasic

/-- The item as a value for a variable. -/
def DataItem.valueFor (item : DataItem) (target : Variable) : Except Fault Value :=
  if target.name.type = .text then .ok (.text item.datum.text)
  else
    match item.datum with
    | .raw text =>
        if (Text.trim text.toList).isEmpty then .ok (.int 0)
        else if isNumericItem text.toList then .ok (.ofNumericText text)
        else .error ((Fault.of .syntaxError).inLine (some item.line))
    | .quoted _ => .error ((Fault.of .syntaxError).inLine (some item.line))

/-- What variables are given that ask for items one after another. -/
def handOut (items : List DataItem) (targets : List Variable) : List (Except Fault Value) :=
  targets.mapIdx fun index target =>
    match items[index]? with
    | some item => item.valueFor target
    | none => .error (.of .outOfData)

/-- A variable that asked for an item, and what it was given. -/
structure Attempt where
  target : Variable
  result : Except Fault Value

namespace SessionAct

open Act

/-- READ with a record of its attempts: these, and its outcome. -/
def readLogged : List Variable → Session → List Attempt × (Except Fault Unit × Session)
  | [], session => ([], .ok ⟨⟩, session)
  | target :: rest, session =>
      match (readItem target).outcome session with
      | (.error fault, after) => ([⟨target, .error fault⟩], .error fault, after)
      | (.ok value, given) =>
          match (store target value).outcome given with
          | (.error fault, after) => ([⟨target, .ok value⟩], .error fault, after)
          | (.ok _, stored) =>
              let (log, outcome) := readLogged rest stored
              (⟨target, .ok value⟩ :: log, outcome)

/-- The record is one of what READ does. -/
theorem outcome_read (targets : List Variable) (session : Session) :
    (read targets).outcome session = (readLogged targets session).2 := by
  induction targets generalizing session with
  | nil => rfl
  | cons target rest ih =>
      rw [read, readLogged, outcome_bind]
      rcases (readItem target).outcome session with ⟨fault | value, given⟩
      · rfl
      · dsimp only
        rw [outcome_bind]
        rcases (store target value).outcome given with ⟨fault | _, stored⟩
        · rfl
        · exact ih stored

end SessionAct

namespace Session

open Act SessionAct

variable {session after : Session}

/-- The items of the program that were not read yet. -/
def unread (session : Session) : List DataItem := session.program.data.drop session.dataPosition

theorem KeepsData.unread (h : KeepsData session after) : after.unread = session.unread := by
  rw [Session.unread, Session.unread, h.position, Program.data_congr h.lines]

/-- The attempts gave the items that were unread before, one after another, and the others are unread
after. -/
structure Serves (session : Session) (log : List Attempt) (after : Session) : Prop where
  results : log.map Attempt.result = handOut session.unread (log.map Attempt.target)
  unread : after.unread = session.unread.drop log.length

theorem KeepsData.serves (h : KeepsData session after) : Serves session [] after where
  results := rfl
  unread := h.unread

theorem Serves.keep {last : Session} {log : List Attempt} (h : Serves session log after)
    (hkeeps : KeepsData after last) : Serves session log last where
  results := h.results
  unread := hkeeps.unread.trans h.unread

theorem Serves.trans {first second third : Session} {log more : List Attempt}
    (h : Serves first log second) (h' : Serves second more third) :
    Serves first (log ++ more) third where
  results := by
    rw [List.map_append, List.map_append, h.results, h'.results, h.unread]
    unfold handOut
    rw [List.mapIdx_append, List.length_map]
    simp only [List.getElem?_drop, Nat.add_comm]
  unread := by rw [h'.unread, h.unread, List.drop_drop, List.length_append]

/-- An attempt gives the first item that is unread, and is past it whatever comes of it. -/
theorem outcome_readItem (h : Fresh session) (target : Variable) :
    (readItem target).outcome session =
      match session.unread[0]? with
      | some item =>
          (item.valueFor target,
            { session with
              data := some session.program.data
              dataPosition := session.dataPosition + 1 })
      | none => (.error (.of .outOfData), { session with data := some session.program.data }) := by
  have hitems : dataItems.outcome session =
      (.ok session.program.data, { session with data := some session.program.data }) := by
    rw [← h.items]
    rfl
  rw [readItem, outcome_bind, hitems]
  dsimp only
  rw [outcome_bind, outcome_get, unread, List.getElem?_drop, Nat.add_zero]
  dsimp only
  cases session.program.data[session.dataPosition]? with
  | none => rfl
  | some item =>
      obtain ⟨line, datum⟩ := item
      dsimp only
      rw [outcome_bind, outcome_set, DataItem.valueFor]
      dsimp only
      split
      · rfl
      · cases datum with
        | quoted text => rfl
        | raw text =>
            dsimp only
            split
            · rfl
            · split <;> rfl

theorem serves_readItem (h : Fresh session) (target : Variable) :
    Serves session [⟨target, ((readItem target).outcome session).1⟩]
      ((readItem target).outcome session).2 := by
  rw [outcome_readItem h]
  cases hitem : session.unread[0]? with
  | some item =>
      refine ⟨?_, ?_⟩
      · simp [handOut, hitem]
      · exact List.drop_drop.symm
  | none =>
      refine ⟨?_, ?_⟩
      · simp [handOut, hitem]
      · have hnil : session.unread = [] := by simpa using hitem
        change session.unread = session.unread.drop 1
        rw [hnil, List.drop_nil]

theorem serves_readLogged (h : Fresh session) (targets : List Variable) :
    Serves session (readLogged targets session).1 (readLogged targets session).2.2 := by
  induction targets generalizing session with
  | nil => exact (refl_of KeepsData session).serves
  | cons target rest ih =>
      have hserves := serves_readItem h target
      have hgiven : Fresh ((readItem target).outcome session).2 :=
        (changes_readItem target session).keepsItems.fresh h
      rw [readLogged]
      revert hserves hgiven
      rcases (readItem target).outcome session with ⟨fault | value, given⟩
      · exact fun hserves _ => hserves
      · intro hserves hgiven
        have hstore : KeepsData given ((store target value).outcome given).2 :=
          relates_store target value given
        dsimp only
        revert hstore
        rcases (store target value).outcome given with ⟨fault | _, stored⟩
        · exact fun hstore => hserves.keep hstore
        · exact fun hstore => (hserves.keep hstore).trans (ih (hstore.fresh hgiven))

/-- The attempts of the next step, if it carries out READ. -/
def attempts (session : Session) : List Attempt :=
  match session.nextStatement? with
  | some (.command (.read targets)) => (readLogged targets session.begun).1
  | _ => []

/-- Whether the next step sets the DATA position anew. RESTORE does it also where it fails. -/
def resetsData (session : Session) : Bool :=
  match session.nextStatement? with
  | some (.command (.restore _)) => true
  | some (.command c) => c.resetsData && (step.outcome session).1.isOk
  | _ => false

/-- A command that is not READ, in a step that does not set the DATA position anew. -/
theorem keepsData_nextCommand {c : Command}
    (hnext : session.nextStatement? = some (.command c)) (hresets : session.resetsData = false)
    (hread : ∀ targets, c ≠ .read targets) :
    KeepsData session.begun ((command c).outcome session.begun).2 := by
  have hstep : step.outcome session = (command c).outcome session.begun := outcome_step hnext
  by_cases hc : c.resetsData = true
  · rw [resetsData, hnext, hstep] at hresets
    split at hresets
    · cases hresets
    · rename_i hother heq
      cases heq
      rw [hc, Bool.true_and] at hresets
      exact keepsData_of_error hc (fun line hline => hother line (hline ▸ rfl)) hresets
    · rename_i hnever
      exact absurd rfl (hnever c)
  · exact keepsData_command (Bool.eq_false_iff.mpr hc) hread session.begun

/-- **The attempts of a statement give the items that are unread.** -/
theorem serves_statement (h : Fresh session) (hresets : session.resetsData = false) :
    Serves session.begun session.attempts (step.outcome session).2 := by
  unfold attempts
  split
  · rename_i targets hnext
    rw [outcome_step hnext]
    change Serves session.begun _ ((read targets).outcome session.begun).2
    rw [outcome_read]
    exact serves_readLogged ((keepsData_begun session).fresh h) targets
  · rename_i hread
    apply KeepsData.serves
    cases hnext : session.nextStatement? with
    | none =>
        rw [outcome_step_of_none hnext, ← begun_of_none hnext]
        exact keepsData_endOfProgram session.begun
    | some next =>
        rw [outcome_step hnext]
        cases next with
        | choice condition _ _ => exact relates_choose condition session.begun
        | command c =>
            refine keepsData_nextCommand hnext hresets fun targets heq => ?_
            exact hread targets (heq ▸ hnext)

/-- A step that does not set the DATA position anew. -/
theorem serves_step (h : Fresh session) (hresets : session.resetsData = false) :
    Serves session session.attempts session.stepOrRaise := by
  have hstatement := (keepsData_begun session).serves.trans (serves_statement h hresets)
  exact hstatement.keep (keepsData_settle _)

/-- One thing that happens to a session, with the attempts to read an item in it. Nothing sets the
DATA position anew: no line is stored, no file comes in, and no statement does it. -/
inductive Undisturbed : Session → List Attempt → Session → Prop
  | step {session : Session} (hevents : session.events = []) (hloading : session.loading = none)
      (hrunning : session.isRunning = true) (hbreak : session.keys.breakSeen = false)
      (hresets : session.resetsData = false) :
      Undisturbed session session.attempts session.stepOrRaise
  | obey {session : Session} (hevents : session.events = []) (hloading : session.loading = none)
      (hrunning : session.isRunning = true) (hbreak : session.keys.breakSeen = true) :
      Undisturbed session [] { session with keys := session.keys.clearBreak }.interrupt
  | start {session : Session} {line : Line} {rest : List Line} (hevents : session.events = [])
      (hloading : session.loading = none) (hrunning : session.isRunning = false)
      (hwaiting : session.waiting = line :: rest) :
      Undisturbed session [] ({ session with waiting := rest }.startDirect line)
  | report {session : Session} {event : Event} {rest : List Event}
      (hevents : session.events = event :: rest) :
      Undisturbed session [] { session with events := rest }
  | enter {session : Session} {text : String}
      (hlines : ∀ line ∈ session.taken text, line.isDirect = true) :
      Undisturbed session [] (session.enter text).2
  | interrupt (session : Session) : Undisturbed session [] session.interrupt
  | sendKey (session : Session) (stroke : List UInt8) :
      Undisturbed session [] (session.sendKey stroke)
  | sendBreak (session : Session) : Undisturbed session [] session.sendBreak
  | completeLoad {session : Session} {answer : Except Fault (List UInt8)}
      (hanswer : session.bringsLines answer = false) :
      Undisturbed session [] (session.completeLoad answer)

theorem Undisturbed.move {log : List Attempt} (h : Undisturbed session log after) :
    Move session after := by
  cases h with
  | step hevents hloading hrunning hbreak _ => exact .step hevents hloading hrunning hbreak
  | obey hevents hloading hrunning hbreak => exact .obey hevents hloading hrunning hbreak
  | start hevents hloading hrunning hwaiting => exact .start hevents hloading hrunning hwaiting
  | report hevents => exact .report hevents
  | enter _ => exact .enter session _
  | interrupt => exact .interrupt session
  | sendKey stroke => exact .sendKey session stroke
  | sendBreak => exact .sendBreak session
  | completeLoad _ => exact .completeLoad session _

/-- **What one thing that happens hands out.** -/
theorem Undisturbed.serves {log : List Attempt} (h : Undisturbed session log after)
    (hfresh : Fresh session) : Serves session log after := by
  cases h with
  | step _ _ _ _ hresets => exact serves_step hfresh hresets
  | obey =>
      refine Serves.keep (KeepsData.serves ?_) (keepsData_interrupt _)
      exact .of_fields rfl rfl rfl rfl
  | start _ _ _ hwaiting =>
      have hlines := hfresh.waiting
      rw [hwaiting] at hlines
      have hstart := keepsData_startDirect (hlines _ List.mem_cons_self)
      refine Serves.keep (KeepsData.serves ?_) (hstart _)
      refine ⟨⟨rfl, rfl, fun line hline => .inl ?_⟩, rfl⟩
      exact hwaiting ▸ List.mem_cons_of_mem _ hline
  | report | sendKey | sendBreak => exact KeepsData.serves (.of_fields rfl rfl rfl rfl)
  | enter hlines => exact (keepsData_enter hlines).serves
  | interrupt => exact (keepsData_interrupt session).serves
  | completeLoad hanswer => exact (keepsData_completeLoad hanswer).serves

/-- Undisturbed things one after another, with the attempts in all of them. -/
inductive UndisturbedRun (first : Session) : List Attempt → Session → Prop
  | refl : UndisturbedRun first [] first
  | tail {session last : Session} {log more : List Attempt} (hrun : UndisturbedRun first log session)
      (hlast : Undisturbed session more last) : UndisturbedRun first (log ++ more) last

/-- **What a run hands out.** -/
theorem UndisturbedRun.serves {log : List Attempt} (h : UndisturbedRun session log after)
    (hfresh : Fresh session) : Serves session log after ∧ Fresh after := by
  induction h with
  | refl => exact ⟨(refl_of KeepsData session).serves, hfresh⟩
  | tail _ hlast ih =>
      obtain ⟨hserves, hmiddle⟩ := ih
      exact ⟨hserves.trans (hlast.serves hmiddle), hmiddle.move hlast.move⟩

theorem outcome_restore (session : Session) (number : Nat) :
    (restore (some number)).outcome session =
      match session.program.start number with
      | .ok _ =>
          (.ok ⟨⟩,
            { session with
              data := some session.items
              dataPosition := session.items.findIdx (number ≤ ·.line) })
      | .error fault => (.error fault, { session with dataPosition := 0 }) := by
  unfold restore
  rw [outcome_bind, outcome_modify]
  dsimp only
  rw [outcome_bind, outcome_lineStart, List.findIdx_eq_getD_findIdx?]
  cases session.program.start number <;> rfl

/-- RESTORE makes the items unread that do not stand before its line. -/
theorem unread_restore (h : Fresh session) {line : Option Nat}
    (hok : ((restore line).outcome session).1 = .ok ⟨⟩) :
    ((restore line).outcome session).2.unread =
      session.program.data.filter (line.getD 0 ≤ ·.line) := by
  cases line with
  | none =>
      have hall : ∀ item ∈ session.program.data, decide (0 ≤ item.line) = true :=
        fun item _ => decide_eq_true (Nat.zero_le item.line)
      exact (List.filter_eq_self.mpr hall).symm
  | some number =>
      rw [outcome_restore] at hok ⊢
      cases hstart : session.program.start number with
      | error fault =>
          rw [hstart] at hok
          cases hok
      | ok start =>
          change session.program.data.drop (session.items.findIdx (number ≤ ·.line)) = _
          rw [h.items]
          exact session.program.drop_findIdx_data number

/-- After a step that carries out RESTORE, those items are unread. -/
theorem unread_of_restores (h : Fresh session) {line : Option Nat}
    (hnext : session.nextStatement? = some (.command (.restore line)))
    (hok : (step.outcome session).1 = .ok ⟨⟩) :
    session.stepOrRaise.unread = session.program.data.filter (line.getD 0 ≤ ·.line) := by
  have hbegun := keepsData_begun session
  rw [stepOrRaise_eq, (keepsData_settle _).unread]
  rw [outcome_step hnext] at hok ⊢
  rw [← Program.data_congr hbegun.lines]
  exact unread_restore (hbegun.fresh h) hok

/-- **READ sees the DATA of the program, in order.** In every session that a host can bring about the
gathered items are those of the program, if any were gathered. The items of a program are those at
its places, in the order of its text. And once RESTORE is carried out, the attempts to read an item
are given the items that do not stand before its line, one after another, and then the fault that the
data are used up, for as long as nothing else sets the DATA position. -/
theorem reads_data_in_order :
    (∀ session : Session, session.Reachable →
      session.data = none ∨ session.data = some session.program.data) ∧
    (∀ program : Program, program.placedData.map Prod.snd = program.data ∧
      program.placedData.Pairwise (fun a b => a.1.Before b.1) ∧
      ∀ place item, (place, item) ∈ program.placedData ↔
        IsPath place.path ∧ program.itemAt? place = some item) ∧
    (∀ targets session, (read targets).outcome session = (readLogged targets session).2) ∧
    ∀ (session last : Session) (line : Option Nat) (log : List Attempt), session.Reachable →
      session.nextStatement? = some (.command (.restore line)) →
      (step.outcome session).1 = .ok ⟨⟩ → UndisturbedRun session.stepOrRaise log last →
      log.map Attempt.result =
        handOut (session.program.data.filter (line.getD 0 ≤ ·.line)) (log.map Attempt.target) := by
  refine ⟨fun session h => h.fresh.data, fun program => ?_, outcome_read, ?_⟩
  · exact ⟨program.map_snd_placedData, program.placedData_ascending,
      fun _ _ => program.mem_placedData⟩
  · intro session last line log hreachable hnext hok hrun
    have hfresh := hreachable.fresh
    obtain ⟨hserves, -⟩ := hrun.serves hfresh.stepOrRaise
    rw [hserves.results, unread_of_restores hfresh hnext hok]

/-- A program at its RESTORE, with DATA items inside the branches of an IF inside an IF. -/
def atRestore : Session :=
  afterCalls [.enter "10 DATA A", .enter "20 IF 0 THEN IF 1 THEN DATA B : ELSE DATA \"C\"",
    .enter "30 RESTORE 20 : READ A$ : READ B$, C$", .enter "RUN 30", .execute 1]

/-- The program at the first of its two READs. -/
def atRead : Session := atRestore.stepOrRaise

theorem reads_data_in_order_atRestore :
    ∃ log last, UndisturbedRun atRestore.stepOrRaise log last ∧
      log.map Attempt.target =
        [.scalar (.ofWord "A$"), .scalar (.ofWord "B$"), .scalar (.ofWord "C$")] ∧
      log.map Attempt.result = [.ok (.text "B"), .ok (.text "C"), .error (.of .outOfData)] := by
  -- The session is evaluated once, for all that is to be known of it.
  have hfacts : atRestore.nextStatement? = some (.command (.restore (some 20))) ∧
      (step.outcome atRestore).1 = .ok ⟨⟩ ∧
      (atRead.events = [] ∧ atRead.loading = none ∧ atRead.isRunning = true ∧
        atRead.keys.breakSeen = false ∧ atRead.resetsData = false) ∧
      (atRead.stepOrRaise.events = [] ∧ atRead.stepOrRaise.loading = none ∧
        atRead.stepOrRaise.isRunning = true ∧ atRead.stepOrRaise.keys.breakSeen = false ∧
        atRead.stepOrRaise.resetsData = false) ∧
      (atRead.attempts ++ atRead.stepOrRaise.attempts).map Attempt.target =
        [.scalar (.ofWord "A$"), .scalar (.ofWord "B$"), .scalar (.ofWord "C$")] ∧
      handOut (atRestore.program.data.filter (20 ≤ ·.line))
          [.scalar (.ofWord "A$"), .scalar (.ofWord "B$"), .scalar (.ofWord "C$")] =
        [.ok (.text "B"), .ok (.text "C"), .error (.of .outOfData)] := by
    rw [atRead, atRestore, afterCalls_eq]
    decide +kernel
  obtain ⟨hnext, hok, ⟨he, hl, hr, hb, hs⟩, ⟨he', hl', hr', hb', hs'⟩, htargets, hresults⟩ := hfacts
  have hfirst : UndisturbedRun atRestore.stepOrRaise ([] ++ atRead.attempts) atRead.stepOrRaise :=
    .tail .refl (.step he hl hr hb hs)
  have hrun := hfirst.tail (.step he' hl' hr' hb' hs')
  rw [List.nil_append] at hrun
  refine ⟨_, _, hrun, htargets, ?_⟩
  have hreachable : atRestore.Reachable := reachable_afterCalls _
  rw [reads_data_in_order.2.2.2 atRestore _ _ _ hreachable hnext hok hrun, htargets]
  exact hresults

end Session

end LineBasic
