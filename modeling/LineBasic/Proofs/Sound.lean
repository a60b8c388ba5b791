import LineBasic.Proofs.Calls
import LineBasic.Proofs.Respelled
import LineBasic.Proofs.Targets

/-! What every session that a host can bring about gives to the evaluation of an expression: cells that hold
values of their types, and functions whose parameters are names as they stand in texts. Each statement keeps
this, so that wherever an expression is evaluated, its variables are left as they were. -/

namespace LineBasic

/-- A frame whose counter, if it has one, is a name as it stands in a text. -/
def Frame.Scanned : Frame → Prop
  | .forLoop counter _ _ _ => counter.IsScanned
  | _ => True

namespace Memory

theorem typed_empty : Typed .empty := by
  intro name indices value _ hvalue
  rw [Memory.empty, Std.TreeMap.getElem?_emptyc] at hvalue
  cases hvalue

theorem Typed.retain {memory : Memory} (h : memory.Typed) (names : List Name) : (memory.retain names).Typed := by
  intro name indices value hname hvalue
  refine h name indices value hname ?_
  change (memory.cells.filter _)[cellOf name indices]? = some value at hvalue
  rw [Std.TreeMap.getElem?_filter'] at hvalue
  exact (Option.filter_eq_some_iff.mp hvalue).1

theorem Typed.declare {memory after : Memory} (h : memory.Typed) {name : Name} {values : List Value}
    (hafter : memory.declare name values = .ok after) : after.Typed := by
  have hcells := (unstored_declare memory name values).cells
  rw [hafter] at hcells
  exact h.of_cells hcells

end Memory

namespace Session

variable {session after : Session}

/-- Cells hold values of their types, and the parameters of functions are names as they stand in texts. -/
structure Sound (session : Session) : Prop where
  typed : session.work.memory.Typed
  functions : Workspace.NamesScanned session.functions

/-- A sound session, in which the counters of open loops are names as they stand in texts as well. -/
structure Ready (session : Session) : Prop extends Sound session where
  counters : ∀ frame ∈ session.stack.entries, frame.Scanned

theorem Ready.of_same (h : session.Ready) (hmemory : after.work.memory = session.work.memory)
    (hfunctions : after.functions = session.functions)
    (hstack : ∀ frame ∈ after.stack.entries, frame ∈ session.stack.entries) : after.Ready where
  typed := hmemory ▸ h.typed
  functions := hfunctions ▸ h.functions
  counters frame hframe := h.counters frame (hstack frame hframe)

theorem Ready.withMemory (h : session.Ready) {memory : Memory} (hmemory : memory.Typed) :
    Ready { session with work := { session.work with memory } } :=
  ⟨⟨hmemory, h.functions⟩, h.counters⟩

theorem Ready.withWork (h : session.Ready) {work : Workspace} (hwork : work.memory.Typed) :
    Ready { session with work } :=
  ⟨⟨hwork, h.functions⟩, h.counters⟩

theorem Ready.truncate (h : session.Ready) (count : Nat) :
    Ready { session with stack := session.stack.truncate count } :=
  h.of_same rfl rfl fun _ => List.mem_of_mem_drop

theorem Ready.push (h : session.Ready) {frame : Frame} (hframe : frame.Scanned) {stack : Stack Frame}
    (hpush : session.stack.push frame = .ok stack) : Ready { session with stack } := by
  refine ⟨⟨h.typed, h.functions⟩, fun other hother => ?_⟩
  unfold Stack.push at hpush
  split at hpush
  · cases hpush
  · cases hpush
    rcases List.mem_cons.mp hother with rfl | hother
    · exact hframe
    · exact h.counters other hother

theorem ready_clear (session : Session) : session.clear.Ready where
  typed := Memory.typed_empty
  functions key function hfunction := by
    change (∅ : Std.TreeMap String UserFunction)[key]? = some function at hfunction
    rw [Std.TreeMap.getElem?_emptyc] at hfunction
    cases hfunction
  counters := nofun

/-- What was ready stays ready. -/
def ReadyAfter (session after : Session) : Prop := session.Ready → after.Ready

instance : IsPreorder Session ReadyAfter where
  refl _ := id
  trans _ _ _ h h' := h' ∘ h

end Session

namespace SessionAct

open Act Session

section Pieces

/-- A change that touches neither memory nor functions and opens no loop. -/
theorem ready_modify {change : Session → Session}
    (h : ∀ session, (change session).work.memory = session.work.memory ∧
      (change session).functions = session.functions ∧ (change session).stack = session.stack) :
    Relates ReadyAfter (modify change : SessionAct Unit) :=
  fun session hready => hready.of_same (h session).1 (h session).2.1 fun _ hframe => (h session).2.2 ▸ hframe

theorem ready_goOnAt (cursor : Option Cursor) : Relates ReadyAfter (goOnAt cursor) :=
  ready_modify fun _ => ⟨rfl, rfl, rfl⟩

theorem ready_changeSettings (change : Settings → Settings) : Relates ReadyAfter (changeSettings change) :=
  ready_modify fun _ => ⟨rfl, rfl, rfl⟩

theorem ready_eval (expr : Expr) : Relates ReadyAfter (eval expr) :=
  relates_get_bind fun session hready =>
    hready.withWork (Workspace.sparing_eval session.scope hready.functions expr session.work hready.typed).typed

theorem ready_evalAll (exprs : List Expr) : Relates ReadyAfter (evalAll exprs) :=
  relates_get_bind fun session hready =>
    hready.withWork
      (Workspace.sparing_evalAll session.scope hready.functions exprs session.work hready.typed).typed

theorem ready_evalInt (expr : Expr) : Relates ReadyAfter (evalInt expr) :=
  (ready_eval expr).bind fun _ => relates_lift _

theorem ready_evalText (expr : Expr) : Relates ReadyAfter (evalText expr) :=
  (ready_eval expr).bind fun _ => relates_lift _

theorem ready_evalInts (arguments : List (Option Expr)) : Relates ReadyAfter (evalInts arguments) := by
  induction arguments with
  | nil => exact relates_pure _
  | cons argument rest ih =>
      cases argument with
      | none => exact ih.bind fun _ => relates_pure _
      | some expr => exact (ready_evalInt expr).bind fun _ => ih.bind fun _ => relates_pure _

theorem ready_changeMemory {step : Memory → Except Fault Memory}
    (h : ∀ {memory after : Memory}, memory.Typed → step memory = .ok after → after.Typed) :
    Relates ReadyAfter (changeMemory step) := by
  refine relates_get_bind fun session hready => ?_
  rw [outcome_bind, outcome_lift]
  cases hstep : step session.work.memory with
  | error fault => exact hready
  | ok memory => exact hready.withMemory (h hready.typed hstep)

theorem ready_storeScalar {name : Name} (hname : name.IsScanned) (value : Value) :
    Relates ReadyAfter (storeScalar name value) :=
  ready_changeMemory fun htyped hstore => htyped.store hname hstore

theorem ready_store {target : Variable} (hname : target.name.IsScanned) (value : Value) :
    Relates ReadyAfter (store target value) := by
  cases target with
  | scalar name => exact ready_storeScalar hname value
  | element name subscripts =>
      refine (ready_evalAll subscripts).bind fun values session hready => ?_
      have hstored := hready.typed.storeAt (show (Memory.Place.element name values).name.IsScanned from hname) value
      exact hready.withMemory hstored

theorem ready_pushFrame (frame : Frame) (hframe : frame.Scanned) : Relates ReadyAfter (pushFrame frame) := by
  refine relates_get_bind fun session hready => ?_
  rw [outcome_bind, outcome_lift]
  cases hpush : session.stack.push frame with
  | error fault => exact hready
  | ok stack => exact hready.push hframe hpush

theorem ready_popFrame : Relates ReadyAfter popFrame := by
  refine relates_get_bind fun session hready => ?_
  rw [outcome_bind, outcome_lift]
  cases hpop : session.stack.pop with
  | error fault => exact hready
  | ok popped =>
      obtain ⟨entry, stack⟩ := popped
      rw [Stack.eq_truncate_of_pop hpop]
      exact hready.truncate _

/-- Frames are taken off the stack before something else is done. -/
theorem ready_truncate_bind {α : Type} {next : Unit → SessionAct α} (session : Session) (count : Nat)
    (hnext : Relates ReadyAfter (next ⟨⟩)) :
    ReadyAfter session ((setStack (session.stack.truncate count) >>= next).outcome session).2 :=
  fun hready => hnext _ (hready.truncate count)

theorem ready_lineStart (line : Nat) : Relates ReadyAfter (lineStart line) :=
  relates_get.bind fun _ => relates_lift _

theorem ready_dataItems : Relates ReadyAfter dataItems :=
  relates_get_bind fun _ hready => hready.of_same rfl rfl fun _ => id

theorem ready_selected (selector : Expr) (lines : List Nat) : Relates ReadyAfter (selected selector lines) := by
  refine (ready_evalInt selector).bind fun n => ?_
  split
  · exact relates_pure _
  · exact relates_throw _

theorem ready_isOver (counter : Name) (limit step : Value) : Relates ReadyAfter (isOver counter limit step) :=
  relates_get.bind fun _ => relates_lift _

end Pieces

section Jumps

theorem ready_goto (line : Nat) : Relates ReadyAfter (goto line) :=
  (ready_lineStart line).bind fun _ => ready_goOnAt _

theorem ready_gosub (line : Nat) : Relates ReadyAfter (gosub line) := by
  refine (ready_lineStart line).bind fun start => relates_get.bind fun session => ?_
  refine (ready_goOnAt none).bind fun _ => (ready_pushFrame (.gosub _) trivial).bind fun _ => ?_
  exact ready_goOnAt _

theorem ready_returnTo (line : Option Nat) : Relates ReadyAfter (returnTo line) := by
  refine relates_get_bind fun session => ?_
  dsimp only
  split
  · exact id
  · refine ready_truncate_bind session _ (ready_popFrame.bind fun frame => ?_)
    cases frame with
    | forLoop _ _ _ _ | whileLoop _ => exact relates_throw _
    | gosub back =>
        cases line with
        | none => exact ready_goOnAt back
        | some number => exact ready_goto number

theorem ready_skipLoop : Relates ReadyAfter skipLoop := by
  refine relates_get.bind fun session => ?_
  split
  · exact ready_goOnAt _
  · exact relates_throw _

theorem ready_bounds (limit : Expr) (step : Option Expr) : Relates ReadyAfter (bounds limit step) := by
  refine (ready_eval limit).bind fun last => ?_
  cases step with
  | none => exact (relates_pure _).bind fun _ => relates_pure _
  | some expr => exact (ready_eval expr).bind fun _ => relates_pure _

theorem ready_openLoop {counter : Name} (hcounter : counter.IsScanned) (last change : Value) :
    Relates ReadyAfter (openLoop counter last change) := by
  intro session hready
  have hclosed : Session.Ready { session with stack := closeSameLoop session.stack counter } := by
    rcases closeSameLoop_eq_truncate session.stack counter with hsame | ⟨count, hcut⟩
    · rw [hsame]
      exact hready
    · rw [hcut]
      exact hready.truncate count
  rw [outcome_openLoop]
  split
  · exact hready
  · split
    · exact hclosed
    · exact ready_skipLoop _ hclosed
    · exact ready_pushFrame (.forLoop counter last change session.cursor) hcounter _ hclosed

theorem ready_forLoop {counter : Name} (hcounter : counter.IsScanned) (start limit : Expr) (step : Option Expr) :
    Relates ReadyAfter (forLoop counter start limit step) := by
  by_cases htype : counter.type = .text
  · rw [forLoop_of_text htype]
    exact relates_throw _
  · rw [forLoop_eq htype]
    refine (ready_eval start).bind fun first => (ready_storeScalar hcounter first).bind fun _ => ?_
    exact (ready_bounds limit step).bind fun values => ready_openLoop hcounter values.1 values.2

theorem ready_nextOne (counter : Option Name) : Relates ReadyAfter (nextOne counter) := by
  refine relates_get_bind fun session hready => ready_truncate_bind session _ ?_ hready
  split
  · rename_i name limit step body htop
    have hname : name.IsScanned :=
      hready.counters _ (List.mem_of_mem_drop (List.mem_of_mem_head? (Option.mem_def.mpr htop)))
    refine relates_get.bind fun _ => (relates_lift _).bind fun sum => ?_
    refine (ready_storeScalar hname sum).bind fun _ => (ready_isOver name limit step).bind fun finished => ?_
    split
    · exact ready_popFrame.bind fun _ => relates_pure _
    · exact (ready_goOnAt body).bind fun _ => relates_pure _
  · exact relates_throw _

theorem ready_next (counters : List Name) : Relates ReadyAfter (next counters) := by
  have heach : ∀ counters, Relates ReadyAfter (nextEach counters) := by
    intro counters
    induction counters with
    | nil => exact relates_pure _
    | cons counter rest ih =>
        refine (ready_nextOne (some counter)).bind fun goesOn => ?_
        split
        · exact relates_pure _
        · exact ih
  unfold next
  split
  · exact (ready_nextOne none).bind fun _ => relates_pure _
  · exact heach counters

theorem ready_whileLoop (condition : Expr) : Relates ReadyAfter (whileLoop condition) := by
  refine (ready_eval condition).bind fun value => (relates_lift _).bind fun holds => ?_
  split
  · exact relates_get.bind fun session => ready_pushFrame (.whileLoop session.current) trivial
  · refine relates_get.bind fun session => ?_
    split
    · exact ready_goOnAt _
    · exact relates_throw _

theorem ready_wend : Relates ReadyAfter wend := by
  refine relates_get.bind fun session => ?_
  split
  · exact ready_popFrame.bind fun _ => ready_goOnAt _
  · exact relates_throw _

theorem ready_choose (condition : Expr) : Relates ReadyAfter (choose condition) := by
  refine (ready_eval condition).bind fun value => (relates_lift _).bind fun holds => ?_
  refine relates_get.bind fun session => ?_
  split
  · exact ready_goOnAt _
  · exact relates_pure _

end Jumps

section Commands

theorem ready_requestLoad (path : Expr) (kind : LoadKind) : Relates ReadyAfter (requestLoad path kind) :=
  (ready_evalText path).bind fun _ => ready_modify fun _ => ⟨rfl, rfl, rfl⟩

theorem ready_dim (targets : List Variable) : Relates ReadyAfter (dim targets) := by
  induction targets with
  | nil => exact relates_pure _
  | cons target rest ih =>
      cases target with
      | scalar name => exact ih
      | element name subscripts =>
          exact (ready_evalAll subscripts).bind fun _ =>
            (ready_changeMemory fun htyped hstep => htyped.declare hstep).bind fun _ => ih

theorem ready_printItems (items : List PrintItem) : Relates ReadyAfter (printItems items) := by
  have htext : ∀ column text, Relates ReadyAfter (printText column text items) := by
    intro column
    induction items with
    | nil => exact fun _ => relates_pure _
    | cons item rest ih =>
        intro text
        cases item with
        | expr expr =>
            refine (ready_eval expr).bind fun value => ?_
            cases value <;> exact ih _
        | comma => exact ih _
        | semicolon => exact ih _
  exact relates_get.bind fun session => (htext _ _).bind fun text => ready_modify fun _ => ⟨rfl, rfl, rfl⟩

theorem ready_readItem (target : Variable) : Relates ReadyAfter (readItem target) := by
  refine ready_dataItems.bind fun items => relates_get_bind fun session hready => ?_
  split
  · exact hready
  · rw [outcome_bind, outcome_set]
    dsimp only
    have hmoved : Ready { session with dataPosition := session.dataPosition + 1 } :=
      hready.of_same rfl rfl fun _ => id
    split
    · exact hmoved
    · split
      · split
        · exact hmoved
        · split <;> exact hmoved
      · exact hmoved

theorem ready_read {targets : List Variable} (h : ∀ target ∈ targets, target.name.IsScanned) :
    Relates ReadyAfter (read targets) := by
  induction targets with
  | nil => exact relates_pure _
  | cons target rest ih =>
      obtain ⟨htarget, hrest⟩ := List.forall_mem_cons.mp h
      exact (ready_readItem target).bind fun value => (ready_store htarget value).bind fun _ => ih hrest

theorem ready_restore (line : Option Nat) : Relates ReadyAfter (restore line) := by
  have hmove : ∀ position, Relates ReadyAfter
      (modify fun session : Session => { session with dataPosition := position } : SessionAct Unit) :=
    fun position => ready_modify fun _ => ⟨rfl, rfl, rfl⟩
  refine (hmove 0).bind fun _ => ?_
  cases line with
  | none => exact relates_pure _
  | some number =>
      exact (ready_lineStart number).bind fun _ => ready_dataItems.bind fun _ => hmove _

theorem ready_resume (target : ResumeAt) : Relates ReadyAfter (resume target) := by
  refine relates_get_bind fun session hready => ?_
  split
  · have hleft : Ready session.leaveHandler := hready.of_same rfl rfl fun _ => id
    cases target with
    | retry => exact hleft.of_same rfl rfl fun _ => id
    | next => exact hleft.of_same rfl rfl fun _ => id
    | line number => exact ready_goto number _ hleft
  · exact hready

theorem ready_onError (line : Nat) : Relates ReadyAfter (onError line) := by
  unfold onError
  split
  · refine (ready_changeSettings _).bind fun _ => relates_get_bind fun session hready => ?_
    split
    · exact hready.of_same rfl rfl fun _ => id
    · exact hready
  · exact (ready_lineStart line).bind fun _ => ready_changeSettings _

theorem ready_run (line : Option Nat) : Relates ReadyAfter (run line) := by
  have hlast : ∀ start : Option Cursor, Relates ReadyAfter
      (modify fun session : Session => { session.clear with cursor := start, state := .running } : SessionAct Unit) :=
    fun start session _ => (ready_clear session).of_same rfl rfl fun _ => id
  cases line with
  | none => exact (relates_get.map _).bind hlast
  | some number => exact ((ready_lineStart number).map _).bind hlast

theorem ready_define {name : Name} {parameters : List Name} (h : ∀ parameter ∈ parameters, parameter.IsScanned)
    (body : Expr) : Relates ReadyAfter (command (.define name parameters body)) := by
  refine fun session hready => ⟨⟨hready.typed, fun key function hfunction => ?_⟩, hready.counters⟩
  change (session.functions.insert name.spelling ⟨parameters, body⟩)[key]? = some function at hfunction
  rw [Std.TreeMap.getElem?_insert] at hfunction
  split at hfunction
  · cases hfunction
    exact h
  · exact hready.functions key function hfunction

theorem ready_palette (arguments : List (Option Expr)) : Relates ReadyAfter (palette arguments) := by
  refine (ready_evalInts arguments).bind fun values => ?_
  split
  · exact ready_changeSettings _
  · exact ready_changeSettings _
  · exact relates_throw _

theorem ready_cont : Relates ReadyAfter cont := by
  refine relates_get_bind fun session hready => ?_
  split
  · exact hready.of_same rfl rfl fun _ => id
  · exact hready

theorem ready_finish : Relates ReadyAfter finish := by
  refine relates_get_bind fun session hready => ?_
  dsimp only
  split
  · exact hready
  · exact hready.of_same rfl rfl fun _ => id

theorem ready_list (first last : Option Nat) : Relates ReadyAfter (command (.list first last)) := by
  refine relates_get_bind fun session hready => ?_
  rw [outcome_bind, outcome_lift]
  cases session.program.list first last with
  | error fault => exact hready
  | ok text => exact hready.of_same rfl rfl fun _ => id

theorem ready_breakOff (session : Session) : ReadyAfter session session.breakOff := by
  intro hready
  unfold breakOff
  split <;> exact hready.of_same rfl rfl fun _ => id

/-- **Every command whose targets are scanned names keeps a session ready.** -/
theorem ready_command {c : Command} (h : c.Scanned) : Relates ReadyAfter (command c) := by
  cases c with
  | beep | clearScreen | auto => exact ready_modify fun _ => ⟨rfl, rfl, rfl⟩
  | traceOff | traceOn => exact ready_changeSettings _
  | common _ | data _ | remark _ => exact relates_pure _
  | clear arguments => exact (ready_evalInts arguments).bind fun _ session _ => ready_clear session
  | color arguments | screen arguments => exact (ready_evalInts arguments).bind fun _ => ready_changeSettings _
  | locate arguments => exact (ready_evalInts arguments).bind fun _ => relates_pure _
  | palette arguments => exact ready_palette arguments
  | chain path _ _ | load path _ | merge path => exact ready_requestLoad path _
  | cont => exact ready_cont
  | define name parameters body => exact ready_define h body
  | dim targets => exact ready_dim targets
  | finish => exact ready_finish
  | error code =>
      refine (ready_evalInt code).bind fun n => ?_
      split <;> exact relates_throw _
  | files pattern =>
      have hreport : ∀ text, Relates ReadyAfter
          (modify fun session : Session => session.report (.files text) : SessionAct Unit) :=
        fun text => ready_modify fun _ => ⟨rfl, rfl, rfl⟩
      cases pattern with
      | none => exact (relates_pure _).bind hreport
      | some expr => exact (ready_evalText expr).bind hreport
  | forLoop counter start limit step => exact ready_forLoop (List.forall_mem_singleton.mp h) start limit step
  | gosub line => exact ready_gosub line
  | goto line => exact ready_goto line
  | key number text =>
      refine (ready_evalInt number).bind fun n => ?_
      split
      · exact (ready_evalText text).bind fun _ => ready_modify fun _ => ⟨rfl, rfl, rfl⟩
      · exact relates_throw _
  | assign target value =>
      exact (ready_eval value).bind fun result => ready_store (List.forall_mem_singleton.mp h) result
  | list first last => exact ready_list first last
  | new => exact fun session _ => (ready_clear _).of_same rfl rfl fun _ => id
  | next counters => exact ready_next counters
  | onError line => exact ready_onError line
  | onGoto selector lines =>
      refine (ready_selected selector lines).bind fun target => ?_
      cases target with
      | none => exact relates_pure _
      | some line => exact ready_goto line
  | onGosub selector lines =>
      refine (ready_selected selector lines).bind fun target => ?_
      cases target with
      | none => exact relates_pure _
      | some line => exact ready_gosub line
  | print items => exact ready_printItems items
  | read targets => exact ready_read fun target htarget => h _ (List.mem_map_of_mem htarget)
  | restore line => exact ready_restore line
  | resume target => exact ready_resume target
  | returnTo line => exact ready_returnTo line
  | run line => exact ready_run line
  | stop => exact ready_breakOff
  | wend => exact ready_wend
  | whileLoop condition => exact ready_whileLoop condition

end Commands

end SessionAct

namespace Program

variable {program other : Program}

/-- A program in which the targets of every command are names as they stand in texts. -/
structure Scanned (program : Program) : Prop where
  direct : Statement.AllScanned program.direct
  lines : ∀ entry ∈ program.lines.entries, Statement.AllScanned entry.2

theorem Scanned.command (h : program.Scanned) {cursor : Cursor} {c : Command}
    (hc : program.statement? cursor = some (.command c)) : c.Scanned := by
  rcases List.mem_append.mp (mem_commands hc) with hdirect | hline
  · exact h.direct c hdirect
  · obtain ⟨entry, hentry, hmem⟩ := List.mem_flatMap.mp hline
    exact h.lines entry hentry c hmem

theorem scanned_of_lines_nil (guarded : Bool) : Scanned { guarded } := ⟨Statement.allScanned_nil, nofun⟩

theorem Scanned.insert (h : program.Scanned) {line : Line} (hline : line.Scanned) :
    (program.insert line).Scanned := by
  unfold Program.insert
  split
  · exact ⟨hline, h.lines⟩
  · rename_i number _
    split
    · exact ⟨h.direct, fun entry hentry => h.lines entry (List.mem_filter.mp hentry).1⟩
    · refine ⟨h.direct, fun entry hentry => ?_⟩
      rcases Numbered.mem_place hentry with rfl | hentry
      · exact hline
      · exact h.lines entry hentry

theorem scanned_ofBytes (bytes : List UInt8) : (ofBytes bytes).1.Scanned := by
  refine List.foldlRecOn _ Program.insert (scanned_of_lines_nil _) fun program hprogram line hline => ?_
  exact hprogram.insert (Parsed.scanned_of_mem (Image.named_tokens bytes) (List.mem_filter.mp hline).1)

theorem Scanned.merge (h : program.Scanned) (hother : other.Scanned) : (program.merge other).Scanned where
  direct := h.direct
  lines entry hentry := (Numbered.mem_merge hentry).elim (h.lines entry) (hother.lines entry)

end Program

namespace Session

variable {session after : Session}

theorem supplies_scanned : Supplies Program.Scanned Line.Scanned where
  empty := Program.scanned_of_lines_nil false
  insert hprogram hline := hprogram.insert hline
  ofBytes := Program.scanned_ofBytes
  merge := Program.Scanned.merge
  typed := Parsed.scanned_of_mem (Token.named_lex _)

section Moves

theorem Ready.begun (h : session.Ready) : session.begun.Ready := by
  unfold Session.begun
  split
  · unfold SessionAct.beginStatement
    split <;> exact h.of_same rfl rfl fun _ => id
  · exact h.of_same rfl rfl fun _ => id

theorem Ready.raise (h : session.Ready) (fault : Fault) : (session.raise fault).Ready := by
  unfold Session.raise
  dsimp only
  split
  · exact h.of_same rfl rfl fun _ => id
  · split <;> exact h.of_same rfl rfl fun _ => id

theorem Ready.stepOrRaise (h : session.Ready) (hprogram : session.program.Scanned) : session.stepOrRaise.Ready := by
  have hstep : ReadyAfter session (SessionAct.step.outcome session).2 := by
    intro hready
    cases hnext : session.nextStatement? with
    | none =>
        rw [SessionAct.outcome_step_of_none hnext]
        have hended : Act.Relates ReadyAfter SessionAct.endOfProgram := by
          refine Act.relates_get_bind fun session hready => ?_
          split
          · exact hready
          · exact hready.of_same rfl rfl fun _ => id
        exact hended _ (hready.of_same rfl rfl fun _ => id)
    | some next =>
        rw [outcome_step hnext]
        cases next with
        | command c =>
            obtain ⟨cursor, -, hat⟩ := exists_cursor hnext
            exact SessionAct.ready_command (hprogram.command hat) _ hready.begun
        | choice condition thenList elseList => exact SessionAct.ready_choose condition _ hready.begun
  rw [stepOrRaise_eq]
  generalize SessionAct.step.outcome session = outcome at hstep
  obtain ⟨fault | value, after⟩ := outcome
  · exact (hstep h).raise fault
  · exact hstep h

theorem Ready.interrupt (h : session.Ready) : session.interrupt.Ready := by
  unfold Session.interrupt
  dsimp only
  split
  · exact SessionAct.ready_breakOff _ (h.of_same rfl rfl fun _ => id)
  · exact h.of_same rfl rfl fun _ => id

theorem Ready.enter (h : session.Ready) (text : String) : (session.enter text).2.Ready := by
  have hentries := entries_enter session text
  generalize (session.enter text).2 = after at hentries
  induction hentries with
  | refl => exact h
  | tail _ hentry ih => cases hentry <;> exact ih.of_same rfl rfl fun _ => id

theorem ready_loadProgram (session : Session) (program : Program) (andRun : Bool) :
    (session.loadProgram program andRun).Ready := by
  unfold Session.loadProgram
  dsimp only
  split <;> exact (ready_clear _).of_same rfl rfl fun _ => id

theorem Ready.mergeProgram (h : session.Ready) (program : Program) : (session.mergeProgram program).Ready := by
  unfold Session.mergeProgram
  split
  · exact h.raise _
  · exact h.of_same rfl rfl fun _ => id

theorem Ready.chainProgram (h : session.Ready) (program : Program) (line : Option Nat) (all : Bool) :
    (session.chainProgram program line all).Ready := by
  have hkept : (if all then session.work.memory else session.work.memory.retain session.program.common).Typed := by
    split
    · exact h.typed
    · exact h.typed.retain _
  have hchained : ∀ chained : Session,
      chained.work.memory = (if all then session.work.memory else session.work.memory.retain session.program.common) →
      chained.functions = ∅ → chained.stack = session.stack.clear → chained.Ready := by
    intro chained hmemory hfunctions hstack
    have hcleared := ready_clear session
    refine ⟨⟨hmemory ▸ hkept, ?_⟩, ?_⟩
    · rw [hfunctions]
      exact hcleared.functions
    · rw [hstack]
      exact hcleared.counters
  unfold Session.chainProgram
  dsimp only
  split
  · exact hchained _ rfl rfl rfl
  · split
    · exact hchained _ rfl rfl rfl
    · exact Ready.raise (hchained _ rfl rfl rfl) _

theorem Ready.completeLoad (h : session.Ready) (answer : Except Fault (List UInt8)) :
    (session.completeLoad answer).Ready := by
  have hwaited : Ready { session with loading := none } := h.of_same rfl rfl fun _ => id
  unfold Session.completeLoad
  split
  · exact h
  · dsimp only
    cases answer with
    | error fault => exact hwaited.raise fault
    | ok bytes =>
        dsimp only
        split
        · exact ready_loadProgram _ _ _
        · refine Ready.mergeProgram ?_ _
          split <;> exact hwaited.of_same rfl rfl fun _ => id
        · refine Ready.chainProgram ?_ _ _ _
          split <;> exact hwaited.of_same rfl rfl fun _ => id

theorem Ready.move (h : session.Ready) (hprogram : session.program.Scanned) (hmove : Move session after) :
    after.Ready := by
  cases hmove with
  | step => exact h.stepOrRaise hprogram
  | obey => exact Ready.interrupt (h.of_same rfl rfl fun _ => id)
  | start | report | sendKey | sendBreak => exact h.of_same rfl rfl fun _ => id
  | enter text => exact h.enter text
  | interrupt => exact h.interrupt
  | completeLoad answer => exact h.completeLoad answer

/-- **Every session that a host can bring about is ready.** -/
theorem Reachable.ready (h : session.Reachable) : session.Ready := by
  induction h with
  | new =>
      refine ⟨⟨Memory.typed_empty, fun key function hfunction => ?_⟩, List.forall_mem_nil _⟩
      rw [Session.new, Std.TreeMap.getElem?_emptyc] at hfunction
      cases hfunction
  | move hbefore hmove ih =>
      exact ih.move (Reachable.furnishedWith supplies_scanned hbefore).program hmove

end Moves

section Evaluation

theorem Sound.withWork (h : session.Sound) {work : Workspace} (hwork : work.memory.Typed) :
    Sound { session with work } :=
  ⟨hwork, h.functions⟩

/-- An expression that has a value is evaluated in the workspace alone, and leaves all variables alone. -/
theorem Sound.exists_eval (h : session.Sound) {expr : Expr} {value : Value}
    (hvalue : ((SessionAct.eval expr).outcome session).1 = .ok value) :
    ∃ work, (SessionAct.eval expr).outcome session = (.ok value, { session with work }) ∧
      Sound { session with work } ∧ Memory.SameValues session.work.memory work.memory := by
  have hspares := Workspace.sparing_eval session.scope h.functions expr session.work h.typed
  exact ⟨_, congrArg (·, _) hvalue, h.withWork hspares.typed, hspares.value value hvalue⟩

/-- **Evaluation gives every variable its value back**, unless it finds no way to. Every session that a host
can bring about is sound, evaluation changes nothing but the workspace of a session and leaves it sound. With
a value, every scalar and every element has the value that it had, at whatever depth functions were called.
So it is with an error, whether the type refuses an argument of one parameter, the body fails or calls are too
deep, but for two things. Where an argument is refused after others were passed, the parameters in front of it
may have changed; and where memory is full, the parameters of functions may have. -/
theorem evaluation_spares_variables (session : Session) (expr : Expr) :
    (session.Reachable → session.Sound) ∧
    (session.Sound →
      ∃ result work, (SessionAct.eval expr).outcome session = (result, { session with work }) ∧
        Sound { session with work } ∧
        (∀ value, result = .ok value → Memory.SameValues session.work.memory work.memory) ∧
        ∀ fault, result = .error fault →
          Workspace.Mishap session.functions fault session.work.memory work.memory) := by
  refine ⟨fun h => h.ready.toSound, fun h => ?_⟩
  have heval := Workspace.sparing_eval session.scope h.functions expr session.work h.typed
  exact ⟨_, _, rfl, h.withWork heval.typed, heval.value, heval.fault⟩

/-- A session with a function that calls another one before and after it uses its own parameters, which are
variables that have values. -/
def withFunctions : Session :=
  afterCalls [.enter "10 DEF FNA(X)=X*2", .enter "20 DEF FNB(Y,X)=FNA(X)+Y+FNA(Y)", .enter "30 X=7:Y=1",
    .enter "RUN", .execute 5]

/-- A call with a call of the other function as an argument. -/
def nestedCall : Expr := .call ⟨"FNB"⟩ [.int 2, .call ⟨"FNA"⟩ [.int 3]]

theorem evaluation_spares_variables_nestedCall :
    withFunctions.Sound ∧
      ((SessionAct.eval nestedCall).outcome withFunctions).1 = .ok (.single 18) ∧
      ((SessionAct.eval nestedCall).outcome withFunctions).2.work.memory.fetch ⟨"X"⟩ = .single 7 := by
  obtain ⟨hvalue, hbefore⟩ :
      ((SessionAct.eval nestedCall).outcome withFunctions).1.toOption = some (.single 18) ∧
        withFunctions.work.memory.fetch ⟨"X"⟩ = .single 7 := by
    rw [withFunctions, afterCalls_eq]
    decide +kernel
  have hname : Name.IsScanned ⟨"X"⟩ := Name.isScanned_of_spelling (by decide +kernel)
  obtain ⟨hsound, heval⟩ := evaluation_spares_variables withFunctions nestedCall
  have hthere := hsound (reachable_afterCalls _)
  obtain ⟨result, work, houtcome, -, hsame, -⟩ := heval hthere
  rw [houtcome] at hvalue ⊢
  cases result with
  | error fault => cases hvalue
  | ok value =>
      cases hvalue
      exact ⟨hthere, rfl, (hsame _ rfl ⟨"X"⟩ [] hname).trans hbefore⟩

/-- A session with a function of a number and a text, and a value in the variable that is its first
parameter. -/
def beforeRefusal : Session :=
  afterCalls [.enter "10 DEF FNA(X,Y$)=X", .enter "20 X=7", .enter "RUN", .execute 3]

/-- A call with a number in the place of the text. -/
def refusedCall : Expr := .call ⟨"FNA"⟩ [.int 1, .int 2]

/-- An argument that is refused leaves the one in front of it behind. -/
theorem refused_argument_leaves_another :
    beforeRefusal.Reachable ∧ beforeRefusal.work.memory.fetch ⟨"X"⟩ = .single 7 ∧
      ((SessionAct.eval refusedCall).outcome beforeRefusal).1 = .error (.of .typeMismatch) ∧
      ((SessionAct.eval refusedCall).outcome beforeRefusal).2.work.memory.fetch ⟨"X"⟩ = .single 1 := by
  refine ⟨reachable_afterCalls _, ?_⟩
  rw [beforeRefusal, afterCalls_eq]
  decide +kernel

end Evaluation

end Session

end LineBasic
