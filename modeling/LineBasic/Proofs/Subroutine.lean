import LineBasic.Proofs.Moves
import LineBasic.Proofs.Stack

/-! Subroutines shield the loops of their callers. The frame of an open subroutine, and all frames
below it, stay on the stack until the subroutine is left by RETURN or the whole stack is forgotten:
loops are opened above the frame, and they are closed by searches that do not look past it. So when
RETURN takes the frame away, the stack is what it was before the call. -/

namespace LineBasic

namespace Session

/-- The stack does not differ. -/
def SameStack (session after : Session) : Prop := after.stack = session.stack

instance : IsPreorder Session SameStack where
  refl _ := rfl
  trans _ _ _ h h' := h'.trans h

theorem WorkOnly.sameStack {session after : Session} (h : WorkOnly session after) :
    SameStack session after := by
  obtain ⟨work, rfl⟩ := h
  rfl

/-- The frames stand at the bottom of the stack. -/
def Holds (frames : List Frame) (session : Session) : Prop := frames <+: session.stack.toList

/-- Frames at the bottom of the stack stay there. -/
def Shields (frames : List Frame) (session after : Session) : Prop :=
  session.Holds frames → after.Holds frames

instance (frames : List Frame) : IsPreorder Session (Shields frames) where
  refl _ := id
  trans _ _ _ h h' := h' ∘ h

theorem SameStack.shields {session after : Session} (h : SameStack session after)
    (frames : List Frame) : Shields frames session after := by
  intro hholds
  rw [Holds, h]
  exact hholds

end Session

/-- The commands that open or close loops and subroutines. -/
def Command.restacks : Command → Bool
  | .clear _ | .forLoop _ _ _ _ | .gosub _ | .new | .next _ | .onGosub _ _ | .returnTo _ | .run _ | .wend
  | .whileLoop _ => true
  | _ => false

/-- The statements that may take away the frame of an open subroutine. -/
def Statement.unwinds : Statement → Bool
  | .command (.returnTo _) | .command (.run _) | .command (.clear _) | .command .new => true
  | _ => false

namespace SessionAct

open Act Session

section SameStack

theorem sameStack_of_workOnly {α : Type} {action : SessionAct α} (h : Relates WorkOnly action) :
    Relates SameStack action :=
  h.mono fun _ _ => WorkOnly.sameStack

theorem sameStack_modify {change : Session → Session}
    (h : ∀ session, (change session).stack = session.stack) :
    Relates SameStack (modify change : SessionAct PUnit) :=
  h

theorem sameStack_eval (expr : Expr) : Relates SameStack (eval expr) :=
  sameStack_of_workOnly (relates_eval expr)

theorem sameStack_goOnAt (cursor : Option Cursor) : Relates SameStack (goOnAt cursor) :=
  sameStack_modify fun _ => rfl

theorem sameStack_goto (line : Nat) : Relates SameStack (goto line) :=
  (sameStack_of_workOnly (relates_lineStart line)).bind fun _ => sameStack_goOnAt _

theorem sameStack_requestLoad (path : Expr) (kind : LoadKind) :
    Relates SameStack (requestLoad path kind) :=
  (sameStack_of_workOnly (relates_evalText path)).bind fun _ => sameStack_modify fun _ => rfl

theorem sameStack_choose (condition : Expr) : Relates SameStack (choose condition) := by
  refine (sameStack_eval condition).bind fun value => (relates_lift _).bind fun holds => ?_
  refine relates_get.bind fun session => ?_
  split
  · exact sameStack_goOnAt _
  · exact relates_pure _

theorem sameStack_changeSettings (change : Settings → Settings) :
    Relates SameStack (changeSettings change) :=
  sameStack_modify fun _ => rfl

theorem sameStack_evalInts (arguments : List (Option Expr)) :
    Relates SameStack (evalInts arguments) :=
  sameStack_of_workOnly (relates_evalInts arguments)

theorem sameStack_raiseCode (code : Expr) : Relates SameStack (raiseCode code) := by
  refine (sameStack_of_workOnly (relates_evalInt code)).bind fun n => ?_
  split <;> exact relates_throw _

theorem sameStack_assignKey (number text : Expr) : Relates SameStack (assignKey number text) := by
  refine (sameStack_of_workOnly (relates_evalInt number)).bind fun n => ?_
  split
  · refine (sameStack_of_workOnly (relates_evalText text)).bind fun whole => ?_
    exact sameStack_modify fun _ => rfl
  · exact relates_throw _

theorem sameStack_onError (line : Nat) : Relates SameStack (onError line) := by
  unfold onError
  split
  · refine (sameStack_changeSettings _).bind fun _ => relates_get_bind fun session => ?_
    split
    · rfl
    · rfl
  · refine (sameStack_of_workOnly (relates_lineStart line)).bind fun _ => ?_
    exact sameStack_changeSettings _

theorem sameStack_palette (arguments : List (Option Expr)) :
    Relates SameStack (palette arguments) := by
  refine (sameStack_evalInts arguments).bind fun values => ?_
  split
  · exact sameStack_changeSettings _
  · exact sameStack_changeSettings _
  · exact relates_throw _

theorem sameStack_printItems (items : List PrintItem) : Relates SameStack (printItems items) := by
  refine relates_get.bind fun session => ?_
  refine (sameStack_of_workOnly (relates_printText _ _ items)).bind fun text => ?_
  exact sameStack_modify fun _ => rfl

theorem sameStack_dataItems : Relates SameStack dataItems :=
  relates_get_bind fun _ => rfl

theorem sameStack_readItem (target : Variable) : Relates SameStack (readItem target) := by
  refine sameStack_dataItems.bind fun items => relates_get_bind fun session => ?_
  split
  · rfl
  · rw [outcome_bind, outcome_set]
    dsimp only
    split
    · rfl
    · split
      · split
        · rfl
        · split <;> rfl
      · rfl

theorem sameStack_read (targets : List Variable) : Relates SameStack (read targets) := by
  induction targets with
  | nil => exact relates_pure _
  | cons target rest ih =>
      refine (sameStack_readItem target).bind fun value => ?_
      exact (sameStack_of_workOnly (relates_store target value)).bind fun _ => ih

theorem sameStack_restore (line : Option Nat) : Relates SameStack (restore line) := by
  unfold restore
  refine Relates.bind ?_ fun _ => ?_
  · exact sameStack_modify fun _ => rfl
  cases line with
  | none => exact relates_pure _
  | some number =>
      refine (sameStack_of_workOnly (relates_lineStart number)).bind fun _ => ?_
      exact sameStack_dataItems.bind fun _ => sameStack_modify fun _ => rfl

theorem sameStack_resume (target : ResumeAt) : Relates SameStack (resume target) := by
  refine relates_get_bind fun session => ?_
  split
  · rw [outcome_bind, outcome_set]
    dsimp only
    cases target with
    | retry => rfl
    | next => rfl
    | line number => exact sameStack_goto number _
  · rfl

theorem sameStack_cont : Relates SameStack cont := by
  refine relates_get_bind fun session => ?_
  split <;> rfl

theorem sameStack_finish : Relates SameStack finish := by
  refine relates_get_bind fun session => ?_
  split <;> rfl

theorem sameStack_breakOff (session : Session) : session.breakOff.stack = session.stack := by
  unfold breakOff
  split <;> rfl

theorem sameStack_skipLoop : Relates SameStack skipLoop := by
  refine relates_get.bind fun session => ?_
  split
  · exact sameStack_goOnAt _
  · exact relates_throw _

theorem sameStack_files (pattern : Option Expr) :
    Relates SameStack (command (.files pattern)) := by
  cases pattern with
  | none => exact (relates_pure _).bind fun _ => sameStack_modify fun _ => rfl
  | some expr =>
      refine (sameStack_of_workOnly (relates_evalText expr)).bind fun _ => ?_
      exact sameStack_modify fun _ => rfl

theorem sameStack_list (first last : Option Nat) :
    Relates SameStack (command (.list first last)) := by
  refine relates_get_bind fun session => ?_
  rw [outcome_bind, outcome_lift]
  cases session.program.list first last <;> rfl

theorem sameStack_onGoto (selector : Expr) (lines : List Nat) :
    Relates SameStack (command (.onGoto selector lines)) := by
  refine (sameStack_of_workOnly (relates_selected selector lines)).bind fun target => ?_
  cases target with
  | none => exact relates_pure _
  | some line => exact sameStack_goto line

/-- Every other command leaves the open loops and subroutines alone. -/
theorem sameStack_command (c : Command) (h : c.restacks = false) : Relates SameStack (command c) := by
  cases c with
  | clear _ | forLoop _ _ _ _ | gosub _ | new | next _ | onGosub _ _ | returnTo _ | run _ | wend | whileLoop _ => cases h
  | auto _ _ | beep | clearScreen | define _ _ _ | traceOff | traceOn => exact sameStack_modify fun _ => rfl
  | common _ | data _ | remark _ => exact relates_pure _
  | chain path _ _ | load path _ | merge path => exact sameStack_requestLoad path _
  | color arguments | screen arguments =>
      exact (sameStack_evalInts arguments).bind fun _ => sameStack_changeSettings _
  | locate arguments => exact (sameStack_evalInts arguments).bind fun _ => relates_pure _
  | cont => exact sameStack_cont
  | dim targets => exact sameStack_of_workOnly (relates_dim targets)
  | finish => exact sameStack_finish
  | error code => exact sameStack_raiseCode code
  | files pattern => exact sameStack_files pattern
  | goto line => exact sameStack_goto line
  | key number text => exact sameStack_assignKey number text
  | assign target value =>
      refine (sameStack_eval value).bind fun result => ?_
      exact sameStack_of_workOnly (relates_store target result)
  | list first last => exact sameStack_list first last
  | onError line => exact sameStack_onError line
  | onGoto selector lines => exact sameStack_onGoto selector lines
  | palette arguments => exact sameStack_palette arguments
  | print items => exact sameStack_printItems items
  | read targets => exact sameStack_read targets
  | restore line => exact sameStack_restore line
  | resume target => exact sameStack_resume target
  | stop => exact sameStack_modify sameStack_breakOff

end SameStack

section Shields

variable {below : List Frame} {back : Option Cursor}

theorem shields_of_sameStack {α : Type} {action : SessionAct α} (h : Relates SameStack action)
    (frames : List Frame) : Relates (Shields frames) action :=
  h.mono fun _ _ hsame => hsame.shields frames

theorem shields_pushFrame (frames : List Frame) (frame : Frame) :
    Relates (Shields frames) (pushFrame frame) := by
  refine relates_get_bind fun session hholds => ?_
  rw [outcome_bind, outcome_lift]
  cases hpush : session.stack.push frame with
  | error fault => exact hholds
  | ok stack =>
      change frames <+: stack.toList
      rw [Stack.toList_of_push hpush]
      exact hholds.trans (List.prefix_append _ _)

/-- From a stack with the frames at its bottom and another kind of frame on its top, an action
leaves the frames where they are. -/
def KeepsBelow {α : Type} (frames : List Frame) (frame : Frame) (action : SessionAct α) : Prop :=
  ∀ session : Session, session.Holds frames → session.stack.top? = some frame →
    (action.outcome session).2.Holds frames

theorem keepsBelow_of_shields {α : Type} {frames : List Frame} {action : SessionAct α}
    (h : Relates (Shields frames) action) (frame : Frame) : KeepsBelow frames frame action :=
  fun session hholds _ => h session hholds

/-- Evaluating and storing leave the stack for what comes after them. -/
theorem keepsBelow_bind {α β : Type} {frames : List Frame} {frame : Frame}
    {action : SessionAct α} {next : α → SessionAct β} (h : Relates WorkOnly action)
    (hnext : ∀ value, KeepsBelow frames frame (next value)) :
    KeepsBelow frames frame (action >>= next) := by
  intro session hholds htop
  have hsame : (action.outcome session).2.stack = session.stack := (h session).sameStack
  rw [outcome_bind]
  revert hsame
  rcases action.outcome session with ⟨fault | value, after⟩
  · intro hsame
    exact SameStack.shields hsame frames hholds
  · intro hsame
    exact hnext value after (SameStack.shields hsame frames hholds) (hsame ▸ htop)

/-- The topmost frame can be taken away where it is not the frame of the subroutine. -/
theorem keepsBelow_popFrame {frame : Frame} (hframe : frame.isGosub = false) :
    KeepsBelow (below ++ [.gosub back]) frame popFrame := by
  intro session hholds htop
  unfold popFrame
  rw [outcome_bind, outcome_get]
  dsimp only
  rw [outcome_bind, outcome_lift]
  cases hpop : session.stack.pop with
  | error fault => exact hholds
  | ok popped =>
      obtain ⟨entry, stack⟩ := popped
      have hlist := Stack.toList_of_pop hpop
      rw [Stack.top?_eq_getLast?, hlist, List.getLast?_concat, Option.some.injEq] at htop
      subst htop
      rw [Holds, hlist, List.prefix_concat_iff] at hholds
      rcases hholds with heq | hprefix
      · have hlast := (List.append_inj' heq rfl).2
        rw [List.cons.injEq] at hlast
        rw [← hlast.1] at hframe
        cases hframe
      · exact hprefix

theorem keepsBelow_popFrame_bind {α : Type} {frame : Frame} (hframe : frame.isGosub = false)
    {next : Frame → SessionAct α}
    (hnext : ∀ popped, Relates (Shields (below ++ [.gosub back])) (next popped)) :
    KeepsBelow (below ++ [.gosub back]) frame (popFrame >>= next) := by
  intro session hholds htop
  have hpopped := keepsBelow_popFrame hframe session hholds htop
  rw [outcome_bind]
  revert hpopped
  rcases popFrame.outcome session with ⟨fault | popped, after⟩
  · exact id
  · exact hnext popped after

/-- FOR closes a loop only above the subroutine. -/
theorem holds_closeSameLoop {stack : Stack Frame} (counter : Name)
    (hholds : below ++ [.gosub back] <+: stack.toList) :
    below ++ [.gosub back] <+: (closeSameLoop stack counter).toList := by
  unfold closeSameLoop
  cases hgosub : stack.lastIndex? Frame.isGosub with
  | none =>
      have hmem : Frame.gosub back ∈ stack.toList := hholds.subset (by simp)
      have hfalse := Stack.forall_of_lastIndex?_eq_none hgosub _ hmem
      cases hfalse
  | some floor =>
      have hle := Stack.length_le_of_lastIndex? rfl hholds hgosub
      dsimp only
      split
      · rename_i index _
        split
        · have hfloor : floor + 1 ≤ index := ‹_›
          rw [Stack.toList_truncate]
          refine List.prefix_take_iff.mpr ⟨hholds, ?_⟩
          rw [List.length_append, List.length_singleton]
          omega
        · exact hholds
      · exact hholds

theorem shields_openLoop (counter : Name) (last change : Value) :
    Relates (Shields (below ++ [.gosub back])) (openLoop counter last change) := by
  intro session hholds
  have hclosed : Session.Holds (below ++ [.gosub back])
      { session with stack := closeSameLoop session.stack counter } :=
    holds_closeSameLoop counter hholds
  rw [outcome_openLoop]
  split
  · exact hholds
  · split
    · exact hclosed
    · exact shields_of_sameStack sameStack_skipLoop _ _ hclosed
    · exact shields_pushFrame _ _ _ hclosed

theorem shields_forLoop (counter : Name) (start limit : Expr) (step : Option Expr) :
    Relates (Shields (below ++ [.gosub back])) (forLoop counter start limit step) := by
  by_cases htype : counter.type = .text
  · rw [forLoop_of_text htype]
    exact relates_throw _
  · rw [forLoop_eq htype]
    refine (shields_of_sameStack (sameStack_eval start) _).bind fun first => ?_
    refine (shields_of_sameStack (sameStack_of_workOnly
      (relates_storeScalar counter first)) _).bind fun _ => ?_
    refine (shields_of_sameStack (sameStack_of_workOnly (relates_bounds limit step)) _).bind fun values => ?_
    exact shields_openLoop counter values.1 values.2

/-- NEXT takes off the loops inside of the one that it closes, and no subroutine. -/
theorem holds_trimmed {session : Session} (hholds : session.Holds (below ++ [.gosub back]))
    (counter : Option Name) :
    Session.Holds (below ++ [.gosub back])
      { session with
        stack := session.stack.popWhile fun frame =>
          match counter with
          | some name => frame.isFor && !frame.countsOver name
          | none => false } := by
  refine Stack.prefix_toList_popWhile ?_ hholds
  cases counter <;> rfl

/-- NEXT closes only FOR loops, and none below the subroutine. -/
theorem shields_nextOne (counter : Option Name) :
    Relates (Shields (below ++ [.gosub back])) (nextOne counter) := by
  refine relates_get_bind fun session hholds => ?_
  have htrimmed := holds_trimmed hholds counter
  dsimp only
  rw [outcome_bind]
  generalize session.stack.popWhile _ = trimmed at htrimmed ⊢
  change Session.Holds _ (outcome _ { session with stack := trimmed }).2
  cases htop : trimmed.top? with
  | none => exact htrimmed
  | some frame =>
      cases frame with
      | gosub _ => exact htrimmed
      | whileLoop _ => exact htrimmed
      | forLoop name limit step body =>
          refine keepsBelow_bind relates_get (fun current => ?_) _ htrimmed htop
          refine keepsBelow_bind (relates_lift _) fun sum => ?_
          refine keepsBelow_bind (relates_storeScalar name sum) fun _ => ?_
          refine keepsBelow_bind (relates_isOver name limit step) fun finished => ?_
          split
          · exact keepsBelow_popFrame_bind rfl fun _ => relates_pure _
          · refine keepsBelow_of_shields (Relates.bind ?_ fun _ => relates_pure _) _
            exact shields_of_sameStack (sameStack_goOnAt body) _

theorem shields_nextEach (counters : List Name) :
    Relates (Shields (below ++ [.gosub back])) (nextEach counters) := by
  induction counters with
  | nil => exact relates_pure _
  | cons counter rest ih =>
      refine (shields_nextOne (some counter)).bind fun goesOn => ?_
      split
      · exact relates_pure _
      · exact ih

theorem shields_next (counters : List Name) :
    Relates (Shields (below ++ [.gosub back])) (next counters) := by
  unfold next
  split
  · exact (shields_nextOne none).bind fun _ => relates_pure _
  · exact shields_nextEach counters

theorem shields_whileLoop (condition : Expr) (frames : List Frame) :
    Relates (Shields frames) (whileLoop condition) := by
  refine (shields_of_sameStack (sameStack_eval condition) _).bind fun value => ?_
  refine (relates_lift _).bind fun holds => ?_
  split
  · exact relates_get.bind fun _ => shields_pushFrame _ _
  · refine relates_get.bind fun session => ?_
    split
    · exact shields_of_sameStack (sameStack_goOnAt _) _
    · exact relates_throw _

theorem shields_wend : Relates (Shields (below ++ [.gosub back])) wend := by
  refine relates_get_bind fun session hholds => ?_
  cases htop : session.stack.top? with
  | none => exact hholds
  | some frame =>
      cases frame with
      | gosub _ => exact hholds
      | forLoop _ _ _ _ => exact hholds
      | whileLoop start =>
          refine keepsBelow_popFrame_bind rfl (fun _ => ?_) _ hholds htop
          exact shields_of_sameStack (sameStack_goOnAt (some start)) _

theorem shields_gosub (line : Nat) (frames : List Frame) :
    Relates (Shields frames) (gosub line) := by
  refine (shields_of_sameStack (sameStack_of_workOnly (relates_lineStart line)) _).bind fun _ => ?_
  refine relates_get.bind fun session => ?_
  refine (shields_of_sameStack (sameStack_goOnAt none) _).bind fun _ => ?_
  refine (shields_pushFrame frames _).bind fun _ => ?_
  exact shields_of_sameStack (sameStack_goOnAt _) _

theorem shields_onGosub (selector : Expr) (lines : List Nat) (frames : List Frame) :
    Relates (Shields frames) (command (.onGosub selector lines)) := by
  refine Relates.bind ?_ fun target => ?_
  · exact shields_of_sameStack (sameStack_of_workOnly (relates_selected selector lines)) _
  · cases target with
    | none => exact relates_pure _
    | some line => exact shields_gosub line frames

/-- **Every command that does not unwind the stack leaves an open subroutine open.** -/
theorem shields_command (c : Command) (h : (Statement.command c).unwinds = false) :
    Relates (Shields (below ++ [.gosub back])) (command c) := by
  cases c with
  | clear _ | new | returnTo _ | run _ => cases h
  | forLoop counter start limit step => exact shields_forLoop counter start limit step
  | gosub line => exact shields_gosub line _
  | next counters => exact shields_next counters
  | onGosub selector lines => exact shields_onGosub selector lines _
  | wend => exact shields_wend
  | whileLoop condition => exact shields_whileLoop condition _
  | _ => exact shields_of_sameStack (sameStack_command _ rfl) _

theorem shields_statement (next : Statement) (h : next.unwinds = false) :
    Relates (Shields (below ++ [.gosub back])) (statement next) := by
  cases next with
  | command c => exact shields_command c h
  | choice condition _ _ => exact shields_of_sameStack (sameStack_choose condition) _

end Shields

end SessionAct

namespace Session

open Act SessionAct

variable {below : List Frame} {back : Option Cursor}

theorem stack_raise (session : Session) (fault : Fault) :
    (session.raise fault).stack = session.stack := by
  unfold raise
  dsimp only
  split
  · rfl
  · split <;> rfl

theorem stack_stepOrRaise (session : Session) :
    session.stepOrRaise.stack = (step.outcome session).2.stack := by
  unfold stepOrRaise
  rcases step.outcome session with ⟨fault | _, after⟩
  · exact stack_raise after fault
  · rfl

/-- **Every step that does not unwind the stack leaves an open subroutine open**, whether it ends in
a fault or not. -/
theorem holds_stepOrRaise {session : Session}
    (hnext : ∀ next ∈ session.nextStatement?, next.unwinds = false)
    (hholds : session.Holds (below ++ [.gosub back])) :
    session.stepOrRaise.Holds (below ++ [.gosub back]) := by
  rw [Holds, stack_stepOrRaise]
  cases hnone : session.nextStatement? with
  | none =>
      rw [outcome_step_of_none hnone]
      unfold endOfProgram
      rw [outcome_bind, outcome_get]
      dsimp only
      split <;> exact hholds
  | some next =>
      obtain ⟨cursor, hcursor, hstatement⟩ := Option.bind_eq_some_iff.mp hnone
      rw [outcome_step_of_some hcursor hstatement]
      refine shields_statement next (hnext next hnone) _ ?_
      rw [Holds, beginStatement_stack]
      exact hholds

/-- RETURN goes back to the last open subroutine and takes its frame away with all above it. -/
theorem outcome_returnTo {session : Session} (line : Option Nat) {lower above : List Frame}
    {back : Option Cursor} (hlist : session.stack.toList = lower ++ .gosub back :: above)
    (hlast : session.stack.lastIndex? Frame.isGosub = some lower.length) :
    ∃ stack : Stack Frame, stack.toList = lower ∧
      (returnTo line).outcome session =
        (match line with
          | some number => goto number
          | none => goOnAt back).outcome { session with stack } := by
  have htruncate : (session.stack.truncate (lower.length + 1)).toList = lower ++ [.gosub back] := by
    rw [Stack.toList_truncate, hlist, List.take_append, List.take_of_length_le (by omega)]
    simp
  obtain ⟨stack, hpop, hstack⟩ := Stack.pop_of_toList htruncate
  refine ⟨stack, hstack, ?_⟩
  have hpopFrame : popFrame.outcome
      { session with stack := session.stack.truncate (lower.length + 1) } =
      (.ok (.gosub back), { session with stack }) := by
    unfold popFrame
    rw [outcome_bind, outcome_get]
    dsimp only
    rw [outcome_bind, outcome_lift, hpop]
    rfl
  unfold returnTo
  rw [outcome_bind, outcome_get]
  dsimp only
  rw [hlast]
  dsimp only
  rw [outcome_bind]
  change outcome _ { session with stack := session.stack.truncate (lower.length + 1) } = _
  rewrite [outcome_bind, hpopFrame]
  cases line <;> rfl

/-- A RETURN that leaves more than the frames below a subroutine leaves the subroutine open. -/
theorem holds_returnTo {session : Session} (line : Option Nat)
    (hholds : session.Holds (below ++ [.gosub back]))
    (hsize : below.length < ((returnTo line).outcome session).2.stack.size) :
    ((returnTo line).outcome session).2.Holds (below ++ [.gosub back]) := by
  cases hlast : session.stack.lastIndex? Frame.isGosub with
  | none =>
      have hfalse := Stack.forall_of_lastIndex?_eq_none hlast (.gosub back) (hholds.subset (by simp))
      cases hfalse
  | some index =>
      obtain ⟨lower, frame, above, hlist, rfl, hgosub, -⟩ := Stack.split_of_lastIndex? hlast
      cases frame with
      | forLoop _ _ _ _ | whileLoop _ => cases hgosub
      | gosub back' =>
          obtain ⟨stack, hstack, houtcome⟩ := outcome_returnTo line hlist hlast
          have hsame : ((returnTo line).outcome session).2.stack = stack := by
            rw [houtcome]
            cases line with
            | none => rfl
            | some number => exact sameStack_goto number _
          rw [hsame, Stack.size_eq_length_toList, hstack] at hsize
          rw [Holds, hsame, hstack]
          rw [Holds, hlist] at hholds
          exact List.prefix_of_prefix_length_le hholds ⟨_, rfl⟩ (by simp; omega)

/-- The stack is what it was, or empty. -/
def SameOrEmpty (session after : Session) : Prop :=
  after.stack = session.stack ∨ after.stack.toList = []

theorem SameOrEmpty.holds {session after : Session} (h : SameOrEmpty session after)
    {frames : List Frame} (hholds : session.Holds frames) {size : Nat}
    (hsize : size < after.stack.size) : after.Holds frames := by
  rcases h with hsame | hempty
  · exact SameStack.shields hsame frames hholds
  · rw [Stack.size_eq_length_toList, hempty] at hsize
    cases hsize

theorem sameOrEmpty_run (line : Option Nat) : Relates SameOrEmpty (run line) := by
  intro session
  cases line with
  | none => exact .inr rfl
  | some number =>
      have hstart : (lineStart number).outcome session = (session.program.start number, session) :=
        rfl
      unfold run
      dsimp only
      rw [outcome_bind, outcome_map, hstart]
      cases session.program.start number with
      | error fault => exact .inl rfl
      | ok start => exact .inr rfl

theorem sameOrEmpty_clear (arguments : List (Option Expr)) :
    Relates SameOrEmpty (command (.clear arguments)) := by
  intro session
  have hsame : ((evalInts arguments).outcome session).2.stack = session.stack :=
    sameStack_evalInts arguments session
  change SameOrEmpty session (outcome (evalInts arguments >>= fun _ => modify Session.clear) session).2
  rw [outcome_bind]
  revert hsame
  rcases (evalInts arguments).outcome session with ⟨fault | values, after⟩
  · exact .inl
  · exact fun _ => .inr rfl

/-- A step leaves an open subroutine open as long as its place on the stack is taken. -/
theorem holds_stepOrRaise_of_size {session : Session}
    (hholds : session.Holds (below ++ [.gosub back]))
    (hsize : below.length < session.stepOrRaise.stack.size) :
    session.stepOrRaise.Holds (below ++ [.gosub back]) := by
  by_cases hnext : ∀ next ∈ session.nextStatement?, next.unwinds = false
  · exact holds_stepOrRaise hnext hholds
  · push Not at hnext
    obtain ⟨next, hsome, hunwinds⟩ := hnext
    obtain ⟨cursor, hcursor, hstatement⟩ := Option.bind_eq_some_iff.mp hsome
    have hbegun : (beginStatement { session with cursor := none } cursor).Holds
        (below ++ [.gosub back]) := by
      rw [Holds, beginStatement_stack]
      exact hholds
    rw [stack_stepOrRaise, outcome_step_of_some hcursor hstatement] at hsize
    rw [Holds, stack_stepOrRaise, outcome_step_of_some hcursor hstatement]
    unfold Statement.unwinds at hunwinds
    split at hunwinds
    · exact holds_returnTo _ hbegun hsize
    · exact (sameOrEmpty_run _ _).holds hbegun hsize
    · exact (sameOrEmpty_clear _ _).holds hbegun hsize
    · exact SameOrEmpty.holds (.inr rfl) hbegun hsize
    · exact absurd rfl hunwinds

theorem stack_enter (session : Session) (text : String) :
    (session.enter text).2.stack = session.stack := by
  have hentries := entries_enter session text
  generalize (session.enter text).2 = after at hentries
  induction hentries with
  | refl => rfl
  | tail _ hentry ih => cases hentry <;> exact ih

theorem stack_interrupt (session : Session) : session.interrupt.stack = session.stack := by
  unfold interrupt
  dsimp only
  split
  · exact sameStack_breakOff _
  · rfl

theorem sameOrEmpty_completeLoad (session : Session) (answer : Except Fault (List UInt8)) :
    SameOrEmpty session (session.completeLoad answer) := by
  unfold completeLoad
  split
  · exact .inl rfl
  · rename_i request _
    dsimp only
    cases answer with
    | error fault => exact .inl (stack_raise _ fault)
    | ok bytes =>
        dsimp only
        split
        · unfold loadProgram
          dsimp only
          split <;> exact .inr rfl
        · unfold mergeProgram
          split
          · refine .inl ((stack_raise _ _).trans ?_)
            split <;> rfl
          · refine .inl ?_
            split <;> rfl
        · unfold chainProgram
          dsimp only
          split
          · exact .inr rfl
          · split
            · exact .inr rfl
            · refine .inr ?_
              rw [stack_raise]
              rfl

/-- Whatever happens to a session, an open subroutine stays open as long as its place on the stack
is taken. -/
theorem holds_of_move {session after : Session} (hmove : Move session after)
    (hholds : session.Holds (below ++ [.gosub back])) (hsize : below.length < after.stack.size) :
    after.Holds (below ++ [.gosub back]) := by
  cases hmove with
  | step => exact holds_stepOrRaise_of_size hholds hsize
  | obey => exact SameStack.shields (stack_interrupt _) _ hholds
  | start => exact hholds
  | report => exact hholds
  | enter text => exact SameStack.shields (stack_enter session text) _ hholds
  | interrupt => exact SameStack.shields (stack_interrupt session) _ hholds
  | sendKey => exact hholds
  | sendBreak => exact hholds
  | completeLoad answer => exact (sameOrEmpty_completeLoad session answer).holds hholds hsize

/-- A run in which the place of an open subroutine on the stack is always taken leaves it open. -/
theorem holds_of_moves {session after : Session}
    (hrun : Relation.ReflTransGen
      (fun first second => Move first second ∧ below.length < second.stack.size) session after)
    (hholds : session.Holds (below ++ [.gosub back])) : after.Holds (below ++ [.gosub back]) := by
  induction hrun with
  | refl => exact hholds
  | tail _ hlast ih => exact holds_of_move hlast.1 ih hlast.2

theorem outcome_pushFrame (session : Session) (frame : Frame) :
    (pushFrame frame).outcome session =
      match session.stack.push frame with
      | .error fault => (.error fault, session)
      | .ok stack => (.ok ⟨⟩, { session with stack }) := by
  unfold pushFrame
  rw [outcome_bind, outcome_get]
  dsimp only
  rw [outcome_bind, outcome_lift]
  cases session.stack.push frame <;> rfl

theorem outcome_gosub (session : Session) (line : Nat) :
    (gosub line).outcome session =
      match session.program.start line, session.stack.push (.gosub session.cursor) with
      | .error fault, _ => (.error fault, session)
      | .ok _, .error fault => (.error fault, { session with cursor := none })
      | .ok start, .ok stack => (.ok ⟨⟩, { session with stack, cursor := some start }) := by
  have hstart : (lineStart line).outcome session = (session.program.start line, session) := rfl
  have hleave : (goOnAt none).outcome session = (.ok ⟨⟩, { session with cursor := none }) := rfl
  unfold gosub
  rw [outcome_bind, hstart]
  cases session.program.start line with
  | error fault => rfl
  | ok start =>
      dsimp only
      rw [outcome_bind, outcome_get]
      dsimp only
      rw [outcome_bind, hleave]
      dsimp only
      rw [outcome_bind, outcome_pushFrame]
      cases session.stack.push (.gosub session.cursor) <;> rfl

/-- A call puts its frame on the stack, or leaves the stack alone. -/
theorem stack_gosub (session : Session) (line : Nat) :
    ((gosub line).outcome session).2.stack = session.stack ∨
      ((gosub line).outcome session).2.stack.toList =
        session.stack.toList ++ [.gosub session.cursor] := by
  rw [outcome_gosub]
  cases session.program.start line with
  | error fault => exact .inl rfl
  | ok start =>
      cases hpush : session.stack.push (.gosub session.cursor) with
      | error fault => exact .inl rfl
      | ok stack => exact .inr (Stack.toList_of_push hpush)

theorem stack_onGosub (session : Session) (selector : Expr) (lines : List Nat) :
    ((command (.onGosub selector lines)).outcome session).2.stack = session.stack ∨
      ((command (.onGosub selector lines)).outcome session).2.stack.toList =
        session.stack.toList ++ [.gosub session.cursor] := by
  have hwork : WorkOnly session _ := relates_selected selector lines session
  unfold command
  rw [outcome_bind]
  rcases hselected : (selected selector lines).outcome session with ⟨fault | target, after⟩
  · rw [hselected] at hwork
    exact .inl hwork.sameStack
  · rw [hselected] at hwork
    obtain ⟨work, rfl⟩ := hwork
    dsimp only
    cases target with
    | none => exact .inl rfl
    | some line => exact stack_gosub { session with work } line

end Session

/-- The statements that call a subroutine. -/
def Statement.calls : Statement → Bool
  | .command (.gosub _) | .command (.onGosub _ _) => true
  | _ => false

namespace Session

open Act SessionAct

/-- A call that makes the stack grow puts the place after it on the stack. -/
theorem toList_stack_of_calls {session : Session} {cursor : Cursor} {call : Statement}
    (hcursor : session.cursor = some cursor)
    (hcall : session.program.statement? cursor = some call) (hcalls : call.calls = true)
    (hgrows : session.stack.size < session.stepOrRaise.stack.size) :
    session.stepOrRaise.stack.toList =
      session.stack.toList ++ [.gosub (session.program.advance? cursor)] := by
  let begun := beginStatement { session with cursor := none } cursor
  have hstack : begun.stack = session.stack := beginStatement_stack _ cursor
  have hstep : session.stepOrRaise.stack = ((statement call).outcome begun).2.stack := by
    rw [stack_stepOrRaise, outcome_step_of_some hcursor hcall]
  have heither : ((statement call).outcome begun).2.stack = begun.stack ∨
      ((statement call).outcome begun).2.stack.toList =
        begun.stack.toList ++ [.gosub begun.cursor] := by
    unfold Statement.calls at hcalls
    split at hcalls
    · exact stack_gosub begun _
    · exact stack_onGosub begun _ _
    · cases hcalls
  rw [hstep] at hgrows ⊢
  rw [hstack] at heither
  rcases heither with hsame | hpushed
  · rw [hsame] at hgrows
    exact absurd hgrows (Nat.lt_irrefl _)
  · exact hpushed

/-- A RETURN that takes an open subroutine away leaves the frames below it, and goes on where the
subroutine was called. -/
theorem stepOrRaise_of_returns {session : Session}
    (hreturn : session.nextStatement? = some (.command (.returnTo none)))
    (hholds : session.Holds (below ++ [.gosub back]))
    (hshrinks : session.stepOrRaise.stack.size ≤ below.length) :
    session.stepOrRaise.stack.toList = below ∧ session.stepOrRaise.cursor = back := by
  obtain ⟨cursor, hcursor, hstatement⟩ := Option.bind_eq_some_iff.mp hreturn
  let begun := beginStatement { session with cursor := none } cursor
  have hbegun : begun.Holds (below ++ [.gosub back]) := by
    rw [Holds, beginStatement_stack]
    exact hholds
  cases hlast : begun.stack.lastIndex? Frame.isGosub with
  | none =>
      have hfalse := Stack.forall_of_lastIndex?_eq_none hlast (.gosub back) (hbegun.subset (by simp))
      cases hfalse
  | some index =>
      have hle := Stack.length_le_of_lastIndex? rfl hbegun hlast
      obtain ⟨lower, frame, above, hlist, rfl, hgosub, -⟩ := Stack.split_of_lastIndex? hlast
      cases frame with
      | forLoop _ _ _ _ | whileLoop _ => cases hgosub
      | gosub back' =>
          obtain ⟨stack, hstack, houtcome⟩ := outcome_returnTo none hlist hlast
          have hstep : session.stepOrRaise = { begun with stack, cursor := back' } := by
            have hcommand : (SessionAct.statement (.command (.returnTo none))).outcome begun =
              (.ok ⟨⟩, { begun with stack, cursor := back' }) := houtcome
            unfold stepOrRaise
            rw [outcome_step_of_some hcursor hstatement, hcommand]
          rw [hstep] at hshrinks ⊢
          change stack.size ≤ _ at hshrinks
          change stack.toList = _ ∧ back' = _
          rw [Stack.size_eq_length_toList, hstack] at hshrinks
          rw [hstack]
          -- the frame taken away is the subroutine's own: it stands right above `below`
          have hlength : below.length = lower.length := Nat.le_antisymm hle hshrinks
          obtain ⟨rest, hrest⟩ := hbegun
          rw [hlist, List.append_assoc] at hrest
          obtain ⟨hbelow, hframes⟩ := List.append_inj hrest hlength
          rw [List.singleton_append, List.cons.injEq, Frame.gosub.injEq] at hframes
          exact ⟨hbelow.symm, hframes.1.symm⟩

/-- **Subroutines do not disturb the loops of their callers.** An open subroutine stays open, with
all frames below it, in every step that carries out anything but RETURN, RUN, CLEAR or NEW. So when
RETURN takes away the frame that a call put on the stack, the stack is what it was before the call,
and the session goes on after the call, whatever happened in between. -/
theorem subroutine_shields_caller :
    (∀ (session : Session) (below above : List Frame) (back : Option Cursor),
      session.stack.toList = below ++ [.gosub back] ++ above →
      (∀ next ∈ session.nextStatement?, next.unwinds = false) →
      below ++ [.gosub back] <+: session.stepOrRaise.stack.toList) ∧
    (∀ (before last : Session) (cursor : Cursor) (call : Statement),
      before.cursor = some cursor →
      before.program.statement? cursor = some call →
      call.calls = true →
      before.stack.size < before.stepOrRaise.stack.size →
      Relation.ReflTransGen
        (fun first second => Move first second ∧ before.stack.size < second.stack.size)
        before.stepOrRaise last →
      last.nextStatement? = some (.command (.returnTo none)) →
      last.stepOrRaise.stack.size ≤ before.stack.size →
      last.stepOrRaise.stack.toList = before.stack.toList ∧
        last.stepOrRaise.cursor = before.program.advance? cursor) := by
  constructor
  · intro session below above back hlist hnext
    refine holds_stepOrRaise hnext ?_
    rw [Holds, hlist]
    exact List.prefix_append _ _
  · intro before last cursor call hcursor hcall hcalls hgrows hrun hreturn hshrinks
    have hcalled := toList_stack_of_calls hcursor hcall hcalls hgrows
    rw [Stack.size_eq_length_toList before.stack] at hrun hshrinks
    refine stepOrRaise_of_returns hreturn (holds_of_moves hrun ?_) hshrinks
    rewrite [Holds, hcalled]
    exact List.prefix_rfl

/-- A loop that calls a subroutine, at the call; the subroutine opens a loop and returns from it. -/
def callInLoop : Session where
  program := { lines := ⟨[
    (10, [.command (.whileLoop (.int 1)), .command (.gosub 20)]),
    (20, [.command (.whileLoop (.int 1)), .command (.returnTo none)])], by decide⟩ }
  stack := ⟨"STACK OVERFLOW", [.whileLoop (.start (some 10))], 1, rfl⟩
  cursor := some ⟨some 10, [1]⟩
  state := .running

theorem subroutine_shields_caller_callInLoop :
    [.whileLoop (.start (some 10)), .gosub (some (.start (some 20)))] <+:
        callInLoop.stepOrRaise.stepOrRaise.stack.toList ∧
      callInLoop.stepOrRaise.stepOrRaise.stepOrRaise.stack.toList = callInLoop.stack.toList ∧
      callInLoop.stepOrRaise.stepOrRaise.stepOrRaise.cursor =
        callInLoop.program.advance? ⟨some 10, [1]⟩ := by
  have hcalled : callInLoop.stepOrRaise.stack.toList =
      [.whileLoop (.start (some 10))] ++ [.gosub (some (.start (some 20)))] ++ [] := by rfl
  have hrun : Relation.ReflTransGen
      (fun first second => Move first second ∧ callInLoop.stack.size < second.stack.size)
      callInLoop.stepOrRaise callInLoop.stepOrRaise.stepOrRaise :=
    .single ⟨.step (by rfl) (by rfl) (by rfl) (by rfl), by decide⟩
  refine ⟨?_, ?_⟩
  · exact subroutine_shields_caller.1 callInLoop.stepOrRaise _ _ _ hcalled (by decide)
  · exact subroutine_shields_caller.2 callInLoop _ ⟨some 10, [1]⟩ (.command (.gosub 20))
      rfl rfl rfl (by decide) hrun rfl (by decide)

end Session

end LineBasic
