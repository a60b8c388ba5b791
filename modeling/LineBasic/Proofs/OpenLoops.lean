import LineBasic.Proofs.Counted
import Mathlib.Data.List.Infix

/-! The loops that are open at once. A statement closes loops and subroutines from the top of the stack down, or
opens one of them. FOR first closes an open loop over its counter, back to the last call of a subroutine; WHILE does
not look for a loop of its own that is open. -/

namespace LineBasic

namespace Frame

/-- The counter of a FOR loop. -/
def counter? : Frame → Option Name
  | .forLoop counter _ _ _ => some counter
  | _ => none

/-- The WHILE of a loop. -/
def start? : Frame → Option Cursor
  | .whileLoop start => some start
  | _ => none

variable {κ : Type} {label : Frame → Option κ} {frames after below : List Frame} {frame : Frame} {counter : Name}

theorem counter?_eq_some_iff : frame.counter? = some counter ↔ frame.countsOver counter = true := by
  cases frame <;> simp [counter?, countsOver]

theorem start?_eq_some_iff {start : Cursor} : frame.start? = some start ↔ frame = .whileLoop start := by
  cases frame <;> simp [start?]

/-- Loops without a call of a subroutine between them differ in their labels. -/
def Apart (label : Frame → Option κ) (frames : List Frame) : Prop :=
  ∀ stretch, stretch <:+: frames → (∀ frame ∈ stretch, frame.isGosub = false) → (stretch.filterMap label).Nodup

/-- The frame stands above the last call of a subroutine. -/
def IsInner (frames : List Frame) (frame : Frame) : Prop :=
  ∃ stretch, stretch <:+ frames ∧ frame ∈ stretch ∧ ∀ other ∈ stretch, other.isGosub = false

theorem apart_nil : Apart label [] := by
  intro stretch hstretch _
  rw [List.infix_nil.mp hstretch]
  exact List.nodup_nil

theorem Apart.of_prefix (h : Apart label frames) (hfront : after <+: frames) : Apart label after :=
  fun stretch hstretch hcalls => h stretch (hstretch.trans hfront.isInfix) hcalls

/-- What is put on the stack stays apart from the loops above the last call. -/
theorem apart_concat : Apart label (frames ++ [frame]) ↔ Apart label frames ∧
    (frame.isGosub = false → ∀ other, IsInner frames other → ∀ key, label frame = some key → label other ≠ some key) := by
  constructor
  · intro h
    refine ⟨h.of_prefix (List.prefix_append _ _), ?_⟩
    rintro hframe other ⟨stretch, hstretch, hother, hcalls⟩ key hkey hsame
    have hnodup : ((stretch ++ [frame]).filterMap label).Nodup := by
      refine h (stretch ++ [frame]) ?_ fun found hfound => ?_
      · exact (List.suffix_concat_iff.mpr (.inr ⟨stretch, rfl, hstretch⟩)).isInfix
      · rcases List.mem_append.mp hfound with hmem | hmem
        · exact hcalls found hmem
        · rw [List.mem_singleton.mp hmem]
          exact hframe
    rw [List.filterMap_append, List.nodup_append] at hnodup
    refine hnodup.2.2 key (List.mem_filterMap.mpr ⟨other, hother, hsame⟩) key ?_ rfl
    exact List.mem_filterMap.mpr ⟨frame, List.mem_singleton_self frame, hkey⟩
  · rintro ⟨h, hnew⟩ stretch hstretch hcalls
    rcases List.infix_concat_iff.mp hstretch with hsuffix | hinfix
    · rcases List.suffix_concat_iff.mp hsuffix with rfl | ⟨inner, rfl, hinner⟩
      · exact List.nodup_nil
      · have hframe : frame.isGosub = false := hcalls frame (by simp)
        have hcalls' : ∀ other ∈ inner, other.isGosub = false := fun other hother => hcalls other (by simp [hother])
        rw [List.filterMap_append, List.nodup_append]
        refine ⟨h inner hinner.isInfix hcalls', ?_, ?_⟩
        · cases hlabel : label frame <;> simp [hlabel]
        · intro key hkey found hfound heq
          obtain ⟨other, hother, hlabel⟩ := List.mem_filterMap.mp hkey
          obtain ⟨last, hlast, hlabel'⟩ := List.mem_filterMap.mp hfound
          rw [List.mem_singleton.mp hlast, ← heq] at hlabel'
          exact hnew hframe other ⟨inner, hinner, hother, hcalls'⟩ key hlabel' hlabel
    · exact h stretch hinfix hcalls

/-- A frame without a label can be put on the stack. -/
theorem Apart.concat_of_none (h : Apart label frames) (hlabel : label frame = none) : Apart label (frames ++ [frame]) := by
  refine apart_concat.mpr ⟨h, fun _ _ _ key hkey => ?_⟩
  rw [hlabel] at hkey
  cases hkey

/-- A place below the topmost frame is a place in the frames under it. -/
theorem split_concat {outer inner : List Frame} {loop : Frame} (h : frames ++ [frame] = outer ++ loop :: inner) :
    loop = frame ∨ ∃ under, inner = under ++ [frame] ∧ frames = outer ++ loop :: under := by
  rcases List.eq_nil_or_concat inner with rfl | ⟨under, last, rfl⟩
  · exact .inl (List.singleton_inj.mp (List.append_inj' h rfl).2).symm
  · rw [List.concat_eq_append, ← List.cons_append, ← List.append_assoc] at h
    obtain ⟨hframes, hlast⟩ := List.append_inj' h rfl
    rw [List.singleton_inj.mp hlast]
    exact .inr ⟨under, List.concat_eq_append, hframes⟩

/-- There is a place for a loop over any counter. -/
theorem exists_around (counter : Name) (frames : List Frame) : ∃ below, Around counter frames below := by
  induction frames using List.reverseRecOn with
  | nil => exact ⟨[], .inl ⟨rfl, fun outer loop inner h => absurd h.symm (by simp)⟩⟩
  | append_singleton frames frame ih =>
      by_cases hcounts : frame.countsOver counter = true
      · exact ⟨frames, .inr ⟨frame, [], rfl, hcounts, List.forall_mem_nil _⟩⟩
      by_cases hcall : frame.isGosub = true
      · refine ⟨frames ++ [frame], .inl ⟨rfl, fun outer loop inner hsplit hloop => ?_⟩⟩
        obtain rfl | ⟨under, rfl, -⟩ := split_concat hsplit
        · exact absurd hloop hcounts
        · exact ⟨frame, by simp, hcall⟩
      obtain ⟨below, ⟨rfl, hcalled⟩ | ⟨loop, inner, rfl, hloop, hinner⟩⟩ := ih
      · refine ⟨below ++ [frame], .inl ⟨rfl, fun outer loop inner hsplit hloop => ?_⟩⟩
        obtain rfl | ⟨under, rfl, hunder⟩ := split_concat hsplit
        · exact absurd hloop hcounts
        · obtain ⟨call, hmem, hgosub⟩ := hcalled outer loop under hunder hloop
          exact ⟨call, List.mem_append_left _ hmem, hgosub⟩
      · refine ⟨below, .inr ⟨loop, inner ++ [frame], by simp, hloop, fun other hother => ?_⟩⟩
        rcases List.mem_append.mp hother with hmem | hmem
        · exact hinner other hmem
        · rw [List.mem_singleton.mp hmem]
          exact ⟨Bool.eq_false_of_not_eq_true hcall, Bool.eq_false_of_not_eq_true hcounts⟩

theorem Around.prefix_frames (h : Around counter frames below) : below <+: frames := by
  obtain ⟨rfl, -⟩ | ⟨loop, inner, rfl, -⟩ := h
  · exact List.prefix_rfl
  · exact List.prefix_append _ _

/-- Where FOR puts its loop, no other loop over its counter stands above the last call. -/
theorem Apart.concat_of_around (h : Apart counter? frames) (haround : Around counter frames below)
    (hcounts : frame.countsOver counter = true) : Apart counter? (below ++ [frame]) := by
  refine apart_concat.mpr ⟨h.of_prefix haround.prefix_frames, fun _ other hinner key hkey => ?_⟩
  rw [counter?_eq_some_iff.mpr hcounts] at hkey
  cases hkey
  obtain ⟨rfl, hcalled⟩ | ⟨loop, inner, rfl, hloop, -⟩ := haround
  · intro hsame
    obtain ⟨stretch, ⟨rest, rfl⟩, hother, hcalls⟩ := hinner
    obtain ⟨outer, upper, rfl⟩ := List.append_of_mem hother
    obtain ⟨call, hmem, hgosub⟩ := hcalled (rest ++ outer) other upper (by simp) (counter?_eq_some_iff.mp hsame)
    rw [hcalls call (by simp [hmem])] at hgosub
    cases hgosub
  · have hclosed : below ++ [loop] <+: below ++ loop :: inner := ⟨inner, by simp⟩
    exact (apart_concat.mp (h.of_prefix hclosed)).2 (isGosub_of_countsOver hloop) other hinner counter
      (counter?_eq_some_iff.mpr hloop)

/-- What a statement does to the frames on the stack, given the places at which it may be a WHILE that opens its
loop. -/
inductive Restacks (atWhile : Cursor → Prop) (frames : List Frame) : List Frame → Prop
  | closes {after : List Frame} (h : after <+: frames) : Restacks atWhile frames after
  | calls (back : Option Cursor) : Restacks atWhile frames (frames ++ [.gosub back])
  | counts {counter : Name} {below : List Frame} (limit step : Value) (body : Option Cursor)
      (h : Around counter frames below) : Restacks atWhile frames (below ++ [.forLoop counter limit step body])
  | enters {start : Cursor} (h : atWhile start) : Restacks atWhile frames (frames ++ [.whileLoop start])

variable {atWhile : Cursor → Prop}

/-- Loops over one counter stay apart. -/
theorem Restacks.apart_counter? (h : Restacks atWhile frames after) (hapart : Apart counter? frames) :
    Apart counter? after := by
  cases h with
  | closes hfront => exact hapart.of_prefix hfront
  | calls back => exact hapart.concat_of_none rfl
  | counts limit step body haround => exact hapart.concat_of_around haround (decide_eq_true rfl)
  | enters _ => exact hapart.concat_of_none rfl

/-- Loops of one WHILE stay apart, unless a WHILE opens a loop of its own that is open above the last call. -/
theorem Restacks.apart_start? (h : Restacks atWhile frames after) (hapart : Apart start? frames)
    (hanew : ∀ start, atWhile start → frames.length < after.length → ¬IsInner frames (.whileLoop start)) :
    Apart start? after := by
  cases h with
  | closes hfront => exact hapart.of_prefix hfront
  | calls back => exact hapart.concat_of_none rfl
  | counts limit step body haround => exact (hapart.of_prefix haround.prefix_frames).concat_of_none rfl
  | enters hstart =>
      refine apart_concat.mpr ⟨hapart, fun _ other hinner key hkey hsame => ?_⟩
      cases hkey
      rw [start?_eq_some_iff.mp hsame] at hinner
      exact hanew _ hstart (by simp) hinner

end Frame

namespace Session

open Act SessionAct

/-- Loops and subroutines are closed, and none is opened. -/
def ClosesLoops (session after : Session) : Prop := after.stack.toList <+: session.stack.toList

instance : IsPreorder Session ClosesLoops where
  refl _ := List.prefix_rfl
  trans _ _ _ h h' := h'.trans h

instance : AllowsClosing ClosesLoops where
  withWork _ _ _ := List.prefix_rfl
  cursor _ _ := List.prefix_rfl
  truncate session count := by
    rw [ClosesLoops, Stack.toList_truncate]
    exact List.take_prefix _ _

theorem SameStack.closes {session after : Session} (h : SameStack session after) :
    ClosesLoops session after := by
  rw [ClosesLoops, h]

theorem SameOrEmpty.closes {session after : Session} (h : SameOrEmpty session after) :
    ClosesLoops session after := by
  rcases h with hsame | hempty
  · exact SameStack.closes hsame
  · rw [ClosesLoops, hempty]
    exact List.nil_prefix

/-- The session is about to carry out a WHILE whose condition holds. -/
structure AtWhile (session : Session) (start : Cursor) : Prop where
  cursor : session.cursor = some start
  holds : ∃ condition, session.program.statement? start = some (.command (.whileLoop condition)) ∧
    ((Structured.test condition).outcome session.begun).1 = .ok true

/-- A frame is put on the stack, or the stack is full. -/
theorem stack_pushFrame (session : Session) (frame : Frame) :
    ((pushFrame frame).outcome session).2.stack = session.stack ∨
      ((pushFrame frame).outcome session).2.stack.toList = session.stack.toList ++ [frame] := by
  rw [outcome_pushFrame]
  cases hpush : session.stack.push frame with
  | error fault => exact .inl rfl
  | ok stack => exact .inr (Stack.toList_of_push hpush)

theorem stack_begun (session : Session) : session.begun.stack = session.stack := by
  unfold begun
  split
  · exact beginStatement_stack _ _
  · rfl

end Session

namespace SessionAct

open Act Session

/-- WHILE goes on in its loop or behind it. -/
theorem outcome_whileLoop (condition : Expr) (session : Session) :
    (whileLoop condition).outcome session =
      match (Structured.test condition).outcome session with
      | (.error fault, after) => (.error fault, after)
      | (.ok true, after) => (pushFrame (.whileLoop after.current)).outcome after
      | (.ok false, after) =>
          match after.program.closingWend? after.program.span 0 after.cursor with
          | some cursor => (.ok ⟨⟩, { after with cursor := after.program.advance? cursor })
          | none => (.error (.of .whileWithoutWend), after) := by
  unfold whileLoop Structured.test
  rw [outcome_bind, outcome_bind]
  rcases (eval condition).outcome session with ⟨fault | value, after⟩
  · rfl
  · dsimp only
    rw [outcome_bind, outcome_lift]
    cases value.isTrue with
    | error fault => rfl
    | ok holds =>
        cases holds with
        | true => rfl
        | false =>
            dsimp only
            rw [if_neg Bool.false_ne_true, outcome_bind, outcome_get]
            dsimp only
            cases after.program.closingWend? after.program.span 0 after.cursor <;> rfl

theorem workOnly_test (condition : Expr) : Relates WorkOnly (Structured.test condition) :=
  (relates_eval condition).bind fun _ => relates_lift _

section Restacks

variable {atWhile : Cursor → Prop} {session : Session}

theorem restacks_bind {α : Type} {action : SessionAct α} {next : α → SessionAct Unit} (h : Relates SameStack action)
    (hnext : ∀ value after, Frame.Restacks atWhile after.stack.toList ((next value).outcome after).2.stack.toList)
    (session : Session) :
    Frame.Restacks atWhile session.stack.toList ((action >>= next).outcome session).2.stack.toList := by
  have hsame : (action.outcome session).2.stack = session.stack := h session
  rw [outcome_bind, ← hsame]
  rcases action.outcome session with ⟨fault | value, after⟩
  · exact .closes List.prefix_rfl
  · exact hnext value after

/-- FOR puts its loop in the place of an open loop over its counter. -/
theorem restacks_openLoop (counter : Name) (last change : Value) (session : Session) :
    Frame.Restacks atWhile session.stack.toList ((openLoop counter last change).outcome session).2.stack.toList := by
  obtain ⟨below, haround⟩ := Frame.exists_around counter session.stack.toList
  have hclosed := toList_closeSameLoop haround
  rw [outcome_openLoop]
  split
  · exact .closes List.prefix_rfl
  · split
    · exact .closes (hclosed ▸ haround.prefix_frames)
    · rw [sameStack_skipLoop { session with stack := closeSameLoop session.stack counter }, hclosed]
      exact .closes haround.prefix_frames
    · rcases stack_pushFrame { session with stack := closeSameLoop session.stack counter }
        (.forLoop counter last change session.cursor) with hsame | hpushed
      · rw [hsame, hclosed]
        exact .closes haround.prefix_frames
      · rw [hpushed, hclosed]
        exact .counts last change session.cursor haround

theorem restacks_forLoop (counter : Name) (start limit : Expr) (step : Option Expr) (session : Session) :
    Frame.Restacks atWhile session.stack.toList ((forLoop counter start limit step).outcome session).2.stack.toList := by
  by_cases htype : counter.type = .text
  · rw [forLoop_of_text htype]
    exact .closes List.prefix_rfl
  · rw [forLoop_eq htype]
    refine restacks_bind (sameStack_eval start) (fun first => ?_) session
    refine restacks_bind (sameStack_of_workOnly (relates_storeScalar counter first)) fun _ => ?_
    refine restacks_bind (sameStack_of_workOnly (relates_bounds limit step)) fun values => ?_
    exact restacks_openLoop counter values.1 values.2

/-- WHILE opens its loop where its condition holds. -/
theorem restacks_whileLoop (condition : Expr)
    (h : ((Structured.test condition).outcome session).1 = .ok true → atWhile session.current) :
    Frame.Restacks atWhile session.stack.toList ((whileLoop condition).outcome session).2.stack.toList := by
  have hwork := workOnly_test condition session
  rw [outcome_whileLoop]
  revert h hwork
  rcases (Structured.test condition).outcome session with ⟨fault | holds, after⟩
  · rintro - ⟨work, rfl⟩
    exact .closes List.prefix_rfl
  · rintro h ⟨work, rfl⟩
    cases holds with
    | true =>
        rcases stack_pushFrame { session with work } (.whileLoop session.current) with hsame | hpushed
        · exact .closes (SameStack.closes hsame)
        · rw [hpushed]
          exact .enters (h rfl)
    | false =>
        dsimp only
        split <;> exact .closes List.prefix_rfl

theorem restacks_of_called {back : Option Cursor} {after : Stack Frame}
    (h : after = session.stack ∨ after.toList = session.stack.toList ++ [.gosub back]) :
    Frame.Restacks atWhile session.stack.toList after.toList := by
  rcases h with rfl | hcalled
  · exact .closes List.prefix_rfl
  · rw [hcalled]
    exact .calls back

/-- **What a command does to the stack.** -/
theorem restacks_command (c : Command) (h : ∀ condition, c = .whileLoop condition →
      ((Structured.test condition).outcome session).1 = .ok true → atWhile session.current) :
    Frame.Restacks atWhile session.stack.toList ((command c).outcome session).2.stack.toList := by
  by_cases hrestacks : c.restacks = false
  · exact .closes (sameStack_command c hrestacks session).closes
  · cases c with
    | clear arguments => exact .closes (sameOrEmpty_clear arguments session).closes
    | forLoop counter start limit step => exact restacks_forLoop counter start limit step session
    | gosub line => exact restacks_of_called (stack_gosub session line)
    | new => exact .closes List.nil_prefix
    | next counters => exact .closes (relates_next (R := ClosesLoops) counters session)
    | onGosub selector lines => exact restacks_of_called (stack_onGosub session selector lines)
    | returnTo line => exact .closes (relates_returnTo (R := ClosesLoops) line session)
    | run line => exact .closes (sameOrEmpty_run line session).closes
    | wend => exact .closes (relates_wend (R := ClosesLoops) session)
    | whileLoop condition => exact restacks_whileLoop condition (h condition rfl)
    | _ => exact absurd rfl hrestacks

end Restacks

end SessionAct

namespace Session

open Act SessionAct

variable {session after : Session} {start : Cursor}

/-- **What a step does to the stack**, whether it ends in a fault or not. -/
theorem restacks_stepOrRaise (session : Session) :
    Frame.Restacks session.AtWhile session.stack.toList session.stepOrRaise.stack.toList := by
  rw [stack_stepOrRaise]
  cases hnext : session.nextStatement? with
  | none =>
      rw [outcome_step_of_none hnext]
      unfold endOfProgram
      rw [outcome_bind, outcome_get]
      dsimp only
      split <;> exact .closes List.prefix_rfl
  | some next =>
      obtain ⟨cursor, hcursor, hstatement⟩ := exists_cursor hnext
      rw [outcome_step hnext, ← stack_begun session]
      cases next with
      | choice condition _ _ => exact .closes (SameStack.closes (sameStack_choose condition session.begun))
      | command c =>
          refine restacks_command c fun condition hc hholds => ?_
          rw [current_begun hcursor hnext]
          exact ⟨hcursor, condition, hc ▸ hstatement, hholds⟩

/-- Nothing but a step opens loops. -/
theorem sameOrEmpty_of_move (h : Move session after) : after = session.stepOrRaise ∨ SameOrEmpty session after := by
  cases h with
  | step => exact .inl rfl
  | obey => exact .inr (.inl (stack_interrupt _))
  | start | report | sendKey | sendBreak => exact .inr (.inl rfl)
  | enter text => exact .inr (.inl (stack_enter session text))
  | interrupt => exact .inr (.inl (stack_interrupt session))
  | completeLoad answer => exact .inr (sameOrEmpty_completeLoad session answer)

/-- **What a move does to the stack.** -/
theorem restacks_of_move (h : Move session after) :
    Frame.Restacks session.AtWhile session.stack.toList after.stack.toList := by
  obtain rfl | hclosed := sameOrEmpty_of_move h
  · exact restacks_stepOrRaise session
  · exact .closes hclosed.closes

end Session

end LineBasic
