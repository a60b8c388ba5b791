import LineBasic.Proofs.Counted
import LineBasic.Proofs.Course
import LineBasic.Proofs.Twins
import LineBasic.Proofs.Unrolled

/-! Sessions that carry out a program and the one in which some NEXT lists of it are written out. They are abreast
when they stand at statements that correspond and have opened the same loops and subroutines there. Every
statement that both programs have keeps them abreast where it does not fail, a FOR only if the NEXT that it skips
its loop to goes on with no counters of further loops. -/

namespace LineBasic

namespace Program

/-- The second program is the first one, which has no empty line, with some NEXT lists written out. -/
structure WrittenOut (p q : Program) : Prop extends Unrolls p q where
  filled : ∀ entry ∈ p.lines.entries, entry.2 ≠ []

variable {p q : Program} {cursor cursor' : Cursor}

theorem WrittenOut.otherFilled (h : p.WrittenOut q) : ∀ entry ∈ q.lines.entries, entry.2 ≠ [] := by
  have hfilled := h.filled
  have hlines := h.lines
  generalize p.lines.entries = entries at hfilled hlines
  generalize q.lines.entries = others at hlines ⊢
  induction hlines with
  | nil => exact fun _ hnone => absurd hnone List.not_mem_nil
  | cons hfirst _ ih =>
      rintro entry (_ | ⟨_, hrest⟩)
      · exact fun hnil => hfilled _ List.mem_cons_self (hfirst.2.eq_nil_iff.mp hnil)
      · exact ih (fun entry hentry => hfilled entry (List.mem_cons_of_mem _ hentry)) entry hrest

/-- A line and the one with some NEXT lists written out are put into both programs. -/
theorem WrittenOut.insert (h : p.WrittenOut q) (number : Nat) {statements statements' : List Statement}
    (hline : Statement.Splits statements statements') (hfull : statements ≠ []) :
    (p.insert ⟨some number, statements⟩).WrittenOut (q.insert ⟨some number, statements'⟩) where
  toUnrolls := h.toUnrolls.insert hline number
  filled := by
    intro entry hentry
    have hnonempty : (⟨some number, statements⟩ : Line).isEmpty = false := by
      rw [Line.isEmpty, List.isEmpty_eq_false_iff]
      exact hfull
    unfold Program.insert at hentry
    dsimp only at hentry
    rw [hnonempty, if_neg Bool.false_ne_true] at hentry
    obtain rfl | hbefore := Numbered.mem_place hentry
    · exact hfull
    · exact h.filled entry hbefore

/-- A line is put into both programs. -/
theorem WrittenOut.insert_same (h : p.WrittenOut q) (number : Nat) {statements : List Statement}
    (hfull : statements ≠ []) :
    (p.insert ⟨some number, statements⟩).WrittenOut (q.insert ⟨some number, statements⟩) :=
  h.insert number (.refl _) hfull

theorem WrittenOut.corresponds_start (h : p.WrittenOut q) {number : Nat} (hstart : p.start number = .ok cursor) :
    p.Corresponds q cursor cursor := by
  unfold start at hstart
  split at hstart
  · cases hstart
    exact Program.corresponds_start h.filled h.toUnrolls ‹_›
  · cases hstart

theorem WrittenOut.firstCursor? (h : p.WrittenOut q) :
    Option.Rel (p.Corresponds q) p.firstCursor? q.firstCursor? := by
  unfold Program.firstCursor?
  rw [h.first?]
  cases hfirst : p.lines.first? with
  | none => exact .none
  | some number =>
      obtain ⟨entry, hentry, rfl⟩ := Option.map_eq_some_iff.mp hfirst
      have hget := Numbered.mem_entries_iff.mp (List.mem_of_mem_head? hentry)
      exact .some (Program.corresponds_start h.filled h.toUnrolls (Option.isSome_of_eq_some hget))

/-- Statements that correspond, or the end of both programs. -/
abbrev Corresponds? (p q : Program) : Option Cursor → Option Cursor → Prop := Option.Rel (p.Corresponds q)

/-- A search stands at a statement that is there. -/
theorem isSome_of_rel {start start' : Option Cursor} (hstart : p.Corresponds? q start start') :
    (∀ cursor ∈ start, (p.statement? cursor).isSome) ∧ ∀ cursor ∈ start', (q.statement? cursor).isSome := by
  cases hstart with
  | none => exact ⟨fun _ hnone => (by cases hnone), fun _ hnone => (by cases hnone)⟩
  | some hplace =>
      refine ⟨?_, ?_⟩
      · rintro _ ⟨⟩
        exact hplace.isSome.1
      · rintro _ ⟨⟩
        exact hplace.isSome.2

/-- A search goes forward, so that what stands behind its end is not where it started. -/
theorem Finds.advance?_ne {weigh : Nat → Statement → Option Nat} {opened left : Nat} {start : Option Cursor}
    {close : Cursor} (hfilled : ∀ entry ∈ p.lines.entries, entry.2 ≠ []) (h : p.Finds weigh opened start left close) :
    p.advance? close ≠ start := by
  have hlater : ∀ first ∈ start, ∀ next, p.advance? close = some next → first.Before next := by
    induction h with
    | here _ _ =>
        rintro _ ⟨⟩ next hnext
        exact (before_of_advance? hfilled hnext).2
    | @further _ _ _ cursor close _ _ _ hfinds ih =>
        rintro _ ⟨⟩ next hnext
        cases hadvance : p.advance? cursor with
        | none =>
            rw [hadvance] at hfinds
            cases hfinds
        | some second =>
            exact (before_of_advance? hfilled hadvance).2.trans (ih second hadvance next hnext)
  intro hsame
  cases hstart : start with
  | none => rw [hstart] at h; cases h
  | some first =>
      rw [hstart] at hsame
      exact (hlater first hstart first hsame).ne rfl

end Program

/-- Frames that are the same but for their places in the two programs. -/
inductive Frame.Placed (p q : Program) : Frame → Frame → Prop
  | gosub {back back' : Option Cursor} (h : p.Corresponds? q back back') :
      Placed p q (.gosub back) (.gosub back')
  | forLoop (counter : Name) (limit step : Value) {body body' : Option Cursor}
      (h : p.Corresponds? q body body') :
      Placed p q (.forLoop counter limit step body) (.forLoop counter limit step body')
  | whileLoop {start start' : Cursor} (h : p.Corresponds q start start') :
      Placed p q (.whileLoop start) (.whileLoop start')

namespace Frame

variable {p q : Program}

theorem placed_isGosub (frame found : Frame) (h : Placed p q frame found) : found.isGosub = frame.isGosub := by
  cases h <;> rfl

theorem placed_countsOver (counter : Name) (frame found : Frame) (h : Placed p q frame found) :
    found.countsOver counter = frame.countsOver counter := by
  cases h <;> rfl

theorem placed_isInside (sought : Option Name) (frame found : Frame) (h : Placed p q frame found) :
    found.isInside sought = frame.isInside sought := by
  cases h <;> rfl

end Frame

/-- A relation between what two sessions have to tell that printing and reporting keep. -/
structure Echoes (E : List Event → List Event → Prop) : Prop where
  print {told heard : List Event} (h : E told heard) (text : String) :
    E (appendPrint text told) (appendPrint text heard)
  report {told heard : List Event} (h : E told heard) (event : Event) : E (told ++ [event]) (heard ++ [event])

theorem echoes_agree (listed : String → String → Prop) : Echoes (List.Forall₂ (Event.Agree listed)) where
  print h _ := agree_appendPrint h (.inl rfl)
  report h event := List.rel_append h (.cons (.same event) .nil)

/-- The situations of two sessions that carry out statements at these places. They have opened the same loops and
subroutines, and where they go on is in a relation. -/
structure Abreast (p q : Program) (place place' : Cursor) (C : Option Cursor → Option Cursor → Prop)
    (E : List Event → List Event → Prop) (a b : Session.Situation) : Prop where
  program : a.program = p
  otherProgram : b.program = q
  functions : b.functions = a.functions
  stack : Stack.Rel (Frame.Placed p q) a.stack b.stack
  cursor : C a.cursor b.cursor
  current : a.current = place
  otherCurrent : b.current = place'
  restart : p.Corresponds? q a.restart b.restart
  events : E a.events b.events

namespace Session

variable {p q : Program} {place place' : Cursor} {C D : Option Cursor → Option Cursor → Prop}
  {E : List Event → List Event → Prop} {session other : Session}

/-- Sessions that differ in their situations only, and these are abreast. -/
abbrev Parallel (p q : Program) (place place' : Cursor) (C : Option Cursor → Option Cursor → Prop)
    (E : List Event → List Event → Prop) : Session → Session → Prop :=
  SideBySide (Abreast p q place place' C E)

theorem lockstep_parallel (h : p.WrittenOut q) (hE : Echoes E) (place place' : Cursor)
    (C : Option Cursor → Option Cursor → Prop) : Lockstep (Parallel p q place place' C E) := by
  refine lockstep_sideBySide (fun a b hab => hab.functions) (fun a b hab => ?_) (fun a b hab number => ?_)
    (fun _ _ hab _ => { hab with events := hE.print hab.events _ })
    (fun _ _ hab _ => { hab with events := hE.report hab.events _ })
  · rw [hab.program, hab.otherProgram, h.data]
  · rw [hab.program, hab.otherProgram, h.start]

section Parts

variable (hboth : Parallel p q place place' C E session other)
include hboth

theorem Parallel.program : session.program = p := hboth.situation.program

theorem Parallel.otherProgram : other.program = q := hboth.situation.otherProgram

theorem Parallel.stack : Stack.Rel (Frame.Placed p q) session.stack other.stack := hboth.situation.stack

theorem Parallel.cursor : C session.cursor other.cursor := hboth.situation.cursor

theorem Parallel.current : session.current = place := hboth.situation.current

theorem Parallel.otherCurrent : other.current = place' := hboth.situation.otherCurrent

theorem Parallel.restart : p.Corresponds? q session.settings.restart other.settings.restart := hboth.situation.restart

theorem Parallel.events : E session.events other.events := hboth.situation.events

end Parts

theorem Parallel.goOn (hboth : Parallel p q place place' C E session other) {cursor cursor' : Option Cursor}
    (hcursor : D cursor cursor') :
    Parallel p q place place' D E { session with cursor } { other with cursor := cursor' } :=
  hboth.move (a := { session.situation with cursor }) (b := { other.situation with cursor := cursor' })
    { hboth.situation with cursor := hcursor }

theorem Parallel.withStack (hboth : Parallel p q place place' C E session other) {stack stack' : Stack Frame}
    (hstack : Stack.Rel (Frame.Placed p q) stack stack') :
    Parallel p q place place' C E { session with stack } { other with stack := stack' } :=
  hboth.move (a := { session.situation with stack }) (b := { other.situation with stack := stack' })
    { hboth.situation with stack := hstack }

theorem Parallel.withEvents {F : List Event → List Event → Prop} (hboth : Parallel p q place place' C E session other)
    {events events' : List Event} (hevents : F events events') :
    Parallel p q place place' C F { session with events } { other with events := events' } :=
  hboth.move (a := { session.situation with events }) (b := { other.situation with events := events' })
    { hboth.situation with events := hevents }

theorem Parallel.withRestart (hboth : Parallel p q place place' C E session other) {restart restart' : Option Cursor}
    (hrestart : p.Corresponds? q restart restart') :
    Parallel p q place place' C E { session with settings := { session.settings with restart } }
      { other with settings := { other.settings with restart := restart' } } :=
  hboth.move (a := { session.situation with restart }) (b := { other.situation with restart := restart' })
    { hboth.situation with restart := hrestart }

theorem Parallel.halt (h : p.WrittenOut q) (hE : Echoes E) (hboth : Parallel p q place place' C E session other)
    (state : RunState) (hnone : C none none) :
    Parallel p q place place' C E (session.halt state) (other.halt state) :=
  Parallel.goOn ((lockstep_parallel h hE place place' C).change hboth
    (fun session => { session with state, traced := none }) fun _ _ => rfl) hnone

theorem Parallel.clear (h : p.WrittenOut q) (hE : Echoes E) (hboth : Parallel p q place place' C E session other) :
    Parallel p q place place' C E session.clear other.clear := by
  have hcleared := (lockstep_parallel h hE place place' C).change hboth
    (fun session => { session with
      work := { session.work with memory := .empty }
      data := none
      dataPosition := 0
      settings := session.settings.clearTrap
      state := if session.state = .trapped then .running else session.state }) fun _ _ => rfl
  exact hcleared.move (a := { session.situation with functions := ∅, stack := session.stack.clear, restart := none })
    (b := { other.situation with functions := ∅, stack := other.stack.clear, restart := none })
    { hcleared.situation with functions := rfl, stack := hboth.stack.clear, restart := .none }

theorem Parallel.breakOff (h : p.WrittenOut q) (hE : Echoes E) (hline : place'.line = place.line)
    (hboth : Parallel p q place place' (p.Corresponds? q) E session other) :
    Parallel p q place place' (p.Corresponds? q) E session.breakOff other.breakOff := by
  have hlockstep := lockstep_parallel h hE place place' (p.Corresponds? q)
  have htold : ∀ line, Parallel p q place place' (p.Corresponds? q) E (session.breakMessage line)
      (other.breakMessage line) := by
    intro line
    unfold breakMessage
    rw [hlockstep.reads hboth column fun _ _ => rfl]
    exact hlockstep.print hboth _
  unfold Session.breakOff
  rw [hboth.current, hboth.otherCurrent, hline]
  cases place.line with
  | none => exact hboth.halt h hE .stopped .none
  | some line => exact ((htold line).withRestart (htold line).cursor).halt h hE .stopped .none

end Session

namespace SessionAct

open Act Session

variable {p q : Program} {place place' : Cursor} {C : Option Cursor → Option Cursor → Prop}
  {E : List Event → List Event → Prop}

section Jumps

theorem agrees_goOnAt {cursor cursor' : Option Cursor} (hcursor : C cursor cursor') :
    Agrees (Parallel p q place place' C E) Eq (goOnAt cursor) (goOnAt cursor') :=
  fun _ _ hboth => .ok rfl (hboth.goOn hcursor)

theorem agrees_setStack_parallel {stack stack' : Stack Frame} (hstack : Stack.Rel (Frame.Placed p q) stack stack') :
    Agrees (Parallel p q place place' C E) Eq (setStack stack) (setStack stack') :=
  fun _ _ hboth => .ok rfl (hboth.withStack hstack)

theorem agrees_pushFrame_parallel {frame frame' : Frame} (hframe : Frame.Placed p q frame frame') :
    Agrees (Parallel p q place place' C E) Eq (pushFrame frame) (pushFrame frame') :=
  agrees_get fun _ _ hboth => (agrees_lift (hboth.stack.push hframe)).bind fun _ _ => agrees_setStack_parallel

theorem agrees_popFrame_parallel :
    Agrees (Parallel p q place place' C E) (Frame.Placed p q) popFrame popFrame := by
  refine agrees_get fun session other hboth => ?_
  refine (agrees_lift (R := fun popped found => Frame.Placed p q popped.1 found.1 ∧
    Stack.Rel (Frame.Placed p q) popped.2 found.2) hboth.stack.pop).bind ?_
  rintro ⟨frame, stack⟩ ⟨found, stack'⟩ ⟨hframe, hrest⟩
  refine (agrees_setStack_parallel hrest).bind ?_
  rintro _ _ rfl
  exact agrees_pure hframe

variable (h : p.WrittenOut q)
include h

theorem agrees_lineStart (number : Nat) :
    Agrees (Parallel p q place place' C E) (fun cursor found => found = cursor ∧ p.Corresponds q cursor cursor)
      (lineStart number) (lineStart number) := by
  refine agrees_get fun session other hboth => agrees_lift ?_
  rw [hboth.program, hboth.otherProgram, h.start]
  cases hstart : p.start number with
  | error fault => exact .inl ⟨fault, rfl, rfl⟩
  | ok cursor => exact .inr ⟨cursor, cursor, rfl, rfl, rfl, h.corresponds_start hstart⟩

theorem same_goto_parallel (number : Nat) : Same (Parallel p q place place' (p.Corresponds? q) E) (goto number) := by
  refine (agrees_lineStart h number).bind ?_
  rintro cursor _ ⟨rfl, hcursor⟩
  exact agrees_goOnAt (.some hcursor)

theorem same_gosub_parallel (number : Nat) : Same (Parallel p q place place' (p.Corresponds? q) E) (gosub number) := by
  refine (agrees_lineStart h number).bind ?_
  rintro cursor _ ⟨rfl, hcursor⟩
  refine agrees_get fun session other hboth => ?_
  exact (agrees_goOnAt .none).bind fun _ _ _ =>
    (agrees_pushFrame_parallel (.gosub hboth.cursor)).bind fun _ _ _ => agrees_goOnAt (.some hcursor)

theorem same_returnTo_parallel (line : Option Nat) :
    Same (Parallel p q place place' (p.Corresponds? q) E) (returnTo line) := by
  refine agrees_get fun session other hboth => ?_
  dsimp only
  rw [hboth.stack.lastIndex? Frame.placed_isGosub]
  split
  · exact agrees_throw _
  · refine (agrees_setStack_parallel (hboth.stack.truncate _)).bind fun _ _ _ => agrees_popFrame_parallel.bind ?_
    rintro _ _ (hback | _ | _)
    · cases line with
      | none => exact agrees_goOnAt hback
      | some number => exact same_goto_parallel h number
    · exact agrees_throw _
    · exact agrees_throw _

end Jumps

section Loops

theorem same_wend_parallel : Same (Parallel p q place place' (p.Corresponds? q) E) wend := by
  refine agrees_get fun session other hboth => ?_
  obtain ⟨hnone, hother⟩ | ⟨frame, found, hframe, hfound, hplaced⟩ := hboth.stack.top?
  · rw [hnone, hother]
    exact agrees_throw _
  · rw [hframe, hfound]
    cases hplaced with
    | gosub | forLoop => exact agrees_throw _
    | whileLoop hstart => exact agrees_popFrame_parallel.bind fun _ _ _ => agrees_goOnAt (.some hstart)

variable (h : p.WrittenOut q) (hE : Echoes E)
include h hE

/-- WHILE begins a pass at the same statement again, or goes on behind the same WEND. -/
theorem follows_whileLoop (hplace : p.Corresponds q place place') (condition : Expr) :
    Follows (Parallel p q place place' (p.Corresponds? q) E)
      (fun _ _ => Parallel p q place place' (p.Corresponds? q) E) (whileLoop condition) (whileLoop condition) := by
  have hlockstep := lockstep_parallel h hE place place' (p.Corresponds? q)
  refine (hlockstep.same_eval condition).bindFollows fun value => (same_lift _).bindFollows fun holds => ?_
  split
  · refine follows_get fun session other hboth => ?_
    rw [hboth.current, hboth.otherCurrent]
    exact (agrees_pushFrame_parallel (.whileLoop hplace)).follows
  · refine follows_get fun session other hboth => ?_
    rw [hboth.program, hboth.otherProgram]
    cases hclose : p.closingWend? p.span 0 session.cursor with
    | none => exact follows_throw _ _
    | some close =>
        obtain ⟨hhere, hthere⟩ := Program.isSome_of_rel hboth.cursor
        obtain ⟨left, hfinds⟩ := (Program.closingWend?_eq_some_iff h.filled hhere).mp hclose
        obtain ⟨left', close', hfinds', hbehind⟩ := hfinds.wend h.filled h.toUnrolls hboth.cursor
        rw [(Program.closingWend?_eq_some_iff h.otherFilled hthere).mpr ⟨left', hfinds'⟩]
        exact (agrees_goOnAt hbehind).follows

/-- NEXT with one counter steps the same loop. Where that loop goes on, both sessions do, wherever else they were. -/
theorem follows_nextOne (sought : Option Name) :
    Follows (Parallel p q place place' C E)
      (fun goesOn found session other =>
        found = goesOn ∧ Parallel p q place place' (bif goesOn then p.Corresponds? q else C) E session other)
      (nextOne sought) (nextOne sought) := by
  have hlockstep := lockstep_parallel h hE place place' C
  rw [nextOne_eq]
  refine follows_get fun session other hboth => ?_
  have htrimmed := hboth.stack.popWhile (Frame.placed_isInside sought)
  refine (agrees_setStack_parallel htrimmed).bindFollows fun _ _ _ => ?_
  obtain ⟨hnone, hother⟩ | ⟨frame, found, hframe, hfound, hplaced⟩ := htrimmed.top?
  · rw [hnone]
    exact follows_throw _ _
  · rw [hframe, hfound]
    cases hplaced with
    | gosub | whileLoop => exact follows_throw _ _
    | forLoop name limit step hbody =>
        refine follows_get fun session other hboth => ?_
        rw [hlockstep.work hboth]
        refine (same_lift _).bindFollows fun sum => (hlockstep.changeMemory _).bindFollows fun _ => ?_
        refine (hlockstep.isOver name limit step).bindFollows fun finished => ?_
        cases finished with
        | true => exact agrees_popFrame_parallel.bindFollows fun _ _ _ => follows_pure fun _ _ hboth => ⟨rfl, hboth⟩
        | false =>
            rintro session other hboth value after ⟨⟩
            exact ⟨true, _, rfl, rfl, hboth.goOn hbody⟩

theorem follows_nextEach (counters : List Name) :
    Follows (Parallel p q place place' (p.Corresponds? q) E)
      (fun _ _ => Parallel p q place place' (p.Corresponds? q) E) (nextEach counters) (nextEach counters) := by
  induction counters with
  | nil => exact follows_pure fun _ _ hboth => hboth
  | cons counter rest ih =>
      refine (follows_nextOne h hE (some counter)).bind fun goesOn found => ?_
      rintro session other ⟨rfl, hboth⟩
      cases found with
      | true => exact follows_pure (fun _ _ hboth => hboth) hboth
      | false => exact ih hboth

theorem follows_next (counters : List Name) :
    Follows (Parallel p q place place' (p.Corresponds? q) E)
      (fun _ _ => Parallel p q place place' (p.Corresponds? q) E) (next counters) (next counters) := by
  unfold next
  split
  · refine (follows_nextOne h hE none).bind fun goesOn found => ?_
    rintro session other ⟨-, hboth⟩
    cases goesOn with
    | true => exact follows_pure (fun _ _ hboth => hboth) hboth
    | false => exact follows_pure (fun _ _ hboth => hboth) hboth
  · exact follows_nextEach h hE counters

omit h hE in
/-- An open loop over the counter is closed in both sessions. -/
theorem rel_closeSameLoop {stack stack' : Stack Frame} (hstack : Stack.Rel (Frame.Placed p q) stack stack')
    (counter : Name) : Stack.Rel (Frame.Placed p q) (closeSameLoop stack counter) (closeSameLoop stack' counter) := by
  have hclose : ∀ floor index : Nat, Stack.Rel (Frame.Placed p q)
      (if floor ≤ index then stack.truncate index else stack)
      (if floor ≤ index then stack'.truncate index else stack') := by
    intro floor index
    split
    · exact hstack.truncate index
    · exact hstack
  unfold closeSameLoop
  rw [hstack.lastIndex? Frame.placed_isGosub, hstack.lastIndex? (Frame.placed_countsOver counter)]
  cases stack.lastIndex? (Frame.countsOver counter) with
  | none => exact hstack
  | some index => exact hclose _ index

omit hE in
/-- A loop is skipped to the same NEXT, if that does not go on with counters of further loops. -/
theorem exists_skipLoop {start start' : Option Cursor} (hstart : p.Corresponds? q start start')
    {session other after : Session}
    (hboth : Parallel p q place place' (fun cursor cursor' => cursor = start ∧ cursor' = start') E session other)
    (hok : skipLoop.outcome session = (.ok ⟨⟩, after))
    (hwhole : after.cursor ≠ start → ∀ left close counters, p.Finds Statement.weighLoops 0 start left close →
      p.statement? close = some (.command (.next counters)) → counters.length ≤ left + 1) :
    ∃ behind, skipLoop.outcome other = (.ok ⟨⟩, behind) ∧
      Parallel p q place place' (p.Corresponds? q) E after behind := by
  obtain ⟨hcursor, hcursor'⟩ := hboth.cursor
  rw [outcome_skipLoop, hboth.program, hcursor] at hok
  rw [outcome_skipLoop, hboth.otherProgram, hcursor']
  cases hclose : p.closingNext? p.span 0 start with
  | none =>
      rw [hclose] at hok
      cases hok
  | some close =>
      rw [hclose] at hok
      cases hok
      obtain ⟨hhere, hthere⟩ := Program.isSome_of_rel hstart
      obtain ⟨left, hfinds⟩ := (Program.closingNext?_eq_some_iff h.filled hhere).mp hclose
      have hfew : ∀ counters, p.statement? close = some (.command (.next counters)) →
          counters.length ≤ left + 1 := fun counters =>
        hwhole (hfinds.advance?_ne h.filled) left close counters hfinds
      obtain ⟨left', close', hfinds', hbehind⟩ := hfinds.closes h.filled h.toUnrolls hstart hfew
      rw [(Program.closingNext?_eq_some_iff h.otherFilled hthere).mpr ⟨left', hfinds'⟩]
      have hafter := hboth.goOn (D := p.Corresponds? q) hbehind
      rw [← hboth.program, ← hboth.otherProgram] at hafter ⊢
      exact ⟨_, rfl, hafter⟩

/-- A loop is opened in both sessions or skipped in both, if it is not skipped to a NEXT that goes on with counters
of further loops. -/
theorem exists_openLoop {start start' : Option Cursor} (hstart : p.Corresponds? q start start') {counter : Name}
    {last change : Value} {session other after : Session}
    (hboth : Parallel p q place place' (fun cursor cursor' => cursor = start ∧ cursor' = start') E session other)
    (hok : (openLoop counter last change).outcome session = (.ok ⟨⟩, after))
    (hwhole : after.cursor ≠ start → ∀ left close counters, p.Finds Statement.weighLoops 0 start left close →
      p.statement? close = some (.command (.next counters)) → counters.length ≤ left + 1) :
    ∃ behind, (openLoop counter last change).outcome other = (.ok ⟨⟩, behind) ∧
      Parallel p q place place' (p.Corresponds? q) E after behind := by
  have hlockstep := lockstep_parallel h hE place place' fun cursor cursor' => cursor = start ∧ cursor' = start'
  have hfetch : other.work.memory.fetch counter = session.work.memory.fetch counter := by rw [hlockstep.work hboth]
  have hclosed := hboth.withStack (rel_closeSameLoop hboth.stack counter)
  rw [outcome_openLoop] at hok ⊢
  rw [hfetch]
  split at hok
  · cases hok
  · rw [if_neg ‹_›]
    dsimp only at hok ⊢
    split at hok
    · cases hok
    · exact exists_skipLoop h hstart hclosed hok hwhole
    · obtain ⟨hcursor, hcursor'⟩ := hboth.cursor
      have hframe : Frame.Placed p q (.forLoop counter last change session.cursor)
          (.forLoop counter last change other.cursor) := by
        rw [hcursor, hcursor']
        exact .forLoop counter last change hstart
      obtain ⟨_, behind, hpush, -, hbehind⟩ := (agrees_pushFrame_parallel hframe).run hclosed hok
      refine ⟨behind, hpush, ?_⟩
      obtain ⟨hsame, hsame'⟩ := hbehind.cursor
      have hafter := hbehind.goOn (D := p.Corresponds? q) hstart
      rw [← hsame, ← hsame'] at hafter
      exact hafter

/-- **FOR opens its loop in both sessions or skips it in both**, if it does not skip to a NEXT that goes on with
counters of further loops. -/
theorem exists_forLoop {start start' : Option Cursor} (hstart : p.Corresponds? q start start') {counter : Name}
    {first limit : Expr} {step : Option Expr} {session other after : Session}
    (hboth : Parallel p q place place' (fun cursor cursor' => cursor = start ∧ cursor' = start') E session other)
    (hok : (forLoop counter first limit step).outcome session = (.ok ⟨⟩, after))
    (hwhole : after.cursor ≠ start → ∀ left close counters, p.Finds Statement.weighLoops 0 start left close →
      p.statement? close = some (.command (.next counters)) → counters.length ≤ left + 1) :
    ∃ behind, (forLoop counter first limit step).outcome other = (.ok ⟨⟩, behind) ∧
      Parallel p q place place' (p.Corresponds? q) E after behind := by
  have hlockstep := lockstep_parallel h hE place place' fun cursor cursor' => cursor = start ∧ cursor' = start'
  by_cases htype : counter.type = .text
  · rw [forLoop_of_text htype] at hok
    cases hok
  · -- FOR reads its values in both sessions alike.
    have hvalues : Same (Parallel p q place place' (fun cursor cursor' => cursor = start ∧ cursor' = start') E) (do
        let value ← eval first
        storeScalar counter value
        bounds limit step) := by
      refine (hlockstep.same_eval first).bind fun value => (hlockstep.changeMemory _).bind fun _ => ?_
      refine (hlockstep.same_eval limit).bind fun last => ?_
      cases step with
      | none => exact agrees_pure rfl
      | some expr => exact (hlockstep.same_eval expr).bind fun change => agrees_pure rfl
    have hsplit : forLoop counter first limit step = (do
        let value ← eval first
        storeScalar counter value
        bounds limit step) >>= fun values => openLoop counter values.1 values.2 := by
      rw [forLoop_eq htype]
      simp only [bind_assoc]
    rw [hsplit] at hok ⊢
    obtain ⟨⟨last, change⟩, middle, hread, -⟩ := Act.exists_of_bind_ok (congrArg Prod.fst hok)
    obtain ⟨_, middle', hread', rfl, hmiddle⟩ := hvalues.run hboth hread
    rw [outcome_bind, hread] at hok
    rw [outcome_bind, hread']
    exact exists_openLoop h hE hstart hmiddle hok hwhole

end Loops

section Commands

theorem same_cont_parallel (h : p.WrittenOut q) (hE : Echoes E) :
    Same (Parallel p q place place' (p.Corresponds? q) E) cont := by
  refine agrees_get fun session other hboth => ?_
  have hrestart := hboth.restart
  generalize session.settings.restart = restart at hrestart ⊢
  generalize other.settings.restart = restart' at hrestart ⊢
  cases hrestart with
  | none => exact agrees_throw _
  | some hcursor =>
      refine agrees_set ?_
      have hrunning := (lockstep_parallel h hE place place' (p.Corresponds? q)).change hboth
        (fun session => { session with state := .running }) fun _ _ => rfl
      exact (hrunning.withRestart .none).goOn (.some hcursor)

theorem same_finish_parallel (h : p.WrittenOut q) (hE : Echoes E) (hline : place'.line = place.line) :
    Same (Parallel p q place place' (p.Corresponds? q) E) finish := by
  refine agrees_get fun session other hboth => ?_
  have hsome : other.current.line.isSome = session.current.line.isSome := by
    rw [hboth.current, hboth.otherCurrent, hline]
  rw [(lockstep_parallel h hE place place' (p.Corresponds? q)).reads hboth state fun _ _ => rfl, hsome]
  split
  · exact agrees_throw _
  · refine agrees_set ?_
    refine (hboth.withRestart ?_).halt h hE .stopped .none
    split
    · exact hboth.cursor
    · exact hboth.restart

theorem same_run_parallel (h : p.WrittenOut q) (hE : Echoes E) (line : Option Nat) :
    Same (Parallel p q place place' (p.Corresponds? q) E) (run line) := by
  have hrun : ∀ start start' : Option Cursor, p.Corresponds? q start start' →
      Agrees (Parallel p q place place' (p.Corresponds? q) E) Eq
        (modifyThe Session fun session => { session.clear with cursor := start, state := .running } : SessionAct PUnit)
        (modifyThe Session fun session => { session.clear with cursor := start', state := .running }) := by
    intro start start' hstart session other hboth
    have hrunning := (lockstep_parallel h hE place place' (p.Corresponds? q)).change (hboth.clear h hE)
      (fun session => { session with state := .running }) fun _ _ => rfl
    exact .ok rfl (hrunning.goOn hstart)
  cases line with
  | none =>
      refine Agrees.bind (R := p.Corresponds? q) ?_ hrun
      intro session other hboth
      change Paired _ _ (.ok session.program.firstCursor?, session) (.ok other.program.firstCursor?, other)
      have hfirst := h.firstCursor?
      rw [← hboth.program, ← hboth.otherProgram] at hfirst
      exact .ok (hboth.program ▸ hboth.otherProgram ▸ hfirst) hboth
  | some number =>
      refine Agrees.bind (R := p.Corresponds? q) ?_ hrun
      refine (agrees_lineStart h number).bind ?_
      rintro cursor _ ⟨rfl, hcursor⟩
      exact agrees_pure (.some hcursor)

/-- LIST shows each program. -/
theorem same_list_parallel (h : p.WrittenOut q) (hE : Echoes E) {first last : Option Nat}
    (hlist : ∀ text other, p.list first last = .ok text → q.list first last = .ok other →
      ∀ told heard, E told heard → E (appendPrint text told) (appendPrint other heard)) :
    Same (Parallel p q place place' C E) (command (.list first last)) := by
  refine agrees_get fun session other hboth => ?_
  rw [hboth.program, hboth.otherProgram]
  have hnumbers : List.Forall₂ (fun entry other => entry.1 = other.1) p.lines.entries q.lines.entries :=
    h.lines.imp fun _ _ hentry => hentry.1
  obtain ⟨fault, hleft, hright⟩ | ⟨text, otherText, hleft, hright, hcolumn⟩ :=
    Program.list_of_numbers h.guarded.symm hnumbers first last
  · rw [hleft, hright]
    exact agrees_throw fault
  · rw [hleft, hright]
    refine agrees_set ?_
    have hlockstep := lockstep_parallel h hE place place' C
    have hcolumned := hlockstep.change hboth (fun base => { base with column := columnAfter session.column text })
      fun _ _ => rfl
    unfold Session.print
    rw [hcolumn, hlockstep.reads hboth column fun _ _ => rfl]
    exact hcolumned.withEvents (hlist text otherText hleft hright _ _ hboth.events)

/-- **A statement that both programs have keeps the sessions abreast**, where it does not fail. -/
theorem follows_command_parallel (h : p.WrittenOut q) (hE : Echoes E) (hplace : p.Corresponds q place place')
    {c : Command}
    (hlist : ∀ first last, c = .list first last → ∀ text other, p.list first last = .ok text →
      q.list first last = .ok other → ∀ told heard, E told heard → E (appendPrint text told) (appendPrint other heard))
    (hfor : ∀ counter first limit step, c ≠ .forLoop counter first limit step) (hresume : ∀ target, c ≠ .resume target)
    (hnew : c ≠ .new) :
    Follows (Parallel p q place place' (p.Corresponds? q) E)
      (fun _ _ => Parallel p q place place' (p.Corresponds? q) E) (command c) (command c) := by
  have hlockstep := lockstep_parallel h hE place place' (p.Corresponds? q)
  cases hunplaced : c.isUnplaced with
  | true => exact (hlockstep.command hunplaced).follows
  | false =>
      cases c with
      | forLoop counter first limit step => exact absurd rfl (hfor counter first limit step)
      | resume target => exact absurd rfl (hresume target)
      | new => exact absurd rfl hnew
      | auto start step =>
          refine Agrees.follows (same_modify fun session other hboth => ?_)
          have hnumbered := hlockstep.change hboth (fun session =>
            { session with settings := { session.settings with auto := some ⟨start.getD 10, step.getD 10⟩ } })
            fun _ _ => rfl
          exact hnumbered.halt h hE .idle .none
      | clear arguments =>
          exact Agrees.follows ((hlockstep.evalInts arguments).bind fun _ =>
            same_modify fun _ _ hboth => hboth.clear h hE)
      | cont => exact (same_cont_parallel h hE).follows
      | define name parameters body =>
          refine Agrees.follows (same_modify fun session other hboth => ?_)
          have hfunctions : other.functions.insert name.spelling ⟨parameters, body⟩ =
              session.functions.insert name.spelling ⟨parameters, body⟩ :=
            congrArg (·.insert name.spelling ⟨parameters, body⟩) hboth.situation.functions
          exact hboth.move
            (a := { session.situation with functions := session.functions.insert name.spelling ⟨parameters, body⟩ })
            (b := { other.situation with functions := other.functions.insert name.spelling ⟨parameters, body⟩ })
            { hboth.situation with functions := hfunctions }
      | finish => exact (same_finish_parallel h hE hplace.line).follows
      | gosub line => exact (same_gosub_parallel h line).follows
      | goto line => exact (same_goto_parallel h line).follows
      | list first last => exact (same_list_parallel h hE (hlist first last rfl)).follows
      | next counters => exact follows_next h hE counters
      | onGosub selector lines =>
          refine (hlockstep.selected selector lines).bindFollows fun target => ?_
          cases target with
          | none => exact follows_pure fun _ _ hboth => hboth
          | some line => exact (same_gosub_parallel h line).follows
      | onGoto selector lines =>
          refine (hlockstep.selected selector lines).bindFollows fun target => ?_
          cases target with
          | none => exact follows_pure fun _ _ hboth => hboth
          | some line => exact (same_goto_parallel h line).follows
      | returnTo line => exact (same_returnTo_parallel h line).follows
      | run line => exact (same_run_parallel h hE line).follows
      | stop => exact Agrees.follows (same_modify fun _ _ hboth => hboth.breakOff h hE hplace.line)
      | wend => exact same_wend_parallel.follows
      | whileLoop condition => exact follows_whileLoop h hE hplace condition
      | _ => cases hunplaced

/-- IF goes on in the branch of the same condition. -/
theorem same_choose_parallel (h : p.WrittenOut q) (hE : Echoes E) (hplace : p.Corresponds q place place')
    {condition : Expr} {thenList elseList : List Statement}
    (hs : p.statement? place = some (.choice condition thenList elseList)) :
    Same (Parallel p q place place' (p.Corresponds? q) E) (choose condition) := by
  have hlockstep := lockstep_parallel h hE place place' (p.Corresponds? q)
  refine (hlockstep.same_eval condition).bind fun value => (same_lift _).bind fun holds => ?_
  refine agrees_get fun session other hboth => ?_
  rw [hboth.program, hboth.otherProgram, hboth.current, hboth.otherCurrent]
  have hentered := hplace.enterBranch? (if holds then 0 else 1) hs
  generalize p.enterBranch? place (if holds then 0 else 1) = cursor at hentered ⊢
  generalize q.enterBranch? place' (if holds then 0 else 1) = cursor' at hentered ⊢
  cases hentered with
  | none => exact agrees_pure rfl
  | some hcursor => exact agrees_goOnAt (.some hcursor)

end Commands

end SessionAct

end LineBasic
