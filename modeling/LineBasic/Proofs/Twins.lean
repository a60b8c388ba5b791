import Mathlib.Data.List.Forall2
import LineBasic.Proofs.Lockstep
import LineBasic.Proofs.Sigils

/-! Sessions that carry out two spellings of one program. The programs differ in sigils of singles only, and
where a FOR or NEXT looks for an open loop, its counter and that of the loop are spelled alike in both programs
or in none. Then every statement does the same in both sessions: only the functions, the counters of open
loops and the texts that LIST prints may differ, and these in their spelling. -/

namespace LineBasic

section Texts

variable (listed : String → String → Prop)

/-- Texts that are the same, or listings of which one may stand for the other. -/
def TextAgree (text other : String) : Prop := text = other ∨ listed text other

/-- Events that are the same, or printed texts that are put together from pieces that agree. -/
inductive Event.Agree : Event → Event → Prop
  | same (event : Event) : Agree event event
  | print {text other : String} (pieces : List (String × String)) (htext : text = String.join (pieces.map Prod.fst))
      (hother : other = String.join (pieces.map Prod.snd))
      (h : ∀ piece ∈ pieces, TextAgree listed piece.1 piece.2) : Agree (.print text) (.print other)

variable {listed} {text other more others : String}

theorem join_concat (texts : List String) (text : String) :
    String.join (texts ++ [text]) = String.join texts ++ text := by
  unfold String.join
  rw [List.foldl_append]
  rfl

theorem Event.Agree.of_piece (h : TextAgree listed text other) : Event.Agree listed (.print text) (.print other) := by
  refine .print [(text, other)] ?_ ?_ (by simpa using h)
  · rw [List.map_singleton, ← List.nil_append [_], join_concat, String.join_nil, String.empty_append]
  · rw [List.map_singleton, ← List.nil_append [_], join_concat, String.join_nil, String.empty_append]

theorem Event.Agree.append (h : Event.Agree listed (.print text) (.print other))
    (hmore : TextAgree listed more others) :
    Event.Agree listed (.print (text ++ more)) (.print (other ++ others)) := by
  have hpieces : ∃ pieces : List (String × String), text = String.join (pieces.map Prod.fst) ∧
      other = String.join (pieces.map Prod.snd) ∧ ∀ piece ∈ pieces, TextAgree listed piece.1 piece.2 := by
    cases h with
    | same => exact ⟨[(text, text)], by simp [String.join], by simp [String.join], by simp [TextAgree]⟩
    | print pieces htext hother h => exact ⟨pieces, htext, hother, h⟩
  obtain ⟨pieces, htext, hother, h⟩ := hpieces
  refine .print (pieces ++ [(more, others)]) ?_ ?_ ?_
  · rw [List.map_append, List.map_singleton, join_concat, htext]
  · rw [List.map_append, List.map_singleton, join_concat, hother]
  · intro piece hpiece
    rcases List.mem_append.mp hpiece with hpiece | hpiece
    · exact h piece hpiece
    · rw [List.mem_singleton.mp hpiece]
      exact hmore

theorem Event.Agree.isPrint {event found : Event} (h : Event.Agree listed event found) :
    event = found ∨ ∃ text other, event = .print text ∧ found = .print other := by
  cases h with
  | same => exact .inl rfl
  | print _ _ _ _ => exact .inr ⟨_, _, rfl, rfl⟩

/-- Events that agree are the same where there are no listings. -/
theorem Event.Agree.eq_of_unlisted {event found : Event} (h : Event.Agree listed event found)
    (hnone : ∀ text other, ¬listed text other) : event = found := by
  cases h with
  | same => rfl
  | print pieces htext hother h =>
      have hsame : pieces.map Prod.fst = pieces.map Prod.snd :=
        List.map_congr_left fun piece hpiece => (h piece hpiece).resolve_right (hnone _ _)
      rw [htext, hother, hsame]

/-- Texts that agree may be printed to events that agree. -/
theorem agree_appendPrint {events reported : List Event} (h : List.Forall₂ (Event.Agree listed) events reported)
    (htext : TextAgree listed text other) :
    List.Forall₂ (Event.Agree listed) (appendPrint text events) (appendPrint other reported) := by
  induction h with
  | nil => exact .cons (.of_piece htext) .nil
  | @cons event found rest others hfirst hrest ih =>
      have hfound : ∀ first : Event, List.Forall₂ (Event.Agree listed) (first :: appendPrint text rest)
          (first :: appendPrint other others) := fun first => .cons (.same first) ih
      cases hrest with
      | cons hsecond hmore =>
          obtain rfl | ⟨before, after, rfl, rfl⟩ := hfirst.isPrint
          · cases event <;> exact .cons hfirst ih
          · exact .cons hfirst ih
      | nil =>
          obtain rfl | ⟨before, after, rfl, rfl⟩ := hfirst.isPrint
          · cases event with
            | print before => exact .cons (hfirst.append htext) .nil
            | _ => exact hfound _
          · exact .cons (hfirst.append htext) .nil

end Texts

namespace Program

/-- The counter of the FOR under a cursor. -/
def opened? (program : Program) (cursor : Cursor) : Option Name :=
  match program.statement? cursor with
  | some (.command (.forLoop counter _ _ _)) => some counter
  | _ => none

/-- The counters that the FOR or NEXT under a cursor names. -/
def named (program : Program) (cursor : Cursor) : List Name :=
  match program.statement? cursor with
  | some (.command (.forLoop counter _ _ _)) => [counter]
  | some (.command (.next counters)) => counters
  | _ => []

/-- Two programs have these counters at one FOR. -/
def Opened (p q : Program) (counter other : Name) : Prop :=
  ∃ cursor, p.opened? cursor = some counter ∧ q.opened? cursor = some other

/-- Two programs name these counters at one place of a FOR or NEXT. -/
def Named (p q : Program) (counter other : Name) : Prop :=
  ∃ cursor, (counter, other) ∈ (p.named cursor).zip (q.named cursor)

/-- Wherever a FOR has a counter and a FOR or NEXT names one, the two are spelled alike in one program
exactly if they are in the other. -/
def LoopsAlike (p q : Program) : Prop :=
  ∀ counter other sought otherSought, Opened p q counter other → Named p q sought otherSought →
    (counter = sought ↔ other = otherSought)

/-- Programs that differ in sigils of singles only, and not in which counters of loops are spelled alike. What
a LIST of the first one shows may be shown in place of what it shows in the second one. -/
structure Twins (listed : String → String → Prop) (p q : Program) : Prop where
  bare : p.bare = q.bare
  loops : LoopsAlike p q
  lists : ∀ cursor first last text other, p.statement? cursor = some (.command (.list first last)) →
    p.list first last = .ok text → q.list first last = .ok other → TextAgree listed text other

variable {listed : String → String → Prop} {p q : Program}

theorem twins_self (listed : String → String → Prop) (program : Program) : Twins listed program program where
  bare := rfl
  loops counter other sought otherSought := by
    rintro ⟨cursor, hcounter, hother⟩ ⟨place, hmem⟩
    have hsame : ∀ {names : List Name} {a b : Name}, (a, b) ∈ names.zip names → a = b := by
      intro names a b h
      exact List.forall₂_zip (List.forall₂_refl names) h
    rw [hsame hmem, Option.some.inj (hcounter.symm.trans hother)]
  lists _ _ _ _ _ _ htext hother := .inl (Except.ok.inj (htext.symm.trans hother))

/-- In the same place stands the same statement but for sigils. -/
theorem statement?_of_bare (h : p.bare = q.bare) (cursor : Cursor) :
    (p.statement? cursor).map Statement.bare = (q.statement? cursor).map Statement.bare := by
  rw [← statement?_bare, h, statement?_bare]

theorem opened?_bare (program : Program) (cursor : Cursor) :
    program.bare.opened? cursor = (program.opened? cursor).map Name.bare := by
  unfold opened?
  rw [statement?_bare]
  cases program.statement? cursor with
  | none => rfl
  | some s =>
      cases s with
      | choice condition thenList elseList => rw [Option.map_some, Statement.bare, Option.map_none]
      | command c =>
          rw [Option.map_some, Statement.bare]
          cases c <;> rfl

theorem named_bare (program : Program) (cursor : Cursor) :
    program.bare.named cursor = (program.named cursor).map Name.bare := by
  unfold named
  rw [statement?_bare]
  cases program.statement? cursor with
  | none => rfl
  | some s =>
      cases s with
      | choice condition thenList elseList => rw [Option.map_some, Statement.bare, List.map_nil]
      | command c =>
          rw [Option.map_some, Statement.bare]
          cases c <;> rfl

theorem bare_of_opened (h : p.bare = q.bare) {counter other : Name} (hopened : Opened p q counter other) :
    counter.bare = other.bare := by
  obtain ⟨cursor, hcounter, hother⟩ := hopened
  have hboth : (p.opened? cursor).map Name.bare = (q.opened? cursor).map Name.bare := by
    rw [← opened?_bare, h, opened?_bare]
  rw [hcounter, hother] at hboth
  exact Option.some.inj hboth

theorem bare_of_named (h : p.bare = q.bare) {counter other : Name} (hnamed : Named p q counter other) :
    counter.bare = other.bare := by
  obtain ⟨cursor, hmem⟩ := hnamed
  have hboth : (p.named cursor).map Name.bare = (q.named cursor).map Name.bare := by
    rw [← named_bare, h, named_bare]
  rw [← List.forall₂_eq_eq_eq, List.forall₂_map_left_iff, List.forall₂_map_right_iff] at hboth
  exact List.forall₂_zip hboth hmem

section Equations

variable (h : p.bare = q.bare)
include h

theorem advance?_of_bare (cursor : Cursor) : q.advance? cursor = p.advance? cursor := by
  rw [← advance?_bare, ← h, advance?_bare]

theorem start_of_bare (number : Nat) : q.start number = p.start number := by
  rw [← start_bare, ← h, start_bare]

theorem firstCursor?_of_bare : q.firstCursor? = p.firstCursor? := by
  rw [← firstCursor?_bare, ← h, firstCursor?_bare]

theorem enterBranch?_of_bare (cursor : Cursor) (branch : Nat) :
    q.enterBranch? cursor branch = p.enterBranch? cursor branch := by
  rw [← enterBranch?_bare, ← h, enterBranch?_bare]

theorem closingNext?_of_bare (cursor : Option Cursor) :
    q.closingNext? q.span 0 cursor = p.closingNext? p.span 0 cursor := by
  rw [← closingNext?_bare, ← span_bare, ← h, closingNext?_bare, span_bare]

theorem closingWend?_of_bare (cursor : Option Cursor) :
    q.closingWend? q.span 0 cursor = p.closingWend? p.span 0 cursor := by
  rw [← closingWend?_bare, ← span_bare, ← h, closingWend?_bare, span_bare]

theorem data_of_bare : q.data = p.data := by
  rw [← data_bare, ← h, data_bare]

theorem retain_of_bare (memory : Memory) : memory.retain q.common = memory.retain p.common := by
  rw [← memory.retain_map_bare, ← common_bare, ← h, common_bare, memory.retain_map_bare]

end Equations

end Program

/-- The column after a text that ends a line. -/
theorem columnAfter_of_endsLine {text : String} (h : text.toList.getLast? = some '\n') (column : Nat) :
    columnAfter column text = 0 := by
  obtain ⟨front, hfront⟩ := List.getLast?_eq_some_iff.mp h
  unfold columnAfter
  rw [hfront]
  simp

/-- The listings of two programs with lines of the same numbers fail alike, or end lines alike. -/
theorem Program.list_of_numbers {p q : Program} (hguarded : p.guarded = q.guarded)
    (hentries : List.Forall₂ (fun entry other => entry.1 = other.1) p.lines.entries q.lines.entries)
    (first last : Option Nat) :
    (∃ fault, p.list first last = .error fault ∧ q.list first last = .error fault) ∨
      ∃ text other, p.list first last = .ok text ∧ q.list first last = .ok other ∧
        ∀ column, columnAfter column other = columnAfter column text := by
  have hends : ∀ (entry : Nat × List Statement) (rest : List (Nat × List Statement)),
      ((entry :: rest).foldr (fun entry text => (Line.listing ⟨some entry.1, entry.2⟩) ++ "\n" ++ text)
        "").toList.getLast? = some '\n' := by
    intro entry rest
    induction rest generalizing entry with
    | nil => simp
    | cons next rest ih =>
        rw [List.foldr_cons, String.toList_append, List.getLast?_append, ih next]
        rfl
  unfold list
  rw [← hguarded]
  split
  · exact .inl ⟨_, rfl, rfl⟩
  · refine .inr ⟨_, _, rfl, rfl, fun column => ?_⟩
    have hshown : List.Forall₂ (fun entry other : Nat × List Statement => entry.1 = other.1)
        (p.lines.entries.filter fun entry => first.getD 0 ≤ entry.1 && entry.1 ≤ last.getD Line.maxNumber)
        (q.lines.entries.filter fun entry => first.getD 0 ≤ entry.1 && entry.1 ≤ last.getD Line.maxNumber) :=
      List.rel_filter (fun entry other heq => by dsimp only; rw [heq]) hentries
    generalize p.lines.entries.filter (fun entry => first.getD 0 ≤ entry.1 && entry.1 ≤ last.getD Line.maxNumber) =
      shown at hshown ⊢
    generalize q.lines.entries.filter (fun entry => first.getD 0 ≤ entry.1 && entry.1 ≤ last.getD Line.maxNumber) =
      otherShown at hshown ⊢
    cases hshown with
    | nil => rfl
    | cons _ _ => rw [columnAfter_of_endsLine (hends _ _), columnAfter_of_endsLine (hends _ _)]

theorem Program.list_of_bare {p q : Program} (h : p.bare = q.bare) (first last : Option Nat) :
    (∃ fault, p.list first last = .error fault ∧ q.list first last = .error fault) ∨
      ∃ text other, p.list first last = .ok text ∧ q.list first last = .ok other ∧
        ∀ column, columnAfter column other = columnAfter column text := by
  have hguarded : p.bare.guarded = q.bare.guarded := by rw [h]
  have hentries : List.Forall₂ (fun entry other => entry.1 = other.1) p.lines.entries q.lines.entries := by
    have hboth : p.bare.lines.entries = q.bare.lines.entries := congrArg (fun program => program.lines.entries) h
    unfold bare at hboth
    dsimp only at hboth
    rw [← List.forall₂_eq_eq_eq, List.forall₂_map_left_iff, List.forall₂_map_right_iff] at hboth
    exact hboth.imp fun _ _ heq => (Prod.mk.inj heq).1
  exact list_of_numbers (p := p) (q := q) hguarded hentries first last

section Frames

/-- Frames that are the same but for the spelling of a counter. -/
inductive Frame.Alike (p q : Program) : Frame → Frame → Prop
  | gosub (back : Option Cursor) : Alike p q (.gosub back) (.gosub back)
  | forLoop {counter other : Name} (h : Program.Opened p q counter other) (limit step : Value)
      (body : Option Cursor) : Alike p q (.forLoop counter limit step body) (.forLoop other limit step body)
  | whileLoop (start : Cursor) : Alike p q (.whileLoop start) (.whileLoop start)

/-- Stacks of frames that are the same but for the spelling of counters. -/
structure Frame.AllAlike (p q : Program) (stack other : Stack Frame) : Prop where
  overflow : other.overflow = stack.overflow
  entries : List.Forall₂ (Frame.Alike p q) stack.entries other.entries

variable {p q : Program} {stack other : Stack Frame} {test otherTest : Frame → Bool}

theorem Frame.AllAlike.rel (h : AllAlike p q stack other) : Stack.Rel (Alike p q) stack other := ⟨h.overflow, h.entries⟩

theorem Frame.AllAlike.of_rel (h : Stack.Rel (Alike p q) stack other) : AllAlike p q stack other :=
  ⟨h.overflow, h.entries⟩

theorem Frame.AllAlike.truncate (h : AllAlike p q stack other) (count : Nat) :
    AllAlike p q (stack.truncate count) (other.truncate count) :=
  .of_rel (h.rel.truncate count)

theorem Frame.AllAlike.clear (h : AllAlike p q stack other) (p' q' : Program) :
    AllAlike p' q' stack.clear other.clear :=
  .of_rel h.rel.clear

/-- Two tests that see no difference between frames that are alike. -/
def Frame.Blind (p q : Program) (test otherTest : Frame → Bool) : Prop :=
  ∀ frame other, Alike p q frame other → otherTest other = test frame

theorem Frame.AllAlike.popWhile (h : AllAlike p q stack other) (htest : Blind p q test otherTest) :
    AllAlike p q (stack.popWhile test) (other.popWhile otherTest) :=
  .of_rel (h.rel.popWhile htest)

theorem Frame.AllAlike.lastIndex? (h : AllAlike p q stack other) (htest : Blind p q test otherTest) :
    other.lastIndex? otherTest = stack.lastIndex? test :=
  h.rel.lastIndex? htest

theorem Frame.blind_isGosub : Blind p q isGosub isGosub := by
  rintro _ _ (_ | _ | _) <;> rfl

theorem Frame.blind_isFor : Blind p q isFor isFor := by
  rintro _ _ (_ | _ | _) <;> rfl

/-- A counter is found in a frame in one session exactly if it is in the other. -/
theorem Frame.blind_countsOver (h : Program.LoopsAlike p q) {sought otherSought : Name}
    (hnamed : Program.Named p q sought otherSought) : Blind p q (countsOver sought) (countsOver otherSought) := by
  rintro _ _ (_ | ⟨hopened, _, _, _⟩ | _)
  · rfl
  · exact decide_eq_decide.mpr (h _ _ _ _ hopened hnamed).symm
  · rfl

/-- Whether NEXT passes the frame on its way to the loop that it steps. -/
def Frame.isInside (sought : Option Name) (frame : Frame) : Bool :=
  match sought with
  | some name => frame.isFor && !frame.countsOver name
  | none => false

theorem Frame.blind_isInside (h : Program.LoopsAlike p q) {sought otherSought : Option Name}
    (hnamed : Option.Rel (Program.Named p q) sought otherSought) :
    Blind p q (isInside sought) (isInside otherSought) := by
  intro frame found halike
  cases hnamed with
  | none => rfl
  | some hname =>
      rw [isInside, isInside, blind_isFor _ _ halike, blind_countsOver h hname _ _ halike]

theorem Frame.AllAlike.closeSameLoop (h : AllAlike p q stack other) (hloops : Program.LoopsAlike p q)
    {counter otherCounter : Name} (hnamed : Program.Named p q counter otherCounter) :
    AllAlike p q (SessionAct.closeSameLoop stack counter) (SessionAct.closeSameLoop other otherCounter) := by
  have hclose : ∀ floor index : Nat, AllAlike p q (if floor ≤ index then stack.truncate index else stack)
      (if floor ≤ index then other.truncate index else other) := by
    intro floor index
    split
    · exact h.truncate index
    · exact h
  unfold SessionAct.closeSameLoop
  rw [h.lastIndex? blind_isGosub, h.lastIndex? (blind_countsOver hloops hnamed)]
  cases stack.lastIndex? (countsOver counter) with
  | none => exact h
  | some index => exact hclose _ index

theorem Frame.AllAlike.push (h : AllAlike p q stack other) {frame found : Frame} (hframe : Alike p q frame found) :
    (∃ fault, stack.push frame = .error fault ∧ other.push found = .error fault) ∨
      ∃ pushed otherPushed, stack.push frame = .ok pushed ∧ other.push found = .ok otherPushed ∧
        AllAlike p q pushed otherPushed := by
  obtain hfull | ⟨pushed, otherPushed, hpushed, hother, hrel⟩ := h.rel.push hframe
  · exact .inl hfull
  · exact .inr ⟨pushed, otherPushed, hpushed, hother, .of_rel hrel⟩

theorem Frame.AllAlike.top? (h : AllAlike p q stack other) :
    (stack.top? = none ∧ other.top? = none) ∨
      ∃ frame found, stack.top? = some frame ∧ other.top? = some found ∧ Alike p q frame found :=
  h.rel.top?

theorem Frame.AllAlike.pop (h : AllAlike p q stack other) :
    (∃ fault, stack.pop = .error fault ∧ other.pop = .error fault) ∨
      ∃ popped found, stack.pop = .ok popped ∧ other.pop = .ok found ∧ Alike p q popped.1 found.1 ∧
        AllAlike p q popped.2 found.2 := by
  obtain hempty | ⟨popped, found, hpopped, hfound, halike, hrel⟩ := h.rel.pop
  · exact .inl hempty
  · exact .inr ⟨popped, found, hpopped, hfound, halike, .of_rel hrel⟩

end Frames

namespace Session

open Act SessionAct

/-- Two sessions with different programs that differ in nothing else, but for the functions, the counters of
open loops and listings in the events, and in these in the spelling of variables only. -/
inductive Twin (listed : String → String → Prop) (p q : Program) : Session → Session → Prop
  | intro (base : Session) {functions others : Std.TreeMap String UserFunction} {stack otherStack : Stack Frame}
      {events reported : List Event}
      (hfunctions : ∀ name : String,
        (functions[name]?).map UserFunction.bare = (others[name]?).map UserFunction.bare)
      (hstack : Frame.AllAlike p q stack otherStack)
      (hevents : List.Forall₂ (Event.Agree listed) events reported) :
      Twin listed p q { base with program := p, functions, stack, events }
        { base with program := q, functions := others, stack := otherStack, events := reported }

variable {listed : String → String → Prop} {p q : Program} {session other : Session}

theorem Twin.print (h : Twin listed p q session other) {text otherText : String}
    (htext : TextAgree listed text otherText)
    (hcolumn : ∀ column, columnAfter column otherText = columnAfter column text) :
    Twin listed p q (session.print text) (other.print otherText) := by
  obtain ⟨base, hfunctions, hstack, hevents⟩ := h
  have htwin := Twin.intro { base with column := columnAfter base.column text } hfunctions hstack
    (agree_appendPrint hevents htext)
  unfold Session.print
  dsimp only
  rw [hcolumn]
  exact htwin

/-- Twins may be changed alike in what has nothing to do with programs, functions, loops and events. -/
theorem Twin.change (h : Twin listed p q session other) (f : Session → Session)
    (hf : ∀ (base : Session) (program : Program) (functions : Std.TreeMap String UserFunction) (stack : Stack Frame)
      (events : List Event), f { base with program, functions, stack, events } =
        { f base with program, functions, stack, events }) : Twin listed p q (f session) (f other) := by
  obtain ⟨base, hfunctions, hstack, hevents⟩ := h
  rw [hf base p, hf base q]
  exact .intro (f base) hfunctions hstack hevents

theorem Twin.halt (h : Twin listed p q session other) (state : RunState) :
    Twin listed p q (session.halt state) (other.halt state) :=
  h.change (·.halt state) fun _ _ _ _ _ => rfl

/-- What has nothing to do with programs, functions, loops and events is the same in twins. -/
theorem Twin.reads {α : Type} (h : Twin listed p q session other) (f : Session → α)
    (hf : ∀ (base : Session) (program : Program) (functions : Std.TreeMap String UserFunction) (stack : Stack Frame)
      (events : List Event), f { base with program, functions, stack, events } = f base) : f other = f session := by
  obtain ⟨base, -, -, -⟩ := h
  exact (hf base _ _ _ _).trans (hf base _ _ _ _).symm

theorem Twin.breakOff (h : Twin listed p q session other) : Twin listed p q session.breakOff other.breakOff := by
  have htold : ∀ line, Twin listed p q (session.breakMessage line) (other.breakMessage line) := by
    intro line
    unfold breakMessage
    rw [h.reads column fun _ _ _ _ _ => rfl]
    exact h.print (.inl rfl) fun _ => rfl
  have hstopped : ∀ told otherTold : Session, Twin listed p q told otherTold →
      Twin listed p q ({ told with settings := { told.settings with restart := told.cursor } }.halt .stopped)
        ({ otherTold with settings := { otherTold.settings with restart := otherTold.cursor } }.halt .stopped) :=
    fun _ _ htold => htold.change
      (fun told => { told with settings := { told.settings with restart := told.cursor } }.halt .stopped)
      fun _ _ _ _ _ => rfl
  unfold Session.breakOff
  rw [h.reads current fun _ _ _ _ _ => rfl]
  split
  · exact hstopped _ _ (htold _)
  · exact h.halt .stopped

theorem Twin.report (h : Twin listed p q session other) (event : Event) :
    Twin listed p q (session.report event) (other.report event) := by
  obtain ⟨base, hfunctions, hstack, hevents⟩ := h
  exact .intro base hfunctions hstack (List.rel_append hevents (.cons (.same event) .nil))

theorem Twin.scope (h : Twin listed p q session other) : session.scope.Alike other.scope := by
  obtain ⟨base, hfunctions, hstack, hevents⟩ := h
  exact ⟨hfunctions, rfl, rfl⟩

/-- Twins are side by side. -/
theorem lockstep_twin (listed : String → String → Prop) (h : p.bare = q.bare) : Lockstep (Twin listed p q) where
  change htwin f hf := by
    refine htwin.change f fun base program functions stack events => ?_
    -- A change that does not see the situation leaves the place in the program as it is.
    have hself : f base = (f base).moved base.situation := hf base base.situation
    exact (hf base { base.situation with program, functions, stack, events }).trans
      (congrArg (fun session : Session => { session with program, functions, stack, events }) hself).symm
  reads htwin f hf := by
    refine htwin.reads f fun base program functions stack events => ?_
    exact hf base { base.situation with program, functions, stack, events }
  eval {_ other} htwin expr := by
    rw [← Workspace.eval_alike (.refl other.scope), Workspace.eval_alike htwin.scope]
  evalAll {_ other} htwin exprs := by
    rw [← Workspace.evalAll_alike (.refl other.scope), Workspace.evalAll_alike htwin.scope]
  data htwin := by
    obtain ⟨base, -, -, -⟩ := htwin
    exact Program.data_of_bare h
  start htwin number := by
    obtain ⟨base, -, -, -⟩ := htwin
    exact Program.start_of_bare h number
  print htwin _ := htwin.print (.inl rfl) fun _ => rfl
  report htwin event := htwin.report event

end Session

namespace SessionAct

open Act Session

variable {listed : String → String → Prop} {p q : Program}

/-- A change of what has nothing to do with programs, functions, loops and events. -/
theorem same_change {change : Session → Session}
    (h : ∀ (base : Session) (program : Program) (functions : Std.TreeMap String UserFunction) (stack : Stack Frame)
      (events : List Event), change { base with program, functions, stack, events } =
        { change base with program, functions, stack, events }) :
    Same (Twin listed p q) (modify change : SessionAct PUnit) :=
  same_modify fun _ _ htwin => htwin.change change h

theorem same_goOnAt (cursor : Option Cursor) : Same (Twin listed p q) (goOnAt cursor) :=
  same_change fun _ _ _ _ _ => rfl

/-- Expressions that differ in sigils of singles only have the same value. -/
theorem agrees_eval (h : p.bare = q.bare) {expr other : Expr} (hbare : expr.bare = other.bare) :
    Agrees (Twin listed p q) Eq (eval expr) (eval other) := by
  rw [← eval_bare expr, hbare, eval_bare]
  exact (lockstep_twin listed h).same_eval other

section Jumps

theorem same_goto (h : p.bare = q.bare) (line : Nat) : Same (Twin listed p q) (goto line) :=
  ((lockstep_twin listed h).lineStart line).bind fun _ => same_goOnAt _

theorem agrees_setStack {stack other : Stack Frame} (hstack : Frame.AllAlike p q stack other) :
    Agrees (Twin listed p q) Eq (setStack stack) (setStack other) := by
  rintro _ _ ⟨base, hfunctions, -, hevents⟩
  exact .ok rfl (.intro base hfunctions hstack hevents)

theorem agrees_pushFrame {frame other : Frame} (hframe : Frame.Alike p q frame other) :
    Agrees (Twin listed p q) Eq (pushFrame frame) (pushFrame other) := by
  refine agrees_get ?_
  rintro _ _ ⟨base, hfunctions, hstack, hevents⟩
  exact (agrees_lift (hstack.push hframe)).bind fun _ _ => agrees_setStack

theorem agrees_popFrame : Agrees (Twin listed p q) (Frame.Alike p q) popFrame popFrame := by
  refine agrees_get ?_
  rintro _ _ ⟨base, hfunctions, hstack, hevents⟩
  refine (agrees_lift (R := fun popped found => Frame.Alike p q popped.1 found.1 ∧
    Frame.AllAlike p q popped.2 found.2) hstack.pop).bind ?_
  rintro ⟨frame, stack⟩ ⟨found, other⟩ ⟨hframe, hrest⟩
  refine (agrees_setStack hrest).bind ?_
  rintro _ _ rfl
  exact agrees_pure hframe

theorem same_gosub (h : p.bare = q.bare) (line : Nat) : Same (Twin listed p q) (gosub line) := by
  refine ((lockstep_twin listed h).lineStart line).bind fun start => agrees_get ?_
  rintro _ _ ⟨base, hfunctions, hstack, hevents⟩
  exact (same_goOnAt none).bind fun _ => Same.bind (agrees_pushFrame (.gosub _)) fun _ => same_goOnAt _

theorem same_returnTo (h : p.bare = q.bare) (line : Option Nat) : Same (Twin listed p q) (returnTo line) := by
  refine agrees_get ?_
  rintro _ _ ⟨base, hfunctions, hstack, hevents⟩
  dsimp only
  rw [hstack.lastIndex? Frame.blind_isGosub]
  split
  · exact agrees_throw _
  · refine (agrees_setStack (hstack.truncate _)).bind fun _ _ _ => agrees_popFrame.bind ?_
    rintro _ _ (back | _ | _)
    · cases line with
      | none => exact same_goOnAt back
      | some number => exact same_goto h number
    · exact agrees_throw _
    · exact agrees_throw _

end Jumps

section Loops

variable {counter other : Name}

theorem agrees_isOver (h : p.bare = q.bare) (hbare : counter.bare = other.bare) (limit step : Value) :
    Agrees (Twin listed p q) Eq (isOver counter limit step) (isOver other limit step) := by
  rw [← isOver_bare counter, hbare, isOver_bare]
  exact (lockstep_twin listed h).isOver other limit step

theorem agrees_storeScalar (h : p.bare = q.bare) (hbare : counter.bare = other.bare) (value : Value) :
    Agrees (Twin listed p q) Eq (storeScalar counter value) (storeScalar other value) := by
  rw [← storeScalar_bare counter, hbare, storeScalar_bare]
  exact (lockstep_twin listed h).changeMemory _

theorem same_skipLoop (h : p.bare = q.bare) : Same (Twin listed p q) skipLoop := by
  refine agrees_get ?_
  rintro _ _ ⟨base, hfunctions, hstack, hevents⟩
  dsimp only
  rw [Program.closingNext?_of_bare h]
  split
  · rw [Program.advance?_of_bare h]
    exact same_goOnAt _
  · exact agrees_throw _

theorem agrees_bounds (h : p.bare = q.bare) {limit otherLimit : Expr} {step otherStep : Option Expr}
    (hlimit : limit.bare = otherLimit.bare) (hstep : step.map Expr.bare = otherStep.map Expr.bare) :
    Agrees (Twin listed p q) Eq (bounds limit step) (bounds otherLimit otherStep) := by
  refine Agrees.bind (agrees_eval h hlimit) ?_
  rintro last _ rfl
  cases step with
  | none =>
      cases otherStep with
      | none => exact same_lift (.ok (last, Value.int 1))
      | some otherChange => cases hstep
  | some change =>
      cases otherStep with
      | none => cases hstep
      | some otherChange =>
          refine Agrees.bind (agrees_eval h (Option.some.inj hstep)) ?_
          rintro value _ rfl
          exact same_lift (.ok (last, value))

theorem agrees_openLoop (htwins : Program.Twins listed p q) (hopened : Program.Opened p q counter other)
    (hnamed : Program.Named p q counter other) (last change : Value) :
    Agrees (Twin listed p q) Eq (openLoop counter last change) (openLoop other last change) := by
  have hbare := Program.bare_of_opened htwins.bare hopened
  unfold openLoop
  split
  · exact agrees_throw _
  · refine agrees_get ?_
    rintro _ _ ⟨base, hfunctions, hstack, hevents⟩
    refine Agrees.bind (agrees_setStack (hstack.closeSameLoop htwins.loops hnamed)) fun _ _ _ => ?_
    refine Agrees.bind (agrees_isOver htwins.bare hbare last change) ?_
    rintro finished _ rfl
    split
    · exact same_skipLoop htwins.bare
    · refine agrees_get ?_
      rintro _ _ ⟨base, hfunctions, hstack, hevents⟩
      exact agrees_pushFrame (.forLoop hopened last change base.cursor)

theorem agrees_forLoop (htwins : Program.Twins listed p q) (hopened : Program.Opened p q counter other)
    (hnamed : Program.Named p q counter other) {start otherStart limit otherLimit : Expr}
    {step otherStep : Option Expr} (hstart : start.bare = otherStart.bare) (hlimit : limit.bare = otherLimit.bare)
    (hstep : step.map Expr.bare = otherStep.map Expr.bare) :
    Agrees (Twin listed p q) Eq (forLoop counter start limit step) (forLoop other otherStart otherLimit otherStep) := by
  have hbare := Program.bare_of_opened htwins.bare hopened
  have htype : other.type = counter.type := by rw [← Name.type_bare, ← hbare, Name.type_bare]
  by_cases htext : counter.type = .text
  · rw [forLoop_of_text htext, forLoop_of_text (htype.trans htext)]
    exact agrees_throw _
  · rw [forLoop_eq htext, forLoop_eq fun h => htext (htype.symm.trans h)]
    refine Agrees.bind (agrees_eval htwins.bare hstart) ?_
    rintro first _ rfl
    refine Agrees.bind (agrees_storeScalar htwins.bare hbare first) fun _ _ _ => ?_
    refine Agrees.bind (agrees_bounds htwins.bare hlimit hstep) ?_
    rintro values _ rfl
    exact agrees_openLoop htwins hopened hnamed values.1 values.2

theorem nextOne_eq (counter : Option Name) :
    nextOne counter = (do
      let stack := (← get).stack
      let trimmed := stack.popWhile (Frame.isInside counter)
      setStack trimmed
      match trimmed.top? with
      | some (.forLoop name limit step body) =>
          let sum ← Value.add ((← get).work.memory.fetch name) step
          storeScalar name sum
          if ← isOver name limit step then
            let _ ← popFrame
            return false
          else
            goOnAt body
            return true
      | _ => throw (.of .nextWithoutFor)) := rfl

theorem agrees_nextOne (htwins : Program.Twins listed p q) {sought otherSought : Option Name}
    (hnamed : Option.Rel (Program.Named p q) sought otherSought) :
    Agrees (Twin listed p q) Eq (nextOne sought) (nextOne otherSought) := by
  rw [nextOne_eq, nextOne_eq]
  refine agrees_get ?_
  rintro _ _ ⟨base, hfunctions, hstack, hevents⟩
  -- The loops that NEXT leaves are in the same places of both stacks, as no test of a counter tells them apart.
  have htrimmed := hstack.popWhile (Frame.blind_isInside htwins.loops hnamed)
  refine Agrees.bind (agrees_setStack htrimmed) fun _ _ _ => ?_
  obtain ⟨hnone, hother⟩ | ⟨frame, found, hframe, hfound, halike⟩ := htrimmed.top?
  · dsimp only
    rw [hnone, hother]
    exact agrees_throw _
  · dsimp only
    rw [hframe, hfound]
    cases halike with
    | gosub | whileLoop => exact agrees_throw _
    | forLoop hopened limit step body =>
        have hbare := Program.bare_of_opened htwins.bare hopened
        refine agrees_get ?_
        rintro _ _ ⟨base, hfunctions, hstack, hevents⟩
        dsimp only
        rw [← Memory.fetch_bare, hbare, Memory.fetch_bare]
        refine (same_lift _).bind fun sum => Agrees.bind (agrees_storeScalar htwins.bare hbare sum) fun _ _ _ => ?_
        refine Agrees.bind (agrees_isOver htwins.bare hbare limit step) ?_
        rintro finished _ rfl
        split
        · exact agrees_popFrame.bind fun _ _ _ => agrees_pure rfl
        · exact (same_goOnAt body).bind fun _ => agrees_pure rfl

theorem agrees_nextEach (htwins : Program.Twins listed p q) {counters others : List Name}
    (hnamed : List.Forall₂ (Program.Named p q) counters others) :
    Agrees (Twin listed p q) Eq (nextEach counters) (nextEach others) := by
  induction hnamed with
  | nil => exact agrees_pure rfl
  | cons hfirst _ ih =>
      refine Agrees.bind (agrees_nextOne htwins (.some hfirst)) ?_
      rintro goesOn _ rfl
      split
      · exact agrees_pure rfl
      · exact ih

theorem agrees_next (htwins : Program.Twins listed p q) {counters others : List Name}
    (hnamed : List.Forall₂ (Program.Named p q) counters others) :
    Agrees (Twin listed p q) Eq (next counters) (next others) := by
  unfold next
  cases hnamed with
  | nil => exact Agrees.bind (agrees_nextOne htwins .none) fun _ _ _ => agrees_pure rfl
  | cons hfirst hrest => exact agrees_nextEach htwins (.cons hfirst hrest)

theorem same_whileLoop (h : p.bare = q.bare) (condition : Expr) : Same (Twin listed p q) (whileLoop condition) := by
  refine ((lockstep_twin listed h).same_eval condition).bind fun value => (same_lift _).bind fun holds => ?_
  split
  · refine agrees_get ?_
    rintro _ _ ⟨base, hfunctions, hstack, hevents⟩
    exact agrees_pushFrame (.whileLoop base.current)
  · refine agrees_get ?_
    rintro _ _ ⟨base, hfunctions, hstack, hevents⟩
    dsimp only
    rw [Program.closingWend?_of_bare h]
    split
    · rw [Program.advance?_of_bare h]
      exact same_goOnAt _
    · exact agrees_throw _

theorem same_wend : Same (Twin listed p q) wend := by
  refine agrees_get ?_
  rintro _ _ ⟨base, hfunctions, hstack, hevents⟩
  obtain ⟨hnone, hother⟩ | ⟨frame, found, hframe, hfound, halike⟩ := hstack.top?
  · dsimp only
    rw [hnone, hother]
    exact agrees_throw _
  · dsimp only
    rw [hframe, hfound]
    cases halike with
    | gosub | forLoop => exact agrees_throw _
    | whileLoop start => exact agrees_popFrame.bind fun _ _ _ => same_goOnAt _

end Loops

section Commands

theorem same_choose (h : p.bare = q.bare) (condition : Expr) : Same (Twin listed p q) (choose condition) := by
  refine ((lockstep_twin listed h).same_eval condition).bind fun value => (same_lift _).bind fun holds => agrees_get ?_
  rintro _ _ ⟨base, hfunctions, hstack, hevents⟩
  dsimp only
  rw [Program.enterBranch?_of_bare h]
  split
  · exact same_goOnAt _
  · exact agrees_pure rfl

theorem same_resume (h : p.bare = q.bare) (target : ResumeAt) : Same (Twin listed p q) (resume target) := by
  refine agrees_get ?_
  rintro _ _ ⟨base, hfunctions, hstack, hevents⟩
  dsimp only
  split
  · refine Agrees.bind (agrees_set ?_) fun _ _ _ => ?_
    · exact .intro { base with state := .running, settings := { base.settings with resume := none } }
        hfunctions hstack hevents
    · cases target with
      | retry => exact same_goOnAt _
      | next =>
          dsimp only
          rw [Program.advance?_of_bare h]
          exact same_goOnAt _
      | line number => exact same_goto h number
  · exact agrees_throw _

theorem same_run (h : p.bare = q.bare) (line : Option Nat) : Same (Twin listed p q) (run line) := by
  have hrun : ∀ start : Option Cursor, Same (Twin listed p q) (modify fun session : Session =>
      { session.clear with cursor := start, state := .running } : SessionAct PUnit) := by
    intro start
    refine same_modify ?_
    rintro _ _ ⟨base, -, hstack, hevents⟩
    exact .intro { base.clear with cursor := start, state := .running } (fun _ => rfl) (hstack.clear p q) hevents
  cases line with
  | none =>
      refine Same.bind ?_ hrun
      rintro _ _ ⟨base, hfunctions, hstack, hevents⟩
      rw [outcome_map, outcome_map, outcome_get, outcome_get]
      exact .ok (Program.firstCursor?_of_bare h).symm (.intro base hfunctions hstack hevents)
  | some number => exact (((lockstep_twin listed h).lineStart number).map some).bind hrun

theorem same_cont : Same (Twin listed p q) cont := by
  refine agrees_get ?_
  rintro _ _ ⟨base, hfunctions, hstack, hevents⟩
  dsimp only
  split
  · rename_i cursor _
    refine agrees_set (.intro
      { base with
        cursor := some cursor
        state := .running
        settings := { base.settings with restart := none } } hfunctions hstack hevents)
  · exact agrees_throw _

theorem same_finish : Same (Twin listed p q) finish := by
  refine agrees_get ?_
  rintro _ _ ⟨base, hfunctions, hstack, hevents⟩
  dsimp only
  split
  · exact agrees_throw _
  · refine agrees_set ?_
    exact .intro
      ({ base with
        settings := { base.settings with
          restart := if base.current.line.isSome then base.cursor else base.settings.restart } }.halt .stopped)
      hfunctions hstack hevents

/-- LIST shows the spelling of each program. -/
theorem same_list (htwins : Program.Twins listed p q) {cursor : Cursor} {first last : Option Nat}
    (hat : p.statement? cursor = some (.command (.list first last))) :
    Same (Twin listed p q) (command (.list first last)) := by
  refine agrees_get ?_
  intro session twin htwin
  have hprograms : session.program = p ∧ twin.program = q := by
    obtain ⟨base, -, -, -⟩ := htwin
    exact ⟨rfl, rfl⟩
  rw [hprograms.1, hprograms.2]
  obtain ⟨fault, hleft, hright⟩ | ⟨text, other, hleft, hright, hcolumn⟩ := Program.list_of_bare htwins.bare first last
  · rw [hleft, hright]
    exact agrees_throw fault
  · rw [hleft, hright]
    exact agrees_set (htwin.print (htwins.lists cursor first last text other hat hleft hright) hcolumn)

/-- Commands that neither keep, compare nor show names, and do not clear the program. -/
theorem same_command (h : p.bare = q.bare) {c : Command} (hnames : c.keepsNames = false) (hnew : c ≠ .new) :
    Same (Twin listed p q) (command c) := by
  have hlockstep := lockstep_twin listed h
  cases hunplaced : c.isUnplaced with
  | true => exact hlockstep.command hunplaced
  | false =>
      cases c with
      | define | forLoop | next | list => cases hnames
      | new => exact absurd rfl hnew
      | auto => exact same_change fun _ _ _ _ _ => rfl
      | clear arguments =>
          refine (hlockstep.evalInts arguments).bind fun _ => same_modify ?_
          rintro _ _ ⟨base, -, hstack, hevents⟩
          exact .intro base.clear (fun _ => rfl) (hstack.clear p q) hevents
      | cont => exact same_cont
      | finish => exact same_finish
      | gosub line => exact same_gosub h line
      | goto line => exact same_goto h line
      | onGoto selector lines =>
          refine (hlockstep.selected selector lines).bind fun target => ?_
          cases target with
          | none => exact agrees_pure rfl
          | some line => exact same_goto h line
      | onGosub selector lines =>
          refine (hlockstep.selected selector lines).bind fun target => ?_
          cases target with
          | none => exact agrees_pure rfl
          | some line => exact same_gosub h line
      | resume target => exact same_resume h target
      | returnTo line => exact same_returnTo h line
      | run line => exact same_run h line
      | stop => exact same_modify fun _ _ htwin => htwin.breakOff
      | wend => exact same_wend
      | whileLoop condition => exact same_whileLoop h condition
      | _ => cases hunplaced

/-- A function is kept as it is spelled. -/
theorem agrees_define (name : Name) {parameters others : List Name} {body other : Expr}
    (hparameters : parameters.map Name.bare = others.map Name.bare) (hbody : body.bare = other.bare) :
    Agrees (Twin listed p q) Eq (command (.define name parameters body)) (command (.define name others other)) := by
  rintro _ _ ⟨base, hfunctions, hstack, hevents⟩
  refine .ok rfl (.intro base (fun key => ?_) hstack hevents)
  rw [Std.TreeMap.getElem?_insert, Std.TreeMap.getElem?_insert]
  split
  · rw [Option.map_some, Option.map_some, UserFunction.bare, UserFunction.bare, hparameters, hbody]
  · exact hfunctions key

/-- Two spellings of a FOR do the same. -/
theorem agrees_forLoop_at (htwins : Program.Twins listed p q) {cursor : Cursor} {counter : Name} {start limit : Expr}
    {step : Option Expr} {found : Command}
    (hs : p.statement? cursor = some (.command (.forLoop counter start limit step)))
    (hother : q.statement? cursor = some (.command found))
    (hbare : (Command.forLoop counter start limit step).bare = found.bare) :
    Agrees (Twin listed p q) Eq (command (.forLoop counter start limit step)) (command found) := by
  cases found with
  | forLoop other otherStart otherLimit otherStep =>
      injection hbare with _ hstart hlimit hstep
      have hopened : Program.Opened p q counter other :=
        ⟨cursor, by rw [Program.opened?, hs], by rw [Program.opened?, hother]⟩
      have hnamed : Program.Named p q counter other := by
        refine ⟨cursor, ?_⟩
        rw [Program.named, Program.named, hs, hother]
        exact List.mem_singleton_self _
      exact agrees_forLoop htwins hopened hnamed hstart hlimit hstep
  | _ => cases hbare

/-- Two spellings of a NEXT do the same. -/
theorem agrees_next_at (htwins : Program.Twins listed p q) {cursor : Cursor} {counters : List Name} {found : Command}
    (hs : p.statement? cursor = some (.command (.next counters)))
    (hother : q.statement? cursor = some (.command found))
    (hbare : (Command.next counters).bare = found.bare) :
    Agrees (Twin listed p q) Eq (command (.next counters)) (command found) := by
  cases found with
  | next others =>
      injection hbare with hcounters
      refine agrees_next htwins (List.forall₂_iff_zip.mpr ⟨?_, fun hmem => ⟨cursor, ?_⟩⟩)
      · rw [← List.length_map Name.bare, hcounters, List.length_map]
      · rwa [Program.named, Program.named, hs, hother]
  | _ => cases hbare

/-- **Two spellings of a statement do the same**, each in its program. -/
theorem agrees_statement (htwins : Program.Twins listed p q) {cursor : Cursor} {s other : Statement}
    (hs : p.statement? cursor = some s) (hother : q.statement? cursor = some other) (hnew : s ≠ .command .new) :
    Agrees (Twin listed p q) Eq (statement s) (statement other) := by
  have hbare : s.bare = other.bare := by
    have hboth := Program.statement?_of_bare htwins.bare cursor
    rw [hs, hother] at hboth
    exact Option.some.inj hboth
  cases s with
  | choice condition thenList elseList =>
      cases other with
      | command found => rw [Statement.bare, Statement.bare] at hbare; cases hbare
      | choice otherCondition otherThen otherElse =>
          rw [Statement.bare, Statement.bare] at hbare
          injection hbare with hcondition
          rw [statement, statement, ← choose_bare, hcondition, choose_bare]
          exact same_choose htwins.bare otherCondition
  | command c =>
      cases other with
      | choice otherCondition otherThen otherElse => rw [Statement.bare, Statement.bare] at hbare; cases hbare
      | command found =>
          rw [Statement.bare, Statement.bare] at hbare
          injection hbare with hbare
          change Agrees (Twin listed p q) Eq (command c) (command found)
          cases hnames : c.keepsNames with
          | false =>
              -- The two commands have one bare form, and each does what that does.
              have hfound : found.keepsNames = false := by
                rw [← found.keepsNames_bare, ← hbare, c.keepsNames_bare, hnames]
              rw [← command_bare hfound, ← hbare, command_bare hnames]
              exact same_command htwins.bare hnames fun h => hnew (congrArg Statement.command h)
          | true =>
              cases c with
              | define name parameters body =>
                  cases found with
                  | define other others otherBody =>
                      injection hbare with hname hparameters hbody
                      rw [← hname]
                      exact agrees_define name hparameters hbody
                  | _ => cases hbare
              | forLoop => exact agrees_forLoop_at htwins hs hother hbare
              | next => exact agrees_next_at htwins hs hother hbare
              | list first last =>
                  cases found with
                  | list otherFirst otherLast =>
                      injection hbare with hfirst hlast
                      rw [← hfirst, ← hlast]
                      exact same_list htwins hs
                  | _ => cases hbare
              | _ => cases hnames

end Commands

end SessionAct

end LineBasic
