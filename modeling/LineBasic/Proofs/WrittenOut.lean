import LineBasic.Proofs.Abreast
import LineBasic.Proofs.Respelled

/-! Runs of a program and of the one in which some NEXT lists of it are written out. A statement of the one program
is one statement of the other, but a NEXT that is written out is carried out there in several, up to the one whose
loop goes on. Until then the second session lags behind; it tells nothing while it does, so a host hears the same
from both and finds the same variables in the end. -/

namespace LineBasic

namespace Program

/-- The second program is the first one with some NEXT lists written out. What a LIST of the first one shows may be
shown in place of what it shows in the second one. -/
structure Renders (listed : String → String → Prop) (p q : Program) : Prop extends WrittenOut p q where
  lists : ∀ cursor first last text other, p.statement? cursor = some (.command (.list first last)) →
    p.list first last = .ok text → q.list first last = .ok other → TextAgree listed text other

theorem renders_self (listed : String → String → Prop) {program : Program}
    (hfilled : ∀ entry ∈ program.lines.entries, entry.2 ≠ []) : program.Renders listed program where
  toUnrolls := .refl program
  filled := hfilled
  lists _ _ _ _ _ _ htext hother := .inl (Except.ok.inj (htext.symm.trans hother))

end Program

namespace Session

open Act SessionAct

variable {listed : String → String → Prop} {p q : Program} {place place' : Cursor}
  {C D : Option Cursor → Option Cursor → Prop} {E : List Event → List Event → Prop} {session other after : Session}

section Begun

theorem Parallel.mono (hboth : Parallel p q place place' C E session other) (himp : ∀ a b, C a b → D a b) :
    Parallel p q place place' D E session other :=
  hboth.move (a := session.situation) (b := other.situation)
    { hboth.situation with cursor := himp _ _ hboth.cursor }

/-- Where a line is entered in one session it is entered in the other. -/
theorem traceText_of_corresponds {cursor cursor' : Cursor} (hplace : p.Corresponds q cursor cursor')
    (htracing : other.settings.tracing = session.settings.tracing) (htraced : other.traced = session.traced) :
    traceText other cursor' = traceText session cursor := by
  have hpath : (cursor'.path == [0]) = (cursor.path == [0]) := by
    rw [Bool.eq_iff_iff, beq_iff_eq, beq_iff_eq]
    exact hplace.path_eq_iff
  unfold traceText
  rw [hplace.line, htracing, htraced, hpath]

theorem Parallel.beginStatement (h : p.WrittenOut q) (hE : Echoes E)
    (hboth : Parallel p q place place' C E session other) {cursor cursor' : Cursor}
    (hplace : p.Corresponds q cursor cursor') :
    Parallel p q cursor cursor' (fun a b => a = p.advance? cursor ∧ b = q.advance? cursor') E
      (SessionAct.beginStatement { session with cursor := none } cursor)
      (SessionAct.beginStatement { other with cursor := none } cursor') := by
  have hgone : Parallel p q place place' (fun _ _ => True) E { session with cursor := none }
      { other with cursor := none } := hboth.goOn trivial
  have hlockstep := lockstep_parallel h hE place place' fun _ _ => True
  have htrace := traceText_of_corresponds hplace (hlockstep.reads hgone (·.settings.tracing) fun _ _ => rfl)
    (hlockstep.reads hgone traced fun _ _ => rfl)
  have hplaced : ∀ shown otherShown : Session, Parallel p q place place' (fun _ _ => True) E shown otherShown →
      Parallel p q cursor cursor' (fun a b => a = p.advance? cursor ∧ b = q.advance? cursor') E
        { shown with traced := cursor.line, cursor := p.advance? cursor, current := cursor }
        { otherShown with traced := cursor'.line, cursor := q.advance? cursor', current := cursor' } := by
    intro shown otherShown hshown
    have htraced := hlockstep.change hshown (fun shown => { shown with traced := cursor.line }) fun _ _ => rfl
    rw [hplace.line]
    exact htraced.move (a := { shown.situation with cursor := p.advance? cursor, current := cursor })
      (b := { otherShown.situation with cursor := q.advance? cursor', current := cursor' })
      { hshown.situation with cursor := ⟨rfl, rfl⟩, current := rfl, otherCurrent := rfl }
  have hadvance : session.program.advance? cursor = p.advance? cursor := by rw [hboth.program]
  have hadvance' : other.program.advance? cursor' = q.advance? cursor' := by rw [hboth.otherProgram]
  unfold SessionAct.beginStatement
  rw [htrace]
  dsimp only
  rw [hadvance, hadvance']
  cases traceText { session with cursor := none } cursor with
  | none => exact hplaced _ _ hgone
  | some text => exact hplaced _ _ (hlockstep.print hgone text)

end Begun

section Rows

/-- Nothing changes but the stack, the workspace and where the session goes on. -/
def LoopsOnly (session after : Session) : Prop :=
  ∃ stack work cursor, after = { session with stack, work, cursor }

theorem LoopsOnly.refl (session : Session) : LoopsOnly session session := ⟨_, _, _, rfl⟩

theorem LoopsOnly.trans {first second third : Session} (h : LoopsOnly first second) (h' : LoopsOnly second third) :
    LoopsOnly first third := by
  obtain ⟨stack, work, cursor, rfl⟩ := h
  obtain ⟨stack', work', cursor', rfl⟩ := h'
  exact ⟨stack', work', cursor', rfl⟩

instance : IsPreorder Session LoopsOnly where
  refl := LoopsOnly.refl
  trans _ _ _ := LoopsOnly.trans

instance : AllowsEval LoopsOnly where
  withWork session work _ := ⟨session.stack, work, session.cursor, rfl⟩

theorem loopsOnly_nextOne (sought : Option Name) : Relates LoopsOnly (nextOne sought) := by
  have hstack : ∀ stack, Relates LoopsOnly (setStack stack) :=
    fun stack session => ⟨stack, session.work, session.cursor, rfl⟩
  rw [nextOne_eq]
  refine relates_get.bind fun session => (hstack _).bind fun _ => ?_
  split
  · rename_i name limit step body _
    refine relates_get.bind fun _ => (relates_lift _).bind fun sum => ?_
    refine (relates_storeScalar name sum).bind fun _ => (relates_isOver name limit step).bind fun finished => ?_
    split
    · have hpop : Relates LoopsOnly popFrame :=
        relates_get.bind fun _ => (relates_lift _).bind fun _ => (hstack _).bind fun _ => relates_pure _
      exact hpop.bind fun _ => relates_pure _
    · have hgone : Relates LoopsOnly (goOnAt body) := fun session => ⟨session.stack, session.work, body, rfl⟩
      exact hgone.bind fun _ => relates_pure _
  · exact relates_throw _

theorem loopsOnly_nextEach (counters : List Name) : Relates LoopsOnly (nextEach counters) := by
  induction counters with
  | nil => exact relates_pure _
  | cons counter rest ih =>
      refine (loopsOnly_nextOne (some counter)).bind fun goesOn => ?_
      split
      · exact relates_pure _
      · exact ih

/-- The first session is in the middle of a NEXT that the second one carries out as a NEXT for each counter: the
rest of that is still ahead of the one, and the other counters of the NEXT ahead of the other. -/
abbrev InRow (p q : Program) (place place' : Cursor) (behind next : Option Cursor)
    (E : List Event → List Event → Prop) : Session → Session → Prop :=
  Parallel p q place place' (fun cursor cursor' => p.Corresponds? q cursor behind ∧ cursor' = next) E

/-- The second session carries out one NEXT of the row. Either the loop of that goes on, then both sessions do, or
the first one still has the other counters ahead of it. -/
theorem InRow.exists_next (h : p.WrittenOut q) (hE : Echoes E) {behind next : Option Cursor} {counter : Name}
    {counters : List Name} (hrow : InRow p q place place' behind next E session other)
    (hok : (nextEach (counter :: counters)).outcome session = (.ok ⟨⟩, after)) :
    ∃ reached, (command (.next [counter])).outcome other = (.ok ⟨⟩, reached) ∧ LoopsOnly other reached ∧
      (Parallel p q place place' (p.Corresponds? q) E after reached ∨
        ∃ middle, (nextEach counters).outcome middle = (.ok ⟨⟩, after) ∧
          InRow p q place place' behind next E middle reached) := by
  unfold nextEach at hok
  rw [outcome_bind] at hok
  rcases hfirst : (nextOne (some counter)).outcome session with ⟨fault | goesOn, middle⟩
  · rw [hfirst] at hok
    cases hok
  · rw [hfirst] at hok
    obtain ⟨found, reached, hother, hfound, hboth⟩ := follows_nextOne h hE (some counter) hrow hfirst
    rw [hfound] at hother
    have hnext : (command (.next [counter])).outcome other = (.ok ⟨⟩, reached) := by
      change (nextEach [counter]).outcome other = _
      unfold nextEach
      rw [outcome_bind, hother]
      dsimp only
      split <;> rfl
    have honly : LoopsOnly other reached := by
      have hkept := loopsOnly_nextOne (some counter) other
      rwa [hother] at hkept
    refine ⟨reached, hnext, honly, ?_⟩
    cases goesOn with
    | true =>
        cases hok
        exact .inl hboth
    | false => exact .inr ⟨middle, hok, hboth⟩

end Rows

section Steps

/-- Sessions that carry out a program and the one in which some NEXT lists of it are written out, and stand in the
same lines. -/
def Onward (listed : String → String → Prop) (session other : Session) : Prop :=
  ∃ p q place place', Program.Renders listed p q ∧ place'.line = place.line ∧
    Parallel p q place place' (p.Corresponds? q) (List.Forall₂ (Event.Agree listed)) session other

/-- A session that runs and does not wait for a file. -/
def RunsOn (session : Session) : Prop := session.isRunning = true ∧ session.loading = none

theorem LoopsOnly.runsOn (honly : LoopsOnly session after) (hruns : session.RunsOn) : after.RunsOn := by
  obtain ⟨_, _, _, rfl⟩ := honly
  exact hruns

/-- The first session has carried out a NEXT, and the second one still has NEXT statements for these counters ahead
of it, none of them the first in its line. Once the second session has carried out those that the first one has,
both go on. Meanwhile the host may hear of events. -/
inductive Lagging (listed : String → String → Prop) (counters : List Name) (after other : Session) : Prop
  | intro {p q : Program} {place place' cursor : Cursor} {behind : Option Cursor} {middle final : Session}
      (h : p.Renders listed q) (hline : place'.line = place.line)
      (hrow : InRow p q place place' behind (some cursor) (fun _ _ => True) middle other)
      (hahead : q.Row (some cursor) counters behind) (hsome : counters ≠ [])
      (hcursor : cursor.line = place'.line ∧ cursor.path ≠ [0]) (htraced : other.traced = place'.line)
      (hok : (nextEach counters).outcome middle = (.ok ⟨⟩, final))
      (hafter : after = { final with events := after.events })
      (hevents : List.Forall₂ (Event.Agree listed) after.events other.events) (hruns : after.RunsOn)

theorem echoes_true : Echoes fun _ _ => True := ⟨fun _ _ => trivial, fun _ _ => trivial⟩

/-- What follows a NEXT of a row once both sessions have carried it out. -/
theorem onward_or_lagging (h : p.Renders listed q) {cursor cursor' : Cursor} {behind : Option Cursor}
    {counters : List Name} {final reached : Session} (hline : cursor'.line = cursor.line)
    (hinner : counters ≠ [] → ∀ next ∈ q.advance? cursor', next.line = cursor'.line ∧ next.path ≠ [0])
    (hahead : q.Row (q.advance? cursor') counters behind) (htraced : reached.traced = cursor'.line)
    (hevents : List.Forall₂ (Event.Agree listed) after.events reached.events)
    (hafter : after = { final with events := after.events }) (hruns : after.RunsOn)
    (hnext : Parallel p q cursor cursor' (p.Corresponds? q) (fun _ _ => True) final reached ∨
      ∃ middle, (nextEach counters).outcome middle = (.ok ⟨⟩, final) ∧
        InRow p q cursor cursor' behind (q.advance? cursor') (fun _ _ => True) middle reached) :
    Onward listed after reached ∨ Lagging listed counters after reached := by
  have honward : Parallel p q cursor cursor' (p.Corresponds? q) (fun _ _ => True) final reached →
      Onward listed after reached := by
    intro hboth
    rw [hafter]
    exact ⟨p, q, cursor, cursor', h, hline, hboth.withEvents hevents⟩
  obtain hboth | ⟨middle, hok, hrow⟩ := hnext
  · exact .inl (honward hboth)
  · by_cases hnone : counters = []
    · subst hnone
      cases hok
      refine .inl (honward (hrow.mono ?_))
      rintro _ _ ⟨hcursor, rfl⟩
      generalize q.advance? cursor' = next at hahead
      cases hahead
      exact hcursor
    · refine .inr ?_
      have hfirst := hinner hnone
      generalize q.advance? cursor' = next at hfirst hahead hrow
      cases hahead with
      | nil => exact absurd rfl hnone
      | cons hs hlater hrest =>
          exact .intro h hline hrow (.cons hs hlater hrest) hnone (hfirst _ rfl) htraced hok hafter hevents hruns

theorem outcome_command {session : Session} {cursor : Cursor} {c : Command} (hcursor : session.cursor = some cursor)
    (hs : session.program.statement? cursor = some (.command c)) :
    step.outcome session = (command c).outcome (beginStatement { session with cursor := none } cursor) :=
  outcome_step_of_some hcursor hs

/-- The second session catches up by one NEXT, and tells nothing. -/
theorem Lagging.step {counters : List Name} (hlag : Lagging listed counters after other) :
    ∃ reached fewer, step.outcome other = (.ok ⟨⟩, reached) ∧ fewer.length < counters.length ∧
      (Onward listed after reached ∨ Lagging listed fewer after reached) := by
  obtain ⟨h, hline, hrow, hahead, hsome, hcursor, htraced, hok, hafter, hevents, hruns⟩ := hlag
  rename_i p q place place' cursor behind middle final
  cases hahead with
  | nil => exact absurd rfl hsome
  | @cons _ counter counters _ hs hinner hrest =>
      have hplace : other.cursor = some cursor := hrow.cursor.2
      have hother : other.program = q := hrow.otherProgram
      -- The line is not entered again, so nothing is traced.
      have htrace : traceText { other with cursor := none } cursor = none := by
        unfold traceText
        rw [hcursor.1]
        dsimp only
        cases hnumber : place'.line with
        | none => rfl
        | some number => simp [htraced, hnumber, hcursor.2]
      have hbegun : beginStatement { other with cursor := none } cursor =
          { other with cursor := q.advance? cursor, current := cursor } := by
        have hadvance : other.program.advance? cursor = q.advance? cursor := by rw [hother]
        unfold beginStatement
        rw [htrace]
        dsimp only
        rw [hadvance, hcursor.1, ← htraced]
      have hstart : InRow p q place cursor behind (q.advance? cursor) (fun _ _ => True) middle
          { other with cursor := q.advance? cursor, current := cursor } :=
        hrow.move (a := middle.situation) (b := { other.situation with cursor := q.advance? cursor, current := cursor })
          { hrow.situation with cursor := ⟨hrow.cursor.1, rfl⟩, otherCurrent := rfl }
      obtain ⟨reached, hreached, honly, hnext⟩ := hstart.exists_next h.toWrittenOut echoes_true hok
      have hstep : SessionAct.step.outcome other = (.ok ⟨⟩, reached) := by
        rw [outcome_command hplace (hother ▸ hs), hbegun, hreached]
      obtain ⟨stack, work, next, rfl⟩ := honly
      refine ⟨_, counters, hstep, Nat.lt_succ_self _, ?_⟩
      exact onward_or_lagging h (hcursor.1.trans hline) hinner hrest (htraced.trans hcursor.1.symm) hevents hafter
        hruns hnext

/-- Whether the next statement is no FOR that skips its loop to a NEXT which goes on with counters of further
loops. -/
def skipsWhole (session : Session) : Bool :=
  match session.cursor, session.nextStatement? with
  | some cursor, some (.command (.forLoop _ _ _ _)) =>
      let following := session.program.advance? cursor
      decide (session.stepOrRaise.cursor = following) ||
        match session.program.search Statement.weighLoops session.program.span 0 following with
        | some (left, close) =>
            match session.program.statement? close with
            | some (.command (.next counters)) => decide (counters.length ≤ left + 1)
            | _ => true
        | none => true
  | _, _ => true

theorem few_of_skipsWhole (hfilled : ∀ entry ∈ session.program.lines.entries, entry.2 ≠ [])
    (hwhole : session.skipsWhole = true) {cursor close : Cursor} {counter : Name} {first limit : Expr}
    {step : Option Expr} {left : Nat} {counters : List Name} (hcursor : session.cursor = some cursor)
    (hs : session.program.statement? cursor = some (.command (.forLoop counter first limit step)))
    (hskips : session.stepOrRaise.cursor ≠ session.program.advance? cursor)
    (hfinds : session.program.Finds Statement.weighLoops 0 (session.program.advance? cursor) left close)
    (hclose : session.program.statement? close = some (.command (.next counters))) : counters.length ≤ left + 1 := by
  have hnext : session.nextStatement? = some (.command (.forLoop counter first limit step)) := by
    rw [nextStatement?, hcursor, Option.bind_some, hs]
  have hsearch := (Program.search_eq_some_iff hfilled fun next hfollowing =>
    (Program.before_of_advance? hfilled hfollowing).1).mpr hfinds
  unfold skipsWhole at hwhole
  rw [hcursor, hnext] at hwhole
  dsimp only at hwhole
  rw [decide_eq_false hskips, Bool.false_or, hsearch] at hwhole
  dsimp only at hwhole
  rw [hclose] at hwhole
  exact of_decide_eq_true hwhole

/-- A program that nothing is left of, or another one in place of both programs. -/
theorem Parallel.fresh (hboth : Parallel p q place place' C E session other) {program : Program}
    {cursor : Option Cursor} (hcursor : program.Corresponds? program cursor cursor) :
    Parallel program program place place' (program.Corresponds? program) E
      (session.moved ⟨program, ∅, session.stack.clear, cursor, session.current, none, session.events⟩)
      (other.moved ⟨program, ∅, other.stack.clear, cursor, other.current, none, other.events⟩) :=
  hboth.move
    { program := rfl
      otherProgram := rfl
      functions := rfl
      stack := hboth.stack.clear
      cursor := hcursor
      current := hboth.current
      otherCurrent := hboth.otherCurrent
      restart := .none
      events := hboth.events }

theorem Onward.newProgram (h : p.WrittenOut q) (hline : place'.line = place.line)
    (hboth : Parallel p q place place' C (List.Forall₂ (Event.Agree listed)) session other) :
    Onward listed (newProgram.outcome session).2 (newProgram.outcome other).2 := by
  have hforgotten := (lockstep_parallel h (echoes_agree listed) place place' C).change hboth (fun session =>
    { session with
      work := { session.work with memory := .empty }
      data := none
      dataPosition := 0
      settings := { restart := session.settings.restart }
      state := .idle
      traced := none }) fun _ _ => rfl
  have hempty : ∀ entry ∈ Program.empty.lines.entries, entry.2 ≠ [] :=
    fun _ hnone => absurd hnone List.not_mem_nil
  exact ⟨.empty, .empty, place, place', Program.renders_self listed hempty, hline, hforgotten.fresh .none⟩

/-- Both sessions carry out a statement that both programs have. -/
theorem exists_statement (h : p.Renders listed q) {cursor cursor' : Cursor} (hplace : p.Corresponds q cursor cursor')
    (hnext : p.Corresponds? q (p.advance? cursor) (q.advance? cursor')) {s s' : Statement}
    (hs : p.statement? cursor = some s) (hkept : Program.Kept s s')
    (hboth : Parallel p q cursor cursor' (fun a b => a = p.advance? cursor ∧ b = q.advance? cursor')
      (List.Forall₂ (Event.Agree listed)) session other) (hstate : session.state ≠ .trapped)
    (hok : (statement s).outcome session = (.ok ⟨⟩, after))
    (hwhole : ∀ counter first limit step, s = .command (.forLoop counter first limit step) →
      after.cursor ≠ p.advance? cursor → ∀ left close counters,
      p.Finds Statement.weighLoops 0 (p.advance? cursor) left close →
      p.statement? close = some (.command (.next counters)) → counters.length ≤ left + 1) :
    ∃ reached, (statement s').outcome other = (.ok ⟨⟩, reached) ∧ Onward listed after reached := by
  have hE := echoes_agree listed
  have hgoing : Parallel p q cursor cursor' (p.Corresponds? q) (List.Forall₂ (Event.Agree listed)) session other := by
    refine hboth.mono ?_
    rintro _ _ ⟨rfl, rfl⟩
    exact hnext
  have honward : ∀ reached,
      Parallel p q cursor cursor' (p.Corresponds? q) (List.Forall₂ (Event.Agree listed)) after reached →
        Onward listed after reached := fun reached hafter => ⟨p, q, cursor, cursor', h, hplace.line, hafter⟩
  cases hkept with
  | choice condition _ _ _ _ =>
      obtain ⟨_, reached, hreached, -, hafter⟩ :=
        (same_choose_parallel h.toWrittenOut hE hplace hs).run hgoing hok
      exact ⟨reached, hreached, honward reached hafter⟩
  | command c =>
      by_cases hnew : c = .new
      · subst hnew
        cases hok
        exact ⟨_, rfl, Onward.newProgram h.toWrittenOut hplace.line hboth⟩
      by_cases hresume : ∃ target, c = .resume target
      · obtain ⟨target, rfl⟩ := hresume
        have hfault := outcome_resume_of_not
          (fun htrapped : session.state = .trapped ∧ _ => hstate htrapped.1) target
        rw [show (statement (.command (.resume target))).outcome session = _ from hfault] at hok
        cases hok
      by_cases hfor : ∃ counter first limit step, c = .forLoop counter first limit step
      · obtain ⟨counter, first, limit, step, rfl⟩ := hfor
        obtain ⟨reached, hreached, hafter⟩ :=
          exists_forLoop h.toWrittenOut hE hnext hboth hok (hwhole counter first limit step rfl)
        exact ⟨reached, hreached, honward reached hafter⟩
      · have hlist : ∀ first last, c = .list first last → ∀ text other, p.list first last = .ok text →
            q.list first last = .ok other → ∀ told heard, List.Forall₂ (Event.Agree listed) told heard →
              List.Forall₂ (Event.Agree listed) (appendPrint text told) (appendPrint other heard) := by
          rintro first last rfl text other htext hother told heard hheard
          exact agree_appendPrint hheard (h.lists cursor first last text other hs htext hother)
        obtain ⟨_, reached, hreached, hafter⟩ :=
          follows_command_parallel h.toWrittenOut hE hplace hlist (fun counter first limit step heq =>
            hfor ⟨counter, first, limit, step, heq⟩) (fun target heq => hresume ⟨target, heq⟩) hnew hgoing hok
        exact ⟨reached, hreached, honward reached hafter⟩

/-- Both runs come to their end. -/
theorem exists_endOfProgram (h : p.Renders listed q) (hline : place'.line = place.line)
    (hboth : Parallel p q place place' (p.Corresponds? q) (List.Forall₂ (Event.Agree listed)) session other)
    (hstate : session.state ≠ .trapped) (hok : endOfProgram.outcome session = (.ok ⟨⟩, after)) :
    ∃ reached, endOfProgram.outcome other = (.ok ⟨⟩, reached) ∧ Onward listed after reached := by
  have hE := echoes_agree listed
  have hsame : other.state = session.state :=
    (lockstep_parallel h.toWrittenOut hE place place' (p.Corresponds? q)).reads hboth state fun _ _ => rfl
  have hend : ∀ session : Session, session.state ≠ .trapped →
      endOfProgram.outcome session = (.ok ⟨⟩, session.halt .idle) := by
    intro session hstate
    unfold endOfProgram
    rw [outcome_bind, outcome_get]
    dsimp only
    rw [if_neg hstate]
    rfl
  rw [hend session hstate] at hok
  cases hok
  exact ⟨_, hend other (hsame ▸ hstate), p, q, place, place', h, hline, hboth.halt h.toWrittenOut hE .idle .none⟩

/-- A NEXT that is written out is carried out by both sessions, or the second one has some of it ahead of it. -/
theorem exists_row (h : p.Renders listed q) {cursor cursor' : Cursor} (hplace : p.Corresponds q cursor cursor')
    {counters : List Name} {behind : Option Cursor} (hlong : 2 ≤ counters.length)
    (hrow : q.Row (some cursor') counters behind) (hnext : p.Corresponds? q (p.advance? cursor) behind)
    (hboth : Parallel p q cursor cursor' (fun a b => a = p.advance? cursor ∧ b = q.advance? cursor')
      (List.Forall₂ (Event.Agree listed)) session other) (htraced : other.traced = cursor'.line)
    (hruns : session.RunsOn) (hok : (command (.next counters)).outcome session = (.ok ⟨⟩, after)) :
    ∃ counter reached, q.statement? cursor' = some (.command (.next [counter])) ∧
      (command (.next [counter])).outcome other = (.ok ⟨⟩, reached) ∧
      (Onward listed after reached ∨ ∃ counters, Lagging listed counters after reached) := by
  cases hrow with
  | nil => exact absurd hlong (by decide)
  | @cons _ counter counters _ hs hinner hrest =>
      change (nextEach (counter :: counters)).outcome session = _ at hok
      have hstart : InRow p q cursor cursor' behind (q.advance? cursor') (fun _ _ => True) session other := by
        refine (hboth.withEvents (F := fun _ _ => True) trivial).mono ?_
        rintro _ _ ⟨rfl, rfl⟩
        exact ⟨hnext, rfl⟩
      have honlyNext : LoopsOnly session after := by
        have hkept := loopsOnly_nextEach (counter :: counters) session
        rwa [hok] at hkept
      obtain ⟨reached, hreached, honly, hlast⟩ := hstart.exists_next h.toWrittenOut echoes_true hok
      have hevents : List.Forall₂ (Event.Agree listed) after.events reached.events := by
        obtain ⟨_, _, _, rfl⟩ := honly
        obtain ⟨_, _, _, rfl⟩ := honlyNext
        exact hboth.events
      have htracedLast : reached.traced = cursor'.line := by
        obtain ⟨_, _, _, rfl⟩ := honly
        exact htraced
      exact ⟨counter, reached, hs, hreached,
        (onward_or_lagging h hplace.line hinner hrest htracedLast hevents rfl (honlyNext.runsOn hruns) hlast).imp_right
          fun hlag => ⟨_, hlag⟩⟩

/-- **A statement of the first session is one or several of the second one.** -/
theorem Onward.step (honward : Onward listed session other) (hok : SessionAct.step.outcome session = (.ok ⟨⟩, after))
    (hruns : session.RunsOn) (hstate : session.state ≠ .trapped) (hwhole : session.skipsWhole = true) :
    ∃ reached, SessionAct.step.outcome other = (.ok ⟨⟩, reached) ∧
      (Onward listed after reached ∨ ∃ counters, Lagging listed counters after reached) := by
  obtain ⟨p, q, place, place', h, hline, hboth⟩ := honward
  have hE := echoes_agree listed
  have hcursors := hboth.cursor
  generalize hcursor : session.cursor = here at hcursors
  generalize hcursor' : other.cursor = there at hcursors
  cases hcursors with
  | none =>
      have hnone : session.nextStatement? = none := by rw [nextStatement?, hcursor, Option.bind_none]
      have hnone' : other.nextStatement? = none := by rw [nextStatement?, hcursor', Option.bind_none]
      rw [outcome_step_of_none hnone] at hok
      obtain ⟨reached, hreached, hafter⟩ := exists_endOfProgram h hline (hboth.goOn .none) hstate hok
      exact ⟨reached, (outcome_step_of_none hnone').trans hreached, .inl hafter⟩
  | @some cursor cursor' hplace =>
      have hbegun := hboth.beginStatement h.toWrittenOut hE hplace
      have hbegunState : (beginStatement { session with cursor := none } cursor).state = session.state ∧
          (beginStatement { session with cursor := none } cursor).loading = session.loading := by
        unfold beginStatement
        split <;> exact ⟨rfl, rfl⟩
      obtain ⟨s, s', hs, hs', hkept, hnext⟩ | ⟨counters, behind, hs, hlong, hrow, hnext⟩ :=
        hplace.cases h.filled h.toUnrolls
      · have hthis : session.program.statement? cursor = some s := hboth.program ▸ hs
        have hthat : other.program.statement? cursor' = some s' := hboth.otherProgram ▸ hs'
        have hresult : session.stepOrRaise = after := by rw [stepOrRaise, hok]
        rw [outcome_step_of_some hcursor hthis] at hok
        rw [outcome_step_of_some hcursor' hthat]
        obtain ⟨reached, hreached, hafter⟩ := exists_statement h hplace hnext hs hkept hbegun
          (by rwa [hbegunState.1]) hok (by
            rintro counter first limit step rfl hskips left close counters hfinds hclose
            have hprogram := hboth.program
            refine few_of_skipsWhole (hprogram ▸ h.filled) hwhole hcursor hthis ?_ (hprogram ▸ hfinds)
              (hprogram ▸ hclose)
            rwa [hresult, hprogram])
        exact ⟨reached, hreached, .inl hafter⟩
      · have hthis : session.program.statement? cursor = some (.command (.next counters)) := hboth.program ▸ hs
        rw [outcome_command hcursor hthis] at hok
        have hbegunRuns : (beginStatement { session with cursor := none } cursor).RunsOn := by
          rwa [RunsOn, isRunning, hbegunState.1, hbegunState.2]
        obtain ⟨counter, reached, hfirst, hreached, hafter⟩ :=
          exists_row h hplace hlong hrow hnext hbegun rfl hbegunRuns hok
        have hthat : other.program.statement? cursor' = some (.command (.next [counter])) :=
          hboth.otherProgram ▸ hfirst
        exact ⟨reached, (outcome_command hcursor' hthat).trans hreached, hafter⟩

end Steps

section Loads

/-- Whether no fault is being handled or still to be told, and no break is to be obeyed. -/
def undisturbed (session : Session) : Bool :=
  session.state != .trapped && !session.keys.breakSeen && session.events.all fun event => !event.isFaults

theorem breakSeen_of_undisturbed (hwell : session.undisturbed = true) : session.keys.breakSeen = false := by
  unfold undisturbed at hwell
  simp only [Bool.and_eq_true, Bool.not_eq_true'] at hwell
  exact hwell.1.2

theorem state_of_undisturbed (hwell : session.undisturbed = true) : session.state ≠ .trapped := by
  intro htrapped
  unfold undisturbed at hwell
  rw [htrapped] at hwell
  cases hwell

theorem undisturbed_raise (session : Session) (fault : Fault) : (session.raise fault).undisturbed = false := by
  unfold Session.raise
  split
  · rfl
  · unfold undisturbed report
    simp [Event.isFaults]

/-- Sessions at rest that have the same to tell, with the same variables. -/
structure Finished (listed : String → String → Prop) (session other : Session) : Prop
    extends Over listed session other where
  work : other.work = session.work

theorem Onward.work (honward : Onward listed session other) : other.work = session.work := by
  obtain ⟨p, q, place, place', h, -, hboth⟩ := honward
  exact (lockstep_parallel h.toWrittenOut (echoes_agree listed) place place' (p.Corresponds? q)).work hboth

theorem Onward.reads {α : Type} (honward : Onward listed session other) (f : Session → α)
    (hf : ∀ session situation, f (session.moved situation) = f session) : f other = f session := by
  obtain ⟨p, q, place, place', h, -, hboth⟩ := honward
  exact (lockstep_parallel h.toWrittenOut (echoes_agree listed) place place' (p.Corresponds? q)).reads hboth f hf

theorem Onward.events (honward : Onward listed session other) :
    List.Forall₂ (Event.Agree listed) session.events other.events := by
  obtain ⟨p, q, place, place', -, -, hboth⟩ := honward
  exact hboth.events

theorem Onward.withEvents (honward : Onward listed session other) {events events' : List Event}
    (hevents : List.Forall₂ (Event.Agree listed) events events') :
    Onward listed { session with events } { other with events := events' } := by
  obtain ⟨p, q, place, place', h, hline, hboth⟩ := honward
  exact ⟨p, q, place, place', h, hline, hboth.withEvents hevents⟩

/-- Both sessions carry out statements of one program. -/
theorem Onward.of_same {program : Program} (hstored : program.Stored) (hline : place'.line = place.line)
    (hboth : Parallel program program place place' (program.Corresponds? program)
      (List.Forall₂ (Event.Agree listed)) session other) : Onward listed session other :=
  ⟨program, program, place, place', Program.renders_self listed hstored.ne_nil, hline, hboth⟩

theorem Onward.loadProgram (honward : Onward listed session other) {program : Program} (hstored : program.Stored)
    (andRun : Bool) : Onward listed (session.loadProgram program andRun) (other.loadProgram program andRun) := by
  obtain ⟨p, q, place, place', h, hline, hboth⟩ := honward
  have hE := echoes_agree listed
  have hcleared := hboth.clear h.toWrittenOut hE
  have hlockstep := lockstep_parallel h.toWrittenOut hE place place' (p.Corresponds? q)
  have hfirst := (Program.renders_self listed hstored.ne_nil).toWrittenOut.firstCursor?
  cases andRun with
  | true =>
      have hrunning := hlockstep.change hcleared (fun session => { session with state := .running }) fun _ _ => rfl
      exact .of_same hstored hline (hrunning.fresh hfirst)
  | false =>
      have hidle := hlockstep.change hcleared (fun session => { session with state := .idle, traced := none })
        fun _ _ => rfl
      exact .of_same hstored hline (hidle.fresh .none)

theorem Onward.mergeProgram (honward : Onward listed session other) (hloading : session.loading = none)
    (hwaiting : session.waiting = []) {program : Program} (hwell : (session.mergeProgram program).undisturbed = true) :
    Finished listed (session.mergeProgram program) (other.mergeProgram program) := by
  have hotherLoading : other.loading = none := (honward.reads Session.loading fun _ _ => rfl).trans hloading
  have hotherWaiting : other.waiting = [] := (honward.reads Session.waiting fun _ _ => rfl).trans hwaiting
  unfold Session.mergeProgram at hwell ⊢
  split
  · rename_i hguarded
    rw [if_pos hguarded, undisturbed_raise] at hwell
    cases hwell
  · exact
      { atRest := ⟨rfl, hloading, hwaiting⟩
        otherAtRest := ⟨rfl, hotherLoading, hotherWaiting⟩
        events := honward.events
        work := honward.work }

theorem Onward.chainProgram (honward : Onward listed session other) {program : Program} (hstored : program.Stored)
    {line : Option Nat} {all : Bool} (hwell : (session.chainProgram program line all).undisturbed = true) :
    Onward listed (session.chainProgram program line all) (other.chainProgram program line all) := by
  have hwork := honward.work
  obtain ⟨p, q, place, place', h, hline, hboth⟩ := honward
  have hlockstep := lockstep_parallel h.toWrittenOut (echoes_agree listed) place place' (p.Corresponds? q)
  have hself := (Program.renders_self listed hstored.ne_nil).toWrittenOut
  have hcommon : other.program.common = session.program.common := by
    rw [hboth.program, hboth.otherProgram, h.common]
  have hchained : ∀ memory cursor, program.Corresponds? program cursor cursor →
      Onward listed { session.chainedTo program memory with cursor }
        { other.chainedTo program memory with cursor } := by
    intro memory cursor hcursor
    have hkept := hlockstep.change hboth (fun base =>
      { base with
        work := { session.work with memory }
        data := none
        dataPosition := 0
        settings := base.settings.clearTrap
        state := .running }) fun _ _ => rfl
    have hgone := hkept.fresh hcursor
    unfold chainedTo
    rw [hwork]
    exact .of_same hstored hline hgone
  rw [chainProgram_eq] at hwell ⊢
  rw [chainProgram_eq, hcommon, hwork]
  cases line with
  | none => exact hchained _ _ hself.firstCursor?
  | some number =>
      dsimp only at hwell ⊢
      cases hstart : program.start number with
      | ok cursor => exact hchained _ _ (.some (hself.corresponds_start hstart))
      | error fault =>
          rw [hstart] at hwell
          dsimp only at hwell
          rw [undisturbed_raise] at hwell
          cases hwell

theorem Onward.takeIn (honward : Onward listed session other) {program : Program} (hstored : program.Stored)
    (hloading : session.loading = none) (hwaiting : session.waiting = []) {kind : LoadKind} :
    let taken (session : Session) : Session :=
      match kind with
      | .load andRun => session.loadProgram program andRun
      | .merge => session.mergeProgram program
      | .chain line all => session.chainProgram program line all
    (taken session).undisturbed = true →
      Onward listed (taken session) (taken other) ∨ Finished listed (taken session) (taken other) := by
  intro taken hwell
  cases kind with
  | load andRun => exact .inl (honward.loadProgram hstored andRun)
  | merge => exact .inr (honward.mergeProgram hloading hwaiting hwell)
  | chain line all => exact .inl (honward.chainProgram hstored hwell)

/-- **A file that both sessions have asked for is taken in by both.** -/
theorem Onward.completeLoad (honward : Onward listed session other) (hwaiting : session.waiting = [])
    {answer : Except Fault (List UInt8)} (hwell : (session.completeLoad answer).undisturbed = true) :
    Onward listed (session.completeLoad answer) (other.completeLoad answer) ∨
      Finished listed (session.completeLoad answer) (other.completeLoad answer) := by
  have hwaited : Onward listed { session with loading := none } { other with loading := none } := by
    obtain ⟨p, q, place, place', h, hline, hboth⟩ := honward
    exact ⟨p, q, place, place', h, hline,
      (lockstep_parallel h.toWrittenOut (echoes_agree listed) place place' (p.Corresponds? q)).change hboth
        (fun session => { session with loading := none }) fun _ _ => rfl⟩
  unfold Session.completeLoad at hwell ⊢
  rw [honward.reads Session.loading fun _ _ => rfl]
  cases hloading : session.loading with
  | none => exact .inl honward
  | some request =>
      rw [hloading] at hwell
      cases answer with
      | error fault =>
          dsimp only at hwell
          rw [undisturbed_raise] at hwell
          cases hwell
      | ok bytes =>
          have hstored := Program.stored_ofBytes bytes
          dsimp only at hwell ⊢
          cases hfaults : (Program.ofBytes bytes).2.isEmpty with
          | true =>
              rw [hfaults] at hwell
              exact hwaited.takeIn hstored rfl hwaiting hwell
          | false =>
              rw [hfaults] at hwell
              have hreported := hwaited.withEvents (List.rel_append honward.events
                (.cons (.same (.faults (Program.ofBytes bytes).2)) .nil))
              exact hreported.takeIn hstored rfl hwaiting hwell

end Loads

section Runs

/-- Two sessions since RUN was typed in, where neither lags behind. Before its first statement they still have the
loops that an earlier run has left open. -/
inductive Settled (listed : String → String → Prop) (p q : Program) : Session → Session → Prop
  | starting (base : Session) (hloading : base.loading = none) (hwaiting : base.waiting = []) :
      Settled listed p q ({ base with program := p }.startDirect runLine)
        ({ base with program := q }.startDirect runLine)
  | onward {session other : Session} (h : Onward listed session other) (hwaiting : session.waiting = []) :
      Settled listed p q session other
  | ended {session other : Session} (h : Finished listed session other) : Settled listed p q session other

/-- Two sessions since RUN was typed in. -/
inductive Alongside (listed : String → String → Prop) (p q : Program) : Session → Session → Prop
  | settled {session other : Session} (h : Settled listed p q session other) : Alongside listed p q session other
  | lagging {session other : Session} {counters : List Name} (h : Lagging listed counters session other)
      (hwaiting : session.waiting = []) : Alongside listed p q session other

/-- The second session is in the same state, waits for the same and has the same keys. -/
structure SameCourse (session other : Session) : Prop where
  isRunning : other.isRunning = session.isRunning
  loading : other.loading = session.loading
  waiting : other.waiting = session.waiting
  keys : other.keys = session.keys

theorem Onward.sameCourse (honward : Onward listed session other) : SameCourse session other where
  isRunning := honward.reads Session.isRunning fun _ _ => rfl
  loading := honward.reads Session.loading fun _ _ => rfl
  waiting := honward.reads Session.waiting fun _ _ => rfl
  keys := honward.reads Session.keys fun _ _ => rfl

theorem Lagging.events {counters : List Name} (hlag : Lagging listed counters session other) :
    List.Forall₂ (Event.Agree listed) session.events other.events := by
  cases hlag
  assumption

theorem Lagging.runsOn {counters : List Name} (hlag : Lagging listed counters session other) : session.RunsOn := by
  cases hlag
  assumption

theorem Lagging.withEvents {counters : List Name} (hlag : Lagging listed counters session other)
    {events events' : List Event} (hevents : List.Forall₂ (Event.Agree listed) events events') :
    Lagging listed counters { session with events } { other with events := events' } := by
  obtain ⟨h, hline, hrow, hahead, hsome, hcursor, htraced, hok, hafter, -, hruns⟩ := hlag
  rename_i p q place place' cursor behind middle final
  have hmiddle : InRow p q place place' behind (some cursor) (fun _ _ => True) middle
      { other with events := events' } :=
    hrow.withEvents trivial
  refine .intro h hline hmiddle hahead hsome hcursor htraced hok ?_ hevents hruns
  rw [hafter]

theorem Lagging.sameCourse {counters : List Name} (hlag : Lagging listed counters session other) :
    SameCourse session other := by
  obtain ⟨h, -, hrow, -, -, -, -, hok, hafter, -, -⟩ := hlag
  rename_i p q place place' cursor behind middle final
  have hkept := loopsOnly_nextEach counters middle
  rw [hok] at hkept
  obtain ⟨stack, work, next, rfl⟩ := hkept
  have hlockstep : Lockstep (InRow p q place place' behind (some cursor) fun _ _ => True) :=
    lockstep_parallel h.toWrittenOut echoes_true place place' _
  rw [hafter]
  exact
    { isRunning := hlockstep.reads hrow Session.isRunning fun _ _ => rfl
      loading := hlockstep.reads hrow Session.loading fun _ _ => rfl
      waiting := hlockstep.reads hrow Session.waiting fun _ _ => rfl
      keys := hlockstep.reads hrow Session.keys fun _ _ => rfl }

theorem Settled.sameCourse (h : Settled listed p q session other) :
    other.isRunning = session.isRunning ∧ other.loading = session.loading ∧ session.waiting = [] ∧
      other.waiting = [] := by
  cases h with
  | starting base _ hwaiting => exact ⟨rfl, rfl, hwaiting, hwaiting⟩
  | onward honward hwaiting =>
      have hsame := honward.sameCourse
      exact ⟨hsame.isRunning, hsame.loading, hwaiting, hsame.waiting.trans hwaiting⟩
  | ended hover =>
      exact ⟨hover.otherAtRest.isRunning.trans hover.atRest.isRunning.symm,
        hover.otherAtRest.loading.trans hover.atRest.loading.symm, hover.atRest.waiting, hover.otherAtRest.waiting⟩

theorem Settled.keys (h : Settled listed p q session other) (hrunning : session.isRunning = true) :
    other.keys = session.keys := by
  cases h with
  | starting base _ _ => rfl
  | onward honward _ => exact honward.sameCourse.keys
  | ended hover =>
      rw [hover.atRest.isRunning] at hrunning
      cases hrunning

theorem Settled.events (h : Settled listed p q session other) :
    List.Forall₂ (Event.Agree listed) session.events other.events := by
  cases h with
  | starting base _ _ => exact List.forall₂_same.mpr fun event _ => .same event
  | onward honward _ => exact honward.events
  | ended hover => exact hover.events

theorem Alongside.events (h : Alongside listed p q session other) :
    List.Forall₂ (Event.Agree listed) session.events other.events := by
  cases h with
  | settled h => exact h.events
  | lagging hlag _ => exact hlag.events

theorem Alongside.isRunning (h : Alongside listed p q session other) : other.isRunning = session.isRunning := by
  cases h with
  | settled h => exact h.sameCourse.1
  | lagging hlag _ => exact hlag.sameCourse.isRunning

theorem Alongside.waiting (h : Alongside listed p q session other) : session.waiting = [] ∧ other.waiting = [] := by
  cases h with
  | settled h => exact h.sameCourse.2.2
  | lagging hlag hwaiting => exact ⟨hwaiting, hlag.sameCourse.waiting.trans hwaiting⟩

/-- Where the first session is at rest, the second one is too, with the same variables. -/
theorem Alongside.work (h : Alongside listed p q session other) (hrest : session.isRunning = false) :
    other.isRunning = false ∧ other.work = session.work := by
  refine ⟨h.isRunning.trans hrest, ?_⟩
  cases h with
  | lagging hlag _ =>
      rw [hlag.runsOn.1] at hrest
      cases hrest
  | settled h =>
      cases h with
      | starting base _ _ => rfl
      | onward honward _ => exact honward.work
      | ended hover => exact hover.work

/-- The host takes the next event of each session. -/
theorem Alongside.pop (h : Alongside listed p q session other) {event found : Event} {rest others : List Event}
    (hsession : session.events = event :: rest) (hother : other.events = found :: others) :
    Event.Agree listed event found ∧
      Alongside listed p q { session with events := rest } { other with events := others } := by
  have hevents := h.events
  rw [hsession, hother] at hevents
  cases hevents with
  | cons hfirst hrest =>
      refine ⟨hfirst, ?_⟩
      cases h with
      | lagging hlag hwaiting => exact .lagging (hlag.withEvents hrest) hwaiting
      | settled h =>
          refine .settled ?_
          cases h with
          | starting base hloading hwaiting =>
              have hsame : others = rest := (List.cons.inj (hother.symm.trans hsession)).2
              rw [hsame]
              exact .starting { base with events := rest } hloading hwaiting
          | onward honward hwaiting => exact .onward (honward.withEvents hrest) hwaiting
          | ended hover =>
              exact .ended
                { atRest := ⟨hover.atRest.isRunning, hover.atRest.loading, hover.atRest.waiting⟩
                  otherAtRest := ⟨hover.otherAtRest.isRunning, hover.otherAtRest.loading, hover.otherAtRest.waiting⟩
                  events := hrest
                  work := hover.work }

theorem Alongside.completeLoad (h : Alongside listed p q session other) {answer : Except Fault (List UInt8)}
    (hwell : (session.completeLoad answer).undisturbed = true) :
    Alongside listed p q (session.completeLoad answer) (other.completeLoad answer) := by
  have hunasked : session.loading = none → other.loading = none →
      Alongside listed p q (session.completeLoad answer) (other.completeLoad answer) := by
    intro hnone hother
    unfold Session.completeLoad
    rw [hnone, hother]
    exact h
  cases h with
  | lagging hlag _ => exact hunasked hlag.runsOn.2 (hlag.sameCourse.loading.trans hlag.runsOn.2)
  | settled h =>
      cases h with
      | starting base hloading _ => exact hunasked hloading hloading
      | ended hover => exact hunasked hover.atRest.loading hover.otherAtRest.loading
      | onward honward hwaiting =>
          obtain hafter | hafter := honward.completeLoad hwaiting hwell
          · exact .settled (.onward hafter ((keepsPlace_completeLoad session answer).waiting.trans hwaiting))
          · exact .settled (.ended hafter)

/-- From its first statement on the sessions carry out statements of the two programs. -/
theorem onward_run (h : (p.insert runLine).Renders listed (q.insert runLine)) (base : Session) :
    Onward listed ({ base with program := p }.startDirect runLine).stepOrRaise
      ({ base with program := q }.startDirect runLine).stepOrRaise := by
  rw [stepOrRaise_run, stepOrRaise_run]
  refine ⟨p.insert runLine, q.insert runLine, .start none, .start none, h, rfl, ?_⟩
  have hempty : Stack.Rel (Frame.Placed (p.insert runLine) (q.insert runLine)) base.stack.clear base.stack.clear :=
    ⟨rfl, .nil⟩
  exact .intro ((base.startDirect runLine).clear.place none (.start none) none)
    (a := ⟨p.insert runLine, ∅, base.stack.clear, (p.insert runLine).firstCursor?, .start none, none, base.events⟩)
    (b := ⟨q.insert runLine, ∅, base.stack.clear, (q.insert runLine).firstCursor?, .start none, none, base.events⟩)
    { program := rfl
      otherProgram := rfl
      functions := rfl
      stack := hempty
      cursor := h.toWrittenOut.firstCursor?
      current := rfl
      otherCurrent := rfl
      restart := .none
      events := List.forall₂_same.mpr fun event _ => .same event }

/-- A session that goes on without a fault has carried out its statement. -/
theorem outcome_of_undisturbed (hwell : session.stepOrRaise.undisturbed = true) :
    SessionAct.step.outcome session = (.ok ⟨⟩, session.stepOrRaise) := by
  unfold stepOrRaise at hwell ⊢
  rcases houtcome : SessionAct.step.outcome session with ⟨fault | _, after⟩
  · rw [houtcome] at hwell
    dsimp only at hwell
    rw [undisturbed_raise] at hwell
    cases hwell
  · rfl

/-- What the session does next is told alike by both. -/
theorem Settled.stepOrRaise (hprograms : (p.insert runLine).Renders listed (q.insert runLine))
    (h : Settled listed p q session other) (hruns : session.RunsOn)
    (hwell : session.undisturbed = true) (hwhole : session.skipsWhole = true)
    (hnext : session.stepOrRaise.undisturbed = true) :
    Alongside listed p q session.stepOrRaise other.stepOrRaise := by
  have hwaiting : session.stepOrRaise.waiting = [] :=
    (keepsQueue_stepOrRaise session).waiting.trans h.sameCourse.2.2.1
  cases h with
  | starting base _ _ => exact .settled (.onward (onward_run hprograms base) hwaiting)
  | ended hover =>
      have hrunning := hruns.1
      rw [hover.atRest.isRunning] at hrunning
      cases hrunning
  | onward honward _ =>
      obtain ⟨reached, hreached, hafter⟩ :=
        honward.step (outcome_of_undisturbed hnext) hruns (state_of_undisturbed hwell) hwhole
      have hother : other.stepOrRaise = reached := by rw [Session.stepOrRaise, hreached]
      rw [hother]
      obtain hafter | ⟨counters, hlag⟩ := hafter
      · exact .settled (.onward hafter hwaiting)
      · exact .lagging hlag hwaiting

end Runs

section Calls

variable (files : String → Except Fault (List UInt8))

/-- What a host does next: it hears of the oldest event, hands in a file, or has the session take a turn. -/
def attended (session : Session) : Session :=
  match session.events, session.loading with
  | event :: rest, _ => answered files (event, { session with events := rest })
  | [], some request => session.completeLoad (files request.path)
  | [], none => session.turn?.getD session

/-- From the session on there is neither a fault nor a break, and no loop is skipped to a NEXT that goes on with
counters of further loops. -/
def GoesWell (session : Session) : Prop :=
  ∀ count, ((attended files)^[count] session).undisturbed = true ∧ ((attended files)^[count] session).skipsWhole = true

/-- The session after calls with these numbers of cycles. -/
def afterwards : List Nat → Session → Session
  | [], session => session
  | cycles :: rest, session => afterwards rest (answered files (execute cycles session))

/-- What a host takes note of in one run, and in place of it in the other. Where the first session is at rest, so is
the second one, with the same variables. -/
structure Told (listed : String → String → Prop) (told found : Event × Session) : Prop where
  event : Event.Agree listed told.1 found.1
  work : told.2.isRunning = false → found.2.isRunning = false ∧ found.2.work = told.2.work

variable {files}

theorem observed_concat (first rest : List Nat) (session : Session) :
    observed files (first ++ rest) session =
      observed files first session ++ observed files rest (afterwards files first session) := by
  induction first generalizing session with
  | nil => rfl
  | cons cycles first ih => rw [List.cons_append, observed, ih, observed, afterwards, List.append_assoc]

theorem afterwards_concat (first rest : List Nat) (session : Session) :
    afterwards files (first ++ rest) session = afterwards files rest (afterwards files first session) := by
  induction first generalizing session with
  | nil => rfl
  | cons cycles first ih => exact ih _

theorem GoesWell.later (h : GoesWell files session) (count : Nat) :
    GoesWell files ((attended files)^[count] session) := by
  intro more
  rw [← Function.iterate_add_apply]
  exact h (more + count)

/-- What a call of one cycle does are things that a host does. -/
theorem exists_attended (session : Session) :
    ∃ count, (attended files)^[count] session = answered files (execute 1 session) := by
  rw [execute_succ]
  cases hturn : session.turn? with
  | some next =>
      have hattended : attended files session = next := by
        obtain ⟨hevents, hloading⟩ := quiet_of_turn? hturn
        rw [attended, hevents, hloading, hturn, Option.getD_some]
      cases hevents : next.events with
      | cons event rest =>
          refine ⟨2, ?_⟩
          dsimp only
          rw [Function.iterate_succ_apply, Function.iterate_one, hattended, execute_of_events hevents, attended,
            hevents]
      | nil =>
          refine ⟨1, ?_⟩
          dsimp only
          rw [Function.iterate_one, hattended, execute_zero_of_quiet hevents]
          split <;> rfl
  | none =>
      refine ⟨1, ?_⟩
      rw [Function.iterate_one, attended, immediate, hturn]
      cases session.events with
      | cons event rest => rfl
      | nil => cases session.loading <;> rfl

variable (files) in
/-- Whether the session comes to rest within so many things that a host does, and goes well up to there. -/
def restsWell : Nat → Session → Bool
  | 0, _ => false
  | count + 1, session =>
      session.undisturbed && session.skipsWhole &&
        ((session.events.isEmpty && session.loading.isNone && session.turn?.isNone) ||
          restsWell count (attended files session))

/-- A session at rest stays as it is. -/
theorem attended_of_rest (hevents : session.events = []) (hloading : session.loading = none)
    (hturn : session.turn? = none) : attended files session = session := by
  rw [attended, hevents, hloading, hturn, Option.getD_none]

theorem goesWell_of_restsWell (count : Nat) (h : restsWell files count session = true) : GoesWell files session := by
  induction count generalizing session with
  | zero => cases h
  | succ count ih =>
      rw [restsWell, Bool.and_eq_true, Bool.and_eq_true, Bool.or_eq_true] at h
      obtain ⟨hgood, hrest | hlater⟩ := h
      · simp only [Bool.and_eq_true, List.isEmpty_iff, Option.isNone_iff_eq_none] at hrest
        intro more
        rw [Function.iterate_fixed (attended_of_rest hrest.1.1 hrest.1.2 hrest.2)]
        exact hgood
      · rintro (_ | more)
        · exact hgood
        · exact ih hlater more

theorem GoesWell.answered (hwell : GoesWell files session) :
    GoesWell files (Session.answered files (execute 1 session)) := by
  obtain ⟨count, hcount⟩ := @exists_attended files session
  exact hcount ▸ hwell.later count

theorem told_noted (told found : Event × Session) (hagree : Event.Agree listed told.1 found.1)
    (h : Alongside listed p q told.2 found.2) : List.Forall₂ (Told listed) (noted told) (noted found) := by
  have htold : Told listed told found := ⟨hagree, fun hrest => h.work hrest⟩
  obtain ⟨event, after⟩ := told
  obtain ⟨reported, reached⟩ := found
  obtain rfl | ⟨text, otherText, rfl, rfl⟩ := hagree.isPrint
  · cases event with
    | running => exact .nil
    | _ => exact .cons htold .nil
  · exact .cons htold .nil

/-- A call of one cycle in which a session without events or requests carries out a statement. -/
theorem execute_of_runsOn (hevents : session.events = []) (hruns : session.RunsOn) (hwaiting : session.waiting = [])
    (hbreak : session.keys.breakSeen = false) : execute 1 session = execute 0 session.stepOrRaise := by
  rw [execute_succ, turn?_of_calm hevents hruns.2 hwaiting, hruns.1, if_pos rfl, carriedOn, hbreak]
  rfl

/-- Where one session has nothing to tell, one that has the same to tell has nothing to tell either. -/
theorem quiet_of_agree (hevents : session.events = [])
    (hagree : List.Forall₂ (Event.Agree listed) session.events other.events) : other.events = [] := by
  rw [hevents] at hagree
  exact List.forall₂_nil_left_iff.mp hagree

/-- The second session catches up in calls of one cycle each, of which there is nothing to note. -/
theorem Lagging.catchUp {counters : List Name} (hlag : Lagging listed counters session other)
    (hevents : session.events = []) (hwaiting : session.waiting = []) (hbreak : session.keys.breakSeen = false) :
    ∃ count reached, observed files (List.replicate count 1) other = [] ∧
      afterwards files (List.replicate count 1) other = reached ∧ Onward listed session reached := by
  induction hlength : counters.length using Nat.strong_induction_on generalizing counters other with
  | _ length ih =>
      subst hlength
      have hsame := hlag.sameCourse
      have hotherEvents := quiet_of_agree hevents hlag.events
      have hotherRuns : other.RunsOn := ⟨hsame.isRunning.trans hlag.runsOn.1, hsame.loading.trans hlag.runsOn.2⟩
      obtain ⟨reached, fewer, hstep, hfewer, hafter⟩ := hlag.step
      have hcall : execute 1 other = execute 0 reached := by
        rw [execute_of_runsOn hotherEvents hotherRuns (hsame.waiting.trans hwaiting) (hsame.keys ▸ hbreak), stepOrRaise,
          hstep]
      -- Nothing is told of the statement, and the session goes on to run.
      have hquiet : reached.events = [] ∧ reached.isRunning = true := by
        obtain honward | hlater := hafter
        · exact ⟨quiet_of_agree hevents honward.events, honward.sameCourse.isRunning.trans hlag.runsOn.1⟩
        · exact ⟨quiet_of_agree hevents hlater.events, hlater.sameCourse.isRunning.trans hlag.runsOn.1⟩
      rw [execute_zero_of_calm hquiet.1 hquiet.2] at hcall
      obtain honward | hlater := hafter
      · refine ⟨1, reached, ?_, ?_, honward⟩
        · rw [List.replicate_one, observed, hcall]
          rfl
        · rw [List.replicate_one, afterwards, hcall]
          rfl
      · obtain ⟨count, last, hobserved, hlast, honward⟩ := ih fewer.length hfewer hlater rfl
        refine ⟨count + 1, last, ?_, ?_, honward⟩
        · rw [List.replicate_succ, observed, hcall]
          exact hobserved
        · rw [List.replicate_succ, afterwards, hcall]
          exact hlast

theorem Alongside.catchUp (h : Alongside listed p q session other) (hevents : session.events = [])
    (hwell : session.undisturbed = true) :
    ∃ count reached, observed files (List.replicate count 1) other = [] ∧
      afterwards files (List.replicate count 1) other = reached ∧ Settled listed p q session reached := by
  cases h with
  | settled h => exact ⟨0, other, rfl, rfl, h⟩
  | lagging hlag hwaiting =>
      obtain ⟨count, reached, hobserved, hafter, honward⟩ :=
        hlag.catchUp hevents hwaiting (breakSeen_of_undisturbed hwell)
      exact ⟨count, reached, hobserved, hafter, .onward honward hwaiting⟩

/-- The host hears of the oldest event of each session, and answers both alike. -/
theorem Alongside.hear (h : Alongside listed p q session other) {event found : Event} {rest others : List Event}
    (hsession : session.events = event :: rest) (hother : other.events = found :: others)
    (hwell : (answered files (event, { session with events := rest })).undisturbed = true) :
    List.Forall₂ (Told listed) (noted (event, { session with events := rest }))
        (noted (found, { other with events := others })) ∧
      Alongside listed p q (answered files (event, { session with events := rest }))
        (answered files (found, { other with events := others })) := by
  obtain ⟨hagree, hpopped⟩ := h.pop hsession hother
  refine ⟨told_noted _ _ hagree hpopped, ?_⟩
  obtain rfl | ⟨text, otherText, rfl, rfl⟩ := hagree.isPrint
  · cases event with
    | load request => exact hpopped.completeLoad hwell
    | _ => exact hpopped
  · exact hpopped

/-- The events of both sessions are all told, or there is one more to hear of in each. -/
theorem Alongside.events_cases (h : Alongside listed p q session other) :
    (session.events = [] ∧ other.events = []) ∨
      ∃ event rest found others, session.events = event :: rest ∧ other.events = found :: others := by
  have hevents := h.events
  generalize session.events = events at hevents ⊢
  generalize other.events = reported at hevents ⊢
  cases hevents with
  | nil => exact .inl ⟨rfl, rfl⟩
  | cons _ _ => exact .inr ⟨_, _, _, _, rfl, rfl⟩

/-- What is left of a call whose cycle has been used up. -/
theorem Alongside.endCall (h : Alongside listed p q session other) (hwell : GoesWell files session) :
    List.Forall₂ (Told listed) (noted (execute 0 session)) (noted (execute 0 other)) ∧
      Alongside listed p q (answered files (execute 0 session)) (answered files (execute 0 other)) := by
  obtain ⟨hnone, hother⟩ | ⟨event, rest, found, others, hsome, hother⟩ := h.events_cases
  · obtain ⟨hwaiting, hotherWaiting⟩ := h.waiting
    rw [execute_zero_of_quiet hnone, execute_zero_of_quiet hother, h.isRunning, hwaiting, hotherWaiting]
    split
    · exact ⟨.nil, h⟩
    · exact ⟨told_noted (.stopped, session) (.stopped, other) (.same _) h, h⟩
  · rw [execute_of_events hsome, execute_of_events hother]
    have hattended := (hwell 1).1
    rw [Function.iterate_one, attended, hsome] at hattended
    exact h.hear hsome hother hattended

/-- A call of one cycle does the same in both sessions, where neither lags behind nor has an event to tell. -/
theorem Settled.call (hprograms : (p.insert runLine).Renders listed (q.insert runLine))
    (h : Settled listed p q session other) (hevents : session.events = []) (hwell : GoesWell files session) :
    List.Forall₂ (Told listed) (noted (execute 1 session)) (noted (execute 1 other)) ∧
      Alongside listed p q (answered files (execute 1 session)) (answered files (execute 1 other)) := by
  have hboth : Alongside listed p q session other := .settled h
  obtain ⟨hrunning, hloading, hwaiting, hotherWaiting⟩ := h.sameCourse
  have hotherEvents := quiet_of_agree hevents h.events
  have hnext := hwell.later 1
  rw [Function.iterate_one] at hnext
  unfold attended at hnext
  rw [hevents] at hnext
  cases hasked : session.loading with
  | some request =>
      rw [hasked] at hnext hloading
      rw [execute_of_loading hevents hasked, execute_of_loading hotherEvents hloading]
      exact ⟨told_noted (.load request, session) (.load request, other) (.same _) hboth,
        hboth.completeLoad (hnext 0).1⟩
  | none =>
      rw [hasked] at hnext hloading
      dsimp only at hnext
      rw [turn?_of_calm hevents hasked hwaiting] at hnext
      cases hruns : session.isRunning with
      | false =>
          rw [hruns] at hrunning
          rw [execute_of_idle hevents hasked hruns hwaiting,
            execute_of_idle hotherEvents hloading hrunning hotherWaiting]
          exact ⟨told_noted (.stopped, session) (.stopped, other) (.same _) hboth, hboth⟩
      | true =>
          obtain ⟨hundisturbed, hwhole⟩ := hwell 0
          have hbreak : session.keys.breakSeen = false := breakSeen_of_undisturbed hundisturbed
          have hkeys := h.keys hruns
          rw [hruns, if_pos rfl, carriedOn, hbreak, if_neg Bool.false_ne_true, Option.getD_some] at hnext
          rw [execute_of_runsOn hevents ⟨hruns, hasked⟩ hwaiting hbreak,
            execute_of_runsOn hotherEvents ⟨hrunning.trans hruns, hloading⟩ hotherWaiting (hkeys ▸ hbreak)]
          exact (h.stepOrRaise hprograms ⟨hruns, hasked⟩ hundisturbed hwhole (hnext 0).1).endCall hnext

/-- **A call of one cycle is one or several calls of the second session**, of which the same is to be noted. -/
theorem Alongside.call (hprograms : (p.insert runLine).Renders listed (q.insert runLine))
    (h : Alongside listed p q session other) (hwell : GoesWell files session) :
    ∃ count, List.Forall₂ (Told listed) (noted (execute 1 session)) (observed files (List.replicate count 1) other) ∧
      Alongside listed p q (answered files (execute 1 session)) (afterwards files (List.replicate count 1) other) := by
  obtain ⟨hnone, hother⟩ | ⟨event, rest, found, others, hsome, hother⟩ := h.events_cases
  · obtain ⟨count, reached, hobserved, hafter, hsettled⟩ := h.catchUp hnone (hwell 0).1
    obtain ⟨htold, hboth⟩ := hsettled.call hprograms hnone hwell
    refine ⟨count + 1, ?_, ?_⟩
    · rw [List.replicate_add, observed_concat, hobserved, hafter, List.nil_append, List.replicate_one, observed,
        observed, List.append_nil]
      exact htold
    · rw [List.replicate_add, afterwards_concat, hafter]
      exact hboth
  · have hattended := (hwell 1).1
    rw [Function.iterate_one, attended, hsome] at hattended
    obtain ⟨htold, hboth⟩ := h.hear hsome hother hattended
    refine ⟨1, ?_, ?_⟩
    · rw [List.replicate_one, observed, observed, List.append_nil, execute_of_events hsome, execute_of_events hother]
      exact htold
    · rw [List.replicate_one, afterwards, afterwards, execute_of_events hsome, execute_of_events hother]
      exact hboth

/-- **The same is to be noted of both runs**, call by call. -/
theorem Alongside.calls (hprograms : (p.insert runLine).Renders listed (q.insert runLine))
    (h : Alongside listed p q session other) (hwell : GoesWell files session) (calls : Nat) :
    ∃ count, List.Forall₂ (Told listed) (observed files (List.replicate calls 1) session)
      (observed files (List.replicate count 1) other) := by
  induction calls generalizing session other with
  | zero => exact ⟨0, .nil⟩
  | succ calls ih =>
      obtain ⟨first, hfirst, hboth⟩ := h.call hprograms hwell
      obtain ⟨count, hrest⟩ := ih hboth hwell.answered
      refine ⟨first + count, ?_⟩
      rw [List.replicate_succ, observed, List.replicate_add, observed_concat]
      exact List.rel_append hfirst hrest

end Calls

end Session

namespace Program

variable {p q : Program}

/-- The line that runs the program is in front of both programs. -/
theorem renders_runLine (h : p.WrittenOut q) :
    (p.insert Session.runLine).Renders (Listings p q) (q.insert Session.runLine) where
  toUnrolls := h.toUnrolls.insert_direct (.refl _)
  filled := h.filled
  lists := by
    rintro ⟨line, path⟩ first last text other hs htext hother
    cases line with
    | none => cases statement?_runLine hs
    | some number => exact .inr ⟨⟨some number, path⟩, first, last, hs, htext, hother⟩

end Program

namespace Session

open Program

variable {p q : Program}

/-- The session in which a program has been put and RUN typed in. -/
def runOf (session : Session) (program : Program) : Session := ({ session with program }.enter "RUN").2

theorem runOf_new (program : Program) : runOf {} program = startDirect { program } runLine := by
  rw [runOf, enter_run _ rfl rfl]

/-- **NEXT with a list is one NEXT for each counter.** A host finds the same in a run of the program and in one of
the program in which some NEXT lists are written out, but for what a LIST shows of them: the same events, and the
same variables wherever the run has come to rest. This holds of runs without a fault or a break, in which no loop
that runs zero times is skipped to a NEXT that goes on with counters of further loops. -/
theorem written_out_runs_agree (h : p.WrittenOut q) (session : Session) (hidle : session.isBusy = false)
    (hauto : session.settings.auto = none) (files : String → Except Fault (List UInt8))
    (hwell : GoesWell files (session.runOf p)) {budgets : List Nat} (hbudgets : ∀ cycles ∈ budgets, 1 ≤ cycles) :
    ∃ count, ∀ others : List Nat, (∀ cycles ∈ others, 1 ≤ cycles) → count ≤ others.length →
      ∃ shown, shown <+: observed files others (session.runOf q) ∧
        List.Forall₂ (Told (p.Listings q)) (observed files budgets (session.runOf p)) shown ∧
        ((∀ cursor first last, p.statement? cursor ≠ some (.command (.list first last))) →
          (observed files budgets (session.runOf p)).map Prod.fst = shown.map Prod.fst) := by
  have henter : ∀ program : Program, session.runOf program = { session with program }.startDirect runLine :=
    fun program => congrArg Prod.snd (enter_run { session with program } hidle hauto)
  obtain ⟨hloading, hwaiting⟩ := calm_of_idle hidle
  have hboth : Alongside (p.Listings q) p q (session.runOf p) (session.runOf q) := by
    rw [henter p, henter q]
    exact .settled (.starting session hloading hwaiting)
  obtain ⟨calls, -, -, hones⟩ := showsAsOnes files hbudgets (session.runOf p)
  obtain ⟨count, htold⟩ := hboth.calls (renders_runLine h) hwell calls
  rw [← hones] at htold
  refine ⟨count, fun others hothers hcount => ⟨_, ?_, htold, fun hnone => ?_⟩⟩
  · obtain ⟨total, htotal, -, hshown⟩ := showsAsOnes files hothers (session.runOf q)
    rw [hshown]
    exact observed_of_le files (Nat.le_trans hcount htotal) _
  · rw [← List.forall₂_eq_eq_eq, List.forall₂_map_left_iff, List.forall₂_map_right_iff]
    refine htold.imp fun told found hfound => hfound.event.eq_of_unlisted ?_
    rintro text other ⟨cursor, first, last, hlist, -⟩
    exact hnone cursor first last hlist

theorem splits_pair (first second : Name) :
    Statement.Splits [.command (.next [first, second])] [.command (.next [first]), .command (.next [second])] :=
  .next (show 2 ≤ [first, second].length from Nat.le_refl 2) .nil

theorem writtenOut_empty : Program.empty.WrittenOut .empty :=
  ⟨.refl .empty, fun _ hnone => absurd hnone List.not_mem_nil⟩

/-- Two loops, one in the other, that run twice each, and behind them two of which the outer one does not run. -/
def loopPairs (first second : List Statement) : Program :=
  Program.empty
    |>.insert ⟨some 10, [.command (.forLoop ⟨"A"⟩ (.int 1) (.int 2) none)]⟩
    |>.insert ⟨some 20, [.command (.forLoop ⟨"B"⟩ (.int 1) (.int 2) none)]⟩
    |>.insert ⟨some 30, first⟩
    |>.insert ⟨some 40, [.command (.forLoop ⟨"C"⟩ (.int 1) (.int 0) none)]⟩
    |>.insert ⟨some 50, [.command (.forLoop ⟨"D"⟩ (.int 1) (.int 2) none)]⟩
    |>.insert ⟨some 60, second⟩
    |>.insert ⟨some 70, [.command (.print [.expr (.scalar ⟨"A"⟩)])]⟩

theorem written_out_runs_agree_loopPairs :
    let listed := loopPairs [.command (.next [⟨"B"⟩, ⟨"A"⟩])] [.command (.next [⟨"D"⟩, ⟨"C"⟩])]
    let written := loopPairs [.command (.next [⟨"B"⟩]), .command (.next [⟨"A"⟩])]
      [.command (.next [⟨"D"⟩]), .command (.next [⟨"C"⟩])]
    listed.WrittenOut written ∧ GoesWell (fun _ => .ok []) (runOf {} listed) ∧
      (observed (fun _ => .ok []) [60, 60] (runOf {} listed)).map Prod.fst = [.print " 3 \n", .stopped] ∧
      ∃ count, ∀ others : List Nat, (∀ cycles ∈ others, 1 ≤ cycles) → count ≤ others.length →
        ∃ shown, shown <+: observed (fun _ => .ok []) others (runOf {} written) ∧
          List.Forall₂ (Told (listed.Listings written)) (observed (fun _ => .ok []) [60, 60] (runOf {} listed))
            shown := by
  intro listed written
  have hwritten : listed.WrittenOut written :=
    writtenOut_empty
      |>.insert_same 10 (List.cons_ne_nil _ _)
      |>.insert_same 20 (List.cons_ne_nil _ _)
      |>.insert 30 (splits_pair ⟨"B"⟩ ⟨"A"⟩) (List.cons_ne_nil _ _)
      |>.insert_same 40 (List.cons_ne_nil _ _)
      |>.insert_same 50 (List.cons_ne_nil _ _)
      |>.insert 60 (splits_pair ⟨"D"⟩ ⟨"C"⟩) (List.cons_ne_nil _ _)
      |>.insert_same 70 (List.cons_ne_nil _ _)
  obtain ⟨hrests, htold⟩ : restsWell (fun _ => .ok []) 60 (runOf {} listed) = true ∧
      (observed (fun _ => .ok []) [60, 60] (runOf {} listed)).map Prod.fst = [.print " 3 \n", .stopped] := by
    rw [runOf_new]
    decide +kernel
  have hwell : GoesWell (fun _ => .ok []) (runOf {} listed) := goesWell_of_restsWell 60 hrests
  refine ⟨hwritten, hwell, htold, ?_⟩
  obtain ⟨count, hcount⟩ := written_out_runs_agree hwritten {} rfl rfl (fun _ => .ok []) hwell
    (show ∀ cycles ∈ [60, 60], 1 ≤ cycles by decide)
  refine ⟨count, fun others hothers hlength => ?_⟩
  obtain ⟨shown, hshown, htold, -⟩ := hcount others hothers hlength
  exact ⟨shown, hshown, htold⟩

/-- A loop that does not run, in one that runs twice. -/
def loopAroundNone (close : List Statement) : Program :=
  Program.empty
    |>.insert ⟨some 10, [.command (.forLoop ⟨"A"⟩ (.int 1) (.int 2) none)]⟩
    |>.insert ⟨some 20, [.command (.forLoop ⟨"B"⟩ (.int 1) (.int 0) none)]⟩
    |>.insert ⟨some 30, close⟩
    |>.insert ⟨some 40, [.command (.print [.expr (.scalar ⟨"A"⟩)])]⟩

/-- A loop that does not run is skipped to behind the whole NEXT, so the loop around it runs only once. -/
theorem written_out_loop_differs :
    let listed := loopAroundNone [.command (.next [⟨"B"⟩, ⟨"A"⟩])]
    let written := loopAroundNone [.command (.next [⟨"B"⟩]), .command (.next [⟨"A"⟩])]
    listed.WrittenOut written ∧
      heardOfRun (fun _ => .ok []) [60, 60] {} listed = [.print " 1 \n", .stopped] ∧
      heardOfRun (fun _ => .ok []) [60, 60] {} written = [.print " 3 \n", .stopped] := by
  intro listed written
  have hwritten : listed.WrittenOut written :=
    writtenOut_empty
      |>.insert_same 10 (List.cons_ne_nil _ _)
      |>.insert_same 20 (List.cons_ne_nil _ _)
      |>.insert 30 (splits_pair ⟨"B"⟩ ⟨"A"⟩) (List.cons_ne_nil _ _)
      |>.insert_same 40 (List.cons_ne_nil _ _)
  exact ⟨hwritten, by rw [heardOfRun_new]; decide +kernel, by rw [heardOfRun_new]; decide +kernel⟩

end Session

end LineBasic
