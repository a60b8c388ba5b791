import LineBasic.Proofs.Course
import LineBasic.Proofs.OpenLoops

/-! Ends of loops that are not entered. A WHILE whose condition is false and a FOR that runs no times go on behind
the statement that closes them: of the statements that follow one another from there on, the first ones that close
more loops of the kind than they open end with it. The scans count the loops that are open. The count is never more
than what was opened less what was closed, and never less, so that nothing is taken from a count that is too small. -/

namespace LineBasic

namespace Program

variable {program : Program} {count : Statement → Nat}

/-- How often something is counted in the statement under a cursor. -/
def numberAt (program : Program) (count : Statement → Nat) (cursor : Cursor) : Nat :=
  (program.statement? cursor).elim 0 count

/-- How often something is counted in the statements under cursors. -/
def total (program : Program) (count : Statement → Nat) (walk : List Cursor) : Nat :=
  (walk.map (program.numberAt count)).sum

theorem numberAt_of_some {cursor : Cursor} {s : Statement} (hs : program.statement? cursor = some s) :
    program.numberAt count cursor = count s := by
  rw [numberAt, hs, Option.elim_some]

theorem total_nil : program.total count [] = 0 := rfl

theorem total_cons (cursor : Cursor) (walk : List Cursor) :
    program.total count (cursor :: walk) = program.numberAt count cursor + program.total count walk := List.sum_cons

theorem total_concat (walk : List Cursor) (cursor : Cursor) :
    program.total count (walk ++ [cursor]) = program.total count walk + program.numberAt count cursor := by
  simp [total]

end Program

/-- A kind of loop: how many loops of the kind a statement opens, and how many it closes. -/
structure LoopKind where
  opens : Statement → Nat
  closes : Statement → Nat
  /-- No statement does both, so that it does not matter which one is counted first. -/
  apart : ∀ s, opens s = 0 ∨ closes s = 0

namespace LoopKind

/-- Loops from WHILE to WEND. -/
def whiles : LoopKind where
  opens
    | .command (.whileLoop _) => 1
    | _ => 0
  closes
    | .command .wend => 1
    | _ => 0
  apart s := by
    cases s with
    | choice _ _ _ => exact .inl rfl
    | command c => cases c <;> first | exact .inl rfl | exact .inr rfl

/-- Loops from FOR to NEXT, which closes a loop for each of its counters. -/
def fors : LoopKind where
  opens
    | .command (.forLoop _ _ _ _) => 1
    | _ => 0
  closes
    | .command (.next counters) => max counters.length 1
    | _ => 0
  apart s := by
    cases s with
    | choice _ _ _ => exact .inl rfl
    | command c => cases c <;> first | exact .inl rfl | exact .inr rfl

variable (kind : LoopKind) (program : Program)

/-- What a statement does to a count of open loops: none where it closes more loops than are open. -/
def weigh (opened : Nat) (s : Statement) : Option Nat :=
  if opened < kind.closes s then none else some (opened - kind.closes s + kind.opens s)

/-- The statements under cursors close more loops than they open. -/
def Overcloses (walk : List Cursor) : Prop := program.total kind.opens walk < program.total kind.closes walk

/-- The shortest front of a walk that closes more loops than it opens ends with the statement under this cursor. -/
def EndsAt (walk : List Cursor) (close : Cursor) : Prop :=
  ∃ passed rest, walk = passed ++ close :: rest ∧ kind.Overcloses program (passed ++ [close]) ∧
    ∀ front, front <+: passed → ¬kind.Overcloses program front

theorem weigh_whiles : whiles.weigh = Statement.weighWhiles := by
  funext opened s
  cases s with
  | choice _ _ _ => rfl
  | command c =>
      cases c with
      | wend => cases opened <;> rfl
      | _ => rfl

theorem weigh_fors : fors.weigh = Statement.weighLoops := by
  funext opened s
  cases s with
  | choice _ _ _ => rfl
  | command c => cases c <;> rfl

variable {kind program} {walk passed rest : List Cursor} {start : Option Cursor} {close : Cursor}
  {span count : Nat}

theorem apartAt (kind : LoopKind) (program : Program) (cursor : Cursor) :
    program.numberAt kind.opens cursor = 0 ∨ program.numberAt kind.closes cursor = 0 := by
  cases hs : program.statement? cursor with
  | none => exact .inl (by rw [Program.numberAt, hs, Option.elim_none])
  | some s =>
      rw [Program.numberAt_of_some hs, Program.numberAt_of_some hs]
      exact kind.apart s

theorem closes_le_of_not_overcloses (h : ¬kind.Overcloses program walk) :
    program.total kind.closes walk ≤ 0 + program.total kind.opens walk :=
  Nat.zero_add _ ▸ Nat.not_lt.mp h

/-- Where a front of a walk closes more loops than it opens, the shortest one ends somewhere. -/
theorem exists_endsAt (h : ∃ front, front <+: walk ∧ kind.Overcloses program front) :
    ∃ close, kind.EndsAt program walk close := by
  induction walk using List.reverseRecOn with
  | nil =>
      obtain ⟨front, hfront, hover⟩ := h
      rw [List.prefix_nil.mp hfront] at hover
      exact absurd hover (Nat.lt_irrefl 0)
  | append_singleton walk last ih =>
      by_cases hbefore : ∃ front, front <+: walk ∧ kind.Overcloses program front
      · obtain ⟨close, passed, rest, rfl, hends⟩ := ih hbefore
        exact ⟨close, passed, rest ++ [last], by simp, hends⟩
      · obtain ⟨front, hfront, hover⟩ := h
        rcases List.prefix_concat_iff.mp hfront with rfl | hfront
        · exact ⟨last, walk, [], rfl, hover, fun front hfront hover => hbefore ⟨front, hfront, hover⟩⟩
        · exact absurd ⟨front, hfront, hover⟩ hbefore

section Search

open Program

theorem search_some (span count : Nat) (cursor : Cursor) :
    program.search kind.weigh (span + 1) count (some cursor) =
      if count < program.numberAt kind.closes cursor then some (count, cursor)
      else program.search kind.weigh span
        (count - program.numberAt kind.closes cursor + program.numberAt kind.opens cursor)
        (program.advance? cursor) := by
  rw [search]
  cases hs : program.statement? cursor with
  | none =>
      rw [numberAt, numberAt, hs]
      rfl
  | some s =>
      rw [numberAt_of_some hs, numberAt_of_some hs]
      dsimp only
      by_cases hover : count < kind.closes s
      · rw [weigh, if_pos hover, if_pos hover]
      · rw [weigh, if_neg hover, if_neg hover]

theorem search_none (span count : Nat) : program.search kind.weigh span count none = none := by
  cases span <;> rfl

/-- As long as no more loops are closed than are open, a search goes on, and counts those that are open. -/
theorem search_passed (h : program.Visits start (passed ++ rest))
    (hopen : ∀ front, front <+: passed → program.total kind.closes front ≤ count + program.total kind.opens front)
    (hspan : passed.length ≤ span) :
    program.search kind.weigh span count start =
      program.search kind.weigh (span - passed.length)
        (count + program.total kind.opens passed - program.total kind.closes passed) rest.head? := by
  induction passed generalizing start span count with
  | nil => cases h <;> rfl
  | cons cursor passed ih =>
      cases h with
      | visit hrest =>
          rw [List.length_cons] at hspan
          obtain ⟨span, rfl⟩ := Nat.exists_eq_add_of_le' (Nat.le_trans (Nat.le_add_left 1 _) hspan)
          have hroom : program.numberAt kind.closes cursor ≤ count := by
            have hfirst := hopen [cursor] ⟨passed, rfl⟩
            rw [total_cons, total_cons, total_nil, total_nil] at hfirst
            rcases kind.apartAt program cursor with hnone | hnone <;> omega
          rw [search_some, if_neg (Nat.not_lt.mpr hroom),
            ih hrest (fun front hfront => ?_) (Nat.le_of_succ_le_succ hspan), total_cons, total_cons,
            List.length_cons, Nat.add_sub_add_right]
          · congr 1
            omega
          · have hlonger := hopen (cursor :: front) (List.cons_prefix_cons.mpr ⟨rfl, hfront⟩)
            rw [total_cons, total_cons] at hlonger
            omega

/-- The shortest front that closes more loops than it opens ends with the statement that a search finds. -/
theorem search_of_endsAt (h : program.Visits start walk) (hspan : walk.length ≤ span)
    (hends : kind.EndsAt program walk close) :
    (program.search kind.weigh span 0 start).map Prod.snd = some close := by
  obtain ⟨passed, rest, rfl, hover, hopen⟩ := hends
  rw [List.length_append, List.length_cons] at hspan
  have hfew : 0 + program.total kind.opens passed - program.total kind.closes passed <
      program.numberAt kind.closes close := by
    have hpassed := closes_le_of_not_overcloses (hopen passed List.prefix_rfl)
    rw [Overcloses, total_concat, total_concat] at hover
    omega
  rw [search_passed h (fun front hfront => closes_le_of_not_overcloses (hopen front hfront)) (by omega),
    List.head?_cons, show span - passed.length = (span - passed.length - 1) + 1 by omega, search_some, if_pos hfew]
  rfl

/-- Where no front closes more loops than it opens, a search finds nothing. -/
theorem search_of_not_overcloses (h : program.Visits start walk) (hspan : walk.length ≤ span)
    (hopen : ∀ front, front <+: walk → ¬kind.Overcloses program front) :
    (program.search kind.weigh span 0 start).map Prod.snd = none := by
  rw [← List.append_nil walk] at h
  rw [search_passed h (fun front hfront => closes_le_of_not_overcloses (hopen front hfront)) hspan, List.head?_nil,
    search_none, Option.map_none]

end Search

end LoopKind

namespace Program

open LoopKind

variable {program : Program} {start : Option Cursor} {walk passed rest : List Cursor}

/-- A walk has no more statements than are ahead of its start. -/
theorem Visits.length_le_ahead (hfilled : ∀ entry ∈ program.lines.entries, entry.2 ≠ [])
    (h : program.Visits start walk) :
    ∀ cursor ∈ start, (program.statement? cursor).isSome → walk.length ≤ program.ahead cursor + 1 := by
  induction h with
  | done => exact nofun
  | @visit cursor rest hrest ih =>
      rintro _ ⟨⟩ hs
      rw [List.length_cons]
      refine Nat.succ_le_succ ?_
      cases hnext : program.advance? cursor with
      | none =>
          rw [hnext] at hrest
          cases hrest
          exact Nat.zero_le _
      | some next =>
          obtain ⟨hthere, hless⟩ := ahead_advance? hfilled hs hnext
          exact Nat.le_trans (ih next hnext hthere) hless

/-- A search has steps for a whole walk that goes on behind a cursor. -/
theorem exists_visits_of_span (hfilled : ∀ entry ∈ program.lines.entries, entry.2 ≠ []) (place : Cursor) :
    ∃ walk, program.Visits (program.advance? place) walk ∧ walk.length ≤ program.span := by
  obtain ⟨walk, hwalk⟩ := exists_visits hfilled place
  refine ⟨walk, hwalk, ?_⟩
  cases hnext : program.advance? place with
  | none =>
      rw [hnext] at hwalk
      cases hwalk
      exact Nat.zero_le _
  | some next =>
      have hthere := (before_of_advance? hfilled hnext).1
      exact Nat.le_trans (hwalk.length_le_ahead hfilled next hnext hthere) (ahead_lt_span hthere)

/-- As far as the scan of a FOR goes, its count is what was opened less what was closed. -/
theorem closingNext?_passed {span : Nat} (h : program.Visits start (passed ++ rest)) (hspan : passed.length ≤ span)
    (hopen : ∀ front, front <+: passed → ¬fors.Overcloses program front) :
    ∃ count : Nat, (count : Int) = program.total fors.opens passed - program.total fors.closes passed ∧
      program.closingNext? span 0 start = program.closingNext? (span - passed.length) count rest.head? := by
  have hcount : program.total fors.closes passed ≤ program.total fors.opens passed :=
    Nat.not_lt.mp (hopen passed List.prefix_rfl)
  refine ⟨program.total fors.opens passed - program.total fors.closes passed, Int.ofNat_sub hcount, ?_⟩
  rw [closingNext?_eq_search, closingNext?_eq_search, ← weigh_fors,
    search_passed h (fun front hfront => closes_le_of_not_overcloses (hopen front hfront)) hspan, Nat.zero_add]

end Program

namespace Session

open Act SessionAct LoopKind

variable {session : Session} {condition : Expr}

/-- A condition that turns out false is evaluated in the workspace alone, and leaves all variables alone. -/
theorem exists_test_of_false (hreach : session.Reachable)
    (hfalse : ((Structured.test condition).outcome session.begun).1 = .ok false) :
    ∃ work, (Structured.test condition).outcome session.begun = (.ok false, { session.begun with work }) ∧
      Memory.SameValues session.begun.work.memory work.memory ∧ work.depth = session.begun.work.depth := by
  have hsound : session.begun.Sound := hreach.ready.begun.toSound
  obtain ⟨value, middle, heval, htrue⟩ := exists_of_bind_ok hfalse
  obtain ⟨work, hwork, -, hsame⟩ := hsound.exists_eval (congrArg Prod.fst heval)
  refine ⟨work, ?_, hsame, ?_⟩
  · unfold Structured.test
    rw [outcome_bind, hwork]
    exact congrArg (·, _) htrue
  · have hlast : work = ((Workspace.eval session.begun.scope condition).outcome session.begun.work).2 :=
      (congrArg (fun ended => ended.2.work) hwork).symm
    rw [hlast]
    exact Workspace.sameDepth_eval session.begun.scope condition session.begun.work

/-- What a WHILE does whose condition has turned out false. -/
theorem outcome_step_of_false {work : Workspace}
    (hnext : session.nextStatement? = some (.command (.whileLoop condition)))
    (htest : (Structured.test condition).outcome session.begun = (.ok false, { session.begun with work })) :
    step.outcome session =
      match (session.begun.program.search whiles.weigh session.begun.program.span 0
        session.begun.cursor).map Prod.snd with
      | some close => (.ok ⟨⟩, { session.begun with work, cursor := session.begun.program.advance? close })
      | none => (.error (.of .whileWithoutWend), { session.begun with work }) := by
  have hloop := outcome_whileLoop condition session.begun
  rw [htest] at hloop
  rw [outcome_step hnext, weigh_whiles, ← Program.closingWend?_eq_search]
  exact hloop

/-- **Loops that are not entered go on behind their own end.** The statements that follow one another from behind a
WHILE, or from where a FOR stands, are a finite walk. A WHILE whose condition is false goes on right behind the
statement at which the first of them close one loop more than they open. Nothing changes but the cursor, and what
evaluating the condition has changed in the workspace; that leaves the values of all variables and elements alone.
Where there is no such statement WHILE fails, and the cursor stays behind it. So it is with the scan of a FOR, where
NEXT may close several loops: as far as it goes, the loops that it counts are those that were opened less those that
were closed, so that the count is never below zero, and it comes to an end in every program. -/
theorem skipped_loops_end :
    (∀ (session : Session) (place : Cursor) (condition : Expr), session.Reachable → session.cursor = some place →
      session.nextStatement? = some (.command (.whileLoop condition)) →
      ((Structured.test condition).outcome session.begun).1 = .ok false →
      ∃ work walk, (Structured.test condition).outcome session.begun = (.ok false, { session.begun with work }) ∧
        Memory.SameValues session.work.memory work.memory ∧ work.depth = session.work.depth ∧
        session.begun.cursor = session.program.advance? place ∧ session.begun.stack = session.stack ∧
        session.program.Visits (session.program.advance? place) walk ∧
        ((∃ front, front <+: walk ∧ whiles.Overcloses session.program front) →
          ∃ close, whiles.EndsAt session.program walk close ∧
            step.outcome session =
              (.ok ⟨⟩, { session.begun with work, cursor := session.program.advance? close })) ∧
        ((∀ front, front <+: walk → ¬whiles.Overcloses session.program front) →
          step.outcome session = (.error (.of .whileWithoutWend), { session.begun with work }))) ∧
    ∀ (session : Session) (place : Cursor), session.program.Built →
      session.cursor = session.program.advance? place →
      ∃ walk, session.program.Visits session.cursor walk ∧ walk.length ≤ session.program.span ∧
        ((∃ front, front <+: walk ∧ fors.Overcloses session.program front) →
          ∃ close, fors.EndsAt session.program walk close ∧
            skipLoop.outcome session = (.ok ⟨⟩, { session with cursor := session.program.advance? close })) ∧
        ((∀ front, front <+: walk → ¬fors.Overcloses session.program front) →
          skipLoop.outcome session = (.error (.of .forWithoutNext), session)) ∧
        ∀ passed rest, walk = passed ++ rest →
          (∀ front, front <+: passed → ¬fors.Overcloses session.program front) →
          ∃ count : Nat,
            (count : Int) = session.program.total fors.opens passed - session.program.total fors.closes passed ∧
            session.program.closingNext? session.program.span 0 session.cursor =
              session.program.closingNext? (session.program.span - passed.length) count rest.head? := by
  refine ⟨fun session place condition hreach hcursor hnext hfalse => ?_, fun session place hbuilt hcursor => ?_⟩
  · obtain ⟨work, htest, hsame, hdepth⟩ := exists_test_of_false hreach hfalse
    obtain ⟨hbehind, hbefore, hstack⟩ := begun_behind hcursor hnext
    rw [hbefore] at hsame hdepth
    have hstep := outcome_step_of_false hnext htest
    obtain ⟨walk, hwalk, hspan⟩ := Program.exists_visits_of_span hreach.furnished.program.wellFormed.nonempty place
    refine ⟨work, walk, htest, hsame, hdepth, hbehind, hstack, hwalk, fun hover => ?_, fun hopen => ?_⟩
    · obtain ⟨close, hends⟩ := exists_endsAt hover
      have hclose := search_of_endsAt hwalk hspan hends
      refine ⟨close, hends, ?_⟩
      rw [← hbehind, ← program_begun] at hclose
      rw [hstep, hclose]
      simp only [program_begun]
    · have hclose := search_of_not_overcloses hwalk hspan hopen
      rw [← hbehind, ← program_begun] at hclose
      rw [hstep, hclose]
  · obtain ⟨walk, hwalk, hspan⟩ := Program.exists_visits_of_span hbuilt.wellFormed.nonempty place
    rw [← hcursor] at hwalk
    have hskip := outcome_skipLoop session
    rw [Program.closingNext?_eq_search, ← weigh_fors] at hskip
    refine ⟨walk, hwalk, hspan, fun hover => ?_, fun hopen => ?_, fun passed rest hsplit hopen => ?_⟩
    · obtain ⟨close, hends⟩ := exists_endsAt hover
      exact ⟨close, hends, by rw [hskip, search_of_endsAt hwalk hspan hends]⟩
    · rw [hskip, search_of_not_overcloses hwalk hspan hopen]
    · subst hsplit
      rw [List.length_append] at hspan
      exact Program.closingNext?_passed hwalk (Nat.le_trans (Nat.le_add_right _ _) hspan) hopen

/-- A session that is about to carry out a WHILE in a branch, with a loop inside it and its WEND on the next line. -/
def beforeInnerWhile : Session :=
  afterCalls [.enter "10 IF 1 THEN WHILE 0:WHILE 1:WEND ELSE WEND", .enter "20 WEND:END", .enter "RUN", .execute 2]

/-- A session that is about to carry out a FOR that runs no times, around loops that one NEXT closes. -/
def beforeOuterFor : Session :=
  afterCalls [.enter "10 FOR I=1 TO 0:FOR J=1 TO 2:FOR K=1 TO 2:NEXT K,J:NEXT I:END", .enter "RUN", .execute 1]

theorem skipped_loops_end_nested :
    beforeInnerWhile.Reachable ∧ beforeInnerWhile.cursor = some ⟨some 10, [0, 0, 0]⟩ ∧
      beforeInnerWhile.nextStatement? = some (.command (.whileLoop (.int 0))) ∧
      ((Structured.test (.int 0)).outcome beforeInnerWhile.begun).1 = .ok false ∧
      (∃ walk close,
        beforeInnerWhile.program.Visits (beforeInnerWhile.program.advance? ⟨some 10, [0, 0, 0]⟩) walk ∧
        whiles.EndsAt beforeInnerWhile.program walk close ∧
        beforeInnerWhile.program.advance? close = some ⟨some 20, [1]⟩) ∧
      beforeOuterFor.begun.program.Built ∧
      beforeOuterFor.begun.cursor = beforeOuterFor.begun.program.advance? ⟨some 10, [0]⟩ ∧
      ∃ walk close, beforeOuterFor.begun.program.Visits beforeOuterFor.begun.cursor walk ∧
        fors.EndsAt beforeOuterFor.begun.program walk close ∧
        beforeOuterFor.begun.program.advance? close = some ⟨some 10, [5]⟩ := by
  have hreach : beforeInnerWhile.Reachable := reachable_afterCalls _
  obtain ⟨hcursor, hnext, hfalse, hok, hafter⟩ : beforeInnerWhile.cursor = some ⟨some 10, [0, 0, 0]⟩ ∧
      beforeInnerWhile.nextStatement? = some (.command (.whileLoop (.int 0))) ∧
      ((Structured.test (.int 0)).outcome beforeInnerWhile.begun).1 = .ok false ∧
      (step.outcome beforeInnerWhile).1 = .ok ⟨⟩ ∧
      (step.outcome beforeInnerWhile).2.cursor = some ⟨some 20, [1]⟩ := by
    rw [beforeInnerWhile, afterCalls_eq]
    decide +kernel
  have hbuilt : beforeOuterFor.begun.program.Built := by
    rw [program_begun]
    exact (reachable_afterCalls _).furnished.program
  obtain ⟨hstart, hskips, hbehind⟩ :
      beforeOuterFor.begun.cursor = beforeOuterFor.begun.program.advance? ⟨some 10, [0]⟩ ∧
      (skipLoop.outcome beforeOuterFor.begun).1 = .ok ⟨⟩ ∧
      (skipLoop.outcome beforeOuterFor.begun).2.cursor = some ⟨some 10, [5]⟩ := by
    rw [beforeOuterFor, afterCalls_eq]
    decide +kernel
  obtain ⟨hwhiles, hfors⟩ := skipped_loops_end
  refine ⟨hreach, hcursor, hnext, hfalse, ?_, hbuilt, hstart, ?_⟩
  · obtain ⟨work, walk, -, -, -, -, -, hwalk, hfound, hmissing⟩ := hwhiles _ _ _ hreach hcursor hnext hfalse
    by_cases hover : ∃ front, front <+: walk ∧ whiles.Overcloses beforeInnerWhile.program front
    · obtain ⟨close, hends, hstep⟩ := hfound hover
      rw [hstep] at hafter
      exact ⟨walk, close, hwalk, hends, hafter⟩
    · rw [hmissing fun front hfront hcloses => hover ⟨front, hfront, hcloses⟩] at hok
      cases hok
  · obtain ⟨walk, hwalk, -, hfound, hmissing, -⟩ := hfors _ _ hbuilt hstart
    by_cases hover : ∃ front, front <+: walk ∧ fors.Overcloses beforeOuterFor.begun.program front
    · obtain ⟨close, hends, hskip⟩ := hfound hover
      rw [hskip] at hbehind
      exact ⟨walk, close, hwalk, hends, hbehind⟩
    · rw [hmissing fun front hfront hcloses => hover ⟨front, hfront, hcloses⟩] at hskips
      cases hskips

/-- A session that is about to carry out a WHILE whose condition reads an array that was not declared. -/
def beforeArrayWhile : Session :=
  afterCalls [.enter "10 WHILE A(5)", .enter "20 WEND", .enter "30 DIM A(20)", .enter "RUN", .execute 1]

/-- Evaluating a condition may change more than a cursor: an array gets its dimensions when it is first read. So a
later DIM fails, where it would succeed if WHILE had moved the cursor and nothing else. -/
theorem false_while_gives_dimensions :
    beforeArrayWhile.Reachable ∧
      beforeArrayWhile.nextStatement? = some (.command (.whileLoop (.element ⟨"A"⟩ [.int 5]))) ∧
      ((Structured.test (.element ⟨"A"⟩ [.int 5])).outcome beforeArrayWhile.begun).1 = .ok false ∧
      (step.outcome beforeArrayWhile).1 = .ok ⟨⟩ ∧
      (step.outcome beforeArrayWhile).2.cursor = some ⟨some 30, [0]⟩ ∧
      (∀ cursor, (step.outcome beforeArrayWhile).2 ≠ { beforeArrayWhile.begun with cursor }) ∧
      (step.outcome (step.outcome beforeArrayWhile).2).1 = .error (.of .duplicateDefinition) ∧
      (step.outcome { beforeArrayWhile.begun with cursor := some ⟨some 30, [0]⟩ }).1 = .ok ⟨⟩ := by
  obtain ⟨hnext, hfalse, hok, hcursor, hbefore, hafter, hfails, hdeclares⟩ :
      beforeArrayWhile.nextStatement? = some (.command (.whileLoop (.element ⟨"A"⟩ [.int 5]))) ∧
      ((Structured.test (.element ⟨"A"⟩ [.int 5])).outcome beforeArrayWhile.begun).1 = .ok false ∧
      (step.outcome beforeArrayWhile).1 = .ok ⟨⟩ ∧
      (step.outcome beforeArrayWhile).2.cursor = some ⟨some 30, [0]⟩ ∧
      beforeArrayWhile.begun.work.memory.dimensions.contains "A" = false ∧
      (step.outcome beforeArrayWhile).2.work.memory.dimensions.contains "A" = true ∧
      (step.outcome (step.outcome beforeArrayWhile).2).1 = .error (.of .duplicateDefinition) ∧
      (step.outcome { beforeArrayWhile.begun with cursor := some ⟨some 30, [0]⟩ }).1 = .ok ⟨⟩ := by
    rw [beforeArrayWhile, afterCalls_eq]
    decide +kernel
  refine ⟨reachable_afterCalls _, hnext, hfalse, hok, hcursor, fun cursor hsame => ?_, hfails, hdeclares⟩
  have hwork : ∀ session : Session, { session with cursor }.work = session.work := fun _ => rfl
  rw [hsame, hwork, hbefore] at hafter
  cases hafter

end Session

end LineBasic
