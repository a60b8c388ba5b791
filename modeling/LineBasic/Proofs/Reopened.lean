import LineBasic.Proofs.OpenLoops

/-! Loops that are left by a jump and entered again. FOR closes the open loop over its counter before it opens the new
one, so loops that are restarted do not pile up on the stack; only the two spellings of one variable are told apart.
WHILE opens its loop whether that is open or not, so each jump back to it leaves one more frame on the stack, up to
the last one that there is room for. -/

namespace LineBasic

section Counters

variable {name other : Name}

/-- Two spellings of one name differ by one character. -/
theorem Name.Same.length_spelling (h : name.Same other) (hne : name ≠ other) :
    name.spelling.length = other.spelling.length + 1 ∨ other.spelling.length = name.spelling.length + 1 := by
  rcases h with heq | hname | hother
  · exact absurd heq hne
  · rw [hname, String.length_append]
    exact .inl rfl
  · rw [hother, String.length_append]
    exact .inr rfl

/-- No name has three spellings. -/
theorem Name.length_le_two_of_same {names : List Name} (hnodup : names.Nodup)
    (hsame : ∀ name ∈ names, ∀ other ∈ names, name.Same other) : names.length ≤ 2 := by
  match names, hnodup, hsame with
  | [], _, _ | [_], _, _ | [_, _], _, _ => simp
  | first :: second :: third :: rest, hnodup, hsame =>
      simp only [List.nodup_cons, List.mem_cons, not_or] at hnodup
      obtain ⟨⟨hsecond, hthird, -⟩, ⟨hthird', -⟩, -⟩ := hnodup
      have hlengths := (hsame first (by simp) second (by simp)).length_spelling hsecond
      have hlengths' := (hsame second (by simp) third (by simp)).length_spelling hthird'
      have hlengths'' := (hsame first (by simp) third (by simp)).length_spelling hthird
      omega

/-- Among different names one variable comes at most twice. -/
theorem Name.count_key_le_two {names : List Name} (hnames : ∀ name ∈ names, name.IsScanned) (hnodup : names.Nodup)
    (key : String) : (names.map Name.key).count key ≤ 2 := by
  rw [List.count, List.countP_map, List.countP_eq_length_filter]
  refine Name.length_le_two_of_same (hnodup.filter _) fun name hname other hother => ?_
  rw [List.mem_filter, Function.comp_apply, beq_iff_eq] at hname hother
  exact (Name.same_iff_key_eq (hnames name hname.1) (hnames other hother.1)).mpr (hname.2.trans hother.2.symm)

end Counters

namespace Session

open Act SessionAct

variable {session after : Session} {start : Cursor}

theorem Reachable.apart_counter? (h : session.Reachable) : Frame.Apart Frame.counter? session.stack.toList := by
  induction h with
  | new => exact Frame.apart_nil
  | move _ hmove ih => exact (restacks_of_move hmove).apart_counter? ih

/-- The counters of open loops are names as they stand in texts. -/
theorem Reachable.scanned_counters (h : session.Reachable) {stretch : List Frame}
    (hstretch : stretch <:+: session.stack.toList) : ∀ counter ∈ stretch.filterMap Frame.counter?, counter.IsScanned := by
  intro counter hcounter
  obtain ⟨frame, hframe, hlabel⟩ := List.mem_filterMap.mp hcounter
  have hscanned := h.ready.counters frame (List.mem_reverse.mp (hstretch.subset hframe))
  cases frame with
  | gosub _ | whileLoop _ => cases hlabel
  | forLoop _ _ _ _ =>
      cases hlabel
      exact hscanned

/-- **Restarted FOR loops never pile up.** Whatever a host does and wherever the program jumps, between two calls of
subroutines on the stack no two FOR loops have counters that are spelled alike. They have different variables exactly
if none of these is spelled both with and without the sigil of a single; and one variable has at most two loops. -/
theorem restarted_loops_never_pile_up (session : Session) (hreachable : session.Reachable) (stretch : List Frame)
    (hstretch : stretch <:+: session.stack.toList) (hcalls : ∀ frame ∈ stretch, frame.isGosub = false) :
    (stretch.filterMap Frame.counter?).Nodup ∧
      (((stretch.filterMap Frame.counter?).map Name.key).Nodup ↔
        ∀ counter ∈ stretch.filterMap Frame.counter?, ∀ other ∈ stretch.filterMap Frame.counter?,
          counter.Same other → counter = other) ∧
      ∀ key, ((stretch.filterMap Frame.counter?).map Name.key).count key ≤ 2 := by
  have hnodup := hreachable.apart_counter? stretch hstretch hcalls
  have hscanned := hreachable.scanned_counters hstretch
  refine ⟨hnodup, ?_, Name.count_key_le_two hscanned hnodup⟩
  rw [List.nodup_map_iff_inj_on hnodup]
  constructor
  · intro hinj counter hcounter other hother hsame
    exact hinj counter hcounter other hother
      ((Name.same_iff_key_eq (hscanned counter hcounter) (hscanned other hother)).mp hsame)
  · intro hspelled counter hcounter other hother hkey
    exact hspelled counter hcounter other hother
      ((Name.same_iff_key_eq (hscanned counter hcounter) (hscanned other hother)).mpr hkey)

/-- A loop that is left and started again, inside of a loop over another variable. -/
def restartedLoop : List Call :=
  [.enter "10 FOR B=1 TO 9", .enter "20 FOR A=1 TO 9", .enter "30 GOTO 20", .enter "RUN", .execute 9]

theorem restarted_loops_never_pile_up_jumpingBack :
    (afterCalls restartedLoop).Reachable ∧
      ((afterCalls restartedLoop).stack.toList.filterMap Frame.counter?) = [⟨"B"⟩, ⟨"A"⟩] ∧
      (((afterCalls restartedLoop).stack.toList.filterMap Frame.counter?).map Name.key).Nodup := by
  have hreachable := reachable_afterCalls restartedLoop
  obtain ⟨hcounters, hcalls⟩ :
      (afterCalls restartedLoop).stack.toList.filterMap Frame.counter? = [⟨"B"⟩, ⟨"A"⟩] ∧
        ∀ frame ∈ (afterCalls restartedLoop).stack.toList, frame.isGosub = false := by
    rw [afterCalls_eq]
    decide +kernel
  obtain ⟨-, hvariables, -⟩ := restarted_loops_never_pile_up _ hreachable _ List.infix_rfl hcalls
  refine ⟨hreachable, hcounters, hvariables.mpr ?_⟩
  rw [hcounters]
  unfold Name.Same
  decide +kernel

/-- Two loops over one variable, which is spelled in two ways. -/
def respelledLoop : List Call :=
  [.enter "10 FOR A=1 TO 9", .enter "20 FOR A!=1 TO 9", .enter "30 STOP", .enter "RUN", .execute 4]

/-- The loop over the variable in its other spelling is not closed. -/
theorem respelled_loops_pile_up :
    (afterCalls respelledLoop).Reachable ∧
      ¬∀ stretch, stretch <:+: (afterCalls respelledLoop).stack.toList →
        (∀ frame ∈ stretch, frame.isGosub = false) →
        ((stretch.filterMap Frame.counter?).map Name.key).Nodup := by
  refine ⟨reachable_afterCalls respelledLoop, fun hnodup => ?_⟩
  obtain ⟨htwice, hcalls⟩ :
      ((afterCalls respelledLoop).stack.toList.filterMap Frame.counter?).map Name.key = ["A", "A"] ∧
        ∀ frame ∈ (afterCalls respelledLoop).stack.toList, frame.isGosub = false := by
    rw [afterCalls_eq]
    decide +kernel
  have hvariables := hnodup _ List.infix_rfl hcalls
  rw [htwice] at hvariables
  exact absurd hvariables (by decide)

/-- A move opens the loop of a WHILE that is open already, above the last call of a subroutine. -/
def Reenters (session after : Session) : Prop :=
  session.stack.size < after.stack.size ∧
    ∃ start, session.AtWhile start ∧ Frame.IsInner session.stack.toList (.whileLoop start)

/-- A WHILE whose condition holds puts its frame on the stack. -/
theorem AtWhile.exists_outcome (h : session.AtWhile start) :
    ∃ work, step.outcome session = (pushFrame (.whileLoop start)).outcome { session.begun with work } := by
  obtain ⟨hcursor, condition, hstatement, hholds⟩ := h
  have hnext : session.nextStatement? = some (.command (.whileLoop condition)) :=
    Option.bind_eq_some_iff.mpr ⟨start, hcursor, hstatement⟩
  have hwork := workOnly_test condition session.begun
  rw [outcome_step hnext]
  change ∃ work, (whileLoop condition).outcome session.begun = _
  rw [outcome_whileLoop]
  revert hholds hwork
  rcases (Structured.test condition).outcome session.begun with ⟨fault | holds, tested⟩
  · intro hholds
    cases hholds
  · rintro hholds ⟨work, rfl⟩
    cases hholds
    rw [← current_begun hcursor hnext]
    exact ⟨work, rfl⟩

/-- There is room for its frame as long as the stack is not full, whatever is open. -/
theorem AtWhile.outcome_step (h : session.AtWhile start) :
    ∃ after, step.outcome session =
        (if session.stack.size < 65535 then .ok ⟨⟩ else .error (.of .outOfMemory session.stack.overflow), after) ∧
      after.stack.toList =
        if session.stack.size < 65535 then session.stack.toList ++ [.whileLoop start] else session.stack.toList := by
  obtain ⟨work, houtcome⟩ := h.exists_outcome
  rw [houtcome, outcome_pushFrame, ← stack_begun session]
  by_cases hroom : session.begun.stack.size < 65535
  · have hpush : ∃ pushed, session.begun.stack.push (.whileLoop start) = .ok pushed :=
      ⟨_, if_neg (Nat.not_le.mpr hroom)⟩
    obtain ⟨pushed, hpush⟩ := hpush
    rw [if_pos hroom, if_pos hroom, hpush]
    exact ⟨_, rfl, Stack.toList_of_push hpush⟩
  · have hpush : session.begun.stack.push (.whileLoop start) = .error (.of .outOfMemory session.begun.stack.overflow) :=
      if_pos (Nat.not_lt.mp hroom)
    rw [if_neg hroom, if_neg hroom, hpush]
    exact ⟨_, rfl, rfl⟩

theorem outcome_step_of_ok (h : (step.outcome session).1 = .ok ⟨⟩) :
    step.outcome session = (.ok ⟨⟩, session.stepOrRaise) := by
  unfold stepOrRaise
  revert h
  rcases step.outcome session with ⟨fault | value, after⟩
  · intro h
    cases h
  · exact fun _ => rfl

/-- A move that enters a loop of its own again leaves two frames of it above the last call. -/
theorem not_apart_of_reenters (hmove : Move session after) (h : Reenters session after) :
    ¬Frame.Apart Frame.start? after.stack.toList := by
  obtain ⟨hgrows, start, hwhile, hinner⟩ := h
  obtain rfl | hsame | hempty := sameOrEmpty_of_move hmove
  · obtain ⟨opened, houtcome, hlist⟩ := hwhile.outcome_step
    have hafter : session.stepOrRaise.stack.toList = opened.stack.toList := by
      rw [stack_stepOrRaise, houtcome]
    by_cases hroom : session.stack.size < 65535
    · rw [if_pos hroom] at hlist
      rw [hafter, hlist]
      intro hapart
      exact (Frame.apart_concat.mp hapart).2 rfl _ hinner start rfl rfl
    · rw [if_neg hroom] at hlist
      rw [Stack.size_eq_length_toList session.stepOrRaise.stack, hafter, hlist,
        ← Stack.size_eq_length_toList] at hgrows
      exact absurd hgrows (Nat.lt_irrefl _)
  · rw [hsame] at hgrows
    exact absurd hgrows (Nat.lt_irrefl _)
  · rw [Stack.size_eq_length_toList after.stack, hempty] at hgrows
    cases hgrows

theorem apart_start?_of_move (hapart : Frame.Apart Frame.start? session.stack.toList) (hmove : Move session after)
    (h : ¬Reenters session after) : Frame.Apart Frame.start? after.stack.toList := by
  refine (restacks_of_move hmove).apart_start? hapart fun start hwhile hgrows hinner => ?_
  rw [← Stack.size_eq_length_toList, ← Stack.size_eq_length_toList] at hgrows
  exact h ⟨hgrows, start, hwhile, hinner⟩

/-- The session has come back to a WHILE so many times, with the condition holding each time: the WHILE opened its
loop, and the body went back to the WHILE with the stack as it was. -/
inductive JumpsBack (start : Cursor) (session : Session) : Nat → Session → Prop
  | first (h : session.AtWhile start) : JumpsBack start session 0 session
  | again {rounds : Nat} {entry opened reached : Session} (h : JumpsBack start session rounds entry)
      (hstep : step.outcome entry = (.ok ⟨⟩, opened)) (hbody : Relation.ReflTransGen Move opened reached)
      (hstack : reached.stack = opened.stack) (hback : reached.AtWhile start) :
      JumpsBack start session (rounds + 1) reached

variable {reached : Session} {rounds : Nat}

theorem JumpsBack.atWhile (h : JumpsBack start session rounds reached) : reached.AtWhile start := by
  cases h with
  | first h => exact h
  | again _ _ _ _ hback => exact hback

/-- Each time one more frame is left on the stack. -/
theorem JumpsBack.toList_stack (h : JumpsBack start session rounds reached) (hsize : session.stack.size ≤ 65535) :
    reached.stack.toList = session.stack.toList ++ List.replicate rounds (.whileLoop start) ∧
      session.stack.size + rounds ≤ 65535 := by
  induction h with
  | first _ => exact ⟨(List.append_nil _).symm, hsize⟩
  | @again rounds entry opened reached hentry hstep _ hstack _ ih =>
      obtain ⟨hlist, -⟩ := ih
      have hlength : entry.stack.size = session.stack.size + rounds := by
        rw [Stack.size_eq_length_toList, hlist, List.length_append, List.length_replicate,
          ← Stack.size_eq_length_toList]
      obtain ⟨after, houtcome, hafter⟩ := hentry.atWhile.outcome_step
      rw [hstep] at houtcome
      obtain ⟨hok, rfl⟩ := Prod.mk.inj houtcome
      split at hok
      · rename_i hroom
        rw [if_pos hroom, hlist] at hafter
        refine ⟨?_, by omega⟩
        rw [hstack, hafter, List.append_assoc, ← List.replicate_succ']
      · cases hok

/-- **Only a WHILE that is entered again while its loop is open piles up.** As long as no move enters the loop of a
WHILE again that is open above the last call of a subroutine, two WHILE loops without such a call between them have
different places in the program, and the first move that does puts an end to this. A body that jumps back to its
WHILE leaves one more frame on the stack each time, and when there are 65535 the WHILE fails for lack of memory. -/
theorem reentered_whiles_pile_up (random : Random) (session after : Session) (start : Cursor) (rounds : Nat) :
    (Frame.Apart Frame.start? session.stack.toList → Move session after →
      (Frame.Apart Frame.start? after.stack.toList ↔ ¬Reenters session after)) ∧
    (Relation.ReflTransGen (fun first second => Move first second ∧ ¬Reenters first second) (.new random) session →
      session.Reachable ∧ Frame.Apart Frame.start? session.stack.toList) ∧
    (session.Reachable → JumpsBack start session rounds after →
      after.stack.toList = session.stack.toList ++ List.replicate rounds (.whileLoop start) ∧
      session.stack.size + rounds ≤ 65535 ∧
      (step.outcome after).1 =
        if session.stack.size + rounds < 65535 then .ok ⟨⟩ else .error (.of .outOfMemory after.stack.overflow)) := by
  refine ⟨fun hapart hmove => ?_, fun hrun => ?_, fun hreachable hjumps => ?_⟩
  · exact ⟨fun hafter h => not_apart_of_reenters hmove h hafter, apart_start?_of_move hapart hmove⟩
  · induction hrun with
    | refl => exact ⟨.new random, Frame.apart_nil⟩
    | tail _ hmove ih => exact ⟨ih.1.move hmove.1, apart_start?_of_move ih.2 hmove.1 hmove.2⟩
  · obtain ⟨hlist, hsize⟩ := hjumps.toList_stack hreachable.consistent.size
    have hlength : after.stack.size = session.stack.size + rounds := by
      rw [Stack.size_eq_length_toList, hlist, List.length_append, List.length_replicate,
        ← Stack.size_eq_length_toList]
    obtain ⟨failed, houtcome, -⟩ := hjumps.atWhile.outcome_step
    refine ⟨hlist, hsize, ?_⟩
    rw [houtcome, hlength]

/-- A WHILE that is jumped back to for ever, when it is carried out for the first time. -/
def endlessWhile : Session :=
  afterCalls [.enter "10 WHILE 1", .enter "20 GOTO 10", .enter "RUN", .execute 1]

/-- The program comes back to its WHILE in two steps. -/
theorem jumpsBack_endlessWhile :
    JumpsBack (.start (some 10)) endlessWhile 1 endlessWhile.stepOrRaise.stepOrRaise := by
  -- The loop is opened, the program jumps back, and the WHILE is there again.
  obtain ⟨⟨hcursor, hcondition⟩, hopens, ⟨hevents, hloading, hrunning, hbreak⟩, hstack, hcursor', hcondition'⟩ :
      (endlessWhile.cursor = some (.start (some 10)) ∧
        endlessWhile.program.statement? (.start (some 10)) = some (.command (.whileLoop (.int 1))) ∧
        ((Structured.test (.int 1)).outcome endlessWhile.begun).1 = .ok true) ∧
      (step.outcome endlessWhile).1 = .ok ⟨⟩ ∧
      (endlessWhile.stepOrRaise.events = [] ∧ endlessWhile.stepOrRaise.loading = none ∧
        endlessWhile.stepOrRaise.isRunning = true ∧ endlessWhile.stepOrRaise.keys.breakSeen = false) ∧
      endlessWhile.stepOrRaise.stepOrRaise.stack = endlessWhile.stepOrRaise.stack ∧
      endlessWhile.stepOrRaise.stepOrRaise.cursor = some (.start (some 10)) ∧
      endlessWhile.stepOrRaise.stepOrRaise.program.statement? (.start (some 10)) =
        some (.command (.whileLoop (.int 1))) ∧
      ((Structured.test (.int 1)).outcome endlessWhile.stepOrRaise.stepOrRaise.begun).1 = .ok true := by
    rw [endlessWhile, afterCalls_eq]
    decide +kernel
  exact .again (.first ⟨hcursor, _, hcondition⟩) (outcome_step_of_ok hopens)
    (.single (.step hevents hloading hrunning hbreak)) hstack ⟨hcursor', _, hcondition'⟩

theorem reentered_whiles_pile_up_endlessWhile :
    let back := endlessWhile.stepOrRaise.stepOrRaise
    ¬Frame.Apart Frame.start? back.stepOrRaise.stack.toList ∧
      Frame.Apart Frame.start? (afterCalls [.enter "10 WHILE 1"]).stack.toList ∧
      back.stack.toList = [.whileLoop (.start (some 10))] ∧ (step.outcome back).1 = .ok ⟨⟩ := by
  intro back
  obtain ⟨hempty, hroom, ⟨hevents, hloading, hrunning, hbreak⟩, hgrows⟩ : endlessWhile.stack.toList = [] ∧
      endlessWhile.stack.size + 1 < 65535 ∧
      (back.events = [] ∧ back.loading = none ∧ back.isRunning = true ∧ back.keys.breakSeen = false) ∧
      back.stack.size < back.stepOrRaise.stack.size := by
    simp only [back, endlessWhile, afterCalls_eq]
    decide +kernel
  have hreachable : endlessWhile.Reachable := reachable_afterCalls _
  obtain ⟨hlist, -, hstep⟩ :=
    (reentered_whiles_pile_up {} endlessWhile back _ 1).2.2 hreachable jumpsBack_endlessWhile
  rw [hempty] at hlist
  have hapart : Frame.Apart Frame.start? back.stack.toList := by
    rw [hlist]
    refine Frame.apart_concat.mpr ⟨Frame.apart_nil, fun _ other hinner => ?_⟩
    obtain ⟨stretch, hstretch, hother, -⟩ := hinner
    rw [List.suffix_nil.mp hstretch] at hother
    cases hother
  have hinner : Frame.IsInner back.stack.toList (.whileLoop (.start (some 10))) := by
    rw [hlist]
    exact ⟨[.whileLoop (.start (some 10))], List.suffix_rfl, List.mem_singleton_self _, by decide⟩
  refine ⟨fun hafter => ?_, ?_, hlist, hstep.trans (if_pos hroom)⟩
  · refine ((reentered_whiles_pile_up {} back _ (.start none) 0).1 hapart (.step hevents hloading hrunning hbreak)).mp hafter ?_
    exact ⟨hgrows, _, jumpsBack_endlessWhile.atWhile, hinner⟩
  · refine ((reentered_whiles_pile_up {} _ back (.start none) 0).2.1 (.single ⟨.enter (.new {}) "10 WHILE 1", fun h => ?_⟩)).2
    have hgrows := h.1
    rw [enter_eq] at hgrows
    exact absurd hgrows (by decide +kernel)

/-- After two rounds two frames of the one WHILE are on the stack. -/
theorem jumped_whiles_pile_up :
    (endlessWhile.call (.execute 4)).Reachable ∧
      ¬∀ stretch, stretch <:+: (endlessWhile.call (.execute 4)).stack.toList →
        (∀ frame ∈ stretch, frame.isGosub = false) → (stretch.filterMap Frame.start?).Nodup := by
  have hreachable : endlessWhile.Reachable := reachable_afterCalls _
  refine ⟨hreachable.trans (moves_call endlessWhile (.execute 4)), fun hnodup => ?_⟩
  have hframes : (endlessWhile.call (.execute 4)).stack.toList =
      [.whileLoop (.start (some 10)), .whileLoop (.start (some 10))] := by
    rw [endlessWhile, afterCalls_eq]
    decide +kernel
  rw [hframes] at hnodup
  exact absurd (hnodup _ List.infix_rfl (by decide)) (by decide)

end Session

end LineBasic
