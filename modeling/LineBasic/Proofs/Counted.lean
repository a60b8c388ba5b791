import LineBasic.Proofs.Nesting
import LineBasic.Proofs.Sound
import LineBasic.Proofs.Structured
import LineBasic.Proofs.Subroutine
import LineBasic.Proofs.Whole

/-! Counted loops over an integer variable. FOR and NEXT compare the counter with the limit as doubles, which
hold integers exactly; so the body is run through for each value that is not beyond the limit, and for no
other. -/

namespace LineBasic

section Values

/-- Whether a counter has passed its limit in the direction in which it changes. -/
def Beyond (limit change counter : Int) : Prop := 0 < change ∧ limit < counter ∨ change < 0 ∧ counter < limit

instance (limit change counter : Int) : Decidable (Beyond limit change counter) :=
  inferInstanceAs (Decidable (_ ∨ _))

/-- How many values from the first one on are not beyond the limit. -/
def passCount (first limit change : Int) : Nat := ((limit - first).fdiv change + 1).toNat

/-- The values up to the count are those not beyond the limit. -/
theorem beyond_iff {first limit change : Int} (hchange : change ≠ 0) (k : Nat) :
    Beyond limit change (first + k * change) ↔ passCount first limit change ≤ k := by
  have hcount : passCount first limit change ≤ k ↔ (limit - first).fdiv change < k := by
    unfold passCount
    omega
  rw [hcount]
  unfold Beyond
  rcases lt_or_gt_of_ne hchange with hneg | hpos
  · rw [← Int.neg_fdiv_neg, Int.fdiv_eq_ediv_of_nonneg _ (by omega), Int.ediv_lt_iff_lt_mul (by omega), Int.mul_neg]
    omega
  · rw [Int.fdiv_eq_ediv_of_nonneg _ (by omega), Int.ediv_lt_iff_lt_mul hpos]
    omega

theorem toInt_ofInt {z : Int} (h : -32768 ≤ z ∧ z ≤ 32767) : (Int16.ofInt z).toInt = z :=
  Int16.toInt_ofInt_of_le h.1 (by omega)

namespace Value

theorem natAbs_toInt_lt (n : Int16) : n.toInt.natAbs < 2 ^ 53 := by
  have hlow := n.le_toInt
  have hhigh := n.toInt_lt
  omega

/-- Integers are compared with the limit as the numbers that they are. -/
theorem isPast_int {counter limit change : Int16} (hchange : change.toInt ≠ 0) :
    SessionAct.isPast (.int counter) (.int limit) (.int change) =
      .ok (decide (Beyond limit.toInt change.toInt counter.toInt)) := by
  have hzero : (0 : Float) = Float.ofInt 0 := by decide +kernel
  have hup : doubleOfInt change ≥ 0 ↔ 0 < change.toInt := by
    rw [ge_iff_le, hzero, doubleOfInt, Number.le_ofInt_iff (by decide) (natAbs_toInt_lt change)]
    omega
  have hlt : ∀ left right : Int16, doubleOfInt left < doubleOfInt right ↔ left.toInt < right.toInt :=
    fun left right => Number.lt_ofInt_iff (natAbs_toInt_lt left) (natAbs_toInt_lt right)
  change Except.ok (if doubleOfInt change ≥ 0 then decide (doubleOfInt counter > doubleOfInt limit)
    else decide (doubleOfInt counter < doubleOfInt limit)) = _
  simp only [gt_iff_lt, hup, hlt, Beyond]
  congr 1
  split
  · refine decide_eq_decide.mpr ?_
    omega
  · refine decide_eq_decide.mpr ?_
    omega

theorem add_int {left right : Int16} (h : -32768 ≤ left.toInt + right.toInt ∧ left.toInt + right.toInt ≤ 32767) :
    add (.int left) (.int right) = .ok (.int (Int16.ofInt (left.toInt + right.toInt))) := by
  have hsum : int? (left.toInt + right.toInt) = some (.int (Int16.ofInt (left.toInt + right.toInt))) := if_pos h
  have hoperands : Operands.of (.int left) (.int right) = .ok (.ints left right) := rfl
  unfold add
  rw [hoperands]
  dsimp only [bind, Except.bind]
  rw [hsum]
  rfl

end Value

end Values

section Frames

variable {stack : Stack Frame} {counter : Name} {frames below : List Frame}

/-- The open loops and subroutines around a new loop over a counter: all that are open, or those around an
open loop over the same counter, unless a subroutine was called in that loop. -/
def Frame.Around (counter : Name) (frames below : List Frame) : Prop :=
  (below = frames ∧ ∀ outer loop inner, frames = outer ++ loop :: inner → loop.countsOver counter = true →
      ∃ call ∈ inner, call.isGosub = true) ∨
    ∃ loop inner, frames = below ++ loop :: inner ∧ loop.countsOver counter = true ∧
      ∀ frame ∈ inner, frame.isGosub = false ∧ frame.countsOver counter = false

/-- The last entry that passes a test is found. -/
theorem Stack.lastIndex?_of_split {α : Type} {stack : Stack α} {test : α → Bool} {lower upper : List α} {entry : α}
    (h : stack.toList = lower ++ entry :: upper) (htest : test entry = true)
    (hupper : ∀ other ∈ upper, test other = false) : stack.lastIndex? test = some lower.length := by
  cases hindex : stack.lastIndex? test with
  | none =>
      have hnone := forall_of_lastIndex?_eq_none hindex entry (by rw [h]; simp)
      rw [htest] at hnone
      cases hnone
  | some index =>
      obtain ⟨lower', entry', upper', hsplit, rfl, hentry', -⟩ := split_of_lastIndex? hindex
      have hprefix : lower ++ [entry] <+: stack.toList := ⟨upper, by rw [h]; simp⟩
      have hle := length_le_of_lastIndex? htest hprefix hindex
      rcases Nat.eq_or_lt_of_le hle with heq | hlt
      · rw [heq]
      · have hat : (lower ++ entry :: upper)[lower'.length]? = some entry' := by
          rw [← h, hsplit, List.getElem?_append_right (Nat.le_refl _), Nat.sub_self, List.getElem?_cons_zero]
        rw [List.getElem?_append_right (Nat.le_of_lt hlt),
          show lower'.length - lower.length = lower'.length - lower.length - 1 + 1 by omega,
          List.getElem?_cons_succ] at hat
        rw [hupper entry' (List.mem_of_getElem? hat)] at hentry'
        cases hentry'

theorem Frame.isGosub_of_countsOver {frame : Frame} (h : frame.countsOver counter = true) :
    frame.isGosub = false := by
  cases frame with
  | gosub back => cases h
  | _ => rfl

/-- FOR leaves open what is around its loop. -/
theorem toList_closeSameLoop (h : Frame.Around counter stack.toList below) :
    (SessionAct.closeSameLoop stack counter).toList = below := by
  unfold SessionAct.closeSameLoop
  obtain ⟨rfl, hcalled⟩ | ⟨loop, inner, hsplit, hloop, hinner⟩ := h
  · cases hindex : stack.lastIndex? (Frame.countsOver counter) with
    | none => rfl
    | some index =>
        obtain ⟨outer, loop, inner, hsplit, rfl, hloop, -⟩ := Stack.split_of_lastIndex? hindex
        obtain ⟨call, hmem, hcall⟩ := hcalled outer loop inner hsplit hloop
        obtain ⟨before, after, rfl⟩ := List.append_of_mem hmem
        cases hgosub : stack.lastIndex? Frame.isGosub with
        | none =>
            have hnone := Stack.forall_of_lastIndex?_eq_none hgosub call (by rw [hsplit]; simp)
            rw [hcall] at hnone
            cases hnone
        | some floor =>
            have hprefix : (outer ++ loop :: before) ++ [call] <+: stack.toList := ⟨after, by rw [hsplit]; simp⟩
            have hle := Stack.length_le_of_lastIndex? hcall hprefix hgosub
            rw [List.length_append, List.length_cons] at hle
            have habove : ¬floor + 1 ≤ outer.length := by omega
            exact congrArg Stack.toList (if_neg habove)
  · have hindex : stack.lastIndex? (Frame.countsOver counter) = some below.length :=
      Stack.lastIndex?_of_split hsplit hloop fun other hother => (hinner other hother).2
    have hclosed : (stack.truncate below.length).toList = below := by
      rw [Stack.toList_truncate, hsplit, List.take_left]
    rw [hindex]
    cases hgosub : stack.lastIndex? Frame.isGosub with
    | none =>
        dsimp only
        rw [if_pos (Nat.zero_le _), hclosed]
    | some floor =>
        obtain ⟨outer, call, above, hcalls, rfl, hcall, -⟩ := Stack.split_of_lastIndex? hgosub
        have hlt : outer.length < below.length := by
          -- The call is not in the loop that is closed, nor is it the loop.
          by_contra hge
          have hat : (below ++ loop :: inner)[outer.length]? = some call := by
            rw [← hsplit, hcalls, List.getElem?_append_right (Nat.le_refl _), Nat.sub_self, List.getElem?_cons_zero]
          rw [List.getElem?_append_right (by omega)] at hat
          have hfalse : call.isGosub = false := by
            rcases List.mem_cons.mp (List.mem_of_getElem? hat) with rfl | hmem
            · exact Frame.isGosub_of_countsOver hloop
            · exact (hinner call hmem).1
          rw [hcall] at hfalse
          cases hfalse
        have hbelow : outer.length + 1 ≤ below.length := hlt
        exact (congrArg Stack.toList (if_pos hbelow)).trans hclosed

/-- NEXT closes the loops inside the one that it steps. -/
theorem toList_popWhile {test : Frame → Bool} {loop : Frame} {inner : List Frame}
    (h : stack.toList = below ++ loop :: inner) (hloop : test loop = false) (hinner : ∀ frame ∈ inner, test frame = true) :
    (stack.popWhile test).toList = below ++ [loop] := by
  have hentries : stack.entries = inner.reverse ++ loop :: below.reverse := by
    rw [← List.reverse_reverse stack.entries]
    change stack.toList.reverse = _
    rw [h]
    simp
  have htaken : stack.entries.takeWhile test = inner.reverse := by
    rw [hentries, List.takeWhile_append_of_pos fun frame hframe => hinner frame (List.mem_reverse.mp hframe),
      List.takeWhile_cons_of_neg (by simp [hloop]), List.append_nil]
  have hkept : stack.size - inner.reverse.length = (below ++ [loop]).length := by
    rw [Stack.size_eq_length_toList, h]
    simp
    omega
  have hsplit : stack.toList = (below ++ [loop]) ++ inner := by
    rw [h]
    simp
  rw [Stack.popWhile, Stack.toList_truncate, htaken, hkept, hsplit, List.take_left]

end Frames

namespace SessionAct

section Steps

open Act

variable {session : Session} {counter : Name} {value limit change : Int16} {body : Option Cursor}
  {below inner : List Frame}

/-- An integer is stored into an integer variable, unless memory is full. -/
theorem outcome_storeScalar_int (htype : counter.type = .int) (session : Session) (value : Int16) :
    (∃ memory, (storeScalar counter (.int value)).outcome session =
        (.ok ⟨⟩, { session with work := { session.work with memory } }) ∧
        session.work.memory.store counter (.int value) = .ok memory ∧ memory.fetch counter = .int value) ∨
      (storeScalar counter (.int value)).outcome session = (.error (.of .outOfMemory), session) ∧
        Memory.maxCells < session.work.memory.cells.size := by
  have houtcome := outcome_changeMemory (fun memory => memory.store counter (.int value)) session
  have hcoerce : counter.type.coerce (.int value) = .ok (.int value) := by
    rw [htype]
    rfl
  obtain ⟨found, hfound, hstore⟩ | ⟨fault, hstore, hrefused | ⟨rfl, hfull⟩⟩ :=
    session.work.memory.store_cases counter (.int value)
  · rw [hcoerce] at hfound
    cases hfound
    rw [hstore] at houtcome
    exact .inl ⟨_, houtcome, hstore, Memory.fetch_insert _ _ _⟩
  · rw [hcoerce] at hrefused
    cases hrefused
  · rw [hstore] at houtcome
    exact .inr ⟨houtcome, hfull⟩

theorem outcome_isOver (session : Session) (hchange : change.toInt ≠ 0)
    (hcounter : session.work.memory.fetch counter = .int value) :
    (isOver counter (.int limit) (.int change)).outcome session =
      (.ok (decide (Beyond limit.toInt change.toInt value.toInt)), session) := by
  unfold isOver
  rw [outcome_bind, outcome_get]
  dsimp only
  rw [outcome_lift, hcounter, Value.isPast_int hchange]

theorem outcome_popFrame (session : Session) {frame : Frame} (h : session.stack.toList = below ++ [frame]) :
    ∃ stack, popFrame.outcome session = (.ok frame, { session with stack }) ∧ stack.toList = below := by
  obtain ⟨stack, hpop, hbelow⟩ := Stack.pop_of_toList h
  refine ⟨stack, ?_, hbelow⟩
  unfold popFrame
  rw [outcome_bind, outcome_get]
  dsimp only
  rw [hpop]
  rfl

/-- What NEXT leaves of a counted loop, given the value that its counter has come to. -/
structure Stepped (counter : Name) (limit change : Int16) (body : Option Cursor) (below : List Frame)
    (value : Int16) (session after : Session) : Prop where
  program : after.program = session.program
  counts : after.work.memory.fetch counter = .int value
  ends : Beyond limit.toInt change.toInt value.toInt → after.cursor = session.cursor ∧ after.stack.toList = below
  goesOn : ¬Beyond limit.toInt change.toInt value.toInt → after.cursor = body ∧
    after.stack.toList = below ++ [.forLoop counter (.int limit) (.int change) body]

/-- NEXT adds the step to the counter, and goes on in the loop or leaves it. -/
theorem outcome_nextOne (session : Session) (htype : counter.type = .int) (hchange : change.toInt ≠ 0)
    (hstack : session.stack.toList = below ++ .forLoop counter (.int limit) (.int change) body :: inner)
    (hinner : ∀ frame ∈ inner, frame.isFor = true ∧ frame.countsOver counter = false)
    (hcounter : session.work.memory.fetch counter = .int value)
    (hfits : -32768 ≤ value.toInt + change.toInt ∧ value.toInt + change.toInt ≤ 32767) :
    (∃ goes after, (nextOne (some counter)).outcome session = (.ok goes, after) ∧
        Stepped counter limit change body below (Int16.ofInt (value.toInt + change.toInt)) session after) ∨
      ∃ after, (nextOne (some counter)).outcome session = (.error (.of .outOfMemory), after) ∧
        Memory.maxCells < after.work.memory.cells.size := by
  have htrimmed : (session.stack.popWhile fun frame => frame.isFor && !frame.countsOver counter).toList =
      below ++ [.forLoop counter (.int limit) (.int change) body] :=
    toList_popWhile hstack (by simp [Frame.countsOver]) fun frame hframe => by simp [hinner frame hframe]
  unfold nextOne
  rw [outcome_bind, outcome_get]
  dsimp only
  generalize session.stack.popWhile (fun frame => frame.isFor && !frame.countsOver counter) = trimmed at htrimmed
  have htop : trimmed.top? = some (.forLoop counter (.int limit) (.int change) body) := by
    rw [Stack.top?_eq_getLast?, htrimmed, List.getLast?_concat]
  rw [outcome_bind]
  change (∃ goes after, Act.outcome _ { session with stack := trimmed } = _ ∧ _) ∨
    ∃ after, Act.outcome _ { session with stack := trimmed } = _ ∧ _
  rw [htop]
  dsimp only
  rw [outcome_bind, outcome_get]
  dsimp only
  rw [hcounter, Value.add_int hfits, outcome_bind, outcome_lift]
  dsimp only
  rw [outcome_bind]
  obtain ⟨memory, hstore, -, hfetch⟩ | ⟨hstore, hfull⟩ :=
    outcome_storeScalar_int htype { session with stack := trimmed } (Int16.ofInt (value.toInt + change.toInt))
  · rw [hstore]
    dsimp only
    rw [outcome_bind, outcome_isOver _ hchange hfetch]
    dsimp only
    by_cases hover : Beyond limit.toInt change.toInt (Int16.ofInt (value.toInt + change.toInt)).toInt
    · obtain ⟨stack, hpop, hbelow⟩ :=
        outcome_popFrame { session with stack := trimmed, work := { session.work with memory } } htrimmed
      rw [decide_eq_true hover, if_pos rfl, outcome_bind, hpop]
      exact .inl ⟨false, _, rfl, rfl, hfetch, fun _ => ⟨rfl, hbelow⟩, fun hnot => absurd hover hnot⟩
    · rw [decide_eq_false hover, if_neg (by decide)]
      exact .inl ⟨true, _, rfl, rfl, hfetch, fun h => absurd h hover, fun _ => ⟨rfl, htrimmed⟩⟩
  · rw [hstore]
    exact .inr ⟨_, rfl, hfull⟩

/-- Reading the limit and the step leaves all variables as they are. -/
theorem exists_bounds (h : session.Sound) {limit : Expr} {step : Option Expr} {values : Value × Value}
    (hvalues : ((bounds limit step).outcome session).1 = .ok values) :
    ∃ work, (bounds limit step).outcome session = (.ok values, { session with work }) ∧
      Memory.SameValues session.work.memory work.memory := by
  unfold bounds at hvalues ⊢
  obtain ⟨last, middle, hlimit, hrest⟩ := Act.exists_of_bind_ok hvalues
  obtain ⟨work, heval, hsound, hsame⟩ := h.exists_eval (congrArg Prod.fst hlimit)
  obtain rfl := congrArg Prod.snd (hlimit.symm.trans heval)
  rw [outcome_bind, heval]
  cases step with
  | none =>
      cases hrest
      exact ⟨work, rfl, hsame⟩
  | some expr =>
      obtain ⟨change, final, hstep, hpair⟩ := Act.exists_of_bind_ok hrest
      obtain ⟨work', heval', -, hsame'⟩ := hsound.exists_eval (congrArg Prod.fst hstep)
      dsimp only
      rw [outcome_bind, heval']
      cases hpair
      exact ⟨work', rfl, hsame.trans hsame'⟩

/-- A loop whose first value is beyond the limit is passed over, up to its NEXT. -/
theorem outcome_openLoop_of_beyond (session : Session) (hchange : change.toInt ≠ 0)
    (hcounter : session.work.memory.fetch counter = .int value)
    (hbelow : Frame.Around counter session.stack.toList below) (hover : Beyond limit.toInt change.toInt value.toInt)
    {close : Cursor} (hclose : session.program.closingNext? session.program.span 0 session.cursor = some close) :
    ∃ stack, stack.toList = below ∧ (openLoop counter (.int limit) (.int change)).outcome session =
      (.ok ⟨⟩, { session with stack, cursor := session.program.advance? close }) := by
  refine ⟨closeSameLoop session.stack counter, toList_closeSameLoop hbelow, ?_⟩
  rw [outcome_openLoop, if_neg (by exact Bool.false_ne_true)]
  dsimp only
  rw [hcounter, Value.isPast_int hchange, decide_eq_true hover]
  dsimp only
  rw [outcome_skipLoop, hclose]

/-- Any other loop is opened, unless the stack is full. -/
theorem outcome_openLoop_of_not_beyond (session : Session) (hchange : change.toInt ≠ 0)
    (hcounter : session.work.memory.fetch counter = .int value)
    (hbelow : Frame.Around counter session.stack.toList below)
    (hopen : ¬Beyond limit.toInt change.toInt value.toInt) :
    (∃ stack, stack.toList = below ++ [.forLoop counter (.int limit) (.int change) session.cursor] ∧
        (openLoop counter (.int limit) (.int change)).outcome session = (.ok ⟨⟩, { session with stack })) ∨
      ∃ detail after, (openLoop counter (.int limit) (.int change)).outcome session =
        (.error (.of .outOfMemory detail), after) ∧ Stack.maxSize ≤ after.stack.size := by
  have hclosed := toList_closeSameLoop hbelow
  rw [outcome_openLoop, if_neg (by exact Bool.false_ne_true)]
  dsimp only
  rw [hcounter, Value.isPast_int hchange, decide_eq_false hopen]
  generalize closeSameLoop session.stack counter = closed at hclosed
  dsimp only
  rw [Session.outcome_pushFrame]
  cases hpush : closed.push (.forLoop counter (.int limit) (.int change) session.cursor) with
  | ok stack => exact .inl ⟨stack, by rw [Stack.toList_of_push hpush, hclosed], rfl⟩
  | error fault =>
      unfold Stack.push at hpush
      split at hpush
      · cases hpush
        exact .inr ⟨closed.overflow, _, rfl, ‹_›⟩
      · cases hpush

/-- Where the stack is full and no loop over the counter is open, a loop that would be entered fails. -/
theorem outcome_forLoop_of_full {session : Session} {start limit : Expr} {step : Option Expr} {values : Value × Value}
    (htype : counter.type ≠ .text)
    (hreads : ((do let first ← eval start; storeScalar counter first; bounds limit step).outcome session).1 = .ok values)
    (hnumbers : (values.1.isText || values.2.isText) = false)
    (hopen : isPast (((do let first ← eval start; storeScalar counter first; bounds limit step).outcome
      session).2.work.memory.fetch counter) values.1 values.2 = .ok false)
    (hother : session.stack.lastIndex? (Frame.countsOver counter) = none) (hfull : Stack.maxSize ≤ session.stack.size) :
    ((forLoop counter start limit step).outcome session).1 = .error (.of .outOfMemory session.stack.overflow) := by
  have hwork : Relates Session.WorkOnly (do let first ← eval start; storeScalar counter first; bounds limit step) :=
    (relates_eval start).bind fun first => (relates_storeScalar counter first).bind fun _ => relates_bounds limit step
  obtain ⟨work, hafter⟩ := hwork session
  have hread := outcome_eq_of_fst hreads
  rw [hafter] at hread hopen
  have hloop : forLoop counter start limit step =
      (do let first ← eval start; storeScalar counter first; bounds limit step) >>= fun values =>
        openLoop counter values.1 values.2 := by
    rw [forLoop_eq htype]
    simp only [bind_assoc]
  have hclosed : closeSameLoop session.stack counter = session.stack := by
    rw [closeSameLoop, hother]
  rw [hloop, outcome_bind, hread]
  dsimp only
  rw [outcome_openLoop, hnumbers, if_neg Bool.false_ne_true]
  dsimp only
  rw [hopen, hclosed]
  dsimp only
  rw [Session.outcome_pushFrame, Stack.push, if_pos hfull]
  rfl

end Steps

end SessionAct

/-- A loop over an integer counter: the values that its FOR reads, the statement after the FOR, the NEXT, and the
frames of the loops and subroutines around it. -/
structure CountedLoop where
  counter : Name
  first : Int16
  last : Int16
  change : Int16
  body : Option Cursor
  close : Cursor
  below : List Frame

namespace CountedLoop

variable (loop : CountedLoop)

/-- The value of the counter after so many passes. -/
def value (k : Nat) : Int := loop.first.toInt + k * loop.change.toInt

/-- How many values are not beyond the limit. -/
def passes : Nat := passCount loop.first.toInt loop.last.toInt loop.change.toInt

def frame : Frame := .forLoop loop.counter (.int loop.last) (.int loop.change) loop.body

end CountedLoop

namespace Session

open Act SessionAct

/-- The next statement can be carried out at once. -/
structure Due (session : Session) : Prop where
  events : session.events = []
  loading : session.loading = none
  running : session.isRunning = true
  noBreak : session.keys.breakSeen = false

/-- A statement fails because the stack or the memory is full. -/
def RunsOut (session : Session) : Prop :=
  ∃ detail after, step.outcome session = (.error (.of .outOfMemory detail), after) ∧
    (Stack.maxSize ≤ after.stack.size ∨ Memory.maxCells < after.work.memory.cells.size)

variable (loop : CountedLoop)

/-- The session is about to carry out the FOR of the loop. The limit and the step are read once the counter has
its first value. A loop that is not entered has its NEXT in the text behind the FOR, outside of the loops that
are opened in between. -/
structure AtFor (start limit : Expr) (stride : Option Expr) (session : Session) : Prop where
  due : session.Due
  statement : session.nextStatement? = some (.command (.forLoop loop.counter start limit stride))
  type : loop.counter.type = .int
  first : ((eval start).outcome session.begun).1 = .ok (.int loop.first)
  bounds : ∀ after, (do let first ← eval start; storeScalar loop.counter first).outcome session.begun = (.ok ⟨⟩, after) →
    ((SessionAct.bounds limit stride).outcome after).1 = .ok (.int loop.last, .int loop.change)
  change : loop.change ≠ 0
  fits : -32768 ≤ loop.value loop.passes ∧ loop.value loop.passes ≤ 32767
  body : loop.body = session.cursor.bind session.program.advance?
  below : Frame.Around loop.counter session.stack.toList loop.below
  close : loop.passes = 0 → session.program.Finds Statement.weighLoops 0 loop.body 0 loop.close ∧
    session.program.statement? loop.close = some (.command (.next [loop.counter]))

/-- The session is at the start of the body, after so many passes. -/
structure AtBody (k : Nat) (session : Session) : Prop where
  cursor : session.cursor = loop.body
  counter : session.work.memory.fetch loop.counter = .int (Int16.ofInt (loop.value k))
  stack : session.stack.toList = loop.below ++ [loop.frame]

/-- The session is about to carry out the NEXT of the loop, after so many passes and the body once more. The
body has left the counter as it was, and the frames up to that of the loop. Above these it has left nothing
open but FOR loops over other counters. -/
structure AtNext (k : Nat) (session : Session) : Prop where
  due : session.Due
  cursor : session.cursor = some loop.close
  statement : session.program.statement? loop.close = some (.command (.next [loop.counter]))
  counter : session.work.memory.fetch loop.counter = .int (Int16.ofInt (loop.value k))
  stack : ∃ inner, session.stack.toList = loop.below ++ loop.frame :: inner ∧
    ∀ frame ∈ inner, frame.isFor = true ∧ frame.countsOver loop.counter = false

/-- The session is behind the loop. -/
structure Left (session : Session) : Prop where
  cursor : session.cursor = session.program.advance? loop.close
  counter : session.work.memory.fetch loop.counter = .int (Int16.ofInt (loop.value loop.passes))
  stack : session.stack.toList = loop.below

/-- After its FOR the loop was gone through so many times: each time the body was carried out from its start up
to the NEXT, and then the NEXT. -/
inductive Rounds (session : Session) : Nat → Session → Prop
  | opened {after : Session} (hstep : step.outcome session = (.ok ⟨⟩, after)) : Rounds session 0 after
  | again {k : Nat} {entry reached after : Session} (h : Rounds session k entry) (hentry : AtBody loop k entry)
      (hbody : Relation.ReflTransGen Move entry reached) (hnext : AtNext loop k reached)
      (hstep : step.outcome reached = (.ok ⟨⟩, after)) : Rounds session (k + 1) after

variable {loop} {session after : Session} {start limit : Expr} {stride : Option Expr} {k : Nat}

/-- The counter does not leave the sixteen bits before it is beyond the limit. -/
theorem value_fits (hfits : -32768 ≤ loop.value loop.passes ∧ loop.value loop.passes ≤ 32767) (hk : k ≤ loop.passes) :
    -32768 ≤ loop.value k ∧ loop.value k ≤ 32767 := by
  have hlow := loop.first.le_toInt
  have hhigh := loop.first.toInt_lt
  unfold CountedLoop.value at hfits ⊢
  have hle : (k : Int) ≤ loop.passes := by omega
  rcases Int.le_total 0 loop.change.toInt with hup | hdown
  · have hmore := Int.mul_le_mul_of_nonneg_right hle hup
    have hzero : 0 ≤ (k : Int) * loop.change.toInt := Int.mul_nonneg (by omega) hup
    omega
  · have hless := Int.mul_le_mul_of_nonpos_right hle hdown
    have hzero : (k : Int) * loop.change.toInt ≤ 0 := Int.mul_nonpos_of_nonneg_of_nonpos (by omega) hdown
    omega

theorem beyond_value_iff (hchange : loop.change.toInt ≠ 0) (k : Nat) :
    Beyond loop.last.toInt loop.change.toInt (loop.value k) ↔ loop.passes ≤ k :=
  beyond_iff hchange k

/-- A session that carries out a statement goes on behind it. -/
theorem begun_behind {cursor : Cursor} {next : Statement} (hcursor : session.cursor = some cursor)
    (hnext : session.nextStatement? = some next) :
    session.begun.cursor = session.program.advance? cursor ∧ session.begun.work = session.work ∧
      session.begun.stack = session.stack := by
  rw [begun_of_some hcursor hnext]
  unfold beginStatement
  split <;> exact ⟨rfl, rfl, rfl⟩

/-- What FOR has read when it opens its loop or passes it over, unless memory is full. -/
theorem AtFor.reads (hreach : session.Reachable) (h : AtFor loop start limit stride session) :
    (∃ work, SessionAct.step.outcome session =
        (openLoop loop.counter (.int loop.last) (.int loop.change)).outcome { session.begun with work } ∧
        work.memory.fetch loop.counter = .int loop.first) ∨ session.RunsOut := by
  have hsound : session.begun.Sound := hreach.ready.begun.toSound
  obtain ⟨cursor, -, hs⟩ := exists_cursor h.statement
  have hname : loop.counter.IsScanned :=
    List.forall_mem_singleton.mp ((Reachable.furnishedWith supplies_scanned hreach).program.command hs)
  have hstep : SessionAct.step.outcome session = (forLoop loop.counter start limit stride).outcome session.begun :=
    outcome_step h.statement
  rw [forLoop_eq (by rw [h.type]; decide), outcome_bind] at hstep
  obtain ⟨work, heval, hevaluated, -⟩ := hsound.exists_eval h.first
  rw [heval] at hstep
  dsimp only at hstep
  rw [outcome_bind] at hstep
  unfold RunsOut
  rw [hstep]
  obtain ⟨memory, houtcome, hstore, hfetch⟩ | ⟨houtcome, hfull⟩ :=
    outcome_storeScalar_int h.type { session.begun with work } loop.first
  · have hbounds := h.bounds _ (by rw [outcome_bind, heval]; exact houtcome)
    have htyped : memory.Typed := hevaluated.typed.store hname hstore
    have hstored : Sound { session.begun with work := { work with memory } } := hevaluated.withWork htyped
    obtain ⟨final, hread, hsame⟩ := exists_bounds hstored hbounds
    refine .inl ⟨final, ?_, ?_⟩
    · rw [houtcome]
      dsimp only
      rw [outcome_bind, hread]
    · exact (hsame loop.counter [] hname).trans hfetch
  · rw [houtcome]
    exact .inr ⟨"", _, rfl, .inr hfull⟩

/-- FOR opens the loop, passes it over or finds no room. -/
theorem AtFor.opens (hreach : session.Reachable) (h : AtFor loop start limit stride session) :
    (∃ after, SessionAct.step.outcome session = (.ok ⟨⟩, after) ∧
        (0 < loop.passes ∧ AtBody loop 0 after ∨ loop.passes = 0 ∧ Left loop after)) ∨ session.RunsOut := by
  obtain ⟨work, hstep, hfetch⟩ | hfull := h.reads hreach
  · obtain ⟨cursor, hcursor, hs⟩ := exists_cursor h.statement
    obtain ⟨hbehind, -, hstack⟩ := begun_behind hcursor h.statement
    have hprogram := program_begun session
    have hbody : loop.body = session.begun.cursor := by rw [h.body, hcursor, hbehind, Option.bind_some]
    have hchange : loop.change.toInt ≠ 0 := fun hzero => h.change (Int16.toInt_inj.mp hzero)
    have hstart : loop.value 0 = loop.first.toInt := by
      unfold CountedLoop.value
      omega
    have hover : Beyond loop.last.toInt loop.change.toInt loop.first.toInt ↔ loop.passes = 0 := by
      rw [← hstart, beyond_value_iff hchange, Nat.le_zero]
    have hcounter : Value.int loop.first = .int (Int16.ofInt (loop.value 0)) := by
      rw [hstart, Int16.ofInt_toInt]
    by_cases hpasses : loop.passes = 0
    · obtain ⟨hfinds, -⟩ := h.close hpasses
      have hfilled := hreach.furnished.program.wellFormed.nonempty
      have hclose : session.begun.program.closingNext? session.begun.program.span 0 session.begun.cursor =
          some loop.close := by
        rw [hprogram, ← hbody, Program.closingNext?_eq_some_iff hfilled]
        · exact ⟨0, hfinds⟩
        · rw [hbody, hbehind]
          exact fun next hnext => (Program.ahead_advance? hfilled (Option.isSome_of_eq_some hs) hnext).1
      obtain ⟨stack, hbelow, hopened⟩ := outcome_openLoop_of_beyond { session.begun with work }
        hchange hfetch (hstack ▸ h.below) (hover.mpr hpasses) hclose
      refine .inl ⟨_, hstep.trans hopened, .inr ⟨hpasses, rfl, ?_, hbelow⟩⟩
      rw [hpasses, ← hcounter]
      exact hfetch
    · obtain ⟨stack, hbelow, hopened⟩ | ⟨detail, after, hopened, hfull⟩ :=
        outcome_openLoop_of_not_beyond { session.begun with work } hchange hfetch (hstack ▸ h.below)
          (mt hover.mp hpasses)
      · refine .inl ⟨_, hstep.trans hopened, .inl ⟨Nat.pos_of_ne_zero hpasses, hbody.symm, ?_, ?_⟩⟩
        · rw [← hcounter]
          exact hfetch
        · rw [CountedLoop.frame, hbody]
          exact hbelow
      · exact .inr ⟨detail, after, hstep.trans hopened, .inl hfull⟩
  · exact .inr hfull

/-- NEXT goes through the loop once more, leaves it or finds no room. -/
theorem AtNext.steps (hchange : loop.change.toInt ≠ 0)
    (hfits : -32768 ≤ loop.value loop.passes ∧ loop.value loop.passes ≤ 32767) (hk : k < loop.passes)
    (htype : loop.counter.type = .int) (h : AtNext loop k session) :
    (∃ after, SessionAct.step.outcome session = (.ok ⟨⟩, after) ∧
        (k + 1 < loop.passes ∧ AtBody loop (k + 1) after ∨ k + 1 = loop.passes ∧ Left loop after)) ∨ session.RunsOut := by
  obtain ⟨inner, hstack, hinner⟩ := h.stack
  have hnext : session.nextStatement? = some (.command (.next [loop.counter])) := by
    rw [nextStatement?, h.cursor]
    exact h.statement
  obtain ⟨hcursor, hwork, hbegun⟩ := begun_behind h.cursor hnext
  have hprogram := program_begun session
  have hvalue := toInt_ofInt (value_fits hfits (Nat.le_of_lt hk))
  have hsucc : loop.value k + loop.change.toInt = loop.value (k + 1) := by
    unfold CountedLoop.value
    rw [Int.natCast_add, Int.add_mul]
    omega
  have hsum := value_fits hfits hk
  have hsteps := outcome_nextOne session.begun htype hchange (hbegun ▸ hstack) hinner
    (hwork ▸ h.counter) (by rw [hvalue, hsucc]; exact hsum)
  rw [hvalue, hsucc] at hsteps
  have hstep : SessionAct.step.outcome session =
      ((nextOne (some loop.counter)) >>= fun goes => if goes then pure () else nextEach []).outcome session.begun :=
    outcome_step hnext
  rw [outcome_bind] at hstep
  unfold RunsOut
  rw [hstep]
  obtain ⟨goes, after, hone, hstepped⟩ | ⟨after, hone, hfull⟩ := hsteps
  · rw [hone]
    have hover : Beyond loop.last.toInt loop.change.toInt (Int16.ofInt (loop.value (k + 1))).toInt ↔
        loop.passes ≤ k + 1 := by
      rw [toInt_ofInt hsum]
      exact beyond_value_iff hchange (k + 1)
    refine .inl ⟨after, by cases goes <;> rfl, ?_⟩
    rcases Nat.lt_or_eq_of_le hk with hless | hlast
    · obtain ⟨hbody, hopen⟩ := hstepped.goesOn (mt hover.mp (Nat.not_le.mpr hless))
      exact .inl ⟨hless, hbody, hstepped.counts, hopen⟩
    · obtain ⟨hbehind, hclosed⟩ := hstepped.ends (hover.mpr hlast.ge)
      refine .inr ⟨hlast, ?_, hlast ▸ hstepped.counts, hclosed⟩
      rw [hbehind, hcursor, hstepped.program, hprogram]
  · rw [hone]
    exact .inr ⟨"", after, rfl, .inr hfull⟩

/-- A step that is due is a move. -/
theorem Due.move (h : session.Due) (hstep : SessionAct.step.outcome session = (.ok ⟨⟩, after)) : Move session after := by
  have hmove := Move.step h.events h.loading h.running h.noBreak
  rwa [stepOrRaise_eq, hstep] at hmove

/-- A step that was carried out has come to the one or the other, since it did not run out of room. -/
theorem of_carriedOut {reaches : Session → Prop}
    (h : (∃ after, SessionAct.step.outcome session = (.ok ⟨⟩, after) ∧ reaches after) ∨ session.RunsOut)
    (hstep : SessionAct.step.outcome session = (.ok ⟨⟩, after)) : reaches after := by
  obtain ⟨found, hfound, hreaches⟩ | ⟨detail, found, hfound, -⟩ := h
  · rw [hstep] at hfound
    cases hfound
    exact hreaches
  · rw [hstep] at hfound
    cases hfound

/-- Inside the loop its frame is still there. -/
theorem AtBody.not_left (h : AtBody loop k session) : ¬Left loop session := by
  intro hleft
  have hlength := congrArg List.length (h.stack.symm.trans hleft.stack)
  simp at hlength

/-- **A counted loop is gone through once for each value that is not beyond the limit**, and for no other. Each
time the body is entered with the next value, and behind the loop the counter has the first value beyond the
limit and the frame of the loop is gone. The body may be anything that comes from its start to the NEXT, given
what it needs to know of the sessions that it starts in; and no FOR or NEXT may find stack or memory full. -/
theorem counted_loop_passes (hreach : session.Reachable) (h : AtFor loop start limit stride session)
    (hroom : ¬session.RunsOut) (good : Nat → Session → Prop)
    (hfor : ∀ after, SessionAct.step.outcome session = (.ok ⟨⟩, after) → good 0 after)
    (hbody : ∀ k < loop.passes, ∀ entry, good k entry → AtBody loop k entry →
      ∃ reached, Relation.ReflTransGen Move entry reached ∧ AtNext loop k reached ∧ ¬reached.RunsOut ∧
        ∀ after, SessionAct.step.outcome reached = (.ok ⟨⟩, after) → good (k + 1) after) :
    (∀ k, Beyond loop.last.toInt loop.change.toInt (loop.value k) ↔ loop.passes ≤ k) ∧
      (∀ k after, Rounds loop session k after → Relation.ReflTransGen Move session after ∧
        (k < loop.passes ∧ AtBody loop k after ∨ k = loop.passes ∧ Left loop after)) ∧
      ∃ after, Rounds loop session loop.passes after ∧ Left loop after := by
  have hchange : loop.change.toInt ≠ 0 := fun hzero => h.change (Int16.toInt_inj.mp hzero)
  have hrounds : ∀ k after, Rounds loop session k after → Relation.ReflTransGen Move session after ∧
      (k < loop.passes ∧ AtBody loop k after ∨ k = loop.passes ∧ Left loop after) := by
    intro k after hround
    induction hround with
    | opened hstep =>
        refine ⟨.single (h.due.move hstep), ?_⟩
        obtain hentered | ⟨hnone, hleft⟩ := of_carriedOut (h.opens hreach) hstep
        · exact .inl hentered
        · exact .inr ⟨hnone.symm, hleft⟩
    | again _ hentry hreached hnext hstep ih =>
        obtain ⟨hmoves, ⟨hk, -⟩ | ⟨-, hleft⟩⟩ := ih
        · refine ⟨(hmoves.trans hreached).tail (hnext.due.move hstep), ?_⟩
          exact of_carriedOut (hnext.steps hchange h.fits hk h.type) hstep
        · exact absurd hleft hentry.not_left
  refine ⟨beyond_value_iff hchange, hrounds, ?_⟩
  have hgoes : ∀ k ≤ loop.passes, ∃ after, Rounds loop session k after ∧ good k after := by
    intro k
    induction k with
    | zero =>
        intro _
        obtain ⟨after, hstep, -⟩ := (h.opens hreach).resolve_right hroom
        exact ⟨after, .opened hstep, hfor after hstep⟩
    | succ k ih =>
        intro hk
        obtain ⟨entry, hround, hgood⟩ := ih (Nat.le_of_succ_le hk)
        obtain ⟨-, ⟨-, hentry⟩ | ⟨hlast, -⟩⟩ := hrounds k entry hround
        · obtain ⟨reached, hmoves, hnext, hspace, hkeeps⟩ := hbody k hk entry hgood hentry
          obtain ⟨after, hstep, -⟩ := (hnext.steps hchange h.fits hk h.type).resolve_right hspace
          exact ⟨after, .again hround hentry hmoves hnext hstep, hkeeps after hstep⟩
        · omega
  obtain ⟨after, hround, -⟩ := hgoes loop.passes (Nat.le_refl _)
  obtain ⟨-, ⟨hless, -⟩ | ⟨-, hleft⟩⟩ := hrounds _ after hround
  · exact absurd hless (Nat.lt_irrefl _)
  · exact ⟨after, hround, hleft⟩

/-- A session that is about to count down, printing each value. -/
def beforeCountdown : Session :=
  afterCalls [.enter "10 FOR I%=3 TO 0 STEP -2: PRINT I%;: NEXT I%", .enter "RUN", .execute 1]

/-- The loop of the session. -/
def countdown : CountedLoop := ⟨⟨"I%"⟩, 3, 0, -2, some ⟨some 10, [1]⟩, ⟨some 10, [2]⟩, []⟩

/-- The sessions in which its body starts, and those in which it has come to the NEXT. -/
def countdownEntry : Nat → Session
  | 0 => (SessionAct.step.outcome beforeCountdown).2
  | k + 1 => (SessionAct.step.outcome (execute 1 (countdownEntry k)).2).2

/-- Those sessions from any one at a FOR on. -/
def entryFrom (session : Session) : Nat → Session
  | 0 => (SessionAct.step.outcome session).2
  | k + 1 => (SessionAct.step.outcome (execute 1 (entryFrom session k)).2).2

-- The equations of `countdownEntry` would be checked by carrying out the program, so its body is compared instead.
theorem countdownEntry_eq : countdownEntry = entryFrom beforeCountdown := by
  delta countdownEntry entryFrom
  rfl

theorem counted_loop_passes_countdown :
    beforeCountdown.Reachable ∧ AtFor countdown (.int 3) (.int 0) (some (.unary .negate (.int 2))) beforeCountdown ∧
      (∀ k < 2, AtNext countdown k (execute 1 (countdownEntry k)).2) ∧
      ∃ after, Rounds countdown beforeCountdown 2 after ∧ Left countdown after := by
  have hreach : beforeCountdown.Reachable := reachable_afterCalls _
  have hstart : (beforeCountdown.events = [] ∧ beforeCountdown.loading = none ∧ beforeCountdown.isRunning = true ∧
        beforeCountdown.keys.breakSeen = false) ∧
      beforeCountdown.cursor = some ⟨some 10, [0]⟩ ∧ beforeCountdown.stack.toList = [] ∧
      beforeCountdown.nextStatement? =
        some (.command (.forLoop countdown.counter (.int 3) (.int 0) (some (.unary .negate (.int 2))))) ∧
      countdown.body = beforeCountdown.cursor.bind beforeCountdown.program.advance? ∧
      ((eval (.int 3)).outcome beforeCountdown.begun).1 = .ok (.int countdown.first) ∧
      ((bounds (.int 0) (some (.unary .negate (.int 2)))).outcome
        ((do let first ← eval (.int 3); storeScalar countdown.counter first).outcome beforeCountdown.begun).2).1 =
        .ok (.int countdown.last, .int countdown.change) ∧
      (SessionAct.step.outcome beforeCountdown).1 = .ok ⟨⟩ := by
    rw [beforeCountdown, afterCalls_eq]
    decide +kernel
  obtain ⟨⟨hevents, hloading, hrunning, hbreak⟩, hcursor, hempty, hstatement, hbehind, hfirst, hbounds, hopens⟩ := hstart
  have hfor : AtFor countdown (.int 3) (.int 0) (some (.unary .negate (.int 2))) beforeCountdown := by
    refine ⟨⟨hevents, hloading, hrunning, hbreak⟩, hstatement, by decide, hfirst, fun after hafter => ?_, by decide,
      by decide, hbehind, .inl ⟨hempty.symm, fun outer loop inner hsplit => ?_⟩, fun hnone => absurd hnone (by decide)⟩
    · obtain rfl := congrArg Prod.snd hafter
      exact hbounds
    · simp [hempty] at hsplit
  have hreached : ∀ k < 2, ((execute 1 (countdownEntry k)).2.events = [] ∧
        (execute 1 (countdownEntry k)).2.loading = none ∧ (execute 1 (countdownEntry k)).2.isRunning = true ∧
        (execute 1 (countdownEntry k)).2.keys.breakSeen = false) ∧
      (execute 1 (countdownEntry k)).2.cursor = some countdown.close ∧
      (execute 1 (countdownEntry k)).2.program.statement? countdown.close = some (.command (.next [countdown.counter])) ∧
      (execute 1 (countdownEntry k)).2.work.memory.fetch countdown.counter = .int (Int16.ofInt (countdown.value k)) ∧
      (execute 1 (countdownEntry k)).2.stack.toList = [countdown.frame] ∧
      (SessionAct.step.outcome (execute 1 (countdownEntry k)).2).1 = .ok ⟨⟩ := by
    rw [countdownEntry_eq, beforeCountdown, afterCalls_eq]
    decide +kernel
  have hnext : ∀ k < 2, AtNext countdown k (execute 1 (countdownEntry k)).2 := by
    intro k hk
    obtain ⟨⟨hevents, hloading, hrunning, hbreak⟩, hcursor, hstatement, hcounter, hstack, -⟩ := hreached k hk
    exact ⟨⟨hevents, hloading, hrunning, hbreak⟩, hcursor, hstatement, hcounter, [], hstack, by simp⟩
  have hspace : ∀ found : Session, (SessionAct.step.outcome found).1 = .ok ⟨⟩ → ¬found.RunsOut := by
    rintro found hok ⟨detail, after, hfails, -⟩
    rw [hfails] at hok
    cases hok
  have hpasses := counted_loop_passes hreach hfor (hspace _ hopens) (fun k entry => entry = countdownEntry k)
    (fun after hstep => by rw [countdownEntry_eq, entryFrom, hstep]) fun k hk entry hentry _ => by
      subst hentry
      refine ⟨_, moves_execute 1 _, hnext k hk, hspace _ (hreached k hk).2.2.2.2.2, fun after hstep => ?_⟩
      rw [countdownEntry_eq, entryFrom, ← countdownEntry_eq, hstep]
  exact ⟨hreach, hfor, hnext, hpasses.2.2⟩

/-- A session that has opened a WHILE loop in the body, and one that has no room for another frame. -/
def beforeOpenWhile : Session :=
  afterCalls [.enter "10 FOR I%=1 TO 2: WHILE 1: NEXT I%", .enter "RUN", .execute 3]

def beforeFullStack : Session :=
  { afterCalls [.enter "10 FOR I%=1 TO 2: NEXT I%", .enter "RUN", .execute 1] with
    stack := ⟨"STACK OVERFLOW", List.replicate 65535 (.gosub none), 65535, by rw [List.length_replicate]⟩ }

/-- A body may leave the counter and the frame of its loop as they were and yet not come to another pass, where
it leaves a WHILE loop open; and a loop is not entered where the stack is full. -/
theorem counted_loop_meets_obstacles :
    beforeOpenWhile.cursor = some ⟨some 10, [2]⟩ ∧
      beforeOpenWhile.work.memory.fetch ⟨"I%"⟩ = .int 1 ∧
      [.forLoop ⟨"I%"⟩ (.int 2) (.int 1) (some ⟨some 10, [1]⟩)] <+: beforeOpenWhile.stack.toList ∧
      (SessionAct.step.outcome beforeOpenWhile).1 = .error (.of .nextWithoutFor) ∧
      beforeFullStack.cursor = some ⟨some 10, [0]⟩ ∧
      (SessionAct.step.outcome beforeFullStack).1 = .error (.of .outOfMemory "STACK OVERFLOW") := by
  obtain ⟨hcursor, hcounter, hstack, hfails⟩ : beforeOpenWhile.cursor = some ⟨some 10, [2]⟩ ∧
      beforeOpenWhile.work.memory.fetch ⟨"I%"⟩ = .int 1 ∧
      [.forLoop ⟨"I%"⟩ (.int 2) (.int 1) (some ⟨some 10, [1]⟩)] <+: beforeOpenWhile.stack.toList ∧
      (SessionAct.step.outcome beforeOpenWhile).1 = .error (.of .nextWithoutFor) := by
    rw [beforeOpenWhile, afterCalls_eq]
    decide +kernel
  obtain ⟨hcursor', hnext, hreads, hopen⟩ : beforeFullStack.cursor = some ⟨some 10, [0]⟩ ∧
      beforeFullStack.nextStatement? = some (.command (.forLoop ⟨"I%"⟩ (.int 1) (.int 2) none)) ∧
      ((do let first ← eval (.int 1); storeScalar ⟨"I%"⟩ first; bounds (.int 2) none).outcome
        beforeFullStack.begun).1 = .ok (.int 2, .int 1) ∧
      isPast (((do let first ← eval (.int 1); storeScalar ⟨"I%"⟩ first; bounds (.int 2) none).outcome
        beforeFullStack.begun).2.work.memory.fetch ⟨"I%"⟩) (.int 2) (.int 1) = .ok false := by
    rw [beforeFullStack, afterCalls_eq]
    decide +kernel
  have hbegun : beforeFullStack.begun.stack = beforeFullStack.stack := (begun_behind hcursor' hnext).2.2
  have hother : beforeFullStack.stack.lastIndex? (Frame.countsOver ⟨"I%"⟩) = none := by
    have hnone : ∀ frame ∈ List.replicate 65535 (Frame.gosub none), frame.countsOver ⟨"I%"⟩ = false := by
      intro frame hframe
      rw [List.eq_of_mem_replicate hframe]
      rfl
    unfold Stack.lastIndex?
    rw [Option.map_eq_none_iff, List.findIdx?_eq_none_iff]
    exact hnone
  refine ⟨hcursor, hcounter, hstack, hfails, hcursor', ?_⟩
  have hfull : Stack.maxSize ≤ beforeFullStack.stack.size := Nat.le_refl _
  have hdetail : beforeFullStack.stack.overflow = "STACK OVERFLOW" := rfl
  rw [← hbegun] at hother hfull hdetail
  rw [outcome_step hnext, statement, command, ← hdetail]
  exact outcome_forLoop_of_full (by decide) hreads rfl hopen hother hfull

end Session

end LineBasic
