import Mathlib.Data.List.DropRight
import LineBasic.Proofs.CellTexts
import LineBasic.Proofs.Moves

/-! The sigil of a single. A variable without a sigil and the one with the sigil of a single are the same:
whatever is evaluated, stored, read, declared or kept is the same with and without it. Two programs that
differ in such sigils have their statements in the same places. Only FOR and NEXT compare names themselves,
so that nothing is said here about what they do. -/

namespace LineBasic

namespace Name

/-- The name of a variable without the sigil of a single. Names of functions stay as they are, and so does a
name that would have another type. -/
def bare (name : Name) : Name :=
  if name.isFunction = false ∧ (⟨name.key⟩ : Name).type = .single then ⟨name.key⟩ else name

theorem key_key (name : Name) : (⟨name.key⟩ : Name).key = name.key := by
  refine congrArg String.ofList ?_
  change Text.dropEndWhile _ name.key.toList = _
  rw [toList_key, Text.dropEndWhile, Text.dropEndWhile, List.reverse_reverse, List.dropWhile_idempotent]

theorem type_of_key (name : Name) (h : (⟨name.key⟩ : Name).type = .single) : name.type = .single := by
  have hparts := Text.dropEndWhile_append_takeWhile (· == '!') name.spelling.toList
  rw [← toList_key] at hparts
  cases hdropped : (name.spelling.toList.reverse.takeWhile (· == '!')) with
  | nil =>
      rw [hdropped, List.reverse_nil, List.append_nil] at hparts
      rw [← h, type, type, ← hparts]
  | cons c rest =>
      have hc : c ∈ name.spelling.toList.reverse.takeWhile (· == '!') := hdropped ▸ List.mem_cons_self
      have hlast : name.spelling.toList.getLast? = some '!' := by
        rw [← hparts, hdropped, List.reverse_cons, ← List.append_assoc, List.getLast?_concat]
        exact congrArg some (by simpa using List.mem_takeWhile_imp hc)
      rw [type, hlast]
      rfl

theorem isFunction_of_key {name : Name} (h : name.isFunction = false) : (⟨name.key⟩ : Name).isFunction = false := by
  have hparts := Text.dropEndWhile_append_takeWhile (· == '!') name.spelling.toList
  rw [← toList_key] at hparts
  unfold isFunction at h ⊢
  dsimp only
  split
  · rename_i rest hkey
    rw [← hparts, hkey] at h
    cases h
  · rfl

@[simp]
theorem key_bare (name : Name) : name.bare.key = name.key := by
  unfold bare
  split
  · exact key_key name
  · rfl

@[simp]
theorem type_bare (name : Name) : name.bare.type = name.type := by
  unfold bare
  split
  · rename_i h
    rw [h.2, type_of_key name h.2]
  · rfl

@[simp]
theorem isFunction_bare (name : Name) : name.bare.isFunction = name.isFunction := by
  unfold bare
  split
  · rename_i h
    rw [h.1, isFunction_of_key h.1]
  · rfl

theorem bare_of_isFunction {name : Name} (h : name.isFunction = true) : name.bare = name := by
  unfold bare
  rw [h]
  rfl

theorem key_of_isSigil {name : Name} (hsigil : ∀ c ∈ name.spelling.toList.getLast?, Token.isSigil c = false) :
    name.key = name.spelling := by
  rw [← String.toList_inj, toList_key]
  refine List.rdropWhile_eq_self_iff.mpr fun hne => ?_
  have hlast := hsigil _ (List.getLast?_eq_some_getLast hne)
  simp only [Token.isSigil, Bool.or_eq_false_iff] at hlast
  simp [hlast.1.2]

theorem bare_of_sigilless {name : Name} (hsigil : ∀ c ∈ name.spelling.toList.getLast?, Token.isSigil c = false) :
    name.bare = name := by
  rw [bare, key_of_isSigil hsigil, ite_self]

/-- A variable without a sigil and the same one with the sigil of a single. -/
theorem bare_exclaim {name : Name} (hfunction : name.isFunction = false)
    (hsigil : ∀ c ∈ name.spelling.toList.getLast?, Token.isSigil c = false) :
    (⟨name.spelling ++ "!"⟩ : Name).bare = name := by
  have hkey : (⟨name.spelling ++ "!"⟩ : Name).key = name.spelling := by
    refine Eq.trans ?_ (key_of_isSigil hsigil)
    rw [← String.toList_inj, toList_key, toList_key, String.toList_append]
    simp [Text.dropEndWhile]
  have hsame : (⟨name.spelling ++ "!"⟩ : Name).isFunction = false := by
    unfold isFunction at hfunction ⊢
    rw [String.toList_append]
    rcases hspelling : name.spelling.toList with _ | ⟨c, _ | ⟨d, rest⟩⟩
    · rfl
    · simp
    · rw [hspelling] at hfunction
      split
      · rename_i heq
        cases heq
        cases hfunction
      · rfl
  have htype : name.type = .single := by
    unfold type
    cases hlast : name.spelling.toList.getLast? with
    | none => rfl
    | some c =>
        have hc := hsigil c hlast
        simp only [Token.isSigil, Bool.or_eq_false_iff, beq_eq_false_iff_ne] at hc
        split <;> simp_all
  rw [bare, hkey, if_pos ⟨hsame, htype⟩]

end Name

namespace Expr

mutual

/-- The expression without the sigil of a single at its variables. -/
def bare : Expr → Expr
  | scalar name => scalar name.bare
  | element name subscripts => element name.bare (bareAll subscripts)
  | call name arguments => call name (bareAll arguments)
  | unary op operand => unary op operand.bare
  | binary op left right => binary op left.bare right.bare
  | constant => constant

/-- Expressions without the sigil of a single at their variables. -/
def bareAll : List Expr → List Expr
  | [] => []
  | first :: rest => first.bare :: bareAll rest

end

end Expr

namespace Memory

@[simp]
theorem fetch_bare (memory : Memory) (name : Name) : memory.fetch name.bare = memory.fetch name := by
  rw [fetch, fetch, Name.key_bare, Name.type_bare]

@[simp]
theorem store_bare (memory : Memory) (name : Name) (value : Value) :
    memory.store name.bare value = memory.store name value := by
  rw [store, store, Name.key_bare, Name.type_bare]

theorem cellOf_bare (name : Name) (indices : List Int16) : cellOf name.bare indices = cellOf name indices := by
  rw [cellOf, cellOf, Name.key_bare]

theorem locate_bare (name : Name) (values : List Value) : locate name.bare values = locate name values := by
  unfold locate
  simp only [Name.key_bare, cellOf_bare]

@[simp]
theorem fetchElement_bare (name : Name) (values : List Value) :
    fetchElement name.bare values = fetchElement name values := by
  rw [fetchElement, fetchElement, locate_bare, Name.type_bare]

@[simp]
theorem storeElement_bare (name : Name) (values : List Value) (value : Value) :
    storeElement name.bare values value = storeElement name values value := by
  rw [storeElement, storeElement, locate_bare, Name.type_bare]

@[simp]
theorem declare_bare (memory : Memory) (name : Name) (values : List Value) :
    memory.declare name.bare values = memory.declare name values := by
  rw [declare, declare, Name.key_bare]

theorem retain_map_bare (memory : Memory) (names : List Name) :
    memory.retain (names.map Name.bare) = memory.retain names := by
  have hkeys : (names.map Name.bare).map Name.key = names.map Name.key := by
    rw [List.map_map]
    exact List.map_congr_left fun name _ => Name.key_bare name
  rw [retain, retain, hkeys]

end Memory

/-- A function without the sigil of a single at its parameters and in its body. -/
def UserFunction.bare (function : UserFunction) : UserFunction :=
  ⟨function.parameters.map Name.bare, function.body.bare⟩

/-- Scopes that differ in sigils of singles only. -/
structure Scope.Alike (scope other : Scope) : Prop where
  functions : ∀ name : String,
    (scope.functions[name]?).map UserFunction.bare = (other.functions[name]?).map UserFunction.bare
  faultCode : other.faultCode = scope.faultCode
  faultLine : other.faultLine = scope.faultLine

theorem Scope.Alike.refl (scope : Scope) : scope.Alike scope := ⟨fun _ => rfl, rfl, rfl⟩

namespace Workspace

variable {scope other : Scope}

mutual

/-- Evaluation does not see the sigil of a single, if calls do not. -/
theorem evalWith_bare (h : scope.Alike other) (call : Name → List Value → Act Workspace Value) (expr : Expr) :
    evalWith other call expr.bare = evalWith scope call expr := by
  cases expr with
  | int _ | single _ | double _ | text _ | truth _ | cursorRow =>
      rw [Expr.bare, evalWith, evalWith] <;> nofun
  | faultLine => rw [Expr.bare, evalWith, evalWith, h.faultLine] <;> nofun
  | faultCode => rw [Expr.bare, evalWith, evalWith, h.faultCode] <;> nofun
  | scalar name =>
      rw [Expr.bare, evalWith, evalWith, Name.isFunction_bare]
      split
      · rename_i hfunction
        rw [Name.bare_of_isFunction hfunction]
      · simp only [Memory.fetch_bare]
  | element name subscripts =>
      rw [Expr.bare, evalWith, evalWith, evalAllWith_bare h]
      simp only [Memory.fetchElement_bare]
  | call name arguments => rw [Expr.bare, evalWith, evalWith, evalAllWith_bare h]
  | unary op operand => rw [Expr.bare, evalWith, evalWith, evalWith_bare h]
  | binary op left right => rw [Expr.bare, evalWith, evalWith, evalWith_bare h, evalWith_bare h]

theorem evalAllWith_bare (h : scope.Alike other) (call : Name → List Value → Act Workspace Value)
    (exprs : List Expr) : evalAllWith other call (Expr.bareAll exprs) = evalAllWith scope call exprs := by
  cases exprs with
  | nil => rw [Expr.bareAll, evalAllWith, evalAllWith]
  | cons first rest => rw [Expr.bareAll, evalAllWith, evalAllWith, evalWith_bare h, evalAllWith_bare h]

end

theorem storeAll_bare (values : List (Name × Value)) :
    storeAll (values.map fun entry => (entry.1.bare, entry.2)) = storeAll values := by
  induction values with
  | nil => rfl
  | cons first rest ih =>
      rw [List.map_cons, storeAll, storeAll, ih]
      simp only [Memory.store_bare]

section Calls

variable {call : Name → List Value → Act Workspace Value}

/-- What a call does once its function is found. -/
def apply (call : Name → List Value → Act Workspace Value) (scope : Scope) (function : UserFunction) (name : Name)
    (arguments : List Value) : Act Workspace Value := do
  let work ← get
  if work.depth ≥ maxDepth then throw (.of .outOfMemory)
  else
    storeAll (function.parameters.zip arguments)
    let result ← (deeper (evalWith scope call function.body)).attempt
    storeAll (function.parameters.map fun name => (name, work.memory.fetch name))
    let value ← result
    if (name.type == .text) = value.isText then return value else throw (.of .typeMismatch)

theorem callUser_succ (scope : Scope) (remaining : Nat) (name : Name) (arguments : List Value) :
    callUser scope (remaining + 1) name arguments =
      match functionFor scope name arguments.length with
      | .ok function => apply (callUser scope remaining) scope function name arguments
      | .error fault => throw fault := by
  rw [callUser]
  cases functionFor scope name arguments.length <;> rfl

theorem apply_bare (h : scope.Alike other) (function : UserFunction) (name : Name) (arguments : List Value) :
    apply call other function.bare name arguments = apply call scope function name arguments := by
  have harguments : function.bare.parameters.zip arguments =
      (function.parameters.zip arguments).map fun entry => (entry.1.bare, entry.2) := by
    rw [UserFunction.bare, List.zip_map_left]
    rfl
  have hback : ∀ memory : Memory, (function.bare.parameters.map fun name => (name, memory.fetch name)) =
      (function.parameters.map fun name => (name, memory.fetch name)).map fun entry => (entry.1.bare, entry.2) := by
    intro memory
    rw [UserFunction.bare, List.map_map, List.map_map]
    exact List.map_congr_left fun name _ => by simp
  unfold apply
  simp only [harguments, hback, storeAll_bare]
  rw [UserFunction.bare, evalWith_bare h]

/-- The functions that two scopes have for a call are the same but for sigils of singles, or there is none for
the same reason. -/
theorem functionFor_cases (h : scope.Alike other) (name : Name) (count : Nat) :
    (∃ fault, functionFor scope name count = .error fault ∧ functionFor other name count = .error fault) ∨
      ∃ function function', functionFor scope name count = .ok function ∧
        functionFor other name count = .ok function' ∧ function.bare = function'.bare := by
  have hfunctions := h.functions name.spelling
  unfold functionFor
  cases hscope : scope.functions[name.spelling]? with
  | none =>
      rw [hscope, Option.map_none, eq_comm, Option.map_eq_none_iff] at hfunctions
      rw [hfunctions]
      exact .inl ⟨_, rfl, rfl⟩
  | some function =>
      rw [hscope, Option.map_some, eq_comm, Option.map_eq_some_iff] at hfunctions
      obtain ⟨function', hother, hbare⟩ := hfunctions
      have hlength : function'.parameters.length = function.parameters.length := by
        simpa [UserFunction.bare] using congrArg (fun found => found.parameters.length) hbare
      rw [hother]
      dsimp only
      rw [hlength]
      split
      · exact .inr ⟨function, function', rfl, rfl, hbare.symm⟩
      · exact .inl ⟨_, rfl, rfl⟩

/-- Calls of functions that differ in sigils of singles are the same. -/
theorem callUser_alike (h : scope.Alike other) (remaining : Nat) :
    callUser other remaining = callUser scope remaining := by
  induction remaining with
  | zero =>
      funext name arguments
      rw [callUser, callUser]
      obtain ⟨fault, hscope, hother⟩ | ⟨function, function', hscope, hother, -⟩ :=
        functionFor_cases h name arguments.length
      · rw [hscope, hother]
      · rw [hscope, hother]
        rfl
  | succ remaining ih =>
      funext name arguments
      rw [callUser_succ, callUser_succ]
      obtain ⟨fault, hscope, hother⟩ | ⟨function, function', hscope, hother, hbare⟩ :=
        functionFor_cases h name arguments.length
      · rw [hscope, hother]
      · rw [hscope, hother]
        dsimp only
        rw [ih, ← apply_bare h function, hbare, apply_bare (.refl other)]

end Calls

/-- **Evaluation does not see the sigil of a single**, be it in an expression or in the functions of the
program. -/
theorem eval_alike (h : scope.Alike other) (expr : Expr) : eval other expr.bare = eval scope expr := by
  unfold eval
  simp only [callUser_alike h, evalWith_bare h]

theorem evalAll_alike (h : scope.Alike other) (exprs : List Expr) :
    evalAll other (Expr.bareAll exprs) = evalAll scope exprs := by
  unfold evalAll
  simp only [callUser_alike h, evalAllWith_bare h]

end Workspace

/-- A variable without the sigil of a single. -/
def Variable.bare : Variable → Variable
  | scalar name => scalar name.bare
  | element name subscripts => element name.bare (Expr.bareAll subscripts)

theorem Variable.name_bare (target : Variable) : target.bare.name = target.name.bare := by
  cases target <;> rfl

def PrintItem.bare : PrintItem → PrintItem
  | expr value => expr value.bare
  | mark => mark

/-- A command without the sigil of a single at its variables. -/
def Command.bare : Command → Command
  | chain path line all => chain path.bare line all
  | clear arguments => clear (arguments.map (Option.map Expr.bare))
  | color arguments => color (arguments.map (Option.map Expr.bare))
  | common names => common (names.map Name.bare)
  | define name parameters body => define name (parameters.map Name.bare) body.bare
  | dim targets => dim (targets.map Variable.bare)
  | error code => error code.bare
  | files pattern => files (pattern.map Expr.bare)
  | forLoop counter start limit step => forLoop counter.bare start.bare limit.bare (step.map Expr.bare)
  | key number text => key number.bare text.bare
  | assign target value => assign target.bare value.bare
  | load path andRun => load path.bare andRun
  | locate arguments => locate (arguments.map (Option.map Expr.bare))
  | merge path => merge path.bare
  | next counters => next (counters.map Name.bare)
  | onGoto selector lines => onGoto selector.bare lines
  | onGosub selector lines => onGosub selector.bare lines
  | palette arguments => palette (arguments.map (Option.map Expr.bare))
  | print items => print (items.map PrintItem.bare)
  | read targets => read (targets.map Variable.bare)
  | screen arguments => screen (arguments.map (Option.map Expr.bare))
  | whileLoop condition => whileLoop condition.bare
  | unnamed => unnamed

/-- Whether names are kept, compared or shown as they are spelled. -/
def Command.keepsNames : Command → Bool
  | define _ _ _ | forLoop _ _ _ _ | next _ | list _ _ => true
  | _ => false

theorem Command.keepsNames_bare (c : Command) : c.bare.keepsNames = c.keepsNames := by
  cases c <;> rfl

namespace Statement

mutual

/-- A statement without the sigil of a single at its variables. -/
def bare : Statement → Statement
  | command c => command c.bare
  | choice condition thenList elseList => choice condition.bare (bareAll thenList) (bareAll elseList)

/-- Statements without the sigil of a single at their variables. -/
def bareAll : List Statement → List Statement
  | [] => []
  | first :: rest => first.bare :: bareAll rest

end

theorem eq_new_of_bare {s : Statement} (h : s.bare = command .new) : s = command .new := by
  cases s with
  | choice condition thenList elseList =>
      rw [bare] at h
      cases h
  | command c =>
      rw [bare] at h
      injection h with h
      cases c <;> first | rfl | cases h

theorem bareAll_eq_map (list : List Statement) : bareAll list = list.map bare := by
  induction list with
  | nil => rw [bareAll, List.map_nil]
  | cons first rest ih => rw [bareAll, ih, List.map_cons]

end Statement

namespace SessionAct

@[simp]
theorem eval_bare (expr : Expr) : eval expr.bare = eval expr := by
  unfold eval
  simp only [Workspace.eval_alike (.refl _)]

@[simp]
theorem evalAll_bare (exprs : List Expr) : evalAll (Expr.bareAll exprs) = evalAll exprs := by
  unfold evalAll
  simp only [Workspace.evalAll_alike (.refl _)]

@[simp]
theorem evalInt_bare (expr : Expr) : evalInt expr.bare = evalInt expr := by
  rw [evalInt, evalInt, eval_bare]

@[simp]
theorem evalText_bare (expr : Expr) : evalText expr.bare = evalText expr := by
  rw [evalText, evalText, eval_bare]

@[simp]
theorem evalInts_bare (arguments : List (Option Expr)) :
    evalInts (arguments.map (Option.map Expr.bare)) = evalInts arguments := by
  induction arguments with
  | nil => rfl
  | cons first rest ih =>
      cases first with
      | none => rw [List.map_cons, Option.map_none, evalInts, evalInts, ih]
      | some expr => rw [List.map_cons, Option.map_some, evalInts, evalInts, ih, evalInt_bare]

@[simp]
theorem storeScalar_bare (name : Name) (value : Value) : storeScalar name.bare value = storeScalar name value := by
  unfold storeScalar
  simp only [Memory.store_bare]

@[simp]
theorem store_bare (target : Variable) (value : Value) : store target.bare value = store target value := by
  cases target with
  | scalar name => rw [Variable.bare, store, store, storeScalar_bare]
  | element name subscripts =>
      rw [Variable.bare, store, store, evalAll_bare]
      simp only [Memory.storeElement_bare]

@[simp]
theorem isOver_bare (counter : Name) (limit step : Value) :
    isOver counter.bare limit step = isOver counter limit step := by
  unfold isOver
  simp only [Memory.fetch_bare]

theorem dim_bare (targets : List Variable) : dim (targets.map Variable.bare) = dim targets := by
  induction targets with
  | nil => rfl
  | cons first rest ih =>
      cases first with
      | scalar name => rw [List.map_cons, Variable.bare, dim, dim, ih]
      | element name subscripts =>
          rw [List.map_cons, Variable.bare, dim, dim, ih, evalAll_bare]
          simp only [Memory.declare_bare]

theorem readItem_bare (target : Variable) : readItem target.bare = readItem target := by
  unfold readItem
  simp only [Variable.name_bare, Name.type_bare]

theorem read_bare (targets : List Variable) : read (targets.map Variable.bare) = read targets := by
  induction targets with
  | nil => rfl
  | cons first rest ih => rw [List.map_cons, read, read, ih, readItem_bare, funext (store_bare first)]

theorem printText_bare (column : Nat) (text : String) (items : List PrintItem) :
    printText column text (items.map PrintItem.bare) = printText column text items := by
  induction items generalizing text with
  | nil => rfl
  | cons first rest ih =>
      cases first with
      | expr value =>
          rw [List.map_cons, PrintItem.bare, printText, printText, eval_bare]
          simp only [ih]
      | comma =>
          rw [List.map_cons, PrintItem.bare, printText, printText, ih]
          nofun
      | semicolon =>
          rw [List.map_cons, PrintItem.bare, printText, printText, ih]
          nofun

theorem staysOnLine_bare (items : List PrintItem) : staysOnLine (items.map PrintItem.bare) = staysOnLine items := by
  unfold staysOnLine
  rw [List.getLast?_map]
  cases items.getLast? with
  | none => rfl
  | some item => cases item <;> rfl

theorem printItems_bare (items : List PrintItem) : printItems (items.map PrintItem.bare) = printItems items := by
  unfold printItems
  simp only [printText_bare, staysOnLine_bare]

/-- What a command does has nothing to do with sigils of singles, unless it keeps, compares or shows names. -/
theorem command_bare {c : Command} (h : c.keepsNames = false) : command c.bare = command c := by
  cases c with
  | define | forLoop | next | list => cases h
  | chain path _ _ | load path _ | merge path =>
      rw [Command.bare, command, command, requestLoad, requestLoad, evalText_bare]
  | clear arguments | color arguments | locate arguments | screen arguments =>
      rw [Command.bare, command, command, evalInts_bare]
  | palette arguments => rw [Command.bare, command, command, palette, palette, evalInts_bare]
  | common names => rfl
  | dim targets => rw [Command.bare, command, command, dim_bare]
  | error code => rw [Command.bare, command, command, raiseCode, raiseCode, evalInt_bare]
  | files pattern =>
      cases pattern with
      | none => rfl
      | some expr =>
          rw [Command.bare, Option.map_some, command, command]
          simp only [evalText_bare]
  | key number text =>
      rw [Command.bare, command, command, assignKey, assignKey, evalInt_bare, evalText_bare]
  | assign target value =>
      rw [Command.bare, command, command, eval_bare, funext (store_bare target)]
  | onGoto selector lines | onGosub selector lines =>
      rw [Command.bare, command, command, selected, selected, evalInt_bare]
  | print items => rw [Command.bare, command, command, printItems_bare]
  | read targets => rw [Command.bare, command, command, read_bare]
  | whileLoop condition => rw [Command.bare, command, command, whileLoop, whileLoop, eval_bare]
  | _ => rfl

theorem choose_bare (condition : Expr) : choose condition.bare = choose condition := by
  rw [choose, choose, eval_bare]

end SessionAct

namespace Statement

mutual

theorem commands_bare (s : Statement) : s.bare.commands = s.commands.map Command.bare := by
  cases s with
  | command c => rw [bare, commands, commands, List.map_singleton]
  | choice condition thenList elseList =>
      rw [bare, commands, commands, List.map_append, commandsOfAll_bare, commandsOfAll_bare]

theorem commandsOfAll_bare (list : List Statement) :
    commandsOfAll (bareAll list) = (commandsOfAll list).map Command.bare := by
  cases list with
  | nil => rw [bareAll, commandsOfAll, List.map_nil]
  | cons first rest =>
      rw [bareAll, commandsOfAll, commandsOfAll, List.map_append, commands_bare, commandsOfAll_bare]

end

mutual

theorem count_bare (s : Statement) : s.bare.count = s.count := by
  cases s with
  | command c => rw [bare, count, count]
  | choice condition thenList elseList => rw [bare, count, count, countAll_bare, countAll_bare]

theorem countAll_bare (list : List Statement) : countAll (bareAll list) = countAll list := by
  cases list with
  | nil => rw [bareAll]
  | cons first rest => rw [bareAll, countAll, countAll, count_bare, countAll_bare]

end

end Statement

theorem statementAt?_bareAll (list : List Statement) (path : List Nat) :
    statementAt? (Statement.bareAll list) path = (statementAt? list path).map Statement.bare := by
  have hget : ∀ (list : List Statement) (index : Nat),
      (Statement.bareAll list)[index]? = (list[index]?).map Statement.bare := by
    intro list index
    rw [Statement.bareAll_eq_map, List.getElem?_map]
  induction list, path using statementAt?.induct with
  | case1 list index => exact hget list index
  | case2 list index branch rest condition thenList elseList hchoice ih =>
      rw [statementAt?, statementAt?, hget, hchoice, Option.map_some, Statement.bare]
      dsimp only
      rw [← ih]
      split <;> rfl
  | case3 list index branch rest hother =>
      have hnone : statementAt? list (index :: branch :: rest) = none := by
        rw [statementAt?]
        split
        · exact absurd ‹_› (hother _ _ _)
        · rfl
      rw [hnone, statementAt?, hget]
      cases hat : list[index]? with
      | none => rfl
      | some s =>
          cases s with
          | command c =>
              rw [Option.map_some, Statement.bare]
              rfl
          | choice condition thenList elseList => exact absurd hat (hother _ _ _)
  | case4 list => rw [statementAt?, statementAt?, Option.map_none]

namespace Program

/-- A program without the sigil of a single at its variables. -/
def bare (program : Program) : Program where
  lines :=
    { entries := program.lines.entries.map fun entry => (entry.1, Statement.bareAll entry.2)
      ascending := List.pairwise_map.mpr program.lines.ascending }
  direct := Statement.bareAll program.direct
  guarded := program.guarded

variable (program : Program)

theorem get?_bare (number : Nat) :
    program.bare.lines.get? number = (program.lines.get? number).map Statement.bareAll := by
  unfold Numbered.get? bare
  dsimp only
  induction program.lines.entries with
  | nil => rfl
  | cons first rest ih =>
      rw [List.map_cons, List.lookup_cons, List.lookup_cons, ih]
      split <;> rfl

theorem statementsOf?_bare (line : Option Nat) :
    program.bare.statementsOf? line = (program.statementsOf? line).map Statement.bareAll := by
  cases line with
  | none => rfl
  | some number => exact program.get?_bare number

@[simp]
theorem statement?_bare (cursor : Cursor) :
    program.bare.statement? cursor = (program.statement? cursor).map Statement.bare := by
  unfold statement?
  rw [statementsOf?_bare]
  cases program.statementsOf? cursor.line with
  | none => rfl
  | some list => exact statementAt?_bareAll list cursor.path

@[simp]
theorem after?_bare (number : Nat) : program.bare.lines.after? number = program.lines.after? number := by
  unfold Numbered.after? bare
  dsimp only
  rw [List.find?_map, Option.map_map]
  rfl

@[simp]
theorem advance?_bare (cursor : Cursor) : program.bare.advance? cursor = program.advance? cursor := by
  unfold advance?
  simp only [statement?_bare, Option.isSome_map, after?_bare]

@[simp]
theorem start_bare (number : Nat) : program.bare.start number = program.start number := by
  unfold start Numbered.contains
  rw [get?_bare, Option.isSome_map]

@[simp]
theorem firstCursor?_bare : program.bare.firstCursor? = program.firstCursor? := by
  unfold firstCursor? Numbered.first? bare
  simp only [List.head?_map, Option.map_map]
  rfl

@[simp]
theorem enterBranch?_bare (cursor : Cursor) (branch : Nat) :
    program.bare.enterBranch? cursor branch = program.enterBranch? cursor branch := by
  have hempty : ∀ list : List Statement, (Statement.bareAll list).isEmpty = list.isEmpty := by
    intro list
    rw [Statement.bareAll_eq_map, List.isEmpty_map]
  unfold enterBranch?
  rw [statement?_bare]
  cases program.statement? cursor with
  | none => rfl
  | some s =>
      cases s with
      | command c =>
          rw [Option.map_some, Statement.bare]
      | choice condition thenList elseList =>
          rw [Option.map_some, Statement.bare]
          dsimp only
          split <;> rw [hempty]

@[simp]
theorem span_bare : program.bare.span = program.span := by
  unfold span bare
  dsimp only
  rw [List.foldr_map, Statement.countAll_bare]
  simp only [Statement.countAll_bare]

@[simp]
theorem closingNext?_bare (span opened : Nat) (cursor : Option Cursor) :
    program.bare.closingNext? span opened cursor = program.closingNext? span opened cursor := by
  induction span generalizing opened cursor with
  | zero => rfl
  | succ span ih =>
      cases cursor with
      | none => rfl
      | some cursor =>
          rw [closingNext?, closingNext?, statement?_bare]
          simp only [ih, advance?_bare]
          cases program.statement? cursor with
          | none => rfl
          | some s =>
              cases s with
              | choice condition thenList elseList =>
                  rw [Option.map_some, Statement.bare]
              | command c =>
                  rw [Option.map_some, Statement.bare]
                  cases c with
                  | next counters =>
                      rw [Command.bare]
                      dsimp only
                      rw [List.length_map]
                  | _ => rfl

@[simp]
theorem closingWend?_bare (span opened : Nat) (cursor : Option Cursor) :
    program.bare.closingWend? span opened cursor = program.closingWend? span opened cursor := by
  induction span generalizing opened cursor with
  | zero => rfl
  | succ span ih =>
      cases cursor with
      | none => rfl
      | some cursor =>
          rw [closingWend?, closingWend?, statement?_bare]
          simp only [ih, advance?_bare]
          cases program.statement? cursor with
          | none => rfl
          | some s =>
              cases s with
              | choice condition thenList elseList =>
                  rw [Option.map_some, Statement.bare]
              | command c =>
                  rw [Option.map_some, Statement.bare]
                  cases c <;> rfl

@[simp]
theorem data_bare : program.bare.data = program.data := by
  unfold data bare
  dsimp only
  rw [List.flatMap_map]
  refine List.flatMap_congr fun entry _ => ?_
  dsimp only
  rw [Statement.commandsOfAll_bare, List.flatMap_map]
  refine List.flatMap_congr fun c _ => ?_
  cases c <;> rfl

theorem common_bare : program.bare.common = program.common.map Name.bare := by
  unfold common bare
  dsimp only
  rw [List.flatMap_map, List.map_flatMap]
  refine List.flatMap_congr fun entry _ => ?_
  dsimp only
  rw [Statement.commandsOfAll_bare, List.flatMap_map, List.map_flatMap]
  refine List.flatMap_congr fun c _ => ?_
  cases c <;> rfl

end Program

end LineBasic
