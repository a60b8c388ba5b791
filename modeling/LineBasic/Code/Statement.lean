import LineBasic.Code.Expr

/-! Statements and lines. A statement is a command, or a choice between two statement lists; the
choice is the only statement that holds others. -/

namespace LineBasic

/-- Where RESUME goes on: at the statement that failed, after it, or at a line. -/
inductive ResumeAt where
  | retry
  | next
  | line (number : Nat)
  deriving Repr, DecidableEq

/-- What PRINT writes, in order. -/
inductive PrintItem where
  | expr (value : Expr)
  | comma
  | semicolon
  deriving DecidableEq

/-- One item of a DATA statement, kept as text until a READ decides its type. -/
inductive Datum where
  | quoted (text : String)
  | raw (text : String)
  deriving Repr, DecidableEq

def Datum.text : Datum → String
  | quoted text => text
  | raw text => text

/-- Statements other than IF. A list of optional expressions is a list of positional arguments, where
a position may be left empty. -/
inductive Command where
  | auto (start step : Option Nat)
  | beep
  | chain (path : Expr) (line : Option Nat) (all : Bool)
  | clear (arguments : List (Option Expr))
  | clearScreen
  | color (arguments : List (Option Expr))
  | common (names : List Name)
  | cont
  | data (items : List Datum)
  | define (name : Name) (parameters : List Name) (body : Expr)
  | dim (targets : List Variable)
  | finish
  | error (code : Expr)
  | files (pattern : Option Expr)
  | forLoop (counter : Name) (start limit : Expr) (step : Option Expr)
  | gosub (line : Nat)
  | goto (line : Nat)
  | key (number text : Expr)
  | assign (target : Variable) (value : Expr)
  | list (first last : Option Nat)
  | load (path : Expr) (run : Bool)
  | locate (arguments : List (Option Expr))
  | merge (path : Expr)
  | new
  | next (counters : List Name)
  | onError (line : Nat)
  | onGoto (selector : Expr) (lines : List Nat)
  | onGosub (selector : Expr) (lines : List Nat)
  | palette (arguments : List (Option Expr))
  | print (items : List PrintItem)
  | read (targets : List Variable)
  | remark (text : String)
  | restore (line : Option Nat)
  | resume (target : ResumeAt)
  | returnTo (line : Option Nat)
  | run (line : Option Nat)
  | screen (arguments : List (Option Expr))
  | stop
  | traceOff
  | traceOn
  | wend
  | whileLoop (condition : Expr)
  deriving DecidableEq

inductive Statement where
  | command (command : Command)
  | choice (condition : Expr) (thenList elseList : List Statement)
  deriving Inhabited

namespace Statement

mutual

/-- Equality of statements as a test. -/
def same : Statement → Statement → Bool
  | command a, command b => decide (a = b)
  | choice a s t, choice b u v => decide (a = b) && sameAll s u && sameAll t v
  | _, _ => false

/-- Equality of statement lists as a test. -/
def sameAll : List Statement → List Statement → Bool
  | [], [] => true
  | a :: as, b :: bs => same a b && sameAll as bs
  | _, _ => false

end

mutual

theorem eq_of_same : ∀ {a b : Statement}, same a b = true → a = b
  | command _, b, h => by cases b <;> simp_all [same]
  | choice _ s t, b, h => by
      cases b <;> simp only [same, Bool.and_eq_true, decide_eq_true_eq, reduceCtorEq] at h
      rw [h.1.1, eq_of_sameAll h.1.2, eq_of_sameAll h.2]

theorem eq_of_sameAll : ∀ {as bs : List Statement}, sameAll as bs = true → as = bs
  | [], bs, h => by cases bs <;> simp_all [sameAll]
  | a :: as, bs, h => by
      cases bs <;> simp only [sameAll, Bool.and_eq_true, reduceCtorEq] at h
      rw [eq_of_same h.1, eq_of_sameAll h.2]

end

mutual

theorem same_self : ∀ a : Statement, same a a = true
  | command _ => by simp [same]
  | choice _ s t => by simp [same, sameAll_self s, sameAll_self t]

theorem sameAll_self : ∀ as : List Statement, sameAll as as = true
  | [] => by simp [sameAll]
  | a :: as => by simp [sameAll, same_self a, sameAll_self as]

end

theorem same_iff {a b : Statement} : same a b = true ↔ a = b :=
  ⟨eq_of_same, fun h => h ▸ same_self a⟩

instance : DecidableEq Statement := fun _ _ => decidable_of_iff _ same_iff

end Statement

/-- A line of source. A line without a number is a direct one, to be carried out at once. -/
structure Line where
  number : Option Nat
  statements : List Statement
  deriving DecidableEq

namespace Line

/-- The greatest number a line may have. -/
def maxNumber : Nat := 65529

def isDirect (line : Line) : Bool := line.number.isNone

def isEmpty (line : Line) : Bool := line.statements.isEmpty

end Line

end LineBasic
