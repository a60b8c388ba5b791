import LineBasic.Code.Name
import LineBasic.Code.Operator

/-! Expressions. -/

namespace LineBasic

inductive Expr where
  | int (value : Int16)
  | single (value : Float32)
  | double (value : Float)
  | text (value : String)
  | truth (value : Bool)
  | scalar (name : Name)
  | element (name : Name) (subscripts : List Expr)
  | call (name : Name) (arguments : List Expr)
  | unary (op : UnaryOp) (operand : Expr)
  | binary (op : BinaryOp) (left right : Expr)
  | faultLine
  | faultCode
  | cursorRow
  deriving Inhabited

namespace Expr

mutual

/-- Equality of expressions as a test. -/
def same : Expr → Expr → Bool
  | int a, int b => a == b
  | single a, single b => decide (a = b)
  | double a, double b => decide (a = b)
  | text a, text b => a == b
  | truth a, truth b => a == b
  | scalar a, scalar b => decide (a = b)
  | element a as, element b bs => decide (a = b) && sameAll as bs
  | call a as, call b bs => decide (a = b) && sameAll as bs
  | unary o a, unary p b => decide (o = p) && same a b
  | binary o a b, binary p c d => decide (o = p) && same a c && same b d
  | faultLine, faultLine => true
  | faultCode, faultCode => true
  | cursorRow, cursorRow => true
  | _, _ => false

/-- Equality of lists of expressions as a test. -/
def sameAll : List Expr → List Expr → Bool
  | [], [] => true
  | a :: as, b :: bs => same a b && sameAll as bs
  | _, _ => false

end

mutual

theorem eq_of_same : ∀ {a b : Expr}, same a b = true → a = b
  | int _, b, h => by cases b <;> simp_all [same]
  | single _, b, h => by cases b <;> simp_all [same]
  | double _, b, h => by cases b <;> simp_all [same]
  | text _, b, h => by cases b <;> simp_all [same]
  | truth _, b, h => by cases b <;> simp_all [same]
  | scalar _, b, h => by cases b <;> simp_all [same]
  | element _ as, b, h => by
      cases b <;> simp only [same, Bool.and_eq_true, decide_eq_true_eq, reduceCtorEq] at h
      rw [h.1, eq_of_sameAll h.2]
  | call _ as, b, h => by
      cases b <;> simp only [same, Bool.and_eq_true, decide_eq_true_eq, reduceCtorEq] at h
      rw [h.1, eq_of_sameAll h.2]
  | unary _ a, b, h => by
      cases b <;> simp only [same, Bool.and_eq_true, decide_eq_true_eq, reduceCtorEq] at h
      rw [h.1, eq_of_same h.2]
  | binary _ a c, b, h => by
      cases b <;> simp only [same, Bool.and_eq_true, decide_eq_true_eq, reduceCtorEq] at h
      rw [h.1.1, eq_of_same h.1.2, eq_of_same h.2]
  | faultLine, b, h => by cases b <;> simp_all [same]
  | faultCode, b, h => by cases b <;> simp_all [same]
  | cursorRow, b, h => by cases b <;> simp_all [same]

theorem eq_of_sameAll : ∀ {as bs : List Expr}, sameAll as bs = true → as = bs
  | [], bs, h => by cases bs <;> simp_all [sameAll]
  | a :: as, bs, h => by
      cases bs <;> simp only [sameAll, Bool.and_eq_true, reduceCtorEq] at h
      rw [eq_of_same h.1, eq_of_sameAll h.2]

end

mutual

theorem same_self : ∀ a : Expr, same a a = true
  | int _ | single _ | double _ | text _ | truth _ | scalar _ => by simp [same]
  | element _ as => by simp [same, sameAll_self as]
  | call _ as => by simp [same, sameAll_self as]
  | unary _ a => by simp [same, same_self a]
  | binary _ a b => by simp [same, same_self a, same_self b]
  | faultLine | faultCode | cursorRow => by simp [same]

theorem sameAll_self : ∀ as : List Expr, sameAll as as = true
  | [] => by simp [sameAll]
  | a :: as => by simp [sameAll, same_self a, sameAll_self as]

end

theorem same_iff {a b : Expr} : same a b = true ↔ a = b :=
  ⟨eq_of_same, fun h => h ▸ same_self a⟩

instance : DecidableEq Expr := fun _ _ => decidable_of_iff _ same_iff

/-- How strongly the outermost operator binds. -/
def level : Expr → Level
  | unary _ _ => Level.ofUnary
  | binary op _ _ => op.level
  | _ => Level.atom

end Expr

/-- What can be assigned to: a scalar or an element of an array. -/
inductive Variable where
  | scalar (name : Name)
  | element (name : Name) (subscripts : List Expr)
  deriving DecidableEq

namespace Variable

def name : Variable → Name
  | scalar name => name
  | element name _ => name

/-- The expression that reads the variable. -/
def toExpr : Variable → Expr
  | scalar name => .scalar name
  | element name subscripts => .element name subscripts

end Variable

end LineBasic
