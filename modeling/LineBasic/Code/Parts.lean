import LineBasic.Code.Listing

/-! The parts of a statement in the order in which they are met: whatever a part holds comes before
the part itself. -/

namespace LineBasic

/-- A statement, a variable or an expression inside a statement. -/
inductive Part where
  | statement (value : Statement)
  | target (value : Variable)
  | expr (value : Expr)
  deriving DecidableEq

def Part.listing : Part → String
  | statement value => value.listing
  | target value => value.listing
  | expr value => value.listing

namespace Expr

mutual

def parts : Expr → List Part
  | scalar name => [.target (.scalar name), .expr (scalar name)]
  | element name subscripts =>
      partsOfAll subscripts ++
        [.target (.element name subscripts), .expr (element name subscripts)]
  | call name arguments => partsOfAll arguments ++ [.expr (call name arguments)]
  | unary op operand => operand.parts ++ [.expr (unary op operand)]
  | binary op left right => left.parts ++ right.parts ++ [.expr (binary op left right)]
  | leaf => [.expr leaf]

def partsOfAll : List Expr → List Part
  | [] => []
  | expr :: rest => expr.parts ++ partsOfAll rest

end

end Expr

def Variable.parts : Variable → List Part
  | scalar name => [.target (scalar name)]
  | element name subscripts => Expr.partsOfAll subscripts ++ [.target (element name subscripts)]

namespace Command

/-- The expressions of a command that no variable holds, in the order they are written. -/
def partsInside : Command → List Part
  | chain path _ _ => path.parts
  | error code => code.parts
  | load path _ => path.parts
  | merge path => path.parts
  | whileLoop condition => condition.parts
  | clear arguments | color arguments | locate arguments | palette arguments
  | screen arguments => Expr.partsOfAll (arguments.filterMap id)
  | define _ _ body => body.parts
  | dim targets | read targets => targets.flatMap Variable.parts
  | files pattern => Expr.partsOfAll pattern.toList
  | forLoop _ start limit step => start.parts ++ limit.parts ++ Expr.partsOfAll step.toList
  | key number text => number.parts ++ text.parts
  | assign target value => target.parts ++ value.parts
  | onGoto selector _ | onGosub selector _ => selector.parts
  | print items =>
      items.flatMap fun
        | .expr value => value.parts
        | _ => []
  | _ => []

end Command

namespace Statement

mutual

def parts : Statement → List Part
  | command c => c.partsInside ++ [.statement (command c)]
  | choice condition thenList elseList =>
      condition.parts ++ partsOfAll thenList ++ partsOfAll elseList ++
        [.statement (choice condition thenList elseList)]

def partsOfAll : List Statement → List Part
  | [] => []
  | statement :: rest => statement.parts ++ partsOfAll rest

end

end Statement

end LineBasic
