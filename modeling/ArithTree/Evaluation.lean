import ArithTree.Environment
import ArithTree.Expr
import ArithTree.Report

/-!
# Evaluation

The value of an expression under an environment. Addition, subtraction and multiplication wrap
around at 64 bits; division rounds toward zero, and the least word divided by -1 is itself. An
unbound variable and a zero divisor are faults, and the left operand comes first: when both
operands fail, the fault of the left one is the result.

`evaluateNoted` also lists the nodes whose values were found, in the order in which they were.
-/

set_option autoImplicit false

namespace ArithTree

/-- Why an expression has no value. A division by zero names the node and the stage of work. -/
inductive Fault
  | undefinedVariable (name : String)
  | divisionByZero (node : Expr) (stage : String)
  deriving DecidableEq

def evaluationStage : String := "Evaluation"

def Fault.report : Fault → Report
  | .undefinedVariable name =>
      ⟨.undefinedVariable, "Undefined variable '" ++ name ++ "'",
        [(.variable, name), (.stage, evaluationStage),
          (.suggestion, "Bind this name in the environment before evaluating")]⟩
  | .divisionByZero node stage =>
      ⟨.divisionByZero, "Can't divide by zero",
        [(.stage, stage), (.expression, node.formula),
          (.suggestion, "Make sure the divisor can never be zero")]⟩

namespace Operator

def compute : Operator → Int64 → Int64 → Option Int64
  | .add, a, b => some (a + b)
  | .subtract, a, b => some (a - b)
  | .multiply, a, b => some (a * b)
  | .divide, a, b => if b = 0 then none else some (a / b)

def apply (op : Operator) (a b : Int64) (node : Expr) (stage : String) : Except Fault Int64 :=
  match op.compute a b with
  | some value => .ok value
  | none => .error (.divisionByZero node stage)

end Operator

def evaluate (env : Environment) : Expr → Except Fault Int64
  | .const value => .ok value
  | .var name =>
      match env.get? name with
      | some value => .ok value
      | none => .error (.undefinedVariable name)
  | .binary op left right => do
      let a ← evaluate env left
      let b ← evaluate env right
      op.apply a b (.binary op left right) evaluationStage

/-- The nodes that got a value, with their values and in order, and the result. -/
def evaluateNoted (env : Environment) : Expr → List (Expr × Int64) × Except Fault Int64
  | .const value => ([(.const value, value)], .ok value)
  | .var name =>
      match env.get? name with
      | some value => ([(.var name, value)], .ok value)
      | none => ([], .error (.undefinedVariable name))
  | .binary op left right =>
      match evaluateNoted env left with
      | (before, .error fault) => (before, .error fault)
      | (before, .ok a) =>
        match evaluateNoted env right with
        | (between, .error fault) => (before ++ between, .error fault)
        | (between, .ok b) =>
          match op.apply a b (.binary op left right) evaluationStage with
          | .error fault => (before ++ between, .error fault)
          | .ok value => (before ++ between ++ [(.binary op left right, value)], .ok value)

end ArithTree
