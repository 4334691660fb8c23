import ArithTree.Text

/-!
# Integer expressions

An expression is a constant, a variable, or one of four operations on two expressions.
Constants are signed words of 64 bits. Nothing here says what an expression is worth.

`Expr.size`, `Expr.height`, `Expr.names` and `Expr.nodes` go through an expression by recursion;
they serve statements and termination arguments. What runs on very tall expressions counts nodes,
finds the depth and collects the variables by a walk that keeps the expressions still to be
visited in a list. The walks call themselves only as their last step, and each step removes at
least one node from what is left to visit.

There are two forms as text. The formula `((1 + x) * -2)` puts every operation in parentheses and
leaves names as they are. The outline `Mul(Add(Const(1), Var("x")), Const(-2))` names the nodes
and quotes the names.
-/

set_option autoImplicit false

namespace ArithTree

inductive Operator
  | add | subtract | multiply | divide
  deriving DecidableEq, Repr

namespace Operator

def name : Operator → String
  | .add => "Add"
  | .subtract => "Subtract"
  | .multiply => "Multiply"
  | .divide => "Divide"

def symbol : Operator → String
  | .add => "+"
  | .subtract => "-"
  | .multiply => "*"
  | .divide => "/"

/-- The short word that names a node of this operation in tree files and outlines. -/
def tag : Operator → String
  | .add => "Add"
  | .subtract => "Sub"
  | .multiply => "Mul"
  | .divide => "Div"

def all : List Operator := [.add, .subtract, .multiply, .divide]

end Operator

inductive Expr
  | const (value : Int64)
  | var (name : String)
  | binary (op : Operator) (left right : Expr)
  deriving DecidableEq

namespace Expr

def tag : Expr → String
  | .const _ => "Const"
  | .var _ => "Var"
  | .binary op _ _ => op.tag

def isConstant : Expr → Bool
  | .const _ => true
  | _ => false

def operands? : Expr → Option (Operator × Expr × Expr)
  | .binary op left right => some (op, left, right)
  | _ => none

@[simp]
def size : Expr → Nat
  | .const _ => 1
  | .var _ => 1
  | .binary _ left right => 1 + left.size + right.size

/-- The number of nodes on a longest path from the root to a leaf. -/
@[simp]
def height : Expr → Nat
  | .const _ => 1
  | .var _ => 1
  | .binary _ left right => 1 + max left.height right.height

@[simp]
def names : Expr → List String
  | .const _ => []
  | .var name => [name]
  | .binary _ left right => left.names ++ right.names

/-- All nodes, the operands of each before it and the left one first. -/
@[simp]
def nodes : Expr → List Expr
  | .const value => [.const value]
  | .var name => [.var name]
  | .binary op left right => left.nodes ++ right.nodes ++ [.binary op left right]

theorem size_pos (e : Expr) : 0 < e.size := by
  cases e <;> simp only [size] <;> omega

def pending (stack : List Expr) : Nat :=
  stack.foldr (fun e n => e.size + n) 0

@[simp]
theorem pending_cons (e : Expr) (stack : List Expr) :
    pending (e :: stack) = e.size + pending stack := by
  simp [pending]

def countFrom (count : Nat) : List Expr → Nat
  | [] => count
  | .const _ :: stack => countFrom (count + 1) stack
  | .var _ :: stack => countFrom (count + 1) stack
  | .binary _ left right :: stack => countFrom (count + 1) (right :: left :: stack)
termination_by stack => pending stack
decreasing_by all_goals simp only [pending_cons, size]; omega

def nodeCount (e : Expr) : Nat :=
  countFrom 0 [e]

def deepest (found : Nat) : List (Expr × Nat) → Nat
  | [] => found
  | (.const _, depth) :: stack => deepest (max found depth) stack
  | (.var _, depth) :: stack => deepest (max found depth) stack
  | (.binary _ left right, depth) :: stack =>
      deepest (max found depth) ((right, depth + 1) :: (left, depth + 1) :: stack)
termination_by stack => pending (stack.map Prod.fst)
decreasing_by all_goals simp only [List.map_cons, pending_cons, size]; omega

def depth (e : Expr) : Nat :=
  deepest 0 [(e, 1)]

def insertName (name : String) : List String → List String
  | [] => [name]
  | other :: rest =>
      if name < other then name :: other :: rest
      else if name = other then other :: rest
      else other :: insertName name rest

def collectNames (found : List String) : List Expr → List String
  | [] => found
  | .const _ :: stack => collectNames found stack
  | .var name :: stack => collectNames (insertName name found) stack
  | .binary _ left right :: stack => collectNames found (right :: left :: stack)
termination_by stack => pending stack
decreasing_by all_goals simp only [pending_cons, size]; omega

/-- The variables of an expression, each once, ascending by code points. -/
def variableNames (e : Expr) : List String :=
  collectNames [] [e]

def formula : Expr → String
  | .const value => Number.writeWord value
  | .var name => name
  | .binary op left right =>
      "(" ++ left.formula ++ " " ++ op.symbol ++ " " ++ right.formula ++ ")"

def outlineWith (hidden : Char → Bool) : Expr → String
  | .const value => "Const(" ++ Number.writeWord value ++ ")"
  | .var name => "Var(" ++ Text.quoteWith hidden name ++ ")"
  | .binary op left right =>
      op.tag ++ "(" ++ left.outlineWith hidden ++ ", " ++ right.outlineWith hidden ++ ")"

def outline (e : Expr) : String :=
  e.outlineWith Text.isHidden

end Expr
end ArithTree
