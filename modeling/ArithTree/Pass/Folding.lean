import ArithTree.Evaluation
import ArithTree.Pass

/-!
# Constant folding

Replaces every operation on two constants by its value, from the leaves upward. An operation is
left as it is when an operand still holds a variable, even if its divisor is zero: that is for
evaluation to report. A zero divisor under a constant dividend is a fault, and the fault shows
the node as it was before any folding.
-/

set_option autoImplicit false

namespace ArithTree

def foldingStage : String := "Constant Folding"

/-- The node with its folded operands, as a constant if both are constants. -/
def foldNode (op : Operator) (node : Expr) : Expr → Expr → Except Fault Expr
  | .const a, .const b => (op.apply a b node foldingStage).map .const
  | left, right => .ok (.binary op left right)

def fold : Expr → Except Fault Expr
  | .const value => .ok (.const value)
  | .var name => .ok (.var name)
  | .binary op left right => do
      let left' ← fold left
      let right' ← fold right
      foldNode op (.binary op left right) left' right'

def foldNote (node : Expr) : Expr → List Note
  | .const value => [.folded node value]
  | _ => []

def foldNoted : Expr → List Note × Except Fault Expr
  | .const value => ([], .ok (.const value))
  | .var name => ([], .ok (.var name))
  | .binary op left right =>
      match foldNoted left with
      | (before, .error fault) => (before, .error fault)
      | (before, .ok left') =>
        match foldNoted right with
        | (between, .error fault) => (before ++ between, .error fault)
        | (between, .ok right') =>
          match foldNode op (.binary op left right) left' right' with
          | .error fault => (before ++ between, .error fault)
          | .ok folded =>
              (before ++ between ++ foldNote (.binary op left right) folded, .ok folded)

@[simp]
theorem foldNoted_result (e : Expr) : (foldNoted e).2 = fold e := by
  induction e with
  | const value => rfl
  | var name => rfl
  | binary op left right ihl ihr =>
    rw [foldNoted, fold, ← ihl, ← ihr]
    rcases foldNoted left with ⟨before, fault | left'⟩
    · rfl
    · rcases foldNoted right with ⟨between, fault | right'⟩
      · rfl
      · simp only [bind, Except.bind]
        cases foldNode op (.binary op left right) left' right' <;> rfl

def foldingPass : Pass where
  name := "constant_folding"
  apply e := (fold e).mapError Fault.report
  noted e := ((foldNoted e).1, (foldNoted e).2.mapError Fault.report)
  noted_result e := by rw [foldNoted_result]

end ArithTree
