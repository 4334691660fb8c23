import ArithTree.Expr
import ArithTree.Report

/-!
# Passes and pipelines

A pass turns an expression into another one or fails with a report. Along with its result it can
give notes on what it did; the notes never change the result. A pipeline runs passes one after
the other, each on what the one before it returned, and stops at the first that fails.
-/

set_option autoImplicit false

namespace ArithTree

inductive Note
  | evaluated (node : Expr) (value : Int64)
  | running (pass : String) (input : Expr)
  | folded (node : Expr) (value : Int64)
  | replaced (old new : Int64)
  deriving DecidableEq

def Note.text : Note → String
  | .evaluated node value => "Evaluated " ++ node.formula ++ " to " ++ Number.writeWord value
  | .running pass input => "Running " ++ pass ++ " on " ++ input.formula
  | .folded node value => "Folded " ++ node.formula ++ " into " ++ Number.writeWord value
  | .replaced old new => "Rewriting " ++ Number.writeWord old ++ " to " ++ Number.writeWord new

structure Pass where
  name : String := "custom"
  apply : Expr → Except Report Expr
  noted : Expr → List Note × Except Report Expr := fun e => ([], apply e)
  noted_result : ∀ e, (noted e).2 = apply e := by intro _; rfl

structure Pipeline where
  passes : List Pass := []

/-- All results if every one is good, else the first failure in the list. -/
def firstFailure {α : Type} : List (Except Report α) → Except Report (List α)
  | [] => .ok []
  | .error r :: _ => .error r
  | .ok a :: rest => (firstFailure rest).map (a :: ·)

namespace Pipeline

def empty : Pipeline := {}

def ofPasses (passes : List Pass) : Pipeline := ⟨passes⟩

def register (p : Pipeline) (pass : Pass) : Pipeline := ⟨p.passes ++ [pass]⟩

def length (p : Pipeline) : Nat := p.passes.length

def isEmpty (p : Pipeline) : Bool := p.passes.isEmpty

def passNames (p : Pipeline) : List String := p.passes.map Pass.name

def run : List Pass → Expr → Except Report Expr
  | [], e => .ok e
  | pass :: passes, e =>
      match pass.apply e with
      | .ok e' => run passes e'
      | .error r => .error r

def runNoted : List Pass → Expr → List Note × Except Report Expr
  | [], e => ([], .ok e)
  | pass :: passes, e =>
      match pass.noted e with
      | (notes, .ok e') =>
          let (more, result) := runNoted passes e'
          (.running pass.name e :: notes ++ more, result)
      | (notes, .error r) => (.running pass.name e :: notes, .error r)

def apply (p : Pipeline) (e : Expr) : Except Report Expr :=
  run p.passes e

def applyNoted (p : Pipeline) (e : Expr) : List Note × Except Report Expr :=
  runNoted p.passes e

def applyAll (p : Pipeline) (es : List Expr) : Except Report (List Expr) :=
  firstFailure (es.map p.apply)

def outline (p : Pipeline) : String :=
  "Pipeline \x7b passes: [" ++ ", ".intercalate (p.passNames.map Text.quote) ++ "] \x7d"

end Pipeline
end ArithTree
