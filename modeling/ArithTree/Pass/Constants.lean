import ArithTree.Pass

/-!
# Replacing constants

Replaces every constant by one fixed value and leaves all else as it is. This never fails.
-/

set_option autoImplicit false

namespace ArithTree

def replaceConstants (value : Int64) : Expr → Expr
  | .const _ => .const value
  | .var name => .var name
  | .binary op left right => .binary op (replaceConstants value left) (replaceConstants value right)

@[simp]
theorem isConstant_replaceConstants (value : Int64) (e : Expr) :
    (replaceConstants value e).isConstant = e.isConstant := by
  cases e <;> rfl

@[simp]
theorem size_replaceConstants (value : Int64) (e : Expr) :
    (replaceConstants value e).size = e.size := by
  induction e with
  | const _ => rfl
  | var name => rfl
  | binary op left right ihl ihr => simp only [replaceConstants, Expr.size, ihl, ihr]

@[simp]
theorem height_replaceConstants (value : Int64) (e : Expr) :
    (replaceConstants value e).height = e.height := by
  induction e with
  | const _ => rfl
  | var name => rfl
  | binary op left right ihl ihr => simp only [replaceConstants, Expr.height, ihl, ihr]

@[simp]
theorem names_replaceConstants (value : Int64) (e : Expr) :
    (replaceConstants value e).names = e.names := by
  induction e with
  | const _ => rfl
  | var name => rfl
  | binary op left right ihl ihr => simp only [replaceConstants, Expr.names, ihl, ihr]

/-- Of two replacements only the later one shows. -/
@[simp]
theorem replaceConstants_replaceConstants (first second : Int64) (e : Expr) :
    replaceConstants second (replaceConstants first e) = replaceConstants second e := by
  induction e with
  | const value => rfl
  | var name => rfl
  | binary op left right ihl ihr => simp only [replaceConstants, ihl, ihr]

def replaceNoted (value : Int64) : Expr → List Note × Expr
  | .const old => ([.replaced old value], .const value)
  | .var name => ([], .var name)
  | .binary op left right =>
      let (before, left') := replaceNoted value left
      let (between, right') := replaceNoted value right
      (before ++ between, .binary op left' right')

@[simp]
theorem replaceNoted_result (value : Int64) (e : Expr) :
    (replaceNoted value e).2 = replaceConstants value e := by
  induction e with
  | const old => rfl
  | var name => rfl
  | binary op left right ihl ihr => rw [replaceNoted, replaceConstants, ← ihl, ← ihr]

def replacementPass (value : Int64) : Pass where
  name := "constant_rewriting"
  apply e := .ok (replaceConstants value e)
  noted e := ((replaceNoted value e).1, .ok (replaceNoted value e).2)
  noted_result e := by rw [replaceNoted_result]

end ArithTree
