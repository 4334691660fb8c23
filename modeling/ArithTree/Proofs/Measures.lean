import ArithTree.Expr

/-!
# The walks measure what the recursions do

A walk visits the first expression of its list with all that is below it before it goes on with
the rest. So one whole expression adds to the result what a recursion on it gives.
-/

set_option autoImplicit false

namespace ArithTree.Expr

theorem height_pos (e : Expr) : 0 < e.height := by
  cases e <;> simp only [height] <;> omega

theorem deepest_cons (e : Expr) (found depth : Nat) (stack : List (Expr × Nat)) :
    deepest found ((e, depth) :: stack) = deepest (max found (e.height + depth - 1)) stack := by
  induction e generalizing found depth stack with
  | const value => rw [deepest, height, Nat.add_sub_cancel_left]
  | var name => rw [deepest, height, Nat.add_sub_cancel_left]
  | binary op left right ihl ihr =>
    have hl := left.height_pos
    have hr := right.height_pos
    rw [deepest, ihr, ihl, height]
    congr 1
    omega

@[simp]
theorem depth_eq_height (e : Expr) : e.depth = e.height := by
  rw [depth, deepest_cons, deepest]
  omega

theorem countFrom_cons (e : Expr) (count : Nat) (stack : List Expr) :
    countFrom count (e :: stack) = countFrom (count + e.size) stack := by
  induction e generalizing count stack with
  | const value => rw [countFrom, size]
  | var name => rw [countFrom, size]
  | binary op left right ihl ihr =>
    rw [countFrom, ihr, ihl, size]
    congr 1
    omega

@[simp]
theorem nodeCount_eq_size (e : Expr) : e.nodeCount = e.size := by
  rw [nodeCount, countFrom_cons, countFrom]
  omega

theorem mem_insertName {name other : String} {found : List String} :
    name ∈ insertName other found ↔ name = other ∨ name ∈ found := by
  induction found with
  | nil => simp [insertName]
  | cons first rest ih =>
    rw [insertName]
    by_cases hless : other < first
    · simp [hless]
    · by_cases heq : other = first
      · rw [if_neg hless, if_pos heq, heq, List.mem_cons]
        exact or_self_left.symm
      · simp only [hless, heq, if_false, List.mem_cons, ih]
        exact or_left_comm

/-- The right operand is visited first, so the names are put in from the last to the first. -/
theorem collectNames_cons (e : Expr) (found : List String) (stack : List Expr) :
    collectNames found (e :: stack) = collectNames (e.names.foldr insertName found) stack := by
  induction e generalizing found stack with
  | const value => rw [collectNames, names, List.foldr_nil]
  | var name => rw [collectNames, names, List.foldr_cons, List.foldr_nil]
  | binary op left right ihl ihr =>
    rw [collectNames, ihr, ihl, names, List.foldr_append]

theorem variableNames_eq (e : Expr) : e.variableNames = e.names.foldr insertName [] := by
  rw [variableNames, collectNames_cons, collectNames]

@[simp]
theorem mem_variableNames_iff {e : Expr} {name : String} :
    name ∈ e.variableNames ↔ name ∈ e.names := by
  rw [variableNames_eq]
  induction e.names with
  | nil => rfl
  | cons first rest ih => rw [List.foldr_cons, mem_insertName, ih, List.mem_cons]

end ArithTree.Expr
