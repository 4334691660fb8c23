import ArithTree.Evaluation
import ArithTree.Proofs.Outcomes

/-!
# How an operation gets its value

What an operation is worth follows from its operands in one of three ways: the left one fails,
or only the right one does, or both have values and the operation is computed. A fault names a
node of the expression it was found in. The environment counts only for the names that occur.
-/

set_option autoImplicit false

namespace ArithTree

theorem Operator.compute_eq_none_iff {op : Operator} {a b : Int64} :
    op.compute a b = none ↔ op = .divide ∧ b = 0 := by
  cases op <;> simp [Operator.compute]

@[simp]
theorem Operator.apply_of_compute {op : Operator} {a b value : Int64}
    (h : op.compute a b = some value) (node : Expr) (stage : String) :
    op.apply a b node stage = .ok value := by
  simp only [Operator.apply, h]

@[simp]
theorem Operator.apply_of_compute_none {op : Operator} {a b : Int64}
    (h : op.compute a b = none) (node : Expr) (stage : String) :
    op.apply a b node stage = .error (.divisionByZero node stage) := by
  simp only [Operator.apply, h]

theorem Operator.apply_cases (op : Operator) (a b : Int64) (node : Expr) (stage : String) :
    (∃ value, op.compute a b = some value ∧ op.apply a b node stage = .ok value) ∨
    (op.compute a b = none ∧ op.apply a b node stage = .error (.divisionByZero node stage)) := by
  cases hc : op.compute a b with
  | some value => exact .inl ⟨value, rfl, Operator.apply_of_compute hc node stage⟩
  | none => exact .inr ⟨rfl, Operator.apply_of_compute_none hc node stage⟩

section Operands

variable {env : Environment} {left right : Expr}

@[simp]
theorem evaluate_binary_of_left {fault : Fault} (h : evaluate env left = .error fault)
    (op : Operator) (right : Expr) : evaluate env (.binary op left right) = .error fault := by
  simp [evaluate, h]

@[simp]
theorem evaluate_binary_of_right {a : Int64} {fault : Fault} (hl : evaluate env left = .ok a)
    (hr : evaluate env right = .error fault) (op : Operator) :
    evaluate env (.binary op left right) = .error fault := by
  simp [evaluate, hl, hr]

@[simp]
theorem evaluate_binary_of_ok {a b : Int64} (hl : evaluate env left = .ok a)
    (hr : evaluate env right = .ok b) (op : Operator) :
    evaluate env (.binary op left right) =
      op.apply a b (.binary op left right) evaluationStage := by
  simp [evaluate, hl, hr]

end Operands

theorem evaluate_binary_cases (env : Environment) (op : Operator) (left right : Expr) :
    (∃ fault, evaluate env left = .error fault ∧
      evaluate env (.binary op left right) = .error fault) ∨
    (∃ a fault, evaluate env left = .ok a ∧ evaluate env right = .error fault ∧
      evaluate env (.binary op left right) = .error fault) ∨
    (∃ a b, evaluate env left = .ok a ∧ evaluate env right = .ok b ∧
      evaluate env (.binary op left right) =
        op.apply a b (.binary op left right) evaluationStage) := by
  cases hl : evaluate env left with
  | error fault => exact .inl ⟨fault, rfl, evaluate_binary_of_left hl op right⟩
  | ok a =>
    cases hr : evaluate env right with
    | error fault =>
      exact .inr (.inl ⟨a, fault, rfl, rfl, evaluate_binary_of_right hl hr op⟩)
    | ok b => exact .inr (.inr ⟨a, b, rfl, rfl, evaluate_binary_of_ok hl hr op⟩)

theorem evaluate_congr {env env' : Environment} {e : Expr}
    (h : ∀ name ∈ e.names, env.get? name = env'.get? name) : evaluate env e = evaluate env' e := by
  induction e with
  | const value => rfl
  | var name =>
    have hname : env.get? name = env'.get? name := h name (by simp)
    simp only [evaluate, hname]
  | binary op left right ihl ihr =>
    have hl := ihl fun name hm => h name (List.mem_append_left right.names hm)
    have hr := ihr fun name hm => h name (List.mem_append_right left.names hm)
    simp only [evaluate, hl, hr]

theorem evaluate_fault_mem_nodes {env : Environment} {e node : Expr} {stage : String}
    (h : evaluate env e = .error (.divisionByZero node stage)) : node ∈ e.nodes := by
  induction e with
  | const value => cases h
  | var name =>
    simp only [evaluate] at h
    split at h <;> cases h
  | binary op left right ihl ihr =>
    simp only [Expr.nodes, List.mem_append]
    rcases evaluate_binary_cases env op left right with
      ⟨fault, hl, hf⟩ | ⟨a, fault, _, hr, hf⟩ | ⟨a, b, _, _, hf⟩
    · rw [hf] at h; cases h
      exact .inl (.inl (ihl hl))
    · rw [hf] at h; cases h
      exact .inl (.inr (ihr hr))
    · rw [hf] at h
      rcases Operator.apply_cases op a b (.binary op left right) evaluationStage with
        ⟨value, _, ha⟩ | ⟨_, ha⟩
      · rw [ha] at h; cases h
      · rw [ha] at h; cases h
        exact .inr (by simp)

end ArithTree
