import ArithTree.Pass.Folding
import ArithTree.Proofs.Evaluation

/-!
# What folding does at one node

Every statement on folding goes through the few lemmas that say what happens at an operation:
when its operands are folded, when the node becomes a constant, and when it is a fault. From
them follows the form of a folded expression, in which no operation has two constants left.
-/

set_option autoImplicit false

namespace ArithTree

theorem Expr.isConstant_iff {e : Expr} : e.isConstant = true ↔ ∃ value, e = .const value := by
  cases e <;> simp [Expr.isConstant]

/-- Whether the operands of a node leave it as it is. -/
def Stays (left right : Expr) : Prop :=
  ¬(left.isConstant = true ∧ right.isConstant = true)

@[simp]
theorem foldNode_of_stays {left right : Expr} (h : Stays left right) (op : Operator)
    (node : Expr) : foldNode op node left right = .ok (.binary op left right) := by
  cases left <;> cases right <;> first | rfl | exact absurd ⟨rfl, rfl⟩ h

@[simp]
theorem foldNode_of_compute {op : Operator} {a b value : Int64}
    (h : op.compute a b = some value) (node : Expr) :
    foldNode op node (.const a) (.const b) = .ok (.const value) := by
  simp [foldNode, h]

@[simp]
theorem foldNode_of_compute_none {op : Operator} {a b : Int64}
    (h : op.compute a b = none) (node : Expr) :
    foldNode op node (.const a) (.const b) = .error (.divisionByZero node foldingStage) := by
  simp [foldNode, h]

theorem foldNode_cases (op : Operator) (node left right : Expr) :
    (∃ a b value, left = .const a ∧ right = .const b ∧ op.compute a b = some value ∧
      foldNode op node left right = .ok (.const value)) ∨
    (∃ a b, left = .const a ∧ right = .const b ∧ op.compute a b = none ∧
      foldNode op node left right = .error (.divisionByZero node foldingStage)) ∨
    (Stays left right ∧ foldNode op node left right = .ok (.binary op left right)) := by
  by_cases hs : Stays left right
  · exact .inr (.inr ⟨hs, foldNode_of_stays hs op node⟩)
  · obtain ⟨hl, hr⟩ := Classical.not_not.mp hs
    obtain ⟨a, rfl⟩ := Expr.isConstant_iff.mp hl
    obtain ⟨b, rfl⟩ := Expr.isConstant_iff.mp hr
    cases hc : op.compute a b with
    | some value => exact .inl ⟨a, b, value, rfl, rfl, hc, foldNode_of_compute hc node⟩
    | none => exact .inr (.inl ⟨a, b, rfl, rfl, hc, foldNode_of_compute_none hc node⟩)

theorem foldNode_ok_iff {op : Operator} {node left right e' : Expr} :
    foldNode op node left right = .ok e' ↔
      (∃ a b value, left = .const a ∧ right = .const b ∧ op.compute a b = some value ∧
        e' = .const value) ∨
      (Stays left right ∧ e' = .binary op left right) := by
  constructor
  · intro h
    rcases foldNode_cases op node left right with
      ⟨a, b, value, hl, hr, hc, hn⟩ | ⟨_, _, _, _, _, hn⟩ | ⟨hs, hn⟩
    · rw [hn] at h
      exact .inl ⟨a, b, value, hl, hr, hc, (Except.ok.inj h).symm⟩
    · rw [hn] at h
      cases h
    · rw [hn] at h
      exact .inr ⟨hs, (Except.ok.inj h).symm⟩
  · rintro (⟨a, b, value, rfl, rfl, hc, rfl⟩ | ⟨hs, rfl⟩)
    · exact foldNode_of_compute hc node
    · exact foldNode_of_stays hs op node

section Operands

variable {left right left' right' : Expr} {fault : Fault}

@[simp]
theorem fold_binary_of_left (h : fold left = .error fault) (op : Operator) (right : Expr) :
    fold (.binary op left right) = .error fault := by
  simp [fold, h]

@[simp]
theorem fold_binary_of_right (hl : fold left = .ok left') (hr : fold right = .error fault)
    (op : Operator) : fold (.binary op left right) = .error fault := by
  simp [fold, hl, hr]

@[simp]
theorem fold_binary_of_ok (hl : fold left = .ok left') (hr : fold right = .ok right')
    (op : Operator) :
    fold (.binary op left right) = foldNode op (.binary op left right) left' right' := by
  simp [fold, hl, hr]

end Operands

theorem fold_binary_cases (op : Operator) (left right : Expr) :
    (∃ fault, fold left = .error fault ∧ fold (.binary op left right) = .error fault) ∨
    (∃ left' fault, fold left = .ok left' ∧ fold right = .error fault ∧
      fold (.binary op left right) = .error fault) ∨
    (∃ left' right', fold left = .ok left' ∧ fold right = .ok right' ∧
      fold (.binary op left right) = foldNode op (.binary op left right) left' right') := by
  cases hl : fold left with
  | error fault => exact .inl ⟨fault, rfl, fold_binary_of_left hl op right⟩
  | ok left' =>
    cases hr : fold right with
    | error fault => exact .inr (.inl ⟨left', fault, rfl, rfl, fold_binary_of_right hl hr op⟩)
    | ok right' => exact .inr (.inr ⟨left', right', rfl, rfl, fold_binary_of_ok hl hr op⟩)

theorem fold_binary_ok_iff {op : Operator} {left right e' : Expr} :
    fold (.binary op left right) = .ok e' ↔
      ∃ left' right', fold left = .ok left' ∧ fold right = .ok right' ∧
        foldNode op (.binary op left right) left' right' = .ok e' := by
  simp [fold]

/-- No operation in the expression has two constants as its operands. -/
def Folded : Expr → Prop
  | .const _ => True
  | .var _ => True
  | .binary _ left right => Stays left right ∧ Folded left ∧ Folded right

theorem fold_of_folded {e : Expr} (h : Folded e) : fold e = .ok e := by
  induction e with
  | const value => rfl
  | var name => rfl
  | binary op left right ihl ihr =>
    obtain ⟨hs, hl, hr⟩ := h
    simp [ihl hl, ihr hr, hs]

theorem folded_fold {e e' : Expr} (h : fold e = .ok e') : Folded e' := by
  induction e generalizing e' with
  | const value => cases h; trivial
  | var name => cases h; trivial
  | binary op left right ihl ihr =>
    obtain ⟨left', right', hl, hr, hnode⟩ := fold_binary_ok_iff.mp h
    rcases foldNode_ok_iff.mp hnode with ⟨_, _, _, _, _, _, rfl⟩ | ⟨hs, rfl⟩
    · trivial
    · exact ⟨hs, ihl hl, ihr hr⟩

end ArithTree
