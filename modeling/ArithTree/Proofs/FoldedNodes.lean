import ArithTree.Proofs.FoldedEvaluation
import ArithTree.Proofs.Nodes
import ArithTree.Proofs.Shrinking

/-!
# Folding seen from the whole expression

Folding goes upward and looks at two operands at a time. Seen from above it replaces every
largest part without variables by its value and changes nothing else, and it fails at the first
node, operands before operations, where a constant is divided by zero. What it has returned has
no operation on two constants, and expressions of that form are the ones it leaves alone.
-/

set_option autoImplicit false

namespace ArithTree

def Expr.Foldable (e : Expr) : Prop :=
  ∃ op a b, e = .binary op (.const a) (.const b)

theorem Expr.not_foldable_binary_iff {op : Operator} {left right : Expr} :
    ¬(Expr.binary op left right).Foldable ↔ Stays left right := by
  unfold Expr.Foldable Stays
  rw [Expr.isConstant_iff, Expr.isConstant_iff]
  apply not_congr
  constructor
  · rintro ⟨_, a, b, h⟩
    cases h
    exact ⟨⟨a, rfl⟩, ⟨b, rfl⟩⟩
  · rintro ⟨⟨a, rfl⟩, ⟨b, rfl⟩⟩
    exact ⟨op, a, b, rfl⟩

theorem folded_iff_nodes {e : Expr} : Folded e ↔ ∀ node ∈ e.nodes, ¬node.Foldable := by
  induction e with
  | const value => simp [Folded, Expr.Foldable]
  | var name => simp [Folded, Expr.Foldable]
  | binary op left right ihl ihr =>
    rw [Expr.forall_mem_nodes_binary, Expr.not_foldable_binary_iff, Folded, ihl, ihr]
    exact and_rotate

/-- Folding leaves alone just those expressions that have no operation on two constants. Its
results are among them, so to fold a result again changes nothing and cannot fail. -/
theorem folding_fixed_points (e : Expr) :
    (foldingPass.apply e = .ok e ↔ ∀ node ∈ e.nodes, ¬node.Foldable) ∧
    ∀ e', foldingPass.apply e = .ok e' →
      (∀ node ∈ e'.nodes, ¬node.Foldable) ∧ foldingPass.apply e' = .ok e' := by
  have hform : ∀ e', foldingPass.apply e = .ok e' → Folded e' :=
    fun e' h => folded_fold (foldingPass_ok_iff.mp h)
  refine ⟨⟨fun h => folded_iff_nodes.mp (hform e h), fun h => ?_⟩, fun e' h => ⟨?_, ?_⟩⟩
  · exact foldingPass_of_ok (fold_of_folded (folded_iff_nodes.mpr h))
  · exact folded_iff_nodes.mp (hform e' h)
  · exact foldingPass_of_ok (fold_of_folded (hform e' h))

theorem folding_fixed_points_zero_divisors :
    let e := Expr.binary .divide
      (.binary .divide (.var "x") (.binary .subtract (.const 1) (.const 1))) (.const 0)
    let e' := Expr.binary .divide (.binary .divide (.var "x") (.const 0)) (.const 0)
    foldingPass.apply e = .ok e' ∧ (∀ node ∈ e'.nodes, ¬node.Foldable) ∧
      foldingPass.apply e' = .ok e' := by
  intro e e'
  have h : foldingPass.apply e = .ok e' := rfl
  exact ⟨h, (folding_fixed_points e).2 e' h⟩

/-- A division without variables whose operands have values, that of the divisor being zero. -/
def Expr.DividesByZero (node : Expr) : Prop :=
  node.names = [] ∧ ∃ left right a, node = .binary .divide left right ∧
    evaluate .empty left = .ok a ∧ evaluate .empty right = .ok 0

theorem evaluate_of_fold_const {e : Expr} {value : Int64} (h : fold e = .ok (.const value))
    (env : Environment) : evaluate env e = .ok value :=
  evaluate_of_sameOutcome_const (sameOutcome_fold env h)

theorem names_fold {e e' : Expr} (h : fold e = .ok e') : e'.names = e.names :=
  (shrinks_fold h).names

theorem isConstant_of_folded {e : Expr} (h : Folded e) (hnames : e.names = []) :
    e.isConstant = true := by
  induction e with
  | const value => rfl
  | var name => cases hnames
  | binary op left right ihl ihr =>
    obtain ⟨hs, hl, hr⟩ := h
    obtain ⟨hleft, hright⟩ := List.append_eq_nil_iff.mp hnames
    exact absurd ⟨ihl hl hleft, ihr hr hright⟩ hs

theorem isConstant_fold_iff {e e' : Expr} (h : fold e = .ok e') :
    e'.isConstant = true ↔ e.names = [] := by
  constructor
  · intro hconst
    obtain ⟨value, rfl⟩ := Expr.isConstant_iff.mp hconst
    exact (names_fold h).symm
  · intro hnames
    exact isConstant_of_folded (folded_fold h) ((names_fold h).trans hnames)

theorem fold_closed {e e' : Expr} (h : fold e = .ok e') (hnames : e.names = []) :
    ∃ value, e' = .const value ∧ evaluate .empty e = .ok value := by
  obtain ⟨value, rfl⟩ := Expr.isConstant_iff.mp ((isConstant_fold_iff h).mpr hnames)
  exact ⟨value, rfl, evaluate_of_fold_const h .empty⟩

theorem dividesByZero_of_fold {op : Operator} {left right : Expr} {a b : Int64}
    (hl : fold left = .ok (.const a)) (hr : fold right = .ok (.const b)) :
    (Expr.binary op left right).DividesByZero ↔ op.compute a b = none := by
  rw [Operator.compute_eq_none_iff]
  constructor
  · rintro ⟨_, _, _, _, h, _, hzero⟩
    cases h
    rw [evaluate_of_fold_const hr] at hzero
    exact ⟨rfl, Except.ok.inj hzero⟩
  · rintro ⟨rfl, rfl⟩
    have hnames : (Expr.binary .divide left right).names = [] := by
      rw [Expr.names, (isConstant_fold_iff hl).mp rfl, (isConstant_fold_iff hr).mp rfl]
      rfl
    exact ⟨hnames, left, right, a, rfl, evaluate_of_fold_const hl _, evaluate_of_fold_const hr _⟩

theorem not_dividesByZero_of_stays {op : Operator} {left right left' right' : Expr}
    (hl : fold left = .ok left') (hr : fold right = .ok right') (hs : Stays left' right') :
    ¬(Expr.binary op left right).DividesByZero := by
  rintro ⟨hnames, _⟩
  obtain ⟨hleft, hright⟩ := List.append_eq_nil_iff.mp hnames
  exact hs ⟨(isConstant_fold_iff hl).mpr hleft, (isConstant_fold_iff hr).mpr hright⟩

theorem fold_first (e : Expr) :
    (∃ e', fold e = .ok e' ∧ ∀ node ∈ e.nodes, ¬node.DividesByZero) ∨
    (∃ node, fold e = .error (.divisionByZero node foldingStage) ∧
      e.FirstNode Expr.DividesByZero node) := by
  induction e with
  | const value => exact .inl ⟨_, rfl, by simp [Expr.DividesByZero]⟩
  | var name => exact .inl ⟨_, rfl, by simp [Expr.DividesByZero]⟩
  | binary op left right ihl ihr =>
    rcases ihl with ⟨left', hl, hleft⟩ | ⟨node, hl, hfirst⟩
    · rcases ihr with ⟨right', hr, hright⟩ | ⟨node, hr, hfirst⟩
      · rw [fold_binary_of_ok hl hr, Expr.forall_mem_nodes_binary]
        rcases foldNode_cases op (.binary op left right) left' right' with
          ⟨a, b, value, rfl, rfl, hc, hn⟩ | ⟨a, b, rfl, rfl, hc, hn⟩ | ⟨hs, hn⟩
        · have hself : ¬(Expr.binary op left right).DividesByZero := by
            simp [dividesByZero_of_fold hl hr, hc]
          exact .inl ⟨_, hn, hleft, hright, hself⟩
        · have hself := (dividesByZero_of_fold hl hr).mpr hc
          exact .inr ⟨_, hn, .of_self hleft hright hself⟩
        · exact .inl ⟨_, hn, hleft, hright, not_dividesByZero_of_stays hl hr hs⟩
      · exact .inr ⟨node, fold_binary_of_right hl hr op, hfirst.of_right hleft⟩
    · exact .inr ⟨node, fold_binary_of_left hl op right, hfirst.of_left⟩

/-- The second expression has a value in place of each largest part of the first that is without
variables, and is the same everywhere else. -/
inductive ReplacesClosed : Expr → Expr → Prop
  | closed {e : Expr} {value : Int64} :
      e.names = [] → evaluate .empty e = .ok value → ReplacesClosed e (.const value)
  | var (name : String) : ReplacesClosed (.var name) (.var name)
  | binary {op : Operator} {left right left' right' : Expr} :
      (Expr.binary op left right).names ≠ [] → ReplacesClosed left left' →
      ReplacesClosed right right' →
      ReplacesClosed (.binary op left right) (.binary op left' right')

theorem replacesClosed_of_fold {e e' : Expr} (h : fold e = .ok e') : ReplacesClosed e e' := by
  induction e generalizing e' with
  | const value =>
    cases h
    exact .closed rfl rfl
  | var name =>
    cases h
    exact .var name
  | binary op left right ihl ihr =>
    by_cases hnames : (Expr.binary op left right).names = []
    · obtain ⟨value, rfl, hvalue⟩ := fold_closed h hnames
      exact .closed hnames hvalue
    · obtain ⟨left', right', hl, hr, hnode⟩ := fold_binary_ok_iff.mp h
      rcases foldNode_ok_iff.mp hnode with ⟨a, b, value, rfl, rfl, _, rfl⟩ | ⟨_, rfl⟩
      · have hleft := (isConstant_fold_iff hl).mp rfl
        have hright := (isConstant_fold_iff hr).mp rfl
        exact absurd (List.append_eq_nil_iff.mpr ⟨hleft, hright⟩) hnames
      · exact .binary hnames (ihl hl) (ihr hr)

theorem fold_of_replacesClosed {e e' : Expr} (h : ReplacesClosed e e') : fold e = .ok e' := by
  induction h with
  | @closed e value hnames hvalue =>
    obtain ⟨e', hfold⟩ := fold_ok_of_evaluate hvalue
    obtain ⟨other, rfl, hother⟩ := fold_closed hfold hnames
    rw [hvalue] at hother
    rw [hfold, Except.ok.inj hother]
  | var name => rfl
  | @binary op left right left' right' hnames _ _ ihl ihr =>
    -- Two constant operands would leave no variable below the node.
    have hs : Stays left' right' := by
      rintro ⟨hl, hr⟩
      apply hnames
      rw [Expr.names, (isConstant_fold_iff ihl).mp hl, (isConstant_fold_iff ihr).mp hr]
      rfl
    simp [ihl, ihr, hs]

theorem fold_node_ok {e e' node : Expr} (h : fold e = .ok e') (hnode : node ∈ e.nodes) :
    ∃ node', fold node = .ok node' := by
  induction e generalizing e' with
  | const value =>
    rw [List.mem_singleton.mp hnode]
    exact ⟨e', h⟩
  | var name =>
    rw [List.mem_singleton.mp hnode]
    exact ⟨e', h⟩
  | binary op left right ihl ihr =>
    obtain ⟨left', right', hl, hr, _⟩ := fold_binary_ok_iff.mp h
    rcases Expr.mem_nodes_binary.mp hnode with hmem | hmem | rfl
    · exact ihl hl hmem
    · exact ihr hr hmem
    · exact ⟨e', h⟩

theorem evaluate_of_dividesByZero {node : Expr} (h : node.DividesByZero) :
    evaluate .empty node = .error (.divisionByZero node evaluationStage) := by
  obtain ⟨_, left, right, a, rfl, hl, hr⟩ := h
  simp [hl, hr, Operator.compute]

theorem fold_fails_iff {e : Expr} :
    (∃ fault, fold e = .error fault) ↔
      ∃ part ∈ e.nodes, part.names = [] ∧ ∃ fault, evaluate .empty part = .error fault := by
  constructor
  · rintro ⟨fault, h⟩
    obtain ⟨_, hok, _⟩ | ⟨node, _, hfirst⟩ := fold_first e
    · simp [h] at hok
    · have hzero := hfirst.holds
      exact ⟨node, hfirst.mem, hzero.1, _, evaluate_of_dividesByZero hzero⟩
  · rintro ⟨part, hpart, hnames, fault, hfault⟩
    cases h : fold e with
    | error fault => exact ⟨fault, rfl⟩
    | ok e' =>
      obtain ⟨part', hok⟩ := fold_node_ok h hpart
      obtain ⟨value, _, hvalue⟩ := fold_closed hok hnames
      simp [hfault] at hvalue

/-- Folding fails if and only if some part without variables has no value, and then shows the
first node that divides by zero. Else every largest part without variables becomes its value. -/
theorem folding_from_top (e : Expr) :
    ((∃ r, foldingPass.apply e = .error r) ↔
      ∃ part ∈ e.nodes, part.names = [] ∧ ∃ fault, evaluate .empty part = .error fault) ∧
    (∀ r, foldingPass.apply e = .error r →
      ∃ node, e.FirstNode Expr.DividesByZero node ∧ r.kind = .divisionByZero ∧
        r.detail? .stage = some "Constant Folding" ∧
        r.detail? .expression = some node.formula) ∧
    (∀ e', foldingPass.apply e = .ok e' ↔ ReplacesClosed e e') ∧
    (∀ e', foldingPass.apply e = .ok e' → ((∃ value, e' = .const value) ↔ e.names = [])) := by
  refine ⟨?_, ?_, ?_, ?_⟩
  · rw [← fold_fails_iff]
    constructor
    · rintro ⟨r, h⟩
      obtain ⟨fault, hfault, _⟩ := foldingPass_error_iff.mp h
      exact ⟨fault, hfault⟩
    · rintro ⟨fault, h⟩
      exact ⟨fault.report, foldingPass_of_error h⟩
  · intro r h
    obtain ⟨fault, hfault, rfl⟩ := foldingPass_error_iff.mp h
    obtain ⟨_, hok, _⟩ | ⟨node, herror, hfirst⟩ := fold_first e
    · simp [hfault] at hok
    · rw [hfault] at herror
      cases herror
      exact ⟨node, hfirst, rfl, rfl, rfl⟩
  · intro e'
    rw [foldingPass_ok_iff]
    exact ⟨replacesClosed_of_fold, fold_of_replacesClosed⟩
  · intro e' h
    rw [← Expr.isConstant_iff]
    exact isConstant_fold_iff (foldingPass_ok_iff.mp h)

/-- In `((x / 0) + ((1 / (2 - 2)) * (3 / 0)))` the first division waits for a value of `x`, and
the second one is shown as it was before its divisor was folded. -/
theorem folding_from_top_second_division :
    let zero := Expr.binary .subtract (.const 2) (.const 2)
    let node := Expr.binary .divide (.const 1) zero
    let e := Expr.binary .add (.binary .divide (.var "x") (.const 0))
      (.binary .multiply node (.binary .divide (.const 3) (.const 0)))
    ∃ r, foldingPass.apply e = .error r ∧ ∃ first, e.FirstNode Expr.DividesByZero first ∧
      r.detail? .expression = some first.formula ∧ first.formula = node.formula := by
  intro zero node e
  have h : foldingPass.apply e = .error (Fault.divisionByZero node foldingStage).report := rfl
  obtain ⟨first, hfirst, _, _, hshown⟩ := (folding_from_top e).2.1 _ h
  exact ⟨_, h, first, hfirst, hshown, (Option.some.inj hshown).symm⟩

end ArithTree
