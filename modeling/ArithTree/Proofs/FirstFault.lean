import ArithTree.Proofs.Evaluation
import ArithTree.Proofs.Nodes

/-!
# The first node that fails

Evaluation goes through the nodes of an expression with the operands of each before it and the
left one first. It ends at the first node that fails at its turn, and the report is on that node.
If no node fails there is a value. Every node is come to unless one before it fails, so nothing
that stands to the right of a node can hide its failure.
-/

set_option autoImplicit false

namespace ArithTree

/-- How a node fails at its turn: as a variable without a value, or as a division of two values
by zero. -/
inductive FailsWith (env : Environment) : Expr → Fault → Prop
  | unbound {name : String} :
      env.get? name = none → FailsWith env (.var name) (.undefinedVariable name)
  | zeroDivisor {left right : Expr} {a : Int64} :
      evaluate env left = .ok a → evaluate env right = .ok 0 →
      FailsWith env (.binary .divide left right)
        (.divisionByZero (.binary .divide left right) evaluationStage)

def Fails (env : Environment) (node : Expr) : Prop :=
  ∃ fault, FailsWith env node fault

theorem FailsWith.unique {env : Environment} {node : Expr} {fault other : Fault}
    (h : FailsWith env node fault) (h' : FailsWith env node other) : fault = other := by
  cases h <;> cases h' <;> rfl

theorem not_fails_const (env : Environment) (value : Int64) : ¬Fails env (.const value) := by
  rintro ⟨fault, h⟩
  cases h

theorem fails_var_iff {env : Environment} {name : String} :
    Fails env (.var name) ↔ env.get? name = none := by
  constructor
  · rintro ⟨fault, h⟩
    cases h
    assumption
  · exact fun h => ⟨_, .unbound h⟩

theorem fails_binary_iff {env : Environment} {op : Operator} {left right : Expr} {a b : Int64}
    (hl : evaluate env left = .ok a) (hr : evaluate env right = .ok b) :
    Fails env (.binary op left right) ↔ op.compute a b = none := by
  rw [Operator.compute_eq_none_iff]
  constructor
  · rintro ⟨fault, h⟩
    cases h with
    | zeroDivisor _ hzero =>
      rw [hr] at hzero
      exact ⟨rfl, Except.ok.inj hzero⟩
  · rintro ⟨rfl, rfl⟩
    exact ⟨_, .zeroDivisor hl hr⟩

theorem evaluate_first (env : Environment) (e : Expr) :
    (∃ value, evaluate env e = .ok value ∧ ∀ node ∈ e.nodes, ¬Fails env node) ∨
    (∃ node fault, evaluate env e = .error fault ∧ FailsWith env node fault ∧
      e.FirstNode (Fails env) node) := by
  induction e with
  | const value =>
    exact .inl ⟨value, rfl, List.forall_mem_singleton.mpr (not_fails_const env value)⟩
  | var name =>
    cases hget : env.get? name with
    | some value =>
      refine .inl ⟨value, by simp only [evaluate, hget], List.forall_mem_singleton.mpr ?_⟩
      rw [fails_var_iff, hget]
      simp
    | none =>
      have hfails : FailsWith env (.var name) (.undefinedVariable name) := .unbound hget
      refine .inr ⟨.var name, _, by simp only [evaluate, hget], hfails, ?_⟩
      exact ⟨[], [], rfl, ⟨_, hfails⟩, by simp⟩
  | binary op left right ihl ihr =>
    rcases ihl with ⟨a, hl, hleft⟩ | ⟨node, fault, hl, hfault, hfirst⟩
    · rcases ihr with ⟨b, hr, hright⟩ | ⟨node, fault, hr, hfault, hfirst⟩
      · rw [evaluate_binary_of_ok hl hr, Expr.forall_mem_nodes_binary, fails_binary_iff hl hr]
        rcases Operator.apply_cases op a b (.binary op left right) evaluationStage with
          ⟨value, hc, ha⟩ | ⟨hc, ha⟩
        · exact .inl ⟨value, ha, hleft, hright, by simp [hc]⟩
        · obtain ⟨rfl, rfl⟩ := Operator.compute_eq_none_iff.mp hc
          have hfails := FailsWith.zeroDivisor hl hr
          exact .inr ⟨_, _, ha, hfails, .of_self hleft hright ⟨_, hfails⟩⟩
      · have he := evaluate_binary_of_right hl hr op
        exact .inr ⟨node, fault, he, hfault, hfirst.of_right hleft⟩
    · have he := evaluate_binary_of_left hl op right
      exact .inr ⟨node, fault, he, hfault, hfirst.of_left⟩

theorem evaluate_ok_iff_nodes {env : Environment} {e : Expr} :
    (∃ value, evaluate env e = .ok value) ↔ ∀ node ∈ e.nodes, ¬Fails env node := by
  rcases evaluate_first env e with ⟨value, hvalue, hnone⟩ | ⟨node, fault, hfault, _, hfirst⟩
  · exact iff_of_true ⟨value, hvalue⟩ hnone
  · refine iff_of_false ?_ fun hnone => hnone node hfirst.mem hfirst.holds
    rintro ⟨value, hvalue⟩
    rw [hfault] at hvalue
    cases hvalue

theorem evaluate_error_iff_first {env : Environment} {e : Expr} {fault : Fault} :
    evaluate env e = .error fault ↔
      ∃ node, e.FirstNode (Fails env) node ∧ FailsWith env node fault := by
  rcases evaluate_first env e with ⟨value, hvalue, hnone⟩ | ⟨node, other, hother, hfails, hfirst⟩
  · refine iff_of_false (by simp [hvalue]) ?_
    rintro ⟨node, hfirst, _⟩
    exact hnone node hfirst.mem hfirst.holds
  · rw [hother]
    constructor
    · rintro ⟨rfl⟩
      exact ⟨node, hfirst, hfails⟩
    · rintro ⟨node', hfirst', hfails'⟩
      rw [hfirst'.unique hfirst] at hfails'
      rw [hfails.unique hfails']

/-- A report that says of a node how it has failed. -/
def Expr.ShownBy (node : Expr) (r : Report) : Prop :=
  match node with
  | .const _ => False
  | .var name =>
      r.kind = .undefinedVariable ∧ r.message = "Undefined variable '" ++ name ++ "'" ∧
        r.detail? .variable = some name ∧ r.detail? .stage = some "Evaluation"
  | .binary op left right =>
      r.kind = .divisionByZero ∧ r.message = "Can't divide by zero" ∧
        r.detail? .expression = some (Expr.binary op left right).formula ∧
        r.detail? .stage = some "Evaluation"

theorem FailsWith.shown {env : Environment} {node : Expr} {fault : Fault}
    (h : FailsWith env node fault) : node.ShownBy fault.report := by
  cases h with
  | unbound _ => exact ⟨rfl, rfl, rfl, rfl⟩
  | zeroDivisor _ _ => exact ⟨rfl, rfl, rfl, rfl⟩

/-- An expression has a value if and only if no node of it fails at its turn; else the fault is
that of the first node that does, and the report shows this node. What stands to the right of an
unbound variable never hides it. -/
theorem evaluation_ends_at_first_fault (env : Environment) (e : Expr) :
    ((∃ value, evaluate env e = .ok value) ↔ ∀ node ∈ e.nodes, ¬Fails env node) ∧
    (∀ fault, evaluate env e = .error fault ↔
      ∃ node, e.FirstNode (Fails env) node ∧ FailsWith env node fault) ∧
    (∀ node fault, FailsWith env node fault → node.ShownBy fault.report) ∧
    (∀ name, .var name ∈ e.nodes → env.get? name = none →
      ∃ fault, evaluate env e = .error fault ∧
        ∀ op right, evaluate env (.binary op e right) = .error fault) := by
  refine ⟨evaluate_ok_iff_nodes, fun _ => evaluate_error_iff_first, fun _ _ h => h.shown, ?_⟩
  intro name hname hget
  cases he : evaluate env e with
  | ok value =>
    have hnone := evaluate_ok_iff_nodes.mp ⟨value, he⟩
    exact absurd (fails_var_iff.mpr hget) (hnone _ hname)
  | error fault => exact ⟨fault, rfl, evaluate_binary_of_left he⟩

/-- At `((x / (1 / y)) * 0)` with `y` bound to zero: of two nodes that fail the unbound variable is
the first, and neither the divisor that fails nor the zero factor hides it. -/
theorem evaluation_ends_at_first_fault_unbound :
    let env := Environment.ofList [("y", 0)]
    let zero := Expr.binary .divide (.const 1) (.var "y")
    let quotient := Expr.binary .divide (.var "x") zero
    let e := Expr.binary .multiply quotient (.const 0)
    Fails env zero ∧ evaluate env e = .error (.undefinedVariable "x") ∧
      (∃ node, e.FirstNode (Fails env) node ∧ FailsWith env node (.undefinedVariable "x") ∧
        node.ShownBy (Fault.undefinedVariable "x").report) ∧
      ∃ fault, evaluate env quotient = .error fault ∧ evaluate env e = .error fault := by
  intro env zero quotient e
  have hzero : FailsWith env zero (.divisionByZero zero evaluationStage) :=
    .zeroDivisor (a := 1) rfl rfl
  have he : evaluate env e = .error (.undefinedVariable "x") := rfl
  obtain ⟨node, hfirst, hfails⟩ := ((evaluation_ends_at_first_fault env e).2.1 _).mp he
  have hshown := (evaluation_ends_at_first_fault env e).2.2.1 node _ hfails
  obtain ⟨fault, hquotient, hright⟩ :=
    (evaluation_ends_at_first_fault env quotient).2.2.2 "x" (by decide) rfl
  exact ⟨⟨_, hzero⟩, he, ⟨node, hfirst, hfails, hshown⟩, fault, hquotient,
    hright .multiply (.const 0)⟩

end ArithTree
