import ArithTree.Proofs.Folding

/-!
# Folding keeps what an expression is worth

A folded expression has the value of the expression itself under every environment, and has none
where that has none. Its fault is the same, but for the node that a division by zero names: that
node is shown folded. Where folding fails, no environment gives the expression a value.
-/

set_option autoImplicit false

namespace ArithTree

/-- The fault that an expression has once it is folded, beside the fault it had before. -/
def Fault.FoldsTo : Fault → Fault → Prop
  | .undefinedVariable name, fault => fault = .undefinedVariable name
  | .divisionByZero node stage, fault =>
      ∃ node', fold node = .ok node' ∧ fault = .divisionByZero node' stage

def SameOutcome : Except Fault Int64 → Except Fault Int64 → Prop
  | .ok value, result => result = .ok value
  | .error fault, result => ∃ fault', result = .error fault' ∧ fault.FoldsTo fault'

theorem evaluate_of_sameOutcome_const {env : Environment} {e : Expr} {value : Int64}
    (h : SameOutcome (evaluate env e) (evaluate env (.const value))) :
    evaluate env e = .ok value := by
  cases he : evaluate env e with
  | ok v => rw [he] at h; cases h; rfl
  | error fault =>
    rw [he] at h
    obtain ⟨fault', hf, _⟩ := h
    cases hf

theorem sameOutcome_var (env : Environment) (name : String) :
    SameOutcome (evaluate env (.var name)) (evaluate env (.var name)) := by
  cases hget : env.get? name with
  | some value => simp [evaluate, hget, SameOutcome]
  | none => simp [evaluate, hget, SameOutcome, Fault.FoldsTo]

/-- An operation that stays has the outcome of its operands, folded or not. -/
theorem sameOutcome_binary {env : Environment} {op : Operator} {left right left' right' : Expr}
    (hfold : fold (.binary op left right) = .ok (.binary op left' right'))
    (sl : SameOutcome (evaluate env left) (evaluate env left'))
    (sr : SameOutcome (evaluate env right) (evaluate env right')) :
    SameOutcome (evaluate env (.binary op left right))
      (evaluate env (.binary op left' right')) := by
  rcases evaluate_binary_cases env op left right with
    ⟨fault, el, ef⟩ | ⟨a, fault, el, er, ef⟩ | ⟨a, b, el, er, ef⟩
  · rw [el] at sl
    rw [ef]
    obtain ⟨fault', el', hff⟩ := sl
    exact ⟨fault', evaluate_binary_of_left el' op right', hff⟩
  · rw [el] at sl
    rw [er] at sr
    rw [ef]
    obtain ⟨fault', er', hff⟩ := sr
    have el' : evaluate env left' = .ok a := sl
    exact ⟨fault', evaluate_binary_of_right el' er' op, hff⟩
  · rw [el] at sl
    rw [er] at sr
    have el' : evaluate env left' = .ok a := sl
    have er' : evaluate env right' = .ok b := sr
    rw [ef, evaluate_binary_of_ok el' er']
    rcases Operator.apply_cases op a b (.binary op left right) evaluationStage with
      ⟨value, hc, ha⟩ | ⟨hc, ha⟩
    · rw [ha, Operator.apply_of_compute hc]
      rfl
    · rw [ha, Operator.apply_of_compute_none hc]
      exact ⟨_, rfl, _, hfold, rfl⟩

theorem sameOutcome_fold (env : Environment) {e e' : Expr} (h : fold e = .ok e') :
    SameOutcome (evaluate env e) (evaluate env e') := by
  induction e generalizing e' with
  | const value =>
    cases h
    rfl
  | var name =>
    cases h
    exact sameOutcome_var env name
  | binary op left right ihl ihr =>
    obtain ⟨left', right', hl, hr, hnode⟩ := fold_binary_ok_iff.mp h
    rcases foldNode_ok_iff.mp hnode with ⟨a, b, value, rfl, rfl, hc, rfl⟩ | ⟨_, rfl⟩
    · -- The node became a constant: its operands are worth what it was computed from.
      have ha := evaluate_of_sameOutcome_const (ihl hl)
      have hb := evaluate_of_sameOutcome_const (ihr hr)
      simp [ha, hb, hc, SameOutcome, evaluate]
    · exact sameOutcome_binary h (ihl hl) (ihr hr)

/-- Where folding fails there is no value under any environment: the constants that meet at the
zero divisor are what their operands are worth. -/
theorem evaluate_fails_of_fold {e : Expr} {fault : Fault} (h : fold e = .error fault)
    (env : Environment) : ∃ fault', evaluate env e = .error fault' := by
  induction e generalizing fault with
  | const value => cases h
  | var name => cases h
  | binary op left right ihl ihr =>
    rcases evaluate_binary_cases env op left right with
      ⟨fault', _, ef⟩ | ⟨_, fault', _, _, ef⟩ | ⟨a, b, el, er, ef⟩
    · exact ⟨fault', ef⟩
    · exact ⟨fault', ef⟩
    rcases fold_binary_cases op left right with
      ⟨_, hl, _⟩ | ⟨_, _, _, hr, _⟩ | ⟨left', right', hl, hr, hf⟩
    · obtain ⟨fault', hx⟩ := ihl hl
      rw [el] at hx; cases hx
    · obtain ⟨fault', hx⟩ := ihr hr
      rw [er] at hx; cases hx
    rw [hf] at h
    rcases foldNode_cases op (.binary op left right) left' right' with
      ⟨_, _, _, _, _, _, hn⟩ | ⟨c, d, rfl, rfl, hc, _⟩ | ⟨_, hn⟩
    · rw [hn] at h; cases h
    · have hcl := evaluate_of_sameOutcome_const (sameOutcome_fold env hl)
      have hcr := evaluate_of_sameOutcome_const (sameOutcome_fold env hr)
      rw [el] at hcl; cases hcl
      rw [er] at hcr; cases hcr
      exact ⟨_, by rw [ef, Operator.apply_of_compute_none hc]⟩
    · rw [hn] at h; cases h

/-- The report on a fault beside the one on the fault that is left after folding: the same one,
except that a division by zero shows the fold of the node in place of the node. -/
def Fault.ReportFoldsTo (e : Expr) (fault fault' : Fault) : Prop :=
  match fault with
  | .undefinedVariable _ => fault'.report = fault.report
  | .divisionByZero node _ =>
      node ∈ e.nodes ∧ ∃ node', foldingPass.apply node = .ok node' ∧
        fault'.report = fault.report.attach .expression node'.formula

theorem foldingPass_of_ok {e e' : Expr} (h : fold e = .ok e') :
    foldingPass.apply e = .ok e' := by
  show (fold e).mapError Fault.report = .ok e'
  rw [h]
  rfl

theorem foldingPass_of_error {e : Expr} {fault : Fault} (h : fold e = .error fault) :
    foldingPass.apply e = .error fault.report := by
  show (fold e).mapError Fault.report = .error fault.report
  rw [h]
  rfl

theorem foldingPass_ok_iff {e e' : Expr} : foldingPass.apply e = .ok e' ↔ fold e = .ok e' := by
  constructor
  · intro h
    cases hf : fold e with
    | ok other =>
      rw [foldingPass_of_ok hf] at h
      rw [Except.ok.inj h]
    | error fault => rw [foldingPass_of_error hf] at h; cases h
  · exact foldingPass_of_ok

theorem foldingPass_error_iff {e : Expr} {report : Report} :
    foldingPass.apply e = .error report ↔
      ∃ fault, fold e = .error fault ∧ fault.report = report := by
  constructor
  · intro h
    cases hf : fold e with
    | ok other => rw [foldingPass_of_ok hf] at h; cases h
    | error fault =>
      rw [foldingPass_of_error hf] at h
      exact ⟨fault, rfl, Except.error.inj h⟩
  · rintro ⟨fault, hf, rfl⟩
    exact foldingPass_of_error hf

theorem reportFoldsTo_of_foldsTo {env : Environment} {e : Expr} {fault fault' : Fault}
    (he : evaluate env e = .error fault) (h : fault.FoldsTo fault') :
    fault.ReportFoldsTo e fault' := by
  cases fault with
  | undefinedVariable name => rw [h]; rfl
  | divisionByZero node stage =>
    obtain ⟨node', hn, rfl⟩ := h
    exact ⟨evaluate_fault_mem_nodes he, node', foldingPass_ok_iff.mpr hn, rfl⟩

theorem evaluate_ok_iff_of_fold (env : Environment) {e e' : Expr} (h : fold e = .ok e')
    (value : Int64) : evaluate env e' = .ok value ↔ evaluate env e = .ok value := by
  have hs := sameOutcome_fold env h
  cases he : evaluate env e with
  | ok v =>
    rw [he] at hs
    have he' : evaluate env e' = .ok v := hs
    rw [he']
  | error fault =>
    rw [he] at hs
    obtain ⟨fault', he', _⟩ := hs
    simp [he']

theorem evaluate_error_of_fold {env : Environment} {e e' : Expr} {fault : Fault}
    (h : fold e = .ok e') (he : evaluate env e = .error fault) :
    ∃ fault', evaluate env e' = .error fault' ∧ fault.ReportFoldsTo e fault' := by
  have hs := sameOutcome_fold env h
  rw [he] at hs
  obtain ⟨fault', he', hf⟩ := hs
  exact ⟨fault', he', reportFoldsTo_of_foldsTo he hf⟩

theorem evaluate_error_of_evaluate_fold {env : Environment} {e e' : Expr} {fault' : Fault}
    (h : fold e = .ok e') (he' : evaluate env e' = .error fault') :
    ∃ fault, evaluate env e = .error fault ∧ fault.ReportFoldsTo e fault' := by
  cases he : evaluate env e with
  | ok value =>
    have hv := (evaluate_ok_iff_of_fold env h value).mpr he
    rw [he'] at hv; cases hv
  | error fault =>
    obtain ⟨other, ho, hf⟩ := evaluate_error_of_fold h he
    rw [he'] at ho; cases ho
    exact ⟨fault, rfl, hf⟩

theorem fold_ok_of_evaluate {env : Environment} {e : Expr} {value : Int64}
    (h : evaluate env e = .ok value) : ∃ e', fold e = .ok e' := by
  cases hf : fold e with
  | ok e' => exact ⟨e', rfl⟩
  | error fault =>
    obtain ⟨fault', hx⟩ := evaluate_fails_of_fold hf env
    rw [h] at hx; cases hx

/-- Folding keeps values and faults, and it succeeds wherever there is a value. -/
theorem evaluation_of_folded (e : Expr) (env : Environment) :
    (∀ value, evaluate env e = .ok value →
      ∃ e', foldingPass.apply e = .ok e' ∧ evaluate env e' = .ok value) ∧
    (∀ e', foldingPass.apply e = .ok e' →
      (∀ value, evaluate env e' = .ok value ↔ evaluate env e = .ok value) ∧
      (∀ fault, evaluate env e = .error fault →
        ∃ fault', evaluate env e' = .error fault' ∧ fault.ReportFoldsTo e fault') ∧
      (∀ fault', evaluate env e' = .error fault' →
        ∃ fault, evaluate env e = .error fault ∧ fault.ReportFoldsTo e fault')) ∧
    (∀ report, foldingPass.apply e = .error report →
      ∃ fault, evaluate env e = .error fault) := by
  refine ⟨?_, ?_, ?_⟩
  · intro value h
    obtain ⟨e', hf⟩ := fold_ok_of_evaluate h
    exact ⟨e', foldingPass_ok_iff.mpr hf, (evaluate_ok_iff_of_fold env hf value).mpr h⟩
  · intro e' h
    have hf := foldingPass_ok_iff.mp h
    exact ⟨evaluate_ok_iff_of_fold env hf, fun fault he => evaluate_error_of_fold hf he,
      fun fault' he' => evaluate_error_of_evaluate_fold hf he'⟩
  · intro report h
    obtain ⟨fault, hf, _⟩ := foldingPass_error_iff.mp h
    exact evaluate_fails_of_fold hf env

theorem evaluation_of_folded_zero_divisor :
    let env := Environment.ofList [("x", 5)]
    let zero := Expr.binary .subtract (.var "x") (.var "x")
    let e := Expr.binary .divide (.binary .add (.const 1) (.const 2)) zero
    ∃ fault fault', evaluate env e = .error fault ∧
      evaluate env (.binary .divide (.const 3) zero) = .error fault' ∧
      fault.ReportFoldsTo e fault' := by
  intro env zero e
  have h := (evaluation_of_folded e env).2.1 (.binary .divide (.const 3) zero) rfl
  have he : evaluate env e = .error (.divisionByZero e evaluationStage) := rfl
  obtain ⟨fault', he', hf⟩ := h.2.1 _ he
  exact ⟨_, fault', he, he', hf⟩

end ArithTree
