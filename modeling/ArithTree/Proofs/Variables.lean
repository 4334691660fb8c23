import ArithTree.Proofs.Environment
import ArithTree.Proofs.FirstFault
import ArithTree.Proofs.Measures

/-!
# What evaluation reads

Of an environment evaluation reads the values of the variables of the expression and nothing
else. A value is found only when all of them are bound, and an unbound variable that is reported
is one of them. So a binding of any other name has no effect, and neither has a new binding where
there was a value without it.
-/

set_option autoImplicit false

namespace ArithTree

theorem evaluate_congr_variableNames {env env' : Environment} {e : Expr}
    (h : ∀ name ∈ e.variableNames, env.get? name = env'.get? name) :
    evaluate env e = evaluate env' e :=
  evaluate_congr fun name hname => h name (Expr.mem_variableNames_iff.mpr hname)

theorem bound_of_evaluate_ok {env : Environment} {e : Expr} {value : Int64}
    (h : evaluate env e = .ok value) {name : String} (hname : name ∈ e.variableNames) :
    ∃ bound, env.get? name = some bound := by
  have hnode : .var name ∈ e.nodes := Expr.mem_names_iff.mp (Expr.mem_variableNames_iff.mp hname)
  have hturn : ¬Fails env (.var name) := evaluate_ok_iff_nodes.mp ⟨value, h⟩ _ hnode
  rw [fails_var_iff] at hturn
  exact Option.ne_none_iff_exists'.mp hturn

theorem unbound_of_evaluate_error {env : Environment} {e : Expr} {name : String}
    (h : evaluate env e = .error (.undefinedVariable name)) :
    name ∈ e.variableNames ∧ env.get? name = none := by
  obtain ⟨node, hfirst, hfails⟩ := evaluate_error_iff_first.mp h
  cases hfails with
  | unbound hget =>
    exact ⟨Expr.mem_variableNames_iff.mpr (Expr.mem_names_iff.mpr hfirst.mem), hget⟩

theorem evaluate_bind_of_not_mem {e : Expr} {name : String} (h : name ∉ e.variableNames)
    (env : Environment) (value : Int64) :
    evaluate (env.bind name value) e = evaluate env e := by
  apply evaluate_congr_variableNames
  intro other hother
  have hne : other ≠ name := fun he => h (he ▸ hother)
  rw [Environment.get?_bind, if_neg hne]

/-- Environments that agree on the variables of an expression give it the same value or the same
fault. Where there is a value all variables are bound, and an undefined variable that is reported
is one of them without a value. So neither a binding of another name nor a new binding beside a
value changes anything. -/
theorem evaluation_reads_variables (e : Expr) :
    (∀ env env' : Environment,
      (∀ name ∈ e.variableNames, env.get? name = env'.get? name) →
      evaluate env e = evaluate env' e) ∧
    (∀ env value, evaluate env e = .ok value →
      ∀ name ∈ e.variableNames, ∃ bound, env.get? name = some bound) ∧
    (∀ env fault, evaluate env e = .error fault → fault.report.kind = .undefinedVariable →
      ∃ name ∈ e.variableNames, fault.report.detail? .variable = some name ∧
        env.get? name = none) ∧
    (∀ env name value, name ∉ e.variableNames →
      evaluate (env.bind name value) e = evaluate env e) ∧
    (∀ env name value found, env.get? name = none → evaluate env e = .ok found →
      evaluate (env.bind name value) e = .ok found) := by
  refine ⟨fun _ _ => evaluate_congr_variableNames,
    fun _ _ h _ hname => bound_of_evaluate_ok h hname, ?_,
    fun env _ value h => evaluate_bind_of_not_mem h env value, ?_⟩
  · intro env fault h hkind
    cases fault with
    | undefinedVariable name =>
      obtain ⟨hmem, hget⟩ := unbound_of_evaluate_error h
      exact ⟨name, hmem, rfl, hget⟩
    | divisionByZero node stage => cases hkind
  · intro env name value found hget h
    have hnot : name ∉ e.variableNames := by
      intro hmem
      obtain ⟨bound, hbound⟩ := bound_of_evaluate_ok h hmem
      rw [hget] at hbound
      cases hbound
    rw [evaluate_bind_of_not_mem hnot, h]

/-- At `((x / y) + z)`: `z` is not come to where the division fails, and is missed where it does
not fail. Another name takes no part in either. -/
theorem evaluation_reads_variables_unbound :
    let e := Expr.binary .add (.binary .divide (.var "x") (.var "y")) (.var "z")
    let failing := Environment.ofList [("x", 1), ("y", 0)]
    let other := Environment.ofList [("a", 9), ("y", 0), ("x", 1)]
    let unbound := Environment.ofList [("x", 6), ("y", 2)]
    let full := unbound.bind "z" 4
    (∃ fault, evaluate failing e = .error fault ∧ evaluate other e = .error fault) ∧
      (∃ fault, evaluate unbound e = .error fault ∧
        ∃ name ∈ e.variableNames, fault.report.detail? .variable = some name ∧
          unbound.get? name = none) ∧
      evaluate (unbound.bind "a" 8) e = evaluate unbound e ∧
      evaluate full e = .ok 7 ∧ (∃ bound, full.get? "z" = some bound) ∧
      evaluate (full.bind "a" 8) e = .ok 7 := by
  intro e failing other unbound full
  obtain ⟨hcongr, hbound, hreport, hother, hnew⟩ := evaluation_reads_variables e
  have hnames : ∀ name, name ∈ e.variableNames ↔ name ∈ ["x", "y", "z"] :=
    fun name => Expr.mem_variableNames_iff
  have hfails : evaluate failing e = .error (.divisionByZero _ evaluationStage) := rfl
  have hunbound : evaluate unbound e = .error (.undefinedVariable "z") := rfl
  have hfull : evaluate full e = .ok 7 := rfl
  have hz : "z" ∈ e.variableNames := (hnames "z").mpr (by decide)
  have ha : "a" ∉ e.variableNames := fun hmem => absurd ((hnames "a").mp hmem) (by decide)
  have hagree : ∀ name ∈ e.variableNames, other.get? name = failing.get? name := by
    intro name hname
    rw [hnames] at hname
    revert name
    decide
  exact ⟨⟨_, hfails, (hcongr other failing hagree).trans hfails⟩,
    ⟨_, hunbound, hreport unbound _ hunbound rfl⟩, hother unbound "a" 8 ha, hfull,
    hbound full 7 hfull "z" hz, hnew full "a" 8 7 rfl hfull⟩

end ArithTree
