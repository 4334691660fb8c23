import ArithTree.Pass.Constants
import ArithTree.Pass.Folding

/-!
# Pipelines as compositions

A pipeline can be put together in several ways, and started again. Its passes are those that were
given from its last start on, in their order. It takes an expression through them from left to
right, so that a pipeline can be cut into two anywhere. A failure is that of one pass on what the
passes before it have made of the expression, whatever passes come after it.
-/

set_option autoImplicit false

namespace ArithTree

theorem Pipeline.run_cons (pass : Pass) (passes : List Pass) (e : Expr) :
    Pipeline.run (pass :: passes) e = (pass.apply e).bind (Pipeline.run passes) := by
  rw [Pipeline.run]
  cases pass.apply e <;> rfl

theorem Pipeline.run_append (before after : List Pass) (e : Expr) :
    Pipeline.run (before ++ after) e = (Pipeline.run before e).bind (Pipeline.run after) := by
  induction before generalizing e with
  | nil => rfl
  | cons pass before ih =>
    rw [List.cons_append, Pipeline.run_cons, Pipeline.run_cons]
    cases pass.apply e with
    | ok e' => exact ih e'
    | error r => rfl

/-- What comes of an expression that goes through passes one after the other. -/
def Expr.through (e : Expr) (passes : List Pass) : Except Report Expr :=
  passes.foldlM (fun e pass => pass.apply e) e

theorem Pipeline.run_eq_through (passes : List Pass) (e : Expr) :
    Pipeline.run passes e = e.through passes := by
  induction passes generalizing e with
  | nil => rfl
  | cons pass passes ih =>
    rw [Pipeline.run_cons, Expr.through, List.foldlM_cons]
    cases pass.apply e with
    | ok e' => exact ih e'
    | error r => rfl

theorem Pipeline.run_of_failure {before : List Pass} {pass : Pass} {e input : Expr} {r : Report}
    (hbefore : Pipeline.run before e = .ok input) (hpass : pass.apply input = .error r)
    (after : List Pass) : Pipeline.run (before ++ pass :: after) e = .error r := by
  rw [Pipeline.run_append, hbefore]
  show Pipeline.run (pass :: after) input = .error r
  rw [Pipeline.run_cons, hpass]
  rfl

theorem Pipeline.exists_failure {passes : List Pass} {e : Expr} {r : Report}
    (h : Pipeline.run passes e = .error r) :
    ∃ before pass after input, passes = before ++ pass :: after ∧
      Pipeline.run before e = .ok input ∧ pass.apply input = .error r := by
  induction passes generalizing e with
  | nil => cases h
  | cons pass passes ih =>
    rw [Pipeline.run_cons] at h
    cases hpass : pass.apply e with
    | error first =>
      rw [hpass] at h
      cases h
      exact ⟨[], pass, passes, e, rfl, rfl, hpass⟩
    | ok e' =>
      rw [hpass] at h
      obtain ⟨before, failing, after, input, rfl, hbefore, hfails⟩ := ih h
      refine ⟨pass :: before, failing, after, input, rfl, ?_, hfails⟩
      rw [Pipeline.run_cons, hpass]
      exact hbefore

/-- One step of putting a pipeline together: a start, without passes or with some, or one more
pass. -/
inductive BuildStep
  | empty
  | ofPasses (passes : List Pass)
  | register (pass : Pass)

namespace BuildStep

def perform (p : Pipeline) : BuildStep → Pipeline
  | .empty => .empty
  | .ofPasses passes => .ofPasses passes
  | .register pass => p.register pass

def passes : BuildStep → List Pass
  | .empty => []
  | .ofPasses passes => passes
  | .register pass => [pass]

def isStart : BuildStep → Bool
  | .empty => true
  | .ofPasses _ => true
  | .register _ => false

theorem passes_perform (p : Pipeline) (step : BuildStep) :
    (perform p step).passes = (if step.isStart then [] else p.passes) ++ step.passes := by
  cases step <;> rfl

end BuildStep

def Pipeline.built (steps : List BuildStep) : Pipeline :=
  steps.foldl BuildStep.perform .empty

/-- The steps from the last start on, or all of them if there is none. -/
def sinceStart : List BuildStep → List BuildStep
  | [] => []
  | step :: steps => if steps.any BuildStep.isStart then sinceStart steps else step :: steps

def givenPasses (steps : List BuildStep) : List Pass :=
  (sinceStart steps).flatMap BuildStep.passes

theorem sinceStart_of_none {steps : List BuildStep} (h : steps.any BuildStep.isStart = false) :
    sinceStart steps = steps := by
  cases steps with
  | nil => rfl
  | cons step steps =>
    rw [List.any_cons, Bool.or_eq_false_iff] at h
    rw [sinceStart, h.2]
    rfl

theorem passes_foldl_perform (p : Pipeline) (steps : List BuildStep) :
    (steps.foldl BuildStep.perform p).passes =
      (if steps.any BuildStep.isStart then [] else p.passes) ++ givenPasses steps := by
  induction steps generalizing p with
  | nil => exact (List.append_nil _).symm
  | cons step steps ih =>
    rw [List.foldl_cons, ih, givenPasses, givenPasses, sinceStart, List.any_cons]
    cases hstart : steps.any BuildStep.isStart with
    | true => simp
    | false =>
      simp only [Bool.or_false, Bool.false_eq_true, if_false, sinceStart_of_none hstart,
        List.flatMap_cons, BuildStep.passes_perform, List.append_assoc]

theorem passes_built (steps : List BuildStep) :
    (Pipeline.built steps).passes = givenPasses steps := by
  rw [Pipeline.built, passes_foldl_perform]
  cases steps.any BuildStep.isStart <;> rfl

theorem apply_built (steps : List BuildStep) (e : Expr) :
    (Pipeline.built steps).apply e = Pipeline.run (givenPasses steps) e := by
  rw [Pipeline.apply, passes_built]

theorem apply_built_of_failure {steps : List BuildStep} {before after : List Pass} {e : Expr}
    {r : Report} (hsteps : givenPasses steps = before ++ after) (h : e.through before = .error r) :
    (Pipeline.built steps).apply e = .error r := by
  rw [apply_built, hsteps, Pipeline.run_append, Pipeline.run_eq_through, h]
  rfl

/-- A pipeline holds the passes that it was given, in their order, and takes every expression
through them. Cut in two, it is its first part followed by its second one. It fails just where a
pass fails on what comes of the passes before it, with the report of that pass, and the passes
after that one have no part in it. -/
theorem pipeline_composes_passes (steps : List BuildStep) :
    ((Pipeline.built steps).length = (givenPasses steps).length ∧
      ((Pipeline.built steps).isEmpty = true ↔ givenPasses steps = []) ∧
      (Pipeline.built steps).passNames = (givenPasses steps).map Pass.name) ∧
    (∀ e, (Pipeline.built steps).apply e = e.through (givenPasses steps)) ∧
    (∀ first second : List BuildStep, givenPasses steps = givenPasses first ++ givenPasses second →
      ∀ e, (Pipeline.built steps).apply e =
        (Pipeline.built first).apply e >>= (Pipeline.built second).apply) ∧
    (∀ e r, (Pipeline.built steps).apply e = .error r ↔
      ∃ before pass after input, givenPasses steps = before ++ pass :: after ∧
        e.through before = .ok input ∧ pass.apply input = .error r) ∧
    (∀ other before after after' e r, givenPasses steps = before ++ after →
      givenPasses other = before ++ after' → e.through before = .error r →
      (Pipeline.built steps).apply e = .error r ∧ (Pipeline.built other).apply e = .error r) := by
  refine ⟨?_, ?_, ?_, ?_, ?_⟩
  · rw [Pipeline.length, Pipeline.isEmpty, Pipeline.passNames, passes_built, List.isEmpty_iff]
    exact ⟨rfl, Iff.rfl, rfl⟩
  · intro e
    rw [apply_built, Pipeline.run_eq_through]
  · intro first second hcut e
    rw [apply_built, apply_built, hcut, Pipeline.run_append]
    congr 1
    funext e'
    rw [apply_built]
  · intro e r
    simp only [apply_built, ← Pipeline.run_eq_through]
    constructor
    · exact Pipeline.exists_failure
    · rintro ⟨before, pass, after, input, hsteps, hbefore, hpass⟩
      rw [hsteps]
      exact Pipeline.run_of_failure hbefore hpass after
  · intro other before after after' e r hsteps hother hfails
    exact ⟨apply_built_of_failure hsteps hfails, apply_built_of_failure hother hfails⟩

theorem pipeline_composes_passes_restarted :
    let report := Report.ofConfig "refused"
    let refuse : Pass := { apply := fun _ => .error report }
    let steps := [.register (replacementPass 1), .ofPasses [foldingPass], .register refuse,
      .register foldingPass]
    let other := [.register foldingPass, .register refuse]
    let e := Expr.binary .divide (.const 4) (.const 2)
    (Pipeline.built steps).passNames = ["constant_folding", "custom", "constant_folding"] ∧
      (Pipeline.built steps).apply e =
        (Pipeline.built [.register foldingPass]).apply e >>=
          (Pipeline.built [.ofPasses [refuse, foldingPass]]).apply ∧
      (Pipeline.built steps).apply e = .error report ∧
      (Pipeline.built other).apply e = .error report := by
  intro report refuse steps other e
  obtain ⟨⟨_, _, hnames⟩, _, hcut, _, hfails⟩ := pipeline_composes_passes steps
  exact ⟨hnames, hcut [.register foldingPass] [.ofPasses [refuse, foldingPass]] rfl e,
    hfails other [foldingPass, refuse] [foldingPass] [] e report rfl rfl rfl⟩

end ArithTree
