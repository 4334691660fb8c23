import ArithTree.Pass.Folding
import ArithTree.Proofs.Outcomes
import Mathlib.Logic.Function.Iterate

/-!
# Many expressions at once

The expressions of a batch are tasks that know nothing of each other. A task applies one pass at
each of its turns and at last holds its result in the place of its expression. A schedule says
whose turn it is; it may leave a task and come back to it, and so the tasks can end in any order.
How far a task has come depends on the number of its turns alone. So when all tasks have ended,
whatever the schedule was, the results are those of the expressions taken one by one, and the
failure that is reported is the first by place and not by time.
-/

set_option autoImplicit false

namespace ArithTree

theorem firstFailure_ok_iff {α : Type} {results : List (Except Report α)} {values : List α} :
    firstFailure results = .ok values ↔ results = values.map .ok := by
  induction results generalizing values with
  | nil => cases values <;> simp [firstFailure]
  | cons result results ih =>
    cases result with
    | error r => cases values <;> simp [firstFailure]
    | ok a =>
      rw [firstFailure, map_eq_ok_iff]
      cases values with
      | nil => simp
      | cons value values => simp [ih, and_comm]

theorem firstFailure_error_iff {α : Type} {results : List (Except Report α)} {r : Report} :
    firstFailure results = .error r ↔
      ∃ i : Nat, results[i]? = some (Except.error r) ∧
        ∀ j < i, ∃ a, results[j]? = some (Except.ok a) := by
  induction results with
  | nil => simp [firstFailure]
  | cons result results ih =>
    cases result with
    | error first =>
      rw [firstFailure]
      constructor
      · rintro ⟨rfl⟩
        exact ⟨0, rfl, by simp⟩
      · rintro ⟨i, hi, hbefore⟩
        cases i with
        | zero =>
          rw [List.getElem?_cons_zero] at hi
          cases hi
          rfl
        | succ i =>
          obtain ⟨a, ha⟩ := hbefore 0 (Nat.succ_pos i)
          cases ha
    | ok first =>
      have hcons : firstFailure (.ok first :: results) = .error r ↔
          firstFailure results = .error r := by
        rw [firstFailure]
        cases firstFailure results <;> simp
      rw [hcons, ih]
      constructor
      · rintro ⟨i, hi, hbefore⟩
        refine ⟨i + 1, hi, fun j hj => ?_⟩
        cases j with
        | zero => exact ⟨first, rfl⟩
        | succ j => exact hbefore j (Nat.lt_of_succ_lt_succ hj)
      · rintro ⟨i, hi, hbefore⟩
        cases i with
        | zero => cases hi
        | succ i => exact ⟨i, hi, fun j hj => hbefore (j + 1) (Nat.succ_lt_succ hj)⟩

/-- An expression on its way through the passes that are left, or what has become of it. -/
inductive Task
  | running (passes : List Pass) (e : Expr)
  | ended (result : Except Report Expr)

namespace Task

/-- One turn of a task: its next pass, or its end after the last one or after a failure. -/
def turn : Task → Task
  | .running [] e => .ended (.ok e)
  | .running (pass :: passes) e =>
      match pass.apply e with
      | .ok e' => .running passes e'
      | .error r => .ended (.error r)
  | .ended result => .ended result

def result? : Task → Option (Except Report Expr)
  | .running _ _ => none
  | .ended result => some result

def outcome : Task → Except Report Expr
  | .running passes e => Pipeline.run passes e
  | .ended result => result

def turnsLeft : Task → Nat
  | .running passes _ => passes.length + 1
  | .ended _ => 0

theorem outcome_turn (task : Task) : task.turn.outcome = task.outcome := by
  match task with
  | .running [] e => rfl
  | .running (pass :: passes) e =>
    rw [turn, outcome, Pipeline.run]
    cases pass.apply e <;> rfl
  | .ended result => rfl

theorem turnsLeft_turn (task : Task) : task.turn.turnsLeft ≤ task.turnsLeft - 1 := by
  match task with
  | .running [] e => exact Nat.le_refl 0
  | .running (pass :: passes) e =>
    rw [turn]
    cases pass.apply e <;> simp [turnsLeft]
  | .ended result => exact Nat.le_refl 0

theorem outcome_turns (n : Nat) (task : Task) : (turn^[n] task).outcome = task.outcome := by
  induction n generalizing task with
  | zero => rfl
  | succ n ih => rw [Function.iterate_succ_apply, ih, outcome_turn]

theorem turnsLeft_turns (n : Nat) (task : Task) :
    (turn^[n] task).turnsLeft ≤ task.turnsLeft - n := by
  induction n generalizing task with
  | zero => exact Nat.le_refl _
  | succ n ih =>
    have hstep := turnsLeft_turn task
    have hrest := ih task.turn
    rw [Function.iterate_succ_apply]
    omega

theorem result?_of_turnsLeft {task : Task} (h : task.turnsLeft = 0) :
    task.result? = some task.outcome := by
  cases task with
  | running passes e => simp [turnsLeft] at h
  | ended result => rfl

theorem outcome_of_result? {task : Task} {result : Except Report Expr}
    (h : task.result? = some result) : task.outcome = result := by
  cases task with
  | running passes e => cases h
  | ended other => exact Option.some.inj h

end Task

/-- The tasks that have turns on a schedule take them, each time the one at the place named. -/
def takeTurns : List Nat → List Task → List Task
  | [], tasks => tasks
  | i :: schedule, tasks => takeTurns schedule (tasks.modify i Task.turn)

theorem getElem?_takeTurns (schedule : List Nat) (tasks : List Task) (i : Nat) :
    (takeTurns schedule tasks)[i]? = tasks[i]?.map Task.turn^[schedule.count i] := by
  induction schedule generalizing tasks with
  | nil => simp [takeTurns]
  | cons j schedule ih =>
    rw [takeTurns, ih, List.getElem?_modify, List.count_cons]
    by_cases h : j = i
    · simp [h, Function.iterate_succ]
    · simp [h]

def results? : List Task → Option (List (Except Report Expr))
  | [] => some []
  | task :: tasks =>
      match task.result?, results? tasks with
      | some result, some results => some (result :: results)
      | _, _ => none

theorem results?_of_ended {tasks : List Task} (h : ∀ task ∈ tasks, task.turnsLeft = 0) :
    results? tasks = some (tasks.map Task.outcome) := by
  induction tasks with
  | nil => rfl
  | cons task tasks ih =>
    have htask := Task.result?_of_turnsLeft (h task List.mem_cons_self)
    have htasks := ih fun t ht => h t (List.mem_cons_of_mem _ ht)
    rw [results?, htask, htasks, List.map_cons]

theorem results?_eq_some {tasks : List Task} {results : List (Except Report Expr)}
    (h : results? tasks = some results) : results = tasks.map Task.outcome := by
  induction tasks generalizing results with
  | nil => cases h; rfl
  | cons task tasks ih =>
    cases htask : task.result? with
    | none => simp [results?, htask] at h
    | some result =>
      cases htasks : results? tasks with
      | none => simp [results?, htask, htasks] at h
      | some others =>
        simp only [results?, htask, htasks, Option.some.injEq] at h
        rw [← h, ih htasks, List.map_cons, Task.outcome_of_result? htask]

theorem map_outcome_takeTurns (schedule : List Nat) (tasks : List Task) :
    (takeTurns schedule tasks).map Task.outcome = tasks.map Task.outcome := by
  apply List.ext_getElem?
  intro i
  rw [List.getElem?_map, getElem?_takeTurns, List.getElem?_map, Option.map_map]
  congr 1
  funext task
  exact task.outcome_turns _

namespace Pipeline

def tasks (p : Pipeline) (es : List Expr) : List Task :=
  es.map (.running p.passes)

/-- What a batch returns after the turns of a schedule, if all its tasks have ended. -/
def batch? (p : Pipeline) (schedule : List Nat) (es : List Expr) :
    Option (Except Report (List Expr)) :=
  (results? (takeTurns schedule (p.tasks es))).map firstFailure

theorem outcomes_takeTurns (p : Pipeline) (schedule : List Nat) (es : List Expr) :
    (takeTurns schedule (p.tasks es)).map Task.outcome = es.map p.apply := by
  rw [map_outcome_takeTurns, tasks, List.map_map]
  rfl

theorem batch?_eq_some {p : Pipeline} {schedule : List Nat} {es : List Expr}
    {result : Except Report (List Expr)} (h : p.batch? schedule es = some result) :
    result = p.applyAll es := by
  obtain ⟨results, hresults, rfl⟩ := Option.map_eq_some_iff.mp h
  rw [results?_eq_some hresults, outcomes_takeTurns, applyAll]

theorem turnsLeft_takeTurns {p : Pipeline} {schedule : List Nat} {es : List Expr}
    (h : ∀ i < es.length, p.passes.length < schedule.count i) :
    ∀ task ∈ takeTurns schedule (p.tasks es), task.turnsLeft = 0 := by
  intro task htask
  obtain ⟨i, hi⟩ := List.mem_iff_getElem?.mp htask
  rw [getElem?_takeTurns, tasks, List.getElem?_map] at hi
  obtain ⟨first, hfirst, rfl⟩ := Option.map_eq_some_iff.mp hi
  obtain ⟨e, he, rfl⟩ := Option.map_eq_some_iff.mp hfirst
  have hlength := h i (List.getElem?_eq_some_iff.mp he).1
  have hleft := Task.turnsLeft_turns (schedule.count i) (.running p.passes e)
  rw [Task.turnsLeft] at hleft
  omega

theorem batch?_of_turns {p : Pipeline} {schedule : List Nat} {es : List Expr}
    (h : ∀ i < es.length, p.passes.length < schedule.count i) :
    p.batch? schedule es = some (p.applyAll es) := by
  rw [batch?, results?_of_ended (turnsLeft_takeTurns h), outcomes_takeTurns]
  rfl

theorem applyAll_ok_iff {p : Pipeline} {es results : List Expr} :
    p.applyAll es = .ok results ↔ List.Forall₂ (fun e e' => p.apply e = .ok e') es results := by
  rw [applyAll, firstFailure_ok_iff, ← List.forall₂_eq_eq_eq, List.forall₂_map_left_iff,
    List.forall₂_map_right_iff]

theorem applyAll_error_iff {p : Pipeline} {es : List Expr} {r : Report} :
    p.applyAll es = .error r ↔
      ∃ (i : Nat) (e : Expr), es[i]? = some e ∧ p.apply e = .error r ∧
        ∀ j < i, ∃ e', es[j]? = some e' ∧ ∃ result, p.apply e' = .ok result := by
  simp only [applyAll, firstFailure_error_iff, List.getElem?_map, Option.map_eq_some_iff]
  constructor
  · rintro ⟨i, ⟨e, he, happly⟩, hbefore⟩
    refine ⟨i, e, he, happly, fun j hj => ?_⟩
    obtain ⟨result, e', he', happly'⟩ := hbefore j hj
    exact ⟨e', he', result, happly'⟩
  · rintro ⟨i, e, he, happly, hbefore⟩
    refine ⟨i, ⟨e, he, happly⟩, fun j hj => ?_⟩
    obtain ⟨e', he', result, happly'⟩ := hbefore j hj
    exact ⟨result, e', he', happly'⟩

/-- Every schedule that gives each task enough turns brings the batch to its end, and whatever
schedule brings it there, the batch returns what the expressions give one by one: all results in
their places, or the failure of the first expression that has one. -/
theorem batch_independent_of_schedule (p : Pipeline) (es : List Expr) :
    (∀ schedule, (∀ i < es.length, p.passes.length < schedule.count i) →
      ∃ result, p.batch? schedule es = some result) ∧
    (∀ schedule result, p.batch? schedule es = some result → result = p.applyAll es) ∧
    ((∃ results, p.applyAll es = .ok results) ↔ ∀ e ∈ es, ∃ e', p.apply e = .ok e') ∧
    (∀ results, p.applyAll es = .ok results ↔ es.length = results.length ∧
      ∀ (i : Nat) (e e' : Expr), es[i]? = some e → results[i]? = some e' → p.apply e = .ok e') ∧
    (∀ r, p.applyAll es = .error r ↔ ∃ (i : Nat) (e : Expr), es[i]? = some e ∧
      p.apply e = .error r ∧
      ∀ j < i, ∃ e', es[j]? = some e' ∧ ∃ result, p.apply e' = .ok result) := by
  refine ⟨fun schedule h => ⟨_, batch?_of_turns h⟩, fun _ _ => batch?_eq_some, ?_, ?_,
    fun _ => applyAll_error_iff⟩
  · simp only [applyAll_ok_iff]
    exact exists_forall₂_iff
  · intro results
    rw [applyAll_ok_iff, forall₂_iff_getElem?]

theorem batch_independent_of_schedule_late_failure :
    let p := ofPasses [foldingPass]
    let quotient (value : Int64) := Expr.binary .divide (.const value) (.const 0)
    let es := [.var "x", quotient 1, quotient 2]
    let report (value : Int64) := (Fault.divisionByZero (quotient value) foldingStage).report
    (takeTurns [2] (p.tasks es)).map Task.result? = [none, none, some (.error (report 2))] ∧
      p.batch? [2, 0, 2, 1, 0, 1] es = some (.error (report 1)) := by
  intro p quotient es report
  refine ⟨rfl, ?_⟩
  obtain ⟨hends, hresult, _⟩ := batch_independent_of_schedule p es
  obtain ⟨result, hbatch⟩ := hends [2, 0, 2, 1, 0, 1] (by decide)
  have happlied : p.applyAll es = .error (report 1) := rfl
  rw [hbatch, hresult _ _ hbatch, happlied]

end Pipeline

end ArithTree
