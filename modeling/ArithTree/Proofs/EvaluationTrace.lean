import ArithTree.Program
import ArithTree.Proofs.FirstFault
import ArithTree.Proofs.Measures
import ArithTree.Proofs.Places
import Mathlib.Data.List.Forall2

/-!
# What a trace of an evaluation says

An evaluation that is traced says of each node what it is worth, in the order of the nodes, until
it comes to the first that fails. So a failure silences the operations above it and all that is to
the right of it, and nothing else. To take the trace does not change the result.
-/

set_option autoImplicit false

namespace ArithTree

@[simp]
theorem evaluateNoted_result (env : Environment) (e : Expr) :
    (evaluateNoted env e).2 = evaluate env e := by
  induction e with
  | const value => rfl
  | var name =>
    rw [evaluateNoted, evaluate]
    cases env.get? name <;> rfl
  | binary op left right ihl ihr =>
    rw [evaluateNoted, evaluate, ← ihl, ← ihr]
    rcases evaluateNoted env left with ⟨before, fault | a⟩
    · rfl
    · rcases evaluateNoted env right with ⟨between, fault | b⟩
      · rfl
      · simp
        cases op.apply a b (.binary op left right) evaluationStage <;> rfl

section Operands

variable {env : Environment} {left right : Expr} {a b : Int64} {fault : Fault}

theorem evaluateNoted_of_evaluate {e : Expr} {result : Except Fault Int64}
    (h : evaluate env e = result) : evaluateNoted env e = ((evaluateNoted env e).1, result) := by
  rw [← h, ← evaluateNoted_result]

theorem found_binary_of_left (h : evaluate env left = .error fault) (op : Operator)
    (right : Expr) :
    (evaluateNoted env (.binary op left right)).1 = (evaluateNoted env left).1 := by
  rw [evaluateNoted, evaluateNoted_of_evaluate h]

theorem found_binary_of_error {op : Operator} (hl : evaluate env left = .ok a)
    (h : evaluate env (.binary op left right) = .error fault) :
    (evaluateNoted env (.binary op left right)).1 =
      (evaluateNoted env left).1 ++ (evaluateNoted env right).1 := by
  rw [evaluateNoted, evaluateNoted_of_evaluate hl]
  cases hr : evaluate env right with
  | error _ => rw [evaluateNoted_of_evaluate hr]
  | ok b =>
    rw [evaluate_binary_of_ok hl hr] at h
    rw [evaluateNoted_of_evaluate hr]
    simp only [h]

theorem found_binary_of_ok {op : Operator} {value : Int64} (hl : evaluate env left = .ok a)
    (hr : evaluate env right = .ok b) (h : evaluate env (.binary op left right) = .ok value) :
    (evaluateNoted env (.binary op left right)).1 =
      (evaluateNoted env left).1 ++ (evaluateNoted env right).1 ++
        [(.binary op left right, value)] := by
  rw [evaluate_binary_of_ok hl hr] at h
  rw [evaluateNoted, evaluateNoted_of_evaluate hl, evaluateNoted_of_evaluate hr]
  simp only [h]

end Operands

def FindsValue (env : Environment) (node : Expr) (found : Expr × Int64) : Prop :=
  ∃ value, evaluate env node = .ok value ∧ found = (node, value)

theorem found_of_evaluate_ok {env : Environment} {e : Expr} {value : Int64}
    (h : evaluate env e = .ok value) :
    List.Forall₂ (FindsValue env) e.nodes (evaluateNoted env e).1 := by
  induction e generalizing value with
  | const own => exact .cons ⟨own, rfl, rfl⟩ .nil
  | var name =>
    cases hget : env.get? name with
    | none => simp [evaluate, hget] at h
    | some bound =>
      have hself : FindsValue env (.var name) (.var name, bound) :=
        ⟨bound, by simp only [evaluate, hget], rfl⟩
      simp only [evaluateNoted, hget]
      exact .cons hself .nil
  | binary op left right ihl ihr =>
    rcases evaluate_binary_cases env op left right with
      ⟨_, _, hf⟩ | ⟨_, _, _, _, hf⟩ | ⟨a, b, hl, hr, hf⟩
    · simp [hf] at h
    · simp [hf] at h
    · have hself : FindsValue env (.binary op left right) (.binary op left right, value) :=
        ⟨value, h, rfl⟩
      rw [found_binary_of_ok hl hr h, Expr.nodes]
      exact List.rel_append (List.rel_append (ihl hl) (ihr hr)) (.cons hself .nil)

theorem found_of_evaluate_error {env : Environment} {e : Expr} {fault : Fault}
    (h : evaluate env e = .error fault) :
    ∃ before node, e.FirstAfter (Fails env) before node ∧ FailsWith env node fault ∧
      List.Forall₂ (FindsValue env) before (evaluateNoted env e).1 := by
  induction e generalizing fault with
  | const value => cases h
  | var name =>
    cases hget : env.get? name with
    | some bound => simp [evaluate, hget] at h
    | none =>
      have hfails : FailsWith env (.var name) (.undefinedVariable name) := .unbound hget
      simp only [evaluate, hget] at h
      cases h
      simp only [evaluateNoted, hget]
      exact ⟨[], .var name, ⟨[], rfl, ⟨_, hfails⟩, by simp⟩, hfails, .nil⟩
  | binary op left right ihl ihr =>
    rcases evaluate_binary_cases env op left right with
      ⟨_, hl, hf⟩ | ⟨a, _, hl, hr, hf⟩ | ⟨a, b, hl, hr, hf⟩
    · rw [hf] at h
      cases h
      obtain ⟨before, node, hfirst, hfails, hfound⟩ := ihl hl
      rw [found_binary_of_left hl]
      exact ⟨before, node, hfirst.of_left, hfails, hfound⟩
    · obtain ⟨before, node, hfirst, hfails, hfound⟩ := ihr hr
      rw [found_binary_of_error hl hf]
      rw [hf] at h
      cases h
      exact ⟨_, node, hfirst.of_right (evaluate_ok_iff_nodes.mp ⟨a, hl⟩), hfails,
        List.rel_append (found_of_evaluate_ok hl) hfound⟩
    · rw [found_binary_of_error hl h]
      rw [hf] at h
      rcases Operator.apply_cases op a b (.binary op left right) evaluationStage with
        ⟨_, _, ha⟩ | ⟨hc, ha⟩
      · simp [ha] at h
      · obtain ⟨rfl, rfl⟩ := Operator.compute_eq_none_iff.mp hc
        have hfails := FailsWith.zeroDivisor hl hr
        have hfirst := Expr.FirstAfter.of_self (evaluate_ok_iff_nodes.mp ⟨a, hl⟩)
          (evaluate_ok_iff_nodes.mp ⟨0, hr⟩) ⟨_, hfails⟩
        rw [ha] at h
        cases h
        exact ⟨_, _, hfirst, hfails,
          List.rel_append (found_of_evaluate_ok hl) (found_of_evaluate_ok hr)⟩

/-- The first place with a node that has some property, and the places before it. -/
def Expr.FirstPlace (p : Expr → Prop) (e : Expr) (before : List Place) (place : Place)
    (node : Expr) : Prop :=
  (∃ after, e.places = before ++ place :: after) ∧ e.at? place = some node ∧ p node ∧
    ∀ other ∈ before, ∀ earlier, e.at? other = some earlier → ¬p earlier

theorem Expr.FirstAfter.exists_firstPlace {p : Expr → Prop} {e node : Expr} {before : List Expr}
    (h : e.FirstAfter p before node) :
    ∃ places place, places.map e.at? = before.map some ∧ e.FirstPlace p places place node := by
  -- Places and nodes are in the same order, so the cut of the one list is a cut of the other.
  obtain ⟨after, hnodes, hnode, hbefore⟩ := h
  have hmap := e.map_at?_places
  rw [hnodes, List.map_append, List.map_cons] at hmap
  obtain ⟨places, rest, hplaces, hfirst, hrest⟩ := List.map_eq_append_iff.mp hmap
  obtain ⟨place, after', rfl, hplace, _⟩ := List.map_eq_cons_iff.mp hrest
  refine ⟨places, place, hfirst, ⟨after', hplaces⟩, hplace, hnode, ?_⟩
  intro other hother earlier hearlier
  have hmem : e.at? other ∈ places.map e.at? := List.mem_map_of_mem hother
  rw [hearlier, hfirst] at hmem
  exact hbefore earlier (by simpa using hmem)

/-- The line on the node at a place, with the value of this node by itself. -/
def ValueLine (env : Environment) (e : Expr) (place : Place) (line : String) : Prop :=
  ∃ node value, e.at? place = some node ∧ evaluate env node = .ok value ∧
    line = "Evaluated " ++ node.formula ++ " to " ++ Number.writeWord value

/-- The places of which a trace speaks: all of them if there is a value, else those before the
first node that fails. -/
inductive GetsThrough (env : Environment) (e : Expr) : List Place → Prop
  | all {value : Int64} :
      evaluate env e = .ok value → (∀ place node, e.at? place = some node → ¬Fails env node) →
      GetsThrough env e e.places
  | upTo {before : List Place} {place : Place} {node : Expr} {fault : Fault} :
      evaluate env e = .error fault → FailsWith env node fault →
      e.FirstPlace (Fails env) before place node → GetsThrough env e before

def valueLines (env : Environment) (e : Expr) : List String :=
  (evaluateNoted env e).1.map fun found => (Note.evaluated found.1 found.2).text

theorem valueLines_of_places {env : Environment} {e : Expr} {nodes : List Expr}
    {places : List Place} (hplaces : places.map e.at? = nodes.map some)
    (h : List.Forall₂ (FindsValue env) nodes (evaluateNoted env e).1) :
    List.Forall₂ (ValueLine env e) places (valueLines env e) := by
  have hline : List.Forall₂
      (fun node? line => ∃ node value, node? = some node ∧ evaluate env node = .ok value ∧
        line = "Evaluated " ++ node.formula ++ " to " ++ Number.writeWord value)
      (nodes.map some) (valueLines env e) := by
    rw [valueLines, List.forall₂_map_left_iff, List.forall₂_map_right_iff]
    apply h.imp
    rintro node found ⟨value, hvalue, rfl⟩
    exact ⟨node, value, rfl, hvalue, rfl⟩
  rw [← hplaces, List.forall₂_map_left_iff] at hline
  exact hline

theorem exists_getsThrough (env : Environment) (e : Expr) :
    ∃ places, GetsThrough env e places ∧
      List.Forall₂ (ValueLine env e) places (valueLines env e) := by
  cases h : evaluate env e with
  | ok value =>
    have hnone := evaluate_ok_iff_nodes.mp ⟨value, h⟩
    exact ⟨e.places, .all h fun place node hnode => hnone node (Expr.mem_nodes_of_at? hnode),
      valueLines_of_places e.map_at?_places (found_of_evaluate_ok h)⟩
  | error fault =>
    obtain ⟨before, node, hfirst, hfails, hfound⟩ := found_of_evaluate_error h
    obtain ⟨places, place, hplaces, hfirstPlace⟩ := hfirst.exists_firstPlace
    exact ⟨places, .upTo h hfails hfirstPlace, valueLines_of_places hplaces hfound⟩

theorem GetsThrough.isPrefix {env : Environment} {e : Expr} {places : List Place}
    (h : GetsThrough env e places) : places <+: e.places := by
  cases h with
  | all _ _ => exact List.prefix_rfl
  | upTo _ _ hfirst =>
    obtain ⟨⟨after, hplaces⟩, _⟩ := hfirst
    exact ⟨_, hplaces.symm⟩

theorem GetsThrough.length_eq_iff {env : Environment} {e : Expr} {places : List Place}
    (h : GetsThrough env e places) :
    places.length = e.size ↔ ∃ value, evaluate env e = .ok value := by
  cases h with
  | all hvalue _ => exact iff_of_true e.length_places ⟨_, hvalue⟩
  | upTo hfault _ hfirst =>
    obtain ⟨⟨after, hplaces⟩, _⟩ := hfirst
    refine iff_of_false ?_ (by simp [hfault])
    rw [← e.length_places, hplaces, List.length_append, List.length_cons]
    omega

theorem Program.valueOf_traced (files : Files) (tomlError : String → String) (env : Environment)
    (e : Expr) :
    Program.valueOf { files, tomlError, traced := true } env e =
      ((valueLines env e).map fun line => .line [⟨[], line⟩], evaluate env e) := by
  rw [valueLines, List.map_map, ← evaluateNoted_result]
  rfl

/-- The lines of a traced evaluation are on the first of its places, each once and in their order:
on all of them if there is a value, else on those before the first node that fails. Each says what
its node is worth by itself. The traced program prints these lines and nothing else, and the result
is the one without a trace. -/
theorem evaluation_trace_is_prefix (env : Environment) (e : Expr) :
    ∃ places lines, GetsThrough env e places ∧ places <+: e.places ∧ places.Nodup ∧
      List.Forall₂ (ValueLine env e) places lines ∧
      (lines.length = e.nodeCount ↔ ∃ value, evaluate env e = .ok value) ∧
      ((evaluateNoted env e).1.map fun found => (Note.evaluated found.1 found.2).text) = lines ∧
      ∀ files tomlError,
        Program.valueOf { files, tomlError, traced := true } env e =
          (lines.map fun line => .line [⟨[], line⟩], evaluate env e) ∧
        Program.valueOf { files, tomlError } env e = ([], evaluate env e) ∧
        ∀ time, Console.render time
            (Program.valueOf { files, tomlError, traced := true } env e).1 =
          String.join (lines.map fun line => line ++ "\x1b[0m\n") := by
  obtain ⟨places, hthrough, hlines⟩ := exists_getsThrough env e
  refine ⟨places, valueLines env e, hthrough, hthrough.isPrefix,
    hthrough.isPrefix.sublist.nodup e.nodup_places, hlines, ?_, rfl, fun files tomlError => ?_⟩
  · rw [← hlines.length_eq, e.nodeCount_eq_size]
    exact hthrough.length_eq_iff
  · have htraced := Program.valueOf_traced files tomlError env e
    exact ⟨htraced, rfl, fun time => by rw [htraced, Console.render_plain]⟩

example :
    let dividend := Expr.binary .add (.const 1) (.var "x")
    let divisor := Expr.binary .subtract (.var "x") (.const 2)
    let e := Expr.binary .multiply (.binary .divide dividend divisor) (.var "y")
    valueLines (.ofList [("x", 2)]) e =
      ["Evaluated 1 to 1", "Evaluated x to 2", "Evaluated (1 + x) to 3", "Evaluated x to 2",
        "Evaluated 2 to 2", "Evaluated (x - 2) to 0"] := by
  decide +kernel

end ArithTree
