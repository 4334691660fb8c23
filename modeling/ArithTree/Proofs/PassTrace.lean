import ArithTree.Program
import ArithTree.Proofs.Composition
import ArithTree.Proofs.FoldedNodes
import ArithTree.Proofs.Measures

/-!
# What a trace of passes says

The notes of a run name each pass that was started and what it got, and after that say what the
pass has done. A fold says of every operation without variables what it became, in the order of
the nodes and up to the one that fails; it removes two nodes for each of its notes. A replacement
says of every constant what it became. To take notes changes no result.
-/

set_option autoImplicit false

namespace ArithTree

def Expr.isClosedOperation (e : Expr) : Bool :=
  e.operands?.isSome && e.names.isEmpty

theorem Expr.isClosedOperation_binary {op : Operator} {left right : Expr} :
    (Expr.binary op left right).isClosedOperation = true ↔ left.names = [] ∧ right.names = [] := by
  simp [Expr.isClosedOperation, Expr.operands?]

theorem Expr.filter_nodes_binary (p : Expr → Bool) (op : Operator) (left right : Expr) :
    (Expr.binary op left right).nodes.filter p =
      left.nodes.filter p ++ right.nodes.filter p ++ [.binary op left right].filter p := by
  rw [Expr.nodes, List.filter_append, List.filter_append]

section Operands

variable {left right left' right' : Expr} {fault : Fault}

theorem foldNoted_of_fold {e : Expr} {result : Except Fault Expr} (h : fold e = result) :
    foldNoted e = ((foldNoted e).1, result) := by
  rw [← h, ← foldNoted_result]

theorem notes_binary_of_left (h : fold left = .error fault) (op : Operator) (right : Expr) :
    (foldNoted (.binary op left right)).1 = (foldNoted left).1 := by
  rw [foldNoted, foldNoted_of_fold h]

theorem notes_binary_of_right (hl : fold left = .ok left') (hr : fold right = .error fault)
    (op : Operator) :
    (foldNoted (.binary op left right)).1 = (foldNoted left).1 ++ (foldNoted right).1 := by
  rw [foldNoted, foldNoted_of_fold hl, foldNoted_of_fold hr]

theorem notes_binary_of_fault {op : Operator} (hl : fold left = .ok left')
    (hr : fold right = .ok right')
    (h : foldNode op (.binary op left right) left' right' = .error fault) :
    (foldNoted (.binary op left right)).1 = (foldNoted left).1 ++ (foldNoted right).1 := by
  rw [foldNoted, foldNoted_of_fold hl, foldNoted_of_fold hr]
  simp only [h]

theorem notes_binary_of_ok {op : Operator} {folded : Expr} (hl : fold left = .ok left')
    (hr : fold right = .ok right')
    (h : foldNode op (.binary op left right) left' right' = .ok folded) :
    (foldNoted (.binary op left right)).1 =
      (foldNoted left).1 ++ (foldNoted right).1 ++ foldNote (.binary op left right) folded := by
  rw [foldNoted, foldNoted_of_fold hl, foldNoted_of_fold hr]
  simp only [h]

end Operands

def NotesFold (node : Expr) (note : Note) : Prop :=
  ∃ value, evaluate .empty node = .ok value ∧ note = .folded node value

theorem notes_of_fold_ok {e e' : Expr} (h : fold e = .ok e') :
    List.Forall₂ NotesFold (e.nodes.filter Expr.isClosedOperation) (foldNoted e).1 ∧
      e.size = e'.size + 2 * (foldNoted e).1.length := by
  induction e generalizing e' with
  | const value =>
    cases h
    exact ⟨.nil, rfl⟩
  | var name =>
    cases h
    exact ⟨.nil, rfl⟩
  | binary op left right ihl ihr =>
    obtain ⟨left', right', hl, hr, hnode⟩ := fold_binary_ok_iff.mp h
    obtain ⟨hnotesl, hsizel⟩ := ihl hl
    obtain ⟨hnotesr, hsizer⟩ := ihr hr
    rw [notes_binary_of_ok hl hr hnode, Expr.filter_nodes_binary, List.filter_singleton]
    rcases foldNode_ok_iff.mp hnode with ⟨a, b, value, rfl, rfl, _, rfl⟩ | ⟨hs, rfl⟩
    · have hclosed : (Expr.binary op left right).isClosedOperation = true :=
        Expr.isClosedOperation_binary.mpr
          ⟨(isConstant_fold_iff hl).mp rfl, (isConstant_fold_iff hr).mp rfl⟩
      rw [hclosed]
      constructor
      · have hself : NotesFold (.binary op left right) (.folded (.binary op left right) value) :=
          ⟨value, evaluate_of_fold_const h .empty, rfl⟩
        exact List.rel_append (List.rel_append hnotesl hnotesr) (.cons hself .nil)
      · simp only [Expr.size, foldNote, List.length_append, List.length_singleton] at *
        omega
    · have hopen : (Expr.binary op left right).isClosedOperation = false := by
        rw [Bool.eq_false_iff, Ne, Expr.isClosedOperation_binary]
        rintro ⟨hleft, hright⟩
        exact hs ⟨(isConstant_fold_iff hl).mpr hleft, (isConstant_fold_iff hr).mpr hright⟩
      rw [hopen]
      constructor
      · exact List.rel_append (List.rel_append hnotesl hnotesr) .nil
      · simp only [Expr.size, foldNote, List.length_append, List.length_nil] at *
        omega

theorem not_dividesByZero_of_fold_ok {e e' : Expr} (h : fold e = .ok e') :
    ∀ node ∈ e.nodes, ¬node.DividesByZero := by
  obtain ⟨_, _, hnone⟩ | ⟨_, herror, _⟩ := fold_first e
  · exact hnone
  · simp [h] at herror

theorem notes_of_fold_error {e : Expr} {fault : Fault} (h : fold e = .error fault) :
    ∃ before node, e.FirstAfter Expr.DividesByZero before node ∧
      fault = .divisionByZero node foldingStage ∧
      List.Forall₂ NotesFold (before.filter Expr.isClosedOperation) (foldNoted e).1 := by
  induction e generalizing fault with
  | const value => cases h
  | var name => cases h
  | binary op left right ihl ihr =>
    rcases fold_binary_cases op left right with
      ⟨_, hl, hf⟩ | ⟨left', _, hl, hr, hf⟩ | ⟨left', right', hl, hr, hf⟩
    · rw [hf] at h
      cases h
      obtain ⟨before, node, hfirst, hfault, hnotes⟩ := ihl hl
      rw [notes_binary_of_left hl]
      exact ⟨before, node, hfirst.of_left, hfault, hnotes⟩
    · rw [hf] at h
      cases h
      obtain ⟨before, node, hfirst, hfault, hnotes⟩ := ihr hr
      refine ⟨_, node, hfirst.of_right (not_dividesByZero_of_fold_ok hl), hfault, ?_⟩
      rw [notes_binary_of_right hl hr, List.filter_append]
      exact List.rel_append (notes_of_fold_ok hl).1 hnotes
    · rw [hf] at h
      rcases foldNode_cases op (.binary op left right) left' right' with
        ⟨_, _, _, _, _, _, hn⟩ | ⟨a, b, rfl, rfl, hc, hn⟩ | ⟨_, hn⟩
      · simp [hn] at h
      · have hzero := (dividesByZero_of_fold hl hr).mpr hc
        have hfirst := Expr.FirstAfter.of_self (not_dividesByZero_of_fold_ok hl)
          (not_dividesByZero_of_fold_ok hr) hzero
        rw [hn] at h
        cases h
        refine ⟨_, _, hfirst, rfl, ?_⟩
        rw [notes_binary_of_fault hl hr hn, List.filter_append]
        exact List.rel_append (notes_of_fold_ok hl).1 (notes_of_fold_ok hr).1
      · simp [hn] at h

def FoldLine (node : Expr) (line : String) : Prop :=
  ∃ value, evaluate .empty node = .ok value ∧
    line = "Folded " ++ node.formula ++ " into " ++ Number.writeWord value

/-- The lines of a fold: one for each operation without variables, in the order of the nodes. If
the fold fails they stop before the first node that divides by zero, which is the one that is
reported; else two nodes are gone for each line. -/
inductive FoldLines (e : Expr) (lines : List String) : Prop
  | folded {e' : Expr} :
      foldingPass.apply e = .ok e' →
      List.Forall₂ FoldLine (e.nodes.filter Expr.isClosedOperation) lines →
      e.nodeCount = e'.nodeCount + 2 * lines.length → FoldLines e lines
  | failed {before : List Expr} {node : Expr} :
      foldingPass.apply e = .error (Fault.divisionByZero node foldingStage).report →
      e.FirstAfter Expr.DividesByZero before node →
      List.Forall₂ FoldLine (before.filter Expr.isClosedOperation) lines → FoldLines e lines

/-- The lines of a replacement: one for each constant, from left to right. -/
def replacementLines (value : Int64) (e : Expr) : List String :=
  (e.nodes.filter Expr.isConstant).map fun leaf =>
    "Rewriting " ++ leaf.formula ++ " to " ++ Number.writeWord value

def OwnLines : PassSetting → Expr → List String → Prop
  | .fold, e, lines => FoldLines e lines
  | .replace value, e, lines => lines = replacementLines value e

def PassLines (start : PassSetting × Expr) (lines : List String) : Prop :=
  ∃ own, OwnLines start.1 start.2 own ∧
    lines = ("Running " ++ start.1.pass.name ++ " on " ++ start.2.formula) :: own

/-- The passes that were started on an expression, and what each got: a pass is started where
those before it have succeeded, on what they have returned. -/
def Started (settings : List PassSetting) (e : Expr) (started : List (PassSetting × Expr)) :
    Prop :=
  ∀ (i : Nat) (setting : PassSetting) (input : Expr), started[i]? = some (setting, input) ↔
    settings[i]? = some setting ∧ e.through ((settings.take i).map PassSetting.pass) = .ok input

theorem forall₂_foldLine {nodes : List Expr} {notes : List Note}
    (h : List.Forall₂ NotesFold nodes notes) :
    List.Forall₂ FoldLine nodes (notes.map Note.text) := by
  rw [List.forall₂_map_right_iff]
  apply h.imp
  rintro node note ⟨value, hvalue, rfl⟩
  exact ⟨value, hvalue, rfl⟩

theorem foldLines_notes (e : Expr) : FoldLines e ((foldingPass.noted e).1.map Note.text) := by
  show FoldLines e ((foldNoted e).1.map Note.text)
  cases h : fold e with
  | ok e' =>
    obtain ⟨hnotes, hsize⟩ := notes_of_fold_ok h
    refine .folded (foldingPass_of_ok h) (forall₂_foldLine hnotes) ?_
    simpa using hsize
  | error fault =>
    obtain ⟨before, node, hfirst, rfl, hnotes⟩ := notes_of_fold_error h
    exact .failed (foldingPass_of_error h) hfirst (forall₂_foldLine hnotes)

theorem replaceNoted_text (value : Int64) (e : Expr) :
    (replaceNoted value e).1.map Note.text = replacementLines value e := by
  induction e with
  | const old => rfl
  | var name => rfl
  | binary op left right ihl ihr =>
    have hself : [Expr.binary op left right].filter Expr.isConstant = [] := rfl
    rw [replaceNoted, List.map_append, ihl, ihr, replacementLines, replacementLines,
      replacementLines, Expr.filter_nodes_binary, hself, List.append_nil, List.map_append]

theorem ownLines_notes (setting : PassSetting) (e : Expr) :
    OwnLines setting e ((setting.pass.noted e).1.map Note.text) := by
  cases setting with
  | fold => exact foldLines_notes e
  | replace value => exact replaceNoted_text value e

@[simp]
theorem Pipeline.runNoted_result (passes : List Pass) (e : Expr) :
    (Pipeline.runNoted passes e).2 = Pipeline.run passes e := by
  induction passes generalizing e with
  | nil => rfl
  | cons pass passes ih =>
    have hresult := pass.noted_result e
    rw [Pipeline.runNoted, Pipeline.run]
    rcases hnoted : pass.noted e with ⟨notes, r | e'⟩
    · rw [← hresult, hnoted]
    · rw [← hresult, hnoted]
      exact ih e'

def startedBy : List PassSetting → Expr → List (PassSetting × Expr)
  | [], _ => []
  | setting :: settings, e =>
      (setting, e) ::
        match setting.pass.apply e with
        | .ok e' => startedBy settings e'
        | .error _ => []

theorem started_startedBy (settings : List PassSetting) (e : Expr) :
    Started settings e (startedBy settings e) := by
  induction settings generalizing e with
  | nil =>
    intro i setting input
    simp [startedBy]
  | cons first settings ih =>
    intro i setting input
    cases i with
    | zero =>
      simp [startedBy, Expr.through]
    | succ i =>
      rw [startedBy, List.getElem?_cons_succ, List.getElem?_cons_succ, List.take_succ_cons,
        List.map_cons, Expr.through, List.foldlM_cons]
      cases first.pass.apply e with
      | ok e' => exact ih e' i setting input
      | error r => simp

def notesOf (start : PassSetting × Expr) : List Note :=
  .running start.1.pass.name start.2 :: (start.1.pass.noted start.2).1

theorem runNoted_notes (settings : List PassSetting) (e : Expr) :
    (Pipeline.runNoted (settings.map PassSetting.pass) e).1 =
      (startedBy settings e).flatMap notesOf := by
  induction settings generalizing e with
  | nil => rfl
  | cons setting settings ih =>
    have hresult := setting.pass.noted_result e
    rw [List.map_cons, Pipeline.runNoted, startedBy, List.flatMap_cons, notesOf]
    rcases hnoted : setting.pass.noted e with ⟨notes, r | e'⟩
    · rw [← hresult, hnoted]
      exact (List.append_nil _).symm
    · rw [← hresult, hnoted]
      simp only [ih, List.cons_append]

theorem passLines_notesOf (start : PassSetting × Expr) :
    PassLines start ((notesOf start).map Note.text) :=
  ⟨_, ownLines_notes start.1 start.2, rfl⟩

theorem applyNoted_text (c : Config) (e : Expr) :
    (c.pipeline.applyNoted e).1.map Note.text =
      ((startedBy c.passes e).map fun start => (notesOf start).map Note.text).flatten := by
  show (Pipeline.runNoted (c.passes.map PassSetting.pass) e).1.map Note.text = _
  rw [runNoted_notes, List.map_flatMap, List.flatMap_def]

theorem Program.transformed_traced (files : Files) (tomlError : String → String) (p : Pipeline)
    (e : Expr) :
    Program.transformed { files, tomlError, traced := true } p [e] =
      (((p.applyNoted e).1.map Note.text).map fun line => .line [⟨[], line⟩], p.applyAll [e]) := by
  rw [List.map_map, Pipeline.applyAll, List.map_singleton, Pipeline.apply,
    ← Pipeline.runNoted_result]
  exact congrArg (Prod.mk · _) (List.append_nil _)

/-- The trace of a configured pipeline is made of the lines of the passes that were started, in
their order, and the result is the one without a trace. A traced program prints these lines and
nothing else before it goes on with the result. -/
theorem pass_trace_accounts (c : Config) (e : Expr) :
    (c.pipeline.applyNoted e).2 = c.pipeline.apply e ∧
    ∃ started blocks, Started c.passes e started ∧ List.Forall₂ PassLines started blocks ∧
      (c.pipeline.applyNoted e).1.map Note.text = blocks.flatten ∧
      ∀ files tomlError,
        Program.transformed { files, tomlError, traced := true } c.pipeline [e] =
          (blocks.flatten.map fun line => .line [⟨[], line⟩], c.pipeline.applyAll [e]) ∧
        Program.transformed { files, tomlError } c.pipeline [e] =
          ([], c.pipeline.applyAll [e]) ∧
        ∀ time, Console.render time
            (Program.transformed { files, tomlError, traced := true } c.pipeline [e]).1 =
          String.join (blocks.flatten.map fun line => line ++ "\x1b[0m\n") := by
  refine ⟨Pipeline.runNoted_result _ e, startedBy c.passes e,
    (startedBy c.passes e).map fun start => (notesOf start).map Note.text,
    started_startedBy c.passes e, ?_, applyNoted_text c e, fun files tomlError => ?_⟩
  · rw [List.forall₂_map_right_iff, List.forall₂_same]
    exact fun start _ => passLines_notesOf start
  · have htraced := Program.transformed_traced files tomlError c.pipeline e
    rw [applyNoted_text] at htraced
    exact ⟨htraced, rfl, fun time => by rw [htraced, Console.render_plain]⟩

example :
    let product := Expr.binary .multiply (.binary .add (.const 1) (.const 2)) (.var "x")
    let quotient := Expr.binary .divide (.const 3) (.binary .subtract (.const 4) (.const 5))
    let c : Config := { passes := [.replace 7, .fold, .fold] }
    (c.pipeline.applyNoted (.binary .add product quotient)).1.map Note.text =
      ["Running constant_rewriting on (((1 + 2) * x) + (3 / (4 - 5)))",
        "Rewriting 1 to 7", "Rewriting 2 to 7", "Rewriting 3 to 7", "Rewriting 4 to 7",
        "Rewriting 5 to 7", "Running constant_folding on (((7 + 7) * x) + (7 / (7 - 7)))",
        "Folded (7 + 7) into 14", "Folded (7 - 7) into 0"] := by
  decide +kernel

end ArithTree
