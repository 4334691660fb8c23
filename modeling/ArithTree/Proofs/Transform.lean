import ArithTree.Proofs.Batch
import ArithTree.Proofs.Json.RoundTrip
import ArithTree.Proofs.Printing

/-!
# What transforming files prints

There are four outcomes. Without a configuration only the report on it is printed. If some path
holds no tree, the reports on all such paths are printed and nothing else. If the pipeline fails
on a tree, the report on the first such tree follows the names of the passes. Otherwise every
path gets its block, and what one block says depends on its own path alone.
-/

set_option autoImplicit false

namespace ArithTree.Program

open Console

def loadComplaint (files : Files) (path : String) : List Output :=
  match files.loadTree path with
  | .error r => complaint r
  | .ok _ => []

def HoldsTree (files : Files) (path : String) : Prop :=
  ∃ e, files.loadTree path = .ok e

def Transforms (files : Files) (config : Config) (path : String) (result : Expr) : Prop :=
  ∃ e, files.loadTree path = .ok e ∧ config.pipeline.apply e = .ok result

def faultText : Fault → String
  | .undefinedVariable name => "Undefined Variable: Undefined variable '" ++ name ++ "'"
  | .divisionByZero _ _ => "Division By Zero: Can't divide by zero"

def valueLine (env : Environment) (e : Expr) : Output :=
  match evaluate env e with
  | .ok value => resultLine value
  | .error fault => .line [⟨[.yellow], "Not evaluated: "⟩, ⟨[.yellow], faultText fault⟩]

/-- A path, its tree after the pipeline, and what that tree is worth. -/
def blockOf (words : List String) (env : Environment) (path : String) (e : Expr) : List Output :=
  [.line [⟨[.bold], path⟩], writtenLine words "Rewritten: " e, valueLine env e]

def passName : PassSetting → String
  | .fold => "constant_folding"
  | .replace _ => "constant_rewriting"

def passesLine (passes : List PassSetting) : Output :=
  .line [⟨[.gray], "Passes: "⟩, ⟨[.gray], ", ".intercalate (passes.map passName)⟩]

inductive Printed (setting : Setting) (words paths : List String) (options : Options) :
    List Output → Prop
  | noConfig {r : Report} :
      Chosen setting options (.error r) → Printed setting words paths options (complaint r)
  | noTree {config : Config} {path : String} :
      InEffect setting options config → path ∈ paths → ¬HoldsTree setting.files path →
      Printed setting words paths options (paths.flatMap (loadComplaint setting.files))
  | notTransformed {config : Config} {before after : List String} {path : String} {e : Expr}
      {r : Report} :
      InEffect setting options config → paths = before ++ path :: after →
      (∀ p ∈ before, ∃ result, Transforms setting.files config p result) →
      setting.files.loadTree path = .ok e → config.pipeline.apply e = .error r →
      (∀ p ∈ after, HoldsTree setting.files p) →
      Printed setting words paths options (passesLine config.passes :: complaint r)
  | transformed {config : Config} {blocks : List (List Output)} :
      InEffect setting options config →
      List.Forall₂ (fun path block => ∃ result, Transforms setting.files config path result ∧
        block = blockOf words config.environment path result) paths blocks →
      Printed setting words paths options
        (passesLine config.passes :: (blocks.flatten ++ timeLine words))

theorem not_holdsTree_iff {files : Files} {path : String} :
    ¬HoldsTree files path ↔ ∃ r, files.loadTree path = .error r := by
  unfold HoldsTree
  cases files.loadTree path <;> simp

def loadReports (files : Files) (paths : List String) : List Report :=
  (paths.map files.loadTree).filterMap fun | .error r => some r | .ok _ => none

theorem loadReports_cons_ok {files : Files} {path : String} {e : Expr}
    (h : files.loadTree path = .ok e) (paths : List String) :
    loadReports files (path :: paths) = loadReports files paths := by
  simp only [loadReports, List.map_cons, h]
  rfl

theorem loadReports_cons_error {files : Files} {path : String} {r : Report}
    (h : files.loadTree path = .error r) (paths : List String) :
    loadReports files (path :: paths) = r :: loadReports files paths := by
  simp only [loadReports, List.map_cons, h]
  rfl

theorem loadComplaint_ok {files : Files} {path : String} {e : Expr}
    (h : files.loadTree path = .ok e) : loadComplaint files path = [] := by
  simp only [loadComplaint, h]

theorem loadComplaint_error {files : Files} {path : String} {r : Report}
    (h : files.loadTree path = .error r) : loadComplaint files path = reportLines r := by
  rw [reportLines_eq (Files.distinct_of_loadTree h)]
  simp only [loadComplaint, h]
  rfl

theorem flatMap_loadReports (files : Files) (paths : List String) :
    (loadReports files paths).flatMap reportLines = paths.flatMap (loadComplaint files) := by
  induction paths with
  | nil => rfl
  | cons path paths ih =>
    cases h : files.loadTree path with
    | ok e => rw [loadReports_cons_ok h, List.flatMap_cons, loadComplaint_ok h, ih]; rfl
    | error r =>
      rw [loadReports_cons_error h, List.flatMap_cons, List.flatMap_cons,
        loadComplaint_error h, ih]

theorem loadReports_ne_nil {files : Files} {paths : List String} {path : String}
    (hmem : path ∈ paths) (h : ¬HoldsTree files path) : loadReports files paths ≠ [] := by
  obtain ⟨r, hr⟩ := not_holdsTree_iff.mp h
  intro hnil
  have hsome : r ∈ loadReports files paths := by
    simp only [loadReports, List.mem_filterMap, List.mem_map]
    exact ⟨_, ⟨path, hmem, hr⟩, rfl⟩
  rw [hnil] at hsome
  cases hsome

theorem loadTrees_error {files : Files} {paths : List String}
    (h : loadReports files paths ≠ []) :
    loadTrees files paths = .error (loadReports files paths) := by
  simp only [loadTrees]
  split
  · contradiction
  · rfl

theorem loadTrees_ok {files : Files} {paths : List String} {es : List Expr}
    (h : List.Forall₂ (fun path e => files.loadTree path = .ok e) paths es) :
    loadTrees files paths = .ok es := by
  have hloaded : paths.map files.loadTree = es.map .ok := by
    induction h with
    | nil => rfl
    | cons hpath _ ih => rw [List.map_cons, List.map_cons, hpath, ih]
  have hgood : (es.map (@Except.ok Report Expr)).filterMap Except.toOption = es := by
    rw [List.filterMap_map]
    exact List.filterMap_some
  rw [loadTrees, hloaded, hgood]
  simp

theorem trees_of_transforms {files : Files} {config : Config} {paths : List String}
    {results : List Expr} (h : List.Forall₂ (Transforms files config) paths results) :
    ∃ es, List.Forall₂ (fun path e => files.loadTree path = .ok e) paths es ∧
      es.map config.pipeline.apply = results.map .ok := by
  induction h with
  | nil => exact ⟨[], .nil, rfl⟩
  | cons hpath _ ih =>
    obtain ⟨e, hload, happly⟩ := hpath
    obtain ⟨es, hes, hresults⟩ := ih
    refine ⟨e :: es, .cons hload hes, ?_⟩
    rw [List.map_cons, List.map_cons, happly, hresults]

theorem headline_report (fault : Fault) : fault.report.headline = faultText fault := by
  cases fault with
  | undefinedVariable name =>
    show "Undefined Variable" ++ ": " ++ ("Undefined variable '" ++ name ++ "'") = _
    rw [← String.append_assoc, ← String.append_assoc]
    rfl
  | divisionByZero node stage => rfl

theorem passNames_pipeline (c : Config) : c.pipeline.passNames = c.passes.map passName := by
  show (c.passes.map PassSetting.pass).map Pass.name = _
  rw [List.map_map]
  apply List.map_congr_left
  intro p _
  cases p <;> rfl

section Untraced

variable {setting : Setting} (htraced : setting.traced = false)
include htraced

theorem treeBlock_untraced (words : List String) {env env' : Environment}
    (hget : ∀ name, env'.get? name = env.get? name) (path : String) (e : Expr) :
    treeBlock setting (flagsOf words) env' path e = blockOf words env path e := by
  rw [treeBlock, valueOf_untraced htraced, blockOf, valueLine, treeLine_flagsOf,
    evaluate_congr fun name _ => hget name]
  cases evaluate env e with
  | ok value => rfl
  | error fault =>
    simp only [headline_report]
    rfl

theorem runTransform_of_trees {options : Options} {config : Config} {paths : List String}
    {es : List Expr} (heffect : InEffect setting options config)
    (hes : List.Forall₂ (fun path e => setting.files.loadTree path = .ok e) paths es)
    (words : List String) :
    runTransform setting (flagsOf words) paths options =
      passesLine config.passes ::
        match config.pipeline.applyAll es with
        | .error r => reportLines r
        | .ok results =>
            (paths.zip results).flatMap (fun (path, e) =>
              blockOf words config.environment path e) ++ timeLine words := by
  obtain ⟨config', hconfig, hpasses, hget⟩ := effectiveConfig_of_inEffect heffect
  have hpipeline : config'.pipeline = config.pipeline := by
    rw [Config.pipeline, Config.pipeline, hpasses]
  simp only [runTransform, hconfig, loadTrees_ok hes, transformed_untraced htraced, hpipeline,
    passNames_pipeline, treeBlock_untraced htraced words hget, elapsedLine_flagsOf]
  cases config.pipeline.applyAll es <;> rfl

end Untraced

theorem results_of_blocks {files : Files} {config : Config} {words paths : List String}
    {blocks : List (List Output)}
    (h : List.Forall₂ (fun path block => ∃ result, Transforms files config path result ∧
      block = blockOf words config.environment path result) paths blocks) :
    ∃ results, List.Forall₂ (Transforms files config) paths results ∧
      (paths.zip results).flatMap (fun (path, e) =>
        blockOf words config.environment path e) = blocks.flatten := by
  induction h with
  | nil => exact ⟨[], .nil, rfl⟩
  | cons hpath _ ih =>
    obtain ⟨result, htransforms, rfl⟩ := hpath
    obtain ⟨results, hresults, hblocks⟩ := ih
    refine ⟨result :: results, .cons htransforms hresults, ?_⟩
    rw [List.zip_cons_cons, List.flatMap_cons, List.flatten_cons, hblocks]

theorem first_not_transformed (files : Files) (config : Config) {paths : List String}
    (h : ∀ path ∈ paths, HoldsTree files path) :
    (∀ path ∈ paths, ∃ result, Transforms files config path result) ∨
    ∃ before path after e r, paths = before ++ path :: after ∧
      (∀ p ∈ before, ∃ result, Transforms files config p result) ∧
      files.loadTree path = .ok e ∧ config.pipeline.apply e = .error r := by
  induction paths with
  | nil => exact .inl (by simp)
  | cons path paths ih =>
    obtain ⟨e, hload⟩ := h path List.mem_cons_self
    cases happly : config.pipeline.apply e with
    | error r => exact .inr ⟨[], path, paths, e, r, rfl, by simp, hload, happly⟩
    | ok result =>
      have hpath : ∃ result, Transforms files config path result := ⟨result, e, hload, happly⟩
      rcases ih (fun p hp => h p (List.mem_cons_of_mem _ hp)) with
        hall | ⟨before, p, after, e', r, rfl, hbefore, hload', happly'⟩
      · exact .inl (List.forall_mem_cons.mpr ⟨hpath, hall⟩)
      · exact .inr ⟨path :: before, p, after, e', r, rfl,
          List.forall_mem_cons.mpr ⟨hpath, hbefore⟩, hload', happly'⟩

theorem exists_printed (setting : Setting) (words paths : List String) (options : Options) :
    ∃ out, Printed setting words paths options out := by
  cases hconfig : effectiveConfig setting options with
  | error r => exact ⟨_, .noConfig (effectiveConfig_error_iff.mp hconfig)⟩
  | ok config =>
    have heffect := inEffect_of_effectiveConfig hconfig
    by_cases hall : ∀ path ∈ paths, HoldsTree setting.files path
    · rcases first_not_transformed setting.files config hall with
        hgood | ⟨before, path, after, e, r, hpaths, hbefore, hload, happly⟩
      · have hblock : ∀ path ∈ paths, ∃ block result,
            Transforms setting.files config path result ∧
              block = blockOf words config.environment path result := by
          intro path hpath
          obtain ⟨result, h⟩ := hgood path hpath
          exact ⟨_, result, h, rfl⟩
        obtain ⟨blocks, hblocks⟩ := exists_forall₂_iff.mpr hblock
        exact ⟨_, .transformed heffect hblocks⟩
      · have hafter : ∀ p ∈ after, HoldsTree setting.files p :=
          fun p hp => hall p (by simp [hpaths, hp])
        exact ⟨_, .notTransformed heffect hpaths hbefore hload happly hafter⟩
    · obtain ⟨path, hpath⟩ := Classical.not_forall.mp hall
      obtain ⟨hmem, hno⟩ := Classical.not_imp.mp hpath
      exact ⟨_, .noTree heffect hmem hno⟩

theorem runTransform_of_printed {setting : Setting} (htraced : setting.traced = false)
    {words paths : List String} {options : Options} {out : List Output}
    (h : Printed setting words paths options out) :
    runTransform setting (flagsOf words) paths options = out := by
  cases h with
  | noConfig hchosen =>
    have hconfig := effectiveConfig_error_iff.mpr hchosen
    simp only [runTransform, hconfig, reportLines_eq (distinct_of_chosen hchosen), complaint]
  | noTree heffect hmem hno =>
    obtain ⟨config', hconfig, _⟩ := effectiveConfig_of_inEffect heffect
    have hload := loadTrees_error (loadReports_ne_nil hmem hno)
    simp only [runTransform, hconfig, hload, flatMap_loadReports]
  | @notTransformed config before after path e r heffect hpaths hbefore hload happly hafter =>
    obtain ⟨results, hresults⟩ := exists_forall₂_iff.mpr hbefore
    obtain ⟨front, hfront, happlied⟩ := trees_of_transforms hresults
    obtain ⟨back, hback⟩ := exists_forall₂_iff.mpr hafter
    have hes : List.Forall₂ (fun path e => setting.files.loadTree path = .ok e) paths
        (front ++ e :: back) := hpaths ▸ List.rel_append hfront (.cons hload hback)
    have hfails : config.pipeline.applyAll (front ++ e :: back) = .error r := by
      rw [Pipeline.applyAll, List.map_append, happlied, List.map_cons, happly,
        firstFailure_error_iff]
      refine ⟨results.length, by simp, fun i hi => ⟨results[i], ?_⟩⟩
      rw [List.getElem?_append_left (by simpa using hi)]
      simp [hi]
    rw [runTransform_of_trees htraced heffect hes, hfails]
    exact congrArg (_ :: ·) (reportLines_eq (Config.distinct_of_pipeline happly))
  | @transformed config blocks heffect hblocks =>
    obtain ⟨results, hresults, hlines⟩ := results_of_blocks hblocks
    obtain ⟨es, hes, happlied⟩ := trees_of_transforms hresults
    have hgood : config.pipeline.applyAll es = .ok results := by
      rw [Pipeline.applyAll, happlied, firstFailure_ok_iff]
    rw [runTransform_of_trees htraced heffect hes, hgood]
    exact congrArg (fun lines => _ :: (lines ++ _)) hlines

theorem runTransform_iff {setting : Setting} (htraced : setting.traced = false)
    (words paths : List String) (options : Options) (out : List Output) :
    runTransform setting (flagsOf words) paths options = out ↔
      Printed setting words paths options out := by
  constructor
  · -- Some outcome is always possible, and what it says is printed is what was printed.
    rintro rfl
    obtain ⟨out, hout⟩ := exists_printed setting words paths options
    rw [runTransform_of_printed htraced hout]
    exact hout
  · exact runTransform_of_printed htraced

/-- What is printed for a command to transform trees is one of the four outcomes, and only one of
them is possible. Flags are looked for among all words; the name of the program, the first of them,
has a part in that only if it is the text of a flag. -/
theorem run_transform_iff {setting : Setting} (htraced : setting.traced = false)
    {words paths : List String} {options : Options}
    (h : Command.ofWords words = .ok (.transform paths options)) (program : String) :
    (∀ out, run setting (program :: words) = out ↔
      Printed setting (program :: words) paths options out) ∧
    ((∀ f : Flag, program ≠ f.text) → ∀ out, run setting (program :: words) = out ↔
      Printed setting words paths options out) := by
  have hrun : run setting (program :: words) =
      runTransform setting (flagsOf (program :: words)) paths options := by
    rw [run, List.tail_cons, h]
    rfl
  rw [hrun]
  refine ⟨runTransform_iff htraced (program :: words) paths options, fun hprogram => ?_⟩
  rw [flagsOf_cons_of_not_flag hprogram]
  exact runTransform_iff htraced words paths options

def threeTrees : Setting where
  files := {
    read path :=
      if path = "a" then .ok (Expr.var "x").toJson
      else if path = "b" then .ok (Expr.binary .add (.const 1) (.const 2)).toJson
      else if path = "c" then .ok (Expr.binary .divide (.const 1) (.const 0)).toJson
      else .error .notFound
    isFile _ := false }
  tomlError _ := ""

theorem loadTree_of_toJson {files : Files} {path : String} {e : Expr}
    (hread : files.read path = .ok e.toJson) (h : e.height ≤ 63 + 1) :
    files.loadTree path = .ok e := by
  simp only [Files.loadTree, hread, Expr.ofJson_written h]
  rfl

theorem standard_inEffect_threeTrees :
    InEffect threeTrees {} { passes := [.fold, .replace 42] } :=
  ⟨_, .standard rfl rfl, rfl, fun _ => rfl⟩

/-- A tree without a value, which is only noted; a path without a tree, a tree on which a pass
fails, and a configuration that is not there, each with nothing more than the report on it. -/
theorem run_transform_iff_unbound :
    let printed (words : List String) : String :=
      render "1ms" (run threeTrees ("exprw" :: "rewrite" :: words))
    printed ["a", "--json", "b"] =
      "\x1b[90mPasses: \x1b[90mconstant_folding, constant_rewriting\x1b[0m\n"
        ++ "\x1b[1ma\x1b[0m\nRewritten: \x7b\"Var\":\"x\"\x7d\x1b[0m\n"
        ++ "\x1b[33mNot evaluated: \x1b[33mUndefined Variable: Undefined variable 'x'\x1b[0m\n"
        ++ "\x1b[1mb\x1b[0m\nRewritten: \x7b\"Const\":42\x7d\x1b[0m\n"
        ++ "Result: \x1b[32m42\x1b[0m\n\x1b[90mFinished in: \x1b[90m1ms\x1b[0m\n" ∧
    printed ["a", "d", "c"] =
      "\x1b[33mFile Error\x1b[33m: d: Could not read expression tree: "
        ++ "No such file or directory (os error 2)\x1b[0m\n" ∧
    printed ["b", "c", "a"] =
      "\x1b[90mPasses: \x1b[90mconstant_folding, constant_rewriting\x1b[0m\n"
        ++ "\x1b[31mDivision By Zero\x1b[31m: Can't divide by zero\x1b[0m\n"
        ++ "\x1b[90m    \x1b[90mStage\x1b[90m: Constant Folding\x1b[0m\n"
        ++ "\x1b[90m    \x1b[90mExpression\x1b[90m: (1 / 0)\x1b[0m\n"
        ++ "\x1b[90m    \x1b[90mSuggestion\x1b[90m: "
        ++ "Make sure the divisor can never be zero\x1b[0m\n" ∧
    printed ["a", "--config", "d"] =
      "\x1b[33mFile Error\x1b[33m: d: Could not read config file: "
        ++ "No such file or directory (os error 2)\x1b[0m\n" := by
  intro printed
  have hname : ∀ f : Flag, "exprw" ≠ f.text := by
    intro f
    cases f <;> decide
  have ha : threeTrees.files.loadTree "a" = .ok (.var "x") := loadTree_of_toJson rfl (by decide)
  have hb : threeTrees.files.loadTree "b" = .ok (.binary .add (.const 1) (.const 2)) :=
    loadTree_of_toJson rfl (by decide)
  have hc : threeTrees.files.loadTree "c" = .ok (.binary .divide (.const 1) (.const 0)) :=
    loadTree_of_toJson rfl (by decide)
  have hd : ¬HoldsTree threeTrees.files "d" := fun ⟨_, h⟩ => by cases h
  have hprinted : ∀ {words paths options out},
      Command.ofWords ("rewrite" :: words) = .ok (.transform paths options) →
      Printed threeTrees ("rewrite" :: words) paths options out →
      printed words = render "1ms" out := fun hwords hout =>
    congrArg (render "1ms") (((run_transform_iff rfl hwords "exprw").2 hname _).mpr hout)
  refine ⟨?_, ?_, ?_, ?_⟩
  · have hwords : Command.ofWords ["rewrite", "a", "--json", "b"] =
        .ok (.transform ["a", "b"] {}) := by decide +kernel
    rw [hprinted hwords (.transformed standard_inEffect_threeTrees
      (.cons ⟨_, ⟨_, ha, rfl⟩, rfl⟩ (.cons ⟨_, ⟨_, hb, rfl⟩, rfl⟩ .nil)))]
    decide +kernel
  · have hwords : Command.ofWords ["rewrite", "a", "d", "c"] =
        .ok (.transform ["a", "d", "c"] {}) := by decide +kernel
    rw [hprinted hwords (.noTree standard_inEffect_threeTrees (by simp) hd)]
    simp only [List.flatMap_cons, loadComplaint, ha, hc]
    decide +kernel
  · have hwords : Command.ofWords ["rewrite", "b", "c", "a"] =
        .ok (.transform ["b", "c", "a"] {}) := by decide +kernel
    have hbefore : ∀ p ∈ ["b"], ∃ result, Transforms threeTrees.files
        { passes := [.fold, .replace 42] } p result :=
      List.forall_mem_singleton.mpr ⟨_, _, hb, rfl⟩
    have hafter : ∀ p ∈ ["a"], HoldsTree threeTrees.files p :=
      List.forall_mem_singleton.mpr ⟨_, ha⟩
    rw [hprinted hwords (.notTransformed standard_inEffect_threeTrees rfl hbefore hc rfl hafter)]
    decide +kernel
  · have hwords : Command.ofWords ["rewrite", "a", "--config", "d"] =
        .ok (.transform ["a"] ⟨some "d", []⟩) := by decide +kernel
    have hchosen : Chosen threeTrees ⟨some "d", []⟩
        (threeTrees.files.loadConfig threeTrees.tomlError "d") := .named rfl
    have hmissing : threeTrees.files.loadConfig threeTrees.tomlError "d" = .error
        (.ofFile "d" "Could not read config file: No such file or directory (os error 2)") := rfl
    rw [hprinted hwords (.noConfig (hmissing ▸ hchosen))]
    decide +kernel

end ArithTree.Program
