import ArithTree.Program
import ArithTree.Proofs.ConfiguredPipeline
import ArithTree.Proofs.Details
import ArithTree.Proofs.Flags

/-!
# What a run goes by and how its lines read

A run goes by the chosen configuration with the bindings of the command line on top of it. The
lines that it can print are spelled out here, piece by piece. No report that the program makes
holds a detail twice, so each is printed as it is spelled.
-/

set_option autoImplicit false

namespace ArithTree

theorem Report.distinct_ofFile (path message : String) : (ofFile path message).Distinct :=
  List.nodup_nil

theorem Report.Distinct.within {r : Report} (h : r.Distinct) (path : String) :
    (r.within path).Distinct :=
  h

theorem Fault.distinct_report (fault : Fault) : fault.report.Distinct := by
  cases fault <;> simp [Report.Distinct, Fault.report]

theorem Expr.distinct_of_ofJson {text : String} {r : Report} (h : Expr.ofJson text = .error r) :
    r.Distinct := by
  obtain ⟨failure, _, rfl⟩ := mapError_eq_error_iff.mp h
  exact List.nodup_singleton _

theorem Config.distinct_of_ofToml {tomlError : String → String} {text : String} {r : Report}
    (h : Config.ofToml tomlError text = .error r) : r.Distinct := by
  rw [Config.ofToml] at h
  cases hread : Toml.readDocument text.toList with
  | none =>
    rw [hread] at h
    cases h
    exact List.nodup_singleton _
  | some entries =>
    rw [hread] at h
    obtain ⟨problem, _, rfl⟩ := mapError_eq_error_iff.mp h
    exact List.nodup_singleton _

theorem Files.distinct_of_loadTree {files : Files} {path : String} {r : Report}
    (h : files.loadTree path = .error r) : r.Distinct := by
  rw [Files.loadTree] at h
  cases hread : files.read path with
  | error e =>
    rw [hread] at h
    cases h
    exact Report.distinct_ofFile path _
  | ok text =>
    rw [hread] at h
    obtain ⟨inner, htext, rfl⟩ := mapError_eq_error_iff.mp h
    exact (Expr.distinct_of_ofJson htext).within path

theorem Files.distinct_of_loadConfig {files : Files} {tomlError : String → String} {path : String}
    {r : Report} (h : files.loadConfig tomlError path = .error r) : r.Distinct := by
  rw [Files.loadConfig] at h
  cases hread : files.read path with
  | error e =>
    rw [hread] at h
    cases h
    exact Report.distinct_ofFile path _
  | ok text =>
    rw [hread] at h
    obtain ⟨inner, htext, rfl⟩ := mapError_eq_error_iff.mp h
    exact (Config.distinct_of_ofToml htext).within path

theorem Config.distinct_of_pipeline {c : Config} {e : Expr} {r : Report}
    (h : c.pipeline.apply e = .error r) : r.Distinct := by
  obtain ⟨before, pass, after, input, hpasses, _, hfails⟩ := Pipeline.exists_failure h
  have hmem : pass ∈ c.passes.map PassSetting.pass := by
    show pass ∈ c.pipeline.passes
    rw [hpasses]
    simp
  obtain ⟨setting, _, rfl⟩ := List.mem_map.mp hmem
  cases setting with
  | fold =>
    obtain ⟨fault, _, rfl⟩ := foldingPass_error_iff.mp hfails
    exact fault.distinct_report
  | replace value => cases hfails

namespace Program

open Console

/-- The configuration file that is named, else the local one if there is one, else the standard
configuration. -/
inductive Chosen (setting : Setting) (options : Options) : Except Report Config → Prop
  | named {path : String} :
      options.config? = some path →
      Chosen setting options (setting.files.loadConfig setting.tomlError path)
  | here :
      options.config? = none → setting.files.isFile "./exprw.toml" = true →
      Chosen setting options (setting.files.loadConfig setting.tomlError "./exprw.toml")
  | standard :
      options.config? = none → setting.files.isFile "./exprw.toml" = false →
      Chosen setting options (.ok { passes := [.fold, .replace 42] })

/-- The passes of the chosen configuration; and for each name the value that the command line
gives it last, else the value that it has there. -/
def InEffect (setting : Setting) (options : Options) (config : Config) : Prop :=
  ∃ chosen, Chosen setting options (.ok chosen) ∧ config.passes = chosen.passes ∧
    ∀ name, config.environment.get? name =
      (lastBinding? name options.bindings).or (chosen.environment.get? name)

section Setting

variable {setting : Setting} {options : Options}

theorem chosen_iff {result : Except Report Config} :
    Chosen setting options result ↔ chooseConfig setting options = result := by
  constructor
  · rintro (hconfig | ⟨hconfig, hfile⟩ | ⟨hconfig, hfile⟩)
    · rw [chooseConfig, hconfig]
    · rw [chooseConfig, hconfig]
      exact if_pos hfile
    · rw [chooseConfig, hconfig]
      exact if_neg (Bool.eq_false_iff.mp hfile)
  · rintro rfl
    rw [chooseConfig]
    cases hconfig : options.config? with
    | some path => exact .named hconfig
    | none =>
      cases hfile : setting.files.isFile localConfigPath with
      | true => exact .here hconfig hfile
      | false => exact .standard hconfig hfile

theorem distinct_of_chosen {r : Report} (h : Chosen setting options (.error r)) : r.Distinct := by
  generalize hresult : Except.error r = result at h
  cases h with
  | named hconfig => exact Files.distinct_of_loadConfig hresult.symm
  | here hconfig hfile => exact Files.distinct_of_loadConfig hresult.symm
  | standard hconfig hfile => cases hresult

theorem effectiveConfig_error_iff {r : Report} :
    effectiveConfig setting options = .error r ↔ Chosen setting options (.error r) := by
  rw [chosen_iff, effectiveConfig]
  cases chooseConfig setting options <;> simp

theorem inEffect_of_effectiveConfig {config : Config}
    (h : effectiveConfig setting options = .ok config) : InEffect setting options config := by
  obtain ⟨chosen, hchosen, rfl⟩ := map_eq_ok_iff.mp h
  exact ⟨chosen, chosen_iff.mpr hchosen, rfl, chosen.environment.get?_bindAll options.bindings⟩

theorem effectiveConfig_of_inEffect {config : Config} (h : InEffect setting options config) :
    ∃ config', effectiveConfig setting options = .ok config' ∧ config'.passes = config.passes ∧
      ∀ name, config'.environment.get? name = config.environment.get? name := by
  obtain ⟨chosen, hchosen, hpasses, hget⟩ := h
  refine ⟨{ chosen with environment := chosen.environment.bindAll options.bindings }, ?_,
    hpasses.symm, fun name => ?_⟩
  · rw [effectiveConfig, chosen_iff.mp hchosen]
    rfl
  · rw [hget]
    exact chosen.environment.get?_bindAll options.bindings name

theorem valueOf_untraced (h : setting.traced = false) (env : Environment) (e : Expr) :
    valueOf setting env e = ([], evaluate env e) := by
  rw [valueOf, h]
  rfl

theorem transformed_untraced (h : setting.traced = false) (p : Pipeline) (es : List Expr) :
    transformed setting p es = ([], p.applyAll es) := by
  rw [transformed, h]
  rfl

end Setting

def complaint (r : Report) : List Output :=
  errorLines r.kind r.message r.detail?

def writtenLine (words : List String) (label : String) (e : Expr) : Output :=
  .line [⟨[], label ++ if "--json" ∈ words then e.toJson else e.formula⟩]

def resultLine (value : Int64) : Output :=
  .line [⟨[], "Result: "⟩, ⟨[.green], Number.writeWord value⟩]

def timeLine (words : List String) : List Output :=
  if "--hide-timers" ∈ words then [] else [.elapsed]

theorem contains_flagsOf (words : List String) (f : Flag) :
    (flagsOf words).contains f = decide (f.text ∈ words) := by
  rw [List.contains_eq_mem, decide_eq_decide, mem_flagsOf]

theorem treeLine_flagsOf (words : List String) (label : String) (e : Expr) :
    treeLine (flagsOf words) label e = writtenLine words label e := by
  rw [treeLine, contains_flagsOf]
  simp only [decide_eq_true_eq]
  rfl

theorem elapsedLine_flagsOf (words : List String) :
    elapsedLine (flagsOf words) = timeLine words := by
  rw [elapsedLine, contains_flagsOf, timeLine]
  simp only [decide_eq_true_eq]
  rfl

end Program
end ArithTree
