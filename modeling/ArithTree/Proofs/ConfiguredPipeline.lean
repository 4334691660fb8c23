import ArithTree.Config
import ArithTree.Proofs.Composition
import ArithTree.Proofs.FoldedEvaluation

/-!
# What a configured pipeline comes to

However many passes a configuration lists, at most three of them matter: the last replacement
before the first fold, that fold, and the last replacement after it. After one fold no operation
has two constants left. Replacing constants keeps it so, since it never turns a variable or an
operation into a constant, and then every later fold finds nothing to do.
-/

set_option autoImplicit false

namespace ArithTree

theorem folded_replaceConstants (value : Int64) {e : Expr} (h : Folded e) :
    Folded (replaceConstants value e) := by
  induction e with
  | const _ => trivial
  | var _ => trivial
  | binary op left right ihl ihr =>
    obtain ⟨hs, hl, hr⟩ := h
    refine ⟨?_, ihl hl, ihr hr⟩
    simpa only [Stays, isConstant_replaceConstants] using hs

def PassSetting.value? : PassSetting → Option Int64
  | .fold => none
  | .replace value => some value

def lastValue (settings : List PassSetting) : Option Int64 :=
  (settings.filterMap PassSetting.value?).getLast?

def Expr.withConstants : Option Int64 → Expr → Expr
  | none, e => e
  | some value, e => replaceConstants value e

theorem lastValue_fold (settings : List PassSetting) :
    lastValue (.fold :: settings) = lastValue settings := rfl

theorem lastValue_replace (value : Int64) (settings : List PassSetting) :
    lastValue (.replace value :: settings) = some ((lastValue settings).getD value) := by
  simp only [lastValue, List.filterMap_cons, PassSetting.value?, List.getLast?_cons]

theorem withConstants_replaceConstants (value? : Option Int64) (value : Int64) (e : Expr) :
    (replaceConstants value e).withConstants value? =
      e.withConstants (some (value?.getD value)) := by
  cases value? with
  | none => rfl
  | some later => exact replaceConstants_replaceConstants value later e

/-- Passes of which no fold has anything to do replace the constants and nothing else. -/
theorem run_settings (settings : List PassSetting) (e : Expr)
    (h : .fold ∈ settings → Folded e) :
    Pipeline.run (settings.map PassSetting.pass) e =
      .ok (e.withConstants (lastValue settings)) := by
  induction settings generalizing e with
  | nil => rfl
  | cons setting settings ih =>
    cases setting with
    | fold =>
      have hf : Folded e := h (by simp)
      have happly : (PassSetting.fold.pass).apply e = .ok e :=
        foldingPass_ok_iff.mpr (fold_of_folded hf)
      rw [List.map_cons, Pipeline.run_cons, happly, lastValue_fold]
      exact ih e (fun _ => hf)
    | replace value =>
      have happly : (PassSetting.replace value).pass.apply e = .ok (replaceConstants value e) := rfl
      rw [List.map_cons, Pipeline.run_cons, happly, lastValue_replace,
        ← withConstants_replaceConstants]
      exact ih _ (fun hm => folded_replaceConstants value (h (List.mem_cons_of_mem _ hm)))

/-- The passes before a fold that is the first one replace constants, and those after it do so
with what the fold returned. -/
theorem run_around_fold (before after : List PassSetting) (h : .fold ∉ before) (e : Expr) :
    Pipeline.run ((before ++ .fold :: after).map PassSetting.pass) e =
      (foldingPass.apply (e.withConstants (lastValue before))).map
        (Expr.withConstants (lastValue after)) := by
  rw [List.map_append, List.map_cons, Pipeline.run_append,
    run_settings before e (fun hm => absurd hm h)]
  show Pipeline.run (foldingPass :: after.map PassSetting.pass) _ = _
  rw [Pipeline.run_cons]
  cases hf : foldingPass.apply (e.withConstants (lastValue before)) with
  | error r => rfl
  | ok e' => exact run_settings after e' (fun _ => folded_fold (foldingPass_ok_iff.mp hf))

theorem folded_withConstants (value? : Option Int64) {e : Expr} (h : Folded e) :
    Folded (e.withConstants value?) := by
  cases value? with
  | none => exact h
  | some value => exact folded_replaceConstants value h

theorem around_first_fold {settings : List PassSetting} {i : Nat}
    (h : settings.idxOf? .fold = some i) :
    settings = settings.take i ++ .fold :: settings.drop (i + 1) ∧
      .fold ∉ settings.take i := by
  obtain ⟨hi, hfold, hfirst⟩ := List.idxOf?_eq_some_iff.mp h
  constructor
  · rw [← hfold, List.getElem_cons_drop, List.take_append_drop]
  · intro hm
    obtain ⟨j, hj, hx⟩ := List.mem_take_iff_getElem.mp hm
    exact hfirst j (by omega) hx

theorem take_around {settings before after : List PassSetting} {i j : Nat}
    (hs : settings = before ++ .fold :: after) (hi : before.length = i) (hj : i < j) :
    settings.take j = before ++ .fold :: after.take (j - (i + 1)) := by
  obtain ⟨k, rfl⟩ : ∃ k, j = before.length + (k + 1) := ⟨j - (i + 1), by omega⟩
  rw [hs, List.take_length_add_append, List.take_succ_cons]
  congr 3
  omega

theorem later_fold (before after : List PassSetting) (h : .fold ∉ before) {e e' : Expr}
    (hf : foldingPass.apply (e.withConstants (lastValue before)) = .ok e') :
    ∃ input, Pipeline.run ((before ++ .fold :: after).map PassSetting.pass) e = .ok input ∧
      foldingPass.apply input = .ok input := by
  refine ⟨e'.withConstants (lastValue after), ?_, ?_⟩
  · rw [run_around_fold before after h, hf, map_ok]
  · have hfolded : Folded e' := folded_fold (foldingPass_ok_iff.mp hf)
    exact foldingPass_ok_iff.mpr (fold_of_folded (folded_withConstants _ hfolded))

/-- A configured pipeline replaces constants, folds once, and replaces constants again; without a
fold it only replaces constants. It fails where that fold does, and all further folds are idle. -/
theorem pipeline_collapses (c : Config) (e : Expr) :
    match c.passes.idxOf? .fold with
    | none => c.pipeline.apply e = .ok (e.withConstants (lastValue c.passes))
    | some i =>
      let first := foldingPass.apply (e.withConstants (lastValue (c.passes.take i)))
      c.pipeline.apply e = first.map (Expr.withConstants (lastValue (c.passes.drop (i + 1)))) ∧
      (∀ r, c.pipeline.apply e = .error r ↔ first = .error r) ∧
      (∀ e' j, first = .ok e' → i < j → c.passes[j]? = some .fold →
        ∃ input, Pipeline.run ((c.passes.take j).map PassSetting.pass) e = .ok input ∧
          foldingPass.apply input = .ok input) := by
  cases hidx : c.passes.idxOf? .fold with
  | none =>
    have hnone : .fold ∉ c.passes := List.idxOf?_eq_none_iff.mp hidx
    exact run_settings c.passes e (fun hm => absurd hm hnone)
  | some i =>
    obtain ⟨hs, hbefore⟩ := around_first_fold hidx
    have hi : (c.passes.take i).length = i := by
      have hlt : i < c.passes.length := (List.idxOf?_eq_some_iff.mp hidx).1
      simp [Nat.le_of_lt hlt]
    have hrun : c.pipeline.apply e =
        (foldingPass.apply (e.withConstants (lastValue (c.passes.take i)))).map
          (Expr.withConstants (lastValue (c.passes.drop (i + 1)))) := by
      rw [← run_around_fold _ _ hbefore, ← hs]
      rfl
    refine ⟨hrun, ?_, ?_⟩
    · intro r
      rw [hrun]
      cases foldingPass.apply (e.withConstants (lastValue (c.passes.take i))) <;> simp
    · intro e' j hf hj _
      rw [take_around hs hi hj]
      exact later_fold _ _ hbefore hf

theorem pipeline_collapses_at_zero_divisor :
    let c : Config := { passes := [.fold, .replace 0, .fold] }
    let e := Expr.binary .divide (.var "x") (.binary .add (.const 1) (.const 2))
    c.pipeline.apply e = .ok (.binary .divide (.var "x") (.const 0)) ∧
      ∃ input, Pipeline.run ((c.passes.take 2).map PassSetting.pass) e = .ok input ∧
        foldingPass.apply input = .ok input := by
  intro c e
  have h := pipeline_collapses c e
  have hidx : c.passes.idxOf? .fold = some 0 := rfl
  rw [hidx] at h
  exact ⟨h.1, h.2.2 (.binary .divide (.var "x") (.const 3)) 2 rfl (by decide) rfl⟩

end ArithTree
