import ArithTree.Proofs.ConfiguredPipeline
import ArithTree.Proofs.Json.Reading

/-!
# Passes do not let a tree grow

A pass replaces constants by constants, and operations on constants by constants. So it keeps
the variables in their order, makes no path longer and adds no node. This holds of one pass and
is kept from pass to pass. What is no taller than a tree that was read can be read again.
-/

set_option autoImplicit false

namespace ArithTree

/-- The second tree has the variables of the first in their order and is neither taller nor
larger. -/
structure Shrinks (e e' : Expr) : Prop where
  names : e'.names = e.names
  height : e'.height ≤ e.height
  size : e'.size ≤ e.size

namespace Shrinks

theorem refl (e : Expr) : Shrinks e e :=
  ⟨rfl, Nat.le_refl _, Nat.le_refl _⟩

theorem trans {a b c : Expr} (h : Shrinks a b) (h' : Shrinks b c) : Shrinks a c :=
  ⟨h'.names.trans h.names, Nat.le_trans h'.height h.height, Nat.le_trans h'.size h.size⟩

theorem binary {left left' right right' : Expr} (hl : Shrinks left left')
    (hr : Shrinks right right') (op : Operator) :
    Shrinks (.binary op left right) (.binary op left' right') where
  names := by rw [Expr.names, Expr.names, hl.names, hr.names]
  height := by
    have hleft := hl.height
    have hright := hr.height
    rw [Expr.height, Expr.height]
    omega
  size := by
    have hleft := hl.size
    have hright := hr.size
    rw [Expr.size, Expr.size]
    omega

end Shrinks

theorem shrinks_foldNode {op : Operator} {node left right e : Expr}
    (h : foldNode op node left right = .ok e) : Shrinks (.binary op left right) e := by
  rcases foldNode_ok_iff.mp h with ⟨a, b, value, rfl, rfl, _, rfl⟩ | ⟨_, rfl⟩
  · exact ⟨rfl, by simp, by simp⟩
  · exact .refl _

theorem shrinks_fold {e e' : Expr} (h : fold e = .ok e') : Shrinks e e' := by
  induction e generalizing e' with
  | const value => cases h; exact .refl _
  | var name => cases h; exact .refl _
  | binary op left right ihl ihr =>
    obtain ⟨left', right', hl, hr, hnode⟩ := fold_binary_ok_iff.mp h
    exact ((ihl hl).binary (ihr hr) op).trans (shrinks_foldNode hnode)

theorem shrinks_replaceConstants (value : Int64) (e : Expr) :
    Shrinks e (replaceConstants value e) where
  names := names_replaceConstants value e
  height := Nat.le_of_eq (height_replaceConstants value e)
  size := Nat.le_of_eq (size_replaceConstants value e)

theorem PassSetting.shrinks {setting : PassSetting} {e e' : Expr}
    (h : setting.pass.apply e = .ok e') : Shrinks e e' := by
  cases setting with
  | fold => exact shrinks_fold (foldingPass_ok_iff.mp h)
  | replace value =>
    have hresult : replaceConstants value e = e' := Except.ok.inj h
    exact hresult ▸ shrinks_replaceConstants value e

theorem Pipeline.run_shrinks {passes : List Pass}
    (hpass : ∀ pass ∈ passes, ∀ e e', pass.apply e = .ok e' → Shrinks e e') {e e' : Expr}
    (h : Pipeline.run passes e = .ok e') : Shrinks e e' := by
  induction passes generalizing e with
  | nil => cases h; exact .refl _
  | cons pass passes ih =>
    rw [Pipeline.run_cons] at h
    obtain ⟨middle, hfirst, hrest⟩ := bind_eq_ok_iff.mp h
    have hstep := hpass pass List.mem_cons_self e middle hfirst
    exact hstep.trans (ih (fun p hp => hpass p (List.mem_cons_of_mem pass hp)) hrest)

theorem Config.pipeline_shrinks {c : Config} {e e' : Expr} (h : c.pipeline.apply e = .ok e') :
    Shrinks e e' := by
  refine Pipeline.run_shrinks (fun pass hpass e e' hstep => ?_) h
  obtain ⟨setting, _, rfl⟩ := List.mem_map.mp hpass
  exact PassSetting.shrinks hstep

/-- A configured pipeline keeps the variables in their order and makes a tree neither deeper nor
larger. So its result for a tree that was read from a text can be written and read again. -/
theorem Config.pipeline_reloads {c : Config} {e e' : Expr} (h : c.pipeline.apply e = .ok e') :
    e'.names = e.names ∧ e'.depth ≤ e.depth ∧ e'.nodeCount ≤ e.nodeCount ∧
      ∀ text, Expr.ofJson text = .ok e → Expr.ofJson e'.toJson = .ok e' := by
  obtain ⟨hnames, hheight, hsize⟩ := Config.pipeline_shrinks h
  simp only [Expr.depth_eq_height, Expr.nodeCount_eq_size]
  refine ⟨hnames, hheight, hsize, fun text htext => ?_⟩
  have hread := Json.readTree_ok_iff.mp (mapError_eq_ok_iff.mp htext)
  exact Expr.ofJson_written (Nat.le_trans hheight hread.1)

theorem Config.pipeline_reloads_negative_sum :
    let c : Config := { passes := [.replace (-50), .fold] }
    let e := Expr.binary .multiply (.var "x") (.binary .add (.const 1) (.const 2))
    let e' := Expr.binary .multiply (.var "x") (.const (-100))
    c.pipeline.apply e = .ok e' ∧ e'.depth ≤ e.depth ∧ Expr.ofJson e.toJson = .ok e ∧
      Expr.ofJson e'.toJson = .ok e' := by
  intro c e e'
  have hresult : c.pipeline.apply e = .ok e' := rfl
  have hread : Expr.ofJson e.toJson = .ok e := Expr.ofJson_written (by decide)
  obtain ⟨_, hdepth, _, hreload⟩ := Config.pipeline_reloads hresult
  exact ⟨hresult, hdepth, hread, hreload e.toJson hread⟩

end ArithTree
