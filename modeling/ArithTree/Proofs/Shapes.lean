import ArithTree.Pass.Constants
import ArithTree.Proofs.Measures
import ArithTree.Proofs.Places

/-!
# What replacing constants forgets

Two expressions have the same shape when they show the same at every place, values of constants
left out. To replace all constants by one value is to forget these values and nothing more: it
makes two expressions equal if and only if they have the same shape.
-/

set_option autoImplicit false

namespace ArithTree

inductive Mark
  | constant
  | variable (name : String)
  | operation (op : Operator)
  deriving DecidableEq

def Expr.mark : Expr → Mark
  | .const _ => .constant
  | .var name => .variable name
  | .binary op _ _ => .operation op

/-- At each place stand two constants, or the same variable, or the same operation, or nothing in
either expression. -/
def SameShape (a b : Expr) : Prop :=
  ∀ place, (a.at? place).map Expr.mark = (b.at? place).map Expr.mark

namespace SameShape

theorem mark_eq {a b : Expr} (h : SameShape a b) : a.mark = b.mark := by
  simpa [Expr.at?_nil] using h []

theorem operands {op op' : Operator} {left left' right right' : Expr}
    (h : SameShape (.binary op left right) (.binary op' left' right')) :
    SameShape left left' ∧ SameShape right right' :=
  ⟨fun place => h (.left :: place), fun place => h (.right :: place)⟩

end SameShape

theorem at?_replaceConstants (value : Int64) (e : Expr) (place : Place) :
    (replaceConstants value e).at? place = (e.at? place).map (replaceConstants value) := by
  induction place generalizing e with
  | nil => simp [Option.map_some]
  | cons side place ih =>
    cases e with
    | const _ => rfl
    | var name => rfl
    | binary op left right =>
      cases side with
      | left => exact ih left
      | right => exact ih right

theorem mark_replaceConstants (value : Int64) (e : Expr) :
    (replaceConstants value e).mark = e.mark := by
  cases e <;> rfl

theorem sameShape_replaceConstants (value : Int64) (e : Expr) :
    SameShape (replaceConstants value e) e := by
  intro place
  have hmark : Expr.mark ∘ replaceConstants value = Expr.mark :=
    funext (mark_replaceConstants value)
  rw [at?_replaceConstants, Option.map_map, hmark]

theorem replaceConstants_congr {a b : Expr} (h : SameShape a b) (value : Int64) :
    replaceConstants value a = replaceConstants value b := by
  induction a generalizing b with
  | const _ =>
    cases b with
    | const _ => rfl
    | var _ => cases h.mark_eq
    | binary _ _ _ => cases h.mark_eq
  | var name =>
    cases b with
    | const _ => cases h.mark_eq
    | var _ => cases h.mark_eq; rfl
    | binary _ _ _ => cases h.mark_eq
  | binary op left right ihl ihr =>
    cases b with
    | const _ => cases h.mark_eq
    | var _ => cases h.mark_eq
    | binary _ left' right' =>
      cases h.mark_eq
      rw [replaceConstants, replaceConstants, ihl h.operands.1, ihr h.operands.2]

theorem replaceConstants_eq_iff {value : Int64} {a b : Expr} :
    replaceConstants value a = replaceConstants value b ↔ SameShape a b := by
  constructor
  · intro h place
    rw [← sameShape_replaceConstants value a place, h, sameShape_replaceConstants value b place]
  · exact fun h => replaceConstants_congr h value

theorem eq_of_const_at?_replaceConstants {value other : Int64} {e : Expr} {place : Place}
    (h : (replaceConstants value e).at? place = some (.const other)) : other = value := by
  rw [at?_replaceConstants, Option.map_eq_some_iff] at h
  obtain ⟨node, _, hnode⟩ := h
  cases node with
  | const _ => cases hnode; rfl
  | var _ => cases hnode
  | binary _ _ _ => cases hnode

/-- A replacement never fails. It makes two expressions equal if and only if they have the same
shape; it keeps the number of nodes, the depth and the variables, leaves no constant but its own,
and does not show once constants are replaced again. -/
theorem replacement_forgets_values (value : Int64) :
    (∀ a b : Expr, (replacementPass value).apply a = (replacementPass value).apply b ↔
      SameShape a b) ∧
    ∀ e : Expr, ∃ e', (replacementPass value).apply e = .ok e' ∧
      e'.nodeCount = e.nodeCount ∧ e'.depth = e.depth ∧ e'.variableNames = e.variableNames ∧
      (∀ place other, e'.at? place = some (.const other) → other = value) ∧
      ∀ second, (replacementPass second).apply e' = (replacementPass second).apply e := by
  constructor
  · intro a b
    have happly : ∀ e, (replacementPass value).apply e = .ok (replaceConstants value e) :=
      fun _ => rfl
    rw [happly, happly, Except.ok.injEq]
    exact replaceConstants_eq_iff
  · intro e
    refine ⟨replaceConstants value e, rfl, ?_, ?_, ?_, ?_, ?_⟩
    · simp
    · simp
    · rw [Expr.variableNames_eq, Expr.variableNames_eq, names_replaceConstants]
    · exact fun _ _ => eq_of_const_at?_replaceConstants
    · exact fun second => congrArg Except.ok (replaceConstants_replaceConstants value second e)

/-- At `((x - 1) / 0)`: the zero divisor does no harm, and the constants are replaced by one that
would be a zero divisor as well. Other constants at the same places make no difference, a variable
in the place of one does. -/
theorem replacement_forgets_values_zero_divisor :
    let e := Expr.binary .divide (.binary .subtract (.var "x") (.const 1)) (.const 0)
    let same := Expr.binary .divide (.binary .subtract (.var "x") (.const 5)) (.const 3)
    let other := Expr.binary .divide (.binary .subtract (.var "x") (.const 1)) (.var "y")
    SameShape e same ∧ ¬SameShape e other ∧
      ∃ e', (replacementPass 0).apply e = .ok e' ∧
        e'.nodeCount = e.nodeCount ∧ e'.depth = e.depth ∧ e'.variableNames = e.variableNames ∧
        (∃ value, e'.at? [.left, .right] = some (.const value) ∧ value = 0) ∧
        (replacementPass 7).apply e' = (replacementPass 7).apply e := by
  intro e same other
  obtain ⟨hshape, hresult⟩ := replacement_forgets_values 0
  obtain ⟨e', happly, hcount, hdepth, hnames, hconst, hsecond⟩ := hresult e
  have hreplaced : .ok (replaceConstants 0 e) = (Except.ok e' : Except Report Expr) := happly
  cases hreplaced
  refine ⟨(hshape e same).mp rfl, fun h => ?_, _, happly, hcount, hdepth, hnames, ?_, hsecond 7⟩
  · exact absurd (Except.ok.inj ((hshape e other).mpr h)) (by decide)
  · exact ⟨_, rfl, hconst [.left, .right] _ rfl⟩

end ArithTree
