import ArithTree.Proofs.Measures
import ArithTree.Proofs.Nodes
import Mathlib.Data.String.Basic

/-!
# Walks end after one turn for each node

A walk takes the first place off its list, makes use of the expression there, and puts the
operands of that expression on the list. So each turn takes one node from what is left to visit,
and the walk ends after as many turns as there are nodes. The number of nodes is odd, as an
operation has two operands, and lies between bounds that the depth gives.
-/

set_option autoImplicit false

namespace ArithTree.Expr

/-- What a walk does at a place, and which place it gives to an operand. -/
structure Walk (State Place : Type) where
  node : Place → Expr
  below : Place → Expr → Place
  visit : State → Place → State
  node_below : ∀ place e, node (below place e) = e

namespace Walk

variable {State Place : Type} (w : Walk State Place)

def onward (place : Place) (stack : List Place) : List Place :=
  match (w.node place).operands? with
  | some (_, left, right) => w.below place right :: w.below place left :: stack
  | none => stack

/-- The walk stops after so many turns, when nothing is left, with this result. -/
inductive Ends : Nat → State → List Place → State → Prop
  | stop (result : State) : Ends 0 result [] result
  | turn {turns : Nat} {found result : State} {place : Place} {stack : List Place} :
      Ends turns (w.visit found place) (w.onward place stack) result →
      Ends (turns + 1) found (place :: stack) result

theorem pending_onward (place : Place) (stack : List Place) :
    pending ((w.onward place stack).map w.node) + 1 = pending ((place :: stack).map w.node) := by
  rw [List.map_cons, pending_cons, onward]
  cases w.node place with
  | const value => simp [operands?]; omega
  | var name => simp [operands?]; omega
  | binary op left right =>
    simp [operands?, List.map_cons, w.node_below]
    omega

/-- A function that gives the same before and after a turn is what the walk computes. -/
theorem ends_of_turn (result : State → List Place → State)
    (hstop : ∀ found, result found [] = found)
    (hturn : ∀ found place stack,
      result found (place :: stack) = result (w.visit found place) (w.onward place stack))
    (found : State) (stack : List Place) :
    w.Ends (pending (stack.map w.node)) found stack (result found stack) := by
  -- Induction on the nodes that are left: the list may get longer in a turn, they get fewer.
  induction hn : pending (stack.map w.node) generalizing found stack with
  | zero =>
    cases stack with
    | nil =>
      rw [hstop]
      exact .stop found
    | cons place stack =>
      have hpos := w.pending_onward place stack
      omega
  | succ turns ih =>
    cases stack with
    | nil => cases hn
    | cons place stack =>
      have hleft := w.pending_onward place stack
      rw [hturn]
      exact .turn (ih _ _ (by omega))

theorem ends_single (result : State → List Place → State)
    (hstop : ∀ found, result found [] = found)
    (hturn : ∀ found place stack,
      result found (place :: stack) = result (w.visit found place) (w.onward place stack))
    (found : State) (place : Place) :
    w.Ends (w.node place).nodeCount found [place] (result found [place]) := by
  have hnodes : pending ([place].map w.node) = (w.node place).nodeCount := by
    rw [List.map_singleton, pending_cons, nodeCount_eq_size]
    rfl
  rw [← hnodes]
  exact w.ends_of_turn result hstop hturn found [place]

end Walk

def countingWalk : Walk Nat Expr where
  node e := e
  below _ e := e
  visit count _ := count + 1
  node_below _ _ := rfl

def depthWalk : Walk Nat (Expr × Nat) where
  node := Prod.fst
  below place e := (e, place.2 + 1)
  visit found place := max found place.2
  node_below _ _ := rfl

def nameWalk : Walk (List String) Expr where
  node e := e
  below _ e := e
  visit
    | found, .var name => insertName name found
    | found, _ => found
  node_below _ _ := rfl

theorem countFrom_turn (count : Nat) (e : Expr) (stack : List Expr) :
    countFrom count (e :: stack) =
      countFrom (countingWalk.visit count e) (countingWalk.onward e stack) := by
  cases e <;> rw [countFrom] <;> rfl

theorem deepest_turn (found : Nat) (place : Expr × Nat) (stack : List (Expr × Nat)) :
    deepest found (place :: stack) =
      deepest (depthWalk.visit found place) (depthWalk.onward place stack) := by
  obtain ⟨e, depth⟩ := place
  cases e <;> rw [deepest] <;> rfl

theorem collectNames_turn (found : List String) (e : Expr) (stack : List Expr) :
    collectNames found (e :: stack) =
      collectNames (nameWalk.visit found e) (nameWalk.onward e stack) := by
  cases e <;> rw [collectNames] <;> rfl

theorem countingWalk_ends (e : Expr) : countingWalk.Ends e.nodeCount 0 [e] e.nodeCount :=
  countingWalk.ends_single countFrom (fun _ => by rw [countFrom]) countFrom_turn 0 e

theorem depthWalk_ends (e : Expr) : depthWalk.Ends e.nodeCount 0 [(e, 1)] e.depth :=
  depthWalk.ends_single deepest (fun _ => by rw [deepest]) deepest_turn 0 (e, 1)

theorem nameWalk_ends (e : Expr) : nameWalk.Ends e.nodeCount [] [e] e.variableNames :=
  nameWalk.ends_single collectNames (fun _ => by rw [collectNames]) collectNames_turn [] e

theorem pairwise_insertName {name : String} {found : List String}
    (h : found.Pairwise (· < ·)) : (insertName name found).Pairwise (· < ·) := by
  induction found with
  | nil => exact List.pairwise_singleton _ name
  | cons first rest ih =>
    obtain ⟨hfirst, hrest⟩ := List.pairwise_cons.mp h
    rw [insertName]
    by_cases hless : name < first
    · rw [if_pos hless, List.pairwise_cons, List.forall_mem_cons]
      exact ⟨⟨hless, fun other hm => hless.trans (hfirst other hm)⟩, h⟩
    · by_cases heq : name = first
      · rw [if_neg hless, if_pos heq]
        exact h
      · have hgreater : first < name := lt_of_le_of_ne (not_lt.mp hless) (Ne.symm heq)
        rw [if_neg hless, if_neg heq, List.pairwise_cons]
        refine ⟨fun other hm => ?_, ih hrest⟩
        rcases mem_insertName.mp hm with rfl | hm
        · exact hgreater
        · exact hfirst other hm

theorem pairwise_variableNames (e : Expr) : e.variableNames.Pairwise (· < ·) := by
  rw [variableNames_eq]
  induction e.names with
  | nil => exact List.Pairwise.nil
  | cons name rest ih => exact pairwise_insertName ih

theorem map_toNat_lt {a b : String} (h : a < b) :
    a.toList.map Char.toNat < b.toList.map Char.toNat :=
  List.map_lt (fun _ _ hlt => hlt) (String.lt_iff_toList_lt.mp h)

theorem size_odd (e : Expr) : e.size % 2 = 1 := by
  induction e with
  | const value => rfl
  | var name => rfl
  | binary op left right ihl ihr =>
    rw [size]
    omega

/-- Below each operation of a longest path there is a node that is not on the path. -/
theorem two_mul_height_le (e : Expr) : 2 * e.height ≤ e.size + 1 := by
  induction e with
  | const value => exact Nat.le_refl 2
  | var name => exact Nat.le_refl 2
  | binary op left right ihl ihr =>
    have hl := left.size_pos
    have hr := right.size_pos
    rw [height, size]
    omega

theorem size_lt_two_pow_height (e : Expr) : e.size < 2 ^ e.height := by
  induction e with
  | const value => exact Nat.lt_two_pow_self
  | var name => exact Nat.lt_two_pow_self
  | binary op left right ihl ihr =>
    have hl : 2 ^ left.height ≤ 2 ^ max left.height right.height :=
      Nat.pow_le_pow_right (by decide) (Nat.le_max_left ..)
    have hr : 2 ^ right.height ≤ 2 ^ max left.height right.height :=
      Nat.pow_le_pow_right (by decide) (Nat.le_max_right ..)
    rw [height, size, Nat.pow_add]
    omega

/-- The three walks end, after one turn for each node, with what recursion over the expression
gives: the number of nodes, the depth, and the names at the leaves, each once and ascending by
code points. The number of nodes is odd, and the depth bounds it from both sides. -/
theorem walks_measure (e : Expr) :
    (countingWalk.Ends e.nodeCount 0 [e] e.nodeCount ∧
      depthWalk.Ends e.nodeCount 0 [(e, 1)] e.depth ∧
      nameWalk.Ends e.nodeCount [] [e] e.variableNames) ∧
    (e.nodeCount = match e with
      | .const _ => 1
      | .var _ => 1
      | .binary _ left right => 1 + left.nodeCount + right.nodeCount) ∧
    (e.depth = match e with
      | .const _ => 1
      | .var _ => 1
      | .binary _ left right => 1 + max left.depth right.depth) ∧
    (e.variableNames.Pairwise fun a b =>
      a.toList.map Char.toNat < b.toList.map Char.toNat) ∧
    e.variableNames.Nodup ∧
    (∀ name, name ∈ e.variableNames ↔ .var name ∈ e.nodes) ∧
    e.nodeCount % 2 = 1 ∧ 2 * e.depth - 1 ≤ e.nodeCount ∧ e.nodeCount ≤ 2 ^ e.depth - 1 := by
  have hnames := e.pairwise_variableNames
  refine ⟨⟨countingWalk_ends e, depthWalk_ends e, nameWalk_ends e⟩, ?_, ?_,
    hnames.imp map_toNat_lt, hnames.imp ne_of_lt,
    fun _ => mem_variableNames_iff.trans mem_names_iff, ?_⟩
  · cases e <;> simp
  · cases e <;> simp
  · have hlow := e.two_mul_height_le
    have hhigh := e.size_lt_two_pow_height
    rw [nodeCount_eq_size, depth_eq_height]
    exact ⟨e.size_odd, by omega, by omega⟩

end ArithTree.Expr
