import ArithTree.Expr

/-!
# Nodes in order

The nodes of an operation are those of its left operand, then those of its right operand, then
the operation itself. So the first node with some property is looked for in the operands first,
from left to right.
-/

set_option autoImplicit false

namespace ArithTree.Expr

theorem mem_nodes_binary {op : Operator} {left right node : Expr} :
    node ∈ (binary op left right).nodes ↔
      node ∈ left.nodes ∨ node ∈ right.nodes ∨ node = .binary op left right := by
  simp

theorem forall_mem_nodes_binary {p : Expr → Prop} {op : Operator} {left right : Expr} :
    (∀ node ∈ (binary op left right).nodes, p node) ↔
      (∀ node ∈ left.nodes, p node) ∧ (∀ node ∈ right.nodes, p node) ∧
        p (.binary op left right) := by
  simp only [mem_nodes_binary, or_imp, forall_and, forall_eq]

theorem mem_nodes_self (e : Expr) : e ∈ e.nodes := by
  cases e <;> simp

theorem mem_names_iff {e : Expr} {name : String} : name ∈ e.names ↔ .var name ∈ e.nodes := by
  induction e with
  | const value => simp
  | var other => simp
  | binary op left right ihl ihr =>
    simp only [Expr.names, List.mem_append, ihl, ihr, mem_nodes_binary, reduceCtorEq, or_false]

theorem operands_mem_nodes {e left right : Expr} {op : Operator}
    (h : binary op left right ∈ e.nodes) : left ∈ e.nodes ∧ right ∈ e.nodes := by
  induction e with
  | const value => simp at h
  | var name => simp at h
  | binary other first second ihf ihs =>
    simp only [mem_nodes_binary] at h ⊢
    rcases h with hf | hs | he
    · exact ⟨.inl (ihf hf).1, .inl (ihf hf).2⟩
    · exact ⟨.inr (.inl (ihs hs).1), .inr (.inl (ihs hs).2)⟩
    · cases he
      exact ⟨.inl left.mem_nodes_self, .inr (.inl right.mem_nodes_self)⟩

/-- Of the nodes of an expression, operands before operations, the first with a property. -/
def FirstNode (p : Expr → Prop) (e node : Expr) : Prop :=
  ∃ before after, e.nodes = before ++ node :: after ∧ p node ∧ ∀ other ∈ before, ¬p other

/-- The first node with a property, and the nodes that come before it. -/
def FirstAfter (p : Expr → Prop) (e : Expr) (before : List Expr) (node : Expr) : Prop :=
  ∃ after, e.nodes = before ++ node :: after ∧ p node ∧ ∀ other ∈ before, ¬p other

namespace FirstAfter

variable {p : Expr → Prop} {op : Operator} {left right node : Expr} {before : List Expr}

theorem firstNode {e : Expr} (h : FirstAfter p e before node) : FirstNode p e node :=
  ⟨before, h⟩

theorem of_left (h : FirstAfter p left before node) :
    FirstAfter p (.binary op left right) before node := by
  obtain ⟨after, hnodes, hnode, hbefore⟩ := h
  refine ⟨after ++ right.nodes ++ [.binary op left right], ?_, hnode, hbefore⟩
  simp [hnodes]

theorem of_right (hleft : ∀ other ∈ left.nodes, ¬p other) (h : FirstAfter p right before node) :
    FirstAfter p (.binary op left right) (left.nodes ++ before) node := by
  obtain ⟨after, hnodes, hnode, hbefore⟩ := h
  refine ⟨after ++ [.binary op left right], ?_, hnode, ?_⟩
  · simp [hnodes]
  · exact List.forall_mem_append.mpr ⟨hleft, hbefore⟩

theorem of_self (hleft : ∀ other ∈ left.nodes, ¬p other)
    (hright : ∀ other ∈ right.nodes, ¬p other) (h : p (.binary op left right)) :
    FirstAfter p (.binary op left right) (left.nodes ++ right.nodes) (.binary op left right) :=
  ⟨[], rfl, h, List.forall_mem_append.mpr ⟨hleft, hright⟩⟩

end FirstAfter

namespace FirstNode

variable {p : Expr → Prop} {op : Operator} {left right node : Expr}

theorem of_left (h : FirstNode p left node) : FirstNode p (.binary op left right) node := by
  obtain ⟨before, hafter⟩ := h
  exact FirstAfter.firstNode (FirstAfter.of_left hafter)

theorem of_right (hleft : ∀ other ∈ left.nodes, ¬p other) (h : FirstNode p right node) :
    FirstNode p (.binary op left right) node := by
  obtain ⟨before, hafter⟩ := h
  exact FirstAfter.firstNode (FirstAfter.of_right hleft hafter)

theorem of_self (hleft : ∀ other ∈ left.nodes, ¬p other)
    (hright : ∀ other ∈ right.nodes, ¬p other) (h : p (.binary op left right)) :
    FirstNode p (.binary op left right) (.binary op left right) :=
  (FirstAfter.of_self hleft hright h).firstNode

theorem holds {e : Expr} (h : FirstNode p e node) : p node := by
  obtain ⟨_, _, _, hnode, _⟩ := h
  exact hnode

theorem mem {e : Expr} (h : FirstNode p e node) : node ∈ e.nodes := by
  obtain ⟨before, after, hnodes, _⟩ := h
  rw [hnodes]
  simp

theorem unique {e other : Expr} (h : FirstNode p e node) (h' : FirstNode p e other) :
    node = other := by
  classical
  have found : ∀ {n : Expr}, FirstNode p e n → e.nodes.find? (fun m => p m) = some n := by
    rintro n ⟨before, after, hnodes, hn, hbefore⟩
    rw [List.find?_eq_some_iff_append]
    exact ⟨by simpa using hn, before, after, hnodes, fun m hm => by simpa using hbefore m hm⟩
  have hfound := found h
  rw [found h'] at hfound
  exact (Option.some.inj hfound).symm

end FirstNode

end ArithTree.Expr
