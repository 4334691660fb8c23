import ArithTree.Expr
import ArithTree.Proofs.Quoting

/-!
# Expressions from their text

An outline belongs to one expression, whatever the names in it are and whichever characters are
hidden. A formula shows the names as they are; it belongs to one expression as long as no name has
a space or a parenthesis in it or is a written word.

In both forms the text of an operand shows where it ends. For an outline this holds whatever comes
after it. The formula of a leaf has no end of its own, and ends at the space or at the closing
parenthesis that an operation puts after its operands.
-/

set_option autoImplicit false

namespace ArithTree

section Outline

variable {hidden : Char → Bool} {s t : List Char}

theorem outline_const (value : Int64) (s : List Char) :
    ((Expr.const value).outlineWith hidden).toList ++ s =
      "Const(".toList ++ (Number.writeInt value.toInt ++ ')' :: s) := by
  simp [Expr.outlineWith]

theorem outline_var (name : String) (s : List Char) :
    ((Expr.var name).outlineWith hidden).toList ++ s =
      "Var(".toList ++ ((Text.quoteWith hidden name).toList ++ ')' :: s) := by
  simp [Expr.outlineWith]

theorem outline_binary (op : Operator) (left right : Expr) (s : List Char) :
    ((Expr.binary op left right).outlineWith hidden).toList ++ s =
      op.tag.toList ++ '(' :: ((left.outlineWith hidden).toList ++
        ',' :: ' ' :: ((right.outlineWith hidden).toList ++ ')' :: s)) := by
  simp [Expr.outlineWith]

theorem Operator.tag_append_inj {op op' : Operator}
    (h : op.tag.toList ++ s = op'.tag.toList ++ t) : op = op' ∧ s = t := by
  cases op <;> cases op' <;> simp [Operator.tag] at h <;> exact ⟨rfl, h⟩

theorem Operator.tag_ne_leaf (op : Operator) :
    op.tag.toList ++ s ≠ "Const(".toList ++ t ∧ op.tag.toList ++ s ≠ "Var(".toList ++ t := by
  cases op <;> simp [Operator.tag]

theorem writeInt_append_inj {z w : Int}
    (h : Number.writeInt z ++ ')' :: s = Number.writeInt w ++ ')' :: t) : z = w ∧ s = t := by
  have hrun : ∀ n, ∀ c ∈ Number.writeInt n, (c != ')') = true := by
    intro n c hc
    rw [bne_iff_ne]
    rintro rfl
    exact absurd (Number.mem_writeInt hc) (by decide)
  have hstops : ∀ rest, Text.Stops (· != ')') (')' :: rest) := Text.stops_cons rfl
  obtain ⟨hdigits, hrest⟩ := Text.run_append_inj (hrun z) (hstops s) (hrun w) (hstops t) h
  exact ⟨Number.writeInt_injective hdigits, List.tail_eq_of_cons_eq hrest⟩

theorem outline_append_inj {a b : Expr}
    (h : (a.outlineWith hidden).toList ++ s = (b.outlineWith hidden).toList ++ t) :
    a = b ∧ s = t := by
  induction a generalizing b s t with
  | const value =>
    rw [outline_const] at h
    cases b with
    | const other =>
      rw [outline_const] at h
      obtain ⟨hvalue, hrest⟩ := writeInt_append_inj (List.append_cancel_left h)
      exact ⟨congrArg Expr.const (Int64.toInt_inj.mp hvalue), hrest⟩
    | var name =>
      rw [outline_var] at h
      simp at h
    | binary op left right =>
      rw [outline_binary] at h
      exact absurd h.symm op.tag_ne_leaf.1
  | var name =>
    rw [outline_var] at h
    cases b with
    | const value =>
      rw [outline_const] at h
      simp at h
    | var other =>
      rw [outline_var] at h
      obtain ⟨hname, hrest⟩ := Text.quoteWith_append_inj (List.append_cancel_left h)
      exact ⟨congrArg Expr.var hname, List.tail_eq_of_cons_eq hrest⟩
    | binary op left right =>
      rw [outline_binary] at h
      exact absurd h.symm op.tag_ne_leaf.2
  | binary op left right ihl ihr =>
    rw [outline_binary] at h
    cases b with
    | const value =>
      rw [outline_const] at h
      exact absurd h op.tag_ne_leaf.1
    | var name =>
      rw [outline_var] at h
      exact absurd h op.tag_ne_leaf.2
    | binary op' left' right' =>
      rw [outline_binary] at h
      obtain ⟨rfl, hoperands⟩ := Operator.tag_append_inj h
      obtain ⟨rfl, hcomma⟩ := ihl (List.tail_eq_of_cons_eq hoperands)
      have hspace := List.tail_eq_of_cons_eq hcomma
      obtain ⟨rfl, hend⟩ := ihr (List.tail_eq_of_cons_eq hspace)
      exact ⟨rfl, List.tail_eq_of_cons_eq hend⟩

end Outline

/-- Two expressions with the same outline are the same, and so they are whatever set of characters
the outlines hide. -/
theorem outline_identifies_expression (a b : Expr) :
    (a.outline = b.outline ↔ a = b) ∧
      ∀ hidden, a.outlineWith hidden = b.outlineWith hidden ↔ a = b := by
  have hsame : ∀ hidden, a.outlineWith hidden = b.outlineWith hidden ↔ a = b := by
    intro hidden
    constructor
    · intro h
      exact (outline_append_inj (s := []) (t := []) (by rw [h])).1
    · exact congrArg _
  exact ⟨hsame Text.isHidden, hsame⟩

example :
    (Expr.var "Add(Const(1), Var(\"x\"))\n").outline =
      "Var(\"Add(Const(1), Var(\\\"x\\\"))\\n\")" := by
  decide +kernel

section Formula

/-- A name that can be told from the rest of a formula. -/
structure PlainName (name : String) : Prop where
  space : ' ' ∉ name.toList
  opening : '(' ∉ name.toList
  closing : ')' ∉ name.toList
  word : ∀ value, name ≠ Number.writeWord value

theorem PlainName.of_symbols {name : String}
    (h : ∀ c ∈ name.toList, c ∈ ['+', '-', '*', '/']) : PlainName name where
  space hc := absurd (h _ hc) (by decide)
  opening hc := absurd (h _ hc) (by decide)
  closing hc := absurd (h _ hc) (by decide)
  word value hname := by
    obtain ⟨c, hc, hdigit⟩ := Number.exists_isDigit_mem_writeInt value.toInt
    rw [← Number.toList_writeWord, ← hname] at hc
    have hsymbols : ∀ c ∈ ['+', '-', '*', '/'], Number.isDigit c = false := by
      simp [Number.isDigit]
    simp [hsymbols c (h c hc)] at hdigit

def inOperand (c : Char) : Bool :=
  c != ' ' && c != ')'

structure LeafText (cs : List Char) : Prop where
  inside : ∀ c ∈ cs, inOperand c = true
  opening : '(' ∉ cs

variable {s t : List Char}

theorem inOperand_of_ne {c : Char} (hspace : c ≠ ' ') (hclosing : c ≠ ')') :
    inOperand c = true := by
  simp [inOperand, hspace, hclosing]

theorem PlainName.leafText {name : String} (h : PlainName name) : LeafText name.toList where
  inside _ hc := inOperand_of_ne (fun he => h.space (he ▸ hc)) fun he => h.closing (he ▸ hc)
  opening := h.opening

theorem leafText_writeWord (value : Int64) : LeafText (Number.writeWord value).toList := by
  have hother : ∀ c, ¬(c = '-' ∨ Number.isDigit c = true) →
      c ∉ (Number.writeWord value).toList := by
    intro c hne hc
    rw [Number.toList_writeWord] at hc
    exact hne (Number.mem_writeInt hc)
  have hspace := hother ' ' (by decide)
  have hclosing := hother ')' (by decide)
  exact ⟨fun _ hc => inOperand_of_ne (fun he => hspace (he ▸ hc)) fun he => hclosing (he ▸ hc),
    hother '(' (by decide)⟩

theorem leafText_formula {e : Expr} (hleaf : e.operands? = none)
    (h : ∀ name ∈ e.names, PlainName name) : LeafText e.formula.toList := by
  cases e with
  | const value => exact leafText_writeWord value
  | var name => exact (h name List.mem_cons_self).leafText
  | binary op left right => cases hleaf

theorem leaf_formula_inj {a b : Expr} (hleaf : a.operands? = none) (hleaf' : b.operands? = none)
    (ha : ∀ name ∈ a.names, PlainName name) (hb : ∀ name ∈ b.names, PlainName name)
    (h : a.formula = b.formula) : a = b := by
  cases a with
  | const value =>
    cases b with
    | const other => exact congrArg Expr.const (Number.writeWord_injective h)
    | var name => exact absurd h.symm ((hb name List.mem_cons_self).word value)
    | binary op left right => cases hleaf'
  | var name =>
    cases b with
    | const value => exact absurd h ((ha name List.mem_cons_self).word value)
    | var other => exact congrArg Expr.var h
    | binary op left right => cases hleaf'
  | binary op left right => cases hleaf

theorem LeafText.ne_operation {cs : List Char} (h : LeafText cs) (hs : Text.Stops inOperand s) :
    cs ++ s ≠ '(' :: t := by
  intro he
  have htaken := Text.takeWhile_run h.inside hs
  have hopening : inOperand '(' = true := rfl
  rw [he, List.takeWhile_cons_of_pos hopening] at htaken
  exact h.opening (htaken ▸ List.mem_cons_self)

theorem formula_binary (op : Operator) (left right : Expr) (s : List Char) :
    (Expr.binary op left right).formula.toList ++ s =
      '(' :: (left.formula.toList ++ ' ' :: (op.symbol.toList ++
        ' ' :: (right.formula.toList ++ ')' :: s))) := by
  simp [Expr.formula]

theorem Operator.symbol_append_inj {op op' : Operator}
    (h : op.symbol.toList ++ s = op'.symbol.toList ++ t) : op = op' ∧ s = t := by
  cases op <;> cases op' <;> simp [Operator.symbol] at h <;> exact ⟨rfl, h⟩

theorem leaf_append_inj {a b : Expr} (hleaf : a.operands? = none)
    (ha : ∀ name ∈ a.names, PlainName name) (hb : ∀ name ∈ b.names, PlainName name)
    (hs : Text.Stops inOperand s) (ht : Text.Stops inOperand t)
    (h : a.formula.toList ++ s = b.formula.toList ++ t) : a = b ∧ s = t := by
  have htext := leafText_formula hleaf ha
  have hother : b.operands? = none → a = b ∧ s = t := by
    intro hleaf'
    have htext' := leafText_formula hleaf' hb
    obtain ⟨hsame, hrest⟩ := Text.run_append_inj htext.inside hs htext'.inside ht h
    exact ⟨leaf_formula_inj hleaf hleaf' ha hb (String.toList_inj.mp hsame), hrest⟩
  cases b with
  | const value => exact hother rfl
  | var name => exact hother rfl
  | binary op left right =>
    rw [formula_binary] at h
    exact absurd h (htext.ne_operation hs)

/-- What follows an operand ends it, so the formulas are read from left to right. -/
theorem formula_append_inj {a b : Expr} (ha : ∀ name ∈ a.names, PlainName name)
    (hb : ∀ name ∈ b.names, PlainName name) (hs : Text.Stops inOperand s)
    (ht : Text.Stops inOperand t) (h : a.formula.toList ++ s = b.formula.toList ++ t) :
    a = b ∧ s = t := by
  induction a generalizing b s t with
  | const value => exact leaf_append_inj rfl ha hb hs ht h
  | var name => exact leaf_append_inj rfl ha hb hs ht h
  | binary op left right ihl ihr =>
    rw [formula_binary] at h
    cases b with
    | const value => exact absurd h.symm ((leafText_formula rfl hb).ne_operation ht)
    | var name => exact absurd h.symm ((leafText_formula rfl hb).ne_operation ht)
    | binary op' left' right' =>
      rw [formula_binary] at h
      simp only [Expr.names, List.forall_mem_append] at ha hb
      have hspace : ∀ rest, Text.Stops inOperand (' ' :: rest) := Text.stops_cons rfl
      have hclosing : ∀ rest, Text.Stops inOperand (')' :: rest) := Text.stops_cons rfl
      -- A space ends the left operand, and the closing parenthesis ends the right one.
      obtain ⟨rfl, hsymbol⟩ :=
        ihl ha.1 hb.1 (hspace _) (hspace _) (List.tail_eq_of_cons_eq h)
      obtain ⟨rfl, hright⟩ := Operator.symbol_append_inj (List.tail_eq_of_cons_eq hsymbol)
      obtain ⟨rfl, hend⟩ :=
        ihr ha.2 hb.2 (hclosing _) (hclosing _) (List.tail_eq_of_cons_eq hright)
      exact ⟨rfl, List.tail_eq_of_cons_eq hend⟩

end Formula

/-- Where all names are plain, two expressions with the same formula are the same. -/
theorem formula_identifies_expression {a b : Expr} (ha : ∀ name ∈ a.names, PlainName name)
    (hb : ∀ name ∈ b.names, PlainName name) : a.formula = b.formula ↔ a = b := by
  constructor
  · intro h
    have hend : Text.Stops inOperand [] := by simp [Text.Stops]
    exact (formula_append_inj ha hb hend hend (by rw [h])).1
  · exact congrArg Expr.formula

theorem formula_identifies_expression_signs :
    let inner := Expr.binary .subtract (.const (-1)) (.var "*")
    let a := Expr.binary .subtract (.var "-") inner
    let b := Expr.binary .subtract (.binary .subtract (.var "-") (.const (-1))) (.var "*")
    (∀ name ∈ a.names, PlainName name) ∧ (∀ name ∈ b.names, PlainName name) ∧
      a.formula ≠ b.formula := by
  intro inner a b
  have hnames : ∀ name ∈ ["-", "*"], PlainName name := by
    intro name hname
    have hsymbols : ∀ name ∈ ["-", "*"], ∀ c ∈ name.toList, c ∈ ['+', '-', '*', '/'] := by
      simp
    exact .of_symbols (hsymbols name hname)
  have ha : ∀ name ∈ a.names, PlainName name := hnames
  have hb : ∀ name ∈ b.names, PlainName name := hnames
  have hne : a ≠ b := by decide
  exact ⟨ha, hb, fun h => hne ((formula_identifies_expression ha hb).mp h)⟩

/-- A name with spaces in it can be taken for an operation. -/
example :
    (Expr.binary .add (.var "x + y") (.var "z")).formula =
      (Expr.binary .add (.var "x") (.var "y + z")).formula := by
  decide +kernel

end ArithTree
