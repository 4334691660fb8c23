import ArithTree.Proofs.Evaluation
import ArithTree.Proofs.Nodes
import Mathlib.Data.Int.ModEq

/-!
# Words against whole numbers

The exact value of an expression is the one over the whole numbers, where no result is out of
range and division rounds toward zero. Sums, differences and products of words are those of whole
numbers up to multiples of 2^64, however often they wrap around. A division is exact only on
operands that have not wrapped. So the value is the exact one up to multiples of 2^64 as long as
no division has an operand out of range, and it is the exact one if nothing is out of range.
-/

set_option autoImplicit false

namespace ArithTree

def Operator.exactResult? : Operator → Int → Int → Option Int
  | .add, a, b => some (a + b)
  | .subtract, a, b => some (a - b)
  | .multiply, a, b => some (a * b)
  | .divide, a, b => if b = 0 then none else some (a.tdiv b)

theorem Operator.exactResult?_of_ne_divide {op : Operator} (h : op ≠ .divide) (a b : Int) :
    ∃ n, op.exactResult? a b = some n := by
  cases op with
  | divide => exact absurd rfl h
  | _ => exact ⟨_, rfl⟩

/-- The value over the whole numbers; none if a variable has none or a divisor is zero. -/
def exactValue? (env : Environment) : Expr → Option Int
  | .const value => some value.toInt
  | .var name => (env.get? name).map Int64.toInt
  | .binary op left right => do
      let a ← exactValue? env left
      let b ← exactValue? env right
      op.exactResult? a b

def IsWord (n : Int) : Prop :=
  -2 ^ 63 ≤ n ∧ n < 2 ^ 63

instance (n : Int) : Decidable (IsWord n) :=
  inferInstanceAs (Decidable (_ ∧ _))

theorem isWord_iff {n : Int} :
    IsWord n ↔ Int64.minValue.toInt ≤ n ∧ n ≤ Int64.maxValue.toInt := by
  have hleast : Int64.minValue.toInt = -2 ^ 63 := rfl
  have hgreatest : Int64.maxValue.toInt = 2 ^ 63 - 1 := rfl
  rw [IsWord, hleast, hgreatest]
  omega

theorem toInt_ofInt_of_isWord {n : Int} (h : IsWord n) : (Int64.ofInt n).toInt = n :=
  Int64.toInt_ofInt_of_le h.1 h.2

theorem modEq_iff_eq_ofInt {word : Int64} {n : Int} :
    word.toInt ≡ n [ZMOD 2 ^ 64] ↔ word = Int64.ofInt n := by
  rw [eq_comm (a := word), Int64.ofInt_eq_iff_bmod_eq_toInt]
  constructor
  · intro h
    have hbmod : word.toInt.bmod (2 ^ 64) = n.bmod (2 ^ 64) := by
      rw [← Int.emod_bmod, ← Int.emod_bmod n]
      exact congrArg (Int.bmod · (2 ^ 64)) h
    rw [← hbmod]
    exact (Int64.ofInt_eq_iff_bmod_eq_toInt _ _).mp (Int64.ofInt_toInt word)
  · intro h
    rw [← h]
    exact Int.bmod_emod

theorem Operator.compute_ofInt {op : Operator} {a b n : Int} (h : op.exactResult? a b = some n)
    (hwords : op = .divide → IsWord a ∧ IsWord b) :
    op.compute (Int64.ofInt a) (Int64.ofInt b) = some (Int64.ofInt n) := by
  cases op with
  | add => cases h; rw [compute, Int64.ofInt_add]
  | subtract => cases h; rw [compute, Int64.ofInt_sub]
  | multiply => cases h; rw [compute, Int64.ofInt_mul]
  | divide =>
    obtain ⟨ha, hb⟩ := hwords rfl
    rw [exactResult?] at h
    split at h
    · cases h
    · rename_i hzero
      cases h
      have hdivisor : Int64.ofInt b ≠ 0 := by
        intro h0
        have hvalue := toInt_ofInt_of_isWord hb
        rw [h0] at hvalue
        exact hzero hvalue.symm
      rw [compute, if_neg hdivisor]
      have ha' := isWord_iff.mp ha
      have hb' := isWord_iff.mp hb
      rw [Int64.ofInt_tdiv ha'.1 ha'.2 hb'.1 hb'.2]

theorem exactValue?_binary {env : Environment} {op : Operator} {left right : Expr} {n : Int} :
    exactValue? env (.binary op left right) = some n ↔
      ∃ a b, exactValue? env left = some a ∧ exactValue? env right = some b ∧
        op.exactResult? a b = some n := by
  simp only [exactValue?, Option.bind_eq_bind, Option.bind_eq_some_iff]
  constructor
  · rintro ⟨a, ha, b, hb, hn⟩
    exact ⟨a, b, ha, hb, hn⟩
  · rintro ⟨a, b, ha, hb, hn⟩
    exact ⟨a, ha, b, hb, hn⟩

/-- No operand of a division has a value that is out of range. -/
def DividesWords (env : Environment) (e : Expr) : Prop :=
  ∀ left right, .binary .divide left right ∈ e.nodes →
    ∀ a b, exactValue? env left = some a → exactValue? env right = some b → IsWord a ∧ IsWord b

/-- As long as divisions are on words, the value is the word that the exact value comes to. -/
theorem evaluate_of_exactValue? {env : Environment} {e : Expr} {n : Int}
    (h : exactValue? env e = some n) (hwords : DividesWords env e) :
    evaluate env e = .ok (Int64.ofInt n) := by
  induction e generalizing n with
  | const value =>
    cases h
    rw [evaluate, Int64.ofInt_toInt]
  | var name =>
    obtain ⟨value, hget, rfl⟩ := Option.map_eq_some_iff.mp h
    simp only [evaluate, hget, Int64.ofInt_toInt]
  | binary op left right ihl ihr =>
    obtain ⟨a, b, ha, hb, hn⟩ := exactValue?_binary.mp h
    have hleft := ihl ha fun l r hmem => hwords l r (Expr.mem_nodes_binary.mpr (.inl hmem))
    have hright := ihr hb fun l r hmem => hwords l r (Expr.mem_nodes_binary.mpr (.inr (.inl hmem)))
    have hdivide : op = .divide → IsWord a ∧ IsWord b := by
      rintro rfl
      exact hwords left right (Expr.mem_nodes_self _) a b ha hb
    simp [hleft, hright, Operator.compute_ofInt hn hdivide]

theorem exists_exactValue? {env : Environment} {e : Expr}
    (hnodes : ∀ left right, .binary .divide left right ∉ e.nodes)
    (hnames : ∀ name ∈ e.names, ∃ value, env.get? name = some value) :
    ∃ n, exactValue? env e = some n := by
  induction e with
  | const value => exact ⟨value.toInt, rfl⟩
  | var name =>
    obtain ⟨value, hget⟩ := hnames name (List.mem_singleton.mpr rfl)
    exact ⟨value.toInt, by rw [exactValue?, hget]; rfl⟩
  | binary op left right ihl ihr =>
    obtain ⟨a, ha⟩ := ihl (fun l r hmem => hnodes l r (Expr.mem_nodes_binary.mpr (.inl hmem)))
      fun name hname => hnames name (List.mem_append_left _ hname)
    obtain ⟨b, hb⟩ := ihr
      (fun l r hmem => hnodes l r (Expr.mem_nodes_binary.mpr (.inr (.inl hmem))))
      fun name hname => hnames name (List.mem_append_right _ hname)
    have hop : op ≠ .divide := by
      rintro rfl
      exact hnodes left right (Expr.mem_nodes_self _)
    obtain ⟨n, hn⟩ := Operator.exactResult?_of_ne_divide hop a b
    exact ⟨n, exactValue?_binary.mpr ⟨a, b, ha, hb, hn⟩⟩

theorem dividesWords_of_isWord {env : Environment} {e : Expr}
    (h : ∀ part ∈ e.nodes, ∀ m, exactValue? env part = some m → IsWord m) :
    DividesWords env e := by
  intro left right hmem a b ha hb
  obtain ⟨hleft, hright⟩ := Expr.operands_mem_nodes hmem
  exact ⟨h left hleft a ha, h right hright b hb⟩

theorem evaluate_exact {env : Environment} {e : Expr} {n : Int}
    (h : exactValue? env e = some n)
    (hwords : ∀ part ∈ e.nodes, ∀ m, exactValue? env part = some m → IsWord m) :
    ∃ value, evaluate env e = .ok value ∧ value.toInt = n := by
  refine ⟨Int64.ofInt n, evaluate_of_exactValue? h (dividesWords_of_isWord hwords), ?_⟩
  exact toInt_ofInt_of_isWord (hwords e e.mem_nodes_self n h)

/-- Without divisions the value is the one word that is the exact value up to multiples of 2^64,
and with all parts in range it is the exact value. So it is off only if some part is out of range,
as the least word divided by minus one is. -/
theorem evaluation_against_exact (env : Environment) (e : Expr) :
    ((∀ left right, .binary .divide left right ∉ e.nodes) →
      (∀ name ∈ e.names, ∃ value, env.get? name = some value) →
      ∃ n value, exactValue? env e = some n ∧ evaluate env e = .ok value ∧
        ∀ word : Int64, word.toInt ≡ n [ZMOD 2 ^ 64] ↔ word = value) ∧
    (∀ n, exactValue? env e = some n →
      (∀ part ∈ e.nodes, ∀ m, exactValue? env part = some m → IsWord m) →
      ∃ value, evaluate env e = .ok value ∧ value.toInt = n) ∧
    (∀ n, exactValue? env e = some n →
      (¬∃ value, evaluate env e = .ok value ∧ value.toInt = n) →
      ∃ part ∈ e.nodes, ∃ m, exactValue? env part = some m ∧ ¬IsWord m) ∧
    (∀ left right, evaluate env left = .ok Int64.minValue → evaluate env right = .ok (-1) →
      evaluate env (.binary .divide left right) = .ok Int64.minValue) ∧
    exactValue? env (.binary .divide (.const Int64.minValue) (.const (-1))) = some (2 ^ 63) ∧
    ¬IsWord (2 ^ 63) := by
  refine ⟨?_, fun _ => evaluate_exact, ?_, ?_, rfl, by decide⟩
  · intro hnodes hnames
    obtain ⟨n, hn⟩ := exists_exactValue? hnodes hnames
    have hwords : DividesWords env e := fun left right hmem => absurd hmem (hnodes left right)
    exact ⟨n, Int64.ofInt n, hn, evaluate_of_exactValue? hn hwords, fun _ => modEq_iff_eq_ofInt⟩
  · intro n hn hoff
    by_contra hall
    refine hoff (evaluate_exact hn fun part hpart m hm => ?_)
    by_contra hrange
    exact hall ⟨part, hpart, m, hm, hrange⟩
  · intro left right hleft hright
    simp [hleft, hright, Operator.compute]

/-- With `x` the greatest word, `((x * x) * x)` wraps around twice and comes to `x` again; in
`((0 - 7) / 2)` all parts are in range; the least word divided by minus one stays as it is. -/
theorem evaluation_against_exact_greatest :
    let env := Environment.ofList [("x", Int64.maxValue)]
    let cube := Expr.binary .multiply (.binary .multiply (.var "x") (.var "x")) (.var "x")
    let half := Expr.binary .divide (.binary .subtract (.const 0) (.const 7)) (.const 2)
    let least := Expr.binary .divide (.const Int64.minValue) (.const (-1))
    (exactValue? env cube = some ((2 ^ 63 - 1) ^ 3) ∧ evaluate env cube = .ok Int64.maxValue ∧
      Int64.maxValue.toInt ≡ (2 ^ 63 - 1) ^ 3 [ZMOD 2 ^ 64]) ∧
    (∃ value, evaluate env half = .ok value ∧ value.toInt = -3) ∧
    evaluate env least = .ok Int64.minValue ∧
    ∃ part ∈ least.nodes, ∃ m, exactValue? env part = some m ∧ ¬IsWord m := by
  intro env cube half least
  have hexact : exactValue? env cube = some ((2 ^ 63 - 1) ^ 3) := rfl
  have hcube : evaluate env cube = .ok Int64.maxValue := rfl
  have hleast : evaluate env least = .ok Int64.minValue :=
    (evaluation_against_exact env least).2.2.2.1 _ _ rfl rfl
  refine ⟨⟨hexact, hcube, ?_⟩, ?_, hleast, ?_⟩
  · have hnodes : ∀ left right, .binary .divide left right ∉ cube.nodes := by
      simp [cube]
    have hnames : ∀ name ∈ cube.names, ∃ value, env.get? name = some value := by
      intro name hname
      have hx : name = "x" := by simpa [cube, Expr.names] using hname
      rw [hx]
      exact ⟨_, rfl⟩
    obtain ⟨n, value, hn, hvalue, honly⟩ := (evaluation_against_exact env cube).1 hnodes hnames
    rw [hexact] at hn
    rw [hcube] at hvalue
    cases hn
    cases hvalue
    exact (honly Int64.maxValue).mpr rfl
  · exact (evaluation_against_exact env half).2.1 (-3) rfl (by decide)
  · refine (evaluation_against_exact env least).2.2.1 (2 ^ 63) rfl ?_
    rintro ⟨value, hvalue, hexact⟩
    rw [hleast] at hvalue
    cases hvalue
    exact absurd hexact (by decide)

end ArithTree
