import ArithTree.Json.Tree
import ArithTree.Proofs.Json.Token
import ArithTree.Proofs.Measures

/-!
# Written trees read back

A tree of height 64 or less is read back from what is written for it. A taller one is refused
for its height and for nothing else: whatever is read before the first path that is too long is
read to its end.
-/

set_option autoImplicit false

namespace ArithTree.Json

theorem skipSpace_cons {c : Char} (h : isSpace c = false) (s : List Char) :
    skipSpace (c :: s) = c :: s :=
  Text.dropWhile_of_stops (Text.stops_cons h s)

theorem isSpace_of_isDigit {c : Char} (h : Number.isDigit c = true) : isSpace c = false := by
  cases hspace : isSpace c with
  | false => rfl
  | true =>
    simp only [isSpace, Bool.or_eq_true, decide_eq_true_eq] at hspace
    rcases hspace with ((rfl | rfl) | rfl) | rfl <;> exact absurd h (by decide)

theorem tag_written (tag : Tag) : tag.name.toList.flatMap escapeChar = tag.name.toList := by
  rcases tag with _ | _ | op
  · decide
  · decide
  · cases op <;> decide

@[simp]
theorem Tag.ofName?_name (tag : Tag) : Tag.ofName? tag.name = some tag := by
  rcases tag with _ | _ | op
  · rfl
  · rfl
  · cases op <;> rfl

theorem readTag_written (tag : Tag) (rest : List Char) :
    readTag (tag.name.toList ++ '"' :: rest) = .ok (tag, rest) := by
  have hread := readString_written tag.name.toList rest
  rw [tag_written] at hread
  simp [readTag, hread, String.ofList_toList]

def memberText (tag : Tag) (s : List Char) : List Char :=
  '"' :: (tag.name.toList ++ '"' :: ':' :: s)

theorem readMember_ok {list : Operator → Reader Expr} {tag : Tag} {s rest : List Char} {e : Expr}
    (h : readContent list tag s = .ok (e, '\x7d' :: rest)) :
    readMember list (memberText tag s) = .ok (e, rest) := by
  have hquote : skipSpace (memberText tag s) = memberText tag s := skipSpace_cons rfl _
  have hcolon : skipSpace (':' :: s) = ':' :: s := skipSpace_cons rfl _
  have hbrace : skipSpace ('\x7d' :: rest) = '\x7d' :: rest := skipSpace_cons rfl _
  rw [readMember, hquote]
  simp [memberText, readTag_written, hcolon, h, hbrace]

theorem readMember_error {list : Operator → Reader Expr} {tag : Tag} {s : List Char} {f : Failure}
    (h : readContent list tag s = .error f) :
    readMember list (memberText tag s) = .error f := by
  have hquote : skipSpace (memberText tag s) = memberText tag s := skipSpace_cons rfl _
  have hcolon : skipSpace (':' :: s) = ':' :: s := skipSpace_cons rfl _
  rw [readMember, hquote]
  simp [memberText, readTag_written, hcolon, h]

theorem toJson_const (value : Int64) (rest : List Char) :
    (Expr.const value).toJson.toList ++ rest =
      '\x7b' :: memberText .const (Number.writeInt value.toInt ++ '\x7d' :: rest) := by
  simp [Expr.toJson, Number.writeWord, memberText, Tag.name]

theorem toJson_var (name : String) (rest : List Char) :
    (Expr.var name).toJson.toList ++ rest =
      '\x7b' :: memberText .var
        ('"' :: (name.toList.flatMap escapeChar ++ '"' :: '\x7d' :: rest)) := by
  simp [Expr.toJson, writeString, memberText, Tag.name]

theorem toJson_binary (op : Operator) (left right : Expr) (rest : List Char) :
    (Expr.binary op left right).toJson.toList ++ rest =
      '\x7b' :: memberText (.operation op) ('[' :: (left.toJson.toList ++
        ',' :: (right.toJson.toList ++ ']' :: '\x7d' :: rest))) := by
  simp [Expr.toJson, memberText, Tag.name]

theorem toJson_head (e : Expr) : ∃ s, e.toJson.toList = '\x7b' :: s := by
  cases e with
  | const value => exact ⟨_, by rw [← List.append_nil (Expr.toJson _).toList, toJson_const]⟩
  | var name => exact ⟨_, by rw [← List.append_nil (Expr.toJson _).toList, toJson_var]⟩
  | binary op left right =>
    exact ⟨_, by rw [← List.append_nil (Expr.toJson _).toList, toJson_binary]⟩

theorem readFound_number {c : Char} (h : c = '-' ∨ Number.isDigit c = true) (s : List Char) :
    readFound (c :: s) = readNumber (c :: s) := by
  unfold readFound
  split
  · contradiction
  all_goals
    rename_i heq
    cases heq
  iterate 6 exact absurd h (by decide)
  rw [if_pos h]

theorem readConstant_written (value : Int64) (rest : List Char) :
    readConstant (Number.writeInt value.toInt ++ '\x7d' :: rest) =
      .ok (.const value, '\x7d' :: rest) := by
  have hends : EndsNumber ('\x7d' :: rest) := Text.stops_cons rfl rest
  have hread := readNumber_written (Number.fits_toInt value) hends
  obtain ⟨c, cs, hw, hc⟩ := Number.writeInt_head value.toInt
  rw [hw, List.cons_append] at hread ⊢
  simp [readConstant, readFound_number hc, hread]

theorem readVariable_written (name : String) (rest : List Char) :
    readVariable ('"' :: (name.toList.flatMap escapeChar ++ '"' :: rest)) =
      .ok (.var name, rest) := by
  simp [readVariable, readFound, String.ofList_toList]

theorem readContent_const (list : Operator → Reader Expr) (value : Int64) (rest : List Char) :
    readContent list .const (Number.writeInt value.toInt ++ '\x7d' :: rest) =
      .ok (.const value, '\x7d' :: rest) := by
  have hskip : skipSpace (Number.writeInt value.toInt ++ '\x7d' :: rest) =
      Number.writeInt value.toInt ++ '\x7d' :: rest := by
    obtain ⟨c, cs, hw, hc⟩ := Number.writeInt_head value.toInt
    rw [hw]
    apply skipSpace_cons
    rcases hc with rfl | hdigit
    · rfl
    · exact isSpace_of_isDigit hdigit
  rw [readContent, hskip]
  exact readConstant_written value rest

theorem readContent_var (list : Operator → Reader Expr) (name : String) (rest : List Char) :
    readContent list .var ('"' :: (name.toList.flatMap escapeChar ++ '"' :: rest)) =
      .ok (.var name, rest) := by
  rw [readContent, skipSpace_cons rfl]
  exact readVariable_written name rest

theorem readContent_operation (list : Operator → Reader Expr) (op : Operator) (s : List Char) :
    readContent list (.operation op) ('[' :: s) = list op ('[' :: s) := rfl

theorem readOperands_toJson (op : Operator) (operand : Reader Expr) (e : Expr) (s : List Char) :
    readOperands op operand (e.toJson.toList ++ s) =
      placeInList (do
        let (left, s) ← operand (e.toJson.toList ++ s)
        let (right, s) ← readSecond op operand s
        let s ← readListEnd s
        .ok (.binary op left right, s)) := by
  obtain ⟨t, ht⟩ := toJson_head e
  rw [ht]
  rfl

theorem readSecond_toJson (op : Operator) (operand : Reader Expr) (e : Expr) (s : List Char) :
    readSecond op operand (',' :: (e.toJson.toList ++ s)) = operand (e.toJson.toList ++ s) := by
  obtain ⟨t, ht⟩ := toJson_head e
  rw [ht]
  rfl

theorem readListEnd_bracket (s : List Char) : readListEnd (']' :: s) = .ok s := rfl

/-- The reader of operand lists when operations may be nested to a given height. -/
def operandLists : (height : Nat) → Operator → Reader Expr
  | 0 => fun _ => failNext .tooDeep
  | height + 1 => fun op => opened (readOperands op (readLevels (2 * height + 1)))

theorem readLevels_brace (height : Nat) (s : List Char) :
    readLevels (2 * height + 1) ('\x7b' :: s) = readMember (operandLists height) s := by
  cases height <;> rfl

theorem operandLists_bracket (height : Nat) (op : Operator) (s : List Char) :
    operandLists (height + 1) op ('[' :: s) = readOperands op (readLevels (2 * height + 1)) s := rfl

theorem readLevels_written {e : Expr} {height : Nat} (h : e.height ≤ height + 1)
    (rest : List Char) :
    readLevels (2 * height + 1) (e.toJson.toList ++ rest) = .ok (e, rest) := by
  induction e generalizing height rest with
  | const value =>
    rw [toJson_const, readLevels_brace]
    exact readMember_ok (readContent_const _ value rest)
  | var name =>
    rw [toJson_var, readLevels_brace]
    exact readMember_ok (readContent_var _ name _)
  | binary op left right ihl ihr =>
    have hlpos := left.height_pos
    rw [Expr.height] at h
    obtain ⟨below, rfl⟩ : ∃ below, height = below + 1 := ⟨height - 1, by omega⟩
    have hl : left.height ≤ below + 1 := by omega
    have hr : right.height ≤ below + 1 := by omega
    rw [toJson_binary, readLevels_brace]
    apply readMember_ok
    rw [readContent_operation, operandLists_bracket, readOperands_toJson, ihl hl]
    simp [readSecond_toJson, ihr hr, readListEnd_bracket]
    rfl

/-- The first path that is too long ends the reading, whatever stands beside it. -/
theorem readLevels_tooDeep {e : Expr} {height : Nat} (h : height + 1 < e.height)
    (rest : List Char) :
    ∃ s, readLevels (2 * height + 1) (e.toJson.toList ++ rest) = failNext .tooDeep s := by
  induction e generalizing height rest with
  | const value => simp at h
  | var name => simp at h
  | binary op left right ihl ihr =>
    rw [Expr.height] at h
    rw [toJson_binary, readLevels_brace]
    cases height with
    | zero => exact ⟨_, readMember_error rfl⟩
    | succ below =>
      by_cases hl : left.height ≤ below + 1
      · have hr : below + 1 < right.height := by omega
        obtain ⟨s, hs⟩ := ihr hr (']' :: '\x7d' :: rest)
        refine ⟨s, readMember_error ?_⟩
        rw [readContent_operation, operandLists_bracket, readOperands_toJson,
          readLevels_written hl]
        simp [readSecond_toJson, hs]
        rfl
      · have hl' : below + 1 < left.height := by omega
        obtain ⟨s, hs⟩ := ihl hl' (',' :: (right.toJson.toList ++ ']' :: '\x7d' :: rest))
        refine ⟨s, readMember_error ?_⟩
        rw [readContent_operation, operandLists_bracket, readOperands_toJson, hs]
        rfl

theorem maxNesting_eq : maxNesting = 2 * 63 + 1 := rfl

theorem readTree_written {e : Expr} (h : e.height ≤ 63 + 1) : readTree e.toJson.toList = .ok e := by
  have hread := readLevels_written h []
  rw [List.append_nil, ← maxNesting_eq] at hread
  simp [readTree, hread]
  rfl

theorem readTree_tooDeep {e : Expr} (h : 63 + 1 < e.height) :
    ∃ s, readTree e.toJson.toList = failNext .tooDeep s := by
  obtain ⟨s, hs⟩ := readLevels_tooDeep h []
  rw [List.append_nil, ← maxNesting_eq] at hs
  exact ⟨s, by simp [readTree, hs, failNext]⟩

theorem heightSuggestion_eq : heightSuggestion = "Trees can be at most 64 levels deep" := by
  decide +kernel

theorem text_tooDeep : Cause.tooDeep.text = "recursion limit exceeded" := rfl

theorem describe_fixed (cause : Cause) (whole s : List Char) (ahead : Nat) :
    ∃ place, (Failure.mk cause (.fixed s ahead)).describe whole = cause.text ++ place := by
  simp only [Failure.describe, String.append_assoc]
  exact ⟨_, rfl⟩

end ArithTree.Json

namespace ArithTree

theorem Expr.ofJson_written {e : Expr} (h : e.height ≤ 63 + 1) : Expr.ofJson e.toJson = .ok e := by
  rw [Expr.ofJson, Json.readTree_written h]
  rfl

/-- What is written for a tree is read back as that tree, or refused for its height alone. -/
theorem Expr.ofJson_toJson (e : Expr) :
    (e.depth ≤ 64 → Expr.ofJson e.toJson = .ok e) ∧
    (64 < e.depth → ∃ report place, Expr.ofJson e.toJson = .error report ∧
      report.kind = .file ∧
      report.message = "Invalid expression tree: recursion limit exceeded" ++ place ∧
      report.detail? .suggestion = some "Trees can be at most 64 levels deep") := by
  rw [Expr.depth_eq_height]
  constructor
  · intro h
    rw [Expr.ofJson, Json.readTree_written h]
    rfl
  · intro h
    obtain ⟨s, hs⟩ := Json.readTree_tooDeep h
    obtain ⟨place, hplace⟩ := Json.describe_fixed .tooDeep e.toJson.toList s 1
    refine ⟨Json.Failure.report e.toJson.toList ⟨.tooDeep, .fixed s 1⟩, place, ?_, rfl, ?_, ?_⟩
    · rw [Expr.ofJson, hs]
      rfl
    · have hfront : "Invalid expression tree: recursion limit exceeded" =
          "Invalid expression tree: " ++ Json.Cause.tooDeep.text := by simp [Json.text_tooDeep]
      rw [hfront, String.append_assoc, ← hplace]
      rfl
    · rw [← Json.heightSuggestion_eq]
      rfl

/-- A chain of 63 operations to the right is read back, and one of 64 is refused. -/
theorem Expr.ofJson_toJson_chain :
    let chain (n : Nat) : Expr :=
      (List.range n).foldl (fun e _ => .binary .add (.const (-1)) e) (.var "")
    Expr.ofJson (chain 63).toJson = .ok (chain 63) ∧
      ∃ report, Expr.ofJson (chain 64).toJson = .error report ∧
        report.detail? .suggestion = some "Trees can be at most 64 levels deep" := by
  intro chain
  have hlow : (chain 63).depth ≤ 64 := by decide +kernel
  have hhigh : 64 < (chain 64).depth := by decide +kernel
  obtain ⟨report, _, hread, _, _, hsuggestion⟩ := (Expr.ofJson_toJson (chain 64)).2 hhigh
  exact ⟨(Expr.ofJson_toJson (chain 63)).1 hlow, report, hread, hsuggestion⟩

end ArithTree
