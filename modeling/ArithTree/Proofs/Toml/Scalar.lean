import ArithTree.Proofs.Toml.Token

/-!
# Written numbers and words as values of TOML

A written number is a run of characters of which all belong to a value, so it is taken whole and
read as a number in base ten. Words without escapes between double marks are read as strings.
-/

set_option autoImplicit false

namespace ArithTree.Toml

theorem readDigits_run {cs : List Char} (hne : cs ≠ [])
    (hcs : ∀ c ∈ cs, Number.isDigit c = true) : readDigits Number.isDigit cs = some cs := by
  induction cs with
  | nil => exact absurd rfl hne
  | cons c cs ih =>
    have hc := hcs c List.mem_cons_self
    cases cs with
    | nil => simp [readDigits, hc]
    | cons d cs =>
      have hd := hcs d (by simp)
      have hunderscore : d ≠ '_' := by rintro rfl; exact absurd hd (by decide)
      have hrest := ih (by simp) fun x hx => hcs x (List.mem_cons_of_mem c hx)
      simp [readDigits, hunderscore, hc, hrest]

theorem readUnpadded_digits (n : Nat) :
    readUnpadded (Number.digits n) = some (Number.digits n) := by
  have hne : Number.digits n ≠ [] := by
    obtain ⟨c, cs, hd, _⟩ := Number.digits_head n
    rw [hd]
    exact List.cons_ne_nil c cs
  have hrun := readDigits_run hne fun c hc => Number.isDigit_of_mem_digits hc
  rw [readUnpadded, hrun]
  rcases Number.digits_cases n with ⟨_, hd⟩ | ⟨_, c, cs, hd, hc⟩
  · rw [hd]
    rfl
  · rw [hd]
    split
    · rename_i heq
      cases heq
      exact absurd rfl hc
    · rfl

theorem splitSign_digit {c : Char} (h : Number.isDigit c = true) (cs : List Char) :
    splitSign (c :: cs) = (false, c :: cs) := by
  unfold splitSign
  split
  · rename_i heq
    cases heq
    exact absurd h (by decide)
  · rename_i heq
    cases heq
    exact absurd h (by decide)
  · rfl

theorem readInteger_decimal {cs : List Char} (h : ∀ d ds, cs ≠ '0' :: d :: ds) :
    readInteger cs = (readUnpadded (splitSign cs).2).map fun ds =>
      if (splitSign cs).1 then -(Number.valueOf ds : Int) else Number.valueOf ds := by
  unfold readInteger
  split
  · exact absurd rfl (h _ _)
  · exact absurd rfl (h _ _)
  · exact absurd rfl (h _ _)
  · rfl

theorem readInteger_written (z : Int) : readInteger (Number.writeInt z) = some z := by
  by_cases hz : z < 0
  · have hnat : -((-z).toNat : Int) = z := by omega
    have hform : ∀ d ds, '-' :: Number.digits (-z).toNat ≠ '0' :: d :: ds :=
      fun d ds heq => by cases heq
    rw [Number.writeInt_of_neg hz, readInteger_decimal hform]
    simp only [splitSign, readUnpadded_digits, Number.valueOf_digits, Option.map_some, if_true,
      hnat]
  · have hnat : (z.toNat : Int) = z := by omega
    have hform : ∀ d ds, Number.digits z.toNat ≠ '0' :: d :: ds := by
      intro d ds heq
      rcases Number.digits_cases z.toNat with ⟨_, hd⟩ | ⟨_, c, cs, hd, hc⟩
      · rw [hd] at heq; cases heq
      · rw [hd] at heq; cases heq; exact hc rfl
    have hsign : splitSign (Number.digits z.toNat) = (false, Number.digits z.toNat) := by
      obtain ⟨c, cs, hd, hc⟩ := Number.digits_head z.toNat
      rw [hd]
      exact splitSign_digit hc cs
    rw [Number.writeInt_of_nonneg (by omega), readInteger_decimal hform, hsign]
    simp only [readUnpadded_digits, Number.valueOf_digits, Option.map_some, Bool.false_eq_true,
      if_false, hnat]

theorem ofToken?_written {z : Int} (h : Number.fits z = true) :
    Value.ofToken? (Number.writeInt z) = some (.integer z) := by
  obtain ⟨c, cs, hw, hc⟩ := Number.writeInt_head z
  have htrue : Number.writeInt z ≠ ['t', 'r', 'u', 'e'] := by
    rw [hw]
    rintro heq
    cases heq
    exact absurd hc (by decide)
  have hfalse : Number.writeInt z ≠ ['f', 'a', 'l', 's', 'e'] := by
    rw [hw]
    rintro heq
    cases heq
    exact absurd hc (by decide)
  rw [Value.ofToken?, if_neg htrue, if_neg hfalse, readInteger_written]
  simp only [h, if_true]

theorem isToken_of_mem_writeInt {z : Int} {c : Char} (h : c ∈ Number.writeInt z) :
    isToken c = true := by
  rcases Number.mem_writeInt h with rfl | hdigit
  · decide
  · simp [isToken, hdigit]

theorem goesOn_newline (token rest : List Char) : goesOn token ('\n' :: rest) = false := by
  unfold goesOn
  split
  · rename_i heq
    cases heq
  · rfl

theorem readScalar_written {z : Int} (h : Number.fits z = true) (rest : List Char) :
    readScalar (Number.writeInt z ++ '\n' :: rest) = some (.integer z, '\n' :: rest) := by
  have hrun : ∀ c ∈ Number.writeInt z, isToken c = true := fun c hc => isToken_of_mem_writeInt hc
  have hstop : Text.Stops isToken ('\n' :: rest) := Text.stops_cons rfl rest
  have hsplit : splitToken (Number.writeInt z ++ '\n' :: rest) =
      (Number.writeInt z, '\n' :: rest) := by
    simp only [splitToken, Text.takeWhile_run hrun hstop, Text.dropWhile_run hrun hstop,
      goesOn_newline, Bool.false_eq_true, if_false]
  simp only [readScalar, hsplit, ofToken?_written h, bind, Option.bind]

theorem readValue_scalar {c : Char} (h : c = '-' ∨ Number.isDigit c = true)
    (array braces : Reader Value) (s : List Char) :
    readValue array braces (c :: s) = readScalar (c :: s) := by
  have hmarks : ¬(c = '"' ∨ c = '\'') := by
    rintro (rfl | rfl) <;> exact absurd h (by decide)
  unfold readValue
  split
  · rename_i heq
    cases heq
    exact absurd h (by decide)
  · rename_i heq
    cases heq
    exact absurd h (by decide)
  · rename_i heq
    cases heq
    rw [if_neg hmarks]
  · contradiction

/-- A text that is read as a value where a line ends after it. -/
def Spells (text : List Char) (value : Value) : Prop :=
  Text.Stops isBlank text ∧ text ≠ [] ∧ ∀ rest,
    readLevels maxNesting (text ++ '\n' :: rest) =
      some (⟨⟨text ++ '\n' :: rest, '\n' :: rest⟩, value⟩, '\n' :: rest)

theorem maxNesting_eq : maxNesting = 79 + 1 := rfl

theorem spells_number (value : Int64) :
    Spells (Number.writeInt value.toInt) (.integer value.toInt) := by
  obtain ⟨c, cs, hw, hc⟩ := Number.writeInt_head value.toInt
  refine ⟨?_, by rw [hw]; exact List.cons_ne_nil c cs, fun rest => ?_⟩
  · have hspace : c ≠ ' ' := by rintro rfl; exact absurd hc (by decide)
    have htab : c ≠ '\t' := by rintro rfl; exact absurd hc (by decide)
    rw [hw]
    exact Text.stops_cons (isBlank_eq_false hspace htab) cs
  · have hread := readScalar_written (Number.fits_toInt value) rest
    rw [hw, List.cons_append] at hread ⊢
    rw [maxNesting_eq, readLevels, readItem, readValue_scalar hc, hread]
    rfl

theorem spells_emptyArray : Spells ['[', ']'] (.array false []) :=
  ⟨Text.stops_cons rfl _, List.cons_ne_nil _ _, fun _ => rfl⟩

theorem readString_basic {c : Char} (h : c ≠ '"') (s : List Char) :
    readString ('"' :: c :: s) = readBasic 0 (c :: s) := by
  unfold readString
  split
  · rename_i heq
    cases heq
    exact absurd rfl h
  · rename_i heq
    cases heq
  · rename_i heq
    cases heq
    rfl
  · rename_i heq
    cases heq
  · rename_i hno _
    exact absurd rfl (hno (c :: s))

theorem readValue_quote (array braces : Reader Value) (s : List Char) :
    readValue array braces ('"' :: s) =
      (readString ('"' :: s)).map fun p => (.string (String.ofList p.1), p.2) := rfl

theorem spells_word {word : String} {c : Char} {cs : List Char} (hw : word.toList = c :: cs)
    (hescape : word.toList.flatMap escapeChar = word.toList) :
    Spells ('"' :: (word.toList ++ ['"'])) (.string word) := by
  have hmark : c ≠ '"' := by
    rintro rfl
    rw [hw, List.flatMap_cons] at hescape
    have hhead := congrArg List.head? hescape
    simp [escapeChar] at hhead
  refine ⟨Text.stops_cons rfl _, List.cons_ne_nil _ _, fun rest => ?_⟩
  have hread := readBasic_written word.toList ('\n' :: rest)
  have hlist : '"' :: (word.toList ++ ['"']) ++ '\n' :: rest =
      '"' :: (word.toList ++ '"' :: '\n' :: rest) := by simp
  have hstring : readString ('"' :: (word.toList ++ '"' :: '\n' :: rest)) =
      some (word.toList, '\n' :: rest) := by
    rw [hescape] at hread
    rw [← hread, hw]
    exact readString_basic hmark _
  rw [hlist, maxNesting_eq, readLevels, readItem, readValue_quote, hstring]
  simp only [Option.map_some, String.ofList_toList]

end ArithTree.Toml
