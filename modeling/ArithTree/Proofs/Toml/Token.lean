import ArithTree.Config.Writer
import ArithTree.Proofs.Numerals
import ArithTree.Proofs.Runs
import ArithTree.Toml.Document

/-!
# Written keys, strings and numbers of TOML

A key is written in one of three ways, depending on the characters in it, and reading it back
undoes the way that was taken. Every character that has to be escaped gets an escape that stands
for it and for nothing else.
-/

set_option autoImplicit false

namespace ArithTree.Toml

def Unescaped (c : Char) : Prop :=
  c ≠ '"' ∧ c ≠ '\\' ∧ isPlain c = true

theorem isPlain_of_not_isControl {c : Char} (h : isControl c = false) : isPlain c = true := by
  simp only [isControl, Bool.or_eq_false_iff, decide_eq_false_iff_not] at h
  have hle : ' ' ≤ c := Char.not_lt.mp h.1
  simp [isPlain, hle, h.2]

theorem readBasic_drop (taken : Nat) (s : List Char) :
    readBasic taken s = readBasic 0 (s.drop taken) := by
  induction taken generalizing s with
  | zero => rfl
  | succ taken ih =>
    cases s with
    | nil => simp [readBasic]
    | cons c s => simp only [readBasic, List.drop_succ_cons, ih]

theorem readBasic_quote (rest : List Char) : readBasic 0 ('"' :: rest) = some ([], rest) := by
  simp [readBasic]

theorem readBasic_unescaped {c : Char} (h : Unescaped c) (s : List Char) :
    readBasic 0 (c :: s) = (readBasic 0 s).map fun p => (c :: p.1, p.2) := by
  rw [readBasic, if_neg h.1, if_neg h.2.1, if_pos h.2.2]
  cases readBasic 0 s <;> rfl

theorem readBasic_escape {s : List Char} {c : Char} {taken : Nat}
    (h : readEscape s = some (c, taken)) :
    readBasic 0 ('\\' :: s) = (readBasic 0 (s.drop taken)).map fun p => (c :: p.1, p.2) := by
  rw [readBasic, if_neg (by decide), if_pos rfl, h, ← readBasic_drop]
  simp only [bind, Option.bind]
  cases readBasic taken s <;> rfl

theorem hexValue?_upper {digit : Nat} (h : digit < 16) :
    Number.hexValue? (Nat.digitChar digit).toUpper = some digit := by
  revert h digit
  decide

theorem toNat_lt_of_isControl {c : Char} (h : isControl c = true) : c.toNat < 128 := by
  simp only [isControl, Bool.or_eq_true, decide_eq_true_eq] at h
  rcases h with h | rfl
  · have hlow : c.toNat < 32 := h
    omega
  · decide

theorem readCode_codeDigits {c : Char} (h : isControl c = true) (rest : List Char) :
    readCode 4 (codeDigits c ++ rest) = some (c, 5) := by
  have hlt := toNat_lt_of_isControl h
  have hzero : Number.hexValue? '0' = some 0 := rfl
  have hhigh : Number.hexValue? (Nat.digitChar (c.toNat / 16)).toUpper = some (c.toNat / 16) :=
    hexValue?_upper (by omega)
  have hlow : Number.hexValue? (Nat.digitChar (c.toNat % 16)).toUpper = some (c.toNat % 16) :=
    hexValue?_upper (by omega)
  have hvalue : 16 * (c.toNat / 16) + c.toNat % 16 = c.toNat := Nat.div_add_mod c.toNat 16
  have hvalid : c.toNat.isValidChar := c.valid
  have htake : (codeDigits c ++ rest).take 4 = codeDigits c := rfl
  simp only [readCode, htake]
  simp [codeDigits, hzero, hhigh, hlow, hvalue, hvalid]

theorem escapeChar_cases (c : Char) :
    (Unescaped c ∧ escapeChar c = [c]) ∨
    (∃ s, escapeChar c = '\\' :: s ∧ ∀ rest, readEscape (s ++ rest) = some (c, s.length)) := by
  by_cases h1 : c = '\x08'
  · subst h1; exact .inr ⟨['b'], rfl, fun _ => rfl⟩
  by_cases h2 : c = '\t'
  · subst h2; exact .inr ⟨['t'], rfl, fun _ => rfl⟩
  by_cases h3 : c = '\n'
  · subst h3; exact .inr ⟨['n'], rfl, fun _ => rfl⟩
  by_cases h4 : c = '\x0c'
  · subst h4; exact .inr ⟨['f'], rfl, fun _ => rfl⟩
  by_cases h5 : c = '\r'
  · subst h5; exact .inr ⟨['r'], rfl, fun _ => rfl⟩
  by_cases h6 : c = '"'
  · subst h6; exact .inr ⟨['"'], rfl, fun _ => rfl⟩
  by_cases h7 : c = '\\'
  · subst h7; exact .inr ⟨['\\'], rfl, fun _ => rfl⟩
  cases h8 : isControl c with
  | true =>
    refine .inr ⟨'u' :: codeDigits c, ?_, fun rest => readCode_codeDigits h8 rest⟩
    simp only [escapeChar, h1, h2, h3, h4, h5, h6, h7, h8, if_true, if_false]
  | false =>
    refine .inl ⟨⟨h6, h7, isPlain_of_not_isControl h8⟩, ?_⟩
    simp only [escapeChar, h1, h2, h3, h4, h5, h6, h7, h8, Bool.false_eq_true, if_false]

theorem readBasic_escapeChar (c : Char) (s : List Char) :
    readBasic 0 (escapeChar c ++ s) = (readBasic 0 s).map fun p => (c :: p.1, p.2) := by
  rcases escapeChar_cases c with ⟨hc, he⟩ | ⟨escape, he, hread⟩
  · rw [he]
    exact readBasic_unescaped hc s
  · rw [he, List.cons_append, readBasic_escape (hread s), List.drop_left]

theorem readBasic_written (cs rest : List Char) :
    readBasic 0 (cs.flatMap escapeChar ++ '"' :: rest) = some (cs, rest) := by
  induction cs with
  | nil => exact readBasic_quote rest
  | cons c cs ih =>
    rw [List.flatMap_cons, List.append_assoc, readBasic_escapeChar, ih]
    rfl

theorem readLiteral_written {cs : List Char} (h : ∀ c ∈ cs, isPlain c = true ∧ c ≠ '\'')
    (rest : List Char) : readLiteral (cs ++ '\'' :: rest) = some (cs, rest) := by
  induction cs with
  | nil => simp [readLiteral]
  | cons c cs ih =>
    obtain ⟨hplain, hmark⟩ := h c List.mem_cons_self
    have hrest := ih fun d hd => h d (List.mem_cons_of_mem c hd)
    simp [readLiteral, hplain, hmark, hrest]

theorem isPlain_of_not_needsEscape {c : Char} (h : needsEscape c = false) :
    isPlain c = true := by
  by_cases htab : c = '\t'
  · subst htab; rfl
  · apply isPlain_of_not_isControl
    simpa [needsEscape, htab] using h

/-- A key is written as it is, or between marks as it is, or between marks with escapes. -/
theorem writeKey_cases (name : String) :
    (name.toList ≠ [] ∧ (∀ c ∈ name.toList, isBare c = true) ∧ writeKey name = name.toList) ∨
    ((∀ c ∈ name.toList, isPlain c = true ∧ c ≠ '\'') ∧
      writeKey name = '\'' :: (name.toList ++ ['\''])) ∨
    writeKey name = '"' :: (name.toList.flatMap escapeChar ++ ['"']) := by
  simp only [writeKey]
  split
  · rename_i h
    exact .inl ⟨h.1, List.all_eq_true.mp h.2, rfl⟩
  split
  · rename_i h
    rw [Bool.and_eq_true, List.all_eq_true] at h
    refine .inr (.inl ⟨fun c hc => ?_, rfl⟩)
    have hall := h.1 c hc
    simp only [Bool.and_eq_true, Bool.not_eq_true', decide_eq_true_eq] at hall
    exact ⟨isPlain_of_not_needsEscape hall.1, hall.2⟩
  · exact .inr (.inr rfl)

abbrev StartsKey (c : Char) : Prop :=
  c = '"' ∨ c = '\'' ∨ isBare c = true

theorem writeKey_head (name : String) : ∃ c cs, writeKey name = c :: cs ∧ StartsKey c := by
  rcases writeKey_cases name with ⟨hne, hbare, hw⟩ | ⟨_, hw⟩ | hw
  · obtain ⟨c, cs, hcs⟩ := List.exists_cons_of_ne_nil hne
    exact ⟨c, cs, by rw [hw, hcs], .inr (.inr (hbare c (by simp [hcs])))⟩
  · exact ⟨_, _, hw, .inr (.inl rfl)⟩
  · exact ⟨_, _, hw, .inl rfl⟩

theorem readBareKey_run {cs rest : List Char} (hne : cs ≠ []) (hcs : ∀ c ∈ cs, isBare c = true)
    (hrest : Text.Stops isBare rest) : readBareKey (cs ++ rest) = some (cs, rest) := by
  obtain ⟨c, tail, rfl⟩ := List.exists_cons_of_ne_nil hne
  rw [readBareKey, Text.takeWhile_run hcs hrest, Text.dropWhile_run hcs hrest]

theorem readKey_bare {cs rest : List Char} (hne : cs ≠ []) (hcs : ∀ c ∈ cs, isBare c = true)
    (hrest : Text.Stops isBare rest) :
    readKey (cs ++ rest) = some (⟨String.ofList cs, ⟨cs ++ rest, rest⟩⟩, rest) := by
  have hread := readBareKey_run hne hcs hrest
  obtain ⟨c, tail, rfl⟩ := List.exists_cons_of_ne_nil hne
  have hc := hcs c List.mem_cons_self
  rw [List.cons_append] at hread ⊢
  unfold readKey
  split
  · rename_i heq
    cases heq
    exact absurd hc (by decide)
  · rename_i heq
    cases heq
    exact absurd hc (by decide)
  · rw [hread]
    rfl

theorem readKey_writeKey (name : String) {rest : List Char} (hrest : Text.Stops isBare rest) :
    readKey (writeKey name ++ rest) =
      some (⟨name, ⟨writeKey name ++ rest, rest⟩⟩, rest) := by
  rcases writeKey_cases name with ⟨hne, hbare, hw⟩ | ⟨hplain, hw⟩ | hw
  · rw [hw, readKey_bare hne hbare hrest, String.ofList_toList]
  · have hread := readLiteral_written hplain rest
    rw [hw]
    simp only [List.cons_append, List.append_assoc, List.nil_append, readKey, hread, bind,
      Option.bind, String.ofList_toList]
  · have hread := readBasic_written name.toList rest
    rw [hw]
    simp only [List.cons_append, List.append_assoc, List.nil_append, readKey, hread, bind,
      Option.bind, String.ofList_toList]

theorem skipBlanks_cons {c : Char} (h : isBlank c = false) (s : List Char) :
    skipBlanks (c :: s) = c :: s :=
  Text.dropWhile_of_stops (Text.stops_cons h s)

theorem isBlank_eq_false {c : Char} (hspace : c ≠ ' ') (htab : c ≠ '\t') : isBlank c = false := by
  simp [isBlank, hspace, htab]

theorem readMany_last {α : Type} {step : List Char → Option (α × Bool × List Char)} {a : α}
    {s rest : List Char} (h : step s = some (a, false, rest)) :
    readMany step s = some ([a], rest) := by
  rw [readMany, h]

theorem readMany_more {α : Type} {step : List Char → Option (α × Bool × List Char)} {a : α}
    {as : List α} {s rest last : List Char} (h : step s = some (a, true, rest))
    (hlen : rest.length < s.length) (hmore : readMany step rest = some (as, last)) :
    readMany step s = some (a :: as, last) := by
  rw [readMany, h]
  simp only [hlen, if_true, hmore]

theorem readPath_of_readKey {key : Key} {s rest : List Char} (h : readKey s = some (key, rest))
    (hdot : Text.Stops (· = '.') (skipBlanks rest)) :
    readPath s = some (([], key), skipBlanks rest) := by
  have hpart : readKeyPart s = some (key, false, skipBlanks rest) := by
    rw [readKeyPart, h]
    simp only [bind, Option.bind]
    split
    · rename_i heq
      rw [heq] at hdot
      exact absurd (hdot '.' rfl) (by decide)
    · rfl
  rw [readPath, readMany_last hpart]
  rfl

end ArithTree.Toml
