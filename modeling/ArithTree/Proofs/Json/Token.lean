import ArithTree.Json.Tree
import ArithTree.Proofs.Numerals
import ArithTree.Proofs.Outcomes
import ArithTree.Proofs.Runs

/-!
# Written strings and numbers of JSON

What the writer puts for a character is either the character itself, where it may stand in a
string, or an escape that stands for it and for nothing else. So a written string is read back
whole, and the same holds of a written number that no digit, point or exponent follows.
-/

set_option autoImplicit false

namespace ArithTree.Json

def Unescaped (c : Char) : Prop :=
  c ≠ '"' ∧ c ≠ '\\' ∧ ¬c < ' '

theorem readString_drop (taken : Nat) (s : List Char) :
    readString taken s = readString 0 (s.drop taken) := by
  induction taken generalizing s with
  | zero => rfl
  | succ taken ih =>
    cases s with
    | nil => simp [readString]
    | cons c s => simp only [readString, List.drop_succ_cons, ih]

theorem readString_quote (rest : List Char) : readString 0 ('"' :: rest) = .ok ([], rest) := by
  simp [readString]

theorem readString_unescaped {c : Char} (h : Unescaped c) (s : List Char) :
    readString 0 (c :: s) = (readString 0 s).map fun p => (c :: p.1, p.2) := by
  rw [readString, if_neg h.1, if_neg h.2.1, if_neg h.2.2]
  cases readString 0 s <;> rfl

theorem readString_escape {s : List Char} {c : Char} {taken : Nat}
    (h : readEscape s = .ok (c, taken)) :
    readString 0 ('\\' :: s) = (readString 0 (s.drop taken)).map fun p => (c :: p.1, p.2) := by
  rw [readString, if_neg (by decide), if_pos rfl, h, ← readString_drop]
  simp
  cases readString taken s <;> rfl

/-- A code below 32 needs two of its four digits and is no surrogate. -/
theorem readUnicode_control {c : Char} (h : c.toNat < 32) (rest : List Char) :
    readUnicode ('0' :: '0' :: Nat.digitChar (c.toNat / 16) :: Nat.digitChar (c.toNat % 16) :: rest)
      = .ok (c, 4) := by
  have hzero : Number.hexValue? '0' = some 0 := rfl
  have hhigh : Number.hexValue? (Nat.digitChar (c.toNat / 16)) = some (c.toNat / 16) :=
    Number.hexValue?_digitChar (by omega)
  have hlow : Number.hexValue? (Nat.digitChar (c.toNat % 16)) = some (c.toNat % 16) :=
    Number.hexValue?_digitChar (by omega)
  have hvalue : ((0 * 16 + 0) * 16 + c.toNat / 16) * 16 + c.toNat % 16 = c.toNat := by omega
  have htrailing : isTrailing c.toNat = false := by simp [isTrailing]; omega
  have hleading : isLeading c.toNat = false := by simp [isLeading]; omega
  simp only [readUnicode, readHex, hzero, hhigh, hlow, hvalue, htrailing, hleading,
    Char.ofNat_toNat, ok_bind]
  rfl

theorem escapeChar_cases (c : Char) :
    (Unescaped c ∧ escapeChar c = [c]) ∨
    (∃ s, escapeChar c = '\\' :: s ∧ ∀ rest, readEscape (s ++ rest) = .ok (c, s.length)) := by
  by_cases h1 : c = '"'
  · subst h1; exact .inr ⟨['"'], rfl, fun _ => rfl⟩
  by_cases h2 : c = '\\'
  · subst h2; exact .inr ⟨['\\'], rfl, fun _ => rfl⟩
  by_cases h3 : c = '\x08'
  · subst h3; exact .inr ⟨['b'], rfl, fun _ => rfl⟩
  by_cases h4 : c = '\x0c'
  · subst h4; exact .inr ⟨['f'], rfl, fun _ => rfl⟩
  by_cases h5 : c = '\n'
  · subst h5; exact .inr ⟨['n'], rfl, fun _ => rfl⟩
  by_cases h6 : c = '\r'
  · subst h6; exact .inr ⟨['r'], rfl, fun _ => rfl⟩
  by_cases h7 : c = '\t'
  · subst h7; exact .inr ⟨['t'], rfl, fun _ => rfl⟩
  by_cases h8 : c < ' '
  · refine .inr ⟨['u', '0', '0', Nat.digitChar (c.toNat / 16), Nat.digitChar (c.toNat % 16)],
      by simp only [escapeChar, h1, h2, h3, h4, h5, h6, h7, h8, if_true, if_false], fun rest => ?_⟩
    have hcontrol : c.toNat < 32 := h8
    simp only [List.cons_append, List.nil_append, readEscape, readUnicode_control hcontrol, ok_bind]
    rfl
  · exact .inl ⟨⟨h1, h2, h8⟩, by
      simp only [escapeChar, h1, h2, h3, h4, h5, h6, h7, h8, if_false]⟩

theorem readString_escapeChar (c : Char) (s : List Char) :
    readString 0 (escapeChar c ++ s) = (readString 0 s).map fun p => (c :: p.1, p.2) := by
  rcases escapeChar_cases c with ⟨hc, he⟩ | ⟨escape, he, hread⟩
  · rw [he]
    exact readString_unescaped hc s
  · rw [he, List.cons_append, readString_escape (hread s), List.drop_left]

@[simp]
theorem readString_written (cs rest : List Char) :
    readString 0 (cs.flatMap escapeChar ++ '"' :: rest) = .ok (cs, rest) := by
  induction cs with
  | nil => exact readString_quote rest
  | cons c cs ih =>
    rw [List.flatMap_cons, List.append_assoc, readString_escapeChar, ih]
    rfl

/-- What may follow a whole number: the end of the text, or a character that is no part of one. -/
def EndsNumber (s : List Char) : Prop :=
  Text.Stops (fun c => Number.isDigit c || c = '.' || c = 'e' || c = 'E') s

theorem EndsNumber.stops_isDigit {s : List Char} (h : EndsNumber s) :
    Text.Stops Number.isDigit s := by
  intro c hc
  have hall := h c hc
  simp only [Bool.or_eq_false_iff] at hall
  exact hall.1.1.1

theorem readFraction?_of_endsNumber {s : List Char} (h : EndsNumber s) :
    readFraction? s = .ok (none, s) := by
  unfold readFraction?
  split
  · exact absurd (h '.' rfl) (by decide)
  · rfl

theorem readExponent?_of_endsNumber {s : List Char} (h : EndsNumber s) (isZero : Bool) :
    readExponent? isZero s = .ok (none, s) := by
  cases s with
  | nil => rfl
  | cons c s =>
    have hc := h c rfl
    simp only [Bool.or_eq_false_iff, decide_eq_false_iff_not] at hc
    rw [readExponent?, if_neg (not_or.mpr ⟨hc.1.2, hc.2⟩)]

theorem splitDigits_run {run rest : List Char} (hrun : ∀ c ∈ run, Number.isDigit c = true)
    (hrest : Text.Stops Number.isDigit rest) : splitDigits (run ++ rest) = (run, rest) := by
  rw [splitDigits, Text.takeWhile_run hrun hrest, Text.dropWhile_run hrun hrest]

theorem readWhole_of_ne_zero {c : Char} (hc : c ≠ '0') (hdigit : Number.isDigit c = true)
    (s : List Char) : readWhole (c :: s) = .ok (splitDigits (c :: s)) := by
  unfold readWhole
  split
  · contradiction
  · rename_i heq
    cases heq
    exact absurd rfl hc
  · rename_i heq
    cases heq
    rw [if_pos hdigit]

theorem readWhole_digits (n : Nat) {rest : List Char} (h : Text.Stops Number.isDigit rest) :
    readWhole (Number.digits n ++ rest) = .ok (Number.digits n, rest) := by
  have hrun : ∀ c ∈ Number.digits n, Number.isDigit c = true :=
    fun c hc => Number.isDigit_of_mem_digits hc
  have hsplit := splitDigits_run hrun h
  rcases Number.digits_cases n with ⟨_, hd⟩ | ⟨_, c, cs, hd, hc⟩
  · rw [hd]
    cases rest with
    | nil => rfl
    | cons c rest =>
      have hstop : Number.isDigit c = false := h c rfl
      simp [readWhole, hstop]
  · rw [hd] at hsplit hrun ⊢
    rw [List.cons_append, readWhole_of_ne_zero hc (hrun c List.mem_cons_self),
      ← List.cons_append, hsplit]

theorem readMagnitude_digits (negative : Bool) (n : Nat) {rest : List Char} (h : EndsNumber rest)
    (hfits : Number.fits (if negative then -(n : Int) else n) = true)
    (hzero : ¬(negative = true ∧ n = 0)) :
    readMagnitude negative (Number.digits n ++ rest) =
      .ok (.integer (if negative then -(n : Int) else n), rest) := by
  have hvalue : (Numeral.mk negative (Number.digits n) none none).wholeValue =
      if negative then -(n : Int) else n := by
    simp only [Numeral.wholeValue, Number.valueOf_digits]
  have hfound : (Numeral.mk negative (Number.digits n) none none).found? =
      some (.integer (if negative then -(n : Int) else n)) := by
    rw [Numeral.found?, hvalue, if_pos]
    refine ⟨rfl, hfits, fun hz => hzero ⟨hz.1, ?_⟩⟩
    have hvalue0 : (if negative then -(n : Int) else n) = 0 := hz.2
    split at hvalue0 <;> omega
  simp [readMagnitude, readWhole_digits n h.stops_isDigit, readFraction?_of_endsNumber h,
    readExponent?_of_endsNumber h, hfound]

theorem readNumber_of_digit {c : Char} (h : Number.isDigit c = true) (s : List Char) :
    readNumber (c :: s) = readMagnitude false (c :: s) := by
  unfold readNumber
  split
  · rename_i heq
    cases heq
    exact absurd h (by decide)
  · rfl

theorem readNumber_written {z : Int} (hfits : Number.fits z = true) {rest : List Char}
    (h : EndsNumber rest) : readNumber (Number.writeInt z ++ rest) = .ok (.integer z, rest) := by
  by_cases hz : z < 0
  · have hnat : -((-z).toNat : Int) = z := by omega
    have hread := readMagnitude_digits true (-z).toNat h (by simpa only [if_true, hnat] using hfits)
      (by omega)
    simpa only [Number.writeInt_of_neg hz, List.cons_append, readNumber, if_true, hnat] using hread
  · have hnat : (z.toNat : Int) = z := by omega
    have hread := readMagnitude_digits false z.toNat h
      (by simpa only [Bool.false_eq_true, if_false, hnat] using hfits) (by simp)
    rw [Number.writeInt_of_nonneg (by omega)]
    obtain ⟨c, cs, hd, hdigit⟩ := Number.digits_head z.toNat
    rw [hd, List.cons_append] at hread ⊢
    simpa only [readNumber_of_digit hdigit, Bool.false_eq_true, if_false, hnat] using hread

end ArithTree.Json
