import ArithTree.Number.Digits

/-!
# Written numbers read back

The digits of a number stand for it and for no other number, begin with a zero only when the
number is zero, and are all digits. Every word is written as a number that is a word. So numbers
that are written alike are the same, in hexadecimal digits as well.
-/

set_option autoImplicit false

namespace ArithTree.Number

theorem isDigit_digitChar {digit : Nat} (h : digit < 10) : isDigit (digitChar digit) = true := by
  revert h digit
  decide

theorem digitValue_digitChar {digit : Nat} (h : digit < 10) :
    digitValue (digitChar digit) = digit := by
  revert h digit
  decide

theorem digitChar_ne_zero {digit : Nat} (h : digit < 10) (h0 : 0 < digit) :
    digitChar digit ≠ '0' := by
  revert h h0 digit
  decide

theorem valueOf_append_singleton (cs : List Char) (c : Char) :
    valueOf (cs ++ [c]) = 10 * valueOf cs + digitValue c := by
  simp [valueOf]

theorem valueOf_digits (n : Nat) : valueOf (digits n) = n := by
  induction n using digits.induct with
  | case1 n h =>
    rw [digits, if_pos h]
    simp [valueOf, digitValue_digitChar h]
  | case2 n h ih =>
    have hlast : n % 10 < 10 := Nat.mod_lt n (by decide)
    rw [digits, if_neg h, valueOf_append_singleton, ih, digitValue_digitChar hlast]
    omega

theorem isDigit_of_mem_digits {n : Nat} {c : Char} (h : c ∈ digits n) : isDigit c = true := by
  induction n using digits.induct with
  | case1 n hn =>
    rw [digits, if_pos hn, List.mem_singleton] at h
    rw [h]
    exact isDigit_digitChar hn
  | case2 n hn ih =>
    rw [digits, if_neg hn, List.mem_append, List.mem_singleton] at h
    rcases h with h | rfl
    · exact ih h
    · exact isDigit_digitChar (Nat.mod_lt n (by decide))

theorem digits_zero : digits 0 = ['0'] := by
  rw [digits]
  rfl

theorem digits_of_pos {n : Nat} (h : 0 < n) : ∃ c cs, digits n = c :: cs ∧ c ≠ '0' := by
  induction n using digits.induct with
  | case1 n hn =>
    rw [digits, if_pos hn]
    exact ⟨_, [], rfl, digitChar_ne_zero hn h⟩
  | case2 n hn ih =>
    obtain ⟨c, cs, hd, hc⟩ := ih (by omega)
    rw [digits, if_neg hn, hd]
    exact ⟨c, cs ++ [digitChar (n % 10)], rfl, hc⟩

theorem digits_cases (n : Nat) :
    (n = 0 ∧ digits n = ['0']) ∨ (0 < n ∧ ∃ c cs, digits n = c :: cs ∧ c ≠ '0') := by
  rcases Nat.eq_zero_or_pos n with rfl | h
  · exact .inl ⟨rfl, digits_zero⟩
  · exact .inr ⟨h, digits_of_pos h⟩

theorem digits_head (n : Nat) : ∃ c cs, digits n = c :: cs ∧ isDigit c = true := by
  cases hd : digits n with
  | nil => rcases digits_cases n with ⟨_, h⟩ | ⟨_, _, _, h, _⟩ <;> simp [hd] at h
  | cons c cs => exact ⟨c, cs, rfl, isDigit_of_mem_digits (n := n) (by simp [hd])⟩

theorem writeInt_of_nonneg {z : Int} (h : 0 ≤ z) : writeInt z = digits z.toNat := by
  obtain ⟨n, rfl⟩ := Int.eq_ofNat_of_zero_le h
  rfl

theorem writeInt_of_neg {z : Int} (h : z < 0) : writeInt z = '-' :: digits (-z).toNat := by
  obtain ⟨n, rfl⟩ := Int.eq_negSucc_of_lt_zero h
  rfl

theorem mem_writeInt {z : Int} {c : Char} (h : c ∈ writeInt z) : c = '-' ∨ isDigit c = true := by
  by_cases hz : z < 0
  · rw [writeInt_of_neg hz, List.mem_cons] at h
    exact h.imp_right isDigit_of_mem_digits
  · rw [writeInt_of_nonneg (by omega)] at h
    exact .inr (isDigit_of_mem_digits h)

theorem exists_isDigit_mem_writeInt (z : Int) : ∃ c ∈ writeInt z, isDigit c = true := by
  by_cases hz : z < 0
  · obtain ⟨c, cs, hd, hc⟩ := digits_head (-z).toNat
    exact ⟨c, by simp [writeInt_of_neg hz, hd], hc⟩
  · obtain ⟨c, cs, hd, hc⟩ := digits_head z.toNat
    exact ⟨c, by simp [writeInt_of_nonneg (Int.not_lt.mp hz), hd], hc⟩

theorem digits_injective {n m : Nat} (h : digits n = digits m) : n = m := by
  rw [← valueOf_digits n, h, valueOf_digits]

theorem digits_ne_negative (n : Nat) (cs : List Char) : digits n ≠ '-' :: cs := by
  intro h
  have hmem : '-' ∈ digits n := by simp [h]
  exact absurd (isDigit_of_mem_digits hmem) (by decide)

theorem writeInt_injective {z w : Int} (h : writeInt z = writeInt w) : z = w := by
  cases z with
  | ofNat n =>
    cases w with
    | ofNat m => rw [digits_injective h]
    | negSucc m => exact absurd h (digits_ne_negative n _)
  | negSucc n =>
    cases w with
    | ofNat m => exact absurd h.symm (digits_ne_negative m _)
    | negSucc m =>
      have hdigits : digits (n + 1) = digits (m + 1) := List.tail_eq_of_cons_eq h
      rw [Nat.succ.inj (digits_injective hdigits)]

theorem writeInt_head (z : Int) :
    ∃ c cs, writeInt z = c :: cs ∧ (c = '-' ∨ isDigit c = true) := by
  by_cases h : z < 0
  · exact ⟨'-', _, writeInt_of_neg h, .inl rfl⟩
  · obtain ⟨c, cs, hd, hc⟩ := digits_head z.toNat
    exact ⟨c, cs, by rw [writeInt_of_nonneg (by omega), hd], .inr hc⟩

@[simp]
theorem word?_toInt (value : Int64) : word? value.toInt = some value := by
  have hlow : least ≤ value.toInt := Int64.le_toInt value
  have hhigh : value.toInt ≤ greatest := Int64.toInt_le value
  rw [word?, if_pos ⟨hlow, hhigh⟩, Int64.ofInt_toInt]

theorem word?_eq_some_iff {n : Int} {value : Int64} : word? n = some value ↔ value.toInt = n := by
  constructor
  · intro h
    rw [word?] at h
    split at h
    · rename_i hrange
      cases h
      exact Int64.toInt_ofInt_of_le hrange.1 (Int.lt_of_le_of_lt hrange.2 (by decide))
    · cases h
  · rintro rfl
    exact word?_toInt value

@[simp]
theorem toList_writeWord (value : Int64) : (writeWord value).toList = writeInt value.toInt :=
  String.toList_ofList

theorem writeWord_injective {a b : Int64} (h : writeWord a = writeWord b) : a = b := by
  have hchars := congrArg String.toList h
  rw [toList_writeWord, toList_writeWord] at hchars
  exact Int64.toInt_inj.mp (writeInt_injective hchars)

theorem fits_toInt (value : Int64) : fits value.toInt = true := by
  have hlow : least ≤ value.toInt := Int64.le_toInt value
  have hhigh : value.toInt ≤ greatestUnsigned :=
    Int.le_trans (Int64.toInt_le value) (by decide)
  simp [fits, hlow, hhigh]

theorem hexValue?_digitChar {digit : Nat} (h : digit < 16) :
    hexValue? (Nat.digitChar digit) = some digit := by
  revert h digit
  decide

def hexValueOf (cs : List Char) : Nat :=
  cs.foldl (fun n c => 16 * n + (hexValue? c).getD 0) 0

theorem hexValueOf_append_singleton (cs : List Char) (c : Char) :
    hexValueOf (cs ++ [c]) = 16 * hexValueOf cs + (hexValue? c).getD 0 := by
  simp [hexValueOf]

theorem hexValueOf_hexDigits (n : Nat) : hexValueOf (hexDigits n) = n := by
  induction n using hexDigits.induct with
  | case1 n h =>
    rw [hexDigits, if_pos h]
    simp [hexValueOf, hexValue?_digitChar h]
  | case2 n h ih =>
    have hlast : n % 16 < 16 := Nat.mod_lt n (by decide)
    rw [hexDigits, if_neg h, hexValueOf_append_singleton, ih, hexValue?_digitChar hlast,
      Option.getD_some]
    omega

theorem exists_hexValue?_of_mem_hexDigits {n : Nat} {c : Char} (h : c ∈ hexDigits n) :
    ∃ digit, hexValue? c = some digit := by
  induction n using hexDigits.induct with
  | case1 n hn =>
    rw [hexDigits, if_pos hn, List.mem_singleton] at h
    exact ⟨n, h ▸ hexValue?_digitChar hn⟩
  | case2 n hn ih =>
    rw [hexDigits, if_neg hn, List.mem_append, List.mem_singleton] at h
    rcases h with h | rfl
    · exact ih h
    · exact ⟨n % 16, hexValue?_digitChar (Nat.mod_lt n (by decide))⟩

end ArithTree.Number
