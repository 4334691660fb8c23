import ArithTree.CommandLine
import ArithTree.Proofs.Numerals
import ArithTree.Proofs.Runs
import Mathlib.Data.List.Induction
import Mathlib.Data.List.TakeWhile
import Mathlib.Data.Nat.Digits.Defs

/-!
# What a binding says

A binding on the command line is a name and a number around its only equals sign, each with any
white space at its ends. What is a trimmed text, a decimal number and a binding is said here
without the reader; the reader accepts just those texts, and what it returns is what they say.
-/

set_option autoImplicit false

namespace ArithTree

namespace Text

structure Trimmed (cs : List Char) : Prop where
  first : Stops isBlank cs
  last : Stops isBlank cs.reverse

/-- The second text is the first one without the white space at its ends. -/
inductive Trims : List Char → List Char → Prop
  | intro {lead core trail : List Char} :
      (∀ c ∈ lead, isBlank c = true) → Trimmed core → (∀ c ∈ trail, isBlank c = true) →
      Trims (lead ++ core ++ trail) core

theorem Trimmed.trims {cs : List Char} (h : Trimmed cs) : Trims cs cs := by
  have hself : Trims ([] ++ cs ++ []) cs := .intro (by simp) h (by simp)
  simpa using hself

theorem exists_trail (cs : List Char) :
    ∃ trail, cs.dropWhile isBlank = trim cs ++ trail ∧ ∀ c ∈ trail, isBlank c = true := by
  refine ⟨((cs.dropWhile isBlank).reverse.takeWhile isBlank).reverse, ?_, ?_⟩
  · rw [trim, ← List.reverse_append, List.takeWhile_append_dropWhile, List.reverse_reverse]
  · exact fun c hc => List.mem_takeWhile_imp (List.mem_reverse.mp hc)

theorem trims_trim (cs : List Char) : Trims cs (trim cs) := by
  obtain ⟨trail, hcut, htrail⟩ := exists_trail cs
  have hcore : Trimmed (trim cs) := by
    constructor
    · have hstart := stops_dropWhile isBlank cs
      rw [hcut] at hstart
      exact hstart.of_append
    · rw [trim, List.reverse_reverse]
      exact stops_dropWhile isBlank _
  have hwhole : Trims (cs.takeWhile isBlank ++ trim cs ++ trail) (trim cs) :=
    .intro (fun _ => List.mem_takeWhile_imp) hcore htrail
  rwa [List.append_assoc, ← hcut, List.takeWhile_append_dropWhile] at hwhole

theorem trim_of_trims {cs core : List Char} (h : Trims cs core) : trim cs = core := by
  cases h with
  | @intro lead core trail hlead hcore htrail =>
    cases core with
    | nil =>
      have hall : ∀ c ∈ lead ++ trail, isBlank c = true := by
        intro c hc
        exact (List.mem_append.mp hc).elim (hlead c) (htrail c)
      rw [trim, List.append_nil, List.dropWhile_eq_nil_iff.mpr hall]
      rfl
    | cons c core =>
      have hstart : Stops isBlank (c :: core ++ trail) := stops_cons (hcore.first c rfl) _
      rw [trim, List.append_assoc, dropWhile_run hlead hstart, List.reverse_append,
        dropWhile_run (fun d hd => htrail d (List.mem_reverse.mp hd)) hcore.last,
        List.reverse_reverse]

end Text

namespace Number

inductive SpellsNat : Nat → List Char → Prop
  | intro {digits : List Nat} :
      digits ≠ [] → (∀ d ∈ digits, d < 10) →
      SpellsNat (Nat.ofDigits 10 digits.reverse) (digits.map digitChar)

/-- Decimal digits after at most one sign. -/
inductive SpellsInt : Int → List Char → Prop
  | unsigned {n : Nat} {cs : List Char} : SpellsNat n cs → SpellsInt n cs
  | positive {n : Nat} {cs : List Char} : SpellsNat n cs → SpellsInt n ('+' :: cs)
  | negative {n : Nat} {cs : List Char} : SpellsNat n cs → SpellsInt (-n) ('-' :: cs)

theorem isDigit_iff {c : Char} : isDigit c = true ↔ ∃ d < 10, c = digitChar d := by
  constructor
  · intro h
    simp only [isDigit, Bool.and_eq_true, decide_eq_true_eq] at h
    have hlow : 48 ≤ c.toNat := h.1
    have hhigh : c.toNat < 58 := Nat.lt_succ_of_le h.2
    refine ⟨c.toNat - 48, by omega, ?_⟩
    rw [digitChar, Nat.add_sub_cancel' hlow, Char.ofNat_toNat]
  · rintro ⟨d, hd, rfl⟩
    exact isDigit_digitChar hd

theorem valueOf_map_digitChar {digits : List Nat} (h : ∀ d ∈ digits, d < 10) :
    valueOf (digits.map digitChar) = Nat.ofDigits 10 digits.reverse := by
  induction digits using List.reverseRecOn with
  | nil => rfl
  | append_singleton digits d ih =>
    have hd : d < 10 := h d (by simp)
    have hdigits := ih fun e he => h e (List.mem_append_left [d] he)
    rw [List.map_append, List.map_singleton, valueOf_append_singleton, hdigits,
      digitValue_digitChar hd, List.reverse_append, List.reverse_singleton,
      List.singleton_append, Nat.ofDigits_cons]
    exact Nat.add_comm _ _

theorem exists_digits {cs : List Char} (h : ∀ c ∈ cs, isDigit c = true) :
    ∃ digits : List Nat, (∀ d ∈ digits, d < 10) ∧ cs = digits.map digitChar := by
  induction cs with
  | nil => exact ⟨[], by simp, rfl⟩
  | cons c cs ih =>
    obtain ⟨digits, hdigits, rfl⟩ := ih fun e he => h e (List.mem_cons_of_mem c he)
    obtain ⟨d, hd, rfl⟩ := isDigit_iff.mp (h c List.mem_cons_self)
    exact ⟨d :: digits, List.forall_mem_cons.mpr ⟨hd, hdigits⟩, rfl⟩

theorem SpellsNat.isDigit {n : Nat} {cs : List Char} (h : SpellsNat n cs) :
    ∀ c ∈ cs, isDigit c = true := by
  cases h with
  | intro _ hdigits =>
    intro c hc
    obtain ⟨d, hd, rfl⟩ := List.mem_map.mp hc
    exact isDigit_iff.mpr ⟨d, hdigits d hd, rfl⟩

theorem readNat?_eq_some_iff {cs : List Char} {n : Nat} :
    readNat? cs = some n ↔ SpellsNat n cs := by
  constructor
  · intro h
    rw [readNat?] at h
    split at h
    · rename_i hcs
      obtain ⟨digits, hdigits, rfl⟩ := exists_digits (List.all_eq_true.mp hcs.2)
      have hne : digits ≠ [] := by
        rintro rfl
        exact hcs.1 rfl
      rw [valueOf_map_digitChar hdigits, Option.some.injEq] at h
      rw [← h]
      exact .intro hne hdigits
    · cases h
  · intro h
    have hall := List.all_eq_true.mpr h.isDigit
    cases h with
    | @intro digits hne hdigits =>
      rw [readNat?, if_pos ⟨by simpa using hne, hall⟩, valueOf_map_digitChar hdigits]

theorem not_spellsNat_cons {n : Nat} {c : Char} (hc : isDigit c = false) (cs : List Char) :
    ¬SpellsNat n (c :: cs) := by
  intro h
  rw [h.isDigit c List.mem_cons_self] at hc
  cases hc

theorem map_readNat?_eq_some_iff {f : Int → Int} {cs : List Char} {z : Int} :
    ((readNat? cs : Option Int).map f) = some z ↔ ∃ n : Nat, SpellsNat n cs ∧ f n = z := by
  cases h : readNat? cs with
  | none => simp [← readNat?_eq_some_iff, h]
  | some n => simp [← readNat?_eq_some_iff, h]

theorem readInt?_eq_some_iff {cs : List Char} {z : Int} :
    readInt? cs = some z ↔ SpellsInt z cs := by
  rw [readInt?.eq_def]
  split
  · rename_i cs
    rw [map_readNat?_eq_some_iff]
    constructor
    · rintro ⟨n, hn, rfl⟩
      exact .positive hn
    · intro h
      cases h with
      | unsigned hn => exact absurd hn (not_spellsNat_cons rfl cs)
      | positive hn => exact ⟨_, hn, rfl⟩
  · rename_i cs
    rw [map_readNat?_eq_some_iff]
    constructor
    · rintro ⟨n, hn, rfl⟩
      exact .negative hn
    · intro h
      cases h with
      | unsigned hn => exact absurd hn (not_spellsNat_cons rfl cs)
      | negative hn => exact ⟨_, hn, rfl⟩
  · rename_i hplus hminus
    rw [map_readNat?_eq_some_iff]
    constructor
    · rintro ⟨n, hn, rfl⟩
      exact .unsigned hn
    · intro h
      cases h with
      | unsigned hn => exact ⟨_, hn, rfl⟩
      | positive _ => exact absurd rfl (hplus _)
      | negative _ => exact absurd rfl (hminus _)

theorem readWord?_eq_some_iff {cs : List Char} {value : Int64} :
    (readInt? cs).bind word? = some value ↔ SpellsInt value.toInt cs := by
  simp only [Option.bind_eq_some_iff, readInt?_eq_some_iff, word?_eq_some_iff]
  constructor
  · rintro ⟨z, hz, rfl⟩
    exact hz
  · exact fun h => ⟨_, h, rfl⟩

theorem spellsInt_writeInt (z : Int) : SpellsInt z (writeInt z) := by
  have hnat : ∀ n, SpellsNat n (digits n) := by
    intro n
    apply readNat?_eq_some_iff.mp
    obtain ⟨c, cs, hd, _⟩ := digits_head n
    have hne : digits n ≠ [] := by simp [hd]
    rw [readNat?, if_pos ⟨hne, List.all_eq_true.mpr fun _ => isDigit_of_mem_digits⟩, valueOf_digits]
  cases z with
  | ofNat n => exact .unsigned (hnat n)
  | negSucc n => exact .negative (hnat (n + 1))

theorem SpellsInt.signOrDigit {z : Int} {cs : List Char} (h : SpellsInt z cs) :
    ∀ c ∈ cs, c = '+' ∨ c = '-' ∨ isDigit c = true := by
  have hdigits : ∀ {n cs}, SpellsNat n cs → ∀ c ∈ cs, c = '+' ∨ c = '-' ∨ isDigit c = true :=
    fun hn c hc => .inr (.inr (hn.isDigit c hc))
  cases h with
  | unsigned hn => exact hdigits hn
  | positive hn => exact List.forall_mem_cons.mpr ⟨.inl rfl, hdigits hn⟩
  | negative hn => exact List.forall_mem_cons.mpr ⟨.inr (.inl rfl), hdigits hn⟩

theorem SpellsInt.not_isBlank {z : Int} {cs : List Char} (h : SpellsInt z cs) :
    ∀ c ∈ cs, Text.isBlank c = false := by
  intro c hc
  rcases h.signOrDigit c hc with rfl | rfl | hdigit
  · rfl
  · rfl
  · obtain ⟨d, hd, rfl⟩ := isDigit_iff.mp hdigit
    have hshown : ∀ d < 10, Text.isBlank (digitChar d) = false := by decide
    exact hshown d hd

theorem SpellsInt.trimmed {z : Int} {cs : List Char} (h : SpellsInt z cs) : Text.Trimmed cs where
  first c hc := h.not_isBlank c (List.mem_of_mem_head? hc)
  last c hc := h.not_isBlank c (List.mem_reverse.mp (List.mem_of_mem_head? hc))

end Number

open Number Text

/-- A text with one equals sign, a name before it and a word after it. White space around either
does not count. -/
inductive SaysBinding (text : String) : String → Int64 → Prop
  | intro {before after number : List Char} {name : String} {value : Int64} :
      text.toList = before ++ '=' :: after → text.toList.count '=' = 1 →
      Trims before name.toList → name ≠ "" →
      Trims after number → SpellsInt value.toInt number → SaysBinding text name value

/-- Why a text is no binding, as seen from its first equals sign. -/
inductive Refused (text : String) : ArgumentError → Prop
  | noEquals : '=' ∉ text.toList → Refused text (.noEquals text)
  | emptyName {before after : List Char} :
      text.toList = before ++ '=' :: after → '=' ∉ before → Trims before [] →
      Refused text (.emptyName text)
  | notWhole {before after name number : List Char} :
      text.toList = before ++ '=' :: after → '=' ∉ before → Trims before name → name ≠ [] →
      Trims after number → (∀ value : Int64, ¬SpellsInt value.toInt number) →
      Refused text (.notWhole text)

theorem splitEquals_of_not_mem {cs : List Char} (h : '=' ∉ cs) : splitEquals cs = none := by
  induction cs with
  | nil => rfl
  | cons c cs ih =>
    have hc : c ≠ '=' := (List.ne_of_not_mem_cons h).symm
    rw [splitEquals, if_neg hc, ih (List.not_mem_of_not_mem_cons h)]
    rfl

theorem splitEquals_append {before : List Char} (h : '=' ∉ before) (after : List Char) :
    splitEquals (before ++ '=' :: after) = some (before, after) := by
  induction before with
  | nil => rfl
  | cons c before ih =>
    have hc : c ≠ '=' := (List.ne_of_not_mem_cons h).symm
    rw [List.cons_append, splitEquals, if_neg hc, ih (List.not_mem_of_not_mem_cons h)]
    rfl

theorem count_equals_eq_one_iff {before after : List Char} :
    (before ++ '=' :: after).count '=' = 1 ↔ '=' ∉ before ∧ '=' ∉ after := by
  rw [List.count_append, List.count_cons_self, ← List.count_eq_zero, ← List.count_eq_zero]
  omega

section Split

variable {text : String} {before after name number : List Char}

theorem readBinding_of_noEquals (h : '=' ∉ text.toList) :
    readBinding text = .error (.noEquals text) := by
  rw [readBinding, splitEquals_of_not_mem h]

theorem readBinding_of_emptyName (h : text.toList = before ++ '=' :: after) (hb : '=' ∉ before)
    (hname : Trims before []) : readBinding text = .error (.emptyName text) := by
  simp only [readBinding, h, splitEquals_append hb, trim_of_trims hname]

theorem readBinding_of_value (h : text.toList = before ++ '=' :: after) (hb : '=' ∉ before)
    (hname : Trims before name) (hne : name ≠ []) (hnumber : Trims after number) {value : Int64}
    (hvalue : SpellsInt value.toInt number) :
    readBinding text = .ok (String.ofList name, value) := by
  obtain ⟨c, cs, rfl⟩ := List.exists_cons_of_ne_nil hne
  simp only [readBinding, h, splitEquals_append hb, trim_of_trims hname, trim_of_trims hnumber,
    readWord?_eq_some_iff.mpr hvalue]

theorem readBinding_of_notWhole (h : text.toList = before ++ '=' :: after) (hb : '=' ∉ before)
    (hname : Trims before name) (hne : name ≠ []) (hnumber : Trims after number)
    (hvalue : ∀ value : Int64, ¬SpellsInt value.toInt number) :
    readBinding text = .error (.notWhole text) := by
  have hnone : (readInt? number).bind word? = none := by
    rw [Option.eq_none_iff_forall_ne_some]
    exact fun value hsome => hvalue value (readWord?_eq_some_iff.mp hsome)
  obtain ⟨c, cs, rfl⟩ := List.exists_cons_of_ne_nil hne
  simp only [readBinding, h, splitEquals_append hb, trim_of_trims hname, trim_of_trims hnumber,
    hnone]

end Split

theorem readBinding_of_saysBinding {text name : String} {value : Int64}
    (h : SaysBinding text name value) : readBinding text = .ok (name, value) := by
  cases h with
  | intro htext hcount hname hne hnumber hvalue =>
    rw [htext] at hcount
    have hchars : name.toList ≠ [] := by simpa using hne
    have hnone := (count_equals_eq_one_iff.mp hcount).1
    rw [readBinding_of_value htext hnone hname hchars hnumber hvalue, String.ofList_toList]

theorem readBinding_of_refused {text : String} {e : ArgumentError} (h : Refused text e) :
    readBinding text = .error e := by
  cases h with
  | noEquals hno => exact readBinding_of_noEquals hno
  | emptyName htext hb hname => exact readBinding_of_emptyName htext hb hname
  | notWhole htext hb hname hne hnumber hvalue =>
    exact readBinding_of_notWhole htext hb hname hne hnumber hvalue

theorem not_mem_of_spellsInt {after number : List Char} {z : Int} (hnumber : Trims after number)
    (hz : SpellsInt z number) : '=' ∉ after := by
  intro hmem
  cases hnumber with
  | intro hlead _ htrail =>
    rcases List.mem_append.mp hmem with hmem | hmem
    · rcases List.mem_append.mp hmem with hmem | hmem
      · exact absurd (hlead _ hmem) (by decide)
      · exact absurd (hz.signOrDigit _ hmem) (by decide)
    · exact absurd (htrail _ hmem) (by decide)

theorem saysBinding_or_refused (text : String) :
    (∃ name value, SaysBinding text name value) ∨ ∃ e, Refused text e := by
  by_cases hmem : '=' ∈ text.toList
  · obtain ⟨before, after, htext, hb⟩ := List.eq_append_cons_of_mem hmem
    by_cases hne : trim before = []
    · exact .inr ⟨_, .emptyName htext hb (hne ▸ trims_trim before)⟩
    · have hnumber := trims_trim after
      by_cases hvalue : ∃ value : Int64, SpellsInt value.toInt (trim after)
      · obtain ⟨value, hvalue⟩ := hvalue
        have hcount : text.toList.count '=' = 1 := by
          rw [htext]
          exact count_equals_eq_one_iff.mpr ⟨hb, not_mem_of_spellsInt hnumber hvalue⟩
        have hname : Trims before (String.ofList (trim before)).toList := by
          rw [String.toList_ofList]
          exact trims_trim before
        exact .inl ⟨_, value, .intro htext hcount hname (by simpa using hne) hnumber hvalue⟩
      · have hnone := not_exists.mp hvalue
        exact .inr ⟨_, .notWhole htext hb (trims_trim before) hne hnumber hnone⟩
  · exact .inr ⟨_, .noEquals hmem⟩

theorem readBinding_ok_iff {text name : String} {value : Int64} :
    readBinding text = .ok (name, value) ↔ SaysBinding text name value := by
  constructor
  · intro h
    rcases saysBinding_or_refused text with ⟨name', value', hbinding⟩ | ⟨e, he⟩
    · rw [readBinding_of_saysBinding hbinding] at h
      cases h
      exact hbinding
    · rw [readBinding_of_refused he] at h
      cases h
  · exact readBinding_of_saysBinding

theorem readBinding_error_iff {text : String} {e : ArgumentError} :
    readBinding text = .error e ↔ Refused text e := by
  constructor
  · intro h
    rcases saysBinding_or_refused text with ⟨name, value, hbinding⟩ | ⟨e', he⟩
    · rw [readBinding_of_saysBinding hbinding] at h
      cases h
    · rw [readBinding_of_refused he] at h
      cases h
      exact he
  · exact readBinding_of_refused

theorem saysBinding_written {name : String} (hne : name ≠ "") (hno : '=' ∉ name.toList)
    (htrimmed : Trimmed name.toList) (value : Int64) :
    SaysBinding (name ++ "=" ++ writeWord value) name value := by
  have hvalue := spellsInt_writeInt value.toInt
  have htext : (name ++ "=" ++ writeWord value).toList =
      name.toList ++ '=' :: writeInt value.toInt := by
    simp [writeWord]
  have hnumber := hvalue.trimmed.trims
  refine .intro htext ?_ htrimmed.trims hne hnumber hvalue
  rw [htext]
  exact count_equals_eq_one_iff.mpr ⟨hno, not_mem_of_spellsInt hnumber hvalue⟩

/-- A binding is read from just those texts that say one, with the name and the number that they
say; every other text is refused for one reason. A trimmed name without an equals sign and any
word can be written with one between them. -/
theorem readBinding_exact :
    (∀ text name value, readBinding text = .ok (name, value) ↔ SaysBinding text name value) ∧
    (∀ text, (¬∃ name value, SaysBinding text name value) →
      ∃ e, Refused text e ∧ readBinding text = .error e) ∧
    (∀ (name : String) (value : Int64), name ≠ "" → '=' ∉ name.toList → Trimmed name.toList →
      readBinding (name ++ "=" ++ writeWord value) = .ok (name, value)) := by
  refine ⟨fun _ _ _ => readBinding_ok_iff, ?_, ?_⟩
  · intro text hno
    cases h : readBinding text with
    | ok binding => exact absurd ⟨binding.1, binding.2, readBinding_ok_iff.mp h⟩ hno
    | error e => exact ⟨e, readBinding_error_iff.mp h, rfl⟩
  · intro name value hne hno htrimmed
    exact readBinding_of_saysBinding (saysBinding_written hne hno htrimmed value)

/-- The least word has no positive counterpart and is read, the number after the greatest word is
refused, and signs, leading zeros and unusual white space are taken where they may stand. -/
theorem readBinding_exact_bounds :
    readBinding ("a b" ++ "=" ++ writeWord Int64.minValue) = .ok ("a b", Int64.minValue) ∧
      (∃ e, Refused "x=9223372036854775808" e ∧
        readBinding "x=9223372036854775808" = .error e) ∧
      SaysBinding "\u00a0x =\u3000+007\t" "x" 7 := by
  obtain ⟨hread, hrefused, hwritten⟩ := readBinding_exact
  have htrimmed : Trimmed "a b".toList := ⟨by rintro c ⟨⟩; rfl, by rintro c ⟨⟩; rfl⟩
  have hgreat : readBinding "x=9223372036854775808" =
      .error (.notWhole "x=9223372036854775808") := by decide +kernel
  refine ⟨hwritten "a b" Int64.minValue (by decide) (by decide) htrimmed, hrefused _ ?_,
    (hread _ _ _).mp (by decide +kernel)⟩
  rintro ⟨name, value, hbinding⟩
  have hok := (hread _ _ _).mpr hbinding
  rw [hgreat] at hok
  cases hok

end ArithTree
