import ArithTree.Proofs.Json.Grammar
import ArithTree.Proofs.Json.Token
import ArithTree.Proofs.Outcomes

/-!
# White space, strings and numbers that are read

Each reader of a token succeeds on the spellings of the token and on no other text, and it takes
the spelling and nothing else. For a number this needs that the text does not go on with a
character that could belong to it; a string has its closing mark.
-/

set_option autoImplicit false

namespace ArithTree.Json

theorem isSpace_iff {c : Char} : isSpace c = true ↔ c ∈ [' ', '\t', '\n', '\r'] := by
  simp only [isSpace, Bool.or_eq_true, decide_eq_true_eq, List.mem_cons, List.not_mem_nil,
    or_false]
  grind

theorem blank_iff {s : List Char} : Blank s ↔ ∀ c ∈ s, isSpace c = true := by
  simp only [Blank, isSpace_iff]

theorem Blank.nil : Blank [] := by
  intro c hc
  cases hc

theorem Blank.append {a b : List Char} (ha : Blank a) (hb : Blank b) : Blank (a ++ b) := by
  intro c hc
  exact (List.mem_append.mp hc).elim (ha c) (hb c)

theorem Blank.endsNumber {d : List Char} (hd : Blank d) (rest : List Char) :
    EndsNumber (d ++ '\x7d' :: rest) := by
  cases d with
  | nil => exact Text.stops_cons rfl rest
  | cons c d =>
    apply Text.stops_cons
    have hc := hd c List.mem_cons_self
    simp only [List.mem_cons, List.not_mem_nil, or_false] at hc
    rcases hc with rfl | rfl | rfl | rfl <;> rfl

theorem exists_blank_skipSpace (s : List Char) : ∃ a, Blank a ∧ s = a ++ skipSpace s := by
  refine ⟨s.takeWhile isSpace, blank_iff.mpr ?_, List.takeWhile_append_dropWhile.symm⟩
  exact fun c hc => List.all_eq_true.mp List.all_takeWhile c hc

theorem skipSpace_blank_append {a s : List Char} (ha : Blank a) (hs : Text.Stops isSpace s) :
    skipSpace (a ++ s) = s :=
  Text.dropWhile_run (blank_iff.mp ha) hs

theorem skipSpace_blank_cons {a : List Char} (ha : Blank a) {c : Char} (hc : isSpace c = false)
    (s : List Char) : skipSpace (a ++ c :: s) = c :: s :=
  skipSpace_blank_append ha (Text.stops_cons hc s)

theorem skipSpace_eq_cons_iff {c : Char} (h : isSpace c = false) {s rest : List Char} :
    skipSpace s = c :: rest ↔ ∃ a, Blank a ∧ s = a ++ c :: rest := by
  constructor
  · intro hs
    obtain ⟨a, ha, hsplit⟩ := exists_blank_skipSpace s
    exact ⟨a, ha, hs ▸ hsplit⟩
  · rintro ⟨a, ha, rfl⟩
    exact skipSpace_blank_cons ha h rest

theorem skipSpace_eq_nil_iff {s : List Char} : skipSpace s = [] ↔ Blank s := by
  constructor
  · intro hs
    obtain ⟨a, ha, hsplit⟩ := exists_blank_skipSpace s
    rw [hs, List.append_nil] at hsplit
    exact hsplit ▸ ha
  · intro h
    have hskip := skipSpace_blank_append (s := []) h (fun c hc => by cases hc)
    rwa [List.append_nil] at hskip

theorem hexValue?_eq_none {c : Char} (h : 'f' < c) : Number.hexValue? c = none := by
  have hcode : 102 < c.toNat := h
  have hdigit : Number.isDigit c = false := by
    simp only [Number.isDigit, Bool.and_eq_false_iff, decide_eq_false_iff_not]
    exact .inr (show ¬c.toNat ≤ 57 by omega)
  have hlower : ¬('a' ≤ c ∧ c ≤ 'f') := fun hc => (show ¬c.toNat ≤ 102 by omega) hc.2
  have hupper : ¬('A' ≤ c ∧ c ≤ 'F') := fun hc => (show ¬c.toNat ≤ 70 by omega) hc.2
  simp only [Number.hexValue?, hdigit, hlower, hupper, if_false, Bool.false_eq_true]

theorem spellsDigit_of_hexValue? :
    ∀ code < 103, ∀ n ∈ Number.hexValue? (Char.ofNat code), SpellsDigit n (Char.ofNat code) := by
  decide +kernel

theorem hexValue?_eq_some_iff {c : Char} {n : Nat} :
    Number.hexValue? c = some n ↔ SpellsDigit n c := by
  constructor
  · intro h
    have hcode : c.toNat < 103 := by
      rcases Nat.lt_or_ge c.toNat 103 with hlt | hge
      · exact hlt
      · rw [hexValue?_eq_none hge] at h
        cases h
    have hall := spellsDigit_of_hexValue? c.toNat hcode n
    rw [Char.ofNat_toNat] at hall
    exact hall h
  · rintro (h | h)
    all_goals
      obtain ⟨hn, rfl⟩ := List.getElem?_eq_some_iff.mp h
      revert hn n
      decide

theorem readHex_ok_iff {s rest : List Char} {n : Nat} :
    readHex s = .ok (n, rest) ↔ ∃ t, SpellsCode n t ∧ s = t ++ rest := by
  constructor
  · intro h
    match s with
    | a :: b :: c :: d :: tail =>
      simp only [readHex] at h
      split at h
      · rename_i i j k l ha hb hc hd
        cases h
        exact ⟨[a, b, c, d], .intro (hexValue?_eq_some_iff.mp ha) (hexValue?_eq_some_iff.mp hb)
          (hexValue?_eq_some_iff.mp hc) (hexValue?_eq_some_iff.mp hd), rfl⟩
      · split at h <;> cases h
    | [] | [_] | [_, _] | [_, _, _] =>
      simp only [readHex] at h
      split at h <;> cases h
  · rintro ⟨t, ht, rfl⟩
    obtain ⟨ha, hb, hc, hd⟩ := ht
    simp only [List.cons_append, List.nil_append, readHex, hexValue?_eq_some_iff.mpr ha,
      hexValue?_eq_some_iff.mpr hb, hexValue?_eq_some_iff.mpr hc, hexValue?_eq_some_iff.mpr hd]

theorem length_of_spellsCode {n : Nat} {s : List Char} (h : SpellsCode n s) : s.length = 4 := by
  cases h
  rfl

theorem isTrailing_iff {n : Nat} : isTrailing n = true ↔ 0xdc00 ≤ n ∧ n ≤ 0xdfff := by
  simp [isTrailing]

theorem isLeading_iff {n : Nat} : isLeading n = true ↔ 0xd800 ≤ n ∧ n ≤ 0xdbff := by
  simp [isLeading]

theorem spellsChar_pair {m n : Nat} {s t : List Char} (hs : SpellsCode m s) (ht : SpellsCode n t)
    (hm : 0xd800 ≤ m ∧ m ≤ 0xdbff) (hn : 0xdc00 ≤ n ∧ n ≤ 0xdfff) :
    SpellsChar (Char.ofNat (pairValue m n)) (['\\', 'u'] ++ (s ++ ['\\', 'u'] ++ t)) :=
  SpellsChar.pair hs ht hm hn

/-- A code or a pair of codes is read as its character, and no other text is. -/
theorem readUnicode_ok {s : List Char} {c : Char} {taken : Nat}
    (h : readUnicode s = .ok (c, taken)) :
    ∃ t rest, s = t ++ rest ∧ taken = t.length ∧ SpellsChar c (['\\', 'u'] ++ t) := by
  obtain ⟨⟨n, rest⟩, hfirst, hchar⟩ := bind_eq_ok_iff.mp h
  obtain ⟨first, hn, rfl⟩ := readHex_ok_iff.mp hfirst
  dsimp only at hchar
  split at hchar
  · cases hchar
  rename_i htrailing
  rw [isTrailing_iff] at htrailing
  split at hchar
  · rename_i hleading
    rw [isLeading_iff] at hleading
    split at hchar
    any_goals cases hchar
    rename_i again
    obtain ⟨⟨m, rest⟩, hsecond, hpair⟩ := bind_eq_ok_iff.mp hchar
    obtain ⟨second, hm, rfl⟩ := readHex_ok_iff.mp hsecond
    dsimp only at hpair
    split at hpair
    · rename_i hm'
      obtain ⟨rfl, rfl⟩ := Prod.mk.inj (Except.ok.inj hpair)
      refine ⟨first ++ ['\\', 'u'] ++ second, rest, by simp, ?_, ?_⟩
      · simp [length_of_spellsCode hn, length_of_spellsCode hm]
      · exact spellsChar_pair hn hm hleading (isTrailing_iff.mp hm')
    · cases hpair
  · rename_i hleading
    rw [isLeading_iff] at hleading
    cases hchar
    exact ⟨first, rest, rfl, (length_of_spellsCode hn).symm, .code hn (by omega)⟩

theorem readUnicode_code {n : Nat} {t : List Char} (ht : SpellsCode n t)
    (h : ¬(0xd800 ≤ n ∧ n ≤ 0xdfff)) (rest : List Char) :
    readUnicode (t ++ rest) = .ok (Char.ofNat n, 4) := by
  have htrailing : isTrailing n = false := by
    rw [Bool.eq_false_iff, ne_eq, isTrailing_iff]
    omega
  have hleading : isLeading n = false := by
    rw [Bool.eq_false_iff, ne_eq, isLeading_iff]
    omega
  have hread : readHex (t ++ rest) = .ok (n, rest) := readHex_ok_iff.mpr ⟨t, ht, rfl⟩
  simp only [readUnicode, hread, htrailing, hleading, Bool.false_eq_true, if_false, ok_bind]

theorem readUnicode_pair {m n : Nat} {s t : List Char} (hs : SpellsCode m s) (ht : SpellsCode n t)
    (hm : 0xd800 ≤ m ∧ m ≤ 0xdbff) (hn : 0xdc00 ≤ n ∧ n ≤ 0xdfff) (rest : List Char) :
    readUnicode (s ++ (['\\', 'u'] ++ (t ++ rest))) = .ok (Char.ofNat (pairValue m n), 10) := by
  have htrailing : isTrailing m = false := by
    rw [Bool.eq_false_iff, ne_eq, isTrailing_iff]
    omega
  have hfirst : readHex (s ++ (['\\', 'u'] ++ (t ++ rest))) =
      .ok (m, '\\' :: 'u' :: (t ++ rest)) := readHex_ok_iff.mpr ⟨s, hs, rfl⟩
  have hsecond : readHex (t ++ rest) = .ok (n, rest) := readHex_ok_iff.mpr ⟨t, ht, rfl⟩
  simp only [readUnicode, hfirst, hsecond, htrailing, isLeading_iff.mpr hm, isTrailing_iff.mpr hn,
    Bool.false_eq_true, if_true, if_false, ok_bind]

theorem readEscape_ok {s : List Char} {c : Char} {taken : Nat}
    (h : readEscape s = .ok (c, taken)) :
    ∃ t rest, s = t ++ rest ∧ taken = t.length ∧ SpellsChar c ('\\' :: t) := by
  unfold readEscape at h
  split at h
  case h_10 rest =>
    obtain ⟨⟨d, more⟩, hcode, h⟩ := bind_eq_ok_iff.mp h
    cases h
    obtain ⟨t, rest, rfl, rfl, hspells⟩ := readUnicode_ok hcode
    exact ⟨'u' :: t, rest, rfl, rfl, hspells⟩
  case h_1 | h_11 => cases h
  all_goals
    rename_i rest
    cases h
    exact ⟨[_], rest, rfl, rfl, .letter (by decide)⟩

theorem readString_spellsChar {c : Char} {t : List Char} (h : SpellsChar c t) (s : List Char) :
    readString 0 (t ++ s) = (readString 0 s).map fun p => (c :: p.1, p.2) := by
  cases h with
  | plain hquote hback hcontrol => exact readString_unescaped ⟨hquote, hback, hcontrol⟩ s
  | @letter c letter hmem =>
    have hread : readEscape (letter :: s) = .ok (c, 1) := by
      simp only [escapes, List.mem_cons, Prod.mk.injEq, List.not_mem_nil, or_false] at hmem
      rcases hmem with ⟨rfl, rfl⟩ | ⟨rfl, rfl⟩ | ⟨rfl, rfl⟩ | ⟨rfl, rfl⟩ | ⟨rfl, rfl⟩ |
        ⟨rfl, rfl⟩ | ⟨rfl, rfl⟩ | ⟨rfl, rfl⟩ <;> rfl
    exact readString_escape hread
  | @code n t ht hplain =>
    have hread : readEscape ('u' :: (t ++ s)) = .ok (Char.ofNat n, 5) := by
      simp [readEscape, readUnicode_code ht hplain]
    have hstring := readString_escape hread
    rwa [List.drop_succ_cons, List.drop_left' (length_of_spellsCode ht)] at hstring
  | @pair m n t u ht hu hm hn =>
    have hread : readEscape ('u' :: (t ++ (['\\', 'u'] ++ (u ++ s)))) =
        .ok (Char.ofNat (pairValue m n), 11) := by
      simp only [readEscape, readUnicode_pair ht hu hm hn, ok_bind]
    have hlength : (t ++ ['\\', 'u'] ++ u).length = 10 := by
      simp [length_of_spellsCode ht, length_of_spellsCode hu]
    have hstring := readString_escape hread
    have hdrop : (t ++ ['\\', 'u'] ++ u ++ s).drop 10 = s := List.drop_left' hlength
    simp only [List.append_assoc] at hdrop
    rw [List.drop_succ_cons, hdrop] at hstring
    simp only [List.append_assoc]
    exact hstring

theorem readString_step {cs s rest : List Char} (h : readString 0 s = .ok (cs, rest)) :
    (cs = [] ∧ s = '"' :: rest) ∨
    (∃ c cs' t s', cs = c :: cs' ∧ s = t ++ s' ∧ SpellsChar c t ∧
      readString 0 s' = .ok (cs', rest)) := by
  cases s with
  | nil => cases h
  | cons c s =>
    by_cases hquote : c = '"'
    · subst hquote
      rw [readString_quote] at h
      cases h
      exact .inl ⟨rfl, rfl⟩
    by_cases hback : c = '\\'
    · subst hback
      cases hescape : readEscape s with
      | error f =>
        rw [readString, if_neg (by decide), if_pos rfl, hescape] at h
        cases h
      | ok p =>
        obtain ⟨d, taken⟩ := p
        obtain ⟨t, s', rfl, rfl, ht⟩ := readEscape_ok hescape
        rw [readString_escape hescape, List.drop_left] at h
        obtain ⟨⟨ds, rest'⟩, hread, hresult⟩ := map_eq_ok_iff.mp h
        cases hresult
        exact .inr ⟨d, ds, '\\' :: t, s', rfl, rfl, ht, hread⟩
    by_cases hcontrol : c < ' '
    · rw [readString, if_neg hquote, if_neg hback, if_pos hcontrol] at h
      cases h
    · rw [readString_unescaped ⟨hquote, hback, hcontrol⟩] at h
      obtain ⟨⟨ds, rest'⟩, hread, hresult⟩ := map_eq_ok_iff.mp h
      cases hresult
      exact .inr ⟨c, ds, [c], s, rfl, rfl, .plain hquote hback hcontrol, hread⟩

theorem readString_ok_iff {cs s rest : List Char} :
    readString 0 s = .ok (cs, rest) ↔ ∃ t, SpellsText cs t ∧ s = t ++ '"' :: rest := by
  constructor
  · intro h
    induction cs generalizing s with
    | nil =>
      rcases readString_step h with ⟨_, rfl⟩ | ⟨_, _, _, _, hcs, _⟩
      · exact ⟨[], .nil, rfl⟩
      · cases hcs
    | cons c cs ih =>
      rcases readString_step h with ⟨hcs, _⟩ | ⟨d, ds, t, s', hcs, rfl, ht, hread⟩
      · cases hcs
      · cases hcs
        obtain ⟨u, hu, rfl⟩ := ih hread
        exact ⟨t ++ u, .cons ht hu, by rw [List.append_assoc]⟩
  · rintro ⟨t, ht, rfl⟩
    induction ht with
    | nil => exact readString_quote rest
    | cons hc _ ih =>
      rw [List.append_assoc, readString_spellsChar hc, ih]
      rfl

theorem le_foldl_digits (n : Nat) (digits : List Char) :
    n ≤ digits.foldl (fun n c => 10 * n + Number.digitValue c) n := by
  induction digits generalizing n with
  | nil => exact Nat.le_refl n
  | cons c digits ih =>
    have hrest := ih (10 * n + Number.digitValue c)
    rw [List.foldl_cons]
    omega

theorem digitValue_pos {c : Char} (h : Number.isDigit c = true) (h0 : c ≠ '0') :
    0 < Number.digitValue c := by
  simp only [Number.isDigit, Bool.and_eq_true, decide_eq_true_eq] at h
  have hlow : 48 ≤ c.toNat := h.1
  have hne : c.toNat ≠ 48 := fun he => h0 (Char.toNat_inj.mp he)
  rw [Number.digitValue]
  omega

theorem IsNumeral.head {digits : List Char} (h : IsNumeral digits) :
    ∃ c t, digits = c :: t ∧ Number.isDigit c = true := by
  cases digits with
  | nil => exact absurd rfl h.nonempty
  | cons c t => exact ⟨c, t, rfl, h.isDigit c List.mem_cons_self⟩

theorem IsNumeral.valueOf_pos {digits : List Char} (h : IsNumeral digits) (h0 : digits ≠ ['0']) :
    0 < Number.valueOf digits := by
  obtain ⟨c, digits, rfl, hdigit⟩ := h.head
  have hc : c ≠ '0' := by
    rintro rfl
    exact h0 (h.leading rfl)
  have hpos := digitValue_pos hdigit hc
  have hle := le_foldl_digits (10 * 0 + Number.digitValue c) digits
  rw [Number.valueOf, List.foldl_cons]
  omega

theorem IsNumeral.valueOf_eq_zero_iff {digits : List Char} (h : IsNumeral digits) :
    Number.valueOf digits = 0 ↔ digits = ['0'] := by
  constructor
  · intro hzero
    by_cases h0 : digits = ['0']
    · exact h0
    · have hpos := h.valueOf_pos h0
      omega
  · rintro rfl
    rfl

theorem splitDigits_eq_iff {s run rest : List Char} :
    splitDigits s = (run, rest) ↔
      (∀ c ∈ run, Number.isDigit c = true) ∧ Text.Stops Number.isDigit rest ∧ s = run ++ rest := by
  constructor
  · intro h
    obtain ⟨rfl, rfl⟩ := Prod.mk.inj h
    refine ⟨fun c hc => List.all_eq_true.mp List.all_takeWhile c hc, fun c hc => ?_,
      List.takeWhile_append_dropWhile.symm⟩
    have hstop := List.head?_dropWhile_not Number.isDigit s
    rw [hc] at hstop
    exact hstop
  · rintro ⟨hrun, hrest, rfl⟩
    exact splitDigits_run hrun hrest

theorem readWhole_zero {rest : List Char} (h : Text.Stops Number.isDigit rest) :
    readWhole ('0' :: rest) = .ok (['0'], rest) := by
  cases rest with
  | nil => rfl
  | cons c rest =>
    have hc : Number.isDigit c = false := h c rfl
    simp [readWhole, hc]

theorem readWhole_ok_iff {s digits rest : List Char} :
    readWhole s = .ok (digits, rest) ↔
      IsNumeral digits ∧ Text.Stops Number.isDigit rest ∧ s = digits ++ rest := by
  constructor
  · intro h
    unfold readWhole at h
    split at h
    · cases h
    · split at h
      · cases h
      · rename_i c tail hc
        cases h
        exact ⟨⟨by simp, List.forall_mem_singleton.mpr rfl, fun _ => rfl⟩,
          Text.stops_cons (by simpa using hc) _, rfl⟩
    · rename_i c s hzero
      split at h
      · rename_i hc
        obtain ⟨hrun, hstop, hs⟩ := splitDigits_eq_iff.mp (Except.ok.inj h)
        refine ⟨⟨?_, hrun, fun hhead => ?_⟩, hstop, hs⟩
        · rintro rfl
          have hno := hstop c (by rw [← List.nil_append rest, ← hs]; rfl)
          rw [hc] at hno
          cases hno
        · cases digits with
          | nil => cases hhead
          | cons d digits =>
            cases hhead
            obtain ⟨rfl, htail⟩ := List.cons.inj hs
            cases s with
            | nil => rw [(List.append_eq_nil_iff.mp htail.symm).1]
            | cons d s => exact (hzero d s rfl rfl).elim
      · cases h
  · rintro ⟨hnumeral, hrest, rfl⟩
    obtain ⟨c, digits, rfl, hdigit⟩ := hnumeral.head
    by_cases hc : c = '0'
    · subst hc
      rw [hnumeral.leading rfl]
      exact readWhole_zero hrest
    · rw [List.cons_append, readWhole_of_ne_zero hc hdigit, ← List.cons_append,
        splitDigits_run hnumeral.isDigit hrest]

theorem found?_eq_integer_iff {n : Numeral} {z : Int} :
    n.found? = some (.integer z) ↔ n.fraction? = none ∧ n.exponent? = none ∧
      Number.fits n.wholeValue = true ∧ ¬(n.negative = true ∧ n.wholeValue = 0) ∧
      z = n.wholeValue := by
  have hwhole : n.isWhole = true ↔ n.fraction? = none ∧ n.exponent? = none := by
    simp [Numeral.isWhole, Option.isNone_iff_eq_none]
  rw [Numeral.found?]
  constructor
  · intro h
    split at h
    · rename_i hinteger
      obtain ⟨hparts, hfits, hzero⟩ := hinteger
      cases h
      exact ⟨(hwhole.mp hparts).1, (hwhole.mp hparts).2, hfits, hzero, rfl⟩
    · obtain ⟨_, _, hfloat⟩ := Option.map_eq_some_iff.mp h
      cases hfloat
  · rintro ⟨hfraction, hexponent, hfits, hzero, rfl⟩
    rw [if_pos ⟨hwhole.mpr ⟨hfraction, hexponent⟩, hfits, hzero⟩]

theorem readFraction?_none {s rest : List Char} (h : readFraction? s = .ok (none, rest)) :
    rest = s ∧ s.head? ≠ some '.' := by
  unfold readFraction? at h
  split at h
  · split at h <;> cases h
  · rename_i hpoint
    cases h
    refine ⟨rfl, fun hhead => ?_⟩
    obtain ⟨tail, htail⟩ := List.head?_eq_some_iff.mp hhead
    exact hpoint tail htail

theorem readExponent?_none {isZero : Bool} {s rest : List Char}
    (h : readExponent? isZero s = .ok (none, rest)) :
    rest = s ∧ s.head? ≠ some 'e' ∧ s.head? ≠ some 'E' := by
  cases s with
  | nil => cases h; simp
  | cons c s =>
    rw [readExponent?] at h
    split at h
    · obtain ⟨_, _, hsome⟩ := bind_eq_ok_iff.mp h
      cases hsome
    · rename_i hc
      cases h
      simpa using hc

theorem endsNumber_of_heads {s : List Char} (h : Text.Stops Number.isDigit s)
    (hpoint : s.head? ≠ some '.') (he : s.head? ≠ some 'e') (hE : s.head? ≠ some 'E') :
    EndsNumber s := by
  intro c hc
  have hdigit := h c hc
  rw [Option.mem_def] at hc
  rw [hc] at hpoint he hE
  simp only [ne_eq, Option.some.injEq] at hpoint he hE
  simp [hdigit, hpoint, he, hE]

theorem found?_ne_string {n : Numeral} {name : String} : n.found? ≠ some (.string name) := by
  intro h
  rw [Numeral.found?] at h
  split at h
  · cases h
  · obtain ⟨_, _, hfloat⟩ := Option.map_eq_some_iff.mp h
    cases hfloat

theorem readMagnitude_ok {negative : Bool} {s rest : List Char} {found : Text.Found}
    (h : readMagnitude negative s = .ok (found, rest)) :
    ∃ whole fraction? exponent? isZero s1 s2, readWhole s = .ok (whole, s1) ∧
      readFraction? s1 = .ok (fraction?, s2) ∧ readExponent? isZero s2 = .ok (exponent?, rest) ∧
      Numeral.found? ⟨negative, whole, fraction?, exponent?⟩ = some found := by
  obtain ⟨⟨whole, s1⟩, hwhole, h1⟩ := bind_eq_ok_iff.mp h
  obtain ⟨⟨fraction?, s2⟩, hfraction, h2⟩ := bind_eq_ok_iff.mp h1
  obtain ⟨⟨exponent?, s3⟩, hexponent, h3⟩ := bind_eq_ok_iff.mp h2
  dsimp only at h3
  split at h3
  · rename_i hfound
    cases h3
    exact ⟨whole, fraction?, exponent?, _, s1, s2, hwhole, hfraction, hexponent, hfound⟩
  · cases h3

theorem readNumber_ne_string {s rest : List Char} {name : String} :
    readNumber s ≠ .ok (.string name, rest) := by
  intro h
  unfold readNumber at h
  split at h
  all_goals
    obtain ⟨_, _, _, _, _, _, _, _, _, hfound⟩ := readMagnitude_ok h
    exact found?_ne_string hfound

theorem wholeValue_eq_zero_iff {digits : List Char} (h : IsNumeral digits) (negative : Bool) :
    (Numeral.mk negative digits none none).wholeValue = 0 ↔ digits = ['0'] := by
  rw [Numeral.wholeValue, ← h.valueOf_eq_zero_iff]
  cases negative <;> simp

/-- A number is an integer when it has neither fraction nor exponent and is no zero with a sign. -/
theorem readMagnitude_integer_iff {negative : Bool} {s rest : List Char} {z : Int} :
    readMagnitude negative s = .ok (.integer z, rest) ↔
      ∃ digits, IsNumeral digits ∧ EndsNumber rest ∧ s = digits ++ rest ∧
        z = (if negative then -(Number.valueOf digits : Int) else Number.valueOf digits) ∧
        Number.fits z = true ∧ ¬(negative = true ∧ digits = ['0']) := by
  constructor
  · intro h
    obtain ⟨digits, _, _, _, s1, s2, hwhole, hfraction, hexponent, hfound⟩ := readMagnitude_ok h
    obtain ⟨hnumeral, hstop, rfl⟩ := readWhole_ok_iff.mp hwhole
    obtain ⟨rfl, rfl, hfits, hzero, rfl⟩ := found?_eq_integer_iff.mp hfound
    obtain ⟨rfl, hpoint⟩ := readFraction?_none hfraction
    obtain ⟨rfl, he, hE⟩ := readExponent?_none hexponent
    refine ⟨digits, hnumeral, endsNumber_of_heads hstop hpoint he hE, rfl, rfl, hfits, ?_⟩
    rwa [← wholeValue_eq_zero_iff hnumeral]
  · rintro ⟨digits, hnumeral, hends, rfl, rfl, hfits, hzero⟩
    have hfound : (Numeral.mk negative digits none none).found? =
        some (.integer (Numeral.mk negative digits none none).wholeValue) := by
      refine found?_eq_integer_iff.mpr ⟨rfl, rfl, hfits, ?_, rfl⟩
      rwa [wholeValue_eq_zero_iff hnumeral]
    have hwhole : readWhole (digits ++ rest) = .ok (digits, rest) :=
      readWhole_ok_iff.mpr ⟨hnumeral, hends.stops_isDigit, rfl⟩
    simp [readMagnitude, hwhole, readFraction?_of_endsNumber hends,
      readExponent?_of_endsNumber hends, hfound]
    rfl

theorem SpellsInteger.head {z : Int} {s : List Char} (h : SpellsInteger z s) :
    ∃ c t, s = c :: t ∧ (c = '-' ∨ Number.isDigit c = true) := by
  cases h with
  | negative => exact ⟨'-', _, rfl, .inl rfl⟩
  | unsigned hnumeral =>
    obtain ⟨c, t, rfl, hc⟩ := hnumeral.head
    exact ⟨c, t, rfl, .inr hc⟩

theorem readNumber_integer_iff {s rest : List Char} {z : Int} :
    readNumber s = .ok (.integer z, rest) ↔
      ∃ t, SpellsInteger z t ∧ Number.fits z = true ∧ EndsNumber rest ∧ s = t ++ rest := by
  constructor
  · intro h
    unfold readNumber at h
    split at h
    · obtain ⟨digits, hnumeral, hends, rfl, rfl, hfits, hzero⟩ := readMagnitude_integer_iff.mp h
      simp only [true_and] at hzero
      exact ⟨'-' :: digits, .negative hnumeral hzero, hfits, hends, rfl⟩
    · obtain ⟨digits, hnumeral, hends, rfl, rfl, hfits, _⟩ := readMagnitude_integer_iff.mp h
      exact ⟨digits, .unsigned hnumeral, hfits, hends, rfl⟩
  · rintro ⟨t, ht, hfits, hends, rfl⟩
    cases ht with
    | negative hnumeral hzero =>
      exact readMagnitude_integer_iff.mpr ⟨_, hnumeral, hends, rfl, rfl, hfits, by simp [hzero]⟩
    | unsigned hnumeral =>
      obtain ⟨c, digits, rfl, hc⟩ := hnumeral.head
      rw [List.cons_append, readNumber_of_digit hc]
      exact readMagnitude_integer_iff.mpr ⟨_, hnumeral, hends, rfl, rfl, hfits, by simp⟩

end ArithTree.Json
