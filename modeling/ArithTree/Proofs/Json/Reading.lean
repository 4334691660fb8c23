import ArithTree.Json.Tree
import ArithTree.Proofs.Json.RoundTrip
import ArithTree.Proofs.Json.Scanning

/-!
# Texts that are read as trees

A text is read as a tree when it spells the tree and the tree is not too tall, and then only.
Each reader of a part of a node gets one equivalence, which says both what it takes and that it
takes nothing else. The readers of nodes and of lists of operands call each other; the
equivalence for nodes is carried from each height to the next.
-/

set_option autoImplicit false

namespace ArithTree.Json

def SpellsContent : Tag → Expr → List Char → Prop
  | .const, e, s => ∃ value, e = .const value ∧ SpellsInteger value.toInt s
  | .var, e, s => ∃ name t, e = .var name ∧ SpellsText name.toList t ∧ s = '"' :: (t ++ ['"'])
  | .operation op, e, s => ∃ left right l r a b c d, e = .binary op left right ∧
      Spells left l ∧ Spells right r ∧ Blank a ∧ Blank b ∧ Blank c ∧ Blank d ∧
      s = '[' :: (a ++ (l ++ (b ++ ',' :: (c ++ (r ++ (d ++ [']']))))))

theorem spells_iff {e : Expr} {s : List Char} :
    Spells e s ↔ ∃ tag content, SpellsContent tag e content ∧ SpellsObject tag.name content s := by
  constructor
  · intro h
    cases h with
    | const hinteger hobject => exact ⟨.const, _, ⟨_, rfl, hinteger⟩, hobject⟩
    | var htext hobject => exact ⟨.var, _, ⟨_, _, rfl, htext, rfl⟩, hobject⟩
    | binary hl hr ha hb hc hd hobject =>
      exact ⟨.operation _, _, ⟨_, _, _, _, _, _, _, _, rfl, hl, hr, ha, hb, hc, hd, by simp⟩,
        hobject⟩
  · rintro ⟨tag, content, hcontent, hobject⟩
    cases tag with
    | const =>
      obtain ⟨value, rfl, hinteger⟩ := hcontent
      exact .const hinteger hobject
    | var =>
      obtain ⟨name, t, rfl, htext, rfl⟩ := hcontent
      exact .var htext hobject
    | operation op =>
      obtain ⟨left, right, l, r, a, b, c, d, rfl, hl, hr, ha, hb, hc, hd, rfl⟩ := hcontent
      exact .binary hl hr ha hb hc hd (by simpa [Tag.name] using hobject)

theorem SpellsContent.operation_head {op : Operator} {e : Expr} {s : List Char}
    (h : SpellsContent (.operation op) e s) : ∃ t, s = '[' :: t := by
  obtain ⟨_, _, _, _, _, _, _, _, _, _, _, _, _, _, _, hs⟩ := h
  exact ⟨_, hs⟩

theorem Spells.head {e : Expr} {s : List Char} (h : Spells e s) : ∃ t, s = '\x7b' :: t := by
  obtain ⟨tag, content, _, hobject⟩ := spells_iff.mp h
  cases hobject
  exact ⟨_, rfl⟩

theorem readFound_integer_iff {s rest : List Char} {z : Int} :
    readFound s = .ok (.integer z, rest) ↔ readNumber s = .ok (.integer z, rest) := by
  constructor
  · intro h
    unfold readFound at h
    split at h
    case h_8 =>
      split at h
      · exact h
      · cases h
    case h_2 | h_3 | h_4 | h_5 =>
      obtain ⟨_, _, hfound⟩ := bind_eq_ok_iff.mp h
      cases hfound
    all_goals cases h
  · intro h
    obtain ⟨t, ht, _, _, rfl⟩ := readNumber_integer_iff.mp h
    obtain ⟨c, t', rfl, hc⟩ := ht.head
    rwa [List.cons_append, readFound_number hc]

theorem readFound_string_iff {s rest : List Char} {name : String} :
    readFound s = .ok (.string name, rest) ↔
      ∃ t, SpellsText name.toList t ∧ s = '"' :: (t ++ '"' :: rest) := by
  constructor
  · intro h
    unfold readFound at h
    split at h
    case h_5 =>
      obtain ⟨⟨cs, s'⟩, hstring, hfound⟩ := bind_eq_ok_iff.mp h
      obtain ⟨t, ht, rfl⟩ := readString_ok_iff.mp hstring
      cases hfound
      exact ⟨t, by rwa [String.toList_ofList], rfl⟩
    case h_8 =>
      split at h
      · exact absurd h readNumber_ne_string
      · cases h
    case h_2 | h_3 | h_4 =>
      obtain ⟨_, _, hfound⟩ := bind_eq_ok_iff.mp h
      cases hfound
    all_goals cases h
  · rintro ⟨t, ht, rfl⟩
    have hstring := readString_ok_iff.mpr ⟨t, ht, Eq.refl (t ++ '"' :: rest)⟩
    simp [readFound, hstring, String.ofList_toList]

theorem readConstant_ok_iff {s rest : List Char} {e : Expr} :
    readConstant s = .ok (e, rest) ↔
      ∃ value t, e = .const value ∧ SpellsInteger value.toInt t ∧ EndsNumber rest ∧
        s = t ++ rest := by
  constructor
  · intro h
    obtain ⟨⟨found, s'⟩, hfound, hword⟩ := bind_eq_ok_iff.mp h
    dsimp only at hword
    split at hword
    · split at hword
      · rename_i n value hvalue
        cases hword
        obtain ⟨t, ht, _, hends, hs⟩ := readNumber_integer_iff.mp (readFound_integer_iff.mp hfound)
        rw [← Number.word?_eq_some_iff.mp hvalue] at ht
        exact ⟨value, t, rfl, ht, hends, hs⟩
      · cases hword
    · cases hword
  · rintro ⟨value, t, rfl, ht, hends, rfl⟩
    have hread : readFound (t ++ rest) = .ok (.integer value.toInt, rest) :=
      readFound_integer_iff.mpr
        (readNumber_integer_iff.mpr ⟨t, ht, Number.fits_toInt value, hends, rfl⟩)
    simp [readConstant, hread]

theorem readVariable_ok_iff {s rest : List Char} {e : Expr} :
    readVariable s = .ok (e, rest) ↔
      ∃ name t, e = .var name ∧ SpellsText name.toList t ∧ s = '"' :: (t ++ '"' :: rest) := by
  constructor
  · intro h
    obtain ⟨⟨found, s'⟩, hfound, hname⟩ := bind_eq_ok_iff.mp h
    dsimp only at hname
    split at hname
    · rename_i name
      cases hname
      obtain ⟨t, ht, hs⟩ := readFound_string_iff.mp hfound
      exact ⟨name, t, rfl, ht, hs⟩
    · cases hname
  · rintro ⟨name, t, rfl, ht, hs⟩
    have hread := readFound_string_iff.mpr ⟨t, ht, hs⟩
    simp [readVariable, hread]

theorem refuse_ne_ok {α : Type} {expected : String} {s : List Char} {a : α} :
    refuse expected s ≠ .ok a := by
  intro h
  obtain ⟨_, _, hfail⟩ := bind_eq_ok_iff.mp h
  cases hfail

theorem Tag.ofName?_eq_some_iff {name : String} {tag : Tag} :
    Tag.ofName? name = some tag ↔ tag.name = name := by
  constructor
  · intro h
    simpa using List.find?_some h
  · rintro rfl
    exact Tag.ofName?_name tag

theorem readTag_ok_iff {s rest : List Char} {tag : Tag} :
    readTag s = .ok (tag, rest) ↔ ∃ t, SpellsText tag.name.toList t ∧ s = t ++ '"' :: rest := by
  constructor
  · intro h
    obtain ⟨⟨cs, s'⟩, hstring, htag⟩ := bind_eq_ok_iff.mp h
    dsimp only at htag
    split at htag
    · rename_i found hfound
      cases htag
      rw [Tag.ofName?_eq_some_iff.mp hfound, String.toList_ofList]
      exact readString_ok_iff.mp hstring
    · cases htag
  · intro h
    have hstring := readString_ok_iff.mpr h
    simp [readTag, hstring, String.ofList_toList]

/-- A reader takes the spellings of trees up to a height, with the white space before them. -/
def ReadsUpTo (height : Nat) (operand : Reader Expr) : Prop :=
  ∀ {s rest : List Char} {e : Expr}, operand s = .ok (e, rest) ↔
    e.height ≤ height ∧ ∃ a t, Blank a ∧ Spells e t ∧ s = a ++ (t ++ rest)

theorem readListEnd_ok_iff {s rest : List Char} :
    readListEnd s = .ok rest ↔ ∃ d, Blank d ∧ s = d ++ ']' :: rest := by
  rw [← skipSpace_eq_cons_iff rfl]
  constructor
  · intro h
    unfold readListEnd at h
    split at h
    · cases h
    · rename_i hbracket
      cases h
      exact hbracket
    · split at h <;> cases h
    · cases h
  · intro h
    simp only [readListEnd, h]

theorem readSecond_ok_iff {height : Nat} {operand : Reader Expr}
    (hoperand : ReadsUpTo height operand) {op : Operator} {s rest : List Char} {e : Expr} :
    readSecond op operand s = .ok (e, rest) ↔
      e.height ≤ height ∧ ∃ b c t, Blank b ∧ Blank c ∧ Spells e t ∧
        s = b ++ ',' :: (c ++ (t ++ rest)) := by
  constructor
  · intro h
    unfold readSecond at h
    split at h
    case h_3 after hcomma =>
      obtain ⟨b, hb, rfl⟩ := (skipSpace_eq_cons_iff rfl).mp hcomma
      obtain ⟨c, hc, hafter⟩ := exists_blank_skipSpace after
      split at h
      · cases h
      · cases h
      · -- The operand may have skipped white space too, as far as its own equivalence tells.
        obtain ⟨hheight, c', t, hc', ht, hskip⟩ := hoperand.mp h
        refine ⟨hheight, b, c ++ c', t, hb, hc.append hc', ht, ?_⟩
        rw [List.append_assoc, ← hskip, ← hafter]
    all_goals cases h
  · rintro ⟨hheight, b, c, t, hb, hc, ht, rfl⟩
    obtain ⟨t, rfl⟩ := ht.head
    rw [readSecond, skipSpace_blank_cons hb rfl]
    simp only [List.cons_append, skipSpace_blank_cons hc (c := '\x7b') rfl]
    exact hoperand.mpr ⟨hheight, [], _, .nil, ht, rfl⟩

theorem placeInList_eq_ok_iff {α : Type} {x : Except Failure α} {a : α} :
    placeInList x = .ok a ↔ x = .ok a := by
  cases x with
  | ok => exact Iff.rfl
  | error f =>
    obtain ⟨cause, place⟩ := f
    cases place <;> simp [placeInList, failHere]

theorem readOperands_ok_iff {height : Nat} {operand : Reader Expr}
    (hoperand : ReadsUpTo height operand) {op : Operator} {s rest : List Char} {e : Expr} :
    readOperands op operand s = .ok (e, rest) ↔
      e.height ≤ height + 1 ∧
        ∃ content, SpellsContent (.operation op) e ('[' :: content) ∧ s = content ++ rest := by
  rw [readOperands, placeInList_eq_ok_iff]
  constructor
  · intro h
    obtain ⟨a, ha, hs⟩ := exists_blank_skipSpace s
    split at h
    · cases h
    · cases h
    · obtain ⟨⟨left, s1⟩, hleft, h1⟩ := bind_eq_ok_iff.mp h
      obtain ⟨⟨right, s2⟩, hright, h2⟩ := bind_eq_ok_iff.mp h1
      obtain ⟨s3, hend, h3⟩ := bind_eq_ok_iff.mp h2
      cases h3
      obtain ⟨hl, a', l, ha', hsl, hskip⟩ := hoperand.mp hleft
      obtain ⟨hr, b, c, r, hb, hc, hsr, rfl⟩ := (readSecond_ok_iff hoperand).mp hright
      obtain ⟨d, hd, rfl⟩ := readListEnd_ok_iff.mp hend
      refine ⟨by rw [Expr.height]; omega, _,
        ⟨left, right, l, r, a ++ a', b, c, d, rfl, hsl, hsr, ha.append ha', hb, hc, hd, rfl⟩, ?_⟩
      rw [hs, hskip]
      simp
  · rintro ⟨hheight, content, hcontent, rfl⟩
    obtain ⟨left, right, l, r, a, b, c, d, rfl, hl, hr, ha, hb, hc, hd, hlist⟩ := hcontent
    obtain ⟨_, rfl⟩ := List.cons.inj hlist
    rw [Expr.height] at hheight
    have hend : readListEnd (d ++ ']' :: rest) = .ok rest := readListEnd_ok_iff.mpr ⟨d, hd, rfl⟩
    have hright : readSecond op operand (b ++ ',' :: (c ++ (r ++ (d ++ ']' :: rest)))) =
        .ok (right, d ++ ']' :: rest) :=
      (readSecond_ok_iff hoperand).mpr ⟨by omega, b, c, r, hb, hc, hr, rfl⟩
    have hleft : operand (l ++ (b ++ ',' :: (c ++ (r ++ (d ++ ']' :: rest))))) =
        .ok (left, b ++ ',' :: (c ++ (r ++ (d ++ ']' :: rest)))) :=
      hoperand.mpr ⟨by omega, [], l, .nil, hl, rfl⟩
    obtain ⟨l, rfl⟩ := hl.head
    simp only [List.append_assoc, List.cons_append, List.nil_append] at hleft ⊢
    rw [skipSpace_blank_cons ha rfl]
    exact bind_eq_ok_iff.mpr ⟨_, hleft, bind_eq_ok_iff.mpr ⟨_, hright,
      bind_eq_ok_iff.mpr ⟨_, hend, rfl⟩⟩⟩

def ReadsLists (height : Nat) (list : Operator → Reader Expr) : Prop :=
  ∀ {op : Operator} {s rest : List Char} {e : Expr}, list op ('[' :: s) = .ok (e, rest) ↔
    e.height ≤ height ∧
      ∃ content, SpellsContent (.operation op) e ('[' :: content) ∧ s = content ++ rest

theorem skipSpace_spellsInteger {c t : List Char} {z : Int} (hc : Blank c) (ht : SpellsInteger z t)
    (rest : List Char) : skipSpace (c ++ (t ++ rest)) = t ++ rest := by
  obtain ⟨d, t, rfl, hd⟩ := ht.head
  apply skipSpace_blank_cons hc
  rcases hd with rfl | hdigit
  · rfl
  · exact isSpace_of_isDigit hdigit

/-- After a number the text must not go on with a character of a number. -/
theorem readContent_ok_iff {height : Nat} {list : Operator → Reader Expr}
    (hlist : ReadsLists (height + 1) list) {tag : Tag} {s rest : List Char} {e : Expr} :
    readContent list tag s = .ok (e, rest) ↔
      e.height ≤ height + 1 ∧ (tag = .const → EndsNumber rest) ∧
        ∃ c content, Blank c ∧ SpellsContent tag e content ∧ s = c ++ (content ++ rest) := by
  cases tag with
  | const =>
    rw [readContent, readConstant_ok_iff]
    constructor
    · rintro ⟨value, t, rfl, ht, hends, hskip⟩
      obtain ⟨c, hc, hs⟩ := exists_blank_skipSpace s
      exact ⟨by simp, fun _ => hends, c, t, hc, ⟨value, rfl, ht⟩, hskip ▸ hs⟩
    · rintro ⟨_, hends, c, content, hc, ⟨value, rfl, ht⟩, rfl⟩
      exact ⟨value, content, rfl, ht, hends rfl, skipSpace_spellsInteger hc ht rest⟩
  | var =>
    rw [readContent, readVariable_ok_iff]
    constructor
    · rintro ⟨name, t, rfl, ht, hskip⟩
      obtain ⟨c, hc, hs⟩ := exists_blank_skipSpace s
      refine ⟨by simp, by simp, c, _, hc, ⟨name, t, rfl, ht, rfl⟩, ?_⟩
      rw [hs, hskip]
      simp
    · rintro ⟨_, _, c, content, hc, ⟨name, t, rfl, ht, rfl⟩, rfl⟩
      refine ⟨name, t, rfl, ht, ?_⟩
      simp only [List.cons_append, List.append_assoc, List.nil_append]
      exact skipSpace_blank_cons hc rfl _
  | operation op =>
    constructor
    · intro h
      obtain ⟨c, hc, hs⟩ := exists_blank_skipSpace s
      unfold readContent at h
      split at h
      case h_3 inside htag hbracket =>
        cases htag
        obtain ⟨hheight, content, hcontent, rfl⟩ := hlist.mp h
        refine ⟨hheight, by simp, c, _, hc, hcontent, ?_⟩
        rw [hs, hbracket, List.cons_append]
      case h_4 => exact absurd h refuse_ne_ok
      all_goals contradiction
    · rintro ⟨hheight, _, c, content, hc, hcontent, rfl⟩
      obtain ⟨inside, rfl⟩ := hcontent.operation_head
      unfold readContent
      rw [List.cons_append, skipSpace_blank_cons hc rfl]
      exact hlist.mpr ⟨hheight, inside, hcontent, rfl⟩

theorem readMember_ok_iff {list : Operator → Reader Expr} {s rest : List Char} {e : Expr} :
    readMember list s = .ok (e, rest) ↔
      ∃ tag a key b s' d, Blank a ∧ SpellsText tag.name.toList key ∧ Blank b ∧ Blank d ∧
        readContent list tag s' = .ok (e, d ++ '\x7d' :: rest) ∧
        s = a ++ '"' :: (key ++ '"' :: (b ++ ':' :: s')) := by
  constructor
  · intro h
    unfold readMember at h
    split at h
    case h_2 quoted hquote =>
      obtain ⟨⟨tag, s1⟩, htag, h1⟩ := bind_eq_ok_iff.mp h
      dsimp only at h1
      split at h1
      case h_2 s' hcolon =>
        obtain ⟨⟨e', s2⟩, hcontent, h2⟩ := bind_eq_ok_iff.mp h1
        dsimp only at h2
        split at h2
        case h_2 rest hbrace =>
          cases h2
          obtain ⟨a, ha, rfl⟩ := (skipSpace_eq_cons_iff rfl).mp hquote
          obtain ⟨key, hkey, rfl⟩ := readTag_ok_iff.mp htag
          obtain ⟨b, hb, rfl⟩ := (skipSpace_eq_cons_iff rfl).mp hcolon
          obtain ⟨d, hd, rfl⟩ := (skipSpace_eq_cons_iff rfl).mp hbrace
          exact ⟨tag, a, key, b, s', d, ha, hkey, hb, hd, hcontent, rfl⟩
        all_goals cases h2
      all_goals cases h1
    all_goals cases h
  · rintro ⟨tag, a, key, b, s', d, ha, hkey, hb, hd, hcontent, rfl⟩
    have htag : readTag (key ++ '"' :: (b ++ ':' :: s')) = .ok (tag, b ++ ':' :: s') :=
      readTag_ok_iff.mpr ⟨key, hkey, rfl⟩
    rw [readMember, skipSpace_blank_cons ha rfl]
    refine bind_eq_ok_iff.mpr ⟨_, htag, ?_⟩
    dsimp only
    rw [skipSpace_blank_cons hb rfl]
    refine bind_eq_ok_iff.mpr ⟨_, hcontent, ?_⟩
    simp only [skipSpace_blank_cons hd (c := '\x7d') rfl]

theorem readNode_ok_iff {object : Reader Expr} {s rest : List Char} {e : Expr} :
    readNode object s = .ok (e, rest) ↔
      ∃ a s', Blank a ∧ object ('\x7b' :: s') = .ok (e, rest) ∧ s = a ++ '\x7b' :: s' := by
  constructor
  · intro h
    unfold readNode at h
    split at h
    case h_2 s' hbrace =>
      obtain ⟨a, ha, rfl⟩ := (skipSpace_eq_cons_iff rfl).mp hbrace
      exact ⟨a, s', ha, h, rfl⟩
    case h_3 =>
      obtain ⟨_, _, hfail⟩ := bind_eq_ok_iff.mp h
      cases hfail
    all_goals cases h
  · rintro ⟨a, s', ha, h, rfl⟩
    rw [readNode, skipSpace_blank_cons ha rfl]
    exact h

theorem readsUpTo_readNode {height : Nat} {list : Operator → Reader Expr}
    (hlist : ReadsLists (height + 1) list) :
    ReadsUpTo (height + 1) (readNode (opened (readMember list))) := by
  intro s rest e
  rw [readNode_ok_iff]
  constructor
  · rintro ⟨a, s', ha, hmember, rfl⟩
    obtain ⟨tag, a', key, b, s', d, ha', hkey, hb, hd, hread, rfl⟩ := readMember_ok_iff.mp hmember
    obtain ⟨hheight, _, c, content, hc, hcontent, rfl⟩ := (readContent_ok_iff hlist).mp hread
    have hspells := spells_iff.mpr ⟨tag, content, hcontent, .intro ha' hkey hb hc hd⟩
    exact ⟨hheight, a, _, ha, hspells, by simp⟩
  · rintro ⟨hheight, a, t, ha, ht, rfl⟩
    obtain ⟨tag, content, hcontent, hobject⟩ := spells_iff.mp ht
    cases hobject with
    | @intro a' key b c d ha' hkey hb hc hd =>
      have hread : readContent list tag (c ++ (content ++ (d ++ '\x7d' :: rest))) =
          .ok (e, d ++ '\x7d' :: rest) :=
        (readContent_ok_iff hlist).mpr
          ⟨hheight, fun _ => hd.endsNumber rest, c, content, hc, hcontent, rfl⟩
      have hmember := readMember_ok_iff.mpr ⟨tag, a', key, b, _, d, ha', hkey, hb, hd, hread, rfl⟩
      exact ⟨a, _, ha, hmember, by simp⟩

theorem readLevels_eq (height : Nat) :
    readLevels (2 * height + 1) = readNode (opened (readMember (operandLists height))) := by
  cases height <;> rfl

theorem readsLists_operandLists_zero : ReadsLists 1 (operandLists 0) := by
  intro op s rest e
  constructor
  · intro h
    cases h
  · rintro ⟨hheight, content, hcontent, rfl⟩
    obtain ⟨left, right, _, _, _, _, _, _, rfl, _⟩ := hcontent
    have hpos := left.height_pos
    rw [Expr.height] at hheight
    omega

theorem readsUpTo_readLevels (height : Nat) :
    ReadsUpTo (height + 1) (readLevels (2 * height + 1)) := by
  rw [readLevels_eq]
  apply readsUpTo_readNode
  -- The induction is on the readers of lists; at each height the reader of nodes comes from them.
  induction height with
  | zero => exact readsLists_operandLists_zero
  | succ height ih =>
    intro op s rest e
    rw [operandLists_bracket, readLevels_eq]
    exact readOperands_ok_iff (readsUpTo_readNode ih)

theorem readTree_ok_iff {s : List Char} {e : Expr} :
    readTree s = .ok e ↔
      e.height ≤ 63 + 1 ∧ ∃ a t b, Blank a ∧ Spells e t ∧ Blank b ∧ s = a ++ t ++ b := by
  constructor
  · intro h
    obtain ⟨⟨e', rest⟩, hread, hend⟩ := bind_eq_ok_iff.mp h
    dsimp only at hend
    split at hend
    · rename_i hblank
      cases hend
      obtain ⟨hheight, a, t, ha, ht, rfl⟩ := (readsUpTo_readLevels 63).mp hread
      exact ⟨hheight, a, t, rest, ha, ht, skipSpace_eq_nil_iff.mp hblank, by simp⟩
    · cases hend
  · rintro ⟨hheight, a, t, b, ha, ht, hb, rfl⟩
    have hread : readLevels maxNesting (a ++ t ++ b) = .ok (e, b) :=
      (readsUpTo_readLevels 63).mpr ⟨hheight, a, t, ha, ht, List.append_assoc a t b⟩
    refine bind_eq_ok_iff.mpr ⟨_, hread, ?_⟩
    dsimp only
    rw [skipSpace_eq_nil_iff.mpr hb]

end ArithTree.Json

namespace ArithTree

open Json

/-- A text is read as a tree exactly when it spells that tree and the tree has at most 64 levels.
Every other text is refused with a report on the file. -/
theorem Expr.ofJson_exact (text : String) :
    (∀ e, Expr.ofJson text = .ok e ↔ e.depth ≤ 64 ∧ IsTreeText e text) ∧
    ((¬∃ e : Expr, e.depth ≤ 64 ∧ IsTreeText e text) →
      ∃ report, Expr.ofJson text = .error report ∧ report.kind = .file) := by
  have hread (e : Expr) : Expr.ofJson text = .ok e ↔ e.depth ≤ 64 ∧ IsTreeText e text := by
    rw [Expr.ofJson, mapError_eq_ok_iff, readTree_ok_iff, Expr.depth_eq_height, IsTreeText]
  refine ⟨hread, fun hnone => ?_⟩
  cases htext : Expr.ofJson text with
  | ok e => exact absurd ⟨e, (hread e).mp htext⟩ hnone
  | error report =>
    obtain ⟨f, _, rfl⟩ := mapError_eq_error_iff.mp htext
    exact ⟨_, rfl, rfl⟩

theorem Expr.ofJson_exact_codes :
    Expr.ofJson "\t\x7b \"\\u0056ar\" :\"\\uD834\\udd1e\" \x7d\n" = .ok (.var "𝄞") ∧
      ∃ report, Expr.ofJson "\x7b\"Const\":-0\x7d" = .error report ∧ report.kind = .file := by
  constructor
  · refine ((Expr.ofJson_exact _).1 _).mpr ⟨by simp, ?_⟩
    have hletter : SpellsCode 0x56 ['0', '0', '5', '6'] :=
      .intro (i := 0) (j := 0) (k := 5) (l := 6) (.inl rfl) (.inl rfl) (.inl rfl) (.inl rfl)
    have hleading : SpellsCode 0xd834 ['D', '8', '3', '4'] :=
      .intro (i := 13) (j := 8) (k := 3) (l := 4) (.inr rfl) (.inl rfl) (.inl rfl) (.inl rfl)
    have htrailing : SpellsCode 0xdd1e ['d', 'd', '1', 'e'] :=
      .intro (i := 13) (j := 13) (k := 1) (l := 14) (.inl rfl) (.inl rfl) (.inl rfl) (.inl rfl)
    have htag : SpellsText "Var".toList ['\\', 'u', '0', '0', '5', '6', 'a', 'r'] :=
      .cons (.code hletter (by decide)) (.cons (.plain (by decide) (by decide) (by decide))
        (.cons (.plain (by decide) (by decide) (by decide)) .nil))
    have hname : SpellsText "𝄞".toList
        ['\\', 'u', 'D', '8', '3', '4', '\\', 'u', 'd', 'd', '1', 'e'] :=
      .cons (.pair hleading htrailing (by decide) (by decide)) .nil
    exact ⟨['\t'], _, ['\n'], by decide,
      .var hname (.intro (a := [' ']) (b := [' ']) (c := []) (d := [' ']) (by decide) htag
        (by decide) (by decide) (by decide)), by decide, rfl⟩
  · refine (Expr.ofJson_exact _).2 ?_
    rintro ⟨e, htext⟩
    have hread := ((Expr.ofJson_exact _).1 e).mpr htext
    cases hread

end ArithTree
