import ArithTree.Proofs.Toml.Scalar
import Mathlib.Data.List.Forall2

/-!
# Documents of simple lines

A document whose lines are empty, hold one header, or assign one value to one key is read line
by line, and each line gives one statement or none. Where in the text a key or a value stands is
kept in the statement but plays no part in what it says.
-/

set_option autoImplicit false

namespace ArithTree.Toml

structure WrittenField where
  name : String
  text : List Char
  value : Value

def WrittenField.content (f : WrittenField) : String × Value := (f.name, f.value)

inductive Line
  | blank
  | header (name : String) (grows : Bool)
  | entry (field : WrittenField)

namespace Line

def chars : Line → List Char
  | .blank => ['\n']
  | .header name true => '[' :: '[' :: (name.toList ++ [']', ']', '\n'])
  | .header name false => '[' :: (name.toList ++ [']', '\n'])
  | .entry field => writeKey field.name ++ ' ' :: '=' :: ' ' :: (field.text ++ ['\n'])

/-- The name of a header needs no quotation marks, and the text of a value is one of that value. -/
def Sound : Line → Prop
  | .blank => True
  | .header name _ => name.toList ≠ [] ∧ ∀ c ∈ name.toList, isBare c = true
  | .entry field => Spells field.text field.value

/-- What a line says, wherever it stands. -/
def Gives : Line → Option Statement → Prop
  | .blank, statement? => statement? = none
  | .header name grows, statement? =>
      ∃ h : Header, statement? = some (.header h) ∧ h.path = [] ∧ h.key.name = name ∧
        h.grows = grows
  | .entry field, statement? =>
      ∃ a : Assignment, statement? = some (.assign a) ∧ a.path = [] ∧ a.key.name = field.name ∧
        a.item.value = field.value

end Line

theorem readLineEnd_newline (rest : List Char) : readLineEnd ('\n' :: rest) = some rest := rfl

theorem not_isBlank_of_startsKey {c : Char} (h : StartsKey c) : isBlank c = false := by
  have hspace : c ≠ ' ' := by rintro rfl; exact absurd h (by decide)
  have htab : c ≠ '\t' := by rintro rfl; exact absurd h (by decide)
  exact isBlank_eq_false hspace htab

theorem readStatement_key {c : Char} (h : StartsKey c) (s : List Char) :
    readStatement (c :: s) =
      (readAssignment (some ∘ skipBlanks) (readLevels maxNesting) (c :: s)).map
        fun p => (some (.assign p.1), p.2) := by
  have hmarks : ¬(c = '#' ∨ c = '\n' ∨ c = '\r') := by
    rintro (rfl | rfl | rfl) <;> exact absurd h (by decide)
  rw [readStatement, skipBlanks_cons (not_isBlank_of_startsKey h)]
  split
  · contradiction
  · rename_i heq
    cases heq
    exact absurd h (by decide)
  · rename_i heq
    cases heq
    rw [if_neg hmarks]

theorem readAssignment_written {field : WrittenField} (h : Spells field.text field.value)
    (rest : List Char) :
    ∃ a : Assignment, readAssignment (some ∘ skipBlanks) (readLevels maxNesting)
        (writeKey field.name ++ ' ' :: '=' :: ' ' :: (field.text ++ '\n' :: rest)) =
          some (a, '\n' :: rest) ∧
      a.path = [] ∧ a.key.name = field.name ∧ a.item.value = field.value := by
  obtain ⟨hhead, hne, hread⟩ := h
  have hstop : Text.Stops isBare (' ' :: '=' :: ' ' :: (field.text ++ '\n' :: rest)) :=
    Text.stops_cons rfl _
  have hkey := readKey_writeKey field.name hstop
  have hpath := readPath_of_readKey hkey (Text.stops_cons rfl _)
  have hblank : skipBlanks (' ' :: '=' :: ' ' :: (field.text ++ '\n' :: rest)) =
      '=' :: ' ' :: (field.text ++ '\n' :: rest) := rfl
  have hequals : skipBlanks ('=' :: ' ' :: (field.text ++ '\n' :: rest)) =
      '=' :: ' ' :: (field.text ++ '\n' :: rest) := rfl
  have hvalue : skipBlanks (' ' :: (field.text ++ '\n' :: rest)) =
      field.text ++ '\n' :: rest := by
    obtain ⟨c, cs, hcs⟩ := List.exists_cons_of_ne_nil hne
    rw [hcs] at hhead ⊢
    exact skipBlanks_cons (hhead c rfl) _
  rw [hblank] at hpath
  simp only [readAssignment, hpath, bind, Option.bind, Function.comp, hequals, hvalue, hread]
  exact ⟨_, rfl, rfl, rfl, rfl⟩

theorem readLine_entry {field : WrittenField} (h : Spells field.text field.value)
    (rest : List Char) :
    ∃ statement?, readLine ((Line.entry field).chars ++ rest) =
        some (statement?, !rest.isEmpty, rest) ∧
      (Line.entry field).Gives statement? := by
  obtain ⟨a, hread, ha⟩ := readAssignment_written h rest
  obtain ⟨c, cs, hw, hc⟩ := writeKey_head field.name
  have hchars : (Line.entry field).chars ++ rest =
      writeKey field.name ++ ' ' :: '=' :: ' ' :: (field.text ++ '\n' :: rest) := by
    simp [Line.chars]
  refine ⟨some (.assign a), ?_, a, rfl, ha⟩
  rw [hchars, readLine]
  rw [hw, List.cons_append] at hread ⊢
  rw [readStatement_key hc, hread]
  simp only [Option.map_some, bind, Option.bind, readLineEnd_newline]

theorem readPath_header {name : String} (hne : name.toList ≠ [])
    (hbare : ∀ c ∈ name.toList, isBare c = true) (rest : List Char) :
    ∃ key : Key, readPath (skipBlanks (name.toList ++ ']' :: rest)) =
        some (([], key), ']' :: rest) ∧ key.name = name := by
  have hstop : Text.Stops isBare (']' :: rest) := Text.stops_cons rfl rest
  have hkey := readKey_bare hne hbare hstop
  have hpath := readPath_of_readKey hkey (Text.stops_cons rfl _)
  have hskip : skipBlanks (name.toList ++ ']' :: rest) = name.toList ++ ']' :: rest := by
    obtain ⟨c, cs, hcs⟩ := List.exists_cons_of_ne_nil hne
    have hc := hbare c (by simp [hcs])
    rw [hcs]
    exact skipBlanks_cons (not_isBlank_of_startsKey (.inr (.inr hc))) _
  rw [hskip, hpath]
  exact ⟨_, rfl, String.ofList_toList⟩

theorem readHeader_double {name : String} (hne : name.toList ≠ [])
    (hbare : ∀ c ∈ name.toList, isBare c = true) (rest : List Char) :
    ∃ h : Header, readHeader ('[' :: '[' :: (name.toList ++ ']' :: ']' :: rest)) =
        some (h, rest) ∧ h.path = [] ∧ h.key.name = name ∧ h.grows = true := by
  obtain ⟨key, hpath, hkey⟩ := readPath_header hne hbare (']' :: rest)
  simp only [readHeader, hpath, bind, Option.bind]
  exact ⟨_, rfl, rfl, hkey, rfl⟩

theorem readHeader_single {name : String} (hne : name.toList ≠ [])
    (hbare : ∀ c ∈ name.toList, isBare c = true) (rest : List Char) :
    ∃ h : Header, readHeader ('[' :: (name.toList ++ ']' :: rest)) = some (h, rest) ∧
      h.path = [] ∧ h.key.name = name ∧ h.grows = false := by
  obtain ⟨key, hpath, hkey⟩ := readPath_header hne hbare rest
  obtain ⟨c, cs, hcs⟩ := List.exists_cons_of_ne_nil hne
  have hbracket : c ≠ '[' := by
    rintro rfl
    exact absurd (hbare '[' (by simp [hcs])) (by decide)
  have hread : readHeader ('[' :: (name.toList ++ ']' :: rest)) =
      some (⟨[], key, ⟨'[' :: (name.toList ++ ']' :: rest), rest⟩, false⟩, rest) := by
    rw [hcs, List.cons_append] at hpath ⊢
    unfold readHeader
    split
    · rename_i heq
      cases heq
      exact absurd rfl hbracket
    · rename_i heq
      cases heq
      simp only [hpath, bind, Option.bind]
    · rename_i hno
      exact absurd rfl (hno _)
  exact ⟨_, hread, rfl, hkey, rfl⟩

theorem readLine_of_readHeader {h : Header} {s rest : List Char}
    (hread : readHeader ('[' :: s) = some (h, '\n' :: rest)) :
    readLine ('[' :: s) = some (some (.header h), !rest.isEmpty, rest) := by
  have hskip : skipBlanks ('[' :: s) = '[' :: s := skipBlanks_cons rfl s
  simp only [readLine, readStatement, hskip, hread, Option.map_some, bind, Option.bind,
    readLineEnd_newline]

theorem readLine_header {name : String} (hne : name.toList ≠ [])
    (hbare : ∀ c ∈ name.toList, isBare c = true) (grows : Bool) (rest : List Char) :
    ∃ statement?, readLine ((Line.header name grows).chars ++ rest) =
        some (statement?, !rest.isEmpty, rest) ∧
      (Line.header name grows).Gives statement? := by
  cases grows with
  | true =>
    obtain ⟨h, hread, hpath, hkey, hgrows⟩ := readHeader_double hne hbare ('\n' :: rest)
    have hchars : (Line.header name true).chars ++ rest =
        '[' :: '[' :: (name.toList ++ ']' :: ']' :: '\n' :: rest) := by simp [Line.chars]
    rw [hchars]
    exact ⟨_, readLine_of_readHeader hread, h, rfl, hpath, hkey, hgrows⟩
  | false =>
    obtain ⟨h, hread, hpath, hkey, hgrows⟩ := readHeader_single hne hbare ('\n' :: rest)
    have hchars : (Line.header name false).chars ++ rest =
        '[' :: (name.toList ++ ']' :: '\n' :: rest) := by simp [Line.chars]
    rw [hchars]
    exact ⟨_, readLine_of_readHeader hread, h, rfl, hpath, hkey, hgrows⟩

theorem readLine_blank (rest : List Char) :
    readLine (Line.blank.chars ++ rest) = some (none, !rest.isEmpty, rest) := rfl

theorem readLine_sound {line : Line} (h : line.Sound) (rest : List Char) :
    ∃ statement?, readLine (line.chars ++ rest) = some (statement?, !rest.isEmpty, rest) ∧
      line.Gives statement? := by
  cases line with
  | blank => exact ⟨none, readLine_blank rest, rfl⟩
  | header name grows => exact readLine_header h.1 h.2 grows rest
  | entry field => exact readLine_entry h rest

theorem chars_head (line : Line) : ∃ c cs, line.chars = c :: cs ∧ c ≠ '\ufeff' := by
  cases line with
  | blank => exact ⟨_, _, rfl, by decide⟩
  | header name grows => cases grows <;> exact ⟨_, _, rfl, by decide⟩
  | entry field =>
    obtain ⟨c, cs, hw, hc⟩ := writeKey_head field.name
    refine ⟨c, cs ++ ' ' :: '=' :: ' ' :: (field.text ++ ['\n']), by simp [Line.chars, hw], ?_⟩
    rintro rfl
    exact absurd hc (by decide)

theorem readMany_lines {lines : List Line} (hne : lines ≠ [])
    (hsound : ∀ line ∈ lines, line.Sound) :
    ∃ statements, readMany readLine (lines.flatMap Line.chars) = some (statements, []) ∧
      List.Forall₂ Line.Gives lines statements := by
  induction lines with
  | nil => exact absurd rfl hne
  | cons line lines ih =>
    have hline := hsound line List.mem_cons_self
    rw [List.flatMap_cons]
    cases lines with
    | nil =>
      obtain ⟨statement?, hread, hgives⟩ := readLine_sound hline []
      exact ⟨[statement?], readMany_last hread, .cons hgives .nil⟩
    | cons next lines =>
      obtain ⟨statements, hmore, hall⟩ :=
        ih (List.cons_ne_nil _ _) fun l hl => hsound l (List.mem_cons_of_mem line hl)
      obtain ⟨statement?, hread, hgives⟩ :=
        readLine_sound hline ((next :: lines).flatMap Line.chars)
      obtain ⟨c, cs, hline, _⟩ := chars_head line
      obtain ⟨c', cs', hnext, _⟩ := chars_head next
      have hrest : ((next :: lines).flatMap Line.chars).isEmpty = false := by
        rw [List.flatMap_cons, hnext]
        rfl
      have hlength : ((next :: lines).flatMap Line.chars).length <
          (line.chars ++ (next :: lines).flatMap Line.chars).length := by
        rw [hline, List.length_append, List.length_cons]
        omega
      rw [hrest] at hread
      exact ⟨statement? :: statements, readMany_more hread hlength hmore, .cons hgives hall⟩

theorem skipMark_lines (lines : List Line) :
    skipMark (lines.flatMap Line.chars) = lines.flatMap Line.chars := by
  cases lines with
  | nil => rfl
  | cons line lines =>
    obtain ⟨c, cs, hline, hmark⟩ := chars_head line
    rw [List.flatMap_cons, hline, List.cons_append]
    unfold skipMark
    split
    · rename_i heq
      cases heq
      exact absurd rfl hmark
    · rfl

theorem readDocument_lines {lines : List Line} (hne : lines ≠ [])
    (hsound : ∀ line ∈ lines, line.Sound) :
    ∃ statements, List.Forall₂ Line.Gives lines statements ∧
      readDocument (lines.flatMap Line.chars) = assemble (statements.filterMap id) := by
  obtain ⟨statements, hread, hgives⟩ := readMany_lines hne hsound
  refine ⟨statements, hgives, ?_⟩
  rw [readDocument, skipMark_lines, hread]
  rfl

end ArithTree.Toml
