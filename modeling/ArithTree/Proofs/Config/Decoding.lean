import ArithTree.Config.Decoding
import ArithTree.Proofs.Environment
import ArithTree.Proofs.Numerals
import ArithTree.Proofs.Outcomes
import ArithTree.Proofs.Toml.Assembly

/-!
# Configurations from well-formed documents

What each decoder gives for a table with the right names and values, wherever these were read
and in whatever order the names are then looked at.
-/

set_option autoImplicit false

namespace ArithTree.Config
open Toml

theorem find?_of_lookup {name : String} {value : Value} {entries : Entries}
    (h : (contents entries).lookup name = some value) :
    ∃ x, find? name entries = some x ∧ x.value = value := by
  induction entries with
  | nil => cases h
  | cons entry rest ih =>
    by_cases hname : entry.key.name = name
    · refine ⟨entry.item, by simp [find?, hname], ?_⟩
      simpa [contents, hname] using h
    · have hrest : (contents rest).lookup name = some value := by
        rw [contents, List.map_cons, List.lookup_cons, beq_false_of_ne (Ne.symm hname)] at h
        exact h
      obtain ⟨x, hfind, hx⟩ := ih hrest
      refine ⟨x, ?_, hx⟩
      rw [find?, List.find?_cons_of_neg (by simpa using hname)]
      exact hfind

def passContents : PassSetting → List (String × Value)
  | .fold => [("kind", .string "constant_folding")]
  | .replace value => [("kind", .string "constant_rewriting"), ("value", .integer value.toInt)]

/-- The table of a pass as it is written. -/
def IsPass (x : Item Value) (p : PassSetting) : Prop :=
  ∃ origin entries, x.value = .table origin entries ∧ contents entries = passContents p

theorem decodePass_of_isPass {x : Item Value} {p : PassSetting} (h : IsPass x p)
    (whole : Text.Span) : decodePass whole x = .ok p := by
  obtain ⟨origin, entries, hvalue, hcontents⟩ := h
  simp only [decodePass, hvalue]
  cases p with
  | fold =>
    have hlookup : (contents entries).lookup "kind" = some (.string "constant_folding") := by
      rw [hcontents]
      rfl
    obtain ⟨kind, hfind, hkind⟩ := find?_of_lookup hlookup
    have hdecode : decodeKind kind = .ok .fold := by
      rw [decodeKind, hkind]
      rfl
    simp [decodeTable, hfind, hdecode]
  | replace value =>
    have hlookup : (contents entries).lookup "kind" = some (.string "constant_rewriting") := by
      rw [hcontents]
      rfl
    have hlookup' : (contents entries).lookup "value" = some (.integer value.toInt) := by
      rw [hcontents]
      rfl
    obtain ⟨kind, hfind, hkind⟩ := find?_of_lookup hlookup
    obtain ⟨number, hfind', hnumber⟩ := find?_of_lookup hlookup'
    have hdecode : decodeKind kind = .ok .replace := by
      rw [decodeKind, hkind]
      rfl
    simp [decodeTable, hfind, hdecode, hfind', decodeReplacement, hnumber, Value.word?]

theorem decodePasses_of_isPass {grows : Bool} {items : List (Item Value)}
    {passes : List PassSetting} {x : Item Value} (hvalue : x.value = .array grows items)
    (h : List.Forall₂ IsPass items passes) : decodePasses x = .ok passes := by
  simp only [decodePasses, hvalue]
  exact mapM_eq_ok_iff.mpr (h.imp fun _ _ hpass => decodePass_of_isPass hpass x.span)

def bindingContents (bindings : List (String × Int64)) : List (String × Value) :=
  bindings.map fun b => (b.1, .integer b.2.toInt)

def bindingOf (entry : Entry Value) : String × Int64 :=
  (entry.key.name, (entry.item.value.word?).getD 0)

theorem map_bindingOf {entries : Entries} {bindings : List (String × Int64)}
    (h : contents entries = bindingContents bindings) :
    entries.map bindingOf = bindings ∧
      ∀ entry ∈ entries, decodeBinding entry = .ok (bindingOf entry) := by
  induction bindings generalizing entries with
  | nil =>
    have hnil : entries = [] := List.map_eq_nil_iff.mp h
    simp [hnil]
  | cons b bindings ih =>
    cases entries with
    | nil => cases h
    | cons entry rest =>
      simp only [contents, bindingContents, List.map_cons, List.cons.injEq, Prod.mk.injEq] at h
      obtain ⟨⟨hname, hvalue⟩, hrest⟩ := h
      have hword : entry.item.value.word? = some b.2 := by
        rw [hvalue]
        exact Number.word?_toInt b.2
      have hentry : bindingOf entry = b := by simp [bindingOf, hname, hword]
      obtain ⟨hmap, hall⟩ := ih hrest
      refine ⟨by rw [List.map_cons, hentry, hmap], ?_⟩
      intro other hother
      rcases List.mem_cons.mp hother with rfl | hmem
      · simp only [decodeBinding, bindingOf, hword, Option.getD_some]
      · exact hall other hmem

theorem ascending_perm (entries : Entries) : (ascending entries).Perm entries :=
  List.mergeSort_perm _ _

theorem decodeEnvironment_of_contents {origin : Origin} {entries : Entries} {x : Item Value}
    {bindings : List (String × Int64)} (hvalue : x.value = .table origin entries)
    (h : contents entries = bindingContents bindings) :
    ∃ order : List (String × Int64), order.Perm bindings ∧
      decodeEnvironment x = .ok (.ofList order) := by
  obtain ⟨hmap, hall⟩ := map_bindingOf h
  have hperm := ascending_perm entries
  have hread : (ascending entries).mapM decodeBinding = .ok ((ascending entries).map bindingOf) :=
    mapM_eq_ok_iff.mpr (List.forall₂_map_right_iff.mpr
      (List.forall₂_same.mpr fun entry hm => hall entry (hperm.mem_iff.mp hm)))
  refine ⟨(ascending entries).map bindingOf, ?_, ?_⟩
  · rw [← hmap]
    exact hperm.map bindingOf
  · simp [decodeEnvironment, hvalue, hread]

theorem ascending_pair {first second : Entry Value}
    (h : ¬ first.key.name ≤ second.key.name) :
    ascending [first, second] = [second, first] := by
  simp [ascending, List.mergeSort, h]

theorem decode_both {first second : Entry Value} {passes : List PassSetting} {env : Environment}
    (hfirst : first.key.name = "passes") (hpasses : decodePasses first.item = .ok passes)
    (hsecond : second.key.name = "environment")
    (henv : decodeEnvironment second.item = .ok env) :
    decode [first, second] = .ok ⟨passes, env⟩ := by
  have horder : ¬ first.key.name ≤ second.key.name := by
    rw [hfirst, hsecond]
    decide
  rw [decode, ascending_pair horder]
  simp [decodeEntry, hfirst, hsecond, hpasses, henv]

end ArithTree.Config
