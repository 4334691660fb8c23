import ArithTree.Proofs.Config.Decoding
import ArithTree.Proofs.Toml.Distinct
import Mathlib

/-!
# Which documents are configurations

A document whose passes are tables is a configuration if and only if it has no other entries than
the two sections, every pass has a known kind and the value that its kind needs, and all bindings
of the environment are words. The configuration then has the passes in the order of the document
and exactly the bindings of the document. All else gets a report.
-/

set_option autoImplicit false

namespace ArithTree.Config
open Toml

/-- The tables that a document lists as its passes, in their order. -/
inductive ListsPasses (entries : Entries) : List Entries → Prop
  | missing : "passes" ∉ (contents entries).map Prod.fst → ListsPasses entries []
  | given {grows : Bool} {items : List (Item Value)} {tables : List Entries} :
      ("passes", .array grows items) ∈ contents entries →
      List.Forall₂ (fun x table => ∃ origin, x.value = .table origin table) items tables →
      ListsPasses entries tables

/-- The table describes a pass, whatever other names it has. -/
inductive SaysPass (table : Entries) : PassSetting → Prop
  | fold :
      ("kind", .string "constant_folding") ∈ contents table → SaysPass table .fold
  | replace {value : Int64} :
      ("kind", .string "constant_rewriting") ∈ contents table →
      ("value", .integer value.toInt) ∈ contents table → SaysPass table (.replace value)

def HoldsWords (value : Value) : Prop :=
  ∃ origin bindings, value = .table origin bindings ∧
    ∀ b ∈ contents bindings, ∃ word : Int64, b.2 = .integer word.toInt

/-- What is asked of a document and of the tables of its passes. -/
structure WellShaped (entries : Entries) (tables : List Entries) : Prop where
  names : ∀ name ∈ (contents entries).map Prod.fst, name = "passes" ∨ name = "environment"
  kinds : ∀ table ∈ tables, ("kind", .string "constant_folding") ∈ contents table ∨
    ("kind", .string "constant_rewriting") ∈ contents table
  values : ∀ table ∈ tables, ("kind", .string "constant_rewriting") ∈ contents table →
    ∃ value : Int64, ("value", .integer value.toInt) ∈ contents table
  environment : ∀ value, ("environment", value) ∈ contents entries → HoldsWords value

/-- The configuration has the passes of the tables and the bindings of the document. -/
structure Says (entries : Entries) (tables : List Entries) (c : Config) : Prop where
  passes : List.Forall₂ SaysPass tables c.passes
  environment : ∀ name value, c.environment.get? name = some value ↔
    ∃ origin bindings, ("environment", .table origin bindings) ∈ contents entries ∧
      (name, .integer value.toInt) ∈ contents bindings

theorem word?_eq_some_iff {value : Value} {word : Int64} :
    value.word? = some word ↔ value = .integer word.toInt := by
  cases value with
  | integer n => rw [Value.integer.injEq, Value.word?, Number.word?_eq_some_iff, eq_comm]
  | _ => simp [Value.word?]

section Passes

def PassKind.name : PassKind → String
  | .fold => "constant_folding"
  | .replace => "constant_rewriting"

theorem PassKind.ofName?_eq_some_iff {name : String} {kind : PassKind} :
    PassKind.ofName? name = some kind ↔ name = kind.name := by
  unfold PassKind.ofName?
  constructor
  · intro h
    split at h
    · rename_i hname
      cases h
      exact hname
    · split at h
      · rename_i hname
        cases h
        exact hname
      · cases h
  · rintro rfl
    cases kind <;> rfl

theorem decodeKind_ok_iff {x : Item Value} {kind : PassKind} :
    decodeKind x = .ok kind ↔ x.value = .string kind.name := by
  unfold decodeKind
  split
  · rename_i name hvalue
    rw [hvalue, Value.string.injEq, ← PassKind.ofName?_eq_some_iff]
    cases PassKind.ofName? name <;> simp [fail]
  · rename_i hother
    refine iff_of_false (by simp [fail]) (hother kind.name)

theorem decodeReplacement_ok_iff {whole : Text.Span} {x : Item Value} {p : PassSetting} :
    decodeReplacement whole x = .ok p ↔
      ∃ value : Int64, x.value = .integer value.toInt ∧ p = .replace value := by
  simp only [← word?_eq_some_iff, decodeReplacement]
  cases x.value.word? <;> simp [fail, eq_comm]

theorem decodeTable_ok_iff {whole span : Text.Span} {table : Entries} {p : PassSetting}
    (h : DistinctTable table) : decodeTable whole span table = .ok p ↔ SaysPass table p := by
  constructor
  · intro hp
    unfold decodeTable at hp
    split at hp
    · cases hp
    · rename_i kind hkind
      obtain ⟨found, hfound, hp⟩ := bind_eq_ok_iff.mp hp
      have hname := h.mem_contents_iff_find?.mpr ⟨kind, hkind, decodeKind_ok_iff.mp hfound⟩
      cases found with
      | fold =>
        cases hp
        exact .fold hname
      | replace =>
        dsimp only at hp
        split at hp
        · cases hp
        · rename_i x hx
          obtain ⟨value, hvalue, rfl⟩ := decodeReplacement_ok_iff.mp hp
          exact .replace hname (h.mem_contents_iff_find?.mpr ⟨x, hx, hvalue⟩)
  · rintro (hname | ⟨hname, hvalue⟩)
    · obtain ⟨kind, hkind, hstring⟩ := h.mem_contents_iff_find?.mp hname
      have hfold : decodeKind kind = .ok .fold := decodeKind_ok_iff.mpr hstring
      simp [decodeTable, hkind, hfold]
    · obtain ⟨kind, hkind, hstring⟩ := h.mem_contents_iff_find?.mp hname
      obtain ⟨x, hx, hword⟩ := h.mem_contents_iff_find?.mp hvalue
      have hreplace : decodeKind kind = .ok .replace := decodeKind_ok_iff.mpr hstring
      simp [decodeTable, hkind, hreplace, hx]
      exact decodeReplacement_ok_iff.mpr ⟨_, hword, rfl⟩

theorem decodePass_ok_iff {whole : Text.Span} {x : Item Value} {origin : Origin} {table : Entries}
    {p : PassSetting} (hx : x.value = .table origin table) (h : x.value.Distinct) :
    decodePass whole x = .ok p ↔ SaysPass table p := by
  rw [hx] at h
  simp only [decodePass, hx]
  exact decodeTable_ok_iff (Value.distinct_table_iff.mp h)

theorem decodePasses_ok_iff {x : Item Value} {grows : Bool} {items : List (Item Value)}
    {tables : List Entries} {passes : List PassSetting} (hx : x.value = .array grows items)
    (h : x.value.Distinct)
    (htables : List.Forall₂ (fun x table => ∃ origin, x.value = .table origin table) items tables) :
    decodePasses x = .ok passes ↔ List.Forall₂ SaysPass tables passes := by
  rw [hx, Value.distinct_array_iff] at h
  simp only [decodePasses, hx, mapM_eq_ok_iff]
  clear hx
  induction htables generalizing passes with
  | nil => simp
  | @cons item table items tables hitem _ ih =>
    obtain ⟨origin, htable⟩ := hitem
    rw [List.forall_mem_cons] at h
    simp only [List.forall₂_cons_left_iff, decodePass_ok_iff htable h.1, ih h.2]

theorem exists_saysPass_iff {table : Entries} (h : DistinctTable table) :
    (∃ p, SaysPass table p) ↔
      (("kind", .string "constant_folding") ∈ contents table ∨
        ("kind", .string "constant_rewriting") ∈ contents table) ∧
      (("kind", .string "constant_rewriting") ∈ contents table →
        ∃ value : Int64, ("value", .integer value.toInt) ∈ contents table) := by
  constructor
  · rintro ⟨_, hname | ⟨hname, hvalue⟩⟩
    · refine ⟨.inl hname, fun hother => ?_⟩
      have hsame := h.eq_of_mem_contents hname hother
      simp at hsame
    · exact ⟨.inr hname, fun _ => ⟨_, hvalue⟩⟩
  · rintro ⟨hname | hname, hvalue⟩
    · exact ⟨.fold, .fold hname⟩
    · obtain ⟨value, hvalue⟩ := hvalue hname
      exact ⟨.replace value, .replace hname hvalue⟩

end Passes

section Environment

theorem decodeBinding_ok_iff {entry : Entry Value} {b : String × Int64} :
    decodeBinding entry = .ok b ↔
      b.1 = entry.key.name ∧ entry.item.value = .integer b.2.toInt := by
  rw [← word?_eq_some_iff, decodeBinding]
  cases entry.item.value.word? with
  | none => simp [fail]
  | some word => simp [Prod.ext_iff, eq_comm]

theorem forall₂_decodeBinding {entries : Entries} {bindings : List (String × Int64)}
    (h : List.Forall₂ (fun entry b => decodeBinding entry = .ok b) entries bindings) :
    contents entries = bindingContents bindings := by
  induction h with
  | nil => rfl
  | cons hentry _ ih =>
    obtain ⟨hname, hvalue⟩ := decodeBinding_ok_iff.mp hentry
    rw [contents, List.map_cons, hvalue, ← hname, bindingContents, List.map_cons]
    exact congrArg _ ih

theorem mem_bindingContents_iff {name : String} {value : Int64}
    {bindings : List (String × Int64)} :
    (name, .integer value.toInt) ∈ bindingContents bindings ↔ (name, value) ∈ bindings := by
  simp [bindingContents, Int64.toInt_inj]

theorem decodeEnvironment_ok {x : Item Value} {env : Environment}
    (h : decodeEnvironment x = .ok env) (hd : x.value.Distinct) :
    ∃ origin bindings, x.value = .table origin bindings ∧
      (∀ b ∈ contents bindings, ∃ value : Int64, b.2 = .integer value.toInt) ∧
      ∀ name value, env.get? name = some value ↔
        (name, .integer value.toInt) ∈ contents bindings := by
  unfold decodeEnvironment at h
  split at h
  · rename_i origin entries hx
    obtain ⟨bindings, hbindings, h⟩ := bind_eq_ok_iff.mp h
    cases h
    -- The bindings come in another order than the entries, but as names are distinct, each finds
    -- its own value.
    have hp := ascending_perm entries
    have hcontents := forall₂_decodeBinding (mapM_eq_ok_iff.mp hbindings)
    have hmem : ∀ b, b ∈ contents entries ↔ b ∈ bindingContents bindings :=
      fun b => hcontents ▸ ((hp.map _).mem_iff).symm
    have hnodup : (bindings.map Prod.fst).Nodup := by
      have hnames := nodup_of_perm hp (Value.distinct_table_iff.mp (hx ▸ hd)).nodup
      rw [hcontents, bindingContents, List.map_map] at hnames
      exact hnames
    refine ⟨origin, entries, hx, fun b hb => ?_, fun name value => ?_⟩
    · obtain ⟨binding, _, rfl⟩ := List.mem_map.mp ((hmem b).mp hb)
      exact ⟨binding.2, rfl⟩
    · rw [hmem, mem_bindingContents_iff, Environment.get?, Environment.bindings_ofList hnodup,
        lookup_eq_some_iff_mem hnodup]
  · cases h
  · cases h

theorem exists_decodeEnvironment {x : Item Value} (hwords : HoldsWords x.value) :
    ∃ env, decodeEnvironment x = .ok env := by
  obtain ⟨origin, entries, hx, h⟩ := hwords
  have hall : ∀ entry ∈ ascending entries, ∃ b, decodeBinding entry = .ok b := by
    intro entry hm
    have hentry : entry ∈ entries := (ascending_perm entries).mem_iff.mp hm
    obtain ⟨value, hvalue⟩ := h _ (List.mem_map.mpr ⟨entry, hentry, rfl⟩)
    exact ⟨(entry.key.name, value), decodeBinding_ok_iff.mpr ⟨rfl, hvalue⟩⟩
  obtain ⟨bindings, hbindings⟩ := exists_forall₂_iff.mpr hall
  refine ⟨.ofList bindings, ?_⟩
  simp only [decodeEnvironment, hx, mapM_eq_ok_iff.mpr hbindings]
  rfl

end Environment

section Sections

def sectionOf {α : Type} (name : String) (decoder : Item Value → Except Problem α) (default : α)
    (entries : Entries) : Except Problem α :=
  match find? name entries with
  | some x => decoder x
  | none => .ok default

section SectionOf

variable {α : Type} {name : String} (decoder : Item Value → Except Problem α) (default : α)

theorem sectionOf_cons_self {entry : Entry Value} (h : entry.key.name = name) (rest : Entries) :
    sectionOf name decoder default (entry :: rest) = decoder entry.item := by
  simp [sectionOf, find?, h]

theorem sectionOf_cons_of_ne {entry : Entry Value} (h : entry.key.name ≠ name)
    (rest : Entries) :
    sectionOf name decoder default (entry :: rest) = sectionOf name decoder default rest := by
  simp [sectionOf, find?, h]

theorem sectionOf_new {entries : Entries} (h : name ∉ (contents entries).map Prod.fst) :
    sectionOf name decoder default entries = .ok default := by
  rw [sectionOf, find?_new h]

end SectionOf

theorem decodeEntry_passes {entry : Entry Value} (h : entry.key.name = "passes") (c : Config) :
    decodeEntry c entry =
      (decodePasses entry.item).map fun passes => { c with passes := passes } := by
  rw [decodeEntry, if_pos h]
  cases decodePasses entry.item <;> rfl

theorem decodeEntry_environment {entry : Entry Value} (h : entry.key.name = "environment")
    (c : Config) :
    decodeEntry c entry =
      (decodeEnvironment entry.item).map fun env => { c with environment := env } := by
  rw [decodeEntry, if_neg (by rw [h]; decide), if_pos h]
  cases decodeEnvironment entry.item <;> rfl

theorem foldlM_decodeEntry_ok_iff {c c' : Config} {entries : Entries}
    (h : ((contents entries).map Prod.fst).Nodup) :
    entries.foldlM decodeEntry c = .ok c' ↔
      (∀ entry ∈ entries, entry.key.name = "passes" ∨ entry.key.name = "environment") ∧
      sectionOf "passes" decodePasses c.passes entries = .ok c'.passes ∧
      sectionOf "environment" decodeEnvironment c.environment entries = .ok c'.environment := by
  induction entries generalizing c with
  | nil =>
    obtain ⟨passes, environment⟩ := c
    obtain ⟨passes', environment'⟩ := c'
    simp [sectionOf, find?]
  | cons entry rest ih =>
    rw [contents, List.map_cons, List.map_cons, List.nodup_cons] at h
    obtain ⟨hnew, hrest⟩ := h
    rw [List.foldlM_cons, List.forall_mem_cons]
    -- The name of a section that was just decoded is new to the rest, which keeps what it gave.
    by_cases hpasses : entry.key.name = "passes"
    · have hne : entry.key.name ≠ "environment" := by rw [hpasses]; decide
      have hnone : "passes" ∉ (contents rest).map Prod.fst := hpasses ▸ hnew
      rw [decodeEntry_passes hpasses, sectionOf_cons_self _ _ hpasses, sectionOf_cons_of_ne _ _ hne]
      cases decodePasses entry.item with
      | error problem => simp
      | ok passes =>
        show rest.foldlM decodeEntry { c with passes := passes } = .ok c' ↔ _
        rw [ih hrest, sectionOf_new decodePasses passes hnone]
        simp [hpasses]
    by_cases henv : entry.key.name = "environment"
    · have hnone : "environment" ∉ (contents rest).map Prod.fst := henv ▸ hnew
      rw [decodeEntry_environment henv, sectionOf_cons_self _ _ henv,
        sectionOf_cons_of_ne _ _ hpasses]
      cases decodeEnvironment entry.item with
      | error problem => simp
      | ok env =>
        show rest.foldlM decodeEntry { c with environment := env } = .ok c' ↔ _
        rw [ih hrest, sectionOf_new decodeEnvironment env hnone]
        simp [henv]
    · simp [decodeEntry, hpasses, henv, fail]

theorem decode_ok_iff {entries : Entries} {c : Config} (h : DistinctTable entries) :
    decode entries = .ok c ↔
      (∀ name ∈ (contents entries).map Prod.fst, name = "passes" ∨ name = "environment") ∧
      sectionOf "passes" decodePasses [] entries = .ok c.passes ∧
      sectionOf "environment" decodeEnvironment .empty entries = .ok c.environment := by
  have hp := ascending_perm entries
  rw [decode, foldlM_decodeEntry_ok_iff (nodup_of_perm hp h.nodup)]
  simp only [sectionOf, find?_perm hp h.nodup, hp.mem_iff]
  simp [contents]

theorem sectionOf_passes_ok_iff {entries : Entries} {tables : List Entries}
    {passes : List PassSetting} (h : DistinctTable entries) (htables : ListsPasses entries tables) :
    sectionOf "passes" decodePasses [] entries = .ok passes ↔
      List.Forall₂ SaysPass tables passes := by
  cases htables with
  | missing hnew =>
    rw [sectionOf_new _ _ hnew]
    simp [eq_comm]
  | given hitems hforall =>
    obtain ⟨x, hx, hvalue⟩ := h.mem_contents_iff_find?.mp hitems
    rw [sectionOf, hx]
    exact decodePasses_ok_iff hvalue (h.find? hx) hforall

theorem distinctTable_of_listsPasses {entries : Entries} {tables : List Entries}
    (h : DistinctTable entries) (htables : ListsPasses entries tables) :
    ∀ table ∈ tables, DistinctTable table := by
  cases htables with
  | missing _ => simp
  | given hitems hforall =>
    obtain ⟨x, hx, hvalue⟩ := h.mem_contents_iff_find?.mp hitems
    have hdistinct := Value.distinct_array_iff.mp (hvalue ▸ h.find? hx)
    clear hitems hx hvalue
    induction hforall with
    | nil => simp
    | cons htable _ ih =>
      obtain ⟨origin, htable⟩ := htable
      rw [List.forall_mem_cons] at hdistinct ⊢
      exact ⟨Value.distinct_table_iff.mp (htable ▸ hdistinct.1), ih hdistinct.2⟩

theorem sectionOf_environment_ok {entries : Entries} {env : Environment}
    (hd : DistinctTable entries)
    (h : sectionOf "environment" decodeEnvironment .empty entries = .ok env) :
    (∀ value, ("environment", value) ∈ contents entries → HoldsWords value) ∧
    ∀ name word, env.get? name = some word ↔
      ∃ origin bindings, ("environment", .table origin bindings) ∈ contents entries ∧
        (name, .integer word.toInt) ∈ contents bindings := by
  cases hx : find? "environment" entries with
  | none =>
    rw [sectionOf, hx] at h
    cases h
    have hnone : ∀ value, ("environment", value) ∉ contents entries := by
      intro value hm
      obtain ⟨x, hfound, _⟩ := hd.mem_contents_iff_find?.mp hm
      rw [hx] at hfound
      cases hfound
    refine ⟨fun value hm => absurd hm (hnone value), fun name word => ?_⟩
    refine iff_of_false (by simp [Environment.get?, Environment.empty]) ?_
    rintro ⟨origin, bindings, hm, _⟩
    exact hnone _ hm
  | some x =>
    rw [sectionOf, hx] at h
    obtain ⟨origin, bindings, hvalue, hwords, hget⟩ := decodeEnvironment_ok h (hd.find? hx)
    have hm : ("environment", .table origin bindings) ∈ contents entries :=
      hd.mem_contents_iff_find?.mpr ⟨x, hx, hvalue⟩
    refine ⟨fun value hother => ?_, fun name word => (hget name word).trans ⟨?_, ?_⟩⟩
    · exact ⟨origin, bindings, hd.eq_of_mem_contents hother hm, hwords⟩
    · exact fun hword => ⟨origin, bindings, hm, hword⟩
    · rintro ⟨origin', bindings', hother, hword⟩
      cases hd.eq_of_mem_contents hm hother
      exact hword

theorem exists_sectionOf_environment {entries : Entries}
    (h : ∀ value, ("environment", value) ∈ contents entries → HoldsWords value) :
    ∃ env, sectionOf "environment" decodeEnvironment .empty entries = .ok env := by
  rw [sectionOf]
  cases hx : find? "environment" entries with
  | none => exact ⟨_, rfl⟩
  | some x =>
    obtain ⟨entry, hm, hname, rfl⟩ := mem_of_find? hx
    exact exists_decodeEnvironment (h _ (mem_contents_iff.mpr ⟨entry, hm, hname, rfl⟩))

end Sections

section Documents

variable {tomlError : String → String} {text : String} {entries : Entries}
  {tables : List Entries}

theorem ofToml_ok_iff (hread : readDocument text.toList = some entries) {c : Config} :
    ofToml tomlError text = .ok c ↔ decode entries = .ok c := by
  rw [ofToml, hread]
  exact mapError_eq_ok_iff

theorem ofToml_error {r : Report} (h : ofToml tomlError text = .error r) :
    r.kind = .config ∧ r.detail? .suggestion = some formSuggestion := by
  unfold ofToml at h
  split at h
  · cases h
    exact ⟨rfl, rfl⟩
  · obtain ⟨problem, _, rfl⟩ := mapError_eq_error_iff.mp h
    exact ⟨rfl, rfl⟩

theorem wellShaped_of_decode (hd : DistinctTable entries) (htables : ListsPasses entries tables)
    {c : Config} (h : decode entries = .ok c) :
    WellShaped entries tables ∧ Says entries tables c := by
  obtain ⟨hnames, hpasses, henv⟩ := (decode_ok_iff hd).mp h
  have hpairs := (sectionOf_passes_ok_iff hd htables).mp hpasses
  have hshape : ∀ table ∈ tables, _ := fun table hm =>
    (exists_saysPass_iff (distinctTable_of_listsPasses hd htables table hm)).mp
      (exists_forall₂_iff.mp ⟨_, hpairs⟩ table hm)
  obtain ⟨hwords, hget⟩ := sectionOf_environment_ok hd henv
  exact ⟨⟨hnames, fun table hm => (hshape table hm).1, fun table hm => (hshape table hm).2, hwords⟩,
    ⟨hpairs, hget⟩⟩

theorem exists_decode (hd : DistinctTable entries) (htables : ListsPasses entries tables)
    (h : WellShaped entries tables) : ∃ c, decode entries = .ok c := by
  have heach : ∀ table ∈ tables, ∃ p, SaysPass table p := fun table hm =>
    (exists_saysPass_iff (distinctTable_of_listsPasses hd htables table hm)).mpr
      ⟨h.kinds table hm, h.values table hm⟩
  obtain ⟨passes, hpasses⟩ := exists_forall₂_iff.mpr heach
  obtain ⟨env, henv⟩ := exists_sectionOf_environment h.environment
  exact ⟨⟨passes, env⟩, (decode_ok_iff hd).mpr
    ⟨h.names, (sectionOf_passes_ok_iff hd htables).mpr hpasses, henv⟩⟩

/-- A document whose passes are tables is a configuration exactly if it has the shape of one. It is
then the configuration that the document says, and else a report on a malformed one. -/
theorem ofToml_accepts_iff (tomlError : String → String)
    (hread : readDocument text.toList = some entries) (htables : ListsPasses entries tables) :
    ((∃ c, ofToml tomlError text = .ok c) ↔ WellShaped entries tables) ∧
    (∀ c, ofToml tomlError text = .ok c → Says entries tables c) ∧
    (¬WellShaped entries tables → ∃ r, ofToml tomlError text = .error r ∧
      r.kind = .config ∧ r.detail? .suggestion = some formSuggestion) := by
  have hd := readDocument_distinct hread
  have haccepts : (∃ c, ofToml tomlError text = .ok c) ↔ WellShaped entries tables := by
    simp only [ofToml_ok_iff hread]
    exact ⟨fun ⟨_, h⟩ => (wellShaped_of_decode hd htables h).1, exists_decode hd htables⟩
  refine ⟨haccepts, fun c h => ?_, fun hshape => ?_⟩
  · exact (wellShaped_of_decode hd htables ((ofToml_ok_iff hread).mp h)).2
  · cases h : ofToml tomlError text with
    | ok c => exact absurd (haccepts.mp ⟨c, h⟩) hshape
    | error r => exact ⟨r, rfl, ofToml_error h⟩

def stretch (text : String) (first after : Nat) : Text.Span :=
  ⟨text.toList.drop first, text.toList.drop after⟩

def dottedText : String :=
  "environment.x = 5\n[[passes]]\nkind = \"constant_folding\"\nvalue = true\n"

def dottedPass : Entries :=
  [⟨⟨"kind", stretch dottedText 29 33⟩, ⟨stretch dottedText 36 54, .string "constant_folding"⟩⟩,
    ⟨⟨"value", stretch dottedText 55 60⟩, ⟨stretch dottedText 63 67, .boolean true⟩⟩]

def dottedBindings : Entries :=
  [⟨⟨"x", stretch dottedText 12 13⟩, ⟨stretch dottedText 16 17, .integer 5⟩⟩]

def dottedEntries : Entries :=
  [⟨⟨"environment", stretch dottedText 0 11⟩,
      ⟨stretch dottedText 0 11, .table .dottedKey dottedBindings⟩⟩,
    ⟨⟨"passes", stretch dottedText 20 26⟩, ⟨stretch dottedText 18 28,
      .array true [⟨stretch dottedText 18 28, .table .header dottedPass⟩]⟩⟩]

theorem wellShaped_dottedEntries : WellShaped dottedEntries [dottedPass] where
  names := by decide
  kinds := by simp [dottedPass, contents]
  values := by simp [dottedPass, contents]
  environment := by
    intro value hm
    have hvalue : value = .table .dottedKey dottedBindings := by
      simpa [dottedEntries, contents] using hm
    refine ⟨_, _, hvalue, ?_⟩
    rw [dottedBindings, contents, List.map_singleton, List.forall_mem_singleton]
    exact ⟨5, rfl⟩

/-- The value that folding does not need is not looked at, even if it is no number. A name that is
no section is refused. -/
theorem ofToml_accepts_iff_ignored_value :
    (∃ c, ofToml id dottedText = .ok c ∧ c.passes = [.fold] ∧
      ∀ name value, c.environment.get? name = some value ↔ name = "x" ∧ value = 5) ∧
    ∃ r, ofToml id "x = 5" = .error r ∧
      r.kind = .config ∧ r.detail? .suggestion = some formSuggestion := by
  constructor
  · have hread : readDocument dottedText.toList = some dottedEntries := by cbv
    have htables : ListsPasses dottedEntries [dottedPass] :=
      .given (List.mem_cons_of_mem _ List.mem_cons_self) (.cons ⟨_, rfl⟩ .nil)
    obtain ⟨haccepts, hthen, _⟩ := ofToml_accepts_iff id hread htables
    obtain ⟨c, hc⟩ := haccepts.mpr wellShaped_dottedEntries
    obtain ⟨hpasses, hget⟩ := hthen c hc
    refine ⟨c, hc, ?_, fun name value => (hget name value).trans ?_⟩
    · obtain ⟨p, _, hp, hnil, hlist⟩ := List.forall₂_cons_left_iff.mp hpasses
      rw [hlist, List.forall₂_nil_left_iff.mp hnil]
      cases hp with
      | fold _ => rfl
      | replace hkind _ => simp [dottedPass, contents] at hkind
    · have hword : 5 = value.toInt ↔ value = 5 := by
        rw [eq_comm]
        exact Int64.toInt_inj (y := 5)
      simp [dottedEntries, dottedBindings, contents, hword, eq_comm (a := "x")]
  · have hread : readDocument "x = 5".toList =
        some [⟨⟨"x", stretch "x = 5" 0 1⟩, ⟨stretch "x = 5" 4 5, .integer 5⟩⟩] := by cbv
    have hshape := (ofToml_accepts_iff id hread (.missing (by decide))).2.2
    exact hshape fun h => absurd (h.names "x" (by decide)) (by decide)

end Documents

end ArithTree.Config
