import ArithTree.Proofs.Config.Decoding

/-!
# Written configurations are read back

The text of a configuration consists of simple lines: one block for each pass, or one line that
says that there are none, and then the table of the environment. Each block adds one table to the
array of the passes, and each line of the environment one binding with a new name.
-/

set_option autoImplicit false

namespace ArithTree.Config
open Toml

def kindField (kind : String) : WrittenField :=
  ⟨"kind", '"' :: (kind.toList ++ ['"']), .string kind⟩

def numberField (name : String) (value : Int64) : WrittenField :=
  ⟨name, Number.writeInt value.toInt, .integer value.toInt⟩

def passFields : PassSetting → List WrittenField
  | .fold => [kindField "constant_folding"]
  | .replace value => [kindField "constant_rewriting", numberField "value" value]

def passLines (p : PassSetting) : List Line :=
  .header "passes" true :: (passFields p).map .entry

def passesLines (passes : List PassSetting) : List Line :=
  if passes.isEmpty then [.entry ⟨"passes", ['[', ']'], .array false []⟩]
  else [.blank].intercalate (passes.map passLines)

def bindingFields (bindings : List (String × Int64)) : List WrittenField :=
  bindings.map fun b => numberField b.1 b.2

def environmentLines (bindings : List (String × Int64)) : List Line :=
  .blank :: .header "environment" false :: (bindingFields bindings).map .entry

section Text

theorem flatMap_intercalate {α β : Type} (f : α → List β) (separator : List α)
    (blocks : List (List α)) :
    (separator.intercalate blocks).flatMap f =
      (separator.flatMap f).intercalate (blocks.map fun block => block.flatMap f) := by
  induction blocks with
  | nil => rfl
  | cons block rest ih =>
    cases rest with
    | nil => simp
    | cons next rest =>
      simp only [List.intercalate_cons_cons, List.map_cons, List.flatMap_append] at ih ⊢
      rw [ih]

theorem chars_numberField (name : String) (value : Int64) :
    (Line.entry (numberField name value)).chars =
      writeKey name ++ [' ', '=', ' '] ++ (Number.writeInt value.toInt ++ ['\n']) := by
  rw [List.append_assoc]
  rfl

theorem toList_writePass (p : PassSetting) :
    (writePass p).toList = (passLines p).flatMap Line.chars := by
  cases p with
  | fold => rfl
  | replace value =>
    have hwrite : writePass (.replace value) =
        "[[passes]]\nkind = \"constant_rewriting\"\nvalue = "
          ++ String.ofList (Number.writeInt value.toInt) ++ "\n" := rfl
    have hlines : (passLines (.replace value)).flatMap Line.chars =
        (Line.header "passes" true).chars ++ ((Line.entry (kindField "constant_rewriting")).chars ++
          ((Line.entry (numberField "value" value)).chars ++ [])) := rfl
    have hfront : "[[passes]]\nkind = \"constant_rewriting\"\nvalue = ".toList =
        (Line.header "passes" true).chars ++ (Line.entry (kindField "constant_rewriting")).chars ++
          (writeKey "value" ++ [' ', '=', ' ']) := rfl
    have hend : "\n".toList = ['\n'] := rfl
    rw [hwrite, hlines, chars_numberField, String.toList_append, String.toList_append, hfront, hend,
      String.toList_ofList, List.append_nil]
    simp only [List.append_assoc]

theorem toList_writePasses (passes : List PassSetting) :
    (writePasses passes).toList = (passesLines passes).flatMap Line.chars := by
  rw [writePasses, passesLines]
  split
  · rfl
  · rw [flatMap_intercalate, String.toList_intercalate, List.map_map, List.map_map]
    have hblocks : String.toList ∘ writePass = (fun ls => ls.flatMap Line.chars) ∘ passLines :=
      funext toList_writePass
    rw [hblocks]
    rfl

theorem toList_writeBinding (b : String × Int64) :
    (writeBinding b).toList = (Line.entry (numberField b.1 b.2)).chars := by
  simp [writeBinding, Number.writeWord, Line.chars, numberField]

theorem toList_toToml (c : Config) :
    c.toToml.toList =
      (passesLines c.passes ++ environmentLines c.environment.bindings).flatMap Line.chars := by
  have hbindings : (String.join (c.environment.bindings.map writeBinding)).toList =
      ((bindingFields c.environment.bindings).map Line.entry).flatMap Line.chars := by
    rw [String.toList_join, bindingFields, List.flatMap_map, List.flatMap_map, List.flatMap_map]
    exact congrArg (List.flatMap · c.environment.bindings) (funext toList_writeBinding)
  rw [toToml, String.toList_append, String.toList_append, toList_writePasses, hbindings,
    List.flatMap_append, List.append_assoc]
  rfl

end Text

theorem sound_table {name : String} {grows : Bool} {fields : List WrittenField}
    (hheader : (Line.header name grows).Sound) (hfields : ∀ f ∈ fields, Spells f.text f.value) :
    ∀ line ∈ Line.header name grows :: fields.map .entry, line.Sound := by
  intro line hline
  rcases List.mem_cons.mp hline with rfl | hentry
  · exact hheader
  · obtain ⟨field, hfield, rfl⟩ := List.mem_map.mp hentry
    exact hfields field hfield

theorem spells_passFields (p : PassSetting) : ∀ f ∈ passFields p, Spells f.text f.value := by
  intro f hf
  cases p with
  | fold =>
    rw [List.mem_singleton.mp hf]
    exact spells_word rfl rfl
  | replace value =>
    rcases List.mem_cons.mp hf with rfl | hvalue
    · exact spells_word rfl rfl
    · rw [List.mem_singleton.mp hvalue]
      exact spells_number value

theorem sound_passLines (p : PassSetting) : ∀ line ∈ passLines p, line.Sound := by
  have hheader : (Line.header "passes" true).Sound := ⟨by decide, List.all_eq_true.mp rfl⟩
  exact sound_table hheader (spells_passFields p)

theorem mem_intercalate {α : Type} {x : α} {separator : List α} {blocks : List (List α)}
    (h : x ∈ separator.intercalate blocks) : x ∈ separator ∨ ∃ block ∈ blocks, x ∈ block := by
  induction blocks with
  | nil => cases h
  | cons block rest ih =>
    cases rest with
    | nil => exact .inr ⟨block, by simp, by simpa using h⟩
    | cons next rest =>
      rw [List.intercalate_cons_cons, List.append_assoc, List.mem_append, List.mem_append] at h
      rcases h with hblock | hseparator | hrest
      · exact .inr ⟨block, by simp, hblock⟩
      · exact .inl hseparator
      · rcases ih hrest with hseparator | ⟨other, hmem, hx⟩
        · exact .inl hseparator
        · exact .inr ⟨other, List.mem_cons_of_mem block hmem, hx⟩

theorem sound_passesLines (passes : List PassSetting) :
    ∀ line ∈ passesLines passes, line.Sound := by
  intro line hline
  rw [passesLines] at hline
  split at hline
  · rw [List.mem_singleton.mp hline]
    exact spells_emptyArray
  · rcases mem_intercalate hline with hblank | ⟨block, hblock, hmem⟩
    · rw [List.mem_singleton.mp hblank]
      trivial
    · obtain ⟨p, _, rfl⟩ := List.mem_map.mp hblock
      exact sound_passLines p line hmem

theorem sound_environmentLines (bindings : List (String × Int64)) :
    ∀ line ∈ environmentLines bindings, line.Sound := by
  have hheader : (Line.header "environment" false).Sound := ⟨by decide, List.all_eq_true.mp rfl⟩
  have hfields : ∀ f ∈ bindingFields bindings, Spells f.text f.value := by
    intro f hf
    obtain ⟨b, _, rfl⟩ := List.mem_map.mp hf
    exact spells_number b.2
  intro line hline
  rcases List.mem_cons.mp hline with rfl | htable
  · trivial
  · exact sound_table hheader hfields line htable

def HoldsPasses (passes : List PassSetting) (done : Entries) : Prop :=
  (passes = [] ∧ done = []) ∨
    ∃ key span items, done = [⟨key, span, .array true items⟩] ∧ key.name = "passes" ∧
      List.Forall₂ IsPass items passes

def Ready (passes : List PassSetting) (done : Entries) : Prop :=
  ∃ entry, done = [entry] ∧ entry.key.name = "passes" ∧ decodePasses entry.item = .ok passes

/-- The draft, when its table is entered, gives a document that satisfies a condition. -/
def Finishes (P : Entries → Prop) (d : Draft) : Prop :=
  ∃ done, d.finish = some done ∧ P done

theorem ready_of_holdsPasses {passes : List PassSetting} {done : Entries} (hne : passes ≠ [])
    (h : HoldsPasses passes done) : Ready passes done := by
  rcases h with ⟨hnil, _⟩ | ⟨key, span, items, hdone, hkey, hitems⟩
  · exact absurd hnil hne
  · exact ⟨_, hdone, hkey, decodePasses_of_isPass rfl hitems⟩

theorem content_passFields (p : PassSetting) :
    (passFields p).map WrittenField.content = passContents p := by
  cases p <;> rfl

theorem leads_passLines (before : List PassSetting) (p : PassSetting) :
    Leads (passLines p) (Finishes (HoldsPasses before))
      (Finishes (HoldsPasses (before ++ [p]))) := by
  intro statements d hgives hd
  obtain ⟨done, hfinish, hholds⟩ := hd
  have hnames : (((passFields p).map WrittenField.content).map Prod.fst).Nodup := by
    rw [content_passFields]
    cases p <;> simp [passContents]
  obtain ⟨d', hrun, hfilling⟩ :=
    leads_table (passFields p) (.inl rfl) hnames statements d hgives hfinish
  rw [content_passFields] at hfilling
  refine ⟨d', hrun, ?_⟩
  have htable : ∀ span, IsPass ⟨span, .table .header d'.current⟩ p :=
    fun span => ⟨_, _, rfl, hfilling.contents_eq⟩
  rcases hholds with ⟨rfl, rfl⟩ | ⟨key, span, items, rfl, hkey, hitems⟩
  · obtain ⟨key, span, hkey, hend⟩ := finish_new hfilling (by simp [contents])
    exact ⟨_, hend, .inr ⟨key, span, _, rfl, hkey, .cons (htable span) .nil⟩⟩
  · obtain ⟨place, hend⟩ := finish_grows hfilling hkey
    refine ⟨_, hend, .inr ⟨key, span, _, rfl, hkey, ?_⟩⟩
    exact List.rel_append hitems (.cons (htable place) .nil)

theorem leads_blocks (before : List PassSetting) (passes : List PassSetting) :
    Leads ([.blank].intercalate (passes.map passLines)) (Finishes (HoldsPasses before))
      (Finishes (HoldsPasses (before ++ passes))) := by
  induction passes generalizing before with
  | nil => exact Leads.nil fun d hd => by rw [List.append_nil]; exact hd
  | cons p rest ih =>
    cases rest with
    | nil =>
      rw [List.map_cons, List.map_nil, List.intercalate_singleton]
      exact leads_passLines before p
    | cons next rest =>
      have hrest := ih (before ++ [p])
      rw [List.append_assoc] at hrest
      rw [List.map_cons, List.map_cons, List.intercalate_cons_cons]
      exact ((leads_passLines before p).append leads_blank).append hrest

theorem leads_passesLines (passes : List PassSetting) :
    Leads (passesLines passes) (Filling none [] []) (Finishes (Ready passes)) := by
  intro statements d hgives hd
  rw [passesLines] at hgives
  split at hgives
  · rename_i hempty
    obtain rfl := List.isEmpty_iff.mp hempty
    obtain ⟨d', hrun, hfilling⟩ := leads_entry ⟨"passes", ['[', ']'], .array false []⟩
      (by simp) statements d hgives hd
    obtain ⟨entry, hcurrent, hname, hvalue⟩ := contents_singleton hfilling.contents_eq
    exact ⟨d', hrun, d'.current, finish_open hfilling, entry, hcurrent, hname,
      decodePasses_of_isPass hvalue .nil⟩
  · rename_i hne
    have hstart : Finishes (HoldsPasses []) d :=
      ⟨d.current, finish_open hd, .inl ⟨rfl, List.map_eq_nil_iff.mp hd.contents_eq⟩⟩
    obtain ⟨d', hrun, done, hfinish, hholds⟩ := leads_blocks [] passes statements d hgives hstart
    exact ⟨d', hrun, done, hfinish,
      ready_of_holdsPasses (fun h => hne (List.isEmpty_iff.mpr h)) hholds⟩

theorem content_bindingFields (bindings : List (String × Int64)) :
    (bindingFields bindings).map WrittenField.content = bindingContents bindings := by
  rw [bindingFields, List.map_map]
  rfl

theorem leads_environmentLines (passes : List PassSetting) {bindings : List (String × Int64)}
    (h : (bindings.map Prod.fst).Nodup) :
    Leads (environmentLines bindings) (Finishes (Ready passes)) (Finishes fun entries =>
      ∃ order : List (String × Int64), order.Perm bindings ∧
        decode entries = .ok ⟨passes, .ofList order⟩) := by
  intro statements d hgives hd
  obtain ⟨_, hfinish, first, rfl, hfirst, hpasses⟩ := hd
  have hnew : "environment" ∉ (contents [first]).map Prod.fst := by
    simp [contents, hfirst]
  have hnames : (((bindingFields bindings).map WrittenField.content).map Prod.fst).Nodup := by
    rw [content_bindingFields, bindingContents, List.map_map]
    exact h
  obtain ⟨d', hrun, hfilling⟩ :=
    (leads_blank.cons (leads_table _ (.inr hnew) hnames)) statements d hgives hfinish
  rw [content_bindingFields] at hfilling
  obtain ⟨key, span, hkey, hend⟩ := finish_new hfilling hnew
  obtain ⟨order, horder, henv⟩ := decodeEnvironment_of_contents
    (x := ⟨span, .table .header d'.current⟩) rfl hfilling.contents_eq
  exact ⟨d', hrun, _, hend, order, horder, decode_both hfirst hpasses hkey henv⟩

theorem sound_lines (c : Config) :
    ∀ line ∈ passesLines c.passes ++ environmentLines c.environment.bindings, line.Sound := by
  intro line hline
  rcases List.mem_append.mp hline with h | h
  · exact sound_passesLines c.passes line h
  · exact sound_environmentLines c.environment.bindings line h

theorem ofToml_written (tomlError : String → String) (c : Config) :
    ∃ order : List (String × Int64), order.Perm c.environment.bindings ∧
      ofToml tomlError c.toToml = .ok ⟨c.passes, .ofList order⟩ := by
  have hne : passesLines c.passes ++ environmentLines c.environment.bindings ≠ [] := by
    simp [environmentLines]
  obtain ⟨statements, hgives, hread⟩ := readDocument_lines hne (sound_lines c)
  have hleads := (leads_passesLines c.passes).append
    (leads_environmentLines c.passes c.environment.distinct)
  obtain ⟨d, ⟨entries, hfinish, order, horder, hdecode⟩, hassemble⟩ :=
    assemble_of_leads hleads hgives
  refine ⟨order, horder, ?_⟩
  rw [ofToml, toList_toToml, hread, hassemble, hfinish]
  show (decode entries).mapError _ = _
  rw [hdecode]
  rfl

/-- A configuration is read back from its text, whatever the names of the variables are and in
whatever order the environment is written. -/
theorem ofToml_toToml (tomlError : String → String) (c : Config) (order : List (String × Int64))
    (h : order.Perm c.environment.bindings) :
    ∃ c' : Config,
      ofToml tomlError ({ c with environment := c.environment.reorder order h }).toToml = .ok c' ∧
      c'.passes = c.passes ∧
      ∀ name, c'.environment.get? name = c.environment.get? name := by
  obtain ⟨read, hread, hok⟩ :=
    ofToml_written tomlError { c with environment := c.environment.reorder order h }
  have hperm : read.Perm c.environment.bindings := hread.trans h
  exact ⟨_, hok, rfl, fun name => Environment.get?_ofList_of_perm hperm name⟩

/-- Names that need escapes, marks or nothing, written in another order than they are held in. -/
theorem ofToml_toToml_reversed :
    let c : Config :=
      { passes := [.fold, .replace (-1), .fold]
        environment := .ofList [("", -7), ("a.\"b\\", 0), ("x", 5), ("line\n'", 42)] }
    let order := c.environment.bindings.reverse
    let written (h : order.Perm c.environment.bindings) : Config :=
      { c with environment := c.environment.reorder order h }
    order.map Prod.fst = ["line\n'", "x", "a.\"b\\", ""] ∧
      ∃ h, ∀ tomlError, ∃ c' : Config, ofToml tomlError (written h).toToml = .ok c' ∧
        c'.passes = [.fold, .replace (-1), .fold] ∧ c'.environment.get? "" = some (-7) := by
  intro c order written
  have horder : order.Perm c.environment.bindings := List.reverse_perm _
  refine ⟨rfl, horder, fun tomlError => ?_⟩
  obtain ⟨c', hread, hpasses, henv⟩ := ofToml_toToml tomlError c order horder
  refine ⟨c', hread, hpasses, ?_⟩
  rw [henv]
  rfl

end ArithTree.Config
