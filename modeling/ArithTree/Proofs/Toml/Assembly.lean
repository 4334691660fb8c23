import ArithTree.Proofs.Toml.Lines

/-!
# Putting simple lines together

A draft is followed through the lines of a document. What counts about the table that is being
filled is its header and the names and values in it, not where they were read; so a draft is
described by these, and each kind of line leads from one description to the next.
-/

set_option autoImplicit false

namespace ArithTree.Toml

def contents (entries : Entries) : List (String × Value) :=
  entries.map fun entry => (entry.key.name, entry.item.value)

theorem contents_singleton {entries : Entries} {name : String} {value : Value}
    (h : contents entries = [(name, value)]) :
    ∃ entry, entries = [entry] ∧ entry.key.name = name ∧ entry.item.value = value := by
  obtain ⟨entry, hentries, hentry⟩ := List.map_eq_singleton_iff.mp h
  rw [Prod.mk.injEq] at hentry
  exact ⟨entry, hentries, hentry⟩

theorem alter_new {name : String} (edit : Option (Entry Value) → Option (Entry Value))
    {entries : Entries} (h : name ∉ (contents entries).map Prod.fst) :
    alter name edit entries = (edit none).map fun entry => entries ++ [entry] := by
  induction entries with
  | nil => rfl
  | cons entry rest ih =>
    have hentry : entry.key.name ≠ name := fun he => h (by simp [contents, he])
    have hrest : name ∉ (contents rest).map Prod.fst := fun hm => h (List.mem_cons_of_mem _ hm)
    rw [alter, if_neg hentry, ih hrest, Option.map_map]
    rfl

theorem addEntry_new {key : Key} (item : Item Value) {entries : Entries}
    (h : key.name ∉ (contents entries).map Prod.fst) :
    addEntry key item entries = some (entries ++ [⟨key, item⟩]) := by
  rw [addEntry, alter_new _ h]
  rfl

theorem find?_new {name : String} {entries : Entries}
    (h : name ∉ (contents entries).map Prod.fst) : find? name entries = none := by
  rw [find?, Option.map_eq_none_iff, List.find?_eq_none]
  intro entry hm he
  have hname : entry.key.name = name := of_decide_eq_true he
  exact h (List.mem_map.mpr ⟨_, List.mem_map.mpr ⟨entry, hm, rfl⟩, hname⟩)

/-- The draft fills the table with a header, or the table of the whole document, and that table
has these names and values so far. -/
structure Filling (header? : Option (String × Bool)) (done : Entries)
    (fields : List (String × Value)) (d : Draft) : Prop where
  header_eq : d.header?.map (fun h => (h.path, h.key.name, h.grows)) =
    header?.map fun t => ([], t.1, t.2)
  done_eq : d.done = done
  contents_eq : contents d.current = fields

theorem filling_start : Filling none [] [] Draft.start := ⟨rfl, rfl, rfl⟩

theorem Filling.header {name : String} {grows : Bool} {done : Entries}
    {fields : List (String × Value)} {d : Draft} (h : Filling (some (name, grows)) done fields d) :
    ∃ header, d.header? = some header ∧ header.path = [] ∧ header.key.name = name ∧
      header.grows = grows := by
  have heq := h.header_eq
  cases hd : d.header? with
  | none => rw [hd] at heq; cases heq
  | some header =>
    rw [hd] at heq
    simp only [Option.map_some, Option.some.injEq, Prod.mk.injEq] at heq
    exact ⟨header, rfl, heq⟩

theorem finish_open {done : Entries} {fields : List (String × Value)} {d : Draft}
    (h : Filling none done fields d) : d.finish = some d.current := by
  have hnone : d.header? = none := Option.map_eq_none_iff.mp h.header_eq
  rw [Draft.finish, hnone]

theorem finish_header {d : Draft} {header : Header} (h : d.header? = some header)
    (hpath : header.path = []) :
    d.finish = alter header.key.name (placed header d.current) d.done := by
  rw [Draft.finish, h]
  simp only [hpath, within]

theorem finish_new {name : String} {grows : Bool} {done : Entries}
    {fields : List (String × Value)} {d : Draft} (h : Filling (some (name, grows)) done fields d)
    (hnew : name ∉ (contents done).map Prod.fst) :
    ∃ key span, key.name = name ∧ d.finish = some (done ++ [⟨key, span,
      if grows then .array true [⟨span, .table .header d.current⟩]
      else .table .header d.current⟩]) := by
  obtain ⟨header, hheader, hpath, hname, hgrows⟩ := h.header
  refine ⟨header.key, header.span, hname, ?_⟩
  rw [finish_header hheader hpath, h.done_eq, alter_new _ (by rw [hname]; exact hnew), placed,
    hgrows]
  cases grows <;> rfl

theorem finish_grows {name : String} {key : Key} {span : Text.Span} {items : List (Item Value)}
    {fields : List (String × Value)} {d : Draft}
    (h : Filling (some (name, true)) [⟨key, span, .array true items⟩] fields d)
    (hkey : key.name = name) :
    ∃ place, d.finish =
      some [⟨key, span, .array true (items ++ [⟨place, .table .header d.current⟩])⟩] := by
  obtain ⟨header, hheader, hpath, hname, hgrows⟩ := h.header
  refine ⟨header.span, ?_⟩
  rw [finish_header hheader hpath, h.done_eq, alter, if_pos (by rw [hkey, hname])]
  simp only [placed, hgrows, if_true, Option.map_some]

/-- From every draft that satisfies the first condition, what the lines say leads to one that
satisfies the second. -/
def Leads (lines : List Line) (P Q : Draft → Prop) : Prop :=
  ∀ statements d, List.Forall₂ Line.Gives lines statements → P d →
    ∃ d', (statements.filterMap id).foldlM Draft.next d = some d' ∧ Q d'

section Leads

variable {P Q R : Draft → Prop}

theorem Leads.nil (h : ∀ d, P d → Q d) : Leads [] P Q := by
  intro statements d hgives hP
  cases hgives
  exact ⟨d, rfl, h d hP⟩

theorem Leads.append {first second : List Line} (hfirst : Leads first P Q)
    (hsecond : Leads second Q R) : Leads (first ++ second) P R := by
  intro statements d hgives hP
  have hbefore := List.forall₂_take first.length hgives
  have hafter := List.forall₂_drop first.length hgives
  rw [List.take_left] at hbefore
  rw [List.drop_left] at hafter
  obtain ⟨d₁, hrun₁, hQ⟩ := hfirst _ d hbefore hP
  obtain ⟨d₂, hrun₂, hR⟩ := hsecond _ d₁ hafter hQ
  refine ⟨d₂, ?_, hR⟩
  rw [← List.take_append_drop first.length statements, List.filterMap_append,
    List.foldlM_append, hrun₁]
  exact hrun₂

theorem Leads.cons {line : Line} {lines : List Line} (hline : Leads [line] P Q)
    (hlines : Leads lines Q R) : Leads (line :: lines) P R :=
  hline.append hlines

theorem leads_blank : Leads [.blank] P P := by
  intro statements d hgives hP
  cases hgives with
  | cons hline hrest =>
    cases hrest
    cases hline
    exact ⟨d, rfl, hP⟩

theorem leads_statement {line : Line} (h : ∀ statement?, line.Gives statement? →
      ∃ statement, statement? = some statement ∧
        ∀ d, P d → ∃ d', d.next statement = some d' ∧ Q d') :
    Leads [line] P Q := by
  intro statements d hgives hP
  cases hgives with
  | cons hline hrest =>
    cases hrest
    obtain ⟨statement, rfl, hstep⟩ := h _ hline
    obtain ⟨d', hnext, hQ⟩ := hstep d hP
    refine ⟨d', ?_, hQ⟩
    simp only [List.filterMap_cons, id, List.filterMap_nil, List.foldlM_cons, List.foldlM_nil,
      hnext, bind, Option.bind, pure]

/-- A header ends the table before it. A header in single brackets needs a new name. -/
theorem leads_header {name : String} {grows : Bool} {done : Entries}
    (hdone : ∀ d, P d → d.finish = some done)
    (hnew : grows = true ∨ name ∉ (contents done).map Prod.fst) :
    Leads [.header name grows] P (Filling (some (name, grows)) done []) := by
  apply leads_statement
  rintro statement? ⟨header, rfl, hpath, hname, hgrows⟩
  refine ⟨_, rfl, fun d hP => ?_⟩
  have hempty : (if header.grows then [] else heldBefore header done) = [] := by
    rcases hnew with rfl | hnew
    · rw [hgrows, if_pos rfl]
    · rw [heldBefore, hpath, hname, tableAt, find?_new hnew, ite_self]
  refine ⟨⟨done, some header, []⟩, ?_, ?_, rfl, rfl⟩
  · simp only [Draft.next, hdone d hP, bind, Option.bind, hempty]
  · simp only [Option.map_some, hpath, hname, hgrows]

theorem leads_entry {header? : Option (String × Bool)} {done : Entries}
    {fields : List (String × Value)} (field : WrittenField)
    (hnew : field.name ∉ fields.map Prod.fst) :
    Leads [.entry field] (Filling header? done fields)
      (Filling header? done (fields ++ [field.content])) := by
  apply leads_statement
  rintro statement? ⟨a, rfl, hpath, hname, hvalue⟩
  refine ⟨_, rfl, fun d hd => ?_⟩
  have hadd : addEntry a.key a.item d.current = some (d.current ++ [⟨a.key, a.item⟩]) :=
    addEntry_new a.item (by rw [hd.contents_eq, hname]; exact hnew)
  have hassign : assign a .header d.current = some (d.current ++ [⟨a.key, a.item⟩]) := by
    simp [assign, hpath, within, hadd]
  refine ⟨{ d with current := d.current ++ [⟨a.key, a.item⟩] }, ?_, hd.header_eq, hd.done_eq, ?_⟩
  · simp only [Draft.next, hassign, bind, Option.bind]
  · rw [contents, List.map_append, WrittenField.content, ← hname, ← hvalue, ← hd.contents_eq]
    rfl

theorem leads_entries {header? : Option (String × Bool)} {done : Entries}
    (added : List WrittenField) {fields : List (String × Value)}
    (hnew : ((fields ++ added.map WrittenField.content).map Prod.fst).Nodup) :
    Leads (added.map .entry) (Filling header? done fields)
      (Filling header? done (fields ++ added.map WrittenField.content)) := by
  induction added generalizing fields with
  | nil => exact Leads.nil fun d hd => by rw [List.map_nil, List.append_nil]; exact hd
  | cons field added ih =>
    have hfield : field.name ∉ fields.map Prod.fst := by
      intro hm
      rw [List.map_append, List.map_cons] at hnew
      exact (List.nodup_append.mp hnew).2.2 _ hm _ List.mem_cons_self rfl
    rw [List.map_cons, List.append_cons] at hnew
    rw [List.map_cons, List.map_cons, List.append_cons]
    exact (leads_entry field hfield).cons (ih hnew)

theorem leads_table {name : String} {grows : Bool} {done : Entries} (fields : List WrittenField)
    (hnew : grows = true ∨ name ∉ (contents done).map Prod.fst)
    (hnames : ((fields.map WrittenField.content).map Prod.fst).Nodup) :
    Leads (.header name grows :: fields.map .entry) (fun d => d.finish = some done)
      (Filling (some (name, grows)) done (fields.map WrittenField.content)) := by
  have hheader : Leads [.header name grows] (fun d => d.finish = some done)
      (Filling (some (name, grows)) done []) := leads_header (fun _ hd => hd) hnew
  exact hheader.cons (leads_entries fields hnames)

theorem assemble_of_leads {lines : List Line} {statements : List (Option Statement)}
    (h : Leads lines (Filling none [] []) Q) (hgives : List.Forall₂ Line.Gives lines statements) :
    ∃ d, Q d ∧ assemble (statements.filterMap id) = d.finish := by
  obtain ⟨d, hrun, hQ⟩ := h statements Draft.start hgives filling_start
  refine ⟨d, hQ, ?_⟩
  rw [assemble, hrun]
  rfl

end Leads
end ArithTree.Toml
