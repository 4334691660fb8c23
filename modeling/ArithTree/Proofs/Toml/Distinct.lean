import ArithTree.Proofs.Toml.Assembly

/-!
# Documents name nothing twice

In a document that was read no table has two entries with one name, at whatever depth it stands
and however it was written. An edit of one entry keeps this, so following a path to the entry
keeps it, and so does every statement. Values between brackets and braces have it by induction
on the levels that are left.
-/

set_option autoImplicit false

namespace ArithTree.Toml

def Value.IsLeaf : Value → Prop
  | .array _ _ => False
  | .table _ _ => False
  | _ => True

/-- No table in a value has two entries with one name. -/
inductive Value.Distinct : Value → Prop
  | leaf {value : Value} : value.IsLeaf → Distinct value
  | array {grows : Bool} {items : List (Item Value)} :
      (∀ x ∈ items, Distinct x.value) → Distinct (.array grows items)
  | table {origin : Origin} {entries : Entries} :
      ((contents entries).map Prod.fst).Nodup →
      (∀ entry ∈ entries, Distinct entry.item.value) → Distinct (.table origin entries)

structure DistinctTable (entries : Entries) : Prop where
  nodup : ((contents entries).map Prod.fst).Nodup
  values : ∀ entry ∈ entries, entry.item.value.Distinct

theorem Value.distinct_array_iff {grows : Bool} {items : List (Item Value)} :
    (Value.array grows items).Distinct ↔ ∀ x ∈ items, x.value.Distinct := by
  constructor
  · intro h
    cases h with
    | leaf hleaf => cases hleaf
    | array hitems => exact hitems
  · exact .array

theorem Value.distinct_table_iff {origin : Origin} {entries : Entries} :
    (Value.table origin entries).Distinct ↔ DistinctTable entries := by
  constructor
  · intro h
    cases h with
    | leaf hleaf => cases hleaf
    | table hnodup hvalues => exact ⟨hnodup, hvalues⟩
  · exact fun h => .table h.nodup h.values

theorem Value.distinct_push {grows : Bool} {items : List (Item Value)} {last : Item Value}
    (hitems : ∀ x ∈ items, x.value.Distinct) (hlast : last.value.Distinct) :
    (Value.array grows (items ++ [last])).Distinct := by
  rw [distinct_array_iff, List.forall_mem_append, List.forall_mem_singleton]
  exact ⟨hitems, hlast⟩

theorem distinctTable_nil : DistinctTable [] := ⟨List.nodup_nil, by simp⟩

theorem mem_of_find? {name : String} {entries : Entries} {x : Item Value}
    (h : find? name entries = some x) :
    ∃ entry ∈ entries, entry.key.name = name ∧ entry.item = x := by
  obtain ⟨entry, hentry, rfl⟩ := Option.map_eq_some_iff.mp h
  have hname := List.find?_some hentry
  exact ⟨entry, List.mem_of_find?_eq_some hentry, of_decide_eq_true hname, rfl⟩

theorem DistinctTable.find? {name : String} {entries : Entries} {x : Item Value}
    (h : DistinctTable entries) (hx : Toml.find? name entries = some x) : x.value.Distinct := by
  obtain ⟨entry, hentry, _, rfl⟩ := mem_of_find? hx
  exact h.values entry hentry

theorem mem_contents_iff {name : String} {value : Value} {entries : Entries} :
    (name, value) ∈ contents entries ↔
      ∃ entry ∈ entries, entry.key.name = name ∧ entry.item.value = value := by
  simp [contents]

theorem find?_eq_some_iff {name : String} {entries : Entries} {x : Item Value}
    (h : ((contents entries).map Prod.fst).Nodup) :
    find? name entries = some x ↔ ∃ entry ∈ entries, entry.key.name = name ∧ entry.item = x := by
  refine ⟨mem_of_find?, ?_⟩
  induction entries with
  | nil => rintro ⟨_, hm, _⟩; cases hm
  | cons first rest ih =>
    rintro ⟨entry, hm, rfl, rfl⟩
    rw [contents, List.map_cons, List.map_cons, List.nodup_cons] at h
    obtain ⟨hfirst, hrest⟩ := h
    rcases List.mem_cons.mp hm with rfl | hm
    · simp [Toml.find?]
    · have hname : first.key.name ≠ entry.key.name := by
        intro hname
        exact hfirst (List.mem_map.mpr ⟨_, mem_contents_iff.mpr ⟨entry, hm, hname.symm, rfl⟩, rfl⟩)
      rw [Toml.find?, List.find?_cons_of_neg (by simpa using hname)]
      exact ih hrest ⟨entry, hm, rfl, rfl⟩

theorem nodup_of_perm {entries order : Entries} (hp : order.Perm entries)
    (h : ((contents entries).map Prod.fst).Nodup) : ((contents order).map Prod.fst).Nodup :=
  ((hp.map _).map _).nodup_iff.mpr h

theorem find?_perm {name : String} {entries order : Entries} (hp : order.Perm entries)
    (h : ((contents entries).map Prod.fst).Nodup) : find? name order = find? name entries := by
  apply Option.ext
  intro x
  rw [find?_eq_some_iff (nodup_of_perm hp h), find?_eq_some_iff h]
  simp only [hp.mem_iff]

theorem DistinctTable.mem_contents_iff_find? {entries : Entries} (h : DistinctTable entries)
    {name : String} {value : Value} :
    (name, value) ∈ contents entries ↔ ∃ x, Toml.find? name entries = some x ∧ x.value = value := by
  simp only [find?_eq_some_iff h.nodup, mem_contents_iff]
  constructor
  · rintro ⟨entry, hm, hname, hvalue⟩
    exact ⟨entry.item, ⟨entry, hm, hname, rfl⟩, hvalue⟩
  · rintro ⟨_, ⟨entry, hm, hname, rfl⟩, hvalue⟩
    exact ⟨entry, hm, hname, hvalue⟩

theorem DistinctTable.eq_of_mem_contents {entries : Entries} (h : DistinctTable entries)
    {name : String} {value other : Value} (hvalue : (name, value) ∈ contents entries)
    (hother : (name, other) ∈ contents entries) : value = other := by
  obtain ⟨x, hx, rfl⟩ := h.mem_contents_iff_find?.mp hvalue
  obtain ⟨y, hy, rfl⟩ := h.mem_contents_iff_find?.mp hother
  rw [hx] at hy
  rw [Option.some.inj hy]

section Editing

/-- What an edit gives for the entry of a name has that name, and names nothing twice if the entry
did not. -/
def KeepsDistinct (name : String) (edit : Option (Entry Value) → Option (Entry Value)) : Prop :=
  ∀ found entry, (∀ old ∈ found, old.key.name = name ∧ old.item.value.Distinct) →
    edit found = some entry → entry.key.name = name ∧ entry.item.value.Distinct

theorem alter_eq_some {name : String} {edit : Option (Entry Value) → Option (Entry Value)}
    {entries entries' : Entries} (h : alter name edit entries = some entries') :
    (∃ entry, name ∉ (contents entries).map Prod.fst ∧ edit none = some entry ∧
      entries' = entries ++ [entry]) ∨
    (∃ before old after entry, entries = before ++ old :: after ∧ old.key.name = name ∧
      edit (some old) = some entry ∧ entries' = before ++ entry :: after) := by
  induction entries generalizing entries' with
  | nil =>
    obtain ⟨entry, hentry, rfl⟩ := Option.map_eq_some_iff.mp h
    exact .inl ⟨entry, by simp [contents], hentry, rfl⟩
  | cons first rest ih =>
    rw [alter] at h
    split at h
    · rename_i hname
      obtain ⟨entry, hentry, rfl⟩ := Option.map_eq_some_iff.mp h
      exact .inr ⟨[], first, rest, entry, rfl, hname, hentry, rfl⟩
    · rename_i hname
      obtain ⟨rest', hrest, rfl⟩ := Option.map_eq_some_iff.mp h
      rcases ih hrest with
        ⟨entry, hnew, hentry, rfl⟩ | ⟨before, old, after, entry, rfl, hold, hentry, rfl⟩
      · refine .inl ⟨entry, ?_, hentry, rfl⟩
        exact List.not_mem_cons_of_ne_of_not_mem (Ne.symm hname) hnew
      · exact .inr ⟨first :: before, old, after, entry, rfl, hold, hentry, rfl⟩

theorem DistinctTable.alter {name : String}
    {edit : Option (Entry Value) → Option (Entry Value)} {entries entries' : Entries}
    (hd : DistinctTable entries) (hedit : KeepsDistinct name edit)
    (h : Toml.alter name edit entries = some entries') : DistinctTable entries' := by
  rcases alter_eq_some h with
    ⟨entry, hnew, hentry, rfl⟩ | ⟨before, old, after, entry, rfl, hold, hentry, rfl⟩
  · obtain ⟨hname, hvalue⟩ := hedit none entry (by simp) hentry
    constructor
    · rw [contents, List.map_append, List.map_append, ← contents, List.nodup_append]
      refine ⟨hd.nodup, by simp, ?_⟩
      rintro other hother _ hlast rfl
      have hlast' : other = entry.key.name := List.mem_singleton.mp hlast
      rw [hlast', hname] at hother
      exact hnew hother
    · intro other hother
      rcases List.mem_append.mp hother with hm | hlast
      · exact hd.values other hm
      · rw [List.mem_singleton.mp hlast]
        exact hvalue
  · have hvalues := hd.values
    rw [List.forall_mem_append, List.forall_mem_cons] at hvalues
    obtain ⟨hbefore, hvalue, hafter⟩ := hvalues
    obtain ⟨hname, hvalue'⟩ := hedit (some old) entry (by simp [hold, hvalue]) hentry
    constructor
    · have hnodup := hd.nodup
      simp only [contents, List.map_append, List.map_cons, hold] at hnodup
      simp only [contents, List.map_append, List.map_cons, hname]
      exact hnodup
    · rw [List.forall_mem_append, List.forall_mem_cons]
      exact ⟨hbefore, hvalue', hafter⟩

theorem DistinctTable.within {fresh : Origin} {edit : Origin → Entries → Option Entries}
    (hedit : ∀ origin entries entries', DistinctTable entries →
      edit origin entries = some entries' → DistinctTable entries')
    {path : List Key} {origin : Origin} {entries entries' : Entries}
    (hd : DistinctTable entries) (h : Toml.within fresh edit path origin entries = some entries') :
    DistinctTable entries' := by
  induction path generalizing origin entries entries' with
  | nil => exact hedit origin entries entries' hd h
  | cons key path ih =>
    rw [Toml.within] at h
    refine hd.alter ?_ h
    intro found entry hfound hentry
    dsimp only at hentry
    -- The path goes on in a new table, in one that was there, or in the last table of an array.
    split at hentry
    · obtain ⟨inner, hinner, hentry⟩ := Option.bind_eq_some_iff.mp hentry
      cases hentry
      exact ⟨rfl, Value.distinct_table_iff.mpr (ih distinctTable_nil hinner)⟩
    · rename_i old span origin' inner
      obtain ⟨hname, hvalue⟩ := hfound _ rfl
      split at hentry
      · obtain ⟨inner', hinner, hentry⟩ := Option.bind_eq_some_iff.mp hentry
        cases hentry
        have hd' := Value.distinct_table_iff.mp hvalue
        exact ⟨hname, Value.distinct_table_iff.mpr (ih hd' hinner)⟩
      · cases hentry
    · rename_i old span items
      obtain ⟨hname, hvalue⟩ := hfound _ rfl
      have hitems := Value.distinct_array_iff.mp hvalue
      split at hentry
      · rename_i last origin' inner hlast
        obtain ⟨inner', hinner, hentry⟩ := Option.bind_eq_some_iff.mp hentry
        cases hentry
        have hd' := Value.distinct_table_iff.mp (hitems _ (List.mem_of_getLast? hlast))
        have hbefore : ∀ x ∈ items.dropLast, x.value.Distinct :=
          fun x hx => hitems x (List.dropLast_subset items hx)
        exact ⟨hname, Value.distinct_push hbefore (Value.distinct_table_iff.mpr (ih hd' hinner))⟩
      · cases hentry
    · cases hentry

theorem DistinctTable.assign {a : Assignment} {origin : Origin} {entries entries' : Entries}
    (hd : DistinctTable entries) (ha : a.item.value.Distinct)
    (h : Toml.assign a origin entries = some entries') : DistinctTable entries' := by
  refine hd.within (fun origin entries entries' hd h => ?_) h
  split at h
  · refine hd.alter (fun found entry _ hentry => ?_) h
    cases found with
    | none => cases hentry; exact ⟨rfl, ha⟩
    | some old => cases hentry
  · cases h

theorem foldlM_keeps {α β : Type} {P : β → Prop} {step : β → α → Option β} {as : List α}
    (hstep : ∀ a ∈ as, ∀ b b', P b → step b a = some b' → P b') {b b' : β} (hb : P b)
    (h : as.foldlM step b = some b') : P b' := by
  induction as generalizing b with
  | nil => cases h; exact hb
  | cons a as ih =>
    rw [List.foldlM_cons] at h
    obtain ⟨middle, hmiddle, hrest⟩ := Option.bind_eq_some_iff.mp h
    exact ih (fun x hx => hstep x (List.mem_cons_of_mem a hx))
      (hstep a List.mem_cons_self b middle hb hmiddle) hrest

theorem distinctTable_assignAll {as : List Assignment} {origin : Origin} {entries : Entries}
    (ha : ∀ a ∈ as, a.item.value.Distinct) (h : assignAll as origin [] = some entries) :
    DistinctTable entries :=
  foldlM_keeps (fun a hm _ _ hd hstep => DistinctTable.assign hd (ha a hm) hstep)
    distinctTable_nil h

theorem keepsDistinct_placed (h : Header) {filled : Entries} (hfilled : DistinctTable filled) :
    KeepsDistinct h.key.name (placed h filled) := by
  have htable : (Value.table .header filled).Distinct := Value.distinct_table_iff.mpr hfilled
  intro found entry hfound hentry
  unfold placed at hentry
  split at hentry
  · split at hentry
    · cases hentry
      exact ⟨rfl, .array (List.forall_mem_singleton.mpr htable)⟩
    · cases hentry
      exact ⟨rfl, htable⟩
  · obtain ⟨hname, hvalue⟩ := hfound _ rfl
    split at hentry
    · cases hentry
      exact ⟨hname, Value.distinct_push (Value.distinct_array_iff.mp hvalue) htable⟩
    · cases hentry
  · split at hentry
    · cases hentry
    · cases hentry
      exact ⟨rfl, htable⟩
  · cases hentry

theorem distinctTable_tableAt {path : List Key} {entries : Entries} (h : DistinctTable entries) :
    DistinctTable (tableAt path entries) := by
  induction path generalizing entries with
  | nil => exact h
  | cons key path ih =>
    rw [tableAt]
    split
    · rename_i hx
      exact ih (Value.distinct_table_iff.mp (h.find? hx))
    · rename_i hx
      have hitems := Value.distinct_array_iff.mp (h.find? hx)
      split
      · rename_i hlast
        exact ih (Value.distinct_table_iff.mp (hitems _ (List.mem_of_getLast? hlast)))
      · exact distinctTable_nil
    · exact distinctTable_nil

theorem distinctTable_heldBefore (h : Header) {done : Entries} (hd : DistinctTable done) :
    DistinctTable (heldBefore h done) := by
  rw [heldBefore]
  split
  · rename_i hx
    exact Value.distinct_table_iff.mp ((distinctTable_tableAt hd).find? hx)
  · exact distinctTable_nil

structure Draft.Distinct (d : Draft) : Prop where
  done : DistinctTable d.done
  current : DistinctTable d.current

theorem Draft.Distinct.finish {d : Draft} {entries : Entries} (hd : d.Distinct)
    (h : d.finish = some entries) : DistinctTable entries := by
  rw [Draft.finish] at h
  split at h
  · cases h
    exact hd.current
  · rename_i header _
    exact hd.done.within (fun _ _ _ hd' h' => hd'.alter (keepsDistinct_placed header hd.current) h')
      h

def Statement.Distinct : Statement → Prop
  | .assign a => a.item.value.Distinct
  | .header _ => True

theorem Draft.Distinct.next {d d' : Draft} {statement : Statement} (hd : d.Distinct)
    (hs : statement.Distinct) (h : d.next statement = some d') : d'.Distinct := by
  cases statement with
  | assign a =>
    obtain ⟨current, hassign, h⟩ := Option.bind_eq_some_iff.mp h
    cases h
    exact ⟨hd.done, hd.current.assign hs hassign⟩
  | header header =>
    obtain ⟨done, hfinish, h⟩ := Option.bind_eq_some_iff.mp h
    cases h
    have hdone := hd.finish hfinish
    refine ⟨hdone, ?_⟩
    show DistinctTable (if header.grows then [] else heldBefore header done)
    split
    · exact distinctTable_nil
    · exact distinctTable_heldBefore header hdone

theorem distinctTable_assemble {statements : List Statement} {entries : Entries}
    (hs : ∀ statement ∈ statements, statement.Distinct)
    (h : assemble statements = some entries) : DistinctTable entries := by
  obtain ⟨d, hrun, hfinish⟩ := Option.bind_eq_some_iff.mp h
  have hstart : Draft.start.Distinct := ⟨distinctTable_nil, distinctTable_nil⟩
  exact (foldlM_keeps (fun s hm _ _ hd hstep => Draft.Distinct.next hd (hs s hm) hstep) hstart
    hrun).finish hfinish

end Editing

section Reading

def Returns {α : Type} (P : α → Prop) (reader : Reader α) : Prop :=
  ∀ s a rest, reader s = some (a, rest) → P a

theorem readMany_returns {α : Type} {P : α → Prop}
    {step : List Char → Option (α × Bool × List Char)}
    (hstep : ∀ s a more rest, step s = some (a, more, rest) → P a) :
    Returns (fun as => ∀ a ∈ as, P a) (readMany step) := by
  intro s as rest h
  induction s using readMany.induct step generalizing as rest with
  | case1 s hs => simp [readMany, hs] at h
  | case2 s a rest' hs =>
    rw [readMany, hs] at h
    cases h
    simpa using hstep s a false rest' hs
  | case3 s a rest' hs hlt others last hrest ih =>
    rw [readMany, hs] at h
    simp only [hlt, if_true, hrest] at h
    cases h
    rw [List.forall_mem_cons]
    exact ⟨hstep s a true rest' hs, ih _ _ hrest⟩
  | case4 s a rest' hs hlt hrest ih =>
    rw [readMany, hs] at h
    simp [hlt, hrest] at h
  | case5 s a rest' hs hlt =>
    rw [readMany, hs] at h
    simp [hlt] at h

/-- What `item` returns names nothing twice, and the same for all that is made of it below. -/
abbrev ReturnsDistinct (item : Reader (Item Value)) : Prop :=
  Returns (fun x => x.value.Distinct) item

variable {item : Reader (Item Value)}

theorem readElement_distinct (hitem : ReturnsDistinct item) {s rest : List Char} {x : Item Value}
    {more : Bool} (h : readElement item s = some (x, more, rest)) : x.value.Distinct := by
  obtain ⟨⟨x', s₁⟩, hx, h⟩ := Option.bind_eq_some_iff.mp h
  obtain ⟨s₂, _, h⟩ := Option.bind_eq_some_iff.mp h
  have hd := hitem s x' s₁ hx
  split at h
  · cases h; exact hd
  · obtain ⟨s₃, _, h⟩ := Option.bind_eq_some_iff.mp h
    split at h <;> cases h <;> exact hd
  · cases h

theorem readArray_distinct (hitem : ReturnsDistinct item) :
    Returns Value.Distinct (readArray item) := by
  intro s value rest h
  obtain ⟨s₁, _, h⟩ := Option.bind_eq_some_iff.mp h
  split at h
  · cases h
    exact .array (by simp)
  · obtain ⟨⟨items, s₂⟩, hitems, h⟩ := Option.bind_eq_some_iff.mp h
    cases h
    exact .array (readMany_returns (fun _ _ _ _ => readElement_distinct hitem) _ _ _ hitems)

theorem readAssignment_distinct (hitem : ReturnsDistinct item)
    {skip : List Char → Option (List Char)} {s rest : List Char} {a : Assignment}
    (h : readAssignment skip item s = some (a, rest)) : a.item.value.Distinct := by
  obtain ⟨⟨⟨path, key⟩, s₁⟩, _, h⟩ := Option.bind_eq_some_iff.mp h
  obtain ⟨s₂, _, h⟩ := Option.bind_eq_some_iff.mp h
  split at h
  · obtain ⟨s₃, _, h⟩ := Option.bind_eq_some_iff.mp h
    obtain ⟨⟨x, _⟩, hx, h⟩ := Option.bind_eq_some_iff.mp h
    cases h
    exact hitem _ _ _ hx
  · cases h

theorem readField_distinct (hitem : ReturnsDistinct item) {s rest : List Char} {a : Assignment}
    {more : Bool} (h : readField item s = some (a, more, rest)) : a.item.value.Distinct := by
  obtain ⟨⟨a', s₁⟩, ha, h⟩ := Option.bind_eq_some_iff.mp h
  obtain ⟨s₂, _, h⟩ := Option.bind_eq_some_iff.mp h
  have hd := readAssignment_distinct hitem ha
  split at h
  · cases h; exact hd
  · obtain ⟨s₃, _, h⟩ := Option.bind_eq_some_iff.mp h
    split at h <;> cases h <;> exact hd
  · cases h

theorem readBraces_distinct (hitem : ReturnsDistinct item) :
    Returns Value.Distinct (readBraces item) := by
  intro s value rest h
  obtain ⟨s₁, _, h⟩ := Option.bind_eq_some_iff.mp h
  split at h
  · cases h
    exact Value.distinct_table_iff.mpr distinctTable_nil
  · obtain ⟨⟨as, s₂⟩, has, h⟩ := Option.bind_eq_some_iff.mp h
    obtain ⟨entries, hentries, h⟩ := Option.bind_eq_some_iff.mp h
    cases h
    have hfields := readMany_returns (fun _ _ _ _ => readField_distinct hitem) _ _ _ has
    exact Value.distinct_table_iff.mpr (distinctTable_assignAll hfields hentries)

theorem isLeaf_ofToken? {cs : List Char} {value : Value} (h : Value.ofToken? cs = some value) :
    value.IsLeaf := by
  unfold Value.ofToken? at h
  split at h
  · cases h; trivial
  split at h
  · cases h; trivial
  split at h
  · split at h <;> cases h
    trivial
  split at h
  · cases h; trivial
  · obtain ⟨moment, _, rfl⟩ := Option.map_eq_some_iff.mp h
    trivial

theorem readValue_distinct {array braces : Reader Value} (harray : Returns Value.Distinct array)
    (hbraces : Returns Value.Distinct braces) :
    Returns Value.Distinct (readValue array braces) := by
  intro s value rest h
  unfold readValue at h
  split at h
  · exact harray _ value rest h
  · exact hbraces _ value rest h
  · split at h
    · obtain ⟨_, _, h⟩ := Option.map_eq_some_iff.mp h
      cases h
      exact .leaf trivial
    · obtain ⟨value', hvalue, h⟩ := Option.bind_eq_some_iff.mp h
      cases h
      exact .leaf (isLeaf_ofToken? hvalue)
  · cases h

theorem readItem_distinct {value : Reader Value} (h : Returns Value.Distinct value) :
    ReturnsDistinct (readItem value) := by
  intro s x rest hx
  obtain ⟨⟨v, s₁⟩, hv, hx⟩ := Option.map_eq_some_iff.mp hx
  cases hx
  exact h s v rest hv

theorem readLevels_distinct (levels : Nat) : ReturnsDistinct (readLevels levels) := by
  induction levels with
  | zero =>
    refine readItem_distinct (readValue_distinct ?_ ?_)
    · intro _ _ _ h; cases h
    · intro _ _ _ h; cases h
  | succ levels ih =>
    exact readItem_distinct (readValue_distinct (readArray_distinct ih) (readBraces_distinct ih))

theorem readStatement_distinct {s rest : List Char} {statement : Statement}
    (h : readStatement s = some (some statement, rest)) : statement.Distinct := by
  unfold readStatement at h
  split at h
  · cases h
  · obtain ⟨⟨header, _⟩, _, h⟩ := Option.map_eq_some_iff.mp h
    cases h
    trivial
  · split at h
    · cases h
    · obtain ⟨⟨a, _⟩, ha, h⟩ := Option.map_eq_some_iff.mp h
      cases h
      exact readAssignment_distinct (readLevels_distinct maxNesting) ha

theorem readLine_distinct {s rest : List Char} {statement? : Option Statement} {more : Bool}
    (h : readLine s = some (statement?, more, rest)) :
    ∀ statement ∈ statement?, statement.Distinct := by
  obtain ⟨⟨found, s₁⟩, hfound, h⟩ := Option.bind_eq_some_iff.mp h
  obtain ⟨s₂, _, h⟩ := Option.bind_eq_some_iff.mp h
  cases h
  rintro statement rfl
  exact readStatement_distinct hfound

theorem readDocument_distinct {s : List Char} {entries : Entries}
    (h : readDocument s = some entries) : DistinctTable entries := by
  obtain ⟨⟨statements, rest⟩, hread, h⟩ := Option.bind_eq_some_iff.mp h
  have hlines := readMany_returns (fun _ _ _ _ => readLine_distinct) _ _ _ hread
  refine distinctTable_assemble (fun statement hm => ?_) h
  obtain ⟨statement?, hmem, hstatement⟩ := List.mem_filterMap.mp hm
  exact hlines statement? hmem statement hstatement

end Reading

end ArithTree.Toml
