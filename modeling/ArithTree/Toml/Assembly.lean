import ArithTree.Toml.Value

/-!
# Putting a document together

A document is a list of statements: assignments, and headers that say which table the following
assignments fill. No key is assigned twice, no table gets two headers, and nothing is added to
a value that was written out in full. A table that was only passed on the way to another header
may still get its own, unless a dotted key has gone through it; dotted keys go only through such
tables and those that they have made.

While a table is being filled it is held apart from the document and enters it when the next
header is met.
-/

set_option autoImplicit false

namespace ArithTree.Toml

structure Header where
  path : List Key
  key : Key
  span : Text.Span
  /-- In double brackets: one more table at the end of an array. -/
  grows : Bool

structure Assignment where
  path : List Key
  key : Key
  item : Item Value

inductive Statement
  | assign (a : Assignment)
  | header (h : Header)

def alter (name : String) (edit : Option (Entry Value) → Option (Entry Value)) :
    Entries → Option Entries
  | [] => (edit none).map fun entry => [entry]
  | entry :: rest =>
      if entry.key.name = name then (edit (some entry)).map fun entry => entry :: rest
      else (alter name edit rest).map (entry :: ·)

/-- Whether a path whose missing tables get the origin `fresh` may enter a table. -/
def enters (fresh origin : Origin) : Bool :=
  match origin with
  | .header => fresh ≠ .dottedKey
  | .implied => true
  | .dottedKey => true
  | .braces => false

/-- A dotted key makes the tables that it goes through its own, if they were only passed on the way
to a header before. -/
def originAfter (fresh origin : Origin) : Origin :=
  if origin = .implied then fresh else origin

/-- Follows a path, making the tables that are missing, and edits the table at its end. In an
array that grows the path goes on in the last table. -/
def within (fresh : Origin) (edit : Origin → Entries → Option Entries) :
    List Key → Origin → Entries → Option Entries
  | [], origin, entries => edit origin entries
  | key :: path, _, entries =>
      alter key.name (fun
        | none => do
          let inner ← within fresh edit path fresh []
          some ⟨key, key.span, .table fresh inner⟩
        | some ⟨key, span, .table origin inner⟩ =>
          if enters fresh origin then do
            let inner ← within fresh edit path (originAfter fresh origin) inner
            some ⟨key, span, .table (originAfter fresh origin) inner⟩
          else none
        | some ⟨key, span, .array true items⟩ =>
          match items.getLast? with
          | some ⟨last, .table origin inner⟩ => do
            let inner ← within fresh edit path origin inner
            some ⟨key, span, .array true (items.dropLast ++ [⟨last, .table origin inner⟩])⟩
          | _ => none
        | some _ => none) entries

def addEntry (key : Key) (item : Item Value) (entries : Entries) : Option Entries :=
  alter key.name (fun
    | none => some ⟨key, item⟩
    | some _ => none) entries

/-- Assigns in a table with a given origin. The last table of a dotted key must be one that dotted
keys have made. -/
def assign (a : Assignment) (origin : Origin) (entries : Entries) : Option Entries :=
  within .dottedKey
    (fun origin entries =>
      if origin = .dottedKey ↔ a.path ≠ [] then addEntry a.key a.item entries else none)
    a.path origin entries

def assignAll (as : List Assignment) (origin : Origin) (entries : Entries) : Option Entries :=
  as.foldlM (fun entries a => assign a origin entries) entries

/-- The document so far, the header whose table is being filled, and that table. -/
structure Draft where
  done : Entries
  header? : Option Header
  current : Entries

def Draft.start : Draft := ⟨[], none, []⟩

def tableAt : List Key → Entries → Entries
  | [], entries => entries
  | key :: path, entries =>
    match find? key.name entries with
    | some ⟨_, .table _ inner⟩ => tableAt path inner
    | some ⟨_, .array _ items⟩ =>
      match items.getLast? with
      | some ⟨_, .table _ inner⟩ => tableAt path inner
      | _ => []
    | _ => []

def heldBefore (h : Header) (done : Entries) : Entries :=
  match find? h.key.name (tableAt h.path done) with
  | some ⟨_, .table .implied inner⟩ => inner
  | _ => []

def placed (h : Header) (filled : Entries) : Option (Entry Value) → Option (Entry Value)
  | none =>
      if h.grows then some ⟨h.key, h.span, .array true [⟨h.span, .table .header filled⟩]⟩
      else some ⟨h.key, h.span, .table .header filled⟩
  | some ⟨key, span, .array true items⟩ =>
      if h.grows then some ⟨key, span, .array true (items ++ [⟨h.span, .table .header filled⟩])⟩
      else none
  | some ⟨_, _, .table .implied _⟩ =>
      if h.grows then none else some ⟨h.key, h.span, .table .header filled⟩
  | some _ => none

def Draft.finish (d : Draft) : Option Entries :=
  match d.header? with
  | none => some d.current
  | some h =>
      within .implied (fun _ entries => alter h.key.name (placed h d.current) entries) h.path
        .header d.done

def Draft.next (d : Draft) : Statement → Option Draft
  | .assign a => do
      let current ← assign a .header d.current
      some { d with current }
  | .header h => do
      let done ← d.finish
      some ⟨done, some h, if h.grows then [] else heldBefore h done⟩

def assemble (statements : List Statement) : Option Entries := do
  let draft ← statements.foldlM Draft.next Draft.start
  draft.finish

end ArithTree.Toml
