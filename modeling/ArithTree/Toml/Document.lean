import ArithTree.Toml.Assembly
import ArithTree.Toml.Lexeme
import ArithTree.Toml.Scalar

/-!
# Reading TOML

A document is read line by line into statements, which are then put together. Brackets and
braces may be nested 80 deep; the reader goes down by recursion on the levels that are left.
-/

set_option autoImplicit false

namespace ArithTree.Toml

def readElement (item : Reader (Item Value)) (s : List Char) :
    Option (Item Value × Bool × List Char) := do
  let (x, s) ← item s
  let s ← skipGaps false s
  match s with
  | ']' :: rest => some (x, false, rest)
  | ',' :: rest =>
    match ← skipGaps false rest with
    | ']' :: rest => some (x, false, rest)
    | rest => some (x, true, rest)
  | _ => none

def readArray (item : Reader (Item Value)) (s : List Char) : Option (Value × List Char) := do
  match ← skipGaps false s with
  | ']' :: rest => some (.array false [], rest)
  | s =>
    let (items, rest) ← readMany (readElement item) s
    some (.array false items, rest)

def readAssignment (skip : List Char → Option (List Char)) (item : Reader (Item Value))
    (s : List Char) : Option (Assignment × List Char) := do
  let ((path, key), s) ← readPath s
  match ← skip s with
  | '=' :: rest =>
    let (x, rest) ← item (← skip rest)
    some (⟨path, key, x⟩, rest)
  | _ => none

def readField (item : Reader (Item Value)) (s : List Char) :
    Option (Assignment × Bool × List Char) := do
  let (a, s) ← readAssignment (skipGaps false) item s
  let s ← skipGaps false s
  match s with
  | '\x7d' :: rest => some (a, false, rest)
  | ',' :: rest =>
    match ← skipGaps false rest with
    | '\x7d' :: rest => some (a, false, rest)
    | rest => some (a, true, rest)
  | _ => none

def readBraces (item : Reader (Item Value)) (s : List Char) : Option (Value × List Char) := do
  match ← skipGaps false s with
  | '\x7d' :: rest => some (.table .braces [], rest)
  | s =>
    let (as, rest) ← readMany (readField item) s
    let entries ← assignAll as .braces []
    some (.table .braces entries, rest)

def readValue (array braces : Reader Value) (s : List Char) : Option (Value × List Char) :=
  match s with
  | '[' :: rest => array rest
  | '\x7b' :: rest => braces rest
  | c :: _ =>
      if c = '"' ∨ c = '\'' then
        (readString s).map fun (cs, rest) => (.string (String.ofList cs), rest)
      else readScalar s
  | [] => none

def readItem (value : Reader Value) (s : List Char) : Option (Item Value × List Char) :=
  (value s).map fun (x, rest) => (⟨⟨s, rest⟩, x⟩, rest)

/-- A value, when brackets and braces may still be nested as deep as the levels say. -/
def readLevels : (levels : Nat) → Reader (Item Value)
  | 0 => readItem (readValue (fun _ => none) (fun _ => none))
  | levels + 1 =>
      readItem (readValue (readArray (readLevels levels)) (readBraces (readLevels levels)))

def maxNesting : Nat := 80

def readHeader (s : List Char) : Option (Header × List Char) :=
  match s with
  | '[' :: '[' :: rest => do
    let ((path, key), rest) ← readPath (skipBlanks rest)
    match rest with
    | ']' :: ']' :: rest => some (⟨path, key, ⟨s, rest⟩, true⟩, rest)
    | _ => none
  | '[' :: rest => do
    let ((path, key), rest) ← readPath (skipBlanks rest)
    match rest with
    | ']' :: rest => some (⟨path, key, ⟨s, rest⟩, false⟩, rest)
    | _ => none
  | _ => none

def readStatement (s : List Char) : Option (Option Statement × List Char) :=
  match skipBlanks s with
  | [] => some (none, [])
  | '[' :: rest => (readHeader ('[' :: rest)).map fun (h, rest) => (some (.header h), rest)
  | c :: rest =>
      if c = '#' ∨ c = '\n' ∨ c = '\r' then some (none, c :: rest)
      else
        (readAssignment (some ∘ skipBlanks) (readLevels maxNesting) (c :: rest)).map
          fun (a, rest) => (some (.assign a), rest)

/-- A line with its end, and whether any text is left. -/
def readLine (s : List Char) : Option (Option Statement × Bool × List Char) := do
  let (statement?, rest) ← readStatement s
  let rest ← readLineEnd rest
  some (statement?, !rest.isEmpty, rest)

def skipMark : List Char → List Char
  | '\ufeff' :: rest => rest
  | s => s

/-- The entries of a document; nothing if the text is not TOML. -/
def readDocument (s : List Char) : Option Entries := do
  let (statements, _) ← readMany readLine (skipMark s)
  assemble (statements.filterMap id)

end ArithTree.Toml
