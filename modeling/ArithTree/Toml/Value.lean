import ArithTree.Text

/-!
# TOML documents

The values of a TOML document, each with the stretch of text it was read from. A table keeps how
it came to be, because that decides what may still be added to it. Entries stand in the order in
which their keys were first met.
-/

set_option autoImplicit false

namespace ArithTree.Toml

/-- How a table came to be. -/
inductive Origin
  /-- By a header of its own; also the table of the whole document. -/
  | header
  /-- On the way to a header with a longer path. -/
  | implied
  /-- By a dotted key, or first on the way to a header and then used by a dotted key. -/
  | dottedKey
  /-- Written out between braces, and complete with them. -/
  | braces
  deriving DecidableEq

structure Key where
  name : String
  span : Text.Span
  deriving DecidableEq

structure Item (α : Type) where
  span : Text.Span
  value : α

structure Entry (α : Type) where
  key : Key
  item : Item α

inductive Value
  /-- A number that fits into 64 bits, with or without a sign. -/
  | integer (value : Int)
  | float (value : Number.Binary64)
  | boolean (value : Bool)
  | string (value : String)
  /-- A date, a time, or both, in their usual spelling. -/
  | moment (text : String)
  /-- An array grows when its tables are given by headers in double brackets. -/
  | array (grows : Bool) (items : List (Item Value))
  | table (origin : Origin) (entries : List (Entry Value))

abbrev Entries := List (Entry Value)

def Value.found : Value → Text.Found
  | .integer value => .integer value
  | .float value => .float value
  | .boolean value => .boolean value
  | .string value => .string value
  | .moment _ => .map
  | .array _ _ => .sequence
  | .table _ _ => .map

def Value.word? : Value → Option Int64
  | .integer value => Number.word? value
  | _ => none

def find? (name : String) (entries : Entries) : Option (Item Value) :=
  (entries.find? fun entry => entry.key.name = name).map Entry.item

end ArithTree.Toml
