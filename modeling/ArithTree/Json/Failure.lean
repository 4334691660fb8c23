import ArithTree.Expr

/-!
# Why a text is not a tree

The causes for which a reader of trees gives up, their wording, and the place each is reported
at. A cause is reported where reading stopped, or a byte further when the next byte is to blame.
A failure that has no place yet keeps the text that remains, so that the list around it can
place it.
-/

set_option autoImplicit false

namespace ArithTree.Json

inductive Tag
  | const | var | operation (op : Operator)
  deriving DecidableEq

namespace Tag

def name : Tag → String
  | .const => "Const"
  | .var => "Var"
  | .operation op => op.tag

def all : List Tag :=
  [.const, .var, .operation .add, .operation .subtract, .operation .multiply, .operation .divide]

def ofName? (name : String) : Option Tag :=
  all.find? fun tag => tag.name = name

/-- What a node with this tag is called when it has no content or content of the wrong type. -/
def variant : Tag → String
  | .const => "newtype variant"
  | .var => "newtype variant"
  | .operation _ => "tuple variant"

end Tag

inductive Cause
  | expectedValue
  | unfinishedValue
  | unfinishedObject
  | unfinishedList
  | unfinishedString
  | keyNotString
  | unknownTag (name : String)
  | expectedColon
  | expectedComma
  | trailingComma
  | trailingText
  | expectedWord
  | badNumber
  | numberRange
  | controlCharacter
  | badEscape
  | loneSurrogate
  | unpairedSurrogate
  | tooDeep
  | bareTag (tag : Tag)
  | wrongType (found : Text.Found) (expected : String)
  | wordRange (value : Int)
  | wrongLength (count : Nat) (op : Operator)
  deriving DecidableEq

def numberLayout : Number.Layout where
  tieUp := false
  positional first := -5 ≤ first && first < 16

def operandList (op : Operator) : String :=
  "tuple variant Expr::" ++ op.tag

namespace Cause

def text : Cause → String
  | .expectedValue => "expected value"
  | .unfinishedValue => "EOF while parsing a value"
  | .unfinishedObject => "EOF while parsing an object"
  | .unfinishedList => "EOF while parsing a list"
  | .unfinishedString => "EOF while parsing a string"
  | .keyNotString => "key must be a string"
  | .unknownTag name =>
      "unknown variant `" ++ name ++ "`, expected one of "
        ++ ", ".intercalate (Tag.all.map fun tag => "`" ++ tag.name ++ "`")
  | .expectedColon => "expected `:`"
  | .expectedComma => "expected `,` or `]`"
  | .trailingComma => "trailing comma"
  | .trailingText => "trailing characters"
  | .expectedWord => "expected ident"
  | .badNumber => "invalid number"
  | .numberRange => "number out of range"
  | .controlCharacter => "control character (\\u0000-\\u001F) found while parsing a string"
  | .badEscape => "invalid escape"
  | .loneSurrogate => "lone leading surrogate in hex escape"
  | .unpairedSurrogate => "unexpected end of hex escape"
  | .tooDeep => "recursion limit exceeded"
  | .bareTag tag => "invalid type: unit variant, expected " ++ tag.variant
  | .wrongType found expected =>
      "invalid type: " ++ found.describe numberLayout ++ ", expected " ++ expected
  | .wordRange value =>
      "invalid value: integer `" ++ String.ofList (Number.writeInt value) ++ "`, expected i64"
  | .wrongLength count op =>
      "invalid length " ++ String.ofList (Number.digits count) ++ ", expected " ++ operandList op
        ++ " with 2 elements"

end Cause

inductive Place
  /-- Some bytes beyond the place where `rest` remains. -/
  | fixed (rest : List Char) (ahead : Nat)
  /-- Not settled yet; reading stopped where `rest` remains. -/
  | pending (rest : List Char)
  deriving DecidableEq

structure Failure where
  cause : Cause
  place : Place
  deriving DecidableEq

abbrev Reader (α : Type) := List Char → Except Failure (α × List Char)

def failHere {α : Type} (cause : Cause) (rest : List Char) : Except Failure α :=
  .error ⟨cause, .fixed rest 0⟩

/-- Fails on the next byte. At the end of the text this is the same as `failHere`. -/
def failNext {α : Type} (cause : Cause) (rest : List Char) : Except Failure α :=
  .error ⟨cause, .fixed rest 1⟩

def failPending {α : Type} (cause : Cause) (rest : List Char) : Except Failure α :=
  .error ⟨cause, .pending rest⟩

def Failure.describe (whole : List Char) (f : Failure) : String :=
  match f.place with
  | .pending _ => f.cause.text
  | .fixed rest ahead =>
      let p := Text.Position.locate whole rest ahead
      f.cause.text ++ " at line " ++ String.ofList (Number.digits p.line)
        ++ " column " ++ String.ofList (Number.digits p.column)

end ArithTree.Json
