import ArithTree.Config
import ArithTree.Toml.Document

/-!
# Configurations from TOML

A configuration is a document with at most two entries: `passes`, an array of tables with a
`kind` and, where constants are to be replaced, a `value`; and `environment`, a table of whole
numbers. Other keys of a pass are ignored. A pass may also be written as an array of its kind
and its value.

The keys of a table are looked at in ascending order of their code points, and the first problem
is reported, under the line it stands in. How a reader words that a text is no TOML at all is a
parameter.
-/

set_option autoImplicit false

namespace ArithTree.Config

def numberLayout : Number.Layout where
  tieUp := true
  positional _ := true

inductive Cause
  | unknownField (name : String)
  | missingField (name : String)
  | unknownKind (name : String)
  | wrongType (found : Text.Found) (expected : String)
  | wrongValue (value : Int) (expected : String)
  | wrongLength (count : Nat) (expected : String)
  deriving DecidableEq

def Cause.text : Cause → String
  | .unknownField name => "unknown field `" ++ name ++ "`, expected `passes` or `environment`"
  | .missingField name => "missing field `" ++ name ++ "`"
  | .unknownKind name =>
      "unknown variant `" ++ name ++ "`, expected `constant_folding` or `constant_rewriting`"
  | .wrongType found expected =>
      "invalid type: " ++ found.describe numberLayout ++ ", expected " ++ expected
  | .wrongValue value expected =>
      "invalid value: integer `" ++ String.ofList (Number.writeInt value) ++ "`, expected "
        ++ expected
  | .wrongLength count expected =>
      "invalid length " ++ String.ofList (Number.digits count) ++ ", expected " ++ expected

structure Problem where
  cause : Cause
  span : Text.Span
  deriving DecidableEq

/-- The line with the problem, numbered and underlined. What is underlined is counted in bytes,
up to the end of the line; what stands before it, in characters. -/
def Problem.describe (whole : List Char) (p : Problem) : String :=
  let before := Text.Position.consumed whole p.span.first
  let margin := Text.lastLine before
  let line := margin ++ Text.lineOf p.span.first
  let number := Number.digits (before.count '\n' + 1)
  let gutter := List.replicate (number.length + 1) ' '
  let marked := max 1 (min (Text.byteLength p.span.text) (Text.byteLength line - margin.length))
  String.ofList <|
    "TOML parse error at line ".toList ++ number ++ ", column ".toList
      ++ Number.digits (margin.length + 1) ++ '\n' :: gutter ++ '|' :: '\n' :: number
      ++ ' ' :: '|' :: ' ' :: line ++ '\n' :: gutter
      ++ '|' :: List.replicate (margin.length + 1) ' ' ++ List.replicate marked '^'
      ++ '\n' :: p.cause.text.toList ++ ['\n']

def fail {α : Type} (cause : Cause) (span : Text.Span) : Except Problem α :=
  .error ⟨cause, span⟩

inductive PassKind
  | fold | replace
  deriving DecidableEq

def PassKind.ofName? (name : String) : Option PassKind :=
  if name = "constant_folding" then some .fold
  else if name = "constant_rewriting" then some .replace
  else none

open Toml (Item Value Entries Entry)

/-- Numbers beyond the signed words are refused for their size where such a number could stand. -/
def mismatch (x : Value) (expected inRange : String) : Cause :=
  match x with
  | .integer value =>
    match Number.word? value with
    | some _ => .wrongType (.integer value) expected
    | none => .wrongValue value inRange
  | other => .wrongType other.found expected

def decodeKind (x : Item Value) : Except Problem PassKind :=
  match x.value with
  | .string name =>
    match PassKind.ofName? name with
    | some kind => .ok kind
    | none => fail (.unknownKind name) x.span
  | other => fail (mismatch other "variant identifier" "variant index 0 <= i < 2") x.span

/-- Problems with the value of a pass are reported for the passes as a whole. -/
def decodeReplacement (whole : Text.Span) (x : Item Value) : Except Problem PassSetting :=
  match x.value.word? with
  | some value => .ok (.replace value)
  | none => fail (mismatch x.value "i64" "i64") whole

def decodeTable (whole span : Text.Span) (entries : Entries) : Except Problem PassSetting :=
  match Toml.find? "kind" entries with
  | none => fail (.missingField "kind") span
  | some x => do
    match ← decodeKind x with
    | .fold => .ok .fold
    | .replace =>
      match Toml.find? "value" entries with
      | none => fail (.missingField "value") whole
      | some x => decodeReplacement whole x

def decodeArray (whole span : Text.Span) (items : List (Item Value)) :
    Except Problem PassSetting :=
  match items with
  | [] => fail (.missingField "kind") span
  | x :: rest => do
    match ← decodeKind x, rest with
    | .fold, [] => .ok .fold
    | .fold, rest => fail (.wrongLength rest.length "0 elements in sequence") whole
    | .replace, [] =>
        fail (.wrongLength 0 "struct variant PassConfig::ConstantRewriting with 1 element") whole
    | .replace, [x] => decodeReplacement whole x
    | .replace, x :: rest => do
        let _ ← decodeReplacement whole x
        fail (.wrongLength (rest.length + 1) "1 element in sequence") whole

/-- A date counts as a table without a kind. -/
def decodePass (whole : Text.Span) (x : Item Value) : Except Problem PassSetting :=
  match x.value with
  | .table _ entries => decodeTable whole x.span entries
  | .array _ items => decodeArray whole x.span items
  | .moment _ => fail (.missingField "kind") x.span
  | other => fail (.wrongType other.found "internally tagged enum PassConfig") x.span

def decodePasses (x : Item Value) : Except Problem (List PassSetting) :=
  match x.value with
  | .array _ items => items.mapM (decodePass x.span)
  | other => fail (.wrongType other.found "a sequence") x.span

def decodeBinding (entry : Entry Value) : Except Problem (String × Int64) :=
  match entry.item.value.word? with
  | some value => .ok (entry.key.name, value)
  | none => fail (mismatch entry.item.value "i64" "i64") entry.item.span

def ascending (entries : Entries) : Entries :=
  entries.mergeSort fun a b => a.key.name ≤ b.key.name

/-- A date counts as a table with one value, its own text. -/
def decodeEnvironment (x : Item Value) : Except Problem Environment :=
  match x.value with
  | .table _ entries => do return .ofList (← (ascending entries).mapM decodeBinding)
  | .moment text => fail (.wrongType (.string text) "i64") x.span
  | other => fail (.wrongType other.found "a map") x.span

def decodeEntry (c : Config) (entry : Entry Value) : Except Problem Config :=
  if entry.key.name = "passes" then do
    return { c with passes := ← decodePasses entry.item }
  else if entry.key.name = "environment" then do
    return { c with environment := ← decodeEnvironment entry.item }
  else fail (.unknownField entry.key.name) entry.key.span

def decode (entries : Entries) : Except Problem Config :=
  (ascending entries).foldlM decodeEntry {}

def formSuggestion : String :=
  "Each [[passes]] entry needs kind = \"constant_folding\" or "
    ++ "kind = \"constant_rewriting\" with a value"

def malformed (problem : String) : Report :=
  ⟨.config, "Could not parse config: " ++ problem, [(.suggestion, formSuggestion)]⟩

/-- The configuration that a text holds, or a report on the first problem with it. A text that is
no TOML has the problem that `tomlError` words. -/
def ofToml (tomlError : String → String) (text : String) : Except Report Config :=
  match Toml.readDocument text.toList with
  | none => .error (malformed (tomlError text))
  | some entries => (decode entries).mapError fun p => malformed (p.describe text.toList)

end ArithTree.Config
