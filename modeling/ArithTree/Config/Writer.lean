import ArithTree.Config
import ArithTree.Toml.Lexeme

/-!
# Configurations as TOML

Writes the passes, one block for each, and then the environment, one line for each binding in
the order in which the environment holds them. A name is written without quotation marks where
that is possible, else between marks that need no escapes, else with escapes.
-/

set_option autoImplicit false

namespace ArithTree.Toml

def isControl (c : Char) : Bool :=
  c < ' ' || c = '\x7f'

def codeDigits (c : Char) : List Char :=
  ['0', '0', (Nat.digitChar (c.toNat / 16)).toUpper, (Nat.digitChar (c.toNat % 16)).toUpper]

def escapeChar (c : Char) : List Char :=
  if c = '\x08' then ['\\', 'b']
  else if c = '\t' then ['\\', 't']
  else if c = '\n' then ['\\', 'n']
  else if c = '\x0c' then ['\\', 'f']
  else if c = '\r' then ['\\', 'r']
  else if c = '"' then ['\\', '"']
  else if c = '\\' then ['\\', '\\']
  else if isControl c then '\\' :: 'u' :: codeDigits c
  else [c]

/-- What no string without escapes can hold. -/
def needsEscape (c : Char) : Bool :=
  isControl c && c ≠ '\t'

def writeKey (name : String) : List Char :=
  let cs := name.toList
  if cs ≠ [] ∧ cs.all isBare then cs
  else if (cs.all fun c => !needsEscape c && c ≠ '\'') && cs.any fun c => c = '"' || c = '\\' then
    '\'' :: cs ++ ['\'']
  else '"' :: cs.flatMap escapeChar ++ ['"']

end ArithTree.Toml

namespace ArithTree.Config

def writePass : PassSetting → String
  | .fold => "[[passes]]\nkind = \"constant_folding\"\n"
  | .replace value =>
      "[[passes]]\nkind = \"constant_rewriting\"\nvalue = " ++ Number.writeWord value ++ "\n"

def writePasses (passes : List PassSetting) : String :=
  if passes.isEmpty then "passes = []\n" else "\n".intercalate (passes.map writePass)

def writeBinding (b : String × Int64) : String :=
  String.ofList (Toml.writeKey b.1) ++ " = " ++ Number.writeWord b.2 ++ "\n"

def toToml (c : Config) : String :=
  writePasses c.passes ++ "\n[environment]\n"
    ++ String.join (c.environment.bindings.map writeBinding)

end ArithTree.Config
