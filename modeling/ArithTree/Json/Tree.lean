import ArithTree.Json.Token
import ArithTree.Report

/-!
# Trees in JSON

An expression is written as an object with one member. The key is the tag of the node; the
value is a number for a constant, a name for a variable, and a list of two expressions for an
operation, as in `{"Add":[{"Const":1},{"Var":"x"}]}`.

Objects and lists may be nested 127 deep, so the tallest expression that can be read has height
64. The reader goes down by recursion on the levels that are left; each operation takes two. A
tree that is written is as short as it can be.
-/

set_option autoImplicit false

namespace ArithTree.Json

def leaveList (s : List Char) : List Char :=
  match skipSpace s with
  | ']' :: rest => rest
  | ',' :: rest => skipSpace rest
  | rest => rest

/-- A failure without a place gets the place where its list could be left. -/
def placeInList {α : Type} : Except Failure α → Except Failure α
  | .error ⟨cause, .pending rest⟩ => failHere cause (leaveList rest)
  | result => result

def readListEnd (s : List Char) : Except Failure (List Char) :=
  match skipSpace s with
  | [] => failNext .unfinishedList []
  | ']' :: rest => .ok rest
  | ',' :: rest =>
    match skipSpace rest with
    | ']' :: rest => failNext .trailingComma (']' :: rest)
    | rest => failNext .trailingText rest
  | rest => failNext .trailingText rest

def readSecond (op : Operator) (operand : Reader Expr) (s : List Char) :
    Except Failure (Expr × List Char) :=
  match skipSpace s with
  | [] => failNext .unfinishedList []
  | ']' :: rest => failPending (.wrongLength 1 op) (']' :: rest)
  | ',' :: rest =>
    match skipSpace rest with
    | [] => failNext .unfinishedValue []
    | ']' :: rest => failNext .trailingComma (']' :: rest)
    | rest => operand rest
  | rest => failNext .expectedComma rest

def readOperands (op : Operator) (operand : Reader Expr) (s : List Char) :
    Except Failure (Expr × List Char) :=
  placeInList <|
    match skipSpace s with
    | [] => failNext .unfinishedList []
    | ']' :: rest => failPending (.wrongLength 0 op) (']' :: rest)
    | s => do
      let (left, s) ← operand s
      let (right, s) ← readSecond op operand s
      let s ← readListEnd s
      .ok (.binary op left right, s)

def refuse {α : Type} (expected : String) (s : List Char) : Except Failure α := do
  let (found, rest) ← readFound s
  failHere (.wrongType found expected) rest

def readConstant (s : List Char) : Except Failure (Expr × List Char) := do
  let (found, rest) ← readFound s
  match found with
  | .integer n =>
    match Number.word? n with
    | some value => .ok (.const value, rest)
    | none => failHere (.wordRange n) rest
  | found => failHere (.wrongType found "i64") rest

def readVariable (s : List Char) : Except Failure (Expr × List Char) := do
  let (found, rest) ← readFound s
  match found with
  | .string name => .ok (.var name, rest)
  | found => failHere (.wrongType found "a string") rest

def readContent (list : Operator → Reader Expr) (tag : Tag) (s : List Char) :
    Except Failure (Expr × List Char) :=
  match tag, skipSpace s with
  | .const, s => readConstant s
  | .var, s => readVariable s
  | .operation op, '[' :: rest => list op ('[' :: rest)
  | .operation op, s => refuse (operandList op) s

def readTag (s : List Char) : Except Failure (Tag × List Char) := do
  let (cs, rest) ← readString 0 s
  match Tag.ofName? (String.ofList cs) with
  | some tag => .ok (tag, rest)
  | none => failHere (.unknownTag (String.ofList cs)) rest

def readMember (list : Operator → Reader Expr) (s : List Char) :
    Except Failure (Expr × List Char) :=
  match skipSpace s with
  | [] => failNext .unfinishedObject []
  | '"' :: rest => do
    let (tag, s) ← readTag rest
    match skipSpace s with
    | [] => failNext .unfinishedObject []
    | ':' :: rest => do
      let (e, s) ← readContent list tag rest
      match skipSpace s with
      | [] => failHere .unfinishedObject []
      | '\x7d' :: rest => .ok (e, rest)
      | rest => failHere .expectedValue rest
    | rest => failNext .expectedColon rest
  | '\x7d' :: rest => failNext .expectedValue ('\x7d' :: rest)
  | rest => failNext .keyNotString rest

/-- A node, given a reader for an object from its opening brace on. A tag alone is no node. -/
def readNode (object : Reader Expr) (s : List Char) : Except Failure (Expr × List Char) :=
  match skipSpace s with
  | [] => failNext .unfinishedValue []
  | '\x7b' :: rest => object ('\x7b' :: rest)
  | '"' :: rest => do
    let (tag, rest) ← readTag rest
    failPending (.bareTag tag) rest
  | rest => failNext .expectedValue rest

def opened {α : Type} (inside : Reader α) (s : List Char) : Except Failure (α × List Char) :=
  inside (s.drop 1)

/-- A node, when brackets may still be nested as deep as the levels say. -/
def readLevels : (levels : Nat) → Reader Expr
  | 0 => readNode (failNext .tooDeep)
  | 1 => readNode (opened (readMember fun _ => failNext .tooDeep))
  | levels + 2 =>
      readNode (opened (readMember fun op => opened (readOperands op (readLevels levels))))

def maxNesting : Nat := 127

def maxHeight : Nat := 64

def readTree (s : List Char) : Except Failure Expr := do
  let (e, rest) ← readLevels maxNesting s
  match skipSpace rest with
  | [] => .ok e
  | rest => failNext .trailingText rest

def heightSuggestion : String :=
  "Trees can be at most " ++ String.ofList (Number.digits maxHeight) ++ " levels deep"

def formSuggestion : String :=
  "Trees are written as tagged JSON, e.g. "
    ++ "\x7b\"Add\":[\x7b\"Const\":1\x7d,\x7b\"Var\":\"x\"\x7d]\x7d"

def Failure.report (whole : List Char) (f : Failure) : Report :=
  ⟨.file, "Invalid expression tree: " ++ f.describe whole,
    [(.suggestion, if f.cause = .tooDeep then heightSuggestion else formSuggestion)]⟩

def escapeChar (c : Char) : List Char :=
  if c = '"' then ['\\', '"']
  else if c = '\\' then ['\\', '\\']
  else if c = '\x08' then ['\\', 'b']
  else if c = '\x0c' then ['\\', 'f']
  else if c = '\n' then ['\\', 'n']
  else if c = '\r' then ['\\', 'r']
  else if c = '\t' then ['\\', 't']
  else if c < ' ' then
    ['\\', 'u', '0', '0', Nat.digitChar (c.toNat / 16), Nat.digitChar (c.toNat % 16)]
  else [c]

def writeString (s : String) : String :=
  String.ofList ('"' :: s.toList.flatMap escapeChar ++ ['"'])

end ArithTree.Json

namespace ArithTree

/-- The expression that a text holds, or a report on the first place where it is none. -/
def Expr.ofJson (text : String) : Except Report Expr :=
  (Json.readTree text.toList).mapError (Json.Failure.report text.toList)

def Expr.toJson : Expr → String
  | .const value => "\x7b\"Const\":" ++ Number.writeWord value ++ "\x7d"
  | .var name => "\x7b\"Var\":" ++ Json.writeString name ++ "\x7d"
  | .binary op left right =>
      "\x7b\"" ++ op.tag ++ "\":[" ++ left.toJson ++ "," ++ right.toJson ++ "]\x7d"

end ArithTree
