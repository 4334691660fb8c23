import ArithTree.Json.Failure

/-!
# Strings, numbers and words of JSON

Readers for what can stand in a tree file besides nodes. `readFound` reads whatever stands at a
place, for a message when something else was wanted; of a list or an object it reads nothing.
-/

set_option autoImplicit false

namespace ArithTree.Json

def isSpace (c : Char) : Bool :=
  c = ' ' || c = '\n' || c = '\t' || c = '\r'

def skipSpace (s : List Char) : List Char :=
  s.dropWhile isSpace

/-- Four hexadecimal digits. The four bytes are taken before they are looked at. -/
def readHex (s : List Char) : Except Failure (Nat × List Char) :=
  let refused : Except Failure (Nat × List Char) :=
    if Text.byteLength (s.take 4) < 4 then failHere .unfinishedString []
    else .error ⟨.badEscape, .fixed s 4⟩
  match s with
  | a :: b :: c :: d :: rest =>
    match Number.hexValue? a, Number.hexValue? b, Number.hexValue? c, Number.hexValue? d with
    | some a, some b, some c, some d => .ok (((a * 16 + b) * 16 + c) * 16 + d, rest)
    | _, _, _, _ => refused
  | _ => refused

def isLeading (n : Nat) : Bool := 0xd800 ≤ n && n ≤ 0xdbff

def isTrailing (n : Nat) : Bool := 0xdc00 ≤ n && n ≤ 0xdfff

def pairValue (leading trailing : Nat) : Nat :=
  0x10000 + (leading - 0xd800) * 0x400 + (trailing - 0xdc00)

def readUnicode (s : List Char) : Except Failure (Char × Nat) := do
  let (n, rest) ← readHex s
  if isTrailing n then failHere .loneSurrogate rest
  else if isLeading n then
    match rest with
    | [] => failHere .unfinishedString []
    | ['\\'] => failHere .unfinishedString []
    | '\\' :: 'u' :: again => do
      let (m, rest) ← readHex again
      if isTrailing m then .ok (Char.ofNat (pairValue n m), 10)
      else failHere .loneSurrogate rest
    | '\\' :: other => failNext .unpairedSurrogate other
    | other => failNext .unpairedSurrogate other
  else .ok (Char.ofNat n, 4)

def readEscape : List Char → Except Failure (Char × Nat)
  | [] => failHere .unfinishedString []
  | '"' :: _ => .ok ('"', 1)
  | '\\' :: _ => .ok ('\\', 1)
  | '/' :: _ => .ok ('/', 1)
  | 'b' :: _ => .ok ('\x08', 1)
  | 'f' :: _ => .ok ('\x0c', 1)
  | 'n' :: _ => .ok ('\n', 1)
  | 'r' :: _ => .ok ('\r', 1)
  | 't' :: _ => .ok ('\t', 1)
  | 'u' :: rest => do
    let (c, taken) ← readUnicode rest
    .ok (c, taken + 1)
  | c :: rest => failNext .badEscape (c :: rest)

/-- The rest of a string up to its closing mark, after characters that an escape has taken. -/
def readString : (taken : Nat) → Reader (List Char)
  | _, [] => failHere .unfinishedString []
  | taken + 1, _ :: rest => readString taken rest
  | 0, c :: rest =>
      if c = '"' then .ok ([], rest)
      else if c = '\\' then do
        let (d, taken) ← readEscape rest
        let (cs, rest) ← readString taken rest
        .ok (d :: cs, rest)
      else if c < ' ' then failNext .controlCharacter (c :: rest)
      else do
        let (cs, rest) ← readString 0 rest
        .ok (c :: cs, rest)

def readWord : (word : List Char) → List Char → Except Failure (List Char)
  | [], s => .ok s
  | _ :: _, [] => failHere .unfinishedValue []
  | w :: word, c :: s => if c = w then readWord word s else failNext .expectedWord (c :: s)

structure Numeral where
  negative : Bool
  whole : List Char
  fraction? : Option (List Char)
  exponent? : Option Int

namespace Numeral

def isWhole (n : Numeral) : Bool :=
  n.fraction?.isNone && n.exponent?.isNone

def wholeValue (n : Numeral) : Int :=
  if n.negative then -(Number.valueOf n.whole : Int) else Number.valueOf n.whole

/-- A whole number that fits into 64 bits, with or without a sign, is an integer; any other number
is a floating-point number, and so is a zero with a minus sign. -/
def found? (n : Numeral) : Option Text.Found :=
  if n.isWhole ∧ Number.fits n.wholeValue ∧ ¬(n.negative ∧ n.wholeValue = 0) then
    some (.integer n.wholeValue)
  else
    let fraction := n.fraction?.getD []
    (Number.ofDecimal? (Number.valueOf (n.whole ++ fraction))
      (n.exponent?.getD 0 - fraction.length)).map fun m => .float (.finite n.negative m)

end Numeral

def splitDigits (s : List Char) : List Char × List Char :=
  (s.takeWhile Number.isDigit, s.dropWhile Number.isDigit)

def readWhole : Reader (List Char)
  | [] => failHere .unfinishedValue []
  | '0' :: c :: rest =>
      if Number.isDigit c then failNext .badNumber (c :: rest) else .ok (['0'], c :: rest)
  | c :: rest =>
      if Number.isDigit c then .ok (splitDigits (c :: rest)) else failNext .badNumber (c :: rest)

def readFraction? (s : List Char) : Except Failure (Option (List Char) × List Char) :=
  match s with
  | '.' :: rest =>
    match splitDigits rest with
    | ([], []) => failNext .unfinishedValue []
    | ([], rest) => failNext .badNumber rest
    | (cs, rest) => .ok (some cs, rest)
  | s => .ok (none, s)

def splitSign : List Char → Bool × List Char
  | '-' :: s => (true, s)
  | '+' :: s => (false, s)
  | s => (false, s)

def exponentLimit : Nat := 2147483647

/-- An optional sign and at least one digit. A positive exponent beyond the limit is refused at the
digit that takes it there, unless the digits before it are all zero. -/
def readExponent (isZero : Bool) (s : List Char) : Except Failure (Int × List Char) :=
  let (negative, s) := splitSign s
  match splitDigits s with
  | ([], []) => failHere .unfinishedValue []
  | ([], rest) => failNext .badNumber rest
  | (cs, rest) =>
      if negative then .ok (-(Number.valueOf cs : Int), rest)
      else if isZero ∨ Number.valueOf cs ≤ exponentLimit then .ok (Number.valueOf cs, rest)
      else
        let within (count : Nat) : Bool := Number.valueOf (cs.take count) ≤ exponentLimit
        failHere .numberRange (s.drop ((List.range cs.length).takeWhile within).length)

def readExponent? (isZero : Bool) (s : List Char) : Except Failure (Option Int × List Char) :=
  match s with
  | [] => .ok (none, [])
  | c :: rest =>
      if c = 'e' ∨ c = 'E' then do
        let (n, rest) ← readExponent isZero rest
        .ok (some n, rest)
      else .ok (none, c :: rest)

def readMagnitude (negative : Bool) (s : List Char) : Except Failure (Text.Found × List Char) := do
  let (whole, s) ← readWhole s
  let (fraction?, s) ← readFraction? s
  let (exponent?, s) ← readExponent? (Number.valueOf (whole ++ fraction?.getD []) = 0) s
  match Numeral.found? ⟨negative, whole, fraction?, exponent?⟩ with
  | some found => .ok (found, s)
  | none => failHere .numberRange s

def readNumber : Reader Text.Found
  | '-' :: s => readMagnitude true s
  | s => readMagnitude false s

def readFound : Reader Text.Found
  | [] => failNext .unfinishedValue []
  | 'n' :: rest => do let rest ← readWord ['u', 'l', 'l'] rest; .ok (.null, rest)
  | 't' :: rest => do let rest ← readWord ['r', 'u', 'e'] rest; .ok (.boolean true, rest)
  | 'f' :: rest => do let rest ← readWord ['a', 'l', 's', 'e'] rest; .ok (.boolean false, rest)
  | '"' :: rest => do
    let (cs, rest) ← readString 0 rest
    .ok (.string (String.ofList cs), rest)
  | '[' :: rest => .ok (.sequence, '[' :: rest)
  | '\x7b' :: rest => .ok (.map, '\x7b' :: rest)
  | c :: rest =>
      if c = '-' ∨ Number.isDigit c then readNumber (c :: rest)
      else failNext .expectedValue (c :: rest)

end ArithTree.Json
