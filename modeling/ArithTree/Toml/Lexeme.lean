import ArithTree.Number.Digits
import ArithTree.Toml.Value

/-!
# Line ends, strings and keys of TOML

Readers for the parts of a TOML text that hold no other values. A text that is not TOML is only
refused, without saying where, so the readers return nothing on failure.
-/

set_option autoImplicit false

namespace ArithTree.Toml

abbrev Reader (α : Type) := List Char → Option (α × List Char)

/-- Reads one thing after another for as long as each step announces one more. A step must take
some of the text, so the text bounds their number. -/
def readMany {α : Type} (step : List Char → Option (α × Bool × List Char)) (s : List Char) :
    Option (List α × List Char) :=
  match step s with
  | none => none
  | some (a, false, rest) => some ([a], rest)
  | some (a, true, rest) =>
      if rest.length < s.length then
        match readMany step rest with
        | some (as, rest) => some (a :: as, rest)
        | none => none
      else none
termination_by s.length

def isBlank (c : Char) : Bool :=
  c = ' ' || c = '\t'

def skipBlanks (s : List Char) : List Char :=
  s.dropWhile isBlank

def isPlain (c : Char) : Bool :=
  c = '\t' || (' ' ≤ c && c ≠ '\x7f')

def newline? : List Char → Option (List Char)
  | '\n' :: rest => some rest
  | '\r' :: '\n' :: rest => some rest
  | _ => none

def skipComment (s : List Char) : List Char :=
  match s with
  | '#' :: rest => rest.dropWhile isPlain
  | s => s

def readLineEnd (s : List Char) : Option (List Char) :=
  match skipComment (skipBlanks s) with
  | [] => some []
  | s => newline? s

def skipGaps : (inComment : Bool) → List Char → Option (List Char)
  | _, [] => some []
  | _, '\n' :: rest => skipGaps false rest
  | _, '\r' :: '\n' :: rest => skipGaps false rest
  | true, c :: rest => if isPlain c then skipGaps true rest else none
  | false, c :: rest =>
      if isBlank c then skipGaps false rest
      else if c = '#' then skipGaps true rest
      else some (c :: rest)

def readCode (count : Nat) (s : List Char) : Option (Char × Nat) := do
  let cs := s.take count
  if cs.length < count then none
  let ds ← cs.mapM Number.hexValue?
  let n := ds.foldl (fun n d => 16 * n + d) 0
  if n.isValidChar then some (Char.ofNat n, count + 1) else none

def readEscape : List Char → Option (Char × Nat)
  | 'b' :: _ => some ('\x08', 1)
  | 't' :: _ => some ('\t', 1)
  | 'n' :: _ => some ('\n', 1)
  | 'f' :: _ => some ('\x0c', 1)
  | 'r' :: _ => some ('\r', 1)
  | 'e' :: _ => some ('\x1b', 1)
  | '"' :: _ => some ('"', 1)
  | '\\' :: _ => some ('\\', 1)
  | 'x' :: rest => readCode 2 rest
  | 'u' :: rest => readCode 4 rest
  | 'U' :: rest => readCode 8 rest
  | _ => none

/-- The rest of a string on one line, after characters that an escape has taken. -/
def readBasic : (taken : Nat) → Reader (List Char)
  | _, [] => none
  | taken + 1, _ :: rest => readBasic taken rest
  | 0, c :: rest =>
      if c = '"' then some ([], rest)
      else if c = '\\' then do
        let (d, taken) ← readEscape rest
        let (cs, rest) ← readBasic taken rest
        some (d :: cs, rest)
      else if isPlain c then do
        let (cs, rest) ← readBasic 0 rest
        some (c :: cs, rest)
      else none

def readLiteral : Reader (List Char)
  | [] => none
  | c :: rest =>
      if c = '\'' then some ([], rest)
      else if isPlain c then do
        let (cs, rest) ← readLiteral rest
        some (c :: cs, rest)
      else none

/-- Up to two marks may stand before the three that close a string of several lines. -/
def closeMarks (mark : Char) (s : List Char) : List Char × List Char :=
  match s with
  | c :: d :: rest =>
      if c = mark ∧ d = mark then ([mark, mark], rest)
      else if c = mark then ([mark], d :: rest)
      else ([], s)
  | [c] => if c = mark then ([mark], []) else ([], [c])
  | [] => ([], [])

def skipLines : List Char → List Char
  | '\r' :: '\n' :: rest => skipLines rest
  | c :: rest => if isBlank c ∨ c = '\n' then skipLines rest else c :: rest
  | [] => []

/-- How much of the text after a backslash at the end of a line is left out of a string. -/
def continuation? (s : List Char) : Option Nat := do
  let rest ← newline? (skipBlanks s)
  some (s.length - (skipLines rest).length)

def readBasicLines : (taken : Nat) → Reader (List Char)
  | _, [] => none
  | taken + 1, _ :: rest => readBasicLines taken rest
  | 0, '"' :: '"' :: '"' :: rest => some (closeMarks '"' rest)
  | 0, '\r' :: '\n' :: rest => do
      let (cs, rest) ← readBasicLines 0 rest
      some ('\r' :: '\n' :: cs, rest)
  | 0, c :: rest =>
      if c = '\\' then
        match continuation? rest with
        | some taken => readBasicLines taken rest
        | none => do
          let (d, taken) ← readEscape rest
          let (cs, rest) ← readBasicLines taken rest
          some (d :: cs, rest)
      else if c = '\n' ∨ isPlain c then do
        let (cs, rest) ← readBasicLines 0 rest
        some (c :: cs, rest)
      else none

def readLiteralLines : Reader (List Char)
  | [] => none
  | '\'' :: '\'' :: '\'' :: rest => some (closeMarks '\'' rest)
  | '\r' :: '\n' :: rest => do
      let (cs, rest) ← readLiteralLines rest
      some ('\r' :: '\n' :: cs, rest)
  | c :: rest =>
      if c = '\n' ∨ isPlain c then do
        let (cs, rest) ← readLiteralLines rest
        some (c :: cs, rest)
      else none

def dropFirstNewline (s : List Char) : List Char :=
  (newline? s).getD s

def readString : Reader (List Char)
  | '"' :: '"' :: '"' :: rest => readBasicLines 0 (dropFirstNewline rest)
  | '\'' :: '\'' :: '\'' :: rest => readLiteralLines (dropFirstNewline rest)
  | '"' :: rest => readBasic 0 rest
  | '\'' :: rest => readLiteral rest
  | _ => none

def isBare (c : Char) : Bool :=
  ('a' ≤ c && c ≤ 'z') || ('A' ≤ c && c ≤ 'Z') || Number.isDigit c || c = '_' || c = '-'

def readBareKey (s : List Char) : Option (List Char × List Char) :=
  match s.takeWhile isBare with
  | [] => none
  | cs => some (cs, s.dropWhile isBare)

/-- One part of a key. Strings of several lines are no keys. -/
def readKey (s : List Char) : Option (Key × List Char) := do
  let (cs, rest) ←
    match s with
    | '"' :: rest => readBasic 0 rest
    | '\'' :: rest => readLiteral rest
    | s => readBareKey s
  some (⟨String.ofList cs, ⟨s, rest⟩⟩, rest)

def readKeyPart (s : List Char) : Option (Key × Bool × List Char) := do
  let (key, rest) ← readKey s
  match skipBlanks rest with
  | '.' :: rest => some (key, true, skipBlanks rest)
  | rest => some (key, false, rest)

def maxKeyParts : Nat := 80

def readPath (s : List Char) : Option ((List Key × Key) × List Char) := do
  let (keys, rest) ← readMany readKeyPart s
  match keys.getLast? with
  | some key => if keys.length ≤ maxKeyParts then some ((keys.dropLast, key), rest) else none
  | none => none

end ArithTree.Toml
