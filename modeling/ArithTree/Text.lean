import ArithTree.Number.Shortest
import ArithTree.Text.Hidden

/-!
# Texts

White space, places in a text, quoted texts, and the words for what a text holds.

A place is named by what remains of the text from there on. From the whole text and the remainder
follow the line, counted from one, and the column, counted in bytes from the last line feed on.

Between quotation marks every character can be told apart: the marks, the backslash, four control
characters and all characters that a given set calls hidden are written as escapes. Which
characters are hidden is a parameter, because reading a text back does not depend on it.

The readers of trees and of settings describe a value of the wrong type in the same words.
-/

set_option autoImplicit false

namespace ArithTree.Text

/-- The codes of the characters with the Unicode property White_Space. -/
def blankCodes : List Nat :=
  [0x09, 0x0a, 0x0b, 0x0c, 0x0d, 0x20, 0x85, 0xa0, 0x1680, 0x2000, 0x2001, 0x2002, 0x2003, 0x2004,
    0x2005, 0x2006, 0x2007, 0x2008, 0x2009, 0x200a, 0x2028, 0x2029, 0x202f, 0x205f, 0x3000]

def isBlank (c : Char) : Bool :=
  blankCodes.contains c.toNat

def trim (cs : List Char) : List Char :=
  ((cs.dropWhile isBlank).reverse.dropWhile isBlank).reverse

structure Position where
  line : Nat
  column : Nat
  deriving DecidableEq

namespace Position

def start : Position := ⟨1, 0⟩

def step (p : Position) (c : Char) : Position :=
  if c = '\n' then ⟨p.line + 1, 0⟩ else ⟨p.line, p.column + c.utf8Size⟩

/-- Moves on by a number of bytes, which may end inside a character but not beyond the text. -/
def advance : Nat → List Char → Position → Position
  | _, [], p => p
  | bytes, c :: rest, p =>
      if c.utf8Size ≤ bytes then advance (bytes - c.utf8Size) rest (p.step c)
      else ⟨p.line, p.column + bytes⟩

def consumed (whole rest : List Char) : List Char :=
  whole.take (whole.length - rest.length)

def locate (whole rest : List Char) (ahead : Nat) : Position :=
  advance ahead rest ((consumed whole rest).foldl step start)

end Position

/-- A stretch of a text: what remains from its first character on, and what follows it. -/
structure Span where
  first : List Char
  after : List Char
  deriving DecidableEq

def byteLength (cs : List Char) : Nat :=
  cs.foldr (fun c n => c.utf8Size + n) 0

def Span.text (s : Span) : List Char :=
  Position.consumed s.first s.after

def lineOf (cs : List Char) : List Char :=
  cs.takeWhile (· ≠ '\n')

def lastLine (cs : List Char) : List Char :=
  (lineOf cs.reverse).reverse

def escape (hidden : Char → Bool) (c : Char) : List Char :=
  if c = '\x00' then ['\\', '0']
  else if c = '\t' then ['\\', 't']
  else if c = '\r' then ['\\', 'r']
  else if c = '\n' then ['\\', 'n']
  else if c = '\\' then ['\\', '\\']
  else if c = '"' then ['\\', '"']
  else if hidden c then '\\' :: 'u' :: '\x7b' :: Number.hexDigits c.toNat ++ ['\x7d']
  else [c]

def quoteChars (hidden : Char → Bool) (cs : List Char) : List Char :=
  '"' :: cs.flatMap (escape hidden) ++ ['"']

def quoteWith (hidden : Char → Bool) (s : String) : String :=
  String.ofList (quoteChars hidden s.toList)

def quote (s : String) : String :=
  quoteWith isHidden s

inductive Found
  | null
  | boolean (value : Bool)
  | integer (value : Int)
  | float (value : Number.Binary64)
  | string (value : String)
  | sequence
  | map
  deriving DecidableEq

def Found.describe (layout : Number.Layout) : Found → String
  | .null => "null"
  | .boolean value => "boolean `" ++ (if value then "true" else "false") ++ "`"
  | .integer value => "integer `" ++ String.ofList (Number.writeInt value) ++ "`"
  | .float value => "floating point `" ++ layout.write value ++ "`"
  | .string value => "string " ++ quote value
  | .sequence => "sequence"
  | .map => "map"

end ArithTree.Text
