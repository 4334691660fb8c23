import ArithTree.Json.Token
import ArithTree.Proofs.Runs

/-!
# The grammar of tree files

What it is for a text to spell a tree, said without the reader. A relation takes first what is
spelled and then the spelling. White space may stand between any two tokens, and each character
of a name or a tag may be spelled in every way that JSON has for it.
-/

set_option autoImplicit false

namespace ArithTree.Json

def Blank (s : List Char) : Prop :=
  ∀ c ∈ s, c ∈ [' ', '\t', '\n', '\r']

instance (s : List Char) : Decidable (Blank s) :=
  List.decidableBAll (fun c => c ∈ [' ', '\t', '\n', '\r']) s

def lowerHex : List Char :=
  ['0', '1', '2', '3', '4', '5', '6', '7', '8', '9', 'a', 'b', 'c', 'd', 'e', 'f']

def upperHex : List Char :=
  ['0', '1', '2', '3', '4', '5', '6', '7', '8', '9', 'A', 'B', 'C', 'D', 'E', 'F']

def SpellsDigit (n : Nat) (c : Char) : Prop :=
  lowerHex[n]? = some c ∨ upperHex[n]? = some c

instance (n : Nat) (c : Char) : Decidable (SpellsDigit n c) :=
  inferInstanceAs (Decidable (lowerHex[n]? = some c ∨ upperHex[n]? = some c))

inductive SpellsCode : Nat → List Char → Prop
  | intro {i j k l : Nat} {a b c d : Char} :
      SpellsDigit i a → SpellsDigit j b → SpellsDigit k c → SpellsDigit l d →
      SpellsCode (((i * 16 + j) * 16 + k) * 16 + l) [a, b, c, d]

def escapes : List (Char × Char) :=
  [('"', '"'), ('\\', '\\'), ('/', '/'), ('b', '\x08'), ('f', '\x0c'), ('n', '\n'), ('r', '\r'),
    ('t', '\t')]

/-- A character beyond the first 65536 has the codes of two surrogates; neither of them is the
code of a character by itself. -/
inductive SpellsChar : Char → List Char → Prop
  | plain {c : Char} : c ≠ '"' → c ≠ '\\' → ¬c < ' ' → SpellsChar c [c]
  | letter {c letter : Char} : (letter, c) ∈ escapes → SpellsChar c ['\\', letter]
  | code {n : Nat} {s : List Char} :
      SpellsCode n s → ¬(0xd800 ≤ n ∧ n ≤ 0xdfff) → SpellsChar (Char.ofNat n) (['\\', 'u'] ++ s)
  | pair {m n : Nat} {s t : List Char} :
      SpellsCode m s → SpellsCode n t → 0xd800 ≤ m ∧ m ≤ 0xdbff → 0xdc00 ≤ n ∧ n ≤ 0xdfff →
      SpellsChar (Char.ofNat (0x10000 + (m - 0xd800) * 0x400 + (n - 0xdc00)))
        (['\\', 'u'] ++ s ++ ['\\', 'u'] ++ t)

inductive SpellsText : List Char → List Char → Prop
  | nil : SpellsText [] []
  | cons {c : Char} {cs s t : List Char} :
      SpellsChar c s → SpellsText cs t → SpellsText (c :: cs) (s ++ t)

/-- Decimal digits of which the first is a zero only when it is the only one. -/
structure IsNumeral (digits : List Char) : Prop where
  nonempty : digits ≠ []
  isDigit : ∀ c ∈ digits, Number.isDigit c = true
  leading : digits.head? = some '0' → digits = ['0']

/-- Without fraction and exponent, and with no minus sign before a zero. -/
inductive SpellsInteger : Int → List Char → Prop
  | unsigned {digits : List Char} :
      IsNumeral digits → SpellsInteger (Number.valueOf digits) digits
  | negative {digits : List Char} :
      IsNumeral digits → digits ≠ ['0'] →
      SpellsInteger (-(Number.valueOf digits : Int)) ('-' :: digits)

inductive SpellsObject : String → List Char → List Char → Prop
  | intro {tag : String} {content a key b c d : List Char} :
      Blank a → SpellsText tag.toList key → Blank b → Blank c → Blank d →
      SpellsObject tag content
        (['\x7b'] ++ a ++ ['"'] ++ key ++ ['"'] ++ b ++ [':'] ++ c ++ content ++ d ++ ['\x7d'])

inductive Spells : Expr → List Char → Prop
  | const {value : Int64} {digits s : List Char} :
      SpellsInteger value.toInt digits → SpellsObject "Const" digits s → Spells (.const value) s
  | var {name : String} {t s : List Char} :
      SpellsText name.toList t → SpellsObject "Var" (['"'] ++ t ++ ['"']) s →
      Spells (.var name) s
  | binary {op : Operator} {left right : Expr} {l r a b c d s : List Char} :
      Spells left l → Spells right r → Blank a → Blank b → Blank c → Blank d →
      SpellsObject op.tag (['['] ++ a ++ l ++ b ++ [','] ++ c ++ r ++ d ++ [']']) s →
      Spells (.binary op left right) s

/-- The whole text of a tree file, with white space at either end. -/
def IsTreeText (e : Expr) (text : String) : Prop :=
  ∃ a s b, Blank a ∧ Spells e s ∧ Blank b ∧ text.toList = a ++ s ++ b

end ArithTree.Json
