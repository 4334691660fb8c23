/-!
# Whole numbers in decimal

Writing a number with the fewest decimal digits, reading a run of digits, and reading a number
with an optional sign. A number is a word when it fits into 64 bits with a sign.
-/

set_option autoImplicit false

namespace ArithTree.Number

def digitChar (digit : Nat) : Char :=
  Char.ofNat (48 + digit)

def digits (n : Nat) : List Char :=
  if n < 10 then [digitChar n] else digits (n / 10) ++ [digitChar (n % 10)]

def isDigit (c : Char) : Bool :=
  '0' ≤ c && c ≤ '9'

def digitValue (c : Char) : Nat :=
  c.toNat - 48

def valueOf (cs : List Char) : Nat :=
  cs.foldl (fun n c => 10 * n + digitValue c) 0

def readNat? (cs : List Char) : Option Nat :=
  if cs ≠ [] ∧ cs.all isDigit then some (valueOf cs) else none

/-- At most one sign, then digits and nothing else. -/
def readInt? : List Char → Option Int
  | '+' :: cs => (readNat? cs).map fun n => (n : Int)
  | '-' :: cs => (readNat? cs).map fun n => -(n : Int)
  | cs => (readNat? cs).map fun n => (n : Int)

def writeInt : Int → List Char
  | .ofNat n => digits n
  | .negSucc n => '-' :: digits (n + 1)

def least : Int := -9223372036854775808

def greatest : Int := 9223372036854775807

def greatestUnsigned : Int := 18446744073709551615

/-- Whether a number fits into 64 bits, with or without a sign. -/
def fits (n : Int) : Bool :=
  least ≤ n && n ≤ greatestUnsigned

def word? (n : Int) : Option Int64 :=
  if least ≤ n ∧ n ≤ greatest then some (Int64.ofInt n) else none

def writeWord (value : Int64) : String :=
  String.ofList (writeInt value.toInt)

def hexValue? (c : Char) : Option Nat :=
  if isDigit c then some (digitValue c)
  else if 'a' ≤ c ∧ c ≤ 'f' then some (c.toNat - 87)
  else if 'A' ≤ c ∧ c ≤ 'F' then some (c.toNat - 55)
  else none

def hexDigits (n : Nat) : List Char :=
  if n < 16 then [Nat.digitChar n] else hexDigits (n / 16) ++ [Nat.digitChar (n % 16)]

end ArithTree.Number
