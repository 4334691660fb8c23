import ArithTree.Toml.Moment
import ArithTree.Toml.Value

/-!
# Unquoted values of TOML

Truth values, numbers, dates and times. The characters that can belong to such a value are taken
together first and must then be one as a whole.
-/

set_option autoImplicit false

namespace ArithTree.Toml

def readDigits (isDigit : Char → Bool) : List Char → Option (List Char)
  | [] => none
  | [c] => if isDigit c then some [c] else none
  | c :: '_' :: rest => if isDigit c then (readDigits isDigit rest).map (c :: ·) else none
  | c :: rest => if isDigit c then (readDigits isDigit rest).map (c :: ·) else none

def readUnpadded (cs : List Char) : Option (List Char) :=
  match readDigits Number.isDigit cs with
  | some ('0' :: _ :: _) => none
  | result => result

def readRadix (base : Nat) (cs : List Char) : Option Int := do
  let isDigit (c : Char) : Bool := (Number.hexValue? c).any (· < base)
  let ds ← readDigits isDigit cs
  some (ds.foldl (fun n c => base * n + (Number.hexValue? c).getD 0) 0 : Nat)

def splitSign : List Char → Bool × List Char
  | '-' :: cs => (true, cs)
  | '+' :: cs => (false, cs)
  | cs => (false, cs)

/-- A number in another base than ten has no sign. -/
def readInteger (cs : List Char) : Option Int :=
  match cs with
  | '0' :: 'x' :: cs => readRadix 16 cs
  | '0' :: 'o' :: cs => readRadix 8 cs
  | '0' :: 'b' :: cs => readRadix 2 cs
  | cs =>
    let (negative, cs) := splitSign cs
    (readUnpadded cs).map fun ds =>
      if negative then -(Number.valueOf ds : Int) else Number.valueOf ds

def readFraction (cs : List Char) : Option (List Char × List Char) :=
  let isExponent (c : Char) : Bool := c = 'e' || c = 'E'
  match cs with
  | '.' :: cs => do
    let ds ← readDigits Number.isDigit (cs.takeWhile fun c => !isExponent c)
    some (ds, cs.dropWhile fun c => !isExponent c)
  | cs => some ([], cs)

def readExponent (cs : List Char) : Option Int :=
  match cs with
  | [] => some 0
  | c :: cs =>
    if c = 'e' ∨ c = 'E' then
      let (negative, cs) := splitSign cs
      (readDigits Number.isDigit cs).map fun ds =>
        if negative then -(Number.valueOf ds : Int) else Number.valueOf ds
    else none

/-- A number with a point, an exponent, or both, or one that is no real number. One that is too
great for 64 bits is refused. -/
def readFloat (cs : List Char) : Option Number.Binary64 :=
  let (negative, cs) := splitSign cs
  if cs = ['i', 'n', 'f'] then some (.infinite negative)
  else if cs = ['n', 'a', 'n'] then some .notANumber
  else do
    let isWhole (c : Char) : Bool := Number.isDigit c || c = '_'
    let whole ← readUnpadded (cs.takeWhile isWhole)
    let rest := cs.dropWhile isWhole
    if rest = [] then none
    else
      let (fraction, rest) ← readFraction rest
      let exponent ← readExponent rest
      let m ← Number.ofDecimal? (Number.valueOf (whole ++ fraction)) (exponent - fraction.length)
      some (.finite negative m)

def Value.ofToken? (cs : List Char) : Option Value :=
  if cs = ['t', 'r', 'u', 'e'] then some (.boolean true)
  else if cs = ['f', 'a', 'l', 's', 'e'] then some (.boolean false)
  else
    match readInteger cs with
    | some n => if Number.fits n then some (.integer n) else none
    | none =>
      match readFloat cs with
      | some x => some (.float x)
      | none => (readMoment cs).map fun moment => .moment (String.ofList moment)

def isToken (c : Char) : Bool :=
  ('a' ≤ c && c ≤ 'z') || ('A' ≤ c && c ≤ 'Z') || Number.isDigit c
    || c = '+' || c = '-' || c = '_' || c = '.' || c = ':'

/-- After a date, a single space and a digit go on with the time of day. -/
def goesOn (token rest : List Char) : Bool :=
  match readDate token, rest with
  | some (_, []), ' ' :: c :: _ => Number.isDigit c
  | _, _ => false

def splitToken (s : List Char) : List Char × List Char :=
  let token := s.takeWhile isToken
  let rest := s.dropWhile isToken
  if goesOn token rest then
    (token ++ ' ' :: (rest.drop 1).takeWhile isToken, (rest.drop 1).dropWhile isToken)
  else (token, rest)

def readScalar (s : List Char) : Option (Value × List Char) := do
  let (token, rest) := splitToken s
  let value ← Value.ofToken? token
  some (value, rest)

end ArithTree.Toml
