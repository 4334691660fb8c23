import ArithTree.Number.Digits

/-!
# Dates and times

The spellings of a date, a time of day, or both with an optional distance from universal time.
The seconds may be left out. Reading gives the usual spelling back: a capital T between date and
time, fractions of a second without zeros at their end and to nine places.
-/

set_option autoImplicit false

namespace ArithTree.Toml

def daysIn (year month : Nat) : Nat :=
  if month = 2 then
    if year % 4 = 0 ∧ (year % 100 ≠ 0 ∨ year % 400 = 0) then 29 else 28
  else if month = 4 ∨ month = 6 ∨ month = 9 ∨ month = 11 then 30
  else 31

def inRange (cs : List Char) (least greatest : Nat) : Bool :=
  cs.all Number.isDigit && least ≤ Number.valueOf cs && Number.valueOf cs ≤ greatest

def readDate (s : List Char) : Option (List Char × List Char) :=
  match s with
  | y₁ :: y₂ :: y₃ :: y₄ :: '-' :: m₁ :: m₂ :: '-' :: d₁ :: d₂ :: rest =>
      let year := [y₁, y₂, y₃, y₄]
      let month := [m₁, m₂]
      let days := daysIn (Number.valueOf year) (Number.valueOf month)
      if inRange year 0 9999 ∧ inRange month 1 12 ∧ inRange [d₁, d₂] 1 days then
        some (year ++ '-' :: month ++ ['-', d₁, d₂], rest)
      else none
  | _ => none

/-- The fraction of a second in its usual spelling. -/
def usualFraction (cs : List Char) : List Char :=
  match ((cs.take 9).reverse.dropWhile (· = '0')).reverse with
  | [] => ['0']
  | cs => cs

def readFractionOfSecond (s : List Char) : Option (List Char × List Char) :=
  match s with
  | '.' :: rest =>
    match rest.takeWhile Number.isDigit with
    | [] => none
    | cs => some ('.' :: usualFraction cs, rest.dropWhile Number.isDigit)
  | s => some ([], s)

def readSeconds (s : List Char) : Option (List Char × List Char) :=
  match s with
  | ':' :: c :: d :: rest =>
      if inRange [c, d] 0 60 then
        (readFractionOfSecond rest).map fun (cs, rest) => (':' :: c :: d :: cs, rest)
      else none
  | ':' :: _ => none
  | s => some ([], s)

def readHoursMinutes (s : List Char) : Option (List Char × List Char) :=
  match s with
  | h₁ :: h₂ :: ':' :: m₁ :: m₂ :: rest =>
      if inRange [h₁, h₂] 0 23 ∧ inRange [m₁, m₂] 0 59 then some ([h₁, h₂, ':', m₁, m₂], rest)
      else none
  | _ => none

def readTime (s : List Char) : Option (List Char × List Char) := do
  let (front, rest) ← readHoursMinutes s
  let (back, rest) ← readSeconds rest
  some (front ++ back, rest)

/-- The distance from universal time; no distance is never negative. -/
def readOffset (s : List Char) : Option (List Char) :=
  match s with
  | [] => some []
  | ['Z'] => some ['Z']
  | ['z'] => some ['Z']
  | c :: rest =>
    match readHoursMinutes rest with
    | some (cs, []) =>
        if c = '+' then some ('+' :: cs)
        else if c = '-' then some ((if cs = ['0', '0', ':', '0', '0'] then '+' else '-') :: cs)
        else none
    | _ => none

def readMoment (s : List Char) : Option (List Char) :=
  match readDate s with
  | some (date, []) => some date
  | some (date, c :: rest) =>
      if c = 'T' ∨ c = 't' ∨ c = ' ' then do
        let (time, rest) ← readTime rest
        let offset ← readOffset rest
        some (date ++ 'T' :: time ++ offset)
      else none
  | none =>
    match readTime s with
    | some (time, []) => some time
    | _ => none

end ArithTree.Toml
