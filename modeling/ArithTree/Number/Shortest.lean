import ArithTree.Number.Binary64

/-!
# The shortest decimal text of a floating-point number

Among the decimal numbers that round to a given magnitude, the shortest have the fewest digits,
and the one written is the nearest of these. A `Layout` says what to do with a tie and which
decimal exponents are written with all their zeros.
-/

set_option autoImplicit false

namespace ArithTree.Number

structure Layout where
  /-- Of two shortest decimals at the same distance, take the greater; else the even one. -/
  tieUp : Bool
  /-- Whether a leading digit that stands for 10 ^ k is written without an exponent. -/
  positional : Int → Bool

structure Decimal where
  coefficient : Nat
  power : Int
  deriving DecidableEq

/-- The reals that round to a magnitude, as three numerators over one denominator: the least, the
magnitude itself, and the greatest. The ends belong to it when the significand is even. -/
structure Interval where
  low : Nat
  middle : Nat
  high : Nat
  denominator : Nat
  closed : Bool

/-- Below a power of two the next smaller magnitude is only half as far away. -/
def Magnitude.interval (m : Magnitude) : Interval :=
  let quarter := m.exponent - 2
  let unit := Nat.pow 2 quarter.toNat
  let below := if m.significand = hiddenBit ∧ -1074 < m.exponent then 1 else 2
  ⟨(4 * m.significand - below) * unit, 4 * m.significand * unit, (4 * m.significand + 2) * unit,
    Nat.pow 2 (-quarter).toNat, m.significand % 2 = 0⟩

def Interval.holds (i : Interval) (x : Decimal) : Bool :=
  let factor := Nat.pow 10 x.power.toNat
  let divisor := Nat.pow 10 (-x.power).toNat
  let point := x.coefficient * factor * i.denominator
  if i.closed then i.low * divisor ≤ point && point ≤ i.high * divisor
  else i.low * divisor < point && point < i.high * divisor

def floorLog10 (n d : Nat) : Int :=
  let reaches (k : Int) : Bool := let (top, bottom) := scaleDown 10 n d k; bottom ≤ top
  let guess := floorLog2 n d * 30103 / 100000
  if reaches (guess + 1) then guess + 1 else if reaches guess then guess else guess - 1

/-- The decimal number with steps of 10 ^ power that is nearest to the middle of an interval and
lies in it. It is one of the two neighbours of the middle, if there is any. -/
def Interval.onGrid? (i : Interval) (tieUp : Bool) (power : Int) : Option Decimal :=
  let (top, bottom) := scaleDown 10 i.middle i.denominator power
  let below : Decimal := ⟨top / bottom, power⟩
  let above : Decimal := ⟨top / bottom + 1, power⟩
  let twice := 2 * (top % bottom)
  let upwards := bottom < twice || (twice == bottom && (tieUp || below.coefficient % 2 == 1))
  match i.holds below, i.holds above with
  | true, true => some (if upwards then above else below)
  | true, false => some below
  | false, true => some above
  | false, false => none

def Magnitude.shortest (m : Magnitude) (tieUp : Bool) : Decimal :=
  if m.significand = 0 then ⟨0, 0⟩
  else
    let i := m.interval
    let top := floorLog10 i.middle i.denominator
    ((List.range 17).findSome? fun (count : Nat) => i.onGrid? tieUp (top - count)).getD ⟨0, 0⟩

def dropTrailingZeros (cs : List Char) : List Char :=
  (cs.reverse.dropWhile (· == '0')).reverse

def Decimal.leading (x : Decimal) : List Char × Int :=
  let written := digits x.coefficient
  match dropTrailingZeros written with
  | [] => (['0'], 0)
  | cs => (cs, x.power + written.length - 1)

def writePositional (cs : List Char) (first : Int) : List Char :=
  if first < 0 then '0' :: '.' :: List.replicate (-first - 1).toNat '0' ++ cs
  else
    let whole := first.toNat + 1
    let front := cs.take whole ++ List.replicate (whole - cs.length) '0'
    match cs.drop whole with
    | [] => front ++ ['.', '0']
    | back => front ++ '.' :: back

def writeScientific (cs : List Char) (first : Int) : List Char :=
  let mantissa :=
    match cs with
    | c :: d :: rest => c :: '.' :: d :: rest
    | cs => cs
  mantissa ++ 'e' :: (if first < 0 then '-' else '+') :: digits first.natAbs

def Layout.write (layout : Layout) : Binary64 → String
  | .notANumber => "NaN"
  | .infinite negative => if negative then "-inf" else "inf"
  | .finite negative m =>
      let (cs, first) := (m.shortest layout.tieUp).leading
      let body := if layout.positional first then writePositional cs first
        else writeScientific cs first
      String.ofList (if negative then '-' :: body else body)

end ArithTree.Number
