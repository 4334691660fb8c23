import ArithTree.Number.Digits

/-!
# Binary floating-point numbers of 64 bits

A finite number is a sign and a magnitude m · 2 ^ e, with m below 2 ^ 53 and e from -1074 to 971.
A decimal number is read as the nearest such number, a tie going to the even m. All steps are
exact arithmetic on natural numbers.
-/

set_option autoImplicit false

namespace ArithTree.Number

def hiddenBit : Nat := 4503599627370496

structure Magnitude where
  significand : Nat
  exponent : Int
  deriving DecidableEq

inductive Binary64
  | finite (negative : Bool) (magnitude : Magnitude)
  | infinite (negative : Bool)
  | notANumber
  deriving DecidableEq

/-- The quotient nearest to n / d, a tie going to the even one. -/
def roundQuotient (n d : Nat) : Nat :=
  let quotient := n / d
  let twice := 2 * (n % d)
  if d < twice ∨ (twice = d ∧ quotient % 2 = 1) then quotient + 1 else quotient

def scaleDown (base n d : Nat) (power : Int) : Nat × Nat :=
  if 0 ≤ power then (n, d * Nat.pow base power.toNat)
  else (n * Nat.pow base (-power).toNat, d)

def floorLog2 (n d : Nat) : Int :=
  let guess : Int := (n.log2 : Int) - (d.log2 : Int)
  let (top, bottom) := scaleDown 2 n d guess
  if bottom ≤ top then guess else guess - 1

/-- The magnitude nearest to n / d; none from half a step below 2 ^ 1024 on. -/
def nearest? (n d : Nat) : Option Magnitude :=
  if n = 0 then some ⟨0, -1074⟩
  else
    let exponent := max (floorLog2 n d - 52) (-1074)
    let (top, bottom) := scaleDown 2 n d exponent
    let significand := roundQuotient top bottom
    let magnitude : Magnitude :=
      if significand = 2 * hiddenBit then ⟨hiddenBit, exponent + 1⟩ else ⟨significand, exponent⟩
    if 971 < magnitude.exponent then none else some magnitude

/-- The magnitude nearest to mantissa · 10 ^ power. Powers so far from zero that the answer
does not depend on them are settled by the number of digits alone. -/
def ofDecimal? (mantissa : Nat) (power : Int) : Option Magnitude :=
  if mantissa = 0 then some ⟨0, -1074⟩
  else
    let leading : Int := power + (digits mantissa).length
    if 310 < leading then none
    else if leading < -330 then some ⟨0, -1074⟩
    else
      let (top, bottom) := scaleDown 10 mantissa 1 (-power)
      nearest? top bottom

end ArithTree.Number
