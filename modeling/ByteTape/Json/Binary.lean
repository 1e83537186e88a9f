import ByteTape.Json.Basic

/-!
# Decimals as binary numbers

A number with a fraction or an exponent stands for the binary floating-point number nearest to it,
with 53 significant bits, subnormal numbers, and ties to even.
-/

namespace ByteTape

/-- A binary floating-point number: `mantissa * 2 ^ exponent` with a sign, or one of the values
beyond all numbers. The mantissa has 53 bits, or fewer at the smallest exponent, -1074. -/
inductive Binary where
  | finite (negative : Bool) (mantissa : Nat) (exponent : Int)
  | infinite (negative : Bool)
  | nan
  deriving DecidableEq, Repr

/-- The integer that a binary number is, if it is one. -/
def Binary.integer? : Binary → Option Int
  | .finite negative mantissa exponent =>
    let scaled := mantissa * Nat.pow 2 exponent.toNat
    let unit := Nat.pow 2 (-exponent).toNat
    let n : Int := (scaled / unit : Nat)
    if scaled % unit = 0 then some (if negative then -n else n) else none
  | _ => none

namespace Decimal

/-- The natural number nearest to a quotient; a tie goes to the even one. -/
def divideToEven (num den : Nat) : Nat :=
  let q := num / den
  let twice := 2 * (num % den)
  if den < twice ∨ (den = twice ∧ q % 2 = 1) then q + 1 else q

/-- A quotient with numerator and denominator scaled so that it is divided by `2 ^ exponent`. -/
def scaled (num den : Nat) (exponent : Int) : Nat × Nat :=
  (num * Nat.pow 2 (-exponent).toNat, den * Nat.pow 2 exponent.toNat)

/-- The exponent at which a positive quotient has 53 bits before the point, but no smaller than that
of subnormal numbers. -/
def binaryExponent (num den : Nat) : Int :=
  let guess : Int := (num.log2 : Int) - (den.log2 : Int) - 52
  let (a, b) := scaled num den guess
  max (-1074) (if a < b * Nat.pow 2 52 then guess - 1 else guess)

/-- A binary number whose mantissa may have been rounded up to a 54th bit. Exponents end at 971. -/
def normalized (negative : Bool) (mantissa : Nat) (exponent : Int) : Binary :=
  let (m, e) : Nat × Int :=
    if mantissa = Nat.pow 2 53 then (Nat.pow 2 52, exponent + 1) else (mantissa, exponent)
  if 971 < e then .infinite negative else .finite negative m e

/-- The nearest binary number. Numbers far outside the range are settled by their size alone. -/
def nearest : Decimal → Binary
  | .nan => .nan
  | .infinite negative => .infinite negative
  | .finite negative digits exponent =>
    let size : Int := (toString digits).length + exponent
    if digits = 0 ∨ size < -400 then .finite negative 0 (-1074)
    else if 400 < size then .infinite negative
    else
      let num := digits * Nat.pow 10 exponent.toNat
      let den := Nat.pow 10 (-exponent).toNat
      let power := binaryExponent num den
      let (a, b) := scaled num den power
      normalized negative (divideToEven a b) power

end Decimal

end ByteTape
