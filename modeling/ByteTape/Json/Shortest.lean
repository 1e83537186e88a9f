import ByteTape.Json.Binary

/-!
# The shortest text of a binary number

A binary number is written with the fewest digits that read back as it, and with those nearest to it
where several do. The numbers that read back as `m * 2 ^ e` lie between the midpoints to its
neighbours, the midpoints included where `m` is even.
-/

namespace ByteTape.Binary

/-- Digits and the place of the point: the number is `0.digits * 10 ^ point`. -/
structure Digits where
  digits : String
  point : Int
  deriving DecidableEq, Repr

/-- The interval of what reads back as a number, and the number itself, in units of
`num / den`. -/
structure Interval where
  low : Nat
  value : Nat
  high : Nat
  closed : Bool
  num : Nat
  den : Nat
  deriving DecidableEq, Repr

/-- The interval around a positive number, in quarters of its unit. The gap below a power of two is
half as wide. -/
def interval (mantissa : Nat) (exponent : Int) : Interval :=
  let narrow := mantissa = Nat.pow 2 52 ∧ -1074 < exponent
  { low := if narrow then 4 * mantissa - 1 else 4 * mantissa - 2
    value := 4 * mantissa
    high := 4 * mantissa + 2
    closed := mantissa % 2 = 0
    num := Nat.pow 2 (exponent - 2).toNat
    den := Nat.pow 2 (2 - exponent).toNat }

namespace Interval

/-- Whether a number `n * 10 ^ power` lies in the interval. -/
def contains (i : Interval) (n : Nat) (power : Int) : Bool :=
  let middle := n * Nat.pow 10 power.toNat * i.den
  let scale := i.num * Nat.pow 10 (-power).toNat
  let low := i.low * scale
  let high := i.high * scale
  (low < middle && middle < high) || (i.closed && (low == middle || middle == high))

/-- The neighbours of the value among the multiples of `10 ^ power`, the nearer one first; of two
equally near ones the even one. -/
def candidates (i : Interval) (power : Int) : List Nat :=
  let num := i.value * i.num * Nat.pow 10 (-power).toNat
  let den := i.den * Nat.pow 10 power.toNat
  let below := num / den
  if Decimal.divideToEven num den = below then [below, below + 1] else [below + 1, below]

/-- The least exponent of a power of ten that is above the value: the place of the point. -/
def point (i : Interval) : Int :=
  let num := i.value * i.num
  if i.den ≤ num then (toString (num / i.den)).length
  else
    let inverse := i.den / num
    let zeros := (toString inverse).length - 1
    if inverse = Nat.pow 10 zeros ∧ i.den = inverse * num then 1 - (zeros : Int) else -(zeros : Int)

/-- Search the multiples of ever smaller powers of ten. -/
def search (i : Interval) (point : Int) : (fuel count : Nat) → Nat × Int
  | 0, count => ((i.candidates (point - count)).headD 0, point - count)
  | fuel + 1, count =>
    let power := point - count
    match (i.candidates power).find? (i.contains · power) with
    | some n => (n, power)
    | none => search i point fuel (count + 1)

end Interval

/-- The shortest digits of a positive number, without zeros at the end. Seventeen are always
enough. -/
def shortest (mantissa : Nat) (exponent : Int) : Digits :=
  let i := interval mantissa exponent
  let (n, power) := i.search i.point 16 1
  let written := toString n
  let kept := (written.toList.reverse.dropWhile (· == '0')).reverse
  { digits := String.ofList kept, point := written.length + power }

/-- Zeros to fill up a number. -/
def zeros (n : Nat) : String := String.ofList (List.replicate n '0')

/-- Digits with a point. It stands where it belongs if the first digit is at most sixteen places
before it or four behind it; otherwise an exponent of at least two digits follows. -/
def Digits.text (d : Digits) : String :=
  let length : Int := d.digits.length
  if -4 < d.point ∧ d.point ≤ 16 then
    if d.point ≤ 0 then "0." ++ zeros (-d.point).toNat ++ d.digits
    else if length ≤ d.point then d.digits ++ zeros (d.point - length).toNat ++ ".0"
    else String.ofList (d.digits.toList.take d.point.toNat) ++ "." ++
      String.ofList (d.digits.toList.drop d.point.toNat)
  else
    let exponent := d.point - 1
    let size := toString exponent.natAbs
    let fraction := String.ofList (d.digits.toList.drop 1)
    String.ofList (d.digits.toList.take 1) ++ (if fraction.isEmpty then "" else "." ++ fraction) ++
      "e" ++ (if exponent < 0 then "-" else "+") ++ (if size.length < 2 then "0" else "") ++ size

/-- The text of a number; infinities and what is not a number have words. -/
def text : Binary → String
  | .finite negative mantissa exponent =>
    (if negative then "-" else "") ++
      (if mantissa = 0 then "0.0" else (shortest mantissa exponent).text)
  | .infinite negative => if negative then "-Infinity" else "Infinity"
  | .nan => "NaN"

end ByteTape.Binary
