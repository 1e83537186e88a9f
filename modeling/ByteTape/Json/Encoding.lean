import ByteTape.Text.CodePoint

/-!
# The encoding of JSON documents

Documents come as bytes in UTF-8, UTF-16 or UTF-32, without a word on which. As every document
starts with an ASCII character, the zeros among the first bytes tell. Halves of surrogate pairs are
taken as they come; what is cut short or no code point at all cannot be read.
-/

namespace ByteTape.Json

open Text (CodePoint)

/-- The bytes of a code unit, and which of them comes first. -/
inductive Encoding where
  | utf8
  | utf16 (highFirst : Bool)
  | utf32 (highFirst : Bool)
  deriving DecidableEq, Repr

/-- The encoding that the first bytes show. -/
def Encoding.detect : List UInt8 → Encoding
  | [a, b] => if a = 0 then .utf16 true else if b = 0 then .utf16 false else .utf8
  | a :: b :: c :: d :: _ =>
    if a = 0 then (if b = 0 then .utf32 true else .utf16 true)
    else if b = 0 then (if c = 0 ∧ d = 0 then .utf32 false else .utf16 false)
    else .utf8
  | _ => .utf8

/-- The number that two bytes stand for. -/
def word (highFirst : Bool) (a b : UInt8) : Nat :=
  if highFirst then a.toNat * 256 + b.toNat else b.toNat * 256 + a.toNat

/-- The 16-bit units of some bytes. -/
def units16? (highFirst : Bool) : List UInt8 → Option (List Nat)
  | [] => some []
  | [_] => none
  | a :: b :: rest => (units16? highFirst rest).map (word highFirst a b :: ·)

/-- The code points of 16-bit units, where a high and a low half make a pair. -/
def joinUnits : List Nat → List CodePoint
  | high :: low :: rest =>
    if Text.isHighHalf high && Text.isLowHalf low then
      .char (Text.joinHalves high low) :: joinUnits rest
    else .ofNat high :: joinUnits (low :: rest)
  | [unit] => [.ofNat unit]
  | [] => []

/-- The code points of 32-bit units. -/
def points32? (highFirst : Bool) : List UInt8 → Option (List CodePoint)
  | [] => some []
  | a :: b :: c :: d :: rest =>
    let first := word highFirst a b
    let second := word highFirst c d
    let n := if highFirst then first * 65536 + second else second * 65536 + first
    if n < 0x110000 then (points32? highFirst rest).map (.ofNat n :: ·) else none
  | _ => none

/-- The byte order mark of UTF-8. -/
def utf8Mark : List UInt8 := [0xef, 0xbb, 0xbf]

/-- The code points of a document. In UTF-8 a byte order mark before them is skipped. -/
def decode? (bytes : List UInt8) : Option (List CodePoint) :=
  if utf8Mark.isPrefixOf bytes then Text.decodePoints? (bytes.drop utf8Mark.length)
  else
    match Encoding.detect bytes with
    | .utf8 => Text.decodePoints? bytes
    | .utf16 highFirst => (units16? highFirst bytes).map joinUnits
    | .utf32 highFirst => points32? highFirst bytes

end ByteTape.Json
