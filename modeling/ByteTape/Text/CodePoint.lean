import ByteTape.Text.Ascii
import ByteTape.Text.Utf8

/-!
# Code points

Texts in which half of a surrogate pair may stand alone, as escapes and 16-bit units can leave it
there. Such a half is no character and has no bytes: a text that holds one cannot be encoded.
-/

namespace ByteTape.Text

/-- A character, or half of a surrogate pair that stands alone. -/
inductive CodePoint where
  | char (c : Char)
  | half (n : Nat)
  deriving DecidableEq, Repr

def isHighHalf (n : Nat) : Bool := 0xd800 ≤ n && n ≤ 0xdbff
def isLowHalf (n : Nat) : Bool := 0xdc00 ≤ n && n ≤ 0xdfff

/-- The character that two halves of a pair stand for. -/
def joinHalves (high low : Nat) : Char :=
  Char.ofNat (0x10000 + (high - 0xd800) * 0x400 + (low - 0xdc00))

namespace CodePoint

/-- The code point of a number. -/
def ofNat (n : Nat) : CodePoint :=
  if isHighHalf n || isLowHalf n then half n else char (Char.ofNat n)

def char? : CodePoint → Option Char
  | char c => some c
  | half _ => none

end CodePoint

/-- The code points of a text without lone halves. -/
def codePoints (text : String) : List CodePoint := text.toList.map .char

/-- Halves of pairs that stand alone in a text: the positions of the first and the last of a run of
them, and the number of the first. -/
structure LoneHalves where
  first : Nat
  last : Nat
  number : Nat
  deriving DecidableEq, Repr

/-- How the halves are reported when a text is to be encoded. -/
def LoneHalves.message (h : LoneHalves) : String :=
  let reason := ": surrogates not allowed"
  if h.first = h.last then
    let escape := String.ofList ('\x5c' :: 'u' :: hexDigits 4 h.number)
    s!"'utf-8' codec can't encode character '{escape}' in position {h.first}" ++ reason
  else s!"'utf-8' codec can't encode characters in position {h.first}-{h.last}" ++ reason

/-- The first run of lone halves in a text that starts at `position`. -/
def loneHalves? (position : Nat) : List CodePoint → Option LoneHalves
  | [] => none
  | .char _ :: rest => loneHalves? (position + 1) rest
  | .half n :: rest =>
    let more := (rest.takeWhile fun p => p.char?.isNone).length
    some ⟨position, position + more, n⟩

/-- The bytes of a text, unless lone halves stand in it. -/
def encodePoints (points : List CodePoint) : Except LoneHalves (List UInt8) :=
  match loneHalves? 0 points with
  | some halves => .error halves
  | none => .ok (encodeUtf8 (String.ofList (points.filterMap CodePoint.char?)))

/-- Read one code point from its first byte and the bytes after it. A half of a pair is read like
other numbers of its size. -/
def readPoint? (b : UInt8) (rest : List UInt8) : Option (CodePoint × List UInt8) :=
  if b.toNat < 0x80 then some (.char (Char.ofNat b.toNat), rest)
  else
    let lead := if b = 0xed then some ⟨0xd, 0x80, 0xbf, 2⟩ else lead? b.toNat
    lead.bind fun lead =>
      let read := follow lead.bits lead.low lead.high lead.more rest
      read.1.map fun n => (.ofNat n, read.2)

theorem length_readPoint?_le {b : UInt8} {rest after : List UInt8} {p : CodePoint}
    (h : readPoint? b rest = some (p, after)) : after.length ≤ rest.length := by
  unfold readPoint? at h
  split at h
  · cases h
    exact Nat.le_refl _
  · simp only [Option.bind_eq_some_iff, Option.map_eq_some_iff] at h
    obtain ⟨lead, _, n, _, hn⟩ := h
    cases hn
    exact length_follow_le ..

/-- Read code points from bytes in UTF-8; those read so far are given in reverse. -/
def readPoints? (read : List CodePoint) : List UInt8 → Option (List CodePoint)
  | [] => some read.reverse
  | b :: rest =>
    match h : readPoint? b rest with
    | none => none
    | some (p, after) =>
      have := length_readPoint?_le h
      readPoints? (p :: read) after
termination_by bytes => bytes.length

/-- The code points of bytes in UTF-8, unless some are ill-formed. -/
def decodePoints? (bytes : List UInt8) : Option (List CodePoint) := readPoints? [] bytes

end ByteTape.Text
