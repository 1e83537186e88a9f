import ByteTape.Command

/-!
# The tape

A byte tape that grows in both directions. A tape shows its materialised cells only: the ones
between the leftmost and the rightmost position the head has visited since the last reset. They lie
inside a larger buffer with spare zeroed room on both sides, and a buffer that runs out at least
doubles, so a walk costs constant time per cell on average.
-/

namespace ByteTape

/-- A growing byte tape. `origin` and `head` are buffer positions: of the first materialised cell
and of the active cell. `length` counts the materialised cells. -/
structure Tape where
  buffer : Array UInt8
  origin : Nat
  length : Nat
  head : Nat
  deriving DecidableEq, Repr

namespace Tape

/-- The blank tape: one zero cell under the head. -/
def blank : Tape := ⟨#[0], 0, 1, 0⟩

/-- The index of the active cell among the materialised ones. -/
def pointer (t : Tape) : Nat := t.head - t.origin

/-- The materialised cells from left to right. -/
def cells (t : Tape) : Array UInt8 := t.buffer.extract t.origin (t.origin + t.length)

/-- The active cell. -/
def read (t : Tape) : UInt8 := t.buffer.getD t.head 0

/-- Replace the active cell. -/
def write (t : Tape) (value : UInt8) : Tape :=
  { t with buffer := t.buffer.setIfInBounds t.head value }

/-- Write the remainder of an integer modulo 256. -/
def writeInt (t : Tape) (value : Int) : Tape := t.write (UInt8.ofInt value)

/-- Add to the active cell, modulo 256. -/
def add (t : Tape) (amount : Int) : Tape := t.write (t.read + UInt8.ofInt amount)

/-- Subtract from the active cell, modulo 256. -/
def subtract (t : Tape) (amount : Int) : Tape := t.write (t.read - UInt8.ofInt amount)

/-- Move the head to the right. A buffer that is too short at least doubles at its right end, and
the cells passed over become materialised. -/
def moveRight (t : Tape) (distance : Nat) : Tape :=
  let head := t.head + distance
  let size := t.buffer.size
  { t with
    buffer :=
      if head < size then t.buffer
      else t.buffer ++ Array.replicate (max (head + 1 - size) size) 0
    length := max t.length (head + 1 - t.origin)
    head := head }

/-- Spare cells to add on the left before the head can move by `distance`. -/
def leftMargin (t : Tape) (distance : Nat) : Nat :=
  if distance ≤ t.head then 0 else max (distance - t.head) t.buffer.size

/-- Move the head to the left. A buffer that is too short at least doubles at its left end, which
shifts all positions, and the cells passed over become materialised. -/
def moveLeft (t : Tape) (distance : Nat) : Tape :=
  let margin := t.leftMargin distance
  let head := t.head + margin - distance
  let origin := t.origin + margin
  { buffer := if margin = 0 then t.buffer else Array.replicate margin 0 ++ t.buffer
    origin := min origin head
    length := t.length + (origin - head)
    head := head }

/-- Repeat a motion. -/
def move (t : Tape) (count : Nat) : Motion → Tape
  | .right => t.moveRight count
  | .left => t.moveLeft count
  | .increment => t.add count
  | .decrement => t.subtract count

/-- Consecutive cells and the index of the first one. -/
structure Window where
  start : Nat
  cells : Array UInt8
  deriving DecidableEq, Repr

/-- The position a slice bound stands for in a buffer of the given size: a negative bound counts
from the end, and what still falls outside is clamped. -/
def sliceBound (size : Nat) (bound : Int) : Nat :=
  if bound < 0 then (bound + size).toNat else min bound.toNat size

/-- The cells at most `radius` away from the head. The two ends are cut to the materialised range;
under a negative radius the upper end may lie below zero, and then it counts from the end of the
buffer as slice bounds do. -/
def window (t : Tape) (radius : Int) : Window :=
  let start : Int := max 0 (t.pointer - radius)
  let stop : Int := min t.length (t.pointer + radius + 1)
  { start := start.toNat
    cells := t.buffer.extract (sliceBound t.buffer.size (t.origin + start))
      (sliceBound t.buffer.size (t.origin + stop)) }

end Tape

end ByteTape
