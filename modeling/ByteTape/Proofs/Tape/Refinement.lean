import ByteTape.Proofs.Tape.Strip

/-!
# The tape refines a strip

A tape and a strip that go through the same operations stay together: what can be read off the tape
is what can be read off the strip, and the room that the tape keeps for later is blank. The strip
does its arithmetic on integers, of which a cell keeps the remainder modulo 256.
-/

namespace ByteTape

/-- One operation on a tape. -/
inductive Tape.Op where
  | moveRight (distance : Nat)
  | moveLeft (distance : Nat)
  | add (amount : Int)
  | subtract (amount : Int)
  | write (value : Int)
  | read
  | reset
  deriving DecidableEq, Repr

/-- The tape after an operation. -/
def Tape.apply (t : Tape) : Tape.Op → Tape
  | .moveRight n => t.moveRight n
  | .moveLeft n => t.moveLeft n
  | .add z => t.add z
  | .subtract z => t.subtract z
  | .write z => t.writeInt z
  | .read => t
  | .reset => .blank

/-- The strip after an operation. -/
def Strip.apply (s : Strip) : Tape.Op → Strip
  | .moveRight n => s.shift n
  | .moveLeft n => s.shift (-n)
  | .add z => s.write (UInt8.ofInt (s.read.toNat + z))
  | .subtract z => s.write (UInt8.ofInt (s.read.toNat - z))
  | .write z => s.write (UInt8.ofInt z)
  | .read => s
  | .reset => .blank

theorem ofInt_toNat (x : UInt8) : UInt8.ofInt x.toNat = x := by
  apply UInt8.toNat_inj.1
  have := x.toNat_lt
  simp only [UInt8.ofInt, UInt8.toNat_ofNat']
  omega

/-- Adding modulo 256 keeps the remainder of the sum. -/
theorem add_ofInt (x : UInt8) (z : Int) : x + UInt8.ofInt z = UInt8.ofInt (x.toNat + z) := by
  rw [UInt8.ofInt_add, ofInt_toNat]

/-- Subtracting modulo 256 keeps the remainder of the difference. -/
theorem sub_ofInt (x : UInt8) (z : Int) : x - UInt8.ofInt z = UInt8.ofInt (x.toNat - z) := by
  rw [Int.sub_eq_add_neg, UInt8.ofInt_add, UInt8.ofInt_neg, ofInt_toNat, UInt8.sub_eq_add_neg]

namespace Tape

variable {t : Tape} {s : Strip}

/-- Every operation keeps tape and strip together. -/
theorem Shows.apply (h : t.Shows s) (op : Op) : (t.apply op).Shows (s.apply op) := by
  cases op with
  | moveRight n => exact h.moveRight n
  | moveLeft n => exact h.moveLeft n
  | add z =>
    simp only [Tape.apply, Tape.add, Strip.apply, h.read, add_ofInt]
    exact h.write _
  | subtract z =>
    simp only [Tape.apply, Tape.subtract, Strip.apply, h.read, sub_ofInt]
    exact h.write _
  | write z => exact h.write _
  | read => exact h
  | reset => exact shows_blank

theorem Shows.foldl (h : t.Shows s) (ops : List Op) :
    (ops.foldl Tape.apply t).Shows (ops.foldl Strip.apply s) := by
  induction ops generalizing t s with
  | nil => exact h
  | cons op ops ih => exact ih (h.apply op)

theorem Shows.length_eq (h : t.Shows s) : (t.length : Int) = s.hi - s.lo + 1 := by
  have := h.hi
  omega

/-- The buffer is blank outside the materialised cells. -/
theorem Shows.getD_buffer_eq_zero (h : t.Shows s) {i : Nat}
    (outside : i < t.origin ∨ t.origin + t.length ≤ i) : t.buffer.getD i 0 = 0 := by
  have hi := h.hi
  have beyond : s.lo + (i - t.origin) < s.lo ∨ s.hi < s.lo + (i - t.origin) := by omega
  have shown := h.cell (s.lo + (i - t.origin))
  have place : (t.origin : Int) + (s.lo + (i - t.origin) - s.lo) = i := by omega
  rw [h.blank _ beyond, cellAt, place, if_pos (by omega), Int.toNat_natCast] at shown
  exact shown.symm

/-- After any operations the tape is what the same operations make of a strip. The active cell, the
pointer, the length and the cells of the tape are those of the visited part of the strip, whose
other cells are blank. The buffer is blank around the materialised cells, and the head is among
them. -/
theorem refines_strip (ops : List Op) :
    let t := ops.foldl Tape.apply .blank
    let s := ops.foldl Strip.apply .blank
    t.read = s.cell s.head ∧ (t.pointer : Int) = s.head - s.lo ∧
      (t.length : Int) = s.hi - s.lo + 1 ∧
      t.cells.toList = s.visited ∧ (∀ i, i < s.lo ∨ s.hi < i → s.cell i = 0) ∧
      (∀ (i : Nat) (_ : i < t.buffer.size),
        i < t.origin ∨ t.origin + t.length ≤ i → t.buffer[i] = 0) ∧
      t.origin ≤ t.head ∧ t.head < t.origin + t.length ∧ t.origin + t.length ≤ t.buffer.size := by
  intro t s
  have shown : t.Shows s := shows_blank.foldl ops
  refine ⟨shown.read, shown.pointer_eq, shown.length_eq, shown.cells_eq, shown.blank, ?_,
    shown.wellFormed.origin_le, shown.wellFormed.head_lt, shown.wellFormed.stop_le⟩
  intro i inside outside
  have blank := shown.getD_buffer_eq_zero outside
  simpa [Array.getD_eq_getD_getElem?, inside] using blank

end Tape

end ByteTape
