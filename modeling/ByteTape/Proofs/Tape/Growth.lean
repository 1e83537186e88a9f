import ByteTape.Proofs.Tape.Refinement
import Mathlib.Algebra.Ring.Nat

/-!
# How the buffer grows

A buffer that runs out of room at least doubles, at whichever end that happens, so it is enlarged
seldom. And it is never much larger than the cells that it is there for: the spare room of one side
is at most a half of the buffer, and that of the other side at most a quarter.
-/

namespace ByteTape.Tape

variable {t : Tape}

/-! ## Sizes -/

theorem size_moveRight (t : Tape) (n : Nat) :
    (t.moveRight n).buffer.size =
      if t.head + n < t.buffer.size then t.buffer.size
      else t.buffer.size + max (t.head + n + 1 - t.buffer.size) t.buffer.size := by
  simp only [moveRight]
  split <;> simp

theorem size_moveLeft (t : Tape) (n : Nat) :
    (t.moveLeft n).buffer.size = t.leftMargin n + t.buffer.size := by
  simp only [moveLeft]
  split
  · next none => rw [none, Nat.zero_add]
  · simp

/-- An operation other than a reset leaves the buffer at its size or at least doubles it. -/
theorem size_apply (t : Tape) {op : Op} (kept : op ≠ .reset) :
    (t.apply op).buffer.size = t.buffer.size ∨ 2 * t.buffer.size ≤ (t.apply op).buffer.size := by
  cases op with
  | moveRight n =>
    simp only [apply, size_moveRight]
    split <;> omega
  | moveLeft n =>
    simp only [apply, size_moveLeft, leftMargin]
    split <;> omega
  | add z => exact .inl (size_buffer_write _ _)
  | subtract z => exact .inl (size_buffer_write _ _)
  | write z => exact .inl (size_buffer_write _ _)
  | read => exact .inl rfl
  | reset => exact absurd rfl kept

/-! ## Spare room -/

/-- The number of buffer cells behind the materialised ones. -/
def spareRight (t : Tape) : Nat := t.buffer.size - (t.origin + t.length)

/-- The spare room is small: on one side, where the buffer has been enlarged last, at most a half of
the buffer, and on the other side at most a quarter. The room on the left is what lies before the
origin. -/
structure Snug (t : Tape) : Prop where
  wellFormed : t.WellFormed
  spare : 2 * t.origin ≤ t.buffer.size ∧ 4 * t.spareRight ≤ t.buffer.size ∨
    4 * t.origin ≤ t.buffer.size ∧ 2 * t.spareRight ≤ t.buffer.size

theorem snug_blank : Snug .blank := ⟨wellFormed_blank, .inl (by decide)⟩

/-- The other quarter at least is materialised. -/
theorem Snug.size_le (h : t.Snug) : t.buffer.size ≤ 4 * t.length := by
  obtain ⟨wellFormed, spare⟩ := h
  have stop_le := wellFormed.stop_le
  unfold spareRight at spare
  omega

theorem Snug.write (h : t.Snug) (value : UInt8) : (t.write value).Snug where
  wellFormed := h.wellFormed.write value
  spare := by simpa [spareRight, Tape.write] using h.spare

/-- Neither side has more than half of the buffer spare. -/
theorem Snug.half (h : t.Snug) :
    2 * t.origin ≤ t.buffer.size ∧ 2 * t.spareRight ≤ t.buffer.size := by
  have spare := h.spare
  omega

theorem Snug.moveRight (h : t.Snug) (n : Nat) : (t.moveRight n).Snug := by
  have stop_le := h.wellFormed.stop_le
  have origin_le := h.wellFormed.origin_le
  refine ⟨h.wellFormed.moveRight n, ?_⟩
  have origin : (t.moveRight n).origin = t.origin := rfl
  have stop : t.origin + (t.moveRight n).length = max (t.origin + t.length) (t.head + n + 1) := by
    simp only [Tape.moveRight]
    omega
  by_cases inside : t.head + n < t.buffer.size
  · -- The buffer stays, and the cells can only take more of it.
    have size : (t.moveRight n).buffer.size = t.buffer.size := by rw [size_moveRight, if_pos inside]
    have less : (t.moveRight n).spareRight ≤ t.spareRight := by
      rw [spareRight, spareRight, origin, stop, size]
      omega
    have spare := h.spare
    rw [origin, size]
    omega
  · -- What was a half on the left is a quarter now, and the cells reach into the new half.
    have half := h.half
    have size := t.size_moveRight n
    rw [if_neg inside] at size
    right
    rw [spareRight, origin, stop, size]
    omega

theorem Snug.moveLeft (h : t.Snug) (n : Nat) : (t.moveLeft n).Snug := by
  have stop_le := h.wellFormed.stop_le
  have origin_le := h.wellFormed.origin_le
  refine ⟨h.wellFormed.moveLeft n, ?_⟩
  have size := t.size_moveLeft n
  have origin : (t.moveLeft n).origin =
    min (t.origin + t.leftMargin n) (t.head + t.leftMargin n - n) := rfl
  have stop : (t.moveLeft n).origin + (t.moveLeft n).length =
      t.leftMargin n + (t.origin + t.length) := by
    simp only [Tape.moveLeft]
    omega
  have right : (t.moveLeft n).spareRight = t.spareRight := by
    rw [spareRight, spareRight, stop, size, Nat.add_sub_add_left]
  rw [right, origin, size]
  by_cases inside : n ≤ t.head
  · -- The buffer stays, and the origin can only come down.
    have spare := h.spare
    rw [leftMargin, if_pos inside]
    omega
  · -- What was a half on the right is a quarter now, and the cells reach into the new half.
    have half := h.half
    rw [leftMargin, if_neg inside]
    left
    omega

theorem Snug.apply (h : t.Snug) (op : Op) : (t.apply op).Snug := by
  cases op with
  | moveRight n => exact h.moveRight n
  | moveLeft n => exact h.moveLeft n
  | add z => exact h.write _
  | subtract z => exact h.write _
  | write z => exact h.write _
  | read => exact h
  | reset => exact snug_blank

/-! ## Counting -/

/-- How often the buffer has been enlarged since the last reset, after one more operation. -/
def countGrowth (t : Tape) (count : Nat) : Op → Nat
  | .reset => 0
  | op => if t.buffer.size < (t.apply op).buffer.size then count + 1 else count

/-- How often it has been enlarged since the last reset, after more operations. -/
def growthsFrom (t : Tape) (count : Nat) : List Op → Nat
  | [] => count
  | op :: ops => growthsFrom (t.apply op) (t.countGrowth count op) ops

/-- How often operations on a blank tape have enlarged the buffer since the last reset. -/
def growths (ops : List Op) : Nat := growthsFrom .blank 0 ops

theorem pow_countGrowth_le {count : Nat} (h : 2 ^ count ≤ t.buffer.size) (op : Op) :
    2 ^ t.countGrowth count op ≤ (t.apply op).buffer.size := by
  by_cases reset : op = .reset
  · subst reset
    exact le_rfl
  · have counted : t.countGrowth count op =
        if t.buffer.size < (t.apply op).buffer.size then count + 1 else count := by
      cases op <;> first | rfl | exact absurd rfl reset
    have sizes := t.size_apply reset
    rw [counted]
    split
    · rw [Nat.pow_succ]
      omega
    · omega

/-- Operations keep the room snug, and the buffer as large as its growth asks for. -/
theorem Snug.pow_growthsFrom_le {count : Nat} (snug : t.Snug) (h : 2 ^ count ≤ t.buffer.size)
    (ops : List Op) :
    (ops.foldl Tape.apply t).Snug ∧
      2 ^ t.growthsFrom count ops ≤ (ops.foldl Tape.apply t).buffer.size := by
  induction ops generalizing t count with
  | nil => exact ⟨snug, h⟩
  | cons op ops ih => exact ih (snug.apply op) (pow_countGrowth_le h op)

/-- The buffer grows geometrically: enlarged so many times since the last reset, it has at least
that power of two for its size. And it has at most four times as many cells as are materialised. -/
theorem grows_geometrically (ops : List Op) :
    let t := ops.foldl Tape.apply .blank
    2 ^ growths ops ≤ t.buffer.size ∧ t.buffer.size ≤ 4 * t.length := by
  intro t
  have single : 2 ^ 0 ≤ Tape.blank.buffer.size := le_rfl
  obtain ⟨snug, enough⟩ := snug_blank.pow_growthsFrom_le single ops
  exact ⟨enough, snug.size_le⟩

end ByteTape.Tape
