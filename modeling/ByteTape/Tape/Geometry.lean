import ByteTape.Tape.Basic

/-!
# Geometry of the tape

In every tape that grows from the blank one the head stands on a materialised cell and the
materialised cells lie inside the buffer, so that no access misses. Every operation keeps this.
-/

namespace ByteTape.Tape

/-- The head is on a materialised cell, and the materialised cells are inside the buffer. -/
structure WellFormed (t : Tape) : Prop where
  origin_le : t.origin ≤ t.head
  head_lt : t.head < t.origin + t.length
  stop_le : t.origin + t.length ≤ t.buffer.size

theorem WellFormed.head_lt_size {t : Tape} (h : t.WellFormed) : t.head < t.buffer.size :=
  Nat.lt_of_lt_of_le h.head_lt h.stop_le

theorem WellFormed.pointer_lt {t : Tape} (h : t.WellFormed) : t.pointer < t.length := by
  have := h.origin_le
  have := h.head_lt
  unfold pointer
  omega

theorem WellFormed.size_cells {t : Tape} (h : t.WellFormed) : t.cells.size = t.length := by
  have := h.stop_le
  unfold cells
  rw [Array.size_extract]
  omega

theorem wellFormed_blank : blank.WellFormed := ⟨by decide, by decide, by decide⟩

@[simp] theorem size_buffer_write (t : Tape) (value : UInt8) :
    (t.write value).buffer.size = t.buffer.size := by
  simp [write]

@[simp] theorem pointer_write (t : Tape) (value : UInt8) :
    (t.write value).pointer = t.pointer := rfl

/-- Writing is read back. -/
theorem WellFormed.read_write {t : Tape} (h : t.WellFormed) (value : UInt8) :
    (t.write value).read = value := by
  have := h.head_lt_size
  simp [read, write, this]

theorem WellFormed.write {t : Tape} (h : t.WellFormed) (value : UInt8) :
    (t.write value).WellFormed where
  origin_le := h.origin_le
  head_lt := h.head_lt
  stop_le := by simpa [Tape.write] using h.stop_le

theorem WellFormed.moveRight {t : Tape} (h : t.WellFormed) (distance : Nat) :
    (t.moveRight distance).WellFormed := by
  obtain ⟨origin_le, head_lt, stop_le⟩ := h
  refine ⟨?_, ?_, ?_⟩
  · simp only [Tape.moveRight]
    omega
  · simp only [Tape.moveRight]
    omega
  · simp only [Tape.moveRight]
    split
    · omega
    · rw [Array.size_append, Array.size_replicate]
      omega

theorem WellFormed.moveLeft {t : Tape} (h : t.WellFormed) (distance : Nat) :
    (t.moveLeft distance).WellFormed := by
  obtain ⟨origin_le, head_lt, stop_le⟩ := h
  have margin : distance ≤ t.head + t.leftMargin distance := by
    unfold leftMargin
    split <;> omega
  refine ⟨?_, ?_, ?_⟩
  · simp only [Tape.moveLeft]
    omega
  · simp only [Tape.moveLeft]
    omega
  · simp only [Tape.moveLeft]
    split
    · omega
    · rw [Array.size_append, Array.size_replicate]
      omega

theorem WellFormed.move {t : Tape} (h : t.WellFormed) (count : Nat) (m : Motion) :
    (t.move count m).WellFormed := by
  cases m with
  | right => exact h.moveRight count
  | left => exact h.moveLeft count
  | increment => exact h.write _
  | decrement => exact h.write _

end ByteTape.Tape
