import ByteTape.Proofs.Tape.Strip

/-!
# Strips with the same cells

A head that wanders off and comes back leaves no trace but the positions it has visited. A strip
covers another one when both have the same cells and the same head, and it has visited whatever the
other one has. Of two tapes that show such strips the first is the second between two runs of zeros.
-/

namespace ByteTape

namespace Strip

/-- The same cells and the same head, and at least as many visited positions. -/
structure Covers (s t : Strip) : Prop where
  cell : s.cell = t.cell
  head : s.head = t.head
  lo : s.lo ≤ t.lo
  hi : t.hi ≤ s.hi

namespace Covers

theorem refl (s : Strip) : s.Covers s := ⟨rfl, rfl, le_rfl, le_rfl⟩

theorem trans {s t u : Strip} (h : s.Covers t) (h' : t.Covers u) : s.Covers u :=
  ⟨h.cell.trans h'.cell, h.head.trans h'.head, h.lo.trans h'.lo, h'.hi.trans h.hi⟩

variable {s t : Strip}

theorem read (h : s.Covers t) : s.read = t.read := by
  rw [Strip.read, Strip.read, h.cell, h.head]

theorem write (h : s.Covers t) (value : UInt8) : (s.write value).Covers (t.write value) where
  cell := by simp only [Strip.write, h.cell, h.head]
  head := h.head
  lo := h.lo
  hi := h.hi

theorem shift (h : s.Covers t) (distance : Int) : (s.shift distance).Covers (t.shift distance) := by
  have head := h.head
  have lo := h.lo
  have hi := h.hi
  refine ⟨h.cell, ?_, ?_, ?_⟩
  · simp only [Strip.shift]
    omega
  · simp only [Strip.shift]
    omega
  · simp only [Strip.shift]
    omega

theorem move (h : s.Covers t) (n : Nat) (m : Motion) : (s.move n m).Covers (t.move n m) := by
  cases m with
  | right => exact h.shift n
  | left => exact h.shift (-n)
  | increment =>
    have read := h.read
    simp only [Strip.move, Strip.add, read]
    exact h.write _
  | decrement =>
    have read := h.read
    simp only [Strip.move, Strip.subtract, read]
    exact h.write _

end Covers

/-- Going one way and back again covers not going at all. -/
theorem shift_covers (s : Strip) (distance : Int) :
    ((s.shift distance).shift (-distance)).Covers s := by
  refine ⟨rfl, ?_, ?_, ?_⟩
  · simp only [shift]
    omega
  · simp only [shift]
    omega
  · simp only [shift]
    omega

/-- Changing the cell and changing it back leaves the strip as it was. -/
theorem move_opposite_eq (s : Strip) {m : Motion} (right : m ≠ .right) (left : m ≠ .left) :
    (s.move 1 m).move 1 m.opposite = s := by
  cases m with
  | right => exact absurd rfl right
  | left => exact absurd rfl left
  | increment =>
    have undone : s.read + UInt8.ofInt (1 : Nat) - UInt8.ofInt (1 : Nat) = s.read := by grind
    simp only [Motion.opposite, move, add, subtract, read_write, write_write, undone, write_read]
  | decrement =>
    have undone : s.read - UInt8.ofInt (1 : Nat) + UInt8.ofInt (1 : Nat) = s.read := by grind
    simp only [Motion.opposite, move, add, subtract, read_write, write_write, undone, write_read]

/-- A motion and its opposite cover nothing at all. -/
theorem move_opposite_covers (s : Strip) (m : Motion) :
    ((s.move 1 m).move 1 m.opposite).Covers s := by
  cases m with
  | right => exact s.shift_covers 1
  | left => exact s.shift_covers (-1)
  | increment =>
    rw [s.move_opposite_eq (m := .increment) (by decide) (by decide)]
    exact .refl s
  | decrement =>
    rw [s.move_opposite_eq (m := .decrement) (by decide) (by decide)]
    exact .refl s

end Strip

namespace Tape.Shows

variable {t u : Tape} {s r : Strip}

/-- Positions that a shown strip has not visited hold zeros. -/
theorem map_range_eq_replicate (shown : u.Shows r) (place : Nat → Int) (n : Nat)
    (outside : ∀ i < n, place i < r.lo ∨ r.hi < place i) :
    (List.range n).map (fun i => r.cell (place i)) = List.replicate n 0 := by
  refine List.eq_replicate_iff.2 ⟨by simp, ?_⟩
  intro x hx
  obtain ⟨i, hi, rfl⟩ := List.mem_map.1 hx
  exact shown.blank _ (outside i (List.mem_range.1 hi))

/-- A tape that shows a covering strip is the other tape between two runs of zeros. -/
theorem exists_cells_eq_of_covers (ht : t.Shows s) (hu : u.Shows r) (covers : s.Covers r) :
    ∃ a b, t.cells = Array.replicate a 0 ++ u.cells ++ Array.replicate b 0 ∧
      t.pointer = a + u.pointer := by
  have lo := covers.lo
  have hi := covers.hi
  have head := covers.head
  have inside := r.lo_le
  have inside' := r.le_hi
  obtain ⟨a, ha⟩ := Int.eq_ofNat_of_zero_le (Int.sub_nonneg_of_le lo)
  obtain ⟨b, hb⟩ := Int.eq_ofNat_of_zero_le (Int.sub_nonneg_of_le hi)
  obtain ⟨n, hn⟩ : ∃ n : Nat, r.hi + 1 - r.lo = n := ⟨(r.hi + 1 - r.lo).toNat, by omega⟩
  have length : (s.hi + 1 - s.lo).toNat = a + n + b := by omega
  refine ⟨a, b, ?_, ?_⟩
  · have left := hu.map_range_eq_replicate (fun i => s.lo + i) a (by omega)
    have right := hu.map_range_eq_replicate (fun i => s.lo + (a + n + i : Nat)) b (by omega)
    have middle : (List.range n).map (fun i : Nat => r.cell (s.lo + (a + i : Nat))) =
        u.cells.toList := by
      rw [hu.cells_eq, Strip.visited, hn, Int.toNat_natCast]
      apply List.map_congr_left
      intro i _
      congr 1
      omega
    apply Array.toList_inj.1
    rw [ht.cells_eq, Strip.visited, length, List.range_add, List.range_add, covers.cell]
    simp only [List.map_append, List.map_map, Function.comp_def, Array.toList_append,
      Array.toList_replicate]
    rw [left, middle, right]
  · have hp := ht.pointer_eq
    have hq := hu.pointer_eq
    omega

end Tape.Shows

end ByteTape
