import ByteTape.Proofs.Tape.Refinement

/-!
# What a window of the tape shows

A window of any radius from zero on shows the cells around the head, as far as they are
materialised, and nothing of the room around them. So it depends on the visible tape alone, and not
on the way in which that has grown. A negative radius leaves no cells to be shown. But under one so
low that the window would have to end before the buffer begins, its end is counted from the end of
the buffer, and it shows whatever lies in between.
-/

namespace ByteTape.Tape

/-- The materialised cells at most `radius` away from the head, from left to right. -/
def nearby (t : Tape) (radius : Int) : List UInt8 :=
  (t.cells.toList.zipIdx.filter fun cell =>
    decide ((((cell.2 : Int) - t.pointer).natAbs : Int) ≤ radius)).map Prod.fst

theorem map_fst_filter_zipIdx {α : Type} (xs : List α) (lo hi n : Nat) :
    ((xs.zipIdx n).filter fun x => decide (lo ≤ x.2 ∧ x.2 < hi)).map Prod.fst =
      (xs.take (hi - n)).drop (lo - n) := by
  -- The number of the first element goes up with each one that is left behind.
  induction xs generalizing n with
  | nil => simp
  | cons x xs ih =>
    have rest := ih (n + 1)
    rw [List.zipIdx_cons, List.filter_cons]
    rcases Nat.lt_or_ge n hi with below | past
    · rw [show hi - n = hi - (n + 1) + 1 by omega, List.take_succ_cons]
      rcases Nat.lt_or_ge n lo with before | within
      · rw [show lo - n = lo - (n + 1) + 1 by omega, List.drop_succ_cons, ← rest]
        simp [Nat.not_le.2 before]
      · rw [Nat.sub_eq_zero_of_le (Nat.le_succ_of_le within)] at rest
        simpa [within, below, Nat.sub_eq_zero_of_le within] using rest
    · rw [Nat.sub_eq_zero_of_le (Nat.le_succ_of_le past)] at rest
      simpa [Nat.not_lt.2 past, Nat.sub_eq_zero_of_le past] using rest

variable {t : Tape} {radius : Int}

theorem nearby_of_neg (negative : radius < 0) : t.nearby radius = [] := by
  have none : ∀ x ∈ t.cells.toList.zipIdx,
      ¬ (((x.2 : Int) - t.pointer).natAbs : Int) ≤ radius := by
    intro x _
    omega
  simpa [nearby] using none

/-- The cells near the head are a part of the materialised ones. -/
theorem nearby_natCast (t : Tape) (w : Nat) :
    t.nearby w = (t.cells.extract (t.pointer - w) (t.pointer + w + 1)).toList := by
  have near (x : UInt8 × Nat) : (((x.2 : Int) - t.pointer).natAbs : Int) ≤ w ↔
      t.pointer - w ≤ x.2 ∧ x.2 < t.pointer + w + 1 := by
    omega
  simp only [nearby, near, map_fst_filter_zipIdx]
  simp [List.drop_take]

/-- A slice bound inside a buffer stands for itself. -/
theorem sliceBound_natCast {size n : Nat} (le : n ≤ size) : sliceBound size n = n := by
  have inside : ¬ (n : Int) < 0 := by omega
  rw [sliceBound, if_neg inside, Int.toNat_natCast, min_eq_left le]

/-- A window of radius zero or more is cut out of the materialised cells. -/
theorem WellFormed.window_natCast (h : t.WellFormed) (w : Nat) :
    t.window w = ⟨t.pointer - w, t.cells.extract (t.pointer - w) (t.pointer + w + 1)⟩ := by
  have inside := h.pointer_lt
  have stop_le := h.stop_le
  have start : max 0 ((t.pointer : Int) - w) = (t.pointer - w : Nat) := by omega
  have stop : min (t.length : Int) (t.pointer + w + 1) = (min t.length (t.pointer + w + 1) : Nat) :=
    by omega
  have first : sliceBound t.buffer.size (t.origin + (t.pointer - w : Nat)) =
      t.origin + (t.pointer - w) := sliceBound_natCast (n := t.origin + (t.pointer - w)) (by omega)
  have last : sliceBound t.buffer.size (t.origin + (min t.length (t.pointer + w + 1) : Nat)) =
      t.origin + min t.length (t.pointer + w + 1) :=
    sliceBound_natCast (n := t.origin + min t.length (t.pointer + w + 1)) (by omega)
  simp only [window, start, stop, first, last, Int.toNat_natCast, cells, Array.extract_extract]
  congr 2
  omega

section Negative

variable (h : t.WellFormed) (negative : radius < 0)
include h negative

/-- A negative radius cuts a window out of the buffer that begins behind the head. -/
theorem WellFormed.cells_window_of_neg :
    (t.window radius).cells = t.buffer.extract (sliceBound t.buffer.size (t.head - radius))
      (sliceBound t.buffer.size (t.head + radius + 1)) := by
  have inside := h.pointer_lt
  have head : (t.origin : Int) + t.pointer = t.head := by
    have := h.origin_le
    unfold pointer
    omega
  have start : t.origin + max 0 (t.pointer - radius) = t.head - radius := by omega
  have stop : t.origin + min (t.length : Int) (t.pointer + radius + 1) = t.head + radius + 1 := by
    omega
  rw [window, start, stop]

/-- It is empty unless it would have to end before the buffer begins. -/
theorem WellFormed.cells_window_of_le (inside : 0 ≤ t.head + radius + 1) :
    (t.window radius).cells = #[] := by
  have head_lt := h.head_lt_size
  have start : ¬ (t.head - radius : Int) < 0 := by omega
  rw [h.cells_window_of_neg negative, Array.extract_eq_empty_iff, sliceBound, sliceBound,
    if_neg start, if_neg (not_lt.2 inside)]
  omega

/-- If it would, its end is counted from the end of the buffer. -/
theorem WellFormed.cells_window_of_lt (before : t.head + radius + 1 < 0) :
    (t.window radius).cells = t.buffer.extract (t.head - radius).toNat
      (t.buffer.size + t.head + radius + 1).toNat := by
  have start : ¬ (t.head - radius : Int) < 0 := by omega
  have stop : (t.head + radius + 1 + t.buffer.size : Int) =
      t.buffer.size + t.head + radius + 1 := by omega
  rw [h.cells_window_of_neg negative, sliceBound, sliceBound, if_neg start, if_pos before, stop]
  -- Where it would begin past the end of the buffer, it is empty for either bound.
  rcases Nat.le_total (t.head - radius).toNat t.buffer.size with le | beyond
  · rw [min_eq_left le]
  · rw [min_eq_right beyond, Array.extract_empty_of_stop_le_start (by omega),
      Array.extract_empty_of_stop_le_start (by omega)]

end Negative

/-- After any operations a window shows the materialised cells near the head, in order, unless its
radius is so low that the window would have to end before the buffer begins. Then it shows the part
of the buffer that begins as far behind the head as the radius is below zero and ends, counted from
the end of the buffer, as far before the head. Only if that part is empty it is still true that the
cells near the head are shown, of which there are none then. -/
theorem window_shows_nearby (ops : List Op) (radius : Int) :
    let t := ops.foldl Tape.apply .blank
    (t.window radius).cells.toList =
        (if 0 ≤ t.head + radius + 1 then t.nearby radius
          else (t.buffer.extract (t.head - radius).toNat
            (t.buffer.size + t.head + radius + 1).toNat).toList) ∧
      ((t.window radius).cells.toList = t.nearby radius ↔
        0 ≤ t.head + radius + 1 ∨ t.buffer.size + 2 * radius + 1 ≤ 0) ∧
      ((t.window radius).start : Int) = max 0 (t.pointer - radius) := by
  intro t
  have wellFormed : t.WellFormed := (shows_blank.foldl ops).wellFormed
  have head_lt := wellFormed.head_lt_size
  have start : ((t.window radius).start : Int) = max 0 (t.pointer - radius) := by
    simp only [window]
    omega
  by_cases inside : 0 ≤ t.head + radius + 1
  · have shown : (t.window radius).cells.toList = t.nearby radius := by
      rcases Int.lt_or_le radius 0 with negative | natural
      · rw [nearby_of_neg negative, wellFormed.cells_window_of_le negative inside]
      · obtain ⟨w, rfl⟩ := Int.eq_ofNat_of_zero_le natural
        rw [nearby_natCast, wellFormed.window_natCast]
    rw [if_pos inside]
    exact ⟨shown, iff_of_true shown (.inl inside), start⟩
  · have negative : radius < 0 := by omega
    have cut := wellFormed.cells_window_of_lt negative (not_le.1 inside)
    rw [if_neg inside, cut, nearby_of_neg negative, Array.toList_eq_nil_iff,
      Array.extract_eq_empty_iff]
    exact ⟨rfl, by omega, start⟩

/-- Back at its first cell, the tape shows the third one under a radius of minus two, which leaves
no cells to be shown. -/
theorem window_shows_beyond_nearby :
    let t := [Op.moveRight 3, Op.moveLeft 3].foldl Tape.apply .blank
    t.window (-2) = ⟨2, #[0]⟩ ∧ t.nearby (-2) = [] := by
  decide

end ByteTape.Tape
