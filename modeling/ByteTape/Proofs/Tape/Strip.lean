import ByteTape.Tape.Geometry
import Mathlib.Algebra.Order.Group.Int
import Mathlib.Logic.Function.Basic

/-!
# The tape without ends

A strip is the ideal tape: a byte at every integer, a head, and the leftmost and the rightmost
position that the head has visited. A growing tape shows a strip when its materialised cells are the
visited part of it and everything else, its spare room included, is zero. Every operation keeps
this.
-/

namespace ByteTape

/-- An ideal tape, endless on both sides. -/
@[ext] structure Strip where
  cell : Int → UInt8
  head : Int
  /-- The leftmost visited position. -/
  lo : Int
  /-- The rightmost visited position. -/
  hi : Int
  lo_le : lo ≤ head
  le_hi : head ≤ hi

namespace Strip

def blank : Strip := ⟨fun _ => 0, 0, 0, 0, le_rfl, le_rfl⟩

def read (s : Strip) : UInt8 := s.cell s.head

def write (s : Strip) (value : UInt8) : Strip :=
  { s with cell := Function.update s.cell s.head value }

/-- Add to the active cell, modulo 256. -/
def add (s : Strip) (amount : Int) : Strip := s.write (s.read + UInt8.ofInt amount)

/-- Subtract from the active cell, modulo 256. -/
def subtract (s : Strip) (amount : Int) : Strip := s.write (s.read - UInt8.ofInt amount)

/-- Move the head, to the left if the distance is negative. -/
def shift (s : Strip) (distance : Int) : Strip :=
  { s with
    head := s.head + distance
    lo := min s.lo (s.head + distance)
    hi := max s.hi (s.head + distance)
    lo_le := min_le_right _ _
    le_hi := le_max_right _ _ }

/-- Repeat a motion. -/
def move (s : Strip) (count : Nat) : Motion → Strip
  | .right => s.shift count
  | .left => s.shift (-count)
  | .increment => s.add count
  | .decrement => s.subtract count

/-- The visited cells from left to right. -/
def visited (s : Strip) : List UInt8 :=
  (List.range (s.hi + 1 - s.lo).toNat).map fun i : Nat => s.cell (s.lo + i)

@[simp] theorem read_write (s : Strip) (value : UInt8) : (s.write value).read = value := by
  simp [read, write]

@[simp] theorem write_write (s : Strip) (x y : UInt8) : (s.write x).write y = s.write y := by
  simp [write]

@[simp] theorem write_read (s : Strip) : s.write s.read = s := by
  simp [write, read]

@[simp] theorem read_shift (s : Strip) (distance : Int) :
    (s.shift distance).read = s.cell (s.head + distance) := rfl

/-- Moves in one direction add up. -/
theorem shift_shift (s : Strip) {x y : Int} (h : 0 ≤ x ∧ 0 ≤ y ∨ x ≤ 0 ∧ y ≤ 0) :
    (s.shift x).shift y = s.shift (x + y) := by
  have := s.lo_le
  have := s.le_hi
  ext <;> simp only [shift] <;> omega

/-- Moving nowhere visits nothing. -/
theorem shift_zero (s : Strip) : s.shift 0 = s := by
  have := s.lo_le
  have := s.le_hi
  ext <;> simp only [shift] <;> omega

theorem ofInt_succ (n : Nat) :
    UInt8.ofInt (n + 1 : Nat) = UInt8.ofInt (1 : Nat) + UInt8.ofInt n := by
  rw [← UInt8.ofInt_add, Int.add_comm]
  rfl

@[simp] theorem move_zero (s : Strip) (m : Motion) : s.move 0 m = s := by
  cases m with
  | right => exact s.shift_zero
  | left => exact s.shift_zero
  | increment =>
    have nothing : s.read + UInt8.ofInt (0 : Nat) = s.read := UInt8.add_zero _
    rw [move, add, nothing, write_read]
  | decrement =>
    have nothing : s.read - UInt8.ofInt (0 : Nat) = s.read := UInt8.sub_zero _
    rw [move, subtract, nothing, write_read]

/-- A repeated motion is the motion once and then the other times. -/
theorem move_succ (s : Strip) (n : Nat) (m : Motion) :
    s.move (n + 1) m = (s.move 1 m).move n m := by
  cases m with
  | right =>
    simp only [move]
    rw [shift_shift s (by omega)]
    congr 1
    omega
  | left =>
    simp only [move]
    rw [shift_shift s (by omega)]
    congr 1
    omega
  | increment =>
    simp only [move, add, read_write, write_write, ofInt_succ n, UInt8.add_assoc]
  | decrement =>
    simp only [move, subtract, read_write, write_write, ofInt_succ n]
    congr 1
    grind

end Strip

namespace Tape

/-- The value at an index counted from the first materialised cell; zero outside the buffer. -/
def cellAt (t : Tape) (i : Int) : UInt8 :=
  if 0 ≤ t.origin + i then t.buffer.getD (t.origin + i).toNat 0 else 0

/-- A tape shows a strip. -/
structure Shows (t : Tape) (s : Strip) : Prop where
  wellFormed : t.WellFormed
  head : s.head = s.lo + t.pointer
  hi : s.hi + 1 = s.lo + t.length
  cell : ∀ i, s.cell i = t.cellAt (i - s.lo)
  blank : ∀ i, i < s.lo ∨ s.hi < i → s.cell i = 0

theorem getD_append_replicate (xs : Array UInt8) (n i : Nat) :
    (xs ++ Array.replicate n 0).getD i 0 = xs.getD i 0 := by
  simp only [Array.getD_eq_getD_getElem?]
  grind

theorem getD_replicate_append (xs : Array UInt8) (n i : Nat) :
    (Array.replicate n 0 ++ xs).getD i 0 = if i < n then 0 else xs.getD (i - n) 0 := by
  simp only [Array.getD_eq_getD_getElem?]
  grind

theorem getD_setIfInBounds (xs : Array UInt8) {i : Nat} (h : i < xs.size) (value : UInt8)
    (j : Nat) : (xs.setIfInBounds i value).getD j 0 = if j = i then value else xs.getD j 0 := by
  simp only [Array.getD_eq_getD_getElem?]
  grind

theorem shows_blank : Tape.blank.Shows Strip.blank where
  wellFormed := wellFormed_blank
  head := rfl
  hi := rfl
  cell i := by
    have zero : ∀ k, (#[0] : Array UInt8).getD k 0 = 0 := getD_append_replicate #[] 1
    simp [Strip.blank, Tape.blank, cellAt, zero]
  blank _ _ := rfl

theorem WellFormed.cellAt_write {t : Tape} (h : t.WellFormed) (value : UInt8) (i : Int) :
    (t.write value).cellAt i = if i = t.pointer then value else t.cellAt i := by
  have inside := h.origin_le
  simp only [cellAt, Tape.write, getD_setIfInBounds _ h.head_lt_size, pointer]
  split_ifs <;> first | rfl | omega

/-- Moving to the right changes no value. -/
theorem cellAt_moveRight (t : Tape) (n : Nat) (i : Int) :
    (t.moveRight n).cellAt i = t.cellAt i := by
  have buffer : ∀ k, (t.moveRight n).buffer.getD k 0 = t.buffer.getD k 0 := by
    intro k
    simp only [moveRight]
    split
    · rfl
    · exact getD_append_replicate _ _ _
  simp only [cellAt, buffer]
  rfl

/-- Moving to the left renumbers the values from the new first cell on. -/
theorem cellAt_moveLeft (t : Tape) (n : Nat) (i : Int) :
    (t.moveLeft n).cellAt i =
      t.cellAt (i + (t.moveLeft n).origin - (t.origin + t.leftMargin n)) := by
  have buffer : ∀ k, (t.moveLeft n).buffer.getD k 0 =
      if k < t.leftMargin n then 0 else t.buffer.getD (k - t.leftMargin n) 0 := by
    intro k
    simp only [moveLeft]
    split
    · next none => simp [none]
    · exact getD_replicate_append _ _ _
  simp only [cellAt, buffer]
  split_ifs
  any_goals first | rfl | omega
  congr 1
  omega

namespace Shows

variable {t : Tape} {s : Strip}

theorem read (h : t.Shows s) : t.read = s.read := by
  have inside := h.wellFormed.origin_le
  have place : (t.origin : Int) + (s.head - s.lo) = t.head := by
    rw [h.head, pointer]
    omega
  rw [Strip.read, h.cell, cellAt, place, if_pos (by omega), Int.toNat_natCast]
  rfl

theorem write (h : t.Shows s) (value : UInt8) : (t.write value).Shows (s.write value) where
  wellFormed := h.wellFormed.write value
  head := h.head
  hi := h.hi
  cell i := by
    have place := h.head
    simp only [Strip.write, Function.update_apply, h.wellFormed.cellAt_write, h.cell]
    split_ifs <;> first | rfl | omega
  blank i outside := by
    have := s.lo_le
    have := s.le_hi
    have other : i ≠ s.head := by
      rintro rfl
      change s.head < s.lo ∨ s.hi < s.head at outside
      omega
    exact (Function.update_of_ne other _ _).trans (h.blank i outside)

theorem moveRight (h : t.Shows s) (n : Nat) : (t.moveRight n).Shows (s.shift n) := by
  have head := h.head
  have hi := h.hi
  have := s.lo_le
  have inside := h.wellFormed.origin_le
  simp only [pointer] at head
  have same : (s.shift n).lo = s.lo := by
    simp only [Strip.shift]
    omega
  refine ⟨h.wellFormed.moveRight n, ?_, ?_, ?_, ?_⟩
  · rw [same]
    simp only [Strip.shift, Tape.moveRight, pointer]
    omega
  · rw [same]
    simp only [Strip.shift, Tape.moveRight]
    omega
  · intro i
    rw [cellAt_moveRight, same]
    exact h.cell i
  · intro i outside
    refine h.blank i ?_
    simp only [Strip.shift] at outside
    omega

theorem moveLeft (h : t.Shows s) (n : Nat) : (t.moveLeft n).Shows (s.shift (-n)) := by
  have head := h.head
  have hi := h.hi
  have := s.lo_le
  have := s.le_hi
  have inside := h.wellFormed.origin_le
  have margin : n ≤ t.head + t.leftMargin n := by
    unfold leftMargin
    split <;> omega
  simp only [pointer] at head
  refine ⟨h.wellFormed.moveLeft n, ?_, ?_, ?_, ?_⟩
  · simp only [Strip.shift, Tape.moveLeft, pointer]
    omega
  · simp only [Strip.shift, Tape.moveLeft]
    omega
  · intro i
    rw [cellAt_moveLeft]
    refine (h.cell i).trans (congrArg t.cellAt ?_)
    simp only [Strip.shift, Tape.moveLeft]
    omega
  · intro i outside
    refine h.blank i ?_
    simp only [Strip.shift] at outside
    omega

theorem move (h : t.Shows s) (count : Nat) (m : Motion) :
    (t.move count m).Shows (s.move count m) := by
  cases m with
  | right => exact h.moveRight count
  | left => exact h.moveLeft count
  | increment =>
    have active := h.read
    simp only [Tape.move, Tape.add, Strip.move, Strip.add, active]
    exact h.write _
  | decrement =>
    have active := h.read
    simp only [Tape.move, Tape.subtract, Strip.move, Strip.subtract, active]
    exact h.write _

/-- The head is shown as its offset from the leftmost visited position. -/
theorem pointer_eq (h : t.Shows s) : (t.pointer : Int) = s.head - s.lo := by
  have := h.head
  omega

/-- The materialised cells are the visited ones. -/
theorem cells_eq (h : t.Shows s) : t.cells.toList = s.visited := by
  have length : (s.hi + 1 - s.lo).toNat = t.length := by
    have := h.hi
    omega
  have stop := h.wellFormed.stop_le
  refine List.ext_getElem (by simp [Strip.visited, length, h.wellFormed.size_cells]) ?_
  intro i hi hi'
  have inside : i < t.length := by simpa [Strip.visited, length] using hi'
  have place : ((t.origin : Int) + (s.lo + i - s.lo)).toNat = t.origin + i := by omega
  have bound : t.origin + i < t.buffer.size := by omega
  simp only [Strip.visited, List.getElem_map, List.getElem_range, h.cell, cellAt, place]
  rw [if_pos (by omega)]
  simp [cells, Array.getD_eq_getD_getElem?, bound]

end Shows

end Tape

end ByteTape
