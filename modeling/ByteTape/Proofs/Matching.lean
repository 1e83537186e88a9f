import ByteTape.Proofs.Nesting
import Mathlib.Algebra.Order.Group.Int

/-!
# Matching loop boundaries

A loop start and a loop end match when what stands between them is balanced. In terms of the depth
of nesting, a loop begins and ends at one depth and everything inside it is deeper. So a boundary
has one match at most, and a sequence in which every boundary has a match is balanced.
-/

namespace ByteTape.Bracket

variable {α : Type}

/-- The entries at `i` and `j` open and close one loop. -/
structure Matches (bracket : α → Option Bracket) (as : List α) (i j : Nat) : Prop where
  lt : i < j
  opening : as[i]?.bind bracket = some .opening
  closing : as[j]?.bind bracket = some .closing
  inside : Balanced bracket ((as.take j).drop (i + 1))

/-- How many more loops are opened than closed before an index. -/
def depth (bracket : α → Option Bracket) (as : List α) (n : Nat) : Int :=
  count bracket .opening (as.take n) - count bracket .closing (as.take n)

/-- What an entry adds to the depth. -/
def rise : Option Bracket → Int
  | none => 0
  | some .opening => 1
  | some .closing => -1

variable {bracket : α → Option Bracket} {as : List α}

@[simp] theorem depth_zero : depth bracket as 0 = 0 := by
  simp [depth, count]

theorem balanced_iff_depth :
    Balanced bracket as ↔ (∀ n, 0 ≤ depth bracket as n) ∧ depth bracket as as.length = 0 := by
  unfold depth
  rw [List.take_length]
  constructor
  · rintro ⟨within, even⟩
    exact ⟨fun n => by have := within n; omega, by omega⟩
  · rintro ⟨within, even⟩
    exact ⟨fun n => by have := within n; omega, by omega⟩

theorem depth_succ (bracket : α → Option Bracket) (as : List α) (n : Nat) :
    depth bracket as (n + 1) = depth bracket as n + rise (as[n]?.bind bracket) := by
  unfold depth
  rw [List.take_add_one]
  cases as[n]? with
  | none => simp [rise]
  | some a =>
    cases hb : bracket a with
    | none => simp [count, rise, hb]
    | some side =>
      cases side <;> simp [count, rise, hb] <;> omega

theorem depth_add (i n : Nat) :
    depth bracket as (i + n) = depth bracket as i + depth bracket (as.drop i) n := by
  unfold depth
  rw [List.take_add]
  simp only [count, List.countP_append]
  omega

namespace Matches

variable {i j k : Nat}

theorem lt_length (h : Matches bracket as i j) : j < as.length := by
  by_contra out
  simpa [List.getElem?_eq_none (Nat.le_of_not_lt out)] using h.closing

/-- The depth inside a part of a sequence. -/
theorem depth_part (bracket : α → Option Bracket) (as : List α) {n : Nat} (h : i + 1 ≤ n)
    (le : n ≤ j) :
    depth bracket as n =
      depth bracket as (i + 1) + depth bracket ((as.take j).drop (i + 1)) (n - (i + 1)) := by
  have part : (as.take j).drop (i + 1) = (as.drop (i + 1)).take (j - (i + 1)) := List.drop_take ..
  have same : depth bracket ((as.take j).drop (i + 1)) (n - (i + 1)) =
      depth bracket (as.drop (i + 1)) (n - (i + 1)) := by
    rw [depth, part, List.take_take, min_eq_left (by omega), depth]
  rw [same, ← depth_add]
  congr 1
  omega

/-- Inside a loop the depth is greater than before it. -/
theorem depth_lt (h : Matches bracket as i j) {n : Nat} (lt : i < n) (le : n ≤ j) :
    depth bracket as i < depth bracket as n := by
  have start := depth_succ bracket as i
  have deeper := (balanced_iff_depth.1 h.inside).1 (n - (i + 1))
  have part := depth_part bracket as (Nat.succ_le_of_lt lt) le
  rw [h.opening, rise] at start
  omega

/-- After a loop the depth is what it was before it. -/
theorem depth_eq (h : Matches bracket as i j) :
    depth bracket as (j + 1) = depth bracket as i := by
  have start := depth_succ bracket as i
  have stop := depth_succ bracket as j
  have part := depth_part bracket as (Nat.succ_le_of_lt h.lt) le_rfl
  have even := (balanced_iff_depth.1 h.inside).2
  rw [List.length_drop, List.length_take, min_eq_left h.lt_length.le] at even
  rw [h.opening, rise] at start
  rw [h.closing, rise] at stop
  omega

/-- A loop start has one match at most. -/
theorem right_unique (h : Matches bracket as i j) (h' : Matches bracket as i k) : j = k := by
  have := h.depth_eq
  have := h'.depth_eq
  have := h.lt
  have := h'.lt
  rcases Nat.lt_trichotomy j k with lt | same | lt
  · have := h'.depth_lt (n := j + 1) (by omega) (by omega)
    omega
  · exact same
  · have := h.depth_lt (n := k + 1) (by omega) (by omega)
    omega

/-- A loop end has one match at most. -/
theorem left_unique (h : Matches bracket as i k) (h' : Matches bracket as j k) : i = j := by
  have := h.depth_eq
  have := h'.depth_eq
  have := h.lt
  have := h'.lt
  rcases Nat.lt_trichotomy i j with lt | same | lt
  · have := h.depth_lt (n := j) (by omega) (by omega)
    omega
  · exact same
  · have := h'.depth_lt (n := i) (by omega) (by omega)
    omega

end Matches

/-- Which entries match can be read off their brackets alone. -/
theorem matches_map {β : Type} (f : β → α) {bs : List β} {i j : Nat} :
    Matches bracket (bs.map f) i j ↔ Matches (fun b => bracket (f b)) bs i j := by
  have side (k : Nat) : (bs.map f)[k]?.bind bracket = bs[k]?.bind fun b => bracket (f b) := by
    rw [List.getElem?_map, Option.bind_map]
    rfl
  have part : ((bs.map f).take j).drop (i + 1) = ((bs.take j).drop (i + 1)).map f := by
    rw [← List.map_take, ← List.map_drop]
  constructor
  · rintro ⟨lt, opening, closing, inside⟩
    exact ⟨lt, side i ▸ opening, side j ▸ closing, (balanced_map f).mp (part ▸ inside)⟩
  · rintro ⟨lt, opening, closing, inside⟩
    exact ⟨lt, side i ▸ opening, side j ▸ closing, part ▸ (balanced_map f).mpr inside⟩

/-- Where every loop end has a match, the depth is nowhere negative. -/
theorem depth_nonneg
    (closed : ∀ j, as[j]?.bind bracket = some .closing → ∃ i, Matches bracket as i j) (n : Nat) :
    0 ≤ depth bracket as n := by
  induction n using Nat.strongRecOn with
  | ind n ih =>
    cases n with
    | zero => simp
    | succ n =>
      have step := depth_succ bracket as n
      have before := ih n n.lt_succ_self
      rcases hb : as[n]?.bind bracket with _ | _ | _
      · rw [hb, rise] at step
        omega
      · rw [hb, rise] at step
        omega
      · obtain ⟨i, loop⟩ := closed n hb
        rw [loop.depth_eq]
        exact ih i (Nat.lt_succ_of_lt loop.lt)

/-- Where every loop start has a match, a depth that is not positive stays so until the end. -/
theorem depth_length_le
    (opened : ∀ i, as[i]?.bind bracket = some .opening → ∃ j, Matches bracket as i j) {n : Nat}
    (le : n ≤ as.length) (low : depth bracket as n ≤ 0) : depth bracket as as.length ≤ 0 := by
  induction left : as.length - n using Nat.strongRecOn generalizing n with
  | ind left' ih =>
    rcases Nat.eq_or_lt_of_le le with rfl | lt
    · exact low
    · have step := depth_succ bracket as n
      rcases hb : as[n]?.bind bracket with _ | _ | _
      · rw [hb, rise] at step
        exact ih _ (by omega) (n := n + 1) lt (by omega) rfl
      · obtain ⟨j, loop⟩ := opened n hb
        have later := loop.lt
        have inside := loop.lt_length
        exact ih _ (by omega) (n := j + 1) inside (loop.depth_eq.trans_le low) rfl
      · rw [hb, rise] at step
        exact ih _ (by omega) (n := n + 1) lt (by omega) rfl

/-- A sequence in which every boundary has a match is balanced. -/
theorem balanced_of_matches
    (opened : ∀ i, as[i]?.bind bracket = some .opening → ∃ j, Matches bracket as i j)
    (closed : ∀ j, as[j]?.bind bracket = some .closing → ∃ i, Matches bracket as i j) :
    Balanced bracket as := by
  have high := depth_nonneg closed
  have low := depth_length_le opened (Nat.zero_le _) depth_zero.le
  exact balanced_iff_depth.2 ⟨high, le_antisymm low (high _)⟩

end ByteTape.Bracket
