/-!
# Breakpoints

A finite set of positions at which a run stops, kept in ascending order.
-/

namespace ByteTape

/-- A set of positions in ascending order. -/
structure Breakpoints where
  points : List Int := []
  deriving DecidableEq, Repr

namespace Breakpoints

instance : Membership Int Breakpoints := ⟨fun b x => x ∈ b.points⟩

instance (x : Int) (b : Breakpoints) : Decidable (x ∈ b) :=
  inferInstanceAs (Decidable (x ∈ b.points))

theorem mem_def {x : Int} {b : Breakpoints} : x ∈ b ↔ x ∈ b.points := Iff.rfl

/-- Insert into an ascending list, once. -/
def insertSorted (x : Int) : List Int → List Int
  | [] => [x]
  | y :: ys => if x < y then x :: y :: ys else if x = y then y :: ys else y :: insertSorted x ys

theorem mem_insertSorted {x y : Int} {ys : List Int} :
    y ∈ insertSorted x ys ↔ y = x ∨ y ∈ ys := by
  fun_induction insertSorted x ys <;> grind

/-- An ascending list stays so. -/
theorem pairwise_insertSorted {x : Int} {ys : List Int} (h : ys.Pairwise (· < ·)) :
    (insertSorted x ys).Pairwise (· < ·) := by
  induction ys with
  | nil => simp [insertSorted]
  | cons y ys ih =>
    obtain ⟨hy, hys⟩ := List.pairwise_cons.1 h
    unfold insertSorted
    split
    · exact List.pairwise_cons.2 ⟨by grind, h⟩
    · split
      · exact h
      · exact List.pairwise_cons.2 ⟨by grind [mem_insertSorted], ih hys⟩

def insert (b : Breakpoints) (x : Int) : Breakpoints := ⟨insertSorted x b.points⟩

def erase (b : Breakpoints) (x : Int) : Breakpoints := ⟨b.points.filter (· ≠ x)⟩

@[simp] theorem mem_insert {x y : Int} {b : Breakpoints} : y ∈ b.insert x ↔ y = x ∨ y ∈ b :=
  mem_insertSorted

@[simp] theorem mem_erase {x y : Int} {b : Breakpoints} : y ∈ b.erase x ↔ y ∈ b ∧ y ≠ x := by
  simp [mem_def, erase]

@[simp] theorem not_mem_empty (x : Int) : x ∉ ({} : Breakpoints) := by
  simp [mem_def]

end Breakpoints

end ByteTape
