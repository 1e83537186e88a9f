import ByteTape.Proofs.Session.Playing
import ByteTape.Proofs.Trail

/-!
# Sessions under a step limit

Under a step limit a stepper has only so many states left to show, whatever is done to the tape in
between. So a run of a session returns with fuel for one round more than that.
-/

namespace ByteTape

namespace Stepper

variable {s : Stepper} {code : Code} {w : Workspace} {most : Int} {x : Snapshot}

theorem next_limit (s : Stepper) (code : Code) (w : Workspace) :
    (s.next code w).stepper.limit = s.limit := by
  have turned (w : Workspace) (pc steps : Nat) (b : Buffers) :
      (s.advance code w pc steps b).stepper.limit = s.limit := by
    simp only [advance]
    split <;> rfl
  unfold next
  split
  · exact turned _ _ _ _
  · exact turned _ _ _ _
  · rfl

/-- How many states a stepper has left to show under a step limit, at most. The final one counts. -/
def left (s : Stepper) (most : Int) : Nat :=
  match s.stage with
  | .fresh => most.toNat + 1
  | .running _ steps _ => (most - steps).toNat + 1
  | .closed => 0

theorem left_le (s : Stepper) (most : Int) : s.left most ≤ most.toNat + 1 := by
  unfold left
  split <;> omega

/-- Until it is closed a stepper has something to show. -/
theorem left_pos (opened : s.stage ≠ .closed) (most : Int) :
    0 < s.left most := by
  unfold left
  split
  · exact Nat.succ_pos _
  · exact Nat.succ_pos _
  · exact absurd ‹_› opened

theorem left_advance (limit : s.limit = some most) (code : Code) (w : Workspace) (pc steps : Nat)
    (b : Buffers) :
    (s.advance code w pc steps b).stepper.left most < (most - steps).toNat + 1 := by
  simp only [advance]
  split
  · rename_i m c turn
    have next : Buffers.device.next code s.limit (⟨w.tape, pc, steps⟩, b) = .inl (m, c) :=
      Device.next_eq_inl_iff.2 turn
    have further : m.steps = steps + 1 := Buffers.steps_of_next next
    have allowed : (steps : Int) < most := by
      simpa [Machine.limitReached, limit] using (Device.goes_of_next next).allowed
    simp only [left, further]
    omega
  · exact Nat.succ_pos _

/-- With every state that a stepper shows it has one less left to show. -/
theorem left_next (limit : s.limit = some most) (shown : (s.next code w).yield = .ok (some x)) :
    (s.next code w).stepper.left most < s.left most := by
  unfold next at *
  split
  · rename_i stage
    simpa [left, stage] using left_advance limit code {} 0 0 ⟨s.input, []⟩
  · rename_i pc steps b stage
    simpa [left, stage] using left_advance limit code w pc steps b
  · rename_i stage
    simp [stage] at shown

end Stepper

namespace Session

variable {s : Session} {code : Code} {w : Workspace} {most : Int}

/-- The session and its stepper have a step limit. -/
structure Limited (most : Int) (s : Session) : Prop where
  options : s.options.limit = some most
  stepper : s.stepper.limit = some most

theorem limited_restart (h : s.Limited most) : s.restart.Limited most :=
  ⟨h.options, h.options⟩

theorem kept_limited (code : Code) (most : Int) : Kept code (Limited most) where
  unhit _ h := ⟨h.options, h.stepper⟩
  see s w x h := by
    obtain ⟨finished, hit, same⟩ := s.exists_see_eq (s.stepper.next code w).stepper x
    rw [same]
    exact ⟨h.options, (s.stepper.next_limit code w).trans h.stepper⟩
  conclude s w h := ⟨h.options, (s.stepper.next_limit code w).trans h.stepper⟩

/-- A run returns if there is fuel for one round more than the states that are left to show. -/
theorem exists_runOn (h : s.Limited most) (limit : Option Int) {fuel : Nat}
    (fueled : s.stepper.left most < fuel) (w : Workspace) (states : Array Snapshot) :
    ∃ o, runOn code limit fuel w s states = some o := by
  -- A round that shows a state leaves fewer of them to the next one, and every other round returns.
  induction fuel generalizing w s states with
  | zero => exact absurd fueled (Nat.not_lt_zero _)
  | succ fuel ih =>
    by_cases met : Met limit states
    · exact ⟨_, runOn_of_met met⟩
    cases finished : s.finished with
    | true => exact ⟨_, runOn_of_finished met finished⟩
    | false =>
      rcases next : s.stepper.next code w with ⟨e | _ | x, w', stepper⟩
      · exact ⟨_, runOn_of_error met finished next⟩
      · exact ⟨_, runOn_of_done met finished next⟩
      · have shown : (s.stepper.next code w).yield = .ok (some x) := by rw [next]
        have fewer := Stepper.left_next h.stepper shown
        have limited := (kept_limited code most).see s.unhit w x ⟨h.options, h.stepper⟩
        rw [show s.unhit.stepper = s.stepper from rfl, next] at limited
        rw [next] at fewer
        rw [runOn_of_shown met finished next]
        split
        · exact ⟨_, rfl⟩
        · obtain ⟨_, _, same⟩ := s.unhit.exists_see_eq stepper x
          refine ih limited ?_ _ _
          rw [same]
          exact lt_of_lt_of_le fewer (Nat.le_of_lt_succ fueled)

end Session

end ByteTape
