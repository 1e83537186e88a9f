import ByteTape.Proofs.Folding.Step
import Mathlib.Data.List.Chain

/-!
# Compact instructions

No two neighbours of a folded list could be merged: runs on one axis stand side by side only with
the same motion, and then the first of them is full. In such a list a motion is undone by the
opposite one, however full or empty the runs at the end are.
-/

namespace ByteTape

namespace Instruction

/-- Neighbours that cannot be merged. -/
def Settled : Instruction → Instruction → Prop
  | counted k n, counted m _ => m.sameAxis k → k = m ∧ n = m.limit
  | _, _ => True

@[simp] theorem settled_counted {k m : Motion} {n l : Nat} :
    Settled (counted k n) (counted m l) ↔ (m.sameAxis k → k = m ∧ n = m.limit) := Iff.rfl
@[simp] theorem settled_output (x : Instruction) : Settled x output := by cases x <;> trivial
@[simp] theorem settled_input (x : Instruction) : Settled x input := by cases x <;> trivial
@[simp] theorem settled_loopStart (x : Instruction) (stop : Option Int) :
    Settled x (loopStart stop) := by cases x <;> trivial
@[simp] theorem settled_loopEnd (x : Instruction) (start : Int) :
    Settled x (loopEnd start) := by cases x <;> trivial
@[simp] theorem loopStart_settled (stop : Option Int) (x : Instruction) :
    Settled (loopStart stop) x := trivial

/-- Whether a run can follow depends on its motion only. -/
theorem Settled.recount {x : Instruction} {m : Motion} {n : Nat} (h : Settled x (counted m n))
    (l : Nat) : Settled x (counted m l) := by
  cases x with
  | counted k n => exact h
  | _ => trivial

/-- Counts in range and no neighbours that could be merged. -/
structure Compact (is : List Instruction) : Prop where
  inRange : ∀ x ∈ is, x.InRange
  settled : is.IsChain Settled

theorem compact_nil : Compact [] := ⟨by simp, .nil⟩

theorem Compact.of_append {is js : List Instruction} (h : Compact (is ++ js)) : Compact is :=
  ⟨fun x hx => h.inRange x (List.mem_append_left js hx), h.settled.left_of_append⟩

theorem Compact.concat {is : List Instruction} {x : Instruction} (h : Compact is)
    (range : x.InRange) (last : ∀ y ∈ is.getLast?, Settled y x) : Compact (is ++ [x]) := by
  refine ⟨?_, h.settled.append (.singleton x) (by simpa using last)⟩
  intro y hy
  rcases List.mem_append.1 hy with hy | hy
  · exact h.inRange y hy
  · exact List.mem_singleton.1 hy ▸ range

theorem Compact.getLast? {is : List Instruction} {x : Instruction} (h : Compact (is ++ [x])) :
    ∀ y ∈ is.getLast?, Settled y x := by
  simpa using (List.isChain_append.1 h.settled).2.2

/-- The count of the last run may become another one in range. -/
theorem Compact.recount {is : List Instruction} {m : Motion} {n l : Nat}
    (h : Compact (is ++ [counted m n])) (range : (counted m l).InRange) :
    Compact (is ++ [counted m l]) :=
  h.of_append.concat range fun y hy => (h.getLast? y hy).recount l

/-- The count of the last run is in range. -/
theorem Compact.inRange_last {is : List Instruction} {x : Instruction} (h : Compact (is ++ [x])) :
    x.InRange :=
  h.inRange x (by simp)

/-- A motion keeps instructions compact. -/
theorem Compact.extends {m : Motion} {is js : List Instruction} (h : Compact is)
    (change : m.Extends is js) : Compact js := by
  cases change with
  | grow is room => exact h.recount ⟨by omega, room⟩
  | shrink is several =>
    obtain ⟨-, most⟩ := h.inRange_last
    exact h.recount ⟨by omega, by omega⟩
  | vanish is single => exact h.of_append
  | start is full free =>
    refine h.concat ⟨le_rfl, m.limit_pos⟩ ?_
    intro y hy
    cases y with
    | counted k n =>
      rw [settled_counted]
      rintro (rfl | rfl)
      · have most := (h.inRange _ (List.mem_of_getLast? hy)).2
        exact ⟨rfl, le_antisymm most (full n hy)⟩
      · exact absurd hy (free n)
    | _ => trivial

/-- Resolving a loop keeps instructions compact. -/
theorem Compact.loop {is js : List Instruction} (h : Compact (is ++ .loopStart none :: js))
    (stop start : Int) : Compact (is ++ .loopStart (some stop) :: js ++ [.loopEnd start]) := by
  obtain ⟨range, settled⟩ := h
  rw [List.isChain_append, List.isChain_cons] at settled
  obtain ⟨first, ⟨-, second⟩, -⟩ := settled
  refine Compact.concat ⟨?_, ?_⟩ trivial (by simp)
  · intro x hx
    rw [List.mem_append, List.mem_cons] at hx
    rcases hx with hx | rfl | hx
    · exact range x (by simp [hx])
    · trivial
    · exact range x (by simp [hx])
  · exact first.append (second.cons (by simp)) (by simp)

/-- Every command of a folding pass keeps instructions compact. -/
theorem Compact.advance {c : Command} {is js : List Instruction} {opened opened' : List Nat}
    (h : Compact is) (step : Folding.Advance c is opened js opened') : Compact js := by
  cases step with
  | motion change => exact h.extends change
  | output | input | loopStart => exact h.concat trivial (by simp)
  | loopEnd is js => exact h.loop _ _

theorem compact_of_run {cs : List Command} {s : Folding} (h : Folding.run cs = .ok s) :
    Compact s.output.toList :=
  Folding.run_induction (P := fun _ is _ => Compact is) compact_nil
    (fun _ _ _ _ _ _ compact step => compact.advance step) h

end Instruction

open Instruction

/-- A motion has one effect on instructions. -/
theorem Motion.Extends.unique {m : Motion} {is js ks : List Instruction} (h : m.Extends is js)
    (h' : m.Extends is ks) : js = ks := by
  have differ : m ≠ m.opposite := m.opposite_ne.symm
  generalize hxs : is = xs at h'
  cases h <;> cases h' <;> grind [List.append_inj', List.getLast?_append]

/-- After compact instructions the opposite motion undoes a motion. -/
theorem Instruction.Compact.extends_opposite {m : Motion} {is js ks : List Instruction}
    (h : Compact is) (there : m.Extends is js) (back : m.opposite.Extends js ks) : ks = is := by
  suffices undone : m.opposite.Extends js is from back.unique undone
  cases there with
  | @grow is n room =>
    obtain ⟨least, -⟩ := h.inRange_last
    simpa using Motion.Extends.shrink (m := m.opposite) is (n := n + 1) (by omega)
  | @shrink is n several =>
    obtain ⟨-, most⟩ := h.inRange_last
    have refill : n - 1 + 1 = n := by omega
    simpa [refill] using Motion.Extends.grow (m := m.opposite) is (n := n - 1) (by omega)
  | @vanish _ n single =>
    obtain ⟨least, -⟩ := h.inRange_last
    obtain rfl : n = 1 := by omega
    refine .start js (fun n hn => ?_) (fun n hn => ?_)
    · exact ((settled_counted.1 (h.getLast? _ hn)) (.inl rfl)).2.ge
    · obtain ⟨same, -⟩ := settled_counted.1 (h.getLast? _ hn) (.inr rfl)
      exact absurd same (Motion.opposite_ne _)
  | start is full free =>
    simpa using Motion.Extends.vanish (m := m.opposite) is (n := 1) le_rfl

end ByteTape
