import ByteTape.Proofs.Matching
import ByteTape.Proofs.Partner

/-!
# Instructions with matched targets

Instructions written by hand need not be folded, but their loop boundaries may still name each other
as the nesting has it. Then both checks accept them, and as code they hold the block that they spell
out.
-/

namespace ByteTape

namespace Instruction

/-- Every loop boundary names the index of the one that it matches. -/
structure TargetsMatch (is : Array Instruction) : Prop where
  stop : ∀ (i : Nat) (stop : Option Int), is[i]? = some (.loopStart stop) →
    ∃ j : Nat, stop = some (j : Int) ∧ Bracket.Matches bracket is.toList i j
  start : ∀ (j : Nat) (start : Int), is[j]? = some (.loopEnd start) →
    ∃ i : Nat, start = (i : Int) ∧ Bracket.Matches bracket is.toList i j

variable {is : Array Instruction}

theorem exists_loopStart {i : Nat} (h : is.toList[i]?.bind bracket = some .opening) :
    ∃ stop, is[i]? = some (.loopStart stop) := by
  rw [Array.getElem?_toList] at h
  obtain ⟨x, hx, side⟩ := Option.bind_eq_some_iff.1 h
  cases x with
  | loopStart stop => exact ⟨stop, hx⟩
  | _ => cases side

theorem exists_loopEnd {j : Nat} (h : is.toList[j]?.bind bracket = some .closing) :
    ∃ start, is[j]? = some (.loopEnd start) := by
  rw [Array.getElem?_toList] at h
  obtain ⟨x, hx, side⟩ := Option.bind_eq_some_iff.1 h
  cases x with
  | loopEnd start => exact ⟨start, hx⟩
  | _ => cases side

namespace TargetsMatch

/-- Boundaries that match name each other. -/
theorem targets (h : TargetsMatch is) {i j : Nat} (loop : Bracket.Matches bracket is.toList i j) :
    is[i]? = some (.loopStart (some (j : Int))) ∧ is[j]? = some (.loopEnd (i : Int)) := by
  obtain ⟨stop, opening⟩ := exists_loopStart loop.opening
  obtain ⟨start, closing⟩ := exists_loopEnd loop.closing
  obtain ⟨j', rfl, loop'⟩ := h.stop i stop opening
  obtain ⟨i', rfl, loop''⟩ := h.start j start closing
  obtain rfl := loop.right_unique loop'
  obtain rfl := loop.left_unique loop''
  exact ⟨opening, closing⟩

theorem balanced (h : TargetsMatch is) : Bracket.Balanced bracket is.toList := by
  refine Bracket.balanced_of_matches ?_ ?_
  · intro i opening
    obtain ⟨stop, found⟩ := exists_loopStart opening
    obtain ⟨j, -, loop⟩ := h.stop i stop found
    exact ⟨j, loop⟩
  · intro j closing
    obtain ⟨start, found⟩ := exists_loopEnd closing
    obtain ⟨i, -, loop⟩ := h.start j start found
    exact ⟨i, loop⟩

theorem targetAgrees (h : TargetsMatch is) {i : Nat} {x : Instruction} (hx : is[i]? = some x) :
    x.targetAgrees is i = true := by
  cases x with
  | loopStart stop =>
    obtain ⟨j, rfl, loop⟩ := h.stop i stop hx
    exact targetAgrees_loopStart (h.targets loop).2
  | loopEnd start =>
    obtain ⟨j, rfl, loop⟩ := h.start i start hx
    exact targetAgrees_loopEnd (h.targets loop).1
  | counted | output | input => rfl

/-- Instructions with matched targets pass both checks. -/
theorem check (h : TargetsMatch is) : (Code.folded is).check = .ok () := by
  have nested : Bracket.check bracket is.toList = .ok () :=
    Bracket.check_eq_ok_iff.2 (Bracket.balanced_iff.1 h.balanced)
  have agree : checkTargets is = .ok () := by
    refine checkTargets_eq_ok_iff.2 (along_iff.2 ?_)
    intro i x hx
    rw [Nat.zero_add]
    exact h.targetAgrees (by simpa using hx)
  simp [Code.check, nested, agree, bind, Except.bind]

end TargetsMatch

end Instruction

namespace Code

open Instruction

variable {is : Array Instruction}

theorem has_folded (is : Array Instruction) :
    (folded is).Has 0 (is.toList.map Instruction.operation) :=
  along_iff.2 fun k op h => by simpa [operation?] using h

/-- The part of the instructions that asks for given operations. -/
theorem Has.map_part {ops : List Operation} {i : Nat} (h : (folded is).Has i ops) :
    ((is.toList.take (i + ops.length)).drop i).map Instruction.operation = ops := by
  refine List.ext_getElem? fun k => ?_
  rw [List.getElem?_map, List.getElem?_drop, List.getElem?_take]
  split
  · next lt =>
    have found := along_iff.1 h k ops[k] (List.getElem?_eq_getElem (by omega))
    simpa [operation?, List.getElem?_eq_getElem (show k < ops.length by omega)] using found
  · next out =>
    rw [List.getElem?_eq_none (show ops.length ≤ k by omega), Option.map_none]

/-- The boundaries around a block match. -/
theorem Has.matches {body : Block} {i : Nat}
    (start : (folded is).operation? i = some (.boundary .opening))
    (inside : (folded is).Has (i + 1) body.operations)
    (stop : (folded is).operation? (i + 1 + body.operations.length) = some (.boundary .closing)) :
    Bracket.Matches bracket is.toList i (i + 1 + body.operations.length) := by
  have side {k : Nat} {s : Bracket} (h : (folded is).operation? k = some (.boundary s)) :
      is.toList[k]?.bind bracket = some s := by
    obtain ⟨x, hx, same⟩ := Option.map_eq_some_iff.1 h
    simp [hx, bracket, same, Operation.bracket]
  refine ⟨by omega, side start, side stop, ?_⟩
  have passes := body.opens_operations 0 []
  rw [← inside.map_part, Bracket.opens_map] at passes
  exact Bracket.balanced_iff.2 passes

/-- Instructions with matched targets hold the block that they spell out. -/
theorem holds_of_targetsMatch (h : TargetsMatch is) {b : Block}
    (hb : b.operations = is.toList.map Instruction.operation) :
    (folded is).Holds 0 b (folded is).size := by
  have has : (folded is).Has 0 b.operations := hb ▸ has_folded is
  have held := has.holds fun i body start inside stop =>
    have loop := h.targets (Has.matches start inside stop)
    pairs_folded loop.1 loop.2
  simpa [hb, size] using held

end Code

end ByteTape
