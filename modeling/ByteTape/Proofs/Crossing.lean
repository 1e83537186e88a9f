import ByteTape.Proofs.Closing
import ByteTape.Proofs.Folding.Acceptance
import ByteTape.Proofs.MatchedTargets
import ByteTape.Proofs.Paired

/-!
# Targets and nesting

Of the two checks that accept instructions, one counts loop boundaries and knows no targets, and the
other compares targets and knows no nesting. Together they pair starts with ends, one to one, which
need not be the pairs that nest: loops may cross, and a loop start may name an end before it. Where
neither happens, the targets are the nesting.
-/

namespace ByteTape

namespace Instruction

/-- The loop start at `i` names the entry at `j`. -/
def Names (is : Array Instruction) (i j : Nat) : Prop :=
  is[i]? = some (.loopStart (some (j : Int)))

variable {is : Array Instruction} {i j : Nat}

/-- In accepted instructions a boundary is named by the boundary that it names. -/
theorem names_iff_of_check (h : (Code.folded is).check = .ok ()) :
    Names is i j ↔ is[j]? = some (.loopEnd (i : Int)) := by
  constructor
  · intro names
    obtain ⟨j', same, found⟩ := exists_stop_of_targetAgrees (Code.targetAgrees_of_check h names)
    obtain rfl : j = j' := Int.ofNat.inj (Option.some.inj same)
    exact found
  · intro named
    obtain ⟨i', same, found⟩ := exists_start_of_targetAgrees (Code.targetAgrees_of_check h named)
    obtain rfl : i = i' := Int.ofNat.inj same
    exact found

theorem exists_names_of_loopStart (h : (Code.folded is).check = .ok ()) {stop : Option Int}
    (hi : is[i]? = some (.loopStart stop)) : ∃ j : Nat, stop = some (j : Int) ∧ Names is i j := by
  obtain ⟨j, rfl, -⟩ := exists_stop_of_targetAgrees (Code.targetAgrees_of_check h hi)
  exact ⟨j, rfl, hi⟩

theorem exists_names_of_loopEnd (h : (Code.folded is).check = .ok ()) {start : Int}
    (hj : is[j]? = some (.loopEnd start)) : ∃ i : Nat, start = (i : Int) ∧ Names is i j := by
  obtain ⟨i, rfl, found⟩ := exists_start_of_targetAgrees (Code.targetAgrees_of_check h hj)
  exact ⟨i, rfl, found⟩

theorem balanced_of_check (h : (Code.folded is).check = .ok ()) :
    Bracket.Balanced bracket is.toList := by
  refine Bracket.balanced_iff.2 (Bracket.check_eq_ok_iff.1 ?_)
  simp only [Code.check, bind, Except.bind] at h
  split at h
  · cases h
  · assumption

/-- The targets of accepted instructions pair starts with ends. -/
theorem pairing_of_check (h : (Code.folded is).check = .ok ()) :
    Bracket.Pairing bracket is.toList (Names is) where
  opening names := by
    rw [Array.getElem?_toList, names]
    rfl
  closing names := by
    rw [Array.getElem?_toList, (names_iff_of_check h).1 names]
    rfl
  stop i opening := by
    obtain ⟨stop, found⟩ := exists_loopStart opening
    obtain ⟨j, -, names⟩ := exists_names_of_loopStart h found
    exact ⟨j, names⟩
  start j closing := by
    obtain ⟨start, found⟩ := exists_loopEnd closing
    obtain ⟨i, -, names⟩ := exists_names_of_loopEnd h found
    exact ⟨i, names⟩
  right_unique names names' := by
    have same := Option.some.inj (names.symm.trans names')
    exact Int.ofNat.inj (Option.some.inj (Instruction.loopStart.inj same))
  left_unique names names' := by
    have back := (names_iff_of_check h).1 names
    have back' := (names_iff_of_check h).1 names'
    have same := Option.some.inj (back.symm.trans back')
    exact Int.ofNat.inj (Instruction.loopEnd.inj same)

end Instruction

/-- The targets of accepted instructions pair the loop starts with the loop ends: every boundary
names the index of one of the other side that names it back. For every start this is the end that
closes it in the nesting of the loops exactly when every start names a later end and no loop begins
inside of another one and ends outside of it. -/
theorem Program.targets_close_iff_uncrossed {is : Array Instruction} {p : Program}
    (h : ofCode (.folded is) = .ok p) :
    (∀ (i : Nat) (stop : Option Int), is[i]? = some (.loopStart stop) →
      ∃ j : Nat, stop = some (j : Int) ∧ is[j]? = some (.loopEnd (i : Int))) ∧
    (∀ (j : Nat) (start : Int), is[j]? = some (.loopEnd start) →
      ∃ i : Nat, start = (i : Int) ∧ is[i]? = some (.loopStart (some (j : Int)))) ∧
    ((∀ i j : Nat, is[i]? = some (.loopStart (some (j : Int))) →
        Bracket.Closes Instruction.bracket is.toList i j) ↔
      ∀ i j : Nat, is[i]? = some (.loopStart (some (j : Int))) → i < j ∧
        ∀ k l : Nat, is[k]? = some (.loopStart (some (l : Int))) → ¬ (i < k ∧ k < j ∧ j < l)) := by
  have accepted : (Code.folded is).check = .ok () := ofCode_code h ▸ p.accepted
  have balanced := Instruction.balanced_of_check accepted
  have pairing := Instruction.pairing_of_check accepted
  refine ⟨?_, ?_, ?_⟩
  · intro i stop found
    obtain ⟨j, same, names⟩ := Instruction.exists_names_of_loopStart accepted found
    exact ⟨j, same, (Instruction.names_iff_of_check accepted).1 names⟩
  · intro j start found
    exact Instruction.exists_names_of_loopEnd accepted found
  · constructor
    · intro closes
      have uncrossed := pairing.forall_matches_iff.1 fun i j names => (closes i j names).matches
      intro i j names
      exact ⟨uncrossed.forward names, fun k l names' => uncrossed.apart names names'⟩
    · intro free i j names
      have uncrossed : Bracket.Uncrossed (Instruction.Names is) :=
        ⟨fun names => (free _ _ names).1, fun names names' => (free _ _ names).2 _ _ names'⟩
      exact (Bracket.closes_iff_matches balanced).2
        (pairing.forall_matches_iff.2 uncrossed i j names)

/-- Of the loops that `[[+]]` has by its targets here, none begins inside of the other one and ends
outside, so the targets are the nesting. -/
theorem Program.targets_close_in_nested_loops :
    let is : Array Instruction := #[.loopStart (some 4), .loopStart (some 3),
      .counted .increment 1, .loopEnd 1, .loopEnd 0]
    ∃ p, ofCode (.folded is) = .ok p ∧ Bracket.Closes Instruction.bracket is.toList 0 4 := by
  intro is
  obtain ⟨p, hp⟩ : ∃ p, ofCode (.folded is) = .ok p := exists_ofCode_iff.2 rfl
  refine ⟨p, hp, (targets_close_iff_uncrossed hp).2.2.2 ?_ 0 4 rfl⟩
  have starts (i j : Nat) (names : is[i]? = some (.loopStart (some (j : Int)))) :
      i = 0 ∧ j = 4 ∨ i = 1 ∧ j = 3 := by
    rcases i with _ | _ | _ | _ | _ | i <;> simp [is] at names
    · omega
    · omega
  intro i j names
  have outer := starts i j names
  refine ⟨by omega, fun k l names' => ?_⟩
  have inner := starts k l names'
  omega

/-- In accepted instructions a loop start may name an end that does not close it, and even one
before it: the two loops here, one after the other by nesting, name the ends of each other. -/
theorem Program.exists_target_that_does_not_close :
    let is : Array Instruction :=
      #[.loopStart (some 3), .loopEnd 2, .loopStart (some 1), .loopEnd 0]
    ∃ p, ofCode (.folded is) = .ok p ∧
      (is[0]? = some (.loopStart (some 3)) ∧ Bracket.Closes Instruction.bracket is.toList 0 1 ∧
        ¬ Bracket.Closes Instruction.bracket is.toList 0 3) ∧
      is[2]? = some (.loopStart (some 1)) ∧ Bracket.Closes Instruction.bracket is.toList 2 3 ∧
        ¬ Bracket.Closes Instruction.bracket is.toList 2 1 := by
  intro is
  obtain ⟨p, hp⟩ : ∃ p, ofCode (.folded is) = .ok p := exists_ofCode_iff.2 rfl
  refine ⟨p, hp, ⟨rfl, ⟨rfl, [], rfl⟩, ?_⟩, rfl, ⟨rfl, [], rfl⟩, ?_⟩
  · rintro ⟨-, outer, reached⟩
    cases reached
  · rintro ⟨-, outer, reached⟩
    cases reached

end ByteTape
