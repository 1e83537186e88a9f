import ByteTape.Proofs.Partner

/-!
# Accepted code is paired

Every loop boundary of a program has a partner, which stands inside the code and has that boundary
for its own partner. In commands this is what balance gives the two scans. In instructions it is
what the check of the targets says, whether or not the boundaries that name each other are the ones
that match.
-/

namespace ByteTape

namespace Code

/-- Every loop boundary has a partner that has it for its own. -/
structure Paired (c : Code) : Prop where
  stop : ∀ i, c.operation? i = some (.boundary .opening) → ∃ j, c.Pairs i j
  start : ∀ j, c.operation? j = some (.boundary .closing) → ∃ i, c.Pairs i j

/-- The boundaries of a held block are paired. -/
theorem Holds.paired {c : Code} {i j : Nat} {b : Block} (h : c.Holds i b j) {k : Nat}
    (least : i ≤ k) (most : k < j) :
    (c.operation? k = some (.boundary .opening) → ∃ l, c.Pairs k l) ∧
      (c.operation? k = some (.boundary .closing) → ∃ l, c.Pairs l k) := by
  induction h with
  | nil => omega
  | @act i j a rest here after ih =>
    rcases least.eq_or_lt with rfl | later
    · rw [here]
      cases a <;> simp [Action.operation]
    · exact ih later most
  | @loop i j l body rest pairs inside after ihBody ih =>
    rcases least.eq_or_lt with rfl | later
    · exact ⟨fun _ => ⟨j, pairs⟩, fun closing => by simp [pairs.opening] at closing⟩
    · rcases Nat.lt_trichotomy k j with before | rfl | behind
      · exact ihBody later before
      · exact ⟨fun opening => by simp [pairs.closing] at opening, fun _ => ⟨i, pairs⟩⟩
      · exact ih behind most

/-- Code that holds a block as a whole is paired. -/
theorem Holds.paired_whole {c : Code} {b : Block} (h : c.Holds 0 b c.size) : c.Paired where
  stop i opening := (h.paired i.zero_le (lt_size_of_operation? opening)).1 opening
  start j closing := (h.paired j.zero_le (lt_size_of_operation? closing)).2 closing

theorem paired_raw {cs : Array Command} (h : (raw cs).check = .ok ()) : (raw cs).Paired := by
  have opens : Bracket.opens Operation.bracket 0 [] (cs.toList.map Command.operation) = .ok [] := by
    rw [Bracket.opens_map]
    exact Bracket.check_eq_ok_iff.1 h
  obtain ⟨b, hb⟩ := Block.exists_operations_iff.2 opens
  have held := holds_raw hb
  rw [Array.toArray_toList] at held
  exact held.paired_whole

end Code

namespace Instruction

variable {is : Array Instruction} {i : Nat}

/-- A loop start that passes the check names a loop end that names it. -/
theorem exists_stop_of_targetAgrees {stop : Option Int}
    (h : (loopStart stop).targetAgrees is i = true) :
    ∃ j : Nat, stop = some (j : Int) ∧ is[j]? = some (loopEnd (i : Int)) := by
  cases stop with
  | none => cases h
  | some target =>
    simp only [targetAgrees, Option.any_some, Bool.and_eq_true, decide_eq_true_eq, beq_iff_eq] at h
    obtain ⟨j, rfl⟩ := Int.eq_ofNat_of_zero_le h.1
    exact ⟨j, rfl, h.2⟩

/-- A loop end that passes the check names a loop start that names it. -/
theorem exists_start_of_targetAgrees {start : Int} (h : (loopEnd start).targetAgrees is i = true) :
    ∃ j : Nat, start = (j : Int) ∧ is[j]? = some (loopStart (some (i : Int))) := by
  simp only [targetAgrees, Bool.and_eq_true, decide_eq_true_eq, beq_iff_eq] at h
  obtain ⟨j, rfl⟩ := Int.eq_ofNat_of_zero_le h.1
  exact ⟨j, rfl, h.2⟩

/-- The target that a boundary names is the index of its partner, not only rounded up to it. -/
theorem exists_target {x : Instruction} {side : Bracket} (boundary : x.bracket = some side)
    (h : x.targetAgrees is i = true) :
    ∃ j : Nat, x.target? = some (j : Int) := by
  cases x with
  | loopStart stop =>
    obtain ⟨j, rfl, -⟩ := exists_stop_of_targetAgrees h
    exact ⟨j, rfl⟩
  | loopEnd start =>
    obtain ⟨j, rfl, -⟩ := exists_start_of_targetAgrees h
    exact ⟨j, rfl⟩
  | _ => cases boundary

end Instruction

namespace Code

variable {is : Array Instruction}

theorem targetAgrees_of_check (h : (folded is).check = .ok ()) {i : Nat} {x : Instruction}
    (hx : is[i]? = some x) : x.targetAgrees is i = true := by
  have targets : Instruction.checkTargets is = .ok () := by
    simp only [check, bind, Except.bind] at h
    split at h
    · cases h
    · exact h
  have all := along_iff.1 (Instruction.checkTargets_eq_ok_iff.1 targets) i x (by simpa using hx)
  simpa using all

theorem paired_folded (h : (folded is).check = .ok ()) : (folded is).Paired where
  stop i opening := by
    obtain ⟨x, hx, side⟩ := Option.map_eq_some_iff.1 opening
    cases x with
    | loopStart stop =>
      obtain ⟨j, rfl, found⟩ :=
        Instruction.exists_stop_of_targetAgrees (targetAgrees_of_check h hx)
      exact ⟨j, pairs_folded hx found⟩
    | _ => cases side
  start j closing := by
    obtain ⟨x, hx, side⟩ := Option.map_eq_some_iff.1 closing
    cases x with
    | loopEnd start =>
      obtain ⟨i, rfl, found⟩ :=
        Instruction.exists_start_of_targetAgrees (targetAgrees_of_check h hx)
      exact ⟨i, pairs_folded found hx⟩
    | _ => cases side

/-- In accepted instructions the partner is found just where the boundary says. -/
theorem target?_of_partner (h : (folded is).check = .ok ()) {i j : Nat} {side : Bracket}
    (here : (folded is).operation? i = some (.boundary side))
    (partner : (folded is).partner i side = .ok j) :
    is[i]?.bind Instruction.target? = some (j : Int) := by
  obtain ⟨x, hx, operation⟩ := Option.map_eq_some_iff.1 here
  have boundary : x.bracket = some side := by
    simp [Instruction.bracket, operation, Operation.bracket]
  obtain ⟨l, hl⟩ := Instruction.exists_target boundary (targetAgrees_of_check h hx)
  have found : is[i]?.bind Instruction.target? = some (l : Int) := by simp [hx, hl]
  simp only [Code.partner, found, Option.elim_some, Int.toNat_natCast] at partner
  rw [found, Except.ok.inj partner]

end Code

/-- The boundaries of a program are paired, in either form of its code. -/
theorem Program.paired (p : Program) : p.code.Paired := by
  obtain ⟨code, accepted⟩ := p
  cases code with
  | raw cs => exact Code.paired_raw accepted
  | folded is => exact Code.paired_folded accepted

end ByteTape
