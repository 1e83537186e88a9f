import ByteTape.Proofs.Folding.Canonical
import ByteTape.Proofs.Folding.Targets
import Mathlib.Data.List.Forall2

/-!
# Acceptance before and after folding

The check of the commands and the folding pass meet the same loop ends with the same loops open. A
position in the commands corresponds to the number of instructions that the commands before it fold
to, and with positions translated in this way both forms of a program are refused for the same
boundary.
-/

namespace ByteTape

open Command Instruction

/-- The `i` commands before a position fold to `j` instructions. -/
def FoldsAt (cs : List Command) (i j : Nat) : Prop :=
  i < cs.length ∧ ∃ is, fold? (cs.take i) = .ok is ∧ is.size = j

theorem FoldsAt.append {cs : List Command} {i j : Nat} (h : FoldsAt cs i j) (ds : List Command) :
    FoldsAt (cs ++ ds) i j := by
  obtain ⟨inside, is, fold, size⟩ := h
  refine ⟨?_, is, ?_, size⟩
  · rw [List.length_append]
    omega
  · rwa [List.take_append_of_le_length inside.le]

namespace Folding

theorem fold?_of_run {cs : List Command} {s : Folding} (h : run cs = .ok s) :
    fold? cs = .ok s.output := by
  simp [fold?, h]

theorem foldsAt_length {cs : List Command} {s : Folding} (h : run cs = .ok s) (c : Command) :
    FoldsAt (cs ++ [c]) cs.length s.output.size :=
  ⟨by simp, s.output, by simpa using fold?_of_run h, rfl⟩

theorem step_loopEnd_of_closed {s : Folding} (idle : s.pending = none) (closed : s.opened = []) :
    s.step .loopEnd = .error s := by
  simp [step, feed, closeLoop, flush_of_pending_eq_none idle, closed, Except.map]

/-- A folding pass goes on with every command but a loop end that closes nothing. -/
theorem exists_step {s : Folding} (idle : s.pending = none)
    (layout : Layout s.output.toList s.opened) {c : Command}
    (closable : c = .loopEnd → s.opened ≠ []) : ∃ t, s.step c = .ok t := by
  cases c with
  | motion m => exact ⟨_, rfl⟩
  | output => exact ⟨_, rfl⟩
  | input => exact ⟨_, rfl⟩
  | loopStart => exact ⟨_, rfl⟩
  | loopEnd =>
    obtain ⟨⟨is⟩, pending, opened⟩ := s
    obtain rfl : pending = none := idle
    cases layout with
    | closed => exact absurd rfl (closable rfl)
    | opened before inside => simp [step, feed, closeLoop, flush, Except.map]

/-- One command opens or closes corresponding loops in the check of the commands and in the folding
pass. -/
theorem Advance.forall₂ {R : Nat → Nat → Prop} {c : Command} {is js : List Instruction}
    {opened opened' before after : List Nat} {i : Nat} (step : Advance c is opened js opened')
    (check : Bracket.opens Command.bracket i before [c] = .ok after)
    (matched : List.Forall₂ R before opened) (here : R i is.length) :
    List.Forall₂ R after opened' := by
  cases step with
  | motion | output | input =>
    obtain rfl : before = after := Except.ok.inj check
    exact matched
  | loopStart =>
    obtain rfl : i :: before = after := Except.ok.inj check
    exact .cons here matched
  | loopEnd =>
    cases matched with
    | cons _ outer =>
      obtain rfl := Except.ok.inj check
      exact outer

/-- While the check of the commands goes on, so does the folding pass, with the corresponding loops
open. -/
theorem exists_run_of_opens {cs : List Command} {opened : List Nat}
    (h : Bracket.opens Command.bracket 0 [] cs = .ok opened) :
    ∃ s, run cs = .ok s ∧ List.Forall₂ (FoldsAt cs) opened s.opened := by
  induction cs using List.reverseRecOn generalizing opened with
  | nil =>
    obtain rfl : [] = opened := Except.ok.inj h
    exact ⟨{}, rfl, .nil⟩
  | append_singleton cs c ih =>
    rw [Bracket.opens_append, Nat.zero_add] at h
    obtain ⟨before, ho, check⟩ := bind_eq_ok_iff.1 h
    obtain ⟨s, hs, matched⟩ := ih ho
    have idle := pending_of_run hs
    have closable : c = .loopEnd → s.opened ≠ [] := by
      rintro rfl closed
      rw [closed, List.forall₂_nil_right_iff] at matched
      subst matched
      cases check
    obtain ⟨t, ht⟩ := exists_step idle (layout_of_run hs) closable
    refine ⟨t, by rw [run_concat, hs]; exact ht, ?_⟩
    exact (advance_of_step idle ht).forall₂ check
      (matched.imp fun i j place => place.append [c]) (by simpa using foldsAt_length hs c)

/-- Where the check of the commands finds a loop end that closes nothing, so does the folding
pass. -/
theorem fold?_of_opens_eq_error {cs : List Command} {i : Nat}
    (h : Bracket.opens Command.bracket 0 [] cs = .error i) :
    ∃ j, FoldsAt cs i j ∧ fold? cs = .error j := by
  induction cs using List.reverseRecOn with
  | nil => cases h
  | append_singleton cs c ih =>
    rw [Bracket.opens_append, Nat.zero_add] at h
    cases ho : Bracket.opens Command.bracket 0 [] cs with
    | error k =>
      obtain rfl : k = i := by simpa [ho, Except.bind] using h
      obtain ⟨j, place, failed⟩ := ih ho
      refine ⟨j, place.append [c], ?_⟩
      rw [fold?, run_concat]
      rw [fold?] at failed
      cases hr : run cs with
      | error s => simpa [hr, Except.bind] using failed
      | ok s => simp [hr] at failed
    | ok before =>
      have check : Bracket.opens Command.bracket cs.length before [c] = .error i := by
        simpa [ho, Except.bind] using h
      obtain ⟨s, hs, matched⟩ := exists_run_of_opens ho
      obtain ⟨rfl, rfl, rfl⟩ : c = .loopEnd ∧ before = [] ∧ cs.length = i := by
        cases c <;> cases before <;> simp_all [Bracket.opens, Command.bracket, Command.operation,
          Operation.bracket]
      have closed : s.opened = [] := by simpa using matched
      refine ⟨s.output.size, foldsAt_length hs .loopEnd, ?_⟩
      rw [fold?, run_concat, hs]
      simp [Except.bind, step_loopEnd_of_closed (pending_of_run hs) closed]

/-- Every counted instruction that exists during a folding pass passes the check of its count. -/
theorem counted?_of_feedAll {cs : List Command} {s : Folding} (h : feedAll {} cs = .ok s)
    {m : Motion} {n : Nat} (there : s.pending = some (m, n) ∨ .counted m n ∈ s.output) :
    counted? m n = .ok (.counted m n) := by
  have emitted : .counted m n ∈ s.flush.output.toList := by
    rcases there with growing | done
    · simp [flush, growing]
    · unfold flush
      split <;> simp [done]
  obtain ⟨least, most⟩ := (compact_of_run (run_of_feedAll h)).inRange _ emitted
  rw [counted?, if_pos ⟨by omega, by omega⟩, Int.toNat_natCast]

end Folding

namespace Program

theorem exists_ofCode_iff {c : Code} : (∃ p, ofCode c = .ok p) ↔ c.check = .ok () := by
  constructor
  · rintro ⟨p, h⟩
    exact ofCode_code h ▸ p.accepted
  · intro h
    exact ⟨⟨c, h⟩, ofCode_eq_ok ⟨c, h⟩⟩

theorem ofFolding_of_run {cs : List Command} {s : Folding} (h : Folding.run cs = .ok s) :
    ofFolding cs = ofCode (.folded s.output) := by
  rw [ofFolding, Folding.fold?_of_run h]

/-- A folding is accepted when the check of the commands ends with no loop open. -/
theorem exists_ofFolding_of_opens {cs : List Command}
    (h : Bracket.opens Command.bracket 0 [] cs = .ok []) : ∃ q, ofFolding cs = .ok q := by
  obtain ⟨s, hs, matched⟩ := Folding.exists_run_of_opens h
  have layout := layout_of_run hs
  rw [List.forall₂_nil_left_iff.1 matched] at layout
  rw [ofFolding_of_run hs]
  exact exists_ofCode_iff.2 layout.linked.check

/-- A folding is refused for the start of the innermost loop that the check of the commands finds
left open. -/
theorem ofFolding_eq_missingEnd_of_opens {cs : List Command} {i : Nat} {outer : List Nat}
    (h : Bracket.opens Command.bracket 0 [] cs = .ok (i :: outer)) :
    ∃ j, FoldsAt cs i j ∧ ofFolding cs = .error (.missingEnd j) := by
  obtain ⟨s, hs, matched⟩ := Folding.exists_run_of_opens h
  have layout := layout_of_run hs
  obtain ⟨j, rest, place, -, opened⟩ := List.forall₂_cons_left_iff.1 matched
  rw [opened] at layout
  refine ⟨j, place, ?_⟩
  rw [ofFolding_of_run hs, ofCode_eq_error_iff]
  exact layout.check

/-- A folding is refused for the loop end at which the check of the commands stops. -/
theorem ofFolding_eq_unexpectedEnd_of_opens {cs : List Command} {i : Nat}
    (h : Bracket.opens Command.bracket 0 [] cs = .error i) :
    ∃ j, FoldsAt cs i j ∧ ofFolding cs = .error (.unexpectedEnd j) := by
  obtain ⟨j, place, failed⟩ := Folding.fold?_of_opens_eq_error h
  exact ⟨j, place, by rw [ofFolding, failed]⟩

theorem exists_ofCommands_iff {cs : List Command} :
    (∃ p, ofCommands cs = .ok p) ↔ Bracket.opens Command.bracket 0 [] cs = .ok [] := by
  rw [ofCommands, exists_ofCode_iff, Code.check, Bracket.check_eq_ok_iff]

theorem ofCommands_eq_missingEnd_iff {cs : List Command} {i : Nat} :
    ofCommands cs = .error (.missingEnd i) ↔
      ∃ outer, Bracket.opens Command.bracket 0 [] cs = .ok (i :: outer) := by
  rw [ofCommands, ofCode_eq_error_iff, Code.check, Bracket.check_eq_missingEnd_iff]

theorem ofCommands_eq_unexpectedEnd_iff {cs : List Command} {i : Nat} :
    ofCommands cs = .error (.unexpectedEnd i) ↔
      Bracket.opens Command.bracket 0 [] cs = .error i := by
  rw [ofCommands, ofCode_eq_error_iff, Code.check, Bracket.check_eq_unexpectedEnd_iff]

/-- What becomes of commands and of their folding. -/
theorem ofFolding_cases (cs : List Command) :
    ((∃ p, ofCommands cs = .ok p) ∧ ∃ q, ofFolding cs = .ok q) ∨
    (∃ i j, FoldsAt cs i j ∧ ofCommands cs = .error (.missingEnd i) ∧
      ofFolding cs = .error (.missingEnd j)) ∨
    ∃ i j, FoldsAt cs i j ∧ ofCommands cs = .error (.unexpectedEnd i) ∧
      ofFolding cs = .error (.unexpectedEnd j) := by
  rcases ho : Bracket.opens Command.bracket 0 [] cs with i | _ | ⟨i, outer⟩
  · obtain ⟨j, place, blamed⟩ := ofFolding_eq_unexpectedEnd_of_opens ho
    exact .inr (.inr ⟨i, j, place, ofCommands_eq_unexpectedEnd_iff.2 ho, blamed⟩)
  · exact .inl ⟨exists_ofCommands_iff.2 ho, exists_ofFolding_of_opens ho⟩
  · obtain ⟨j, place, blamed⟩ := ofFolding_eq_missingEnd_of_opens ho
    exact .inr (.inl ⟨i, j, place, ofCommands_eq_missingEnd_iff.2 ⟨outer, ho⟩, blamed⟩)

/-- Commands and their folding are accepted together, and refused for the same boundary: the index
to blame in the folding is the number of instructions that the commands before the boundary fold to.
No folding is refused for its jump targets, and no count that a folding pass writes down is out of
range. -/
theorem ofFolding_agrees_with_ofCommands (cs : List Command) :
    (∀ p, ofCommands cs = .ok p → ∃ q, ofFolding cs = .ok q) ∧
    (∀ i, ofCommands cs = .error (.unexpectedEnd i) →
      ∃ is, fold? (cs.take i) = .ok is ∧ ofFolding cs = .error (.unexpectedEnd is.size)) ∧
    (∀ i, ofCommands cs = .error (.missingEnd i) →
      ∃ is, fold? (cs.take i) = .ok is ∧ ofFolding cs = .error (.missingEnd is.size)) ∧
    ((∃ p, ofCommands cs = .ok p) ↔ ∃ q, ofFolding cs = .ok q) ∧
    (∀ i target, ofFolding cs ≠ .error (.mismatchedTarget i target)) ∧
    ∀ n s m k, Folding.feedAll {} (cs.take n) = .ok s →
      s.pending = some (m, k) ∨ .counted m k ∈ s.output → counted? m k = .ok (.counted m k) := by
  have counts n s m k (h : Folding.feedAll {} (cs.take n) = .ok s) :=
    Folding.counted?_of_feedAll h (m := m) (n := k)
  rcases ofFolding_cases cs with ⟨⟨p, hp⟩, q, hq⟩ |
    ⟨i, _, ⟨-, is, fold, rfl⟩, hp, hq⟩ | ⟨i, _, ⟨-, is, fold, rfl⟩, hp, hq⟩
  · refine ⟨fun _ _ => ⟨q, hq⟩, ?_, ?_, iff_of_true ⟨p, hp⟩ ⟨q, hq⟩, ?_, counts⟩ <;> simp [hp, hq]
  · refine ⟨by simp [hp], by simp [hp], ?_, by simp [hp, hq], by simp [hq], counts⟩
    intro k hk
    obtain rfl : i = k := by simpa [hp] using hk
    exact ⟨is, fold, hq⟩
  · refine ⟨by simp [hp], ?_, by simp [hp], by simp [hp, hq], by simp [hq], counts⟩
    intro k hk
    obtain rfl : i = k := by simpa [hp] using hk
    exact ⟨is, fold, hq⟩

/-- In `>[+]-+]` the loop end to blame has index 6, and index 4 once the commands are folded. -/
theorem ofFolding_agrees_after_cancellation :
    let cs : List Command := [.motion .right, .loopStart, .motion .increment, .loopEnd,
      .motion .decrement, .motion .increment, .loopEnd]
    ofCommands cs = .error (.unexpectedEnd 6) ∧
      ∃ is, fold? (cs.take 6) = .ok is ∧ ofFolding cs = .error (.unexpectedEnd is.size) :=
  ⟨by rfl, (ofFolding_agrees_with_ofCommands _).2.1 6 (by rfl)⟩

end Program

end ByteTape
