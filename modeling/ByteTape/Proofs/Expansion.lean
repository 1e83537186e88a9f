import Mathlib.Algebra.Order.Ring.Int
import ByteTape.Proofs.Budget
import ByteTape.Proofs.MatchedTargets
import ByteTape.Proofs.Unrolling

/-!
# Counted instructions mean their expansion

Instructions whose boundaries match run exactly as the commands that they stand for, whether or not
a folding pass has made them. Both come to the same strip, not only to the same cells of it, and a
repeated motion takes as many steps of the commands as it has repetitions.
-/

namespace ByteTape

open Instruction

variable {σ : Type}

namespace Block

/-- Writing out repetitions goes part by part. -/
theorem unroll_append (b c : Block) : (b.append c).unroll = b.unroll.append c.unroll := by
  induction b with
  | nil => rfl
  | act a rest ih => cases a <;> simp [append, unroll, ih]
  | loop body rest _ ih => simp [append, unroll, ih]

end Block

namespace Walk

/-- The walk with every repeated motion written out. -/
def unroll (w : Walk σ) : Walk σ := { w with block := w.block.unroll }

/-- Single motions are carried out one by one. -/
theorem after_motions (d : Device σ) (ms : List Motion) (b : Block) (s : Strip) (x : σ) :
    after d.walk ms.length ⟨.motions ms b, s, x⟩ = .inl ⟨b, s.moves ms, x⟩ := by
  induction ms generalizing s with
  | nil => rfl
  | cons m ms ih => exact ih (s.move 1 m)

/-- One step of a walk is as many steps of the unrolled one as its operation has repetitions. -/
theorem exists_operation_of_walk {d : Device σ} {w v : Walk σ} (h : d.walk w = .inl v) :
    ∃ op, w.operation? = some op ∧ after d.walk op.repetitions w.unroll = .inl v.unroll := by
  cases goes_of_walk h with
  | @motion m n rest s x =>
    have moved := after_motions d (List.replicate n m) rest.unroll s x
    rw [List.length_replicate, Strip.moves_replicate] at moved
    exact ⟨.motion m n, rfl, moved⟩
  | taken answer =>
    exact ⟨.output, rfl, after_one_of_inl (by simp [Device.walk, unroll, Block.unroll, answer])⟩
  | refused answer =>
    exact ⟨.output, rfl, after_one_of_inl (by simp [Device.walk, unroll, Block.unroll, answer])⟩
  | received answer =>
    exact ⟨.input, rfl, after_one_of_inl (by simp [Device.walk, unroll, Block.unroll, answer])⟩
  | passed zero =>
    exact ⟨.boundary .opening, rfl,
      after_one_of_inl (by simp [Device.walk, unroll, Block.unroll, zero])⟩
  | entered nonzero =>
    exact ⟨.boundary .opening, rfl, after_one_of_inl
      (by simp [Device.walk, unroll, Block.unroll, Block.unroll_append, nonzero])⟩

/-- The unrolled walk ends where the walk does. -/
theorem walk_unroll_of_inr {d : Device σ} {w : Walk σ} {e : Ending σ} (h : d.walk w = .inr e) :
    d.walk w.unroll = .inr e := by
  obtain ⟨block, s, x⟩ := w
  cases block with
  | nil => exact h
  | act a rest =>
    cases a with
    | motion m n => cases h
    | output =>
      rcases reply : d.write s.read x with ⟨_ | _ | _, y⟩ <;>
        simp only [Device.walk, reply] at h <;> cases h
      simp [Device.walk, unroll, Block.unroll, reply]
    | input =>
      rcases reply : d.read x with ⟨_ | _ | _, y⟩ <;> simp only [Device.walk, reply] at h <;>
        cases h <;> simp [Device.walk, unroll, Block.unroll, reply]
  | loop body rest => cases h

/-- The steps of the unrolled walk that correspond to the first `n` steps of a walk. -/
def elapsed (w : Walk σ) (d : Device σ) (n : Nat) : Nat :=
  ((trail d.walk operation? n w).map Operation.repetitions).sum

/-- The unrolled walk comes to where the walk comes, only later. -/
theorem after_elapsed {d : Device σ} {w v : Walk σ} {n : Nat} (h : after d.walk n w = .inl v) :
    after d.walk (w.elapsed d n) w.unroll = .inl v.unroll := by
  induction n generalizing w with
  | zero =>
    obtain rfl : w = v := Sum.inl.inj h
    rfl
  | succ n ih =>
    obtain ⟨u, hs, rest⟩ := exists_of_after_succ h
    obtain ⟨op, hop, first⟩ := exists_operation_of_walk hs
    have sum : w.elapsed d (n + 1) = op.repetitions + u.elapsed d n := by
      simp [elapsed, trail_succ_of_inl hs, hop]
    rw [sum, after_add_of_inl first]
    exact ih rest

end Walk

/-- Where one program holds a block and the other one the unrolled block, every run of the first is
matched by a run of the second that takes a step for every repetition. -/
theorem Program.exists_run_unrolled {p q : Program} {b : Block}
    (heldP : p.code.Holds 0 b.unroll p.code.size) (heldQ : q.code.Holds 0 b q.code.size)
    {input : List UInt8} {n : Nat} {r : Report} (h : q.run input none n = some r) :
    ∃ m r', p.run input none m = some r' ∧ r'.result = r.result ∧
      r'.workspace.tape.cells = r.workspace.tape.cells ∧
      r'.workspace.tape.pointer = r.workspace.tape.pointer ∧
      r'.workspace.steps = ((q.performed input none n).map Operation.repetitions).sum := by
  obtain ⟨g, hg, rfl⟩ := run_eq_some_iff.1 h
  let d := Buffers.device
  let w : Walk Buffers := ⟨b, .blank, ⟨input, []⟩⟩
  have followsQ : Follows q.code ({}, ⟨input, []⟩) w := heldQ.follows _
  have followsP : Follows p.code ({}, ⟨input, []⟩) w.unroll := heldP.follows _
  -- The last step of the run is the last step of the walk, and so of the unrolled walk.
  obtain ⟨k, y, lt, hy, last⟩ := exists_last_of_after_inr hg
  obtain ⟨v, hv, followsV⟩ := liftRel_inl_left.1 (hy ▸ followsQ.after d k)
  obtain ⟨e, he, alikeQ⟩ := liftRel_inr_left.1 (last ▸ followsV.step d)
  have later : after d.walk (w.elapsed d k) w.unroll = .inl v.unroll := Walk.after_elapsed hv
  obtain ⟨z, hz, followsZ⟩ := liftRel_inl_right.1 (later ▸ followsP.after d (w.elapsed d k))
  obtain ⟨f, hf, alikeP⟩ := liftRel_inr_right.1 (Walk.walk_unroll_of_inr he ▸ followsZ.step d)
  have ends : after (d.next p.code none) (w.elapsed d k + 1) ({}, ⟨input, []⟩) = .inr f := by
    rw [after_add_of_inl hz, after_succ_of_inr hf]
  have steps : f.machine.steps = w.elapsed d k := by
    rw [(Device.ends_of_next hf).machine_eq, Buffers.steps_eq_of_after hz]
  have sum : w.elapsed d k = ((q.performed input none n).map Operation.repetitions).sum := by
    rw [performed, trail_eq_of_last lt hy last, followsQ.trail_eq rfl, Walk.elapsed]
  refine ⟨_, _, run_eq_some_iff.2 ⟨f, ends, rfl⟩, ?_, ?_, ?_, steps.trans sum⟩
  · simp only [Finish.report, alikeP.result, alikeP.device, alikeQ.result, alikeQ.device]
  · exact Array.toList_inj.1 (alikeP.shown.cells_eq.trans alikeQ.shown.cells_eq.symm)
  · have hp := alikeP.shown.pointer_eq
    have hq := alikeQ.shown.pointer_eq
    simp only [Finish.report]
    omega

/-- Instructions whose counts are in range and whose boundaries match make a program, and so do the
commands that they stand for. Over any input both programs end or neither does. At their ends they
have the same output or the same error, the same cells and the same pointer, and the commands have
taken as many steps as the operations that the instructions carried out have repetitions. -/
theorem Program.expand_runs_alike {is : Array Instruction} (counts : ∀ x ∈ is, x.InRange)
    (targets : TargetsMatch is) :
    ∃ q p, ofCode (.folded is) = .ok q ∧ ofCommands (expand is.toList) = .ok p ∧
      ∀ input : List UInt8,
        ((∃ r, p.Reports input none r) ↔ ∃ r, q.Reports input none r) ∧
        ∀ r n r', p.Reports input none r → q.run input none n = some r' →
          r.result = r'.result ∧ r.workspace.tape.cells = r'.workspace.tape.cells ∧
          r.workspace.tape.pointer = r'.workspace.tape.pointer ∧
          r.workspace.steps = ((q.performed input none n).map Operation.repetitions).sum := by
  obtain ⟨q, hq⟩ := exists_ofCode_iff.2 targets.check
  have codeQ : q.code = .folded is := ofCode_code hq
  have opens :
      Bracket.opens Operation.bracket 0 [] (is.toList.map Instruction.operation) = .ok [] := by
    rw [Bracket.opens_map]
    exact Bracket.balanced_iff.1 targets.balanced
  obtain ⟨b, hb⟩ := Block.exists_operations_iff.2 opens
  have unrolled : b.unroll.operations = (expand is.toList).map Command.operation := by
    rw [Block.operations_unroll, hb, Instruction.map_operation_expand]
  have nested : Bracket.opens Command.bracket 0 [] (expand is.toList) = .ok [] := by
    have passes := b.unroll.opens_operations 0 []
    rwa [unrolled, Bracket.opens_map] at passes
  obtain ⟨p, hp⟩ := exists_ofCommands_iff.2 nested
  have codeP : p.code = .raw (expand is.toList).toArray := ofCode_code hp
  have heldQ : q.code.Holds 0 b q.code.size := codeQ ▸ Code.holds_of_targetsMatch targets hb
  have heldP : p.code.Holds 0 b.unroll p.code.size := codeP ▸ Code.holds_raw unrolled
  have counted : b.Counted := Block.counted_of_inRange (by simpa using counts) hb
  refine ⟨q, p, hq, hp, fun input => ⟨⟨?_, ?_⟩, ?_⟩⟩
  · rintro ⟨r, n, hn⟩
    obtain ⟨f, hf, -⟩ := run_eq_some_iff.1 hn
    have walks := (heldP.matched Buffers.device ⟨input, []⟩).trans
      ((counted.matched_unroll Buffers.device .blank ⟨input, []⟩).trans
        (heldQ.matched Buffers.device ⟨input, []⟩).symm)
    obtain ⟨m, g, hg, -⟩ := walks.ends hf
    exact ⟨g.report, m, run_eq_some_iff.2 ⟨g, hg, rfl⟩⟩
  · rintro ⟨r, n, hn⟩
    obtain ⟨m, r', hm, -⟩ := exists_run_unrolled heldP heldQ hn
    exact ⟨r', m, hm⟩
  · intro r n r' hr hn
    obtain ⟨m, r'', hm, result, cells, pointer, steps⟩ := exists_run_unrolled heldP heldQ hn
    obtain rfl := hr.unique ⟨m, hm⟩
    exact ⟨result, cells, pointer, steps⟩

/-- Two runs of one motion side by side, a loop, and a run to the left, as no folding pass leaves
them: the commands take 17 steps where the instructions take 13. -/
theorem Program.expand_runs_alike_countdown :
    let is : Array Instruction := #[.counted .increment 2, .counted .increment 1,
      .loopStart (some 5), .output, .counted .decrement 1, .loopEnd 2, .counted .left 4]
    (∀ x ∈ is, x.InRange) ∧ TargetsMatch is ∧ ∃ p, ofCommands (expand is.toList) = .ok p ∧
      ∃ r, p.Reports [] none r ∧ r.result = .ok [3, 2, 1] ∧
        r.workspace.tape.cells = #[0, 0, 0, 0, 0] ∧ r.workspace.steps = 17 := by
  intro is
  have counts : ∀ x ∈ is, x.InRange := by decide
  have loop : Bracket.Matches bracket is.toList 2 5 :=
    ⟨by decide, rfl, rfl, Bracket.balanced_iff.2 rfl⟩
  have targets : TargetsMatch is := by
    constructor
    · intro i stop h
      rcases i with _ | _ | _ | _ | _ | _ | _ | i <;> simp [is] at h
      exact ⟨5, h.symm, loop⟩
    · intro j start h
      rcases j with _ | _ | _ | _ | _ | _ | _ | j <;> simp [is] at h
      exact ⟨2, h.symm, loop⟩
  obtain ⟨q, p, hq, hp, runs⟩ := expand_runs_alike counts targets
  obtain ⟨together, alike⟩ := runs []
  have code := ofCode_code hq
  have steps' : ((q.performed [] none 14).map Operation.repetitions).sum = 17 := by
    rw [performed, code]
    decide +kernel
  obtain ⟨r', hr', result', cells'⟩ : ∃ r', q.run [] none 14 = some r' ∧
      r'.result = .ok [3, 2, 1] ∧ r'.workspace.tape.cells = #[0, 0, 0, 0, 0] := by
    obtain ⟨_, _⟩ := q
    subst code
    exact ⟨_, rfl, rfl, rfl⟩
  obtain ⟨r, hr⟩ := together.2 ⟨r', 14, hr'⟩
  obtain ⟨result, cells, -, steps⟩ := alike r 14 r' hr hr'
  exact ⟨counts, targets, p, hp, r, hr, result.trans result', cells.trans cells',
    steps.trans steps'⟩

end ByteTape
