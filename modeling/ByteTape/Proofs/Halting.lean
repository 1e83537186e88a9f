import ByteTape.Proofs.FoldedSteps
import ByteTape.Proofs.Progress

/-!
# Where a run halts

A run over in-memory streams halts after as many operations of its block as it counts steps: at the
end, at an input command that finds no byte, or in front of anything else where its step limit is
reached. A limit that is looked at before every operation bars neither the end nor what comes before
the last operation that it allows.
-/

namespace ByteTape

/-- A run under a step limit halts after `n` operations, in a world where a block is left to do. -/
inductive Block.Halts (limit : Option Int) :
    Nat → Block → World → Except RunError Unit → Prop where
  | done {n : Nat} {w : World} (within : ∀ most ∈ limit, n ≤ most.toNat) :
      Halts limit n .nil w (.ok ())
  | starved {n : Nat} {rest : Block} {w : World} (none : w.input = [])
      (within : ∀ most ∈ limit, n < most.toNat) :
      Halts limit n (.act .input rest) w (.error .inputExhausted)
  | limited {most : Int} {b : Block} {w : World} (bound : limit = some most) (left : b ≠ .nil) :
      Halts limit most.toNat b w (.error .stepLimit)

/-- The walk over in-memory streams stops at the end, or at an input command without a byte. -/
theorem Block.walk_eq_inr {b : Block} {s : Strip} {bs : Buffers} {e : Walk.Ending Buffers}
    (h : Buffers.device.walk ⟨b, s, bs⟩ = .inr e) :
    (b = .nil ∧ e = ⟨.ok (), s, bs⟩) ∨
      ∃ rest, b = .act .input rest ∧ bs.input = [] ∧ e = ⟨.error .inputExhausted, s, bs⟩ := by
  cases b with
  | nil =>
    obtain rfl := Sum.inr.inj h
    exact .inl ⟨rfl, rfl⟩
  | act a rest =>
    cases a with
    | motion m n => cases h
    | output => cases h
    | input =>
      cases waiting : bs.input with
      | nil =>
        rw [walk_input_nil waiting] at h
        obtain rfl := Sum.inr.inj h
        exact .inr ⟨rest, rfl, rfl, rfl⟩
      | cons x xs =>
        rw [walk_input waiting] at h
        cases h
  | loop body rest =>
    by_cases zero : s.read = 0
    · rw [walk_loop_zero zero] at h
      cases h
    · rw [walk_loop_nonzero zero] at h
      cases h

namespace Buffers

variable {code : Code} {limit : Option Int} {input : List UInt8} {n : Nat}

/-- A run goes on for no more turns than its limit allows. -/
theorem le_of_after {most : Int} {y : Machine × Buffers}
    (h : after (device.next code (some most)) n ({}, ⟨input, []⟩) = .inl y) : n ≤ most.toNat := by
  cases n with
  | zero => exact Nat.zero_le _
  | succ n =>
    obtain ⟨z, hz, last⟩ := exists_last_of_after_inl h
    have steps : z.1.steps = n := steps_eq_of_after hz
    have allowed := (Device.goes_of_next last).allowed
    simp only [Machine.limitReached, Option.any_some, decide_eq_false_iff_not, steps] at allowed
    omega

/-- A run under a limit ends. -/
theorem exists_inr_of_limit (code : Code) (most : Int) (input : List UInt8) :
    ∃ f, after (device.next code (some most)) (most.toNat + 1) ({}, ⟨input, []⟩) = .inr f := by
  cases h : after (device.next code (some most)) (most.toNat + 1) ({}, ⟨input, []⟩) with
  | inl y => exact absurd (le_of_after h) (Nat.not_succ_le_self _)
  | inr f => exact ⟨f, rfl⟩

/-- A limit keeps no run from the turns that it allows. -/
theorem after_within {y : Machine × Buffers}
    (h : after (device.next code none) n ({}, ⟨input, []⟩) = .inl y)
    (within : ∀ most ∈ limit, n ≤ most.toNat) :
    after (device.next code limit) n ({}, ⟨input, []⟩) = .inl y := by
  induction n generalizing y with
  | zero => exact h
  | succ n ih =>
    obtain ⟨z, hz, last⟩ := exists_last_of_after_inl h
    have before := ih hz fun most bound => Nat.le_of_succ_le (within most bound)
    have steps : z.1.steps = n := steps_eq_of_after hz
    have free : ¬ z.1.Barred code limit := by
      rintro ⟨-, reached⟩
      obtain ⟨most, bound, le⟩ := Machine.limitReached_iff.1 reached
      have := within most bound
      omega
    rw [after_add_of_inl before 1]
    exact after_one_of_inl ((Device.next_of_not_barred free).trans last)

end Buffers

namespace Code.Holds

open Block (Comes Halts)

variable {c : Code} {b : Block} {limit : Option Int} {input : List UInt8} {n : Nat}

/-- A run ends where its block halts. -/
theorem halts_of_after (held : c.Holds 0 b c.size) {f : Finish Buffers}
    (h : after (Buffers.device.next c limit) n ({}, ⟨input, []⟩) = .inr f) :
    ∃ rest v, b.Comes (.start input) f.machine.steps rest v ∧
      Halts limit f.machine.steps rest v f.result ∧
      f.device.input = v.input ∧ f.device.output = v.output := by
  obtain ⟨l, x, -, hx, last⟩ := exists_last_of_after_inr h
  have steps : x.1.steps = l := Buffers.steps_eq_of_after hx
  have most_le (most : Int) (bound : most ∈ limit) : l ≤ most.toNat := by
    obtain rfl : limit = some most := bound
    exact Buffers.le_of_after hx
  obtain ⟨⟨rest, s, bs⟩, hw, follows⟩ := liftRel_inl_left.1
    (Device.after_unlimited hx ▸ (held.follows _).after Buffers.device l)
  have comes : b.Comes (.start input) l rest (World.of s bs) := Block.comes_of_after hw
  have same : x.2 = bs := follows.device
  rw [(Device.ends_of_next last).machine_eq, steps]
  refine ⟨rest, World.of s bs, comes, ?_⟩
  by_cases barred : x.1.Barred c limit
  · obtain rfl := Sum.inr.inj ((Device.next_of_barred barred).symm.trans last)
    obtain ⟨most, bound, le⟩ := Machine.limitReached_iff.1 barred.reached
    have left : rest ≠ .nil := fun nil => barred.inside (follows.operation?_eq_none_iff.2 nil)
    obtain rfl : l = most.toNat := by
      have := most_le most bound
      omega
    exact ⟨.limited bound left, congrArg _ same, congrArg _ same⟩
  · have step := follows.step Buffers.device
    rw [← Device.next_of_not_barred barred, last] at step
    obtain ⟨e, he, alike⟩ := liftRel_inr_left.1 step
    rcases Block.walk_eq_inr he with ⟨rfl, rfl⟩ | ⟨rest, rfl, none, rfl⟩
    · rw [alike.result, alike.device]
      exact ⟨.done most_le, rfl, rfl⟩
    · rw [alike.result, alike.device]
      refine ⟨.starved none fun most bound => ?_, rfl, rfl⟩
      have := most_le most bound
      by_contra reached
      refine barred ⟨?_, Machine.limitReached_iff.2 ⟨most, bound, by omega⟩⟩
      rw [Ne, follows.operation?_eq_none_iff]
      exact Block.noConfusion

/-- Where its block halts a run ends. -/
theorem exists_after_of_halts (held : c.Holds 0 b c.size) {rest : Block} {v : World}
    {result : Except RunError Unit} (comes : b.Comes (.start input) n rest v)
    (halts : Halts limit n rest v result) :
    ∃ f, after (Buffers.device.next c limit) (n + 1) ({}, ⟨input, []⟩) = .inr f ∧
      f.result = result ∧ f.machine.steps = n := by
  have start : World.of .blank ⟨input, []⟩ = .start input := rfl
  obtain ⟨s, bs, hw, rfl⟩ := comes.walks .nil start
  rw [Block.append_nil, Block.append_nil] at hw
  obtain ⟨x, hx, follows⟩ :=
    liftRel_inl_right.1 (hw ▸ (held.follows _).after Buffers.device n)
  have steps : x.1.steps = n := Buffers.steps_eq_of_after hx
  have within : ∀ most ∈ limit, n ≤ most.toNat := by
    intro most bound
    cases halts with
    | done within => exact within most bound
    | starved none within => exact (within most bound).le
    | limited bound' left =>
      obtain rfl := Option.some.inj (bound.symm.trans bound')
      exact le_rfl
  have reached := Buffers.after_within hx within
  -- What is left is the last turn, and that it leaves the machine as it is.
  suffices ∃ f, Buffers.device.next c limit x = .inr f ∧ f.result = result by
    obtain ⟨f, last, same⟩ := this
    refine ⟨f, ?_, same, ?_⟩
    · rw [after_add_of_inl reached 1]
      exact after_succ_of_inr last 0
    · rw [(Device.ends_of_next last).machine_eq, steps]
  have ends {e : Walk.Ending Buffers} (free : ¬ x.1.Barred c limit)
      (he : Buffers.device.walk ⟨rest, s, bs⟩ = .inr e) :
      ∃ f, Buffers.device.next c limit x = .inr f ∧ f.result = e.result := by
    obtain ⟨f, hf, alike⟩ := liftRel_inr_right.1 (he ▸ follows.step Buffers.device)
    exact ⟨f, (Device.next_of_not_barred free).trans hf, alike.result⟩
  cases halts with
  | done within =>
    exact ends (fun barred => barred.inside (follows.operation?_eq_none_iff.2 rfl)) rfl
  | starved none within =>
    refine ends (fun barred => ?_) (Block.walk_input_nil none)
    obtain ⟨most, bound, le⟩ := Machine.limitReached_iff.1 barred.reached
    have := within most bound
    omega
  | @limited most _ _ bound left =>
    have inside : c.operation? x.1.pc ≠ none := by rwa [Ne, follows.operation?_eq_none_iff]
    have reached := Machine.limitReached_iff.2 ⟨most, bound, steps ▸ Int.self_le_toNat most⟩
    exact ⟨_, Device.next_of_barred ⟨inside, reached⟩, rfl⟩

/-- A block halts in one way. -/
theorem halts_unique (held : c.Holds 0 b c.size) {m : Nat} {rest rest' : Block} {v v' : World}
    {result result' : Except RunError Unit} (comes : b.Comes (.start input) n rest v)
    (halts : Halts limit n rest v result) (comes' : b.Comes (.start input) m rest' v')
    (halts' : Halts limit m rest' v' result') : n = m ∧ result = result' := by
  obtain ⟨f, hf, rfl, rfl⟩ := held.exists_after_of_halts comes halts
  obtain ⟨f', hf', rfl, rfl⟩ := held.exists_after_of_halts comes' halts'
  obtain rfl := after_inr_unique hf hf'
  exact ⟨rfl, rfl⟩

end Code.Holds

namespace Block

/-- A block comes to all that a block which it passes comes to, and in no fewer operations. -/
theorem Passes.comes {b e rest : Block} (h : b.Passes e) {input : List UInt8} {n : Nat} {v : World}
    (comes : e.Comes (.start input) n rest v) :
    ∃ m rest' w, n ≤ m ∧ b.Comes (.start input) m rest' w ∧ w.strip.Covers v.strip ∧
      w.input = v.input ∧ w.output = v.output := by
  obtain ⟨f, mono, visits⟩ := h _ Buffers.device ⟨input, []⟩
  have start : World.of .blank ⟨input, []⟩ = .start input := rfl
  obtain ⟨s, bs, hw, rfl⟩ := comes.walks .nil start
  rw [append_nil, append_nil] at hw
  obtain ⟨t, hx, meets⟩ := liftRel_inl_right.1 (hw ▸ visits n)
  obtain rfl : t.device = bs := meets.device
  exact ⟨f n, t.block, _, mono.le_apply, comes_of_after hx, meets.strip, rfl, rfl⟩

/-- A block has the fate of a block which it passes. -/
theorem Passes.evaluates {b e : Block} (h : b.Passes e) {input : List UInt8} {o : Fate}
    (fate : e.Evaluates (.start input) o) :
    ∃ o', b.Evaluates (.start input) o' ∧ o'.result = o.result ∧
      o'.world.strip.Covers o.world.strip ∧ o'.world.input = o.world.input ∧
      o'.world.output = o.world.output := by
  obtain ⟨f, -, visits⟩ := h _ Buffers.device ⟨input, []⟩
  have start : e.Evaluates (World.of .blank ⟨input, []⟩) o := fate
  obtain ⟨n, y, hy, ends⟩ := start.ends
  obtain ⟨y', hy', alike⟩ := liftRel_inr_right.1 (hy ▸ visits n)
  obtain ⟨o', ho', ends'⟩ := evaluates_of_after hy'
  refine ⟨o', ho', ?_, ?_, ?_, ?_⟩
  · exact ends'.result.symm.trans (alike.result.trans ends.result)
  · rw [← ends'.world, ← ends.world]
    exact alike.strip
  · rw [← ends'.world, ← ends.world]
    exact congrArg Buffers.input alike.device
  · rw [← ends'.world, ← ends.world]
    exact congrArg Buffers.output alike.device

/-- A block has a fate if one that passes it has one. -/
theorem Passes.exists_evaluates {b e : Block} (h : b.Passes e) {input : List UInt8} {o : Fate}
    (fate : b.Evaluates (.start input) o) : ∃ o', e.Evaluates (.start input) o' := by
  obtain ⟨f, mono, visits⟩ := h _ Buffers.device ⟨input, []⟩
  have start : b.Evaluates (World.of .blank ⟨input, []⟩) o := fate
  obtain ⟨n, y, hy, -⟩ := start.ends
  obtain ⟨k, hk⟩ := Nat.exists_eq_add_of_le (mono.le_apply (x := n))
  have ended := after_add_of_inr hy k
  rw [← hk] at ended
  obtain ⟨y', hy', -⟩ := liftRel_inr_left.1 (ended ▸ visits n)
  obtain ⟨o', ho', -⟩ := evaluates_of_after hy'
  exact ⟨o', ho'⟩

end Block

end ByteTape
