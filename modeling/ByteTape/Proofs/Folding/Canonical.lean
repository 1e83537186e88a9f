import ByteTape.Proofs.Cancellation
import ByteTape.Proofs.Folding.Compact

/-!
# Folding as a normal form

A folding pass does not see a motion that is undone at once, so congruent command lists fold alike.
The commands that a folding stands for are the given ones with such pairs deleted, as far as that
goes. Hence two command lists have one folding exactly when they are congruent.
-/

namespace ByteTape

open Command Instruction

namespace Folding

theorem eq_of_flushed {s t : Folding} (hs : s.pending = none) (ht : t.pending = none)
    (output : s.output.toList = t.output.toList) (opened : s.opened = t.opened) : s = t := by
  obtain ⟨⟨is⟩, _, _⟩ := s
  obtain ⟨⟨js⟩, _, _⟩ := t
  simp_all

/-- A motion and its opposite leave a folding pass where it was. -/
theorem run_concat_opposite (cs : List Command) (m : Motion) :
    run (cs ++ [.motion m, .motion m.opposite]) = run cs := by
  rw [← List.singleton_append, ← List.append_assoc, run_concat, run_concat]
  cases hs : run cs with
  | error e => rfl
  | ok s =>
    have idle := pending_of_run hs
    obtain ⟨there, opened⟩ := extends_of_move idle m
    obtain ⟨back, opened'⟩ := extends_of_move (pending_flush (s.move m)) m.opposite
    have output := (compact_of_run hs).extends_opposite there back
    have same : ((s.move m).flush.move m.opposite).flush = s :=
      eq_of_flushed (pending_flush _) idle output (opened'.trans opened)
    exact congrArg Except.ok same

/-- Congruent command lists fold alike, to the same instructions or with the same failure. -/
theorem run_congr {cs ds : List Command} (h : Congruent cs ds) (before after : List Command) :
    run (before ++ cs ++ after) = run (before ++ ds ++ after) := by
  induction h generalizing before after with
  | pair m => rw [run_append, run_concat_opposite, ← run_append, List.append_nil]
  | refl => rfl
  | symm _ ih => exact (ih before after).symm
  | trans _ _ ih ih' => exact (ih before after).trans (ih' before after)
  | context outside outside' _ ih => simpa using ih (before ++ outside) (outside' ++ after)

/-- The commands of the instructions after one more command reduce from the commands before it. -/
theorem Advance.reduces {c : Command} {is js : List Instruction} {opened opened' : List Nat}
    (h : Advance c is opened js opened') (compact : Compact is) :
    Reduces (expand is ++ [c]) (expand js) := by
  cases h with
  | @motion m _ _ change =>
    cases change with
    | grow is room => simpa [commands, List.replicate_succ'] using Reduces.refl _
    | @shrink is n several =>
      obtain ⟨n, rfl⟩ : ∃ l, n = l + 1 := ⟨n - 1, by omega⟩
      simpa [commands] using reduces_replicate (expand is) m n
    | @vanish _ n single =>
      obtain ⟨least, -⟩ := compact.inRange_last
      obtain rfl : n = 1 := by omega
      simpa [commands] using reduces_replicate (expand js) m 0
    | start is full free => simpa [commands] using Reduces.refl _
  | output | input | loopStart => simpa [commands] using Reduces.refl _
  | loopEnd is js => simpa [commands] using Reduces.refl _

/-- The commands that a folding stands for are what deleting pairs makes of the given ones. -/
theorem reduces_of_run {cs : List Command} {s : Folding} (h : run cs = .ok s) :
    Reduces cs (expand s.output.toList) := by
  have both := run_induction (P := fun cs is _ => Compact is ∧ Reduces cs (expand is))
    ⟨compact_nil, .refl []⟩ ?_ h
  · exact both.2
  · rintro cs c is opened js opened' ⟨compact, reduces⟩ step
    exact ⟨compact.advance step, (reduces.append [c]).trans (step.reduces compact)⟩

end Folding

namespace Instruction

theorem commands_ne_nil {x : Instruction} (h : x.InRange) : x.commands ≠ [] := by
  cases x with
  | counted m n =>
    have least : 1 ≤ n := h.1
    simp [commands]
    omega
  | _ => simp [commands]

theorem eq_counted_of_mem_commands {x : Instruction} {m : Motion}
    (h : .motion m ∈ x.commands) : ∃ n, x = counted m n := by
  cases x with
  | counted k n =>
    obtain rfl : m = k := Command.motion.inj (List.eq_of_mem_replicate h)
    exact ⟨n, rfl⟩
  | _ => simp [commands] at h

/-- Compact instructions stand for commands of which no neighbours undo each other. -/
theorem Compact.isChain_expand {is : List Instruction} (h : Compact is) :
    (expand is).IsChain Apart := by
  have filled : [] ∉ is.map commands := by
    intro empty
    obtain ⟨x, hx, none⟩ := List.mem_map.1 empty
    exact commands_ne_nil (h.inRange x hx) none
  rw [expand, List.flatMap_def, List.isChain_flatten filled, List.isChain_map]
  refine ⟨?_, h.settled.imp ?_⟩
  · intro l hl
    obtain ⟨x, -, rfl⟩ := List.mem_map.1 hl
    cases x with
    | counted m n =>
      refine List.isChain_replicate_of_rel n ?_
      rintro _ ⟨⟩ same
      exact m.opposite_ne (Command.motion.inj same).symm
    | _ => exact .singleton _
  · rintro x y settled _ hc d hd m rfl rfl
    obtain ⟨n, rfl⟩ := eq_counted_of_mem_commands (List.mem_of_getLast? hc)
    obtain ⟨l, rfl⟩ := eq_counted_of_mem_commands (List.mem_of_head? hd)
    have repeated := settled_counted.1 settled (.inr (Motion.opposite_opposite m).symm)
    exact m.opposite_ne repeated.1.symm

end Instruction

theorem run_of_fold? {cs : List Command} {is : Array Instruction} (h : fold? cs = .ok is) :
    ∃ s, Folding.run cs = .ok s ∧ s.output = is := by
  unfold fold? at h
  split at h
  · rename_i s hs
    exact ⟨s, hs, Except.ok.inj h⟩
  · cases h

theorem fold?_congr {cs ds : List Command} (h : Congruent cs ds) : fold? cs = fold? ds := by
  have same : Folding.run cs = Folding.run ds := by simpa using Folding.run_congr h [] []
  rw [fold?, fold?, same]

theorem reduces_of_fold? {cs : List Command} {is : Array Instruction} (h : fold? cs = .ok is) :
    Reduces cs (expand is.toList) := by
  obtain ⟨s, hs, rfl⟩ := run_of_fold? h
  exact Folding.reduces_of_run hs

theorem compact_of_fold? {cs : List Command} {is : Array Instruction} (h : fold? cs = .ok is) :
    Compact is.toList := by
  obtain ⟨s, hs, rfl⟩ := run_of_fold? h
  exact compact_of_run hs

/-- Folding computes a canonical form: two command lists that fold at all have one folding exactly
when they are congruent. A folding stands for commands congruent to the given ones in which no
neighbours undo each other, and congruent lists fail to fold at one and the same index. -/
theorem fold?_canonical (cs ds : List Command) :
    (∀ is js, fold? cs = .ok is → fold? ds = .ok js → (is = js ↔ Congruent cs ds)) ∧
    (∀ is, fold? cs = .ok is → Congruent (expand is.toList) cs ∧
      ∀ m, ¬ [.motion m, .motion m.opposite] <:+: expand is.toList) ∧
    (Congruent cs ds → ∀ i, fold? cs = .error i ↔ fold? ds = .error i) := by
  refine ⟨?_, ?_, ?_⟩
  · intro is js hcs hds
    constructor
    · rintro rfl
      exact (reduces_of_fold? hcs).congruent.trans (reduces_of_fold? hds).congruent.symm
    · intro congruent
      rw [fold?_congr congruent, hds] at hcs
      exact (Except.ok.inj hcs).symm
  · intro is h
    exact ⟨(reduces_of_fold? h).congruent.symm,
      not_infix_of_isChain (compact_of_fold? h).isChain_expand⟩
  · intro congruent i
    rw [fold?_congr congruent]

/-- Two motions that cancel let the one after them rejoin the run before them, here twice over. -/
theorem fold?_canonical_rejoining :
    let cs : List Command := [.motion .increment, .motion .right, .motion .left, .motion .increment,
      .motion .left, .motion .right, .motion .decrement, .output]
    let ds : List Command := [.motion .increment, .output]
    fold? cs = .ok #[.counted .increment 1, .output] ∧
      fold? ds = .ok #[.counted .increment 1, .output] ∧ Congruent cs ds :=
  ⟨by rfl, by rfl, ((fold?_canonical _ _).1 _ _ (by rfl) (by rfl)).1 rfl⟩

end ByteTape
