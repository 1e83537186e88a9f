import ByteTape.Stepper
import ByteTape.Proofs.Turns

/-!
# What a run carries out

Over in-memory streams every turn that does not end a run completes one instruction, so the count of
steps is the number of turns. The operations that a run has carried out are read off the positions
that it went through. A walk that goes along with the run carries out the same ones.
-/

namespace ByteTape

section Trail

variable {α β α' β' γ δ : Type} {step : α → α ⊕ β} {step' : α' → α' ⊕ β'} {mark : α → Option γ}
  {mark' : α' → Option γ}

/-- What the first `n` steps of a run leave behind, in order, if a step from `a` leaves `mark a`.
The step that ends a run leaves nothing. -/
def trail (step : α → α ⊕ β) (mark : α → Option γ) : Nat → α → List γ
  | 0, _ => []
  | n + 1, a =>
    match step a with
    | .inl c => (mark a).toList ++ trail step mark n c
    | .inr _ => []

@[simp] theorem trail_zero (a : α) : trail step mark 0 a = [] := rfl

theorem trail_succ_of_inl {a c : α} (h : step a = .inl c) (n : Nat) :
    trail step mark (n + 1) a = (mark a).toList ++ trail step mark n c := by
  rw [trail, h]

theorem trail_succ_of_inr {a : α} {b : β} (h : step a = .inr b) (n : Nat) :
    trail step mark (n + 1) a = [] := by
  rw [trail, h]

theorem trail_concat {a c c' : α} {n : Nat} (h : after step n a = .inl c)
    (last : step c = .inl c') :
    trail step mark (n + 1) a = trail step mark n a ++ (mark c).toList := by
  induction n generalizing a with
  | zero =>
    obtain rfl : a = c := Sum.inl.inj h
    simp [trail_succ_of_inl last]
  | succ n ih =>
    obtain ⟨b, first, rest⟩ := exists_of_after_succ h
    rw [trail_succ_of_inl first, trail_succ_of_inl first, ih rest, List.append_assoc]

/-- Where every step leaves something behind, the trail counts the steps. -/
theorem length_trail (leaves : ∀ a c, step a = .inl c → mark a ≠ none) {a c : α} {n : Nat}
    (h : after step n a = .inl c) : (trail step mark n a).length = n := by
  induction n generalizing c with
  | zero => rfl
  | succ n ih =>
    obtain ⟨b, hb, last⟩ := exists_last_of_after_inl h
    obtain ⟨left, hleft⟩ := Option.ne_none_iff_exists'.1 (leaves b c last)
    rw [trail_concat hb last, List.length_append, ih hb, hleft]
    rfl

/-- Nothing is left behind after the last step. -/
theorem trail_eq_of_last {a c : α} {b : β} {k n : Nat} (lt : k < n) (h : after step k a = .inl c)
    (last : step c = .inr b) : trail step mark n a = trail step mark k a := by
  induction k generalizing a n with
  | zero =>
    obtain rfl : a = c := Sum.inl.inj h
    obtain ⟨n, rfl⟩ := Nat.exists_eq_add_of_lt lt
    exact trail_succ_of_inr last _
  | succ k ih =>
    obtain ⟨n, rfl⟩ : ∃ m, n = m + 1 := ⟨n - 1, by omega⟩
    obtain ⟨a', hs, rest⟩ := exists_of_after_succ h
    rw [trail_succ_of_inl hs, trail_succ_of_inl hs, ih (Nat.lt_of_succ_lt_succ lt) rest]

/-- Runs whose steps go together and leave the same marks have the same trails. -/
theorem trail_map_eq {R : α → α' → Prop} {Q : β → β' → Prop}
    (together : ∀ a a', R a a' → Sum.LiftRel R Q (step a) (step' a')) {f : γ → δ}
    (same : ∀ a a', R a a' → (mark a).map f = (mark' a').map f) {a : α} {a' : α'} (h : R a a')
    (n : Nat) : (trail step mark n a).map f = (trail step' mark' n a').map f := by
  induction n generalizing a a' with
  | zero => rfl
  | succ n ih =>
    have both := together a a' h
    generalize hs : step a = x at both
    generalize hs' : step' a' = x' at both
    cases both with
    | inl next =>
      have marks : (mark a).toList.map f = (mark' a').toList.map f := by
        rw [← Option.toList_map, ← Option.toList_map, same a a' h]
      rw [trail_succ_of_inl hs, trail_succ_of_inl hs', List.map_append, List.map_append, marks,
        ih next]
    | inr ends => rw [trail_succ_of_inr hs, trail_succ_of_inr hs']

end Trail

/-- How often an operation moves the head or changes the cell; any other one counts once. -/
def Operation.repetitions : Operation → Nat
  | motion _ n => n
  | output | input | boundary _ => 1

/-- How far an operation moves the head to the right. -/
def Operation.shift : Operation → Int
  | motion .right n => n
  | motion .left n => -n
  | motion .increment _ | motion .decrement _ | output | input | boundary _ => 0

/-- The operations that a run over given input carries out in its first `n` turns, in order. -/
def Program.performed (p : Program) (input : List UInt8) (limit : Option Int) (n : Nat) :
    List Operation :=
  trail (Buffers.device.next p.code limit) (fun x => p.code.operation? x.1.pc) n ({}, ⟨input, []⟩)

/-- The bytes that a run over given input has written after `n` instructions, or at its end. Over
in-memory streams every turn completes an instruction. -/
def Program.outputAfter (p : Program) (input : List UInt8) (limit : Option Int) (n : Nat) :
    List UInt8 :=
  (after (Buffers.device.next p.code limit) n ({}, ⟨input, []⟩)).elim (fun x => x.2.output)
    fun f => f.device.output

namespace Buffers

variable {code : Code} {limit : Option Int}

/-- Over in-memory streams a turn that goes on completes an instruction. -/
theorem steps_of_next {x y : Machine × Buffers} (h : device.next code limit x = .inl y) :
    y.1.steps = x.1.steps + 1 := by
  cases Device.goes_of_next h with
  | refused here allowed answer => cases answer
  | _ => rfl

/-- The count of steps is the number of turns. -/
theorem steps_of_after {x y : Machine × Buffers} {n : Nat}
    (h : after (device.next code limit) n x = .inl y) : y.1.steps = x.1.steps + n := by
  induction n generalizing x with
  | zero =>
    obtain rfl : x = y := Sum.inl.inj h
    rfl
  | succ n ih =>
    obtain ⟨z, hs, rest⟩ := exists_of_after_succ h
    rw [ih rest, steps_of_next hs]
    omega

/-- From the start of a run the machine has counted its turns. -/
theorem steps_eq_of_after {b : Buffers} {y : Machine × Buffers} {n : Nat}
    (h : after (device.next code limit) n ({}, b) = .inl y) : y.1.steps = n :=
  (steps_of_after h).trans (Nat.zero_add n)

theorem output_of_read {b c : Buffers} {answer : Except StreamError (Option UInt8)}
    (h : device.read b = (answer, c)) : c.output = b.output := by
  obtain ⟨_ | ⟨value, rest⟩, written⟩ := b <;> cases h <;> rfl

/-- A turn only adds to the output. -/
theorem output_prefix_of_next {x y : Machine × Buffers} (h : device.next code limit x = .inl y) :
    x.2.output <+: y.2.output := by
  cases Device.goes_of_next h with
  | @taken m s t here allowed answer =>
    obtain rfl : s.push m.tape.read = t := (Prod.mk.inj answer).2
    simp
  | received here allowed answer => exact (output_of_read answer).symm ▸ List.prefix_rfl
  | refused here allowed answer => cases answer
  | _ => exact List.prefix_rfl

/-- The last turn writes nothing. -/
theorem output_eq_of_next {x : Machine × Buffers} {f : Finish Buffers}
    (h : device.next code limit x = .inr f) : f.device.output = x.2.output := by
  cases Device.ends_of_next h with
  | done past answer =>
    cases answer
    rfl
  | exhausted here allowed answer | read here allowed answer => exact output_of_read answer
  | flush past answer | print here allowed answer => cases answer
  | _ => rfl

end Buffers

/-- The longer a run goes on, the more it has written. -/
theorem Program.outputAfter_prefix {p : Program} {input : List UInt8} {limit : Option Int}
    {n m : Nat} (le : n ≤ m) : p.outputAfter input limit n <+: p.outputAfter input limit m := by
  induction m, le using Nat.le_induction with
  | base => exact List.prefix_rfl
  | succ m le ih =>
    refine ih.trans ?_
    unfold outputAfter
    cases hm : after (Buffers.device.next p.code limit) m ({}, ⟨input, []⟩) with
    | inr f => simp [after_add_of_inr hm 1]
    | inl x =>
      rw [after_add_of_inl hm 1]
      cases hx : Buffers.device.next p.code limit x with
      | inl y =>
        rw [after_one_of_inl hx]
        exact Buffers.output_prefix_of_next hx
      | inr f =>
        rw [after_succ_of_inr hx]
        simp [Buffers.output_eq_of_next hx]

/-- What is reported of a run over in-memory streams. -/
def Finish.report (f : Finish Buffers) : Report where
  result := f.result.map fun _ => f.device.output
  workspace := ⟨f.machine.tape, f.machine.steps⟩

theorem Finish.report_of_ok {f : Finish Buffers} (h : f.result = .ok ()) :
    f.report.result = .ok f.device.output := by
  rw [report, h]
  rfl

theorem Finish.report_of_error {f : Finish Buffers} {e : RunError} (h : f.result = .error e) :
    f.report.result = .error e := by
  rw [report, h]
  rfl

/-- A run has a report once its turns have come to an end. -/
theorem Program.run_eq_some_iff {p : Program} {input : List UInt8} {limit : Option Int} {n : Nat}
    {r : Report} :
    p.run input limit n = some r ↔
      ∃ f, after (Buffers.device.next p.code limit) n ({}, ⟨input, []⟩) = .inr f ∧
        f.report = r := by
  rw [run, Option.map_eq_some_iff]
  exact exists_congr fun f => and_congr_left' Device.resume_eq_some_iff

/-- The next operation of a walk. -/
def Walk.operation? {σ : Type} (w : Walk σ) : Option Operation := w.block.operations.head?

namespace Follows

variable {σ : Type} {c : Code}

/-- Run and walk carry out the same operation, but where the walk meets a loop again the run stands
at the end of it. -/
theorem map_operation? {δ : Type} {f : Operation → δ}
    (sides : f (.boundary .closing) = f (.boundary .opening)) {x : Machine × σ} {w : Walk σ}
    (h : Follows c x w) : (c.operation? x.1.pc).map f = w.operation?.map f := by
  obtain ⟨block, strip, device⟩ := w
  have awaits := h.awaits
  simp only at awaits
  cases awaits with
  | nil past => simp [past, Walk.operation?, Block.operations]
  | act here after => simp [here, Walk.operation?, Block.operations]
  | start pairs inside after => simp [pairs.opening, Walk.operation?, Block.operations]
  | stop pairs inside after => simp [pairs.closing, Walk.operation?, Block.operations, sides]

/-- A run is done where its walk is. -/
theorem operation?_eq_none_iff {x : Machine × σ} {w : Walk σ} (h : Follows c x w) :
    c.operation? x.1.pc = none ↔ w.block = .nil := by
  have same := h.map_operation? (f := fun _ => ()) rfl
  have left : c.operation? x.1.pc = none ↔ w.operation? = none := by
    rw [← Option.map_eq_none_iff, same, Option.map_eq_none_iff]
  rw [left, Walk.operation?, List.head?_eq_none_iff]
  cases w.block <;> simp [Block.operations]

theorem after {x : Machine × σ} {w : Walk σ} (h : Follows c x w) (d : Device σ) (n : Nat) :
    Sum.LiftRel (Follows c) EndsAlike (after (d.next c none) n x) (after d.walk n w) :=
  after_liftRel (fun _ _ h => h.step d) h n

/-- What a run carries out is what its walk does. -/
theorem trail_eq {δ : Type} {f : Operation → δ}
    (sides : f (.boundary .closing) = f (.boundary .opening)) {x : Machine × σ} {w : Walk σ}
    (h : Follows c x w) (d : Device σ) (n : Nat) :
    (trail (d.next c none) (fun x => c.operation? x.1.pc) n x).map f =
      (trail d.walk Walk.operation? n w).map f :=
  trail_map_eq (fun _ _ h => h.step d) (fun _ _ h => h.map_operation? sides) h n

end Follows

end ByteTape
