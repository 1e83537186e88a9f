import ByteTape.Stepper
import ByteTape.Proofs.Turns

/-!
# Steps and turns

A stepper whose tape nobody else moves takes one turn of the run with every step. It shows a state
after an instruction exactly where the run goes on, and then the tape in its workspace is the tape
of the run.
-/

namespace ByteTape

/-- What a machine leaves in the workspace. -/
def Machine.workspace (m : Machine) : Workspace := ⟨m.tape, m.steps⟩

theorem Code.mnemonic?_eq_none_iff {c : Code} {i : Nat} :
    c.mnemonic? i = none ↔ c.operation? i = none := by
  cases c <;> simp [mnemonic?, operation?]

/-- A turn goes on only where there is an instruction. -/
theorem Device.Goes.inside {σ : Type} {d : Device σ} {code : Code} {limit : Option Int}
    {x y : Machine × σ} (h : d.Goes code limit x y) : code.operation? x.1.pc ≠ none := by
  cases h <;> simp_all

namespace Stepper

/-- The stepper that has come as far as a machine and its streams. -/
def reached (s : Stepper) (x : Machine × Buffers) : Stepper :=
  { s with stage := .running x.1.pc x.1.steps x.2 }

/-- What the step with number `n` yields, the first one having number 0, if nobody else moves the
tape in between. -/
def nth (code : Code) : Nat → Stepper → Workspace → Stepped
  | 0, s, w => s.next code w
  | n + 1, s, w => nth code n (s.next code w).stepper (s.next code w).workspace

variable {s : Stepper} {code : Code} {w : Workspace} {x y : Machine × Buffers} {f : Finish Buffers}
  {n : Nat}

theorem next_reached_of_inl (h : Buffers.device.next code s.limit x = .inl y) :
    (s.reached x).next code x.1.workspace =
      ⟨.ok (some (y.1.snapshot code s.radius (code.mnemonic? x.1.pc) y.2.written)), y.1.workspace,
        s.reached y⟩ := by
  simp [next, advance, reached, Machine.workspace, Device.next_eq_inl_iff.1 h]

theorem next_reached_of_inr (h : Buffers.device.next code s.limit x = .inr f) :
    (s.reached x).next code x.1.workspace =
      ⟨f.result.map fun _ => some (f.machine.snapshot code s.radius none f.device.written),
        ⟨f.machine.tape, x.1.steps⟩, { s with stage := .closed }⟩ := by
  simp [next, advance, reached, Machine.workspace, Device.next_eq_inr_iff.1 h]

/-- The first step of a fresh stepper clears the workspace, whatever is in it. -/
theorem next_of_fresh (fresh : s.stage = .fresh) (w : Workspace) :
    s.next code w =
      (s.reached ({}, ⟨s.input, []⟩)).next code ({} : Machine).workspace := by
  simp only [next, fresh, reached, advance, Machine.workspace]

theorem nth_of_fresh (fresh : s.stage = .fresh) (w : Workspace) :
    nth code n s w =
      nth code n (s.reached ({}, ⟨s.input, []⟩)) ({} : Machine).workspace := by
  cases n with
  | zero => exact next_of_fresh fresh w
  | succ n => rw [nth, nth, next_of_fresh fresh w]

theorem nth_of_closed (closed : s.stage = .closed) : (nth code n s w).yield = .ok none := by
  have idle : s.next code w = ⟨.ok none, w, s⟩ := by simp [next, closed]
  induction n with
  | zero => rw [nth, idle]
  | succ n ih => rwa [nth, idle]

/-- After as many steps as a run has taken turns, the stepper goes on where the run does. -/
theorem nth_reached (h : after (Buffers.device.next code s.limit) n x = .inl y) :
    nth code n (s.reached x) x.1.workspace = (s.reached y).next code y.1.workspace := by
  induction n generalizing x with
  | zero =>
    obtain rfl : x = y := Sum.inl.inj h
    rfl
  | succ n ih =>
    obtain ⟨z, first, rest⟩ := exists_of_after_succ h
    rw [nth, next_reached_of_inl first]
    exact ih rest

/-- An entry that a run carries out has a text. -/
theorem mnemonic?_ne_none (h : Buffers.device.next code s.limit x = .inl y) :
    code.mnemonic? x.1.pc ≠ none :=
  fun missing => (Device.goes_of_next h).inside (Code.mnemonic?_eq_none_iff.1 missing)

/-- Where a run goes on the stepper shows the state after an instruction. -/
theorem nth_reached_of_after (h : after (Buffers.device.next code s.limit) (n + 1) x = .inl y) :
    ∃ z, after (Buffers.device.next code s.limit) n x = .inl z ∧ code.mnemonic? z.1.pc ≠ none ∧
      nth code n (s.reached x) x.1.workspace =
        ⟨.ok (some (y.1.snapshot code s.radius (code.mnemonic? z.1.pc) y.2.written)),
          y.1.workspace, s.reached y⟩ := by
  obtain ⟨z, hz, last⟩ := exists_last_of_after_inl h
  exact ⟨z, hz, mnemonic?_ne_none last, (nth_reached hz).trans (next_reached_of_inl last)⟩

/-- A stepper shows the state after an instruction only where the run goes on. -/
theorem exists_after_of_nth_reached {v : Snapshot}
    (h : (nth code n (s.reached x) x.1.workspace).yield = .ok (some v))
    (named : v.instruction ≠ none) :
    ∃ y, after (Buffers.device.next code s.limit) (n + 1) x = .inl y := by
  induction n generalizing x with
  | zero =>
    cases hs : Buffers.device.next code s.limit x with
    | inl z => exact ⟨z, after_one_of_inl hs⟩
    | inr f =>
      rw [nth, next_reached_of_inr hs] at h
      cases result : f.result with
      | error e => simp [result, Except.map] at h
      | ok done =>
        obtain rfl : f.machine.snapshot code s.radius none f.device.written = v := by
          simpa [result, Except.map] using h
        exact absurd rfl named
  | succ n ih =>
    cases hs : Buffers.device.next code s.limit x with
    | inl z =>
      rw [nth, next_reached_of_inl hs] at h
      rw [after_succ_of_inl hs]
      exact ih h
    | inr f =>
      rw [nth, next_reached_of_inr hs, nth_of_closed rfl] at h
      cases h

end Stepper

namespace Program

/-- The step with number `n` of a stepper over given input, if nobody else moves the tape. -/
def stepped (p : Program) (input : List UInt8) (limit : Option Int) (radius : Int) (n : Nat) :
    Stepped :=
  Stepper.nth p.code n { input := input, limit := limit, radius := radius } {}

variable {p : Program} {input : List UInt8} {limit : Option Int} {radius : Int} {n : Nat}

theorem stepped_of_after (radius : Int) {y : Machine × Buffers}
    (h : after (Buffers.device.next p.code limit) (n + 1) ({}, ⟨input, []⟩) = .inl y) :
    ∃ x, after (Buffers.device.next p.code limit) n ({}, ⟨input, []⟩) = .inl x ∧
      p.code.mnemonic? x.1.pc ≠ none ∧
      (p.stepped input limit radius n).yield =
        .ok (some (y.1.snapshot p.code radius (p.code.mnemonic? x.1.pc) y.2.written)) ∧
      (p.stepped input limit radius n).workspace = y.1.workspace := by
  let s : Stepper := { input := input, limit := limit, radius := radius }
  obtain ⟨x, hx, named, shown⟩ := Stepper.nth_reached_of_after (s := s) h
  exact ⟨x, hx, named, by rw [stepped, Stepper.nth_of_fresh rfl, shown], by
    rw [stepped, Stepper.nth_of_fresh rfl, shown]⟩

theorem exists_after_of_stepped {v : Snapshot}
    (h : (p.stepped input limit radius n).yield = .ok (some v)) (named : v.instruction ≠ none) :
    ∃ y, after (Buffers.device.next p.code limit) (n + 1) ({}, ⟨input, []⟩) = .inl y := by
  rw [stepped, Stepper.nth_of_fresh rfl] at h
  exact Stepper.exists_after_of_nth_reached h named

end Program

end ByteTape
