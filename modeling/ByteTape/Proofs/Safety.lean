import ByteTape.Stepper
import ByteTape.Proofs.Folding.Acceptance
import ByteTape.Proofs.Paired
import ByteTape.Proofs.Turns
import Mathlib.Logic.Relation

/-!
# Safety on a shared tape

Steppers and runs of `execute` may take turns on the one tape of a program in any order, so a run
can be continued in the middle of the code on a tape that another run has just cleared or moved. The
program counters and the tape are safe each on its own: every turn keeps a counter in the code and a
tape in its geometry, and for a turn to be safe it needs no more than that.
-/

namespace ByteTape

/-- A machine that any turn can be taken from. -/
structure Machine.Safe (m : Machine) (code : Code) : Prop where
  pc_le : m.pc ≤ code.size
  wellFormed : m.tape.WellFormed

/-- The errors that a run can end with when it leaves its streams in a given state: the limit, if
there is one, the end of the input, and what a stream has answered with. -/
inductive Device.Raises {σ : Type} (d : Device σ) (limit : Option Int) (t : σ) :
    RunError → Prop where
  | stepLimit (limited : limit ≠ none) : Raises d limit t .stepLimit
  | inputExhausted {s : σ} (answer : d.read s = (.ok none, t)) : Raises d limit t .inputExhausted
  | read {s : σ} {e : StreamError} (answer : d.read s = (.error e, t)) :
      Raises d limit t (.ofStream .read e)
  | print {value : UInt8} {s : σ} {e : StreamError} (answer : d.write value s = (.error e, t)) :
      Raises d limit t (.ofStream .print e)
  | flush {s : σ} {e : StreamError} (answer : d.flush s = (.error e, t)) :
      Raises d limit t (.ofStream .flush e)

namespace Device

variable {σ : Type} {d : Device σ} {code : Code} {limit : Option Int} {x y : Machine × σ}
  {f : Finish σ}

/-- A turn that goes on keeps a machine safe. -/
theorem Goes.safe (h : d.Goes code limit x y) (paired : code.Paired) (safe : x.1.Safe code) :
    y.1.Safe code := by
  cases h with
  | motion here => exact ⟨Code.lt_size_of_operation? here, safe.wellFormed.move _ _⟩
  | taken here => exact ⟨Code.lt_size_of_operation? here, safe.wellFormed⟩
  | refused => exact safe
  | received here => exact ⟨Code.lt_size_of_operation? here, safe.wellFormed.write _⟩
  | passed here => exact ⟨Code.lt_size_of_operation? here, safe.wellFormed⟩
  | @jumped m s side target here allowed jumps partner =>
    -- The jump goes behind the partner, which is an entry of the code.
    refine ⟨?_, safe.wellFormed⟩
    cases side with
    | opening =>
      obtain ⟨j, pairs⟩ := paired.stop _ here
      obtain rfl := Except.ok.inj (pairs.stop.symm.trans partner)
      exact Code.lt_size_of_operation? pairs.closing
    | closing =>
      obtain ⟨i, pairs⟩ := paired.start _ here
      obtain rfl := Except.ok.inj (pairs.start.symm.trans partner)
      exact Code.lt_size_of_operation? pairs.opening

/-- The last turn of a run in paired code fails for the limit or for a stream, if at all. -/
theorem Ends.raises (h : d.Ends code limit x f) (paired : code.Paired) {e : RunError}
    (failed : f.result = .error e) : d.Raises limit f.device e := by
  cases h with
  | done => cases failed
  | flush past answer => exact Except.error.inj failed ▸ .flush answer
  | limit here reached =>
    have limited : limit ≠ none := by
      rintro rfl
      cases reached
    exact Except.error.inj failed ▸ .stepLimit limited
  | exhausted here allowed answer => exact Except.error.inj failed ▸ .inputExhausted answer
  | read here allowed answer => exact Except.error.inj failed ▸ .read answer
  | print here allowed answer => exact Except.error.inj failed ▸ .print answer
  | @loop m s side e here allowed jumps missing =>
    -- No jump of paired code looks for its partner in vain.
    cases side with
    | opening =>
      obtain ⟨j, pairs⟩ := paired.stop _ here
      cases pairs.stop.symm.trans missing
    | closing =>
      obtain ⟨i, pairs⟩ := paired.start _ here
      cases pairs.start.symm.trans missing

/-- Every machine that a run comes to is safe. -/
theorem safe_of_after {p : Program} {n : Nat} {s : σ}
    (h : after (d.next p.code limit) n ({}, s) = .inl x) : x.1.Safe p.code := by
  refine after_invariant (P := fun x => x.1.Safe p.code) ?_ ?_ h
  · intro y z safe next
    exact (goes_of_next next).safe p.paired safe
  · exact ⟨Nat.zero_le _, Tape.wellFormed_blank⟩

end Device

/-- In-memory streams fail only by running out of input. -/
theorem Buffers.eq_of_raises {limit : Option Int} {t : Buffers} {e : RunError}
    (h : Buffers.device.Raises limit t e) :
    e = .inputExhausted ∨ e = .stepLimit ∧ limit ≠ none := by
  cases h with
  | stepLimit limited => exact .inr ⟨rfl, limited⟩
  | inputExhausted => exact .inl rfl
  | read answer => cases answer
  | print answer => cases answer
  | flush answer => cases answer

/-- The program counter of a stepper that has begun is in the code. -/
def Stepper.Within (s : Stepper) (code : Code) : Prop :=
  ∀ pc steps buffers, s.stage = .running pc steps buffers → pc ≤ code.size

/-- A step leaves tape and stepper safe and fails for the limit or for want of input only. -/
structure Stepped.Safe (r : Stepped) (code : Code) (limit : Option Int) : Prop where
  wellFormed : r.workspace.tape.WellFormed
  within : r.stepper.Within code
  failed : ∀ e, r.yield = .error e → e = .inputExhausted ∨ e = .stepLimit ∧ limit ≠ none

namespace Stepper

variable {s : Stepper} {code : Code}

theorem safe_advance (paired : code.Paired) {w : Workspace} {pc : Nat} (steps : Nat)
    (buffers : Buffers) (safe : Machine.Safe ⟨w.tape, pc, steps⟩ code) :
    (s.advance code w pc steps buffers).Safe code s.limit := by
  rcases Buffers.device.next_cases code s.limit (⟨w.tape, pc, steps⟩, buffers) with
    ⟨y, hy, goes⟩ | ⟨f, hf, ends⟩
  · have after := goes.safe paired safe
    simp only [advance, Device.next_eq_inl_iff.1 hy]
    refine ⟨after.wellFormed, ?_, nofun⟩
    intro pc' steps' buffers' stage
    obtain ⟨rfl, -, -⟩ := Stage.running.inj stage
    exact after.pc_le
  · simp only [advance, Device.next_eq_inr_iff.1 hf]
    refine ⟨?_, nofun, ?_⟩
    · rw [ends.machine_eq]
      exact safe.wellFormed
    · intro e failed
      cases result : f.result with
      | ok done => simp [result, Except.map] at failed
      | error e' =>
        obtain rfl : e' = e := by simpa [result, Except.map] using failed
        exact Buffers.eq_of_raises (ends.raises paired result)

/-- A step on any well-formed tape is safe, wherever the stepper has come to on other tapes. -/
theorem safe_next (paired : code.Paired) {w : Workspace} (tape : w.tape.WellFormed)
    (within : s.Within code) : (s.next code w).Safe code s.limit := by
  unfold next
  split
  -- The first step does not take the tape as it is, but a blank one.
  · exact safe_advance paired 0 _ ⟨Nat.zero_le _, Tape.wellFormed_blank⟩
  · next pc steps buffers stage =>
    exact safe_advance paired steps buffers ⟨within _ _ _ stage, tape⟩
  · exact ⟨tape, within, nofun⟩

end Stepper

/-- A run of `execute` that is under way: its streams and its limit, and how far it has come. -/
structure Execution where
  {σ : Type}
  device : Device σ
  limit : Option Int := none
  streams : σ
  pc : Nat := 0
  steps : Nat := 0

/-- The next turn of such a run, on a given tape. -/
def Execution.turn (c : Execution) (code : Code) (t : Tape) : Turn c.σ :=
  c.device.turn code c.limit ⟨t, c.pc, c.steps⟩ c.streams

namespace Execution

variable {c : Execution} {code : Code} {t : Tape}

theorem goes {m : Machine} {s : c.σ} (h : c.turn code t = .next m s) :
    c.device.Goes code c.limit (⟨t, c.pc, c.steps⟩, c.streams) (m, s) :=
  Device.goes_of_next (Device.next_eq_inl_iff.2 h)

theorem ends {f : Finish c.σ} (h : c.turn code t = .done f) :
    c.device.Ends code c.limit (⟨t, c.pc, c.steps⟩, c.streams) f :=
  Device.ends_of_next (Device.next_eq_inr_iff.2 h)

end Execution

/-- All that goes on with one program: the workspace, the steppers and the runs under way. -/
structure Bench where
  workspace : Workspace := {}
  steppers : List Stepper := []
  executions : List Execution := []

namespace Bench

variable {p : Program} {b b' : Bench}

/-- What can happen next: a stepper is made, steps or is started again; a run begins, which clears
the tape, takes a turn, or ends, which tells its step count. -/
inductive Event (p : Program) : Bench → Bench → Prop where
  | make (b : Bench) {s : Stepper} (fresh : s.stage = .fresh) :
      Event p b { b with steppers := s :: b.steppers }
  | step (b : Bench) {i : Nat} {s : Stepper} (here : b.steppers[i]? = some s) :
      Event p b { b with
        workspace := (s.next p.code b.workspace).workspace
        steppers := b.steppers.set i (s.next p.code b.workspace).stepper }
  | restart (b : Bench) {i : Nat} {s : Stepper} (here : b.steppers[i]? = some s) :
      Event p b { b with steppers := b.steppers.set i { s with stage := .fresh } }
  | begin (b : Bench) {σ : Type} (d : Device σ) (limit : Option Int) (streams : σ) :
      Event p b { b with
        workspace := { b.workspace with tape := .blank }
        executions := { device := d, limit := limit, streams := streams } :: b.executions }
  | turn (b : Bench) {i : Nat} {c : Execution} (here : b.executions[i]? = some c) {m : Machine}
      {t : c.σ} (goes : c.turn p.code b.workspace.tape = .next m t) :
      Event p b { b with
        workspace := { b.workspace with tape := m.tape }
        executions := b.executions.set i { c with streams := t, pc := m.pc, steps := m.steps } }
  | finish (b : Bench) {i : Nat} {c : Execution} (here : b.executions[i]? = some c) {f : Finish c.σ}
      (ends : c.turn p.code b.workspace.tape = .done f) :
      Event p b { b with
        workspace := ⟨f.machine.tape, f.machine.steps⟩
        executions := b.executions.eraseIdx i }

/-- What one program can come to from its construction on. -/
def Reachable (p : Program) : Bench → Prop := Relation.ReflTransGen (Event p) {}

/-- The tape is well formed and every program counter is in the code. -/
structure Safe (b : Bench) (code : Code) : Prop where
  wellFormed : b.workspace.tape.WellFormed
  steppers : ∀ s ∈ b.steppers, s.Within code
  executions : ∀ c ∈ b.executions, c.pc ≤ code.size

theorem Safe.machine (h : b.Safe p.code) {c : Execution} (inside : c ∈ b.executions) :
    Machine.Safe ⟨b.workspace.tape, c.pc, c.steps⟩ p.code :=
  ⟨h.executions c inside, h.wellFormed⟩

/-- Everything that happens keeps a bench safe. -/
theorem Event.safe (h : Event p b b') (safe : b.Safe p.code) : b'.Safe p.code := by
  cases h with
  | make fresh =>
    refine ⟨safe.wellFormed, ?_, safe.executions⟩
    refine List.forall_mem_cons.2 ⟨?_, safe.steppers⟩
    intro pc steps buffers stage
    cases fresh.symm.trans stage
  | step here =>
    have next := Stepper.safe_next p.paired safe.wellFormed
      (safe.steppers _ (List.mem_of_getElem? here))
    refine ⟨next.wellFormed, ?_, safe.executions⟩
    intro s' inside
    rcases List.mem_or_eq_of_mem_set inside with before | rfl
    · exact safe.steppers s' before
    · exact next.within
  | restart here =>
    refine ⟨safe.wellFormed, ?_, safe.executions⟩
    intro s' inside
    rcases List.mem_or_eq_of_mem_set inside with before | rfl
    · exact safe.steppers s' before
    · exact nofun
  | begin d limit streams =>
    refine ⟨Tape.wellFormed_blank, safe.steppers, ?_⟩
    exact List.forall_mem_cons.2 ⟨Nat.zero_le _, safe.executions⟩
  | turn here goes =>
    have machine := safe.machine (List.mem_of_getElem? here)
    have after := (Execution.goes goes).safe p.paired machine
    refine ⟨after.wellFormed, safe.steppers, ?_⟩
    intro c' inside
    rcases List.mem_or_eq_of_mem_set inside with before | rfl
    · exact safe.executions c' before
    · exact after.pc_le
  | finish here ends =>
    refine ⟨?_, safe.steppers, ?_⟩
    · rw [(Execution.ends ends).machine_eq]
      exact safe.wellFormed
    · intro c' inside
      exact safe.executions c' (List.mem_of_mem_eraseIdx inside)

/-- Whatever one program can come to is safe. -/
theorem Reachable.safe (h : Reachable p b) : b.Safe p.code := by
  induction h with
  | refl => exact ⟨Tape.wellFormed_blank, nofun, nofun⟩
  | tail _ event ih => exact event.safe ih

/-- A run that is left alone goes on to its end. -/
theorem Reachable.resume {σ : Type} {d : Device σ} {limit : Option Int} {fuel : Nat} {m : Machine}
    {s : σ} {f : Finish σ}
    (h : Reachable p { b with
      workspace := { b.workspace with tape := m.tape }
      executions :=
        { device := d, limit := limit, streams := s, pc := m.pc, steps := m.steps } ::
          b.executions })
    (hf : d.resume p.code limit fuel m s = some f) :
    Reachable p { b with workspace := ⟨f.machine.tape, f.machine.steps⟩ } := by
  induction fuel generalizing m s with
  | zero => cases hf
  | succ fuel ih =>
    rw [Device.resume_succ] at hf
    let c : Execution :=
      { device := d, limit := limit, streams := s, pc := m.pc, steps := m.steps }
    let before : Bench := { b with
      workspace := { b.workspace with tape := m.tape }
      executions := c :: b.executions }
    have here : before.executions[0]? = some c := rfl
    cases turn : d.turn p.code limit m s with
    | next m' s' =>
      rw [turn] at hf
      have goes : c.turn p.code before.workspace.tape = .next m' s' := turn
      exact ih (h.tail (.turn before here goes)) hf
    | done g =>
      rw [turn] at hf
      obtain rfl := Option.some.inj hf
      have ends : c.turn p.code before.workspace.tape = .done g := turn
      exact h.tail (.finish before here ends)

/-- A whole run is a sequence of events. -/
theorem Reachable.execute (h : Reachable p b) {σ : Type} {d : Device σ} {limit : Option Int}
    {fuel : Nat} {s : σ} {f : Finish σ} (hf : d.execute p limit fuel s = some f) :
    Reachable p { b with workspace := ⟨f.machine.tape, f.machine.steps⟩ } :=
  Reachable.resume (h.tail (.begin b d limit s)) hf

end Bench

/-- A whole run fails for its limit or for its streams, if it fails at all. -/
theorem Device.raises_of_execute {p : Program} {σ : Type} {d : Device σ} {limit : Option Int}
    {fuel : Nat} {s : σ} {f : Finish σ} (hf : d.execute p limit fuel s = some f) {e : RunError}
    (failed : f.result = .error e) : d.Raises limit f.device e := by
  obtain ⟨k, x, -, -, last⟩ := exists_last_of_after_inr (resume_eq_some_iff.1 hf)
  exact (ends_of_next last).raises p.paired failed

/-- In safe code an entry is missing only where the code is done. -/
theorem Code.operation?_eq_none_iff_of_le {c : Code} {pc : Nat} (h : pc ≤ c.size) :
    c.operation? pc = none ↔ pc = c.size := by
  have beyond : c.operation? pc = none ↔ c.size ≤ pc := by
    cases c <;> simp [operation?, size]
  rw [beyond]
  omega

/-- Whatever steppers and runs do with one program and its tape, in any order, nothing goes wrong
but limits and streams. Every loop boundary has a partner in the code, in instructions the one that
it names. The head stays in the buffer, and every program counter stays in the code and misses an
instruction only where the code is done. A step fails for its limit or for want of input, and a turn
of a run, or a whole run, for its limit or with what a stream has answered. -/
theorem Program.safe_on_shared_tape (p : Program) :
    (∀ i side, p.code.operation? i = some (.boundary side) →
      ∃ j, p.code.partner i side = .ok j ∧ j < p.code.size ∧
        ∀ is, p.code = .folded is → is[i]?.bind Instruction.target? = some (j : Int)) ∧
    ∀ b, Bench.Reachable p b →
      b.workspace.tape.head < b.workspace.tape.buffer.size ∧
      (∀ s ∈ b.steppers,
        (∀ pc steps buffers, s.stage = .running pc steps buffers →
          pc ≤ p.code.size ∧ (p.code.operation? pc = none ↔ pc = p.code.size)) ∧
        ∀ e, (s.next p.code b.workspace).yield = .error e →
          e = .inputExhausted ∨ e = .stepLimit ∧ s.limit ≠ none) ∧
      (∀ c ∈ b.executions,
        c.pc ≤ p.code.size ∧ (p.code.operation? c.pc = none ↔ c.pc = p.code.size) ∧
        ∀ f e, c.turn p.code b.workspace.tape = .done f → f.result = .error e →
          c.device.Raises c.limit f.device e) ∧
      ∀ (σ : Type) (d : Device σ) (limit : Option Int) (fuel : Nat) (s : σ) (f : Finish σ),
        d.execute p limit fuel s = some f →
          Bench.Reachable p { b with workspace := ⟨f.machine.tape, f.machine.steps⟩ } ∧
          ∀ e, f.result = .error e → d.Raises limit f.device e := by
  refine ⟨?_, fun b reachable => ?_⟩
  · intro i side here
    obtain ⟨j, partner, inside⟩ :
        ∃ j, p.code.partner i side = .ok j ∧ j < p.code.size := by
      cases side with
      | opening =>
        obtain ⟨j, pairs⟩ := p.paired.stop i here
        exact ⟨j, pairs.stop, Code.lt_size_of_operation? pairs.closing⟩
      | closing =>
        obtain ⟨j, pairs⟩ := p.paired.start i here
        exact ⟨j, pairs.start, Code.lt_size_of_operation? pairs.opening⟩
    refine ⟨j, partner, inside, ?_⟩
    intro is code
    have accepted := p.accepted
    rw [code] at accepted here partner
    exact Code.target?_of_partner accepted here partner
  · have safe := reachable.safe
    refine ⟨safe.wellFormed.head_lt_size, ?_, ?_, ?_⟩
    · intro s inside
      have within := safe.steppers s inside
      refine ⟨?_, ?_⟩
      · intro pc steps buffers stage
        have le := within pc steps buffers stage
        exact ⟨le, Code.operation?_eq_none_iff_of_le le⟩
      · intro e failed
        have next := Stepper.safe_next p.paired safe.wellFormed within
        exact next.failed e failed
    · intro c inside
      have le := safe.executions c inside
      refine ⟨le, Code.operation?_eq_none_iff_of_le le, ?_⟩
      intro f e ends failed
      exact (Execution.ends ends).raises p.paired failed
    · intro σ d limit fuel s f hf
      exact ⟨reachable.execute hf, fun e failed => Device.raises_of_execute hf failed⟩

/-- In instructions whose loops cross, a stepper inside of both loops finds its tape cleared by a
run that begins, and jumps to the end of the code. -/
theorem Program.safe_on_shared_tape_crossed :
    let is : Array Instruction := #[.counted .increment 1, .loopStart (some 3), .loopStart (some 4),
      .loopEnd 1, .loopEnd 2]
    ∃ p, ofCode (.folded is) = .ok p ∧ ∃ b, Bench.Reachable p b ∧
      b.steppers = [{ stage := .running 5 3 ⟨[], []⟩ }] ∧ b.executions ≠ [] ∧
      b.workspace.tape.head < b.workspace.tape.buffer.size := by
  intro is
  obtain ⟨p, hp⟩ : ∃ p, ofCode (.folded is) = .ok p := exists_ofCode_iff.2 rfl
  have code := ofCode_code hp
  obtain ⟨_, accepted⟩ := p
  subst code
  refine ⟨_, hp, ?_⟩
  have made : Bench.Reachable ⟨.folded is, accepted⟩ { steppers := [{}] } :=
    .single (.make {} rfl)
  have stepped := (made.tail (.step _ (i := 0) rfl)).tail (.step _ (i := 0) rfl)
  have begun := stepped.tail (.begin _ Buffers.device none ⟨[], []⟩)
  have reached := begun.tail (.step _ (i := 0) rfl)
  exact ⟨_, reached, rfl, nofun, ((safe_on_shared_tape _).2 _ reached).1⟩

end ByteTape
