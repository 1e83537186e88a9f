import ByteTape.Device
import ByteTape.Program
import ByteTape.Tape.Basic

/-!
# The machine

A machine is a tape, a position in the code and a count of completed instructions. Its next effect
says what it does alone or wants from its streams, so that in-memory, scripted and real streams are
served by one definition. A run repeats turns until the code is done or something fails; it takes
fuel, because neither a program nor a stream that refuses its bytes has to end.
-/

namespace ByteTape

/-- Which stream operation failed. -/
inductive Activity where
  | read
  | print
  | flush
  deriving DecidableEq, Repr

/-- The ways a run can fail. -/
inductive RunError where
  | inputExhausted
  | io (activity : Activity) (text : String)
  | stepLimit
  /-- An error of the operating system that tells a wrong number of bytes. -/
  | byteCount (e : ByteCountError)
  /-- A failure of a stream that is not the operating system's. -/
  | stream (text : String)
  | loop (e : LoopError)
  deriving DecidableEq, Repr

namespace RunError

/-- A stream error met during an activity. -/
def ofStream (activity : Activity) : StreamError → RunError
  | .os text => io activity text
  | .byteCount e => byteCount e
  | .other text => stream text

def message : RunError → String
  | inputExhausted => "Failed to read input: input stream is exhausted"
  | io .read text => "Failed to read input: " ++ text
  | io .print text => "Failed to print data: " ++ text
  | io .flush text => "Failed to flush output: " ++ text
  | stepLimit => "Program exceeded allowed step count"
  | byteCount e => e.message
  | stream text => text
  | loop e => e.message

end RunError

/-- A tape, the index of the next instruction, and the number of instructions completed. -/
structure Machine where
  tape : Tape := .blank
  pc : Nat := 0
  steps : Nat := 0
  deriving DecidableEq, Repr

/-- What a machine does next. Each case holds the machine it leaves or waits with. -/
inductive Effect where
  /-- An instruction was completed. -/
  | ran (m : Machine)
  /-- The next instruction waits for a byte. -/
  | wantsByte (m : Machine)
  /-- The next instruction waits until the active cell is taken. -/
  | offersByte (m : Machine)
  /-- The code is done, or the run has failed. -/
  | stopped (m : Machine) (result : Except RunError Unit)

namespace Machine

/-- Complete an instruction that goes on at the next index. -/
def advance (m : Machine) : Machine := { m with pc := m.pc + 1, steps := m.steps + 1 }

/-- Complete an input instruction. -/
def receive (m : Machine) (value : UInt8) : Machine :=
  { tape := m.tape.write value, pc := m.pc + 1, steps := m.steps + 1 }

/-- Whether a loop boundary jumps: a start over a zero, an end back from anything else. -/
def jumps (m : Machine) : Bracket → Bool
  | .opening => m.tape.read == 0
  | .closing => m.tape.read != 0

/-- Whether the step limit, if there is one, has been reached. -/
def limitReached (m : Machine) (limit : Option Int) : Bool :=
  limit.any fun most : Int => decide (most ≤ (m.steps : Int))

/-- Carry out one operation as far as it goes without a stream. -/
def perform (m : Machine) (code : Code) : Operation → Effect
  | .motion k n => .ran { tape := m.tape.move n k, pc := m.pc + 1, steps := m.steps + 1 }
  | .output => .offersByte m
  | .input => .wantsByte m
  | .boundary side =>
    if m.jumps side then
      match code.partner m.pc side with
      | .ok target => .ran { m with pc := target + 1, steps := m.steps + 1 }
      | .error e => .stopped m (.error (.loop e))
    else .ran m.advance

/-- The next effect. Code that is done ends the run before the step limit is looked at. -/
def effect (m : Machine) (code : Code) (limit : Option Int) : Effect :=
  match code.operation? m.pc with
  | none => .stopped m (.ok ())
  | some operation =>
    if m.limitReached limit then .stopped m (.error .stepLimit) else m.perform code operation

/-- All that an effect can be: the code is done, or the limit is reached before an entry of it, or
the entry is carried out. -/
theorem effect_cases (m : Machine) (code : Code) (limit : Option Int) :
    (code.operation? m.pc = none ∧ m.effect code limit = .stopped m (.ok ())) ∨
    ∃ operation, code.operation? m.pc = some operation ∧
      ((m.limitReached limit = true ∧ m.effect code limit = .stopped m (.error .stepLimit)) ∨
        (m.limitReached limit = false ∧ m.effect code limit = m.perform code operation)) := by
  cases entry : code.operation? m.pc with
  | none => exact .inl ⟨rfl, by simp [effect, entry]⟩
  | some operation =>
    refine .inr ⟨operation, rfl, ?_⟩
    cases reached : m.limitReached limit with
    | true => exact .inl ⟨rfl, by simp [effect, entry, reached]⟩
    | false => exact .inr ⟨rfl, by simp [effect, entry, reached]⟩

end Machine

/-- How a run ended: with what result, on what machine, and with the streams in what state. -/
structure Finish (σ : Type) where
  result : Except RunError Unit
  machine : Machine
  device : σ

/-- What one turn leads to. -/
inductive Turn (σ : Type) where
  | next (m : Machine) (s : σ)
  | done (finish : Finish σ)

namespace Device

variable {σ : Type}

/-- Serve the next effect of a machine. A byte that is refused leaves the machine as it is. The
output is flushed once the code is done, and only then. -/
@[inline] def turn (d : Device σ) (code : Code) (limit : Option Int) (m : Machine) (s : σ) :
    Turn σ :=
  match m.effect code limit with
  | .ran m => .next m s
  | .wantsByte m =>
    match d.read s with
    | (.ok (some value), s) => .next (m.receive value) s
    | (.ok none, s) => .done ⟨.error .inputExhausted, m, s⟩
    | (.error e, s) => .done ⟨.error (.ofStream .read e), m, s⟩
  | .offersByte m =>
    match d.write m.tape.read s with
    | (.ok true, s) => .next m.advance s
    | (.ok false, s) => .next m s
    | (.error e, s) => .done ⟨.error (.ofStream .print e), m, s⟩
  | .stopped m (.ok ()) =>
    match d.flush s with
    | (.ok (), s) => .done ⟨.ok (), m, s⟩
    | (.error e, s) => .done ⟨.error (.ofStream .flush e), m, s⟩
  | .stopped m (.error e) => .done ⟨.error e, m, s⟩

/-- Take turns from a given machine until the run ends; `none` if the fuel runs out first. -/
def resume (d : Device σ) (code : Code) (limit : Option Int) :
    (fuel : Nat) → Machine → σ → Option (Finish σ)
  | 0, _, _ => none
  | fuel + 1, m, s =>
    match d.turn code limit m s with
    | .next m s => resume d code limit fuel m s
    | .done finish => some finish

/-- Run a program from a blank tape. -/
def execute (d : Device σ) (p : Program) (limit : Option Int) (fuel : Nat) (s : σ) :
    Option (Finish σ) :=
  d.resume p.code limit fuel {} s

@[simp] theorem resume_zero (d : Device σ) (code : Code) (limit : Option Int) (m : Machine)
    (s : σ) : d.resume code limit 0 m s = none := rfl

theorem resume_succ (d : Device σ) (code : Code) (limit : Option Int) (fuel : Nat) (m : Machine)
    (s : σ) :
    d.resume code limit (fuel + 1) m s =
      match d.turn code limit m s with
      | .next m s => d.resume code limit fuel m s
      | .done finish => some finish := rfl

/-- More fuel keeps a finished answer. -/
theorem resume_mono (d : Device σ) (code : Code) (limit : Option Int) {fuel more : Nat}
    (h : fuel ≤ more) {m : Machine} {s : σ} {finish : Finish σ}
    (hf : d.resume code limit fuel m s = some finish) :
    d.resume code limit more m s = some finish := by
  induction fuel generalizing more m s with
  | zero => simp at hf
  | succ fuel ih =>
    obtain ⟨more, rfl⟩ := Nat.exists_eq_add_of_le' (Nat.le_of_lt_succ (Nat.lt_succ_of_le h))
    rw [show more + (fuel + 1) = (more + fuel) + 1 from rfl, resume_succ]
    rw [resume_succ] at hf
    split at hf
    · exact ih (Nat.le_add_left fuel more) hf
    · exact hf

end Device

end ByteTape
