import ByteTape.Machine

/-!
# Stepping

A program is run step by step by a stepper, which shows a snapshot after every instruction and one
more when the code is done. The tape belongs to the program and not to the stepper: several steppers
and whole runs may take turns on one tape, and a stepper clears it only with its first step.
-/

namespace ByteTape

/-- What all runs of one program share: the tape, and the step count of whichever run moved last. -/
structure Workspace where
  tape : Tape := .blank
  steps : Nat := 0
  deriving DecidableEq, Repr

/-- The state after an instruction, with the cells around the head and the bytes written so far, the
latest first. Where `instruction` is missing, nothing was executed: the state is an initial or a
final one. -/
structure Snapshot where
  step : Nat := 0
  pc : Nat := 0
  instruction : Option String := none
  pointer : Nat := 0
  window : Tape.Window := ⟨0, #[0]⟩
  written : List UInt8 := []
  codeLength : Nat
  deriving DecidableEq, Repr

/-- The bytes written so far, in order. -/
def Snapshot.output (x : Snapshot) : List UInt8 := x.written.reverse

/-- How far a stepper has come. -/
inductive Stage where
  | fresh
  | running (pc steps : Nat) (buffers : Buffers)
  | closed
  deriving DecidableEq, Repr

/-- A run over given input that can be continued step by step. -/
structure Stepper where
  input : List UInt8 := []
  limit : Option Int := none
  radius : Int := 10
  stage : Stage := .fresh
  deriving DecidableEq, Repr

/-- What a step yields, with the workspace and the stepper it leaves. A closed stepper yields
nothing. -/
structure Stepped where
  yield : Except RunError (Option Snapshot)
  workspace : Workspace
  stepper : Stepper

/-- What can be seen of a machine and its streams. -/
def Machine.snapshot (m : Machine) (code : Code) (radius : Int) (instruction : Option String)
    (written : List UInt8) : Snapshot where
  step := m.steps
  pc := m.pc
  instruction := instruction
  pointer := m.tape.pointer
  window := m.tape.window radius
  written := written
  codeLength := code.size

namespace Stepper

/-- Take one turn from a position. A final snapshot and an error both close the stepper, and neither
changes the shared step count. -/
def advance (s : Stepper) (code : Code) (w : Workspace) (pc steps : Nat) (buffers : Buffers) :
    Stepped :=
  let instruction := code.mnemonic? pc
  let shared := w.steps
  match Buffers.device.turn code s.limit ⟨w.tape, pc, steps⟩ buffers with
  | .next m b =>
    { yield := .ok (some (m.snapshot code s.radius instruction b.written))
      stepper := { s with stage := .running m.pc m.steps b }
      workspace := ⟨m.tape, m.steps⟩ }
  | .done ⟨result, m, b⟩ =>
    { yield := result.map fun _ => some (m.snapshot code s.radius none b.written)
      stepper := { s with stage := .closed }
      workspace := ⟨m.tape, shared⟩ }

/-- The next step. The first one clears the workspace. -/
def next (s : Stepper) (code : Code) (w : Workspace) : Stepped :=
  match s.stage with
  | .fresh => s.advance code {} 0 0 ⟨s.input, []⟩
  | .running pc steps buffers => s.advance code w pc steps buffers
  | .closed => ⟨.ok none, w, s⟩

end Stepper

/-- The snapshots of a stepper until it closes, with the error that closed it, if one did. -/
structure Trace where
  states : Array Snapshot
  error : Option RunError
  workspace : Workspace

/-- The highest count of steps that a trace shows. -/
def Trace.highest (t : Trace) : Nat := t.states.foldl (fun total x => max total x.step) 0

/-- Step on until the stepper closes; `none` if the fuel runs out first. -/
def Stepper.exhaust (code : Code) :
    (fuel : Nat) → Stepper → Workspace → Array Snapshot → Option Trace
  | 0, _, _, _ => none
  | fuel + 1, s, w, states =>
    match s.next code w with
    | ⟨.ok none, w, _⟩ => some ⟨states, none, w⟩
    | ⟨.ok (some x), w, s⟩ => exhaust code fuel s w (states.push x)
    | ⟨.error e, w, _⟩ => some ⟨states, some e, w⟩

/-- How a whole run over given input ended: its output or an error, and the workspace it leaves. -/
structure Report where
  result : Except RunError (List UInt8)
  workspace : Workspace

namespace Program

/-- The stepper's trace of a program over given input. -/
def trace (p : Program) (s : Stepper) (fuel : Nat) : Option Trace := s.exhaust p.code fuel {} #[]

/-- Run a program over given input. -/
def run (p : Program) (input : List UInt8) (limit : Option Int) (fuel : Nat) : Option Report :=
  (Buffers.device.execute p limit fuel ⟨input, []⟩).map fun f =>
    { result := f.result.map fun _ => f.device.output
      workspace := ⟨f.machine.tape, f.machine.steps⟩ }

/-- The number of steps a run over given input takes, and whether it was cut off at `cap`: a stepper
with that limit shows them one by one. A run that fails counts the steps it completed. -/
def countSteps (p : Program) (input : List UInt8) (cap : Nat) : Nat × Bool :=
  -- Each step allowed takes one turn, and the stepper has closed two turns later.
  match p.trace { input := input, limit := some cap } (cap + 2) with
  | none => (cap, true)
  | some t =>
    match t.error with
    | some .stepLimit => (cap, true)
    | _ => (t.highest, false)

end Program

end ByteTape
