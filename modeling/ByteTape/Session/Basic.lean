import ByteTape.Session.Breakpoints
import ByteTape.Stepper

/-!
# Sessions

A session follows one program step by step: it keeps the latest snapshots, stops at breakpoints, and
knows when the run is over. It owns a stepper but not the tape, so each operation takes the
program's workspace and gives it back.
-/

namespace ByteTape

/-- How a session is set up. -/
structure SessionOptions where
  input : List UInt8 := []
  radius : Int := 10
  limit : Option Int := none
  historyLimit : Int := 200
  deriving DecidableEq, Repr

/-- One run under observation. `history` holds the latest snapshots, oldest first, and `hit` the
breakpoint at which the latest operation stopped. -/
structure Session where
  options : SessionOptions
  codeLength : Nat
  stepper : Stepper
  finished : Bool := false
  current : Snapshot
  history : Array Snapshot := #[]
  breakpoints : Breakpoints := {}
  hit : Option Nat := none
  deriving DecidableEq, Repr

/-- What an operation answers, with the workspace and the session it leaves. -/
structure Outcome where
  result : Except RunError (Array Snapshot)
  workspace : Workspace
  session : Session

namespace Session

/-- Drop the oldest snapshot if there are too many. -/
def dropOldest (limit : Int) (history : Array Snapshot) : Array Snapshot :=
  if limit < history.size then history.extract 1 history.size else history

/-- Append to the history and show the new snapshot. -/
def record (s : Session) (x : Snapshot) : Session :=
  { s with history := dropOldest s.options.historyLimit (s.history.push x), current := x }

/-- The stepper that a session starts with. -/
def freshStepper (o : SessionOptions) : Stepper :=
  { input := o.input, limit := o.limit, radius := o.radius }

/-- Start the run again. History, breakpoints and the hit stay; the workspace is left alone until
the next step. -/
def restart (s : Session) : Session :=
  { s with stepper := freshStepper s.options, finished := false }.record
    { codeLength := s.codeLength }

/-- A session over some code that has not taken a step. -/
def start (code : Code) (o : SessionOptions) : Session :=
  restart
    { options := o, codeLength := code.size, stepper := freshStepper o,
      current := { codeLength := code.size } }

/-- Start the run again with an empty history and no breakpoints. -/
def reset (s : Session) : Session :=
  restart { s with history := #[], breakpoints := {}, hit := none }

def addBreakpoint (s : Session) (x : Int) : Session :=
  { s with breakpoints := s.breakpoints.insert x }

/-- Remove a breakpoint; the first component says whether there was one. -/
def removeBreakpoint (s : Session) (x : Int) : Bool × Session :=
  (decide (x ∈ s.breakpoints), { s with breakpoints := s.breakpoints.erase x })

def clearBreakpoints (s : Session) : Session := { s with breakpoints := {} }

/-- Take up to `count` steps after the given ones. The final snapshot, a breakpoint and an error all
end them early, and an error takes the place of the snapshots. -/
def stepOn (code : Code) : (count : Nat) → Workspace → Session → Array Snapshot → Outcome
  | 0, w, s, states => ⟨.ok states, w, s⟩
  | count + 1, w, s, states =>
    if s.finished then ⟨.ok states, w, s⟩
    else
      match s.stepper.next code w with
      | ⟨.ok none, w, stepper⟩ => ⟨.ok states, w, { s with stepper := stepper, finished := true }⟩
      | ⟨.error e, w, stepper⟩ => ⟨.error e, w, { s with stepper := stepper, finished := true }⟩
      | ⟨.ok (some x), w, stepper⟩ =>
        let s := { s with stepper := stepper }.record x
        let states := states.push x
        if x.instruction.isNone then ⟨.ok states, w, { s with finished := true }⟩
        else if (x.pc : Int) ∈ s.breakpoints then ⟨.ok states, w, { s with hit := some x.pc }⟩
        else stepOn code count w s states

/-- Take up to `count` steps. Asking for none leaves the session as it is, hit included. -/
def stepForward (s : Session) (code : Code) (w : Workspace) (count : Int) : Outcome :=
  if count ≤ 0 then ⟨.ok #[], w, s⟩
  else stepOn code count.toNat w { s with hit := none } #[]

/-- Take steps after the given ones, one at a time, until a breakpoint, the end or the limit. -/
def runOn (code : Code) (limit : Option Int) :
    (fuel : Nat) → Workspace → Session → Array Snapshot → Option Outcome
  | 0, _, _, _ => none
  | fuel + 1, w, s, states =>
    if limit.any fun most : Int => decide (most ≤ (states.size : Int)) then
      some ⟨.ok states, w, s⟩
    else
      match s.stepForward code w 1 with
      | ⟨.error e, w, s⟩ => some ⟨.error e, w, s⟩
      | ⟨.ok new, w, s⟩ =>
        if new.isEmpty then some ⟨.ok states, w, s⟩
        else if s.hit.isSome then some ⟨.ok (states ++ new), w, s⟩
        else runOn code limit fuel w s (states ++ new)

/-- Take steps until a breakpoint, the end or the limit; `none` if the fuel runs out first. -/
def runUntilBreak (s : Session) (code : Code) (w : Workspace) (limit : Option Int) (fuel : Nat) :
    Option Outcome :=
  runOn code limit fuel w s #[]

end Session

end ByteTape
