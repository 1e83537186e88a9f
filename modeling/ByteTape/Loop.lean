/-!
# Loop boundaries

What can be wrong with the loops of a program, and the check that they open and close in pairs. The
check reads any sequence whose entries may be brackets.
-/

namespace ByteTape

/-- A reason why a program's loops cannot be executed, with the index to blame. -/
inductive LoopError where
  /-- A loop end that closes nothing. -/
  | unexpectedEnd (index : Nat)
  /-- A loop start, the innermost one, that is never closed. -/
  | missingEnd (index : Nat)
  /-- A loop boundary whose jump target is not its partner. -/
  | mismatchedTarget (index : Nat) (target : Option Int)
  deriving DecidableEq, Repr

namespace LoopError

def index : LoopError → Nat
  | unexpectedEnd i | missingEnd i | mismatchedTarget i _ => i

/-- The wording of a loop error. -/
def message : LoopError → String
  | unexpectedEnd i => s!"Unexpected end of loop at instruction {i}"
  | missingEnd i => s!"Missing end of loop for loop started at instruction {i}"
  | mismatchedTarget i none => s!"Loop boundary at instruction {i} points to invalid target None"
  | mismatchedTarget i (some t) => s!"Loop boundary at instruction {i} points to invalid target {t}"

end LoopError

/-- A side of a loop. -/
inductive Bracket where
  | opening
  | closing
  deriving DecidableEq, Repr

namespace Bracket

variable {α : Type}

/-- Read a sequence from `index` on, with the indices of the loops open before it, innermost first.
The first end that closes nothing is refused at once, an unclosed start at the end. -/
def checkFrom (bracket : α → Option Bracket) :
    (index : Nat) → (opened : List Nat) → List α → Except LoopError Unit
  | _, [], [] => .ok ()
  | _, i :: _, [] => .error (.missingEnd i)
  | index, opened, a :: rest =>
    match bracket a, opened with
    | none, _ => checkFrom bracket (index + 1) opened rest
    | some .opening, _ => checkFrom bracket (index + 1) (index :: opened) rest
    | some .closing, [] => .error (.unexpectedEnd index)
    | some .closing, _ :: outer => checkFrom bracket (index + 1) outer rest

/-- Refuse a sequence whose loops do not open and close in pairs. -/
def check (bracket : α → Option Bracket) (entries : List α) : Except LoopError Unit :=
  checkFrom bracket 0 [] entries

end Bracket

end ByteTape
