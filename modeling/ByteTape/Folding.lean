import ByteTape.Instruction

/-!
# Folding

Folding turns commands into instructions in one pass. Runs of one motion collapse into a counted
instruction, opposite motions cancel, and a run that cancels to nothing lets the next motion rejoin
the run before it. Loop starts are emitted unresolved and filled in when their end is reached.
-/

namespace ByteTape

/-- The state between two commands of a folding pass. -/
structure Folding where
  /-- The instructions emitted so far. -/
  output : Array Instruction := #[]
  /-- The run that is still growing. -/
  pending : Option (Motion × Nat) := none
  /-- The indices of the unresolved loop starts, innermost first. -/
  opened : List Nat := []
  deriving DecidableEq, Repr

namespace Folding

/-- Emit the growing run, if there is one. -/
def flush (s : Folding) : Folding :=
  match s.pending with
  | none => s
  | some (m, n) => { s with output := s.output.push (.counted m n), pending := none }

/-- Emit an instruction after the growing run. -/
def emit (s : Folding) (i : Instruction) : Folding :=
  let s := s.flush
  { s with output := s.output.push i }

/-- With no run growing, take back the last instruction if it is a run on the axis of `m`. -/
def rejoin (s : Folding) (m : Motion) : Folding :=
  match s.pending, s.output.back? with
  | none, some (.counted k n) =>
    if m.sameAxis k then { s with output := s.output.pop, pending := some (k, n) } else s
  | _, _ => s

/-- Take in one motion: it extends a run of its own, cancels one step of an opposite run, and
otherwise starts a run. A full run is emitted before the next one starts. -/
def move (s : Folding) (m : Motion) : Folding :=
  let s := s.rejoin m
  match s.pending with
  | some (k, n) =>
    if k = m then
      if n < m.limit then { s with pending := some (m, n + 1) }
      else { s with output := s.output.push (.counted k n), pending := some (m, 1) }
    else if k = m.opposite then
      { s with pending := if 1 < n then some (k, n - 1) else none }
    else { s.flush with pending := some (m, 1) }
  | none => { s with pending := some (m, 1) }

/-- Open a loop whose end is not known yet. -/
def openLoop (s : Folding) : Folding :=
  let s := s.flush
  let start := s.output.size
  { s with output := s.output.push (.loopStart none), opened := start :: s.opened }

/-- Close the innermost loop and resolve both of its boundaries. Where there is none to close, the
error is the state at that point; the size of its output is the index to blame. -/
def closeLoop (s : Folding) : Except Folding Folding :=
  let s := s.flush
  match s.opened with
  | [] => .error s
  | start :: outer =>
    let stop := s.output.size
    match s.output[start]? with
    | some (.loopStart none) =>
      .ok { s with
        output := (s.output.setIfInBounds start (.loopStart (some stop))).push (.loopEnd start)
        opened := outer }
    | _ => .error { s with opened := outer }

/-- Take in one command. -/
def feed (s : Folding) : Command → Except Folding Folding
  | .motion m => .ok (s.move m)
  | .output => .ok (s.emit .output)
  | .input => .ok (s.emit .input)
  | .loopStart => .ok s.openLoop
  | .loopEnd => s.closeLoop

/-- Take in commands one after the other, up to the first loop end that closes nothing. -/
def feedAll (s : Folding) (cs : List Command) : Except Folding Folding := cs.foldlM feed s

/-- Fold a whole command list. Loops may stay open: their starts stay unresolved. -/
def run (cs : List Command) : Except Folding Folding := (feedAll {} cs).map flush

@[simp] theorem feedAll_nil (s : Folding) : s.feedAll [] = .ok s := rfl

@[simp] theorem feedAll_cons (s : Folding) (c : Command) (cs : List Command) :
    s.feedAll (c :: cs) = (s.feed c).bind (feedAll · cs) := rfl

theorem feedAll_append (s : Folding) (cs ds : List Command) :
    s.feedAll (cs ++ ds) = (s.feedAll cs).bind (feedAll · ds) := by
  simp [feedAll, List.foldlM_append, bind]

@[simp] theorem pending_flush (s : Folding) : s.flush.pending = none := by
  unfold flush
  split <;> simp_all

end Folding

/-- The instructions that a command list folds to, or the index of the loop end in it that closes
nothing, counted in instructions. -/
def fold? (cs : List Command) : Except Nat (Array Instruction) :=
  match Folding.run cs with
  | .ok s => .ok s.output
  | .error s => .error s.output.size

end ByteTape
