import ByteTape.Folding
import ByteTape.Loop

/-!
# Programs

The code of a program is a command sequence or its folded form. Both answer the same questions: what
the entry at an index asks for, how it is listed, and where a loop boundary jumps to. A raw loop
boundary finds its partner by scanning the commands, a folded one carries its index. A program is
code whose loops have been checked.
-/

namespace ByteTape

/-- What one entry of the code asks for, in either form. -/
inductive Operation where
  | motion (m : Motion) (count : Nat)
  | output
  | input
  | boundary (side : Bracket)
  deriving DecidableEq, Repr

namespace Operation

def bracket : Operation → Option Bracket
  | boundary side => some side
  | _ => none

end Operation

def Command.operation : Command → Operation
  | motion m => .motion m 1
  | output => .output
  | input => .input
  | loopStart => .boundary .opening
  | loopEnd => .boundary .closing

def Instruction.operation : Instruction → Operation
  | counted m n => .motion m n
  | output => .output
  | input => .input
  | loopStart _ => .boundary .opening
  | loopEnd _ => .boundary .closing

def Command.bracket (c : Command) : Option Bracket := c.operation.bracket
def Instruction.bracket (i : Instruction) : Option Bracket := i.operation.bracket

/-- The index of the first loop end among the last `left` commands that closes a loop opened before
them, after `depth` more loop ends. -/
def Command.closingAmong? (cs : Array Command) : (left depth : Nat) → Option Nat
  | 0, _ => none
  | left + 1, depth =>
    let index := cs.size - (left + 1)
    match cs[index]?, depth with
    | some .loopStart, depth => closingAmong? cs left (depth + 1)
    | some .loopEnd, 0 => some index
    | some .loopEnd, depth + 1 => closingAmong? cs left depth
    | _, depth => closingAmong? cs left depth

/-- The index of the last loop start among the first `left` commands that opens a loop closed after
them, before `depth` more loop starts. -/
def Command.openingAmong? (cs : Array Command) : (left depth : Nat) → Option Nat
  | 0, _ => none
  | index + 1, depth =>
    match cs[index]?, depth with
    | some .loopEnd, depth => openingAmong? cs index (depth + 1)
    | some .loopStart, 0 => some index
    | some .loopStart, depth + 1 => openingAmong? cs index depth
    | _, depth => openingAmong? cs index depth

/-- The loop end that closes the loop opened at `index`. -/
def Command.closing? (cs : Array Command) (index : Nat) : Option Nat :=
  closingAmong? cs (cs.size - (index + 1)) 0

/-- The loop start that opens the loop closed at `index`. -/
def Command.opening? (cs : Array Command) (index : Nat) : Option Nat := openingAmong? cs index 0

/-- The index at which a loop boundary places its partner. -/
def Instruction.target? : Instruction → Option Int
  | loopStart stop => stop
  | loopEnd start => some start
  | _ => none

/-- Whether the instruction found at `index` is no loop boundary or points to a boundary of the
other side that points back. -/
def Instruction.targetAgrees (is : Array Instruction) (index : Nat) : Instruction → Bool
  | loopStart stop => stop.any fun i => decide (0 ≤ i) && is[i.toNat]? == some (loopEnd index)
  | loopEnd start => decide (0 ≤ start) && is[start.toNat]? == some (loopStart (some index))
  | _ => true

/-- Refuse instructions with a loop boundary that does not point to its counterpart. -/
def Instruction.checkTargets (is : Array Instruction) : Except LoopError Unit :=
  is.toList.zipIdx.forM fun (i, index) =>
    if i.targetAgrees is index then .ok () else .error (.mismatchedTarget index i.target?)

/-- The code of a program: commands as written, or folded instructions. -/
inductive Code where
  | raw (commands : Array Command)
  | folded (instructions : Array Instruction)
  deriving DecidableEq, Repr

namespace Code

def size : Code → Nat
  | raw cs => cs.size
  | folded is => is.size

/-- What the entry at an index asks for; nothing past the end. -/
def operation? (c : Code) (index : Nat) : Option Operation :=
  match c with
  | raw cs => cs[index]?.map Command.operation
  | folded is => is[index]?.map Instruction.operation

/-- The text of the entry at an index. -/
def mnemonic? (c : Code) (index : Nat) : Option String :=
  match c with
  | raw cs => cs[index]?.map fun c => String.singleton c.symbol
  | folded is => is[index]?.map Instruction.mnemonic

/-- The texts of all entries. -/
def listing : Code → Array String
  | raw cs => cs.map fun c => String.singleton c.symbol
  | folded is => is.map Instruction.mnemonic

/-- What stands between the entries when they are shown in a row: symbols need no space. -/
def separator : Code → String
  | raw _ => ""
  | folded _ => " "

/-- Refuse code whose loops do not open and close in pairs, or whose boundaries disagree. -/
def check : Code → Except LoopError Unit
  | raw cs => Bracket.check Command.bracket cs.toList
  | folded is => do
    Bracket.check Instruction.bracket is.toList
    Instruction.checkTargets is

/-- The index of the partner of the loop boundary at `index`. -/
def partner (c : Code) (index : Nat) (side : Bracket) : Except LoopError Nat :=
  match c, side with
  | raw cs, .opening =>
    (Command.closing? cs index).elim (.error (.missingEnd index)) .ok
  | raw cs, .closing =>
    (Command.opening? cs index).elim (.error (.unexpectedEnd index)) .ok
  | folded is, _ =>
    (is[index]?.bind Instruction.target?).elim (.error (.mismatchedTarget index none))
      fun target => .ok target.toNat

end Code

/-- Code whose loops have been checked. -/
structure Program where
  code : Code
  accepted : code.check = .ok ()

namespace Program

/-- Check the loops of some code. -/
def ofCode (c : Code) : Except LoopError Program :=
  match h : c.check with
  | .ok () => .ok ⟨c, h⟩
  | .error e => .error e

/-- The program of a command list as written. -/
def ofCommands (cs : List Command) : Except LoopError Program := ofCode (.raw cs.toArray)

/-- The program of a command list in folded form. -/
def ofFolding (cs : List Command) : Except LoopError Program :=
  match fold? cs with
  | .ok is => ofCode (.folded is)
  | .error index => .error (.unexpectedEnd index)

/-- The program of a source text, folded or as written. -/
def compile (source : String) (optimize : Bool) : Except LoopError Program :=
  let cs := Command.parse source.toList
  if optimize then ofFolding cs else ofCommands cs

theorem ofCode_code {c : Code} {p : Program} (h : ofCode c = .ok p) : p.code = c := by
  unfold ofCode at h
  split at h <;> cases h
  rfl

theorem ofCode_eq_ok (p : Program) : ofCode p.code = .ok p := by
  unfold ofCode
  split
  · rfl
  · rename_i e h
    rw [p.accepted] at h
    cases h

theorem ofCode_eq_error_iff {c : Code} {e : LoopError} :
    ofCode c = .error e ↔ c.check = .error e := by
  unfold ofCode
  split <;> simp_all

end Program

end ByteTape
