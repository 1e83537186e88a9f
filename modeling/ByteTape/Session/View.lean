import ByteTape.Stepper
import ByteTape.Text.Quoted

/-!
# State displays

The text that shows a state: a status line, the output so far, the cells around the head, and the
code around the next instruction. The active cell and the next instruction are bracketed.
-/

namespace ByteTape

/-- The numbers and texts that a display shows. They need not come from a run. -/
structure Panel where
  step : Int
  pc : Int
  instruction : Option String
  pointer : Int
  tapeStart : Int
  tape : List Int
  output : List UInt8
  codeLength : Int
  deriving DecidableEq, Repr

/-- What a display shows of a snapshot. -/
def Snapshot.panel (x : Snapshot) : Panel where
  step := x.step
  pc := x.pc
  instruction := x.instruction
  pointer := x.pointer
  tapeStart := x.window.start
  tape := x.window.cells.toList.map fun b => (b.toNat : Int)
  output := x.output
  codeLength := x.codeLength

namespace Panel

def bracketed (text : String) : String := "[" ++ text ++ "]"

/-- A cell value of at least three characters, with zeros between its sign and its digits. -/
def cellValue (value : Int) : String :=
  let sign := if value < 0 then "-" else ""
  let digits := toString value.natAbs
  sign ++ String.ofList (List.replicate (3 - sign.length - digits.length) '0') ++ digits

/-- One cell with its index. -/
def cell (pointer index value : Int) : String :=
  let text := toString index ++ ":" ++ cellValue value
  if index = pointer then bracketed text else " " ++ text ++ " "

/-- The entries of a listing at most `radius` away from `pc`, the one at `pc` bracketed, and a mark
for the end once `pc` is past it. -/
def codeWindow (listing : Array String) (pc radius : Int) (separator : String) : String :=
  if listing.isEmpty then "(empty)"
  else
    let first := (max 0 (pc - radius)).toNat
    let stop := (min (listing.size : Int) (pc + radius + 1)).toNat
    let shown := (listing.extract first stop).toList.mapIdx fun i text =>
      if ((first + i : Nat) : Int) = pc then bracketed text else text
    let ending := if (listing.size : Int) ≤ pc then ["[END]"] else []
    separator.intercalate (shown ++ ending)

/-- How far a display shows the code to either side of the next instruction. -/
def codeRadius : Int := 16

def statusLine (p : Panel) : String :=
  let instruction := Text.quote (p.instruction.getD "(init)")
  s!"step={p.step} pc={p.pc}/{p.codeLength} instruction={instruction} pointer={p.pointer}"

def outputLines (p : Panel) : List String :=
  if p.output.isEmpty then [] else ["output=" ++ Text.quoteBytes p.output]

def tapeLine (p : Panel) : String :=
  "tape=" ++ " ".intercalate (p.tape.mapIdx fun i value => cell p.pointer (p.tapeStart + i) value)

/-- The lines of a display. -/
def lines (p : Panel) (listing : Array String) (separator : String) : List String :=
  p.statusLine :: p.outputLines ++
    [p.tapeLine, "code=" ++ codeWindow listing p.pc codeRadius separator]

/-- The text of a display. -/
def text (p : Panel) (listing : Array String) (separator : String) : String :=
  "\n".intercalate (p.lines listing separator)

end Panel

end ByteTape
