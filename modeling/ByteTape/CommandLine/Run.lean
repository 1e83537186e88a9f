import ByteTape.CommandLine.Options
import ByteTape.Machine
import ByteTape.MissingSetting
import ByteTape.Source.Basic

/-!
# The run command

Runs a source file, or lists its code. Everything up to the run itself is decided beforehand, in a
plan, so that the run can be served from memory and from real streams alike.
-/

namespace ByteTape.CommandLine

/-- How a command ends: its exit code and what it wrote, and the missing setting that ended it, if
one did. -/
structure Exit where
  code : Nat
  stdout : List UInt8 := []
  stderr : String := ""
  missing : Option MissingSetting := none
  deriving DecidableEq, Repr

/-- What a command line comes to. -/
inductive Plan where
  /-- Nothing is run. -/
  | stop (exit : Exit)
  /-- Run a program, on given input or else on the standard one. `log` goes to the standard error
  stream first. -/
  | execute (p : Program) (input : Option (List UInt8)) (limit : Option Int) (log : String)

def runSwitches : List Switch :=
  [{ long := "--optimize", short := some "-O" },
    { long := "--dump" },
    { long := "--input", parameter := .text },
    { long := "--max-steps", parameter := .integer },
    { long := "--verbose", short := some "-v" }]

/-- What is logged about compiling a source text. The folding is reported only if it got through. -/
def compileLog (source : String) (optimize : Bool) : String :=
  let cs := Command.parse source.toList
  let word := if optimize then "True" else "False"
  let decoded := s!"DEBUG foldbf.compiler: decoded {cs.length} commands (optimize={word})\n"
  if optimize then
    match Folding.run cs with
    | .ok s =>
      decoded ++ "DEBUG foldbf.instructions: optimized program into " ++ toString s.output.size ++
        s!" instructions ({s.opened.length} unresolved loops)\n"
    | .error _ => decoded
  else decoded

/-- The listing of some code: its symbols in a row, or one numbered instruction a line. A listing
that is not empty ends with a line break. -/
def dump (c : Code) : String :=
  let listing := match c with
    | .raw cs => String.ofList (Command.render cs.toList)
    | .folded is => disassemble is.toList
  if listing.isEmpty then listing else listing ++ "\n"

/-- The plan for a program that is to be run. The step limit is needed for the first step. -/
def planProgram (a : Arguments) (p : Program) (log : String) : Plan :=
  let fail (m : MissingSetting) : Plan := .stop { code := 1, stderr := log, missing := some m }
  if a.value? "--input" = some none then fail .input
  else if a.value? "--max-steps" = some none ∧ p.code.size ≠ 0 then fail .stepLimit
  else
    .execute p ((a.value? "--input").join.map Text.encodeUtf8) (a.integer? "--max-steps").join log

/-- What the arguments of the run command come to. -/
def planRun (arguments : List String) (lookup : String → Entry) : Plan :=
  match parse runSwitches true arguments with
  | .error usage => .stop { code := usage.exitCode }
  | .ok a =>
    match Source.read lookup (a.source.getD "") with
    | .error e => .stop { code := 1, stderr := "Cannot read source: " ++ e.message ++ "\n" }
    | .ok source =>
      let optimize := a.has "--optimize"
      let log := if a.has "--verbose" then compileLog source optimize else ""
      match Program.compile source optimize with
      | .error e =>
        .stop { code := 1, stderr := log ++ "Malformed program: " ++ e.message ++ "\n" }
      | .ok p =>
        if a.has "--dump" then
          .stop { code := 0, stdout := Text.encodeUtf8 (dump p.code), stderr := log }
        else planProgram a p log

/-- The line on a failed run. -/
def runErrorLine (e : RunError) : String :=
  match e with
  | .inputExhausted | .io _ _ => "I/O error: " ++ e.message ++ "\n"
  | _ => e.message ++ "\n"

/-- The exit code of a run, and what it writes to the standard error stream. -/
def runExit (result : Except RunError Unit) : Nat × String :=
  match result with
  | .ok () => (0, "")
  | .error e => (1, runErrorLine e)

/-- The run command on standard input held in memory; `none` if the fuel runs out first. -/
def run (arguments : List String) (lookup : String → Entry) (stdin : List UInt8) (fuel : Nat) :
    Option Exit :=
  match planRun arguments lookup with
  | .stop exit => some exit
  | .execute p input limit log =>
    (Buffers.device.execute p limit fuel ⟨input.getD stdin, []⟩).map fun f =>
      let (code, text) := runExit f.result
      { code := code, stdout := f.device.output, stderr := log ++ text }

end ByteTape.CommandLine
