import ByteTape.CommandLine.Debug
import ByteTape.CommandLine.Run
import ByteTape.CommandLine.Serve
import ByteTape.Web.Exchange

/-!
# The program

Three commands: `run` runs a source file, `debug` steps through one, and `serve` answers requests to
the HTTP interface, one JSON object a line. This module only moves bytes between the streams and the
library.
-/

namespace ByteTape.Main

/-- Fuel for everything that may go on for as long as its user likes. -/
def fuel : Nat := 1000000000000000000

/-- What the file system holds at a path. -/
def entryAt (path : String) : IO Entry := do
  match ← (IO.FS.readBinFile path).toBaseIO with
  | .ok bytes => return .file bytes.data.toList
  | .error (.noFileOrDirectory ..) => return .missing
  | .error (.inappropriateType ..) => return .directory
  | .error (.invalidArgument _ 36 _) => return .nameTooLong
  | .error e => throw e

/-- What the file system holds at the source that some arguments name. -/
def sourceEntry (switches : List CommandLine.Switch) (arguments : List String) :
    IO (String → Entry) := do
  match CommandLine.parse switches true arguments with
  | .ok a =>
    let entry ← entryAt (Source.normalPath (a.source.getD ""))
    return fun _ => entry
  | .error _ => return fun _ => .missing

/-- Serve the effects of a machine from given bytes, or else from standard input. -/
partial def drive (code : Code) (limit : Option Int) (stdin stdout : IO.FS.Stream)
    (input : Option (List UInt8)) (m : Machine) : IO (Except RunError Unit) := do
  match m.effect code limit with
  | .ran m => drive code limit stdin stdout input m
  | .offersByte m =>
    match ← (stdout.write ⟨#[m.tape.read]⟩).toBaseIO with
    | .ok () => drive code limit stdin stdout input m.advance
    | .error e => return .error (.io .print (toString e))
  | .wantsByte m =>
    match input with
    | some [] => return .error .inputExhausted
    | some (b :: rest) => drive code limit stdin stdout (some rest) (m.receive b)
    | none =>
      match ← (stdin.read 1).toBaseIO with
      | .error e => return .error (.io .read (toString e))
      | .ok bytes =>
        match bytes.data[0]? with
        | some b => drive code limit stdin stdout none (m.receive b)
        | none => return .error .inputExhausted
  | .stopped _ (.error e) => return .error e
  | .stopped _ (.ok ()) =>
    match ← stdout.flush.toBaseIO with
    | .ok () => return .ok ()
    | .error e => return .error (.io .flush (toString e))

def runCommand (arguments : List String) : IO UInt32 := do
  let lookup ← sourceEntry CommandLine.runSwitches arguments
  match CommandLine.planRun arguments lookup with
  | .stop exit =>
    IO.eprint exit.stderr
    let stdout ← IO.getStdout
    stdout.write ⟨exit.stdout.toArray⟩
    stdout.flush
    return exit.code.toUInt32
  | .execute p input limit log =>
    IO.eprint log
    let result ← drive p.code limit (← IO.getStdin) (← IO.getStdout) input {}
    let (code, text) := CommandLine.runExit result
    IO.eprint text
    return code.toUInt32

/-- Answer lines at the prompt until the dialogue ends. -/
partial def converse (stdin stdout : IO.FS.Stream) (d : Debugger.Debuggee) : IO UInt32 := do
  stdout.putStr Debugger.prompt
  stdout.flush
  let line ← stdin.getLine
  if line.isEmpty then
    stdout.putStr "\n"
    return 0
  match d.answer fuel line with
  | none => return 1
  | some a =>
    stdout.putStr a.output
    IO.eprint a.errors
    match a.next with
    | .go d => converse stdin stdout d
    | .quit => return 0
    | .fail f =>
      IO.eprintln f.message
      return 1

def debugCommand (arguments : List String) : IO UInt32 := do
  let lookup ← sourceEntry CommandLine.debugSwitches arguments
  match CommandLine.planDebug arguments lookup with
  | .error refusal =>
    IO.eprint refusal.errors
    return refusal.code.toUInt32
  | .ok d =>
    let stdout ← IO.getStdout
    stdout.putStr (Debugger.opening d)
    converse (← IO.getStdin) stdout d

/-- Answer requests line by line. -/
partial def answerLines (stdin stdout : IO.FS.Stream) (created : Nat) (store : Web.Store) :
    IO Unit := do
  let line ← stdin.getLine
  if line.isEmpty then return
  match Json.read Web.maxDepth (Text.codePoints line) with
  | .error _ => answerLines stdin stdout created store
  | .ok j =>
    match Web.Frontend.standard.handle store (.ofJson j (toString created)) fuel with
    | none => return
    | some (a, store) =>
      stdout.putStrLn a.toJson.print
      stdout.flush
      answerLines stdin stdout (if a.status = 201 then created + 1 else created) store

def serveCommand (arguments : List String) : IO UInt32 := do
  match CommandLine.planServe arguments with
  | .error usage => return usage.exitCode.toUInt32
  | .ok _ =>
    answerLines (← IO.getStdin) (← IO.getStdout) 0 {}
    return 0

end ByteTape.Main

def main : List String → IO UInt32
  | "run" :: arguments => ByteTape.Main.runCommand arguments
  | "debug" :: arguments => ByteTape.Main.debugCommand arguments
  | "serve" :: arguments => ByteTape.Main.serveCommand arguments
  | _ => do
    IO.eprintln "usage: bytetape (run | debug | serve) [argument ...]"
    return 2
