import ByteTape.CommandLine.Options
import ByteTape.Debugger.Basic
import ByteTape.Source.Basic

/-!
# The debug command

Opens a source file in the debugger.
-/

namespace ByteTape.CommandLine

def debugSwitches : List Switch :=
  [{ long := "--input", parameter := .text },
    { long := "--optimize", short := some "-O" },
    { long := "--max-steps", parameter := .integer },
    { long := "--tape-window", parameter := .integer },
    { long := "--history-limit", parameter := .integer }]

/-- The settings of a session from the arguments of the debug command. Steps are limited unless the
limit was given nothing. -/
def sessionOptions (a : Arguments) : Except MissingSetting SessionOptions :=
  match (a.value? "--input").getD (some ""), (a.integer? "--history-limit").getD (some 200) with
  | none, _ => .error .input
  | _, none => .error .historyLimit
  | some input, some historyLimit =>
    .ok
      { input := Text.encodeUtf8 input
        radius := (a.integer? "--tape-window").join.getD 10
        limit := (a.integer? "--max-steps").getD (some 5000000)
        historyLimit := historyLimit }

/-- The settings that were given nothing and that a step may need. -/
def missingSettings (a : Arguments) : List MissingSetting :=
  ([("--max-steps", .stepLimit), ("--tape-window", .tapeRadius)].filter fun setting =>
    a.value? setting.1 = some none).map Prod.snd

/-- Why the debugger is not opened: the exit code and the line on it, or a missing setting. -/
structure DebugRefusal where
  code : Nat
  errors : String := ""
  missing : Option MissingSetting := none
  deriving DecidableEq, Repr

/-- The program that the arguments of the debug command ask for, under the debugger. -/
def planDebug (arguments : List String) (lookup : String → Entry) :
    Except DebugRefusal Debugger.Debuggee :=
  match parse debugSwitches true arguments with
  | .error usage => .error { code := usage.exitCode }
  | .ok a =>
    match Source.read lookup (a.source.getD "") with
    | .error e => .error { code := 1, errors := "ファイルを開けません: " ++ e.message ++ "\n" }
    | .ok source =>
      match Program.compile source (a.has "--optimize") with
      | .error e => .error { code := 1, errors := "プログラムが不正です: " ++ e.message ++ "\n" }
      | .ok p =>
        match sessionOptions a with
        | .error m => .error { code := 1, missing := some m }
        | .ok options =>
          .ok
            { program := p
              session := Session.start p.code options
              missing := missingSettings a }

/-- How the debug command ends. The exit code is missing if a failure ended it. -/
structure DebugExit where
  code : Option Nat
  stdout : String := ""
  stderr : String := ""
  failure : Option Debugger.Failure := none
  deriving DecidableEq, Repr

/-- The debug command on standard input held in memory; `none` if the fuel runs out first. -/
def debug (arguments : List String) (lookup : String → Entry) (stdin : String) (fuel : Nat) :
    Option DebugExit :=
  match planDebug arguments lookup with
  | .error refusal =>
    some
      { code := if refusal.missing.isNone then some refusal.code else none
        stderr := refusal.errors
        failure := refusal.missing.map .setting }
  | .ok d =>
    (Debugger.dialogue d stdin fuel).map fun t =>
      { code := if t.failure.isNone then some 0 else none
        stdout := t.output
        stderr := t.errors
        failure := t.failure }

end ByteTape.CommandLine
