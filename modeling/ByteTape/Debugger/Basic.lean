import ByteTape.Debugger.Request
import ByteTape.MissingSetting
import ByteTape.Session.Basic
import ByteTape.Session.View

/-!
# The debugger

A prompt that steps through a program. Each line typed is answered by text and a new state of the
debugger, so a dialogue is a fold over its lines.
-/

namespace ByteTape.Debugger

/-- A program under the debugger, with its workspace and the session that follows it. The missing
settings stand for others in the session until a step needs them. -/
structure Debuggee where
  program : Program
  workspace : Workspace := {}
  session : Session
  missing : List MissingSetting := []

/-- What ends a dialogue before its time: a line that does not split into words, or a missing
setting. -/
inductive Failure where
  | words (e : Text.WordError)
  | setting (m : MissingSetting)
  deriving DecidableEq, Repr

def Failure.message : Failure → String
  | words e => e.message
  | setting m => m.message

/-- What goes on after an answer: the next line, the end, or a failure. -/
inductive Continuation where
  | go (d : Debuggee)
  | quit
  | fail (f : Failure)

/-- What is written in answer to a line, and what goes on. -/
structure Answer where
  output : String := ""
  errors : String := ""
  next : Continuation

def greeting : String := "foldbf visualizer (type 'help' for commands)\n"
def prompt : String := "(viz) "

def helpText : String :=
  "コマンド一覧:\n" ++
  "  next [N]    : N 命令だけ実行 (既定 1)\n" ++
  "  run [N]     : ブレークポイントか N 命令まで実行\n" ++
  "  state       : 現在の状態\n" ++
  "  history [N] : 直近 N 件の状態\n" ++
  "  break PC    : ブレークポイントを追加\n" ++
  "  breaks      : ブレークポイント一覧\n" ++
  "  clear [PC]  : ブレークポイントを削除 (省略で全削除)\n" ++
  "  restart     : 最初からやり直す\n" ++
  "  quit/exit   : 終了\n\n"

def RequestError.line : RequestError → String
  | unknown => "不明なコマンドです。'help' を参照してください。\n"
  | badNumber => "数値が正しくありません。\n"
  | missingPosition => "PC を指定してください。\n"

/-- The line on a failed step. -/
def runErrorLine : RunError → String
  | .stepLimit => "ステップ上限に達しました。\n"
  | e => "入出力エラー: " ++ e.message ++ "\n"

namespace Debuggee

/-- A state under a rule. -/
def display (d : Debuggee) (x : Snapshot) : String :=
  String.ofList (List.replicate 40 '-') ++ "\n" ++
    x.panel.text d.program.code.listing d.program.code.separator ++ "\n"

/-- The snapshots that are shown for a count: the latest ones for a positive count, all for zero,
and all but the oldest for a negative one. -/
def recent (history : Array Snapshot) (count : Int) : List Snapshot :=
  let xs := history.toList
  if 0 < count then xs.drop (xs.length - count.toNat) else xs.drop count.natAbs

/-- Show the last of the states that a step led to. Where it led to none, say so if the run is
over. -/
def afterSteps (d : Debuggee) (o : Outcome) (overLine : String) : Answer :=
  let d := { d with workspace := o.workspace, session := o.session }
  match o.result with
  | .error e => { errors := runErrorLine e, next := .go d }
  | .ok states =>
    match states.back? with
    | some x => { output := d.display x, next := .go d }
    | none => { output := if d.session.finished then overLine else "", next := .go d }

/-- Say at which breakpoint a run has stopped, and take the hit back. -/
def withHit (a : Answer) : Answer :=
  match a.next with
  | .go d =>
    match d.session.hit with
    | none => a
    | some pc =>
      { a with
        output := a.output ++ s!"ブレークポイント {pc} で停止しました。\n"
        next := .go { d with session := { d.session with hit := none } } }
  | _ => a

def breakpointList (points : List Int) : String :=
  if points.isEmpty then "(なし)" else ", ".intercalate (points.map toString)

/-- The missing setting that the next step needs: the step limit before the first instruction, or
the radius of the tape to show the state that the step leads to. -/
def neededSetting? (d : Debuggee) : Option MissingSetting :=
  if d.session.finished then none
  else if .stepLimit ∈ d.missing ∧ d.program.code.size ≠ 0 then some .stepLimit
  else if .tapeRadius ∈ d.missing then
    match (d.session.stepForward d.program.code d.workspace 1).result with
    | .ok _ => some .tapeRadius
    | .error _ => none
  else none

/-- Take steps, unless a missing setting is needed for them. -/
def step (d : Debuggee) (count : Int) : Answer :=
  match d.neededSetting? with
  | some m => { next := .fail (.setting m) }
  | none =>
    d.afterSteps (d.session.stepForward d.program.code d.workspace count)
      "プログラムは終了しています。\n"

/-- Run to a breakpoint, the end or a limit, unless a missing setting is needed for it. -/
def run (d : Debuggee) (limit : Option Int) (fuel : Nat) : Option Answer :=
  let needed := if limit.all (0 < ·) then d.neededSetting? else none
  match needed with
  | some m => some { next := .fail (.setting m) }
  | none =>
    (d.session.runUntilBreak d.program.code d.workspace limit fuel).map fun o =>
      let a := d.afterSteps o "プログラムは終了しました。\n"
      match o.result with
      | .ok states => if states.isEmpty then a else withHit a
      | .error _ => a

/-- Answer a request; `none` if the fuel runs out first. -/
def serve (d : Debuggee) (fuel : Nat) : Request → Option Answer
  | .next count => some (d.step count)
  | .run limit => d.run limit fuel
  | .state => some { output := d.display d.session.current, next := .go d }
  | .history count =>
    some { output := String.join ((recent d.session.history count).map d.display), next := .go d }
  | .addBreakpoint pc typed =>
    some
      { output := s!"ブレークポイント {typed} を追加しました。\n"
        next := .go { d with session := d.session.addBreakpoint pc } }
  | .listBreakpoints =>
    some
      { output := "ブレークポイント: " ++ breakpointList d.session.breakpoints.points ++ "\n"
        next := .go d }
  | .clear =>
    some
      { output := "すべてのブレークポイントを削除しました。\n"
        next := .go { d with session := d.session.clearBreakpoints } }
  | .removeBreakpoint pc typed =>
    let (found, session) := d.session.removeBreakpoint pc
    some
      { output :=
          if found then s!"ブレークポイント {typed} を削除しました。\n"
          else s!"ブレークポイント {typed} はありません。\n"
        next := .go { d with session := session } }
  | .restart =>
    let d := { d with session := d.session.restart }
    some { output := d.display d.session.current, next := .go d }
  | .quit => some { next := .quit }
  | .help => some { output := helpText, next := .go d }

/-- Answer a line. Blank lines are skipped, and a line that does not split into words ends the
dialogue. -/
def answer (d : Debuggee) (fuel : Nat) (line : String) : Option Answer :=
  match lineWords line with
  | .error e => some { next := .fail (.words e) }
  | .ok [] => some { next := .go d }
  | .ok (name :: arguments) =>
    match Request.of (lower name) arguments with
    | .ok request => d.serve fuel request
    | .error .badNumber => some { errors := RequestError.badNumber.line, next := .go d }
    | .error e => some { output := e.line, next := .go d }

end Debuggee

/-- What a dialogue wrote, and the failure that ended it, if one did. -/
structure Transcript where
  output : String := ""
  errors : String := ""
  failure : Option Failure := none
  deriving DecidableEq, Repr

/-- Go through lines one after the other, after what has been written so far. -/
def converse (fuel : Nat) : List String → Debuggee → Transcript → Option Transcript
  | [], _, t => some { t with output := t.output ++ prompt ++ "\n" }
  | line :: rest, d, t =>
    match d.answer fuel line with
    | none => none
    | some a =>
      let t := { t with output := t.output ++ prompt ++ a.output, errors := t.errors ++ a.errors }
      match a.next with
      | .go d => converse fuel rest d t
      | .quit => some t
      | .fail f => some { t with failure := some f }

/-- The lines of a text, which line feeds end; what follows the last one is a line unless empty. -/
def linesOf (text : String) : List String :=
  let lines := text.splitOn "\n"
  if lines.getLast? = some "" then lines.dropLast else lines

/-- What is shown before the first prompt. -/
def opening (d : Debuggee) : String := greeting ++ d.display d.session.current

/-- A whole dialogue; `none` if the fuel runs out first. -/
def dialogue (d : Debuggee) (input : String) (fuel : Nat) : Option Transcript :=
  converse fuel (linesOf input) d { output := opening d }

end ByteTape.Debugger
