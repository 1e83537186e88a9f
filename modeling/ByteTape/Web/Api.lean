import ByteTape.Text.Utf8
import ByteTape.Web.Frontend

/-!
# The HTTP interface

The services of the interface. A request is answered against the stored sessions and leaves a store;
its body and its path are read before any session is looked up. Identifiers of new sessions are
supplied with the request.
-/

namespace ByteTape.Web

/-- Steps are counted up to this number when a session is created. -/
def stepCap : Nat := 10000

/-- Create a session. Its steps are counted on a run of their own. -/
def createSession (store : Store) (id : String) (n : NewSession) : Answer × Store :=
  match n.input.encode, Program.compile n.code.characters n.optimize with
  | .error halves, _ => (.internalError (.loneHalves halves), store)
  | _, .error e => (.malformed e, store)
  | .ok input, .ok p =>
    let (total, capped) := p.countSteps input stepCap
    let options : SessionOptions :=
      { input := input, radius := n.radius, limit := n.limit, historyLimit := n.historyLimit }
    let r : Record :=
      { program := p
        session := Session.start p.code options
        optimized := n.optimize
        totalSteps := total
        totalStepsCapped := capped }
    (.session 201 [] id r, store.put id r)

/-- Answer the outcome of a session operation. -/
def answerOutcome (store : Store) (id : String) (r : Record) (o : Outcome) : Answer × Store :=
  let r := { r with workspace := o.workspace, session := o.session }
  match o.result with
  | .error e => (.conflict e, store.put id r)
  | .ok states => (.session 200 [("states", statesJson states)] id r, store.put id r)

/-- Run a session. Where breakpoints are ignored they are set aside meanwhile, and nothing counts as
hit. -/
def runSession (r : Record) (limit : RunLimit) (fuel : Nat) : Option Outcome :=
  let s := r.session
  if limit.ignoreBreakpoints then
    (s.clearBreakpoints.runUntilBreak r.program.code r.workspace limit.limit fuel).map fun o =>
      { o with session := { o.session with breakpoints := s.breakpoints, hit := none } }
  else s.runUntilBreak r.program.code r.workspace limit.limit fuel

/-- Change a stored session and show it. -/
def updateSession (store : Store) (id : String) (r : Record) (s : Session) : Answer × Store :=
  let r := { r with session := s }
  (.session 200 [] id r, store.put id r)

/-- The answer to a run. -/
def reportAnswer (report : Report) : Answer :=
  match report.result with
  | .error e => .conflict e
  | .ok output =>
    let text := String.ofList (Text.decodeUtf8 output)
    let tape := report.workspace.tape
    ⟨200, some (.record
      [("output", bytesJson output), ("text", .text text),
        ("tape", bytesJson tape.cells.toList), ("pointer", .nat tape.pointer),
        ("steps", .nat report.workspace.steps)]), none⟩

/-- Run a program at once. -/
def executeProgram (w : WholeRun) (fuel : Nat) : Option Answer :=
  match Program.compile w.code.characters w.optimize, w.input.encode with
  | .error e, _ => some (.malformed e)
  | _, .error halves => some (.internalError (.loneHalves halves))
  | .ok p, .ok input => (p.run input w.limit fuel).map reportAnswer

/-- List the instructions that a program folds to. -/
def foldProgram (f : ToFold) : Answer :=
  match Program.compile f.code.characters true with
  | .error e => .malformed e
  | .ok p =>
    let listing := p.code.listing
    ⟨200, some (.record
      [("instructions", .arr (listing.toList.map .text)), ("count", .nat listing.size)]), none⟩

/-- Do something with a stored session. -/
def withSession (store : Store) (id : String) (act : Record → Option (Answer × Store)) :
    Option (Answer × Store) :=
  match store.get? id with
  | none => some (.unknownSession id, store)
  | some r => act r

/-- Remove a breakpoint, which has to be there. -/
def removeBreakpoint (store : Store) (id : String) (r : Record) (pc : Int) : Answer × Store :=
  match r.session.removeBreakpoint pc with
  | (true, s) => updateSession store id r s
  | (false, _) => (.fault 404 s!"Breakpoint not found at pc={pc}", store)

namespace Frontend

variable (f : Frontend)

/-- Do something with a body that has been read. -/
def withBody {α : Type} (form : Form α) (store : Store) (body : List UInt8)
    (act : α → Option (Answer × Store)) : Option (Answer × Store) :=
  match f.read form body with
  | .error a => some (a, store)
  | .ok content => act content

/-- Answer a request for a service; `none` if the fuel runs out first. -/
def serve (store : Store) (q : Request) (fuel : Nat) : Route → Option (Answer × Store)
  | .createSession =>
    f.withBody .newSession store q.body fun n => some (createSession store q.newId n)
  | .showSession id =>
    withSession store id fun r => some (.session 200 [] id r, store)
  | .deleteSession id =>
    match store.get? id with
    | none => some (.fault 404 (Answer.unknownText id), store)
    | some _ => some (⟨204, none, none⟩, store.erase id)
  | .resetSession id =>
    withSession store id fun r => some (updateSession store id r r.session.reset)
  | .step id =>
    f.withBody .stepCount store q.body fun n =>
      withSession store id fun r =>
        let o := r.session.stepForward r.program.code r.workspace n.count
        some (answerOutcome store id r o)
  | .run id =>
    f.withBody .runLimit store q.body fun limit =>
      withSession store id fun r =>
        (runSession r limit fuel).map (answerOutcome store id r)
  | .addBreakpoint id =>
    f.withBody .stopAt store q.body fun stop =>
      withSession store id fun r =>
        some (updateSession store id r (r.session.addBreakpoint stop.pc))
  | .removeBreakpoint id name =>
    match f.position name with
    | .error a => some (a, store)
    | .ok pc => withSession store id fun r => some (removeBreakpoint store id r pc)
  | .execute =>
    f.withBody .wholeRun store q.body fun w => (executeProgram w fuel).map fun a => (a, store)
  | .fold => f.withBody .toFold store q.body fun program => some (foldProgram program, store)

/-- Answer a request; `none` if the fuel runs out first. -/
def handle (store : Store) (q : Request) (fuel : Nat) : Option (Answer × Store) :=
  match f.locate q.method q.path with
  | .error a => some (a, store)
  | .ok route => f.serve store q fuel route

end Frontend

end ByteTape.Web
