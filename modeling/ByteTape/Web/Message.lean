import ByteTape.Json.Printer
import ByteTape.Text.Quoted
import ByteTape.Web.Store

/-!
# Requests and answers

What the HTTP interface is sent and what it answers.
-/

namespace ByteTape.Web

/-- A request as it comes in. `newId` is the identifier for a session it may create. -/
structure Request where
  method : String
  path : String
  body : List UInt8 := []
  newId : String
  deriving DecidableEq, Repr

/-- Why no proper answer can be given: a text cannot be encoded, or an answer would have to repeat a
value that cannot be printed. -/
inductive Breakdown where
  | loneHalves (halves : Text.LoneHalves)
  | unprintable (o : Json.Obstacle)
  deriving DecidableEq, Repr

def Breakdown.message : Breakdown → String
  | loneHalves halves => halves.message
  | unprintable .notFinite => "Out of range float values are not JSON compliant"
  | unprintable .tooDeep => "maximum recursion depth exceeded while encoding a JSON object"

/-- A status code and a body, which may be empty. Behind an internal error there is a breakdown. -/
structure Answer where
  status : Nat
  body : Option Json
  breakdown : Option Breakdown := none

namespace Answer

/-- An answer that only says what went wrong. -/
def fault (status : Nat) (detail : String) : Answer :=
  ⟨status, some (.record [("detail", .text detail)]), none⟩

/-- The answer where no proper one can be given. -/
def internalError (b : Breakdown) : Answer := ⟨500, none, some b⟩

def unknownText (id : String) : String := "Unknown session id: " ++ id

/-- The answer to a request for a session that is not stored. -/
def unknownSession (id : String) : Answer := fault 404 (Text.quote (unknownText id))

def malformed (e : LoopError) : Answer := fault 422 e.message

/-- The answer to a run that failed. -/
def conflict (e : RunError) : Answer := fault 409 e.message

/-- What is shown of a session, after some members of its own. -/
def session (status : Nat) (first : List (String × Json)) (id : String) (r : Record) : Answer :=
  ⟨status, some (.record (first ++ r.members id)), none⟩

end Answer

end ByteTape.Web
