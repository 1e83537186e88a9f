import ByteTape.Json.Printer
import ByteTape.Web.Api
import ByteTape.Web.Standard

/-!
# Requests and answers as JSON

The form in which requests and answers of the interface are passed along where no HTTP connection
carries them.
-/

namespace ByteTape.Web

/-- The text of a member, if it is one. -/
def memberText (j : Json) (key : String) : Option String :=
  match j.get? key with
  | some (.str (.plain s)) => some s
  | _ => none

/-- The request that an object with a method and a path describes. The body is a value, or a raw
text, or else empty. -/
def Request.ofJson (j : Json) (newId : String) : Request where
  method := (memberText j "method").getD ""
  path := (memberText j "path").getD ""
  body := Text.encodeUtf8 (match j.get? "body" with
    | some value => value.print
    | none => (memberText j "raw").getD "")
  newId := newId

/-- A problem by its kind and place alone. -/
def briefProblem (problem : Json) : Json :=
  let member (key : String) := (problem.get? key).map fun value => (key, value)
  .record ((member "type").toList ++ (member "loc").toList)

/-- A body in which problems are listed briefly. -/
def briefBody (body : Json) : Json :=
  match body.get? "detail" with
  | some (.arr problems) => .record [("detail", .arr (problems.map briefProblem))]
  | _ => body

/-- The object that describes an answer. -/
def Answer.toJson (a : Answer) : Json :=
  .record [("status", .nat a.status), ("body", (a.body.map briefBody).getD .null)]

/-- Answer requests one after the other, with the identifiers that `name` gives to the sessions
created. The first breakdown ends it all; `none` if the fuel runs out first. -/
def exchange (name : Nat → String) (fuel : Nat) :
    (created : Nat) → Store → List Json → Option (Except Breakdown (List Answer))
  | _, _, [] => some (.ok [])
  | created, store, j :: rest =>
    match Frontend.standard.handle store (.ofJson j (name created)) fuel with
    | none => none
    | some (⟨_, _, some breakdown⟩, _) => some (.error breakdown)
    | some (a, store) =>
      let created := if a.status = 201 then created + 1 else created
      (exchange name fuel created store rest).map fun answers => answers.map (a :: ·)

end ByteTape.Web
