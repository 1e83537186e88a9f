import ByteTape.Web.Body
import ByteTape.Web.Frontend

/-!
# The standard frontend

The frontend that the interface comes with. Bodies are objects, read by the fields of their forms,
and a refusal lists all problems of the values.
-/

namespace ByteTape.Web

namespace Answer

def placeJson : Place → Json
  | .name s => .text s
  | .position n => .nat n

/-- Whether a member is told back. Those whose keys start like internal names are not. -/
def isTold (key : JsonText) : Bool := !key.startsWith "_sa"

/-- A problem as it is told, with the value that has it. -/
def problemJson (p : Problem) : Json :=
  let bound : List (String × Json) := match p.kind with
    | .tooSmall least => [("ctx", .record [("ge", .int least)])]
    | _ => []
  .record ([("type", .text p.kind.word), ("loc", .arr (p.places.map placeJson)),
    ("msg", .text p.kind.message), ("input", p.value.keepMembers isTold)] ++ bound)

/-- How deep arrays and objects may be nested in an answer. -/
def maxDepth : Nat := 968

/-- The answer to values with problems. It repeats the values, so it breaks down over values that
cannot be printed or encoded. -/
def invalid (ps : List Problem) : Answer :=
  let body := Json.record [("detail", .arr (ps.map problemJson))]
  match body.obstacle? maxDepth, Json.loneHalves? 0 body.pieces with
  | some obstacle, _ => internalError (.unprintable obstacle)
  | none, some halves => internalError (.loneHalves halves)
  | none, none => ⟨422, some body, none⟩

def ofBodyError : BodyError → Answer
  | .problems ps => invalid ps
  | .unreadable => fault 400 "There was an error parsing the body"

def notFound : Answer := fault 404 "Not Found"
def methodNotAllowed : Answer := fault 405 "Method Not Allowed"

/-- The answer to a request whose path should end without slashes. -/
def redirect : Answer := ⟨307, none, none⟩

end Answer

/-- The service at a destination, or the answer where there is none. -/
def Destination.route : Destination → Except Answer Route
  | found r => .ok r
  | wrongMethod => .error .methodNotAllowed
  | elsewhere => .error .redirect
  | unknown => .error .notFound

/-- The problem of a name in a path that stands for no position. -/
def positionProblem (kind : ProblemKind) (name : String) : Problem :=
  ⟨kind, [.name "path", .name "pc"], .text name⟩

namespace Frontend

/-- The frontend of the interface. -/
def standard : Frontend where
  locate method path := (Web.locate method path).route
  read form body := (readBody form body).mapError Answer.ofBodyError
  position name := (intOfText name).mapError fun kind => .invalid [positionProblem kind name]

end Frontend

end ByteTape.Web
