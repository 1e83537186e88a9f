/-!
# Routes

The addresses of the HTTP interface and the methods they answer to. Paths are taken as they come:
no character in them stands for another.
-/

namespace ByteTape.Web

/-- A service of the interface. Sessions go by their identifiers. -/
inductive Route where
  | createSession
  | showSession (id : String)
  | deleteSession (id : String)
  | resetSession (id : String)
  | step (id : String)
  | run (id : String)
  | addBreakpoint (id : String)
  | removeBreakpoint (id pc : String)
  | execute
  | fold
  deriving DecidableEq, Repr

namespace Route

/-! ## Addresses -/

/-- The method that a service answers to. -/
def method : Route → String
  | showSession _ => "GET"
  | deleteSession _ | removeBreakpoint _ _ => "DELETE"
  | _ => "POST"

/-- The names in the path of a service. -/
def names : Route → List String
  | createSession => ["api", "session"]
  | showSession id | deleteSession id => ["api", "session", id]
  | resetSession id => ["api", "session", id, "reset"]
  | step id => ["api", "session", id, "step"]
  | run id => ["api", "session", id, "run"]
  | addBreakpoint id => ["api", "session", id, "breakpoints"]
  | removeBreakpoint id pc => ["api", "session", id, "breakpoints", pc]
  | execute => ["api", "run"]
  | fold => ["api", "optimize"]

/-- The path of a service. -/
def path (r : Route) : String := "/".intercalate ("" :: r.names)

/-- The names can be told apart in the path. -/
def Addressable (r : Route) : Prop := ∀ name ∈ r.names, name ≠ "" ∧ '/' ∉ name.toList

instance (r : Route) : Decidable r.Addressable := List.decidableBAll _ _

end Route

/-! ## Finding a service -/

/-- Where a method and a path lead. -/
inductive Destination where
  | found (r : Route)
  | wrongMethod
  | elsewhere
  | unknown
  deriving DecidableEq, Repr

/-- The methods that a path answers to, by its names. An identifier is never empty. Pages that
describe the interface are left out: nothing is found at their paths. -/
def methodsAt : List String → List (String × Route)
  | ["api", "session"] => [("POST", .createSession)]
  | ["api", "session", id] =>
    if id.isEmpty then [] else [("GET", .showSession id), ("DELETE", .deleteSession id)]
  | ["api", "session", id, "reset"] => if id.isEmpty then [] else [("POST", .resetSession id)]
  | ["api", "session", id, "step"] => if id.isEmpty then [] else [("POST", .step id)]
  | ["api", "session", id, "run"] => if id.isEmpty then [] else [("POST", .run id)]
  | ["api", "session", id, "breakpoints"] =>
    if id.isEmpty then [] else [("POST", .addBreakpoint id)]
  | ["api", "session", id, "breakpoints", pc] =>
    if id.isEmpty || pc.isEmpty then [] else [("DELETE", .removeBreakpoint id pc)]
  | ["api", "run"] => [("POST", .execute)]
  | ["api", "optimize"] => [("POST", .fold)]
  | _ => []

/-- A name without a line break at its end. -/
def withoutLineBreak (name : String) : String :=
  if name.toList.getLast? = some '\n' then String.ofList name.toList.dropLast else name

/-- The methods that a path answers to. A line break after a path that ends in a word is ignored;
after an identifier it belongs to it. -/
def methodsFor (names : List String) : List (String × Route) :=
  match methodsAt names with
  | [] => methodsAt (names.dropLast ++ (names.getLast?.map withoutLineBreak).toList)
  | methods => methods

/-- The methods that an absolute path answers to. -/
def pathMethods (path : String) : List (String × Route) :=
  match path.splitOn "/" with
  | "" :: names => methodsFor names
  | _ => []

/-- A path without the slashes at its end. -/
def withoutTrailingSlashes (path : String) : String :=
  String.ofList (path.toList.reverse.dropWhile (· == '/')).reverse

/-- Where a request leads. A path that leads nowhere is known elsewhere if it would lead somewhere
without the slashes at its end. -/
def locate (method path : String) : Destination :=
  let methods := pathMethods path
  match methods.find? (·.1 == method) with
  | some (_, route) => .found route
  | none =>
    if !methods.isEmpty then .wrongMethod
    else if (pathMethods (withoutTrailingSlashes path)).isEmpty then .unknown
    else .elsewhere

end ByteTape.Web
