import ByteTape.Json.Encoding
import ByteTape.Json.Reader
import ByteTape.Web.Field
import ByteTape.Web.Form

/-!
# Request bodies

The bodies that requests come with, and how they are read from text. All fields are looked at, so
that a refusal lists every problem, in the order of the fields.
-/

namespace ByteTape.Web

/-- Why a request is refused before anything is done: its values have problems, or its body cannot
be read at all. -/
inductive BodyError where
  | problems (ps : List Problem)
  | unreadable

/-- How deep arrays and objects may be nested in a body. -/
def maxDepth : Nat := 970

/-- The members of the object that a body has to be. -/
def bodyMembers (body : List UInt8) : Except BodyError (List (JsonText × Json)) :=
  let refuse (kind : ProblemKind) (places : List Place) (value : Json) :=
    .error (.problems [⟨kind, .name "body" :: places, value⟩])
  if body.isEmpty then refuse .missing [] .null
  else
    match (Json.decode? body).map (Json.read maxDepth) with
    | none | some (.error .longNumber) | some (.error .tooDeep) => .error .unreadable
    | some (.error (.unexpected position)) => refuse .jsonInvalid [.position position] (.obj [])
    | some (.ok (.obj members)) => .ok members
    | some (.ok value) => refuse .notObject [] value

/-! ## Fields of the forms -/

def NewSession.fields (m : List (JsonText × Json)) : Checked NewSession :=
  Checked.apply (Checked.apply (Checked.apply (Checked.apply (Checked.apply
    ((field m "code" (some (.plain "")) readText).map NewSession.mk)
    (field m "input" (some (.plain "")) readText))
    (field m "optimize" (some false) readBool))
    (field m "tape_window" (some 10) (readIntFrom 0)))
    (field m "max_steps" (some none) (readOptional (readIntFrom 1))))
    (field m "history_limit" (some 200) (readIntFrom 1))

def StepCount.fields (m : List (JsonText × Json)) : Checked StepCount :=
  (field m "count" (some 1) (readIntFrom 1)).map StepCount.mk

def RunLimit.fields (m : List (JsonText × Json)) : Checked RunLimit :=
  Checked.apply
    ((field m "limit" (some none) (readOptional (readIntFrom 1))).map RunLimit.mk)
    (field m "ignore_breakpoints" (some false) readBool)

def StopAt.fields (m : List (JsonText × Json)) : Checked StopAt :=
  (field m "pc" none (readIntFrom 0)).map StopAt.mk

def WholeRun.fields (m : List (JsonText × Json)) : Checked WholeRun :=
  Checked.apply (Checked.apply (Checked.apply
    ((field m "code" none readText).map WholeRun.mk)
    (field m "input" (some (.plain "")) readText))
    (field m "optimize" (some true) readBool))
    (field m "max_steps" (some (some 1000000)) (readOptional (readIntFrom 1)))

def ToFold.fields (m : List (JsonText × Json)) : Checked ToFold :=
  (field m "code" none readText).map ToFold.mk

/-- Read the fields of a form. -/
def Form.fields : {α : Type} → Form α → List (JsonText × Json) → Checked α
  | _, newSession => NewSession.fields
  | _, stepCount => StepCount.fields
  | _, runLimit => RunLimit.fields
  | _, stopAt => StopAt.fields
  | _, wholeRun => WholeRun.fields
  | _, toFold => ToFold.fields

/-- Read a body by the fields of a form. -/
def readBody {α : Type} (form : Form α) (body : List UInt8) : Except BodyError α :=
  match bodyMembers body with
  | .error e => .error e
  | .ok members =>
    match form.fields members with
    | .ok a => .ok a
    | .error ps => .error (.problems ps)

end ByteTape.Web
