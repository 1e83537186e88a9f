import ByteTape.Json.Basic

/-!
# Forms

What the bodies of requests hold, and the forms that they have to be of.
-/

namespace ByteTape.Web

/-- A session to be created. -/
structure NewSession where
  code : JsonText
  input : JsonText
  optimize : Bool
  radius : Int
  limit : Option Int
  historyLimit : Int
  deriving DecidableEq, Repr

/-- A number of steps to take. -/
structure StepCount where
  count : Int
  deriving DecidableEq, Repr

/-- A run to a breakpoint or over all of them. -/
structure RunLimit where
  limit : Option Int
  ignoreBreakpoints : Bool
  deriving DecidableEq, Repr

/-- A position to stop at. -/
structure StopAt where
  pc : Int
  deriving DecidableEq, Repr

/-- A program to be run at once. -/
structure WholeRun where
  code : JsonText
  input : JsonText
  optimize : Bool
  limit : Option Int
  deriving DecidableEq, Repr

/-- A program to be folded. -/
structure ToFold where
  code : JsonText
  deriving DecidableEq, Repr

/-- The forms of bodies, by what these hold. -/
inductive Form : Type → Type where
  | newSession : Form NewSession
  | stepCount : Form StepCount
  | runLimit : Form RunLimit
  | stopAt : Form StopAt
  | wholeRun : Form WholeRun
  | toFold : Form ToFold

end ByteTape.Web
