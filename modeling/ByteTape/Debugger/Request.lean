import ByteTape.Text.Blank
import ByteTape.Text.Numeral
import ByteTape.Text.Words

/-!
# Requests to the debugger

What can be typed at the debugger's prompt, and how a line is read as a request.
-/

namespace ByteTape.Debugger

/-- A request. A breakpoint is kept with the text it was typed as. -/
inductive Request where
  | next (count : Int)
  | run (limit : Option Int)
  | state
  | history (count : Int)
  | addBreakpoint (pc : Int) (typed : String)
  | listBreakpoints
  | clear
  | removeBreakpoint (pc : Int) (typed : String)
  | restart
  | quit
  | help
  deriving DecidableEq, Repr

/-- Why words are no request. -/
inductive RequestError where
  | unknown
  | badNumber
  | missingPosition
  deriving DecidableEq, Repr

/-- The lower case of a letter, as far as it is ASCII: of the ASCII capitals and the Kelvin sign. -/
def lowerChar (c : Char) : Char := if c.toNat = 0x212a then 'k' else c.toLower

def lower (word : String) : String := word.map lowerChar

/-- Read a number. -/
def number (word : String) : Except RequestError Int :=
  (Text.integer? word).elim (.error .badNumber) .ok

/-- The request for a first word in lower case and the words after it. Words that are too many are
ignored. -/
def Request.of (name : String) (arguments : List String) : Except RequestError Request :=
  match name with
  | "n" | "next" =>
    match arguments with
    | [] => .ok (.next 1)
    | n :: _ => (number n).map fun n => .next (max 1 n)
  | "r" | "run" =>
    match arguments with
    | [] => .ok (.run none)
    | n :: _ => (number n).map fun n => .run (some n)
  | "state" => .ok .state
  | "history" =>
    match arguments with
    | [] => .ok (.history 10)
    | n :: _ => (number n).map .history
  | "break" =>
    match arguments with
    | [] => .error .missingPosition
    | n :: _ => (number n).map (.addBreakpoint · n)
  | "breaks" => .ok .listBreakpoints
  | "clear" =>
    match arguments with
    | [] => .ok .clear
    | n :: _ => (number n).map (.removeBreakpoint · n)
  | "restart" => .ok .restart
  | "quit" | "exit" => .ok .quit
  | "help" => .ok .help
  | _ => .error .unknown

/-- The words of a line without the blanks around it; none for a blank line. -/
def lineWords (line : String) : Except Text.WordError (List String) :=
  Text.wordsFrom .between [] (Text.trimBy Text.isBlank line.toList)

end ByteTape.Debugger
