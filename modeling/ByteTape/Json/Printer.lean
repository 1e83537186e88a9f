import ByteTape.Json.Shortest
import ByteTape.Text.CodePoint

/-!
# Printing JSON

The compact text of a JSON value: no blanks, and escapes only where a text needs them. It is put
together from pieces; a piece may hold lone halves of surrogate pairs.
-/

namespace ByteTape.Json

open Text (CodePoint)

/-- One character of a text. -/
def printChar (c : Char) : List Char :=
  if c.toNat = 34 ∨ c.toNat = 92 then ['\x5c', c]
  else if c = '\n' then ['\x5c', 'n']
  else if c = '\r' then ['\x5c', 'r']
  else if c = '\t' then ['\x5c', 't']
  else if c.toNat = 8 then ['\x5c', 'b']
  else if c.toNat = 12 then ['\x5c', 'f']
  else if c.toNat < 32 then '\x5c' :: 'u' :: Text.hexDigits 4 c.toNat
  else [c]

/-- A text with the escapes it needs. -/
def printText : JsonText → JsonText
  | .plain s => .plain (String.ofList (s.toList.flatMap printChar))
  | .broken points => .broken (points.flatMap fun
      | .char c => (printChar c).map .char
      | .half n => [.half n])

/-- The pieces of a text between quotes. -/
def textPieces (text : JsonText) : List JsonText := [.plain "\x22", printText text, .plain "\x22"]

mutual

/-- The pieces of a value. -/
def pieces : Json → List JsonText
  | .null => [.plain "null"]
  | .bool b => [.plain (if b then "true" else "false")]
  | .int n => [.plain (toString n)]
  | .decimal d => [.plain d.nearest.text]
  | .str text => textPieces text
  | .arr items => .plain "[" :: itemPieces true items
  | .obj members => .plain "\x7b" :: memberPieces true members

/-- The pieces of items and the end of their array. -/
def itemPieces (first : Bool) : List Json → List JsonText
  | [] => [.plain "]"]
  | value :: rest =>
    .plain (if first then "" else ",") :: (pieces value ++ itemPieces false rest)

/-- The pieces of members and the end of their object. -/
def memberPieces (first : Bool) : List (JsonText × Json) → List JsonText
  | [] => [.plain "\x7d"]
  | (name, value) :: rest =>
    .plain (if first then "" else ",") ::
      (textPieces name ++ .plain ":" :: (pieces value ++ memberPieces false rest))

end

/-- A piece as it is written, with escapes for lone halves. -/
def writePiece : JsonText → String
  | .plain s => s
  | .broken points => String.ofList (points.flatMap fun
      | .char c => [c]
      | .half n => '\x5c' :: 'u' :: Text.hexDigits 4 n)

/-- The text of a value. -/
def print (j : Json) : String := String.join (j.pieces.map writePiece)

/-- The first lone halves in some pieces, by their positions in the whole text. -/
def loneHalves? (position : Nat) : List JsonText → Option Text.LoneHalves
  | [] => none
  | .plain s :: rest => loneHalves? (position + s.length) rest
  | .broken points :: rest =>
    match Text.loneHalves? position points with
    | some halves => some halves
    | none => loneHalves? (position + points.length) rest

/-- What keeps a value from being printed: a number that has no JSON text, or arrays and objects
nested too deep. -/
inductive Obstacle where
  | notFinite
  | tooDeep
  deriving DecidableEq, Repr

mutual

/-- The first obstacle in the order of the text, where at most `room` arrays and objects may stand
inside each other. -/
def obstacle? (room : Nat) : Json → Option Obstacle
  | .decimal d =>
    match d.nearest with
    | .finite .. => none
    | _ => some .notFinite
  | .arr items => if room = 0 then some .tooDeep else itemsObstacle? (room - 1) items
  | .obj members => if room = 0 then some .tooDeep else membersObstacle? (room - 1) members
  | _ => none

def itemsObstacle? (room : Nat) : List Json → Option Obstacle
  | [] => none
  | value :: rest => (obstacle? room value).or (itemsObstacle? room rest)

def membersObstacle? (room : Nat) : List (JsonText × Json) → Option Obstacle
  | [] => none
  | (_, value) :: rest => (obstacle? room value).or (membersObstacle? room rest)

end

end ByteTape.Json
