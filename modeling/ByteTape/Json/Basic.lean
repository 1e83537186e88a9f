import ByteTape.Text.CodePoint

/-!
# JSON values

The values of JSON documents. Whole numbers are kept apart from numbers with a fraction or an
exponent, which are kept as written, so that no digit is lost before a field asks for it.
-/

namespace ByteTape

/-- A number with a fraction or an exponent, as written: `digits * 10 ^ exponent` with a sign, or
one of the values beyond all numbers. -/
inductive Decimal where
  | finite (negative : Bool) (digits : Nat) (exponent : Int)
  | infinite (negative : Bool)
  | nan
  deriving DecidableEq, Repr

/-- A text in a document: a plain one, or one by its code points where a lone half of a surrogate
pair is among them. -/
inductive JsonText where
  | plain (s : String)
  | broken (points : List Text.CodePoint)
  deriving DecidableEq, Repr

namespace JsonText

/-- The text of some code points. -/
def ofPoints (points : List Text.CodePoint) : JsonText :=
  let chars := points.filterMap Text.CodePoint.char?
  if chars.length = points.length then plain (String.ofList chars) else broken points

/-- The characters of a text, without lone halves. -/
def characters : JsonText → String
  | plain s => s
  | broken points => String.ofList (points.filterMap Text.CodePoint.char?)

/-- The code points of a text. -/
def points : JsonText → List Text.CodePoint
  | plain s => Text.codePoints s
  | broken points => points

/-- Whether a text starts with another one. -/
def startsWith (text : JsonText) (beginning : String) : Bool :=
  (Text.codePoints beginning).isPrefixOf text.points

/-- The bytes of a text. -/
def encode : JsonText → Except Text.LoneHalves (List UInt8)
  | plain s => .ok (Text.encodeUtf8 s)
  | broken points => Text.encodePoints points

end JsonText

/-- A JSON value. -/
inductive Json where
  | null
  | bool (b : Bool)
  | int (n : Int)
  | decimal (d : Decimal)
  | str (text : JsonText)
  | arr (items : List Json)
  | obj (members : List (JsonText × Json))

namespace Json

/-- A text value. -/
def text (s : String) : Json := str (.plain s)

/-- A natural number. -/
def nat (n : Nat) : Json := int n

/-- An object from its members. -/
def record (members : List (String × Json)) : Json :=
  obj (members.map fun m => (.plain m.1, m.2))

/-- A value that may be missing. -/
def ofOption {α : Type} (f : α → Json) : Option α → Json
  | none => null
  | some a => f a

/-- The value of a key in a list of members. -/
def lookup (key : String) (members : List (JsonText × Json)) : Option Json :=
  (members.find? fun m => m.1 == .plain key).map Prod.snd

/-- The value of a key of an object. -/
def get? (key : String) : Json → Option Json
  | obj members => lookup key members
  | _ => none

/-- Members with one more: a key that is there already keeps its place and takes the new value. -/
def insertMember (key : JsonText) (value : Json) :
    List (JsonText × Json) → List (JsonText × Json)
  | [] => [(key, value)]
  | m :: rest => if m.1 = key then (key, value) :: rest else m :: insertMember key value rest

mutual

/-- A value with only those members, at any depth, whose keys are to be kept. -/
def keepMembers (keep : JsonText → Bool) : Json → Json
  | arr items => arr (keepInItems keep items)
  | obj members => obj (keepInMembers keep members)
  | value => value

def keepInItems (keep : JsonText → Bool) : List Json → List Json
  | [] => []
  | value :: rest => keepMembers keep value :: keepInItems keep rest

def keepInMembers (keep : JsonText → Bool) :
    List (JsonText × Json) → List (JsonText × Json)
  | [] => []
  | (key, value) :: rest =>
    if keep key then (key, keepMembers keep value) :: keepInMembers keep rest
    else keepInMembers keep rest

end

end Json

end ByteTape
