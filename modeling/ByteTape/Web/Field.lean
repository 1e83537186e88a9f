import ByteTape.Json.Binary
import ByteTape.Text.Ascii
import ByteTape.Text.Blank

/-!
# Fields of a request

How the fields of a request body are read from JSON values, and what is wrong with those that cannot
be. Whole numbers and truth values may also be given by numbers and texts that mean them.
-/

namespace ByteTape.Web

/-- What is wrong with a value. -/
inductive ProblemKind where
  | missing
  | jsonInvalid
  | notObject
  | textType
  | textUnicode
  | intType
  | intParsing
  | intTooLong
  | intFromFraction
  | notFinite
  | tooSmall (least : Int)
  | boolType
  | boolParsing
  deriving DecidableEq, Repr

namespace ProblemKind

/-- The word for a kind of problem. -/
def word : ProblemKind → String
  | missing => "missing"
  | jsonInvalid => "json_invalid"
  | notObject => "model_attributes_type"
  | textType => "string_type"
  | textUnicode => "string_unicode"
  | intType => "int_type"
  | intParsing => "int_parsing"
  | intTooLong => "int_parsing_size"
  | intFromFraction => "int_from_float"
  | notFinite => "finite_number"
  | tooSmall _ => "greater_than_equal"
  | boolType => "bool_type"
  | boolParsing => "bool_parsing"

/-- The sentence for a kind of problem. -/
def message : ProblemKind → String
  | missing => "Field required"
  | jsonInvalid => "JSON decode error"
  | notObject => "Input should be a valid dictionary or object to extract fields from"
  | textType => "Input should be a valid string"
  | textUnicode => "Input should be a valid string, unable to parse raw data as a unicode string"
  | intType => "Input should be a valid integer"
  | intParsing => "Input should be a valid integer, unable to parse string as an integer"
  | intTooLong => "Unable to parse input string as an integer, exceeded maximum size"
  | intFromFraction => "Input should be a valid integer, got a number with a fractional part"
  | notFinite => "Input should be a finite number"
  | tooSmall least => s!"Input should be greater than or equal to {least}"
  | boolType => "Input should be a valid boolean"
  | boolParsing => "Input should be a valid boolean, unable to interpret input"

end ProblemKind

/-- A step on the way to a value: a name, or a position in a text. -/
inductive Place where
  | name (s : String)
  | position (n : Nat)
  deriving DecidableEq, Repr

/-- A problem, where it lies, and the value that has it. -/
structure Problem where
  kind : ProblemKind
  places : List Place
  value : Json

/-- A value, or all the problems on the way to it. -/
abbrev Checked (α : Type) := Except (List Problem) α

/-- Apply a checked function to a checked value, with the problems of both in order. -/
def Checked.apply {α β : Type} : Checked (α → β) → Checked α → Checked β
  | .ok f, .ok a => .ok (f a)
  | .ok _, .error ps => .error ps
  | .error ps, .ok _ => .error ps
  | .error ps, .error qs => .error (ps ++ qs)

/-! ## Whole numbers -/

/-- A whole number in its plain form: an optional minus sign and digits without extra zeros. Too
many digits are refused for that, whatever comes after them. -/
def plainInt (text : List Char) : Except ProblemKind Int :=
  let sign := text.takeWhile (· == '-')
  let rest := text.drop sign.length
  let digits := rest.takeWhile Char.isDigit
  if 1 < sign.length ∨ digits.isEmpty ∨ (digits.head? = some '0' ∧ digits.length ≠ 1) then
    .error .intParsing
  else if Text.maxDigits < digits.length then .error .intTooLong
  else if digits.length < rest.length then .error .intParsing
  else
    let n : Int := Text.digitsValue digits
    .ok (if sign.isEmpty then n else -n)

/-- Drop the zeros, and underscores among them, in front of other digits, with the character before
the text at hand. A zero before a point stays, and of nothing but zeros the last character. -/
def dropZeros (before : Char) : List Char → Option (List Char)
  | [] => some [before]
  | c :: rest =>
    if c = '0' ∨ c = '_' then dropZeros c rest
    else if c.isDigit ∨ c = '-' then some (c :: rest)
    else if c = '.' then some (before :: c :: rest)
    else none

/-- Drop leading zeros. A text that starts with no digit is no number. -/
def withoutLeadingZeros : List Char → Option (List Char)
  | '0' :: rest => dropZeros '0' rest
  | c :: rest => if c.isDigit then some (c :: rest) else none
  | [] => none

/-- Drop a point followed by nothing but zeros, and at least one. -/
def withoutFraction (text : List Char) : Option (List Char) :=
  let whole := text.takeWhile (· != '.')
  match text.drop whole.length with
  | [] => some text
  | _ :: zeros => if !zeros.isEmpty && zeros.all (· == '0') then some whole else none

/-- Whether two underscores stand side by side. -/
def hasDoubleUnderscore : List Char → Bool
  | '_' :: '_' :: _ => true
  | _ :: rest => hasDoubleUnderscore rest
  | [] => false

/-- Drop single underscores inside a text. -/
def withoutUnderscores (text : List Char) : List Char :=
  if text.head? == some '_' || text.getLast? == some '_' || hasDoubleUnderscore text then text
  else text.filter (· != '_')

/-- Bring the digits of a whole number into their plain form: without leading zeros, a fraction of
zeros and underscores between digits. -/
def simplifyDigits (text : List Char) : Option (List Char) :=
  (withoutLeadingZeros text >>= withoutFraction).map withoutUnderscores

/-- Bring a whole number into its plain form. -/
def simplifyInt : List Char → Option (List Char)
  | '+' :: rest => simplifyDigits rest
  | '-' :: rest => (simplifyDigits rest).map ('-' :: ·)
  | text => simplifyDigits text

/-- A whole number given by a text. Only a text that has the plain form from the start can be too
long. -/
def intOfText (text : String) : Except ProblemKind Int :=
  match plainInt text.toList with
  | .error .intParsing =>
    match (simplifyInt (Text.trimBy Text.isWhiteSpace text.toList)).map plainInt with
    | some (.ok n) => .ok n
    | _ => .error .intParsing
  | result => result

/-- Whether a number fits into 64 bits. -/
def fits64 (n : Int) : Bool := -(Nat.pow 2 63 : Int) ≤ n && n < Nat.pow 2 63

/-- A whole number given by a number with a fraction or an exponent, in fewer than 64 bits. -/
def intOfDecimal (d : Decimal) : Except ProblemKind Int :=
  match d.nearest with
  | .nan | .infinite _ => .error .notFinite
  | number =>
    match number.integer? with
    | none => .error .intFromFraction
    | some n => if n.natAbs < Nat.pow 2 63 then .ok n else .error .intTooLong

/-- A whole number. -/
def readInt : Json → Except ProblemKind Int
  | .int n => .ok n
  | .bool b => .ok (if b then 1 else 0)
  | .decimal d => intOfDecimal d
  | .str (.plain text) => intOfText text
  | .str (.broken _) => .error .textUnicode
  | _ => .error .intType

/-- A whole number that is at least `least`. -/
def readIntFrom (least : Int) (value : Json) : Except ProblemKind Int :=
  match readInt value with
  | .ok n => if least ≤ n then .ok n else .error (.tooSmall least)
  | .error kind => .error kind

/-- A value that may be null. -/
def readOptional {α : Type} (read : Json → Except ProblemKind α) :
    Json → Except ProblemKind (Option α)
  | .null => .ok none
  | value => (read value).map some

/-! ## Texts and truth values -/

def readText : Json → Except ProblemKind JsonText
  | .str text => .ok text
  | _ => .error .textType

/-- A truth value given by a text, in ASCII letters of either case. -/
def boolOfText (text : String) : Except ProblemKind Bool :=
  let word := text.map Char.toLower
  if ["1", "t", "y", "on", "yes", "true"].contains word then .ok true
  else if ["0", "f", "n", "off", "no", "false"].contains word then .ok false
  else .error .boolParsing

/-- A truth value given by a number. A number of more than 64 bits is of the wrong type. -/
def boolOfInt (n : Int) : Except ProblemKind Bool :=
  if n = 1 then .ok true else if n = 0 then .ok false
  else .error (if fits64 n then .boolParsing else .boolType)

def readBool : Json → Except ProblemKind Bool
  | .bool b => .ok b
  | .int n => boolOfInt n
  | .decimal d =>
    match intOfDecimal d with
    | .ok n => boolOfInt n
    | .error _ => .error .boolType
  | .str (.plain text) => boolOfText text
  | .str (.broken _) => .error .textUnicode
  | _ => .error .boolType

/-! ## Fields -/

/-- Read a field of a body. A missing one takes its default, if it has one. -/
def field {α : Type} (members : List (JsonText × Json)) (name : String) (default : Option α)
    (read : Json → Except ProblemKind α) : Checked α :=
  let problem (kind : ProblemKind) (value : Json) : Problem :=
    ⟨kind, [.name "body", .name name], value⟩
  match Json.lookup name members with
  | none => default.elim (.error [problem .missing (.obj members)]) .ok
  | some value =>
    match read value with
    | .ok a => .ok a
    | .error kind => .error [problem kind value]

end ByteTape.Web
