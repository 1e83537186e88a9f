import ByteTape.Json.Basic

/-!
# Reading JSON

A reader of JSON texts that says at which code point a text goes wrong. Beyond the standard it takes
the words for infinities and for what is not a number. Whole numbers are limited in length, and
arrays and objects in how deep they are nested: the reader has some room, of which each of them
takes a piece while it is read.
-/

namespace ByteTape

/-- Why a text is no JSON value: something else was expected at a position, a whole number is too
long to be read, or arrays and objects are nested so deep that the reader runs out of room. -/
inductive JsonError where
  | unexpected (position : Nat)
  | longNumber
  | tooDeep
  deriving DecidableEq, Repr

/-- The rest of a text and the position at which it starts. -/
structure Cursor where
  position : Nat
  rest : List Text.CodePoint
  deriving DecidableEq, Repr

namespace Json

open Text (CodePoint)

/-- The characters of a class that a text starts with. -/
def leading (p : Char → Bool) : List CodePoint → List Char
  | .char c :: rest => if p c then c :: leading p rest else []
  | _ => []

def isBlank (c : Char) : Bool := c == ' ' || c == '\t' || c == '\n' || c == '\r'

/-- Skip the blanks between tokens. -/
def skipBlanks (c : Cursor) : Cursor :=
  let blanks := leading isBlank c.rest
  ⟨c.position + blanks.length, c.rest.drop blanks.length⟩

/-- The number that four hexadecimal digits stand for. -/
def hexWord? : List CodePoint → Option Nat
  | .char a :: .char b :: .char c :: .char d :: _ => do
    let a ← Text.hexValue? a
    let b ← Text.hexValue? b
    let c ← Text.hexValue? c
    let d ← Text.hexValue? d
    return ((a * 16 + b) * 16 + c) * 16 + d
  | _ => none

/-- The character that a letter stands for after a backslash. -/
def escape? (c : Char) : Option Char :=
  if c.toNat = 34 ∨ c.toNat = 92 ∨ c = '/' then some c
  else
    match c with
    | 'b' => some (Char.ofNat 8)
    | 'f' => some (Char.ofNat 12)
    | 'n' => some '\n'
    | 'r' => some '\r'
    | 't' => some '\t'
    | _ => none

/-- The low half of a surrogate pair that follows a high half. Something has to follow it; the error
is where a text goes wrong. -/
def lowHalf? (position : Nat) : List CodePoint → Except Nat (Option Nat)
  | .char '\x5c' :: .char 'u' :: rest =>
    if rest.drop 4 = [] then .ok none
    else
      match hexWord? rest with
      | none => .error (position + 1)
      | some n => .ok (if Text.isLowHalf n then some n else none)
  | _ => .ok none

/-- Read a text from after its opening quote, which stands at `opening`. What has been read so far
is given in reverse. The error is where the text goes wrong. -/
def readText (opening : Nat) :
    (fuel : Nat) → Cursor → List CodePoint → Except Nat (JsonText × Cursor)
  | 0, _, _ => .error opening
  | _ + 1, ⟨_, []⟩, _ => .error opening
  | _ + 1, ⟨position, .char '\x22' :: rest⟩, read =>
    .ok (.ofPoints read.reverse, ⟨position + 1, rest⟩)
  | _ + 1, ⟨_, [.char '\x5c']⟩, _ => .error opening
  | fuel + 1, ⟨position, .char '\x5c' :: .char 'u' :: digits⟩, read =>
    let after := digits.drop 4
    match (if after.isEmpty then none else hexWord? digits) with
    | none => .error (position + 1)
    | some n =>
      if Text.isHighHalf n then
        match lowHalf? (position + 6) after with
        | .error e => .error e
        | .ok (some low) =>
          let c := Text.joinHalves n low
          readText opening fuel ⟨position + 12, after.drop 6⟩ (.char c :: read)
        | .ok none => readText opening fuel ⟨position + 6, after⟩ (.half n :: read)
      else readText opening fuel ⟨position + 6, after⟩ (.ofNat n :: read)
  | fuel + 1, ⟨position, .char '\x5c' :: letter :: rest⟩, read =>
    match letter.char?.bind escape? with
    | some c => readText opening fuel ⟨position + 2, rest⟩ (.char c :: read)
    | none => .error position
  | fuel + 1, ⟨position, point :: rest⟩, read =>
    if point.char?.any (·.toNat < 32) then .error position
    else readText opening fuel ⟨position + 1, rest⟩ (point :: read)

/-- The digits of the whole part: a zero, or a run that does not start with one. -/
def wholeDigits : List CodePoint → List Char
  | .char '0' :: _ => ['0']
  | points => leading Char.isDigit points

/-- The digits after a point, if the point and at least one digit are there. -/
def fractionDigits : List CodePoint → List Char
  | .char '.' :: rest => leading Char.isDigit rest
  | _ => []

/-- The exponent, its sign taken into account, and the number of characters it takes. -/
def exponent? : List CodePoint → Option (Int × Nat)
  | .char e :: rest =>
    if e = 'e' ∨ e = 'E' then
      let signed : Bool × Bool := match rest with
        | .char '-' :: _ => (true, true)
        | .char '+' :: _ => (true, false)
        | _ => (false, false)
      let digits := leading Char.isDigit (if signed.1 then rest.drop 1 else rest)
      let value : Int := Text.digitsValue digits
      if digits.isEmpty then none
      else
        some (if signed.2 then -value else value, 1 + (if signed.1 then 1 else 0) + digits.length)
    else none
  | _ => none

/-- Read a number. -/
def readNumber (c : Cursor) : Except JsonError (Json × Cursor) :=
  let negative := c.rest.head? == some (.char '-')
  let unsigned := if negative then c.rest.drop 1 else c.rest
  let whole := wholeDigits unsigned
  if whole.isEmpty then .error (.unexpected c.position)
  else
    let afterWhole := unsigned.drop whole.length
    let fraction := fractionDigits afterWhole
    let fractionLength := if fraction.isEmpty then 0 else fraction.length + 1
    let exponent := exponent? (afterWhole.drop fractionLength)
    let exponentLength := exponent.elim 0 Prod.snd
    let length := (if negative then 1 else 0) + whole.length + fractionLength + exponentLength
    let after : Cursor := ⟨c.position + length, c.rest.drop length⟩
    if fraction.isEmpty && exponent.isNone then
      if Text.maxDigits < whole.length then .error .longNumber
      else
        let n : Int := Text.digitsValue whole
        .ok (.int (if negative then -n else n), after)
    else
      let digits := Text.digitsValue (whole ++ fraction)
      let power := exponent.elim 0 Prod.fst - (fraction.length : Int)
      .ok (.decimal (.finite negative digits power), after)

/-- The words that stand for values. -/
def literals : List (String × Json) :=
  [("null", .null), ("true", .bool true), ("false", .bool false), ("NaN", .decimal .nan),
    ("Infinity", .decimal (.infinite false)), ("-Infinity", .decimal (.infinite true))]

/-- Read a word or a number. A word for an infinity or for no number takes a piece of room. -/
def readScalar (room : Nat) (c : Cursor) : Except JsonError (Json × Cursor) :=
  match literals.find? fun word => (Text.codePoints word.1).isPrefixOf c.rest, room with
  | some (_, .decimal _), 0 => .error .tooDeep
  | some (word, value), _ =>
    .ok (value, ⟨c.position + word.length, c.rest.drop word.length⟩)
  | none, _ => readNumber c

/-- The pieces of room it takes to say what is wrong inside a value that has begun. -/
def complaintRoom : Nat := 3

/-- What is wrong at a position, as far as there is room to say it. -/
def complaint (room position : Nat) : JsonError :=
  if room < complaintRoom then .tooDeep else .unexpected position

/-- Read a text that starts at the cursor, behind its opening quote. -/
def readString (room : Nat) (c : Cursor) : Except JsonError (JsonText × Cursor) :=
  match readText c.position (c.rest.length + 1) ⟨c.position + 1, c.rest.drop 1⟩ [] with
  | .error position => .error (complaint room position)
  | .ok read => .ok read

mutual

/-- Read a value that starts at the cursor, with `room` for arrays and objects inside each other. -/
def readValue : (fuel room : Nat) → Cursor → Except JsonError (Json × Cursor)
  | 0, _, c => .error (.unexpected c.position)
  | fuel + 1, room, c =>
    match c.rest, room with
    | .char '[' :: _, 0 | .char '\x7b' :: _, 0 => .error .tooDeep
    | .char '[' :: rest, room + 1 =>
      let c := skipBlanks ⟨c.position + 1, rest⟩
      match c.rest with
      | .char ']' :: rest => .ok (.arr [], ⟨c.position + 1, rest⟩)
      | _ => readItems fuel room c []
    | .char '\x7b' :: rest, room + 1 =>
      let c := skipBlanks ⟨c.position + 1, rest⟩
      match c.rest with
      | .char '\x7d' :: rest => .ok (.obj [], ⟨c.position + 1, rest⟩)
      | _ => readMembers fuel room c []
    | .char '\x22' :: _, room => (readString room c).map fun read => (.str read.1, read.2)
    | _, room => readScalar room c

/-- Read the items of an array from the start of one on. -/
def readItems : (fuel room : Nat) → Cursor → List Json → Except JsonError (Json × Cursor)
  | 0, _, c, _ => .error (.unexpected c.position)
  | fuel + 1, room, c, read =>
    match readValue fuel room c with
    | .error e => .error e
    | .ok (value, c) =>
      let c := skipBlanks c
      match c.rest with
      | .char ']' :: rest => .ok (.arr (value :: read).reverse, ⟨c.position + 1, rest⟩)
      | .char ',' :: rest =>
        readItems fuel room (skipBlanks ⟨c.position + 1, rest⟩) (value :: read)
      | _ => .error (complaint room c.position)

/-- Read the members of an object from the start of one on. -/
def readMembers : (fuel room : Nat) → Cursor → List (JsonText × Json) →
    Except JsonError (Json × Cursor)
  | 0, _, c, _ => .error (.unexpected c.position)
  | fuel + 1, room, c, read =>
    match c.rest with
    | .char '\x22' :: _ =>
      match readString room c with
      | .error e => .error e
      | .ok (key, c) =>
        let c := skipBlanks c
        match c.rest with
        | .char ':' :: rest =>
          match readValue fuel room (skipBlanks ⟨c.position + 1, rest⟩) with
          | .error e => .error e
          | .ok (value, c) =>
            let c := skipBlanks c
            let read := insertMember key value read
            match c.rest with
            | .char '\x7d' :: rest => .ok (.obj read, ⟨c.position + 1, rest⟩)
            | .char ',' :: rest =>
              readMembers fuel room (skipBlanks ⟨c.position + 1, rest⟩) read
            | _ => .error (complaint room c.position)
        | _ => .error (complaint room c.position)
    | _ => .error (complaint room c.position)

end

/-- Read a whole text as one value with `room` for arrays and objects inside each other. Every step
of the reader consumes a code point or follows one that does, so twice the length is fuel enough. -/
def read (room : Nat) (text : List CodePoint) : Except JsonError Json :=
  match readValue (2 * text.length + 2) room (skipBlanks ⟨0, text⟩) with
  | .error e => .error e
  | .ok (value, c) =>
    let c := skipBlanks c
    if c.rest.isEmpty then .ok value else .error (.unexpected c.position)

end Json

end ByteTape
