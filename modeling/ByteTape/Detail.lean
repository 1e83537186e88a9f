import ByteTape.Text.Quoted

/-!
# Details of an error

The values by which an error of the operating system is described, and how they are shown. By
itself a text is shown as it is; as a name, or inside another value, it is quoted.
-/

namespace ByteTape

/-- Why a number is no number of bytes: it is a fraction, or does not fit into 64 bits. -/
inductive ByteCountError where
  | fraction
  | tooWide
  deriving DecidableEq, Repr

def ByteCountError.message : ByteCountError → String
  | fraction => "'float' object cannot be interpreted as an integer"
  | tooWide => "cannot fit 'int' into an index-sized integer"

/-- A value that describes an error. A fraction is held by its digits. -/
inductive Detail where
  | nothing
  | truth (b : Bool)
  | number (n : Int)
  | fraction (digits : String)
  | text (s : String)
  | list (items : List Detail)
  | record (members : List (String × Detail))

namespace Detail

mutual

/-- A detail with its texts quoted. -/
def quoted : Detail → String
  | nothing => "None"
  | truth b => if b then "True" else "False"
  | number n => toString n
  | fraction digits => digits
  | text s => Text.quote s
  | list items => "[" ++ ", ".intercalate (quotedItems items) ++ "]"
  | record members => "\x7b" ++ ", ".intercalate (quotedMembers members) ++ "\x7d"

def quotedItems : List Detail → List String
  | [] => []
  | item :: rest => quoted item :: quotedItems rest

def quotedMembers : List (String × Detail) → List String
  | [] => []
  | (name, value) :: rest => (Text.quote name ++ ": " ++ quoted value) :: quotedMembers rest

end

/-- A detail by itself. -/
def plain : Detail → String
  | text s => s
  | detail => detail.quoted

/-- Whether a number is a number of bytes; `none` for a detail that is no number. -/
def byteCount? : Detail → Option (Except ByteCountError Unit)
  | truth _ => some (.ok ())
  | number n =>
    some (if -(Nat.pow 2 63 : Int) ≤ n ∧ n < Nat.pow 2 63 then .ok () else .error .tooWide)
  | fraction _ => some (.error .fraction)
  | _ => none

/-- Whether a detail is the code of an operation that would have had to wait. -/
def isWait : Detail → Bool
  | number n => [11, 114, 115].contains n
  | _ => false

/-- A file name in a description, if there is one, after some text. -/
def nameAfter (joint : String) : Detail → String
  | nothing => ""
  | name => joint ++ name.quoted

end Detail

end ByteTape
