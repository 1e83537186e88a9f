import ByteTape.Text.Ascii
import ByteTape.Text.Blank
import ByteTape.Text.Digit

/-!
# Numerals

Reading whole numbers as people type them: space around the numeral, a sign, digits of any script,
and single underscores between digits.
-/

namespace ByteTape.Text

/-- An ASCII digit or its counterpart in another script; white space beyond ASCII counts as a
space. -/
def plainChar (c : Char) : Char :=
  if c.toNat < 0x7f then c
  else if isBlank c then ' '
  else
    match digitValue? c with
    | some d => Char.ofNat (48 + d)
    | none => c

/-- The space allowed around a numeral. -/
def isPadding (c : Char) : Bool := c == ' ' || (0x09 ≤ c.toNat && c.toNat ≤ 0x0d)

/-- Digits with single underscores between them, after a number already read. -/
def readDigits (value : Nat) : (afterDigit : Bool) → List Char → Option Nat
  | afterDigit, [] => if afterDigit then some value else none
  | afterDigit, c :: rest =>
    if c = '_' then
      if afterDigit then readDigits value false rest else none
    else if c.isDigit then readDigits (value * 10 + (c.toNat - 48)) true rest
    else none

/-- A nonempty run of digits with single underscores between them. -/
def natural? (cs : List Char) : Option Nat :=
  if (cs.filter Char.isDigit).length ≤ maxDigits then readDigits 0 false cs else none

/-- A whole number. -/
def integer? (text : String) : Option Int :=
  match trimBy isPadding (text.toList.map plainChar) with
  | '-' :: rest => (natural? rest).map fun n => -n
  | '+' :: rest => (natural? rest).map fun n => n
  | rest => (natural? rest).map fun n => n

end ByteTape.Text
