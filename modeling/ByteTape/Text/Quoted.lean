import ByteTape.Text.Ascii
import ByteTape.Text.Printable

/-!
# Quoted text

Text and bytes between quotes, as messages and state displays show them. The quote is a single one,
or a double one where the content holds a single quote and no double one. A backslash and the quote
in use are escaped; line breaks, returns and tabs have short escapes, and whatever else cannot be
shown is written by its number.
-/

namespace ByteTape.Text

def singleQuote : Char := Char.ofNat 39
def doubleQuote : Char := Char.ofNat 34
def backslash : Char := Char.ofNat 92

/-- The quote for some content. -/
def quoteFor (content : List Char) : Char :=
  if singleQuote ∈ content ∧ doubleQuote ∉ content then doubleQuote else singleQuote

/-- A character that cannot be shown, by its number. -/
def escapeByNumber (c : Char) : List Char :=
  let n := c.toNat
  if n < 0x100 then backslash :: 'x' :: hexDigits 2 n
  else if n < 0x10000 then backslash :: 'u' :: hexDigits 4 n
  else backslash :: 'U' :: hexDigits 8 n

/-- One character between quotes. -/
def quoteChar (printable : Char → Bool) (quote c : Char) : List Char :=
  if c = quote ∨ c = backslash then [backslash, c]
  else if c = '\n' then [backslash, 'n']
  else if c = '\r' then [backslash, 'r']
  else if c = '\t' then [backslash, 't']
  else if printable c then [c]
  else escapeByNumber c

/-- Some content between quotes. -/
def quoteBy (printable : Char → Bool) (content : List Char) : List Char :=
  let quote := quoteFor content
  quote :: content.flatMap (quoteChar printable quote) ++ [quote]

/-- A text between quotes. -/
def quote (text : String) : String := String.ofList (quoteBy isPrintable text.toList)

/-- Bytes between quotes: a byte is shown as the character of its number if that is printable
ASCII. -/
def quoteBytes (bytes : List UInt8) : String :=
  let printable (c : Char) := 0x20 ≤ c.toNat && c.toNat ≤ 0x7e
  String.ofList ('b' :: quoteBy printable (bytes.map fun b => Char.ofNat b.toNat))

end ByteTape.Text
