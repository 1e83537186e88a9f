/-!
# Words of a line

Splitting a line into words. Words are separated by spaces, tabs and line breaks; single quotes keep
everything between them, double quotes everything but escapes, and a backslash keeps the character
after it. Quotes may open and close inside a word, and a pair of them is a word even when empty.
-/

namespace ByteTape.Text

/-- A line that ends where a word cannot. -/
inductive WordError where
  | openQuote
  | openEscape
  deriving DecidableEq, Repr

def WordError.message : WordError → String
  | openQuote => "No closing quotation"
  | openEscape => "No escaped character"

/-- Where the reader of a line stands: between words, in the plain part of a word, between quotes,
or after a backslash. The last keeps the quotes it occurred in, if any. -/
inductive WordMode where
  | between
  | plain
  | quoted (quote : Char)
  | escaped (within : Option Char)
  deriving DecidableEq, Repr

def isSeparator (c : Char) : Bool := c == ' ' || c == '\t' || c == '\r' || c == '\n'

def isQuote (c : Char) : Bool := c.toNat == 34 || c.toNat == 39

/-- The backslash. -/
def isEscape (c : Char) : Bool := c.toNat == 92

/-- Only double quotes leave backslashes their meaning. -/
def allowsEscape (quote : Char) : Bool := quote.toNat == 34

/-- Read on in a mode, with the characters of the word being read in reverse. -/
def wordsFrom : WordMode → (word : List Char) → List Char → Except WordError (List String)
  | .between, _, [] => .ok []
  | .plain, word, [] => .ok [String.ofList word.reverse]
  | .quoted _, _, [] => .error .openQuote
  | .escaped _, _, [] => .error .openEscape
  | .between, word, c :: rest =>
    if isSeparator c then wordsFrom .between word rest
    else if isEscape c then wordsFrom (.escaped none) [] rest
    else if isQuote c then wordsFrom (.quoted c) [] rest
    else wordsFrom .plain [c] rest
  | .plain, word, c :: rest =>
    if isSeparator c then
      (wordsFrom .between [] rest).map (String.ofList word.reverse :: ·)
    else if isEscape c then wordsFrom (.escaped none) word rest
    else if isQuote c then wordsFrom (.quoted c) word rest
    else wordsFrom .plain (c :: word) rest
  | .quoted quote, word, c :: rest =>
    if c = quote then wordsFrom .plain word rest
    else if isEscape c && allowsEscape quote then wordsFrom (.escaped (some quote)) word rest
    else wordsFrom (.quoted quote) (c :: word) rest
  | .escaped none, word, c :: rest => wordsFrom .plain (c :: word) rest
  | .escaped (some quote), word, c :: rest =>
    if isEscape c || c = quote then wordsFrom (.quoted quote) (c :: word) rest
    else wordsFrom (.quoted quote) (c :: Char.ofNat 92 :: word) rest

/-- The words of a line. -/
def words (line : String) : Except WordError (List String) := wordsFrom .between [] line.toList

end ByteTape.Text
