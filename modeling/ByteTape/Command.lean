import ByteTape.Text.Quoted

/-!
# Commands

The eight commands of the tape language and their one-character symbols. Four of them are motions:
they move the head or change the active cell by one, and they come in opposite pairs. Any other
character of a source text is a comment.
-/

namespace ByteTape

/-- The commands that can be repeated and cancelled: two directions of the head, two of the cell. -/
inductive Motion where
  | right
  | left
  | increment
  | decrement
  deriving DecidableEq, Repr

namespace Motion

/-- The motion that undoes this one. -/
def opposite : Motion → Motion
  | right => left
  | left => right
  | increment => decrement
  | decrement => increment

@[simp] theorem opposite_opposite (m : Motion) : m.opposite.opposite = m := by
  cases m <;> rfl

@[simp] theorem opposite_ne (m : Motion) : m.opposite ≠ m := by
  cases m <;> decide

/-- Two motions share an axis when both move the head or both change the cell. -/
def sameAxis (m k : Motion) : Prop := k = m ∨ k = m.opposite

instance (m k : Motion) : Decidable (m.sameAxis k) :=
  inferInstanceAs (Decidable (k = m ∨ k = m.opposite))

/-- The largest number of repetitions that one instruction holds: a signed 64-bit word of head
positions, or one full turn of a byte less one. -/
def limit : Motion → Nat
  | right | left => 9223372036854775807
  | increment | decrement => 255

theorem limit_opposite (m : Motion) : m.opposite.limit = m.limit := by
  cases m <;> rfl

theorem limit_pos (m : Motion) : 0 < m.limit := by
  cases m <;> decide

def symbol : Motion → Char
  | right => '>'
  | left => '<'
  | increment => '+'
  | decrement => '-'

end Motion

/-- One command of the tape language. -/
inductive Command where
  | motion (m : Motion)
  | output
  | input
  | loopStart
  | loopEnd
  deriving DecidableEq, Repr

namespace Command

/-- The character a command is written with. -/
def symbol : Command → Char
  | motion m => m.symbol
  | output => '.'
  | input => ','
  | loopStart => '['
  | loopEnd => ']'

/-- The command that a character stands for, if any. -/
def ofSymbol? : Char → Option Command
  | '>' => some (motion .right)
  | '<' => some (motion .left)
  | '+' => some (motion .increment)
  | '-' => some (motion .decrement)
  | '.' => some output
  | ',' => some input
  | '[' => some loopStart
  | ']' => some loopEnd
  | _ => none

@[simp] theorem ofSymbol?_symbol (c : Command) : ofSymbol? c.symbol = some c := by
  rcases c with (_ | _ | _ | _) | _ | _ | _ | _ <;> rfl

theorem symbol_of_ofSymbol? {s : Char} {c : Command} (h : ofSymbol? s = some c) :
    c.symbol = s := by
  unfold ofSymbol? at h
  split at h <;> cases h <;> rfl

theorem ofSymbol?_eq_some_iff {s : Char} {c : Command} :
    ofSymbol? s = some c ↔ s = c.symbol :=
  ⟨fun h => (symbol_of_ofSymbol? h).symm, fun h => h ▸ ofSymbol?_symbol c⟩

/-- A text that is not the symbol of a command. -/
structure InvalidSymbol where
  symbol : String
  deriving DecidableEq, Repr

def InvalidSymbol.message (e : InvalidSymbol) : String :=
  "Invalid command: " ++ Text.quote e.symbol

/-- The command with a given symbol. -/
def decode (symbol : String) : Except InvalidSymbol Command :=
  match symbol.toList with
  | [c] => (ofSymbol? c).elim (.error ⟨symbol⟩) .ok
  | _ => .error ⟨symbol⟩

/-- Every command of a source text in order; characters that are no symbol are skipped. -/
def parse (source : List Char) : List Command := source.filterMap ofSymbol?

/-- The symbols of a command list. -/
def render (commands : List Command) : List Char := commands.map symbol

@[simp] theorem parse_append (s t : List Char) : parse (s ++ t) = parse s ++ parse t :=
  List.filterMap_append

@[simp] theorem render_append (cs ds : List Command) :
    render (cs ++ ds) = render cs ++ render ds :=
  List.map_append

@[simp] theorem parse_render (cs : List Command) : parse (render cs) = cs := by
  induction cs with
  | nil => rfl
  | cons c cs ih =>
    rw [render, List.map_cons, parse, List.filterMap_cons_some (ofSymbol?_symbol c)]
    exact congrArg (c :: ·) ih

end Command

end ByteTape
