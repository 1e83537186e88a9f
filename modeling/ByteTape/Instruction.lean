import ByteTape.Command

/-!
# Instructions

The folded form of a program: a run of equal motions is one counted instruction, and loop
boundaries carry the index of their partner. Every instruction has a mnemonic and expands to the
commands it stands for.
-/

namespace ByteTape

/-- One folded instruction. A loop start knows its end only once that end has been seen. -/
inductive Instruction where
  | counted (m : Motion) (count : Nat)
  | output
  | input
  | loopStart (stop : Option Int)
  | loopEnd (start : Int)
  deriving DecidableEq, Repr

/-- A count outside the range that its motion allows. -/
structure CountError where
  limit : Nat
  count : Int
  deriving DecidableEq, Repr

def CountError.message (e : CountError) : String :=
  s!"count must be between 1 and {e.limit}, got {e.count}"

namespace Instruction

/-- A counted instruction, refused unless the count lies between 1 and the limit of its motion. -/
def counted? (m : Motion) (count : Int) : Except CountError Instruction :=
  if 1 ≤ count ∧ count ≤ m.limit then .ok (counted m count.toNat) else .error ⟨m.limit, count⟩

/-- Counts are between 1 and the limit of their motion. -/
def InRange : Instruction → Prop
  | counted m n => 1 ≤ n ∧ n ≤ m.limit
  | _ => True

instance : DecidablePred InRange := fun i => by
  cases i <;> unfold InRange <;> infer_instance

theorem inRange_of_counted? {m : Motion} {n : Int} {i : Instruction}
    (h : counted? m n = .ok i) : i.InRange := by
  unfold counted? at h
  split at h
  · cases h
    simp only [InRange]
    omega
  · cases h

/-- The word for a repeated motion. -/
def motionName : Motion → String
  | .right => "AddPointer"
  | .left => "SubtractPointer"
  | .increment => "AddValue"
  | .decrement => "SubtractValue"

/-- The text of an instruction in listings; an unresolved loop start points to a question mark. -/
def mnemonic : Instruction → String
  | counted m n => s!"{motionName m}({n})"
  | output => "Output"
  | input => "Input"
  | loopStart none => "LoopStart->?"
  | loopStart (some stop) => s!"LoopStart->{stop}"
  | loopEnd start => s!"LoopEnd->{start}"

/-- The commands that one instruction stands for. -/
def commands : Instruction → List Command
  | counted m n => List.replicate n (.motion m)
  | output => [.output]
  | input => [.input]
  | loopStart _ => [.loopStart]
  | loopEnd _ => [.loopEnd]

/-- The commands that a list of instructions stands for, in order. -/
def expand (is : List Instruction) : List Command := is.flatMap commands

@[simp] theorem expand_nil : expand [] = [] := rfl

@[simp] theorem expand_cons (i : Instruction) (is : List Instruction) :
    expand (i :: is) = i.commands ++ expand is := rfl

@[simp] theorem expand_append (is js : List Instruction) :
    expand (is ++ js) = expand is ++ expand js := by
  simp [expand]

end Instruction

/-- A number with zeros in front of it up to the given width. -/
def zeroPadded (width n : Nat) : String :=
  let digits := toString n
  String.ofList (List.replicate (width - digits.length) '0') ++ digits

/-- One line of a disassembly: the index, at least four digits wide, and the mnemonic. -/
def disassemblyLine (index : Nat) (i : Instruction) : String :=
  zeroPadded 4 index ++ " " ++ i.mnemonic

/-- The numbered lines of a listing. -/
def disassemblyLines (is : List Instruction) : List String := is.mapIdx disassemblyLine

/-- The lines of a listing joined by line breaks. -/
def disassemble (is : List Instruction) : String := "\n".intercalate (disassemblyLines is)

end ByteTape
