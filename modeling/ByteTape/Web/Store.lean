import ByteTape.Json.Basic
import ByteTape.Session.Basic

/-!
# Stored sessions

The sessions of the HTTP interface by their identifiers, and what is shown of them. Every session
has a program and a workspace of its own.
-/

namespace ByteTape.Web

/-- A session with its program, its workspace, and what is known of its run beforehand. -/
structure Record where
  program : Program
  workspace : Workspace := {}
  session : Session
  optimized : Bool
  totalSteps : Nat
  totalStepsCapped : Bool

/-- The sessions that have been created and not deleted. -/
structure Store where
  records : List (String × Record) := []

namespace Store

def get? (s : Store) (id : String) : Option Record :=
  (s.records.find? (·.1 == id)).map Prod.snd

def erase (s : Store) (id : String) : Store := ⟨s.records.filter fun entry => !(entry.1 == id)⟩

def put (s : Store) (id : String) (r : Record) : Store := ⟨(id, r) :: (s.erase id).records⟩

@[simp] theorem get?_empty (id : String) : ({} : Store).get? id = none := rfl

@[simp] theorem get?_put_self (s : Store) (id : String) (r : Record) :
    (s.put id r).get? id = some r := by
  simp [get?, put]

theorem get?_erase (s : Store) (id other : String) :
    (s.erase id).get? other = if other = id then none else s.get? other := by
  simp only [get?, erase, List.find?_filter]
  split
  · subst_vars
    simp
  · rename_i h
    congr 2
    funext entry
    by_cases he : entry.1 = other <;> simp [he, h]

@[simp] theorem get?_erase_self (s : Store) (id : String) : (s.erase id).get? id = none := by
  simp [get?_erase]

theorem get?_put (s : Store) (id other : String) (r : Record) :
    (s.put id r).get? other = if other = id then some r else s.get? other := by
  by_cases h : other = id
  · subst h
    simp
  · have hne : (id == other) = false := beq_eq_false_iff_ne.2 (Ne.symm h)
    have : (s.put id r).get? other = (s.erase id).get? other := by
      simp [get?, put, hne]
    rw [this, get?_erase]
    simp [h]

end Store

/-- A list of bytes. -/
def bytesJson (bytes : List UInt8) : Json := .arr (bytes.map fun b => .nat b.toNat)

/-- What is shown of a state. -/
def stateJson (x : Snapshot) : Json :=
  .record
    [("step", .nat x.step), ("pc", .nat x.pc), ("instruction", .ofOption .text x.instruction),
      ("pointer", .nat x.pointer), ("tape_start", .nat x.window.start),
      ("tape", bytesJson x.window.cells.toList), ("output", bytesJson x.output),
      ("code_length", .nat x.codeLength)]

def statesJson (xs : Array Snapshot) : Json := .arr (xs.toList.map stateJson)

/-- What is shown of a session. -/
def Record.members (r : Record) (id : String) : List (String × Json) :=
  let s := r.session
  [("session_id", .text id), ("optimized", .bool r.optimized),
    ("listing", .arr (r.program.code.listing.toList.map .text)),
    ("state", stateJson s.current), ("history", statesJson s.history),
    ("finished", .bool s.finished), ("history_size", .nat s.history.size),
    ("breakpoints", .arr (s.breakpoints.points.map .int)),
    ("hit_breakpoint", .ofOption .nat s.hit), ("total_steps", .nat r.totalSteps),
    ("total_steps_capped", .bool r.totalStepsCapped)]

end ByteTape.Web
