import ByteTape.Detail

/-!
# Devices

The streams a program reads from and writes to. A device is a deterministic one: what it answers
depends on its own state only, which records what has been asked of it so far.
-/

namespace ByteTape

/-- What goes wrong inside a stream: an error of the operating system, which a run reports as its
own, or else a failure that passes through unchanged. An error that tells a wrong number of bytes is
such a failure. -/
inductive StreamError where
  | os (text : String)
  | byteCount (e : ByteCountError)
  | other (text : String)
  deriving DecidableEq, Repr

/-- The text of an operating system error by its code, its description and what is known beyond
them: a file name, a detail that is not shown, and a second file name, which needs the first one. -/
def StreamError.osText (code text : Detail) (more : List Detail) : String :=
  s!"[Errno {code.plain}] {text.plain}" ++
    match more with
    | [] | .nothing :: _ => ""
    | file :: _ :: second :: _ => file.nameAfter ": " ++ second.nameAfter " -> "
    | file :: _ => file.nameAfter ": "

/-- An operating system error from its details: nothing, a description, or a code, a description and
file names. Of an operation that would have had to wait, the bytes written are told in place of a
file name and are not shown. More than five details stand for themselves. -/
def StreamError.ofDetails : List Detail → StreamError
  | [] => .os ""
  | [text] => .os text.plain
  | code :: text :: more =>
    if 3 < more.length then
      .os ("(" ++ ", ".intercalate (Detail.quotedItems (code :: text :: more)) ++ ")")
    else
      let count := if code.isWait then more.head?.bind Detail.byteCount? else none
      match count with
      | none => .os (osText code text more)
      | some (.ok ()) => .os (osText code text [])
      | some (.error e) => .byteCount e

/-- Streams over a state. A read answers with a byte or with nothing, a write with whether the byte
was taken. -/
structure Device (σ : Type) where
  read : σ → Except StreamError (Option UInt8) × σ
  write : UInt8 → σ → Except StreamError Bool × σ
  flush : σ → Except StreamError Unit × σ

/-- Bytes waiting to be read, and bytes written so far, the latest first. -/
structure Buffers where
  input : List UInt8
  written : List UInt8 := []
  deriving DecidableEq, Repr

namespace Buffers

/-- The bytes written so far, in order. -/
def output (b : Buffers) : List UInt8 := b.written.reverse

def pop (b : Buffers) : Option UInt8 × Buffers :=
  match b.input with
  | [] => (none, b)
  | x :: rest => (some x, { b with input := rest })

def push (x : UInt8) (b : Buffers) : Buffers := { b with written := x :: b.written }

@[simp] theorem output_push (x : UInt8) (b : Buffers) : (b.push x).output = b.output ++ [x] := by
  simp [output, push]

/-- In-memory streams: reads drain the input, every write is taken, and nothing fails. -/
def device : Device Buffers where
  read b := let (x, b) := b.pop; (.ok x, b)
  write x b := (.ok true, b.push x)
  flush b := (.ok (), b)

end Buffers

/-- Streams that follow a script, with a record of what was asked of them and of the bytes taken,
the latest first. Once a script has run out, reads answer with nothing and writes are taken. -/
structure Script where
  reads : List (Except StreamError (Option UInt8)) := []
  writes : List (Except StreamError Bool) := []
  flushError : Option StreamError := none
  written : List UInt8 := []
  readCalls : Nat := 0
  writeCalls : Nat := 0
  flushCalls : Nat := 0

namespace Script

/-- The bytes taken so far, in order. -/
def output (s : Script) : List UInt8 := s.written.reverse

def read (s : Script) : Except StreamError (Option UInt8) × Script :=
  let s := { s with readCalls := s.readCalls + 1 }
  match s.reads with
  | [] => (.ok none, s)
  | event :: rest => (event, { s with reads := rest })

def write (x : UInt8) (s : Script) : Except StreamError Bool × Script :=
  let s := { s with writeCalls := s.writeCalls + 1 }
  match s.writes with
  | [] => (.ok true, { s with written := x :: s.written })
  | .ok true :: rest => (.ok true, { s with writes := rest, written := x :: s.written })
  | event :: rest => (event, { s with writes := rest })

def flush (s : Script) : Except StreamError Unit × Script :=
  (s.flushError.elim (.ok ()) .error, { s with flushCalls := s.flushCalls + 1 })

/-- The streams of a script. -/
def device : Device Script := ⟨read, write, flush⟩

end Script

end ByteTape
