import Mathlib.Data.List.Chain
import ByteTape.Proofs.Calls
import ByteTape.Proofs.Turns

/-!
# Dealings with streams

What a run asks of its streams, together with what they answer. The bytes received and the bytes
accepted are read off the dealings. A byte that is refused is offered again, and nothing else is
asked for until it is accepted or the run fails.
-/

namespace ByteTape

variable {σ : Type}

/-- One call to a stream and the answer to it. -/
inductive Dealing where
  | read (answer : Except StreamError (Option UInt8))
  | write (value : UInt8) (answer : Except StreamError Bool)
  | flush (answer : Except StreamError Unit)
  deriving DecidableEq

namespace Dealing

/-- The byte that was received. -/
def received? : Dealing → Option UInt8
  | read (.ok value) => value
  | _ => none

/-- The byte that was accepted. -/
def accepted? : Dealing → Option UInt8
  | write value (.ok true) => some value
  | _ => none

/-- What failed, and how. -/
def failure? : Dealing → Option (Activity × StreamError)
  | read (.error e) => some (.read, e)
  | write _ (.error e) => some (.print, e)
  | flush (.error e) => some (.flush, e)
  | _ => none

def isFlush : Dealing → Bool
  | flush _ => true
  | _ => false

/-- A run can go on after this: a byte was received, or one was offered without failure. -/
def Granted : Dealing → Prop
  | read (.ok (some _)) | write _ (.ok _) => True
  | _ => False

/-- After a byte was refused, it is that byte which is offered next. -/
def Insists (x y : Dealing) : Prop :=
  ∀ value, x = write value (.ok false) → ∃ answer, y = write value answer

theorem Granted.isFlush {x : Dealing} (h : x.Granted) : x.isFlush = false := by
  cases x with
  | flush answer => exact h.elim
  | _ => rfl

theorem Granted.failure? {x : Dealing} (h : x.Granted) : x.failure? = none := by
  rcases x with (_ | _ | _) | ⟨_, _ | _⟩ | _ <;> first | rfl | exact h.elim

end Dealing

/-- The bytes received, in order. -/
def receivedBytes (log : List Dealing) : List UInt8 := log.filterMap Dealing.received?

/-- The bytes accepted, in order. -/
def acceptedBytes (log : List Dealing) : List UInt8 := log.filterMap Dealing.accepted?

@[simp] theorem receivedBytes_nil : receivedBytes [] = [] := rfl
@[simp] theorem acceptedBytes_nil : acceptedBytes [] = [] := rfl

@[simp] theorem receivedBytes_concat (log : List Dealing) (x : Dealing) :
    receivedBytes (log ++ [x]) = receivedBytes log ++ x.received?.toList := by
  cases h : x.received? <;> simp [receivedBytes, h]

@[simp] theorem acceptedBytes_concat (log : List Dealing) (x : Dealing) :
    acceptedBytes (log ++ [x]) = acceptedBytes log ++ x.accepted?.toList := by
  cases h : x.accepted? <;> simp [acceptedBytes, h]

namespace Device

variable {d : Device σ} {x y : σ × List Dealing} {value : UInt8}

/-- The same streams with a record of all dealings, in order. -/
def recorded (d : Device σ) : Device (σ × List Dealing) where
  read x := let (answer, s) := d.read x.1; (answer, s, x.2 ++ [.read answer])
  write value x := let (answer, s) := d.write value x.1; (answer, s, x.2 ++ [.write value answer])
  flush x := let (answer, s) := d.flush x.1; (answer, s, x.2 ++ [.flush answer])

theorem recorded_forgets (d : Device σ) : d.recorded.Forgets d Prod.fst :=
  ⟨fun _ => rfl, fun _ _ => rfl, fun _ => rfl⟩

theorem recorded_read {answer : Except StreamError (Option UInt8)}
    (h : d.recorded.read x = (answer, y)) : y.2 = x.2 ++ [.read answer] := by
  obtain ⟨rfl, rfl⟩ := Prod.mk.inj h
  rfl

theorem recorded_write {answer : Except StreamError Bool}
    (h : d.recorded.write value x = (answer, y)) : y.2 = x.2 ++ [.write value answer] := by
  obtain ⟨rfl, rfl⟩ := Prod.mk.inj h
  rfl

theorem recorded_flush {answer : Except StreamError Unit}
    (h : d.recorded.flush x = (answer, y)) : y.2 = x.2 ++ [.flush answer] := by
  obtain ⟨rfl, rfl⟩ := Prod.mk.inj h
  rfl

/-- The dealings of a run in its first `n` turns, or until it ends. -/
def dealings (d : Device σ) (p : Program) (limit : Option Int) (n : Nat) (s : σ) : List Dealing :=
  (after (d.recorded.next p.code limit) n ({}, s, [])).elim (fun x => x.2.2) fun f => f.device.2

end Device

end ByteTape
