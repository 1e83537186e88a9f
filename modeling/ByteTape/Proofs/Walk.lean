import ByteTape.Machine
import ByteTape.Proofs.Block
import ByteTape.Proofs.Simulation
import ByteTape.Proofs.Tape.Strip

/-!
# Walking through a block

A walk carries out a block over some streams without a program counter: what is left to do is a
block itself, and a loop that is entered is put back behind its body. Code that holds a block takes
turns with the walk, whichever form it has, as long as both boundaries of every loop find each
other.
-/

namespace ByteTape

/-- What is left to do, on what strip, and with the streams in what state. -/
structure Walk (σ : Type) where
  block : Block
  strip : Strip
  device : σ

/-- How a walk ended. -/
structure Walk.Ending (σ : Type) where
  result : Except RunError Unit
  strip : Strip
  device : σ

namespace Device

variable {σ : Type}

/-- One step of a walk. A byte that is refused is offered again. -/
def walk (d : Device σ) (w : Walk σ) : Walk σ ⊕ Walk.Ending σ :=
  match w.block with
  | .nil =>
    match d.flush w.device with
    | (.ok (), s) => .inr ⟨.ok (), w.strip, s⟩
    | (.error e, s) => .inr ⟨.error (.ofStream .flush e), w.strip, s⟩
  | .act (.motion m n) rest => .inl ⟨rest, w.strip.move n m, w.device⟩
  | .act .input rest =>
    match d.read w.device with
    | (.ok (some value), s) => .inl ⟨rest, w.strip.write value, s⟩
    | (.ok none, s) => .inr ⟨.error .inputExhausted, w.strip, s⟩
    | (.error e, s) => .inr ⟨.error (.ofStream .read e), w.strip, s⟩
  | .act .output rest =>
    match d.write w.strip.read w.device with
    | (.ok true, s) => .inl ⟨rest, w.strip, s⟩
    | (.ok false, s) => .inl ⟨.act .output rest, w.strip, s⟩
    | (.error e, s) => .inr ⟨.error (.ofStream .print e), w.strip, s⟩
  | .loop body rest =>
    .inl ⟨if w.strip.read = 0 then rest else body.append (.loop body rest), w.strip, w.device⟩

/-- One turn of a machine, as a step. -/
def next (d : Device σ) (code : Code) (limit : Option Int) (x : Machine × σ) :
    (Machine × σ) ⊕ Finish σ :=
  match d.turn code limit x.1 x.2 with
  | .next m s => .inl (m, s)
  | .done finish => .inr finish

theorem resume_eq_some_iff {d : Device σ} {code : Code} {limit : Option Int} {fuel : Nat}
    {m : Machine} {s : σ} {finish : Finish σ} :
    d.resume code limit fuel m s = some finish ↔
      after (d.next code limit) fuel (m, s) = .inr finish := by
  induction fuel generalizing m s with
  | zero => simp
  | succ fuel ih =>
    rw [resume_succ, after, next]
    cases d.turn code limit m s with
    | next m s => exact ih
    | done f => simp

end Device

namespace Code

/-- The two boundaries of a loop, each naming the other. -/
structure Pairs (c : Code) (i j : Nat) : Prop where
  opening : c.operation? i = some (.boundary .opening)
  closing : c.operation? j = some (.boundary .closing)
  stop : c.partner i .opening = .ok j
  start : c.partner j .closing = .ok i

/-- The code holds a block from index `i` up to index `j`. -/
inductive Holds (c : Code) : Nat → Block → Nat → Prop where
  | nil (i : Nat) : Holds c i .nil i
  | act {i j : Nat} {a : Action} {rest : Block} (here : c.operation? i = some a.operation)
      (after : Holds c (i + 1) rest j) : Holds c i (.act a rest) j
  | loop {i j k : Nat} {body rest : Block} (pairs : c.Pairs i j)
      (inside : Holds c (i + 1) body j) (after : Holds c (j + 1) rest k) :
      Holds c i (.loop body rest) k

/-- A block is left to do at an index. A loop is left to do at either of its boundaries. -/
inductive Awaits (c : Code) : Nat → Block → Prop where
  | nil {i : Nat} (past : c.operation? i = none) : Awaits c i .nil
  | act {i : Nat} {a : Action} {rest : Block} (here : c.operation? i = some a.operation)
      (after : Awaits c (i + 1) rest) : Awaits c i (.act a rest)
  | start {i j : Nat} {body rest : Block} (pairs : c.Pairs i j) (inside : Holds c (i + 1) body j)
      (after : Awaits c (j + 1) rest) : Awaits c i (.loop body rest)
  | stop {i j : Nat} {body rest : Block} (pairs : c.Pairs i j) (inside : Holds c (i + 1) body j)
      (after : Awaits c (j + 1) rest) : Awaits c j (.loop body rest)

variable {c : Code}

theorem Holds.append {i j k : Nat} {b b' : Block} (h : c.Holds i b j) (h' : c.Holds j b' k) :
    c.Holds i (b.append b') k := by
  induction h with
  | nil => exact h'
  | act here _ ih => exact .act here (ih h')
  | loop pairs inside _ _ ih => exact .loop pairs inside (ih h')

/-- What follows a held block is left to do after it. -/
theorem Holds.awaits {i j : Nat} {b k : Block} (h : c.Holds i b j) (rest : c.Awaits j k) :
    c.Awaits i (b.append k) := by
  induction h with
  | nil => exact rest
  | act here _ ih => exact .act here (ih rest)
  | loop pairs inside _ _ ih => exact .start pairs inside (ih rest)

/-- Inside a loop its body is left to do, and then the loop again. -/
theorem Pairs.awaits {i j : Nat} {body rest : Block} (pairs : c.Pairs i j)
    (inside : c.Holds (i + 1) body j) (after : c.Awaits (j + 1) rest) :
    c.Awaits (i + 1) (body.append (.loop body rest)) :=
  inside.awaits (.stop pairs inside after)

end Code

/-- A machine has a walk left to do. -/
structure Follows {σ : Type} (c : Code) (x : Machine × σ) (w : Walk σ) : Prop where
  awaits : c.Awaits x.1.pc w.block
  shown : x.1.tape.Shows w.strip
  device : x.2 = w.device

/-- A run and a walk ended alike. -/
structure EndsAlike {σ : Type} (f : Finish σ) (e : Walk.Ending σ) : Prop where
  result : f.result = e.result
  shown : f.machine.tape.Shows e.strip
  device : f.device = e.device

namespace Follows

variable {σ : Type} {c : Code}

theorem effect_eq_perform {m : Machine} {op : Operation} (h : c.operation? m.pc = some op) :
    m.effect c none = m.perform c op := by
  simp [Machine.effect, h, Machine.limitReached]

/-- At a loop start the machine goes where the walk does. -/
theorem effect_start {m : Machine} {j : Nat} {s : Strip} (pairs : c.Pairs m.pc j)
    (shown : m.tape.Shows s) :
    m.effect c none =
      .ran ⟨m.tape, if s.read = 0 then j + 1 else m.pc + 1, m.steps + 1⟩ := by
  rw [effect_eq_perform pairs.opening]
  by_cases zero : s.read = 0 <;>
    simp [Machine.perform, Machine.jumps, shown.read, zero, pairs.stop, Machine.advance]

/-- At a loop end the machine goes where the walk does. -/
theorem effect_stop {m : Machine} {i : Nat} {s : Strip} (pairs : c.Pairs i m.pc)
    (shown : m.tape.Shows s) :
    m.effect c none =
      .ran ⟨m.tape, if s.read = 0 then m.pc + 1 else i + 1, m.steps + 1⟩ := by
  rw [effect_eq_perform pairs.closing]
  by_cases zero : s.read = 0 <;>
    simp [Machine.perform, Machine.jumps, shown.read, zero, pairs.start, Machine.advance]

/-- A turn of the machine is a step of the walk. -/
theorem step {x : Machine × σ} {w : Walk σ} (h : Follows c x w) (d : Device σ) :
    Sum.LiftRel (Follows c) EndsAlike (d.next c none x) (d.walk w) := by
  obtain ⟨m, s⟩ := x
  obtain ⟨block, strip, device⟩ := w
  obtain ⟨awaits, shown, same⟩ := h
  obtain rfl : s = device := same
  simp only at awaits shown
  cases awaits with
  | nil past =>
    have effect : m.effect c none = .stopped m (.ok ()) := by
      simp [Machine.effect, past]
    simp only [Device.next, Device.turn, effect, Device.walk]
    rcases d.flush s with ⟨_ | ⟨⟩, t⟩
    · exact .inr ⟨rfl, shown, rfl⟩
    · exact .inr ⟨rfl, shown, rfl⟩
  | @act _ a rest here after =>
    have effect := effect_eq_perform here
    cases a with
    | motion k n =>
      simp only [Device.next, Device.turn, effect, Device.walk]
      exact .inl ⟨after, shown.move n k, rfl⟩
    | output =>
      simp only [Device.next, Device.turn, effect, Device.walk, Action.operation, Machine.perform,
        shown.read]
      rcases d.write strip.read s with ⟨_ | _ | _, t⟩
      · exact .inr ⟨rfl, shown, rfl⟩
      · exact .inl ⟨.act here after, shown, rfl⟩
      · exact .inl ⟨after, shown, rfl⟩
    | input =>
      simp only [Device.next, Device.turn, effect, Device.walk, Action.operation, Machine.perform]
      rcases d.read s with ⟨_ | _ | value, t⟩
      · exact .inr ⟨rfl, shown, rfl⟩
      · exact .inr ⟨rfl, shown, rfl⟩
      · exact .inl ⟨after, shown.write value, rfl⟩
  | start pairs inside after =>
    simp only [Device.next, Device.turn, effect_start pairs shown, Device.walk]
    refine .inl ⟨?_, shown, rfl⟩
    split
    · exact after
    · exact pairs.awaits inside after
  | stop pairs inside after =>
    simp only [Device.next, Device.turn, effect_stop pairs shown, Device.walk]
    refine .inl ⟨?_, shown, rfl⟩
    split
    · exact after
    · exact pairs.awaits inside after

/-- A machine that has a walk left to do runs along with it. -/
theorem matched {x : Machine × σ} {w : Walk σ} (h : Follows c x w) (d : Device σ) :
    Matched (d.next c none) d.walk (Follows c) EndsAlike x w := by
  have sim : Simulates (d.next c none) d.walk (Follows c) EndsAlike fun _ => 0 :=
    fun _ _ h => .inr (h.step d)
  exact sim.matched h

end Follows

/-- At its start, code that holds a block as a whole has the walk through it left to do. -/
theorem Code.Holds.follows {σ : Type} {c : Code} {b : Block} (h : c.Holds 0 b c.size) (s : σ) :
    Follows c ({}, s) ⟨b, .blank, s⟩ := by
  have past : c.operation? c.size = none := by
    cases c <;> simp [Code.operation?, Code.size]
  have awaits : c.Awaits 0 b := by simpa using h.awaits (.nil past)
  exact ⟨awaits, Tape.shows_blank, rfl⟩

/-- Code that holds a block as a whole runs along with the walk through it. -/
theorem Code.Holds.matched {σ : Type} {c : Code} {b : Block} (h : c.Holds 0 b c.size)
    (d : Device σ) (s : σ) :
    Matched (d.next c none) d.walk (Follows c) EndsAlike ({}, s) ⟨b, .blank, s⟩ :=
  (h.follows s).matched d

end ByteTape
