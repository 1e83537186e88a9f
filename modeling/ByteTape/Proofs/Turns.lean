import ByteTape.Proofs.Walk

/-!
# All that a turn can be

A turn of a machine either goes on, in one of six ways, or ends the run, in one of seven. What every
turn keeps, and what no run can end with, is read off these two lists. A walk goes on in the same
ways.
-/

namespace ByteTape.Device

variable {σ : Type}

/-- A turn goes on. A refused byte leaves the machine where it is, and every other way completes an
instruction. -/
inductive Goes (d : Device σ) (code : Code) (limit : Option Int) :
    Machine × σ → Machine × σ → Prop where
  | motion {m : Machine} {s : σ} {k : Motion} {n : Nat}
      (here : code.operation? m.pc = some (.motion k n)) (allowed : m.limitReached limit = false) :
      Goes d code limit (m, s) (⟨m.tape.move n k, m.pc + 1, m.steps + 1⟩, s)
  | taken {m : Machine} {s t : σ} (here : code.operation? m.pc = some .output)
      (allowed : m.limitReached limit = false) (answer : d.write m.tape.read s = (.ok true, t)) :
      Goes d code limit (m, s) (m.advance, t)
  | refused {m : Machine} {s t : σ} (here : code.operation? m.pc = some .output)
      (allowed : m.limitReached limit = false) (answer : d.write m.tape.read s = (.ok false, t)) :
      Goes d code limit (m, s) (m, t)
  | received {m : Machine} {s t : σ} {value : UInt8} (here : code.operation? m.pc = some .input)
      (allowed : m.limitReached limit = false) (answer : d.read s = (.ok (some value), t)) :
      Goes d code limit (m, s) (m.receive value, t)
  | passed {m : Machine} {s : σ} {side : Bracket}
      (here : code.operation? m.pc = some (.boundary side))
      (allowed : m.limitReached limit = false) (stays : m.jumps side = false) :
      Goes d code limit (m, s) (m.advance, s)
  | jumped {m : Machine} {s : σ} {side : Bracket} {target : Nat}
      (here : code.operation? m.pc = some (.boundary side))
      (allowed : m.limitReached limit = false) (jumps : m.jumps side = true)
      (partner : code.partner m.pc side = .ok target) :
      Goes d code limit (m, s) (⟨m.tape, target + 1, m.steps + 1⟩, s)

/-- A turn ends the run. The machine stays what it is. -/
inductive Ends (d : Device σ) (code : Code) (limit : Option Int) :
    Machine × σ → Finish σ → Prop where
  | done {m : Machine} {s t : σ} (past : code.operation? m.pc = none)
      (answer : d.flush s = (.ok (), t)) : Ends d code limit (m, s) ⟨.ok (), m, t⟩
  | flush {m : Machine} {s t : σ} {e : StreamError} (past : code.operation? m.pc = none)
      (answer : d.flush s = (.error e, t)) :
      Ends d code limit (m, s) ⟨.error (.ofStream .flush e), m, t⟩
  | limit {m : Machine} {s : σ} {op : Operation} (here : code.operation? m.pc = some op)
      (reached : m.limitReached limit = true) :
      Ends d code limit (m, s) ⟨.error .stepLimit, m, s⟩
  | exhausted {m : Machine} {s t : σ} (here : code.operation? m.pc = some .input)
      (allowed : m.limitReached limit = false) (answer : d.read s = (.ok none, t)) :
      Ends d code limit (m, s) ⟨.error .inputExhausted, m, t⟩
  | read {m : Machine} {s t : σ} {e : StreamError} (here : code.operation? m.pc = some .input)
      (allowed : m.limitReached limit = false) (answer : d.read s = (.error e, t)) :
      Ends d code limit (m, s) ⟨.error (.ofStream .read e), m, t⟩
  | print {m : Machine} {s t : σ} {e : StreamError} (here : code.operation? m.pc = some .output)
      (allowed : m.limitReached limit = false) (answer : d.write m.tape.read s = (.error e, t)) :
      Ends d code limit (m, s) ⟨.error (.ofStream .print e), m, t⟩
  | loop {m : Machine} {s : σ} {side : Bracket} {e : LoopError}
      (here : code.operation? m.pc = some (.boundary side))
      (allowed : m.limitReached limit = false) (jumps : m.jumps side = true)
      (missing : code.partner m.pc side = .error e) :
      Ends d code limit (m, s) ⟨.error (.loop e), m, s⟩

/-- A turn is one of these. -/
theorem next_cases (d : Device σ) (code : Code) (limit : Option Int) (x : Machine × σ) :
    (∃ y, d.next code limit x = .inl y ∧ d.Goes code limit x y) ∨
      ∃ f, d.next code limit x = .inr f ∧ d.Ends code limit x f := by
  obtain ⟨m, s⟩ := x
  simp only [next, turn]
  rcases m.effect_cases code limit with
    ⟨past, effect⟩ | ⟨op, here, ⟨reached, effect⟩ | ⟨allowed, effect⟩⟩
  · rcases answer : d.flush s with ⟨e | ⟨⟩, t⟩ <;> simp only [effect]
    · exact .inr ⟨_, rfl, .flush past answer⟩
    · exact .inr ⟨_, rfl, .done past answer⟩
  · simp only [effect]
    exact .inr ⟨_, rfl, .limit here reached⟩
  · rw [effect]
    cases op with
    | motion k n => exact .inl ⟨_, rfl, .motion here allowed⟩
    | output =>
      rcases answer : d.write m.tape.read s with ⟨e | _ | _, t⟩ <;>
        simp only [Machine.perform, answer]
      · exact .inr ⟨_, rfl, .print here allowed answer⟩
      · exact .inl ⟨_, rfl, .refused here allowed answer⟩
      · exact .inl ⟨_, rfl, .taken here allowed answer⟩
    | input =>
      rcases answer : d.read s with ⟨e | _ | value, t⟩ <;> simp only [Machine.perform]
      · exact .inr ⟨_, rfl, .read here allowed answer⟩
      · exact .inr ⟨_, rfl, .exhausted here allowed answer⟩
      · exact .inl ⟨_, rfl, .received here allowed answer⟩
    | boundary side =>
      cases jumps : m.jumps side with
      | false =>
        simp only [Machine.perform, jumps]
        exact .inl ⟨_, rfl, .passed here allowed jumps⟩
      | true =>
        cases partner : code.partner m.pc side with
        | ok target =>
          simp only [Machine.perform, jumps, partner]
          exact .inl ⟨_, rfl, .jumped here allowed jumps partner⟩
        | error e =>
          simp only [Machine.perform, jumps, partner]
          exact .inr ⟨_, rfl, .loop here allowed jumps partner⟩

variable {d : Device σ} {code : Code} {limit : Option Int} {x y : Machine × σ} {f : Finish σ}

theorem next_eq_inl_iff :
    d.next code limit x = .inl y ↔ d.turn code limit x.1 x.2 = .next y.1 y.2 := by
  unfold next
  cases d.turn code limit x.1 x.2 <;> simp [Prod.ext_iff]

theorem next_eq_inr_iff : d.next code limit x = .inr f ↔ d.turn code limit x.1 x.2 = .done f := by
  unfold next
  cases d.turn code limit x.1 x.2 <;> simp

theorem goes_of_next (h : d.next code limit x = .inl y) : d.Goes code limit x y := by
  rcases d.next_cases code limit x with ⟨z, hz, goes⟩ | ⟨g, hg, -⟩
  · obtain rfl : z = y := Sum.inl.inj (hz.symm.trans h)
    exact goes
  · cases hg.symm.trans h

theorem ends_of_next (h : d.next code limit x = .inr f) : d.Ends code limit x f := by
  rcases d.next_cases code limit x with ⟨z, hz, -⟩ | ⟨g, hg, ends⟩
  · cases hz.symm.trans h
  · obtain rfl : g = f := Sum.inr.inj (hg.symm.trans h)
    exact ends

theorem Goes.next (h : d.Goes code limit x y) : d.next code limit x = .inl y := by
  cases h with
  | motion here allowed => simp [Device.next, turn, Machine.effect, here, allowed, Machine.perform]
  | taken here allowed answer
  | refused here allowed answer
  | received here allowed answer =>
    simp [Device.next, turn, Machine.effect, here, allowed, Machine.perform, answer]
  | passed here allowed stays =>
    simp [Device.next, turn, Machine.effect, here, allowed, Machine.perform, stays]
  | jumped here allowed jumps partner =>
    simp [Device.next, turn, Machine.effect, here, allowed, Machine.perform, jumps, partner]

/-- A turn that goes on is below the step limit. -/
theorem Goes.allowed (h : d.Goes code limit x y) : x.1.limitReached limit = false := by
  cases h <;> assumption

/-- The last turn leaves the machine as it is. -/
theorem Ends.machine_eq (h : d.Ends code limit x f) : f.machine = x.1 := by
  cases h <;> rfl

end ByteTape.Device

namespace ByteTape.Walk

variable {σ : Type}

/-- A step of a walk goes on. -/
inductive Goes (d : Device σ) : Walk σ → Walk σ → Prop where
  | motion {m : Motion} {n : Nat} {rest : Block} {s : Strip} {x : σ} :
      Goes d ⟨.act (.motion m n) rest, s, x⟩ ⟨rest, s.move n m, x⟩
  | taken {rest : Block} {s : Strip} {x y : σ} (answer : d.write s.read x = (.ok true, y)) :
      Goes d ⟨.act .output rest, s, x⟩ ⟨rest, s, y⟩
  | refused {rest : Block} {s : Strip} {x y : σ} (answer : d.write s.read x = (.ok false, y)) :
      Goes d ⟨.act .output rest, s, x⟩ ⟨.act .output rest, s, y⟩
  | received {rest : Block} {s : Strip} {x y : σ} {value : UInt8}
      (answer : d.read x = (.ok (some value), y)) :
      Goes d ⟨.act .input rest, s, x⟩ ⟨rest, s.write value, y⟩
  | passed {body rest : Block} {s : Strip} {x : σ} (zero : s.read = 0) :
      Goes d ⟨.loop body rest, s, x⟩ ⟨rest, s, x⟩
  | entered {body rest : Block} {s : Strip} {x : σ} (nonzero : s.read ≠ 0) :
      Goes d ⟨.loop body rest, s, x⟩ ⟨body.append (.loop body rest), s, x⟩

theorem goes_of_walk {d : Device σ} {w v : Walk σ} (h : d.walk w = .inl v) : Goes d w v := by
  obtain ⟨block, s, x⟩ := w
  cases block with
  | nil =>
    simp only [Device.walk] at h
    split at h <;> cases h
  | act a rest =>
    cases a with
    | motion m n =>
      obtain rfl := Sum.inl.inj h
      exact .motion
    | output =>
      rcases answer : d.write s.read x with ⟨_ | _ | _, y⟩ <;>
        simp only [Device.walk, answer] at h <;> cases h
      · exact .refused answer
      · exact .taken answer
    | input =>
      rcases answer : d.read x with ⟨_ | _ | _, y⟩ <;> simp only [Device.walk, answer] at h <;>
        cases h
      exact .received answer
  | loop body rest =>
    obtain rfl := Sum.inl.inj h
    by_cases zero : s.read = 0
    · simpa [zero] using Goes.passed zero
    · simpa [zero] using Goes.entered zero

end ByteTape.Walk
