import ByteTape.Proofs.Folding.Targets
import ByteTape.Proofs.Walk

/-!
# Partners of loop boundaries

Both forms of code hold the block that their operations spell out. In commands the partner of a
boundary is found by a scan, which passes over whole blocks without losing its depth; in linked
instructions it is written down.
-/

namespace ByteTape

namespace Code

theorem lt_size_of_operation? {c : Code} {i : Nat} {op : Operation}
    (h : c.operation? i = some op) : i < c.size := by
  cases c with
  | raw cs =>
    obtain ⟨x, hx, -⟩ := Option.map_eq_some_iff.1 h
    exact (Array.getElem?_eq_some_iff.1 hx).1
  | folded is =>
    obtain ⟨x, hx, -⟩ := Option.map_eq_some_iff.1 h
    exact (Array.getElem?_eq_some_iff.1 hx).1

/-- The code has the given operations from index `i` on. -/
def Has (c : Code) (i : Nat) (ops : List Operation) : Prop :=
  Along (fun k op => c.operation? k = some op) i ops

theorem has_loop {c : Code} {i : Nat} {body rest : Block} :
    c.Has i (Block.loop body rest).operations ↔
      (c.operation? i = some (.boundary .opening) ∧ c.Has (i + 1) body.operations) ∧
      c.operation? (i + 1 + body.operations.length) = some (.boundary .closing) ∧
      c.Has (i + 1 + body.operations.length + 1) rest.operations := by
  simp only [Has, Block.operations, List.cons_append, along_cons, along_append, and_assoc]

theorem has_raw (cs : List Command) : (raw cs.toArray).Has 0 (cs.map Command.operation) :=
  along_iff.2 fun k op h => by simpa [operation?] using h

end Code

namespace Command

variable {cs : Array Command}

theorem closingAmong?_succ (left depth : Nat) :
    closingAmong? cs (left + 1) depth =
      match cs[cs.size - (left + 1)]?, depth with
      | some .loopStart, depth => closingAmong? cs left (depth + 1)
      | some .loopEnd, 0 => some (cs.size - (left + 1))
      | some .loopEnd, depth + 1 => closingAmong? cs left depth
      | _, depth => closingAmong? cs left depth := rfl

/-- One step of the scan for a loop end. -/
theorem closingAmong?_of_lt {i : Nat} (h : i < cs.size) (depth : Nat) :
    closingAmong? cs (cs.size - i) depth =
      match cs[i]?, depth with
      | some .loopStart, depth => closingAmong? cs (cs.size - (i + 1)) (depth + 1)
      | some .loopEnd, 0 => some i
      | some .loopEnd, depth + 1 => closingAmong? cs (cs.size - (i + 1)) depth
      | _, depth => closingAmong? cs (cs.size - (i + 1)) depth := by
  obtain ⟨left, hleft⟩ : ∃ left, cs.size - i = left + 1 := ⟨cs.size - i - 1, by omega⟩
  have place : cs.size - (left + 1) = i := by omega
  have rest : cs.size - (i + 1) = left := by omega
  rw [hleft, rest, closingAmong?_succ, place]

/-- One step of the scan for a loop start. -/
theorem openingAmong?_succ (i depth : Nat) :
    openingAmong? cs (i + 1) depth =
      match cs[i]?, depth with
      | some .loopEnd, depth => openingAmong? cs i (depth + 1)
      | some .loopStart, 0 => some i
      | some .loopStart, depth + 1 => openingAmong? cs i depth
      | _, depth => openingAmong? cs i depth := rfl

theorem getElem?_of_operation?_opening {i : Nat}
    (h : (Code.raw cs).operation? i = some (.boundary .opening)) : cs[i]? = some .loopStart := by
  obtain ⟨c, hc, hop⟩ := Option.map_eq_some_iff.1 h
  cases c <;> simp_all [operation]

theorem getElem?_of_operation?_closing {i : Nat}
    (h : (Code.raw cs).operation? i = some (.boundary .closing)) : cs[i]? = some .loopEnd := by
  obtain ⟨c, hc, hop⟩ := Option.map_eq_some_iff.1 h
  cases c <;> simp_all [operation]

/-- The scan for a loop end passes over an action. -/
theorem closingAmong?_act {i : Nat} {a : Action}
    (h : (Code.raw cs).operation? i = some a.operation) (depth : Nat) :
    closingAmong? cs (cs.size - i) depth = closingAmong? cs (cs.size - (i + 1)) depth := by
  rw [closingAmong?_of_lt (Code.lt_size_of_operation? h)]
  obtain ⟨c, hc, hop⟩ := Option.map_eq_some_iff.1 h
  rw [hc]
  cases c <;> cases a <;> first | rfl | cases hop

theorem openingAmong?_act {i : Nat} {a : Action}
    (h : (Code.raw cs).operation? i = some a.operation) (depth : Nat) :
    openingAmong? cs (i + 1) depth = openingAmong? cs i depth := by
  obtain ⟨c, hc, hop⟩ := Option.map_eq_some_iff.1 h
  rw [openingAmong?_succ, hc]
  cases c <;> cases a <;> first | rfl | cases hop

/-- The scan for a loop end passes over a block. -/
theorem closingAmong?_block {b : Block} {i : Nat} (h : (Code.raw cs).Has i b.operations)
    (depth : Nat) :
    closingAmong? cs (cs.size - i) depth =
      closingAmong? cs (cs.size - (i + b.operations.length)) depth := by
  induction b generalizing i depth with
  | nil => rfl
  | act a rest ih =>
    obtain ⟨here, after⟩ := h
    rw [closingAmong?_act here, ih after, Block.add_length_act]
  | loop body rest ihBody ihRest =>
    obtain ⟨⟨start, inside⟩, stop, after⟩ := Code.has_loop.1 h
    rw [closingAmong?_of_lt (Code.lt_size_of_operation? start),
      getElem?_of_operation?_opening start]
    simp only
    rw [ihBody inside, closingAmong?_of_lt (Code.lt_size_of_operation? stop),
      getElem?_of_operation?_closing stop]
    simp only
    rw [ihRest after, Block.add_length_loop]

/-- The scan for a loop start passes over a block. -/
theorem openingAmong?_block {b : Block} {i : Nat} (h : (Code.raw cs).Has i b.operations)
    (depth : Nat) :
    openingAmong? cs (i + b.operations.length) depth = openingAmong? cs i depth := by
  induction b generalizing i depth with
  | nil => rfl
  | act a rest ih =>
    obtain ⟨here, after⟩ := h
    rw [Block.add_length_act, ih after, openingAmong?_act here]
  | loop body rest ihBody ihRest =>
    obtain ⟨⟨start, inside⟩, stop, after⟩ := Code.has_loop.1 h
    rw [Block.add_length_loop, ihRest after, openingAmong?_succ,
      getElem?_of_operation?_closing stop]
    simp only
    rw [ihBody inside, openingAmong?_succ, getElem?_of_operation?_opening start]

end Command

namespace Code

/-- A loop of the commands has its boundaries found by the scans. -/
theorem pairs_raw {cs : Array Command} {body : Block} {i : Nat}
    (start : (raw cs).operation? i = some (.boundary .opening))
    (inside : (raw cs).Has (i + 1) body.operations)
    (stop : (raw cs).operation? (i + 1 + body.operations.length) = some (.boundary .closing)) :
    (raw cs).Pairs i (i + 1 + body.operations.length) := by
  refine ⟨start, stop, ?_, ?_⟩
  · have found : Command.closing? cs i = some (i + 1 + body.operations.length) := by
      rw [Command.closing?, Command.closingAmong?_block inside,
        Command.closingAmong?_of_lt (lt_size_of_operation? stop),
        Command.getElem?_of_operation?_closing stop]
    simp [partner, found]
  · have found : Command.opening? cs (i + 1 + body.operations.length) = some i := by
      rw [Command.opening?, Command.openingAmong?_block inside, Command.openingAmong?_succ,
        Command.getElem?_of_operation?_opening start]
    simp [partner, found]

/-- Code holds the block that it spells out, if the boundaries of every loop find each other. -/
theorem Has.holds {c : Code}
    (pairs : ∀ (i : Nat) (body : Block), c.operation? i = some (.boundary .opening) →
      c.Has (i + 1) body.operations →
      c.operation? (i + 1 + body.operations.length) = some (.boundary .closing) →
      c.Pairs i (i + 1 + body.operations.length))
    {b : Block} {i : Nat} (h : c.Has i b.operations) : c.Holds i b (i + b.operations.length) := by
  induction b generalizing i with
  | nil => exact .nil i
  | act a rest ih =>
    obtain ⟨here, after⟩ := h
    rw [Block.add_length_act]
    exact .act here (ih after)
  | loop body rest ihBody ihRest =>
    obtain ⟨⟨start, inside⟩, stop, after⟩ := has_loop.1 h
    rw [Block.add_length_loop]
    exact .loop (pairs i body start inside stop) (ihBody inside) (ihRest after)

/-- Commands hold the block that they spell out. -/
theorem Has.holds_raw {cs : Array Command} {b : Block} {i : Nat} (h : (raw cs).Has i b.operations) :
    (raw cs).Holds i b (i + b.operations.length) :=
  h.holds fun _ _ start inside stop => pairs_raw start inside stop

theorem holds_raw {cs : List Command} {b : Block} (h : b.operations = cs.map Command.operation) :
    (raw cs.toArray).Holds 0 b (raw cs.toArray).size := by
  have has : (raw cs.toArray).Has 0 b.operations := h ▸ has_raw cs
  simpa [h, size] using has.holds_raw

theorem operation?_folded {is : Array Instruction} {i : Nat} {x : Instruction}
    (h : is[i]? = some x) : (folded is).operation? i = some x.operation := by
  simp [operation?, h]

/-- A loop of linked instructions has its boundaries written down. -/
theorem pairs_folded {is : Array Instruction} {i j : Nat}
    (start : is[i]? = some (.loopStart (some (j : Int))))
    (stop : is[j]? = some (.loopEnd (i : Int))) :
    (folded is).Pairs i j where
  opening := operation?_folded start
  closing := operation?_folded stop
  stop := by simp [partner, start, Instruction.target?]
  start := by simp [partner, stop, Instruction.target?]

theorem exists_action {x : Instruction} (h : x.bracket = none) :
    ∃ a : Action, a.operation = x.operation := by
  cases x with
  | counted m n => exact ⟨.motion m n, rfl⟩
  | output => exact ⟨.output, rfl⟩
  | input => exact ⟨.input, rfl⟩
  | loopStart | loopEnd => cases h

/-- A linked piece is held as a block wherever it stands. -/
theorem exists_holds_of_linked {is : Array Instruction} {i : Nat} {js : List Instruction}
    (h : Instruction.Linked i js) (placed : Along (fun k x => is[k]? = some x) i js) :
    ∃ b : Block, b.operations = js.map Instruction.operation ∧
      (folded is).Holds i b (i + js.length) := by
  induction h with
  | nil => exact ⟨.nil, rfl, .nil _⟩
  | @concat i js x before plain ih =>
    rw [along_append] at placed
    obtain ⟨outside, here, -⟩ := placed
    obtain ⟨b, hb, held⟩ := ih outside
    obtain ⟨a, ha⟩ := exists_action plain
    have last : (folded is).Holds (i + js.length) (.act a .nil) (i + js.length + 1) :=
      .act (ha ▸ operation?_folded here) (.nil _)
    refine ⟨b.append (.act a .nil), by simp [hb, Block.operations, ha], ?_⟩
    simpa [Nat.add_assoc] using held.append last
  | @loop i js ks before body ih ihBody =>
    simp only [along_append, along_cons, along_nil, and_true, List.length_append,
      List.length_cons] at placed
    obtain ⟨⟨outside, start, inside⟩, stop⟩ := placed
    obtain ⟨b, hb, held⟩ := ih outside
    obtain ⟨c, hc, heldBody⟩ := ihBody inside
    have close : i + js.length + 1 + ks.length = i + js.length + (ks.length + 1) := by omega
    rw [close] at heldBody
    have pairs : (folded is).Pairs (i + js.length) (i + js.length + (ks.length + 1)) :=
      pairs_folded start (by simpa [Nat.add_assoc] using stop)
    refine ⟨b.append (.loop c .nil), ?_, ?_⟩
    · simp [hb, hc, Block.operations, Instruction.operation]
    · have length :
          i + (js ++ Instruction.loopStart (some (i + js.length + (ks.length + 1) : Nat)) :: ks ++
            [Instruction.loopEnd (i + js.length : Nat)]).length =
          i + js.length + (ks.length + 1) + 1 := by
        simp
        omega
      rw [length]
      exact held.append (.loop pairs heldBody (.nil _))

/-- Linked instructions hold the block that they spell out. -/
theorem holds_folded {is : Array Instruction} {b : Block} (h : Instruction.Linked 0 is.toList)
    (hb : b.operations = is.toList.map Instruction.operation) :
    (folded is).Holds 0 b (folded is).size := by
  obtain ⟨c, hc, held⟩ := exists_holds_of_linked h (along_toList is)
  obtain rfl : c = b := Block.operations_injective (hc.trans hb.symm)
  simpa [size] using held

end Code

end ByteTape
