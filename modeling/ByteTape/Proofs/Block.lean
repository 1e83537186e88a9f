import ByteTape.Program
import ByteTape.Proofs.Nesting

/-!
# Code as a tree

A block is a sequence of actions and loops, and the body of a loop is a block again. Either form of
code is a list of operations, and the lists that a block spells out are exactly those whose loops
open and close in pairs. A list is spelled out by one block at most.
-/

namespace ByteTape

/-- What code does at an entry that is no loop boundary. -/
inductive Action where
  | motion (m : Motion) (count : Nat)
  | output
  | input
  deriving DecidableEq, Repr

def Action.operation : Action → Operation
  | motion m n => .motion m n
  | output => .output
  | input => .input

/-- A sequence of actions and loops. -/
inductive Block where
  | nil
  | act (a : Action) (rest : Block)
  | loop (body rest : Block)
  deriving DecidableEq, Repr

namespace Block

def append : Block → Block → Block
  | nil, c => c
  | act a rest, c => act a (rest.append c)
  | loop body rest, c => loop body (rest.append c)

@[simp] theorem nil_append (c : Block) : nil.append c = c := rfl

@[simp] theorem append_nil (b : Block) : b.append nil = b := by
  induction b <;> simp_all [append]

theorem append_assoc (b c d : Block) : (b.append c).append d = b.append (c.append d) := by
  induction b <;> simp_all [append]

/-- The operations that a block spells out. -/
def operations : Block → List Operation
  | nil => []
  | act a rest => a.operation :: rest.operations
  | loop body rest =>
    .boundary .opening :: body.operations ++ .boundary .closing :: rest.operations

@[simp] theorem operations_append (b c : Block) :
    (b.append c).operations = b.operations ++ c.operations := by
  induction b <;> simp_all [append, operations]

/-- Where a block that stands at an index ends. -/
theorem add_length_act (i : Nat) (a : Action) (rest : Block) :
    i + (act a rest).operations.length = i + 1 + rest.operations.length := by
  simp only [operations, List.length_cons]
  omega

theorem add_length_loop (i : Nat) (body rest : Block) :
    i + (loop body rest).operations.length =
      i + 1 + body.operations.length + 1 + rest.operations.length := by
  simp only [operations, List.cons_append, List.length_cons, List.length_append]
  omega

theorem bracket_operation (a : Action) : a.operation.bracket = none := by
  cases a <;> rfl

/-- The check of the loops passes over a block. -/
theorem opens_operations (b : Block) (index : Nat) (opened : List Nat) :
    Bracket.opens Operation.bracket index opened b.operations = .ok opened := by
  induction b generalizing index opened with
  | nil => rfl
  | act a rest ih => simp [operations, Bracket.opens, bracket_operation, ih]
  | loop body rest ihBody ihRest =>
    simp [operations, Bracket.opens, Bracket.opens_append, Operation.bracket, Except.bind, ihBody,
      ihRest]

/-- Operations that close the open loops are blocks with a loop end before all but the first. -/
theorem exists_blocks_of_opens {ops : List Operation} {index : Nat} {opened : List Nat}
    (h : Bracket.opens Operation.bracket index opened ops = .ok []) :
    ∃ (b : Block) (bs : List Block), bs.length = opened.length ∧
      ops = b.operations ++ bs.flatMap fun c => .boundary .closing :: c.operations := by
  induction ops generalizing index opened with
  | nil =>
    obtain rfl : opened = [] := Except.ok.inj h
    exact ⟨nil, [], rfl, rfl⟩
  | cons op ops ih =>
    have plain (a : Action)
        (rest : Bracket.opens Operation.bracket (index + 1) opened ops = .ok []) :
        ∃ (b : Block) (bs : List Block), bs.length = opened.length ∧
          a.operation :: ops =
            b.operations ++ bs.flatMap fun c => .boundary .closing :: c.operations := by
      obtain ⟨b, bs, length, rfl⟩ := ih rest
      exact ⟨act a b, bs, length, rfl⟩
    cases op with
    | motion m n => exact plain (.motion m n) h
    | output => exact plain .output h
    | input => exact plain .input h
    | boundary side =>
      cases side with
      | opening =>
        have inside : Bracket.opens Operation.bracket (index + 1) (index :: opened) ops = .ok [] :=
          h
        obtain ⟨body, bs, length, rfl⟩ := ih inside
        obtain ⟨rest, bs, rfl⟩ := List.exists_cons_of_length_eq_add_one length
        exact ⟨loop body rest, bs, by simpa using length, by simp [operations]⟩
      | closing =>
        cases opened with
        | nil => cases h
        | cons i outer =>
          have outside : Bracket.opens Operation.bracket (index + 1) outer ops = .ok [] := h
          obtain ⟨b, bs, length, rfl⟩ := ih outside
          exact ⟨nil, b :: bs, by simp [length], by simp [operations]⟩

/-- Operations can be read as a block exactly when their loops open and close in pairs. -/
theorem exists_operations_iff {ops : List Operation} :
    (∃ b : Block, b.operations = ops) ↔ Bracket.opens Operation.bracket 0 [] ops = .ok [] := by
  constructor
  · rintro ⟨b, rfl⟩
    exact b.opens_operations 0 []
  · intro h
    obtain ⟨b, bs, length, rfl⟩ := exists_blocks_of_opens h
    obtain rfl := List.length_eq_zero_iff.1 length
    exact ⟨b, by simp⟩

theorem operation_injective {a b : Action} (h : a.operation = b.operation) : a = b := by
  cases a <;> cases b <;> simp_all [Action.operation]

/-- What may follow a block without continuing it. -/
def Stops (ops : List Operation) : Prop := ∀ op ∈ ops.head?, op = .boundary .closing

theorem stops_nil : Stops [] := by simp [Stops]

theorem stops_closing (ops : List Operation) : Stops (.boundary .closing :: ops) := by
  simp [Stops]

theorem not_stops_act (a : Action) (rest : Block) (ops : List Operation) :
    ¬ Stops ((act a rest).operations ++ ops) := by
  cases a <;> simp [Stops, operations, Action.operation]

theorem not_stops_loop (body rest : Block) (ops : List Operation) :
    ¬ Stops ((loop body rest).operations ++ ops) := by
  simp [Stops, operations]

/-- A block is determined by its operations and what stops it. -/
theorem operations_append_inj {b c : Block} {xs ys : List Operation}
    (h : b.operations ++ xs = c.operations ++ ys) (hx : Stops xs) (hy : Stops ys) :
    b = c ∧ xs = ys := by
  induction b generalizing c xs ys with
  | nil =>
    cases c with
    | nil => exact ⟨rfl, h⟩
    | act a rest => exact absurd (h ▸ hx) (not_stops_act a rest ys)
    | loop body rest => exact absurd (h ▸ hx) (not_stops_loop body rest ys)
  | act a rest ih =>
    cases c with
    | nil => exact absurd (h.symm ▸ hy) (not_stops_act a rest xs)
    | act a' rest' =>
      obtain ⟨ha, tail⟩ := List.cons.inj h
      obtain ⟨rfl, rfl⟩ := ih tail hx hy
      exact ⟨operation_injective ha ▸ rfl, rfl⟩
    | loop body' rest' => cases a <;> cases (List.cons.inj h).1
  | loop body rest ihBody ihRest =>
    cases c with
    | nil => exact absurd (h.symm ▸ hy) (not_stops_loop body rest xs)
    | act a' rest' => cases a' <;> cases (List.cons.inj h).1
    | loop body' rest' =>
      simp only [operations, List.cons_append, List.append_assoc] at h
      obtain ⟨rfl, tail⟩ := ihBody (List.cons.inj h).2 (stops_closing _) (stops_closing _)
      obtain ⟨rfl, rfl⟩ := ihRest (List.cons.inj tail).2 hx hy
      exact ⟨rfl, rfl⟩

theorem operations_injective {b c : Block} (h : b.operations = c.operations) : b = c :=
  (operations_append_inj (congrArg (· ++ []) h) stops_nil stops_nil).1

/-- Balanced commands are read as a tree in one way. -/
theorem existsUnique_of_balanced {cs : List Command}
    (h : Bracket.Balanced Command.bracket cs) :
    ∃! b : Block, b.operations = cs.map Command.operation := by
  have same : Bracket.opens Operation.bracket 0 [] (cs.map Command.operation) = .ok [] := by
    rw [Bracket.opens_map]
    exact Bracket.balanced_iff.1 h
  obtain ⟨b, hb⟩ := exists_operations_iff.2 same
  exact ⟨b, hb, fun c hc => operations_injective (hc.trans hb.symm)⟩

end Block

end ByteTape
