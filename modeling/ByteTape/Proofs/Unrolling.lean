import ByteTape.Proofs.Condensing

/-!
# Unrolling repeated motions

Folded instructions and the commands that they stand for differ in nothing but the repetitions of
their motions. As blocks the one is the other with every repeated motion written out, and condensing
leads back to the repetitions without a difference in any strip.
-/

namespace ByteTape

/-- An operation without repetitions. -/
def Operation.unroll : Operation → List Operation
  | .motion m n => List.replicate n (.motion m 1)
  | op => [op]

/-- The commands of instructions ask for the unrolled operations of the instructions. -/
theorem Instruction.map_operation_expand (is : List Instruction) :
    (expand is).map Command.operation =
      (is.map Instruction.operation).flatMap Operation.unroll := by
  induction is with
  | nil => rfl
  | cons x is ih =>
    rw [expand_cons, List.map_append, ih, List.map_cons, List.flatMap_cons]
    congr 1
    cases x with
    | counted m n => simp [commands, operation, Operation.unroll, Command.operation]
    | _ => rfl

namespace Block

/-- The block with every repeated motion written out. -/
def unroll : Block → Block
  | nil => nil
  | act a rest =>
    match a with
    | .motion m n => motions (List.replicate n m) rest.unroll
    | .output => act .output rest.unroll
    | .input => act .input rest.unroll
  | loop body rest => loop body.unroll rest.unroll

theorem operations_unroll (b : Block) :
    b.unroll.operations = b.operations.flatMap Operation.unroll := by
  induction b with
  | nil => rfl
  | act a rest ih =>
    cases a <;> simp [unroll, operations, Action.operation, Operation.unroll, ih]
  | loop body rest ihBody ihRest =>
    simp [unroll, operations, Operation.unroll, ihBody, ihRest]

/-- Every motion is carried out at least once. -/
def Counted (b : Block) : Prop := ∀ m n, .motion m n ∈ b.operations → 1 ≤ n

/-- Counts in range make a counted block. -/
theorem counted_of_inRange {is : List Instruction} (h : ∀ x ∈ is, x.InRange) {b : Block}
    (hb : b.operations = is.map Instruction.operation) : b.Counted := by
  intro m n inside
  rw [hb] at inside
  obtain ⟨x, hx, same⟩ := List.mem_map.1 inside
  have range := h x hx
  cases x with
  | counted k l =>
    obtain ⟨-, rfl⟩ := Operation.motion.inj same
    exact range.1
  | _ => cases same

/-- The repetitions of a block condense its unrolled form, and no strip tells the difference. -/
theorem condenses_unroll {S : Strip → Strip → Prop} (refl : ∀ s, S s s) {b : Block}
    (h : b.Counted) : b.unroll.Condenses S b := by
  induction b with
  | nil => exact .nil
  | act a rest ih =>
    have after : rest.unroll.Condenses S rest :=
      ih fun m n inside => h m n (List.mem_cons_of_mem _ inside)
    cases a with
    | motion m n =>
      have least : 1 ≤ n := h m n List.mem_cons_self
      obtain ⟨n, rfl⟩ := Nat.exists_eq_add_of_le' least
      have same (s : Strip) : S (s.moves (m :: List.replicate n m)) (s.move (n + 1) m) := by
        rw [← List.replicate_succ, Strip.moves_replicate]
        exact refl _
      exact .merge same after
    | output => exact .act .output after
    | input => exact .act .input after
  | loop body rest ihBody ihRest =>
    have inside : body.Counted := fun m n hm => h m n (by simp [operations, hm])
    have after : rest.Counted := fun m n hm => h m n (by simp [operations, hm])
    exact .loop (ihBody inside) (ihRest after)

/-- Writing out the repetitions of a block changes nothing in a walk through it, the strip at its
end included. -/
theorem Counted.matched_unroll {σ : Type} {b : Block} (h : b.Counted) (d : Device σ) (s : Strip)
    (x : σ) :
    Matched d.walk d.walk (Walk.Behind (· = ·)) (Walk.Ending.Alike (· = ·)) ⟨b.unroll, s, x⟩
      ⟨b, s, x⟩ :=
  (condenses_unroll (fun _ => rfl) h).matched Strip.congruence_eq rfl d x

end Block

end ByteTape
