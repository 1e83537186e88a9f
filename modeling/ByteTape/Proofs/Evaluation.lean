import ByteTape.Stepper
import ByteTape.Proofs.Partner

/-!
# Evaluation of a block

The meaning of a block over a given input, in big steps and without code, counters or buffers: loops
repeat their body while the active cell is not zero, and the tape is a strip without ends. A block
evaluates to a final world, or runs out of input, or goes on for ever, and the walk over in-memory
streams does the same.
-/

namespace ByteTape

/-- A strip, the bytes still to be read, and the bytes written so far in order. -/
structure World where
  strip : Strip
  input : List UInt8
  output : List UInt8 := []

/-- A blank strip and the whole input. -/
def World.start (input : List UInt8) : World := { strip := .blank, input := input }

/-- How an evaluation ends. -/
inductive Fate where
  | done (w : World)
  /-- A byte was asked for after the last one. -/
  | starved (w : World)

namespace Block

/-- A block evaluates from a world to a fate. -/
inductive Evaluates : Block → World → Fate → Prop where
  | nil (w : World) : Evaluates .nil w (.done w)
  | motion {m : Motion} {n : Nat} {rest : Block} {w : World} {o : Fate}
      (after : Evaluates rest { w with strip := w.strip.move n m } o) :
      Evaluates (.act (.motion m n) rest) w o
  | output {rest : Block} {w : World} {o : Fate}
      (after : Evaluates rest { w with output := w.output ++ [w.strip.read] } o) :
      Evaluates (.act .output rest) w o
  | input {rest : Block} {w : World} {x : UInt8} {xs : List UInt8} {o : Fate}
      (some : w.input = x :: xs)
      (after : Evaluates rest { w with strip := w.strip.write x, input := xs } o) :
      Evaluates (.act .input rest) w o
  | starve {rest : Block} {w : World} (none : w.input = []) :
      Evaluates (.act .input rest) w (.starved w)
  | leave {body rest : Block} {w : World} {o : Fate} (zero : w.strip.read = 0)
      (after : Evaluates rest w o) : Evaluates (.loop body rest) w o
  | again {body rest : Block} {w v : World} {o : Fate} (nonzero : w.strip.read ≠ 0)
      (inside : Evaluates body w (.done v)) (after : Evaluates (.loop body rest) v o) :
      Evaluates (.loop body rest) w o
  | starveInside {body rest : Block} {w v : World} (nonzero : w.strip.read ≠ 0)
      (inside : Evaluates body w (.starved v)) : Evaluates (.loop body rest) w (.starved v)

/-- A block goes on for ever from a world. -/
coinductive Diverges : Block → World → Prop where
  | motion {m : Motion} {n : Nat} {rest : Block} {w : World}
      (after : Diverges rest { w with strip := w.strip.move n m }) :
      Diverges (.act (.motion m n) rest) w
  | output {rest : Block} {w : World}
      (after : Diverges rest { w with output := w.output ++ [w.strip.read] }) :
      Diverges (.act .output rest) w
  | input {rest : Block} {w : World} {x : UInt8} {xs : List UInt8} (some : w.input = x :: xs)
      (after : Diverges rest { w with strip := w.strip.write x, input := xs }) :
      Diverges (.act .input rest) w
  | leave {body rest : Block} {w : World} (zero : w.strip.read = 0) (after : Diverges rest w) :
      Diverges (.loop body rest) w
  | inside {body rest : Block} {w : World} (nonzero : w.strip.read ≠ 0)
      (inside : Diverges body w) : Diverges (.loop body rest) w
  | again {body rest : Block} {w v : World} (nonzero : w.strip.read ≠ 0)
      (inside : Evaluates body w (.done v)) (after : Diverges (.loop body rest) v) :
      Diverges (.loop body rest) w

/-- Every evaluation ends or goes on for ever. -/
theorem diverges_of_not_evaluates {b : Block} {w : World} (h : ¬ ∃ o, b.Evaluates w o) :
    b.Diverges w := by
  refine Diverges.coinduct (fun b w => ¬ ∃ o, b.Evaluates w o) ?_ b w h
  intro b w stuck
  cases b with
  | nil => exact absurd ⟨_, .nil w⟩ stuck
  | act a rest =>
    cases a with
    | motion m n =>
      exact .inl ⟨m, n, rest, fun ⟨o, ho⟩ => stuck ⟨o, .motion ho⟩, rfl⟩
    | output =>
      exact .inr (.inl ⟨rest, fun ⟨o, ho⟩ => stuck ⟨o, .output ho⟩, rfl⟩)
    | input =>
      cases hi : w.input with
      | nil => exact absurd ⟨_, .starve hi⟩ stuck
      | cons x xs =>
        exact .inr (.inr (.inl ⟨rest, x, xs, rfl, fun ⟨o, ho⟩ => stuck ⟨o, .input hi ho⟩, rfl⟩))
  | loop body rest =>
    by_cases zero : w.strip.read = 0
    · have never : ¬ ∃ o, rest.Evaluates w o := fun ⟨o, ho⟩ => stuck ⟨o, .leave zero ho⟩
      exact .inr (.inr (.inr (.inl ⟨body, rest, zero, never, rfl⟩)))
    · by_cases inside : ∃ o, body.Evaluates w o
      · obtain ⟨v | v, hv⟩ := inside
        · exact .inr (.inr (.inr (.inr (.inr
            ⟨body, rest, v, zero, hv, fun ⟨o, ho⟩ => stuck ⟨o, .again zero hv ho⟩, rfl⟩))))
        · exact absurd ⟨_, .starveInside zero hv⟩ stuck
      · exact .inr (.inr (.inr (.inr (.inl ⟨body, rest, zero, inside, rfl⟩))))

end Block

/-- The result of a run with this fate. -/
def Fate.result : Fate → Except RunError Unit
  | done _ => .ok ()
  | starved _ => .error .inputExhausted

/-- The world at the end. -/
def Fate.world : Fate → World
  | done w | starved w => w

/-- The world of a strip and in-memory streams. -/
def World.of (s : Strip) (bs : Buffers) : World := ⟨s, bs.input, bs.output⟩

theorem World.exists_of (w : World) : ∃ s bs, World.of s bs = w :=
  ⟨w.strip, ⟨w.input, w.output.reverse⟩, by simp [World.of, Buffers.output]⟩

/-- A walk over in-memory streams ended with a fate. -/
structure Fate.EndsAs (o : Fate) (e : Walk.Ending Buffers) : Prop where
  result : e.result = o.result
  world : World.of e.strip e.device = o.world

theorem Fate.EndsAs.unique {o o' : Fate} {e : Walk.Ending Buffers} (h : o.EndsAs e)
    (h' : o'.EndsAs e) : o = o' := by
  have result := h.result.symm.trans h'.result
  have world := h.world.symm.trans h'.world
  cases o <;> cases o' <;> simp_all [Fate.result, Fate.world]

/-- A walk over in-memory streams comes to a fate: it arrives in a world with a given block left to
do, or stops there for want of input. -/
def Fate.Reached (k : Block) (x : Walk Buffers) : Fate → Prop
  | .done w => ∃ n s bs, after Buffers.device.walk n x = .inl ⟨k, s, bs⟩ ∧ World.of s bs = w
  | .starved w =>
    ∃ n s bs, after Buffers.device.walk n x = .inr ⟨.error .inputExhausted, s, bs⟩ ∧
      World.of s bs = w

theorem Fate.Reached.of_after {k : Block} {x y : Walk Buffers} {o : Fate} {n : Nat}
    (first : after Buffers.device.walk n x = .inl y) (h : o.Reached k y) : o.Reached k x := by
  cases o with
  | done w =>
    obtain ⟨m, s, bs, hm, hw⟩ := h
    exact ⟨n + m, s, bs, (after_add_of_inl first m).trans hm, hw⟩
  | starved w =>
    obtain ⟨m, s, bs, hm, hw⟩ := h
    exact ⟨n + m, s, bs, (after_add_of_inl first m).trans hm, hw⟩

theorem Fate.Reached.of_step {k : Block} {x y : Walk Buffers} {o : Fate}
    (first : Buffers.device.walk x = .inl y) (h : o.Reached k y) : o.Reached k x :=
  .of_after ((after_succ_of_inl first 0).trans (after_zero _ y)) h

namespace Block

theorem walk_loop_zero {body rest : Block} {s : Strip} {bs : Buffers} (zero : s.read = 0) :
    Buffers.device.walk ⟨.loop body rest, s, bs⟩ = .inl ⟨rest, s, bs⟩ := by
  simp [Device.walk, zero]

theorem walk_loop_nonzero {body rest : Block} {s : Strip} {bs : Buffers} (nonzero : s.read ≠ 0) :
    Buffers.device.walk ⟨.loop body rest, s, bs⟩ =
      .inl ⟨body.append (.loop body rest), s, bs⟩ := by
  simp [Device.walk, nonzero]

theorem walk_input {rest : Block} {s : Strip} {bs : Buffers} {x : UInt8} {xs : List UInt8}
    (some : bs.input = x :: xs) :
    Buffers.device.walk ⟨.act .input rest, s, bs⟩ =
      .inl ⟨rest, s.write x, { bs with input := xs }⟩ := by
  simp [Device.walk, Buffers.device, Buffers.pop, some]

theorem walk_input_nil {rest : Block} {s : Strip} {bs : Buffers} (none : bs.input = []) :
    Buffers.device.walk ⟨.act .input rest, s, bs⟩ = .inr ⟨.error .inputExhausted, s, bs⟩ := by
  simp [Device.walk, Buffers.device, Buffers.pop, none]

theorem walk_output {rest : Block} {s : Strip} {bs : Buffers} :
    Buffers.device.walk ⟨.act .output rest, s, bs⟩ = .inl ⟨rest, s, bs.push s.read⟩ := rfl

/-- The walk comes to the fate that a block evaluates to, whatever is left to do after it. -/
theorem Evaluates.reached {b : Block} {w : World} {o : Fate} (h : b.Evaluates w o) (k : Block)
    {s : Strip} {bs : Buffers} (hw : World.of s bs = w) :
    o.Reached k ⟨b.append k, s, bs⟩ := by
  induction h generalizing k s bs with
  | nil w => exact ⟨0, s, bs, rfl, hw⟩
  | motion _ ih =>
    subst hw
    exact .of_step rfl (ih k rfl)
  | output _ ih =>
    subst hw
    exact .of_step walk_output (ih k (by simp [World.of, Buffers.push, Buffers.output]))
  | input some _ ih =>
    subst hw
    exact .of_step (walk_input some) (ih k rfl)
  | starve none =>
    subst hw
    exact ⟨1, s, bs, after_succ_of_inr (walk_input_nil none) 0, rfl⟩
  | leave zero _ ih =>
    subst hw
    exact .of_step (walk_loop_zero zero) (ih k rfl)
  | @again body rest w v o nonzero _ _ ihBody ihLoop =>
    subst hw
    obtain ⟨n, s', bs', hn, hv⟩ := ihBody ((Block.loop body rest).append k) rfl
    exact .of_step (walk_loop_nonzero nonzero) (.of_after hn (ihLoop k hv))
  | @starveInside body rest w v nonzero _ ih =>
    subst hw
    exact .of_step (walk_loop_nonzero nonzero) (ih ((Block.loop body rest).append k) rfl)

/-- The walk goes on for ever when the evaluation does. -/
theorem Diverges.walks {b : Block} {w : World} (h : b.Diverges w) (k : Block) {s : Strip}
    {bs : Buffers} (hw : World.of s bs = w) (n : Nat) :
    ∃ y, after Buffers.device.walk n ⟨b.append k, s, bs⟩ = .inl y := by
  induction n using Nat.strongRecOn generalizing b w k s bs with
  | ind n ih =>
    subst hw
    cases n with
    | zero => exact ⟨_, rfl⟩
    | succ n =>
      cases h with
      | motion next => exact ih n n.lt_succ_self next k rfl
      | output next =>
        rw [Block.append, after_succ_of_inl walk_output]
        exact ih n n.lt_succ_self next k (by simp [World.of, Buffers.push, Buffers.output])
      | input some next =>
        rw [Block.append, after_succ_of_inl (walk_input some)]
        exact ih n n.lt_succ_self next k rfl
      | leave zero next =>
        rw [Block.append, after_succ_of_inl (walk_loop_zero (s := s) zero)]
        exact ih n n.lt_succ_self next k rfl
      | @inside body rest _ nonzero next =>
        rw [Block.append, after_succ_of_inl (walk_loop_nonzero (s := s) nonzero)]
        exact ih n n.lt_succ_self next ((loop body rest).append k) rfl
      | @again body rest _ v nonzero inside next =>
        rw [Block.append, after_succ_of_inl (walk_loop_nonzero (s := s) nonzero)]
        obtain ⟨m, s', bs', hm, hv⟩ := inside.reached (loop body (rest.append k)) rfl
        by_cases le : n ≤ m
        · exact exists_after_inl_of_le hm le
        · obtain ⟨j, rfl⟩ := Nat.exists_eq_add_of_lt (Nat.lt_of_not_le le)
          rw [Nat.add_assoc, after_add_of_inl hm]
          exact ih (j + 1) (by omega) next k hv

/-- The walk through a block ends as its evaluation does. -/
theorem Evaluates.ends {b : Block} {s : Strip} {bs : Buffers} {o : Fate}
    (h : b.Evaluates (World.of s bs) o) :
    ∃ n e, after Buffers.device.walk n ⟨b, s, bs⟩ = .inr e ∧ o.EndsAs e := by
  have reached := h.reached .nil rfl
  rw [append_nil] at reached
  cases o with
  | done w =>
    obtain ⟨n, s', bs', hn, hw⟩ := reached
    refine ⟨n + 1, ⟨.ok (), s', bs'⟩, ?_, rfl, hw⟩
    rw [after_add_of_inl hn]
    rfl
  | starved w =>
    obtain ⟨n, s', bs', hn, hw⟩ := reached
    exact ⟨n, _, hn, rfl, hw⟩

/-- Every way in which a walk over in-memory streams ends is the fate of its evaluation. -/
theorem evaluates_of_after {b : Block} {s : Strip} {bs : Buffers} {n : Nat}
    {e : Walk.Ending Buffers} (h : after Buffers.device.walk n ⟨b, s, bs⟩ = .inr e) :
    ∃ o, b.Evaluates (World.of s bs) o ∧ o.EndsAs e := by
  by_cases ends : ∃ o, b.Evaluates (World.of s bs) o
  · obtain ⟨o, ho⟩ := ends
    obtain ⟨m, e', hm, alike⟩ := ho.ends
    obtain rfl := after_inr_unique h hm
    exact ⟨o, ho, alike⟩
  · obtain ⟨y, hy⟩ := (diverges_of_not_evaluates ends).walks .nil rfl n
    rw [append_nil, h] at hy
    cases hy

/-- An evaluation has one fate. -/
theorem Evaluates.unique {b : Block} {w : World} {o o' : Fate} (h : b.Evaluates w o)
    (h' : b.Evaluates w o') : o = o' := by
  obtain ⟨s, bs, rfl⟩ := w.exists_of
  obtain ⟨n, e, hn, alike⟩ := h.ends
  obtain ⟨n', e', hn', alike'⟩ := h'.ends
  obtain rfl := after_inr_unique hn hn'
  exact alike.unique alike'

/-- An evaluation that goes on for ever has no fate. -/
theorem Diverges.not_evaluates {b : Block} {w : World} (h : b.Diverges w) (o : Fate) :
    ¬ b.Evaluates w o := by
  intro ho
  obtain ⟨s, bs, rfl⟩ := w.exists_of
  obtain ⟨n, e, hn, -⟩ := ho.ends
  obtain ⟨y, hy⟩ := h.walks .nil rfl n
  rw [append_nil, hn] at hy
  cases hy

end Block

end ByteTape
