import ByteTape.Proofs.Evaluation

/-!
# Part of an evaluation

How far an evaluation has come after a number of operations, told in big steps as the evaluation
itself: a block comes from one world to another, and another block is left to do there. A walk over
in-memory streams is there after as many steps, so there is one such place for every number of
operations, and what is left evaluates to what the whole does.
-/

namespace ByteTape

namespace Block

/-- A block comes, by a number of operations, to a world where another block is left to do. Every
test of the active cell is an operation. -/
inductive Comes : Block → World → Nat → Block → World → Prop where
  | here (b : Block) (w : World) : Comes b w 0 b w
  | motion {m : Motion} {k n : Nat} {rest c : Block} {w v : World}
      (after : Comes rest { w with strip := w.strip.move k m } n c v) :
      Comes (.act (.motion m k) rest) w (n + 1) c v
  | output {n : Nat} {rest c : Block} {w v : World}
      (after : Comes rest { w with output := w.output ++ [w.strip.read] } n c v) :
      Comes (.act .output rest) w (n + 1) c v
  | input {n : Nat} {rest c : Block} {w v : World} {x : UInt8} {xs : List UInt8}
      (some : w.input = x :: xs)
      (after : Comes rest { w with strip := w.strip.write x, input := xs } n c v) :
      Comes (.act .input rest) w (n + 1) c v
  | leave {n : Nat} {body rest c : Block} {w v : World} (zero : w.strip.read = 0)
      (after : Comes rest w n c v) : Comes (.loop body rest) w (n + 1) c v
  | inside {n : Nat} {body rest c : Block} {w v : World} (nonzero : w.strip.read ≠ 0)
      (inside : Comes body w n c v) :
      Comes (.loop body rest) w (n + 1) (c.append (.loop body rest)) v
  | again {n k : Nat} {body rest c : Block} {w u v : World} (nonzero : w.strip.read ≠ 0)
      (inside : Comes body w n .nil u) (after : Comes (.loop body rest) u k c v) :
      Comes (.loop body rest) w (n + k + 1) c v

/-- The walk comes to where the block comes, whatever is left to do after it. -/
theorem Comes.walks {b c : Block} {w v : World} {n : Nat} (h : b.Comes w n c v) (k : Block)
    {s : Strip} {bs : Buffers} (hw : World.of s bs = w) :
    ∃ t bt, after Buffers.device.walk n ⟨b.append k, s, bs⟩ = .inl ⟨c.append k, t, bt⟩ ∧
      World.of t bt = v := by
  induction h generalizing k s bs with
  | here b w => exact ⟨s, bs, rfl, hw⟩
  | motion _ ih =>
    subst hw
    exact ih k rfl
  | output _ ih =>
    subst hw
    exact ih k (by simp [World.of, Buffers.push, Buffers.output])
  | input some _ ih =>
    subst hw
    rw [append, after_succ_of_inl (walk_input some)]
    exact ih k rfl
  | leave zero _ ih =>
    subst hw
    rw [append, after_succ_of_inl (walk_loop_zero (s := s) zero)]
    exact ih k rfl
  | @inside n body rest c w v nonzero _ ih =>
    subst hw
    rw [append, after_succ_of_inl (walk_loop_nonzero (s := s) nonzero), append_assoc]
    exact ih ((Block.loop body rest).append k) rfl
  | @again n l body rest c w u v nonzero _ _ ihBody ihLoop =>
    subst hw
    obtain ⟨t, bt, ht, hu⟩ := ihBody ((Block.loop body rest).append k) rfl
    obtain ⟨t', bt', ht', hv⟩ := ihLoop k hu
    refine ⟨t', bt', ?_, hv⟩
    rw [append, after_succ_of_inl (walk_loop_nonzero (s := s) nonzero)]
    exact (after_add_of_inl ht l).trans ht'

/-- A step of the walk through a block, whatever is left to do after it. -/
theorem walk_append {b k : Block} (left : b ≠ .nil) {s : Strip} {bs : Buffers} {y : Walk Buffers}
    (h : Buffers.device.walk ⟨b.append k, s, bs⟩ = .inl y) :
    ∃ c, Buffers.device.walk ⟨b, s, bs⟩ = .inl ⟨c, y.strip, y.device⟩ ∧ y.block = c.append k := by
  cases b with
  | nil => exact absurd rfl left
  | act a rest =>
    cases a with
    | motion m n =>
      obtain rfl := Sum.inl.inj h
      exact ⟨rest, rfl, rfl⟩
    | output =>
      obtain rfl := Sum.inl.inj h
      exact ⟨rest, rfl, rfl⟩
    | input =>
      cases waiting : bs.input with
      | nil =>
        rw [append, walk_input_nil waiting] at h
        cases h
      | cons x xs =>
        rw [append, walk_input waiting] at h
        obtain rfl := Sum.inl.inj h
        exact ⟨rest, walk_input waiting, rfl⟩
  | loop body rest =>
    by_cases zero : s.read = 0
    · rw [append, walk_loop_zero zero] at h
      obtain rfl := Sum.inl.inj h
      exact ⟨rest, walk_loop_zero zero, rfl⟩
    · rw [append, walk_loop_nonzero zero] at h
      obtain rfl := Sum.inl.inj h
      refine ⟨body.append (.loop body rest), walk_loop_nonzero zero, ?_⟩
      rw [append_assoc, append]

/-- A step of the walk is one operation. -/
theorem comes_of_walk {b : Block} {s : Strip} {bs : Buffers} {y : Walk Buffers}
    (h : Buffers.device.walk ⟨b, s, bs⟩ = .inl y) :
    b.Comes (World.of s bs) 1 y.block (World.of y.strip y.device) := by
  cases b with
  | nil => cases h
  | act a rest =>
    cases a with
    | motion m n =>
      obtain rfl := Sum.inl.inj h
      exact .motion (.here _ _)
    | output =>
      obtain rfl := Sum.inl.inj h
      have said : World.of s (bs.push s.read) =
          { World.of s bs with output := bs.output ++ [s.read] } := by
        simp [World.of, Buffers.push, Buffers.output]
      exact .output (said ▸ .here _ _)
    | input =>
      cases waiting : bs.input with
      | nil =>
        rw [walk_input_nil waiting] at h
        cases h
      | cons x xs =>
        rw [walk_input waiting] at h
        obtain rfl := Sum.inl.inj h
        exact .input waiting (.here _ _)
  | loop body rest =>
    by_cases zero : s.read = 0
    · rw [walk_loop_zero zero] at h
      obtain rfl := Sum.inl.inj h
      exact .leave zero (.here _ _)
    · rw [walk_loop_nonzero zero] at h
      obtain rfl := Sum.inl.inj h
      exact .inside zero (.here _ _)

/-- One more operation. -/
theorem Comes.step {b c : Block} {w v : World} {n : Nat} (h : b.Comes w n c v) {s : Strip}
    {bs : Buffers} (hv : World.of s bs = v) {y : Walk Buffers}
    (step : Buffers.device.walk ⟨c, s, bs⟩ = .inl y) :
    b.Comes w (n + 1) y.block (World.of y.strip y.device) := by
  induction h generalizing s bs y with
  | here b w => exact hv ▸ comes_of_walk step
  | motion _ ih => exact .motion (ih hv step)
  | output _ ih => exact .output (ih hv step)
  | input some _ ih => exact .input some (ih hv step)
  | leave zero _ ih => exact .leave zero (ih hv step)
  | @inside n body rest c w v nonzero inside ih =>
    by_cases done : c = .nil
    · subst done
      exact .again nonzero inside (hv ▸ comes_of_walk step)
    · obtain ⟨c', first, whole⟩ := walk_append done step
      rw [whole]
      exact .inside nonzero (ih hv first)
  | again nonzero inside _ _ ih => exact (Comes.again nonzero inside (ih hv step) :)

/-- A block comes to where the walk through it is. -/
theorem comes_of_after {b : Block} {s : Strip} {bs : Buffers} {n : Nat} {y : Walk Buffers}
    (h : after Buffers.device.walk n ⟨b, s, bs⟩ = .inl y) :
    b.Comes (World.of s bs) n y.block (World.of y.strip y.device) := by
  induction n generalizing y with
  | zero =>
    obtain rfl := Sum.inl.inj h
    exact .here _ _
  | succ n ih =>
    obtain ⟨z, hz, last⟩ := exists_last_of_after_inl h
    exact (ih hz).step rfl last

/-- An evaluation is at one place after a number of operations. -/
theorem Comes.unique {b c c' : Block} {w v v' : World} {n : Nat} (h : b.Comes w n c v)
    (h' : b.Comes w n c' v') : c = c' ∧ v = v' := by
  obtain ⟨s, bs, rfl⟩ := w.exists_of
  obtain ⟨t, bt, ht, rfl⟩ := h.walks .nil rfl
  obtain ⟨t', bt', ht', rfl⟩ := h'.walks .nil rfl
  obtain ⟨same, rfl, rfl⟩ : c = c' ∧ t = t' ∧ bt = bt' := by
    simpa using Sum.inl.inj (ht.symm.trans ht')
  exact ⟨same, rfl⟩

/-- What is left to do evaluates to what the whole evaluates to. -/
theorem Comes.evaluates_iff {b c : Block} {w v : World} {n : Nat} (h : b.Comes w n c v)
    {o : Fate} : b.Evaluates w o ↔ c.Evaluates v o := by
  obtain ⟨s, bs, rfl⟩ := w.exists_of
  obtain ⟨t, bt, ht, rfl⟩ := h.walks .nil rfl
  rw [append_nil, append_nil] at ht
  constructor
  · intro whole
    obtain ⟨m, e, hm, alike⟩ := whole.ends
    obtain ⟨k, rfl⟩ := Nat.exists_eq_add_of_lt (lt_of_after ht hm)
    rw [Nat.add_assoc, after_add_of_inl ht] at hm
    obtain ⟨o', ho', alike'⟩ := evaluates_of_after hm
    exact alike.unique alike' ▸ ho'
  · intro rest
    obtain ⟨m, e, hm, alike⟩ := rest.ends
    obtain ⟨o', ho', alike'⟩ := evaluates_of_after ((after_add_of_inl ht m).trans hm)
    exact alike.unique alike' ▸ ho'

end Block

end ByteTape
