import ByteTape.Folding
import ByteTape.Proofs.Except
import Mathlib.Data.List.Basic
import Mathlib.Data.List.Induction

/-!
# Folding one command at a time

A growing run may as well be emitted after every command, because the next motion on its axis takes
it back. A folding pass is therefore a walk through flushed states. `Folding.Advance` says what each
command does to the instructions and the open loops of such a state, and `run_induction` carries a
property along the whole pass.
-/

namespace ByteTape

namespace Folding

theorem flush_of_pending_eq_none {s : Folding} (h : s.pending = none) : s.flush = s := by
  unfold flush
  rw [h]

@[simp] theorem flush_flush (s : Folding) : s.flush.flush = s.flush :=
  flush_of_pending_eq_none (pending_flush s)

@[simp] theorem opened_flush (s : Folding) : s.flush.opened = s.opened := by
  unfold flush
  split <;> rfl

/-- A run that was emitted early is taken back by the next motion on its axis. -/
theorem flush_move_flush (s : Folding) (m : Motion) :
    (s.flush.move m).flush = (s.move m).flush := by
  obtain ⟨output, pending, opened⟩ := s
  cases pending with
  | none => rfl
  | some run =>
    obtain ⟨k, n⟩ := run
    by_cases h : m.sameAxis k
    · simp [move, rejoin, flush, h]
    · obtain ⟨same, opposite⟩ := not_or.1 h
      simp [move, rejoin, flush, h, same, opposite]

theorem map_flush_feed_flush (s : Folding) (c : Command) :
    (s.flush.feed c).map flush = (s.feed c).map flush := by
  cases c with
  | motion m => exact congrArg Except.ok (flush_move_flush s m)
  | output => simp [feed, emit]
  | input => simp [feed, emit]
  | loopStart => simp [feed, openLoop]
  | loopEnd => simp [feed, closeLoop]

/-- Take in one command and emit the growing run. -/
def step (s : Folding) (c : Command) : Except Folding Folding := (s.feed c).map flush

@[simp] theorem step_flush (s : Folding) (c : Command) : s.flush.step c = s.step c :=
  map_flush_feed_flush s c

/-- Emitting the growing run early makes no difference in the end. -/
theorem map_flush_feedAll_flush (s : Folding) (cs : List Command) :
    (s.flush.feedAll cs).map flush = (s.feedAll cs).map flush := by
  induction cs generalizing s with
  | nil => simp [Except.map]
  | cons c cs ih =>
    have head := map_flush_feed_flush s c
    simp only [feedAll_cons]
    cases hs : s.feed c with
    | error e =>
      cases ht : s.flush.feed c <;> simp_all [Except.map, Except.bind]
    | ok t =>
      cases ht : s.flush.feed c with
      | error e => simp_all [Except.map]
      | ok u =>
        have same : u.flush = t.flush := by simpa [hs, ht, Except.map] using head
        calc (u.feedAll cs).map flush = (u.flush.feedAll cs).map flush := (ih u).symm
          _ = (t.flush.feedAll cs).map flush := by rw [same]
          _ = (t.feedAll cs).map flush := ih t

theorem run_append (cs ds : List Command) :
    run (cs ++ ds) = (run cs).bind fun s => (s.feedAll ds).map flush := by
  unfold run
  rw [feedAll_append]
  cases feedAll {} cs with
  | error e => rfl
  | ok s => exact (map_flush_feedAll_flush s ds).symm

/-- The whole pass ends where the step for its last command leads. -/
theorem run_concat (cs : List Command) (c : Command) :
    run (cs ++ [c]) = (run cs).bind (step · c) := by
  rw [run_append]
  congr 1
  funext s
  simp only [feedAll_cons, feedAll_nil, step]
  cases s.feed c <;> rfl

@[simp] theorem run_nil : run [] = .ok {} := rfl

theorem run_of_feedAll {cs : List Command} {s : Folding} (h : feedAll {} cs = .ok s) :
    run cs = .ok s.flush := by
  simp [run, h, Except.map]

/-- A pass ends with no growing run. -/
theorem pending_of_run {cs : List Command} {s : Folding} (h : run cs = .ok s) :
    s.pending = none := by
  obtain ⟨t, -, rfl⟩ := map_eq_ok_iff.1 h
  exact pending_flush t

end Folding

open Instruction

/-- The ways in which one motion changes the instructions before it. -/
inductive Motion.Extends (m : Motion) : List Instruction → List Instruction → Prop where
  /-- A run of the same motion grows. -/
  | grow (is : List Instruction) {n : Nat} (h : n < m.limit) :
      Extends m (is ++ [counted m n]) (is ++ [counted m (n + 1)])
  /-- A run of the opposite motion shrinks. -/
  | shrink (is : List Instruction) {n : Nat} (h : 1 < n) :
      Extends m (is ++ [counted m.opposite n]) (is ++ [counted m.opposite (n - 1)])
  /-- A single opposite motion disappears. -/
  | vanish (is : List Instruction) {n : Nat} (h : n ≤ 1) :
      Extends m (is ++ [counted m.opposite n]) is
  /-- A run starts after anything else, or after a full run of the same motion. -/
  | start (is : List Instruction) (full : ∀ n, is.getLast? = some (counted m n) → m.limit ≤ n)
      (free : ∀ n, is.getLast? ≠ some (counted m.opposite n)) :
      Extends m is (is ++ [counted m 1])

namespace Folding

/-- Everything that a motion does to a flushed state. -/
theorem extends_of_move {s : Folding} (h : s.pending = none) (m : Motion) :
    m.Extends s.output.toList (s.move m).flush.output.toList ∧
      (s.move m).flush.opened = s.opened := by
  obtain ⟨⟨is⟩, pending, opened⟩ := s
  obtain rfl : pending = none := h
  have plain : (∀ n, is.getLast? = some (counted m n) → False) →
      (∀ n, is.getLast? = some (counted m.opposite n) → False) →
      m.Extends is (is ++ [counted m 1]) :=
    fun same opposite => .start is (fun n hn => (same n hn).elim) opposite
  rcases List.eq_nil_or_concat' is with rfl | ⟨js, x, rfl⟩
  · simpa [move, rejoin, flush] using plain (by simp) (by simp)
  · cases x with
    | counted k n =>
      by_cases same : k = m
      · subst same
        by_cases room : n < k.limit
        · simpa [move, rejoin, flush, Motion.sameAxis, room] using Motion.Extends.grow js room
        · simpa [move, rejoin, flush, Motion.sameAxis, room] using
            Motion.Extends.start (m := k) (js ++ [counted k n])
              (by simpa using room) (by simp [(Motion.opposite_ne k).symm])
      · by_cases opposite : k = m.opposite
        · subst opposite
          by_cases several : 1 < n
          · simpa [move, rejoin, flush, Motion.sameAxis, several] using
              Motion.Extends.shrink js several
          · simpa [move, rejoin, flush, Motion.sameAxis, several] using
              Motion.Extends.vanish (m := m) js (Nat.le_of_not_lt several)
        · simpa [move, rejoin, flush, Motion.sameAxis, same, opposite] using
            plain (by simp [same]) (by simp [opposite])
    | output | input | loopStart | loopEnd =>
      simpa [move, rejoin, flush] using plain (by simp) (by simp)

/-- Everything that a command does to a flushed state: to its instructions and its open loops. -/
inductive Advance : Command → List Instruction → List Nat → List Instruction → List Nat → Prop where
  | motion {m : Motion} {is js : List Instruction} (h : m.Extends is js) (opened : List Nat) :
      Advance (.motion m) is opened js opened
  | output (is : List Instruction) (opened : List Nat) :
      Advance .output is opened (is ++ [.output]) opened
  | input (is : List Instruction) (opened : List Nat) :
      Advance .input is opened (is ++ [.input]) opened
  | loopStart (is : List Instruction) (opened : List Nat) :
      Advance .loopStart is opened (is ++ [.loopStart none]) (is.length :: opened)
  | loopEnd (is js : List Instruction) (outer : List Nat) :
      Advance .loopEnd (is ++ .loopStart none :: js) (is.length :: outer)
        (is ++ .loopStart (some (is.length + (js.length + 1) : Nat)) :: js ++
          [.loopEnd is.length]) outer

/-- The list around an index. -/
theorem exists_append_of_getElem? {α : Type} {xs : List α} {i : Nat} {x : α}
    (h : xs[i]? = some x) : ∃ ys zs, xs = ys ++ x :: zs ∧ ys.length = i := by
  obtain ⟨hi, rfl⟩ := List.getElem?_eq_some_iff.1 h
  exact ⟨xs.take i, xs.drop (i + 1), by simp, by simp; omega⟩

theorem advance_of_step {s t : Folding} {c : Command} (h : s.pending = none)
    (hs : s.step c = .ok t) : Advance c s.output.toList s.opened t.output.toList t.opened := by
  have flushed := flush_of_pending_eq_none h
  cases c with
  | motion m =>
    obtain rfl : (s.move m).flush = t := by simpa [step, feed, Except.map] using hs
    obtain ⟨change, opened⟩ := extends_of_move h m
    exact opened ▸ .motion change s.opened
  | output =>
    obtain rfl : (s.emit .output).flush = t := by simpa [step, feed, Except.map] using hs
    simpa [emit, flushed, flush, h] using Advance.output s.output.toList s.opened
  | input =>
    obtain rfl : (s.emit .input).flush = t := by simpa [step, feed, Except.map] using hs
    simpa [emit, flushed, flush, h] using Advance.input s.output.toList s.opened
  | loopStart =>
    obtain rfl : s.openLoop.flush = t := by simpa [step, feed, Except.map] using hs
    simpa [openLoop, flushed, flush, h] using Advance.loopStart s.output.toList s.opened
  | loopEnd =>
    obtain ⟨⟨is⟩, pending, opened⟩ := s
    obtain rfl : pending = none := h
    cases opened with
    | nil => simp [step, feed, closeLoop, flush, Except.map] at hs
    | cons start outer =>
      simp only [step, feed, closeLoop, flush] at hs
      split at hs
      · rename_i found
        obtain ⟨js, ks, rfl, rfl⟩ := exists_append_of_getElem? (by simpa using found)
        obtain rfl := (Except.ok.inj hs).symm
        simpa [flush] using Advance.loopEnd js ks outer
      · simp [Except.map] at hs

/-- A property of the instructions and open loops after a command list holds at the end of every
pass if it holds at its start and every command keeps it. -/
theorem run_induction {P : List Command → List Instruction → List Nat → Prop} (nil : P [] [] [])
    (concat : ∀ cs c is opened js opened', P cs is opened → Advance c is opened js opened' →
      P (cs ++ [c]) js opened')
    {cs : List Command} {s : Folding} (h : run cs = .ok s) : P cs s.output.toList s.opened := by
  induction cs using List.reverseRecOn generalizing s with
  | nil =>
    obtain rfl : {} = s := by simpa using h
    exact nil
  | append_singleton cs c ih =>
    rw [run_concat] at h
    obtain ⟨t, ht, step⟩ := bind_eq_ok_iff.1 h
    exact concat cs c _ _ _ _ (ih ht) (advance_of_step (pending_of_run ht) step)

end Folding

end ByteTape
