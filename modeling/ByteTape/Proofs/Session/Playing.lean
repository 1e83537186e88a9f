import ByteTape.Session.Basic
import ByteTape.Proofs.Stepping
import Mathlib.Data.List.DropRight

/-!
# Playing a session

Both ways of taking steps with a session do one thing over and over: the stepper shows a state, and
the session takes note of it. This goes on until the stepper fails or has nothing more to show, or
until enough is shown. Set-up and breakpoints stay as they are, and the history is a window on the
states noted so far.
-/

namespace ByteTape

namespace Session

/-- Nothing counts as hit. -/
def unhit (s : Session) : Session := { s with hit := none }

theorem unhit_of_hit_eq_none {s : Session} (h : s.hit = none) : s.unhit = s := by
  cases s
  cases h
  rfl

/-- Take note of a state that the stepper has shown. A final one ends the run, and any other one may
be a hit. -/
def see (s : Session) (stepper : Stepper) (x : Snapshot) : Session :=
  let s := { s with stepper := stepper }.record x
  if x.instruction.isNone then { s with finished := true }
  else if (x.pc : Int) ∈ s.breakpoints then { s with hit := some x.pc }
  else s

/-- Whether it ends the run or counts as hit, a state is put into the history. -/
theorem exists_see_eq (s : Session) (stepper : Stepper) (x : Snapshot) :
    ∃ finished hit, s.see stepper x =
      { s with
        stepper := stepper
        finished := finished
        current := x
        history := dropOldest s.options.historyLimit (s.history.push x)
        hit := hit } := by
  simp only [see]
  split
  · exact ⟨true, s.hit, rfl⟩
  · split
    · exact ⟨s.finished, some x.pc, rfl⟩
    · exact ⟨s.finished, s.hit, rfl⟩

/-- A state is a hit if it is not the final one and there is a breakpoint. -/
theorem hit_see {s : Session} {stepper : Stepper} {x : Snapshot} :
    (s.see stepper x).hit =
      if x.instruction ≠ none ∧ (x.pc : Int) ∈ s.breakpoints then some x.pc else s.hit := by
  by_cases final : x.instruction = none
  · simp [see, record, final]
  · by_cases here : (x.pc : Int) ∈ s.breakpoints <;> simp [see, record, final, here]

/-- End the run, with the stepper that has nothing more to show. -/
def conclude (s : Session) (stepper : Stepper) : Session :=
  { s with stepper := stepper, finished := true }

/-- A session from which steps are taken. -/
structure Going (s : Session) : Prop where
  unfinished : s.finished = false
  unhit : s.hit = none

/-- Play a session on, after the states that have been shown. What comes of it is an outcome like
that of `stepOn`. -/
inductive Plays (code : Code) : Workspace → Session → Array Snapshot → Outcome → Prop where
  | rest (w : Workspace) (s : Session) (states : Array Snapshot) :
      Plays code w s states ⟨.ok states, w, s⟩
  | done {w w' : Workspace} {s : Session} {states : Array Snapshot} {stepper : Stepper}
      (going : s.Going) (next : s.stepper.next code w = ⟨.ok none, w', stepper⟩) :
      Plays code w s states ⟨.ok states, w', s.conclude stepper⟩
  | failed {w w' : Workspace} {s : Session} {states : Array Snapshot} {stepper : Stepper}
      {e : RunError} (going : s.Going) (next : s.stepper.next code w = ⟨.error e, w', stepper⟩) :
      Plays code w s states ⟨.error e, w', s.conclude stepper⟩
  | shown {w w' : Workspace} {s : Session} {states : Array Snapshot} {stepper : Stepper}
      {x : Snapshot} {o : Outcome} (going : s.Going)
      (next : s.stepper.next code w = ⟨.ok (some x), w', stepper⟩)
      (rest : Plays code w' (s.see stepper x) (states.push x) o) : Plays code w s states o

variable {code : Code} {w w' : Workspace} {s : Session} {states : Array Snapshot} {o : Outcome}

/-! ## One step -/

/-- A session that is over takes no steps. -/
theorem stepOn_of_finished {count : Nat} (finished : s.finished = true) :
    stepOn code count w s states = ⟨.ok states, w, s⟩ := by
  cases count with
  | zero => rfl
  | succ count => rw [stepOn, if_pos finished]

section Step

variable {count : Nat} {stepper : Stepper} {x : Snapshot} (going : s.finished = false)
include going

theorem stepOn_of_error {e : RunError} (next : s.stepper.next code w = ⟨.error e, w', stepper⟩) :
    stepOn code (count + 1) w s states = ⟨.error e, w', s.conclude stepper⟩ := by
  rw [stepOn, if_neg (Bool.eq_false_iff.1 going), next]
  rfl

theorem stepOn_of_done (next : s.stepper.next code w = ⟨.ok none, w', stepper⟩) :
    stepOn code (count + 1) w s states = ⟨.ok states, w', s.conclude stepper⟩ := by
  rw [stepOn, if_neg (Bool.eq_false_iff.1 going), next]
  rfl

/-- A session that shows a state stops if that is a hit, and otherwise takes the other steps. After
a final state there are none. -/
theorem stepOn_of_shown (next : s.stepper.next code w = ⟨.ok (some x), w', stepper⟩) :
    stepOn code (count + 1) w s states =
      if x.instruction ≠ none ∧ (x.pc : Int) ∈ s.breakpoints then
        ⟨.ok (states.push x), w', s.see stepper x⟩
      else stepOn code count w' (s.see stepper x) (states.push x) := by
  rw [stepOn, if_neg (Bool.eq_false_iff.1 going), next]
  by_cases final : x.instruction = none
  · have finished : (s.see stepper x).finished = true := by simp [see, final]
    rw [if_neg fun hit => hit.1 final, stepOn_of_finished finished]
    simp [see, record, final]
  · by_cases here : (x.pc : Int) ∈ s.breakpoints <;> simp [see, record, final, here]

end Step

/-! ## Steps -/

/-- Taking some steps is playing on. -/
theorem plays_stepOn (unhit : s.hit = none) (count : Nat) :
    Plays code w s states (stepOn code count w s states) := by
  induction count generalizing w s states with
  | zero => exact .rest _ _ _
  | succ count ih =>
    cases finished : s.finished with
    | true => exact stepOn_of_finished finished ▸ .rest _ _ _
    | false =>
      have going : s.Going := ⟨finished, unhit⟩
      rcases next : s.stepper.next code w with ⟨e | _ | x, w', stepper⟩
      · exact stepOn_of_error finished next ▸ .failed going next
      · exact stepOn_of_done finished next ▸ .done going next
      · rw [stepOn_of_shown finished next]
        refine .shown going next ?_
        split
        · exact .rest _ _ _
        · rename_i free
          exact ih (hit_see.trans (if_neg free) |>.trans unhit)

/-- Asked for no steps a session stays as it is, and otherwise it is played. -/
theorem stepForward_cases (s : Session) (code : Code) (w : Workspace) (count : Int) :
    s.stepForward code w count = ⟨.ok #[], w, s⟩ ∨
      Plays code w s.unhit #[] (s.stepForward code w count) := by
  unfold stepForward
  split
  · exact .inl rfl
  · exact .inr (plays_stepOn rfl _)

theorem stepForward_one_of_finished (code : Code) (w : Workspace) (ended : s.finished = true) :
    s.stepForward code w 1 = ⟨.ok #[], w, s.unhit⟩ :=
  stepOn_of_finished (s := s.unhit) ended

theorem stepForward_one_of_going (code : Code) (w : Workspace) (going : s.finished = false) :
    s.stepForward code w 1 =
      match s.stepper.next code w with
      | ⟨.ok none, w, stepper⟩ => ⟨.ok #[], w, s.unhit.conclude stepper⟩
      | ⟨.error e, w, stepper⟩ => ⟨.error e, w, s.unhit.conclude stepper⟩
      | ⟨.ok (some x), w, stepper⟩ => ⟨.ok #[x], w, s.unhit.see stepper x⟩ := by
  have one : s.stepForward code w 1 = stepOn code 1 w s.unhit #[] := rfl
  have unfinished : s.unhit.finished = false := going
  rw [one]
  rcases next : s.stepper.next code w with ⟨e | _ | x, w', stepper⟩
  · exact stepOn_of_error unfinished next
  · exact stepOn_of_done unfinished next
  · exact (stepOn_of_shown unfinished next).trans (ite_self _)

/-! ## One round of a run -/

section Round

variable {limit : Option Int} {fuel : Nat} {stepper : Stepper} {x : Snapshot}

/-- No more states are asked for than there are. -/
def Met (limit : Option Int) (states : Array Snapshot) : Prop :=
  ∃ most : Int, limit = some most ∧ most ≤ states.size

theorem not_met_none (states : Array Snapshot) : ¬ Met none states := by
  simp [Met]

theorem any_eq_true_iff :
    (limit.any fun most : Int => decide (most ≤ (states.size : Int))) = true ↔
      Met limit states := by
  cases limit <;> simp [Met]

theorem runOn_of_met (met : Met limit states) :
    runOn code limit (fuel + 1) w s states = some ⟨.ok states, w, s⟩ := by
  rw [runOn, if_pos (any_eq_true_iff.2 met)]

variable (short : ¬ Met limit states)
include short

theorem runOn_of_finished (finished : s.finished = true) :
    runOn code limit (fuel + 1) w s states = some ⟨.ok states, w, s.unhit⟩ := by
  rw [runOn, if_neg (mt any_eq_true_iff.1 short), stepForward_one_of_finished code w finished]
  rfl

variable (going : s.finished = false)
include going

theorem runOn_of_error {e : RunError} (next : s.stepper.next code w = ⟨.error e, w', stepper⟩) :
    runOn code limit (fuel + 1) w s states = some ⟨.error e, w', s.unhit.conclude stepper⟩ := by
  rw [runOn, if_neg (mt any_eq_true_iff.1 short), stepForward_one_of_going code w going, next]

theorem runOn_of_done (next : s.stepper.next code w = ⟨.ok none, w', stepper⟩) :
    runOn code limit (fuel + 1) w s states = some ⟨.ok states, w', s.unhit.conclude stepper⟩ := by
  rw [runOn, if_neg (mt any_eq_true_iff.1 short), stepForward_one_of_going code w going, next]
  rfl

/-- A run that shows a state stops if that is a hit, and otherwise it comes to the next round. -/
theorem runOn_of_shown (next : s.stepper.next code w = ⟨.ok (some x), w', stepper⟩) :
    runOn code limit (fuel + 1) w s states =
      if x.instruction ≠ none ∧ (x.pc : Int) ∈ s.breakpoints then
        some ⟨.ok (states.push x), w', s.unhit.see stepper x⟩
      else runOn code limit fuel w' (s.unhit.see stepper x) (states.push x) := by
  rw [runOn, if_neg (mt any_eq_true_iff.1 short), stepForward_one_of_going code w going, next]
  have hit : (s.unhit.see stepper x).hit =
      if x.instruction ≠ none ∧ (x.pc : Int) ∈ s.breakpoints then some x.pc else none := hit_see
  split at hit <;> simp [*]

end Round

/-! ## Runs -/

/-- Running is playing on, unless the limit is met at once. -/
theorem plays_runOn {limit : Option Int} {fuel : Nat}
    (h : runOn code limit fuel w s states = some o) :
    o = ⟨.ok states, w, s⟩ ∨ Plays code w s.unhit states o := by
  induction fuel generalizing w s states with
  | zero => cases h
  | succ fuel ih =>
    by_cases met : Met limit states
    · rw [runOn_of_met met] at h
      exact .inl (Option.some.inj h).symm
    right
    cases finished : s.finished with
    | true =>
      rw [runOn_of_finished met finished] at h
      obtain rfl := Option.some.inj h
      exact .rest w s.unhit states
    | false =>
      have going : s.unhit.Going := ⟨finished, rfl⟩
      rcases next : s.stepper.next code w with ⟨e | _ | x, w', stepper⟩
      · rw [runOn_of_error met finished next] at h
        obtain rfl := Option.some.inj h
        exact .failed going next
      · rw [runOn_of_done met finished next] at h
        obtain rfl := Option.some.inj h
        exact .done going next
      · rw [runOn_of_shown met finished next] at h
        refine .shown going next ?_
        split at h
        · obtain rfl := Option.some.inj h
          exact .rest w' _ _
        · rename_i free
          have unhit : (s.unhit.see stepper x).hit = none := hit_see.trans (if_neg free)
          rcases ih h with rfl | rest
          · exact .rest w' _ _
          · exact unhit_of_hit_eq_none unhit ▸ rest

/-- More fuel keeps a finished outcome. -/
theorem runOn_mono {limit : Option Int} {fuel more : Nat} (le : fuel ≤ more)
    (h : runOn code limit fuel w s states = some o) :
    runOn code limit more w s states = some o := by
  induction fuel generalizing more w s states with
  | zero => cases h
  | succ fuel ih =>
    obtain ⟨more, rfl⟩ := Nat.exists_eq_add_of_le' (Nat.le_of_lt_succ (Nat.lt_succ_of_le le))
    rw [← Nat.add_assoc, runOn]
    rw [runOn] at h
    split at h
    · rwa [if_pos ‹_›]
    · rw [if_neg ‹_›]
      rcases step : s.stepForward code w 1 with ⟨e | new, w', s'⟩ <;> rw [step] at h
      · exact h
      · simp only at h ⊢
        split at h
        · rwa [if_pos ‹_›]
        · rw [if_neg ‹_›]
          split at h
          · rwa [if_pos ‹_›]
          · rw [if_neg ‹_›]
            exact ih (Nat.le_add_left fuel more) h

/-! ## What stays -/

/-- A property of sessions that taking steps keeps. -/
structure Kept (code : Code) (P : Session → Prop) : Prop where
  unhit : ∀ s, P s → P s.unhit
  see : ∀ s w x, P s → P (s.see (s.stepper.next code w).stepper x)
  conclude : ∀ s w, P s → P (s.conclude (s.stepper.next code w).stepper)

namespace Kept

variable {P : Session → Prop} (kept : Kept code P)
include kept

theorem of_plays (h : Plays code w s states o) (start : P s) : P o.session := by
  induction h with
  | rest => exact start
  | @done w w' s states stepper going next =>
    have := kept.conclude s w start
    rwa [next] at this
  | @failed w w' s states stepper e going next =>
    have := kept.conclude s w start
    rwa [next] at this
  | @shown w w' s states stepper x o going next rest ih =>
    have := kept.see s w x start
    rw [next] at this
    exact ih this

theorem stepForward (start : P s) (w : Workspace) (count : Int) :
    P (s.stepForward code w count).session := by
  rcases s.stepForward_cases code w count with same | plays
  · exact same ▸ start
  · exact kept.of_plays plays (kept.unhit s start)

theorem runUntilBreak (start : P s) {limit : Option Int} {fuel : Nat}
    (h : s.runUntilBreak code w limit fuel = some o) : P o.session := by
  rcases plays_runOn h with rfl | plays
  · exact start
  · exact kept.of_plays plays (kept.unhit s start)

end Kept

/-- The same session further on: it is set up in the same way, for the same code. -/
structure Continues (s t : Session) : Prop where
  options : t.options = s.options
  codeLength : t.codeLength = s.codeLength

theorem kept_continues (code : Code) (s : Session) : Kept code (Continues s) where
  unhit _ h := ⟨h.options, h.codeLength⟩
  see t w x h := by
    obtain ⟨finished, hit, same⟩ := t.exists_see_eq (t.stepper.next code w).stepper x
    rw [same]
    exact ⟨h.options, h.codeLength⟩
  conclude _ _ h := ⟨h.options, h.codeLength⟩

/-! ## The history -/

/-- The history after more states have been shown: the latest ones, as many as it may hold. -/
def historyAfter (s : Session) (shown : List Snapshot) : Array Snapshot :=
  ((s.history.toList ++ shown).rtake s.options.historyLimit.toNat).toArray

/-- The history holds no more states than it may. -/
def Windowed (s : Session) : Prop := s.history.size ≤ s.options.historyLimit.toNat

theorem toList_dropOldest {limit : Int} {history : Array Snapshot}
    (h : history.size ≤ limit.toNat + 1) :
    (dropOldest limit history).toList = history.toList.rtake limit.toNat := by
  unfold dropOldest List.rtake
  rw [Array.length_toList]
  split
  · rw [Array.toList_extract, List.extract_eq_take_drop, List.take_of_length_le (by simp)]
    obtain empty | more : history.size = 0 ∨ history.size - limit.toNat = 1 := by omega
    · simp [Array.eq_empty_of_size_eq_zero empty]
    · rw [more]
  · rw [Nat.sub_eq_zero_of_le (by omega), List.drop_zero]

theorem rtake_rtake_append {α : Type} (xs ys : List α) (n : Nat) :
    (xs.rtake n ++ ys).rtake n = (xs ++ ys).rtake n := by
  simp only [List.rtake_eq_reverse_take_reverse, List.reverse_append, List.reverse_reverse,
    List.take_append, List.take_take]
  congr 3
  omega

variable {s : Session}

theorem Windowed.size_push (h : s.Windowed) (x : Snapshot) :
    (s.history.push x).size ≤ s.options.historyLimit.toNat + 1 := by
  rw [Array.size_push]
  exact Nat.succ_le_succ h

/-- Noting one state moves the window by one. -/
theorem Windowed.dropOldest_push (h : s.Windowed) (x : Snapshot) :
    dropOldest s.options.historyLimit (s.history.push x) = s.historyAfter [x] := by
  rw [historyAfter, ← Array.toList_push, ← toList_dropOldest (h.size_push x), Array.toArray_toList]

theorem Windowed.historyAfter_nil (h : s.Windowed) : s.historyAfter [] = s.history := by
  rw [historyAfter, List.append_nil, List.rtake, Array.length_toList, Nat.sub_eq_zero_of_le h,
    List.drop_zero, Array.toArray_toList]

theorem windowed_historyAfter (s : Session) (shown : List Snapshot) :
    (s.historyAfter shown).size ≤ s.options.historyLimit.toNat := by
  simp only [historyAfter, List.size_toArray, List.rtake, List.length_drop]
  omega

theorem Windowed.see (h : s.Windowed) (stepper : Stepper) (x : Snapshot) :
    (s.see stepper x).Windowed := by
  obtain ⟨finished, hit, same⟩ := s.exists_see_eq stepper x
  rw [same, Windowed, h.dropOldest_push x]
  exact s.windowed_historyAfter [x]

theorem kept_windowed (code : Code) : Kept code Windowed where
  unhit _ h := h
  see _ _ _ h := h.see _ _
  conclude _ _ h := h

theorem Windowed.restart (h : s.Windowed) : s.restart.Windowed := by
  rw [Session.restart, record, Windowed, h.dropOldest_push]
  exact s.windowed_historyAfter _

theorem windowed_reset (s : Session) : s.reset.Windowed :=
  Windowed.restart (by simp [Windowed])

theorem windowed_start (code : Code) (o : SessionOptions) : (start code o).Windowed :=
  Windowed.restart (by simp [Windowed])

/-! ## Failures -/

theorem Plays.going_of_error {e : RunError} (h : Plays code w s states o)
    (failed : o.result = .error e) : s.Going := by
  cases h with
  | failed going next => exact going
  | shown going next rest => exact going
  | rest => cases failed
  | done => cases failed

/-- A session goes on only after a state that is neither final nor at a breakpoint. -/
theorem see_of_going {stepper : Stepper} {x : Snapshot} (h : (s.see stepper x).Going) :
    s.see stepper x = { s with stepper := stepper }.record x := by
  obtain ⟨unfinished, unhit⟩ := h
  simp only [see] at *
  split
  · simp_all
  · split
    · simp_all
    · rfl

/-- Where playing fails, the stepper has shown some states and then failed. They are put into the
history, the last one is shown, and the session is over. -/
theorem Plays.exists_shown {e : RunError} (h : Plays code w s states o)
    (failed : o.result = .error e) (windowed : s.Windowed) :
    ∃ shown : List Snapshot,
      (∀ k x, shown[k]? = some x → (Stepper.nth code k s.stepper w).yield = .ok (some x)) ∧
      (Stepper.nth code shown.length s.stepper w).yield = .error e ∧
      o.workspace = (Stepper.nth code shown.length s.stepper w).workspace ∧
      o.session = { s with
        stepper := (Stepper.nth code shown.length s.stepper w).stepper
        finished := true
        current := shown.getLastD s.current
        history := s.historyAfter shown } := by
  induction h with
  | rest => cases failed
  | done => cases failed
  | @failed w w' s states stepper e' going next =>
    obtain rfl : e' = e := Except.error.inj failed
    refine ⟨[], by simp, ?_⟩
    simp only [List.length_nil, Stepper.nth, next, windowed.historyAfter_nil, List.getLastD_nil]
    exact ⟨trivial, trivial, rfl⟩
  | @shown w w' s states stepper x o going next rest ih =>
    obtain ⟨shown, each, fails, workspace, session⟩ := ih failed (windowed.see stepper x)
    have same := see_of_going (rest.going_of_error failed)
    have further (k : Nat) : Stepper.nth code (k + 1) s.stepper w =
        Stepper.nth code k (s.see stepper x).stepper w' := by
      rw [Stepper.nth, next, same]
      rfl
    refine ⟨x :: shown, ?_, ?_, ?_, ?_⟩
    · rintro (_ | k) y hy
      · obtain rfl := Option.some.inj hy
        rw [Stepper.nth, next]
      · rw [further]
        exact each k y hy
    · rwa [List.length_cons, further]
    · rwa [List.length_cons, further]
    · rw [List.length_cons, further, session, same, List.getLastD_cons]
      have history : ({ s with stepper := stepper }.record x).historyAfter shown =
          s.historyAfter (x :: shown) := by
        simp only [historyAfter, record, windowed.dropOldest_push]
        rw [rtake_rtake_append, List.append_assoc, List.singleton_append]
      rw [history]
      rfl

/-! ## A run that is over -/

/-- Steps of a session that is over change nothing, except that the last hit is forgotten. -/
theorem stepForward_of_finished (ended : s.finished = true) (code : Code) (w : Workspace)
    (count : Int) :
    s.stepForward code w count = ⟨.ok #[], w, s⟩ ∨
      s.stepForward code w count = ⟨.ok #[], w, s.unhit⟩ := by
  unfold stepForward
  split
  · exact .inl rfl
  · exact .inr (stepOn_of_finished (s := s.unhit) ended)

theorem runUntilBreak_of_finished (ended : s.finished = true) (code : Code) (w : Workspace)
    (limit : Option Int) {fuel : Nat} (fueled : fuel ≠ 0) :
    s.runUntilBreak code w limit fuel = some ⟨.ok #[], w, s⟩ ∨
      s.runUntilBreak code w limit fuel = some ⟨.ok #[], w, s.unhit⟩ := by
  obtain ⟨fuel, rfl⟩ := Nat.exists_eq_succ_of_ne_zero fueled
  by_cases met : Met limit #[]
  · exact .inl (runOn_of_met met)
  · exact .inr (runOn_of_finished met ended)

theorem exists_stepForward_of_finished (ended : s.finished = true) (code : Code) (w : Workspace)
    (count : Int) :
    ∃ t : Session, t.finished = true ∧ s.stepForward code w count = ⟨.ok #[], w, t⟩ :=
  (stepForward_of_finished ended code w count).elim (⟨s, ended, ·⟩) (⟨s.unhit, ended, ·⟩)

theorem exists_runUntilBreak_of_finished (ended : s.finished = true) (code : Code) (w : Workspace)
    (limit : Option Int) {fuel : Nat} (fueled : fuel ≠ 0) :
    ∃ t : Session, t.finished = true ∧
      s.runUntilBreak code w limit fuel = some ⟨.ok #[], w, t⟩ :=
  (runUntilBreak_of_finished ended code w limit fueled).elim (⟨s, ended, ·⟩) (⟨s.unhit, ended, ·⟩)

end Session

end ByteTape
