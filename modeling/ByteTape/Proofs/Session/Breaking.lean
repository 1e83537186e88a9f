import ByteTape.Proofs.Session.Tracking
import Mathlib.Data.Nat.Find

/-!
# Where a run of a session stops

A run shows one state after the other, and stops at the first one that is final, is at a breakpoint,
or is the last that was asked for. Whether a session has been stopped by a breakpoint is told by the
state that it has shown last.
-/

namespace ByteTape.Session

variable {code : Code} {s t : Session} {w v : Workspace} {limit : Option Int} {fuel n : Nat}
  {o : Outcome} {x : Snapshot} {shown states : Array Snapshot}

/-! ## Sessions of a program that nothing else runs -/

/-- The sessions that operations lead to, with the workspace that they leave. An operation that
fails leaves a session too. -/
inductive Reachable (code : Code) : Session → Workspace → Prop where
  | start (o : SessionOptions) (w : Workspace) : Reachable code (start code o) w
  | stepForward {s : Session} {w : Workspace} (before : Reachable code s w) (count : Int) :
      Reachable code (s.stepForward code w count).session (s.stepForward code w count).workspace
  | runUntilBreak {s : Session} {w : Workspace} {limit : Option Int} {fuel : Nat} {o : Outcome}
      (before : Reachable code s w) (ran : s.runUntilBreak code w limit fuel = some o) :
      Reachable code o.session o.workspace
  | breakpoints {s : Session} {w : Workspace} (before : Reachable code s w) (b : Breakpoints) :
      Reachable code { s with breakpoints := b } w
  | unhit {s : Session} {w : Workspace} (before : Reachable code s w) : Reachable code s.unhit w
  | restart {s : Session} {w : Workspace} (before : Reachable code s w) :
      Reachable code s.restart w
  | reset {s : Session} {w : Workspace} (before : Reachable code s w) : Reachable code s.reset w

/-- Every one of them tracks its run. -/
theorem Reachable.tracks (h : Reachable code s w) : s.Tracks code w := by
  induction h with
  | start o w => exact tracks_start code o w
  | stepForward before count ih => exact (ih.stepForward count).1
  | runUntilBreak before ran ih => exact (ih.runUntilBreak ran).1
  | breakpoints before b ih => exact ih.mark b _
  | unhit before ih => exact ih.mark _ none
  | restart before ih => exact tracks_restart ih.history _
  | reset before ih => exact tracks_reset _ code _

/-- A run of a session, up to a breakpoint, the end or the limit, comes to an outcome. -/
def Runs (s : Session) (code : Code) (w : Workspace) (limit : Option Int) (o : Outcome) : Prop :=
  ∃ fuel, s.runUntilBreak code w limit fuel = some o

/-- A session has one outcome of a run. -/
theorem Runs.unique {o' : Outcome} (h : s.Runs code w limit o) (h' : s.Runs code w limit o') :
    o = o' := by
  obtain ⟨fuel, ran⟩ := h
  obtain ⟨more, ran'⟩ := h'
  exact Option.some.inj <| (runOn_mono (le_max_left fuel more) ran).symm.trans
    (runOn_mono (le_max_right fuel more) ran')

/-! ## The first state to stop at -/

/-- What the stepper of a session shows after `n` states more. -/
def upcoming (s : Session) (code : Code) (w : Workspace) (n : Nat) :
    Except RunError (Option Snapshot) :=
  (Stepper.nth code n s.stepper w).yield

/-- A run stops at a state, which is the `n`-th one that it shows: the final one, one at a
breakpoint, or the last that was asked for. -/
def Stops (s : Session) (limit : Option Int) (n : Nat) (x : Snapshot) : Prop :=
  x.instruction = none ∨ (x.pc : Int) ∈ s.breakpoints ∨ limit = some (n : Int)

/-- After `n` states there is another one, at which no run stops. -/
def Passes (s : Session) (code : Code) (w : Workspace) (limit : Option Int) (n : Nat) : Prop :=
  ∃ x, s.upcoming code w n = .ok (some x) ∧ ¬ s.Stops limit (n + 1) x

/-- States are those which the stepper of a session shows next. -/
def Upcoming (s : Session) (code : Code) (w : Workspace) (states : Array Snapshot) : Prop :=
  ∀ k < states.size, s.upcoming code w k = .ok states[k]?

/-- The upcoming states as far as the first one at which a run stops. -/
structure FirstStop (s : Session) (code : Code) (w : Workspace) (limit : Option Int)
    (states : Array Snapshot) : Prop where
  upcoming : s.Upcoming code w states
  passes : ∀ k, k + 1 < states.size → s.Passes code w limit k
  stops : ∃ n x, states.size = n + 1 ∧ states[n]? = some x ∧ s.Stops limit (n + 1) x

/-- What a run answers: the states as far as the first one to stop at, or an error that comes before
any such state. -/
inductive Answers (s : Session) (code : Code) (w : Workspace) (limit : Option Int) :
    Except RunError (Array Snapshot) → Prop where
  | stops {states : Array Snapshot} (first : s.FirstStop code w limit states) :
      Answers s code w limit (.ok states)
  | fails {n : Nat} {e : RunError} (passes : ∀ k < n, s.Passes code w limit k)
      (fails : s.upcoming code w n = .error e) : Answers s code w limit (.error e)

theorem Upcoming.push (h : s.Upcoming code w states)
    (next : s.upcoming code w states.size = .ok (some x)) :
    s.Upcoming code w (states.push x) := by
  intro k lt
  rw [Array.size_push] at lt
  rcases Nat.lt_succ_iff_lt_or_eq.1 lt with before | rfl
  · rw [h k before, Array.getElem?_push_lt before, Array.getElem?_eq_getElem before]
  · rw [next, Array.getElem?_push_size]

/-- So many upcoming states are no others. -/
theorem Upcoming.eq_of_size_eq (h : s.Upcoming code w states) (h' : s.Upcoming code w shown)
    (size : states.size = shown.size) : states = shown := by
  refine Array.ext_getElem? fun k => ?_
  by_cases lt : k < states.size
  · exact Except.ok.inj ((h k lt).symm.trans (h' k (size ▸ lt)))
  · rw [Array.getElem?_eq_none (Nat.le_of_not_lt lt),
      Array.getElem?_eq_none (size ▸ Nat.le_of_not_lt lt)]

/-! ## Running up to it -/

/-- A run has shown some states and stopped at none of them. It goes on from another session. -/
structure Passing (s : Session) (code : Code) (w : Workspace) (limit : Option Int)
    (shown : Array Snapshot) (t : Session) (v : Workspace) : Prop where
  tracks : t.Tracks code v
  unfinished : t.finished = false
  breakpoints : t.breakpoints = s.breakpoints
  short : ¬ Met limit shown
  further : ∀ k, t.upcoming code v k = s.upcoming code w (shown.size + k)
  upcoming : s.Upcoming code w shown
  passes : ∀ k < shown.size, s.Passes code w limit k
  goes : ∀ fuel, s.runUntilBreak code w limit (fuel + shown.size) = runOn code limit fuel v t shown

namespace Passing

/-- A run that has not begun has shown nothing. -/
theorem start (tracks : s.Tracks code w) (unfinished : s.finished = false)
    (short : ¬ Met limit #[]) : s.Passing code w limit #[] s w where
  tracks := tracks
  unfinished := unfinished
  breakpoints := rfl
  short := short
  further k := by rw [Array.size_empty, Nat.zero_add]
  upcoming k lt := absurd lt k.not_lt_zero
  passes k lt := absurd lt k.not_lt_zero
  goes _ := rfl

/-- The next state is there, or else an error. -/
theorem next_cases (h : s.Passing code w limit shown t v) :
    (∃ x v' stepper, t.stepper.next code v = ⟨.ok (some x), v', stepper⟩ ∧
        s.upcoming code w shown.size = .ok (some x)) ∨
      ∃ e v' stepper, t.stepper.next code v = ⟨.error e, v', stepper⟩ ∧
        s.upcoming code w shown.size = .error e := by
  have same : (t.stepper.next code v).yield = s.upcoming code w shown.size := h.further 0
  rcases next : t.stepper.next code v with ⟨e | _ | x, v', stepper⟩
  · exact .inr ⟨e, v', stepper, rfl, by rw [← same, next]⟩
  · exact absurd next (h.tracks.next_ne h.unfinished)
  · exact .inl ⟨x, v', stepper, rfl, by rw [← same, next]⟩

/-- At a state where it does not stop a run goes on. -/
theorem push (h : s.Passing code w limit shown t v) (passes : s.Passes code w limit shown.size) :
    ∃ x u v', s.Passing code w limit (shown.push x) u v' := by
  obtain ⟨x, here, on⟩ := passes
  obtain ⟨y, v', stepper, next, same⟩ | ⟨e, v', stepper, -, fails⟩ := h.next_cases
  · obtain rfl : y = x := Option.some.inj (Except.ok.inj (same.symm.trans here))
    have named : y.instruction ≠ none := fun final => on (.inl final)
    have free : (y.pc : Int) ∉ t.breakpoints := fun stop => on (.inr (.inl (h.breakpoints ▸ stop)))
    refine ⟨y, t.unhit.see stepper y, v', ?_⟩
    refine ⟨((h.tracks.mark t.breakpoints none).see h.unfinished next).2, ?_, ?_, ?_, ?_,
      h.upcoming.push here, ?_, ?_⟩
    · simp [unhit, h.unfinished, Option.isNone_eq_false_iff, Option.isSome_iff_ne_none, named]
    · exact breakpoints_see.trans h.breakpoints
    · rintro ⟨most, rfl, le⟩
      rw [Array.size_push] at le
      refine on (.inr (.inr (congrArg some ?_)))
      by_contra fewer
      exact h.short ⟨most, rfl, by omega⟩
    · intro k
      have later := h.further (k + 1)
      rw [Session.upcoming, Stepper.nth, next] at later
      rw [Session.upcoming, stepper_see, later, Array.size_push, Nat.add_assoc, Nat.add_comm 1 k]
    · intro k lt
      rw [Array.size_push] at lt
      rcases Nat.lt_succ_iff_lt_or_eq.1 lt with before | rfl
      · exact h.passes k before
      · exact ⟨y, here, on⟩
    · intro fuel
      have goes := h.goes (fuel + 1)
      rw [runOn_of_shown h.short h.unfinished next, if_neg fun hit => free hit.2] at goes
      rw [← goes, Array.size_push, Nat.add_assoc, Nat.add_comm 1 shown.size]
  · cases fails.symm.trans here

/-- A run that fails next returns the error. -/
theorem exists_of_error (h : s.Passing code w limit shown t v) {e : RunError}
    (fails : s.upcoming code w shown.size = .error e) :
    ∃ o, s.Runs code w limit o ∧ o.result = .error e := by
  obtain ⟨y, v', stepper, -, same⟩ | ⟨e', v', stepper, next, same⟩ := h.next_cases
  · cases fails.symm.trans same
  · obtain rfl : e' = e := Except.error.inj (same.symm.trans fails)
    have goes := h.goes 1
    rw [runOn_of_error h.short h.unfinished next] at goes
    exact ⟨_, ⟨_, goes⟩, rfl⟩

/-- A run that stops at the next state returns what it has shown with that state. -/
theorem exists_of_stops (h : s.Passing code w limit shown t v)
    (here : s.upcoming code w shown.size = .ok (some x))
    (stops : s.Stops limit (shown.size + 1) x) :
    ∃ o, s.Runs code w limit o ∧ o.result = .ok (shown.push x) ∧
      o.session.hit =
        if x.instruction ≠ none ∧ (x.pc : Int) ∈ s.breakpoints then some x.pc else none := by
  obtain ⟨y, v', stepper, next, same⟩ | ⟨e, v', stepper, -, fails⟩ := h.next_cases
  · obtain rfl : y = x := Option.some.inj (Except.ok.inj (same.symm.trans here))
    -- One round shows the state, and unless that is a hit the next one finds nothing left to do.
    have goes := h.goes 2
    rw [runOn_of_shown h.short h.unfinished next, h.breakpoints] at goes
    have hit : (t.unhit.see stepper y).hit =
        if y.instruction ≠ none ∧ (y.pc : Int) ∈ t.breakpoints then some y.pc else none := hit_see
    rw [h.breakpoints] at hit
    by_cases stop : y.instruction ≠ none ∧ (y.pc : Int) ∈ s.breakpoints
    · rw [if_pos stop] at goes
      exact ⟨_, ⟨_, goes⟩, rfl, hit⟩
    · rw [if_neg stop] at goes hit ⊢
      by_cases met : Met limit (shown.push y)
      · rw [runOn_of_met met] at goes
        exact ⟨_, ⟨_, goes⟩, rfl, hit⟩
      · have final : y.instruction = none := by
          rcases stops with final | here | last
          · exact final
          · by_contra named
            exact stop ⟨named, here⟩
          · exact absurd ⟨_, last, by simp⟩ met
        have ended : (t.unhit.see stepper y).finished = true := by simp [final]
        rw [runOn_of_finished met ended] at goes
        exact ⟨_, ⟨_, goes⟩, rfl, rfl⟩
  · cases fails.symm.trans here

end Passing

/-- As long as a run does not stop it goes on. -/
theorem exists_passing (tracks : s.Tracks code w) (unfinished : s.finished = false)
    (short : ¬ Met limit #[]) (passes : ∀ k < n, s.Passes code w limit k) :
    ∃ shown t v, shown.size = n ∧ s.Passing code w limit shown t v := by
  induction n with
  | zero => exact ⟨#[], s, w, rfl, .start tracks unfinished short⟩
  | succ n ih =>
    obtain ⟨shown, t, v, rfl, passing⟩ := ih fun k lt => passes k (Nat.lt_succ_of_lt lt)
    obtain ⟨x, u, v', further⟩ := passing.push (passes _ (Nat.lt_succ_self _))
    exact ⟨_, u, v', Array.size_push x, further⟩

section Unfinished

variable (tracks : s.Tracks code w) (unfinished : s.finished = false) (short : ¬ Met limit #[])
include tracks unfinished short

/-- A run that stops nowhere does not return. -/
theorem not_runs_of_passes (passes : ∀ k, s.Passes code w limit k) : ¬ s.Runs code w limit o := by
  rintro ⟨fuel, ran⟩
  obtain ⟨shown, t, v, rfl, passing⟩ :=
    exists_passing (n := fuel) tracks unfinished short fun k _ => passes k
  rw [← Nat.zero_add shown.size, passing.goes] at ran
  cases ran

/-- A run returns the states up to the first one to stop at. -/
theorem FirstStop.exists_runs (h : s.FirstStop code w limit states) :
    ∃ o, s.Runs code w limit o ∧ o.result = .ok states ∧
      ∀ x, states.back? = some x → o.session.hit =
        if x.instruction ≠ none ∧ (x.pc : Int) ∈ s.breakpoints then some x.pc else none := by
  obtain ⟨n, x, size, last, stops⟩ := h.stops
  have before (k : Nat) (lt : k < n) : s.Passes code w limit k := h.passes k (by omega)
  obtain ⟨shown, t, v, rfl, passing⟩ := exists_passing tracks unfinished short before
  have here : s.upcoming code w shown.size = .ok (some x) :=
    (h.upcoming shown.size (by omega)).trans (congrArg _ last)
  have same : states = shown.push x :=
    h.upcoming.eq_of_size_eq (passing.upcoming.push here) (by rw [size, Array.size_push])
  obtain ⟨o, runs, result, hit⟩ := passing.exists_of_stops here stops
  refine ⟨o, runs, same ▸ result, fun y hy => ?_⟩
  rw [same, Array.back?_push] at hy
  exact Option.some.inj hy ▸ hit

/-- A run that has an answer comes to it. -/
theorem Answers.exists_runs {r : Except RunError (Array Snapshot)}
    (h : s.Answers code w limit r) : ∃ o, s.Runs code w limit o ∧ o.result = r := by
  cases h with
  | stops first =>
    obtain ⟨o, runs, result, -⟩ := first.exists_runs tracks unfinished short
    exact ⟨o, runs, result⟩
  | fails passes fails =>
    obtain ⟨shown, t, v, rfl, passing⟩ := exists_passing tracks unfinished short passes
    exact passing.exists_of_error fails

/-- A run stops nowhere, or it has an answer. -/
theorem passes_or_answers :
    (∀ n, s.Passes code w limit n) ∨ ∃ r, s.Answers code w limit r := by
  classical
  by_cases never : ∀ n, s.Passes code w limit n
  · exact .inl never
  · right
    have some := not_forall.1 never
    have passes (k : Nat) (lt : k < Nat.find some) : s.Passes code w limit k :=
      not_not.1 (Nat.find_min some lt)
    have ends := Nat.find_spec some
    obtain ⟨shown, t, v, size, passing⟩ := exists_passing tracks unfinished short passes
    rw [← size] at passes ends
    obtain ⟨x, -, -, -, here⟩ | ⟨e, -, -, -, fails⟩ := passing.next_cases
    · have stops : s.Stops limit (shown.size + 1) x := by
        by_contra on
        exact ends ⟨x, here, on⟩
      have first : s.FirstStop code w limit (shown.push x) := by
        refine ⟨passing.upcoming.push here, fun k lt => passes k ?_,
          shown.size, x, Array.size_push x, Array.getElem?_push_size, stops⟩
        rw [Array.size_push] at lt
        exact Nat.lt_of_succ_lt_succ lt
      exact ⟨_, .stops first⟩
    · exact ⟨_, .fails passes fails⟩

theorem exists_runs_iff {r : Except RunError (Array Snapshot)} :
    (∃ o, s.Runs code w limit o ∧ o.result = r) ↔ s.Answers code w limit r := by
  refine ⟨?_, fun answers => answers.exists_runs tracks unfinished short⟩
  rintro ⟨o, runs, rfl⟩
  obtain passes | ⟨r, answers⟩ := passes_or_answers tracks unfinished short
  · exact absurd runs (not_runs_of_passes tracks unfinished short passes)
  · obtain ⟨o', runs', result⟩ := answers.exists_runs tracks unfinished short
    rwa [runs.unique runs', result]

theorem forall_not_runs_iff :
    (∀ o, ¬ s.Runs code w limit o) ↔ ∀ n, s.Passes code w limit n := by
  refine ⟨fun never => ?_, fun passes o => not_runs_of_passes tracks unfinished short passes⟩
  obtain passes | ⟨r, answers⟩ := passes_or_answers tracks unfinished short
  · exact passes
  · obtain ⟨o, runs, -⟩ := answers.exists_runs tracks unfinished short
    exact absurd runs (never o)

end Unfinished

/-- A session that is over, or is asked for nothing, returns nothing. -/
theorem exists_runs_of_idle (code : Code) (w : Workspace)
    (idle : s.finished = true ∨ Met limit #[]) :
    ∃ o, s.Runs code w limit o ∧ o.result = .ok #[] := by
  by_cases met : Met limit #[]
  · exact ⟨_, ⟨1, runOn_of_met met⟩, rfl⟩
  · exact ⟨_, ⟨1, runOn_of_finished met (idle.resolve_right met)⟩, rfl⟩

/-- What is noted as a hit can be told from the last state. -/
theorem Tracks.hit_of_runs (tracks : s.Tracks code w) (runs : s.Runs code w limit o)
    (result : o.result = .ok states) (last : states.back? = some x) :
    o.session.hit =
      if x.instruction ≠ none ∧ (x.pc : Int) ∈ s.breakpoints then some x.pc else none := by
  by_cases idle : s.finished = true ∨ Met limit #[]
  · obtain ⟨o', runs', result'⟩ := exists_runs_of_idle code w idle
    obtain rfl := runs.unique runs'
    obtain rfl : states = #[] := Except.ok.inj (result.symm.trans result')
    cases last
  · obtain ⟨going, short⟩ := not_or.1 idle
    have unfinished := Bool.eq_false_iff.2 going
    cases (exists_runs_iff tracks unfinished short).1 ⟨o, runs, result⟩ with
    | stops first =>
      obtain ⟨o', runs', -, hit⟩ := first.exists_runs tracks unfinished short
      obtain rfl := runs.unique runs'
      exact hit x last

/-- A run of a session stops at the first state where there is something to stop at, and nowhere
else. If the session is over, or no state is asked for, then none is returned. Otherwise those
states are returned that the stepper shows up to the first one that is final, is at a breakpoint, or
is the last that was asked for. If the stepper fails before that, so does the run, and if it shows
states for ever and none of them is such a one the run does not return. After some states a hit is
noted if the last of them is not the final one and is at a breakpoint. -/
theorem runUntilBreak_stops_first (h : Reachable code s w) (limit : Option Int) :
    let idle := s.finished = true ∨ ∃ most : Int, limit = some most ∧ most ≤ 0
    (idle → ∀ r, (∃ o, s.Runs code w limit o ∧ o.result = r) ↔ r = .ok #[]) ∧
    (¬ idle →
      (∀ r, (∃ o, s.Runs code w limit o ∧ o.result = r) ↔ s.Answers code w limit r) ∧
      ((∀ o, ¬ s.Runs code w limit o) ↔ ∀ n, s.Passes code w limit n)) ∧
    ∀ o states x, s.Runs code w limit o → o.result = .ok states → states.back? = some x →
      o.session.hit =
        if x.instruction ≠ none ∧ (x.pc : Int) ∈ s.breakpoints then some x.pc else none := by
  intro idle
  have tracks := h.tracks
  refine ⟨?_, ?_, fun o states x => tracks.hit_of_runs⟩
  · intro rests r
    obtain ⟨o, runs, result⟩ := exists_runs_of_idle code w rests
    constructor
    · rintro ⟨o', runs', rfl⟩
      rw [← runs.unique runs', result]
    · rintro rfl
      exact ⟨o, runs, result⟩
  · intro busy
    obtain ⟨going, short⟩ := not_or.1 busy
    have unfinished := Bool.eq_false_iff.2 going
    exact ⟨fun r => exists_runs_iff tracks unfinished short,
      forall_not_runs_iff tracks unfinished short⟩

/-- A breakpoint at the end of the code is hit by the last instruction. The next run stops at the
final state, which is at the same place and no hit. -/
theorem runUntilBreak_stops_first_at_end : ∃ p s w x,
    Program.ofCommands [.motion .increment, .motion .increment, .output] = .ok p ∧
      Reachable p.code s w ∧ s.finished = false ∧ (3 : Int) ∈ s.breakpoints ∧ s.hit = some 3 ∧
      s.FirstStop p.code w none #[x] ∧ x.instruction = none ∧ x.pc = 3 ∧
      ∃ o, s.Runs p.code w none o ∧ o.result = .ok #[x] ∧ o.session.hit = none := by
  obtain ⟨p, hp⟩ : ∃ p, Program.ofCommands [.motion .increment, .motion .increment, .output] =
    .ok p := ⟨_, rfl⟩
  have code := Program.ofCode_code hp
  let s := (start p.code {}).addBreakpoint 3
  have fresh : Reachable p.code s {} := (Reachable.start {} {}).breakpoints _
  obtain ⟨o, ran, unfinished, points, hit, x, final, pc, shown⟩ : ∃ o,
      s.runUntilBreak p.code {} none 3 = some o ∧ o.session.finished = false ∧
      o.session.breakpoints = ⟨[3]⟩ ∧ o.session.hit = some 3 ∧
      ∃ x, x.instruction = none ∧ x.pc = 3 ∧
        o.session.upcoming p.code o.workspace 0 = .ok (some x) := by
    obtain ⟨_, _⟩ := p
    subst code
    exact ⟨_, rfl, rfl, rfl, rfl, _, rfl, rfl, rfl⟩
  have reachable := fresh.runUntilBreak ran
  obtain ⟨-, stops, hits⟩ := runUntilBreak_stops_first reachable none
  have first : o.session.FirstStop p.code o.workspace none #[x] := by
    refine ⟨?_, by simp, 0, x, rfl, rfl, .inl final⟩
    intro k lt
    obtain rfl := Nat.lt_one_iff.1 lt
    exact shown
  obtain ⟨o', runs, result⟩ := ((stops (by simp [unfinished])).1 _).2 (.stops first)
  have here : (3 : Int) ∈ o.session.breakpoints := by
    rw [points]
    decide
  have hit' := hits o' _ x runs result rfl
  refine ⟨p, o.session, o.workspace, x, hp, reachable, unfinished, here, hit, first, final, pc, o',
    runs, result, ?_⟩
  simpa [final] using hit'

end ByteTape.Session
