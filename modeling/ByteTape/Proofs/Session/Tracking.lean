import ByteTape.Proofs.Counting
import ByteTape.Proofs.Session.Playing

/-!
# Sessions and their runs

A session goes through the run that it is set up for, and its current state tells how many
instructions of that run have been completed. Everything it has in its history, and everything it
answers, was a state of the run. So a session that is over stands where the run has ended, and one
whose run ends can be run to the end.
-/

namespace ByteTape.Session

/-- The run that a session is set up for, after some turns. -/
def turned (s : Session) (code : Code) (n : Nat) : (Machine × Buffers) ⊕ Finish Buffers :=
  after (Buffers.device.next code s.options.limit) n ({}, ⟨s.options.input, []⟩)

/-- How far a session has come with its run, and with a workspace. The run has not begun, or goes on
where the stepper stands, or has ended. -/
inductive Stands (code : Code) (s : Session) : Workspace → Prop where
  | fresh (w : Workspace) (stepper : s.stepper = freshStepper s.options)
      (unfinished : s.finished = false) (step : s.current.step = 0) : Stands code s w
  | running {x : Machine × Buffers} (turned : s.turned code s.current.step = .inl x)
      (stepper : s.stepper = (freshStepper s.options).reached x)
      (unfinished : s.finished = false) : Stands code s x.1.workspace
  | ended {x : Machine × Buffers} {f : Finish Buffers} (w : Workspace)
      (turned : s.turned code s.current.step = .inl x)
      (last : Buffers.device.next code s.options.limit x = .inr f)
      (finished : s.finished = true) : Stands code s w

/-- The run of a session comes to as many steps as states tell. -/
def Passed (s : Session) (code : Code) (states : Array Snapshot) : Prop :=
  ∀ x ∈ states, ∃ y, s.turned code x.step = .inl y

/-- A session tracks its run. -/
structure Tracks (code : Code) (s : Session) (w : Workspace) : Prop where
  stands : s.Stands code w
  history : s.Passed code s.history

variable {code : Code} {s : Session} {w w' : Workspace} {x : Snapshot} {stepper : Stepper}
  {states : Array Snapshot} {o : Outcome}

@[simp] theorem options_see : (s.see stepper x).options = s.options := by
  obtain ⟨_, _, same⟩ := s.exists_see_eq stepper x
  rw [same]

@[simp] theorem codeLength_see : (s.see stepper x).codeLength = s.codeLength := by
  obtain ⟨_, _, same⟩ := s.exists_see_eq stepper x
  rw [same]

@[simp] theorem stepper_see : (s.see stepper x).stepper = stepper := by
  obtain ⟨_, _, same⟩ := s.exists_see_eq stepper x
  rw [same]

@[simp] theorem current_see : (s.see stepper x).current = x := by
  obtain ⟨_, _, same⟩ := s.exists_see_eq stepper x
  rw [same]

@[simp] theorem finished_see :
    (s.see stepper x).finished = (s.finished || x.instruction.isNone) := by
  simp only [see]
  split
  · simp_all
  · split <;> simp_all [record]

@[simp] theorem breakpoints_see : (s.see stepper x).breakpoints = s.breakpoints := by
  obtain ⟨_, _, same⟩ := s.exists_see_eq stepper x
  rw [same]

theorem mem_of_mem_dropOldest {limit : Int} {y : Snapshot} (h : y ∈ dropOldest limit states) :
    y ∈ states := by
  unfold dropOldest at h
  split at h
  · obtain ⟨k, hk, rfl⟩ := Array.mem_extract_iff_getElem.1 h
    exact Array.getElem_mem _
  · exact h

theorem mem_of_mem_history_see {y : Snapshot} (h : y ∈ (s.see stepper x).history) :
    y = x ∨ y ∈ s.history := by
  obtain ⟨_, _, same⟩ := s.exists_see_eq stepper x
  rw [same] at h
  exact (Array.mem_push.1 (mem_of_mem_dropOldest h)).symm

/-- The run is where the current state says. -/
theorem Stands.exists_turned (h : s.Stands code w) :
    ∃ x, s.turned code s.current.step = .inl x := by
  cases h with
  | fresh w stepper unfinished step => exact ⟨_, by rw [step]; rfl⟩
  | running turned stepper unfinished => exact ⟨_, turned⟩
  | ended w turned last finished => exact ⟨_, turned⟩

/-- A step of a session takes the next turn of its run. -/
theorem Stands.next_cases (h : s.Stands code w) (going : s.finished = false) :
    ∃ x, s.turned code s.current.step = .inl x ∧
      ((∃ y, Buffers.device.next code s.options.limit x = .inl y ∧
          s.stepper.next code w =
            ⟨.ok (some (y.1.snapshot code s.options.radius (code.mnemonic? x.1.pc) y.2.written)),
              y.1.workspace, (freshStepper s.options).reached y⟩) ∨
        ∃ f, Buffers.device.next code s.options.limit x = .inr f ∧
          s.stepper.next code w =
            ⟨f.result.map fun _ =>
                some (f.machine.snapshot code s.options.radius none f.device.written),
              ⟨f.machine.tape, x.1.steps⟩, { freshStepper s.options with stage := .closed }⟩) := by
  obtain ⟨x, turned, same⟩ : ∃ x, s.turned code s.current.step = .inl x ∧
      s.stepper.next code w = ((freshStepper s.options).reached x).next code x.1.workspace := by
    cases h with
    | fresh w stepper unfinished step =>
      refine ⟨({}, ⟨s.options.input, []⟩), by rw [step]; rfl, ?_⟩
      rw [stepper]
      exact Stepper.next_of_fresh rfl w
    | running turned stepper unfinished => exact ⟨_, turned, by rw [stepper]⟩
    | ended w turned last finished => simp [finished] at going
  refine ⟨x, turned, ?_⟩
  rw [same]
  cases next : Buffers.device.next code s.options.limit x with
  | inl y => exact .inl ⟨y, rfl, Stepper.next_reached_of_inl next⟩
  | inr f => exact .inr ⟨f, rfl, Stepper.next_reached_of_inr next⟩

theorem turned_see (n : Nat) : (s.see stepper x).turned code n = s.turned code n := by
  rw [turned, turned, options_see]

theorem turned_succ {n : Nat} {y z : Machine × Buffers} (h : s.turned code n = .inl y)
    (next : Buffers.device.next code s.options.limit y = .inl z) :
    s.turned code (n + 1) = .inl z :=
  (after_add_of_inl h 1).trans (after_one_of_inl next)

/-- What a session notes of a state that its run has come to. -/
theorem Passed.see (h : s.Passed code s.history) (passed : ∃ y, s.turned code x.step = .inl y) :
    (s.see stepper x).Passed code (s.see stepper x).history := by
  intro y hy
  rw [turned_see]
  rcases mem_of_mem_history_see hy with rfl | before
  · exact passed
  · exact h y before

theorem Passed.push (h : s.Passed code states) (passed : ∃ y, s.turned code x.step = .inl y) :
    s.Passed code (states.push x) := by
  intro y hy
  rcases Array.mem_push.1 hy with before | rfl
  · exact h y before
  · exact passed

/-- A state that is shown is one that the run comes to, and the session is there afterwards. -/
theorem Tracks.see (h : s.Tracks code w) (going : s.finished = false)
    (next : s.stepper.next code w = ⟨.ok (some x), w', stepper⟩) :
    (∃ y, s.turned code x.step = .inl y) ∧ (s.see stepper x).Tracks code w' := by
  obtain ⟨y, turned, ⟨z, step, shown⟩ | ⟨f, last, shown⟩⟩ := h.stands.next_cases going
  · obtain ⟨yield, rfl, rfl⟩ := Stepped.mk.inj (next.symm.trans shown)
    obtain rfl := Option.some.inj (Except.ok.inj yield)
    have further := turned_succ turned step
    have count : z.1.steps = s.current.step + 1 := Buffers.steps_eq_of_after further
    have named := Stepper.mnemonic?_ne_none (s := freshStepper s.options) step
    have passed : s.turned code z.1.steps = .inl z := count ▸ further
    refine ⟨⟨z, passed⟩, ?_, h.history.see ⟨z, passed⟩⟩
    refine .running ?_ ?_ ?_
    · rwa [turned_see, current_see]
    · rw [stepper_see, options_see]
    · simp [going, Machine.snapshot, Option.isNone_eq_false_iff, Option.isSome_iff_ne_none, named]
  · obtain ⟨yield, rfl, rfl⟩ := Stepped.mk.inj (next.symm.trans shown)
    cases result : f.result with
    | error e => simp [result, Except.map] at yield
    | ok done =>
      obtain rfl : x = f.machine.snapshot code s.options.radius none f.device.written := by
        simpa [result, Except.map] using yield
      have count : f.machine.steps = s.current.step := by
        rw [(Device.ends_of_next last).machine_eq, Buffers.steps_eq_of_after turned]
      have passed : s.turned code f.machine.steps = .inl y := count ▸ turned
      refine ⟨⟨y, passed⟩, ?_, h.history.see ⟨y, passed⟩⟩
      refine .ended _ (x := y) (f := f) ?_ ?_ ?_
      · rwa [turned_see, current_see]
      · rwa [options_see]
      · simp [Machine.snapshot]

/-- A step that fails ends the session where its run ends. -/
theorem Tracks.conclude (h : s.Tracks code w) (going : s.finished = false) {e : RunError}
    (next : s.stepper.next code w = ⟨.error e, w', stepper⟩) :
    (s.conclude stepper).Tracks code w' := by
  obtain ⟨y, turned, ⟨z, step, shown⟩ | ⟨f, last, shown⟩⟩ := h.stands.next_cases going
  · cases next.symm.trans shown
  · exact ⟨.ended _ turned last rfl, h.history⟩

/-- A session that has steps left never finds its stepper closed. -/
theorem Tracks.next_ne (h : s.Tracks code w) (going : s.finished = false) :
    s.stepper.next code w ≠ ⟨.ok none, w', stepper⟩ := by
  intro next
  obtain ⟨y, -, ⟨z, -, shown⟩ | ⟨f, -, shown⟩⟩ := h.stands.next_cases going
  · cases next.symm.trans shown
  · obtain ⟨yield, -⟩ := Stepped.mk.inj (next.symm.trans shown)
    cases result : f.result <;> simp [result, Except.map] at yield

/-- A session that is played goes on tracking its run, and answers states of it. -/
theorem Plays.tracks (h : Plays code w s states o) (tracks : s.Tracks code w)
    (passed : s.Passed code states) :
    o.session.Tracks code o.workspace ∧
      ∀ states', o.result = .ok states' → s.Passed code states' := by
  induction h with
  | rest w s states =>
    refine ⟨tracks, fun states' same => ?_⟩
    exact Except.ok.inj same ▸ passed
  | done going next => exact absurd next (tracks.next_ne going.unfinished)
  | failed going next => exact ⟨tracks.conclude going.unfinished next, nofun⟩
  | @shown w w' s states stepper x o going next rest ih =>
    obtain ⟨here, tracks'⟩ := tracks.see going.unfinished next
    have passed' : (s.see stepper x).Passed code (states.push x) := by
      intro y hy
      rw [turned_see]
      exact passed.push here y hy
    obtain ⟨after, answered⟩ := ih tracks' passed'
    refine ⟨after, fun states' same y hy => ?_⟩
    have again : (s.see stepper x).turned code y.step = s.turned code y.step := turned_see _
    exact again ▸ answered states' same y hy

/-- Where a session stops, and whether it did, is of no concern to its run. -/
theorem Tracks.mark (h : s.Tracks code w) (b : Breakpoints) (hit : Option Nat) :
    ({ s with breakpoints := b, hit := hit } : Session).Tracks code w := by
  refine ⟨?_, h.history⟩
  cases h.stands with
  | fresh w stepper unfinished step => exact .fresh w stepper unfinished step
  | running turned stepper unfinished => exact .running turned stepper unfinished
  | ended w turned last finished => exact .ended w turned last finished

theorem passed_nil (s : Session) (code : Code) : s.Passed code #[] := by
  simp [Passed]

theorem tracks_restart (passed : s.Passed code s.history) (w : Workspace) :
    s.restart.Tracks code w := by
  refine ⟨.fresh w rfl rfl rfl, fun y hy => ?_⟩
  exact passed.push ⟨_, rfl⟩ y (mem_of_mem_dropOldest hy)

theorem tracks_reset (s : Session) (code : Code) (w : Workspace) : s.reset.Tracks code w :=
  tracks_restart (passed_nil _ code) w

theorem tracks_start (code : Code) (o : SessionOptions) (w : Workspace) :
    (start code o).Tracks code w :=
  tracks_restart (passed_nil _ code) w

theorem Tracks.stepForward (h : s.Tracks code w) (count : Int) :
    (s.stepForward code w count).session.Tracks code (s.stepForward code w count).workspace ∧
      ∀ states, (s.stepForward code w count).result = .ok states → s.Passed code states := by
  rcases s.stepForward_cases code w count with same | plays
  · rw [same]
    refine ⟨h, fun states none => ?_⟩
    exact Except.ok.inj none ▸ s.passed_nil code
  · exact plays.tracks (h.mark s.breakpoints none) (passed_nil _ code)

theorem Tracks.runUntilBreak (h : s.Tracks code w) {limit : Option Int} {fuel : Nat}
    (ran : s.runUntilBreak code w limit fuel = some o) :
    o.session.Tracks code o.workspace ∧ ∀ states, o.result = .ok states → s.Passed code states := by
  rcases plays_runOn ran with rfl | plays
  · refine ⟨h, fun states none => ?_⟩
    exact Except.ok.inj none ▸ s.passed_nil code
  · exact plays.tracks (h.mark s.breakpoints none) (passed_nil _ code)

/-! ## Where the run ends -/

section Ends

variable {p : Program} {r : Report}

/-- No state that the run comes to counts more steps than the whole run without a limit. -/
theorem le_of_turned (reported : p.Reports s.options.input none r) {n : Nat}
    (h : ∃ y, s.turned p.code n = .inl y) : n ≤ r.workspace.steps := by
  obtain ⟨y, hy⟩ := h
  exact reported.goes_on_iff.1 ⟨y, Device.after_unlimited hy⟩

/-- A session that is over stands at the end of its run, unless its limit has cut that short. -/
theorem Tracks.step_eq (h : s.Tracks p.code w) (finished : s.finished = true)
    (reported : p.Reports s.options.input s.options.limit r) :
    s.current.step = r.workspace.steps := by
  cases h.stands with
  | fresh w stepper unfinished => simp [finished] at unfinished
  | running turned stepper unfinished => simp [finished] at unfinished
  | @ended x f w turned last =>
    obtain rfl := reported.unique (Program.reports_of_last turned last)
    rw [Finish.report, (Device.ends_of_next last).machine_eq, Buffers.steps_eq_of_after turned]

/-- The next step of a session whose run ends: a state after an instruction, the final state where
the run is done, or the error that it fails with. -/
theorem Tracks.next_cases (h : s.Tracks p.code w) (going : s.finished = false)
    (reported : p.Reports s.options.input s.options.limit r) :
    (∃ x w' stepper, s.stepper.next p.code w = ⟨.ok (some x), w', stepper⟩ ∧
        x.instruction ≠ none ∧ x.step = s.current.step + 1 ∧ x.step ≤ r.workspace.steps) ∨
      (∃ x w' stepper, s.stepper.next p.code w = ⟨.ok (some x), w', stepper⟩ ∧
        x.instruction = none ∧ ∃ out, r.result = .ok out) ∨
      ∃ e w' stepper, s.stepper.next p.code w = ⟨.error e, w', stepper⟩ ∧ r.result = .error e := by
  obtain ⟨y, turned, ⟨z, step, next⟩ | ⟨f, last, next⟩⟩ := h.stands.next_cases going
  · have further := turned_succ turned step
    have named := Stepper.mnemonic?_ne_none (s := freshStepper s.options) step
    have count : z.1.steps = s.current.step + 1 := Buffers.steps_eq_of_after further
    have le : z.1.steps ≤ r.workspace.steps := count ▸ reported.goes_on_iff.1 ⟨z, further⟩
    exact .inl ⟨_, _, _, next, named, count, le⟩
  · obtain rfl := reported.unique (Program.reports_of_last turned last)
    cases result : f.result with
    | ok done =>
      rw [result] at next
      exact .inr (.inl ⟨_, _, _, next, rfl, _, Finish.report_of_ok result⟩)
    | error e =>
      rw [result] at next
      exact .inr (.inr ⟨e, _, _, next, Finish.report_of_error result⟩)

/-- Without breakpoints and a limit a run that shows a state comes to the next round. -/
theorem runOn_of_free (free : s.breakpoints = {}) (going : s.finished = false)
    (next : s.stepper.next code w = ⟨.ok (some x), w', stepper⟩) (fuel : Nat)
    (states : Array Snapshot) :
    runOn code none (fuel + 1) w s states =
      runOn code none fuel w' (s.unhit.see stepper x) (states.push x) := by
  rw [runOn_of_shown (not_met_none _) going next, if_neg]
  simp [free]

/-- A session without breakpoints can be run to the end of its run. It fails there if it has not
been there before and the run fails. -/
theorem Tracks.exists_runOn (h : s.Tracks p.code w) (free : s.breakpoints = {})
    (reported : p.Reports s.options.input s.options.limit r) (states : Array Snapshot) :
    ∃ fuel o, runOn p.code none fuel w s states = some o ∧ o.session.finished = true ∧
      ((s.finished = true ∨ ∃ out, r.result = .ok out) → ∃ states', o.result = .ok states') ∧
      (s.finished = false → ∀ e, r.result = .error e → o.result = .error e) := by
  -- The induction is on the steps that the run has left.
  induction left : r.workspace.steps - s.current.step using Nat.strongRecOn
    generalizing s w states with
  | ind n ih =>
    cases going : s.finished with
    | true =>
      refine ⟨1, _, runOn_of_finished (not_met_none _) going, going, fun _ => ⟨_, rfl⟩, ?_⟩
      intro unfinished
      cases unfinished
    | false =>
      rcases h.next_cases going reported with ⟨x, w', stepper, next, named, further, le⟩ |
        ⟨x, w', stepper, next, final, out, done⟩ | ⟨e, w', stepper, next, failed⟩
      · have tracks := ((h.mark s.breakpoints none).see going next).2
        have unfinished : (s.unhit.see stepper x).finished = false := by
          simp [unhit, going, Option.isNone_eq_false_iff, Option.isSome_iff_ne_none, named]
        have fewer : r.workspace.steps - (s.unhit.see stepper x).current.step < n := by
          rw [current_see]
          omega
        obtain ⟨fuel, o, ran, ended, fine, fails⟩ := ih _ fewer tracks
          (breakpoints_see.trans free) (by rwa [options_see]) (states.push x) rfl
        refine ⟨fuel + 1, o, (runOn_of_free free going next fuel states).trans ran, ended, ?_, ?_⟩
        · exact fun done => fine (.inr (done.resolve_left Bool.false_ne_true))
        · exact fun _ => fails unfinished
      · have finished : (s.unhit.see stepper x).finished = true := by simp [final]
        refine ⟨2, _, (runOn_of_free free going next 1 states).trans
          (runOn_of_finished (not_met_none _) finished), finished, fun _ => ⟨_, rfl⟩, ?_⟩
        rintro - e failed
        cases done.symm.trans failed
      · refine ⟨1, _, runOn_of_error (not_met_none _) going next, rfl, ?_, ?_⟩
        · rintro (ended | ⟨out, done⟩)
          · cases ended
          · cases done.symm.trans failed
        · rintro - e' failed'
          obtain rfl := Except.error.inj (failed.symm.trans failed')
          rfl

end Ends

end ByteTape.Session
