import ByteTape.Proofs.Session.Chunking
import ByteTape.Proofs.Session.Renewal
import ByteTape.Proofs.Session.Sharing

/-!
# What a restart forgets

What is done with a session from its restart on does not tell what went on before, nor what else has
gone on with its program up to its next step. It comes to the same as with a session that has just
been built, on a workspace of its own. Only the history is left from before, and the last hit until
steps are asked for again.
-/

namespace ByteTape

/-- Something that is done with a session. -/
inductive Deed where
  | step (count : Int)
  | run (limit : Option Int)
  | addBreakpoint (x : Int)
  | removeBreakpoint (x : Int)
  | clearBreakpoints
  deriving DecidableEq

namespace Deed

/-- Whether this asks for steps. -/
def Asks : Deed → Prop
  | step count => 0 < count
  | run limit => ¬ Session.Met limit #[]
  | _ => False

/-- What comes of a deed; `none` if the fuel runs out first. -/
def perform (code : Code) (fuel : Nat) (w : Workspace) (s : Session) : Deed → Option Outcome
  | step count => some (s.stepForward code w count)
  | run limit => s.runUntilBreak code w limit fuel
  | addBreakpoint x => some ⟨.ok #[], w, s.addBreakpoint x⟩
  | removeBreakpoint x => some ⟨.ok #[], w, (s.removeBreakpoint x).2⟩
  | clearBreakpoints => some ⟨.ok #[], w, s.clearBreakpoints⟩

/-- What comes of a deed after some others, on a workspace that nothing else changes. -/
def performAfter (code : Code) (fuel : Nat) (d : Deed) :
    List Deed → Workspace → Session → Option Outcome
  | [], w, s => d.perform code fuel w s
  | e :: before, w, s =>
    (e.perform code fuel w s).bind fun o => d.performAfter code fuel before o.workspace o.session

end Deed

/-- Sessions that are the same but for their histories and for their last hits. Those are the same
as well where `hits` holds. -/
structure Session.Twin (hits : Prop) (s t : Session) : Prop where
  options : s.options = t.options
  codeLength : s.codeLength = t.codeLength
  stepper : s.stepper = t.stepper
  finished : s.finished = t.finished
  current : s.current = t.current
  breakpoints : s.breakpoints = t.breakpoints
  hit : hits → s.hit = t.hit

/-- Outcomes for twins. They may differ in a workspace that the next step clears. -/
structure Outcome.Twin (hits : Prop) (o o' : Outcome) : Prop where
  result : o.result = o'.result
  session : o.session.Twin hits o'.session
  workspace : o.session.stepper.stage = .fresh ∨ o.workspace = o'.workspace

theorem Outcome.Twin.mono {hits hits' : Prop} {o o' : Outcome} (h : o.Twin hits o')
    (imp : hits' → hits) : o.Twin hits' o' :=
  ⟨h.result, { h.session with hit := fun told => h.session.hit (imp told) }, h.workspace⟩

/-- A workspace that the next step clears makes no difference to twins. -/
theorem Outcome.Alike.twin {hits : Prop} {o o' o'' : Outcome} (alike : o.Alike o')
    (h : o'.Twin hits o'') : o.Twin hits o'' := by
  refine ⟨alike.result.trans h.result, alike.session ▸ h.session, ?_⟩
  rcases alike.workspace with fresh | same
  · exact .inl fresh
  · rw [alike.session, same]
    exact h.workspace

namespace Session

variable {hits : Prop} {code : Code} {w w' : Workspace} {s t : Session}

namespace Twin

theorem unhit (h : s.Twin hits t) (hits' : Prop) : s.unhit.Twin hits' t.unhit :=
  ⟨h.options, h.codeLength, h.stepper, h.finished, h.current, h.breakpoints, fun _ => rfl⟩

theorem conclude (h : s.Twin hits t) (stepper : Stepper) :
    (s.conclude stepper).Twin hits (t.conclude stepper) :=
  ⟨h.options, h.codeLength, rfl, rfl, h.current, h.breakpoints, h.hit⟩

theorem see (h : s.Twin hits t) (stepper : Stepper) (x : Snapshot) :
    (s.see stepper x).Twin hits (t.see stepper x) where
  options := by simp [h.options]
  codeLength := by simp [h.codeLength]
  stepper := by simp
  finished := by simp [h.finished]
  current := by simp
  breakpoints := by simp [h.breakpoints]
  hit told := by rw [hit_see, hit_see, h.breakpoints, h.hit told]

theorem withBreakpoints (h : s.Twin hits t) (b : Breakpoints) :
    ({ s with breakpoints := b } : Session).Twin hits { t with breakpoints := b } :=
  ⟨h.options, h.codeLength, h.stepper, h.finished, h.current, rfl, h.hit⟩

/-- Twins take the same steps. -/
theorem stepOn (h : s.Twin hits t) (count : Nat) (w : Workspace) (states : Array Snapshot) :
    (stepOn code count w s states).Twin hits (stepOn code count w t states) := by
  induction count generalizing w s t states with
  | zero => exact ⟨rfl, h, .inr rfl⟩
  | succ count ih =>
    cases going : s.finished with
    | true =>
      rw [stepOn_of_finished going, stepOn_of_finished (h.finished ▸ going)]
      exact ⟨rfl, h, .inr rfl⟩
    | false =>
      have going' : t.finished = false := h.finished ▸ going
      rcases next : s.stepper.next code w with ⟨e | _ | x, v, stepper⟩
      all_goals have next' := h.stepper ▸ next
      · rw [stepOn_of_error going next, stepOn_of_error going' next']
        exact ⟨rfl, h.conclude stepper, .inr rfl⟩
      · rw [stepOn_of_done going next, stepOn_of_done going' next']
        exact ⟨rfl, h.conclude stepper, .inr rfl⟩
      · rw [stepOn_of_shown going next, stepOn_of_shown going' next', h.breakpoints]
        split
        · exact ⟨rfl, h.see stepper x, .inr rfl⟩
        · exact ih (h.see stepper x) v _

/-- If any steps are asked for, old hits are forgotten. -/
theorem stepForward (h : s.Twin hits t) (w : Workspace) (count : Int) :
    (s.stepForward code w count).Twin (hits ∨ 0 < count) (t.stepForward code w count) := by
  unfold Session.stepForward
  split
  · next nonpos =>
    have same : (⟨.ok #[], w, s⟩ : Outcome).Twin hits ⟨.ok #[], w, t⟩ := ⟨rfl, h, .inr rfl⟩
    exact same.mono (·.resolve_right (Int.not_lt.2 nonpos))
  · exact (h.unhit _).stepOn _ w #[]

theorem runOn (h : s.Twin hits t) (limit : Option Int) (fuel : Nat) (w : Workspace)
    (states : Array Snapshot) :
    Option.Rel (Outcome.Twin hits) (runOn code limit fuel w s states)
      (runOn code limit fuel w t states) := by
  induction fuel generalizing w s t states with
  | zero => exact .none
  | succ fuel ih =>
    by_cases met : Met limit states
    · rw [runOn_of_met met, runOn_of_met met]
      exact .some ⟨rfl, h, .inr rfl⟩
    cases going : s.finished with
    | true =>
      rw [runOn_of_finished met going, runOn_of_finished met (h.finished ▸ going)]
      exact .some ⟨rfl, h.unhit _, .inr rfl⟩
    | false =>
      have going' : t.finished = false := h.finished ▸ going
      rcases next : s.stepper.next code w with ⟨e | _ | x, v, stepper⟩
      all_goals have next' := h.stepper ▸ next
      · rw [runOn_of_error met going next, runOn_of_error met going' next']
        exact .some ⟨rfl, (h.unhit _).conclude stepper, .inr rfl⟩
      · rw [runOn_of_done met going next, runOn_of_done met going' next']
        exact .some ⟨rfl, (h.unhit _).conclude stepper, .inr rfl⟩
      · rw [runOn_of_shown met going next, runOn_of_shown met going' next', h.breakpoints]
        split
        · exact .some ⟨rfl, (h.unhit _).see stepper x, .inr rfl⟩
        · exact ih ((h.unhit _).see stepper x) v _

theorem runUntilBreak (h : s.Twin hits t) (limit : Option Int) (fuel : Nat) (w : Workspace) :
    Option.Rel (Outcome.Twin (hits ∨ ¬ Met limit #[])) (s.runUntilBreak code w limit fuel)
      (t.runUntilBreak code w limit fuel) := by
  by_cases met : Met limit #[]
  · have told : (hits ∨ ¬ Met limit #[]) = hits := by simp [met]
    rw [told]
    exact h.runOn limit fuel w #[]
  · -- A run that is not at its limit at once forgets the old hits.
    rw [Session.runUntilBreak, Session.runUntilBreak, ← runOn_unhit met,
      ← runOn_unhit (s := t) met]
    exact (h.unhit _).runOn limit fuel w #[]

end Twin

end Session

namespace Deed

variable {hits : Prop} {code : Code} {w w' : Workspace} {s t : Session}

/-- The same is done with twins, also if one has a workspace that the next step clears. -/
theorem perform_twin (h : s.Twin hits t) (cleared : s.stepper.stage = .fresh ∨ w = w')
    (fuel : Nat) (d : Deed) :
    Option.Rel (Outcome.Twin (hits ∨ d.Asks)) (d.perform code fuel w s)
      (d.perform code fuel w' t) := by
  have stays (b : Breakpoints) {asks : Prop} (silent : ¬ asks) :
      Option.Rel (Outcome.Twin (hits ∨ asks)) (some ⟨.ok #[], w, { s with breakpoints := b }⟩)
        (some ⟨.ok #[], w', { t with breakpoints := b }⟩) := by
    have same : (⟨.ok #[], w, { s with breakpoints := b }⟩ : Outcome).Twin hits
        ⟨.ok #[], w', { t with breakpoints := b }⟩ := ⟨rfl, h.withBreakpoints b, cleared⟩
    exact .some (same.mono (·.resolve_right silent))
  cases d with
  | step count =>
    exact .some ((Session.stepForward_alike cleared count).twin (h.stepForward w' count))
  | run limit =>
    exact rel_trans (Session.runOn_alike cleared limit fuel #[]) (h.runUntilBreak limit fuel w')
      fun _ _ _ => Outcome.Alike.twin
  | addBreakpoint x =>
    rw [perform, perform, Session.addBreakpoint, Session.addBreakpoint, ← h.breakpoints]
    exact stays _ id
  | removeBreakpoint x =>
    rw [perform, perform, Session.removeBreakpoint, Session.removeBreakpoint, ← h.breakpoints]
    exact stays _ id
  | clearBreakpoints => exact stays {} id

theorem performAfter_twin (h : s.Twin hits t) (cleared : s.stepper.stage = .fresh ∨ w = w')
    (fuel : Nat) (before : List Deed) (d : Deed) :
    Option.Rel (Outcome.Twin (hits ∨ ∃ e ∈ before ++ [d], e.Asks))
      (d.performAfter code fuel before w s) (d.performAfter code fuel before w' t) := by
  -- Each deed leaves twins, whose last hits are the same from the first one on that asks for steps.
  induction before generalizing hits w w' s t with
  | nil => simpa [performAfter] using perform_twin h cleared fuel d
  | cons e before ih =>
    refine rel_bind (perform_twin h cleared fuel e) ?_
    intro o o' twins
    have later := ih twins.session twins.workspace
    simpa [or_assoc] using later

end Deed

/-- A session that has been told nothing since it was started looks like a new one. -/
theorem Listener.Sound.twin {code : Code} {l : Listener} (h : l.Sound code)
    (silent : l.replies = []) :
    l.session.Twin False
      { Session.start code l.session.options with breakpoints := l.session.breakpoints } := by
  obtain ⟨stepper, current⟩ := h.untouched silent
  have unfinished : l.session.finished = false := by
    rw [← Bool.not_eq_true, h.finished_iff, silent]
    simp
  exact ⟨rfl, h.codeLength, stepper, unfinished, current, rfl, False.elim⟩

namespace Workshop

/-- Take any session that has not stepped since it was started, for the first time or again, and
whatever has happened with its program until now. All that is done with it from here on, while
nothing else happens, answers the same as with a session that has just been built, for the same
breakpoints, on a workspace of its own, and leaves a session that is the same but for its history,
and for the last hit if no steps have been asked for. -/
theorem restart_forgets {p : Program} {a : Workshop} {i : Nat} {l : Listener}
    (h : Reachable p a) (here : a.listeners[i]? = some l) (silent : l.replies = [])
    (fuel : Nat) (before : List Deed) (d : Deed) :
    Option.Rel (Outcome.Twin (∃ e ∈ before ++ [d], e.Asks))
      (d.performAfter p.code fuel before a.bench.workspace l.session)
      (d.performAfter p.code fuel before {}
        { Session.start p.code l.session.options with breakpoints := l.session.breakpoints }) := by
  have sound := h.sound l (List.mem_of_getElem? here)
  have twin := sound.twin silent
  have fresh : l.session.stepper.stage = .fresh ∨ a.bench.workspace = {} := by
    rw [twin.stepper]
    exact .inl rfl
  simpa only [false_or] using Deed.performAfter_twin twin fresh fuel before d

/-- A session that has hit a breakpoint starts again, and a whole run fails after it. Run to the
breakpoint again and stepped on from there, the session does the same as a new one. -/
theorem restart_forgets_failure : ∃ p, Program.ofCommands [.motion .increment, .input] = .ok p ∧
    ∃ a l, Reachable p a ∧ a.listeners[0]? = some l ∧ l.replies = [] ∧ l.session.hit = some 1 ∧
      l.session.history.size = 3 ∧ a.bench.workspace.steps = 1 ∧
      ∃ o o', (Deed.step 2).performAfter p.code 9 [.run none] a.bench.workspace l.session = some o ∧
        (Deed.step 2).performAfter p.code 9 [.run none] {}
          { Session.start p.code l.session.options with breakpoints := l.session.breakpoints } =
            some o' ∧
        o.Twin (∃ e ∈ [Deed.run none, .step 2], e.Asks) o' ∧
        o.result = .error .inputExhausted ∧ o.session.hit = none := by
  obtain ⟨p, hp⟩ : ∃ p, Program.ofCommands [.motion .increment, .input] = .ok p := ⟨_, rfl⟩
  have code := Program.ofCode_code hp
  obtain ⟨_, accepted⟩ := p
  subst code
  let code : Code := .raw #[.motion .increment, .input]
  let s : Session := { Session.start code {} with breakpoints := ⟨[1]⟩ }
  let first := s.stepper.next code {}
  let again := (s.hear first).restart
  let run : Execution := { device := Buffers.device, streams := ⟨[], []⟩ }
  let later : Execution := { device := Buffers.device, streams := ⟨[], []⟩, pc := 1, steps := 1 }
  have prepared : Reachable ⟨code, accepted⟩ ⟨{}, [⟨s, []⟩]⟩ :=
    (Relation.ReflTransGen.refl.tail (.start {})).tail
      (.session (i := 0) (l := ⟨.start code {}, []⟩) rfl (.breakpoints ⟨[1]⟩))
  have restarted : Reachable ⟨code, accepted⟩ ⟨{ workspace := first.workspace }, [⟨again, []⟩]⟩ :=
    (prepared.tail (.session (i := 0) rfl (.call rfl))).tail
      (.session (i := 0) (l := ⟨s.hear first, _⟩) rfl .restart)
  have begun : Reachable ⟨code, accepted⟩
      ⟨{ workspace := { first.workspace with tape := .blank }, executions := [run] },
        [⟨again, []⟩]⟩ :=
    restarted.tail (.elsewhere (.begin _ Buffers.device none ⟨[], []⟩))
  have moved : Reachable ⟨code, accepted⟩
      ⟨{ workspace := first.workspace, executions := [later] }, [⟨again, []⟩]⟩ :=
    begun.tail (.elsewhere (.turn _ (i := 0) (c := run) rfl
      (m := ⟨first.workspace.tape, 1, 1⟩) rfl))
  have disturbed : Reachable ⟨code, accepted⟩ ⟨{ workspace := first.workspace }, [⟨again, []⟩]⟩ :=
    moved.tail (.elsewhere (.finish _ (i := 0) (c := later) rfl
      (f := ⟨.error .inputExhausted, ⟨first.workspace.tape, 1, 1⟩, ⟨[], []⟩⟩) rfl))
  obtain ⟨o, ho, failure, unhit⟩ : ∃ o,
      (Deed.step 2).performAfter code 9 [.run none] first.workspace again = some o ∧
      o.result = .error .inputExhausted ∧ o.session.hit = none := ⟨_, rfl, rfl, rfl⟩
  obtain ⟨o', ho'⟩ : ∃ o', (Deed.step 2).performAfter code 9 [.run none] {} s = some o' := ⟨_, rfl⟩
  have same := restart_forgets disturbed (i := 0) rfl rfl 9 [.run none] (.step 2)
  have twins := rel_of_eq_some same ho ho'
  exact ⟨_, hp, _, _, disturbed, rfl, rfl, rfl, rfl, rfl, o, o', ho, ho', twins, failure, unhit⟩

end Workshop

end ByteTape
