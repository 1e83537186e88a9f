import ByteTape.Proofs.Session.Tracking
import ByteTape.Proofs.Web.Restart

/-!
# The announced number of steps

The answer to a creation announces how many steps the session's run takes, which is counted on a run
of its own. What is announced is the truth: no state of the session ever counts more steps, and a
session that its own limit does not cut short ends with exactly that many.
-/

namespace ByteTape.Web

open Frontend
open Session (Passed Tracks)

variable {f : Frontend} {s s₀ s₁ s₂ t : Store} {q create : Request} {a : Answer} {fuel : Nat}
  {id : String} {r r' : Record} {request : SessionRequest} {o : Outcome} {log : List Exchange}

/-- What a record is made of when a session is created. -/
structure Record.Created (r : Record) (n : NewSession) (input : List UInt8) : Prop where
  encoded : n.input.encode = .ok input
  compiled : Program.compile n.code.characters n.optimize = .ok r.program
  session : r.session = Session.start r.program.code
    { input := input, radius := n.radius, limit := n.limit, historyLimit := n.historyLimit }
  totals : (r.totalSteps, r.totalStepsCapped) = r.program.countSteps input stepCap

/-- A creation puts the record of its body into the store and shows it. -/
theorem exists_created (lawful : f.Lawful) (h : f.handle s q fuel = some (a, t))
    (creates : f.Creates ⟨q, a⟩ id) :
    ∃ n input r, f.read .newSession q.body = .ok n ∧ r.Created n input ∧
      a = .session 201 [] id r ∧ t = s.put id r := by
  obtain ⟨leads, rfl, status⟩ := creates
  rw [handle_of_route leads, serve, withBody] at h
  cases read : f.read .newSession q.body with
  | error b =>
    have refuses : b.status = 422 ∨ b.status = 400 ∨ b.status = 500 := lawful.refuses_body read
    rw [read] at h
    obtain ⟨rfl, -⟩ := Prod.mk.inj (Option.some.inj h)
    simp only at status
    omega
  | ok n =>
    rw [read] at h
    simp only [createSession, Option.some.injEq] at h
    split at h
    · obtain ⟨rfl, -⟩ := Prod.mk.inj h
      cases status
    · obtain ⟨rfl, -⟩ := Prod.mk.inj h
      cases status
    · rename_i input p encoded compiled
      obtain ⟨rfl, rfl⟩ := Prod.mk.inj h
      exact ⟨n, input, _, rfl, ⟨encoded, compiled, rfl, rfl⟩, rfl, rfl⟩

/-! ## Sessions and their runs -/

/-- What is asked of a session leaves it tracking its run, and states of that run are answered. -/
theorem tracks_outcome (h : r.session.Tracks r.program.code r.workspace)
    (taken : r.outcome? fuel request = some o) :
    o.session.Tracks r.program.code o.workspace ∧
      ∀ states, o.result = .ok states → r.session.Passed r.program.code states := by
  cases request with
  | step count =>
    obtain rfl := Option.some.inj taken
    exact h.stepForward count
  | run limit =>
    simp only [Record.outcome?, runSession] at taken
    split at taken
    · obtain ⟨o', ran, rfl⟩ := Option.map_eq_some_iff.1 taken
      obtain ⟨tracks, passed⟩ := (h.mark {} r.session.hit).runUntilBreak ran
      exact ⟨tracks.mark r.session.breakpoints none, passed⟩
    · exact h.runUntilBreak taken
  | _ => cases taken

theorem tracks_follow (h : r.session.Tracks r.program.code r.workspace)
    (follows : r.follow id fuel request = some (a, .put r')) :
    r'.session.Tracks r'.program.code r'.workspace := by
  rcases Record.put_cases follows with ⟨o, taken, rfl⟩ | ⟨-, rfl⟩ | ⟨b, rfl⟩
  · exact (tracks_outcome h taken).1
  · exact r.session.tracks_reset r.program.code r.workspace
  · exact h.mark b r.session.hit

/-- A session that is asked for steps fails, or shows states that its run comes to. -/
theorem passed_of_follow {c : Change} (h : r.session.Tracks r.program.code r.workspace)
    (takes : request.takesSteps) (follows : r.follow id fuel request = some (a, c)) :
    a.status = 409 ∨ ∃ states r', a = .session 200 [("states", statesJson states)] id r' ∧
      r.session.Passed r.program.code states := by
  obtain ⟨o, taken, told⟩ : ∃ o, r.outcome? fuel request = some o ∧ r.tell id o = (a, c) := by
    cases request with
    | step count => exact ⟨_, rfl, Option.some.inj follows⟩
    | run limit => exact Option.map_eq_some_iff.1 follows
    | _ => cases takes
  simp only [Record.tell] at told
  split at told
  · obtain ⟨rfl, -⟩ := Prod.mk.inj told
    exact .inl rfl
  · rename_i states result
    obtain ⟨rfl, -⟩ := Prod.mk.inj told
    exact .inr ⟨states, _, rfl, (tracks_outcome h taken).2 states result⟩

/-- A run that no breakpoint stops takes a session to the end of its run. -/
theorem exists_follow_run {rep : Report} (h : r.session.Tracks r.program.code r.workspace)
    (reported : r.program.Reports r.session.options.input r.session.options.limit rep)
    (id : String) :
    ∃ fuel a r', r.follow id fuel (.run ⟨none, true⟩) = some (a, .put r') ∧
      r'.session.finished = true ∧
      ((r.session.finished = true ∨ ∃ out, rep.result = .ok out) → a.status = 200) ∧
      (r.session.finished = false → ∀ e, rep.result = .error e → a = .conflict e) := by
  obtain ⟨fuel, o, ran, finished, fine, fails⟩ :=
    (h.mark {} r.session.hit).exists_runOn rfl reported #[]
  have taken : runSession r ⟨none, true⟩ fuel =
      some { o with session :=
        { o.session with breakpoints := r.session.breakpoints, hit := none } } :=
    Option.map_eq_some_iff.2 ⟨o, ran, rfl⟩
  obtain ⟨result, w, t⟩ := o
  cases result with
  | ok states =>
    refine ⟨fuel, _, _, by rw [Record.follow, taken]; rfl, finished, fun _ => rfl, ?_⟩
    intro unfinished e failed
    cases fails unfinished e failed
  | error e =>
    refine ⟨fuel, _, _, by rw [Record.follow, taken]; rfl, finished, ?_, ?_⟩
    · intro done
      obtain ⟨states, answered⟩ := fine done
      cases answered
    · intro unfinished e' failed
      obtain rfl := Except.error.inj (fails unfinished e' failed)
      rfl

/-- The totals of a record tell the truth about its run over given input. -/
structure Record.Truthful (r : Record) (input : List UInt8) : Prop where
  counted : ∀ rep, r.program.Reports input none rep → rep.Within stepCap →
    r.totalSteps = rep.workspace.steps ∧ r.totalStepsCapped = false
  capped : (¬ ∃ rep, r.program.Reports input none rep ∧ rep.Within stepCap) →
    r.totalSteps = stepCap ∧ r.totalStepsCapped = true

theorem Record.Created.truthful {n : NewSession} {input : List UInt8} (h : r.Created n input) :
    r.Truthful input := by
  constructor
  · intro rep reported within
    have totals := h.totals
    rw [reported.countSteps_eq within] at totals
    exact Prod.mk.inj totals
  · intro cut
    have totals := h.totals
    rw [Program.countSteps_eq_cap cut] at totals
    exact Prod.mk.inj totals

theorem Record.Truthful.exists_reports {input : List UInt8} (h : r.Truthful input)
    (uncapped : r.totalStepsCapped = false) :
    ∃ rep, r.program.Reports input none rep ∧ rep.Within stepCap ∧
      r.totalSteps = rep.workspace.steps := by
  by_contra never
  have cut : ¬ ∃ rep, r.program.Reports input none rep ∧ rep.Within stepCap := by
    rintro ⟨rep, reported, within⟩
    exact never ⟨rep, reported, within, (h.counted rep reported within).1⟩
  rw [(h.capped cut).2] at uncapped
  cases uncapped

/-- No state that a record holds counts more steps than the total that it announces. -/
structure Record.UpTo (r : Record) (total : Nat) : Prop where
  totalSteps : r.totalSteps = total
  uncapped : r.totalStepsCapped = false
  current : r.session.current.step ≤ total
  history : ∀ x ∈ r.session.history, x.step ≤ total

/-- A record further on from its creation, which tracks the run. -/
structure Record.Tracks (r r' : Record) : Prop where
  continues : r.Continues r'
  session : r'.session.Tracks r'.program.code r'.workspace

theorem Record.Created.tracks {n : NewSession} {input : List UInt8} (h : r.Created n input) :
    r.Tracks r := by
  refine ⟨⟨r.workspace, r.session, ⟨rfl, rfl⟩, rfl⟩, ?_⟩
  rw [h.session]
  exact Session.tracks_start _ _ _

namespace Record.Tracks

variable {n : NewSession} {input : List UInt8} {rep : Report}

theorem follow {r'' : Record} (h : r.Tracks r')
    (follows : r'.follow id fuel request = some (a, .put r'')) : r.Tracks r'' :=
  ⟨h.continues.follow follows, tracks_follow h.session follows⟩

/-- The session is still set up as it was created. -/
theorem setup (h : r.Tracks r') (created : r.Created n input) :
    r'.program = r.program ∧ r'.session.options.input = input ∧
      r'.session.options.limit = n.limit := by
  obtain ⟨w, t, ⟨options, -⟩, rfl⟩ := h.continues
  refine ⟨rfl, ?_, ?_⟩
  · rw [options, created.session]
    rfl
  · rw [options, created.session]
    rfl

/-- States that the run comes to count no more steps than the whole run. -/
theorem step_le (h : r.Tracks r') (created : r.Created n input)
    (reported : r.program.Reports input none rep) {states : Array Snapshot}
    (passed : r'.session.Passed r'.program.code states) :
    ∀ x ∈ states, x.step ≤ rep.workspace.steps := by
  obtain ⟨program, given, -⟩ := h.setup created
  rw [← program, ← given] at reported
  exact fun x inside => Session.le_of_turned reported (passed x inside)

theorem upTo (h : r.Tracks r') (created : r.Created n input)
    (reported : r.program.Reports input none rep) (total : r.totalSteps = rep.workspace.steps)
    (uncapped : r.totalStepsCapped = false) : r'.UpTo r.totalSteps := by
  have history := h.step_le created reported h.session.history
  obtain ⟨program, given, -⟩ := h.setup created
  rw [← program, ← given] at reported
  have current := Session.le_of_turned reported h.session.stands.exists_turned
  obtain ⟨w, t, -, rfl⟩ := h.continues
  exact ⟨rfl, uncapped, total ▸ current, total ▸ history⟩

/-- What the whole run reports is reported under the limit of the session as well. -/
theorem reports (h : r.Tracks r') (created : r.Created n input)
    (reported : r.program.Reports input none rep) (free : r.program.Unbarred input n.limit) :
    r'.program.Reports r'.session.options.input r'.session.options.limit rep := by
  obtain ⟨program, given, limit⟩ := h.setup created
  rw [program, given, limit]
  exact reported.limited free

end Record.Tracks

end ByteTape.Web
