import ByteTape.Proofs.Web.Alike
import ByteTape.Proofs.Web.Standard

/-!
# Requests that fail

A request for something that is not there, or with values that have problems, leaves the store as
it is. A request for steps fails when the stepper of its session does: the states shown before are
kept, and the session is over until it is reset.
-/

namespace ByteTape.Web

open Frontend
open Session (Windowed)

/-- What the stepper of a session comes to at its next steps. -/
abbrev Record.nth (r : Record) (k : Nat) : Stepped :=
  Stepper.nth r.program.code k r.session.stepper r.workspace

/-- A session has failed. Its stepper has shown some states and then failed. The states are put into
the history, as many as it may hold, the last one is shown, nothing counts as hit, and the run is
over. -/
structure Record.Fails (r : Record) (shown : List Snapshot) (e : RunError) (r' : Record) :
    Prop where
  each : ∀ k x, shown[k]? = some x → (r.nth k).yield = .ok (some x)
  failure : (r.nth shown.length).yield = .error e
  record : r' = { r with
    workspace := (r.nth shown.length).workspace
    session := { r.session with
      stepper := (r.nth shown.length).stepper
      finished := true
      hit := none
      current := shown.getLastD r.session.current
      history := r.session.historyAfter shown } }

variable {f : Frontend} {s t : Store} {q : Request} {a : Answer} {fuel : Nat} {id : String}
  {r r' : Record} {request : SessionRequest} {e : RunError} {o : Outcome}

/-- Playing that fails leaves a failed session, whatever breakpoints it has meanwhile. -/
theorem exists_fails_of_plays {b : Breakpoints} (windowed : r.session.Windowed)
    (plays : Session.Plays r.program.code r.workspace
      { r.session with breakpoints := b, hit := none } #[] o)
    (failed : o.result = .error e) :
    o.session.breakpoints = b ∧ o.session.hit = none ∧
      ∃ shown, r.Fails shown e { r with
        workspace := o.workspace
        session := { o.session with breakpoints := r.session.breakpoints } } := by
  obtain ⟨shown, each, failure, workspace, session⟩ := plays.exists_shown failed windowed
  rw [workspace, session]
  exact ⟨rfl, rfl, shown, each, failure, rfl⟩

theorem exists_fails_of_stepForward {count : Int} (windowed : r.session.Windowed)
    (taken : r.session.stepForward r.program.code r.workspace count = o)
    (failed : o.result = .error e) :
    ∃ shown, r.Fails shown e { r with workspace := o.workspace, session := o.session } := by
  subst taken
  rcases r.session.stepForward_cases r.program.code r.workspace count with same | plays
  · rw [same] at failed
    cases failed
  · obtain ⟨same, -, shown, fails⟩ := exists_fails_of_plays windowed plays failed
    rw [← same] at fails
    exact ⟨shown, fails⟩

theorem exists_fails_of_runSession {limit : RunLimit} (windowed : r.session.Windowed)
    (taken : runSession r limit fuel = some o) (failed : o.result = .error e) :
    ∃ shown, r.Fails shown e { r with workspace := o.workspace, session := o.session } := by
  simp only [runSession] at taken
  split at taken
  · obtain ⟨o, ran, rfl⟩ := Option.map_eq_some_iff.1 taken
    rcases Session.plays_runOn ran with rfl | plays
    · cases failed
    · obtain ⟨-, unhit, shown, fails⟩ := exists_fails_of_plays windowed plays failed
      rw [← unhit]
      exact ⟨shown, fails⟩
  · rcases Session.plays_runOn taken with rfl | plays
    · cases failed
    · obtain ⟨same, -, shown, fails⟩ := exists_fails_of_plays windowed plays failed
      rw [← same] at fails
      exact ⟨shown, fails⟩

theorem exists_of_tell_conflict {c : Change} (told : r.tell id o = (a, c))
    (status : a.status = 409) :
    ∃ e, o.result = .error e ∧ a = .conflict e ∧
      c = .put { r with workspace := o.workspace, session := o.session } := by
  simp only [Record.tell] at told
  split at told
  · rename_i e failed
    obtain ⟨rfl, rfl⟩ := Prod.mk.inj told
    exact ⟨e, failed, rfl, rfl⟩
  · obtain ⟨rfl, rfl⟩ := Prod.mk.inj told
    cases status

/-- A request for steps that ends in a conflict tells why the session has failed. -/
theorem exists_fails_of_follow {c : Change} (windowed : r.session.Windowed)
    (takes : request.takesSteps) (follows : r.follow id fuel request = some (a, c))
    (status : a.status = 409) :
    ∃ e shown r', a = .conflict e ∧ c = .put r' ∧ r.Fails shown e r' := by
  cases request with
  | step count =>
    obtain ⟨e, failed, rfl, rfl⟩ := exists_of_tell_conflict (Option.some.inj follows) status
    obtain ⟨shown, fails⟩ := exists_fails_of_stepForward windowed rfl failed
    exact ⟨e, shown, _, rfl, rfl, fails⟩
  | run limit =>
    obtain ⟨o, ran, told⟩ := Option.map_eq_some_iff.1 follows
    obtain ⟨e, failed, rfl, rfl⟩ := exists_of_tell_conflict told status
    obtain ⟨shown, fails⟩ := exists_fails_of_runSession windowed ran failed
    exact ⟨e, shown, _, rfl, rfl, fails⟩
  | _ => cases takes

/-! ## After a failure -/

/-- The answer of a session that has no steps left to take. -/
def Record.idleAnswer (r : Record) (id : String) : Answer :=
  .session 200 [("states", .arr [])] id r

/-- A session that is over takes no more steps, and stays over. -/
theorem exists_follow_of_finished (ended : r.session.finished = true) (takes : request.takesSteps)
    (id : String) (fueled : fuel ≠ 0) :
    ∃ t : Session, t.finished = true ∧
      r.follow id fuel request =
        some (Record.idleAnswer { r with session := t } id, .put { r with session := t }) := by
  cases request with
  | step count =>
    obtain ⟨t, ended', taken⟩ :=
      Session.exists_stepForward_of_finished ended r.program.code r.workspace count
    exact ⟨t, ended', by rw [Record.follow, taken]; rfl⟩
  | run limit =>
    rw [Record.follow, runSession]
    split
    · obtain ⟨t, ended', ran⟩ := Session.exists_runUntilBreak_of_finished
        (s := r.session.clearBreakpoints) ended r.program.code r.workspace limit.limit fueled
      exact ⟨{ t with breakpoints := r.session.breakpoints, hit := none }, ended',
        by rw [ran]; rfl⟩
    · obtain ⟨t, ended', ran⟩ := Session.exists_runUntilBreak_of_finished ended r.program.code
        r.workspace limit.limit fueled
      exact ⟨t, ended', by rw [ran]; rfl⟩
  | _ => cases takes

/-- Only a reset starts a session again that is over. -/
theorem finished_of_follow (ended : r.session.finished = true) (noReset : request ≠ .reset)
    (follows : r.follow id fuel request = some (a, .put r')) : r'.session.finished = true := by
  rcases Record.put_cases follows with ⟨o, taken, -⟩ | ⟨rfl, -⟩ | ⟨b, rfl⟩
  · have takes : request.takesSteps := by
      cases request <;> first | rfl | cases taken
    obtain ⟨t, ended', same⟩ := exists_follow_of_finished ended takes id fuel.succ_ne_zero
    cases Option.some.inj (same.symm.trans (follow_mono fuel.le_succ follows))
    exact ended'
  · exact absurd rfl noReset
  · exact ended

/-! ## Failures in a log -/

theorem lasting_windowed (code : Code) : Lasting code Windowed where
  toKept := Session.kept_windowed code
  reset s _ := Session.windowed_reset s
  setBreakpoints _ _ h := h

/-- A request that does not find something, or has problems, changes nothing. -/
theorem Frontend.Does.eq_of_status (h : f.Does q s a t) (status : a.status = 404 ∨ a.status = 422) :
    t = s := by
  cases h with
  | nothing => rfl
  | create => simp [Answer.session] at status
  | follow asked stored follows =>
    rcases Record.follow_cases follows with ⟨-, same, -⟩ | ⟨-, rfl⟩ | ⟨same, -⟩
    · omega
    · rfl
    · omega

/-- A request that does not find something, or has problems, leaves the store as it is. One for
steps that ends in a conflict leaves all other sessions as they are and its own one failed. Until
this is reset or deleted, all requests for steps are answered with no states then. -/
theorem failure_well_defined (lawful : f.Lawful) {log : List Exchange} (served : f.Served {} log s)
    (answer : f.handle s q fuel = some (a, t)) :
    (a.status = 404 ∨ a.status = 422 → t = s) ∧
    ∀ id request, f.asked q = some (id, .ok request) → request.takesSteps → a.status = 409 →
      (∀ other, other ≠ id → t.get? other = s.get? other) ∧
      ∃ r r' e shown, s.get? id = some r ∧ t.get? id = some r' ∧ a = .conflict e ∧
        r.Fails shown e r' ∧
        ∀ log' u, f.Served t log' u →
          (∀ x ∈ log', ¬ f.Creates x id ∧ ¬ f.Deletes x id ∧
            f.asked x.request ≠ some (id, .ok .reset)) →
          ∀ q' request' fuel', f.asked q' = some (id, .ok request') → request'.takesSteps →
            fuel' ≠ 0 → ∃ v u', f.handle u q' fuel' = some (Record.idleAnswer v id, u') := by
  refine ⟨(lawful.does_of_handle answer).eq_of_status, fun id request asked takes status => ?_⟩
  rw [handle_of_asked asked] at answer
  split at answer
  · obtain ⟨rfl, -⟩ := Prod.mk.inj (Option.some.inj answer)
    simp [status_unknown] at status
  rename_i r stored
  obtain ⟨⟨a, c⟩, follows, same⟩ := Option.map_eq_some_iff.1 answer
  obtain ⟨rfl, rfl⟩ := Prod.mk.inj same
  have windowed : r.session.Windowed :=
    served.stored (P := fun _ => Windowed) lawful Session.windowed_start lasting_windowed id r
      stored
  obtain ⟨e, shown, r', rfl, rfl, fails⟩ := exists_fails_of_follow windowed takes follows status
  have stored' : (s.put id r').get? id = some r' := Store.get?_put_self _ _ _
  refine ⟨fun other apart => Store.get?_change_of_ne apart s _,
    r, r', e, shown, stored, stored', rfl, fails, ?_⟩
  intro log' u served' free q' request' fuel' asked' takes' fueled
  have ended : ∃ v, u.get? id = some v ∧ v.session.finished = true := by
    refine served'.exists_get?_eq lawful
      (fun x inside => ⟨(free x inside).1, (free x inside).2.1⟩) ?_
      ⟨r', stored', by rw [fails.record]⟩
    intro x inside v request v' fuel before asked follows
    have noReset : request ≠ .reset := by
      rintro rfl
      exact (free x inside).2.2 asked
    exact finished_of_follow before noReset follows
  obtain ⟨v, present, ended⟩ := ended
  obtain ⟨w, -, same⟩ := exists_follow_of_finished ended takes' id fueled
  exact ⟨_, _, by rw [handle_of_asked asked', present]; simp only [same]; rfl⟩

/-- The second step of a session fails. Asked again it takes no steps. -/
theorem failure_well_defined_hungry :
    let step := (Route.step "a").request (jsonBody (.record [("count", .int 2)]))
    ∃ a s t e shown r' v u, standard.Served {} [⟨hungryRequest "a", a⟩] s ∧
      standard.handle s step 0 = some (.conflict e, t) ∧ t.get? "a" = some r' ∧
      hungryRecord.Fails shown e r' ∧
      standard.handle t step 1 = some (Record.idleAnswer v "a", u) := by
  intro step
  have asked : standard.asked step = some ("a", .ok (.step 2)) :=
    lawful_standard.asked_step (n := ⟨2⟩) (by decide) (toOption_eq_some_iff.1 (by decide +kernel))
  have served := Served.cons (handle_hungryRequest "a" {} 0) (.nil _)
  obtain ⟨a, t, answer, status⟩ := exists_conflict_of_hungryRecord asked {} 0
  obtain ⟨-, r, r', e, shown, stored, stored', rfl, fails, later⟩ :=
    (failure_well_defined lawful_standard served answer).2 "a" _ asked rfl status
  obtain rfl : hungryRecord = r := Option.some.inj ((Store.get?_put_self _ _ _).symm.trans stored)
  obtain ⟨v, u, again⟩ := later [] t (.nil t) (by simp) step _ 1 asked rfl Nat.one_ne_zero
  exact ⟨_, _, t, e, shown, r', v, u, served, answer, stored', fails, again⟩

end ByteTape.Web
