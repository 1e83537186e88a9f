import ByteTape.Proofs.Except
import ByteTape.Proofs.Session.Playing
import ByteTape.Web.Api

/-!
# Requests to sessions

A request to a session that is in order asks one of seven things of it. What the session answers and
what becomes of it depends on nothing but its own record. Whatever else a request does to the store
is to put a new session into it. All this holds of any frontend that the services can rely on.
-/

namespace ByteTape.Web

/-- What a request that is in order asks of a session. -/
inductive SessionRequest where
  | view
  | delete
  | reset
  | step (count : Int)
  | run (limit : RunLimit)
  | addBreakpoint (pc : Int)
  | removeBreakpoint (pc : Int)

/-- Whether steps are to be taken. -/
def SessionRequest.takesSteps : SessionRequest → Bool
  | step _ | run _ => true
  | _ => false

/-- The answer for a session that is not stored. -/
def SessionRequest.unknown (id : String) : SessionRequest → Answer
  | delete => .fault 404 (Answer.unknownText id)
  | _ => .unknownSession id

namespace Frontend

variable (f : Frontend)

/-- The session that a service is asked of, and what is asked of it or the answer that refuses the
request. -/
def askedOf (body : List UInt8) : Route → Option (String × Except Answer SessionRequest)
  | .showSession id => some (id, .ok .view)
  | .deleteSession id => some (id, .ok .delete)
  | .resetSession id => some (id, .ok .reset)
  | .step id => some (id, (f.read .stepCount body).map fun n => .step n.count)
  | .run id => some (id, (f.read .runLimit body).map .run)
  | .addBreakpoint id => some (id, (f.read .stopAt body).map fun stop => .addBreakpoint stop.pc)
  | .removeBreakpoint id name => some (id, (f.position name).map .removeBreakpoint)
  | .createSession | .execute | .fold => none

/-- The service that a request leads to. -/
def route? (q : Request) : Option Route := (f.locate q.method q.path).toOption

/-- The session that a request is addressed to, and what it asks of it or the answer that refuses
it. -/
def asked (q : Request) : Option (String × Except Answer SessionRequest) :=
  (f.route? q).bind (f.askedOf q.body)

end Frontend

/-- What becomes of a stored session. -/
inductive Change where
  | keep
  | put (r : Record)
  | drop

def Store.change (s : Store) (id : String) : Change → Store
  | .keep => s
  | .put r => s.put id r
  | .drop => s.erase id

/-- A change leaves all other sessions as they are. -/
theorem Store.get?_change_of_ne {id other : String} (h : other ≠ id) (s : Store) (c : Change) :
    (s.change id c).get? other = s.get? other := by
  cases c with
  | keep => rfl
  | put r => rw [change, get?_put, if_neg h]
  | drop => rw [change, get?_erase, if_neg h]

namespace Record

/-- Change a session and show it. -/
def present (r : Record) (id : String) (s : Session) : Answer × Change :=
  let r := { r with session := s }
  (.session 200 [] id r, .put r)

/-- Tell the outcome of a session operation. -/
def tell (r : Record) (id : String) (o : Outcome) : Answer × Change :=
  let r := { r with workspace := o.workspace, session := o.session }
  match o.result with
  | .error e => (.conflict e, .put r)
  | .ok states => (.session 200 [("states", statesJson states)] id r, .put r)

/-- How a session answers a request, and what becomes of it; `none` if the fuel runs out first. -/
def follow (r : Record) (id : String) (fuel : Nat) : SessionRequest → Option (Answer × Change)
  | .view => some (.session 200 [] id r, .keep)
  | .delete => some (⟨204, none, none⟩, .drop)
  | .reset => some (r.present id r.session.reset)
  | .step count => some (r.tell id (r.session.stepForward r.program.code r.workspace count))
  | .run limit => (runSession r limit fuel).map (r.tell id)
  | .addBreakpoint pc => some (r.present id (r.session.addBreakpoint pc))
  | .removeBreakpoint pc =>
    match r.session.removeBreakpoint pc with
    | (true, s) => some (r.present id s)
    | (false, _) => some (.fault 404 s!"Breakpoint not found at pc={pc}", .keep)

/-- The outcome of the steps that a request takes; `none` if the fuel runs out first. -/
def outcome? (r : Record) (fuel : Nat) : SessionRequest → Option Outcome
  | .step count => some (r.session.stepForward r.program.code r.workspace count)
  | .run limit => runSession r limit fuel
  | _ => none

variable {r r' : Record} {id : String} {fuel : Nat} {request : SessionRequest} {a : Answer}
  {c : Change}

theorem tell_cases {o : Outcome} (h : r.tell id o = (a, c)) :
    (a.status = 200 ∨ a.status = 409) ∧ ∃ r', c = .put r' := by
  simp only [tell] at h
  split at h
  · obtain ⟨rfl, rfl⟩ := Prod.mk.inj h
    exact ⟨.inr rfl, _, rfl⟩
  · obtain ⟨rfl, rfl⟩ := Prod.mk.inj h
    exact ⟨.inl rfl, _, rfl⟩

/-- A deletion drops the session, and only its answer has its status. Other answers leave the
session or change it, and only a change comes with a conflict. -/
theorem follow_cases (h : r.follow id fuel request = some (a, c)) :
    (request = .delete ∧ a.status = 204 ∧ c = .drop) ∨
      ((a.status = 200 ∨ a.status = 404) ∧ c = .keep) ∨
        (a.status = 200 ∨ a.status = 409) ∧ ∃ r', c = .put r' := by
  cases request with
  | view =>
    obtain ⟨rfl, rfl⟩ := Prod.mk.inj (Option.some.inj h)
    exact .inr (.inl ⟨.inl rfl, rfl⟩)
  | delete =>
    obtain ⟨rfl, rfl⟩ := Prod.mk.inj (Option.some.inj h)
    exact .inl ⟨rfl, rfl, rfl⟩
  | reset | addBreakpoint =>
    obtain ⟨rfl, rfl⟩ := Prod.mk.inj (Option.some.inj h)
    exact .inr (.inr ⟨.inl rfl, _, rfl⟩)
  | step count => exact .inr (.inr (tell_cases (Option.some.inj h)))
  | run limit =>
    obtain ⟨o, -, same⟩ := Option.map_eq_some_iff.1 h
    exact .inr (.inr (tell_cases same))
  | removeBreakpoint pc =>
    simp only [follow] at h
    split at h
    · obtain ⟨rfl, rfl⟩ := Prod.mk.inj (Option.some.inj h)
      exact .inr (.inr ⟨.inl rfl, _, rfl⟩)
    · obtain ⟨rfl, rfl⟩ := Prod.mk.inj (Option.some.inj h)
      exact .inr (.inl ⟨.inr rfl, rfl⟩)

/-- The only thing that a stored session fails to find is a breakpoint. -/
theorem exists_of_status_eq_404 (h : r.follow id fuel request = some (a, c))
    (status : a.status = 404) : ∃ pc : Int, a = .fault 404 s!"Breakpoint not found at pc={pc}" := by
  cases request with
  | removeBreakpoint pc =>
    simp only [follow] at h
    split at h
    · obtain ⟨rfl, -⟩ := Prod.mk.inj (Option.some.inj h)
      cases status
    · exact ⟨pc, (Prod.mk.inj (Option.some.inj h)).1.symm⟩
  | view | delete | reset | addBreakpoint =>
    obtain ⟨rfl, -⟩ := Prod.mk.inj (Option.some.inj h)
    cases status
  | step count =>
    have told := tell_cases (Option.some.inj h)
    omega
  | run limit =>
    obtain ⟨o, -, same⟩ := Option.map_eq_some_iff.1 h
    have told := tell_cases same
    omega

theorem put_of_tell {o : Outcome} (h : r.tell id o = (a, .put r')) :
    r' = { r with workspace := o.workspace, session := o.session } := by
  simp only [tell] at h
  split at h <;> exact (Change.put.inj (Prod.mk.inj h).2).symm

/-- A session changes by the steps it takes, by a reset, or in its breakpoints. -/
theorem put_cases (h : r.follow id fuel request = some (a, .put r')) :
    (∃ o, r.outcome? fuel request = some o ∧
        r' = { r with workspace := o.workspace, session := o.session }) ∨
      (request = .reset ∧ r' = { r with session := r.session.reset }) ∨
        ∃ b, r' = { r with session := { r.session with breakpoints := b } } := by
  cases request with
  | view | delete => cases (Prod.mk.inj (Option.some.inj h)).2
  | reset => exact .inr (.inl ⟨rfl, (Change.put.inj (Prod.mk.inj (Option.some.inj h)).2).symm⟩)
  | step count => exact .inl ⟨_, rfl, put_of_tell (Option.some.inj h)⟩
  | run limit =>
    obtain ⟨o, ran, told⟩ := Option.map_eq_some_iff.1 h
    exact .inl ⟨o, ran, put_of_tell told⟩
  | addBreakpoint pc =>
    exact .inr (.inr ⟨_, (Change.put.inj (Prod.mk.inj (Option.some.inj h)).2).symm⟩)
  | removeBreakpoint pc =>
    simp only [follow] at h
    split at h
    · rename_i removed
      obtain ⟨-, rfl⟩ := Prod.mk.inj removed
      exact .inr (.inr ⟨_, (Change.put.inj (Prod.mk.inj (Option.some.inj h)).2).symm⟩)
    · cases (Prod.mk.inj (Option.some.inj h)).2

/-- The rest of a record stays when its session is changed. -/
theorem follow_put_eq (h : r.follow id fuel request = some (a, .put r')) :
    r' = { r with workspace := r'.workspace, session := r'.session } := by
  rcases put_cases h with ⟨o, -, rfl⟩ | ⟨-, rfl⟩ | ⟨b, rfl⟩ <;> rfl

end Record

/-- A property of sessions that no request takes away. -/
structure Lasting (code : Code) (P : Session → Prop) : Prop extends Session.Kept code P where
  reset : ∀ s, P s → P s.reset
  setBreakpoints : ∀ s b, P s → P { s with breakpoints := b }

namespace Lasting

variable {P : Session → Prop} {r r' : Record} {id : String} {fuel : Nat} {request : SessionRequest}
  {a : Answer}

theorem runSession (lasting : Lasting r.program.code P) {limit : RunLimit} {o : Outcome}
    (start : P r.session) (h : runSession r limit fuel = some o) : P o.session := by
  simp only [Web.runSession] at h
  split at h
  · obtain ⟨o', ran, rfl⟩ := Option.map_eq_some_iff.1 h
    have cleared : P r.session.clearBreakpoints := lasting.setBreakpoints _ _ start
    have after := lasting.unhit _ (lasting.runUntilBreak cleared ran)
    exact lasting.setBreakpoints _ _ after
  · exact lasting.runUntilBreak start h

theorem outcome (lasting : Lasting r.program.code P) {o : Outcome} (start : P r.session)
    (h : r.outcome? fuel request = some o) : P o.session := by
  cases request with
  | step count => exact Option.some.inj h ▸ lasting.stepForward start r.workspace count
  | run limit => exact lasting.runSession start h
  | _ => cases h

theorem follow (lasting : Lasting r.program.code P) (start : P r.session)
    (h : r.follow id fuel request = some (a, .put r')) : P r'.session := by
  rcases Record.put_cases h with ⟨o, taken, rfl⟩ | ⟨-, rfl⟩ | ⟨b, rfl⟩
  · exact lasting.outcome start taken
  · exact lasting.reset _ start
  · exact lasting.setBreakpoints _ b start

end Lasting

/-! ## Serving -/

theorem status_unknown (id : String) (request : SessionRequest) :
    (request.unknown id).status = 404 := by
  cases request <;> rfl

theorem status_reportAnswer (r : Report) :
    (reportAnswer r).status = 200 ∨ (reportAnswer r).status = 409 := by
  unfold reportAnswer
  split
  · exact .inr rfl
  · exact .inl rfl

theorem status_of_executeProgram {w : WholeRun} {fuel : Nat} {a : Answer}
    (h : executeProgram w fuel = some a) :
    a.status = 200 ∨ a.status = 409 ∨ a.status = 422 ∨ a.status = 500 := by
  unfold executeProgram at h
  split at h
  · obtain rfl := Option.some.inj h
    exact .inr (.inr (.inl rfl))
  · obtain rfl := Option.some.inj h
    exact .inr (.inr (.inr rfl))
  · obtain ⟨r, -, rfl⟩ := Option.map_eq_some_iff.1 h
    have := status_reportAnswer r
    omega

theorem status_foldProgram (program : ToFold) :
    (foldProgram program).status = 200 ∨ (foldProgram program).status = 422 := by
  unfold foldProgram
  split
  · exact .inr rfl
  · exact .inl rfl

theorem answerOutcome_eq (s : Store) (id : String) (r : Record) :
    answerOutcome s id r = (fun done => (done.1, s.change id done.2)) ∘ r.tell id := by
  funext o
  simp only [answerOutcome, Record.tell, Function.comp_apply]
  cases o.result <;> rfl

theorem updateSession_eq (s : Store) (id : String) (r : Record) (t : Session) :
    updateSession s id r t = ((r.present id t).1, s.change id (r.present id t).2) := rfl

theorem removeBreakpoint_eq (s : Store) (id : String) (r : Record) (pc : Int) (fuel : Nat) :
    some (removeBreakpoint s id r pc) =
      (r.follow id fuel (.removeBreakpoint pc)).map fun done => (done.1, s.change id done.2) := by
  simp only [removeBreakpoint, Record.follow]
  rcases r.session.removeBreakpoint pc with ⟨_ | _, t⟩ <;> rfl

namespace Frontend

section Serve

variable {f : Frontend} {s : Store} {q : Request} {fuel : Nat} {route : Route} {id : String}
  {a : Answer} {request : SessionRequest}

/-- A request that is refused changes nothing, whether or not its session is stored. -/
theorem serve_of_refused (h : f.askedOf q.body route = some (id, .error a)) :
    f.serve s q fuel route = some (a, s) := by
  cases route with
  | createSession | execute | fold => cases h
  | showSession | deleteSession | resetSession => simp [askedOf] at h
  | step | run | addBreakpoint =>
    obtain ⟨-, h⟩ := Prod.mk.inj (Option.some.inj h)
    rw [serve, withBody, map_eq_error_iff.1 h]
  | removeBreakpoint =>
    obtain ⟨-, h⟩ := Prod.mk.inj (Option.some.inj h)
    rw [serve, map_eq_error_iff.1 h]

/-- A request that is in order is answered by its session, if that is stored. -/
theorem serve_of_asked (h : f.askedOf q.body route = some (id, .ok request)) :
    f.serve s q fuel route =
      match s.get? id with
      | none => some (request.unknown id, s)
      | some r => (r.follow id fuel request).map fun done => (done.1, s.change id done.2) := by
  cases route with
  | createSession | execute | fold => cases h
  | showSession k | resetSession k | deleteSession k =>
    obtain ⟨rfl, rfl⟩ : k = id ∧ _ = request := by simpa [askedOf] using h
    simp only [serve, withSession]
    cases s.get? k <;> rfl
  | step k | run k | addBreakpoint k =>
    obtain ⟨rfl, followed⟩ := Prod.mk.inj (Option.some.inj h)
    obtain ⟨content, read, rfl⟩ := map_eq_ok_iff.1 followed
    simp only [serve, withBody, read, withSession]
    cases s.get? k with
    | none => rfl
    | some r => simp [Record.follow, answerOutcome_eq, updateSession_eq]
  | removeBreakpoint k name =>
    obtain ⟨rfl, followed⟩ := Prod.mk.inj (Option.some.inj h)
    obtain ⟨pc, read, rfl⟩ := map_eq_ok_iff.1 followed
    simp only [serve, read, withSession]
    cases s.get? k with
    | none => rfl
    | some r => exact removeBreakpoint_eq s k r pc fuel

/-! ## Answers to refused requests -/

theorem Lawful.refuses (lawful : f.Lawful) {body : List UInt8}
    (h : f.askedOf body route = some (id, .error a)) : a.Refuses := by
  cases route with
  | createSession | execute | fold => cases h
  | showSession | deleteSession | resetSession => simp [askedOf] at h
  | step | run | addBreakpoint =>
    obtain ⟨-, h⟩ := Prod.mk.inj (Option.some.inj h)
    exact lawful.refuses_body (map_eq_error_iff.1 h)
  | removeBreakpoint =>
    obtain ⟨-, h⟩ := Prod.mk.inj (Option.some.inj h)
    exact lawful.refuses_position (map_eq_error_iff.1 h)

end Serve

/-! ## All that a request can do -/

section Handle

variable {f : Frontend} {s t : Store} {q : Request} {fuel : Nat} {id : String} {a : Answer}
  {request : SessionRequest}

theorem handle_of_route {route : Route} (h : f.route? q = some route) (s : Store) (fuel : Nat) :
    f.handle s q fuel = f.serve s q fuel route := by
  rw [handle, toOption_eq_some_iff.1 h]

/-- A request that leads nowhere is told so, and changes nothing. -/
theorem exists_handle_of_nowhere (h : f.route? q = none) :
    ∃ a, f.locate q.method q.path = .error a ∧ ∀ s fuel, f.handle s q fuel = some (a, s) := by
  obtain ⟨a, leads⟩ := toOption_eq_none_iff.1 h
  exact ⟨a, leads, fun s fuel => by rw [handle, leads]⟩

/-- A request to a session that is not in order is refused, and changes nothing. -/
theorem handle_of_refused (h : f.asked q = some (id, .error a)) (s : Store) (fuel : Nat) :
    f.handle s q fuel = some (a, s) := by
  obtain ⟨route, leads, asked⟩ := Option.bind_eq_some_iff.1 h
  rw [handle_of_route leads, serve_of_refused asked]

theorem Lawful.refuses_of_asked (lawful : f.Lawful) (h : f.asked q = some (id, .error a)) :
    a.Refuses := by
  obtain ⟨route, -, asked⟩ := Option.bind_eq_some_iff.1 h
  exact lawful.refuses asked

/-- A request to a session that is in order is answered by the session, if that is stored. -/
theorem handle_of_asked (h : f.asked q = some (id, .ok request)) (s : Store) (fuel : Nat) :
    f.handle s q fuel =
      match s.get? id with
      | none => some (request.unknown id, s)
      | some r => (r.follow id fuel request).map fun done => (done.1, s.change id done.2) := by
  obtain ⟨route, leads, asked⟩ := Option.bind_eq_some_iff.1 h
  rw [handle_of_route leads, serve_of_asked asked]

/-- All that a request can do: nothing, in a way that is neither a creation nor a deletion, create a
session, or do to a stored session what is asked of it. -/
inductive Does (f : Frontend) (q : Request) (s : Store) : Answer → Store → Prop where
  | nothing {a : Answer} (uncreated : a.status ≠ 201) (undeleted : a.status ≠ 204) : Does f q s a s
  | create (leads : f.route? q = some .createSession) (r : Record) (o : SessionOptions)
      (session : r.session = Session.start r.program.code o) :
      Does f q s (.session 201 [] q.newId r) (s.put q.newId r)
  | follow {id : String} {request : SessionRequest} {r : Record} {fuel : Nat} {a : Answer}
      {c : Change} (asked : f.asked q = some (id, .ok request)) (stored : s.get? id = some r)
      (follows : r.follow id fuel request = some (a, c)) : Does f q s a (s.change id c)

theorem does_of_unserved (h : a.Unserved) : f.Does q s a s := by
  unfold Answer.Unserved at h
  exact .nothing (by omega) (by omega)

theorem does_of_refuses (h : a.Refuses) : f.Does q s a s := by
  unfold Answer.Refuses at h
  exact .nothing (by omega) (by omega)

theorem does_of_asked (h : f.asked q = some (id, .ok request))
    (answer : f.handle s q fuel = some (a, t)) : f.Does q s a t := by
  rw [handle_of_asked h] at answer
  split at answer
  · obtain ⟨rfl, rfl⟩ := Prod.mk.inj (Option.some.inj answer)
    exact .nothing (by simp [status_unknown]) (by simp [status_unknown])
  · rename_i r stored
    obtain ⟨⟨b, c⟩, follows, same⟩ := Option.map_eq_some_iff.1 answer
    obtain ⟨rfl, rfl⟩ := Prod.mk.inj same
    exact .follow h stored follows

theorem Lawful.does_of_withBody (lawful : f.Lawful) {α : Type} {form : Form α}
    {act : α → Option (Answer × Store)} (acts : ∀ x, act x = some (a, t) → f.Does q s a t)
    (h : f.withBody form s q.body act = some (a, t)) : f.Does q s a t := by
  unfold withBody at h
  split at h
  · rename_i read
    obtain ⟨rfl, rfl⟩ := Prod.mk.inj (Option.some.inj h)
    exact does_of_refuses (lawful.refuses_body read)
  · exact acts _ h

theorem does_of_createSession (leads : f.route? q = some .createSession) {n : NewSession}
    (answer : createSession s q.newId n = (a, t)) : f.Does q s a t := by
  unfold createSession at answer
  split at answer
  · obtain ⟨rfl, rfl⟩ := Prod.mk.inj answer
    exact .nothing (by simp [Answer.internalError]) (by simp [Answer.internalError])
  · obtain ⟨rfl, rfl⟩ := Prod.mk.inj answer
    exact .nothing (by simp [Answer.malformed, Answer.fault])
      (by simp [Answer.malformed, Answer.fault])
  · obtain ⟨rfl, rfl⟩ := Prod.mk.inj answer
    exact .create leads _ _ rfl

/-- Every answer comes with one of these deeds. -/
theorem Lawful.does_of_handle (lawful : f.Lawful) (h : f.handle s q fuel = some (a, t)) :
    f.Does q s a t := by
  cases leads : f.route? q with
  | none =>
    obtain ⟨b, nowhere, same⟩ := exists_handle_of_nowhere leads
    obtain ⟨rfl, rfl⟩ := Prod.mk.inj (Option.some.inj ((same s fuel).symm.trans h))
    exact does_of_unserved (lawful.unserved nowhere)
  | some route =>
    cases asked : f.asked q with
    | some target =>
      obtain ⟨id, b | request⟩ := target
      · rw [handle_of_refused asked] at h
        obtain ⟨rfl, rfl⟩ := Prod.mk.inj (Option.some.inj h)
        exact does_of_refuses (lawful.refuses_of_asked asked)
      · exact does_of_asked asked h
    | none =>
      rw [handle_of_route leads] at h
      rw [Frontend.asked, leads, Option.bind_some] at asked
      cases route with
      | createSession =>
        exact lawful.does_of_withBody
          (fun n done => does_of_createSession leads (Option.some.inj done)) h
      | execute =>
        refine lawful.does_of_withBody (fun w done => ?_) h
        obtain ⟨b, ran, same⟩ := Option.map_eq_some_iff.1 done
        obtain ⟨rfl, rfl⟩ := Prod.mk.inj same
        have status := status_of_executeProgram ran
        exact .nothing (by omega) (by omega)
      | fold =>
        refine lawful.does_of_withBody (fun program done => ?_) h
        obtain ⟨rfl, rfl⟩ := Prod.mk.inj (Option.some.inj done)
        have status := status_foldProgram program
        exact .nothing (by omega) (by omega)
      | _ => cases asked

end Handle

end Frontend

end ByteTape.Web
