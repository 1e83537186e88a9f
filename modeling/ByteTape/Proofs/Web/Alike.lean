import ByteTape.Proofs.Session.Renewal
import ByteTape.Proofs.Web.Serving

/-!
# Records that answer alike

A record whose session has just started again answers every request like one that is the same but
for the workspace. A session is not concerned with what is done to any other, so stores that hold
records alike for it give the same answers to all requests that concern it, whatever else they hold.
-/

namespace ByteTape.Web

/-- The session that a request is addressed to. -/
def Frontend.addressee? (f : Frontend) (q : Request) : Option String := (f.asked q).map Prod.fst

/-- Whether a request is addressed to a session, or creates it if it creates any. -/
def Frontend.concerns (f : Frontend) (q : Request) (id : String) : Bool :=
  f.addressee? q == some id || f.route? q == some .createSession && q.newId == id

/-- Records that differ at most in a workspace that the next step clears. -/
inductive Record.Alike (r : Record) : Record → Prop where
  | intro (w : Workspace) (h : r.session.stepper.stage = .fresh ∨ r.workspace = w) :
      Alike r { r with workspace := w }

/-- What becomes of records alike. -/
inductive Change.Alike : Change → Change → Prop where
  | keep : Alike .keep .keep
  | put {r r' : Record} (h : r.Alike r') : Alike (.put r) (.put r')
  | drop : Alike .drop .drop

namespace Record

variable {r r' : Record} {id : String}

theorem Alike.refl (r : Record) : r.Alike r := .intro r.workspace (.inr rfl)

theorem Alike.symm (h : r.Alike r') : r'.Alike r := by
  obtain ⟨w, h⟩ := h
  exact .intro r.workspace (h.imp_right Eq.symm)

/-- The same answer, and changes alike. -/
abbrev AnswersAlike (x y : Answer × Change) : Prop := x.1 = y.1 ∧ x.2.Alike y.2

/-- A change of the session that leaves a fresh stepper as it is. -/
theorem present_alike (h : r.Alike r') {s : Session}
    (fresh : r.session.stepper.stage = .fresh → s.stepper.stage = .fresh) :
    AnswersAlike (r.present id s) (r'.present id s) := by
  obtain ⟨w, h⟩ := h
  exact ⟨rfl, .put (.intro w (h.imp_left fresh))⟩

theorem tell_alike (h : r.Alike r') {o o' : Outcome} (outcomes : o.Alike o') :
    AnswersAlike (r.tell id o) (r'.tell id o') := by
  obtain ⟨w, -⟩ := h
  obtain ⟨result, v, t⟩ := o
  obtain ⟨result', v', t'⟩ := o'
  obtain ⟨rfl, rfl, workspace⟩ := outcomes
  cases result with
  | error e => exact ⟨rfl, .put (.intro v' workspace)⟩
  | ok states => exact ⟨rfl, .put (.intro v' workspace)⟩

theorem runSession_alike (h : r.Alike r') (limit : RunLimit) (fuel : Nat) :
    Option.Rel Outcome.Alike (runSession r limit fuel) (runSession r' limit fuel) := by
  obtain ⟨w, h⟩ := h
  simp only [runSession]
  split
  · refine rel_map ?_ (Session.runOn_alike (s := r.session.clearBreakpoints) h _ _ _)
    rintro o o' ⟨result, session, workspace⟩
    exact ⟨result, by rw [session], workspace⟩
  · exact Session.runOn_alike h _ _ _

/-- Records alike answer alike. -/
theorem follow_alike (h : r.Alike r') (fuel : Nat) (request : SessionRequest) :
    Option.Rel AnswersAlike (r.follow id fuel request) (r'.follow id fuel request) := by
  have both := h
  obtain ⟨w, shared⟩ := h
  cases request with
  | view => exact .some ⟨rfl, .keep⟩
  | delete => exact .some ⟨rfl, .drop⟩
  | reset => exact .some (present_alike both fun _ => rfl)
  | step count => exact .some (tell_alike both (Session.stepForward_alike shared count))
  | run limit =>
    exact rel_map (fun _ _ outcomes => tell_alike both outcomes) (runSession_alike both limit fuel)
  | addBreakpoint pc => exact .some (present_alike both fun fresh => fresh)
  | removeBreakpoint pc =>
    cases removed : r.session.removeBreakpoint pc with
    | mk found t =>
      obtain rfl := (Prod.mk.inj removed).2
      simp only [follow, removed]
      cases found with
      | true => exact .some (present_alike both fun fresh => fresh)
      | false => exact .some ⟨rfl, .keep⟩

end Record

/-- Stores that hold records alike for one session. -/
def Store.Alike (id : String) (s t : Store) : Prop :=
  Option.Rel Record.Alike (s.get? id) (t.get? id)

namespace Store.Alike

variable {s t : Store} {id : String}

theorem refl (id : String) (s : Store) : Alike id s s := by
  unfold Alike
  cases s.get? id with
  | none => exact .none
  | some r => exact .some (.refl r)

theorem symm (h : Alike id s t) : Alike id t s := by
  unfold Alike at *
  generalize s.get? id = x, t.get? id = y at h
  cases h with
  | none => exact .none
  | some records => exact .some records.symm

theorem put {r r' : Record} (h : r.Alike r') : Alike id (s.put id r) (t.put id r') := by
  simp only [Alike, get?_put_self]
  exact .some h

theorem change {c c' : Change} (h : Alike id s t) (changes : c.Alike c') :
    Alike id (s.change id c) (t.change id c') := by
  cases changes with
  | keep => exact h
  | put records => exact put records
  | drop =>
    simp only [Alike, Store.change, get?_erase_self]
    exact .none

end Store.Alike

variable {f : Frontend} {s t : Store} {q : Request} {id : String}

/-- The same answer, and stores that are alike for one session. -/
abbrev AnswersAlike (id : String) (x y : Answer × Store) : Prop :=
  x.1 = y.1 ∧ Store.Alike id x.2 y.2

/-- A session is created alike in all stores. -/
theorem createSession_alike (h : Store.Alike id s t) (n : NewSession) :
    AnswersAlike id (createSession s id n) (createSession t id n) := by
  simp only [createSession]
  split
  · exact ⟨rfl, h⟩
  · exact ⟨rfl, h⟩
  · exact ⟨rfl, Store.Alike.put (.refl _)⟩

namespace Frontend

/-- Stores that are alike for a session answer alike to all that concerns it. -/
theorem handle_alike (h : Store.Alike id s t) (own : f.concerns q id) (fuel : Nat) :
    Option.Rel (AnswersAlike id) (f.handle s q fuel) (f.handle t q fuel) := by
  simp only [concerns, Bool.or_eq_true, Bool.and_eq_true, beq_iff_eq] at own
  rcases own with addressed | ⟨leads, rfl⟩
  · obtain ⟨⟨k, what⟩, asked, rfl⟩ := Option.map_eq_some_iff.1 addressed
    cases what with
    | error a =>
      rw [handle_of_refused asked, handle_of_refused asked]
      exact .some ⟨rfl, h⟩
    | ok request =>
      rw [handle_of_asked asked, handle_of_asked asked]
      have stored := h
      unfold Store.Alike at stored
      generalize s.get? k = x, t.get? k = y at stored
      cases stored with
      | none => exact .some ⟨rfl, h⟩
      | some records =>
        refine rel_map ?_ (Record.follow_alike records fuel request)
        rintro _ _ ⟨answer, changes⟩
        exact ⟨answer, h.change changes⟩
  · rw [handle_of_route leads, handle_of_route leads, serve, serve, withBody, withBody]
    split
    · exact .some ⟨rfl, h⟩
    · exact .some (createSession_alike h _)

/-- What does not concern a session leaves its record as it is. -/
theorem Does.get?_eq {a : Answer} (h : f.Does q s a t) (apart : f.concerns q id = false) :
    t.get? id = s.get? id := by
  simp only [concerns, Bool.or_eq_false_iff, Bool.and_eq_false_iff, beq_eq_false_iff_ne]
    at apart
  obtain ⟨addressed, created⟩ := apart
  cases h with
  | nothing => rfl
  | create leads r o session =>
    have other : id ≠ q.newId := by
      rintro rfl
      simp [leads] at created
    rw [Store.get?_put, if_neg other]
  | @follow k request r fuel a c asked stored follows =>
    have other : id ≠ k := by
      rintro rfl
      exact addressed (by rw [addressee?, asked]; rfl)
    exact Store.get?_change_of_ne other s c

end Frontend

end ByteTape.Web
