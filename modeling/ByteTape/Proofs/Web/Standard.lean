import ByteTape.Proofs.Web.Addresses
import ByteTape.Web.Standard

/-!
# The standard frontend is lawful

Services can rely on the frontend of the interface. So all that is said of them over lawful
frontends holds of the interface itself.
-/

namespace ByteTape.Web

theorem Answer.refuses_invalid (ps : List Problem) : (Answer.invalid ps).Refuses := by
  simp only [Answer.invalid]
  split <;> simp [Answer.Refuses, Answer.internalError]

theorem Answer.refuses_ofBodyError (e : BodyError) : (Answer.ofBodyError e).Refuses := by
  cases e with
  | problems ps => exact refuses_invalid ps
  | unreadable => exact .inr (.inl rfl)

theorem Destination.unserved {d : Destination} {a : Answer} (h : d.route = .error a) :
    a.Unserved := by
  cases d with
  | found r => cases h
  | wrongMethod | elsewhere | unknown =>
    obtain rfl := Except.error.inj h
    simp [Answer.Unserved, Answer.methodNotAllowed, Answer.redirect, Answer.notFound, Answer.fault]

namespace Frontend

theorem lawful_standard : standard.Lawful where
  locate_path h := by
    simp only [standard, h.locate_path]
    rfl
  unserved h := Destination.unserved h
  refuses_body h := by
    obtain ⟨e, -, rfl⟩ := mapError_eq_error_iff.1 h
    exact Answer.refuses_ofBodyError e
  refuses_position h := by
    obtain ⟨kind, -, rfl⟩ := mapError_eq_error_iff.1 h
    exact Answer.refuses_invalid _

end Frontend

/-- A value as a body. -/
def jsonBody (j : Json) : List UInt8 := Text.encodeUtf8 j.print

/-! ## A session that fails -/

/-- A session for the code `+,` over no input. Its second step fails. -/
def hungrySession : NewSession := ⟨.plain "+,", .plain "", false, 10, none, 200⟩

/-- A request to create that session. -/
def hungryRequest (id : String) : Request :=
  Route.createSession.request (jsonBody (.record [("code", .text "+,")])) id

/-- The program and the session made for such a request. -/
def hungryRecord : Record :=
  let p : Program := ⟨.raw #[.motion .increment, .input], rfl⟩
  { program := p
    session := Session.start p.code { historyLimit := 200 }
    optimized := false
    totalSteps := 1
    totalStepsCapped := false }

namespace Frontend

theorem read_hungryRequest (id : String) :
    standard.read .newSession (hungryRequest id).body = .ok hungrySession := by
  have read : (standard.read .newSession (jsonBody (.record [("code", .text "+,")]))).toOption =
      some hungrySession := by decide +kernel
  exact toOption_eq_some_iff.1 read

theorem route?_hungryRequest (id : String) :
    standard.route? (hungryRequest id) = some .createSession :=
  lawful_standard.route?_request (r := .createSession) (by decide) _ id

theorem handle_hungryRequest (id : String) (s : Store) (fuel : Nat) :
    standard.handle s (hungryRequest id) fuel =
      some (.session 201 [] id hungryRecord, s.put id hungryRecord) :=
  handle_createSession (route?_hungryRequest id) (read_hungryRequest id) s fuel

theorem exists_conflict_of_hungryRecord {q : Request} {id : String}
    (asked : standard.asked q = some (id, .ok (.step 2))) (s : Store) (fuel : Nat) :
    ∃ a t, standard.handle (s.put id hungryRecord) q fuel = some (a, t) ∧ a.status = 409 := by
  rw [handle_of_asked asked, Store.get?_put_self]
  exact ⟨_, _, rfl, rfl⟩

end Frontend

end ByteTape.Web
