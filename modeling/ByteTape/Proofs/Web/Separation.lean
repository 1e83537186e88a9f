import ByteTape.Proofs.Web.Alike
import ByteTape.Proofs.Web.Standard

/-!
# Sessions apart

Without the requests to other sessions, the creations of others and the requests that need no
session, all other requests are answered as before. Whether a session is known when a request in
order is addressed to it depends on nothing but its own creation and deletion.
-/

namespace ByteTape.Web

namespace Frontend

/-- Whether a request leads to a service, but does not concern a session. -/
def isForeign (f : Frontend) (q : Request) (id : String) : Bool :=
  (f.route? q).isSome && !f.concerns q id

/-- The exchanges of a log that are not foreign to a session. -/
abbrev ownLog (f : Frontend) (id : String) (log : List Exchange) : List Exchange :=
  log.filter fun e => !f.isForeign e.request id

variable {f : Frontend} {s s' t : Store} {q : Request} {log : List Exchange} {id : String}

/-- What is not foreign to a session is answered alike by stores that are alike for it. -/
theorem handle_alike_of_not_isForeign (h : Store.Alike id s t) (own : f.isForeign q id = false)
    (fuel : Nat) : Option.Rel (AnswersAlike id) (f.handle s q fuel) (f.handle t q fuel) := by
  cases leads : f.route? q with
  | none =>
    obtain ⟨a, -, same⟩ := exists_handle_of_nowhere leads
    rw [same, same]
    exact .some ⟨rfl, h⟩
  | some route => exact handle_alike h (by simpa [isForeign, leads] using own) fuel

/-- A store stays alike for a session under what is foreign to it. -/
theorem Does.alike_of_isForeign {a : Answer} (does : f.Does q s a t) (h : Store.Alike id s s')
    (foreign : f.isForeign q id) : Store.Alike id t s' := by
  have apart : f.concerns q id = false := by
    simp only [isForeign, Bool.and_eq_true, Bool.not_eq_true'] at foreign
    exact foreign.2
  rwa [Store.Alike, does.get?_eq apart]

/-- What is foreign to a session can be left out. -/
theorem Served.exists_served_ownLog (lawful : f.Lawful) (h : f.Served s log t)
    (alike : Store.Alike id s s') :
    ∃ t', f.Served s' (f.ownLog id log) t' ∧ Store.Alike id t t' := by
  induction h generalizing s' with
  | nil s => exact ⟨s', .nil s', alike⟩
  | @cons s t u q a fuel log answer rest ih =>
    -- A foreign request is skipped, and the other store waits; every other one is answered by both.
    cases foreign : f.isForeign q id with
    | true =>
      have after := (lawful.does_of_handle answer).alike_of_isForeign alike foreign
      obtain ⟨u', served, after⟩ := ih after
      exact ⟨u', by simpa [foreign] using served, after⟩
    | false =>
      have answers := handle_alike_of_not_isForeign alike foreign fuel
      rw [answer] at answers
      cases answer' : f.handle s' q fuel with
      | none => simp [answer'] at answers
      | some x =>
        obtain ⟨a', t'⟩ := x
        rw [answer'] at answers
        obtain ⟨rfl : a = a', stores⟩ := Option.rel_some_some.1 answers
        obtain ⟨u', served, after⟩ := ih stores
        exact ⟨u', by simpa [foreign] using Served.cons answer' served, after⟩

end Frontend

/-! ## Unknown sessions -/

open Frontend

variable {f : Frontend} {s : Store} {q : Request} {log : List Exchange} {id : String}

theorem fault_inj {status : Nat} {detail detail' : String}
    (h : Answer.fault status detail = .fault status detail') : detail = detail' := by
  simpa [Answer.fault, Json.record, Json.text] using h

/-- No missing breakpoint is told like an unknown session. -/
theorem missingBreakpoint_ne_unknown (pc : Int) (id : String) (request : SessionRequest) :
    Answer.fault 404 s!"Breakpoint not found at pc={pc}" ≠ request.unknown id := by
  have first : (s!"Breakpoint not found at pc={pc}").toList.head? = some 'B' := by
    rw [String.toList_append, List.head?_append]
    rfl
  have quoted : (Text.quote (Answer.unknownText id)).toList.head? ≠ some 'B' := by
    simp only [Text.quote, Text.quoteBy, String.toList_ofList, Text.quoteFor]
    split <;> simp [Text.singleQuote, Text.doubleQuote]
  have plain : (Answer.unknownText id).toList.head? = some 'U' := by
    have whole : (Answer.unknownText id).toList = "Unknown session id: ".toList ++ id.toList :=
      String.toList_append
    have start : "Unknown session id: ".toList.head? = some 'U' := by decide
    simp only [whole, List.head?_append, start, Option.some_or]
  cases request with
  | delete =>
    intro same
    rw [fault_inj same, plain] at first
    cases first
  | _ =>
    intro same
    rw [fault_inj same] at first
    exact quoted first

/-- A request in order is told that its session is unknown exactly if it is not stored. -/
theorem handle_eq_unknown_iff {request : SessionRequest}
    (asked : f.asked q = some (id, .ok request)) (s : Store) (fuel : Nat) :
    (f.handle s q fuel).map Prod.fst = some (request.unknown id) ↔ ¬ (s.get? id).isSome := by
  rw [handle_of_asked asked]
  cases s.get? id with
  | none => simp
  | some r =>
    simp only [Option.isSome_some, not_true_eq_false, iff_false, Option.map_map]
    intro same
    obtain ⟨⟨a, c⟩, follows, rfl : a = request.unknown id⟩ := Option.map_eq_some_iff.1 same
    obtain ⟨pc, missing⟩ := Record.exists_of_status_eq_404 follows (status_unknown id request)
    exact missingBreakpoint_ne_unknown pc id request missing.symm

/-- Sessions do not interfere. A log without the exchanges that are foreign to a session is a log as
well, with the same answers, and what concerns the session is answered alike after both. Requests to
the session that are in order are told that it is unknown exactly if it has not been created or has
been deleted since; others are refused by themselves. -/
theorem sessions_apart (lawful : f.Lawful) (served : f.Served {} log s) (id : String) :
    (∃ t, f.Served {} (f.ownLog id log) t ∧
      (∀ log' u, f.Served {} log' u →
        log'.map Exchange.request = (f.ownLog id log).map Exchange.request →
        log' = f.ownLog id log) ∧
      ∀ q fuel, f.concerns q id →
        (f.handle t q fuel).map Prod.fst = (f.handle s q fuel).map Prod.fst) ∧
    (∀ q request fuel, f.asked q = some (id, .ok request) →
      ((f.handle s q fuel).map Prod.fst = some (request.unknown id) ↔ ¬ f.Lives id log)) ∧
    ∀ q a fuel, f.asked q = some (id, .error a) →
      a.status ≠ 404 ∧ f.handle s q fuel = some (a, s) := by
  refine ⟨?_, ?_, ?_⟩
  · obtain ⟨t, own, alike⟩ := served.exists_served_ownLog lawful (Store.Alike.refl id {})
    refine ⟨t, own, fun log' u other same => (other.unique own same).1, ?_⟩
    intro q fuel concerns
    have answers := handle_alike alike concerns fuel
    generalize f.handle s q fuel = x, f.handle t q fuel = y at answers
    cases answers with
    | none => rfl
    | some both => exact congrArg some both.1.symm
  · intro q request fuel asked
    rw [handle_eq_unknown_iff asked, served.isSome_get?_iff_lives lawful]
  · intro q a fuel asked
    have refuses : a.status = 422 ∨ a.status = 400 ∨ a.status = 500 :=
      lawful.refuses_of_asked asked
    exact ⟨by omega, handle_of_refused asked s fuel⟩

/-- Two sessions for the same code, of which the second takes a step. The first is created and shown
as if it were the only one. -/
theorem sessions_apart_of_two :
    let step := (Route.step "b").request (jsonBody (.record []))
    let view := (Route.showSession "a").request
    ∃ a b c s t,
      standard.Served {} [⟨hungryRequest "a", a⟩, ⟨hungryRequest "b", b⟩, ⟨step, c⟩] s ∧
      c.status = 200 ∧ standard.Served {} [⟨hungryRequest "a", a⟩] t ∧
      (standard.handle t view 0).map Prod.fst = (standard.handle s view 0).map Prod.fst := by
  intro step view
  have asked : standard.asked step = some ("b", .ok (.step 1)) :=
    lawful_standard.asked_step (n := ⟨1⟩) (by decide) (toOption_eq_some_iff.1 (by decide +kernel))
  have concerns : standard.concerns view "a" := by
    have asked := lawful_standard.asked_request (r := .showSession "a") (by decide) [] ""
    simp [Frontend.concerns, addressee?, view, asked, askedOf]
  have foreign (id : String) : standard.isForeign (hungryRequest id) "a" = !(id == "a") := by
    have addressee : standard.addressee? (hungryRequest id) = none := by
      rw [addressee?, Frontend.asked, route?_hungryRequest]
      rfl
    simp [isForeign, Frontend.concerns, route?_hungryRequest, addressee]
    rfl
  obtain ⟨c, u, answer, status⟩ : ∃ c u,
      standard.handle ((({} : Store).put "a" hungryRecord).put "b" hungryRecord) step 0 =
        some (c, u) ∧ c.status = 200 := by
    rw [handle_of_asked asked, Store.get?_put_self]
    exact ⟨_, _, rfl, rfl⟩
  have served := Served.cons (handle_hungryRequest "a" {} 0)
    (.cons (handle_hungryRequest "b" _ 0) (.cons answer (.nil u)))
  obtain ⟨⟨t, own, -, same⟩, -, -⟩ := sessions_apart lawful_standard served "a"
  have stepForeign : standard.isForeign step "a" := by
    have leads : standard.route? step = some (.step "b") :=
      lawful_standard.route?_request (by decide) _ _
    simp [isForeign, Frontend.concerns, addressee?, asked, leads]
  simp only [ownLog, List.filter_cons, foreign, stepForeign] at own
  exact ⟨_, _, c, u, t, served, status, own, same view 0 concerns⟩

/-- A request for no steps is refused for its count although there is no session to take them. -/
theorem handle_refused_of_unknown :
    let body := jsonBody (.record [("count", .int 0)])
    let step := (Route.step "a").request body
    standard.addressee? step = some "a" ∧ ¬ standard.Lives "a" [] ∧
      ∃ a, a.status = 422 ∧ ∀ fuel, standard.handle {} step fuel = some (a, {}) := by
  intro body step
  have refused : ((standard.read .stepCount body).mapError Answer.status).map (fun _ => ()) =
      .error 422 := by
    decide +kernel
  obtain ⟨a, read, status⟩ := mapError_eq_error_iff.1 (map_eq_error_iff.1 refused)
  have asked : standard.asked step = some ("a", .error a) := by
    rw [lawful_standard.asked_request (by decide), askedOf, read]
    rfl
  exact ⟨by rw [addressee?, asked]; rfl, not_lives_nil, a, status, handle_of_refused asked {}⟩

end ByteTape.Web
