import ByteTape.Proofs.Session.Renewal
import ByteTape.Proofs.Web.Separation

/-!
# Sessions that are reset

However a session has got on, its reset brings back the session that was created. The workspace is
not brought back; the first step clears it.
-/

namespace ByteTape.Web

open Frontend

variable {f : Frontend} {s s' t : Store} {q : Request} {a : Answer} {fuel : Nat}
  {log : List Exchange} {id : String}

/-- The session that a creation puts into the store is shown in its answer. -/
theorem exists_of_creates (lawful : f.Lawful) (h : f.handle s q fuel = some (a, t))
    (creates : f.Creates ⟨q, a⟩ id) :
    ∃ r o, r.session = Session.start r.program.code o ∧ a = .session 201 [] id r ∧
      t = s.put id r := by
  cases lawful.does_of_handle h with
  | nothing uncreated => exact absurd creates.2.2 uncreated
  | create leads r o session =>
    obtain rfl : q.newId = id := creates.2.1
    exact ⟨r, o, session, rfl, rfl⟩
  | follow asked => exact absurd creates (not_creates_of_asked asked id)

/-- Nothing that the set-up of a session rests on is changed by a request. -/
theorem lasting_continues (code : Code) (s : Session) : Lasting code s.Continues where
  toKept := Session.kept_continues code s
  reset _ h := ⟨h.options, h.codeLength⟩
  setBreakpoints _ _ h := ⟨h.options, h.codeLength⟩

/-- The same record further on. -/
def Record.Continues (r r' : Record) : Prop :=
  ∃ w t, r.session.Continues t ∧ r' = { r with workspace := w, session := t }

theorem Record.Continues.follow {r r' r'' : Record} {request : SessionRequest}
    (h : r.Continues r') (follows : r'.follow id fuel request = some (a, .put r'')) :
    r.Continues r'' := by
  obtain ⟨w, t, session, same⟩ := h
  have before : r.session.Continues r'.session := by rwa [same]
  have after := (lasting_continues r'.program.code r.session).follow before follows
  rw [follow_put_eq follows, same]
  exact ⟨_, _, after, rfl⟩

/-- Logs of what concerns a session can be had alike from stores that are alike for it. -/
theorem Frontend.Served.exists_served (lawful : f.Lawful) (served : f.Served s log t)
    (h : Store.Alike id s s') (own : ∀ e ∈ log, f.concerns e.request id) :
    ∃ t', f.Served s' log t' := by
  have same : f.ownLog id log = log :=
    List.filter_eq_self.2 fun e inside => by simp [isForeign, own e inside]
  obtain ⟨t', served', -⟩ := served.exists_served_ownLog lawful h
  exact ⟨t', same ▸ served'⟩

/-- Whatever has been asked of a session since its creation, its reset is answered like the creation
but for the status, and everything that concerns it is answered from then on as it would have been
answered after the creation. -/
theorem reset_like_creation (lawful : f.Lawful) {s₀ s₁ s₂ : Store} {create reset : Request}
    (created : f.handle s₀ create fuel = some (a, s₁)) (creates : f.Creates ⟨create, a⟩ id)
    (served : f.Served s₁ log s₂) (neither : ∀ e ∈ log, ¬ f.Creates e id ∧ ¬ f.Deletes e id)
    (asked : f.asked reset = some (id, .ok .reset)) :
    ∃ s₃, (∀ fuel, f.handle s₂ reset fuel = some ({ a with status := 200 }, s₃)) ∧
      ∀ further, (∀ e ∈ further, f.concerns e.request id) →
        ((∃ t, f.Served s₃ further t) ↔ ∃ t, f.Served s₁ further t) := by
  obtain ⟨r, o, session, rfl, rfl⟩ := exists_of_creates lawful created creates
  have start : ∃ r', (s₀.put id r).get? id = some r' ∧ r.Continues r' :=
    ⟨r, Store.get?_put_self _ _ _, r.workspace, r.session, ⟨rfl, rfl⟩, rfl⟩
  obtain ⟨_, stored, w, t, continues, rfl⟩ := served.exists_get?_eq lawful neither
    (fun e _ r' request r'' fuel before _ follows => before.follow follows) start
  have again : t.reset = r.session := by
    rw [session] at continues ⊢
    exact continues.reset_eq
  refine ⟨s₂.put id { r with workspace := w }, fun fuel => ?_, fun further own => ?_⟩
  · rw [handle_of_asked asked, stored]
    simp only [Record.follow, Record.present, again]
    rfl
  · have fresh : r.session.stepper.stage = .fresh := by
      rw [session]
      rfl
    have alike : Store.Alike id (s₀.put id r) (s₂.put id { r with workspace := w }) :=
      Store.Alike.put (.intro w (.inl fresh))
    constructor
    · rintro ⟨t, served⟩
      exact served.exists_served lawful alike.symm own
    · rintro ⟨t, served⟩
      exact served.exists_served lawful alike own

/-- A session whose second step fails is shown after its reset as it was shown at first. -/
theorem reset_like_creation_failed :
    let step := (Route.step "a").request (jsonBody (.record [("count", .int 2)]))
    let reset := (Route.resetSession "a").request
    let a := Answer.session 201 [] "a" hungryRecord
    ∃ b s₁ s₂ s₃, standard.handle {} (hungryRequest "a") 0 = some (a, s₁) ∧
      standard.handle s₁ step 0 = some (b, s₂) ∧ b.status = 409 ∧
      standard.handle s₂ reset 0 = some ({ a with status := 200 }, s₃) := by
  intro step reset a
  have created := handle_hungryRequest "a" {} 0
  have asked : standard.asked step = some ("a", .ok (.step 2)) :=
    lawful_standard.asked_step (n := ⟨2⟩) (by decide) (toOption_eq_some_iff.1 (by decide +kernel))
  have asked' : standard.asked reset = some ("a", .ok .reset) :=
    lawful_standard.asked_request (r := .resetSession "a") (by decide) [] ""
  obtain ⟨b, s₂, answer, status⟩ := exists_conflict_of_hungryRecord asked {} 0
  have neither : ∀ e ∈ [Exchange.mk step b],
      ¬ standard.Creates e "a" ∧ ¬ standard.Deletes e "a" := by
    simp only [List.forall_mem_singleton]
    exact ⟨not_creates_of_asked asked "a", by simp [Deletes, asked]⟩
  obtain ⟨s₃, again, -⟩ := reset_like_creation lawful_standard created
    ⟨route?_hungryRequest "a", rfl, rfl⟩ (.cons answer (.nil s₂)) neither asked'
  exact ⟨b, _, s₂, s₃, created, answer, status, again 0⟩

end ByteTape.Web
