import ByteTape.Proofs.Web.SessionRequest

/-!
# Serving requests

The interface answers one request after the other. The requests alone settle what is answered, and
which sessions are stored can be read off the answers: those that have been created and not deleted
since.
-/

namespace ByteTape.Web

/-! ## Fuel -/

theorem executeProgram_mono {w : WholeRun} {a : Answer} {fuel more : Nat} (le : fuel ≤ more)
    (h : executeProgram w fuel = some a) : executeProgram w more = some a := by
  unfold executeProgram at *
  split at h
  · exact h
  · exact h
  · rename_i p input _ _
    simp only [Program.run, Option.map_map, Option.map_eq_some_iff] at h ⊢
    obtain ⟨f, ran, same⟩ := h
    exact ⟨f, Buffers.device.resume_mono p.code w.limit le ran, same⟩

theorem runSession_mono {r : Record} {limit : RunLimit} {o : Outcome} {fuel more : Nat}
    (le : fuel ≤ more) (h : runSession r limit fuel = some o) :
    runSession r limit more = some o := by
  simp only [runSession] at *
  split
  · rw [if_pos ‹_›, Option.map_eq_some_iff] at h
    obtain ⟨o', ran, rfl⟩ := h
    rw [Session.runUntilBreak, Session.runOn_mono le ran, Option.map_some]
  · rw [if_neg ‹_›] at h
    exact Session.runOn_mono le h

theorem follow_mono {r : Record} {id : String} {request : SessionRequest} {x : Answer × Change}
    {fuel more : Nat} (le : fuel ≤ more) (h : r.follow id fuel request = some x) :
    r.follow id more request = some x := by
  cases request with
  | run limit =>
    obtain ⟨o, ran, rfl⟩ := Option.map_eq_some_iff.1 h
    rw [Record.follow, runSession_mono le ran, Option.map_some]
  | _ => exact h

/-- More fuel keeps an answer. -/
theorem Frontend.handle_mono {f : Frontend} {s : Store} {q : Request} {x : Answer × Store}
    {fuel more : Nat} (le : fuel ≤ more) (h : f.handle s q fuel = some x) :
    f.handle s q more = some x := by
  -- Only runs take fuel, those of sessions and those of whole programs.
  cases asked : f.asked q with
  | some target =>
    obtain ⟨id, b | request⟩ := target
    · rw [handle_of_refused asked] at *
      exact h
    · rw [handle_of_asked asked] at *
      split at h
      · exact h
      · obtain ⟨done, follows, same⟩ := Option.map_eq_some_iff.1 h
        rw [follow_mono le follows, ← same, Option.map_some]
  | none =>
    cases leads : f.route? q with
    | none =>
      obtain ⟨a, -, same⟩ := exists_handle_of_nowhere leads
      rw [same] at *
      exact h
    | some route =>
      rw [handle_of_route leads] at *
      rw [Frontend.asked, leads, Option.bind_some] at asked
      cases route with
      | createSession | fold => exact h
      | execute =>
        rw [serve, withBody] at *
        split at h
        · exact h
        · obtain ⟨a, ran, same⟩ := Option.map_eq_some_iff.1 h
          rw [executeProgram_mono le ran, ← same, Option.map_some]
      | _ => cases asked

/-! ## Logs -/

/-- A request with its answer. -/
structure Exchange where
  request : Request
  answer : Answer

namespace Frontend

/-- Requests are answered one after the other. A request that is never answered ends a log before
it. -/
inductive Served (f : Frontend) : Store → List Exchange → Store → Prop where
  | nil (s : Store) : Served f s [] s
  | cons {s t u : Store} {q : Request} {a : Answer} {fuel : Nat} {log : List Exchange}
      (answer : f.handle s q fuel = some (a, t)) (rest : Served f t log u) :
      Served f s (⟨q, a⟩ :: log) u

variable {f : Frontend} {s t u : Store} {log log' : List Exchange} {id : String}

/-- The requests settle the answers and the store that is left. -/
theorem Served.unique (h : f.Served s log t) (h' : f.Served s log' u)
    (same : log.map Exchange.request = log'.map Exchange.request) : log = log' ∧ t = u := by
  induction h generalizing log' with
  | nil s =>
    obtain rfl := List.map_eq_nil_iff.1 same.symm
    cases h'
    exact ⟨rfl, rfl⟩
  | @cons s t v q a fuel log answer rest ih =>
    cases h' with
    | nil => cases same
    | @cons _ t' _ q' a' fuel' log' answer' rest' =>
      obtain ⟨rfl : q = q', others⟩ := List.cons.inj same
      have both := (handle_mono (le_max_left fuel fuel') answer).symm.trans
        (handle_mono (le_max_right fuel fuel') answer')
      obtain ⟨rfl, rfl⟩ := Prod.mk.inj (Option.some.inj both)
      obtain ⟨rfl, rfl⟩ := ih rest' others
      exact ⟨rfl, rfl⟩

/-- What every deed in a log keeps holds of the store that is left. -/
theorem Served.invariant {P : Store → Prop} (lawful : f.Lawful) (h : f.Served s log t)
    (keep : ∀ e ∈ log, ∀ s t, P s → f.Does e.request s e.answer t → P t) (start : P s) : P t := by
  induction h with
  | nil => exact start
  | cons answer rest ih =>
    obtain ⟨first, others⟩ := List.forall_mem_cons.1 keep
    exact ih others (first _ _ start (lawful.does_of_handle answer))

/-! ## Stored sessions -/

def Creates (f : Frontend) (e : Exchange) (id : String) : Prop :=
  f.route? e.request = some .createSession ∧ e.request.newId = id ∧ e.answer.status = 201

def Deletes (f : Frontend) (e : Exchange) (id : String) : Prop :=
  f.asked e.request = some (id, .ok .delete) ∧ e.answer.status = 204

/-- What is asked of a session creates none. -/
theorem not_creates_of_asked {e : Exchange} {what : String × Except Answer SessionRequest}
    (asked : f.asked e.request = some what) (id : String) : ¬ f.Creates e id := by
  rintro ⟨leads, -⟩
  rw [Frontend.asked, leads] at asked
  cases asked

/-- A session has been created and not deleted since. -/
def Lives (f : Frontend) (id : String) (log : List Exchange) : Prop :=
  ∃ before e after, log = before ++ e :: after ∧ f.Creates e id ∧ ∀ x ∈ after, ¬ f.Deletes x id

theorem lives_cons {e : Exchange} :
    f.Lives id (e :: log) ↔ f.Lives id log ∨ (f.Creates e id ∧ ∀ x ∈ log, ¬ f.Deletes x id) := by
  constructor
  · rintro ⟨_ | ⟨e', before⟩, x, after, same, creates, free⟩
    · obtain ⟨rfl, rfl⟩ := List.cons.inj same
      exact .inr ⟨creates, free⟩
    · obtain ⟨rfl, rfl⟩ := List.cons.inj same
      exact .inl ⟨before, x, after, rfl, creates, free⟩
  · rintro (⟨before, x, after, rfl, creates, free⟩ | ⟨creates, free⟩)
    · exact ⟨e :: before, x, after, rfl, creates, free⟩
    · exact ⟨[], e, log, rfl, creates, free⟩

theorem not_lives_nil : ¬ f.Lives id [] := by
  rintro ⟨before, e, after, same, -⟩
  simp at same

/-- An answer leaves a session stored exactly if it creates it, or it was stored and is not
deleted. -/
theorem Does.isSome_get?_iff {q : Request} {a : Answer} (h : f.Does q s a t) (id : String) :
    (t.get? id).isSome ↔
      f.Creates ⟨q, a⟩ id ∨ (s.get? id).isSome ∧ ¬ f.Deletes ⟨q, a⟩ id := by
  cases h with
  | nothing uncreated undeleted => simp [Creates, Deletes, uncreated, undeleted]
  | create leads r o session =>
    simp only [Store.get?_put, Creates, Deletes, leads, Answer.session]
    by_cases same : id = q.newId
    · simp [same]
    · simp [same, Ne.symm same]
  | @follow k request r fuel a c asked stored follows =>
    have uncreated : ¬ f.Creates ⟨q, a⟩ id := not_creates_of_asked asked id
    have deletes : f.Deletes ⟨q, a⟩ id ↔ id = k ∧ request = .delete ∧ a.status = 204 := by
      simp [Deletes, asked, eq_comm, and_assoc]
    rw [deletes]
    by_cases same : id = k
    · subst same
      rcases Record.follow_cases follows with
        ⟨rfl, status, rfl⟩ | ⟨status, rfl⟩ | ⟨status, r', rfl⟩
      · simp [Store.change, uncreated, status]
      · have undeleted : a.status ≠ 204 := by omega
        simp [Store.change, uncreated, undeleted]
      · have undeleted : a.status ≠ 204 := by omega
        simp [Store.change, uncreated, undeleted, stored]
    · simp [Store.get?_change_of_ne same, uncreated, same]

/-- The stored sessions are those that were stored before and not deleted, or created and not
deleted since. -/
theorem Served.isSome_get?_iff (lawful : f.Lawful) (h : f.Served s log t) (id : String) :
    (t.get? id).isSome ↔ f.Lives id log ∨ (s.get? id).isSome ∧ ∀ e ∈ log, ¬ f.Deletes e id := by
  induction h with
  | nil s => simp [not_lives_nil]
  | cons answer rest ih =>
    rw [ih, lives_cons, (lawful.does_of_handle answer).isSome_get?_iff, List.forall_mem_cons]
    tauto

theorem Served.isSome_get?_iff_lives (lawful : f.Lawful) (h : f.Served {} log t) (id : String) :
    (t.get? id).isSome ↔ f.Lives id log := by
  simp [h.isSome_get?_iff lawful id]

/-- What holds of every new session, and what no request takes away, holds of every stored one. -/
theorem Served.stored {P : Code → Session → Prop} (lawful : f.Lawful) (h : f.Served {} log t)
    (start : ∀ code o, P code (Session.start code o)) (lasting : ∀ code, Lasting code (P code)) :
    ∀ id r, t.get? id = some r → P r.program.code r.session := by
  refine h.invariant (P := fun s => ∀ id r, s.get? id = some r → P r.program.code r.session)
    lawful ?_ ?_
  · rintro ⟨q, a⟩ - s t before (does : f.Does q s a t) id r stored
    cases does with
    | nothing => exact before id r stored
    | create leads r' o session =>
      rw [Store.get?_put] at stored
      split at stored
      · obtain rfl := Option.some.inj stored
        exact session ▸ start _ o
      · exact before id r stored
    | @follow k request r' fuel a c asked stored' follows =>
      by_cases same : id = k
      · subst same
        rcases Record.follow_cases follows with ⟨-, -, rfl⟩ | ⟨-, rfl⟩ | ⟨-, r'', rfl⟩
        · simp [Store.change] at stored
        · exact before id r stored
        · obtain rfl : r'' = r := by simpa [Store.change] using stored
          have code : r''.program = r'.program := by rw [Record.follow_put_eq follows]
          rw [code]
          exact (lasting _).follow (before id r' stored') follows
      · rw [Store.get?_change_of_ne same] at stored
        exact before id r stored
  · simp

/-- A stored session that is neither created again nor deleted stays as it is, unless it is changed
by its own answer. -/
theorem Does.get?_cases {q : Request} {a : Answer} {r : Record} (h : f.Does q s a t)
    (stored : s.get? id = some r) (uncreated : ¬ f.Creates ⟨q, a⟩ id)
    (undeleted : ¬ f.Deletes ⟨q, a⟩ id) :
    t.get? id = some r ∨ ∃ request r' fuel, f.asked q = some (id, .ok request) ∧
      r.follow id fuel request = some (a, .put r') ∧ t.get? id = some r' := by
  cases h with
  | nothing => exact .inl stored
  | create leads r' o session =>
    have other : id ≠ q.newId := fun same => uncreated ⟨leads, same.symm, rfl⟩
    exact .inl (by rw [Store.get?_put, if_neg other, stored])
  | @follow k request r' fuel a c asked stored' follows =>
    by_cases same : id = k
    · subst same
      obtain rfl : r' = r := Option.some.inj (stored'.symm.trans stored)
      rcases Record.follow_cases follows with ⟨rfl, status, -⟩ | ⟨-, rfl⟩ | ⟨-, r'', rfl⟩
      · exact absurd ⟨asked, status⟩ undeleted
      · exact .inl stored
      · exact .inr ⟨request, r'', fuel, asked, follows, by rw [Store.change, Store.get?_put_self]⟩
    · exact .inl (by rw [Store.get?_change_of_ne same, stored])

/-- What a stored session keeps when it is changed by its answers, it keeps until it is created
again or deleted. -/
theorem Served.exists_get?_eq {P : Record → Prop} (lawful : f.Lawful) (h : f.Served s log t)
    (neither : ∀ e ∈ log, ¬ f.Creates e id ∧ ¬ f.Deletes e id)
    (keep : ∀ e ∈ log, ∀ r request r' fuel, P r → f.asked e.request = some (id, .ok request) →
      r.follow id fuel request = some (e.answer, .put r') → P r')
    (start : ∃ r, s.get? id = some r ∧ P r) : ∃ r, t.get? id = some r ∧ P r := by
  refine h.invariant (P := fun s => ∃ r, s.get? id = some r ∧ P r) lawful ?_ start
  rintro e inside s t ⟨r, stored, holds⟩ does
  obtain ⟨uncreated, undeleted⟩ := neither e inside
  rcases does.get?_cases stored uncreated undeleted with
    same | ⟨request, r', fuel, asked, follows, stored'⟩
  · exact ⟨r, same, holds⟩
  · exact ⟨r', stored', keep e inside r request r' fuel holds asked follows⟩

end Frontend

end ByteTape.Web
