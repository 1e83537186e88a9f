import ByteTape.Proofs.Text.Splitting
import ByteTape.Proofs.Web.SessionRequest

/-!
# Addresses of services

The path of a service is made of names with slashes between them. Every service is reached at its
own address, provided that an identifier or a position in it is neither empty nor has slashes.
-/

namespace ByteTape.Web

namespace Route

variable {r : Route}

theorem Addressable.pathMethods_path (h : r.Addressable) :
    pathMethods r.path = methodsFor r.names := by
  have whole : ∀ name ∈ "" :: r.names, '/' ∉ name.toList :=
    List.forall_mem_cons.2 ⟨by decide, fun name inside => (h name inside).2⟩
  have split : r.path.splitOn "/" = "" :: r.names :=
    Text.splitOn_intercalate_singleton (List.cons_ne_nil _ _) whole
  simp only [pathMethods, split]

theorem Addressable.find?_methodsAt (h : r.Addressable) :
    (methodsAt r.names).find? (·.1 == r.method) = some (r.method, r) := by
  cases r <;> simp_all [Addressable, names, methodsAt, method]

/-- Every service is found at its address. -/
theorem Addressable.locate_path (h : r.Addressable) : locate r.method r.path = .found r := by
  have found := h.find?_methodsAt
  have same : methodsFor r.names = methodsAt r.names := by
    rw [methodsFor]
    split
    · rename_i none
      simp [none] at found
    · rfl
  rw [locate, h.pathMethods_path, same, found]

/-- A request for a service, sent to its address. -/
def request (r : Route) (body : List UInt8 := []) (newId : String := "") : Request :=
  ⟨r.method, r.path, body, newId⟩

end Route

namespace Frontend

variable {f : Frontend} {r : Route} {id : String} {body : List UInt8}

theorem Lawful.route?_request (lawful : f.Lawful) (h : r.Addressable) (body : List UInt8)
    (newId : String) : f.route? (r.request body newId) = some r := by
  exact toOption_eq_some_iff.2 (lawful.locate_path h)

theorem Lawful.asked_request (lawful : f.Lawful) (h : r.Addressable) (body : List UInt8)
    (newId : String) : f.asked (r.request body newId) = f.askedOf body r := by
  rw [asked, lawful.route?_request h, Option.bind_some]
  rfl

theorem Lawful.asked_step (lawful : f.Lawful) {n : StepCount} (h : (Route.step id).Addressable)
    (read : f.read .stepCount body = .ok n) :
    f.asked ((Route.step id).request body) = some (id, .ok (.step n.count)) := by
  rw [lawful.asked_request h, askedOf, read]
  rfl

theorem Lawful.asked_run (lawful : f.Lawful) {limit : RunLimit} (h : (Route.run id).Addressable)
    (read : f.read .runLimit body = .ok limit) :
    f.asked ((Route.run id).request body) = some (id, .ok (.run limit)) := by
  rw [lawful.asked_request h, askedOf, read]
  rfl

theorem handle_createSession {q : Request} {n : NewSession}
    (leads : f.route? q = some .createSession) (read : f.read .newSession q.body = .ok n)
    (s : Store) (fuel : Nat) : f.handle s q fuel = some (createSession s q.newId n) := by
  rw [handle_of_route leads, serve, withBody, read]

end Frontend

end ByteTape.Web
