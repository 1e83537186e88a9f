import ByteTape.Web.Form
import ByteTape.Web.Message
import ByteTape.Web.Route

/-!
# Frontends

A frontend stands between requests and services. It finds out where a request leads and reads what
comes with it, and whatever it can make nothing of it answers by itself. The services are written
over any frontend. What they rely on is that every service is reached at its address, and that the
frontend tells its own answers from theirs by the status.
-/

namespace ByteTape.Web

/-- How requests are read. -/
structure Frontend where
  /-- The service that a method and a path lead to. -/
  locate (method path : String) : Except Answer Route
  /-- What a body holds that is to be of some form. -/
  read {α : Type} (form : Form α) (body : List UInt8) : Except Answer α
  /-- The position that a name in a path stands for. -/
  position (name : String) : Except Answer Int

/-- The answer to a request that leads to no service: there is nothing at its path, or nothing for
its method, or it is sent elsewhere, or it gets a page of the frontend's own. -/
def Answer.Unserved (a : Answer) : Prop :=
  a.status = 404 ∨ a.status = 405 ∨ a.status = 307 ∨ a.status = 200

/-- The answer to a request whose values have problems, whose body cannot be read, or over which the
frontend breaks down. -/
def Answer.Refuses (a : Answer) : Prop := a.status = 422 ∨ a.status = 400 ∨ a.status = 500

/-- What services rely on in a frontend. -/
structure Frontend.Lawful (f : Frontend) : Prop where
  locate_path : ∀ {r : Route}, r.Addressable → f.locate r.method r.path = .ok r
  unserved : ∀ {method path : String} {a : Answer}, f.locate method path = .error a → a.Unserved
  refuses_body : ∀ {α : Type} {form : Form α} {body : List UInt8} {a : Answer},
    f.read form body = .error a → a.Refuses
  refuses_position : ∀ {name : String} {a : Answer}, f.position name = .error a → a.Refuses

end ByteTape.Web
