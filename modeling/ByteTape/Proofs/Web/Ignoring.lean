import ByteTape.Proofs.Session.Chunking
import ByteTape.Proofs.Session.Renewal
import ByteTape.Proofs.Web.Standard

/-!
# Runs past breakpoints

A run past the breakpoints sets them aside and puts them back, whether it fails or not. Nothing that
it answers or does tells which breakpoints there were, or what was hit before.
-/

namespace ByteTape

/-- An outcome where breakpoints have been put back and nothing counts as hit. -/
def Outcome.restored (b : Breakpoints) (o : Outcome) : Outcome :=
  { o with session := { o.session with breakpoints := b, hit := none } }

/-- An old hit makes no difference to what a run does. -/
theorem Session.runUntilBreak_restored (s : Session) (hit : Option Nat) (b : Breakpoints)
    (code : Code) (w : Workspace) (limit : Option Int) (fuel : Nat) :
    (({ s with hit := hit } : Session).runUntilBreak code w limit fuel).map (Outcome.restored b) =
      (s.runUntilBreak code w limit fuel).map (Outcome.restored b) := by
  rw [runUntilBreak, runUntilBreak]
  by_cases met : Met limit #[]
  · cases fuel with
    | zero => rfl
    | succ fuel =>
      rw [runOn_of_met met, runOn_of_met met]
      rfl
  · rw [← runOn_unhit met, ← runOn_unhit (s := s) met]
    rfl

namespace Web

open Frontend

variable {f : Frontend} {r : Record} {limit : Option Int} {ignore : Bool} {b : Breakpoints}

/-- A run past the breakpoints does what a run does where there are none. -/
theorem runSession_past (free : ignore = true ∨ b = {}) (hit : Option Nat) (fuel : Nat) :
    runSession r ⟨limit, true⟩ fuel =
      (runSession { r with session := { r.session with breakpoints := b, hit := hit } }
        ⟨limit, ignore⟩ fuel).map (Outcome.restored r.session.breakpoints) := by
  have past := r.session.clearBreakpoints.runUntilBreak_restored hit r.session.breakpoints
    r.program.code r.workspace limit fuel
  cases ignore with
  | true =>
    simp only [runSession, ↓reduceIte, Option.map_map]
    exact past.symm
  | false =>
    obtain rfl := free.resolve_left Bool.false_ne_true
    exact past.symm

/-- Take a stored session, and another one that is the same but for its breakpoints and its last
hit. A request to run past the breakpoints of the first one gets the answer for the same states, or
for the same failure, as a request to run the other one, if that is past its breakpoints as well or
there are none. Afterwards the first session is the same as the other one, except that it still has
its own breakpoints, and nothing counts as hit. -/
theorem ignoring_transparent {s : Store} {q q' : Request} {id : String}
    (stored : s.get? id = some r) (asked : f.asked q = some (id, .ok (.run ⟨limit, true⟩)))
    (asked' : f.asked q' = some (id, .ok (.run ⟨limit, ignore⟩))) (free : ignore = true ∨ b = {})
    (hit : Option Nat) (fuel : Nat) :
    let s' := s.put id { r with session := { r.session with breakpoints := b, hit := hit } }
    Option.Rel
      (fun x y => ∃ r₁ r₂ : Record, x.2 = s.put id r₁ ∧ y.2 = s'.put id r₂ ∧
        r₁ = { r₂ with session :=
          { r₂.session with breakpoints := r.session.breakpoints, hit := none } } ∧
        ((∃ states, x.1 = .session 200 [("states", statesJson states)] id r₁ ∧
            y.1 = .session 200 [("states", statesJson states)] id r₂) ∨
          ∃ e, x.1 = .conflict e ∧ y.1 = .conflict e))
      (f.handle s q fuel) (f.handle s' q' fuel) := by
  intro s'
  rw [handle_of_asked asked, handle_of_asked asked', stored, Store.get?_put_self]
  simp only [Record.follow]
  rw [runSession_past free hit]
  cases runSession { r with session := { r.session with breakpoints := b, hit := hit } }
    ⟨limit, ignore⟩ fuel with
  | none => exact .none
  | some o =>
    obtain ⟨e | states, w, t⟩ := o
    · exact .some ⟨_, _, rfl, rfl, rfl, .inr ⟨e, rfl, rfl⟩⟩
    · exact .some ⟨_, _, rfl, rfl, rfl, .inl ⟨states, rfl, rfl⟩⟩

/-- A run of the code `+,` over no input fails, and a breakpoint after its first instruction stays
where it is when the run goes past it. Without that breakpoint a plain run fails in the same way. -/
theorem ignoring_transparent_hungry :
    let past := (Route.run "a").request (jsonBody (.record [("ignore_breakpoints", .bool true)]))
    let plain := (Route.run "a").request (jsonBody (.record []))
    let r : Record := { hungryRecord with session := hungryRecord.session.addBreakpoint 1 }
    ∃ r₁ t, standard.handle (({} : Store).put "a" r) past 9 =
        some (.conflict .inputExhausted, ({} : Store).put "a" r₁) ∧
      r₁.session.breakpoints.points = [1] ∧ r₁.session.hit = none ∧
      standard.handle (({} : Store).put "a" hungryRecord) plain 9 =
        some (.conflict .inputExhausted, t) := by
  intro past plain r
  have asked : standard.asked past = some ("a", .ok (.run ⟨none, true⟩)) :=
    lawful_standard.asked_run (by decide) (toOption_eq_some_iff.1 (by decide +kernel))
  have asked' : standard.asked plain = some ("a", .ok (.run ⟨none, false⟩)) :=
    lawful_standard.asked_run (by decide) (toOption_eq_some_iff.1 (by decide +kernel))
  have stored : (({} : Store).put "a" r).get? "a" = some r := Store.get?_put_self _ _ _
  obtain ⟨s, hx⟩ : ∃ s, standard.handle (({} : Store).put "a" r) past 9 =
      some (.conflict .inputExhausted, s) := by
    rw [handle_of_asked asked, stored]
    exact ⟨_, rfl⟩
  obtain ⟨⟨a, t⟩, hy⟩ :
      ∃ y, standard.handle (({} : Store).put "a" hungryRecord) plain 9 = some y := by
    rw [handle_of_asked asked', Store.get?_put_self]
    exact ⟨_, rfl⟩
  have same := ignoring_transparent stored asked asked' (b := {}) (.inr rfl) none 9
  obtain ⟨r₁, r₂, rfl, -, rfl, ⟨states, shown, -⟩ | ⟨e, failed, rfl⟩⟩ := rel_of_eq_some same hx hy
  · cases congrArg Answer.status shown
  · have told : Answer.conflict .inputExhausted = .conflict e := failed
    exact ⟨_, t, hx, rfl, rfl, told ▸ hy⟩

end Web

end ByteTape
