import ByteTape.Proofs.Session.Playing
import Mathlib.Data.Option.Defs

/-!
# Sessions that start again

A session that starts again leaves the workspace to its stepper, which clears it with the first
step. So what is in the workspace by then makes no difference to anything that is done with the
session.
-/

namespace ByteTape

section Options

variable {α β γ δ : Type} {R : α → β → Prop} {x : Option α} {y : Option β}

theorem rel_map {S : γ → δ → Prop} {f : α → γ} {g : β → δ}
    (both : ∀ a b, R a b → S (f a) (g b)) (h : Option.Rel R x y) :
    Option.Rel S (x.map f) (y.map g) := by
  cases h with
  | none => exact .none
  | some h => exact .some (both _ _ h)

theorem rel_bind {S : γ → δ → Prop} {f : α → Option γ} {g : β → Option δ} (h : Option.Rel R x y)
    (both : ∀ a b, R a b → Option.Rel S (f a) (g b)) : Option.Rel S (x.bind f) (y.bind g) := by
  cases h with
  | none => exact .none
  | some h => exact both _ _ h

theorem rel_trans {S : β → γ → Prop} {T : α → γ → Prop} {z : Option γ} (h : Option.Rel R x y)
    (h' : Option.Rel S y z) (both : ∀ a b c, R a b → S b c → T a c) : Option.Rel T x z := by
  cases h with
  | none =>
    cases h'
    exact .none
  | some h =>
    cases h' with
    | some h' => exact .some (both _ _ _ h h')

theorem rel_of_eq_some {a : α} {b : β} (h : Option.Rel R x y) (hx : x = some a) (hy : y = some b) :
    R a b := by
  subst hx hy
  cases h with
  | some h => exact h

end Options

/-- Outcomes that differ at most in a workspace that the next step clears. -/
structure Outcome.Alike (o o' : Outcome) : Prop where
  result : o.result = o'.result
  session : o.session = o'.session
  workspace : o.session.stepper.stage = .fresh ∨ o.workspace = o'.workspace

namespace Session

variable {code : Code} {w w' : Workspace} {s : Session}

theorem stepOn_alike (h : s.stepper.stage = .fresh ∨ w = w') (count : Nat)
    (states : Array Snapshot) :
    (stepOn code count w s states).Alike (stepOn code count w' s states) := by
  rcases h with fresh | rfl
  · cases count with
    | zero => exact ⟨rfl, rfl, .inl fresh⟩
    | succ count =>
      cases finished : s.finished with
      | true =>
        simp only [stepOn, finished, ↓reduceIte]
        exact ⟨rfl, rfl, .inl fresh⟩
      | false =>
        have same : s.stepper.next code w = s.stepper.next code w' := by
          rw [Stepper.next_of_fresh fresh w, Stepper.next_of_fresh fresh w']
        simp only [stepOn, finished, same]
        exact ⟨rfl, rfl, .inr rfl⟩
  · exact ⟨rfl, rfl, .inr rfl⟩

theorem stepForward_alike (h : s.stepper.stage = .fresh ∨ w = w') (count : Int) :
    (s.stepForward code w count).Alike (s.stepForward code w' count) := by
  unfold stepForward
  split
  · exact ⟨rfl, rfl, h⟩
  · exact stepOn_alike (s := s.unhit) h _ _

theorem runOn_alike (h : s.stepper.stage = .fresh ∨ w = w') (limit : Option Int) (fuel : Nat)
    (states : Array Snapshot) :
    Option.Rel Outcome.Alike (runOn code limit fuel w s states)
      (runOn code limit fuel w' s states) := by
  induction fuel generalizing w w' s states with
  | zero => exact .none
  | succ fuel ih =>
    rw [runOn, runOn]
    split
    · exact .some ⟨rfl, rfl, h⟩
    · have step : (s.stepForward code w 1).Alike (s.stepForward code w' 1) := stepForward_alike h 1
      generalize s.stepForward code w 1 = o at step
      generalize s.stepForward code w' 1 = o' at step
      obtain ⟨result, v, t⟩ := o
      obtain ⟨result', v', t'⟩ := o'
      obtain ⟨rfl, rfl, workspace⟩ := step
      rcases result with e | new
      · exact .some ⟨rfl, rfl, workspace⟩
      · simp only
        split
        · exact .some ⟨rfl, rfl, workspace⟩
        · split
          · exact .some ⟨rfl, rfl, workspace⟩
          · exact ih workspace _

/-- What starts again from the set-up of a session is that session as it was at first. -/
theorem Continues.reset_eq {o : SessionOptions} {s : Session} (h : (start code o).Continues s) :
    s.reset = start code o := by
  obtain ⟨options, codeLength⟩ := h
  have options : s.options = o := options
  have codeLength : s.codeLength = code.size := codeLength
  rw [reset, start, restart, restart, options, codeLength]
  rfl

end Session

end ByteTape
