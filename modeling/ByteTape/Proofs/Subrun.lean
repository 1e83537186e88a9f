import ByteTape.Proofs.Simulation
import Mathlib.Order.Monotone.Basic

/-!
# Sub-runs

One run is a sub-run of another one if the other one comes, in order and each time later than
before, to states that are related to its own. A simulation makes a sub-run of the run that takes no
extra steps: whenever both runs step together, they are on a level again.
-/

namespace ByteTape

variable {α β α' β' α'' β'' : Type} {step : α → α ⊕ β} {step' : α' → α' ⊕ β'}
  {step'' : α'' → α'' ⊕ β''} {R L : α → α' → Prop} {Q : β → β' → Prop}

/-- The first run comes to everything that the second one comes to, in the same order. -/
def Visits (step : α → α ⊕ β) (step' : α' → α' ⊕ β') (R : α → α' → Prop) (Q : β → β' → Prop)
    (a : α) (a' : α') : Prop :=
  ∃ f : Nat → Nat, StrictMono f ∧
    ∀ n, Sum.LiftRel R Q (after step (f n) a) (after step' n a')

/-- What has a later successor each time goes on for ever. -/
theorem exists_strictMono_of_next {P : Nat → Nat → Prop} (start : P 0 0)
    (next : ∀ n k, P n k → ∃ l, k < l ∧ P (n + 1) l) :
    ∃ f : Nat → Nat, StrictMono f ∧ ∀ n, P n (f n) := by
  choose later grows holds using next
  let f : (n : Nat) → {k // P n k} :=
    Nat.rec ⟨0, start⟩ fun n k => ⟨later n k k.2, holds n k k.2⟩
  have above (n : Nat) : (f n).1 < (f (n + 1)).1 := grows n (f n).1 (f n).2
  exact ⟨fun n => (f n).1, strictMono_nat_of_lt_succ above, fun n => (f n).2⟩

/-- From related states the first run comes, in one step or more, to where a step of the second
leads. -/
theorem exists_after_succ {rank : α → Nat}
    (sim : ∀ a a', R a a' → (∃ c, step a = .inl c ∧ R c a' ∧ rank c < rank a) ∨
      Sum.LiftRel L Q (step a) (step' a'))
    {a : α} {a' : α'} (h : R a a') :
    ∃ n, Sum.LiftRel L Q (after step (n + 1) a) (after step' 1 a') := by
  -- On its own the first run goes on only as long as its rank falls.
  induction hr : rank a using Nat.strongRecOn generalizing a with
  | ind r ih =>
    rcases sim a a' h with ⟨c, hc, hR, lower⟩ | both
    · obtain ⟨n, hn⟩ := ih (rank c) (hr ▸ lower) hR rfl
      exact ⟨n + 1, by rwa [after_succ_of_inl hc]⟩
    · exact ⟨0, liftRel_after_succ both fun _ _ level => .inl level⟩

namespace Visits

variable {R' : α' → α'' → Prop} {Q' : β' → β'' → Prop} {a : α} {a' : α'} {a'' : α''}

/-- A run visits every run that it simulates and is on a level with whenever both step. -/
theorem of_simulation {rank : α → Nat} (below : ∀ a a', L a a' → R a a')
    (sim : ∀ a a', R a a' → (∃ c, step a = .inl c ∧ R c a' ∧ rank c < rank a) ∨
      Sum.LiftRel L Q (step a) (step' a'))
    (h : L a a') : Visits step step' L Q a a' := by
  refine exists_strictMono_of_next (P := fun n k =>
    Sum.LiftRel L Q (after step k a) (after step' n a')) (.inl h) ?_
  intro n k both
  generalize hk : after step k a = x at both
  generalize hn : after step' n a' = x' at both
  cases both with
  | @inl c c' level =>
    obtain ⟨l, hl⟩ := exists_after_succ sim (below c c' level)
    refine ⟨k + (l + 1), by omega, ?_⟩
    rwa [after_add_of_inl hk, after_add_of_inl hn]
  | inr ends =>
    refine ⟨k + 1, k.lt_succ_self, ?_⟩
    rw [after_add_of_inr hk, after_add_of_inr hn]
    exact .inr ends

theorem trans (h : Visits step step' R Q a a') (h' : Visits step' step'' R' Q' a' a'') :
    Visits step step'' (Relation.Comp R R') (Relation.Comp Q Q') a a'' := by
  obtain ⟨f, monoF, hf⟩ := h
  obtain ⟨g, monoG, hg⟩ := h'
  exact ⟨f ∘ g, monoF.comp monoG, fun n => liftRel_comp (hf (g n)) (hg n)⟩

theorem mono {S : α → α' → Prop} {T : β → β' → Prop} (h : Visits step step' R Q a a')
    (hR : ∀ x y, R x y → S x y) (hQ : ∀ x y, Q x y → T x y) : Visits step step' S T a a' := by
  obtain ⟨f, mono, hf⟩ := h
  exact ⟨f, mono, fun n => (hf n).mono hR hQ⟩

end Visits

end ByteTape
