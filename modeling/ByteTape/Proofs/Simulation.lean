import Mathlib.Data.Sum.Basic
import Mathlib.Logic.Relation
import Mathlib.Tactic.Common

/-!
# Simulation of step by step runs

A run is given by a step that leads to another state or ends with an answer. One run simulates
another when related states stay related, where the first may take extra steps on its own as long as
a rank decreases. Then every state that one of them comes to is matched by one that the other comes
to, in both directions, and so they end together.
-/

namespace ByteTape

variable {α β α' β' α'' β'' : Type}

/-- The state after `n` steps, or the answer if the run ends before. -/
def after (step : α → α ⊕ β) : Nat → α → α ⊕ β
  | 0, a => .inl a
  | n + 1, a =>
    match step a with
    | .inl a => after step n a
    | .inr b => .inr b

@[simp] theorem after_zero (step : α → α ⊕ β) (a : α) : after step 0 a = .inl a := rfl

theorem after_succ_of_inl {step : α → α ⊕ β} {a c : α} (h : step a = .inl c) (n : Nat) :
    after step (n + 1) a = after step n c := by
  rw [after, h]

theorem after_succ_of_inr {step : α → α ⊕ β} {a : α} {b : β} (h : step a = .inr b) (n : Nat) :
    after step (n + 1) a = .inr b := by
  rw [after, h]

/-- A run that goes on after a step has gone on with that step. -/
theorem exists_of_after_succ {step : α → α ⊕ β} {a c : α} {n : Nat}
    (h : after step (n + 1) a = .inl c) : ∃ b, step a = .inl b ∧ after step n b = .inl c := by
  cases hs : step a with
  | inl b => exact ⟨b, rfl, after_succ_of_inl hs n ▸ h⟩
  | inr b =>
    rw [after_succ_of_inr hs] at h
    cases h

theorem after_one_of_inl {step : α → α ⊕ β} {a c : α} (h : step a = .inl c) :
    after step 1 a = .inl c :=
  after_succ_of_inl h 0

/-- A run can be cut in two. -/
theorem after_add_of_inl {step : α → α ⊕ β} {a c : α} {n : Nat} (h : after step n a = .inl c)
    (m : Nat) : after step (n + m) a = after step m c := by
  induction n generalizing a with
  | zero =>
    obtain rfl : a = c := Sum.inl.inj h
    rw [Nat.zero_add]
  | succ n ih =>
    obtain ⟨a', hs, rest⟩ := exists_of_after_succ h
    rw [Nat.succ_add, after_succ_of_inl hs]
    exact ih rest

/-- A run that goes on has a last step. -/
theorem exists_last_of_after_inl {step : α → α ⊕ β} {a c : α} {n : Nat}
    (h : after step (n + 1) a = .inl c) : ∃ b, after step n a = .inl b ∧ step b = .inl c := by
  induction n generalizing a with
  | zero =>
    obtain ⟨b, first, rest⟩ := exists_of_after_succ h
    exact ⟨a, rfl, first.trans rest⟩
  | succ n ih =>
    obtain ⟨b, first, rest⟩ := exists_of_after_succ h
    obtain ⟨d, hd, last⟩ := ih rest
    exact ⟨d, by rwa [after_succ_of_inl first], last⟩

/-- An answer stays. -/
theorem after_add_of_inr {step : α → α ⊕ β} {a : α} {b : β} {n : Nat}
    (h : after step n a = .inr b) (m : Nat) : after step (n + m) a = .inr b := by
  induction n generalizing a with
  | zero => cases h
  | succ n ih =>
    rw [Nat.succ_add]
    cases hs : step a with
    | inl a' =>
      rw [after_succ_of_inl hs] at h ⊢
      exact ih h
    | inr b' =>
      rw [after_succ_of_inr hs] at h ⊢
      exact h

/-- A run that goes on has gone on before. -/
theorem exists_after_inl_of_le {step : α → α ⊕ β} {a c : α} {n m : Nat}
    (h : after step m a = .inl c)
    (le : n ≤ m) : ∃ c', after step n a = .inl c' := by
  cases hn : after step n a with
  | inl c' => exact ⟨c', rfl⟩
  | inr b =>
    have stays := after_add_of_inr hn (m - n)
    rw [Nat.add_sub_cancel' le, h] at stays
    cases stays

/-- A run has one answer. -/
theorem after_inr_unique {step : α → α ⊕ β} {a : α} {b b' : β} {n n' : Nat}
    (h : after step n a = .inr b) (h' : after step n' a = .inr b') : b = b' := by
  have both := after_add_of_inr h n'
  rw [Nat.add_comm, after_add_of_inr h' n] at both
  exact (Sum.inr.inj both).symm

/-- A run goes on only before it ends. -/
theorem lt_of_after {step : α → α ⊕ β} {a c : α} {b : β} {k n : Nat} (h : after step k a = .inl c)
    (ends : after step n a = .inr b) : k < n := by
  by_contra ge
  obtain ⟨c', hc'⟩ := exists_after_inl_of_le h (Nat.le_of_not_lt ge)
  cases ends.symm.trans hc'

/-- What every step keeps, a run keeps. -/
theorem after_invariant {step : α → α ⊕ β} {P : α → Prop}
    (keeps : ∀ a c, P a → step a = .inl c → P c) {a c : α} {n : Nat} (start : P a)
    (h : after step n a = .inl c) : P c := by
  induction n generalizing a with
  | zero =>
    obtain rfl : a = c := Sum.inl.inj h
    exact start
  | succ n ih =>
    obtain ⟨b, first, rest⟩ := exists_of_after_succ h
    exact ih (keeps a b start first) rest

section LiftRel

variable {R : α → α' → Prop} {Q : β → β' → Prop}

theorem liftRel_inl_left {a : α} {y : α' ⊕ β'} :
    Sum.LiftRel R Q (.inl a) y ↔ ∃ a', y = .inl a' ∧ R a a' := by
  cases y <;> simp

theorem liftRel_inr_left {b : β} {y : α' ⊕ β'} :
    Sum.LiftRel R Q (.inr b) y ↔ ∃ b', y = .inr b' ∧ Q b b' := by
  cases y <;> simp

theorem liftRel_inl_right {x : α ⊕ β} {a' : α'} :
    Sum.LiftRel R Q x (.inl a') ↔ ∃ a, x = .inl a ∧ R a a' := by
  cases x <;> simp

theorem liftRel_inr_right {x : α ⊕ β} {b' : β'} :
    Sum.LiftRel R Q x (.inr b') ↔ ∃ b, x = .inr b ∧ Q b b' := by
  cases x <;> simp

end LiftRel

/-- A run that ends has a last step. -/
theorem exists_last_of_after_inr {step : α → α ⊕ β} {a : α} {b : β} {n : Nat}
    (h : after step n a = .inr b) :
    ∃ k c, k < n ∧ after step k a = .inl c ∧ step c = .inr b := by
  induction n generalizing a with
  | zero => cases h
  | succ n ih =>
    cases hs : step a with
    | inl a' =>
      rw [after_succ_of_inl hs] at h
      obtain ⟨k, c, lt, hk, hc⟩ := ih h
      exact ⟨k + 1, c, Nat.succ_lt_succ lt, by rwa [after_succ_of_inl hs], hc⟩
    | inr b' =>
      rw [after_succ_of_inr hs] at h
      exact ⟨0, a, n.succ_pos, rfl, hs.trans h⟩

/-- Two runs that step together are related later if what they step to is. -/
theorem liftRel_after_succ {step : α → α ⊕ β} {step' : α' → α' ⊕ β'} {L R : α → α' → Prop}
    {Q : β → β' → Prop} {a : α} {a' : α'} {n m : Nat} (both : Sum.LiftRel L Q (step a) (step' a'))
    (rest : ∀ c c', L c c' → Sum.LiftRel R Q (after step n c) (after step' m c')) :
    Sum.LiftRel R Q (after step (n + 1) a) (after step' (m + 1) a') := by
  generalize hs : step a = x at both
  generalize hs' : step' a' = x' at both
  cases both with
  | inl level =>
    rw [after_succ_of_inl hs, after_succ_of_inl hs']
    exact rest _ _ level
  | inr ends =>
    rw [after_succ_of_inr hs, after_succ_of_inr hs']
    exact .inr ends

/-- Runs whose steps go together are at related states after any number of steps. -/
theorem after_liftRel {step : α → α ⊕ β} {step' : α' → α' ⊕ β'} {R : α → α' → Prop}
    {Q : β → β' → Prop} (together : ∀ a a', R a a' → Sum.LiftRel R Q (step a) (step' a')) {a : α}
    {a' : α'} (h : R a a') (n : Nat) :
    Sum.LiftRel R Q (after step n a) (after step' n a') := by
  induction n generalizing a a' with
  | zero => exact .inl h
  | succ n ih => exact liftRel_after_succ (together a a' h) fun _ _ next => ih next

/-- Related states step to related states or end with related answers, or else the first run takes
a step on its own that lowers its rank. -/
def Simulates (step : α → α ⊕ β) (step' : α' → α' ⊕ β') (R : α → α' → Prop) (Q : β → β' → Prop)
    (rank : α → Nat) : Prop :=
  ∀ a a', R a a' →
    (∃ c, step a = .inl c ∧ R c a' ∧ rank c < rank a) ∨ Sum.LiftRel R Q (step a) (step' a')

/-- Whatever one of two runs comes to is matched by something that the other comes to. -/
structure Matched (step : α → α ⊕ β) (step' : α' → α' ⊕ β') (R : α → α' → Prop)
    (Q : β → β' → Prop) (a : α) (a' : α') : Prop where
  there : ∀ n, ∃ m, Sum.LiftRel R Q (after step n a) (after step' m a')
  back : ∀ m, ∃ n, Sum.LiftRel R Q (after step n a) (after step' m a')

section Matched

variable {step : α → α ⊕ β} {step' : α' → α' ⊕ β'} {step'' : α'' → α'' ⊕ β''}
  {R : α → α' → Prop} {Q : β → β' → Prop} {R' : α' → α'' → Prop} {Q' : β' → β'' → Prop}

theorem Simulates.there {rank : α → Nat} (sim : Simulates step step' R Q rank) {a : α} {a' : α'}
    (h : R a a') (n : Nat) : ∃ m, Sum.LiftRel R Q (after step n a) (after step' m a') := by
  induction n generalizing a a' with
  | zero => exact ⟨0, .inl h⟩
  | succ n ih =>
    rcases sim a a' h with ⟨c, hc, hR, -⟩ | both
    · rw [after_succ_of_inl hc]
      exact ih hR
    · generalize hs : step a = x at both
      generalize hs' : step' a' = x' at both
      cases both with
      | inl hR =>
        obtain ⟨m, hm⟩ := ih hR
        refine ⟨m + 1, ?_⟩
        rwa [after_succ_of_inl hs, after_succ_of_inl hs']
      | inr hQ =>
        refine ⟨1, ?_⟩
        rw [after_succ_of_inr hs, after_succ_of_inr hs']
        exact .inr hQ

theorem Simulates.back {rank : α → Nat} (sim : Simulates step step' R Q rank) {a : α} {a' : α'}
    (h : R a a') (m : Nat) : ∃ n, Sum.LiftRel R Q (after step n a) (after step' m a') := by
  induction m generalizing a a' with
  | zero => exact ⟨0, .inl h⟩
  | succ m ih =>
    -- The extra steps of the first run come to an end, by induction on its rank.
    induction hr : rank a using Nat.strongRecOn generalizing a with
    | ind r ihRank =>
      rcases sim a a' h with ⟨c, hc, hR, lower⟩ | both
      · obtain ⟨n, hn⟩ := ihRank (rank c) (hr ▸ lower) hR rfl
        exact ⟨n + 1, by rwa [after_succ_of_inl hc]⟩
      · generalize hs : step a = x at both
        generalize hs' : step' a' = x' at both
        cases both with
        | inl hR =>
          obtain ⟨n, hn⟩ := ih hR
          refine ⟨n + 1, ?_⟩
          rwa [after_succ_of_inl hs, after_succ_of_inl hs']
        | inr hQ =>
          refine ⟨1, ?_⟩
          rw [after_succ_of_inr hs, after_succ_of_inr hs']
          exact .inr hQ

theorem Simulates.matched {rank : α → Nat} (sim : Simulates step step' R Q rank) {a : α} {a' : α'}
    (h : R a a') : Matched step step' R Q a a' :=
  ⟨sim.there h, sim.back h⟩

theorem liftRel_flip {x : α ⊕ β} {y : α' ⊕ β'} (h : Sum.LiftRel R Q x y) :
    Sum.LiftRel (flip R) (flip Q) y x := by
  cases h with
  | inl h => exact .inl h
  | inr h => exact .inr h

theorem Matched.symm {a : α} {a' : α'} (h : Matched step step' R Q a a') :
    Matched step' step (flip R) (flip Q) a' a := by
  constructor
  · intro m
    obtain ⟨n, hn⟩ := h.back m
    exact ⟨n, liftRel_flip hn⟩
  · intro n
    obtain ⟨m, hm⟩ := h.there n
    exact ⟨m, liftRel_flip hm⟩

theorem liftRel_comp {x : α ⊕ β} {y : α' ⊕ β'} {z : α'' ⊕ β''} (h : Sum.LiftRel R Q x y)
    (h' : Sum.LiftRel R' Q' y z) :
    Sum.LiftRel (Relation.Comp R R') (Relation.Comp Q Q') x z := by
  cases h with
  | inl h =>
    cases h' with
    | inl h' => exact .inl ⟨_, h, h'⟩
  | inr h =>
    cases h' with
    | inr h' => exact .inr ⟨_, h, h'⟩

theorem Matched.trans {a : α} {a' : α'} {a'' : α''} (h : Matched step step' R Q a a')
    (h' : Matched step' step'' R' Q' a' a'') :
    Matched step step'' (Relation.Comp R R') (Relation.Comp Q Q') a a'' := by
  constructor
  · intro n
    obtain ⟨m, hm⟩ := h.there n
    obtain ⟨l, hl⟩ := h'.there m
    exact ⟨l, liftRel_comp hm hl⟩
  · intro n
    obtain ⟨m, hm⟩ := h'.back n
    obtain ⟨l, hl⟩ := h.back m
    exact ⟨l, liftRel_comp hl hm⟩

theorem Matched.mono {S : α → α' → Prop} {T : β → β' → Prop} {a : α} {a' : α'}
    (h : Matched step step' R Q a a') (hR : ∀ x y, R x y → S x y) (hQ : ∀ x y, Q x y → T x y) :
    Matched step step' S T a a' := by
  constructor
  · intro n
    obtain ⟨m, hm⟩ := h.there n
    exact ⟨m, hm.mono hR hQ⟩
  · intro n
    obtain ⟨m, hm⟩ := h.back n
    exact ⟨m, hm.mono hR hQ⟩

/-- If the first of two matched runs ends, so does the second. -/
theorem Matched.ends {a : α} {a' : α'} (h : Matched step step' R Q a a') {n : Nat} {b : β}
    (hn : after step n a = .inr b) : ∃ m b', after step' m a' = .inr b' ∧ Q b b' := by
  obtain ⟨m, hm⟩ := h.there n
  rw [hn] at hm
  exact ⟨m, liftRel_inr_left.1 hm⟩

end Matched

end ByteTape
