import ByteTape.Proofs.Structured
import ByteTape.Proofs.Trail

/-!
# Step limits

A step limit is looked at before an instruction is carried out, and not when the code is done. So a
limited run goes like the unlimited one up to the first instruction that the limit bars, and where
no instruction is ever barred the limit makes no difference.
-/

namespace ByteTape

section Cut

variable {α β : Type} {step cut : α → α ⊕ β} {stop : α → Prop} {answer : α → β}

/-- A run that is cut off wherever a condition is met goes like the run that is not, as long as the
condition is not met. -/
theorem after_cut (off : ∀ a, stop a → cut a = .inr (answer a))
    (on : ∀ a, ¬ stop a → cut a = step a) (n : Nat) (a : α) :
    (after cut n a = after step n a ∧ ∀ k < n, ∀ c, after step k a = .inl c → ¬ stop c) ∨
      ∃ k c, after step k a = .inl c ∧ stop c ∧ after cut n a = .inr (answer c) := by
  -- Either the condition is met at once, or the first steps are the same and the rest is shorter.
  induction n generalizing a with
  | zero => exact .inl ⟨rfl, fun k lt => absurd lt k.not_lt_zero⟩
  | succ n ih =>
    by_cases met : stop a
    · exact .inr ⟨0, a, rfl, met, after_succ_of_inr (off a met) n⟩
    · have same := on a met
      cases hs : step a with
      | inr b =>
        rw [hs] at same
        refine .inl ⟨by rw [after_succ_of_inr hs, after_succ_of_inr same], ?_⟩
        rintro (_ | k) - c hc
        · exact Sum.inl.inj hc ▸ met
        · rw [after_succ_of_inr hs] at hc
          cases hc
      | inl a' =>
        rw [hs] at same
        rcases ih a' with ⟨whole, free⟩ | ⟨k, c, hc, stopped, ends⟩
        · refine .inl ⟨by rw [after_succ_of_inl hs, after_succ_of_inl same, whole], ?_⟩
          rintro (_ | k) lt c hc
          · exact Sum.inl.inj hc ▸ met
          · exact free k (Nat.lt_of_succ_lt_succ lt) c (after_succ_of_inl hs k ▸ hc)
        · exact .inr ⟨k + 1, c, by rwa [after_succ_of_inl hs], stopped,
            by rwa [after_succ_of_inl same]⟩

end Cut

theorem Machine.limitReached_iff {m : Machine} {limit : Option Int} :
    m.limitReached limit = true ↔ ∃ most, limit = some most ∧ most ≤ (m.steps : Int) := by
  cases limit <;> simp [limitReached]

/-- A limit that has been reached stays reached. -/
theorem Machine.limitReached_mono {m m' : Machine} (h : m.steps ≤ m'.steps) {limit : Option Int}
    (reached : m.limitReached limit = true) : m'.limitReached limit = true := by
  cases limit with
  | none => cases reached
  | some most =>
    simp only [limitReached, Option.any_some, decide_eq_true_eq] at reached ⊢
    omega

/-- The step limit keeps a machine from its next instruction. -/
structure Machine.Barred (m : Machine) (code : Code) (limit : Option Int) : Prop where
  inside : code.operation? m.pc ≠ none
  reached : m.limitReached limit = true

namespace Device

variable {σ : Type} {d : Device σ} {code : Code} {limit : Option Int} {x : Machine × σ}

theorem next_of_barred (h : x.1.Barred code limit) :
    d.next code limit x = .inr ⟨.error .stepLimit, x.1, x.2⟩ := by
  obtain ⟨op, here⟩ := Option.ne_none_iff_exists'.1 h.inside
  simp [next, turn, Machine.effect, here, h.reached]

theorem next_of_not_barred (h : ¬ x.1.Barred code limit) :
    d.next code limit x = d.next code none x := by
  cases here : code.operation? x.1.pc with
  | none => simp [next, turn, Machine.effect, here]
  | some op =>
    have allowed : x.1.limitReached limit = false :=
      Bool.eq_false_iff.2 fun reached => h ⟨by simp [here], reached⟩
    have unlimited : x.1.limitReached none = false := rfl
    simp [next, turn, Machine.effect, here, allowed, unlimited]

/-- A run under a limit is the unlimited run, or it stops in front of an instruction that the
unlimited run comes to. -/
theorem after_limit (d : Device σ) (code : Code) (limit : Option Int) (n : Nat) (x : Machine × σ) :
    (after (d.next code limit) n x = after (d.next code none) n x ∧
      ∀ k < n, ∀ y, after (d.next code none) k x = .inl y → ¬ y.1.Barred code limit) ∨
    ∃ k y, after (d.next code none) k x = .inl y ∧ y.1.Barred code limit ∧
      after (d.next code limit) n x = .inr ⟨.error .stepLimit, y.1, y.2⟩ :=
  after_cut (fun _ => next_of_barred) (fun _ => next_of_not_barred) n x

/-- While a run under a limit goes on it is the unlimited run. -/
theorem after_unlimited {n : Nat} {y : Machine × σ} (h : after (d.next code limit) n x = .inl y) :
    after (d.next code none) n x = .inl y := by
  rcases d.after_limit code limit n x with ⟨whole, -⟩ | ⟨k, z, -, -, stopped⟩
  · exact whole.symm.trans h
  · cases stopped.symm.trans h

/-- Without a limit no run ends for one. -/
theorem result_ne_stepLimit {f : Finish σ} (h : d.next code none x = .inr f) :
    f.result ≠ .error .stepLimit := by
  cases ends_of_next h with
  | flush past answer => rename_i e; cases e <;> simp [RunError.ofStream]
  | limit here reached => cases reached
  | read here allowed answer => rename_i e; cases e <;> simp [RunError.ofStream]
  | print here allowed answer => rename_i e; cases e <;> simp [RunError.ofStream]
  | _ => simp

end Device

namespace Program

variable {p : Program} {input : List UInt8} {limit : Option Int} {r : Report}

/-- The limit keeps the run over given input from no instruction. -/
def Unbarred (p : Program) (input : List UInt8) (limit : Option Int) : Prop :=
  ∀ k y, after (Buffers.device.next p.code none) k ({}, ⟨input, []⟩) = .inl y →
    ¬ y.1.Barred p.code limit

theorem reports_iff :
    p.Reports input limit r ↔
      ∃ n f, after (Buffers.device.next p.code limit) n ({}, ⟨input, []⟩) = .inr f ∧
        f.report = r :=
  exists_congr fun _ => run_eq_some_iff

/-- Two reports of a run are the same. -/
theorem Reports.unique {r' : Report} (h : p.Reports input limit r)
    (h' : p.Reports input limit r') : r = r' := by
  obtain ⟨n, f, hf, rfl⟩ := reports_iff.1 h
  obtain ⟨m, g, hg, rfl⟩ := reports_iff.1 h'
  rw [after_inr_unique hf hg]

/-- The last turn of a run is reported. -/
theorem reports_of_last {n : Nat} {x : Machine × Buffers} {f : Finish Buffers}
    (h : after (Buffers.device.next p.code limit) n ({}, ⟨input, []⟩) = .inl x)
    (last : Buffers.device.next p.code limit x = .inr f) : p.Reports input limit f.report :=
  reports_iff.2 ⟨n + 1, f, by rw [after_add_of_inl h, after_succ_of_inr last], rfl⟩

/-- After as many turns as it counts steps a run takes its last one, which is reported. -/
theorem Reports.exists_last (h : p.Reports input limit r) :
    ∃ x f, after (Buffers.device.next p.code limit) r.workspace.steps ({}, ⟨input, []⟩) = .inl x ∧
      Buffers.device.next p.code limit x = .inr f ∧ f.report = r := by
  obtain ⟨n, f, hf, rfl⟩ := reports_iff.1 h
  obtain ⟨l, x, -, hx, last⟩ := exists_last_of_after_inr hf
  have steps : f.report.workspace.steps = l := by
    rw [Finish.report, (Device.ends_of_next last).machine_eq, Buffers.steps_eq_of_after hx]
  exact ⟨x, f, steps ▸ hx, last, rfl⟩

/-- A run goes on exactly as many turns as it counts steps. -/
theorem Reports.goes_on_iff (h : p.Reports input limit r) {k : Nat} :
    (∃ y, after (Buffers.device.next p.code limit) k ({}, ⟨input, []⟩) = .inl y) ↔
      k ≤ r.workspace.steps := by
  obtain ⟨x, f, hx, last, -⟩ := h.exists_last
  have ends : after (Buffers.device.next p.code limit) (r.workspace.steps + 1)
      ({}, ⟨input, []⟩) = .inr f := by
    rw [after_add_of_inl hx, after_succ_of_inr last]
  constructor
  · rintro ⟨y, hy⟩
    exact Nat.le_of_lt_succ (lt_of_after hy ends)
  · exact exists_after_inl_of_le hx

/-- A run that a limit does not stop goes like the unlimited run, and it is nowhere barred. -/
theorem Reports.unlimited (h : p.Reports input limit r) (ne : r.result ≠ .error .stepLimit) :
    p.Reports input none r ∧ p.Unbarred input limit := by
  obtain ⟨n, f, hf, rfl⟩ := reports_iff.1 h
  rcases Buffers.device.after_limit p.code limit n ({}, ⟨input, []⟩) with
    ⟨whole, free⟩ | ⟨k, y, -, -, stopped⟩
  · have ends := whole.symm.trans hf
    exact ⟨reports_iff.2 ⟨n, f, ends, rfl⟩, fun k y hy => free k (lt_of_after hy ends) y hy⟩
  · obtain rfl := Sum.inr.inj (stopped.symm.trans hf)
    exact absurd rfl ne

/-- Where a run is nowhere barred the limit makes no difference. -/
theorem Reports.limited (h : p.Reports input none r) (free : p.Unbarred input limit) :
    p.Reports input limit r := by
  obtain ⟨n, f, hf, rfl⟩ := reports_iff.1 h
  rcases Buffers.device.after_limit p.code limit n ({}, ⟨input, []⟩) with
    ⟨whole, -⟩ | ⟨k, y, hy, barred, -⟩
  · exact reports_iff.2 ⟨n, f, whole.trans hf, rfl⟩
  · exact absurd barred (free k y hy)

/-- A run is stopped by its limit exactly when the limit bars it somewhere. -/
theorem exists_reports_stepLimit_iff :
    (∃ r, p.Reports input limit r ∧ r.result = .error .stepLimit) ↔ ¬ p.Unbarred input limit := by
  constructor
  · rintro ⟨r, h, stopped⟩ free
    obtain ⟨n, f, hf, rfl⟩ := reports_iff.1 h
    rcases Buffers.device.after_limit p.code limit n ({}, ⟨input, []⟩) with
      ⟨whole, -⟩ | ⟨k, y, hy, barred, -⟩
    · obtain ⟨-, z, -, -, last⟩ := exists_last_of_after_inr (whole.symm.trans hf)
      have never := Device.result_ne_stepLimit last
      cases hr : f.result <;> simp_all [Finish.report, Except.map]
    · exact free k y hy barred
  · intro notFree
    obtain ⟨k, y, hy, barred⟩ : ∃ k y,
        after (Buffers.device.next p.code none) k ({}, ⟨input, []⟩) = .inl y ∧
          y.1.Barred p.code limit := by
      simpa [Unbarred] using notFree
    rcases Buffers.device.after_limit p.code limit (k + 1) ({}, ⟨input, []⟩) with
      ⟨-, free⟩ | ⟨l, z, -, -, stopped⟩
    · exact absurd barred (free k k.lt_succ_self y hy)
    · exact ⟨_, reports_iff.2 ⟨k + 1, _, stopped, rfl⟩, rfl⟩

end Program

end ByteTape
