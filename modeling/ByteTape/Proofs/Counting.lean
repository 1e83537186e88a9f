import ByteTape.Proofs.Halting
import ByteTape.Proofs.Safety
import ByteTape.Proofs.Tracing

/-!
# Counting the steps of a run

The steps of a run are counted under a cap, by a stepper that shows them one by one. The highest
count shown is that of the whole run. The cap is looked at before an instruction and not at the end,
so a run that is done with the last step allowed is counted, and one that would fail there is cut
short.
-/

namespace ByteTape

/-- A cap on the steps of a run does not cut it short: it is done in no more steps, or runs out of
input after fewer. -/
def Report.Within (r : Report) (cap : Nat) : Prop :=
  ((∃ out, r.result = .ok out) ∧ r.workspace.steps ≤ cap) ∨
    (r.result = .error .inputExhausted ∧ r.workspace.steps < cap)

/-- The highest count of a trace is shown, or zero where nothing is shown, and not exceeded. -/
theorem Trace.highest_eq {t : Trace} {n : Nat} (le : ∀ x ∈ t.states, x.step ≤ n)
    (shown : n = 0 ∨ ∃ x ∈ t.states, x.step = n) : t.highest = n := by
  have most : t.highest = (t.states.map Snapshot.step).max?.getD 0 := by
    rw [highest, ← Array.foldl_map (f := Snapshot.step) (g := max), Array.foldl_max, Nat.zero_max]
  rw [most]
  cases top : (t.states.map Snapshot.step).max? with
  | none =>
    have empty : t.states = #[] := by simpa [Array.max?_eq_none_iff] using top
    rcases shown with rfl | ⟨x, inside, -⟩
    · rfl
    · simp [empty] at inside
  | some m =>
    obtain ⟨here, above⟩ := Array.max?_eq_some_iff.1 top
    obtain ⟨x, inside, rfl⟩ := Array.mem_map.1 here
    refine le_antisymm (le x inside) ?_
    rcases shown with rfl | ⟨y, there, rfl⟩
    · exact Nat.zero_le _
    · exact above _ (Array.mem_map.2 ⟨y, there, rfl⟩)

namespace Program

variable {p : Program} {input : List UInt8} {limit : Option Int} {radius : Int} {cap : Nat}
  {r : Report} {t : Trace}

/-- The highest count that is shown of a run is the count of its steps. -/
theorem Traced.highest_eq (h : p.Traced (fun n => (p.stepped input limit radius n).yield) r t) :
    t.highest = r.workspace.steps := by
  have each {k : Nat} (lt : k < r.workspace.steps) :
      ∃ x, t.states[k]? = some x ∧ x.step = k + 1 := by
    obtain ⟨x, here, named, yields⟩ := h.states k lt
    obtain ⟨x, y, -, after, rfl⟩ := exists_eq_of_shown yields named
    exact ⟨_, here, Buffers.steps_eq_of_after after⟩
  have last : t.states.size ≤ r.workspace.steps + 1 ∧
      ∀ x, t.states[r.workspace.steps]? = some x → x.step = r.workspace.steps := by
    cases result : r.result with
    | ok out =>
      obtain ⟨-, size, v, there, -, step, -⟩ := h.done out result
      exact ⟨size.le, fun x here => Option.some.inj (here.symm.trans there) ▸ step⟩
    | error e =>
      obtain ⟨-, size⟩ := h.failed e result
      exact ⟨by omega, fun x here => by simp [← size] at here⟩
  refine Trace.highest_eq (fun x inside => ?_) ?_
  · obtain ⟨k, here⟩ := Array.mem_iff_getElem?.1 inside
    have bound : k < t.states.size := (Array.getElem?_eq_some_iff.1 here).1
    rcases Nat.lt_or_ge k r.workspace.steps with lt | ge
    · obtain ⟨y, there, step⟩ := each lt
      obtain rfl := Option.some.inj (here.symm.trans there)
      omega
    · obtain rfl : k = r.workspace.steps := by omega
      exact (last.2 x here).le
  · cases steps : r.workspace.steps with
    | zero => exact .inl rfl
    | succ k =>
      obtain ⟨x, here, step⟩ := each (k := k) (by omega)
      exact .inr ⟨x, Array.mem_of_getElem? here, step⟩

/-- A run under a limit reports that it is done, that it has run out of input, or that it was
stopped. -/
theorem Reports.result_cases {limit : Option Int} (h : p.Reports input limit r) :
    (∃ out, r.result = .ok out) ∨ r.result = .error .inputExhausted ∨
      (r.result = .error .stepLimit ∧ limit ≠ none) := by
  obtain ⟨n, f, hf, rfl⟩ := reports_iff.1 h
  cases result : f.result with
  | ok done => exact .inl ⟨_, Finish.report_of_ok result⟩
  | error e =>
    have reported := Finish.report_of_error result
    have raised := Device.raises_of_execute (Device.resume_eq_some_iff.2 hf) result
    rcases Buffers.eq_of_raises raised with rfl | ⟨rfl, limited⟩
    · exact .inr (.inl reported)
    · exact .inr (.inr ⟨reported, limited⟩)

/-- A run that a limit does not stop takes no more steps than it allows, and fewer if it fails. -/
theorem Reports.within (h : p.Reports input (some (cap : Int)) r)
    (ne : r.result ≠ .error .stepLimit) : r.Within cap := by
  obtain ⟨x, f, hx, last, rfl⟩ := h.exists_last
  have le : f.report.workspace.steps ≤ cap := Buffers.le_of_after hx
  rcases h.result_cases with done | starved | ⟨stopped, -⟩
  · exact .inl ⟨done, le⟩
  · refine .inr ⟨starved, lt_of_le_of_ne le fun reached => ne ?_⟩
    have inside : p.code.operation? x.1.pc ≠ none := by
      intro past
      cases Device.ends_of_next last with
      | done => cases starved
      | flush past answer => cases answer
      | _ => simp_all
    have barred : x.1.Barred p.code (some (cap : Int)) := by
      refine ⟨inside, Machine.limitReached_iff.2 ⟨cap, rfl, ?_⟩⟩
      rw [Buffers.steps_eq_of_after hx, reached]
    obtain rfl := Sum.inr.inj ((Device.next_of_barred barred).symm.trans last)
    rfl
  · exact absurd stopped ne

/-- A cap that does not cut a run short keeps it from no instruction. -/
theorem Reports.unbarred_of_within (h : p.Reports input none r) (within : r.Within cap) :
    p.Unbarred input (some (cap : Int)) := by
  rintro k y hy ⟨inside, reached⟩
  have le : k ≤ r.workspace.steps := h.goes_on_iff.1 ⟨y, hy⟩
  obtain ⟨most, bound, most_le⟩ := Machine.limitReached_iff.1 reached
  obtain rfl := Option.some.inj bound
  rw [Buffers.steps_eq_of_after hy] at most_le
  rcases within with ⟨⟨out, done⟩, few⟩ | ⟨-, fewer⟩
  · -- The run is where it is done, and nothing there is an instruction.
    obtain ⟨x, f, hx, last, rfl⟩ := h.exists_last
    obtain rfl : k = f.report.workspace.steps := by omega
    obtain rfl := Sum.inl.inj (hx.symm.trans hy)
    cases Device.ends_of_next last with
    | done past => exact inside past
    | _ => cases done
  · omega

/-- A run under a cap reports, with one turn more than the steps that it may take. -/
theorem exists_run_of_cap (p : Program) (input : List UInt8) (cap : Nat) :
    ∃ r, p.run input (some (cap : Int)) (cap + 1) = some r ∧ r.workspace.steps ≤ cap := by
  obtain ⟨f, ended⟩ := Buffers.exists_inr_of_limit p.code cap input
  have executed : Buffers.device.execute p (some (cap : Int)) (cap + 1) ⟨input, []⟩ = some f :=
    Device.resume_eq_some_iff.2 ended
  have ran : p.run input (some (cap : Int)) (cap + 1) = some f.report := by
    rw [run, executed]
    rfl
  obtain ⟨x, g, after, -, same⟩ := Reports.exists_last ⟨_, ran⟩
  exact ⟨f.report, ran, same ▸ Buffers.le_of_after after⟩

/-- Steps are counted on the stepper as they would be on the whole run. -/
theorem countSteps_eq_run (p : Program) (input : List UInt8) (cap : Nat) :
    p.countSteps input cap =
      match p.run input (some (cap : Int)) (cap + 1) with
      | none => (cap, true)
      | some r =>
        match r.result with
        | .error .stepLimit => (cap, true)
        | _ => (r.workspace.steps, false) := by
  obtain ⟨r, ran, le⟩ := p.exists_run_of_cap input cap
  obtain ⟨t, trace, traced⟩ := Reports.exists_trace ⟨_, ran⟩ 10
  have ended : p.trace { input := input, limit := some (cap : Int) } (cap + 2) = some t :=
    Stepper.exhaust_mono (by omega) trace
  rw [ran, countSteps, ended]
  simp only [traced.highest_eq]
  cases result : r.result with
  | ok out => simp only [(traced.done out result).1]
  | error e =>
    simp only [(traced.failed e result).1]
    cases e <;> rfl

/-- Counting up to a cap comes to an end, and tells whether the run was cut short. -/
theorem exists_countSteps (p : Program) (input : List UInt8) (cap : Nat) :
    ∃ r, p.Reports input (some (cap : Int)) r ∧
      (r.result ≠ .error .stepLimit → p.countSteps input cap = (r.workspace.steps, false)) ∧
      (r.result = .error .stepLimit → p.countSteps input cap = (cap, true)) := by
  obtain ⟨r, ran, -⟩ := p.exists_run_of_cap input cap
  have counted := p.countSteps_eq_run input cap
  rw [ran] at counted
  refine ⟨r, ⟨_, ran⟩, fun ne => ?_, fun stopped => ?_⟩
  · rw [counted]
    cases result : r.result with
    | ok out => simp only [result]
    | error e =>
      cases e with
      | stepLimit => exact absurd result ne
      | _ => simp only [result]
  · simp only [counted, stopped]

/-- A run that is not cut short is counted. -/
theorem Reports.countSteps_eq (h : p.Reports input none r) (within : r.Within cap) :
    p.countSteps input cap = (r.workspace.steps, false) := by
  obtain ⟨r', reported, counted, -⟩ := p.exists_countSteps input cap
  obtain rfl := (h.limited (h.unbarred_of_within within)).unique reported
  refine counted ?_
  rcases within with ⟨⟨out, done⟩, -⟩ | ⟨starved, -⟩
  · simp [done]
  · simp [starved]

/-- Of any other run, also of one that goes on for ever, the cap is told. -/
theorem countSteps_eq_cap (cut : ¬ ∃ r, p.Reports input none r ∧ r.Within cap) :
    p.countSteps input cap = (cap, true) := by
  obtain ⟨r, reported, -, capped⟩ := p.exists_countSteps input cap
  refine capped (by_contra fun ne => cut ⟨r, ?_, reported.within ne⟩)
  exact (reported.unlimited ne).1

end Program

end ByteTape
