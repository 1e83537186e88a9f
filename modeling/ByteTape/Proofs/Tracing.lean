import ByteTape.Proofs.Budget
import ByteTape.Proofs.Safety
import ByteTape.Proofs.Stepping

/-!
# The trace of a run

A stepper that is taken to its end by itself shows a state for every instruction that the whole run
completes. Where the run is done it shows one state more, and where the run fails it fails in the
same way. So the trace ends when the run does, with the same tape and the same count of steps.
-/

namespace ByteTape

theorem Code.getElem?_listing (c : Code) (i : Nat) : c.listing[i]? = c.mnemonic? i := by
  cases c <;> simp [listing, mnemonic?]

/-- A run whose code is done stands right behind its last entry. -/
theorem Device.pc_eq_size_of_last {σ : Type} {d : Device σ} {p : Program} {limit : Option Int}
    {n : Nat} {s : σ} {x : Machine × σ} {f : Finish σ}
    (h : after (d.next p.code limit) n ({}, s) = .inl x) (last : d.next p.code limit x = .inr f)
    (done : f.result = .ok ()) : f.machine.pc = p.code.size := by
  have ends := ends_of_next last
  rw [ends.machine_eq]
  refine (Code.operation?_eq_none_iff_of_le (safe_of_after h).pc_le).1 ?_
  cases ends with
  | done past => exact past
  | _ => cases done

namespace Stepper

variable {s : Stepper} {code : Code} {w : Workspace} {x y : Machine × Buffers} {f : Finish Buffers}
  {n fuel more : Nat} {states : Array Snapshot} {t : Trace}

/-- More fuel keeps a finished trace. -/
theorem exhaust_mono (h : fuel ≤ more) (ht : s.exhaust code fuel w states = some t) :
    s.exhaust code more w states = some t := by
  induction fuel generalizing more s w states with
  | zero => cases ht
  | succ fuel ih =>
    obtain ⟨more, rfl⟩ := Nat.exists_eq_add_of_le' (Nat.le_of_lt_succ (Nat.lt_succ_of_le h))
    rw [← Nat.add_assoc, exhaust]
    rw [exhaust] at ht
    generalize s.next code w = stepped at ht ⊢
    rcases stepped with ⟨_ | _ | v, w', s'⟩
    · exact ht
    · exact ht
    · exact ih (Nat.le_add_left fuel more) ht

/-- A stepper has one trace. -/
theorem exhaust_unique {t' : Trace} (ht : s.exhaust code fuel w states = some t)
    (ht' : s.exhaust code more w states = some t') : t = t' :=
  Option.some.inj <| (exhaust_mono (le_max_left fuel more) ht).symm.trans
    (exhaust_mono (le_max_right fuel more) ht')

theorem exhaust_of_fresh (fresh : s.stage = .fresh) (w : Workspace) :
    s.exhaust code fuel w states =
      (s.reached ({}, ⟨s.input, []⟩)).exhaust code fuel ({} : Machine).workspace states := by
  cases fuel with
  | zero => rfl
  | succ fuel => rw [exhaust, exhaust, next_of_fresh fresh w]

/-- While a run goes on, its stepper shows one state after the other. -/
theorem exists_exhaust_of_after (h : after (Buffers.device.next code s.limit) n x = .inl y) :
    ∃ shown : List Snapshot, shown.length = n ∧
      (∀ k v, shown[k]? = some v → v.instruction ≠ none ∧
        (nth code k (s.reached x) x.1.workspace).yield = .ok (some v)) ∧
      ∀ fuel states, (s.reached x).exhaust code (fuel + n) x.1.workspace states =
        (s.reached y).exhaust code fuel y.1.workspace (states ++ shown.toArray) := by
  induction n generalizing x with
  | zero =>
    obtain rfl : x = y := Sum.inl.inj h
    exact ⟨[], rfl, fun k v => by simp, fun fuel states => by simp⟩
  | succ n ih =>
    obtain ⟨z, first, rest⟩ := exists_of_after_succ h
    obtain ⟨shown, length, each, goesOn⟩ := ih rest
    have stepped := next_reached_of_inl (s := s) first
    refine ⟨z.1.snapshot code s.radius (code.mnemonic? x.1.pc) z.2.written :: shown, ?_, ?_, ?_⟩
    · rw [List.length_cons, length]
    · intro k v hv
      cases k with
      | zero =>
        obtain rfl := Option.some.inj hv
        exact ⟨mnemonic?_ne_none first, by rw [nth, stepped]⟩
      | succ k =>
        rw [nth, stepped]
        exact each k v hv
    · intro fuel states
      rw [← Nat.add_assoc, exhaust, stepped]
      simp only [goesOn]
      rw [List.toArray_cons, Array.push_eq_append, Array.append_assoc]

/-- Where a run ends, its stepper shows a final state or fails, and then it is closed. -/
theorem exhaust_reached_of_inr (h : Buffers.device.next code s.limit x = .inr f)
    (states : Array Snapshot) :
    (s.reached x).exhaust code 2 x.1.workspace states =
      some (match f.result with
        | .ok () =>
          ⟨states.push (f.machine.snapshot code s.radius none f.device.written), none,
            ⟨f.machine.tape, x.1.steps⟩⟩
        | .error e => ⟨states, some e, ⟨f.machine.tape, x.1.steps⟩⟩) := by
  have stepped := next_reached_of_inr (s := s) h
  rcases result : f.result with e | ⟨⟩
  · rw [exhaust, stepped, result]
    rfl
  · rw [exhaust, stepped, result]
    rfl

end Stepper

namespace Program

variable {p : Program} {input : List UInt8} {limit : Option Int} {radius : Int}

/-- What a trace tells of a run with a given report, where `shown` is what the stepper shows with
each of its steps. -/
structure Traced (p : Program) (shown : Nat → Except RunError (Option Snapshot)) (r : Report)
    (t : Trace) : Prop where
  workspace : t.workspace = r.workspace
  states : ∀ k < r.workspace.steps, ∃ v, t.states[k]? = some v ∧ v.instruction ≠ none ∧
    shown k = .ok (some v)
  done : ∀ out, r.result = .ok out →
    t.error = none ∧ t.states.size = r.workspace.steps + 1 ∧
      ∃ v, t.states[r.workspace.steps]? = some v ∧ v.instruction = none ∧
        v.step = r.workspace.steps ∧ v.pc = p.code.size ∧ v.output = out
  failed : ∀ e, r.result = .error e → t.error = some e ∧ t.states.size = r.workspace.steps

/-- At the end of a run its stepper has shown the states of all instructions, and then a final
state, or it has failed. -/
theorem exists_shown_of_last {k : Nat} {x : Machine × Buffers} {f : Finish Buffers}
    (hx : after (Buffers.device.next p.code limit) k ({}, ⟨input, []⟩) = .inl x)
    (last : Buffers.device.next p.code limit x = .inr f) (radius : Int) :
    ∃ shown : List Snapshot, shown.length = f.machine.steps ∧
      (∀ i < f.machine.steps, ∃ v, shown[i]? = some v ∧ v.instruction ≠ none ∧
        (p.stepped input limit radius i).yield = .ok (some v)) ∧
      p.trace { input := input, limit := limit, radius := radius } (f.machine.steps + 2) =
        some (match f.result with
          | .ok () =>
            ⟨shown.toArray.push (f.machine.snapshot p.code radius none f.device.written), none,
              f.report.workspace⟩
          | .error e => ⟨shown.toArray, some e, f.report.workspace⟩) := by
  let s : Stepper := { input := input, limit := limit, radius := radius }
  have machine := (Device.ends_of_next last).machine_eq
  have steps : f.machine.steps = k := by
    rw [machine, Buffers.steps_eq_of_after hx]
  obtain ⟨shown, length, each, goesOn⟩ := Stepper.exists_exhaust_of_after (s := s) hx
  have ends := Stepper.exhaust_reached_of_inr (s := s) last (#[] ++ shown.toArray)
  rw [← goesOn, ← Stepper.exhaust_of_fresh rfl {}, ← machine, Array.empty_append] at ends
  rw [Nat.add_comm, ← steps] at ends
  refine ⟨shown, length.trans steps.symm, ?_, ends⟩
  intro i lt
  have inside : i < shown.length := by omega
  obtain ⟨named, yields⟩ := each i shown[i] (List.getElem?_eq_getElem inside)
  refine ⟨_, List.getElem?_eq_getElem inside, named, ?_⟩
  rw [stepped, Stepper.nth_of_fresh rfl]
  exact yields

/-- A run that ends is traced, with two turns of the stepper more than it takes steps. -/
theorem Reports.exists_trace {r : Report} (h : p.Reports input limit r) (radius : Int) :
    ∃ t, p.trace { input := input, limit := limit, radius := radius } (r.workspace.steps + 2) =
        some t ∧ p.Traced (fun n => (p.stepped input limit radius n).yield) r t := by
  obtain ⟨x, f, hx, last, rfl⟩ := h.exists_last
  obtain ⟨shown, length, states, trace⟩ := exists_shown_of_last hx last radius
  rcases result : f.result with e | ⟨⟩
  · have reported := Finish.report_of_error result
    rw [result] at trace
    refine ⟨_, trace, rfl, by simpa [Finish.report] using states, ?_, ?_⟩
    · intro out returned
      cases reported.symm.trans returned
    · intro e' failed
      obtain rfl := Except.error.inj (reported.symm.trans failed)
      exact ⟨rfl, length⟩
  · have reported := Finish.report_of_ok result
    rw [result] at trace
    refine ⟨_, trace, rfl, ?_, ?_, ?_⟩
    · intro i lt
      obtain ⟨v, here, named⟩ := states i lt
      have inside : i < shown.toArray.size := lt.trans_eq length.symm
      refine ⟨v, ?_, named⟩
      rw [Array.getElem?_push_lt inside, ← Array.getElem?_eq_getElem inside, List.getElem?_toArray,
        here]
    · intro out returned
      obtain rfl := Except.ok.inj (reported.symm.trans returned)
      have stop := Device.pc_eq_size_of_last hx last result
      refine ⟨rfl, by simp [Finish.report, length],
        f.machine.snapshot p.code radius none f.device.written, ?_, rfl, rfl, stop, rfl⟩
      simp [Finish.report, ← length]
    · intro e failed
      cases reported.symm.trans failed

/-- A run has come to an end where its trace has. -/
theorem exists_reports_of_trace {s : Stepper} (fresh : s.stage = .fresh) {fuel : Nat} {t : Trace}
    (h : p.trace s fuel = some t) : ∃ r, p.Reports s.input s.limit r := by
  by_contra never
  cases hx : after (Buffers.device.next p.code s.limit) fuel ({}, ⟨s.input, []⟩) with
  | inr f => exact never ⟨f.report, reports_iff.2 ⟨fuel, f, hx, rfl⟩⟩
  | inl x =>
    -- As long as the run goes on the fuel goes into states of instructions.
    obtain ⟨shown, -, -, goesOn⟩ := Stepper.exists_exhaust_of_after hx
    have none := goesOn 0 #[]
    rw [Nat.zero_add, ← Stepper.exhaust_of_fresh fresh {}] at none
    cases none.symm.trans h

/-- What a step shows after an instruction: the state that the run comes to with the entry at which
it stood before. -/
theorem exists_eq_of_shown {n : Nat} {v : Snapshot}
    (shown : (p.stepped input limit radius n).yield = .ok (some v)) (named : v.instruction ≠ none) :
    ∃ x y, after (Buffers.device.next p.code limit) n ({}, ⟨input, []⟩) = .inl x ∧
      after (Buffers.device.next p.code limit) (n + 1) ({}, ⟨input, []⟩) = .inl y ∧
      v = y.1.snapshot p.code radius (p.code.mnemonic? x.1.pc) y.2.written := by
  obtain ⟨y, hy⟩ := exists_after_of_stepped shown named
  obtain ⟨x, hx, -, shown', -⟩ := stepped_of_after radius hy
  exact ⟨x, y, hx, hy, Option.some.inj (Except.ok.inj (shown.symm.trans shown'))⟩

/-- Stepping and running agree. The stepper comes to an end exactly if the run does, and then its
trace tells the same: the states of all instructions completed, and after them a final state or the
same error. Whether or not the run ends, a state tells its number, what the run has written by then,
and the entry at which the state before it stood. -/
theorem trace_agrees_with_run (p : Program) (input : List UInt8) (limit : Option Int)
    (radius : Int) :
    let s : Stepper := { input := input, limit := limit, radius := radius }
    let shown (n : Nat) := (p.stepped input limit radius n).yield
    ((∃ fuel t, p.trace s fuel = some t) ↔ ∃ r, p.Reports input limit r) ∧
      (∀ fuel t r, p.trace s fuel = some t → p.Reports input limit r → p.Traced shown r t) ∧
      ∀ n v, shown n = .ok (some v) → v.instruction ≠ none →
        v.step = n + 1 ∧ v.output = p.outputAfter input limit (n + 1) ∧
        (n = 0 → v.instruction = p.code.listing[0]?) ∧
        ∀ m u, n = m + 1 → shown m = .ok (some u) → v.instruction = p.code.listing[u.pc]? := by
  intro s shown
  refine ⟨⟨?_, ?_⟩, ?_, ?_⟩
  · rintro ⟨fuel, t, ht⟩
    exact exists_reports_of_trace rfl ht
  · rintro ⟨r, hr⟩
    obtain ⟨t, ht, -⟩ := hr.exists_trace radius
    exact ⟨_, t, ht⟩
  · intro fuel t r ht hr
    obtain ⟨t', ht', traced⟩ := hr.exists_trace radius
    exact Stepper.exhaust_unique ht ht' ▸ traced
  · intro n v hv named
    obtain ⟨x, y, hx, hy, rfl⟩ := exists_eq_of_shown hv named
    refine ⟨?_, ?_, ?_, ?_⟩
    · exact Buffers.steps_eq_of_after hy
    · rw [outputAfter, hy]
      rfl
    · rintro rfl
      obtain rfl := Sum.inl.inj hx
      exact (Code.getElem?_listing _ _).symm
    · rintro m u rfl hu
      obtain ⟨z, -, -, before, -⟩ := stepped_of_after radius hx
      obtain rfl := Option.some.inj (Except.ok.inj (hu.symm.trans before))
      exact (Code.getElem?_listing _ _).symm

/-- A run that reaches its limit where it would have found no input. Both fail for the limit, after
two states. -/
theorem trace_agrees_with_run_at_limit : ∃ p fuel t r,
    ofCommands [.motion .increment, .output, .input] = .ok p ∧
      p.trace { limit := some 2 } fuel = some t ∧ p.Reports [] (some 2) r ∧
      t.error = some .stepLimit ∧ t.states.size = 2 ∧ t.workspace = r.workspace ∧
      ∃ v, t.states[1]? = some v ∧ v.step = 2 ∧ v.output = [1] := by
  obtain ⟨p, hp⟩ : ∃ p, ofCommands [.motion .increment, .output, .input] = .ok p := ⟨_, rfl⟩
  obtain ⟨together, traced, each⟩ := p.trace_agrees_with_run [] (some 2) 10
  have code := ofCode_code hp
  obtain ⟨r, hr, failed, steps, output⟩ : ∃ r, p.Reports [] (some 2) r ∧
      r.result = .error .stepLimit ∧ r.workspace.steps = 2 ∧ p.outputAfter [] (some 2) 2 = [1] := by
    obtain ⟨_, _⟩ := p
    subst code
    exact ⟨_, ⟨3, rfl⟩, rfl, rfl, rfl⟩
  obtain ⟨fuel, t, ht⟩ := together.2 ⟨r, hr⟩
  have agrees := traced fuel t r ht hr
  obtain ⟨error, size⟩ := agrees.failed _ failed
  obtain ⟨v, hv, named, shown⟩ := agrees.states 1 (by omega)
  obtain ⟨step, written, -, -⟩ := each 1 v shown named
  exact ⟨p, fuel, t, r, hp, ht, hr, error, size.trans steps, agrees.workspace, v, hv, step,
    written.trans output⟩

end Program

end ByteTape
