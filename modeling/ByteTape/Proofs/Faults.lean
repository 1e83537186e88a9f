import ByteTape.Proofs.Budget
import ByteTape.Proofs.Dealings
import ByteTape.Proofs.Safety
import ByteTape.Proofs.Stepping

/-!
# Streams that misbehave

Streams may refuse a byte as often as they like, run out of input, or fail. A run over them goes
like the ideal run, over in-memory streams that hold the bytes received: both carry out the same
instructions and write the same bytes, only that a refused byte takes further turns.
-/

namespace ByteTape

variable {σ : Type} {d : Device σ} {code : Code} {limit most : Option Int} {n : Nat}

/-- A step limit allows whatever another one allows. -/
def Looser (most limit : Option Int) : Prop :=
  ∀ m : Machine, m.limitReached limit = false → m.limitReached most = false

theorem looser_of_eq (h : most = none ∨ most = limit) : Looser most limit := by
  rintro m allowed
  rcases h with rfl | rfl
  · rfl
  · exact allowed

namespace Device

/-- The operation that a turn completes, if it goes on: none as long as a byte is refused. -/
def completes (d : Device σ) (code : Code) (x : Machine × σ) : Option Operation :=
  match code.operation? x.1.pc with
  | some .output => if (d.write x.1.tape.read x.2).1 matches .ok true then some .output else none
  | op => op

/-- The operations that a run completes in its first `n` turns, in order. -/
def completed (d : Device σ) (p : Program) (limit : Option Int) (n : Nat) (s : σ) :
    List Operation :=
  trail (d.next p.code limit) (d.completes p.code) n ({}, s)

/-- The record of the dealings has no part in what is completed. -/
theorem completed_recorded (d : Device σ) (p : Program) (limit : Option Int) (n : Nat) (s : σ) :
    d.recorded.completed p limit n (s, []) = d.completed p limit n s := by
  have marks (x : Machine × σ × List Dealing) (y : Machine × σ) (h : Prod.map id Prod.fst x = y) :
      (d.recorded.completes p.code x).map id = (d.completes p.code y).map id := h ▸ rfl
  have same := trail_map_eq (fun x _ h => h ▸ d.recorded_forgets.next p.code limit x) marks
    (show Prod.map id Prod.fst ({}, s, []) = ({}, s) from rfl) n
  rwa [List.map_id, List.map_id] at same

section Step

variable {x y : Machine × σ × List Dealing} {got given : List UInt8}

/-- A turn completes an instruction over the bytes `got` from its input and `given` to its output,
and the ideal run does the same. -/
structure Mirrors (d : Device σ) (code : Code) (most : Option Int)
    (x y : Machine × σ × List Dealing) (got given : List UInt8) : Prop where
  received : receivedBytes y.2.2 = receivedBytes x.2.2 ++ got
  accepted : acceptedBytes y.2.2 = acceptedBytes x.2.2 ++ given
  steps : y.1.steps = x.1.steps + 1
  completes : d.recorded.completes code x = code.operation? x.1.pc
  goes : ∀ rest w, Buffers.device.Goes code most (x.1, ⟨got ++ rest, w⟩)
    (y.1, ⟨rest, given.reverse ++ w⟩)

/-- A turn is idle if a byte is refused. -/
structure Idles (d : Device σ) (code : Code) (x y : Machine × σ × List Dealing) : Prop where
  machine : y.1 = x.1
  received : receivedBytes y.2.2 = receivedBytes x.2.2
  accepted : acceptedBytes y.2.2 = acceptedBytes x.2.2
  completes : d.recorded.completes code x = none

theorem Mirrors.of_silent (silent : y.2.2 = x.2.2) (steps : y.1.steps = x.1.steps + 1)
    (inside : code.operation? x.1.pc ≠ some .output)
    (goes : ∀ b, Buffers.device.Goes code most (x.1, b) (y.1, b)) :
    d.Mirrors code most x y [] [] where
  received := by rw [silent, List.append_nil]
  accepted := by rw [silent, List.append_nil]
  steps := steps
  completes := by
    unfold Device.completes
    split
    · contradiction
    · rfl
  goes _ _ := goes _

/-- Whatever turn goes on, the ideal run goes on in the same way, unless a byte is refused. -/
theorem Goes.mirrored (h : d.recorded.Goes code limit x y) (loose : Looser most limit) :
    d.Idles code x y ∨ ∃ got given, d.Mirrors code most x y got given := by
  cases h with
  | motion here allowed =>
    exact .inr ⟨_, _, .of_silent rfl rfl (by simp [here]) fun _ => .motion here (loose _ allowed)⟩
  | @taken m s t here allowed answer =>
    have log := recorded_write answer
    refine .inr ⟨[], [m.tape.read], ?_, ?_, rfl, ?_, fun _ _ => .taken here (loose _ allowed) rfl⟩
    · simp [log, Dealing.received?]
    · simp [log, Dealing.accepted?]
    · simp [completes, here, answer]
  | refused here allowed answer =>
    have log := recorded_write answer
    refine .inl ⟨rfl, ?_, ?_, ?_⟩
    · simp [log, Dealing.received?]
    · simp [log, Dealing.accepted?]
    · simp [completes, here, answer]
  | @received m s t value here allowed answer =>
    have log := recorded_read answer
    refine .inr ⟨[value], [], ?_, ?_, rfl, ?_, fun _ _ => .received here (loose _ allowed) rfl⟩
    · simp [log, Dealing.received?]
    · simp [log, Dealing.accepted?]
    · simp [completes, here]
  | passed here allowed stays =>
    exact .inr ⟨_, _, .of_silent rfl rfl (by simp [here])
      fun _ => .passed here (loose _ allowed) stays⟩
  | jumped here allowed jumps partner =>
    exact .inr ⟨_, _, .of_silent rfl rfl (by simp [here])
      fun _ => .jumped here (loose _ allowed) jumps partner⟩

/-- As long as a run goes on, the ideal run over the bytes received comes to the same machine, has
written the bytes accepted, and has carried out what the run has completed. It leaves any further
input alone. -/
theorem mirrored_of_after {s : σ}
    (h : after (d.recorded.next code limit) n ({}, s, []) = .inl y)
    (loose : Looser most limit)
    (rest : List UInt8) :
    after (Buffers.device.next code most) y.1.steps ({}, ⟨receivedBytes y.2.2 ++ rest, []⟩) =
        .inl (y.1, ⟨rest, (acceptedBytes y.2.2).reverse⟩) ∧
      trail (Buffers.device.next code most) (fun x => code.operation? x.1.pc) y.1.steps
          ({}, ⟨receivedBytes y.2.2 ++ rest, []⟩) =
        trail (d.recorded.next code limit) (d.recorded.completes code) n ({}, s, []) := by
  -- A byte that is received later is further input for the turns before.
  induction n generalizing y rest with
  | zero =>
    obtain rfl := Sum.inl.inj h
    exact ⟨rfl, rfl⟩
  | succ n ih =>
    obtain ⟨x, hx, last⟩ := exists_last_of_after_inl h
    rw [trail_concat hx last]
    rcases (goes_of_next last).mirrored loose with idle | ⟨got, given, turns⟩
    · rw [idle.machine, idle.received, idle.accepted, idle.completes]
      simpa using ih hx rest
    · obtain ⟨comes, carried⟩ := ih hx (got ++ rest)
      rw [turns.received, turns.accepted, turns.steps, List.append_assoc, turns.completes]
      have turn := (turns.goes rest (acceptedBytes x.2.2).reverse).next
      refine ⟨?_, ?_⟩
      · rw [after_add_of_inl comes, after_one_of_inl turn, List.reverse_append]
      · rw [trail_concat comes turn, carried]

end Step

/-- What holds of the dealings while a run goes on. A byte that was refused last is still waited
for. -/
structure Orderly (code : Code) (x : Machine × σ × List Dealing) : Prop where
  insists : x.2.2.IsChain Dealing.Insists
  waits : ∀ value, x.2.2.getLast? = some (.write value (.ok false)) →
    code.operation? x.1.pc = some .output ∧ x.1.tape.read = value
  granted : ∀ z ∈ x.2.2, z.Granted

namespace Orderly

variable {x y : Machine × σ × List Dealing} {f : Finish (σ × List Dealing)} {z : Dealing}

/-- Whatever is asked for next follows orderly, if only a waiting output offers its byte. -/
theorem insists_concat (h : Orderly code x)
    (offers : code.operation? x.1.pc = some .output → ∃ answer, z = .write x.1.tape.read answer) :
    (x.2.2 ++ [z]).IsChain Dealing.Insists := by
  refine List.isChain_append.2 ⟨h.insists, List.isChain_singleton z, ?_⟩
  rintro refused hlast next hnext value rfl
  obtain rfl : z = next := by simpa using hnext
  obtain ⟨here, cell⟩ := h.waits value hlast
  exact cell ▸ offers here

theorem concat {m : Machine} {t : σ} (h : Orderly code x)
    (offers : code.operation? x.1.pc = some .output → ∃ answer, z = .write x.1.tape.read answer)
    (granted : z.Granted)
    (waits : ∀ value, z = .write value (.ok false) →
      code.operation? m.pc = some .output ∧ m.tape.read = value) :
    Orderly code (m, t, x.2.2 ++ [z]) where
  insists := h.insists_concat offers
  waits value hlast := waits value (by simpa using hlast)
  granted w hw := by
    rcases List.mem_append.1 hw with old | new
    · exact h.granted w old
    · exact List.mem_singleton.1 new ▸ granted

/-- Where no output waits, no byte was refused last. -/
theorem of_silent {m : Machine} {t : σ} (h : Orderly code x)
    (silent : code.operation? x.1.pc ≠ some .output) : Orderly code (m, t, x.2.2) where
  insists := h.insists
  waits value hlast := absurd (h.waits value hlast).1 silent
  granted := h.granted

theorem of_goes (h : Orderly code x) (goes : d.recorded.Goes code limit x y) : Orderly code y := by
  cases goes with
  | motion here allowed | passed here allowed stays | jumped here allowed jumps partner =>
    exact h.of_silent (by simp [here])
  | @taken m s t here allowed answer =>
    have log := recorded_write answer
    have later := h.concat (m := m.advance) (t := t.1) (fun _ => ⟨.ok true, rfl⟩) trivial (by simp)
    rwa [← log] at later
  | @refused m s t here allowed answer =>
    have log := recorded_write answer
    have later := h.concat (m := m) (t := t.1) (fun _ => ⟨.ok false, rfl⟩) trivial
      (by simp [here])
    rwa [← log] at later
  | @received m s t value here allowed answer =>
    have log := recorded_read answer
    have later := h.concat (m := m.receive value) (t := t.1) (z := .read (.ok (some value)))
      (by simp [here]) trivial (by simp)
    rwa [← log] at later

theorem of_after {s : σ} (h : after (d.recorded.next code limit) n ({}, s, []) = .inl x) :
    Orderly code x := by
  refine after_invariant (P := Orderly code) ?_ ?_ h
  · intro y z orderly next
    exact orderly.of_goes (goes_of_next next)
  · exact ⟨List.isChain_nil, by simp, by simp⟩

end Orderly

/-- The dealing that a run ends with moves no byte, and a failure of it is the result. It is a flush
exactly where the code is done. -/
structure Concludes (code : Code) (x : Machine × σ × List Dealing)
    (f : Finish (σ × List Dealing)) (z : Dealing) : Prop where
  log : f.device.2 = x.2.2 ++ [z]
  received : z.received? = none
  accepted : z.accepted? = none
  offers : code.operation? x.1.pc = some .output → ∃ answer, z = .write x.1.tape.read answer
  flush : z.isFlush = true ↔ code.operation? x.1.pc = none
  failure : ∀ a e, z.failure? = some (a, e) → f.result = .error (.ofStream a e)

section Ends

variable {x : Machine × σ × List Dealing} {f : Finish (σ × List Dealing)}

/-- A run ends with such a dealing, or without any before the code is done. -/
theorem Ends.concludes (h : d.recorded.Ends code limit x f) :
    (f.device.2 = x.2.2 ∧ code.operation? x.1.pc ≠ none) ∨ ∃ z, Concludes code x f z := by
  cases h with
  | done past answer =>
    exact .inr ⟨_, recorded_flush answer, rfl, rfl, by simp [past], by simp [past, Dealing.isFlush],
      by simp [Dealing.failure?]⟩
  | flush past answer =>
    exact .inr ⟨_, recorded_flush answer, rfl, rfl, by simp [past], by simp [past, Dealing.isFlush],
      by simp +contextual [Dealing.failure?]⟩
  | limit here reached => exact .inl ⟨rfl, by simp [here]⟩
  | exhausted here allowed answer =>
    exact .inr ⟨_, recorded_read answer, rfl, rfl, by simp [here], by simp [here, Dealing.isFlush],
      by simp [Dealing.failure?]⟩
  | read here allowed answer =>
    exact .inr ⟨_, recorded_read answer, rfl, rfl, by simp [here], by simp [here, Dealing.isFlush],
      by simp +contextual [Dealing.failure?]⟩
  | print here allowed answer =>
    exact .inr ⟨_, recorded_write answer, rfl, rfl, fun _ => ⟨_, rfl⟩,
      by simp [here, Dealing.isFlush], by simp +contextual [Dealing.failure?]⟩
  | loop here allowed jumps missing => exact .inl ⟨rfl, by simp [here]⟩

/-- The last turn moves no byte. -/
theorem Ends.bytes_eq (h : d.recorded.Ends code limit x f) :
    receivedBytes f.device.2 = receivedBytes x.2.2 ∧
      acceptedBytes f.device.2 = acceptedBytes x.2.2 := by
  rcases h.concludes with ⟨same, -⟩ | ⟨z, last⟩
  · rw [same]
    exact ⟨rfl, rfl⟩
  · rw [last.log, receivedBytes_concat, acceptedBytes_concat, last.received, last.accepted]
    simp

theorem Ends.insists (h : d.recorded.Ends code limit x f) (orderly : Orderly code x) :
    f.device.2.IsChain Dealing.Insists := by
  rcases h.concludes with ⟨same, -⟩ | ⟨z, last⟩
  · exact same ▸ orderly.insists
  · exact last.log ▸ orderly.insists_concat last.offers

/-- A run flushes once if its code is done, and otherwise not at all. -/
theorem Ends.countP_isFlush (h : d.recorded.Ends code limit x f) (orderly : Orderly code x) :
    f.device.2.countP Dealing.isFlush = if code.operation? x.1.pc = none then 1 else 0 := by
  have before : x.2.2.countP Dealing.isFlush = 0 := by
    refine List.countP_eq_zero.2 fun z hz => ?_
    rw [(orderly.granted z hz).isFlush]
    exact Bool.false_ne_true
  rcases h.concludes with ⟨same, inside⟩ | ⟨z, last⟩
  · rw [same, before, if_neg inside]
  · rw [last.log, List.countP_append, before, List.countP_singleton, Nat.zero_add]
    exact if_congr last.flush rfl rfl

/-- The failure of a stream ends a run. -/
theorem Ends.result_of_failure (h : d.recorded.Ends code limit x f) (orderly : Orderly code x)
    {z : Dealing} (hz : z ∈ f.device.2) {a : Activity} {e : StreamError}
    (failure : z.failure? = some (a, e)) : f.result = .error (.ofStream a e) := by
  have never (old : z ∈ x.2.2) : False := by
    rw [(orderly.granted z old).failure?] at failure
    cases failure
  rcases h.concludes with ⟨same, -⟩ | ⟨w, last⟩
  · exact (never (same ▸ hz)).elim
  · rcases List.mem_append.1 (last.log ▸ hz) with old | new
    · exact (never old).elim
    · exact last.failure a e (List.mem_singleton.1 new ▸ failure)

/-- The ideal run is done where a run is. -/
theorem Ends.mirrored (h : d.recorded.Ends code limit x f) (done : f.result = .ok ())
    (most : Option Int) (b : Buffers) :
    Buffers.device.next code most (x.1, b) = .inr ⟨.ok (), x.1, b⟩ := by
  cases h with
  | done past answer => simp [next, turn, Machine.effect, past, Buffers.device]
  | _ => cases done

end Ends

section Run

variable {p : Program} {s : σ} {f : Finish σ}

theorem dealings_of_inl {x : Machine × σ × List Dealing}
    (h : after (d.recorded.next p.code limit) n ({}, s, []) = .inl x) :
    d.dealings p limit n s = x.2.2 := by
  rw [dealings, h]
  rfl

theorem dealings_of_inr {g : Finish (σ × List Dealing)}
    (h : after (d.recorded.next p.code limit) n ({}, s, []) = .inr g) :
    d.dealings p limit n s = g.device.2 := by
  rw [dealings, h]
  rfl

/-- A run that has not come to its end goes on when its dealings are recorded. -/
theorem exists_recorded_of_execute_eq_none (h : d.execute p limit n s = none) :
    ∃ x, after (d.recorded.next p.code limit) n ({}, s, []) = .inl x := by
  have same := d.recorded_forgets.after p.code limit n ({}, s, [])
  cases hx : after (d.recorded.next p.code limit) n ({}, s, []) with
  | inl x => exact ⟨x, rfl⟩
  | inr g =>
    obtain ⟨f, hf, -⟩ := liftRel_inr_left.1 (hx ▸ same)
    cases h.symm.trans (resume_eq_some_iff.2 hf)

/-- A run that has come to its end does so in the same turn when its dealings are recorded. -/
theorem exists_recorded_of_execute (h : d.execute p limit n s = some f) :
    ∃ g k x, k < n ∧ after (d.recorded.next p.code limit) k ({}, s, []) = .inl x ∧
      d.recorded.next p.code limit x = .inr g ∧ g.map Prod.fst = f ∧
      d.dealings p limit n s = g.device.2 := by
  have same := d.recorded_forgets.after p.code limit n ({}, s, [])
  obtain ⟨g, hg, forget⟩ := liftRel_inr_right.1 (resume_eq_some_iff.1 h ▸ same)
  obtain ⟨k, x, lt, hx, last⟩ := exists_last_of_after_inr hg
  exact ⟨g, k, x, lt, hx, last, forget, dealings_of_inr hg⟩

/-- While a run goes on, no stream has failed and none was flushed. -/
theorem granted_of_execute_eq_none (h : d.execute p limit n s = none) :
    ∀ z ∈ d.dealings p limit n s, z.Granted := by
  obtain ⟨x, hx⟩ := exists_recorded_of_execute_eq_none h
  rw [dealings_of_inl hx]
  exact (Orderly.of_after hx).granted

/-- A byte that is refused is offered again before anything else is asked for. -/
theorem dealings_insist (d : Device σ) (p : Program) (limit : Option Int) (n : Nat) (s : σ) :
    (d.dealings p limit n s).IsChain Dealing.Insists := by
  cases hf : d.execute p limit n s with
  | none =>
    obtain ⟨x, hx⟩ := exists_recorded_of_execute_eq_none hf
    rw [dealings_of_inl hx]
    exact (Orderly.of_after hx).insists
  | some f =>
    obtain ⟨g, k, x, -, hx, last, -, dealt⟩ := exists_recorded_of_execute hf
    rw [dealt]
    exact (ends_of_next last).insists (.of_after hx)

/-- The bytes accepted are some that the ideal run writes first. -/
theorem exists_accepted_prefix (d : Device σ) (p : Program) (n : Nat) (s : σ)
    (loose : Looser most limit) :
    ∃ k, ∀ m ≥ k, acceptedBytes (d.dealings p limit n s) <+:
      p.outputAfter (receivedBytes (d.dealings p limit n s)) most m := by
  suffices ∃ k, acceptedBytes (d.dealings p limit n s) =
      p.outputAfter (receivedBytes (d.dealings p limit n s)) most k by
    obtain ⟨k, same⟩ := this
    exact ⟨k, fun m le => same ▸ Program.outputAfter_prefix le⟩
  have written {k : Nat} {x : Machine × σ × List Dealing}
      (hx : after (d.recorded.next p.code limit) k ({}, s, []) = .inl x) :
      p.outputAfter (receivedBytes x.2.2) most x.1.steps = acceptedBytes x.2.2 := by
    have comes := (mirrored_of_after hx loose []).1
    rw [List.append_nil] at comes
    simp [Program.outputAfter, comes, Buffers.output]
  cases hf : d.execute p limit n s with
  | none =>
    obtain ⟨x, hx⟩ := exists_recorded_of_execute_eq_none hf
    rw [dealings_of_inl hx]
    exact ⟨_, (written hx).symm⟩
  | some f =>
    obtain ⟨g, k, x, -, hx, last, -, dealt⟩ := exists_recorded_of_execute hf
    obtain ⟨got, given⟩ := (ends_of_next last).bytes_eq
    rw [dealt, got, given]
    exact ⟨_, (written hx).symm⟩

/-- Where a run returns, so does the ideal run, with all of the bytes accepted for its output, the
same tape and the same count of steps. -/
theorem reports_of_execute (h : d.execute p limit n s = some f) (done : f.result = .ok ())
    (loose : Looser most limit) :
    p.Reports (receivedBytes (d.dealings p limit n s)) most
      ⟨.ok (acceptedBytes (d.dealings p limit n s)), ⟨f.machine.tape, f.machine.steps⟩⟩ := by
  obtain ⟨g, k, x, -, hx, last, rfl, dealt⟩ := exists_recorded_of_execute h
  have ends := ends_of_next last
  obtain ⟨got, given⟩ := ends.bytes_eq
  have comes := (mirrored_of_after hx loose []).1
  rw [dealt, got, given]
  rw [List.append_nil] at comes
  refine Program.reports_iff.2 ⟨_, _, (after_add_of_inl comes 1).trans
    (after_succ_of_inr (ends.mirrored done most _) 0), ?_⟩
  simp [Finish.report, Finish.map, Except.map, Buffers.output, ends.machine_eq]

/-- A run completes what the ideal run carries out, and counts it. -/
theorem completed_of_execute (h : d.execute p limit n s = some f)
    (loose : Looser most limit) :
    d.completed p limit n s =
        p.performed (receivedBytes (d.dealings p limit n s)) most f.machine.steps ∧
      (d.completed p limit n s).length = f.machine.steps := by
  obtain ⟨g, k, x, lt, hx, last, rfl, dealt⟩ := exists_recorded_of_execute h
  have ends := ends_of_next last
  have steps : (g.map Prod.fst).machine.steps = x.1.steps := congrArg _ ends.machine_eq
  obtain ⟨comes, carried⟩ := mirrored_of_after hx loose []
  have same : d.completed p limit n s =
      p.performed (receivedBytes (d.dealings p limit n s)) most x.1.steps := by
    rw [← completed_recorded, completed, trail_eq_of_last lt hx last, ← carried, dealt,
      ends.bytes_eq.1, List.append_nil]
    rfl
  rw [steps, same]
  refine ⟨rfl, ?_⟩
  rw [dealt, ends.bytes_eq.1, Program.performed]
  rw [List.append_nil] at comes
  exact length_trail (fun _ _ next => (goes_of_next next).inside) comes

/-- A run flushes once if its code is done, and otherwise not at all. -/
theorem countP_isFlush_of_execute (h : d.execute p limit n s = some f) :
    (d.dealings p limit n s).countP Dealing.isFlush =
      if f.machine.pc = p.code.size then 1 else 0 := by
  obtain ⟨g, k, x, -, hx, last, rfl, dealt⟩ := exists_recorded_of_execute h
  have ends := ends_of_next last
  have inside := Code.operation?_eq_none_iff_of_le (safe_of_after hx).pc_le
  rw [dealt, ends.countP_isFlush (.of_after hx), Finish.map, ends.machine_eq]
  exact if_congr inside rfl rfl

/-- What fails in a stream is what the run fails with. -/
theorem result_of_failure (h : d.execute p limit n s = some f) {z : Dealing}
    (hz : z ∈ d.dealings p limit n s) {a : Activity} {e : StreamError}
    (failure : z.failure? = some (a, e)) : f.result = .error (.ofStream a e) := by
  obtain ⟨g, k, x, -, hx, last, rfl, dealt⟩ := exists_recorded_of_execute h
  exact (ends_of_next last).result_of_failure (.of_after hx) (dealt ▸ hz) failure

end Run

end Device

end ByteTape
