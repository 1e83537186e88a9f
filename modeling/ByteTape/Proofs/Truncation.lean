import ByteTape.Proofs.Faults
import ByteTape.Proofs.Tracing

/-!
# A step limit only truncates

Over any streams a run under a step limit goes like the run without one. Either it ends like that
run, or it stops in front of the first instruction that the limit does not allow. The count of
instructions decides which: a limit is looked at before every instruction and not at the end of the
code, so a run that is through with its code needs a limit of just its instructions, and one that
fails in an instruction needs one more. A byte that is refused takes a turn, but it is no
instruction, and so the streams have to let go of every byte in the end.
-/

namespace ByteTape

/-- A run that steps like another one up to some point is the same up to there. -/
theorem after_congr {α β : Type} {step step' : α → α ⊕ β} {n : Nat} {a : α}
    (same : ∀ k < n, ∀ c, after step k a = .inl c → step' c = step c) :
    after step' n a = after step n a := by
  induction n generalizing a with
  | zero => rfl
  | succ n ih =>
    have first := same 0 n.succ_pos a rfl
    cases hs : step a with
    | inl b =>
      rw [after_succ_of_inl hs, after_succ_of_inl (first.trans hs)]
      refine ih fun k lt c hc => ?_
      exact same (k + 1) (Nat.succ_lt_succ lt) c (after_succ_of_inl hs k ▸ hc)
    | inr b => rw [after_succ_of_inr hs, after_succ_of_inr (first.trans hs)]

variable {σ : Type}

namespace Device

variable {d : Device σ} {code : Code} {limit : Option Int} {x y : Machine × σ} {f : Finish σ}
  {n k : Nat}

/-! ## Turns and instructions -/

/-- A turn that goes on completes an instruction, or else a byte was refused and the machine is as
it was. -/
theorem Goes.steps_cases (h : d.Goes code limit x y) :
    y.1.steps = x.1.steps + 1 ∨
      y.1 = x.1 ∧ code.operation? x.1.pc = some .output ∧
        d.write x.1.tape.read x.2 = (.ok false, y.2) := by
  cases h with
  | refused here allowed answer => exact .inr ⟨rfl, here, answer⟩
  | _ => exact .inl rfl

/-- Instructions are never taken back, and as long as none is completed the machine stays as it
is. -/
theorem steps_le_of_after (h : after (d.next code limit) n x = .inl y) :
    x.1.steps ≤ y.1.steps ∧ (y.1.steps = x.1.steps → y.1 = x.1) := by
  refine after_invariant (P := fun y => x.1.steps ≤ y.1.steps ∧ (y.1.steps = x.1.steps → y.1 = x.1))
    ?_ ⟨le_rfl, fun _ => rfl⟩ h
  rintro u v ⟨le, same⟩ next
  rcases (goes_of_next next).steps_cases with further | ⟨idle, -⟩
  · exact ⟨by omega, fun back => by omega⟩
  · rw [idle]
    exact ⟨le, same⟩

/-- A run ends with the machine that it has come to, or with more instructions completed. -/
theorem steps_le_of_ends {a : Machine × σ} (h : after (d.next code limit) k a = .inl y)
    (ends : after (d.next code limit) n a = .inr f) :
    y.1.steps ≤ f.machine.steps ∧ (f.machine.steps = y.1.steps → f.machine = y.1) := by
  obtain ⟨l, c, -, hc, last⟩ := exists_last_of_after_inr ends
  have ended : after (d.next code limit) (l + 1) a = .inr f := by
    rw [after_add_of_inl hc, after_succ_of_inr last]
  obtain ⟨i, rfl⟩ := Nat.exists_eq_add_of_le (Nat.le_of_lt_succ (lt_of_after h ended))
  rw [(ends_of_next last).machine_eq]
  exact steps_le_of_after (after_add_of_inl h i ▸ hc)

/-! ## Streams that let go -/

/-- A byte that is offered over and over is refused only so often: then it is taken, or something
fails. -/
inductive Relents (d : Device σ) (value : UInt8) : σ → Prop where
  | answered {s : σ} (answer : (d.write value s).1 ≠ .ok false) : Relents d value s
  | refused {s t : σ} (answer : d.write value s = (.ok false, t)) (again : Relents d value t) :
      Relents d value s

/-- The streams let go of every byte that they are offered by the run without a limit. -/
def RelentsThrough (d : Device σ) (p : Program) (s : σ) : Prop :=
  ∀ n m t, after (d.next p.code none) n ({}, s) = .inl (m, t) →
    p.code.operation? m.pc = some .output → d.Relents m.tape.read t

/-- A machine waits for `n` turns, and with the next one it completes an instruction or ends the
run. -/
structure Proceeds (d : Device σ) (code : Code) (m : Machine) (s : σ) (n : Nat) : Prop where
  waits : ∀ i ≤ n, ∀ z, after (d.next code none) i (m, s) = .inl z → z.1 = m
  comes : (∃ z, after (d.next code none) (n + 1) (m, s) = .inl z ∧ z.1.steps = m.steps + 1) ∨
    ∃ f, after (d.next code none) (n + 1) (m, s) = .inr f ∧ f.machine = m

variable {m : Machine} {s t : σ}

/-- A machine whose byte is not refused waits for nothing. -/
theorem proceeds_of_answered
    (answered : code.operation? m.pc = some .output → (d.write m.tape.read s).1 ≠ .ok false) :
    d.Proceeds code m s 0 := by
  refine ⟨?_, ?_⟩
  · intro i le z hz
    obtain rfl := Nat.le_zero.1 le
    obtain rfl := Sum.inl.inj hz
    rfl
  · rcases d.next_cases code none (m, s) with ⟨z, hz, goes⟩ | ⟨f, hf, ends⟩
    · rcases goes.steps_cases with further | ⟨-, here, refused⟩
      · exact .inl ⟨z, after_one_of_inl hz, further⟩
      · exact absurd (congrArg Prod.fst refused) (answered here)
    · exact .inr ⟨f, after_succ_of_inr hf 0, ends.machine_eq⟩

/-- A machine whose byte is refused waits for one turn more. -/
theorem Proceeds.of_refused (here : code.operation? m.pc = some .output)
    (answer : d.write m.tape.read s = (.ok false, t)) (h : d.Proceeds code m t n) :
    d.Proceeds code m s (n + 1) := by
  have first : d.next code none (m, s) = .inl (m, t) := (Goes.refused here rfl answer).next
  refine ⟨?_, ?_⟩
  · rintro (_ | i) le z hz
    · obtain rfl := Sum.inl.inj hz
      rfl
    · exact h.waits i (Nat.le_of_succ_le_succ le) z (after_succ_of_inl first i ▸ hz)
  · rw [after_succ_of_inl first]
    exact h.comes

/-- Where the streams let go of the byte, if one is offered, the machine does not wait for ever. -/
theorem exists_proceeds
    (relents : code.operation? m.pc = some .output → d.Relents m.tape.read s) :
    ∃ n, d.Proceeds code m s n := by
  by_cases here : code.operation? m.pc = some .output
  · have lets := relents here
    clear relents
    -- Every refusal is one turn more to wait.
    induction lets with
    | answered answer => exact ⟨0, proceeds_of_answered fun _ => answer⟩
    | refused answer again ih =>
      obtain ⟨n, proceeds⟩ := ih
      exact ⟨n + 1, proceeds.of_refused here answer⟩
  · exact ⟨0, proceeds_of_answered fun output => absurd output here⟩

/-! ## The run after some instructions -/

variable {p : Program} {most : Int}

/-- The run without a limit has just completed `k` instructions: it has come to `y`, and before that
it had completed fewer. -/
def Completes (d : Device σ) (p : Program) (s : σ) (k : Nat) (y : Machine × σ) : Prop :=
  ∃ n, after (d.next p.code none) n ({}, s) = .inl y ∧ y.1.steps = k ∧
    ∀ i < n, ∀ z, after (d.next p.code none) i ({}, s) = .inl z → z.1.steps < k

/-- After some instructions there is another one that is completed, or the run ends. -/
theorem Completes.succ (h : d.Completes p s k y) (relents : d.RelentsThrough p s) :
    (∃ z, d.Completes p s (k + 1) z) ∨
      ∃ n f, after (d.next p.code none) n ({}, s) = .inr f ∧ f.machine.steps = k := by
  obtain ⟨n, hy, rfl, before⟩ := h
  obtain ⟨i, proceeds⟩ := exists_proceeds (relents n y.1 y.2 hy)
  rcases proceeds.comes with ⟨z, hz, further⟩ | ⟨f, hf, same⟩
  · refine .inl ⟨z, n + (i + 1), (after_add_of_inl hy _).trans hz, further, ?_⟩
    intro j lt w hw
    by_cases early : j < n
    · exact Nat.lt_succ_of_lt (before j early w hw)
    · obtain ⟨l, rfl⟩ := Nat.exists_eq_add_of_le (Nat.le_of_not_lt early)
      rw [after_add_of_inl hy] at hw
      rw [proceeds.waits l (by omega) w hw]
      exact Nat.lt_succ_self _
  · exact .inr ⟨n + (i + 1), f, (after_add_of_inl hy _).trans hf, congrArg Machine.steps same⟩

/-- A run completes as many instructions as you like, or it ends with fewer. -/
theorem exists_completes_or_ends (relents : d.RelentsThrough p s) (k : Nat) :
    (∃ y, d.Completes p s k y) ∨
      ∃ n f, after (d.next p.code none) n ({}, s) = .inr f ∧ f.machine.steps < k := by
  induction k with
  | zero => exact .inl ⟨({}, s), 0, rfl, rfl, fun i lt => absurd lt i.not_lt_zero⟩
  | succ k ih =>
    rcases ih with ⟨y, completes⟩ | ⟨n, f, hf, fewer⟩
    · rcases completes.succ relents with further | ⟨n, f, hf, steps⟩
      · exact .inl further
      · exact .inr ⟨n, f, hf, Nat.lt_succ_of_le steps.le⟩
    · exact .inr ⟨n, f, hf, Nat.lt_succ_of_lt fewer⟩

/-! ## Runs that a limit leaves alone, and runs that it cuts short -/

theorem barred_iff : m.Barred code (some most) ↔
    code.operation? m.pc ≠ none ∧ most.toNat ≤ m.steps := by
  constructor
  · rintro ⟨inside, reached⟩
    obtain ⟨_, bound, le⟩ := Machine.limitReached_iff.1 reached
    obtain rfl := Option.some.inj bound
    exact ⟨inside, by omega⟩
  · rintro ⟨inside, le⟩
    exact ⟨inside, Machine.limitReached_iff.2 ⟨most, rfl, by omega⟩⟩

/-- A limit leaves a run alone that is through with its code after no more instructions, and one
that fails in an instruction after fewer. A limit below zero is as good as zero. -/
def Spares (code : Code) (most : Int) (f : Finish σ) : Prop :=
  f.machine.pc = code.size ∧ f.machine.steps ≤ most.toNat ∨
    f.machine.pc ≠ code.size ∧ f.machine.steps < most.toNat

/-- A run that has ended is through with its code if no instruction is left. -/
theorem past_iff_of_ends (h : after (d.next p.code limit) n ({}, s) = .inr f) :
    p.code.operation? f.machine.pc = none ↔ f.machine.pc = p.code.size := by
  obtain ⟨k, x, -, hx, last⟩ := exists_last_of_after_inr h
  rw [(ends_of_next last).machine_eq]
  exact Code.operation?_eq_none_iff_of_le (safe_of_after hx).pc_le

theorem after_limit_of_spares (ends : after (d.next p.code none) n ({}, s) = .inr f)
    (spared : Spares p.code most f) :
    after (d.next p.code (some most)) n ({}, s) = .inr f := by
  refine (after_congr fun k _ y hy => next_of_not_barred fun barred => ?_).trans ends
  -- A machine in front of the limit has completed as many instructions as the run ever does.
  obtain ⟨inside, reached⟩ := barred_iff.1 barred
  obtain ⟨le, same⟩ := steps_le_of_ends hy ends
  rcases spared with ⟨past, steps⟩ | ⟨-, fewer⟩
  · exact inside (same (by omega) ▸ (past_iff_of_ends ends).2 past)
  · omega

/-- A limit cuts a run short that is not through with its code after so many instructions. -/
theorem Completes.exists_limit (h : d.Completes p s most.toNat y)
    (inside : p.code.operation? y.1.pc ≠ none) :
    ∃ n, after (d.next p.code (some most)) n ({}, s) = .inr ⟨.error .stepLimit, y.1, y.2⟩ := by
  obtain ⟨n, hy, steps, before⟩ := h
  have same : after (d.next p.code (some most)) n ({}, s) = .inl y := by
    refine (after_congr fun k lt z hz => next_of_not_barred fun barred => ?_).trans hy
    have fewer := before k lt z hz
    have reached := (barred_iff.1 barred).2
    omega
  refine ⟨n + 1, ?_⟩
  rw [after_add_of_inl same, after_succ_of_inr (next_of_barred (barred_iff.2 ⟨inside, steps.ge⟩))]

/-- A run that is through with its code ends with the next turn. -/
theorem exists_next_of_past (d : Device σ) (limit : Option Int)
    (past : code.operation? x.1.pc = none) :
    ∃ f, d.next code limit x = .inr f ∧ f.machine = x.1 := by
  rcases d.next_cases code limit x with ⟨z, -, goes⟩ | ⟨f, hf, ends⟩
  · exact absurd past goes.inside
  · exact ⟨f, hf, ends.machine_eq⟩

/-- A run that a limit does not leave alone completes as many instructions as the limit tells, and
there is another one in front of which it is cut short. -/
theorem exists_completes_of_not_spares (relents : d.RelentsThrough p s)
    (long : ∀ n f, after (d.next p.code none) n ({}, s) = .inr f → ¬ Spares p.code most f) :
    ∃ y, d.Completes p s most.toNat y ∧ p.code.operation? y.1.pc ≠ none := by
  rcases exists_completes_or_ends relents most.toNat with ⟨y, completes⟩ | ⟨n, f, hf, fewer⟩
  · refine ⟨y, completes, fun past => ?_⟩
    -- Were the code done by then, the run would end with just as many instructions as it may have.
    obtain ⟨n, hy, steps, -⟩ := completes
    obtain ⟨f, last, same⟩ := exists_next_of_past d none past
    have ends : after (d.next p.code none) (n + 1) ({}, s) = .inr f := by
      rw [after_add_of_inl hy, after_succ_of_inr last]
    rw [← same] at past steps
    exact long _ f ends (.inl ⟨(past_iff_of_ends ends).1 past, steps.le⟩)
  · refine absurd ?_ (long n f hf)
    by_cases past : f.machine.pc = p.code.size
    · exact .inl ⟨past, fewer.le⟩
    · exact .inr ⟨past, fewer⟩

/-! ## Records beside a run -/

/-- What is forgotten of the state of streams is nothing that they refuse a byte for. -/
theorem Forgets.relents {τ : Type} {e : Device τ} {g : σ → τ} {value : UInt8} (h : d.Forgets e g)
    (relents : e.Relents value (g s)) : d.Relents value s := by
  generalize forgotten : g s = t at relents
  induction relents generalizing s with
  | answered answer =>
    subst forgotten
    refine .answered ?_
    rwa [← h.write] at answer
  | refused answer again ih =>
    subst forgotten
    rw [← h.write] at answer
    obtain ⟨refused, later⟩ := Prod.mk.inj answer
    exact .refused (Prod.ext refused rfl) (ih later)

theorem RelentsThrough.recorded (h : d.RelentsThrough p s) :
    d.recorded.RelentsThrough p (s, []) := by
  intro n m t ht here
  have same := d.recorded_forgets.after p.code none n ({}, s, [])
  rw [ht] at same
  obtain ⟨y, hy, rfl⟩ := liftRel_inl_left.1 same
  exact d.recorded_forgets.relents (h n m t.1 hy here)

/-- A run with an end has only this one. -/
theorem exists_execute_iff {g : Finish σ} (h : after (d.next p.code limit) n ({}, s) = .inr f) :
    (∃ fuel, d.execute p limit fuel s = some g) ↔ g = f := by
  constructor
  · rintro ⟨fuel, hg⟩
    exact after_inr_unique (resume_eq_some_iff.1 hg) h
  · rintro rfl
    exact ⟨n, resume_eq_some_iff.2 h⟩

end Device

/-- Every script lets go of a byte: at the latest when it has run out. -/
theorem Script.relents (value : UInt8) (s : Script) : Script.device.Relents value s := by
  obtain ⟨reads, writes, flushError, written, readCalls, writeCalls, flushCalls⟩ := s
  induction writes generalizing writeCalls with
  | nil => exact .answered (by simp [device, write])
  | cons event rest ih =>
    rcases event with e | _ | _
    · exact .answered (by simp [device, write])
    · exact .refused rfl (ih (writeCalls + 1))
    · exact .answered (by simp [device, write])

namespace Program

open Device (Spares)

/-- A step limit only truncates. Let streams let go of every byte that the run without a limit
offers them. Such a run may be through with its code, after which it flushes and returns if that
does not fail; or it fails in an instruction; or it never ends. If it is through with its code after
no more instructions than the limit tells, or fails in one after fewer, then the run under the limit
ends in just the same way, with the same dealings. Otherwise that one stops at the limit, and has
not flushed: it leaves the machine, the streams and the dealings as they are in the run without a
limit right after as many instructions. -/
theorem limit_only_truncates {σ : Type} (p : Program) (d : Device σ) (s : σ)
    (relents : d.RelentsThrough p s) (most : Int) :
    let run (limit : Option Int) (f : Finish (σ × List Dealing)) :=
      ∃ fuel, d.recorded.execute p limit fuel (s, []) = some f
    (∀ f, run none f → (f.result = .ok () → f.machine.pc = p.code.size) ∧
      f.device.2.countP Dealing.isFlush = if f.machine.pc = p.code.size then 1 else 0) ∧
    (∀ f, run none f → Spares p.code most f → ∀ g, run (some most) g ↔ g = f) ∧
    ((∀ f, run none f → ¬ Spares p.code most f) →
      ∃ y, d.recorded.Completes p (s, []) most.toNat y ∧ (∀ z ∈ y.2.2, z.isFlush = false) ∧
        ∀ g, run (some most) g ↔ g = ⟨.error .stepLimit, y.1, y.2⟩) := by
  intro run
  refine ⟨?_, ?_, ?_⟩
  · rintro f ⟨fuel, hf⟩
    obtain ⟨k, x, -, hx, last⟩ := exists_last_of_after_inr (Device.resume_eq_some_iff.1 hf)
    refine ⟨Device.pc_eq_size_of_last hx last, ?_⟩
    have ends := Device.ends_of_next last
    rw [ends.countP_isFlush (.of_after hx), ends.machine_eq]
    exact if_congr (Code.operation?_eq_none_iff_of_le (Device.safe_of_after hx).pc_le) rfl rfl
  · rintro f ⟨fuel, hf⟩ spared g
    exact Device.exists_execute_iff
      (Device.after_limit_of_spares (Device.resume_eq_some_iff.1 hf) spared)
  · intro long
    obtain ⟨y, completes, inside⟩ := Device.exists_completes_of_not_spares relents.recorded
      fun n f hf => long f ⟨n, Device.resume_eq_some_iff.2 hf⟩
    obtain ⟨n, hn⟩ := completes.exists_limit inside
    refine ⟨y, completes, ?_, fun g => Device.exists_execute_iff hn⟩
    obtain ⟨k, hy, -⟩ := completes
    intro z hz
    exact ((Device.Orderly.of_after hy).granted z hz).isFlush

/-- A run whose first byte is refused once completes three instructions. A limit of three leaves it
alone, and one of two cuts it short after that byte was taken. -/
theorem limit_only_truncates_beside_refusal : ∃ p f,
    ofCommands [.motion .increment, .output, .output] = .ok p ∧
      let s : Script := { writes := [.ok false] }
      let run (limit : Option Int) (f : Finish (Script × List Dealing)) :=
        ∃ fuel, Script.device.recorded.execute p limit fuel (s, []) = some f
      Script.device.RelentsThrough p s ∧ run none f ∧ f.machine.steps = 3 ∧
        Spares p.code 3 f ∧ (∀ g, run (some 3) g ↔ g = f) ∧
        (∀ g, run none g → ¬ Spares p.code 2 g) ∧
        ∃ y, Script.device.recorded.Completes p (s, []) 2 y ∧
          y.2.2 = [.write 1 (.ok false), .write 1 (.ok true)] ∧
          ∀ g, run (some 2) g ↔ g = ⟨.error .stepLimit, y.1, y.2⟩ := by
  obtain ⟨p, hp⟩ : ∃ p, ofCommands [.motion .increment, .output, .output] = .ok p := ⟨_, rfl⟩
  have code := ofCode_code hp
  let s : Script := { writes := [.ok false] }
  have relents : Script.device.RelentsThrough p s := fun _ _ t _ _ => t.relents _
  obtain ⟨f, hf, past, steps⟩ : ∃ f, Script.device.recorded.execute p none 5 (s, []) = some f ∧
      f.machine.pc = p.code.size ∧ f.machine.steps = 3 := by
    obtain ⟨_, _⟩ := p
    subst code
    exact ⟨_, rfl, rfl, rfl⟩
  obtain ⟨g, hg, dealings⟩ : ∃ g, Script.device.recorded.execute p (some 2) 4 (s, []) = some g ∧
      g.device.2 = [.write 1 (.ok false), .write 1 (.ok true)] := by
    obtain ⟨_, _⟩ := p
    subst code
    exact ⟨_, rfl, rfl⟩
  have spared : Spares p.code 3 f := .inl ⟨past, steps.le⟩
  have long (g : Finish (Script × List Dealing))
      (h : ∃ fuel, Script.device.recorded.execute p none fuel (s, []) = some g) :
      ¬ Spares p.code 2 g := by
    obtain rfl : g = f := (Device.exists_execute_iff (Device.resume_eq_some_iff.1 hf)).1 h
    simp [Spares, past, steps]
  obtain ⟨-, same, -⟩ := p.limit_only_truncates Script.device s relents 3
  obtain ⟨-, -, short⟩ := p.limit_only_truncates Script.device s relents 2
  obtain ⟨y, completes, -, stops⟩ := short long
  refine ⟨p, f, hp, relents, ⟨5, hf⟩, steps, spared, same f ⟨5, hf⟩ spared, long, y, completes, ?_,
    stops⟩
  obtain rfl := (stops g).1 ⟨4, hg⟩
  exact dealings

/-- Code without an instruction is done at once, so that no limit stops it, not even one below the
count of its instructions. -/
theorem empty_returns_below_zero : ∃ p f, ofCommands [] = .ok p ∧
    (∃ fuel, Script.device.execute p none fuel {} = some f) ∧ f.result = .ok () ∧
    f.machine.steps = 0 ∧ (∃ fuel, Script.device.execute p (some (-1)) fuel {} = some f) := by
  obtain ⟨p, hp⟩ : ∃ p, ofCommands [] = .ok p := ⟨_, rfl⟩
  have code := ofCode_code hp
  obtain ⟨_, _⟩ := p
  subst code
  exact ⟨_, _, hp, ⟨1, rfl⟩, rfl, rfl, ⟨1, rfl⟩⟩

end Program

end ByteTape
