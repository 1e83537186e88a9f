import ByteTape.Proofs.Faults

/-!
# Scripted streams

A script tells what the reads and the writes of a run come back with: any number of bytes, a count,
nothing at all, or a failure. Under every script a run keeps its output. What is accepted is what
the ideal run writes first, and all of it if the run returns; instructions are counted as they
complete, the output is flushed if the code is done, and a failure ends the run.
-/

namespace ByteTape

/-- What a scripted read comes back with. -/
inductive ReadEvent where
  | bytes (data : List UInt8)
  | nothing
  | failure (e : StreamError)

/-- The first byte is taken. Without one the input has come to its end. -/
def ReadEvent.answer : ReadEvent → Except StreamError (Option UInt8)
  | bytes data => .ok data.head?
  | nothing => .ok none
  | failure e => .error e

/-- What a scripted write comes back with. -/
inductive WriteEvent where
  | count (n : Int)
  | nothing
  | failure (e : StreamError)

/-- The byte is refused if the count is zero or missing. -/
def WriteEvent.answer : WriteEvent → Except StreamError Bool
  | count n => .ok (n != 0)
  | nothing => .ok false
  | failure e => .error e

/-- The script of given events. -/
def Script.ofEvents (reads : List ReadEvent) (writes : List WriteEvent)
    (flushError : Option StreamError) : Script where
  reads := reads.map ReadEvent.answer
  writes := writes.map WriteEvent.answer
  flushError := flushError

namespace Device

variable {σ : Type}

/-- Every call to the streams keeps a property of their state. -/
structure Keeps (d : Device σ) (P : σ → Prop) : Prop where
  read : ∀ s t answer, d.read s = (answer, t) → P s → P t
  write : ∀ value s t answer, d.write value s = (answer, t) → P s → P t
  flush : ∀ s t answer, d.flush s = (answer, t) → P s → P t

namespace Keeps

variable {d : Device σ} {P : σ → Prop} {code : Code} {limit : Option Int} {x y : Machine × σ}
  {f : Finish σ}

theorem goes (h : d.Keeps P) (goes : d.Goes code limit x y) (kept : P x.2) : P y.2 := by
  cases goes with
  | taken here allowed answer | refused here allowed answer => exact h.write _ _ _ _ answer kept
  | received here allowed answer => exact h.read _ _ _ answer kept
  | _ => exact kept

theorem ends (h : d.Keeps P) (ends : d.Ends code limit x f) (kept : P x.2) : P f.device := by
  cases ends with
  | done past answer | flush past answer => exact h.flush _ _ _ answer kept
  | exhausted here allowed answer | read here allowed answer => exact h.read _ _ _ answer kept
  | print here allowed answer => exact h.write _ _ _ _ answer kept
  | _ => exact kept

theorem after {n : Nat} (h : d.Keeps P) (hx : after (d.next code limit) n x = .inl y)
    (kept : P x.2) : P y.2 :=
  after_invariant (P := fun x => P x.2) (fun _ _ before next => h.goes (goes_of_next next) before)
    kept hx

end Keeps

end Device

namespace Script

theorem output_read (s : Script) : s.read.2.output = s.output := by
  obtain ⟨_ | ⟨event, reads⟩, _, _, _, _, _, _⟩ := s <;> rfl

theorem flushCalls_read (s : Script) : s.read.2.flushCalls = s.flushCalls := by
  obtain ⟨_ | ⟨event, reads⟩, _, _, _, _, _, _⟩ := s <;> rfl

/-- A byte is noted if it is accepted. -/
theorem output_write (value : UInt8) (s : Script) :
    (s.write value).2.output =
      s.output ++ (Dealing.write value (s.write value).1).accepted?.toList := by
  obtain ⟨_, _ | ⟨_ | _ | _, writes⟩, _, _, _, _, _⟩ := s <;>
    simp [write, output, Dealing.accepted?]

theorem flushCalls_write (value : UInt8) (s : Script) :
    (s.write value).2.flushCalls = s.flushCalls := by
  obtain ⟨_, _ | ⟨_ | _ | _, writes⟩, _, _, _, _, _⟩ := s <;> rfl

/-- What a script has noted agrees with the dealings. -/
structure Tells (x : Script × List Dealing) : Prop where
  output : x.1.output = acceptedBytes x.2
  flushCalls : x.1.flushCalls = x.2.countP Dealing.isFlush

theorem keeps_tells : device.recorded.Keeps Tells where
  read := by
    rintro ⟨s, log⟩ t answer same ⟨output, flushCalls⟩
    have later : t.1 = s.read.2 := (congrArg (fun r => r.2.1) same).symm
    have dealt : t.2 = log ++ [.read answer] := Device.recorded_read same
    constructor
    · rw [later, dealt, output_read, output, acceptedBytes_concat]
      exact (List.append_nil _).symm
    · rw [later, dealt, flushCalls_read, flushCalls, List.countP_append]
      rfl
  write := by
    rintro value ⟨s, log⟩ t answer same ⟨output, flushCalls⟩
    have later : t.1 = (s.write value).2 := (congrArg (fun r => r.2.1) same).symm
    have given : answer = (s.write value).1 := (congrArg Prod.fst same).symm
    have dealt : t.2 = log ++ [.write value answer] := Device.recorded_write same
    constructor
    · rw [later, dealt, output_write, output, acceptedBytes_concat, given]
    · rw [later, dealt, flushCalls_write, flushCalls, List.countP_append]
      rfl
  flush := by
    rintro ⟨s, log⟩ t answer same ⟨output, flushCalls⟩
    have later : t.1 = s.flush.2 := (congrArg (fun r => r.2.1) same).symm
    have dealt : t.2 = log ++ [.flush answer] := Device.recorded_flush same
    constructor
    · rw [dealt, acceptedBytes_concat, later]
      exact output.trans (List.append_nil _).symm
    · rw [later, dealt, List.countP_append]
      exact congrArg (· + 1) flushCalls

variable {p : Program} {limit : Option Int} {n : Nat} {s : Script} {f : Finish Script}

/-- At the end of a run a script has noted the bytes accepted and the flushes. -/
theorem tells_of_execute (h : device.execute p limit n s = some f) (written : s.written = [])
    (flushCalls : s.flushCalls = 0) : Tells (f.device, device.dealings p limit n s) := by
  obtain ⟨g, k, x, -, hx, last, rfl, dealt⟩ := Device.exists_recorded_of_execute h
  have start : Tells (s, []) := ⟨by simp [output, written], flushCalls⟩
  rw [dealt]
  exact keeps_tells.ends (Device.ends_of_next last) (keeps_tells.after hx start)

end Script

/-- Whatever the streams answer, a run keeps its output. A byte that was refused is the next thing
asked for, and as long as the run goes on, nothing has failed and nothing was flushed. The bytes
accepted begin the output of the ideal run over the bytes received, be it limited or not. If the run
returns they are all of it. The instructions completed are the ones that the ideal run carries out,
and they are counted. If all are completed the output is flushed once, and else never. An error of
the operating system is reported as one of the run, and any other failure as it is. -/
theorem Program.output_kept_under_script (p : Program) (reads : List ReadEvent)
    (writes : List WriteEvent) (flushError : Option StreamError) (limit : Option Int) (n : Nat) :
    let s := Script.ofEvents reads writes flushError
    let log := Script.device.dealings p limit n s
    log.IsChain Dealing.Insists ∧
    (Script.device.execute p limit n s = none → ∀ z ∈ log, z.Granted) ∧
    (∀ most, most = none ∨ most = limit → ∃ k, ∀ m ≥ k,
      acceptedBytes log <+: p.outputAfter (receivedBytes log) most m) ∧
    ∀ f, Script.device.execute p limit n s = some f →
      f.device.output = acceptedBytes log ∧
      (f.result = .ok () → ∀ most, most = none ∨ most = limit →
        p.Reports (receivedBytes log) most
          ⟨.ok (acceptedBytes log), ⟨f.machine.tape, f.machine.steps⟩⟩) ∧
      Script.device.completed p limit n s =
        p.performed (receivedBytes log) none f.machine.steps ∧
      f.machine.steps = (Script.device.completed p limit n s).length ∧
      f.device.flushCalls = (if f.machine.pc = p.code.size then 1 else 0) ∧
      ∀ z ∈ log, ∀ a,
        (∀ text, z.failure? = some (a, .os text) → f.result = .error (.io a text)) ∧
        (∀ text, z.failure? = some (a, .other text) → f.result = .error (.stream text)) ∧
        ∀ e, z.failure? = some (a, .byteCount e) → f.result = .error (.byteCount e) := by
  intro s log
  refine ⟨Device.dealings_insist _ p limit n s, Device.granted_of_execute_eq_none, ?_, ?_⟩
  · intro most h
    exact Device.exists_accepted_prefix _ p n s (looser_of_eq h)
  · intro f hf
    have tells := Script.tells_of_execute hf rfl rfl
    obtain ⟨completed, count⟩ := Device.completed_of_execute hf (looser_of_eq (.inl rfl))
    refine ⟨tells.output, ?_, completed, count.symm, ?_, ?_⟩
    · intro done most h
      exact Device.reports_of_execute hf done (looser_of_eq h)
    · exact tells.flushCalls.trans (Device.countP_isFlush_of_execute hf)
    · intro z hz a
      exact ⟨fun _ failure => Device.result_of_failure hf hz failure,
        fun _ failure => Device.result_of_failure hf hz failure,
        fun _ failure => Device.result_of_failure hf hz failure⟩

/-- One byte of two is read, the output refuses it twice, and the flush fails after all. -/
theorem Program.output_kept_under_refusals :
    let s := Script.ofEvents [.bytes [7, 8]] [.count 0, .nothing, .count 3]
      (some (.os "No space left on device"))
    ∃ p f, ofCommands [.input, .output] = .ok p ∧ Script.device.execute p none 6 s = some f ∧
      f.device.output = [7] ∧ f.machine.steps = 2 ∧ f.device.flushCalls = 1 ∧
      f.result = .error (.io .flush "No space left on device") ∧
      ∃ k, ∀ m ≥ k, [7] <+: p.outputAfter [7] none m := by
  intro s
  obtain ⟨p, hp⟩ : ∃ p, ofCommands [.input, .output] = .ok p := ⟨_, rfl⟩
  have code := ofCode_code hp
  obtain ⟨f, hf, done, dealt⟩ : ∃ f, Script.device.execute p none 6 s = some f ∧
      f.machine.pc = p.code.size ∧ Script.device.dealings p none 6 s =
        [.read (.ok (some 7)), .write 7 (.ok false), .write 7 (.ok false), .write 7 (.ok true),
          .flush (.error (.os "No space left on device"))] := by
    obtain ⟨_, _⟩ := p
    subst code
    exact ⟨_, rfl, rfl, rfl⟩
  obtain ⟨-, -, first, ends⟩ := p.output_kept_under_script [.bytes [7, 8]]
    [.count 0, .nothing, .count 3] (some (.os "No space left on device")) none 6
  obtain ⟨output, -, -, steps, flushes, failures⟩ := ends f hf
  have completed : (Script.device.completed p none 6 s).length = 2 := by
    rw [Device.completed, code]
    rfl
  have fails := (failures (.flush (.error (.os "No space left on device")))
    (dealt ▸ by simp) .flush).1 _ rfl
  refine ⟨p, f, hp, hf, output.trans (dealt ▸ rfl), steps.trans completed,
    flushes.trans (if_pos done), fails, ?_⟩
  obtain ⟨k, begins⟩ := first none (.inl rfl)
  rw [dealt] at begins
  exact ⟨k, begins⟩

end ByteTape
