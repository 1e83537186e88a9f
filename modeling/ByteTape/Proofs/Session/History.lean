import ByteTape.Proofs.Session.Calling
import ByteTape.Proofs.Tracing

/-!
# The history of a session

A session that nothing else disturbs notes all states that it begins with and all states that its
stepper shows. Its history is a window on that log: it holds the latest of them, as many as it may.
Next to each other stand states that follow each other in the run, and states between which the
session has been started again.
-/

namespace ByteTape

/-- The state that a session of some code begins with. -/
def Snapshot.initial (code : Code) : Snapshot := { codeLength := code.size }

/-- What a state can be followed by: the one that a session begins with again, the state after the
instruction at which it stands, or itself as the final state. -/
inductive Snapshot.Follows (code : Code) (x : Snapshot) : Snapshot → Prop where
  | again : Follows code x (.initial code)
  | instruction {y : Snapshot} {text : String} (step : y.step = x.step + 1)
      (named : y.instruction = some text) (entry : code.listing[x.pc]? = some text)
      (output : x.output <+: y.output) : Follows code x y
  | final {y : Snapshot} (named : y.instruction = none) (step : y.step = x.step) (pc : y.pc = x.pc)
      (pointer : y.pointer = x.pointer) (output : y.output = x.output) : Follows code x y

namespace Session

/-- A session that nothing else disturbs, with its workspace and the log of the states that it has
noted since it was made, oldest first. -/
inductive Logged (code : Code) (o : SessionOptions) :
    Session → Workspace → List Snapshot → Prop where
  | start (w : Workspace) : Logged code o (start code o) w [.initial code]
  | call {s : Session} {w : Workspace} {log : List Snapshot} (before : Logged code o s w log)
      (unfinished : s.finished = false) :
      Logged code o (s.hear (s.stepper.next code w)) (s.stepper.next code w).workspace
        (log ++ Reply.shown [(s.stepper.next code w).yield])
  | unhit {s : Session} {w : Workspace} {log : List Snapshot} (before : Logged code o s w log) :
      Logged code o s.unhit w log
  | breakpoints {s : Session} {w : Workspace} {log : List Snapshot}
      (before : Logged code o s w log) (b : Breakpoints) :
      Logged code o { s with breakpoints := b } w log
  | restart {s : Session} {w : Workspace} {log : List Snapshot} (before : Logged code o s w log) :
      Logged code o s.restart w (log ++ [.initial code])

/-- The current state of a session is that of the machine which its run has come to. -/
def Mirrors (code : Code) (s : Session) : Prop :=
  ∃ x, s.turned code s.current.step = .inl x ∧ s.current.pc = x.1.pc ∧
    s.current.pointer = x.1.tape.pointer ∧ s.current.output = x.2.output

variable {code : Code} {o : SessionOptions} {s t : Session} {w v : Workspace}
  {log : List Snapshot} {replies : List Reply} {x : Snapshot} {stepper : Stepper} {after : Outcome}

/-! ## States that follow each other -/

/-- A session mirrors its run with a state that is taken of the machine. -/
theorem mirrors_see {y : Machine × Buffers} {b : Buffers} {instruction : Option String}
    {radius : Int} (turned : s.turned code y.1.steps = .inl y) (output : b.output = y.2.output) :
    (s.see stepper (y.1.snapshot code radius instruction b.written)).Mirrors code := by
  refine ⟨y, ?_, ?_⟩
  · rwa [turned_see, current_see]
  · rw [current_see]
    exact ⟨rfl, rfl, output⟩

/-- What the stepper shows next follows the current state. -/
theorem Tracks.follows (h : s.Tracks code w) (mirrors : s.Mirrors code)
    (unfinished : s.finished = false)
    (next : s.stepper.next code w = ⟨.ok (some x), v, stepper⟩) :
    s.current.Follows code x ∧ (s.see stepper x).Mirrors code := by
  obtain ⟨m, turned, pc, pointer, output⟩ := mirrors
  obtain ⟨m', turned', ⟨y, goesOn, shown⟩ | ⟨f, last, shown⟩⟩ := h.stands.next_cases unfinished
  all_goals
    obtain rfl : m' = m := Sum.inl.inj (turned'.symm.trans turned)
    have same := congrArg Stepped.yield (next.symm.trans shown)
  · obtain rfl := Option.some.inj (Except.ok.inj same)
    have further := turned_succ turned goesOn
    have count : y.1.steps = s.current.step + 1 := Buffers.steps_eq_of_after further
    obtain ⟨text, named⟩ := Option.ne_none_iff_exists'.1 (Stepper.mnemonic?_ne_none
      (s := freshStepper s.options) goesOn)
    refine ⟨.instruction count named ?_ ?_, mirrors_see (count ▸ further) rfl⟩
    · rw [Code.getElem?_listing, pc, named]
    · rw [output]
      exact Buffers.output_prefix_of_next goesOn
  · have machine : f.machine = m'.1 := (Device.ends_of_next last).machine_eq
    have written : f.device.output = m'.2.output := Buffers.output_eq_of_next last
    have count : m'.1.steps = s.current.step := Buffers.steps_eq_of_after turned
    cases result : f.result with
    | error e => simp [result, Except.map] at same
    | ok done =>
      obtain rfl : x = m'.1.snapshot code s.options.radius none f.device.written := by
        simpa [result, Except.map, machine] using same
      exact ⟨.final rfl count pc.symm pointer.symm (written.trans output.symm),
        mirrors_see (count ▸ turned) written⟩

/-! ## The window -/

/-- A history that holds the latest states of a log holds the latest ones after the next. -/
theorem toList_history_record {n : Nat} (room : s.options.historyLimit.toNat = n)
    (h : s.history.toList = log.rtake n) (x : Snapshot) :
    (s.record x).history.toList = (log ++ [x]).rtake n := by
  have windowed : s.Windowed := by
    rw [Windowed, ← Array.length_toList, h, room, List.rtake, List.length_drop]
    omega
  rw [record, toList_dropOldest (windowed.size_push x), Array.toList_push, h, room,
    rtake_rtake_append]

theorem history_see : (s.see stepper x).history = (s.record x).history := by
  obtain ⟨_, _, same⟩ := s.exists_see_eq stepper x
  rw [same]
  rfl

/-- What holds of a session with its workspace and its log. -/
structure Faithful (code : Code) (o : SessionOptions) (s : Session) (w : Workspace)
    (log : List Snapshot) : Prop where
  options : s.options = o
  codeLength : s.codeLength = code.size
  tracks : s.Tracks code w
  mirrors : s.Mirrors code
  history : s.history.toList = log.rtake o.historyLimit.toNat
  current : log.getLast? = some s.current
  chain : log.IsChain (Snapshot.Follows code)

namespace Faithful

/-- A state that follows the current one is noted. -/
theorem chain_concat (h : Faithful code o s w log) (follows : s.current.Follows code x) :
    (log ++ [x]).IsChain (Snapshot.Follows code) := by
  refine List.isChain_append.2 ⟨h.chain, List.isChain_singleton x, fun y last z first => ?_⟩
  obtain rfl : s.current = y := Option.some.inj (h.current.symm.trans last)
  obtain rfl : x = z := Option.some.inj first
  exact follows

theorem mark (h : Faithful code o s w log) (b : Breakpoints) (hit : Option Nat) :
    Faithful code o { s with breakpoints := b, hit := hit } w log where
  options := h.options
  codeLength := h.codeLength
  tracks := h.tracks.mark b hit
  mirrors := h.mirrors
  history := h.history
  current := h.current
  chain := h.chain

theorem restart (h : Faithful code o s w log) :
    Faithful code o s.restart w (log ++ [.initial code]) := by
  have initial : s.restart = { s with stepper := freshStepper s.options, finished := false }.record
      (.initial code) := by
    rw [Session.restart, h.codeLength, Snapshot.initial]
  refine ⟨h.options, h.codeLength, tracks_restart h.tracks.history w, ?_, ?_, ?_,
    h.chain_concat .again⟩
  · exact ⟨_, rfl, rfl, rfl, rfl⟩
  · rw [initial]
    exact toList_history_record (congrArg (·.historyLimit.toNat) h.options) h.history _
  · rw [List.getLast?_concat, initial]
    rfl

theorem start (code : Code) (o : SessionOptions) (w : Workspace) :
    Faithful code o (start code o) w [.initial code] where
  options := rfl
  codeLength := rfl
  tracks := tracks_start code o w
  mirrors := ⟨_, rfl, rfl, rfl, rfl⟩
  history := by
    have room : (#[].push (Snapshot.initial code)).size ≤ o.historyLimit.toNat + 1 := by simp
    exact toList_dropOldest room
  current := rfl
  chain := List.isChain_singleton _

/-- A reply is noted with its state, if one comes with it. -/
theorem hear (h : Faithful code o s w log) (unfinished : s.finished = false) :
    Faithful code o (s.hear (s.stepper.next code w)) (s.stepper.next code w).workspace
      (log ++ Reply.shown [(s.stepper.next code w).yield]) := by
  rcases next : s.stepper.next code w with ⟨e | _ | x, v, stepper⟩
  · have tracks := h.tracks.conclude unfinished next
    have none : log ++ Reply.shown [(Except.error e : Reply)] = log := List.append_nil log
    rw [none]
    exact ⟨h.options, h.codeLength, tracks, h.mirrors, h.history, h.current, h.chain⟩
  · exact absurd next (h.tracks.next_ne unfinished)
  · obtain ⟨follows, mirrors⟩ := h.tracks.follows h.mirrors unfinished next
    refine ⟨options_see.trans h.options, codeLength_see.trans h.codeLength,
      (h.tracks.see unfinished next).2, mirrors, ?_, ?_, h.chain_concat follows⟩
    · exact (congrArg Array.toList history_see).trans
        (toList_history_record (congrArg (·.historyLimit.toNat) h.options) h.history x)
    · exact List.getLast?_concat.trans (congrArg some current_see.symm)

end Faithful

/-- Every session with its log is faithful to it. -/
theorem Logged.faithful (h : Logged code o s w log) : Faithful code o s w log := by
  induction h with
  | start w => exact .start code o w
  | call before unfinished ih => exact ih.hear unfinished
  | unhit before ih => exact ih.mark _ none
  | breakpoints before b ih => exact ih.mark b _
  | restart before ih => exact ih.restart

/-! ## Operations -/

theorem Logged.calls (h : Logged code o s w log) (calls : Calls code w s replies v t) :
    Logged code o t v (log ++ Reply.shown replies) := by
  induction calls generalizing log with
  | none => rwa [Reply.shown, List.filterMap_nil, List.append_nil]
  | call unfinished rest ih =>
    have noted := ih (h.call unfinished)
    rwa [List.append_assoc, Reply.shown, Reply.shown, ← List.filterMap_append] at noted

/-- An operation adds to the log the states that come with its replies. -/
theorem Logged.operates (h : Logged code o s w log) (operates : s.Operates code w replies after) :
    Logged code o after.session after.workspace (log ++ Reply.shown replies) := by
  rcases operates.calls with calls | calls
  · exact h.calls calls
  · exact h.unhit.calls calls

/-- The history of a session is a window on its log. It holds the latest states noted, as many as
it may, and the last of all is the current one. States that stand next to each other in it follow
each other. Taking steps adds to the log what the stepper shows, also where it fails in the end, and
so does a run. -/
theorem history_windows_log (h : Logged code o s w log) :
    s.history.toList = log.rtake o.historyLimit.toNat ∧ log.getLast? = some s.current ∧
      s.history.toList.IsChain (Snapshot.Follows code) ∧
      (∀ count, ∃ replies, s.Operates code w replies (s.stepForward code w count) ∧
        Logged code o (s.stepForward code w count).session (s.stepForward code w count).workspace
          (log ++ Reply.shown replies)) ∧
      ∀ limit fuel after, s.runUntilBreak code w limit fuel = some after →
        ∃ replies, s.Operates code w replies after ∧
          Logged code o after.session after.workspace (log ++ Reply.shown replies) := by
  have faithful := h.faithful
  refine ⟨faithful.history, faithful.current, ?_, ?_, ?_⟩
  · rw [faithful.history]
    exact faithful.chain.drop _
  · intro count
    obtain ⟨replies, operates⟩ := s.exists_operates_stepForward code w count
    exact ⟨replies, operates, h.operates operates⟩
  · intro limit fuel after ran
    obtain ⟨replies, operates⟩ := exists_operates_runUntilBreak ran
    exact ⟨replies, operates, h.operates operates⟩

/-- Two steps of which the second fails, a restart, and a step. The history has room for two states
and holds those since the restart. -/
theorem history_windows_log_after_failure : ∃ p s w log,
    Program.ofCommands [.motion .increment, .input] = .ok p ∧
      Logged p.code { historyLimit := 2 } s w log ∧ log.length = 4 ∧
      s.history.toList = log.rtake 2 ∧ s.history.toList.map Snapshot.step = [0, 1] ∧
      s.history.toList.IsChain (Snapshot.Follows p.code) := by
  obtain ⟨p, hp⟩ : ∃ p, Program.ofCommands [.motion .increment, .input] = .ok p := ⟨_, rfl⟩
  have code := Program.ofCode_code hp
  obtain ⟨_, _⟩ := p
  subst code
  have begun : Logged (.raw #[.motion .increment, .input]) { historyLimit := 2 } _ _ _ := .start {}
  have failed := (begun.call rfl).call rfl
  have again := failed.restart.call rfl
  obtain ⟨window, -, chain, -⟩ := history_windows_log again
  exact ⟨_, _, _, _, hp, again, rfl, window, rfl, chain⟩

end Session

end ByteTape
