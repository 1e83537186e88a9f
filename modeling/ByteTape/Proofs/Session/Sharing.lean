import ByteTape.Proofs.Session.Calling

/-!
# Sessions that share a program

Any number of sessions may follow one program, on the one workspace that steppers and whole runs
change as well. What a session knows of its run does not come from there: each reply of its stepper
tells whether the run is over, however the tape has been changed since the last one.
-/

namespace ByteTape

/-- Whether a run is over after a reply: with its final state, at its limit, or with its streams. -/
def Reply.Ends : Reply → Prop
  | .ok (some x) => x.instruction = none
  | .error .stepLimit | .error .inputExhausted | .error (.io _ _) => True
  | _ => False

namespace Stepper

variable {s : Stepper} {code : Code}

/-- A turn shows the state after an instruction, or else it ends the run and closes the stepper. -/
theorem advance_cases (paired : code.Paired) (s : Stepper) (w : Workspace) (pc steps : Nat)
    (b : Buffers) :
    (∃ x v t, s.advance code w pc steps b = ⟨.ok (some x), v, t⟩ ∧ x.instruction ≠ none ∧
        t.stage ≠ .closed) ∨
      ∃ r v t, s.advance code w pc steps b = ⟨r, v, t⟩ ∧ Reply.Ends r ∧ t.stage = .closed := by
  rcases Buffers.device.next_cases code s.limit (⟨w.tape, pc, steps⟩, b) with
    ⟨y, hy, goes⟩ | ⟨f, hf, ends⟩
  · simp only [advance, Device.next_eq_inl_iff.1 hy]
    refine .inl ⟨_, _, _, rfl, ?_, ?_⟩
    · exact fun missing => goes.inside (Code.mnemonic?_eq_none_iff.1 missing)
    · exact fun closed => Stage.noConfusion closed
  · simp only [advance, Device.next_eq_inr_iff.1 hf]
    refine .inr ⟨_, _, _, rfl, ?_, rfl⟩
    cases result : f.result with
    | ok done => rfl
    | error e =>
      -- No jump of paired code looks for its partner in vain, so it is the limit or the input.
      rcases Buffers.eq_of_raises (ends.raises paired result) with rfl | ⟨rfl, -⟩
      · trivial
      · trivial

/-- So does a step of any stepper that is not closed, whatever is in the workspace. -/
theorem next_cases (paired : code.Paired) (opened : s.stage ≠ .closed) (w : Workspace) :
    (∃ x v t, s.next code w = ⟨.ok (some x), v, t⟩ ∧ x.instruction ≠ none ∧ t.stage ≠ .closed) ∨
      ∃ r v t, s.next code w = ⟨r, v, t⟩ ∧ Reply.Ends r ∧ t.stage = .closed := by
  unfold next
  split
  · exact advance_cases paired s {} 0 0 _
  · exact advance_cases paired s w _ _ _
  · exact absurd ‹_› opened

end Stepper

theorem Session.finished_hear_of_ends {s : Session} {r : Stepped} (h : Reply.Ends r.yield) :
    (s.hear r).finished = true := by
  unfold hear
  split
  · next x shown =>
    rw [shown] at h
    have final : x.instruction = none := h
    simp [final]
  · rfl

/-- A session, with what its stepper has replied since the session was started last. -/
structure Listener where
  session : Session
  replies : List Reply := []

namespace Listener

/-- What a session can do on a workspace: call its stepper, or start again, which brings a new
stepper. Where it stops and what it has hit may be changed as well. -/
inductive Step (code : Code) (w : Workspace) (l : Listener) : Workspace → Listener → Prop where
  | call (unfinished : l.session.finished = false) :
      Step code w l (l.session.stepper.next code w).workspace
        ⟨l.session.hear (l.session.stepper.next code w),
          l.replies ++ [(l.session.stepper.next code w).yield]⟩
  | restart : Step code w l w ⟨l.session.restart, []⟩
  | reset : Step code w l w ⟨l.session.reset, []⟩
  | breakpoints (b : Breakpoints) :
      Step code w l w ⟨{ l.session with breakpoints := b }, l.replies⟩
  | unhit : Step code w l w ⟨l.session.unhit, l.replies⟩

/-- A session knows what it has been told since it was started. -/
structure Sound (code : Code) (l : Listener) : Prop where
  codeLength : l.session.codeLength = code.size
  finished_iff : l.session.finished = true ↔ ∃ r ∈ l.replies, r.Ends
  closed_iff : l.session.stepper.stage = .closed ↔ l.session.finished = true
  never : .ok none ∉ l.replies
  untouched : l.replies = [] → l.session.stepper = Session.freshStepper l.session.options ∧
    l.session.current = { codeLength := code.size }

variable {code : Code} {w v : Workspace} {l l' : Listener}

theorem sound_start (code : Code) (o : SessionOptions) : Sound code ⟨.start code o, []⟩ where
  codeLength := rfl
  finished_iff := by simp [Session.start, Session.restart, Session.record]
  closed_iff := by simp [Session.start, Session.restart, Session.record, Session.freshStepper]
  never := by simp
  untouched _ := ⟨rfl, rfl⟩

/-- A session that starts again is sound, whatever it was before. -/
theorem sound_restart {s : Session} (codeLength : s.codeLength = code.size) :
    Sound code ⟨s.restart, []⟩ where
  codeLength := codeLength
  finished_iff := by simp [Session.restart, Session.record]
  closed_iff := by simp [Session.restart, Session.record, Session.freshStepper]
  never := by simp
  untouched _ := ⟨rfl, congrArg (fun n => ({ codeLength := n } : Snapshot)) codeLength⟩

theorem Sound.mark (h : l.Sound code) (b : Breakpoints) (hit : Option Nat) :
    Sound code ⟨{ l.session with breakpoints := b, hit := hit }, l.replies⟩ :=
  ⟨h.codeLength, h.finished_iff, h.closed_iff, h.never, h.untouched⟩

/-- A session that has steps left finds its stepper open. -/
theorem Sound.opened (h : l.Sound code) (unfinished : l.session.finished = false) :
    l.session.stepper.stage ≠ .closed := by
  rw [Ne, h.closed_iff, unfinished]
  exact Bool.false_ne_true

/-- A session that is told whether its run is over is sound again. -/
theorem Sound.hear (h : l.Sound code) (unfinished : l.session.finished = false) {r : Stepped}
    (told : (l.session.hear r).finished = true ↔ Reply.Ends r.yield)
    (closes : r.stepper.stage = .closed ↔ Reply.Ends r.yield) (some : r.yield ≠ .ok none) :
    Sound code ⟨l.session.hear r, l.replies ++ [r.yield]⟩ := by
  have goingOn : ¬ ∃ r ∈ l.replies, r.Ends := by
    rw [← h.finished_iff, unfinished]
    exact Bool.false_ne_true
  refine ⟨(Session.codeLength_hear _ _).trans h.codeLength, ?_, ?_, ?_, by simp⟩
  · have last : (∃ x ∈ l.replies ++ [r.yield], x.Ends) ↔ Reply.Ends r.yield := by
      simp [or_and_right, exists_or, goingOn]
    rw [told, last]
  · rw [Session.stepper_hear, told, closes]
  · simp [h.never, some.symm]

theorem Sound.call (h : l.Sound code) (paired : code.Paired) (w : Workspace)
    (unfinished : l.session.finished = false) :
    Sound code ⟨l.session.hear (l.session.stepper.next code w),
      l.replies ++ [(l.session.stepper.next code w).yield]⟩ := by
  rcases Stepper.next_cases paired (h.opened unfinished) w with
    ⟨x, v, t, next, named, opened⟩ | ⟨r, v, t, next, ends, closed⟩
  · rw [next]
    have goes : ¬ Reply.Ends (.ok (some x)) := named
    refine h.hear unfinished ?_ (iff_of_false opened goes) nofun
    have further : (l.session.see t x).finished = false := by
      simp [unfinished, Option.isNone_eq_false_iff, Option.isSome_iff_ne_none, named]
    exact iff_of_false (Bool.eq_false_iff.1 further) goes
  · rw [next]
    have finished := Session.finished_hear_of_ends (s := l.session) (r := ⟨r, v, t⟩) ends
    refine h.hear unfinished (iff_of_true finished ends) (iff_of_true closed ends) ?_
    rintro rfl
    exact ends

/-- A session that has steps left is told something, whatever is in the workspace. -/
theorem Sound.next_ne (h : l.Sound code) (paired : code.Paired)
    (unfinished : l.session.finished = false) (w : Workspace) :
    (l.session.stepper.next code w).yield ≠ .ok none := by
  rcases Stepper.next_cases paired (h.opened unfinished) w with
    ⟨x, v, t, next, -, -⟩ | ⟨r, v, t, next, ends, -⟩
  · rw [next]
    nofun
  · rw [next]
    rintro rfl
    exact ends

theorem Step.sound (h : Step code w l v l') (paired : code.Paired) (sound : l.Sound code) :
    l'.Sound code := by
  cases h with
  | call unfinished => exact sound.call paired w unfinished
  | restart => exact sound_restart sound.codeLength
  | reset =>
    have codeLength : ({ l.session with history := #[], breakpoints := {}, hit := none } :
        Session).codeLength = code.size := sound.codeLength
    exact sound_restart codeLength
  | breakpoints b => exact sound.mark b _
  | unhit => exact sound.mark _ none

end Listener

/-- All that goes on with one program where sessions follow it: the bench, with the steppers and the
runs that belong to no session, and the sessions. -/
structure Workshop where
  bench : Bench := {}
  listeners : List Listener := []

namespace Workshop

variable {p : Program} {a a' : Workshop} {i : Nat} {l l' : Listener} {w v : Workspace}
  {s t : Session} {replies : List Reply} {o : Outcome}

/-- One of the sessions has changed, and the workspace may have changed with it. -/
def put (a : Workshop) (i : Nat) (w : Workspace) (l : Listener) : Workshop where
  bench := { a.bench with workspace := w }
  listeners := a.listeners.set i l

/-- What can happen next: something that no session takes part in, a new session, or something that
one of the sessions does. -/
inductive Event (p : Program) (a : Workshop) : Workshop → Prop where
  | elsewhere {b : Bench} (event : Bench.Event p a.bench b) : Event p a { a with bench := b }
  | start (o : SessionOptions) :
      Event p a { a with listeners := a.listeners ++ [⟨.start p.code o, []⟩] }
  | session {i : Nat} {l l' : Listener} {w : Workspace} (here : a.listeners[i]? = some l)
      (step : l.Step p.code a.bench.workspace w l') : Event p a (a.put i w l')

/-- What one program can come to, with any number of sessions. -/
def Reachable (p : Program) : Workshop → Prop := Relation.ReflTransGen (Event p) {}

theorem put_put (a : Workshop) (i : Nat) (w v : Workspace) (l l' : Listener) :
    (a.put i w l).put i v l' = a.put i v l' := by
  simp [put]

theorem put_self (here : a.listeners[i]? = some l) : a.put i a.bench.workspace l = a := by
  obtain ⟨inside, rfl⟩ := List.getElem?_eq_some_iff.1 here
  simp [put]

theorem getElem?_put (here : a.listeners[i]? = some l) (w : Workspace) (l' : Listener) :
    (a.put i w l').listeners[i]? = some l' := by
  obtain ⟨inside, -⟩ := List.getElem?_eq_some_iff.1 here
  simp [put, inside]

theorem Event.sound (h : Event p a a') (sound : ∀ l ∈ a.listeners, l.Sound p.code) :
    ∀ l ∈ a'.listeners, l.Sound p.code := by
  cases h with
  | elsewhere event => exact sound
  | start o =>
    intro l inside
    rcases List.mem_append.1 inside with before | new
    · exact sound l before
    · exact List.mem_singleton.1 new ▸ Listener.sound_start p.code o
  | session here step =>
    intro l inside
    rcases List.mem_or_eq_of_mem_set inside with before | rfl
    · exact sound l before
    · exact step.sound p.paired (sound _ (List.mem_of_getElem? here))

/-- Whatever else happens with a program, its sessions know what they have been told. -/
theorem Reachable.sound (h : Reachable p a) : ∀ l ∈ a.listeners, l.Sound p.code := by
  induction h with
  | refl => exact fun l inside => absurd inside List.not_mem_nil
  | tail _ event ih => exact event.sound ih

/-- A session can call its stepper some times. -/
theorem Reachable.calls {before : List Reply} (h : Reachable p (a.put i w ⟨s, before⟩))
    (here : a.listeners[i]? = some l) (calls : Session.Calls p.code w s replies v t) :
    Reachable p (a.put i v ⟨t, before ++ replies⟩) := by
  induction calls generalizing before with
  | none => rwa [List.append_nil]
  | @call w v s t replies unfinished rest ih =>
    have called := h.tail (.session (getElem?_put here _ _) (.call unfinished))
    rw [put_put] at called
    have further := ih called
    rwa [List.append_assoc] at further

/-- An operation of a session is a sequence of events. -/
theorem Reachable.operates (h : Reachable p a) (here : a.listeners[i]? = some l)
    (operates : l.session.Operates p.code a.bench.workspace replies o) :
    Reachable p (a.put i o.workspace ⟨o.session, l.replies ++ replies⟩) := by
  rcases operates.calls with calls | calls
  · exact Reachable.calls ((put_self here).symm ▸ h) here calls
  · exact Reachable.calls (h.tail (.session here .unhit)) here calls

/-- A session is over exactly if it has been told so since it was started: its stepper has shown the
final state, or failed at the limit or with a stream. So the stepper never has nothing to tell, and
does not as long as the session is not over, whatever is in the workspace. Once it is over, taking
steps and running answer no states and change nothing, except that the last hit is forgotten. All of
this goes on to hold, as both are sequences of events. -/
theorem finished_exactly (h : Reachable p a) (here : a.listeners[i]? = some l) :
    (l.session.finished = true ↔ ∃ r ∈ l.replies, r.Ends) ∧ .ok none ∉ l.replies ∧
      (l.session.finished = false → ∀ w, (l.session.stepper.next p.code w).yield ≠ .ok none) ∧
      (l.session.finished = true → ∀ w,
        (∀ count, l.session.stepForward p.code w count = ⟨.ok #[], w, l.session⟩ ∨
          l.session.stepForward p.code w count = ⟨.ok #[], w, l.session.unhit⟩) ∧
        ∀ limit fuel, fuel ≠ 0 →
          l.session.runUntilBreak p.code w limit fuel = some ⟨.ok #[], w, l.session⟩ ∨
          l.session.runUntilBreak p.code w limit fuel = some ⟨.ok #[], w, l.session.unhit⟩) ∧
      (∀ count, ∃ replies,
        let o := l.session.stepForward p.code a.bench.workspace count
        l.session.Operates p.code a.bench.workspace replies o ∧
          Reachable p (a.put i o.workspace ⟨o.session, l.replies ++ replies⟩)) ∧
      ∀ limit fuel o, l.session.runUntilBreak p.code a.bench.workspace limit fuel = some o →
        ∃ replies, l.session.Operates p.code a.bench.workspace replies o ∧
          Reachable p (a.put i o.workspace ⟨o.session, l.replies ++ replies⟩) := by
  have sound := h.sound l (List.mem_of_getElem? here)
  refine ⟨sound.finished_iff, sound.never, sound.next_ne p.paired, ?_, ?_, ?_⟩
  · intro ended w
    exact ⟨Session.stepForward_of_finished ended p.code w,
      fun limit _ fueled => Session.runUntilBreak_of_finished ended p.code w limit fueled⟩
  · intro count
    obtain ⟨replies, operates⟩ :=
      l.session.exists_operates_stepForward p.code a.bench.workspace count
    exact ⟨replies, operates, h.operates here operates⟩
  · intro limit fuel o ran
    obtain ⟨replies, operates⟩ := Session.exists_operates_runUntilBreak ran
    exact ⟨replies, operates, h.operates here operates⟩

/-- A session has taken a step when another one takes its first, which clears the tape, and a whole
run begins. Its next step fails, for there is nothing to read. -/
theorem finished_exactly_disturbed : ∃ p, Program.ofCommands [.motion .increment, .input] = .ok p ∧
    ∃ a l, Reachable p a ∧ a.listeners[0]? = some l ∧ a.listeners.length = 2 ∧
      a.bench.executions ≠ [] ∧ l.replies.length = 2 ∧ l.session.finished = true ∧
      (∃ r ∈ l.replies, r.Ends) ∧
      l.session.stepForward p.code a.bench.workspace 1 =
        ⟨.ok #[], a.bench.workspace, l.session.unhit⟩ := by
  obtain ⟨p, hp⟩ : ∃ p, Program.ofCommands [.motion .increment, .input] = .ok p := ⟨_, rfl⟩
  have code := Program.ofCode_code hp
  obtain ⟨_, accepted⟩ := p
  subst code
  let code : Code := .raw #[.motion .increment, .input]
  let s := Session.start code {}
  let first := s.stepper.next code {}
  let other := s.stepper.next code first.workspace
  let run : Execution := { device := Buffers.device, streams := ⟨[], []⟩ }
  let second := (s.hear first).stepper.next code { other.workspace with tape := .blank }
  have started : Reachable ⟨code, accepted⟩ ⟨{}, [⟨s, []⟩, ⟨s, []⟩]⟩ :=
    (Relation.ReflTransGen.refl.tail (.start {})).tail (.start {})
  have cleared : Reachable ⟨code, accepted⟩ ⟨{ workspace := other.workspace },
      [⟨s.hear first, [first.yield]⟩, ⟨s.hear other, [other.yield]⟩]⟩ :=
    (started.tail (.session (i := 0) rfl (.call rfl))).tail (.session (i := 1) rfl (.call rfl))
  have failed : Reachable ⟨code, accepted⟩
      ⟨{ workspace := second.workspace, executions := [run] },
        [⟨(s.hear first).hear second, [first.yield, second.yield]⟩,
          ⟨s.hear other, [other.yield]⟩]⟩ :=
    (cleared.tail (.elsewhere (.begin _ Buffers.device none ⟨[], []⟩))).tail
      (.session (i := 0) rfl (.call rfl))
  obtain ⟨exactly, -⟩ := finished_exactly failed (i := 0) rfl
  exact ⟨⟨code, accepted⟩, hp, _, _, failed, rfl, rfl, List.cons_ne_nil _ _, rfl, rfl,
    exactly.1 rfl, rfl⟩

end Workshop

end ByteTape
