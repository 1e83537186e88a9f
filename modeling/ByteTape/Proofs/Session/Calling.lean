import ByteTape.Proofs.Session.Tracking

/-!
# Calls of a stepper

All that an operation does to a session comes of calls of its stepper. The session is told each
reply at once, and the replies together settle what the operation answers.
-/

namespace ByteTape

/-- What a stepper replies when it is called: a state, nothing, or an error. -/
abbrev Reply := Except RunError (Option Snapshot)

namespace Reply

/-- The state that comes with a reply. -/
def state? : Reply → Option Snapshot
  | .ok x => x
  | .error _ => none

/-- The states that come with some replies. -/
def shown (replies : List Reply) : List Snapshot := replies.filterMap state?

/-- What an operation answers after some replies: the error that came last, or else the states. -/
def answer (replies : List Reply) : Except RunError (Array Snapshot) :=
  match replies.getLast? with
  | some (.error e) => .error e
  | _ => .ok (shown replies).toArray

@[simp] theorem shown_cons_some (x : Snapshot) (replies : List Reply) :
    shown (.ok (some x) :: replies) = x :: shown replies := rfl

@[simp] theorem answer_done : answer [.ok none] = .ok #[] := rfl

theorem answer_cons (x : Snapshot) (replies : List Reply) :
    answer (.ok (some x) :: replies) = (answer replies).map (#[x] ++ ·) := by
  have last : (Except.ok (some x) :: replies : List Reply).getLast? =
      some (replies.getLast?.getD (.ok (some x))) := List.getLast?_cons
  rw [answer, answer, last]
  rcases replies.getLast? with _ | e | y
  · simp [Except.map]
  · rfl
  · simp [Except.map]

/-- An error that an operation answers has come as a reply. -/
theorem mem_of_answer_eq_error {replies : List Reply} {e : RunError}
    (h : answer replies = .error e) : .error e ∈ replies := by
  unfold answer at h
  split at h
  · next e' last =>
    obtain rfl : e' = e := Except.error.inj h
    exact List.mem_of_getLast? last
  · cases h

end Reply

namespace Session

/-- What a session makes of a reply. -/
def hear (s : Session) (r : Stepped) : Session :=
  match r.yield with
  | .ok (some x) => s.see r.stepper x
  | _ => s.conclude r.stepper

theorem stepper_hear (s : Session) (r : Stepped) : (s.hear r).stepper = r.stepper := by
  unfold hear
  split
  · exact stepper_see
  · rfl

theorem codeLength_hear (s : Session) (r : Stepped) : (s.hear r).codeLength = s.codeLength := by
  unfold hear
  split
  · exact codeLength_see
  · rfl

theorem options_hear (s : Session) (r : Stepped) : (s.hear r).options = s.options := by
  unfold hear
  split
  · exact options_see
  · rfl

/-- A session calls its stepper some times, as long as its run is not over. -/
inductive Calls (code : Code) : Workspace → Session → List Reply → Workspace → Session → Prop where
  | none (w : Workspace) (s : Session) : Calls code w s [] w s
  | call {w v : Workspace} {s t : Session} {replies : List Reply} (unfinished : s.finished = false)
      (rest : Calls code (s.stepper.next code w).workspace (s.hear (s.stepper.next code w))
        replies v t) :
      Calls code w s ((s.stepper.next code w).yield :: replies) v t

/-- An operation may forget the last hit, and all else that it does comes of calls. -/
structure Operates (code : Code) (w : Workspace) (s : Session) (replies : List Reply)
    (o : Outcome) : Prop where
  calls : Calls code w s replies o.workspace o.session ∨
    Calls code w s.unhit replies o.workspace o.session
  result : o.result = Reply.answer replies

variable {code : Code} {w w' : Workspace} {s : Session} {states : Array Snapshot} {o : Outcome}
  {stepper : Stepper}

theorem Calls.of_next {replies : List Reply} {r : Stepped} (unfinished : s.finished = false)
    (next : s.stepper.next code w = r)
    (rest : Calls code r.workspace (s.hear r) replies o.workspace o.session) :
    Calls code w s (r.yield :: replies) o.workspace o.session := by
  subst next
  exact .call unfinished rest

/-- Playing a session is calling its stepper. -/
theorem Plays.exists_calls (h : Plays code w s states o) :
    ∃ replies, Calls code w s replies o.workspace o.session ∧
      o.result = (Reply.answer replies).map (states ++ ·) := by
  induction h with
  | rest w s states => exact ⟨[], .none w s, by simp [Reply.answer, Reply.shown, Except.map]⟩
  | done going next =>
    exact ⟨_, .of_next going.unfinished next (.none _ _), by simp [Except.map]⟩
  | failed going next => exact ⟨_, .of_next going.unfinished next (.none _ _), rfl⟩
  | shown going next rest ih =>
    obtain ⟨replies, calls, result⟩ := ih
    refine ⟨_, .of_next going.unfinished next calls, ?_⟩
    rw [result, Reply.answer_cons]
    cases Reply.answer replies with
    | error e => rfl
    | ok shown => simp [Except.map]

theorem Plays.exists_operates (h : Plays code w s.unhit #[] o) :
    ∃ replies, s.Operates code w replies o := by
  obtain ⟨replies, calls, result⟩ := h.exists_calls
  refine ⟨replies, .inr calls, result.trans ?_⟩
  cases Reply.answer replies with
  | error e => rfl
  | ok shown => simp [Except.map]

theorem operates_nil (code : Code) (w : Workspace) (s : Session) :
    s.Operates code w [] ⟨.ok #[], w, s⟩ :=
  ⟨.inl (.none w s), rfl⟩

/-- Taking steps is an operation. -/
theorem exists_operates_stepForward (s : Session) (code : Code) (w : Workspace) (count : Int) :
    ∃ replies, s.Operates code w replies (s.stepForward code w count) := by
  rcases s.stepForward_cases code w count with same | plays
  · exact ⟨[], same ▸ operates_nil code w s⟩
  · exact plays.exists_operates

/-- So is a run that returns. -/
theorem exists_operates_runUntilBreak {limit : Option Int} {fuel : Nat}
    (ran : s.runUntilBreak code w limit fuel = some o) :
    ∃ replies, s.Operates code w replies o := by
  rcases plays_runOn ran with rfl | plays
  · exact ⟨[], operates_nil code w s⟩
  · exact plays.exists_operates

end Session

end ByteTape
