import ByteTape.Debugger.Basic
import ByteTape.Proofs.Session.History
import ByteTape.Proofs.Text.Typing

/-!
# The latest states at the prompt

The history request shows states of the session and changes nothing. A positive count asks for the
latest states, and they are shown, whatever has been typed before. A count of zero shows all states,
though, and one below zero passes over as many of the oldest.
-/

namespace ByteTape.Debugger

namespace Debuggee

/-! ## Debuggers in a dialogue -/

/-- A debugger in a dialogue that was opened on a program, after some lines have been answered. -/
inductive Reached (p : Program) (o : SessionOptions) : Debuggee → Prop where
  | opened (missing : List MissingSetting) :
    Reached p o { program := p, session := .start p.code o, missing := missing }
  | answered {d d' : Debuggee} {line : String} {a : Answer} (before : Reached p o d) (fuel : Nat)
    (answered : d.answer fuel line = some a) (next : a.next = .go d') : Reached p o d'

/-- The session of the debugger is undisturbed, and all states that it has noted are in a log. -/
structure Undisturbed (p : Program) (o : SessionOptions) (d : Debuggee) : Prop where
  program : d.program = p
  logged : ∃ log, Session.Logged p.code o d.session d.workspace log

end Debuggee

/-- If the dialogue goes on after an answer, then with an undisturbed session. -/
def Answer.Undisturbed (p : Program) (o : SessionOptions) (a : Answer) : Prop :=
  ∀ d, a.next = .go d → d.Undisturbed p o

namespace Debuggee

variable {p : Program} {o : SessionOptions} {d : Debuggee} {fuel : Nat} {line : String} {n : Int}

/-- A dialogue goes on with an undisturbed session, whatever has been done to it. -/
theorem Undisturbed.go (h : d.Undisturbed p o) {s : Session} {w : Workspace} {log : List Snapshot}
    (logged : Session.Logged p.code o s w log) (output errors : String) :
    Answer.Undisturbed p o
      { output, errors, next := .go { d with workspace := w, session := s } } := by
  rintro d' next
  cases next
  exact ⟨h.program, log, logged⟩

theorem undisturbed_fail (output errors : String) (f : Failure) :
    Answer.Undisturbed p o { output, errors, next := .fail f } := by
  rintro d' next
  cases next

theorem undisturbed_quit (output errors : String) :
    Answer.Undisturbed p o { output, errors, next := .quit } := by
  rintro d' next
  cases next

/-- What an operation on the session leaves is undisturbed. -/
theorem Undisturbed.afterSteps (h : d.Undisturbed p o) {replies : List Reply} {after : Outcome}
    (operates : d.session.Operates d.program.code d.workspace replies after) (overLine : String) :
    (d.afterSteps after overLine).Undisturbed p o := by
  obtain ⟨log, logged⟩ := h.logged
  have further := logged.operates (h.program ▸ operates)
  simp only [Debuggee.afterSteps]
  split
  · exact h.go further _ _
  · split <;> exact h.go further _ _

theorem undisturbed_withHit {a : Answer} (h : a.Undisturbed p o) :
    (withHit a).Undisturbed p o := by
  rcases a with ⟨output, errors, d | _ | f⟩
  · have kept := h d rfl
    obtain ⟨log, logged⟩ := kept.logged
    simp only [withHit]
    split
    · exact h
    · exact kept.go logged.unhit _ _
  · exact h
  · exact h

theorem Undisturbed.step (h : d.Undisturbed p o) (count : Int) :
    (d.step count).Undisturbed p o := by
  rw [Debuggee.step]
  split
  · exact undisturbed_fail _ _ _
  · obtain ⟨replies, operates⟩ :=
      d.session.exists_operates_stepForward d.program.code d.workspace count
    exact h.afterSteps operates _

theorem Undisturbed.run (h : d.Undisturbed p o) {limit : Option Int} {a : Answer}
    (ran : d.run limit fuel = some a) : a.Undisturbed p o := by
  simp only [Debuggee.run] at ran
  split at ran
  · cases ran
    exact undisturbed_fail _ _ _
  · obtain ⟨after, ends, rfl⟩ := Option.map_eq_some_iff.1 ran
    obtain ⟨replies, operates⟩ := Session.exists_operates_runUntilBreak ends
    have kept := h.afterSteps operates "プログラムは終了しました。\n"
    split
    · split
      · exact kept
      · exact undisturbed_withHit kept
    · exact kept

/-- Every request leaves the session undisturbed. -/
theorem Undisturbed.serve (h : d.Undisturbed p o) {request : Request} {a : Answer}
    (served : d.serve fuel request = some a) : a.Undisturbed p o := by
  obtain ⟨log, logged⟩ := h.logged
  cases request with
  | run limit => exact h.run served
  | next count =>
    cases served
    exact h.step count
  | quit =>
    cases served
    exact undisturbed_quit _ _
  | state | history | listBreakpoints | help =>
    cases served
    exact h.go logged _ _
  | addBreakpoint | clear | removeBreakpoint =>
    cases served
    exact h.go (logged.breakpoints _) _ _
  | restart =>
    cases served
    exact h.go logged.restart _ _

theorem Undisturbed.answer (h : d.Undisturbed p o) {a : Answer}
    (answered : d.answer fuel line = some a) : a.Undisturbed p o := by
  obtain ⟨log, logged⟩ := h.logged
  unfold Debuggee.answer at answered
  split at answered
  · cases answered
    exact undisturbed_fail _ _ _
  · cases answered
    exact h.go logged _ _
  · split at answered
    · exact h.serve answered
    · cases answered
      exact h.go logged _ _
    · cases answered
      exact h.go logged _ _

/-- Nothing but its own operations happens to the session in a dialogue. -/
theorem Reached.undisturbed (h : Reached p o d) : d.Undisturbed p o := by
  -- By induction on the lines that have been answered.
  induction h with
  | opened missing => exact ⟨rfl, _, .start _⟩
  | answered before fuel answered next ih => exact ih.answer answered _ next

end Debuggee

/-! ## Typing the request -/

variable {line name count : String} {rest : List String} {n : Int}

/-- A line asks for some of the latest states. What follows the count is ignored. -/
def AsksHistory (line : String) (n : Int) : Prop :=
  ∃ name count rest, lineWords line = .ok (name :: count :: rest) ∧ lower name = "history" ∧
    Text.integer? count = some n

/-- Two plain words with a blank between them are the words of the line. -/
theorem lineWords_pair {name argument : String} (named : name ≠ "") (filled : argument ≠ "")
    (plainName : ∀ c ∈ name.toList, Text.IsPlain c)
    (plain : ∀ c ∈ argument.toList, Text.IsPlain c) :
    lineWords (name ++ " " ++ argument) = .ok [name, argument] := by
  have line : (name ++ " " ++ argument).toList = name.toList ++ ' ' :: argument.toList := by simp
  have named' : name.toList ≠ [] := by simpa using named
  have filled' : argument.toList ≠ [] := by simpa using filled
  have whole : Text.trimBy Text.isBlank (name.toList ++ ' ' :: argument.toList) =
      name.toList ++ ' ' :: argument.toList := by
    refine Text.trimBy_eq_self (fun c first => ?_) (fun c last => ?_)
    · rw [List.head?_append_of_ne_nil _ named'] at first
      exact (plainName c (List.mem_of_head? first)).visible
    · rw [List.append_cons, List.getLast?_append_of_ne_nil _ filled'] at last
      exact (plain c (List.mem_of_getLast? last)).visible
  rw [lineWords, line, whole, Text.wordsFrom_pair named' filled' plainName plain]
  simp

theorem lineWords_history (n : Int) :
    lineWords ("history " ++ toString n) = .ok ["history", toString n] := by
  have letters : "history".toList = ['h', 'i', 's', 't', 'o', 'r', 'y'] := by decide
  have plain : ∀ c ∈ "history".toList, Text.IsPlain c := by
    -- The test goes through the letters of the word, not through all characters.
    rw [letters]
    exact List.forall_iff_forall_mem.1 (by decide)
  have start : "history " = "history" ++ " " := by decide
  rw [start]
  exact lineWords_pair (by decide) (Text.toString_ne_empty n) plain
    fun c => Text.isPlain_of_mem_toString

theorem asksHistory_toString (short : n.natAbs < 10 ^ Text.maxDigits) :
    AsksHistory ("history " ++ toString n) n :=
  ⟨_, _, _, lineWords_history n, by decide +kernel, by rw [Text.integer?_toString, if_pos short]⟩

namespace Debuggee

variable {d : Debuggee} {fuel : Nat}

theorem answer_of_words {request : Request} (words : lineWords line = .ok (name :: rest))
    (asks : Request.of (lower name) rest = .ok request) :
    d.answer fuel line = d.serve fuel request := by
  simp only [answer, words, asks]

theorem answer_of_asks (asks : AsksHistory line n) : d.answer fuel line =
    some { output := String.join ((recent d.session.history n).map d.display), next := .go d } := by
  obtain ⟨name, count, rest, words, named, read⟩ := asks
  have asked : Request.of (lower name) (count :: rest) = .ok (.history n) := by
    rw [named, Request.of, number, read]
    rfl
  rw [answer_of_words words asked]
  rfl

/-- A number with too many digits is answered like any wrong one. -/
theorem answer_of_long (long : 10 ^ Text.maxDigits ≤ n.natAbs) :
    d.answer fuel ("history " ++ toString n) =
      some { errors := RequestError.badNumber.line, next := .go d } := by
  have named : lower "history" = "history" := by decide +kernel
  have unread : Text.integer? (toString n) = none := by
    rw [Text.integer?_toString, if_neg (Nat.not_lt.2 long)]
  simp only [answer, lineWords_history, named, Request.of, number, unread]
  rfl

/-! ## What is shown -/

theorem recent_of_pos (history : Array Snapshot) (pos : 0 < n) :
    recent history n = history.toList.rtake n.toNat :=
  if_pos pos

theorem recent_of_nonpos (history : Array Snapshot) (nonpos : n ≤ 0) :
    recent history n = history.toList.drop n.natAbs :=
  if_neg (Int.not_lt.2 nonpos)

/-- What is shown are the latest states, unless the count is not positive and there are more. -/
theorem recent_eq_rtake_iff (history : Array Snapshot) (n : Int) :
    recent history n = history.toList.rtake (min (max n 0).toNat history.size) ↔
      0 < n ∨ history.size ≤ n.natAbs := by
  rcases Int.lt_or_le 0 n with pos | nonpos
  · have shown : history.toList.length - min (max n 0).toNat history.size =
        history.toList.length - n.toNat := by
      rw [Array.length_toList]
      omega
    rw [recent_of_pos history pos, List.rtake, List.rtake, shown]
    exact iff_of_true rfl (.inl pos)
  -- No state is asked for here, so all have to be left out.
  · have none : min (max n 0).toNat history.size = 0 := by omega
    rw [recent_of_nonpos history nonpos, none, List.rtake_zero, List.drop_eq_nil_iff,
      Array.length_toList, or_iff_right (Int.not_lt.2 nonpos)]

theorem display_ne_empty (d : Debuggee) (x : Snapshot) : d.display x ≠ "" := by
  unfold display
  intro empty
  have none : "".length = 0 := rfl
  have length := congrArg String.length empty
  simp only [String.length_append, String.length_ofList, List.length_replicate] at length
  omega

/-- The history request in a dialogue. It changes nothing, and what is shown is in the history of
the session, which holds the latest states noted, as many as it may. A count is read unless it has
too many digits. For a positive one the latest states are shown, as many as are asked for or as
there are. Otherwise the oldest ones are left out, as many as the count is below zero. So the states
that are asked for are shown for the positive counts, and else only where none is left to show. -/
theorem history_shows_latest {p : Program} {o : SessionOptions} (h : Reached p o d) (fuel : Nat) :
    (∀ line n, AsksHistory line n → d.answer fuel line = some
      { output := String.join ((recent d.session.history n).map d.display), next := .go d }) ∧
    (∀ n : Int, (n.natAbs < 10 ^ Text.maxDigits → AsksHistory ("history " ++ toString n) n) ∧
      (10 ^ Text.maxDigits ≤ n.natAbs → d.answer fuel ("history " ++ toString n) =
        some { errors := RequestError.badNumber.line, next := .go d })) ∧
    ∃ log, Session.Logged p.code o d.session d.workspace log ∧
      d.session.history.toList = log.rtake o.historyLimit.toNat ∧
      ∀ n : Int,
        (0 < n → recent d.session.history n = log.rtake (min n.toNat o.historyLimit.toNat)) ∧
        (n ≤ 0 → recent d.session.history n = d.session.history.toList.drop n.natAbs) ∧
        (recent d.session.history n =
            d.session.history.toList.rtake (min (max n 0).toNat d.session.history.size) ↔
          0 < n ∨ d.session.history.size ≤ n.natAbs) := by
  obtain ⟨log, logged⟩ := h.undisturbed.logged
  have window := logged.faithful.history
  refine ⟨fun line n => answer_of_asks, fun n => ⟨asksHistory_toString, answer_of_long⟩, log,
    logged, window, fun n => ⟨fun pos => ?_, recent_of_nonpos _, recent_eq_rtake_iff _ n⟩⟩
  rw [recent_of_pos _ pos, window]
  simp only [List.rtake_eq_reverse_take_reverse, List.reverse_reverse, List.take_take]

/-- After a step and a restart the last two states of three are shown. -/
theorem history_shows_latest_after_restart : ∃ p d,
    Program.ofCommands [.motion .increment] = .ok p ∧ Reached p {} d ∧
      d.session.history.toList.map Snapshot.step = [0, 1, 0] ∧
      d.answer 0 "history 2" = some
        { output := String.join ((recent d.session.history 2).map d.display), next := .go d } ∧
      recent d.session.history 2 = d.session.history.toList.rtake 2 := by
  obtain ⟨p, hp⟩ : ∃ p, Program.ofCommands [.motion .increment] = .ok p := ⟨_, rfl⟩
  have code := Program.ofCode_code hp
  obtain ⟨_, accepted⟩ := p
  subst code
  have stepWords : lineWords "n" = .ok ["n"] := by decide +kernel
  have step : Request.of (lower "n") [] = .ok (.next 1) := by decide +kernel
  have againWords : lineWords "restart" = .ok ["restart"] := by decide +kernel
  have again : Request.of (lower "restart") [] = .ok .restart := by decide +kernel
  have begun : Reached ⟨.raw #[.motion .increment], accepted⟩ {} _ := .opened []
  have stepped := begun.answered 0 (answer_of_words stepWords step) rfl
  have ready := stepped.answered 0 (answer_of_words againWords again) rfl
  have asks : AsksHistory "history 2" 2 :=
    ⟨"history", "2", [], by decide +kernel, by decide +kernel, by decide +kernel⟩
  obtain ⟨answers, -, log, -, -, shows⟩ := history_shows_latest ready 0
  have latest := (shows 2).2.2.2 (.inl (by decide))
  exact ⟨_, _, hp, ready, rfl, answers _ _ asks, latest⟩

/-- The last zero states are none, but all are shown. -/
theorem history_shows_all_of_zero : ∃ p d a,
    Program.ofCommands [.motion .increment] = .ok p ∧ Reached p {} d ∧
      d.answer 0 "history 0" = some a ∧
      a.output ≠ String.join ((d.session.history.toList.rtake
        (min (max (0 : Int) 0).toNat d.session.history.size)).map d.display) := by
  obtain ⟨p, hp⟩ : ∃ p, Program.ofCommands [.motion .increment] = .ok p := ⟨_, rfl⟩
  have asks : AsksHistory "history 0" 0 :=
    ⟨"history", "0", [], by decide +kernel, by decide +kernel, by decide +kernel⟩
  refine ⟨p, _, _, hp, .opened [], answer_of_asks asks, fun same => ?_⟩
  have shown : recent (Session.start p.code {}).history 0 = [.initial p.code] := rfl
  exact display_ne_empty _ _ (by simpa [shown] using same)

end Debuggee

end ByteTape.Debugger
