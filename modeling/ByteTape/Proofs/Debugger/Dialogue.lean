import ByteTape.CommandLine.Debug
import ByteTape.Proofs.Session.Limit
import ByteTape.Proofs.Text.Splitting
import ByteTape.Proofs.Text.Typing
import Mathlib.Data.List.DropRight

/-!
# How a dialogue ends

A step limit makes every request to the debugger return. Wrong numbers, unknown requests, failing
steps and steps after the end are all answered at the prompt. So the only thing that can end a
dialogue before its time is a line that does not split into words.
-/

namespace ByteTape

namespace Text

/-- A word that has been begun is among the words of the line, if that can be split. -/
theorem wordsFrom_ne_nil {mode : WordMode} (begun : mode ≠ .between) (word cs : List Char) :
    wordsFrom mode word cs ≠ .ok [] := by
  -- Reading leaves a word that has been begun only at a separator, and then the word is there.
  induction cs generalizing mode word with
  | nil => cases mode <;> simp_all [wordsFrom]
  | cons c rest ih =>
    cases mode with
    | between => exact absurd rfl begun
    | plain =>
      rw [wordsFrom]
      split
      · cases wordsFrom .between [] rest <;> simp [Except.map]
      · split
        · exact ih (by simp) _
        · split
          · exact ih (by simp) _
          · exact ih (by simp) _
    | quoted quote =>
      rw [wordsFrom]
      split
      · exact ih (by simp) _
      · split
        · exact ih (by simp) _
        · exact ih (by simp) _
    | escaped within =>
      cases within with
      | none => exact ih (by simp) _
      | some quote =>
        rw [wordsFrom]
        split
        · exact ih (by simp) _
        · exact ih (by simp) _

/-- A trimmed text starts with none of the characters that are trimmed. -/
theorem not_blank_of_trimBy_eq_cons {blank : Char → Bool} {cs rest : List Char} {c : Char}
    (h : trimBy blank cs = c :: rest) : blank c = false := by
  have start : trimBy blank cs <+: cs.dropWhile blank := List.rdropWhile_prefix blank _
  rw [h] at start
  obtain ⟨tail, whole⟩ := start
  have first := List.head?_dropWhile_not blank cs
  rw [← whole] at first
  exact first

end Text

namespace Debugger

/-- Only a blank line has no words. -/
theorem lineWords_eq_nil_iff {line : String} :
    lineWords line = .ok [] ↔ Text.trimBy Text.isBlank line.toList = [] := by
  unfold lineWords
  cases trimmed : Text.trimBy Text.isBlank line.toList with
  | nil => simp [Text.wordsFrom]
  | cons c rest =>
    have visible := Text.not_blank_of_trimBy_eq_cons trimmed
    have inside : Text.isSeparator c = false :=
      Bool.eq_false_iff.2 fun blank => by simp [Text.isBlank_of_isSeparator blank] at visible
    simp only [Text.wordsFrom, inside, reduceCtorEq, iff_false]
    split
    · contradiction
    · split
      · exact Text.wordsFrom_ne_nil (by simp) _ _
      · split
        · exact Text.wordsFrom_ne_nil (by simp) _ _
        · exact Text.wordsFrom_ne_nil (by simp) _ _

/-- Whether a line asks to end the dialogue. -/
def quits (line : String) : Bool :=
  match lineWords line with
  | .ok (name :: arguments) => decide (Request.of (lower name) arguments = .ok .quit)
  | _ => false

/-- What is wrong with the first line that does not split into words, if no line before it asks to
end the dialogue. -/
def unsplittable? : List String → Option Text.WordError
  | [] => none
  | line :: rest =>
    match lineWords line with
    | .error e => some e
    | .ok _ => if quits line then none else unsplittable? rest

/-- Lines that are ended by line feeds are read as they are. -/
theorem linesOf_intercalate {lines : List String} (whole : ∀ line ∈ lines, '\n' ∉ line.toList) :
    linesOf ("\n".intercalate (lines ++ [""])) = lines := by
  have whole' : ∀ line ∈ lines ++ [""], '\n' ∉ line.toList := by
    simpa [or_imp, forall_and] using whole
  have split : ("\n".intercalate (lines ++ [""])).splitOn "\n" = lines ++ [""] :=
    Text.splitOn_intercalate_singleton (by simp) whole'
  simp [linesOf, split]

/-- All settings are there, and steps are limited. -/
structure Debuggee.Limited (most : Int) (d : Debuggee) : Prop where
  session : d.session.Limited most
  missing : d.missing = []

/-- After an answer the debugger waits for the next line, still limited. -/
def Answer.GoesOn (most : Int) (a : Answer) : Prop :=
  ∃ d : Debuggee, a.next = .go d ∧ d.Limited most

variable {d : Debuggee} {most : Int} {fuel : Nat} {line : String}

namespace Debuggee

theorem Limited.goesOn_afterSteps (h : d.Limited most) {o : Outcome}
    (after : o.session.Limited most) (overLine : String) :
    (d.afterSteps o overLine).GoesOn most := by
  have limited : Limited most { d with workspace := o.workspace, session := o.session } :=
    ⟨after, h.missing⟩
  simp only [afterSteps]
  split
  · exact ⟨_, rfl, limited⟩
  · split <;> exact ⟨_, rfl, limited⟩

theorem goesOn_withHit {a : Answer} (h : a.GoesOn most) : (withHit a).GoesOn most := by
  obtain ⟨d, next, limited⟩ := h
  simp only [withHit, next]
  split
  · exact ⟨d, next, limited⟩
  · exact ⟨_, rfl, ⟨limited.session.options, limited.session.stepper⟩, limited.missing⟩

theorem Limited.neededSetting?_eq_none (h : d.Limited most) : d.neededSetting? = none := by
  simp [neededSetting?, h.missing]

theorem Limited.goesOn_step (h : d.Limited most) (count : Int) : (d.step count).GoesOn most := by
  rw [step, h.neededSetting?_eq_none]
  have kept := Session.kept_limited d.program.code most
  exact h.goesOn_afterSteps (kept.stepForward h.session d.workspace count) _

theorem Limited.exists_run (h : d.Limited most) (limit : Option Int)
    (fueled : most.toNat + 1 < fuel) : ∃ a, d.run limit fuel = some a ∧ a.GoesOn most := by
  obtain ⟨o, ran⟩ : ∃ o, d.session.runUntilBreak d.program.code d.workspace limit fuel = some o :=
    Session.exists_runOn h.session limit
      (Nat.lt_of_le_of_lt (d.session.stepper.left_le most) fueled) d.workspace #[]
  have after := (Session.kept_limited d.program.code most).runUntilBreak h.session ran
  have goes := h.goesOn_afterSteps after "プログラムは終了しました。\n"
  simp only [run, h.neededSetting?_eq_none, ite_self, ran, Option.map_some]
  refine ⟨_, rfl, ?_⟩
  split
  · split
    · exact goes
    · exact goesOn_withHit goes
  · exact goes

/-- A request to quit is followed, and after every other one the dialogue goes on. -/
theorem Limited.exists_serve (h : d.Limited most) (fueled : most.toNat + 1 < fuel)
    (request : Request) :
    ∃ a, d.serve fuel request = some a ∧
      if request = .quit then a.next = .quit else a.GoesOn most := by
  cases request with
  | next count => exact ⟨_, rfl, h.goesOn_step count⟩
  | run limit =>
    obtain ⟨a, ran, goes⟩ := h.exists_run limit fueled
    exact ⟨a, ran, goes⟩
  | quit => exact ⟨_, rfl, rfl⟩
  | restart => exact ⟨_, rfl, _, rfl, Session.limited_restart h.session, h.missing⟩
  | state | history | listBreakpoints | help => exact ⟨_, rfl, d, rfl, h⟩
  | addBreakpoint | clear | removeBreakpoint =>
    exact ⟨_, rfl, _, rfl, ⟨h.session.options, h.session.stepper⟩, h.missing⟩

/-- A line that splits into words is answered. -/
theorem Limited.exists_answer (h : d.Limited most) (fueled : most.toNat + 1 < fuel)
    {words : List String} (split : lineWords line = .ok words) :
    ∃ a, d.answer fuel line = some a ∧ if quits line then a.next = .quit else a.GoesOn most := by
  cases words with
  | nil =>
    have stays : quits line = false := by rw [quits, split]
    exact ⟨_, by rw [answer, split], by rw [stays]; exact ⟨d, rfl, h⟩⟩
  | cons name arguments =>
    have asks : quits line = decide (Request.of (lower name) arguments = .ok .quit) := by
      rw [quits, split]
    rw [asks]
    simp only [answer, split, decide_eq_true_eq]
    cases Request.of (lower name) arguments with
    | error e => cases e <;> exact ⟨_, rfl, d, rfl, h⟩
    | ok request =>
      obtain ⟨a, served, goes⟩ := h.exists_serve fueled request
      exact ⟨a, served, by simpa only [Except.ok.injEq] using goes⟩

theorem run_mono {limit : Option Int} {a : Answer} {more : Nat} (le : fuel ≤ more)
    (h : d.run limit fuel = some a) : d.run limit more = some a := by
  simp only [run] at h ⊢
  generalize (if limit.all (0 < ·) then d.neededSetting? else none) = needed at h ⊢
  cases needed with
  | some m => exact h
  | none =>
    obtain ⟨o, ran, rfl⟩ := Option.map_eq_some_iff.1 h
    rw [Session.runUntilBreak, Session.runOn_mono le ran, Option.map_some]

/-- More fuel keeps an answer. -/
theorem answer_mono {a : Answer} {more : Nat} (le : fuel ≤ more)
    (h : d.answer fuel line = some a) : d.answer more line = some a := by
  unfold answer at *
  split at h
  · exact h
  · exact h
  · split at h
    · rename_i request _
      cases request with
      | run limit => exact run_mono le h
      | _ => exact h
    · exact h
    · exact h

end Debuggee

/-- A dialogue fails with the first line that does not split into words, unless it has been ended
before. -/
theorem exists_converse (h : d.Limited most) (fueled : most.toNat + 1 < fuel) (lines : List String)
    {t : Transcript} (sound : t.failure = none) :
    ∃ t', converse fuel lines d t = some t' ∧
      t'.failure = (unsplittable? lines).map .words := by
  induction lines generalizing d t with
  | nil => exact ⟨_, rfl, sound⟩
  | cons line rest ih =>
    simp only [converse, unsplittable?]
    cases split : lineWords line with
    | error e =>
      simp only [Debuggee.answer, split]
      exact ⟨_, rfl, rfl⟩
    | ok words =>
      obtain ⟨a, answered, goes⟩ := h.exists_answer fueled split
      simp only [answered]
      cases ended : quits line with
      | true =>
        simp only [ended, ↓reduceIte] at goes
        simp only [goes]
        exact ⟨_, rfl, sound⟩
      | false =>
        simp only [ended] at goes
        obtain ⟨d', next, limited⟩ := goes
        simp only [next]
        exact ih limited sound

theorem converse_mono {lines : List String} {t t' : Transcript} {more : Nat} (le : fuel ≤ more)
    (h : converse fuel lines d t = some t') : converse more lines d t = some t' := by
  induction lines generalizing d t with
  | nil => exact h
  | cons line rest ih =>
    simp only [converse] at h ⊢
    cases answered : d.answer fuel line with
    | none => simp [answered] at h
    | some a =>
      simp only [answered] at h
      simp only [Debuggee.answer_mono le answered]
      split at h
      · exact ih h
      · exact h
      · exact h

end Debugger

namespace CommandLine

open Debugger

variable {arguments : List String} {lookup : String → Entry} {a : Arguments} {p : Program}

/-- The program input is given, and so are the numbers that are asked for. -/
structure Arguments.Valued (a : Arguments) : Prop where
  input : a.value? "--input" ≠ some none
  maxSteps : a.integer? "--max-steps" ≠ some none
  tapeWindow : a.integer? "--tape-window" ≠ some none
  historyLimit : a.integer? "--history-limit" ≠ some none

namespace Arguments

theorem value?_ne_of_integer?_ne {long : String} (h : a.integer? long ≠ some none) :
    a.value? long ≠ some none := by
  intro nothing
  simp [integer?, nothing] at h

theorem Valued.missingSettings_eq_nil (h : a.Valued) : missingSettings a = [] := by
  simp [missingSettings, value?_ne_of_integer?_ne h.maxSteps,
    value?_ne_of_integer?_ne h.tapeWindow]

theorem exists_getD_eq {α : Type} {given : Option (Option α)} (h : given ≠ some none)
    (default : α) : ∃ value, given.getD (some default) = some value := by
  rcases given with _ | _ | value
  · exact ⟨default, rfl⟩
  · exact absurd rfl h
  · exact ⟨value, rfl⟩

/-- With all values there is a session, and it has a step limit. -/
theorem Valued.exists_sessionOptions (h : a.Valued) :
    ∃ options most, sessionOptions a = .ok options ∧ options.limit = some most := by
  obtain ⟨input, typed⟩ := exists_getD_eq h.input ""
  obtain ⟨historyLimit, kept⟩ := exists_getD_eq h.historyLimit 200
  obtain ⟨most, limit⟩ := exists_getD_eq h.maxSteps 5000000
  exact ⟨_, most, by rw [sessionOptions, typed, kept], limit⟩

end Arguments

/-- The debugger that is opened for an accepted program is limited. -/
theorem exists_planDebug {source : String} (parsed : parse debugSwitches true arguments = .ok a)
    (valued : a.Valued) (read : Source.read lookup (a.source.getD "") = .ok source)
    (compiled : Program.compile source (a.has "--optimize") = .ok p) :
    ∃ d most, planDebug arguments lookup = .ok d ∧ d.Limited most := by
  obtain ⟨options, most, set, limit⟩ := valued.exists_sessionOptions
  have planned : planDebug arguments lookup = .ok
      { program := p, session := Session.start p.code options, missing := missingSettings a } := by
    simp only [planDebug, parsed, read, compiled, set]
  exact ⟨_, most, planned, ⟨limit, limit⟩, valued.missingSettings_eq_nil⟩

/-- How the debug command ends after a dialogue. -/
def exitAfter (t : Transcript) : DebugExit where
  code := if t.failure.isNone then some 0 else none
  stdout := t.output
  stderr := t.errors
  failure := t.failure

theorem debug_eq {d : Debuggee} (planned : planDebug arguments lookup = .ok d) (stdin : String)
    (fuel : Nat) :
    debug arguments lookup stdin fuel = (dialogue d stdin fuel).map exitAfter := by
  rw [debug, planned]
  rfl

/-- The debugger on an accepted program returns, whatever is typed. Its exit code is zero, unless a
line that does not split into words comes before any that asks to end the dialogue: then the failure
of the first such line ends it. A line that splits has a first word unless it is blank. -/
theorem debug_ends {source : String} (parsed : parse debugSwitches true arguments = .ok a)
    (valued : a.Valued) (read : Source.read lookup (a.source.getD "") = .ok source)
    (compiled : Program.compile source (a.has "--optimize") = .ok p) (stdin : String) :
    (∀ line, lineWords line = .ok [] ↔ Text.trimBy Text.isBlank line.toList = []) ∧
    ∃ exit least, (∀ fuel, least ≤ fuel → debug arguments lookup stdin fuel = some exit) ∧
      exit.failure = (unsplittable? (linesOf stdin)).map .words ∧
      exit.code = if (unsplittable? (linesOf stdin)).isNone then some 0 else none := by
  refine ⟨fun line => lineWords_eq_nil_iff, ?_⟩
  obtain ⟨d, most, planned, limited⟩ := exists_planDebug parsed valued read compiled
  obtain ⟨t, conversed, failure⟩ := exists_converse limited (Nat.lt_succ_self _) (linesOf stdin)
    (t := { output := opening d }) rfl
  have returns (fuel : Nat) (le : most.toNat + 1 + 1 ≤ fuel) : dialogue d stdin fuel = some t :=
    converse_mono le conversed
  refine ⟨exitAfter t, most.toNat + 1 + 1, fun fuel le => ?_, failure, ?_⟩
  · rw [debug_eq planned, returns fuel le, Option.map_some]
  · simp only [exitAfter, failure, Option.isNone_map]

/-- The arguments that open the debugger on a file and set nothing. -/
theorem parse_path : parse debugSwitches true ["p.bf"] = .ok { source := some "p.bf" } := by
  have plain : readToken (helpSwitch :: debugSwitches) "p.bf" = .ok (.plain "p.bf") := by decide
  have tokens : readTokens (helpSwitch :: debugSwitches) ["p.bf"] = .ok [.plain "p.bf"] := by
    simp [readTokens, plain]
  have collected : collect (helpSwitch :: debugSwitches) true [.plain "p.bf"] {} =
      .ok { source := some "p.bf" } := by
    simp [collect]
  simp [parse, tokens, collected, bind, Except.bind]

theorem valued_path : Arguments.Valued { source := some "p.bf" } := by
  constructor <;> decide

/-- A file that holds the code `+.` wherever it is looked for. -/
theorem read_path : Source.read (fun _ => .file [43, 46]) "p.bf" = .ok "+." := by
  have text : Text.decodeUtf8 [43, 46] = ['+', '.'] := by
    simp [Text.decodeUtf8]
  simp only [Source.read, text]

theorem compile_path :
    Program.compile "+." false = .ok ⟨.raw #[.motion .increment, .output], rfl⟩ := rfl

/-- A wrong number is answered, and what follows a request to quit does not matter. -/
theorem debug_ends_of_quit :
    ∃ exit least, (∀ fuel, least ≤ fuel →
        debug ["p.bf"] (fun _ => .file [43, 46]) "n x\nquit\n'\n" fuel = some exit) ∧
      exit.failure = none ∧ exit.code = some 0 := by
  have whole : ∀ line ∈ ["n x", "quit", "'"], '\n' ∉ line.toList := by decide
  have lines : linesOf "n x\nquit\n'\n" = ["n x", "quit", "'"] := linesOf_intercalate whole
  have ends : unsplittable? ["n x", "quit", "'"] = none := by decide +kernel
  obtain ⟨-, exit, least, returns, failure, code⟩ :=
    debug_ends parse_path valued_path read_path compile_path "n x\nquit\n'\n"
  rw [lines, ends] at failure code
  exact ⟨exit, least, returns, failure, code⟩

/-- A quote that is not closed ends the dialogue with a failure. -/
theorem debug_fails_of_quote :
    ∃ exit, (∀ fuel, debug ["p.bf"] (fun _ => .file [43, 46]) "'\n" fuel = some exit) ∧
      exit.failure = some (.words .openQuote) ∧ exit.code = none := by
  obtain ⟨d, most, planned, limited⟩ :=
    exists_planDebug parse_path valued_path read_path compile_path
  have whole : ∀ line ∈ ["'"], '\n' ∉ line.toList := by decide
  have lines : linesOf "'\n" = ["'"] := linesOf_intercalate whole
  have words : lineWords "'" = .error .openQuote := by decide
  let t : Transcript :=
    { output := opening d ++ prompt ++ "", failure := some (.words .openQuote) }
  refine ⟨exitAfter t, fun fuel => ?_, rfl, rfl⟩
  rw [debug_eq planned, dialogue, lines, converse, Debuggee.answer, words]
  rfl

end CommandLine

end ByteTape
