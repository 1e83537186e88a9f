import ByteTape.Proofs.CommandLine.Dump
import ByteTape.Proofs.Halting
import ByteTape.Proofs.Refusal

/-!
# The run command does what its source means

A source that is not balanced is refused for the boundary that is to blame. Any other one is
compiled, in either form, to code that is known by its block, and what the command writes is what
evaluating the block of the source has put out by the time the run halts. How it ends is told by the
exit code and one line.
-/

namespace ByteTape.CommandLine

open Text (encodeUtf8 decodeUtf8)

/-- How the run command ends on commands of the block `b` that were compiled to the block `e`, over
given input. Steps are counted in operations of `e`. -/
inductive Ends (b e : Block) (data : List UInt8) (limit : Option Int) : Exit → Prop where
  | complete {n : Nat} {v w : World} (comes : e.Comes (.start data) n .nil v)
      (within : ∀ most ∈ limit, n ≤ most.toNat) (whole : b.Evaluates (.start data) (.done w)) :
      Ends b e data limit { code := 0, stdout := w.output }
  | exhausted {n : Nat} {rest : Block} {v w : World}
      (comes : e.Comes (.start data) n (.act .input rest) v) (none : v.input = [])
      (within : ∀ most ∈ limit, n < most.toNat)
      (whole : b.Evaluates (.start data) (.starved w)) :
      Ends b e data limit {
        code := 1
        stdout := w.output
        stderr := "I/O error: Failed to read input: input stream is exhausted\n" }
  | limited {most : Int} {n : Nat} {rest rest' : Block} {v w : World}
      (bound : limit = some most) (comes : e.Comes (.start data) most.toNat rest v)
      (left : rest ≠ .nil) (part : b.Comes (.start data) n rest' w) (later : most.toNat ≤ n)
      (covers : w.strip.Covers v.strip) (input : w.input = v.input) (output : w.output = v.output) :
      Ends b e data limit {
        code := 1
        stdout := w.output
        stderr := "Program exceeded allowed step count\n" }

/-- The exit that a run comes to. -/
def exitOf (f : Finish Buffers) : Exit :=
  { code := (runExit f.result).1, stdout := f.device.output, stderr := (runExit f.result).2 }

/-- Where its block halts the command ends, with the output of the block of the source. -/
theorem ends_of_halts {b e rest : Block} (passes : b.Passes e) {data : List UInt8}
    {limit : Option Int} {n : Nat} {v : World} {f : Finish Buffers}
    (comes : e.Comes (.start data) n rest v) (halts : Block.Halts limit n rest v f.result)
    (output : f.device.output = v.output) : Ends b e data limit (exitOf f) := by
  obtain ⟨result, machine, device⟩ := f
  simp only at halts output
  rw [exitOf, output]
  cases halts with
  | done within =>
    obtain ⟨w | w, hw, result, -, -, same⟩ := passes.evaluates (comes.evaluates_iff.2 (.nil v))
    · rw [← show w.output = v.output from same]
      exact .complete comes within hw
    · cases result
  | starved none within =>
    obtain ⟨w | w, hw, result, -, -, same⟩ :=
      passes.evaluates (comes.evaluates_iff.2 (.starve none))
    · cases result
    · rw [← show w.output = v.output from same]
      exact .exhausted comes none within hw
  | limited bound left =>
    obtain ⟨m, rest', w, later, part, covers, input, same⟩ := passes.comes comes
    rw [← same]
    exact .limited bound comes left part later covers input same

section Compiled

variable {arguments : List String} {a : Arguments} {lookup : String → Entry}
  {bytes : List UInt8}

theorem planRun_of_error {e : LoopError} (given : parse runSwitches true arguments = .ok a)
    (file : lookup (Source.normalPath (a.source.getD "")) = .file bytes)
    (quiet : a.has "--verbose" = false)
    (refused : Program.compile (String.ofList (decodeUtf8 bytes)) (a.has "--optimize") = .error e) :
    planRun arguments lookup =
      .stop { code := 1, stderr := "Malformed program: " ++ e.message ++ "\n" } := by
  simp [planRun, given, Source.read, file, quiet, refused]

theorem planRun_of_ok {p : Program} {input : Option String} {limit : Option Int}
    (given : parse runSwitches true arguments = .ok a)
    (file : lookup (Source.normalPath (a.source.getD "")) = .file bytes)
    (runs : a.has "--dump" = false) (quiet : a.has "--verbose" = false)
    (fed : a.value? "--input" = input.map some)
    (bounded : a.integer? "--max-steps" = limit.map some)
    (compiled : Program.compile (String.ofList (decodeUtf8 bytes)) (a.has "--optimize") = .ok p) :
    planRun arguments lookup = .execute p (input.map encodeUtf8) limit "" := by
  have fed' : a.value? "--input" ≠ some none := by
    rw [fed]
    cases input <;> simp
  have bounded' : a.value? "--max-steps" ≠ some none := by
    intro nothing
    cases limit <;> simp [Arguments.integer?, nothing] at bounded
  have given' : (a.value? "--input").join = input := by
    rw [fed]
    cases input <;> rfl
  have most : (a.integer? "--max-steps").join = limit := by
    rw [bounded]
    cases limit <;> rfl
  simp [planRun, given, Source.read, file, quiet, compiled, runs, planProgram, fed', bounded',
    given', most]

end Compiled

section Planned

variable {arguments : List String} {lookup : String → Entry} {p : Program} {b e : Block}
  {input : Option (List UInt8)} {limit : Option Int} {stdin : List UInt8}

theorem run_eq_some_iff (planned : planRun arguments lookup = .execute p input limit "")
    {fuel : Nat} {exit : Exit} :
    run arguments lookup stdin fuel = some exit ↔
      ∃ f, after (Buffers.device.next p.code limit) fuel ({}, ⟨input.getD stdin, []⟩) = .inr f ∧
        exitOf f = exit := by
  simp only [run, planned, Option.map_eq_some_iff, Device.execute, Device.resume_eq_some_iff,
    String.empty_append, exitOf]

/-- The command ends as the evaluation says. -/
theorem ends_of_run (planned : planRun arguments lookup = .execute p input limit "")
    (held : p.code.Holds 0 e p.code.size) (passes : b.Passes e) {fuel : Nat} {exit : Exit}
    (h : run arguments lookup stdin fuel = some exit) :
    Ends b e (input.getD stdin) limit exit := by
  obtain ⟨f, hf, rfl⟩ := (run_eq_some_iff planned).1 h
  obtain ⟨rest, v, comes, halts, -, output⟩ := held.halts_of_after hf
  exact ends_of_halts passes comes halts output

/-- The command ends without complaint exactly when the code is done within the step limit. -/
theorem silent_iff (planned : planRun arguments lookup = .execute p input limit "")
    (held : p.code.Holds 0 e p.code.size) {fuel : Nat} {exit : Exit}
    (h : run arguments lookup stdin fuel = some exit) :
    exit.code = 0 ∧ exit.stderr = "" ↔
      ∃ n v, e.Comes (.start (input.getD stdin)) n .nil v ∧ ∀ most ∈ limit, n ≤ most.toNat := by
  obtain ⟨f, hf, rfl⟩ := (run_eq_some_iff planned).1 h
  obtain ⟨rest, v, comes, halts, -, -⟩ := held.halts_of_after hf
  constructor
  · rintro ⟨zero, -⟩
    obtain ⟨result, machine, device⟩ := f
    generalize machine.steps = n at comes halts
    cases halts with
    | done within => exact ⟨_, v, comes, within⟩
    | starved none within => cases zero
    | limited bound left => cases zero
  · rintro ⟨n, u, comes', within⟩
    obtain ⟨-, result⟩ := held.halts_unique comes halts comes' (.done within)
    simp [exitOf, result, runExit]

/-- The command ends under a limit, and where the evaluation does. -/
theorem exists_run_iff (planned : planRun arguments lookup = .execute p input limit "")
    (held : p.code.Holds 0 e p.code.size) (passes : b.Passes e) :
    (∃ fuel exit, run arguments lookup stdin fuel = some exit) ↔
      limit ≠ none ∨ ∃ o, b.Evaluates (.start (input.getD stdin)) o := by
  constructor
  · rintro ⟨fuel, exit, h⟩
    cases ends_of_run planned held passes h with
    | complete comes within whole => exact .inr ⟨_, whole⟩
    | exhausted comes none within whole => exact .inr ⟨_, whole⟩
    | limited bound => exact .inl (by simp [bound])
  · intro stops
    suffices ∃ n f,
        after (Buffers.device.next p.code limit) n ({}, ⟨input.getD stdin, []⟩) = .inr f by
      obtain ⟨n, f, hf⟩ := this
      exact ⟨n, exitOf f, (run_eq_some_iff planned).2 ⟨f, hf, rfl⟩⟩
    cases limit with
    | some most => exact ⟨_, Buffers.exists_inr_of_limit p.code most _⟩
    | none =>
      obtain ⟨o, ho⟩ := stops.resolve_left (· rfl)
      obtain ⟨o', ho'⟩ := passes.exists_evaluates ho
      obtain ⟨r, reported, -⟩ := held.reports_of_evaluates ho'
      obtain ⟨n, f, hf, -⟩ := Program.reports_iff.1 reported
      exact ⟨n, f, hf⟩

end Planned

/-- Balanced commands compile, in either form, to code that holds a block which theirs passes. -/
theorem exists_blocks_of_compile {source : String}
    (balanced : Bracket.Balanced Command.bracket (Command.parse source.toList)) (optimize : Bool) :
    ∃ p b e, Program.compile source optimize = .ok p ∧
      b.operations = (Command.parse source.toList).map Command.operation ∧
      p.code.Holds 0 e p.code.size ∧ b.Passes e ∧ (optimize = false → e = b) := by
  have opens := Bracket.balanced_iff.1 balanced
  obtain ⟨b, hb, -⟩ := Block.existsUnique_of_balanced balanced
  cases optimize with
  | false =>
    obtain ⟨p, hp⟩ := Program.exists_ofCommands_iff.2 opens
    have code : p.code = .raw (Command.parse source.toList).toArray := Program.ofCode_code hp
    exact ⟨p, b, b, hp, hb, code ▸ Code.holds_raw hb, .of_condenses (.refl b), fun _ => rfl⟩
  | true =>
    obtain ⟨p, hp⟩ := Program.exists_ofFolding_of_opens opens
    obtain ⟨s, hs, matched⟩ := Folding.exists_run_of_opens opens
    obtain ⟨e, held, condensed⟩ :=
      Folding.exists_condensesTo_of_run hs (List.forall₂_nil_left_iff.1 matched) hb
    have code : p.code = .folded s.output := Program.ofCode_code (Program.ofFolding_of_run hs ▸ hp)
    exact ⟨p, b, e, hp, hb, code ▸ held, .of_condensesTo condensed, nofun⟩

/-- The arguments that give a file its input and two steps. -/
def twoSteps : List String := ["p.bf", "--input", "A", "--max-steps", "2"]

def twoStepsArguments : Arguments where
  source := some "p.bf"
  given := [("--input", some "A"), ("--max-steps", some "2")]

theorem parse_twoSteps : parse runSwitches true twoSteps = .ok twoStepsArguments := by
  have tokens : readTokens (helpSwitch :: runSwitches) twoSteps =
      .ok [.plain "p.bf", .option { long := "--input", parameter := .text } false .nothing,
        .plain "A", .option { long := "--max-steps", parameter := .integer } false .nothing,
        .plain "2"] := by
    decide
  have number : Text.integer? "2" = some 2 := by decide
  simp [parse, tokens, bind, Except.bind, pure, Except.pure, collect, bundle, Bundle.settings,
    takeValue, Parameter.takesValue, Arguments.note, Parameter.accepts, number,
    twoStepsArguments]

/-- A file that holds the code `,.[.]` wherever it is looked for. -/
def copying : String → Entry := fun _ => .file [44, 46, 91, 46, 93]

end ByteTape.CommandLine
