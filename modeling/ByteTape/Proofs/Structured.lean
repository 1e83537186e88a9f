import ByteTape.Proofs.Evaluation
import ByteTape.Proofs.Folding.Acceptance

/-!
# Commands mean their tree

Balanced commands can be read as one block, and the program of the commands, which knows nothing of
blocks, does what evaluating the block does: it returns the same output, runs out of input together
with it, or goes on for ever as it does, and its tape is the visited part of the strip.
-/

namespace ByteTape

/-- A run of a program ends with a report, given enough fuel. -/
def Program.Reports (p : Program) (input : List UInt8) (limit : Option Int) (r : Report) : Prop :=
  ∃ fuel, p.run input limit fuel = some r

/-- A report tells the fate of an evaluation: its result, with the output if it was done, and the
visited part of its strip. -/
structure Fate.ToldBy (o : Fate) (r : Report) : Prop where
  result : r.result = o.result.map fun _ => o.world.output
  shown : r.workspace.tape.Shows o.world.strip

namespace Code.Holds

variable {p : Program} {b : Block}

theorem toldBy_of_ends {f : Finish Buffers} {e : Walk.Ending Buffers} {o : Fate}
    (alike : EndsAlike f e) (ends : o.EndsAs e) :
    o.ToldBy ⟨f.result.map fun _ => f.device.output, f.machine.tape, f.machine.steps⟩ := by
  constructor
  · rw [← ends.result, ← ends.world, alike.result, alike.device]
    rfl
  · rw [← ends.world]
    exact alike.shown

/-- A report tells the fate of the evaluation. -/
theorem evaluates_of_reports (held : p.code.Holds 0 b p.code.size) {input : List UInt8} {r : Report}
    (h : p.Reports input none r) : ∃ o, b.Evaluates (.start input) o ∧ o.ToldBy r := by
  obtain ⟨fuel, hr⟩ := h
  obtain ⟨f, hf, rfl⟩ := Option.map_eq_some_iff.1 hr
  obtain ⟨m, e, he, alike⟩ :=
    (held.matched Buffers.device ⟨input, []⟩).ends (Device.resume_eq_some_iff.1 hf)
  obtain ⟨o, ho, ends⟩ := Block.evaluates_of_after he
  exact ⟨o, ho, toldBy_of_ends alike ends⟩

/-- The fate of the evaluation is reported. -/
theorem reports_of_evaluates (held : p.code.Holds 0 b p.code.size) {input : List UInt8} {o : Fate}
    (h : b.Evaluates (.start input) o) : ∃ r, p.Reports input none r ∧ o.ToldBy r := by
  have start : b.Evaluates (World.of .blank ⟨input, []⟩) o := h
  obtain ⟨n, e, he, ends⟩ := start.ends
  obtain ⟨fuel, f, hf, alike⟩ := (held.matched Buffers.device ⟨input, []⟩).symm.ends he
  have finished := Device.resume_eq_some_iff.2 hf
  refine ⟨_, ⟨fuel, ?_⟩, toldBy_of_ends alike ends⟩
  rw [Program.run, Device.execute, finished]
  rfl

/-- A run has no report exactly when the evaluation goes on for ever. -/
theorem run_eq_none_iff (held : p.code.Holds 0 b p.code.size) (input : List UInt8) :
    (∀ fuel, p.run input none fuel = none) ↔ b.Diverges (.start input) := by
  constructor
  · intro never
    refine Block.diverges_of_not_evaluates ?_
    rintro ⟨o, ho⟩
    obtain ⟨r, ⟨fuel, hr⟩, -⟩ := held.reports_of_evaluates ho
    simp [never] at hr
  · intro diverges fuel
    refine Option.eq_none_iff_forall_ne_some.2 fun r hr => ?_
    obtain ⟨o, ho, -⟩ := held.evaluates_of_reports ⟨fuel, hr⟩
    exact diverges.not_evaluates o ho

end Code.Holds

/-- The program of balanced commands runs as their tree evaluates. It returns an output exactly when
the evaluation is done with that output, it runs out of input exactly when the evaluation does, and
it never ends exactly when the evaluation goes on for ever. At every end its tape is what the
evaluation has visited of the strip. -/
theorem Program.run_ofCommands_iff_evaluates {cs : List Command}
    (balanced : Bracket.Balanced Command.bracket cs) :
    ∃ p b, ofCommands cs = .ok p ∧ b.operations = cs.map Command.operation ∧
      (∀ c : Block, c.operations = cs.map Command.operation → c = b) ∧
      ∀ input : List UInt8,
        (∀ out, (∃ r, p.Reports input none r ∧ r.result = .ok out) ↔
          ∃ w, b.Evaluates (.start input) (.done w) ∧ w.output = out) ∧
        ((∃ r, p.Reports input none r ∧ r.result = .error .inputExhausted) ↔
          ∃ w, b.Evaluates (.start input) (.starved w)) ∧
        ((∀ fuel, p.run input none fuel = none) ↔ b.Diverges (.start input)) ∧
        ∀ r, p.Reports input none r → ∃ o, b.Evaluates (.start input) o ∧
          r.result = o.result.map (fun _ => o.world.output) ∧
          r.workspace.tape.cells.toList = o.world.strip.visited ∧
          (r.workspace.tape.pointer : Int) = o.world.strip.head - o.world.strip.lo := by
  obtain ⟨p, hp⟩ := exists_ofCommands_iff.2 (Bracket.balanced_iff.1 balanced)
  obtain ⟨b, hb, unique⟩ := Block.existsUnique_of_balanced balanced
  have held : p.code.Holds 0 b p.code.size := ofCode_code hp ▸ Code.holds_raw hb
  refine ⟨p, b, hp, hb, unique, fun input => ⟨?_, ?_, held.run_eq_none_iff input, ?_⟩⟩
  · intro out
    constructor
    · rintro ⟨r, reported, returned⟩
      obtain ⟨o, ho, told⟩ := held.evaluates_of_reports reported
      have result := told.result.symm.trans returned
      cases o with
      | done w => exact ⟨w, ho, Except.ok.inj result⟩
      | starved w => cases result
    · rintro ⟨w, done, rfl⟩
      obtain ⟨r, reported, told⟩ := held.reports_of_evaluates done
      exact ⟨r, reported, told.result⟩
  · constructor
    · rintro ⟨r, reported, failed⟩
      obtain ⟨o, ho, told⟩ := held.evaluates_of_reports reported
      have result := told.result.symm.trans failed
      cases o with
      | done w => cases result
      | starved w => exact ⟨w, ho⟩
    · rintro ⟨w, starved⟩
      obtain ⟨r, reported, told⟩ := held.reports_of_evaluates starved
      exact ⟨r, reported, told.result⟩
  · intro r reported
    obtain ⟨o, ho, told⟩ := held.evaluates_of_reports reported
    exact ⟨o, ho, told.result, told.shown.cells_eq, told.shown.pointer_eq⟩

/-- The tree of `,[.,]` copies its input up to a zero, because the program does. -/
theorem Program.run_ofCommands_copying :
    let cs : List Command := [.input, .loopStart, .output, .input, .loopEnd]
    Bracket.Balanced Command.bracket cs ∧ ∃ b : Block, b.operations = cs.map Command.operation ∧
      ∃ w, b.Evaluates (.start [7, 8, 0, 9]) (.done w) ∧ w.output = [7, 8] := by
  have balanced : Bracket.Balanced Command.bracket
      [.input, .loopStart, .output, .input, .loopEnd] := Bracket.balanced_iff.2 rfl
  obtain ⟨p, b, hp, hb, -, runs⟩ := run_ofCommands_iff_evaluates balanced
  have code := ofCode_code hp
  have returned : ∃ r, p.Reports [7, 8, 0, 9] none r ∧ r.result = .ok [7, 8] := by
    obtain ⟨_, _⟩ := p
    subst code
    exact ⟨_, ⟨9, rfl⟩, rfl⟩
  exact ⟨balanced, b, hb, ((runs [7, 8, 0, 9]).1 [7, 8]).1 returned⟩

end ByteTape
