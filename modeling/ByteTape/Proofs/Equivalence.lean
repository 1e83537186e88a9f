import ByteTape.Proofs.Calls
import ByteTape.Proofs.Folding.Acceptance
import ByteTape.Proofs.Unrolling
import ByteTape.Proofs.Partner

/-!
# Folding keeps what a program does

The block of the commands becomes the block of their folding by leaving out motions that undo each
other and then repeating motions instead of listing them. So the two programs run along with each
other over any streams: they make the same calls, end together and alike, and their tapes are the
same up to cells that were visited for nothing.
-/

namespace ByteTape

namespace Block

/-- Condensing one time after the other, up to cells that are visited for nothing. -/
def CondensesTo : Block → Block → Prop := Relation.ReflTransGen (Condenses Strip.Covers)

/-- Walks through two blocks run along with each other over all streams: the streams go through the
same states, and in the end the first strip covers the second. -/
def Abreast (b c : Block) : Prop :=
  ∀ (σ : Type) (d : Device σ) (x : σ), Matched d.walk d.walk (fun w v => w.device = v.device)
    (Walk.Ending.Alike Strip.Covers) ⟨b, .blank, x⟩ ⟨c, .blank, x⟩

/-- Walks through a block and a condensed one go through the same states of the streams. -/
theorem Condenses.alike {S : Strip → Strip → Prop} (hS : Strip.Congruence S)
    (blank : S .blank .blank) {b c : Block} (h : b.Condenses S c) {σ : Type} (d : Device σ)
    (x : σ) :
    Matched d.walk d.walk (fun w v => w.device = v.device) (Walk.Ending.Alike S) ⟨b, .blank, x⟩
      ⟨c, .blank, x⟩ := by
  refine (h.matched hS blank d x).mono ?_ fun _ _ alike => alike
  intro w v behind
  cases behind <;> rfl

theorem Abreast.of_condenses {b c : Block} (h : b.Condenses Strip.Covers c) : b.Abreast c :=
  fun _ d x => h.alike Strip.congruence_covers (.refl .blank) d x

theorem Abreast.trans {b c e : Block} (h : b.Abreast c) (h' : c.Abreast e) : b.Abreast e := by
  intro σ d x
  have walks := (h σ d x).trans (h' σ d x)
  refine walks.mono ?_ ?_
  · rintro w v ⟨u, hu, hv⟩
    exact hu.trans hv
  · rintro w v ⟨u, hu, hv⟩
    exact hu.trans Strip.congruence_covers hv

theorem Abreast.of_condensesTo {b c : Block} (h : b.CondensesTo c) : b.Abreast c := by
  induction h with
  | refl => exact .of_condenses (.refl b)
  | tail _ condenses ih => exact ih.trans (.of_condenses condenses)

/-- Deleting a pair of motions from commands condenses the block of the commands, if carrying out
such a pair makes no difference. -/
theorem exists_condenses_of_cancels {S : Strip → Strip → Prop} {cs ds : List Command}
    (h : Command.Cancels cs ds)
    (idle : ∀ m, [.motion m, .motion m.opposite] <:+: cs →
      ∀ s : Strip, S (s.moves [m, m.opposite]) s)
    {b : Block} (hb : b.operations = cs.map Command.operation) :
    ∃ c : Block, c.operations = ds.map Command.operation ∧ b.Condenses S c := by
  cases h with
  | pair before rest m =>
    have found : [.motion m, .motion m.opposite] <:+:
        before ++ .motion m :: .motion m.opposite :: rest := ⟨before, rest, by simp⟩
    have split : b.operations = before.map Command.operation ++
        ([m, m.opposite].map (Operation.motion · 1) ++ rest.map Command.operation) := by
      rw [hb]
      simp [Command.operation]
    obtain ⟨c, hc, condenses⟩ := exists_condenses_of_idle (idle m found) split
    exact ⟨c, by rw [hc, List.map_append], condenses⟩

/-- Deleting pairs of motions one after the other condenses the block one time after the other. -/
theorem exists_condensesTo_of_reduces {cs ds : List Command} (h : Command.Reduces cs ds) {b : Block}
    (hb : b.operations = cs.map Command.operation) :
    ∃ c : Block, c.operations = ds.map Command.operation ∧ b.CondensesTo c := by
  induction h with
  | refl => exact ⟨b, hb, .refl⟩
  | tail _ step ih =>
    obtain ⟨c, hc, condensed⟩ := ih
    obtain ⟨e, he, condenses⟩ :=
      exists_condenses_of_cancels step (fun m _ s => s.move_opposite_covers m) hc
    exact ⟨e, he, condensed.tail condenses⟩

end Block

/-- Two runs ended alike, on tapes that are the same up to cells visited for nothing. -/
structure Finish.Alike {σ : Type} (f g : Finish σ) : Prop where
  result : f.result = g.result
  device : f.device = g.device
  cells : ∃ a b, f.machine.tape.cells =
      Array.replicate a 0 ++ g.machine.tape.cells ++ Array.replicate b 0 ∧
    f.machine.tape.pointer = a + g.machine.tape.pointer

theorem Finish.alike_of_walks {σ : Type} {f g : Finish σ} {e e' : Walk.Ending σ}
    (hf : EndsAlike f e) (h : e.Alike Strip.Covers e') (hg : EndsAlike g e') : f.Alike g where
  result := hf.result.trans (h.result.trans hg.result.symm)
  device := hf.device.trans (h.device.trans hg.device.symm)
  cells := hf.shown.exists_cells_eq_of_covers hg.shown h.strip

/-- Two runs from a blank tape go along with each other: whenever one of them gets somewhere, the
other one gets somewhere with its streams in the same state, and when one ends, so does the
other. -/
def Code.Alongside (c c' : Code) : Prop :=
  ∀ (σ : Type) (d : Device σ) (s : σ), Matched (d.next c none) (d.next c' none)
    (fun x y => x.2 = y.2) Finish.Alike ({}, s) ({}, s)

/-- Programs run along with each other when their blocks do. -/
theorem Code.alongside_of_abreast {c c' : Code} {b b' : Block} (h : c.Holds 0 b c.size)
    (h' : c'.Holds 0 b' c'.size) (abreast : b.Abreast b') : c.Alongside c' := by
  intro σ d s
  have walks := (h.matched d s).trans ((abreast σ d s).trans (h'.matched d s).symm)
  refine walks.mono ?_ ?_
  · rintro x y ⟨w, hw, v, same, hv⟩
    exact hw.device.trans (same.trans hv.device.symm)
  · rintro f g ⟨e, hf, e', same, hg⟩
    exact Finish.alike_of_walks hf same hg

namespace Code.Alongside

variable {p q : Program} {σ : Type}

/-- Programs that run along with each other end together. -/
theorem exists_execute_iff (h : p.code.Alongside q.code) (d : Device σ) (s : σ) :
    (∃ n f, d.execute p none n s = some f) ↔ ∃ m g, d.execute q none m s = some g := by
  constructor
  · rintro ⟨n, f, hf⟩
    obtain ⟨m, g, hg, -⟩ := (h σ d s).ends (Device.resume_eq_some_iff.1 hf)
    exact ⟨m, g, Device.resume_eq_some_iff.2 hg⟩
  · rintro ⟨m, g, hg⟩
    obtain ⟨n, f, hf, -⟩ := (h σ d s).symm.ends (Device.resume_eq_some_iff.1 hg)
    exact ⟨n, f, Device.resume_eq_some_iff.2 hf⟩

theorem alike (h : p.code.Alongside q.code) {d : Device σ} {s : σ} {n m : Nat} {f g : Finish σ}
    (hf : d.execute p none n s = some f) (hg : d.execute q none m s = some g) : f.Alike g := by
  obtain ⟨l, g', hg', alike⟩ := (h σ d s).ends (Device.resume_eq_some_iff.1 hf)
  obtain rfl := after_inr_unique hg' (Device.resume_eq_some_iff.1 hg)
  exact alike

theorem log_eq {x : (Machine × σ × List Call) ⊕ Finish (σ × List Call)}
    {y : (Machine × σ × List Call) ⊕ Finish (σ × List Call)}
    (h : Sum.LiftRel (fun x y => x.2 = y.2) Finish.Alike x y) : Device.log x = Device.log y := by
  cases h with
  | inl same => exact congrArg Prod.snd same
  | inr alike => exact congrArg Prod.snd alike.device

/-- Programs that run along with each other make the same calls, one turn after the other. -/
theorem exists_calls_eq (h : p.code.Alongside q.code) (d : Device σ) (s : σ) :
    (∀ n, ∃ m, d.calls q m s = d.calls p n s) ∧ ∀ m, ∃ n, d.calls p n s = d.calls q m s := by
  constructor
  · intro n
    obtain ⟨m, hm⟩ := (h _ d.logged (s, [])).there n
    exact ⟨m, (log_eq hm).symm⟩
  · intro m
    obtain ⟨n, hn⟩ := (h _ d.logged (s, [])).back m
    exact ⟨n, log_eq hn⟩

/-- At their ends they have made the same calls. -/
theorem calls_eq (h : p.code.Alongside q.code) {d : Device σ} {s : σ} {n m : Nat} {f g : Finish σ}
    (hf : d.execute p none n s = some f) (hg : d.execute q none m s = some g) :
    d.calls p n s = d.calls q m s := by
  obtain ⟨f', hf', -, callsP⟩ := Device.exists_after_logged hf
  obtain ⟨g', hg', -, callsQ⟩ := Device.exists_after_logged hg
  obtain ⟨l, g'', hg'', alike⟩ := (h _ d.logged (s, [])).ends hf'
  obtain rfl := after_inr_unique hg'' hg'
  rw [callsP, callsQ, alike.device]

end Code.Alongside

/-- The output of a folding pass that has closed all loops holds a block. The block counts its
motions, and unrolled it is the block of the commands that the output stands for. -/
theorem Folding.exists_block_of_run {cs : List Command} {s : Folding} (h : run cs = .ok s)
    (closed : s.opened = []) :
    ∃ e : Block, (Code.folded s.output).Holds 0 e (Code.folded s.output).size ∧ e.Counted ∧
      e.unroll.operations = (Instruction.expand s.output.toList).map Command.operation := by
  have linked : Instruction.Linked 0 s.output.toList := by
    have layout := Instruction.layout_of_run h
    rw [closed] at layout
    exact layout.linked
  obtain ⟨e, he, -⟩ := Code.exists_holds_of_linked linked (along_toList s.output)
  refine ⟨e, Code.holds_folded linked he, ?_, ?_⟩
  · exact Block.counted_of_inRange (Instruction.compact_of_run h).inRange he
  · rw [Block.operations_unroll, he, Instruction.map_operation_expand]

/-- The folding of commands that spell out a block holds a block that this one condenses to. -/
theorem Folding.exists_condensesTo_of_run {cs : List Command} {s : Folding} (h : run cs = .ok s)
    (closed : s.opened = []) {b : Block} (hb : b.operations = cs.map Command.operation) :
    ∃ e : Block, (Code.folded s.output).Holds 0 e (Code.folded s.output).size ∧
      b.CondensesTo e := by
  obtain ⟨e, heldE, counted, unrolled⟩ := exists_block_of_run h closed
  obtain ⟨c, hc, condensed⟩ := Block.exists_condensesTo_of_reduces (reduces_of_run h) hb
  obtain rfl : c = e.unroll := Block.operations_injective (hc.trans unrolled.symm)
  exact ⟨e, heldE, condensed.tail (Block.condenses_unroll Strip.Covers.refl counted)⟩

/-- Balanced commands and their folding hold blocks of which the one condenses to the other. -/
theorem Folding.exists_blocks_of_run {cs : List Command} {s : Folding} (h : run cs = .ok s)
    (closed : s.opened = []) (balanced : Bracket.opens Command.bracket 0 [] cs = .ok []) :
    ∃ b e : Block, (Code.raw cs.toArray).Holds 0 b (Code.raw cs.toArray).size ∧
      (Code.folded s.output).Holds 0 e (Code.folded s.output).size ∧ b.CondensesTo e := by
  obtain ⟨b, hb, -⟩ := Block.existsUnique_of_balanced (Bracket.balanced_iff.2 balanced)
  obtain ⟨e, heldE, condensed⟩ := exists_condensesTo_of_run h closed hb
  exact ⟨b, e, Code.holds_raw hb, heldE, condensed⟩

/-- Where commands make a program their folding makes one as well, and both hold blocks of which the
one condenses to the other. -/
theorem Program.exists_blocks_of_ofCommands {cs : List Command} {p : Program}
    (h : ofCommands cs = .ok p) :
    ∃ q b e, ofFolding cs = .ok q ∧ p.code.Holds 0 b p.code.size ∧
      q.code.Holds 0 e q.code.size ∧ b.CondensesTo e := by
  have balanced := exists_ofCommands_iff.1 ⟨p, h⟩
  obtain ⟨t, ht, matched⟩ := Folding.exists_run_of_opens balanced
  have closed : t.opened = [] := List.forall₂_nil_left_iff.1 matched
  obtain ⟨q, hq⟩ := exists_ofFolding_of_opens balanced
  have codeP : p.code = .raw cs.toArray := ofCode_code h
  have codeQ : q.code = .folded t.output := ofCode_code (ofFolding_of_run ht ▸ hq)
  obtain ⟨b, e, heldP, heldQ, condensed⟩ := Folding.exists_blocks_of_run ht closed balanced
  exact ⟨q, b, e, hq, codeP ▸ heldP, codeQ ▸ heldQ, condensed⟩

/-- Commands and their folding do the same over any streams. The program of the folding exists when
the one of the commands does, and without a step limit one ends if and only if the other does. Both
make the same calls in the same order, and at their ends the calls, the result and the state of the
streams are equal. The tapes are then equal as well, up to zeros on both sides of the tape of the
folding, with the heads at the same cell. -/
theorem Program.ofFolding_runs_as_ofCommands {cs : List Command} {p : Program}
    (h : ofCommands cs = .ok p) :
    ∃ q, ofFolding cs = .ok q ∧ ∀ {σ : Type} (d : Device σ) (s : σ),
      ((∃ n f, d.execute p none n s = some f) ↔ ∃ m g, d.execute q none m s = some g) ∧
      (∀ n, ∃ m, d.calls q m s = d.calls p n s) ∧
      (∀ m, ∃ n, d.calls p n s = d.calls q m s) ∧
      ∀ n f m g, d.execute p none n s = some f → d.execute q none m s = some g →
        d.calls p n s = d.calls q m s ∧ f.result = g.result ∧ f.device = g.device ∧
        ∃ a b, f.machine.tape.cells =
            Array.replicate a 0 ++ g.machine.tape.cells ++ Array.replicate b 0 ∧
          f.machine.tape.pointer = a + g.machine.tape.pointer := by
  obtain ⟨q, b, e, hq, heldP, heldQ, condensed⟩ := exists_blocks_of_ofCommands h
  have along : p.code.Alongside q.code :=
    Code.alongside_of_abreast heldP heldQ (.of_condensesTo condensed)
  refine ⟨q, hq, ?_⟩
  intro σ d s
  obtain ⟨there, back⟩ := along.exists_calls_eq d s
  refine ⟨along.exists_execute_iff d s, there, back, ?_⟩
  intro n f m g hf hg
  have alike := along.alike hf hg
  exact ⟨along.calls_eq hf hg, alike.result, alike.device, alike.cells⟩

/-- The folding of `<>+.` moves nowhere, yet it fails like the commands where their stream refuses
the byte once and then cannot be flushed. -/
theorem Program.ofFolding_runs_without_wandering :
    let cs : List Command := [.motion .left, .motion .right, .motion .increment, .output]
    let script : Script := { writes := [.ok false], flushError := some (.os "full") }
    ∃ p, ofCommands cs = .ok p ∧ ∃ q, ofFolding cs = .ok q ∧
      ∃ m g, Script.device.execute q none m script = some g ∧
        g.result = .error (.io .flush "full") ∧ g.device.output = [1] ∧
        ∃ a b, #[0, 1] = Array.replicate a 0 ++ g.machine.tape.cells ++ Array.replicate b 0 := by
  intro cs script
  obtain ⟨p, hp⟩ : ∃ p, ofCommands cs = .ok p := exists_ofCommands_iff.2 rfl
  have code : p.code = .raw cs.toArray := ofCode_code hp
  obtain ⟨q, hq, runs⟩ := ofFolding_runs_as_ofCommands hp
  obtain ⟨together, -, -, alike⟩ := runs Script.device script
  obtain ⟨f, hf, result, output, cells⟩ : ∃ f, Script.device.execute p none 6 script = some f ∧
      f.result = .error (.io .flush "full") ∧ f.device.output = [1] ∧
      f.machine.tape.cells = #[0, 1] := by
    obtain ⟨_, _⟩ := p
    subst code
    exact ⟨_, rfl, rfl, rfl, rfl⟩
  obtain ⟨m, g, hg⟩ := together.1 ⟨6, f, hf⟩
  obtain ⟨-, sameResult, sameDevice, a, b, sameCells, -⟩ := alike 6 f m g hf hg
  exact ⟨p, hp, q, hq, m, g, hg, sameResult ▸ result, sameDevice ▸ output, a, b,
    cells ▸ sameCells⟩

end ByteTape
