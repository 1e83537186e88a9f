import ByteTape.Proofs.Budget
import ByteTape.Proofs.Equivalence

/-!
# Tapes of commands and of their folding

A folding leaves out motions that undo each other. Where the commands move the head to and fro for
nothing, their tape gets cells that the tape of the folding lacks, all of them zero and at its ends.
Commands whose head moves never cancel have no such cells.
-/

namespace ByteTape

namespace Command

/-- Deleting neighbours that undo each other never brings opposite moves of the head together. -/
def Steady (cs : List Command) : Prop :=
  ∀ ds, Reduces cs ds → ∀ m, m = .right ∨ m = .left → ¬ [.motion m, .motion m.opposite] <:+: ds

theorem Steady.of_cancels {cs ds : List Command} (h : Steady cs) (cancels : Cancels cs ds) :
    Steady ds :=
  fun es reduces => h es (.head cancels reduces)

/-- Commands without neighbours that undo each other are steady. -/
theorem steady_of_isChain {cs : List Command} (h : cs.IsChain Apart) : Steady cs := by
  intro ds reduces m _
  have same : ds = cs := by
    induction reduces with
    | refl => rfl
    | tail _ cancels ih =>
      subst ih
      cases cancels with
      | pair before rest k =>
        exact absurd ⟨before, rest, by simp⟩ (not_infix_of_isChain h k)
  exact same ▸ not_infix_of_isChain h m

end Command

namespace Block

/-- Walks through two blocks run along with each other over all streams: the streams go through the
same states, and in the end the strips are equal. -/
def Even (b c : Block) : Prop :=
  ∀ (σ : Type) (d : Device σ) (x : σ), Matched d.walk d.walk (fun w v => w.device = v.device)
    (Walk.Ending.Alike (· = ·)) ⟨b, .blank, x⟩ ⟨c, .blank, x⟩

theorem Even.of_condenses {b c : Block} (h : b.Condenses (· = ·) c) : b.Even c :=
  fun _ d x => h.alike Strip.congruence_eq rfl d x

theorem Even.trans {b c e : Block} (h : b.Even c) (h' : c.Even e) : b.Even e := by
  intro σ d x
  have walks := (h σ d x).trans (h' σ d x)
  refine walks.mono ?_ ?_
  · rintro w v ⟨u, hu, hv⟩
    exact hu.trans hv
  · rintro w v ⟨u, hu, hv⟩
    exact hu.trans Strip.congruence_eq hv

/-- Deleting pairs of motions from steady commands makes no difference. -/
theorem exists_even_of_reduces {cs ds : List Command} (h : Command.Reduces cs ds)
    (steady : Command.Steady cs) {b : Block} (hb : b.operations = cs.map Command.operation) :
    ∃ c : Block, c.operations = ds.map Command.operation ∧ b.Even c := by
  induction h using Relation.ReflTransGen.head_induction_on generalizing b with
  | refl => exact ⟨b, hb, .of_condenses (.refl b)⟩
  | @head cs es cancels rest ih =>
    have idle (m : Motion) (found : [.motion m, .motion m.opposite] <:+: cs) (s : Strip) :
        s.moves [m, m.opposite] = s :=
      s.move_opposite_eq (fun right => steady cs (.refl cs) m (.inl right) found)
        fun left => steady cs (.refl cs) m (.inr left) found
    obtain ⟨c, hc, condenses⟩ := exists_condenses_of_cancels cancels idle hb
    obtain ⟨e, he, even⟩ := ih (steady.of_cancels cancels) hc
    exact ⟨e, he, (Even.of_condenses condenses).trans even⟩

end Block

/-- Programs whose blocks run evenly have the same cells in the end. -/
theorem Code.Holds.exists_cells_eq {c c' : Code} {b b' : Block} (h : c.Holds 0 b c.size)
    (h' : c'.Holds 0 b' c'.size) (even : b.Even b') {σ : Type} {d : Device σ} {s : σ} {n : Nat}
    {f : Finish σ} (hf : after (d.next c none) n ({}, s) = .inr f) :
    ∃ m g, after (d.next c' none) m ({}, s) = .inr g ∧
      f.machine.tape.cells = g.machine.tape.cells := by
  have walks := (h.matched d s).trans ((even σ d s).trans (h'.matched d s).symm)
  obtain ⟨m, g, hg, e, hfe, e', alike, hge⟩ := walks.ends hf
  refine ⟨m, g, hg, Array.toList_inj.1 ?_⟩
  exact hfe.shown.cells_eq.trans (alike.strip ▸ hge.shown.cells_eq.symm)

namespace Program

variable {cs : List Command} {p q : Program} {input : List UInt8} {limit : Option Int}
  {r r' : Report}

/-- The folding of steady commands ends with the cells of the commands. -/
theorem Reports.cells_eq_of_steady (hp : ofCommands cs = .ok p) (hq : ofFolding cs = .ok q)
    (steady : Command.Steady cs) (h : p.Reports input none r) (h' : q.Reports input none r') :
    r.workspace.tape.cells = r'.workspace.tape.cells := by
  have balanced := exists_ofCommands_iff.1 ⟨p, hp⟩
  obtain ⟨t, ht, matched⟩ := Folding.exists_run_of_opens balanced
  have closed : t.opened = [] := List.forall₂_nil_left_iff.1 matched
  have codeP : p.code = .raw cs.toArray := ofCode_code hp
  have codeQ : q.code = .folded t.output := ofCode_code (ofFolding_of_run ht ▸ hq)
  obtain ⟨b, hb, -⟩ := Block.existsUnique_of_balanced (Bracket.balanced_iff.2 balanced)
  obtain ⟨e, heldE, counted, unrolled⟩ := Folding.exists_block_of_run ht closed
  obtain ⟨c, hc, even⟩ := Block.exists_even_of_reduces (Folding.reduces_of_run ht) steady hb
  obtain rfl : c = e.unroll := Block.operations_injective (hc.trans unrolled.symm)
  have whole := even.trans (.of_condenses (Block.condenses_unroll (fun _ => rfl) counted))
  obtain ⟨n, f, hf, rfl⟩ := reports_iff.1 h
  obtain ⟨m, g, hg, rfl⟩ := reports_iff.1 h'
  obtain ⟨l, g', hg', cells⟩ :=
    (Code.holds_raw hb).exists_cells_eq heldE whole (codeP ▸ hf)
  obtain rfl := after_inr_unique (codeQ ▸ hg) hg'
  exact cells

/-- Where both the commands and their folding return, they return the same output. The tape of the
commands is the tape of the folding between two runs of zeros, with the heads at the same cell, and
the runs are empty if the commands are steady. -/
theorem Reports.exists_margins (hp : ofCommands cs = .ok p) (hq : ofFolding cs = .ok q)
    (h : p.Reports input limit r) (h' : q.Reports input limit r') {output output' : List UInt8}
    (done : r.result = .ok output) (done' : r'.result = .ok output') :
    output = output' ∧ ∃ i k,
      r.workspace.tape.cells =
        Array.replicate i 0 ++ r'.workspace.tape.cells ++ Array.replicate k 0 ∧
      r.workspace.tape.pointer = i + r'.workspace.tape.pointer ∧
      (Command.Steady cs → i = 0 ∧ k = 0) := by
  have free := (h.unlimited (by simp [done])).1
  have free' := (h'.unlimited (by simp [done'])).1
  obtain ⟨q', b, e, hq', heldP, heldQ, condensed⟩ := exists_blocks_of_ofCommands hp
  obtain rfl : q = q' := Except.ok.inj (hq.symm.trans hq')
  have along := Code.alongside_of_abreast heldP heldQ (.of_condensesTo condensed)
  obtain ⟨n, f, hf, rfl⟩ := reports_iff.1 free
  obtain ⟨m, g, hg, rfl⟩ := reports_iff.1 free'
  have alike := along.alike (Device.resume_eq_some_iff.2 hf) (Device.resume_eq_some_iff.2 hg)
  obtain ⟨i, k, cells, pointer⟩ := alike.cells
  refine ⟨?_, i, k, cells, pointer, ?_⟩
  · rw [Finish.report, alike.result, alike.device] at done
    exact Except.ok.inj (done.symm.trans done')
  · intro steady
    have same := congrArg Array.size (cells.symm.trans (free.cells_eq_of_steady hp hq steady free'))
    simp only [Array.size_append, Array.size_replicate, Finish.report] at same
    omega

end Program

end ByteTape
