import ByteTape.Proofs.Budget
import ByteTape.Proofs.Equivalence
import ByteTape.Proofs.Stepping
import Mathlib.Algebra.Order.Ring.Int
import Mathlib.Order.WellFounded

/-!
# Folded steps are steps of the commands

The run of the commands wanders where the run of their folding does not, but it comes through every
state of that run, in order. States are compared on the endless tape, with positions counted from
the cell that the head started at. So the folding never takes more steps than the commands, and a
step limit that lets the commands through lets their folding through.
-/

namespace ByteTape

/-- The endless tape that a growing tape stands for, if its head is at the given position. -/
def Tape.contents (t : Tape) (head : Int) (i : Int) : UInt8 :=
  let k := t.pointer + (i - head)
  if 0 ≤ k then t.cells.getD k.toNat 0 else 0

theorem Tape.Shows.contents_eq {t : Tape} {s : Strip} (h : t.Shows s) :
    t.contents s.head = s.cell := by
  funext i
  have pointer := h.pointer_eq
  have cells := h.cells_eq
  have look (k : Nat) : t.cells.getD k 0 = s.visited[k]?.getD 0 := by
    rw [← cells, Array.getD_eq_getD_getElem?, Array.getElem?_toList]
  by_cases inside : s.lo ≤ i ∧ i ≤ s.hi
  · obtain ⟨k, rfl⟩ := Int.le.dest inside.1
    have place : (t.pointer : Int) + (s.lo + k - s.head) = k := by omega
    have bound : k < (s.hi + 1 - s.lo).toNat := by omega
    simp [contents, place, look, Strip.visited, bound]
  · have blank : s.cell i = 0 := h.blank i (by omega)
    simp only [contents, look, blank]
    split
    · have beyond : s.visited.length ≤ ((t.pointer : Int) + (i - s.head)).toNat := by
        simp only [Strip.visited, List.length_map, List.length_range]
        omega
      simp [beyond]
    · rfl

/-- Where the head of a run over given input is after `n` turns, counted from where it started. -/
def Program.position (p : Program) (input : List UInt8) (n : Nat) : Int :=
  ((p.performed input none n).map Operation.shift).sum

/-- A repeated motion moves the head as far as its operation says. -/
theorem Strip.head_move (s : Strip) (n : Nat) (m : Motion) :
    (s.move n m).head = s.head + (Operation.motion m n).shift := by
  cases m <;> simp [move, shift, add, subtract, write, Operation.shift]

namespace Walk

variable {σ : Type} {d : Device σ} {w v : Walk σ}

theorem head_of_walk (h : d.walk w = .inl v) :
    ∃ op, w.operation? = some op ∧ v.strip.head = w.strip.head + op.shift := by
  cases goes_of_walk h with
  | @motion m n rest s x => exact ⟨.motion m n, rfl, s.head_move n m⟩
  | taken | refused | received | passed | entered => exact ⟨_, rfl, (add_zero _).symm⟩

/-- The head moves as far as the operations that are carried out say. -/
theorem head_of_after {n : Nat} (h : after d.walk n w = .inl v) :
    v.strip.head = w.strip.head + ((trail d.walk operation? n w).map Operation.shift).sum := by
  induction n generalizing w with
  | zero =>
    obtain rfl : w = v := Sum.inl.inj h
    simp
  | succ n ih =>
    obtain ⟨u, hs, rest⟩ := exists_of_after_succ h
    obtain ⟨op, here, moved⟩ := head_of_walk hs
    rw [ih rest, moved, trail_succ_of_inl hs, here]
    simp [add_assoc]

/-- A walk is where another one is, up to cells that were visited for nothing, and it has something
left to do if the other one has. -/
structure Meets (w v : Walk σ) : Prop where
  strip : w.strip.Covers v.strip
  device : w.device = v.device
  done : w.block = .nil → v.block = .nil

end Walk

namespace Block

theorem Condenses.eq_nil {S : Strip → Strip → Prop} {b c : Block} (h : b.Condenses S c)
    (nil : b = .nil) : c = .nil := by
  cases h <;> simp_all

/-- The walk through one block comes in order to all that the walk through the other comes to. -/
def Passes (b c : Block) : Prop :=
  ∀ (σ : Type) (d : Device σ) (x : σ), Visits d.walk d.walk Walk.Meets
    (Walk.Ending.Alike Strip.Covers) ⟨b, .blank, x⟩ ⟨c, .blank, x⟩

theorem Passes.of_condenses {b c : Block} (h : b.Condenses Strip.Covers c) : b.Passes c := by
  intro σ d x
  have walks := h.visits Strip.congruence_covers (.refl .blank) d x
  refine walks.mono ?_ fun _ _ alike => alike
  intro w v level
  exact ⟨level.strip, level.device, level.condenses.eq_nil⟩

theorem Passes.trans {b c e : Block} (h : b.Passes c) (h' : c.Passes e) : b.Passes e := by
  intro σ d x
  have walks := (h σ d x).trans (h' σ d x)
  refine walks.mono ?_ ?_
  · rintro w v ⟨u, hu, hv⟩
    exact ⟨hu.strip.trans hv.strip, hu.device.trans hv.device, fun nil => hv.done (hu.done nil)⟩
  · rintro w v ⟨u, hu, hv⟩
    exact hu.trans Strip.congruence_covers hv

theorem Passes.of_condensesTo {b c : Block} (h : b.CondensesTo c) : b.Passes c := by
  induction h with
  | refl => exact .of_condenses (.refl b)
  | tail _ condenses ih => exact ih.trans (.of_condenses condenses)

end Block

namespace Program

variable {p q : Program} {b e : Block} {input : List UInt8}

/-- The head of a walk is where its run says. -/
theorem position_eq (held : p.code.Holds 0 b p.code.size) {n : Nat} {v : Walk Buffers}
    (h : after Buffers.device.walk n ⟨b, .blank, ⟨input, []⟩⟩ = .inl v) :
    p.position input n = v.strip.head := by
  rw [position, performed, (held.follows _).trail_eq rfl, Walk.head_of_after h]
  exact (zero_add _).symm

/-- A run over given input, `m` turns from its start, is where another one is `n` turns from its
start, and it has something left to do if the other one has. -/
structure Meets (p q : Program) (input : List UInt8) (m n : Nat) (x y : Machine × Buffers) :
    Prop where
  streams : x.2 = y.2
  position : p.position input m = q.position input n
  contents : x.1.tape.contents (p.position input m) = y.1.tape.contents (q.position input n)
  inside : q.code.operation? y.1.pc ≠ none → p.code.operation? x.1.pc ≠ none

/-- The first program comes, at the turns that `f` tells, to all that the second comes to. -/
def Leads (p q : Program) (input : List UInt8) (f : Nat → Nat) : Prop :=
  ∀ n y, after (Buffers.device.next q.code none) n ({}, ⟨input, []⟩) = .inl y →
    ∃ x, after (Buffers.device.next p.code none) (f n) ({}, ⟨input, []⟩) = .inl x ∧
      p.Meets q input (f n) n x y

/-- A program leads another one in order where its block passes the block of the other one. -/
theorem exists_leads (heldP : p.code.Holds 0 b p.code.size) (heldQ : q.code.Holds 0 e q.code.size)
    (passes : b.Passes e) (input : List UInt8) :
    ∃ f : Nat → Nat, StrictMono f ∧ p.Leads q input f := by
  obtain ⟨f, mono, visits⟩ := passes _ Buffers.device ⟨input, []⟩
  refine ⟨f, mono, ?_⟩
  intro n y hy
  -- From the run of `q` to its walk, across to the walk of `p`, and back to a run.
  obtain ⟨v, hv, followsQ⟩ := liftRel_inl_left.1 (hy ▸ (heldQ.follows _).after Buffers.device n)
  obtain ⟨w, hw, meets⟩ := liftRel_inl_right.1 (hv ▸ visits n)
  obtain ⟨x, hx, followsP⟩ :=
    liftRel_inl_right.1 (hw ▸ (heldP.follows _).after Buffers.device (f n))
  have positionP := position_eq heldP hw
  have positionQ := position_eq heldQ hv
  refine ⟨x, hx, ?_, ?_, ?_, ?_⟩
  · exact followsP.device.trans (meets.device.trans followsQ.device.symm)
  · rw [positionP, positionQ, meets.strip.head]
  · rw [positionP, positionQ, followsP.shown.contents_eq, followsQ.shown.contents_eq,
      meets.strip.cell]
  · intro inside past
    have done := meets.done (followsP.operation?_eq_none_iff.1 past)
    exact inside (followsQ.operation?_eq_none_iff.2 done)

namespace Leads

variable {f : Nat → Nat}

/-- A limit that lets the leading program through lets the other one through. -/
theorem unbarred (h : p.Leads q input f) (mono : StrictMono f) {limit : Option Int}
    (free : p.Unbarred input limit) : q.Unbarred input limit := by
  intro n y hy barred
  obtain ⟨x, hx, meets⟩ := h n y hy
  have steps : y.1.steps ≤ x.1.steps := by
    rw [Buffers.steps_eq_of_after hx, Buffers.steps_eq_of_after hy]
    exact mono.le_apply
  exact free (f n) x hx ⟨meets.inside barred.inside, Machine.limitReached_mono steps barred.reached⟩

/-- The leading program takes at least as many steps as the other one. -/
theorem steps_le (h : p.Leads q input f) (mono : StrictMono f) {r r' : Report}
    (hp : p.Reports input none r) (hq : q.Reports input none r') :
    r'.workspace.steps ≤ r.workspace.steps := by
  obtain ⟨y, hy⟩ := hq.goes_on_iff.2 le_rfl
  obtain ⟨x, hx, -⟩ := h _ y hy
  exact mono.le_apply.trans (hp.goes_on_iff.1 ⟨x, hx⟩)

/-- A stepper over the leading program shows, at the turns that `f` tells, all the states after an
instruction that one over the other program shows. -/
theorem exists_stepped (h : p.Leads q input f) {limit : Option Int} {radius : Int} (radius' : Int)
    {n m : Nat} (turn : f (n + 1) = m + 1) {v : Snapshot}
    (shown : (q.stepped input limit radius n).yield = .ok (some v)) (named : v.instruction ≠ none) :
    ∃ u, (p.stepped input none radius' m).yield = .ok (some u) ∧ u.instruction ≠ none ∧
      v.step = n + 1 ∧ u.step = m + 1 ∧ u.output = v.output ∧
      p.position input u.step = q.position input v.step ∧
      (p.stepped input none radius' m).workspace.tape.contents (p.position input u.step) =
        (q.stepped input limit radius n).workspace.tape.contents (q.position input v.step) := by
  obtain ⟨y, limited⟩ := exists_after_of_stepped shown named
  obtain ⟨z, -, -, shown', leftQ⟩ := stepped_of_after radius limited
  obtain rfl : y.1.snapshot q.code radius (q.code.mnemonic? z.1.pc) y.2.written = v :=
    Option.some.inj (Except.ok.inj (shown'.symm.trans shown))
  have hy := Device.after_unlimited limited
  obtain ⟨x, hx, meets⟩ := h (n + 1) y hy
  rw [turn] at hx meets
  obtain ⟨w, -, named', shownP, leftP⟩ := stepped_of_after radius' hx
  have stepsQ : y.1.steps = n + 1 := Buffers.steps_eq_of_after hy
  have stepsP : x.1.steps = m + 1 := Buffers.steps_eq_of_after hx
  refine ⟨_, shownP, named', stepsQ, stepsP, ?_, ?_, ?_⟩
  · simp only [Snapshot.output, Machine.snapshot, meets.streams]
  · simp only [Machine.snapshot, stepsP, stepsQ, meets.position]
  · simp only [Machine.snapshot, stepsP, stepsQ, leftP, leftQ, Machine.workspace, meets.contents]

end Leads

end Program

/-- Programs that run along with each other report the same result. -/
theorem Code.Alongside.exists_reports {p q : Program} (h : p.code.Alongside q.code)
    {input : List UInt8} {r : Report} (hr : p.Reports input none r) :
    ∃ r', q.Reports input none r' ∧ r'.result = r.result := by
  obtain ⟨n, f, hf, rfl⟩ := Program.reports_iff.1 hr
  obtain ⟨m, g, hg, alike⟩ := (h _ Buffers.device ⟨input, []⟩).ends hf
  refine ⟨g.report, Program.reports_iff.2 ⟨m, g, hg, rfl⟩, ?_⟩
  rw [Finish.report, Finish.report, alike.result, alike.device]

/-- The states that a stepper shows after the instructions of a folding are, in order, among the
ones that a stepper over the commands shows, with the same output, the same endless tape and the
same position of the head. So under any step limit the folding ends as the commands do, unless the
limit stops the commands, and it has then taken no more steps; and where the limit stops the
folding, it stops the commands. -/
theorem Program.ofFolding_steps_among_ofCommands {cs : List Command} {p : Program}
    (h : ofCommands cs = .ok p) :
    ∃ q, ofFolding cs = .ok q ∧ ∀ input : List UInt8,
      (∃ f : Nat → Nat, StrictMono f ∧ ∀ limit radius radius' n v,
        (q.stepped input limit radius n).yield = .ok (some v) → v.instruction ≠ none →
        ∃ u, (p.stepped input none radius' (f n)).yield = .ok (some u) ∧ u.instruction ≠ none ∧
          v.step = n + 1 ∧ u.step = f n + 1 ∧ u.output = v.output ∧
          p.position input u.step = q.position input v.step ∧
          (p.stepped input none radius' (f n)).workspace.tape.contents (p.position input u.step) =
            (q.stepped input limit radius n).workspace.tape.contents (q.position input v.step)) ∧
      ∀ limit,
        (∀ r, p.Reports input limit r → r.result ≠ .error .stepLimit →
          ∃ r', q.Reports input limit r' ∧ r'.result = r.result ∧
            r'.workspace.steps ≤ r.workspace.steps) ∧
        ((∃ r, q.Reports input limit r ∧ r.result = .error .stepLimit) →
          ∃ r, p.Reports input limit r ∧ r.result = .error .stepLimit) := by
  obtain ⟨q, b, e, hq, heldP, heldQ, condensed⟩ := exists_blocks_of_ofCommands h
  have along := Code.alongside_of_abreast heldP heldQ (.of_condensesTo condensed)
  refine ⟨q, hq, fun input => ?_⟩
  obtain ⟨f, mono, leads⟩ := exists_leads heldP heldQ (.of_condensesTo condensed) input
  have turn (n : Nat) : f (n + 1) = f (n + 1) - 1 + 1 :=
    (Nat.sub_add_cancel (n.succ_pos.trans_le mono.le_apply)).symm
  refine ⟨⟨fun n => f (n + 1) - 1, ?_, ?_⟩, fun limit => ⟨?_, ?_⟩⟩
  · intro n m lt
    have later := mono (Nat.succ_lt_succ lt)
    rw [turn n, turn m] at later
    exact Nat.lt_of_succ_lt_succ later
  · intro limit radius radius' n v shown named
    exact leads.exists_stepped radius' (turn n) shown named
  · intro r hr ne
    -- Without a limit the two runs report the same, and what bars one of them bars the other.
    obtain ⟨unlimited, free⟩ := hr.unlimited ne
    obtain ⟨r', hr', same⟩ := along.exists_reports unlimited
    exact ⟨r', hr'.limited (leads.unbarred mono free), same, leads.steps_le mono unlimited hr'⟩
  · intro stopped
    have barred := exists_reports_stepLimit_iff.1 stopped
    exact exists_reports_stepLimit_iff.2 fun free => barred (leads.unbarred mono free)

/-- The folding of `<>+.` ends with the output of the commands under a limit of the four steps that
they take, and the state that it shows first is among theirs. -/
theorem Program.ofFolding_steps_among_ofCommands_four :
    let cs : List Command := [.motion .left, .motion .right, .motion .increment, .output]
    ∃ p, ofCommands cs = .ok p ∧ ∃ q, ofFolding cs = .ok q ∧
      (∃ r, q.Reports [] (some 4) r ∧ r.result = .ok [1] ∧ r.workspace.steps ≤ 4) ∧
      ∃ n u, (p.stepped [] none 0 n).yield = .ok (some u) ∧ u.output = [] ∧
        (p.stepped [] none 0 n).workspace.tape.contents (p.position [] u.step) 0 = 1 := by
  intro cs
  obtain ⟨p, hp⟩ : ∃ p, ofCommands cs = .ok p := exists_ofCommands_iff.2 rfl
  obtain ⟨q, hq, runs⟩ := ofFolding_steps_among_ofCommands hp
  obtain ⟨⟨f, -, among⟩, limited⟩ := runs []
  have codeP : p.code = .raw cs.toArray := ofCode_code hp
  have codeQ : q.code = .folded #[.counted .increment 1, .output] := by
    have folded : ofFolding cs = ofCode (.folded #[.counted .increment 1, .output]) := by rfl
    exact ofCode_code (folded ▸ hq)
  refine ⟨p, hp, q, hq, ?_, ?_⟩
  · obtain ⟨r, hr, result, steps⟩ : ∃ r, p.run [] (some 4) 5 = some r ∧ r.result = .ok [1] ∧
        r.workspace.steps = 4 := by
      obtain ⟨_, _⟩ := p
      subst codeP
      exact ⟨_, rfl, rfl, rfl⟩
    obtain ⟨r', hr', same, fewer⟩ := (limited (some 4)).1 r ⟨5, hr⟩ (by simp [result])
    exact ⟨r', hr', same.trans result, steps ▸ fewer⟩
  · obtain ⟨v, shown, named, output, contents⟩ : ∃ v,
        (q.stepped [] none 0 0).yield = .ok (some v) ∧ v.instruction ≠ none ∧ v.output = [] ∧
          (q.stepped [] none 0 0).workspace.tape.contents (q.position [] v.step) 0 = 1 := by
      obtain ⟨_, _⟩ := q
      subst codeQ
      exact ⟨_, rfl, nofun, rfl, rfl⟩
    obtain ⟨u, shown', -, -, -, output', -, contents'⟩ := among none 0 0 0 v shown named
    exact ⟨f 0, u, shown', output'.trans output, contents' ▸ contents⟩

end ByteTape
