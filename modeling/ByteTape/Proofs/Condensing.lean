import ByteTape.Proofs.Subrun
import ByteTape.Proofs.Tape.Cover
import ByteTape.Proofs.Walk

/-!
# Condensing a block

Inside a block a run of single motions may be left out if it undoes itself, or replaced by one
repeated motion that leads to the same place. What same means is up to a relation between strips
that every operation of the tape respects. The walk through the longer block then takes some extra
steps, and does nothing else that the walk through the shorter block does not do.
-/

namespace ByteTape

namespace Strip

/-- Carry out single motions one after the other. -/
def moves (s : Strip) : List Motion → Strip
  | [] => s
  | m :: ms => (s.move 1 m).moves ms

@[simp] theorem moves_nil (s : Strip) : s.moves [] = s := rfl

@[simp] theorem moves_cons (s : Strip) (m : Motion) (ms : List Motion) :
    s.moves (m :: ms) = (s.move 1 m).moves ms := rfl

/-- A motion repeated one by one is a repeated motion. -/
theorem moves_replicate (s : Strip) (n : Nat) (m : Motion) :
    s.moves (List.replicate n m) = s.move n m := by
  induction n generalizing s with
  | zero => rw [move_zero, List.replicate_zero, moves_nil]
  | succ n ih => rw [move_succ, List.replicate_succ, moves_cons, ih]

/-- A relation that reads alike and that every operation of the tape respects. -/
structure Congruence (S : Strip → Strip → Prop) : Prop where
  trans : ∀ {s t u}, S s t → S t u → S s u
  read : ∀ {s t}, S s t → s.read = t.read
  write : ∀ {s t}, S s t → ∀ value, S (s.write value) (t.write value)
  move : ∀ {s t}, S s t → ∀ n m, S (s.move n m) (t.move n m)

theorem congruence_eq : Congruence (· = ·) where
  trans h h' := h.trans h'
  read h := congrArg Strip.read h
  write h value := congrArg (Strip.write · value) h
  move h n m := congrArg (Strip.move · n m) h

theorem congruence_covers : Congruence Covers where
  trans h h' := h.trans h'
  read h := h.read
  write h := h.write
  move h := h.move

end Strip

namespace Block

/-- Single motions in front of a block. -/
def motions : List Motion → Block → Block
  | [], rest => rest
  | m :: ms, rest => act (.motion m 1) (motions ms rest)

@[simp] theorem motions_nil (rest : Block) : motions [] rest = rest := rfl

@[simp] theorem motions_cons (m : Motion) (ms : List Motion) (rest : Block) :
    motions (m :: ms) rest = act (.motion m 1) (motions ms rest) := rfl

@[simp] theorem operations_motions (ms : List Motion) (rest : Block) :
    (motions ms rest).operations = ms.map (Operation.motion · 1) ++ rest.operations := by
  induction ms with
  | nil => rfl
  | cons m ms ih => simp [operations, Action.operation, ih]

@[simp] theorem motions_append (ms : List Motion) (rest c : Block) :
    (motions ms rest).append c = motions ms (rest.append c) := by
  induction ms with
  | nil => rfl
  | cons m ms ih => simp [append, ih]

/-- One block has runs of single motions where the other one has nothing or one motion. -/
inductive Condenses (S : Strip → Strip → Prop) : Block → Block → Prop where
  | nil : Condenses S .nil .nil
  | act (a : Action) {b c : Block} (after : Condenses S b c) : Condenses S (.act a b) (.act a c)
  | loop {body body' b c : Block} (inside : Condenses S body body') (after : Condenses S b c) :
      Condenses S (.loop body b) (.loop body' c)
  | vanish {m : Motion} {ms : List Motion} {b c : Block}
      (idle : ∀ s : Strip, S (s.moves (m :: ms)) s)
      (after : Condenses S b c) : Condenses S (motions (m :: ms) b) c
  | merge {m k : Motion} {ms : List Motion} {n : Nat} {b c : Block}
      (same : ∀ s : Strip, S (s.moves (m :: ms)) (s.move n k)) (after : Condenses S b c) :
      Condenses S (motions (m :: ms) b) (.act (.motion k n) c)

namespace Condenses

variable {S : Strip → Strip → Prop}

theorem refl (b : Block) : b.Condenses S b := by
  induction b with
  | nil => exact .nil
  | act a rest ih => exact .act a ih
  | loop body rest ihBody ihRest => exact .loop ihBody ihRest

theorem append {b b' c c' : Block} (h : b.Condenses S b') (h' : c.Condenses S c') :
    (b.append c).Condenses S (b'.append c') := by
  induction h with
  | nil => exact h'
  | act a _ ih => exact .act a ih
  | loop inside _ _ ih => exact .loop inside ih
  | vanish idle _ ih =>
    rw [motions_append]
    exact .vanish idle ih
  | merge same _ ih =>
    rw [motions_append]
    exact .merge same ih

end Condenses

/-- Motions that a block begins with come off its front. -/
theorem exists_motions {b : Block} {ms : List Motion} {rest : List Operation}
    (h : b.operations = ms.map (Operation.motion · 1) ++ rest) :
    ∃ c, b = motions ms c ∧ c.operations = rest := by
  induction ms generalizing b with
  | nil => exact ⟨b, rfl, h⟩
  | cons m ms ih =>
    cases b with
    | nil => cases h
    | act a b =>
      obtain ⟨first, tail⟩ := List.cons.inj h
      obtain rfl : a = .motion m 1 := operation_injective first
      obtain ⟨c, rfl, hc⟩ := ih tail
      exact ⟨c, rfl, hc⟩
    | loop body b => cases (List.cons.inj h).1

/-- A part of a list that does not contain an entry lies before or after it. -/
theorem append_cons_eq_append {α : Type} {x : α} {xs ys before ks rest : List α} (free : x ∉ ks)
    (h : xs ++ x :: ys = before ++ (ks ++ rest)) :
    (∃ zs, xs = before ++ (ks ++ zs) ∧ rest = zs ++ x :: ys) ∨
      ∃ zs, before = xs ++ x :: zs ∧ ys = zs ++ (ks ++ rest) := by
  rcases List.append_eq_append_iff.1 h with ⟨zs, rfl, tail⟩ | ⟨zs, rfl, tail⟩
  · cases zs with
    | nil =>
      cases ks with
      | nil => exact .inl ⟨[], by simp, tail.symm⟩
      | cons k ks =>
        obtain ⟨rfl, -⟩ := List.cons.inj tail
        exact absurd List.mem_cons_self free
    | cons z zs =>
      obtain ⟨rfl, rfl⟩ := List.cons.inj tail
      exact .inr ⟨zs, rfl, rfl⟩
  · rcases List.append_eq_append_iff.1 tail with ⟨us, rfl, last⟩ | ⟨us, rfl, last⟩
    · exact .inl ⟨us, rfl, last⟩
    · cases us with
      | nil => exact .inl ⟨[], by simp, last.symm⟩
      | cons u us =>
        obtain ⟨rfl, -⟩ := List.cons.inj last
        exact absurd (List.mem_append_right _ List.mem_cons_self) free

/-- Motions that undo each other can be taken out of a block anywhere. -/
theorem exists_condenses_of_idle {S : Strip → Strip → Prop} {m : Motion} {ms : List Motion}
    (idle : ∀ s : Strip, S (s.moves (m :: ms)) s) {b : Block} {before rest : List Operation}
    (h : b.operations = before ++ ((m :: ms).map (Operation.motion · 1) ++ rest)) :
    ∃ c : Block, c.operations = before ++ rest ∧ b.Condenses S c := by
  induction b generalizing before rest with
  | nil => simp [operations] at h
  | act a b ih =>
    cases before with
    | nil =>
      obtain ⟨c, hc, rfl⟩ := exists_motions h
      rw [hc]
      exact ⟨c, rfl, .vanish idle (.refl c)⟩
    | cons op before =>
      obtain ⟨rfl, tail⟩ := List.cons.inj h
      obtain ⟨c, hc, condenses⟩ := ih tail
      exact ⟨.act a c, by simp [operations, hc], .act a condenses⟩
  | loop body b ihBody ihRest =>
    cases before with
    | nil => cases (List.cons.inj h).1
    | cons op before =>
      obtain ⟨rfl, tail⟩ := List.cons.inj h
      have free : .boundary .closing ∉ (m :: ms).map (Operation.motion · 1) := by simp
      rcases append_cons_eq_append free tail with ⟨zs, inside, rfl⟩ | ⟨zs, rfl, outside⟩
      · obtain ⟨c, hc, condenses⟩ := ihBody inside
        exact ⟨.loop c b, by simp [operations, hc], .loop condenses (.refl b)⟩
      · obtain ⟨c, hc, condenses⟩ := ihRest outside
        exact ⟨.loop body c, by simp [operations, hc], .loop (.refl body) condenses⟩

end Block

/-- Two walks ended alike, on related strips. -/
structure Walk.Ending.Alike {σ : Type} (S : Strip → Strip → Prop) (e e' : Walk.Ending σ) :
    Prop where
  result : e.result = e'.result
  strip : S e.strip e'.strip
  device : e.device = e'.device

theorem Walk.Ending.Alike.trans {σ : Type} {S : Strip → Strip → Prop} (hS : Strip.Congruence S)
    {e e' e'' : Walk.Ending σ} (h : e.Alike S e') (h' : e'.Alike S e'') : e.Alike S e'' :=
  ⟨h.result.trans h'.result, hS.trans h.strip h'.strip, h.device.trans h'.device⟩

/-- A walk is where another one through a condensed block is. -/
structure Walk.Level {σ : Type} (S : Strip → Strip → Prop) (w w' : Walk σ) : Prop where
  condenses : w.block.Condenses S w'.block
  strip : S w.strip w'.strip
  device : w.device = w'.device

/-- A walk is behind another one that goes through a condensed block: by nothing, or by the rest of
a run of single motions. -/
inductive Walk.Behind {σ : Type} (S : Strip → Strip → Prop) : Walk σ → Walk σ → Prop where
  | level {b c : Block} {s t : Strip} (x : σ) (condenses : b.Condenses S c) (same : S s t) :
      Behind S ⟨b, s, x⟩ ⟨c, t, x⟩
  | vanishing {ms : List Motion} {b c : Block} {s t : Strip} (x : σ) (condenses : b.Condenses S c)
      (same : S (s.moves ms) t) : Behind S ⟨.motions ms b, s, x⟩ ⟨c, t, x⟩
  | merging {m k : Motion} {ms : List Motion} {n : Nat} {b c : Block} {s t : Strip} (x : σ)
      (condenses : b.Condenses S c) (same : S (s.moves (m :: ms)) (t.move n k)) :
      Behind S ⟨.motions (m :: ms) b, s, x⟩ ⟨.act (.motion k n) c, t, x⟩

namespace Walk.Behind

variable {σ : Type} {S : Strip → Strip → Prop}

theorem of_level {w w' : Walk σ} (h : w.Level S w') : Behind S w w' := by
  obtain ⟨b, s, x⟩ := w
  obtain ⟨c, t, y⟩ := w'
  obtain rfl : x = y := h.device
  exact .level x h.condenses h.strip

/-- An action that both blocks begin with is carried out alike. -/
theorem walk_act (hS : Strip.Congruence S) (d : Device σ) (a : Action) {b c : Block} {s t : Strip}
    (x : σ) (condenses : b.Condenses S c) (same : S s t) :
    Sum.LiftRel (Walk.Level S) (Walk.Ending.Alike S) (d.walk ⟨.act a b, s, x⟩)
      (d.walk ⟨.act a c, t, x⟩) := by
  cases a with
  | motion m n => exact .inl ⟨condenses, hS.move same n m, rfl⟩
  | output =>
    simp only [Device.walk, hS.read same]
    rcases d.write t.read x with ⟨_ | _ | _, y⟩
    · exact .inr ⟨rfl, same, rfl⟩
    · exact .inl ⟨.act .output condenses, same, rfl⟩
    · exact .inl ⟨condenses, same, rfl⟩
  | input =>
    simp only [Device.walk]
    rcases d.read x with ⟨_ | _ | value, y⟩
    · exact .inr ⟨rfl, same, rfl⟩
    · exact .inr ⟨rfl, same, rfl⟩
    · exact .inl ⟨condenses, hS.write same value, rfl⟩

/-- What the walk through the longer block does when it is behind by nothing or a part of a run: it
catches up on its own, or both walks go on to where they are on a level. -/
def Catches (S : Strip → Strip → Prop) (d : Device σ) (w w' : Walk σ) : Prop :=
  (∃ v, d.walk w = .inl v ∧ Behind S v w' ∧
    v.block.operations.length < w.block.operations.length) ∨
  Sum.LiftRel (Walk.Level S) (Walk.Ending.Alike S) (d.walk w) (d.walk w')

/-- The rest of a run that is replaced by one motion. -/
theorem catches_merging (d : Device σ) {m k : Motion} {ms : List Motion} {n : Nat} {b c : Block}
    {s t : Strip} (x : σ) (condenses : b.Condenses S c)
    (same : S (s.moves (m :: ms)) (t.move n k)) :
    Catches S d ⟨.motions (m :: ms) b, s, x⟩ ⟨.act (.motion k n) c, t, x⟩ := by
  cases ms with
  | nil => exact .inr (.inl ⟨condenses, same, rfl⟩)
  | cons l ms => exact .inl ⟨_, rfl, .merging x condenses same, by simp [Block.operations]⟩

theorem catches_level (hS : Strip.Congruence S) (d : Device σ) {b c : Block} {s t : Strip} (x : σ)
    (condenses : b.Condenses S c) (same : S s t) : Catches S d ⟨b, s, x⟩ ⟨c, t, x⟩ := by
  cases condenses with
  | nil =>
    refine .inr ?_
    simp only [Device.walk]
    rcases d.flush x with ⟨_ | ⟨⟩, y⟩
    · exact .inr ⟨rfl, same, rfl⟩
    · exact .inr ⟨rfl, same, rfl⟩
  | act a after => exact .inr (walk_act hS d a x after same)
  | loop inside after =>
    refine .inr ?_
    simp only [Device.walk, hS.read same]
    refine .inl ⟨?_, same, rfl⟩
    split
    · exact after
    · exact inside.append (.loop inside after)
  | vanish idle after =>
    have reached := hS.trans (idle s) same
    exact .inl ⟨_, rfl, .vanishing x after reached, by simp [Block.operations]⟩
  | @merge _ k _ n _ _ merged after =>
    have reached := hS.trans (merged s) (hS.move same n k)
    exact catches_merging d x after reached

theorem catches (hS : Strip.Congruence S) (d : Device σ) {w w' : Walk σ} (h : Behind S w w') :
    Catches S d w w' := by
  cases h with
  | level x condenses same => exact catches_level hS d x condenses same
  | @vanishing ms b c s t x condenses same =>
    cases ms with
    | nil => exact catches_level hS d x condenses same
    | cons m ms => exact .inl ⟨_, rfl, .vanishing x condenses same, by simp [Block.operations]⟩
  | merging x condenses same => exact catches_merging d x condenses same

/-- The walk through the longer block simulates the other one. -/
theorem simulates (hS : Strip.Congruence S) (d : Device σ) :
    Simulates d.walk d.walk (Behind S) (Walk.Ending.Alike S)
      fun w => w.block.operations.length :=
  fun _ _ h => (h.catches hS d).imp_right fun both => both.mono (fun _ _ => of_level) fun _ _ => id

end Walk.Behind

/-- Walks through a block and a condensed one run along with each other. -/
theorem Block.Condenses.matched {σ : Type} {S : Strip → Strip → Prop} (hS : Strip.Congruence S)
    {b c : Block} (h : b.Condenses S c) {s t : Strip} (same : S s t) (d : Device σ) (x : σ) :
    Matched d.walk d.walk (Walk.Behind S) (Walk.Ending.Alike S) ⟨b, s, x⟩ ⟨c, t, x⟩ :=
  (Walk.Behind.simulates hS d).matched (.level x h same)

/-- The walk through the longer block comes in order to all that the other one comes to. -/
theorem Block.Condenses.visits {σ : Type} {S : Strip → Strip → Prop} (hS : Strip.Congruence S)
    {b c : Block} (h : b.Condenses S c) {s t : Strip} (same : S s t) (d : Device σ) (x : σ) :
    Visits d.walk d.walk (Walk.Level S) (Walk.Ending.Alike S) ⟨b, s, x⟩ ⟨c, t, x⟩ :=
  .of_simulation (fun _ _ => Walk.Behind.of_level) (fun _ _ behind => behind.catches hS d)
    ⟨h, same, rfl⟩

end ByteTape
