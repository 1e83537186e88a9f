import ByteTape.Proofs.Block
import ByteTape.Proofs.Refusal
import Mathlib.Order.Bounds.Basic

/-!
# The verdict on the loops of a sequence

The loops of a sequence open and close in pairs exactly if its boundaries spell a balanced word. If
they do not, the boundary to blame can be told by counting. The first end that brings the ends above
the starts closes nothing. If there is none, the last start that is never closed is to blame, even
where other loops open and close behind it.
-/

namespace ByteTape

namespace Bracket

/-- A balanced word: nothing, or a loop around such a word with another one behind it. -/
inductive Word : List Bracket → Prop where
  | nil : Word []
  | loop {inside rest : List Bracket} (inner : Word inside) (behind : Word rest) :
      Word (.opening :: inside ++ .closing :: rest)

variable {α : Type}

/-- The side of a loop that an entry is by two tests, of which the one for starts comes first. -/
def ofTests (starts ends : α → Bool) (a : α) : Option Bracket :=
  if starts a then some .opening else if ends a then some .closing else none

/-- Up to the entry at `n`, and with it, there are more ends than starts. -/
def Overclosed (starts ends : α → Bool) (as : List α) (n : Nat) : Prop :=
  n < as.length ∧ (as.take (n + 1)).countP starts < (as.take (n + 1)).countP ends

/-- The entry at `i` is a start, and behind it there are never more ends than starts. -/
structure Unclosed (starts ends : α → Bool) (as : List α) (i : Nat) : Prop where
  opening : as[i]?.any starts = true
  after : ∀ k, i < k → ((as.take (k + 1)).drop (i + 1)).countP ends ≤
    ((as.take (k + 1)).drop (i + 1)).countP starts

variable {bracket : α → Option Bracket} {starts ends : α → Bool} {as : List α} {i n : Nat}

/-! ## Words -/

theorem Word.opens {w : List Bracket} (h : Word w) (index : Nat) (opened : List Nat) :
    Bracket.opens some index opened w = .ok opened := by
  induction h generalizing index opened with
  | nil => rfl
  | loop inner behind ihInner ihBehind =>
    simp [Bracket.opens, Bracket.opens_append, Except.bind, ihInner, ihBehind]

/-- The boundaries of a block spell a word. -/
theorem word_operations (b : Block) : Word (b.operations.filterMap Operation.bracket) := by
  induction b with
  | nil => exact .nil
  | act a rest ih => simpa [Block.operations, Block.bracket_operation] using ih
  | loop body rest ihBody ihRest =>
    simpa [Block.operations, Operation.bracket] using Word.loop ihBody ihRest

theorem count_filterMap (bracket : α → Option Bracket) (side : Bracket) (as : List α) :
    count some side (as.filterMap bracket) = count bracket side as := by
  unfold count
  rw [List.countP_filterMap]
  refine List.countP_congr fun a _ => ?_
  cases bracket a <;> simp

/-- A sequence is balanced if its boundaries are. -/
theorem Balanced.of_filterMap (h : Balanced some (as.filterMap bracket)) : Balanced bracket as := by
  refine ⟨fun n => ?_, ?_⟩
  · have part : (as.take n).filterMap bracket <+: as.filterMap bracket :=
      (List.take_prefix n as).filterMap bracket
    have within := h.within ((as.take n).filterMap bracket).length
    rwa [← List.prefix_iff_eq_take.1 part, count_filterMap, count_filterMap] at within
  · have even := h.even
    rwa [count_filterMap, count_filterMap] at even

/-- The balanced sequences are those whose boundaries spell a word. -/
theorem word_filterMap_iff : Word (as.filterMap bracket) ↔ Balanced bracket as := by
  constructor
  · intro h
    exact .of_filterMap (balanced_iff.2 (h.opens 0 []))
  · intro h
    -- Any entry that is no boundary will do for those of the sequence.
    let operation (a : α) : Operation := (bracket a).elim .output .boundary
    have side (a : α) : (operation a).bracket = bracket a := by
      cases hb : bracket a <;> simp [operation, hb, Operation.bracket]
    have same : opens Operation.bracket 0 [] (as.map operation) = .ok [] := by
      simpa only [opens_map, side] using balanced_iff.1 h
    obtain ⟨b, spelled⟩ := Block.exists_operations_iff.2 same
    have word := word_operations b
    rw [spelled, List.filterMap_map] at word
    simpa only [Function.comp_def, side] using word

/-! ## Depth -/

theorem depth_take (bracket : α → Option Bracket) (as : List α) (le : n ≤ i) :
    depth bracket (as.take i) n = depth bracket as n := by
  rw [depth, depth, List.take_take, min_eq_left le]

theorem balanced_take_iff (le : i ≤ as.length) :
    Balanced bracket (as.take i) ↔ (∀ n ≤ i, 0 ≤ depth bracket as n) ∧ depth bracket as i = 0 := by
  have length : (as.take i).length = i := List.length_take_of_le le
  have whole := depth_take bracket as (le_refl i)
  rw [balanced_iff_depth, length, whole]
  refine and_congr_left fun even => ⟨fun h n le => ?_, fun h n => ?_⟩
  · rw [← depth_take bracket as le]
    exact h n
  · rcases Nat.le_total n i with before | behind
    · rw [depth_take bracket as before]
      exact h n before
    · rw [depth_of_length_le (length.trans_le behind), length, whole]
      exact even.ge

theorem balanced_drop_iff (le : i ≤ as.length) :
    Balanced bracket (as.drop i) ↔
      (∀ n, i ≤ n → depth bracket as i ≤ depth bracket as n) ∧
        depth bracket as as.length = depth bracket as i := by
  have whole : as.length = i + (as.drop i).length := by
    rw [List.length_drop]
    omega
  rw [balanced_iff_depth, whole, depth_add]
  constructor
  · rintro ⟨within, even⟩
    refine ⟨fun n least => ?_, by omega⟩
    obtain ⟨k, rfl⟩ := Nat.exists_eq_add_of_le least
    have := within k
    rw [depth_add]
    omega
  · rintro ⟨within, even⟩
    refine ⟨fun k => ?_, by omega⟩
    have := within (i + k) (Nat.le_add_right i k)
    rw [depth_add] at this
    omega

/-- The depth is nowhere negative if it is not so behind any entry. -/
theorem depth_nonneg_iff :
    (∀ n, 0 ≤ depth bracket as n) ↔ ∀ n, ¬ (n < as.length ∧ depth bracket as (n + 1) < 0) := by
  refine ⟨fun h n low => absurd (h (n + 1)) (not_le.2 low.2), fun h n => ?_⟩
  have inside (n : Nat) (le : n ≤ as.length) : 0 ≤ depth bracket as n := by
    cases n with
    | zero => simp
    | succ n => exact not_lt.1 fun low => h n ⟨le, low⟩
  rcases Nat.le_total n as.length with le | beyond
  · exact inside n le
  · rw [depth_of_length_le beyond]
    exact inside _ le_rfl

/-- The check stops at the first entry behind which the depth is negative. -/
theorem check_eq_unexpectedEnd_iff_depth :
    check bracket as = .error (.unexpectedEnd i) ↔
      IsLeast {n | n < as.length ∧ depth bracket as (n + 1) < 0} i := by
  have step := depth_succ bracket as i
  rw [check_eq_unexpectedEnd_iff, opens_eq_error_iff]
  constructor
  · rintro ⟨before, closing⟩
    obtain ⟨a, here, -⟩ := Option.bind_eq_some_iff.1 closing
    have inside : i < as.length := (List.getElem?_eq_some_iff.1 here).1
    obtain ⟨within, level⟩ := (balanced_take_iff inside.le).1 before
    rw [closing, rise] at step
    refine ⟨⟨inside, by omega⟩, fun n lower => ?_⟩
    by_contra earlier
    have := lower.2
    have := within (n + 1) (by omega)
    omega
  · rintro ⟨⟨inside, low⟩, least⟩
    -- What is before the least such entry is balanced, as the depth falls by one at most.
    have within (n : Nat) (le : n ≤ i) : 0 ≤ depth bracket as n := by
      cases n with
      | zero => simp
      | succ n =>
        by_contra lower
        have : i ≤ n := least ⟨by omega, by omega⟩
        omega
    have before := within i le_rfl
    rcases side : as[i]?.bind bracket with _ | _ | _
    all_goals rw [side, rise] at step
    · omega
    · omega
    · exact ⟨(balanced_take_iff inside.le).2 ⟨within, by omega⟩, rfl⟩

/-- The entry at `i` opens a loop, and all that follows is deeper than what is before it. -/
structure Deepens (bracket : α → Option Bracket) (as : List α) (i : Nat) : Prop where
  opening : as[i]?.bind bracket = some .opening
  deeper : ∀ n, i < n → depth bracket as i < depth bracket as n

theorem Deepens.lt_length (h : Deepens bracket as i) : i < as.length := by
  obtain ⟨a, here, -⟩ := Option.bind_eq_some_iff.1 h.opening
  exact (List.getElem?_eq_some_iff.1 here).1

/-- The start that a check blames is the last one that deepens the sequence to its end. -/
theorem Blames.isGreatest (h : Blames bracket as (.missingEnd i)) :
    IsGreatest {n | Deepens bracket as n} i := by
  cases h with
  | missingEnd within opening after =>
    obtain ⟨a, here, -⟩ := Option.bind_eq_some_iff.1 opening
    have inside : i < as.length := (List.getElem?_eq_some_iff.1 here).1
    obtain ⟨high, even⟩ := (balanced_drop_iff (i := i + 1) inside).1 after
    have step := depth_succ bracket as i
    rw [opening, rise] at step
    refine ⟨⟨opening, fun n behind => ?_⟩, fun j deepens => ?_⟩
    · have := high n behind
      omega
    -- Behind the blamed start all is closed, so nothing deepens the sequence to its end.
    · by_contra later
      have := deepens.deeper as.length deepens.lt_length
      have := high j (by omega)
      omega

/-- A start is missing its end exactly if nothing is closed that is not open, and the start is the
last one that deepens the sequence to its end. -/
theorem check_eq_missingEnd_iff_depth :
    check bracket as = .error (.missingEnd i) ↔
      (∀ n, 0 ≤ depth bracket as n) ∧ IsGreatest {n | Deepens bracket as n} i := by
  constructor
  · intro h
    have blamed := check_eq_error_iff.1 h
    refine ⟨fun n => ?_, blamed.isGreatest⟩
    cases blamed with
    | missingEnd within =>
      have := within n
      unfold depth
      omega
  · rintro ⟨within, greatest⟩
    rcases check_cases bracket as with ⟨closed, -⟩ | ⟨j, -, -, refused⟩ | ⟨j, -, refused⟩
    · have even := (balanced_iff_depth.1 (balanced_iff.2 closed)).2
      have deeper := greatest.1.deeper as.length greatest.1.lt_length
      have := within i
      omega
    · rwa [greatest.unique (check_eq_error_iff.1 refused).isGreatest]
    · have low := (check_eq_unexpectedEnd_iff_depth.1 refused).1.2
      have := within (j + 1)
      omega

/-! ## Counting -/

theorem count_opening (starts ends : α → Bool) (as : List α) :
    count (ofTests starts ends) .opening as = as.countP starts := by
  refine List.countP_congr fun a _ => ?_
  unfold ofTests
  split_ifs <;> simp_all

theorem count_closing (disjoint : ∀ a, starts a = true → ends a = false) (as : List α) :
    count (ofTests starts ends) .closing as = as.countP ends := by
  refine List.countP_congr fun a _ => ?_
  have := disjoint a
  unfold ofTests
  split_ifs <;> simp_all

theorem depth_eq_countP (disjoint : ∀ a, starts a = true → ends a = false) (as : List α) (n : Nat) :
    depth (ofTests starts ends) as n = (as.take n).countP starts - (as.take n).countP ends := by
  rw [depth, count_opening, count_closing disjoint]

theorem overclosed_iff (disjoint : ∀ a, starts a = true → ends a = false) :
    Overclosed starts ends as n ↔ n < as.length ∧ depth (ofTests starts ends) as (n + 1) < 0 := by
  refine and_congr_right fun _ => ?_
  rw [depth_eq_countP disjoint]
  omega

theorem deepens_iff_unclosed (disjoint : ∀ a, starts a = true → ends a = false) :
    Deepens (ofTests starts ends) as i ↔ Unclosed starts ends as i := by
  have side : as[i]?.bind (ofTests starts ends) = some .opening ↔ as[i]?.any starts = true := by
    cases as[i]? with
    | none => simp
    | some a =>
      simp only [Option.bind_some, Option.any_some, ofTests]
      split_ifs <;> simp_all
  have step := depth_succ (ofTests starts ends) as i
  have part (k : Nat) (behind : i < k) : depth (ofTests starts ends) as (k + 1) =
      depth (ofTests starts ends) as (i + 1) +
        (((as.take (k + 1)).drop (i + 1)).countP starts -
          ((as.take (k + 1)).drop (i + 1)).countP ends) := by
    have few : ((as.take (k + 1)).drop (i + 1)).length ≤ k + 1 - (i + 1) := by
      rw [List.length_drop, List.length_take]
      omega
    rw [Matches.depth_part (i := i) (j := k + 1) _ as (by omega) le_rfl,
      depth_eq_countP disjoint (List.drop _ _), List.take_of_length_le few]
  constructor
  · rintro ⟨opening, deeper⟩
    rw [opening, rise] at step
    refine ⟨side.1 opening, fun k behind => ?_⟩
    have := deeper (k + 1) (by omega)
    have := part k behind
    omega
  · rintro ⟨opening, after⟩
    rw [side.2 opening, rise] at step
    refine ⟨side.2 opening, fun n behind => ?_⟩
    obtain ⟨k, rfl⟩ := Nat.exists_eq_add_one_of_ne_zero (Nat.ne_zero_of_lt behind)
    rcases Nat.eq_or_lt_of_le (Nat.le_of_lt_succ behind) with rfl | further
    · omega
    · have := part k further
      have := after k further
      omega

/-- The verdict on any sequence, whose starts and ends are told by two tests that exclude each
other. It is accepted exactly if its boundaries spell a balanced word. An end is refused exactly if
it is the first entry up to which there are more ends than starts. A start is refused exactly if
there is no such entry and it is the last start behind which there are never more ends than starts.
There is no other reason to refuse a sequence. -/
theorem check_decides (disjoint : ∀ a, starts a = true → ends a = false) (as : List α) :
    (check (ofTests starts ends) as = .ok () ↔ Word (as.filterMap (ofTests starts ends))) ∧
    (∀ i, check (ofTests starts ends) as = .error (.unexpectedEnd i) ↔
      IsLeast {n | Overclosed starts ends as n} i) ∧
    (∀ i, check (ofTests starts ends) as = .error (.missingEnd i) ↔
      (∀ n, ¬ Overclosed starts ends as n) ∧ IsGreatest {n | Unclosed starts ends as n} i) ∧
    ∀ e, check (ofTests starts ends) as = .error e →
      ∃ i, e = .unexpectedEnd i ∨ e = .missingEnd i := by
  refine ⟨?_, fun i => ?_, fun i => ?_, fun e refused => ?_⟩
  · rw [word_filterMap_iff, balanced_iff]
    exact check_eq_ok_iff
  · simp only [overclosed_iff disjoint]
    exact check_eq_unexpectedEnd_iff_depth
  · simp only [overclosed_iff disjoint, ← depth_nonneg_iff, ← deepens_iff_unclosed disjoint]
    exact check_eq_missingEnd_iff_depth
  · cases check_eq_error_iff.1 refused with
    | unexpectedEnd => exact ⟨_, .inl rfl⟩
    | missingEnd => exact ⟨_, .inr rfl⟩

/-- Whatever tells the boundaries of a sequence can be put as two tests. -/
theorem ofTests_eq (bracket : α → Option Bracket) :
    ofTests (fun a => bracket a == some .opening) (fun a => bracket a == some .closing) =
      bracket := by
  funext a
  rcases side : bracket a with _ | _ | _ <;> simp [ofTests, side]

/-- The second of three starts is blamed, as the loop of the third one is closed. -/
theorem check_decides_before_loop :
    let cs : List Command := [.loopStart, .loopStart, .output, .loopStart, .loopEnd]
    let starts (c : Command) := c.bracket == some .opening
    let ends (c : Command) := c.bracket == some .closing
    (∀ c, starts c = true → ends c = false) ∧
      check Command.bracket cs = .error (.missingEnd 1) ∧
      IsGreatest {n | Unclosed starts ends cs n} 1 := by
  intro cs starts ends
  have disjoint (c : Command) (opening : starts c = true) : ends c = false := by
    simp [ends, beq_iff_eq.1 opening]
  have refused : check Command.bracket cs = .error (.missingEnd 1) := rfl
  obtain ⟨-, -, missing, -⟩ := check_decides disjoint cs
  rw [ofTests_eq] at missing
  exact ⟨disjoint, refused, ((missing 1).1 refused).2⟩

end Bracket

end ByteTape
