import ByteTape.Proofs.Closing
import ByteTape.Proofs.Folding.Acceptance

/-!
# Normal forms of folded instructions

Instructions are in normal form when no neighbours could be merged, nothing is closed that is not
open, and the boundaries of the loops name each other and nothing else. Folding yields these and no
others: instructions of a normal form, expanded to commands and folded again, come back unchanged,
and all others come back changed or not at all.

## Main definitions

* `Instruction.Normal`: the normal form, told of the instructions alone.
-/

namespace ByteTape

open Instruction

namespace Instruction

/-- The normal form. Runs that could be merged stand side by side only where the first is full, and
loops that stay open name no end. -/
structure Normal (is : List Instruction) : Prop where
  settled : is.IsChain Settled
  within : ∀ n, Bracket.count bracket .closing (is.take n) ≤
    Bracket.count bracket .opening (is.take n)
  matched : ∀ i j, Bracket.Matches bracket is i j →
    is[i]? = some (loopStart (some (j : Int))) ∧ is[j]? = some (loopEnd (i : Int))
  unmatched : ∀ i stop, is[i]? = some (loopStart stop) →
    (∀ j, ¬ Bracket.Matches bracket is i j) → stop = none

theorem within_iff {is : List Instruction} :
    (∀ n, Bracket.count bracket .closing (is.take n) ≤
      Bracket.count bracket .opening (is.take n)) ↔
      ∃ opened, Bracket.opens bracket 0 [] is = .ok opened := by
  simp [Bracket.exists_opens_iff]

/-! ## Folding yields normal forms -/

/-- A loop boundary at index `k` names the one that it matches. Nothing is asked of the starts of
open loops. -/
def Partnered (is : List Instruction) (k : Nat) : Instruction → Prop
  | loopStart (some stop) => ∃ j : Nat, stop = j ∧ Bracket.Matches bracket is k j
  | loopEnd start => ∃ i : Nat, start = i ∧ is[i]? = some (loopStart (some (k : Int))) ∧
      Bracket.Matches bracket is i k
  | _ => True

theorem partnered_of_plain {x : Instruction} (plain : x.bracket = none) (is : List Instruction)
    (k : Nat) : Partnered is k x := by
  cases x with
  | loopStart | loopEnd => cases plain
  | _ => trivial

/-- The boundaries of a linked piece name their partners wherever the piece stands. -/
theorem Linked.partnered {i : Nat} {js : List Instruction} (h : Linked i js)
    {is : List Instruction} (placed : Along (fun k x => is[k]? = some x) i js) :
    Along (Partnered is) i js := by
  induction h with
  | nil => trivial
  | concat before plain ih =>
    rw [along_append] at placed ⊢
    exact ⟨ih placed.1, partnered_of_plain plain is _, trivial⟩
  | @loop i js ks before body ih ihBody =>
    simp only [along_append, along_cons, along_nil, and_true, List.length_append,
      List.length_cons] at placed ⊢
    obtain ⟨⟨outside, start, inside⟩, stop⟩ := placed
    have loop : Bracket.Matches bracket is (i + js.length) (i + (js.length + (ks.length + 1))) := by
      refine ⟨by omega, ?_, ?_, ?_⟩
      · rw [start]
        rfl
      · rw [stop]
        rfl
      · have width : i + (js.length + (ks.length + 1)) = i + js.length + 1 + ks.length := by omega
        rw [width, drop_take_of_along inside]
        exact Bracket.balanced_iff.2 (body.opens 0 [])
    refine ⟨⟨ih outside, ⟨_, ?_, loop⟩, ihBody inside⟩, ⟨_, rfl, ?_, loop⟩⟩
    · rw [Nat.add_assoc]
    · rw [start, Nat.add_assoc]

/-- Where loops are open, the boundaries of the others name their partners. -/
theorem Layout.along_partnered {js : List Instruction} {opened : List Nat} (h : Layout js opened)
    {is : List Instruction} (placed : Along (fun k x => is[k]? = some x) 0 js) :
    Along (Partnered is) 0 js := by
  induction h with
  | closed linked => exact linked.partnered placed
  | @opened js ks outer before inside ih =>
    simp only [along_append, along_cons, Nat.zero_add] at placed ⊢
    obtain ⟨outside, -, behind⟩ := placed
    exact ⟨ih outside, trivial, inside.partnered behind⟩

theorem Layout.partnered {is : List Instruction} {opened : List Nat} (h : Layout is opened)
    {k : Nat} {x : Instruction} (hx : is[k]? = some x) : Partnered is k x := by
  have placed : Along (fun k x => is[k]? = some x) 0 is :=
    along_iff.2 fun k x hx => by rwa [Nat.zero_add]
  simpa using along_iff.1 (h.along_partnered placed) k x hx

/-- Instructions laid out around open loops are in normal form if they are compact. -/
theorem Layout.normal {is : List Instruction} {opened : List Nat} (h : Layout is opened)
    (compact : Compact is) : Normal is := by
  refine ⟨compact.settled, within_iff.2 ⟨opened, h.opens⟩, ?_, ?_⟩
  · intro i j loop
    obtain ⟨x, hx, closing⟩ := Option.bind_eq_some_iff.1 loop.closing
    cases x with
    | loopEnd start =>
      obtain ⟨i', rfl, found, loop'⟩ := h.partnered hx
      obtain rfl := loop.left_unique loop'
      exact ⟨found, hx⟩
    | _ => cases closing
  · intro i stop hx alone
    cases stop with
    | none => rfl
    | some stop =>
      obtain ⟨j, -, loop⟩ := h.partnered hx
      exact absurd loop (alone j)

theorem normal_of_fold? {cs : List Command} {is : Array Instruction} (h : fold? cs = .ok is) :
    Normal is.toList := by
  obtain ⟨s, hs, rfl⟩ := run_of_fold? h
  exact (layout_of_run hs).normal (compact_of_run hs)

/-! ## Normal forms by what they ask for -/

/-- Loops of instructions can be read off what they ask for. -/
theorem matches_iff_operation {is : List Instruction} {i j : Nat} :
    Bracket.Matches bracket is i j ↔
      Bracket.Matches Operation.bracket (is.map Instruction.operation) i j :=
  (Bracket.matches_map Instruction.operation).symm

theorem opens_operation (is : List Instruction) (index : Nat) (opened : List Nat) :
    Bracket.opens bracket index opened is =
      Bracket.opens Operation.bracket index opened (is.map Instruction.operation) :=
  (Bracket.opens_map Instruction.operation index opened is).symm

theorem eq_of_operation_eq {x y : Instruction} (asks : y.operation = x.operation)
    (plain : x.bracket = none) : y = x := by
  cases x <;> cases y <;> simp_all [Instruction.operation]

/-- An instruction that is no run stands for one command. -/
theorem exists_command {x : Instruction} (single : ∀ m n, x ≠ counted m n) :
    ∃ c : Command, x.commands = [c] ∧ (∀ m, c ≠ .motion m) ∧ c.operation = x.operation := by
  cases x with
  | counted m n => exact absurd rfl (single m n)
  | output => exact ⟨.output, rfl, by simp, rfl⟩
  | input => exact ⟨.input, rfl, by simp, rfl⟩
  | loopStart stop => exact ⟨.loopStart, rfl, by simp, rfl⟩
  | loopEnd start => exact ⟨.loopEnd, rfl, by simp, rfl⟩

/-- Normal forms that ask for the same are equal. -/
theorem Normal.eq_of_operations {is js : List Instruction} (h : Normal is) (h' : Normal js)
    (same : is.map Instruction.operation = js.map Instruction.operation) : is = js := by
  have loops (i j : Nat) : Bracket.Matches bracket is i j ↔ Bracket.Matches bracket js i j := by
    rw [matches_iff_operation, same, ← matches_iff_operation]
  refine List.ext_getElem? fun k => ?_
  have here : is[k]?.map Instruction.operation = js[k]?.map Instruction.operation := by
    rw [← List.getElem?_map, same, List.getElem?_map]
  cases hx : is[k]? with
  | none =>
    rw [hx] at here
    exact (Option.map_eq_none_iff.1 here.symm).symm
  | some x =>
    obtain ⟨y, hy, asks⟩ : ∃ y, js[k]? = some y ∧ y.operation = x.operation := by
      rw [hx] at here
      exact Option.map_eq_some_iff.1 here.symm
    rw [hy]
    cases x with
    | counted | output | input => rw [eq_of_operation_eq asks rfl]
    | loopStart stop =>
      obtain ⟨stop', rfl⟩ : ∃ stop', y = loopStart stop' := by
        cases y <;> simp_all [Instruction.operation]
      by_cases alone : ∀ j, ¬ Bracket.Matches bracket is k j
      · have alone' (j : Nat) : ¬ Bracket.Matches bracket js k j := (loops k j).not.1 (alone j)
        rw [h.unmatched k stop hx alone, h'.unmatched k stop' hy alone']
      · obtain ⟨j, loop⟩ := not_forall_not.1 alone
        rw [← hx, ← hy, (h.matched k j loop).1, (h'.matched k j ((loops k j).1 loop)).1]
    | loopEnd start =>
      obtain ⟨opened, whole⟩ := within_iff.1 h.within
      obtain ⟨i, closes⟩ := Bracket.exists_closes_of_opens whole (j := k) (by rw [hx]; rfl)
      have loop := closes.matches
      rw [← hx, ← hy, (h.matched i k loop).2, (h'.matched i k ((loops i k).1 loop)).2]

/-! ## Folding what a normal form stands for -/

theorem Settled.of_operation_eq {x x' y : Instruction} (h : Settled x y)
    (asks : x'.operation = x.operation) : Settled x' y := by
  cases y with
  | counted m n =>
    cases x' with
    | counted k l =>
      obtain rfl : x = counted k l := eq_of_operation_eq asks.symm rfl
      exact h
    | _ => trivial
  | _ => simp

end Instruction

namespace Folding

/-- A run that cannot be merged with what stands before it is folded to itself. -/
theorem exists_run_replicate {cs : List Command} {s : Folding} (h : run cs = .ok s) {m : Motion}
    {n : Nat} (least : 1 ≤ n) (most : n ≤ m.limit)
    (last : ∀ y ∈ s.output.toList.getLast?, Settled y (counted m n)) :
    ∃ t, run (cs ++ List.replicate n (.motion m)) = .ok t ∧
      t.output.toList = s.output.toList ++ [counted m n] := by
  induction n, least using Nat.le_induction with
  | base =>
    have idle := pending_of_run h
    obtain ⟨change, -⟩ := extends_of_move idle m
    refine ⟨(s.move m).flush, ?_, change.unique (.start _ ?_ ?_)⟩
    · rw [List.replicate_one, run_concat, h]
      rfl
    · intro n hn
      exact ((settled_counted.1 (last _ hn)) (.inl rfl)).2.ge
    · intro n hn
      obtain ⟨same, -⟩ := settled_counted.1 (last _ hn) (.inr rfl)
      exact absurd same m.opposite_ne
  | succ n least ih =>
    obtain ⟨t, ht, output⟩ := ih (by omega) fun y hy => (last y hy).recount n
    have idle := pending_of_run ht
    obtain ⟨change, -⟩ := extends_of_move idle m
    refine ⟨(t.move m).flush, ?_, ?_⟩
    · rw [List.replicate_succ', ← List.append_assoc, run_concat, ht]
      rfl
    · rw [output] at change
      exact change.unique (.grow _ most)

/-- A command that is no motion asks for the same as the instruction it becomes. -/
theorem Advance.map_operation {c : Command} {is js : List Instruction} {opened opened' : List Nat}
    (step : Advance c is opened js opened') (still : ∀ m, c ≠ .motion m) :
    js.map Instruction.operation = is.map Instruction.operation ++ [c.operation] := by
  cases step with
  | motion => exact absurd rfl (still _)
  | output | input | loopStart | loopEnd => simp [Instruction.operation, Command.operation]

/-- Compact instructions that close nothing that is not open are folded to instructions that ask for
the same. -/
theorem exists_run_expand {is : List Instruction} (compact : Compact is)
    (nested : ∃ opened, Bracket.opens bracket 0 [] is = .ok opened) :
    ∃ s, run (expand is) = .ok s ∧
      s.output.toList.map Instruction.operation = is.map Instruction.operation := by
  induction is using List.reverseRecOn with
  | nil => exact ⟨{}, rfl, rfl⟩
  | append_singleton is x ih =>
    obtain ⟨opened, whole⟩ := nested
    rw [Bracket.opens_append] at whole
    obtain ⟨before, reached, last⟩ := bind_eq_ok_iff.1 whole
    obtain ⟨s, hs, asks⟩ := ih compact.of_append ⟨before, reached⟩
    have idle := pending_of_run hs
    have layout := layout_of_run hs
    rw [expand_append, expand_cons, expand_nil, List.append_nil]
    by_cases counts : ∃ m n, x = counted m n
    · obtain ⟨m, n, rfl⟩ := counts
      obtain ⟨least, most⟩ := compact.inRange_last
      obtain ⟨t, ht, output⟩ := exists_run_replicate hs least most fun y hy => by
        have ends : s.output.toList.getLast?.map Instruction.operation =
            is.getLast?.map Instruction.operation := by
          rw [← List.getLast?_map, asks, List.getLast?_map]
        rw [Option.mem_def.1 hy] at ends
        obtain ⟨y', hy', same⟩ := Option.map_eq_some_iff.1 ends.symm
        exact (compact.getLast? y' hy').of_operation_eq same.symm
      exact ⟨t, ht, by rw [output, List.map_append, asks, List.map_append]⟩
    · obtain ⟨c, commands, still, same⟩ := exists_command fun m n h => counts ⟨m, n, h⟩
      obtain ⟨t, ht⟩ : ∃ t, s.step c = .ok t := by
        refine exists_step idle layout ?_
        rintro rfl closed
        -- The pass has the loops open that the instructions leave open, and `x` closes one of them.
        have closes : x.bracket = some .closing := by
          rw [bracket, ← same]
          rfl
        have left := layout.opens
        rw [opens_operation, asks, ← opens_operation, reached, closed] at left
        obtain rfl : before = [] := Except.ok.inj left
        simp [Bracket.opens, closes] at last
      refine ⟨t, ?_, ?_⟩
      · rw [commands, run_concat, hs]
        exact ht
      · rw [(advance_of_step idle ht).map_operation still, asks, same, List.map_append]
        rfl

end Folding

/-- The image of folding are the normal forms, and it is stable exactly there: folding what
instructions stand for gives them back just when they are in normal form. -/
theorem fold?_normal :
    (∀ cs is, fold? cs = .ok is → Normal is.toList) ∧
    (∀ is : List Instruction, (∀ x ∈ is, x.InRange) →
      (fold? (expand is) = .ok is.toArray ↔ Normal is)) ∧
    ∀ cs is, fold? cs = .ok is → fold? (expand is.toList) = .ok is := by
  have stable (is : List Instruction) (range : ∀ x ∈ is, x.InRange) :
      fold? (expand is) = .ok is.toArray ↔ Normal is := by
    constructor
    · intro h
      exact normal_of_fold? h
    · intro normal
      obtain ⟨s, hs, asks⟩ := Folding.exists_run_expand ⟨range, normal.settled⟩
        (within_iff.1 normal.within)
      have folds := Folding.fold?_of_run hs
      have same := (normal_of_fold? folds).eq_of_operations normal asks
      rw [folds, ← same]
  refine ⟨fun cs is h => normal_of_fold? h, stable, ?_⟩
  intro cs is h
  exact (stable is.toList (compact_of_fold? h).inRange).2 (normal_of_fold? h)

/-- A full run before another one, a closed loop and an open one. That an open loop names no end is
needed: with an end written down by hand it comes back without. -/
theorem fold?_normal_open :
    let is : List Instruction := [.counted .increment 255, .counted .increment 2,
      .loopStart (some 4), .counted .decrement 1, .loopEnd 2, .loopStart none]
    let cs : List Command := .motion .right :: .motion .left :: expand is
    fold? cs = .ok is.toArray ∧ fold? (expand is) = .ok is.toArray ∧ Normal is ∧
      ¬ Normal [.loopStart (some 7)] := by
  intro is cs
  have folds : fold? cs = .ok is.toArray := by decide +kernel
  have again : fold? (expand is) = .ok is.toArray := fold?_normal.2.2 cs is.toArray folds
  have range : ∀ x ∈ is, x.InRange := by decide
  have rangeOpen : ∀ x ∈ [Instruction.loopStart (some 7)], x.InRange := by decide
  refine ⟨folds, again, (fold?_normal.2.1 is range).1 again, ?_⟩
  intro normal
  have kept := (fold?_normal.2.1 _ rangeOpen).2 normal
  have lost : fold? (expand [.loopStart (some 7)]) = .ok #[.loopStart none] := by rfl
  rw [lost] at kept
  cases kept

end ByteTape
