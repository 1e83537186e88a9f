import ByteTape.Proofs.Closing
import ByteTape.Proofs.Folding.Acceptance
import ByteTape.Proofs.Paired

/-!
# Loops and their places in the folding

Which loop end belongs to which loop start is found out three times: by the scans over the commands,
one to the right and one to the left, and by the folding pass, which fills in a loop start when it
comes to an end. They agree. Whatever is folded away in and around a loop, its boundaries stand in
the folding at the positions that the commands before them fold to, and they name each other.
-/

namespace ByteTape

open Command Instruction

/-! ## What a command does to the boundaries -/

section Boundaries

variable {is js : List Instruction} {x y z : Instruction} {n : Nat}

theorem getElem?_concat_iff :
    (is ++ [y])[n]? = some x ↔ is[n]? = some x ∨ n = is.length ∧ x = y := by
  grind

/-- An instruction in the middle of a list is exchanged. -/
theorem getElem?_exchange_iff (ne : x ≠ z) :
    (is ++ y :: js)[n]? = some x ↔ (is ++ z :: js)[n]? = some x ∨ n = is.length ∧ x = y := by
  grind

/-- At the end of a list an instruction without a target adds no boundary that has one. -/
theorem getElem?_concat_iff_of_ne (targeted : x.target? ≠ none) (untargeted : y.target? = none) :
    (is ++ [y])[n]? = some x ↔ is[n]? = some x := by
  have other : x ≠ y := fun same => targeted (same ▸ untargeted)
  simp [getElem?_concat_iff, other]

theorem Motion.Extends.getElem?_iff {m : Motion} (change : m.Extends is js)
    (targeted : x.target? ≠ none) : js[n]? = some x ↔ is[n]? = some x := by
  have run (ks : List Instruction) (k : Motion) (count : Nat) :
      (ks ++ [counted k count])[n]? = some x ↔ ks[n]? = some x :=
    getElem?_concat_iff_of_ne targeted rfl
  cases change with
  | grow is room | shrink is several => exact (run ..).trans (run ..).symm
  | vanish is single => exact (run ..).symm
  | start is full free => exact run ..

namespace Folding.Advance

variable {c : Command} {opened opened' : List Nat}

/-- A command that closes no loop leaves all boundaries alone that have a target. -/
theorem getElem?_iff (step : Advance c is opened js opened') (other : c ≠ .loopEnd)
    (targeted : x.target? ≠ none) : js[n]? = some x ↔ is[n]? = some x := by
  cases step with
  | motion change => exact change.getElem?_iff targeted
  | output | input | loopStart => exact getElem?_concat_iff_of_ne targeted rfl
  | loopEnd => exact absurd rfl other

/-- A loop end gives a target to the start of the innermost open loop, and itself comes last. -/
theorem getElem?_iff_of_loopEnd {start : Nat} {outer : List Nat}
    (step : Advance .loopEnd is (start :: outer) js opened') (targeted : x.target? ≠ none) :
    js[n]? = some x ↔ is[n]? = some x ∨ n = start ∧ x = .loopStart (some (is.length : Int)) ∨
      n = is.length ∧ x = .loopEnd (start : Int) := by
  cases step with
  | loopEnd is ks =>
    have unresolved : x ≠ .loopStart none := by
      rintro rfl
      exact targeted rfl
    have length : (is ++ .loopStart none :: ks).length = is.length + (ks.length + 1) := by simp
    have exchanged (stop : Int) : (is ++ .loopStart (some stop) :: ks).length =
        is.length + (ks.length + 1) := by simp
    rw [getElem?_concat_iff, getElem?_exchange_iff unresolved, length, exchanged, or_assoc]

end Folding.Advance

end Boundaries

/-! ## Loops of the commands in the instructions -/

/-- A loop of the commands, between the positions `i` and `j`, has its boundaries at `k` and `l` in
the instructions, and each of them names the other one. -/
structure LoopPlaced (cs : List Command) (is : List Instruction) (i j k l : Nat) : Prop where
  start : FoldsAt cs i k
  stop : FoldsAt cs j l
  opening : is[k]? = some (.loopStart (some (l : Int)))
  closing : is[l]? = some (.loopEnd (k : Int))

/-- The instructions have the loops that are closed in the commands, and name no other targets. -/
structure LoopsPlaced (cs : List Command) (is : List Instruction) : Prop where
  placed : ∀ i j, Bracket.Closes Command.bracket cs i j → ∃ k l, LoopPlaced cs is i j k l
  only : ∀ n x, is[n]? = some x → x.target? ≠ none →
    ∃ i j k l, Bracket.Closes Command.bracket cs i j ∧ LoopPlaced cs is i j k l ∧ (n = k ∨ n = l)

variable {cs : List Command} {is js : List Instruction} {c : Command}

/-- The commands before a position fold to one number of instructions. -/
theorem FoldsAt.unique {i k l : Nat} (h : FoldsAt cs i k) (h' : FoldsAt cs i l) : k = l := by
  obtain ⟨-, is, fold, rfl⟩ := h
  obtain ⟨-, js, fold', rfl⟩ := h'
  exact congrArg Array.size (Except.ok.inj (fold.symm.trans fold'))

/-- A loop stays in its place as long as the boundaries do. -/
theorem LoopPlaced.concat {i j k l : Nat} (h : LoopPlaced cs is i j k l)
    (kept : ∀ (n : Nat) (x : Instruction), x.target? ≠ none → is[n]? = some x → js[n]? = some x) :
    LoopPlaced (cs ++ [c]) js i j k l where
  start := h.start.append [c]
  stop := h.stop.append [c]
  opening := kept _ _ nofun h.opening
  closing := kept _ _ nofun h.closing

namespace LoopsPlaced

theorem nil : LoopsPlaced [] [] where
  placed i j closes := by
    have := closes.matches.lt_length
    simp at this
  only n x hx := by simp at hx

/-- A command that closes no loop keeps the loops in their places. -/
theorem concat (h : LoopsPlaced cs is) {opened opened' : List Nat}
    (step : Folding.Advance c is opened js opened') (other : c ≠ .loopEnd) :
    LoopsPlaced (cs ++ [c]) js := by
  have same (i j : Nat) : Bracket.Closes Command.bracket (cs ++ [c]) i j ↔
      Bracket.Closes Command.bracket cs i j := by
    have plain : Command.bracket c ≠ some .closing := by
      cases c <;> simp_all [Command.bracket, Command.operation, Operation.bracket]
    simp [Bracket.closes_concat_iff, plain]
  have kept (n : Nat) (x : Instruction) (targeted : x.target? ≠ none) (hx : is[n]? = some x) :
      js[n]? = some x := (step.getElem?_iff other targeted).2 hx
  refine ⟨?_, ?_⟩
  · intro i j closes
    obtain ⟨k, l, loop⟩ := h.placed i j ((same i j).1 closes)
    exact ⟨k, l, loop.concat kept⟩
  · intro n x hx targeted
    obtain ⟨i, j, k, l, closes, loop, here⟩ :=
      h.only n x ((step.getElem?_iff other targeted).1 hx) targeted
    exact ⟨i, j, k, l, (same i j).2 closes, loop.concat kept, here⟩

/-- A loop end places the loop that it closes. -/
theorem concat_loopEnd (h : LoopsPlaced cs is) {i k : Nat} {before outer opened' : List Nat}
    (reached : Bracket.opens Command.bracket 0 [] cs = .ok (i :: before))
    (step : Folding.Advance .loopEnd is (k :: outer) js opened')
    (start : FoldsAt (cs ++ [.loopEnd]) i k)
    (stop : FoldsAt (cs ++ [.loopEnd]) cs.length is.length) :
    LoopsPlaced (cs ++ [.loopEnd]) js := by
  have kept (n : Nat) (x : Instruction) (targeted : x.target? ≠ none) (hx : is[n]? = some x) :
      js[n]? = some x := (step.getElem?_iff_of_loopEnd targeted).2 (.inl hx)
  have opening : js[k]? = some (.loopStart (some (is.length : Int))) :=
    (step.getElem?_iff_of_loopEnd (by simp [target?])).2 (.inr (.inl ⟨rfl, rfl⟩))
  have closing : js[is.length]? = some (.loopEnd (k : Int)) :=
    (step.getElem?_iff_of_loopEnd (by simp [target?])).2 (.inr (.inr ⟨rfl, rfl⟩))
  have new : LoopPlaced (cs ++ [.loopEnd]) js i cs.length k is.length :=
    ⟨start, stop, opening, closing⟩
  have closes : Bracket.Closes Command.bracket (cs ++ [.loopEnd]) i cs.length :=
    Bracket.closes_concat_iff.2 (.inr ⟨rfl, rfl, before, reached⟩)
  refine ⟨?_, ?_⟩
  · intro i' j closes'
    rcases Bracket.closes_concat_iff.1 closes' with old | ⟨rfl, -, outer', reached'⟩
    · obtain ⟨k', l', loop⟩ := h.placed i' j old
      exact ⟨k', l', loop.concat kept⟩
    · obtain ⟨rfl, -⟩ := List.cons.inj (Except.ok.inj (reached.symm.trans reached'))
      exact ⟨k, is.length, new⟩
  · intro n x hx targeted
    rcases (step.getElem?_iff_of_loopEnd targeted).1 hx with old | ⟨here, -⟩ | ⟨here, -⟩
    · obtain ⟨i', j, k', l', old, loop, here⟩ := h.only n x old targeted
      exact ⟨i', j, k', l', Bracket.closes_concat_iff.2 (.inl old), loop.concat kept, here⟩
    · exact ⟨i, cs.length, k, is.length, closes, new, .inl here⟩
    · exact ⟨i, cs.length, k, is.length, closes, new, .inr here⟩

end LoopsPlaced

/-- A folding pass places the loops that are closed in the commands. -/
theorem Folding.loopsPlaced_of_run {opened : List Nat} {s : Folding}
    (reached : Bracket.opens Command.bracket 0 [] cs = .ok opened) (h : run cs = .ok s) :
    LoopsPlaced cs s.output.toList := by
  induction cs using List.reverseRecOn generalizing opened s with
  | nil =>
    obtain rfl : {} = s := by simpa using h
    exact .nil
  | append_singleton cs c ih =>
    rw [Bracket.opens_append, Nat.zero_add] at reached
    obtain ⟨before, ho, check⟩ := bind_eq_ok_iff.1 reached
    obtain ⟨t, ht, matched⟩ := exists_run_of_opens ho
    rw [run_concat, ht] at h
    have step := advance_of_step (pending_of_run ht) h
    by_cases closes : c = .loopEnd
    · subst closes
      have last := foldsAt_length ht .loopEnd
      rw [← Array.length_toList] at last
      generalize t.opened = open' at step matched
      cases matched with
      | nil => cases check
      | cons place rest => exact (ih ho ht).concat_loopEnd ho step (place.append _) last
    · exact (ih ho ht).concat step closes

/-! ## What the scans find -/

namespace Code

variable {cs : List Command} {i j : Nat}

theorem operation?_of_bracket {side : Bracket} (h : cs[i]?.bind Command.bracket = some side) :
    (raw cs.toArray).operation? i = some (.boundary side) := by
  obtain ⟨c, hc, boundary⟩ := Option.bind_eq_some_iff.1 h
  have asks : c.operation = .boundary side := by
    cases c <;> simp_all [Command.bracket, Command.operation, Operation.bracket]
  simp [operation?, hc, asks]

/-- The two scans find the boundaries that match. -/
theorem pairs_of_matches (h : Bracket.Matches Command.bracket cs i j) :
    (raw cs.toArray).Pairs i j := by
  obtain ⟨body, hb, -⟩ := Block.existsUnique_of_balanced h.inside
  have width : i + 1 + body.operations.length = j := by
    have lt := h.lt
    have inside := h.lt_length
    rw [hb, List.length_map, List.length_drop, List.length_take]
    omega
  have inside : (raw cs.toArray).Has (i + 1) body.operations := by
    refine along_iff.2 fun k op hk => ?_
    rw [hb, List.getElem?_map, List.getElem?_drop, List.getElem?_take] at hk
    split at hk
    · simpa [operation?] using hk
    · cases hk
  have stop := operation?_of_bracket h.closing
  rw [← width] at stop ⊢
  exact pairs_raw (operation?_of_bracket h.opening) inside stop

/-- A loop end that is the partner of a loop start closes it. -/
theorem Pairs.closes (h : (raw cs.toArray).Pairs i j)
    (balanced : Bracket.Balanced Command.bracket cs) : Bracket.Closes Command.bracket cs i j := by
  have closing : cs[j]?.bind Command.bracket = some .closing := by
    obtain ⟨c, hc, asks⟩ := Option.map_eq_some_iff.1 h.closing
    rw [List.getElem?_toArray] at hc
    simp [hc, Command.bracket, asks, Operation.bracket]
  obtain ⟨i', closes⟩ := Bracket.exists_closes balanced closing
  obtain rfl := Except.ok.inj (h.start.symm.trans (pairs_of_matches closes.matches).start)
  exact closes

end Code

/-- The targets in a folding are the partners that the scans find. In accepted commands the scan to
the right finds an end for every loop start, with balanced commands in between, and from there the
scan to the left finds back. In the folding both boundaries stand at what the commands before them
fold to and name each other, and there are no other boundaries. -/
theorem Program.fold?_keeps_partners {cs : List Command} {p : Program} (h : ofCommands cs = .ok p) :
    ∃ is, fold? cs = .ok is ∧
      (∀ i, cs[i]? = some .loopStart →
        ∃ j k l : Nat, p.code.partner i .opening = .ok j ∧ p.code.partner j .closing = .ok i ∧
          i < j ∧ cs[j]? = some .loopEnd ∧
          Bracket.Balanced Command.bracket ((cs.take j).drop (i + 1)) ∧
          FoldsAt cs i k ∧ is[k]? = some (.loopStart (some (l : Int))) ∧
          FoldsAt cs j l ∧ is[l]? = some (.loopEnd (k : Int))) ∧
      ∀ n x, is[n]? = some x → x.bracket ≠ none →
        ∃ i j, cs[i]? = some .loopStart ∧ p.code.partner i .opening = .ok j ∧
          (FoldsAt cs i n ∨ FoldsAt cs j n) := by
  have reached := exists_ofCommands_iff.1 ⟨p, h⟩
  have balanced := Bracket.balanced_iff.2 reached
  have code : p.code = .raw cs.toArray := ofCode_code h
  obtain ⟨s, hs, matched⟩ := Folding.exists_run_of_opens reached
  have loops := Folding.loopsPlaced_of_run reached hs
  have accepted : (Code.folded s.output).check = .ok () := by
    have layout := layout_of_run hs
    rw [List.forall₂_nil_left_iff.1 matched] at layout
    exact layout.linked.check
  refine ⟨s.output, Folding.fold?_of_run hs, ?_, ?_⟩
  · intro i hi
    have opening : p.code.operation? i = some (.boundary .opening) :=
      code ▸ Code.operation?_of_bracket (by rw [hi]; rfl)
    obtain ⟨j, pairs⟩ := p.paired.stop i opening
    have scanned : (Code.raw cs.toArray).Pairs i j := code ▸ pairs
    have closes := scanned.closes balanced
    obtain ⟨k, l, loop⟩ := loops.placed i j closes
    refine ⟨j, k, l, pairs.stop, pairs.start, closes.matches.lt, ?_, closes.matches.inside,
      loop.start, by simpa using loop.opening, loop.stop, by simpa using loop.closing⟩
    simpa using Command.getElem?_of_operation?_closing scanned.closing
  · intro n x hx boundary
    obtain ⟨side, hside⟩ := Option.ne_none_iff_exists'.1 boundary
    obtain ⟨target, ht⟩ := exists_target hside (Code.targetAgrees_of_check accepted hx)
    obtain ⟨i, j, k, l, closes, loop, here⟩ := loops.only n x (by simpa using hx) (by simp [ht])
    have pairs := Code.pairs_of_matches closes.matches
    refine ⟨i, j, ?_, code ▸ pairs.stop, ?_⟩
    · simpa using Command.getElem?_of_operation?_opening pairs.opening
    · rcases here with rfl | rfl
      · exact .inl loop.start
      · exact .inr loop.stop

/-- In `[+-[-]]` the loop at position 3 ends at position 5. Its boundaries have the indices 1 and 3
in the folding. -/
theorem Program.fold?_keeps_partners_inside :
    let cs : List Command := [.loopStart, .motion .increment, .motion .decrement, .loopStart,
      .motion .decrement, .loopEnd, .loopEnd]
    ∃ p is, ofCommands cs = .ok p ∧ fold? cs = .ok is ∧ p.code.partner 3 .opening = .ok 5 ∧
      is[1]? = some (.loopStart (some 3)) ∧ is[3]? = some (.loopEnd 1) := by
  intro cs
  obtain ⟨p, hp⟩ : ∃ p, ofCommands cs = .ok p := exists_ofCommands_iff.2 rfl
  obtain ⟨is, fold, loops, -⟩ := fold?_keeps_partners hp
  obtain ⟨j, k, l, stop, -, -, -, -, start, opening, last, closing⟩ := loops 3 rfl
  obtain rfl : j = 5 := by
    have found : p.code.partner 3 .opening = .ok 5 := ofCode_code hp ▸ rfl
    exact Except.ok.inj (stop.symm.trans found)
  obtain rfl : k = 1 := start.unique ⟨by decide, _, rfl, rfl⟩
  obtain rfl : l = 3 := last.unique ⟨by decide, _, rfl, rfl⟩
  exact ⟨p, is, hp, fold, stop, opening, closing⟩

end ByteTape
