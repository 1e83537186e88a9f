import ByteTape.Proofs.Folding.Normal

/-!
# What a folding pass keeps to

Between two commands the state of a folding pass is coherent. The open loops are the loop starts
that have not been resolved, all resolved boundaries name each other, and the growing run could not
be merged with the instruction before it. So a loop end always finds the start that it resolves as
it was left, and a pass fails for one reason only: there is a loop end, and no loop is open.
-/

namespace ByteTape

open Instruction

namespace Instruction

/-! ## Open loops -/

/-- Every loop of a linked piece is resolved. -/
theorem Linked.resolved {i : Nat} {is : List Instruction} (h : Linked i is) :
    loopStart none ∉ is := by
  induction h with
  | nil => exact List.not_mem_nil
  | concat before plain ih =>
    rw [List.mem_append, List.mem_singleton]
    rintro (inside | rfl)
    · exact ih inside
    · cases plain
  | loop before body ih ihBody => simp [ih, ihBody]

/-- The open loops are the unresolved loop starts. -/
theorem Layout.mem_iff {is : List Instruction} {opened : List Nat} (h : Layout is opened)
    {i : Nat} :
    i ∈ opened ↔ is[i]? = some (loopStart none) := by
  induction h with
  | closed linked =>
    exact iff_of_false List.not_mem_nil fun here => linked.resolved (List.mem_of_getElem? here)
  | @opened is js outer before inside ih =>
    rw [List.mem_cons]
    rcases Nat.lt_trichotomy i is.length with lt | rfl | gt
    · rw [List.getElem?_append_left lt, ← ih]
      exact or_iff_right lt.ne
    · simp
    · have outside : i ∉ outer := fun still =>
        absurd (List.getElem?_eq_some_iff.1 (ih.1 still)).1 (Nat.not_lt.2 gt.le)
      refine iff_of_false (not_or.2 ⟨gt.ne', outside⟩) fun here => ?_
      obtain ⟨k, rfl⟩ := Nat.exists_eq_add_of_lt gt
      rw [List.getElem?_append_right gt.le, show is.length + k + 1 - is.length = k + 1 by omega,
        List.getElem?_cons_succ] at here
      exact inside.resolved (List.mem_of_getElem? here)

/-- The indices of the open loops descend, innermost first. -/
theorem Layout.descending {is : List Instruction} {opened : List Nat} (h : Layout is opened) :
    opened.Pairwise (· > ·) := by
  induction h with
  | closed => exact .nil
  | opened before inside ih =>
    refine .cons (fun i hi => ?_) ih
    exact (List.getElem?_eq_some_iff.1 (before.mem_iff.1 hi)).1

end Instruction

namespace Folding

variable {s t e : Folding} {cs : List Command}

/-! ## Coherent states -/

/-- What the parts of a state have to do with each other. The loops are open innermost first. -/
structure Coherent (s : Folding) : Prop where
  descending : s.opened.Pairwise (· > ·)
  opened : ∀ i, i ∈ s.opened ↔ s.output[i]? = some (loopStart none)
  loopEnd : ∀ (j : Nat) start, s.output[j]? = some (.loopEnd start) →
    ∃ i : Nat, start = i ∧ i < j ∧ s.output[i]? = some (loopStart (some (j : Int)))
  loopStart : ∀ (i : Nat) stop, s.output[i]? = some (.loopStart (some stop)) →
    ∃ j : Nat, stop = j ∧ s.output[j]? = some (.loopEnd (i : Int))
  inRange : ∀ m n, s.pending = some (m, n) → 1 ≤ n ∧ n ≤ m.limit
  settled : ∀ m n k l, s.pending = some (m, n) → s.output.back? = some (counted k l) →
    m.sameAxis k → k = m ∧ l = m.limit

theorem toList_output_flush {m : Motion} {n : Nat} (growing : s.pending = some (m, n)) :
    s.flush.output.toList = s.output.toList ++ [counted m n] := by
  rw [flush, growing]
  exact Array.toList_push

/-- The layout and the compactness of the instructions do not depend on the growing run. -/
theorem layout_and_compact_of_flush (layout : Layout s.flush.output.toList s.opened)
    (compact : Compact s.flush.output.toList) :
    Layout s.output.toList s.opened ∧ Compact s.output.toList := by
  cases growing : s.pending with
  | none =>
    rw [flush_of_pending_eq_none growing] at layout compact
    exact ⟨layout, compact⟩
  | some run =>
    rw [toList_output_flush growing] at layout compact
    exact ⟨layout.of_concat rfl, compact.of_append⟩

/-- A state is coherent if its instructions would be laid out and compact with the growing run. -/
theorem coherent_of_flush (layout : Layout s.flush.output.toList s.opened)
    (compact : Compact s.flush.output.toList) : s.Coherent := by
  obtain ⟨before, compactBefore⟩ := layout_and_compact_of_flush layout compact
  have normal := before.normal compactBefore
  refine ⟨before.descending, fun i => ?_, fun j start here => ?_, fun i stop here => ?_, ?_, ?_⟩
  · rw [before.mem_iff, Array.getElem?_toList]
  · rw [← Array.getElem?_toList] at here
    obtain ⟨i, named, found, loop⟩ := before.partnered here
    exact ⟨i, named, loop.lt, by rwa [Array.getElem?_toList] at found⟩
  · rw [← Array.getElem?_toList] at here
    obtain ⟨j, named, loop⟩ := before.partnered here
    have found := (normal.matched i j loop).2
    exact ⟨j, named, by rwa [Array.getElem?_toList] at found⟩
  · intro m n growing
    rw [toList_output_flush growing] at compact
    exact compact.inRange_last
  · intro m n k l growing last axis
    rw [toList_output_flush growing] at compact
    have neighbour : counted k l ∈ s.output.toList.getLast? := by
      rwa [Array.getLast?_toList]
    exact settled_counted.1 (compact.getLast? _ neighbour) axis

/-! ## Passes -/

theorem layout_flush_of_feedAll (h : feedAll {} cs = .ok s) :
    Layout s.flush.output.toList s.opened :=
  s.opened_flush ▸ layout_of_run (run_of_feedAll h)

theorem coherent_of_feedAll (h : feedAll {} cs = .ok s) : s.Coherent :=
  coherent_of_flush (layout_flush_of_feedAll h) (compact_of_run (run_of_feedAll h))

/-- A loop end finds the start of the innermost loop unresolved. -/
theorem unresolved_of_feedAll (h : feedAll {} cs = .ok s) {start : Nat} {outer : List Nat}
    (opened : s.opened = start :: outer) : s.flush.output[start]? = some (.loopStart none) := by
  have layout := layout_flush_of_feedAll h
  rw [← Array.getElem?_toList, ← layout.mem_iff, opened]
  exact List.mem_cons_self

/-- A pass that fails has come to a loop end. -/
theorem exists_closeLoop_of_error (h : s.feedAll cs = .error e) :
    ∃ before after t, cs = before ++ .loopEnd :: after ∧ s.feedAll before = .ok t ∧
      t.closeLoop = .error e := by
  induction cs generalizing s with
  | nil => cases h
  | cons c cs ih =>
    rw [feedAll_cons] at h
    cases fed : s.feed c with
    | error e' =>
      rw [fed] at h
      obtain rfl : e' = e := Except.error.inj h
      cases c with
      | loopEnd => exact ⟨[], cs, s, rfl, rfl, fed⟩
      | _ => cases fed
    | ok u =>
      rw [fed] at h
      obtain ⟨before, after, t, rfl, reached, failed⟩ := ih h
      exact ⟨c :: before, after, t, rfl, by rw [feedAll_cons, fed]; exact reached, failed⟩

/-- A loop end is refused where no loop is open, and nowhere else. -/
theorem closeLoop_eq_error_iff (h : feedAll {} cs = .ok s) :
    s.closeLoop = .error e ↔ s.opened = [] ∧ e = s.flush := by
  cases opened : s.opened with
  | nil =>
    have refused : s.closeLoop = .error s.flush := by simp [closeLoop, opened]
    rw [refused, Except.error.injEq, eq_comm, and_iff_right rfl]
  | cons start outer =>
    have found := unresolved_of_feedAll h opened
    refine iff_of_false ?_ fun closed => List.cons_ne_nil _ _ closed.1
    simp [closeLoop, opened, found]

/-- A pass that fails has stopped at a loop end with no loop open, and in no other place. -/
theorem exists_closed_of_error (h : feedAll {} cs = .error e) :
    ∃ before after t, cs = before ++ .loopEnd :: after ∧ feedAll {} before = .ok t ∧
      t.opened = [] ∧ e = t.flush := by
  obtain ⟨before, after, t, split, reached, failed⟩ := exists_closeLoop_of_error h
  obtain ⟨closed, same⟩ := (closeLoop_eq_error_iff reached).1 failed
  exact ⟨before, after, t, split, reached, closed, same⟩

/-- The state where a pass fails is coherent too. -/
theorem coherent_of_feedAll_eq_error (h : feedAll {} cs = .error e) : e.Coherent := by
  obtain ⟨before, after, t, -, reached, -, rfl⟩ := exists_closed_of_error h
  have layout := layout_flush_of_feedAll reached
  have compact := compact_of_run (run_of_feedAll reached)
  refine coherent_of_flush ?_ ?_
  · rwa [flush_flush, opened_flush]
  · rwa [flush_flush]

/-- The state of a folding pass is coherent after every command, and where the pass fails. A loop
end that comes next finds the start of the innermost loop unresolved, so it is refused only if no
loop is open. Every count that a pass writes down is one that an instruction may have. -/
theorem coherent_throughout (cs : List Command) :
    (∀ s, feedAll {} cs = .ok s →
      s.Coherent ∧
      (∀ start outer, s.opened = start :: outer →
        s.flush.output[start]? = some (.loopStart none)) ∧
      (∀ e, s.closeLoop = .error e ↔ s.opened = [] ∧ e = s.flush) ∧
      ∀ m n, s.pending = some (m, n) ∨ counted m n ∈ s.output →
        counted? m n = .ok (counted m n)) ∧
    ∀ e, feedAll {} cs = .error e →
      e.Coherent ∧
      ∃ before after t, cs = before ++ .loopEnd :: after ∧ feedAll {} before = .ok t ∧
        t.opened = [] ∧ e = t.flush := by
  refine ⟨fun s h => ⟨coherent_of_feedAll h, ?_, ?_, ?_⟩, fun e h => ?_⟩
  · intro start outer opened
    exact unresolved_of_feedAll h opened
  · intro e
    exact closeLoop_eq_error_iff h
  · intro m n there
    exact counted?_of_feedAll h there
  · exact ⟨coherent_of_feedAll_eq_error h, exists_closed_of_error h⟩

/-- A full run stands before the growing one, inside a loop that is open. Where that loop has been
closed, another loop end fails. -/
theorem coherent_throughout_full_run :
    let cs : List Command := .loopStart :: List.replicate 256 (.motion .increment)
    let s : Folding := ⟨#[.loopStart none, .counted .increment 255], some (.increment, 1), [0]⟩
    let e : Folding := ⟨#[.loopStart (some 3), .counted .increment 255, .counted .increment 1,
      .loopEnd 0, .counted .right 1], none, []⟩
    feedAll {} cs = .ok s ∧ s.Coherent ∧
      feedAll {} (cs ++ [.loopEnd, .motion .right, .loopEnd]) = .error e ∧ e.Coherent := by
  intro cs s e
  have reached : feedAll {} cs = .ok s := by decide +kernel
  have failed : feedAll {} (cs ++ [.loopEnd, .motion .right, .loopEnd]) = .error e := by
    decide +kernel
  exact ⟨reached, ((coherent_throughout cs).1 s reached).1, failed,
    ((coherent_throughout _).2 e failed).1⟩

end Folding

end ByteTape
