import ByteTape.Program
import ByteTape.Proofs.Folding.Step
import ByteTape.Proofs.Nesting

/-!
# The layout of folded instructions

Folded instructions are made of linked pieces, in which every loop is closed and its two boundaries
name each other, and of the unresolved loop starts between the pieces. This is what a folding pass
keeps: no motion reaches back over a loop boundary, so the indices that were written down stay
right.
-/

namespace ByteTape

open Instruction

/-- Instructions placed at index `i` whose loops are all closed, every boundary of a loop naming the
index of the other. -/
inductive Instruction.Linked : Nat → List Instruction → Prop where
  | nil (i : Nat) : Linked i []
  | concat {i : Nat} {is : List Instruction} {x : Instruction} (before : Linked i is)
      (plain : x.bracket = none) : Linked i (is ++ [x])
  | loop {i : Nat} {is js : List Instruction} (before : Linked i is)
      (body : Linked (i + is.length + 1) js) :
      Linked i (is ++ .loopStart (some (i + is.length + (js.length + 1) : Nat)) :: js ++
        [.loopEnd (i + is.length : Nat)])

/-- Instructions with open loops at the given indices, innermost first: linked pieces with an
unresolved loop start before every piece but the first. -/
inductive Instruction.Layout : List Instruction → List Nat → Prop where
  | closed {is : List Instruction} (h : Linked 0 is) : Layout is []
  | opened {is js : List Instruction} {outer : List Nat} (before : Layout is outer)
      (inside : Linked (is.length + 1) js) :
      Layout (is ++ .loopStart none :: js) (is.length :: outer)

namespace Instruction

@[simp] theorem bracket_counted (m : Motion) (n : Nat) : (counted m n).bracket = none := rfl
@[simp] theorem bracket_output : output.bracket = none := rfl
@[simp] theorem bracket_input : input.bracket = none := rfl
@[simp] theorem bracket_loopStart (stop : Option Int) :
    (loopStart stop).bracket = some .opening := rfl
@[simp] theorem bracket_loopEnd (start : Int) : (loopEnd start).bracket = some .closing := rfl

/-- An instruction at the end that is no loop boundary can be taken away. -/
theorem Linked.of_concat {i : Nat} {is : List Instruction} {x : Instruction}
    (h : Linked i (is ++ [x])) (plain : x.bracket = none) : Linked i is := by
  generalize hxs : is ++ [x] = xs at h
  cases h with
  | nil => simp at hxs
  | concat before _ =>
    obtain ⟨rfl, -⟩ := List.append_inj' hxs rfl
    exact before
  | loop before body =>
    obtain ⟨-, last⟩ := List.append_inj' hxs rfl
    obtain rfl : x = _ := List.head_eq_of_cons_eq last
    simp at plain

/-- With no loop open, the instructions are one linked piece. -/
theorem Layout.linked {is : List Instruction} (h : Layout is []) : Linked 0 is := by
  cases h with
  | closed linked => exact linked

theorem Layout.concat {is : List Instruction} {opened : List Nat} {x : Instruction}
    (h : Layout is opened) (plain : x.bracket = none) : Layout (is ++ [x]) opened := by
  cases h with
  | closed linked => exact .closed (linked.concat plain)
  | opened before inside => simpa using Layout.opened before (inside.concat plain)

theorem Layout.of_concat {is : List Instruction} {opened : List Nat} {x : Instruction}
    (h : Layout (is ++ [x]) opened) (plain : x.bracket = none) : Layout is opened := by
  generalize hxs : is ++ [x] = xs at h
  cases h with
  | closed linked =>
    subst hxs
    exact .closed (linked.of_concat plain)
  | @opened js ks outer before inside =>
    rcases List.eq_nil_or_concat' ks with rfl | ⟨ks, y, rfl⟩
    · obtain ⟨-, last⟩ := List.append_inj' hxs rfl
      obtain rfl : x = _ := List.head_eq_of_cons_eq last
      simp at plain
    · have split : is ++ [x] = (js ++ .loopStart none :: ks) ++ [y] := by simpa using hxs
      obtain ⟨rfl, last⟩ := List.append_inj' split rfl
      obtain rfl : x = y := List.head_eq_of_cons_eq last
      exact .opened before (inside.of_concat plain)

/-- A resolved loop may stand at the end. -/
theorem Layout.loop {is js : List Instruction} {opened : List Nat} (h : Layout is opened)
    (body : Linked (is.length + 1) js) :
    Layout (is ++ .loopStart (some (is.length + (js.length + 1) : Nat)) :: js ++
      [.loopEnd is.length]) opened := by
  cases h with
  | closed linked => simpa using Layout.closed (linked.loop (by simpa using body))
  | @opened js₀ js₁ outer before inside =>
    have place : (js₀ ++ .loopStart none :: js₁).length =
        js₀.length + 1 + js₁.length := by simp; omega
    rw [place] at body ⊢
    simpa using Layout.opened before (inside.loop body)

/-- Every command of a folding pass keeps the layout. -/
theorem Layout.advance {c : Command} {is js : List Instruction} {opened opened' : List Nat}
    (h : Layout is opened) (step : Folding.Advance c is opened js opened') :
    Layout js opened' := by
  cases step with
  | motion change =>
    cases change with
    | grow is room => exact (h.of_concat rfl).concat rfl
    | shrink is several => exact (h.of_concat rfl).concat rfl
    | vanish is single => exact h.of_concat rfl
    | start is full free => exact h.concat rfl
  | output | input => exact h.concat rfl
  | loopStart => exact .opened h (.nil _)
  | loopEnd is' js' =>
    generalize hxs : is' ++ .loopStart none :: js' = xs at h
    generalize ho : is'.length :: opened' = opened at h
    cases h with
    | closed => simp at ho
    | opened before inside =>
      obtain ⟨place, rfl⟩ := List.cons.inj ho
      obtain ⟨rfl, tail⟩ := List.append_inj hxs place
      obtain rfl := List.tail_eq_of_cons_eq tail
      exact before.loop inside

/-- The instructions of a folding pass are laid out around its open loops. -/
theorem layout_of_run {cs : List Command} {s : Folding} (h : Folding.run cs = .ok s) :
    Layout s.output.toList s.opened :=
  Folding.run_induction (P := fun _ => Layout) (.closed (.nil 0))
    (fun _ _ _ _ _ _ layout step => layout.advance step) h

/-- The check of the loops passes over a linked piece. -/
theorem Linked.opens {i : Nat} {is : List Instruction} (h : Linked i is) (index : Nat)
    (opened : List Nat) : Bracket.opens bracket index opened is = .ok opened := by
  induction h generalizing index opened with
  | nil => rfl
  | concat before plain ih => simp [Bracket.opens_append, ih, Except.bind, Bracket.opens, plain]
  | loop before body ih ihBody =>
    simp [Bracket.opens_append, ih, ihBody, Except.bind, Bracket.opens]

/-- The check of the loops finds open what the layout says. -/
theorem Layout.opens {is : List Instruction} {opened : List Nat} (h : Layout is opened) :
    Bracket.opens bracket 0 [] is = .ok opened := by
  induction h with
  | closed linked => exact linked.opens 0 []
  | opened before inside ih =>
    simp [Bracket.opens_append, ih, Except.bind, Bracket.opens, inside.opens]

end Instruction

end ByteTape
