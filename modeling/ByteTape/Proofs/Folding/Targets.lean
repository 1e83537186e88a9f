import ByteTape.Proofs.Folding.Layout

/-!
# Jump targets of linked instructions

The check of the jump targets looks at every instruction together with its index. Linked pieces pass
it wherever they stand, because both boundaries of a loop were written down from its place.
-/

namespace ByteTape

/-- A property of the entries of a list and their indices, counted from `i`. -/
def Along {α : Type} (P : Nat → α → Prop) : (i : Nat) → List α → Prop
  | _, [] => True
  | i, x :: xs => P i x ∧ Along P (i + 1) xs

section Along

variable {α : Type} {P Q : Nat → α → Prop}

@[simp] theorem along_nil (i : Nat) : Along P i [] := trivial

@[simp] theorem along_cons {i : Nat} {x : α} {xs : List α} :
    Along P i (x :: xs) ↔ P i x ∧ Along P (i + 1) xs := Iff.rfl

@[simp] theorem along_append {i : Nat} {xs ys : List α} :
    Along P i (xs ++ ys) ↔ Along P i xs ∧ Along P (i + xs.length) ys := by
  induction xs generalizing i with
  | nil => simp
  | cons x xs ih => simp [ih, and_assoc, Nat.add_assoc, Nat.add_comm 1]

theorem along_iff {i : Nat} {xs : List α} :
    Along P i xs ↔ ∀ k x, xs[k]? = some x → P (i + k) x := by
  induction xs generalizing i with
  | nil => simp
  | cons x xs ih =>
    rw [along_cons, ih]
    constructor
    · rintro ⟨first, rest⟩ (_ | k) y hy
      · simpa using (Option.some.inj hy) ▸ first
      · simpa [Nat.add_assoc, Nat.add_comm 1] using rest k y hy
    · intro all
      refine ⟨all 0 x rfl, fun k y hy => ?_⟩
      simpa [Nat.add_assoc, Nat.add_comm 1] using all (k + 1) y hy

/-- The part of a list that is placed at an index. -/
theorem drop_take_of_along {xs ys : List α} {i : Nat}
    (placed : Along (fun k x => xs[k]? = some x) i ys) :
    (xs.take (i + ys.length)).drop i = ys := by
  refine List.ext_getElem? fun k => ?_
  rw [List.getElem?_drop, List.getElem?_take]
  split
  · next lt =>
    have inside : k < ys.length := by omega
    rw [along_iff.1 placed k ys[k] (List.getElem?_eq_getElem inside),
      List.getElem?_eq_getElem inside]
  · next out => rw [List.getElem?_eq_none (show ys.length ≤ k by omega)]

/-- Every entry of an array stands at its own index. -/
theorem along_toList (xs : Array α) : Along (fun i x => xs[i]? = some x) 0 xs.toList :=
  along_iff.2 fun k x hx => by simpa using hx

end Along

namespace Instruction

theorem forM_eq_ok_iff {α ε : Type} {f : α → Except ε Unit} {xs : List α} :
    xs.forM f = .ok () ↔ ∀ x ∈ xs, f x = .ok () := by
  induction xs with
  | nil => simp [pure, Except.pure]
  | cons x xs ih =>
    change (f x).bind (fun _ => xs.forM f) = .ok () ↔ _
    rw [bind_eq_ok_iff, List.forall_mem_cons, ← ih]
    constructor
    · rintro ⟨⟨⟩, first, rest⟩
      exact ⟨first, rest⟩
    · intro both
      exact ⟨(), both⟩

/-- The targets pass the check when every instruction agrees with the one it points to. -/
theorem checkTargets_eq_ok_iff {is : Array Instruction} :
    checkTargets is = .ok () ↔ Along (fun i x => x.targetAgrees is i = true) 0 is.toList := by
  rw [checkTargets, forM_eq_ok_iff, along_iff]
  constructor
  · intro all k x hx
    have found := all (x, k) (List.mem_zipIdx_iff_getElem?.2 hx)
    simpa using found
  · rintro all ⟨x, k⟩ hx
    have agrees := all k x (List.mem_zipIdx_iff_getElem?.1 hx)
    simpa using agrees

theorem targetAgrees_of_plain {x : Instruction} (h : x.bracket = none) (is : Array Instruction)
    (i : Nat) : x.targetAgrees is i = true := by
  cases x <;> simp_all [targetAgrees]

theorem targetAgrees_loopStart {is : Array Instruction} {start stop : Nat}
    (h : is[stop]? = some (.loopEnd start)) :
    (loopStart (some (stop : Int))).targetAgrees is start = true := by
  simp [targetAgrees, h]

theorem targetAgrees_loopEnd {is : Array Instruction} {start stop : Nat}
    (h : is[start]? = some (.loopStart (some stop))) :
    (loopEnd (start : Int)).targetAgrees is stop = true := by
  simp [targetAgrees, h]

/-- The boundaries of a linked piece agree wherever the piece stands. -/
theorem Linked.agrees {i : Nat} {js : List Instruction} (h : Linked i js) {is : Array Instruction}
    (placed : Along (fun k x => is[k]? = some x) i js) :
    Along (fun k x => x.targetAgrees is k = true) i js := by
  induction h with
  | nil => trivial
  | concat before plain ih =>
    rw [along_append] at placed ⊢
    exact ⟨ih placed.1, targetAgrees_of_plain plain is _, trivial⟩
  | @loop i js ks before body ih ihBody =>
    simp only [along_append, along_cons, along_nil, and_true, List.length_append,
      List.length_cons] at placed ⊢
    obtain ⟨⟨outside, start, inside⟩, stop⟩ := placed
    refine ⟨⟨ih outside, ?_, ihBody inside⟩, ?_⟩
    · exact targetAgrees_loopStart (by simpa [Nat.add_assoc] using stop)
    · exact targetAgrees_loopEnd (by simpa [Nat.add_assoc] using start)

/-- Linked instructions pass both checks of folded code. -/
theorem Linked.check {is : Array Instruction} (h : Linked 0 is.toList) :
    (Code.folded is).check = .ok () := by
  have balanced : Bracket.check bracket is.toList = .ok () :=
    Bracket.check_eq_ok_iff.2 (h.opens 0 [])
  have targets := checkTargets_eq_ok_iff.2 (h.agrees (along_toList is))
  simp [Code.check, balanced, targets, bind, Except.bind]

/-- With a loop left open the check blames the start of the innermost one. -/
theorem Layout.check {is : Array Instruction} {i : Nat} {outer : List Nat}
    (h : Layout is.toList (i :: outer)) : (Code.folded is).check = .error (.missingEnd i) := by
  have unbalanced : Bracket.check bracket is.toList = .error (.missingEnd i) :=
    Bracket.check_eq_missingEnd_iff.2 ⟨outer, h.opens⟩
  simp [Code.check, unbalanced, bind, Except.bind]

end Instruction

end ByteTape
