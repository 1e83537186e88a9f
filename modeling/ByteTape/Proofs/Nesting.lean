import ByteTape.Loop
import Mathlib.Tactic.Common

/-!
# Nesting of loops

The check of a program's loops keeps the indices of the open ones. `Bracket.opens` is what it knows
after a part of the sequence, so that the check of a whole can be read off the checks of its parts.
-/

namespace ByteTape.Bracket

variable {α : Type} (bracket : α → Option Bracket)

/-- The loops open after a sequence read from `index` on, innermost first, or the index of the first
end that closes nothing. -/
def opens : (index : Nat) → (opened : List Nat) → List α → Except Nat (List Nat)
  | _, opened, [] => .ok opened
  | index, opened, a :: rest =>
    match bracket a, opened with
    | none, _ => opens (index + 1) opened rest
    | some .opening, _ => opens (index + 1) (index :: opened) rest
    | some .closing, [] => .error index
    | some .closing, _ :: outer => opens (index + 1) outer rest

/-- The verdict on a sequence after which the given loops are open. -/
def verdict : List Nat → Except LoopError Unit
  | [] => .ok ()
  | index :: _ => .error (.missingEnd index)

theorem checkFrom_eq (index : Nat) (opened : List Nat) (as : List α) :
    checkFrom bracket index opened as =
      match opens bracket index opened as with
      | .ok opened => verdict opened
      | .error index => .error (.unexpectedEnd index) := by
  induction as generalizing index opened with
  | nil => cases opened <;> rfl
  | cons a as ih =>
    cases hb : bracket a with
    | none => simp [checkFrom, opens, hb, ih]
    | some side => cases side <;> cases opened <;> simp [checkFrom, opens, hb, ih]

theorem opens_append (index : Nat) (opened : List Nat) (as bs : List α) :
    opens bracket index opened (as ++ bs) =
      (opens bracket index opened as).bind fun opened =>
        opens bracket (index + as.length) opened bs := by
  induction as generalizing index opened with
  | nil => rfl
  | cons a as ih =>
    have shift : index + 1 + as.length = index + (as.length + 1) := by omega
    cases hb : bracket a with
    | none => simp [opens, hb, ih, shift]
    | some side => cases side <;> cases opened <;> simp [opens, hb, ih, shift, Except.bind]

/-- The verdicts, by what is open at the end. -/
theorem check_cases (as : List α) :
    (opens bracket 0 [] as = .ok [] ∧ check bracket as = .ok ()) ∨
    (∃ i outer, opens bracket 0 [] as = .ok (i :: outer) ∧
      check bracket as = .error (.missingEnd i)) ∨
    ∃ i, opens bracket 0 [] as = .error i ∧ check bracket as = .error (.unexpectedEnd i) := by
  rw [check, checkFrom_eq]
  rcases opens bracket 0 [] as with i | _ | ⟨i, outer⟩
  · exact .inr (.inr ⟨i, rfl, rfl⟩)
  · exact .inl ⟨rfl, rfl⟩
  · exact .inr (.inl ⟨i, outer, rfl, rfl⟩)

variable {bracket}

theorem check_eq_ok_iff {as : List α} :
    check bracket as = .ok () ↔ opens bracket 0 [] as = .ok [] := by
  rcases check_cases bracket as with ⟨ho, hc⟩ | ⟨i, outer, ho, hc⟩ | ⟨i, ho, hc⟩ <;> simp [ho, hc]

theorem check_eq_missingEnd_iff {as : List α} {i : Nat} :
    check bracket as = .error (.missingEnd i) ↔
      ∃ outer, opens bracket 0 [] as = .ok (i :: outer) := by
  rcases check_cases bracket as with ⟨ho, hc⟩ | ⟨j, outer, ho, hc⟩ | ⟨j, ho, hc⟩ <;> simp [ho, hc]

theorem check_eq_unexpectedEnd_iff {as : List α} {i : Nat} :
    check bracket as = .error (.unexpectedEnd i) ↔ opens bracket 0 [] as = .error i := by
  rcases check_cases bracket as with ⟨ho, hc⟩ | ⟨j, outer, ho, hc⟩ | ⟨j, ho, hc⟩ <;> simp [ho, hc]

/-- How often a sequence opens or closes a loop. -/
def count (bracket : α → Option Bracket) (side : Bracket) (as : List α) : Nat :=
  as.countP fun a => bracket a == some side

/-- A balanced sequence: no part from the start on closes more loops than it opens, and the whole
closes as many. -/
structure Balanced (bracket : α → Option Bracket) (as : List α) : Prop where
  within : ∀ n, count bracket .closing (as.take n) ≤ count bracket .opening (as.take n)
  even : count bracket .closing as = count bracket .opening as

theorem count_cons (side : Bracket) (a : α) (as : List α) :
    count bracket side (a :: as) =
      count bracket side as + if bracket a = some side then 1 else 0 := by
  simp [count, List.countP_cons]

theorem forall_take_cons {P : List α → Prop} {a : α} {as : List α} :
    (∀ n, P ((a :: as).take n)) ↔ P [] ∧ ∀ n, P (a :: as.take n) :=
  ⟨fun h => ⟨h 0, fun n => h (n + 1)⟩, fun h n => n.casesOn h.1 h.2⟩

/-- A sequence closes all loops and no others exactly when the counts say so. -/
theorem opens_eq_nil_iff {index : Nat} {opened : List Nat} {as : List α} :
    opens bracket index opened as = .ok [] ↔
      (∀ n, count bracket .closing (as.take n) ≤
        count bracket .opening (as.take n) + opened.length) ∧
      count bracket .closing as = count bracket .opening as + opened.length := by
  induction as generalizing index opened with
  | nil =>
    cases opened <;> simp [opens, count]
  | cons a as ih =>
    rw [forall_take_cons (P := fun l => count bracket .closing l ≤
      count bracket .opening l + opened.length)]
    simp only [count_cons]
    cases hb : bracket a with
    | none => simp [opens, hb, ih, count]
    | some side =>
      cases side with
      | opening =>
        simp only [opens, hb, ih, List.length_cons]
        simp [count, Nat.add_assoc, Nat.add_comm 1]
      | closing =>
        cases opened with
        | nil =>
          simp only [opens, hb, reduceCtorEq, false_iff]
          intro h
          simpa [count] using h.1.2 0
        | cons i outer =>
          simp only [opens, hb, ih, List.length_cons]
          simp [count, ← Nat.add_assoc]

/-- A sequence closes nothing that is not open exactly when the counts say so. -/
theorem exists_opens_iff {index : Nat} {opened : List Nat} {as : List α} :
    (∃ after, opens bracket index opened as = .ok after) ↔
      ∀ n, count bracket .closing (as.take n) ≤
        count bracket .opening (as.take n) + opened.length := by
  induction as generalizing index opened with
  | nil => simp [opens, count]
  | cons a as ih =>
    rw [forall_take_cons (P := fun l => count bracket .closing l ≤
      count bracket .opening l + opened.length)]
    simp only [count_cons]
    cases hb : bracket a with
    | none => simp [opens, hb, ih, count]
    | some side =>
      cases side with
      | opening =>
        simp only [opens, hb, ih, List.length_cons]
        simp [count, Nat.add_assoc, Nat.add_comm 1]
      | closing =>
        cases opened with
        | nil =>
          simp only [opens, hb, reduceCtorEq, exists_false, false_iff]
          intro h
          simpa [count] using h.2 0
        | cons i outer =>
          simp only [opens, hb, ih, List.length_cons]
          simp [count, ← Nat.add_assoc]

/-- The check accepts exactly the balanced sequences. -/
theorem balanced_iff {as : List α} :
    Balanced bracket as ↔ opens bracket 0 [] as = .ok [] := by
  rw [opens_eq_nil_iff]
  exact ⟨fun h => ⟨h.within, h.even⟩, fun h => ⟨h.1, h.2⟩⟩

/-- The check reads nothing of an entry but its bracket. -/
theorem opens_map {β : Type} (f : β → α) (index : Nat) (opened : List Nat) (bs : List β) :
    opens bracket index opened (bs.map f) = opens (fun b => bracket (f b)) index opened bs := by
  induction bs generalizing index opened with
  | nil => rfl
  | cons b bs ih =>
    cases hb : bracket (f b) with
    | none => simp [opens, hb, ih]
    | some side => cases side <;> cases opened <;> simp [opens, hb, ih]

theorem balanced_map {β : Type} (f : β → α) {bs : List β} :
    Balanced bracket (bs.map f) ↔ Balanced (fun b => bracket (f b)) bs := by
  rw [balanced_iff, balanced_iff, opens_map]

end ByteTape.Bracket
