import ByteTape.Proofs.Closing
import ByteTape.Proofs.Folding.Acceptance

/-!
# What a program is refused for

Commands that are not balanced are refused for the first loop end that closes nothing or, where
every end closes a loop, for the innermost start that is never closed. Their folding is refused for
the same boundary, named by its index among the instructions.
-/

namespace ByteTape

namespace Bracket

variable {α : Type} {bracket : α → Option Bracket} {as : List α}

/-- An error names the boundary that keeps a sequence from being balanced. -/
inductive Blames (bracket : α → Option Bracket) (as : List α) : LoopError → Prop where
  | unexpectedEnd {i : Nat} (before : Balanced bracket (as.take i))
      (closing : as[i]?.bind bracket = some .closing) : Blames bracket as (.unexpectedEnd i)
  | missingEnd {i : Nat}
      (within : ∀ n, count bracket .closing (as.take n) ≤ count bracket .opening (as.take n))
      (opening : as[i]?.bind bracket = some .opening)
      (after : Balanced bracket (as.drop (i + 1))) : Blames bracket as (.missingEnd i)

/-- Loops that stay open to the end are of no concern to what is closed inside of them. -/
theorem opens_frame {index : Nat} {opened after : List Nat}
    (h : opens bracket index opened as = .ok after) (outer : List Nat) :
    opens bracket index (opened ++ outer) as = .ok (after ++ outer) := by
  induction as generalizing index opened with
  | nil =>
    obtain rfl : opened = after := Except.ok.inj h
    rfl
  | cons a as ih =>
    cases side : bracket a with
    | none =>
      simp only [opens, side] at h ⊢
      exact ih h
    | some side' =>
      cases side' with
      | opening =>
        simp only [opens, side] at h ⊢
        exact ih h
      | closing =>
        cases opened with
        | nil => simp [opens, side] at h
        | cons i opened =>
          simp only [opens, side, List.cons_append] at h ⊢
          exact ih h

/-- A balanced sequence leaves open what is open before it. -/
theorem Balanced.opens (h : Balanced bracket as) (index : Nat) (opened : List Nat) :
    opens bracket index opened as = .ok opened := by
  have closed : Bracket.opens bracket index [] as = .ok [] := opens_eq_nil_iff.2 ⟨h.within, h.even⟩
  exact opens_frame closed opened

/-- The check stops at the first loop end that stands after a balanced part. -/
theorem opens_eq_error_iff {i : Nat} :
    Bracket.opens bracket 0 [] as = .error i ↔
      Balanced bracket (as.take i) ∧ as[i]?.bind bracket = some .closing := by
  constructor
  · intro h
    induction as using List.reverseRecOn with
    | nil => cases h
    | append_singleton as a ih =>
      rw [opens_append, Nat.zero_add] at h
      cases reached : Bracket.opens bracket 0 [] as with
      | error k =>
        obtain rfl : k = i := by simpa [reached, Except.bind] using h
        obtain ⟨before, closing⟩ := ih reached
        have inside : k < as.length := by
          by_contra out
          simp [List.getElem?_eq_none (Nat.le_of_not_lt out)] at closing
        rw [List.take_append_of_le_length inside.le, List.getElem?_append_left inside]
        exact ⟨before, closing⟩
      | ok opened =>
        rw [reached] at h
        change Bracket.opens bracket as.length opened [a] = .error i at h
        cases side : bracket a with
        | none => simp [Bracket.opens, side] at h
        | some side' =>
          cases side' with
          | opening => simp [Bracket.opens, side] at h
          | closing =>
            cases opened with
            | cons j outer => simp [Bracket.opens, side] at h
            | nil =>
              obtain rfl : as.length = i := by simpa [Bracket.opens, side] using h
              exact ⟨by simpa using balanced_iff.2 reached, by simp [side]⟩
  · rintro ⟨before, closing⟩
    obtain ⟨a, ha, side⟩ := Option.bind_eq_some_iff.1 closing
    obtain ⟨inside, rfl⟩ := List.getElem?_eq_some_iff.1 ha
    have length : (as.take i).length = i := by rw [List.length_take, min_eq_left inside.le]
    rw [← List.take_append_drop i as, opens_append, before.opens, List.drop_eq_getElem_cons inside]
    simp only [Except.bind, Bracket.opens, side, length, Nat.zero_add]

/-- A check refuses a sequence for the boundary that keeps it from being balanced. -/
theorem check_eq_error_iff {e : LoopError} :
    check bracket as = .error e ↔ Blames bracket as e := by
  constructor
  · intro h
    rcases check_cases bracket as with ⟨-, accepted⟩ | ⟨i, outer, reached, refused⟩ |
      ⟨i, stopped, refused⟩
    · cases accepted.symm.trans h
    · obtain rfl := Except.error.inj (refused.symm.trans h)
      have within := exists_opens_iff.1 ⟨_, reached⟩
      rw [← List.take_length (l := as)] at reached
      obtain ⟨lt, opening, level, -⟩ := level_of_opens le_rfl reached
      have after := level.balanced lt le_rfl
      rw [List.take_length] at after
      exact .missingEnd within opening after
    · obtain rfl := Except.error.inj (refused.symm.trans h)
      obtain ⟨before, closing⟩ := opens_eq_error_iff.1 stopped
      exact .unexpectedEnd before closing
  · intro h
    cases h with
    | unexpectedEnd before closing =>
      exact check_eq_unexpectedEnd_iff.2 (opens_eq_error_iff.2 ⟨before, closing⟩)
    | @missingEnd i within opening after =>
      obtain ⟨a, ha, side⟩ := Option.bind_eq_some_iff.1 opening
      obtain ⟨inside, rfl⟩ := List.getElem?_eq_some_iff.1 ha
      obtain ⟨outer, before⟩ : ∃ outer, Bracket.opens bracket 0 [] (as.take i) = .ok outer := by
        refine exists_opens_iff.2 fun n => ?_
        rw [List.take_take]
        exact within (min n i)
      have length : (as.take i).length = i := by rw [List.length_take, min_eq_left inside.le]
      refine check_eq_missingEnd_iff.2 ⟨outer, ?_⟩
      rw [← List.take_append_drop i as, opens_append, before, List.drop_eq_getElem_cons inside]
      simp only [Except.bind, Bracket.opens, side, length, Nat.zero_add]
      exact after.opens (i + 1) (i :: outer)

end Bracket

/-- The same error for a boundary at another index. -/
def LoopError.moved (index : Nat) : LoopError → LoopError
  | unexpectedEnd _ => unexpectedEnd index
  | missingEnd _ => missingEnd index
  | mismatchedTarget _ target => mismatchedTarget index target

namespace Program

variable {cs : List Command} {e : LoopError}

theorem ofCommands_eq_error_iff :
    ofCommands cs = .error e ↔ Bracket.Blames Command.bracket cs e := by
  rw [ofCommands, ofCode_eq_error_iff, Code.check, Bracket.check_eq_error_iff]

/-- A folding is refused for the boundary that the commands are refused for. -/
theorem exists_ofFolding_eq_error (h : Bracket.Blames Command.bracket cs e) :
    ∃ j, FoldsAt cs e.index j ∧ ofFolding cs = .error (e.moved j) := by
  have refused := Bracket.check_eq_error_iff.2 h
  cases h with
  | unexpectedEnd =>
    exact ofFolding_eq_unexpectedEnd_of_opens (Bracket.check_eq_unexpectedEnd_iff.1 refused)
  | missingEnd =>
    obtain ⟨outer, reached⟩ := Bracket.check_eq_missingEnd_iff.1 refused
    exact ofFolding_eq_missingEnd_of_opens reached

/-- Commands that are not balanced are refused in either form, for the same boundary. -/
theorem exists_compile_eq_error {source : String}
    (unbalanced : ¬ Bracket.Balanced Command.bracket (Command.parse source.toList))
    (optimize : Bool) :
    ∃ e j, Bracket.Blames Command.bracket (Command.parse source.toList) e ∧
      (if optimize then FoldsAt (Command.parse source.toList) e.index j else j = e.index) ∧
      compile source optimize = .error (e.moved j) := by
  cases refused : ofCommands (Command.parse source.toList) with
  | ok p => exact absurd (Bracket.balanced_iff.2 (exists_ofCommands_iff.1 ⟨p, refused⟩)) unbalanced
  | error e =>
    have blamed := ofCommands_eq_error_iff.1 refused
    cases optimize with
    | false =>
      refine ⟨e, e.index, blamed, by simp, ?_⟩
      rw [compile, if_neg Bool.false_ne_true, refused]
      cases e <;> rfl
    | true =>
      obtain ⟨j, place, failed⟩ := exists_ofFolding_eq_error blamed
      exact ⟨e, j, blamed, place, failed⟩

end Program

end ByteTape
