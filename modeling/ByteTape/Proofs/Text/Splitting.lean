import Mathlib.Data.String.Basic

/-!
# Splitting texts

A text is split at a character, and what is put together with that character in between is split
into the parts again.
-/

namespace ByteTape.Text

open String

/-- Splitting goes on behind the parts that have been found. Here `l` is what they were found in,
and `m` is the part that has been begun. -/
theorem splitOnAux_singleton (c : Char) (l m r : List Char) (parts : List String) :
    splitOnAux (ofList (l ++ m ++ r)) (singleton c) ⟨utf8Len l⟩ ⟨utf8Len l + utf8Len m⟩ 0 parts =
      parts.reverse ++ (List.splitOnPPrepend (· == c) r m.reverse).map ofList := by
  have alone : singleton c = ofList [c] := rfl
  have mark : Pos.Raw.get (singleton c) 0 = c := by
    rw [alone]
    exact get_of_valid [] [c]
  have behind : Pos.Raw.next (singleton c) 0 = ⟨c.utf8Size⟩ := by
    rw [alone]
    exact (next_of_valid [] c []).trans (by rw [utf8Len_nil, Nat.zero_add])
  have consumed : Pos.Raw.atEnd (singleton c) ⟨c.utf8Size⟩ := by
    rw [alone, atEnd_iff, rawEndPos_ofList, utf8Len_cons, utf8Len_nil, Nat.zero_add]
    exact Nat.le_refl _
  induction r generalizing l m parts with
  | nil =>
    have ends : Pos.Raw.atEnd (ofList (l ++ m ++ [])) ⟨utf8Len l + utf8Len m⟩ := by
      simp only [atEnd_iff, rawEndPos_ofList, utf8Len_append, Pos.Raw.mk_le_mk, utf8Len_nil]
      omega
    rw [splitOnAux, if_pos ends, extract_of_valid]
    simp
  | cons x r ih =>
    have inside : ¬ Pos.Raw.atEnd (ofList (l ++ m ++ x :: r)) ⟨utf8Len l + utf8Len m⟩ := by
      have := x.utf8Size_pos
      simp only [atEnd_iff, rawEndPos_ofList, utf8Len_append, Pos.Raw.mk_le_mk, utf8Len_cons]
      omega
    have here : Pos.Raw.get (ofList (l ++ m ++ x :: r)) ⟨utf8Len l + utf8Len m⟩ = x := by
      have := get_of_valid (l ++ m) (x :: r)
      rwa [utf8Len_append] at this
    have further : Pos.Raw.next (ofList (l ++ m ++ x :: r)) ⟨utf8Len l + utf8Len m⟩ =
        ⟨utf8Len l + utf8Len m + x.utf8Size⟩ := by
      have := next_of_valid (l ++ m) x r
      rwa [utf8Len_append] at this
    rw [splitOnAux, if_neg inside, here, mark]
    by_cases same : x = c
    · subst same
      have rest := ih (l ++ m ++ [x]) [] (ofList m :: parts)
      have back : (⟨utf8Len l + utf8Len m + x.utf8Size⟩ : Pos.Raw).unoffsetBy ⟨x.utf8Size⟩ =
          ⟨utf8Len l + utf8Len m⟩ := by
        simp [Pos.Raw.unoffsetBy]
      simp only [beq_self_eq_true, ↓reduceIte, further, behind, consumed, back, extract_of_valid]
      simpa [List.splitOnPPrepend_cons_eq_if, Nat.add_assoc, -ofList_append] using rest
    · have rest := ih l (m ++ [x]) parts
      have apart : ¬ (x == c) := by simpa using same
      have back : (⟨utf8Len l + utf8Len m⟩ : Pos.Raw).unoffsetBy 0 = ⟨utf8Len l + utf8Len m⟩ := rfl
      rw [if_neg apart, back, further]
      simpa [List.splitOnPPrepend_cons_eq_if, same, Nat.add_assoc, -ofList_append] using rest

theorem splitOn_singleton (s : String) (c : Char) :
    s.splitOn (singleton c) = (s.toList.splitOn c).map ofList := by
  obtain ⟨l, rfl⟩ := s.exists_eq_ofList
  have filled : (singleton c == "") = false := by
    rw [beq_eq_false_iff_ne, ne_eq, ← toList_inj]
    simp
  simpa [splitOn, List.splitOn, filled] using splitOnAux_singleton c [] [] l []

/-- What is put together with a character in between is split into the parts again. -/
theorem splitOn_intercalate_singleton {c : Char} {parts : List String} (some : parts ≠ [])
    (whole : ∀ part ∈ parts, c ∉ part.toList) :
    ((singleton c).intercalate parts).splitOn (singleton c) = parts := by
  have free : ∀ l ∈ parts.map toList, c ∉ l := by simpa using whole
  rw [splitOn_singleton, toList_intercalate, toList_singleton,
    List.splitOn_intercalate _ free (by simpa)]
  simp

end ByteTape.Text
