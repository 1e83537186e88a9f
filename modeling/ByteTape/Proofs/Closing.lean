import ByteTape.Proofs.Matching

/-!
# The loop that an end closes

The check of the loops takes the innermost open loop off its list when it comes to a loop end. That
is the loop whose start matches the end. So whatever else pairs starts with ends, one to one, pairs
them as the check does exactly when every start comes before its end and no two pairs cross.
-/

namespace ByteTape.Bracket

variable {α : Type}

/-- The check takes the loop start at `i` off the open loops when it comes to the loop end at
`j`. -/
structure Closes (bracket : α → Option Bracket) (as : List α) (i j : Nat) : Prop where
  closing : as[j]?.bind bracket = some .closing
  innermost : ∃ outer, opens bracket 0 [] (as.take j) = .ok (i :: outer)

/-- From `i` on, up to `n`, the depth never falls below what it is at `i`, and at `n` it is that
again. -/
structure Level (bracket : α → Option Bracket) (as : List α) (i n : Nat) : Prop where
  within : ∀ m, i ≤ m → m ≤ n → depth bracket as i ≤ depth bracket as m
  even : depth bracket as n = depth bracket as i

variable {bracket : α → Option Bracket} {as : List α} {i j k n : Nat}

theorem Level.refl (bracket : α → Option Bracket) (as : List α) (i : Nat) :
    Level bracket as i i := by
  refine ⟨fun m least most => ?_, rfl⟩
  rw [Nat.le_antisymm most least]

/-- An entry that is no boundary keeps the level. -/
theorem Level.pass (h : Level bracket as i n) (plain : as[n]?.bind bracket = none) :
    Level bracket as i (n + 1) := by
  have step := depth_succ bracket as n
  rw [plain, rise, add_zero] at step
  refine ⟨fun m least most => ?_, step.trans h.even⟩
  rcases Nat.le_succ_iff.1 most with before | rfl
  · exact h.within m least before
  · exact (step.trans h.even).ge

/-- A loop keeps the level that the entries before it have kept. -/
theorem Level.loop (before : Level bracket as i k)
    (opening : as[k]?.bind bracket = some .opening) (inside : Level bracket as (k + 1) n)
    (closing : as[n]?.bind bracket = some .closing) : Level bracket as i (n + 1) := by
  have start := depth_succ bracket as k
  have stop := depth_succ bracket as n
  have even := inside.even
  have level := before.even
  rw [opening, rise] at start
  rw [closing, rise] at stop
  refine ⟨fun m least most => ?_, by omega⟩
  by_cases early : m ≤ k
  · exact before.within m least early
  · by_cases late : m = n + 1
    · subst late
      omega
    · have deeper := inside.within m (by omega) (by omega)
      omega

/-- Beyond the end of a sequence the depth stays what it is there. -/
theorem depth_of_length_le (le : as.length ≤ n) :
    depth bracket as n = depth bracket as as.length := by
  rw [depth, depth, List.take_of_length_le le, List.take_length]

/-- What stands between `i` and `n` is balanced where it keeps the level. -/
theorem Level.balanced (h : Level bracket as (i + 1) n) (lt : i < n) (le : n ≤ as.length) :
    Balanced bracket ((as.take n).drop (i + 1)) := by
  have length : ((as.take n).drop (i + 1)).length = n - (i + 1) := by
    rw [List.length_drop, List.length_take, min_eq_left le]
  have whole := Matches.depth_part bracket as (i := i) (Nat.succ_le_of_lt lt) (le_refl n)
  have even := h.even
  rw [← length] at whole
  refine balanced_iff_depth.2 ⟨fun m => ?_, by omega⟩
  by_cases inside : i + 1 + m ≤ n
  · have part := Matches.depth_part bracket as (i := i) (Nat.le_add_right (i + 1) m) inside
    have high := h.within (i + 1 + m) (by omega) inside
    rw [Nat.add_sub_cancel_left] at part
    omega
  · rw [depth_of_length_le (by omega)]
    omega

/-- The loops open before an entry, read off the loops open before the next one. -/
theorem opens_take_succ {a : α} {opened : List Nat} (ha : as[n]? = some a)
    (h : opens bracket 0 [] (as.take (n + 1)) = .ok opened) :
    ∃ before, opens bracket 0 [] (as.take n) = .ok before ∧
      opens bracket n before [a] = .ok opened := by
  have inside : n < as.length := (List.getElem?_eq_some_iff.1 ha).1
  rw [List.take_add_one, ha, Option.toList_some, opens_append, List.length_take,
    min_eq_left inside.le, Nat.zero_add] at h
  cases before : opens bracket 0 [] (as.take n) with
  | error e =>
    rw [before] at h
    cases h
  | ok opened' =>
    rw [before] at h
    exact ⟨opened', rfl, h⟩

/-- The innermost open loop before an entry has its start at a loop start, and everything after it
keeps the level. -/
theorem level_of_opens {outer : List Nat} (le : n ≤ as.length)
    (h : opens bracket 0 [] (as.take n) = .ok (i :: outer)) :
    i < n ∧ as[i]?.bind bracket = some .opening ∧ Level bracket as (i + 1) n ∧
      opens bracket 0 [] (as.take i) = .ok outer := by
  -- A loop end leaves a loop open that was open before the start it closes, so the induction is
  -- over all shorter parts.
  induction n using Nat.strongRecOn generalizing i outer with
  | ind n ih =>
    cases n with
    | zero => cases h
    | succ n =>
      obtain ⟨a, ha⟩ : ∃ a, as[n]? = some a := ⟨_, List.getElem?_eq_getElem le⟩
      have here : as[n]?.bind bracket = bracket a := by simp [ha]
      obtain ⟨before, reached, last⟩ := opens_take_succ ha h
      have early := Nat.le_of_succ_le le
      cases side : bracket a with
      | none =>
        obtain rfl : before = i :: outer := by simpa [opens, side] using last
        obtain ⟨lt, opening, level, outside⟩ := ih n n.lt_succ_self early reached
        exact ⟨Nat.lt_succ_of_lt lt, opening, level.pass (here.trans side), outside⟩
      | some s =>
        cases s with
        | opening =>
          obtain ⟨rfl, rfl⟩ : n = i ∧ before = outer := by simpa [opens, side] using last
          exact ⟨n.lt_succ_self, here.trans side, Level.refl .., reached⟩
        | closing =>
          cases before with
          | nil => simp [opens, side] at last
          | cons k rest =>
            obtain rfl : rest = i :: outer := by simpa [opens, side] using last
            obtain ⟨lt, opening, level, outside⟩ := ih n n.lt_succ_self early reached
            obtain ⟨lt', opening', level', outside'⟩ :=
              ih k (Nat.lt_succ_of_lt lt) (lt.le.trans early) outside
            exact ⟨by omega, opening', level'.loop opening level (here.trans side), outside'⟩

/-- The loop that an end closes has the start that matches the end. -/
theorem Closes.matches (h : Closes bracket as i j) : Matches bracket as i j := by
  obtain ⟨closing, outer, reached⟩ := h
  have inside : j < as.length := by
    by_contra out
    simp [List.getElem?_eq_none (Nat.le_of_not_lt out)] at closing
  obtain ⟨lt, opening, level, -⟩ := level_of_opens inside.le reached
  exact ⟨lt, opening, closing, level.balanced lt inside.le⟩

/-- Where nothing is closed that is not open, every loop end closes a loop. -/
theorem exists_closes_of_opens {opened : List Nat} (whole : opens bracket 0 [] as = .ok opened)
    (closing : as[j]?.bind bracket = some .closing) : ∃ i, Closes bracket as i j := by
  obtain ⟨a, ha, side⟩ := Option.bind_eq_some_iff.1 closing
  rw [← List.take_append_drop (j + 1) as, opens_append] at whole
  cases reached : opens bracket 0 [] (as.take (j + 1)) with
  | error e =>
    rw [reached] at whole
    cases whole
  | ok opened =>
    obtain ⟨before, reached', last⟩ := opens_take_succ ha reached
    cases before with
    | nil => simp [opens, side] at last
    | cons i outer => exact ⟨i, closing, outer, reached'⟩

/-- In a balanced sequence every loop end closes a loop. -/
theorem exists_closes (balanced : Balanced bracket as)
    (closing : as[j]?.bind bracket = some .closing) : ∃ i, Closes bracket as i j :=
  exists_closes_of_opens (balanced_iff.1 balanced) closing

/-- With one entry more, the loops that are closed are the ones before it and, where the entry is a
loop end, the innermost open one. -/
theorem closes_concat_iff {a : α} :
    Closes bracket (as ++ [a]) i j ↔ Closes bracket as i j ∨
      j = as.length ∧ bracket a = some .closing ∧
        ∃ outer, opens bracket 0 [] as = .ok (i :: outer) := by
  rcases Nat.lt_trichotomy j as.length with before | rfl | behind
  · have here : (as ++ [a])[j]? = as[j]? := List.getElem?_append_left before
    have part : (as ++ [a]).take j = as.take j := List.take_append_of_le_length before.le
    constructor
    · rintro ⟨closing, innermost⟩
      exact .inl ⟨here ▸ closing, part ▸ innermost⟩
    · rintro (⟨closing, innermost⟩ | ⟨last, -⟩)
      · exact ⟨here.symm ▸ closing, part.symm ▸ innermost⟩
      · exact absurd last before.ne
  · constructor
    · rintro ⟨closing, innermost⟩
      exact .inr ⟨rfl, by simpa using closing, by simpa using innermost⟩
    · rintro (⟨closing, -⟩ | ⟨-, closing, innermost⟩)
      · simp at closing
      · exact ⟨by simpa using closing, by simpa using innermost⟩
  · constructor
    · rintro ⟨closing, -⟩
      rw [List.getElem?_eq_none (by rw [List.length_append]; exact behind)] at closing
      cases closing
    · rintro (⟨closing, -⟩ | ⟨last, -⟩)
      · rw [List.getElem?_eq_none behind.le] at closing
        cases closing
      · exact absurd last behind.ne'

/-- In a balanced sequence an end closes the loop whose start matches it, and no other. -/
theorem closes_iff_matches (balanced : Balanced bracket as) :
    Closes bracket as i j ↔ Matches bracket as i j := by
  refine ⟨Closes.matches, fun h => ?_⟩
  obtain ⟨i', closes⟩ := exists_closes balanced h.closing
  obtain rfl := closes.matches.left_unique h
  exact closes

/-- A relation that pairs the loop starts with the loop ends, one to one. -/
structure Pairing (bracket : α → Option Bracket) (as : List α) (names : Nat → Nat → Prop) :
    Prop where
  opening : ∀ {i j}, names i j → as[i]?.bind bracket = some .opening
  closing : ∀ {i j}, names i j → as[j]?.bind bracket = some .closing
  stop : ∀ i, as[i]?.bind bracket = some .opening → ∃ j, names i j
  start : ∀ j, as[j]?.bind bracket = some .closing → ∃ i, names i j
  right_unique : ∀ {i j k}, names i j → names i k → j = k
  left_unique : ∀ {i j k}, names i k → names j k → i = j

/-- Every start comes before its end, and no pair begins inside of another one and ends outside. -/
structure Uncrossed (names : Nat → Nat → Prop) : Prop where
  forward : ∀ {i j}, names i j → i < j
  apart : ∀ {i j k l}, names i j → names k l → ¬ (i < k ∧ k < j ∧ j < l)

/-- Two loops that match do not cross. -/
theorem Matches.not_crosses {l : Nat} (h : Matches bracket as i j) (h' : Matches bracket as k l) :
    ¬ (i < k ∧ k < j ∧ j < l) := by
  rintro ⟨later, inside, beyond⟩
  have deeper := h.depth_lt later inside.le
  have deeper' := h'.depth_lt (n := j + 1) (by omega) (by omega)
  have back := h.depth_eq
  omega

/-- Inside of a part the entries that match in the whole match as well. -/
theorem Matches.of_part {p q a b : Nat} (h : Matches bracket as (p + a) (p + b)) (lt : p + b < q) :
    Matches bracket ((as.take q).drop p) a b := by
  have place (m : Nat) (inside : p + m < q) :
      ((as.take q).drop p)[m]? = as[p + m]? := by
    rw [List.getElem?_drop, List.getElem?_take, if_pos inside]
  have before := h.lt
  have between : (((as.take q).drop p).take b).drop (a + 1) =
      (as.take (p + b)).drop (p + a + 1) := by
    rw [List.take_drop, List.take_take, min_eq_left lt.le, List.drop_drop, Nat.add_assoc]
  refine ⟨by omega, ?_, ?_, ?_⟩
  · rw [place a (by omega)]
    exact h.opening
  · rw [place b lt]
    exact h.closing
  · rw [between]
    exact h.inside

namespace Pairing

variable {names : Nat → Nat → Prop}

/-- Pairs that do not cross match. -/
theorem matches_of_uncrossed (h : Pairing bracket as names) (uncrossed : Uncrossed names)
    (pair : names i j) : Matches bracket as i j := by
  -- What is paired inside of a pair is paired within it, and so matches by induction on its width.
  induction width : j - i using Nat.strongRecOn generalizing i j with
  | ind w ih =>
    have lt := uncrossed.forward pair
    refine ⟨lt, h.opening pair, h.closing pair, balanced_of_matches ?_ ?_⟩
    · intro a opening
      have inside : i + 1 + a < j := by
        by_contra out
        rw [List.getElem?_drop, List.getElem?_take, if_neg out] at opening
        cases opening
      rw [List.getElem?_drop, List.getElem?_take, if_pos inside] at opening
      obtain ⟨l, hl⟩ := h.stop _ opening
      have later := uncrossed.forward hl
      have ends : l < j := by
        rcases Nat.lt_trichotomy l j with before | rfl | behind
        · exact before
        · have := h.left_unique hl pair
          omega
        · exact absurd ⟨by omega, inside, behind⟩ (uncrossed.apart pair hl)
      obtain ⟨b, rfl⟩ : ∃ b, l = i + 1 + b := ⟨l - (i + 1), by omega⟩
      exact ⟨b, (ih _ (by omega) hl rfl).of_part ends⟩
    · intro b closing
      have inside : i + 1 + b < j := by
        by_contra out
        rw [List.getElem?_drop, List.getElem?_take, if_neg out] at closing
        cases closing
      rw [List.getElem?_drop, List.getElem?_take, if_pos inside] at closing
      obtain ⟨k, hk⟩ := h.start _ closing
      have earlier := uncrossed.forward hk
      have starts : i < k := by
        rcases Nat.lt_trichotomy i k with behind | rfl | before
        · exact behind
        · have := h.right_unique hk pair
          omega
        · exact absurd ⟨before, by omega, inside⟩ (uncrossed.apart hk pair)
      obtain ⟨a, rfl⟩ : ∃ a, k = i + 1 + a := ⟨k - (i + 1), by omega⟩
      exact ⟨a, (ih _ (by omega) hk rfl).of_part inside⟩

/-- A pairing is the one by nesting exactly when no two of its pairs cross. -/
theorem forall_matches_iff (h : Pairing bracket as names) :
    (∀ i j, names i j → Matches bracket as i j) ↔ Uncrossed names := by
  constructor
  · intro nested
    refine ⟨fun pair => (nested _ _ pair).lt, fun pair pair' => ?_⟩
    exact (nested _ _ pair).not_crosses (nested _ _ pair')
  · intro uncrossed i j pair
    exact h.matches_of_uncrossed uncrossed pair

end Pairing

end ByteTape.Bracket
