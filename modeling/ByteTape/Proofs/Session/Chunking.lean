import ByteTape.Proofs.Session.Playing

/-!
# Steps in chunks

It makes no difference in how many operations steps are taken. A run with a limit takes as many
steps as the limit tells, and steps that are taken after others, where those have not stopped at a
breakpoint, could have been taken with them. In both cases the states shown are the same, and so is
what is left of the session and of its workspace.
-/

namespace ByteTape

/-- An outcome that follows on states shown before. -/
def Outcome.after (o : Outcome) (states : Array Snapshot) : Outcome :=
  { o with result := o.result.map (states ++ ·) }

theorem Outcome.after_empty (o : Outcome) : o.after #[] = o := by
  obtain ⟨_ | states, w, s⟩ := o
  · rfl
  · simp [after, Except.map]

namespace Session

variable {code : Code} {s t : Session} {w v : Workspace} {states shown : Array Snapshot}
  {count fuel m n : Nat}

/-! ## Steps after others -/

/-- States shown before are kept in front. -/
theorem stepOn_append (before : Array Snapshot) :
    stepOn code count w s (before ++ states) = (stepOn code count w s states).after before := by
  induction count generalizing w s states with
  | zero => rfl
  | succ count ih =>
    cases going : s.finished with
    | true =>
      rw [stepOn_of_finished going, stepOn_of_finished going]
      rfl
    | false =>
      rcases next : s.stepper.next code w with ⟨e | _ | x, w', stepper⟩
      · rw [stepOn_of_error going next, stepOn_of_error going next]
        rfl
      · rw [stepOn_of_done going next, stepOn_of_done going next]
        rfl
      · rw [stepOn_of_shown going next, stepOn_of_shown going next, ← Array.append_push]
        split
        · rfl
        · exact ih

/-- Steps after others are taken with them, unless those have stopped at a breakpoint. -/
theorem stepOn_add (h : stepOn code m w s states = ⟨.ok shown, v, t⟩) (unhit : t.hit = none) :
    stepOn code (m + n) w s states = stepOn code n v t shown := by
  -- Where the first steps end early the session is over, and takes no steps after them either.
  induction m generalizing w s states with
  | zero =>
    cases h
    rw [Nat.zero_add]
  | succ m ih =>
    rw [Nat.succ_add]
    cases going : s.finished with
    | true =>
      rw [stepOn_of_finished going] at h ⊢
      cases h
      rw [stepOn_of_finished going]
    | false =>
      rcases next : s.stepper.next code w with ⟨e | _ | x, w', stepper⟩
      · rw [stepOn_of_error going next] at h
        cases h
      · rw [stepOn_of_done going next] at h ⊢
        cases h
        rw [stepOn_of_finished rfl]
      · rw [stepOn_of_shown going next] at h ⊢
        by_cases hit : x.instruction ≠ none ∧ (x.pc : Int) ∈ s.breakpoints
        · rw [if_pos hit] at h
          cases h
          rw [hit_see, if_pos hit] at unhit
          cases unhit
        · rw [if_neg hit] at h ⊢
          exact ih h

/-- A run with a limit takes as many steps as there are left to it. -/
theorem runOn_eq_stepOn (unhit : s.hit = none) (fueled : count < fuel) :
    runOn code (some (states.size + count : Nat)) fuel w s states =
      some (stepOn code count w s states) := by
  have same := unhit_of_hit_eq_none unhit
  induction count generalizing fuel w s states with
  | zero =>
    obtain ⟨fuel, rfl⟩ := Nat.exists_eq_succ_of_ne_zero fueled.ne'
    exact runOn_of_met ⟨_, rfl, le_rfl⟩
  | succ count ih =>
    obtain ⟨fuel, rfl⟩ := Nat.exists_eq_succ_of_ne_zero (Nat.ne_zero_of_lt fueled)
    have short : ¬ Met (some (states.size + (count + 1) : Nat)) states := by
      rintro ⟨most, bound, le⟩
      obtain rfl := Option.some.inj bound
      omega
    cases going : s.finished with
    | true => rw [runOn_of_finished short going, stepOn_of_finished going, same]
    | false =>
      rcases next : s.stepper.next code w with ⟨e | _ | x, w', stepper⟩
      · rw [runOn_of_error short going next, stepOn_of_error going next, same]
      · rw [runOn_of_done short going next, stepOn_of_done going next, same]
      · rw [runOn_of_shown short going next, stepOn_of_shown going next, same]
        split
        · rfl
        · rename_i free
          have unhit : (s.see stepper x).hit = none := by rw [hit_see, if_neg free, unhit]
          rw [← ih unhit (Nat.lt_of_succ_lt_succ fueled) (unhit_of_hit_eq_none unhit),
            Array.size_push, Nat.add_assoc, Nat.add_comm 1 count]

/-! ## Chunks -/

/-- An old hit is forgotten before the first step. -/
theorem runOn_unhit {limit : Option Int} (short : ¬ Met limit states) :
    runOn code limit fuel w s.unhit states = runOn code limit fuel w s states := by
  cases fuel with
  | zero => rfl
  | succ fuel =>
    rw [runOn, runOn, if_neg (mt any_eq_true_iff.1 short), if_neg (mt any_eq_true_iff.1 short)]
    rfl

theorem stepForward_of_pos (pos : 0 < n) :
    s.stepForward code w n = stepOn code n w s.unhit #[] := by
  rw [stepForward, if_neg (by omega), Int.toNat_natCast]
  rfl

theorem stepForward_of_unhit (unhit : s.hit = none) :
    s.stepForward code w n = stepOn code n w s #[] := by
  rcases Nat.eq_zero_or_pos n with rfl | pos
  · rfl
  · rw [stepForward_of_pos pos, unhit_of_hit_eq_none unhit]

theorem stepForward_of_nonpos {limit : Int} (nonpos : limit ≤ 0) :
    s.stepForward code w limit = ⟨.ok #[], w, s⟩ := by
  rw [stepForward, if_pos nonpos]

/-- A run with a limit does what taking so many steps does. -/
theorem runUntilBreak_eq_stepForward {limit : Int} (fueled : limit.toNat < fuel) :
    s.runUntilBreak code w (some limit) fuel = some (s.stepForward code w limit) := by
  by_cases nonpos : limit ≤ 0
  · obtain ⟨fuel, rfl⟩ := Nat.exists_eq_succ_of_ne_zero (Nat.ne_zero_of_lt fueled)
    rw [stepForward_of_nonpos nonpos]
    exact runOn_of_met ⟨limit, rfl, nonpos⟩
  · obtain ⟨n, rfl⟩ := Int.eq_ofNat_of_zero_le (Int.not_le.1 nonpos).le
    rw [Int.toNat_natCast] at fueled
    have short : ¬ Met (some (n : Int)) #[] := by
      rintro ⟨most, bound, le⟩
      obtain rfl := Option.some.inj bound
      exact nonpos le
    have same : runOn code (some ((#[] : Array Snapshot).size + n : Nat)) fuel w s.unhit #[] =
        some (stepOn code n w s.unhit #[]) := runOn_eq_stepOn rfl fueled
    rw [Array.size_empty, Nat.zero_add] at same
    rw [stepForward_of_pos (by omega), runUntilBreak, ← runOn_unhit short, same]

/-- Steps in two chunks are steps in one. -/
theorem stepForward_add (h : s.stepForward code w m = ⟨.ok shown, v, t⟩)
    (unhit : 0 < m → t.hit = none) :
    s.stepForward code w (m + n : Nat) = (t.stepForward code v n).after shown := by
  rcases Nat.eq_zero_or_pos m with rfl | pos
  · cases h
    rw [Nat.zero_add, Outcome.after_empty]
  · rw [stepForward_of_pos pos] at h
    rw [stepForward_of_pos (by omega), stepForward_of_unhit (unhit pos), ← stepOn_append,
      Array.append_empty]
    exact stepOn_add h (unhit pos)

/-- The chunks in which steps are taken cannot be told from what comes of them. A run with a limit
does what taking so many steps does: it answers the same and leaves the same. Steps that are taken
after others, which have not failed and not stopped at a breakpoint, leave what all of them leave
when they are taken at once, and the states of both are the states of all, or the error is. -/
theorem chunks_of_steps (s : Session) (code : Code) (w : Workspace) :
    (∀ (n : Int) (fuel : Nat), n.toNat < fuel →
      s.runUntilBreak code w (some n) fuel = some (s.stepForward code w n)) ∧
    ∀ m n : Nat,
      let first := s.stepForward code w m
      let second := first.session.stepForward code first.workspace n
      ∀ shown, first.result = .ok shown → (0 < m → first.session.hit = none) →
        s.stepForward code w (m + n : Nat) =
          ⟨second.result.map (shown ++ ·), second.workspace, second.session⟩ := by
  refine ⟨fun n fuel fueled => runUntilBreak_eq_stepForward fueled, ?_⟩
  intro m n first second shown done unhit
  have whole : first = ⟨.ok shown, first.workspace, first.session⟩ := done ▸ rfl
  exact stepForward_add whole unhit

/-- Two steps and then up to three more, the first of which hits a breakpoint, while the history has
room for two states only. Up to five steps at once, or a run for as many, do the same. -/
theorem chunks_of_steps_up_to_hit : ∃ p, Program.ofCommands
      [.motion .increment, .motion .increment, .motion .increment, .output] = .ok p ∧
    let s := (start p.code { historyLimit := 2 }).addBreakpoint 3
    let first := s.stepForward p.code {} 2
    let second := first.session.stepForward p.code first.workspace 3
    ∃ shown more, first.result = .ok shown ∧ shown.size = 2 ∧ first.session.hit = none ∧
      second.result = .ok more ∧ more.size = 1 ∧ second.session.hit = some 3 ∧
      s.stepForward p.code {} 5 = ⟨.ok (shown ++ more), second.workspace, second.session⟩ ∧
      s.runUntilBreak p.code {} (some 5) 6 =
        some ⟨.ok (shown ++ more), second.workspace, second.session⟩ := by
  obtain ⟨p, hp⟩ : ∃ p, Program.ofCommands
    [.motion .increment, .motion .increment, .motion .increment, .output] = .ok p := ⟨_, rfl⟩
  have code := Program.ofCode_code hp
  let s := (start p.code { historyLimit := 2 }).addBreakpoint 3
  let first := s.stepForward p.code {} 2
  let second := first.session.stepForward p.code first.workspace 3
  obtain ⟨shown, more, done, size, unhit, further, one, hit⟩ : ∃ shown more,
      first.result = .ok shown ∧ shown.size = 2 ∧ first.session.hit = none ∧
      second.result = .ok more ∧ more.size = 1 ∧ second.session.hit = some 3 := by
    obtain ⟨_, _⟩ := p
    subst code
    exact ⟨_, _, rfl, rfl, rfl, rfl, rfl, rfl⟩
  obtain ⟨limited, joined⟩ := s.chunks_of_steps p.code {}
  have whole : s.stepForward p.code {} 5 =
      ⟨second.result.map (shown ++ ·), second.workspace, second.session⟩ :=
    joined 2 3 shown done fun _ => unhit
  rw [further] at whole
  exact ⟨p, hp, shown, more, done, size, unhit, further, one, hit, whole,
    (limited 5 6 (by decide)).trans (congrArg some whole)⟩

end Session

end ByteTape
