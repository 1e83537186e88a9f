import ByteTape.Proofs.Session.Limit
import ByteTape.Proofs.Session.Sharing

/-!
# What a step limit allows a session

A session with a step limit is told so many states after instructions at most, and one reply more
that ends its run. A stepper counts its own steps, so this holds however other sessions and runs
change the tape in between, and wherever jumps lead. Hence a run of such a session returns, with
fuel for one round more than that.
-/

namespace ByteTape

/-- Replies that a step limit allows, from the start of a run on: states after instructions, no more
than the limit says, and behind them at most one reply, which ends the run. -/
def Reply.Allowed (most : Int) (replies : List Reply) : Prop :=
  ∃ (shown : List Snapshot) (last : Option Reply),
    replies = shown.map (fun x => .ok (some x)) ++ last.toList ∧
    (∀ x ∈ shown, x.instruction ≠ none) ∧ shown.length ≤ most.toNat ∧ ∀ r ∈ last, r.Ends

/-- An error among the replies that a limit allows ends the run. -/
theorem Reply.Allowed.ends_of_error {most : Int} {replies : List Reply} (h : Allowed most replies)
    {e : RunError} (failed : .error e ∈ replies) : Ends (.error e) := by
  obtain ⟨shown, last, rfl, -, -, ends⟩ := h
  rcases List.mem_append.1 failed with early | late
  · obtain ⟨x, -, same⟩ := List.mem_map.1 early
    cases same
  · exact ends _ (Option.mem_toList.1 late)

/-! ## Sessions -/

namespace Listener

variable {code : Code} {w v : Workspace} {l l' : Listener} {most : Int}

/-- A session is metered: the states that it has been told and those that its stepper has left are
no more than its step limit allows. -/
inductive Metered (most : Int) : Listener → Prop where
  | going {s : Session} {shown : List Snapshot} (limited : s.Limited most)
      (steps : ∀ x ∈ shown, x.instruction ≠ none) (opened : s.stepper.stage ≠ .closed)
      (room : shown.length + s.stepper.left most ≤ most.toNat + 1) :
      Metered most ⟨s, shown.map fun x => .ok (some x)⟩
  | ended {s : Session} {shown : List Snapshot} {r : Reply} (limited : s.Limited most)
      (steps : ∀ x ∈ shown, x.instruction ≠ none) (closed : s.stepper.stage = .closed)
      (room : shown.length ≤ most.toNat) (ends : r.Ends) :
      Metered most ⟨s, (shown.map fun x => .ok (some x)) ++ [r]⟩

theorem Metered.limited (h : l.Metered most) : l.session.Limited most := by
  cases h with
  | going limited => exact limited
  | ended limited => exact limited

theorem Metered.allowed (h : l.Metered most) : Reply.Allowed most l.replies := by
  cases h with
  | @going s shown limited steps opened room =>
    have left := Stepper.left_pos opened most
    exact ⟨shown, none, by simp, steps, by omega, by simp⟩
  | @ended s shown r limited steps closed room ends =>
    exact ⟨shown, some r, rfl, steps, room, by simpa using ends⟩

/-- A run that begins has all of the limit left. -/
theorem metered_fresh {s : Session} (limited : s.Limited most) (fresh : s.stepper.stage = .fresh) :
    Metered most ⟨s, []⟩ := by
  have opened : s.stepper.stage ≠ .closed := by simp [fresh]
  have room : ([] : List Snapshot).length + s.stepper.left most ≤ most.toNat + 1 := by
    simpa using s.stepper.left_le most
  exact .going limited (by simp) opened room

/-- Changes that leave stepper and set-up alone change nothing about the limit. -/
theorem Metered.mark (h : l.Metered most) (b : Breakpoints) (hit : Option Nat) :
    Metered most ⟨{ l.session with breakpoints := b, hit := hit }, l.replies⟩ := by
  cases h with
  | going limited steps opened room =>
    exact .going ⟨limited.options, limited.stepper⟩ steps opened room
  | ended limited steps closed room ends =>
    exact .ended ⟨limited.options, limited.stepper⟩ steps closed room ends

/-- Every call uses up some of the limit or ends the run. -/
theorem Metered.call (h : l.Metered most) (paired : code.Paired)
    (opened : l.session.stepper.stage ≠ .closed) (w : Workspace) :
    Metered most ⟨l.session.hear (l.session.stepper.next code w),
      l.replies ++ [(l.session.stepper.next code w).yield]⟩ := by
  cases h with
  | ended limited steps closed room ends => exact absurd closed opened
  | @going s shown limited steps _ room =>
    have stepper := s.stepper_hear (s.stepper.next code w)
    have kept : (s.hear (s.stepper.next code w)).Limited most := by
      refine ⟨?_, ?_⟩
      · rw [Session.options_hear, limited.options]
      · rw [stepper, Stepper.next_limit, limited.stepper]
    rcases Stepper.next_cases paired opened w with
      ⟨x, v, t, next, named, goes⟩ | ⟨r, v, t, next, ends, closed⟩
    · have fewer : t.left most < s.stepper.left most := by
        have shows : (s.stepper.next code w).yield = .ok (some x) := by rw [next]
        simpa only [next] using Stepper.left_next limited.stepper shows
      rw [next] at kept stepper ⊢
      replace stepper : (s.hear ⟨.ok (some x), v, t⟩).stepper = t := stepper
      have all : ∀ y ∈ shown ++ [x], y.instruction ≠ none := by
        simpa [or_imp, forall_and] using ⟨steps, named⟩
      have room : (shown ++ [x]).length + (s.hear ⟨.ok (some x), v, t⟩).stepper.left most ≤
          most.toNat + 1 := by
        rw [stepper, List.length_append, List.length_singleton]
        omega
      simpa using Metered.going kept all (by rwa [stepper]) room
    · have left : 0 < s.stepper.left most := Stepper.left_pos opened most
      rw [next] at kept stepper ⊢
      exact .ended kept steps (by rwa [stepper]) (by omega) ends

theorem Step.options (h : Step code w l v l') : l'.session.options = l.session.options := by
  cases h with
  | call => exact Session.options_hear _ _
  | restart | reset | breakpoints | unhit => rfl

/-- Whatever a sound session does keeps it metered. -/
theorem Step.metered (h : Step code w l v l') (paired : code.Paired) (sound : l.Sound code)
    (metered : l.Metered most) : l'.Metered most := by
  cases h with
  | call unfinished => exact metered.call paired (sound.opened unfinished) w
  | restart => exact metered_fresh (Session.limited_restart metered.limited) rfl
  | reset =>
    have limited := metered.limited
    exact metered_fresh ⟨limited.options, limited.options⟩ rfl
  | breakpoints b => exact metered.mark b _
  | unhit => exact metered.mark _ none

end Listener

namespace Workshop

variable {p : Program} {a a' : Workshop} {i : Nat} {l : Listener} {most : Int}

/-- Every session with a step limit is metered. -/
def Metered (a : Workshop) : Prop :=
  ∀ l ∈ a.listeners, ∀ most, l.session.options.limit = some most → l.Metered most

theorem Event.metered (h : Event p a a') (sound : ∀ l ∈ a.listeners, l.Sound p.code)
    (metered : a.Metered) : a'.Metered := by
  cases h with
  | elsewhere event => exact metered
  | start o =>
    intro l inside most limited
    rcases List.mem_append.1 inside with before | new
    · exact metered l before most limited
    · obtain rfl := List.mem_singleton.1 new
      exact Listener.metered_fresh ⟨limited, limited⟩ rfl
  | session here step =>
    intro l inside most limited
    rcases List.mem_or_eq_of_mem_set inside with before | rfl
    · exact metered l before most limited
    · have member := List.mem_of_getElem? here
      rw [step.options] at limited
      exact step.metered p.paired (sound _ member) (metered _ member most limited)

theorem Reachable.metered (h : Reachable p a) : a.Metered := by
  induction h with
  | refl => exact fun l inside => absurd inside List.not_mem_nil
  | tail before event ih => exact event.metered (Reachable.sound before) ih

end Workshop

/-! ## Runs -/

/-- A run without a limit of its own that returns has come to the end or to a breakpoint. -/
theorem Session.stopped_of_runOn {code : Code} {fuel : Nat} {w : Workspace} {s : Session}
    {states : Array Snapshot} {o : Outcome} (ran : runOn code none fuel w s states = some o) :
    o.session.finished = true ∨ o.session.hit ≠ none := by
  have short := not_met_none
  induction fuel generalizing w s states with
  | zero => cases ran
  | succ fuel ih =>
    cases finished : s.finished with
    | true =>
      rw [runOn_of_finished (short states) finished] at ran
      obtain rfl := Option.some.inj ran
      exact .inl finished
    | false =>
      rcases next : s.stepper.next code w with ⟨e | _ | x, w', stepper⟩
      · rw [runOn_of_error (short states) finished next] at ran
        obtain rfl := Option.some.inj ran
        exact .inl rfl
      · rw [runOn_of_done (short states) finished next] at ran
        obtain rfl := Option.some.inj ran
        exact .inl rfl
      · rw [runOn_of_shown (short states) finished next] at ran
        split at ran
        · next hit =>
          obtain rfl := Option.some.inj ran
          have marked : (s.unhit.see stepper x).hit = some x.pc := hit_see.trans (if_pos hit)
          exact .inr (by simp [marked])
        · exact ih ran

namespace Workshop

variable {p : Program} {a : Workshop} {i : Nat} {l : Listener} {most : Int}

/-- A session with a step limit is told what the limit allows and no more, whatever has been done
with the program, its tape and the session itself since that was started. And a run of the session
that stops only at breakpoints returns, with fuel for one round more than there can be replies: at a
breakpoint, or with the run over. What it is told counts against the limit with all before it, and
where it fails, it does so at the limit or with its streams. -/
theorem limited_run_returns (h : Reachable p a) (here : a.listeners[i]? = some l)
    (limited : l.session.options.limit = some most) :
    Reply.Allowed most l.replies ∧
    ∀ fuel, most.toNat + 2 ≤ fuel → ∃ o replies,
      l.session.runUntilBreak p.code a.bench.workspace none fuel = some o ∧
      l.session.Operates p.code a.bench.workspace replies o ∧
      Reachable p (a.put i o.workspace ⟨o.session, l.replies ++ replies⟩) ∧
      Reply.Allowed most (l.replies ++ replies) ∧
      (o.session.finished = true ∨ o.session.hit ≠ none) ∧
      ∀ e, o.result = .error e → Reply.Ends (.error e) := by
  have metered := h.metered l (List.mem_of_getElem? here) most limited
  refine ⟨metered.allowed, fun fuel fueled => ?_⟩
  have enough : l.session.stepper.left most < fuel :=
    lt_of_le_of_lt (l.session.stepper.left_le most) fueled
  obtain ⟨o, ran⟩ : ∃ o, l.session.runUntilBreak p.code a.bench.workspace none fuel = some o :=
    Session.exists_runOn metered.limited none enough a.bench.workspace #[]
  obtain ⟨replies, operates⟩ := Session.exists_operates_runUntilBreak ran
  have reached := h.operates here operates
  have same : o.session.options = l.session.options :=
    ((Session.kept_continues p.code l.session).runUntilBreak ⟨rfl, rfl⟩ ran).options
  have after : Reply.Allowed most (l.replies ++ replies) :=
    (reached.metered _ (List.mem_of_getElem? (getElem?_put here _ _)) most
      (by rw [same, limited])).allowed
  refine ⟨o, replies, ran, operates, reached, after, Session.stopped_of_runOn ran, ?_⟩
  intro e failed
  have last := Reply.mem_of_answer_eq_error (operates.result.symm.trans failed)
  exact after.ends_of_error (List.mem_append_right _ last)

/-- In instructions whose loops cross, and which go on for ever, a session has taken a step when
another one takes its first, which clears the tape. A run of it ends at the limit. -/
theorem limited_run_returns_crossed :
    let is : Array Instruction := #[.counted .increment 1, .loopStart (some 3), .loopStart (some 4),
      .loopEnd 1, .loopEnd 2]
    ∃ p, Program.ofCode (.folded is) = .ok p ∧ ∃ a l, Reachable p a ∧ a.listeners[0]? = some l ∧
      a.listeners.length = 2 ∧ l.session.options.limit = some 7 ∧ l.replies.length = 1 ∧
      ∃ o, l.session.runUntilBreak p.code a.bench.workspace none 9 = some o ∧
        o.result = .error .stepLimit ∧ o.session.finished = true := by
  intro is
  obtain ⟨p, hp⟩ : ∃ p, Program.ofCode (.folded is) = .ok p := Program.exists_ofCode_iff.2 rfl
  have code := Program.ofCode_code hp
  obtain ⟨_, accepted⟩ := p
  subst code
  let code : Code := .folded is
  let s := Session.start code { limit := some 7 }
  let u := Session.start code {}
  let first := s.stepper.next code {}
  let other := u.stepper.next code first.workspace
  have started : Reachable ⟨code, accepted⟩ ⟨{}, [⟨s, []⟩, ⟨u, []⟩]⟩ :=
    (Relation.ReflTransGen.refl.tail (.start _)).tail (.start {})
  have cleared : Reachable ⟨code, accepted⟩ ⟨{ workspace := other.workspace },
      [⟨s.hear first, [first.yield]⟩, ⟨u.hear other, [other.yield]⟩]⟩ :=
    (started.tail (.session (i := 0) rfl (.call rfl))).tail (.session (i := 1) rfl (.call rfl))
  obtain ⟨o, -, ran, -⟩ := (limited_run_returns cleared (i := 0) rfl rfl).2 9 le_rfl
  have fails : ((s.hear first).runUntilBreak code other.workspace none 9).map
      (fun o => (o.result, o.session.finished)) = some (.error .stepLimit, true) := by rfl
  rw [ran] at fails
  obtain ⟨result, finished⟩ := Prod.mk.inj (Option.some.inj fails)
  exact ⟨_, hp, _, _, cleared, rfl, rfl, rfl, rfl, o, ran, result, finished⟩

end Workshop

end ByteTape
