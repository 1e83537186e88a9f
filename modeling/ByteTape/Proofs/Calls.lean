import ByteTape.Proofs.Simulation
import ByteTape.Proofs.Walk

/-!
# Calls to the streams

What a run asks of its streams, in order. Streams are made to record it by a log beside their own
state, which answers nothing and so changes nothing in a run.
-/

namespace ByteTape

/-- One call to a stream. -/
inductive Call where
  | read
  | write (value : UInt8)
  | flush
  deriving DecidableEq, Repr

variable {σ τ : Type}

def Finish.map (f : σ → τ) (x : Finish σ) : Finish τ := ⟨x.result, x.machine, f x.device⟩

def Turn.map (f : σ → τ) : Turn σ → Turn τ
  | .next m s => .next m (f s)
  | .done x => .done (x.map f)

namespace Device

/-- Streams answer the same as others if a part of their state is forgotten. -/
structure Forgets (d : Device σ) (e : Device τ) (f : σ → τ) : Prop where
  read : ∀ x, Prod.map id f (d.read x) = e.read (f x)
  write : ∀ value x, Prod.map id f (d.write value x) = e.write value (f x)
  flush : ∀ x, Prod.map id f (d.flush x) = e.flush (f x)

section Forgets

variable {d : Device σ} {e : Device τ} {f : σ → τ}

theorem Forgets.turn (h : d.Forgets e f) (code : Code) (limit : Option Int) (m : Machine) (x : σ) :
    (d.turn code limit m x).map f = e.turn code limit m (f x) := by
  unfold Device.turn
  cases m.effect code limit with
  | ran m => rfl
  | wantsByte m =>
    simp only [← h.read]
    rcases d.read x with ⟨_ | _ | value, t⟩ <;> rfl
  | offersByte m =>
    simp only [← h.write]
    rcases d.write m.tape.read x with ⟨_ | _ | _, t⟩ <;> rfl
  | stopped m result =>
    cases result with
    | error e => rfl
    | ok u =>
      simp only [← h.flush]
      rcases d.flush x with ⟨_ | ⟨⟩, t⟩ <;> rfl

theorem Forgets.next (h : d.Forgets e f) (code : Code) (limit : Option Int) (x : Machine × σ) :
    Sum.LiftRel (fun x y => Prod.map id f x = y) (fun r r' => r.map f = r')
      (d.next code limit x) (e.next code limit (Prod.map id f x)) := by
  unfold Device.next
  rw [Prod.map_fst, Prod.map_snd, id, ← h.turn]
  cases d.turn code limit x.1 x.2 with
  | next m x => exact .inl rfl
  | done r => exact .inr rfl

/-- What is forgotten changes nothing in a run. -/
theorem Forgets.after (h : d.Forgets e f) (code : Code) (limit : Option Int) (n : Nat)
    (x : Machine × σ) :
    Sum.LiftRel (fun x y => Prod.map id f x = y) (fun r r' => r.map f = r')
      (after (d.next code limit) n x) (after (e.next code limit) n (Prod.map id f x)) := by
  refine after_liftRel (R := fun x y => Prod.map id f x = y) ?_ rfl n
  rintro y _ rfl
  exact h.next code limit y

end Forgets

/-- The same streams with a log of the calls, in order. -/
def logged (d : Device σ) : Device (σ × List Call) where
  read x := let (reply, s) := d.read x.1; (reply, s, x.2 ++ [.read])
  write value x := let (reply, s) := d.write value x.1; (reply, s, x.2 ++ [.write value])
  flush x := let (reply, s) := d.flush x.1; (reply, s, x.2 ++ [.flush])

/-- The log in the middle of a run or at its end. -/
def log (x : (Machine × σ × List Call) ⊕ Finish (σ × List Call)) : List Call :=
  x.elim (fun x => x.2.2) fun f => f.device.2

/-- The calls that a run without a step limit makes in its first `n` turns, or until it ends. -/
def calls (d : Device σ) (p : Program) (n : Nat) (s : σ) : List Call :=
  log (after (d.logged.next p.code none) n ({}, s, []))

/-- Forgetting the log leaves streams that answer the same. -/
theorem logged_forgets (d : Device σ) : d.logged.Forgets d Prod.fst :=
  ⟨fun _ => rfl, fun _ _ => rfl, fun _ => rfl⟩

/-- At the end of a run the log holds all its calls. -/
theorem exists_after_logged {d : Device σ} {p : Program} {n : Nat} {s : σ} {f : Finish σ}
    (h : d.execute p none n s = some f) :
    ∃ g, after (d.logged.next p.code none) n ({}, s, []) = .inr g ∧ g.map Prod.fst = f ∧
      d.calls p n s = g.device.2 := by
  have same := d.logged_forgets.after p.code none n ({}, s, [])
  obtain ⟨g, ended, forget⟩ := liftRel_inr_right.1 (resume_eq_some_iff.1 h ▸ same)
  exact ⟨g, ended, forget, by rw [calls, ended]; rfl⟩

end Device

end ByteTape
