import ByteTape.Instruction
import Mathlib.Data.List.Chain
import Mathlib.Logic.Relation

/-!
# Cancellation of opposite motions

Two command lists are congruent when one becomes the other by inserting and deleting neighbours that
undo each other. Deleting alone is a relation of its own: what it leaves is a part of the commands
it started from, in their order.
-/

namespace ByteTape.Command

/-- The smallest congruence that identifies a motion and its opposite with no command at all. -/
inductive Congruent : List Command → List Command → Prop where
  | pair (m : Motion) : Congruent [.motion m, .motion m.opposite] []
  | refl (cs : List Command) : Congruent cs cs
  | symm {cs ds : List Command} : Congruent cs ds → Congruent ds cs
  | trans {cs ds es : List Command} : Congruent cs ds → Congruent ds es → Congruent cs es
  | context {cs ds : List Command} (before after : List Command) :
      Congruent cs ds → Congruent (before ++ cs ++ after) (before ++ ds ++ after)

/-- Deleting one motion and the opposite motion right after it. -/
inductive Cancels : List Command → List Command → Prop where
  | pair (before after : List Command) (m : Motion) :
      Cancels (before ++ .motion m :: .motion m.opposite :: after) (before ++ after)

/-- Deleting such pairs one after the other. -/
def Reduces : List Command → List Command → Prop := Relation.ReflTransGen Cancels

theorem Reduces.refl (cs : List Command) : Reduces cs cs := Relation.ReflTransGen.refl

theorem Reduces.trans {cs ds es : List Command} (h : Reduces cs ds) (g : Reduces ds es) :
    Reduces cs es :=
  Relation.ReflTransGen.trans h g

theorem Cancels.append {cs ds : List Command} (h : Cancels cs ds) (after : List Command) :
    Cancels (cs ++ after) (ds ++ after) := by
  cases h with
  | pair before rest m => simpa using Cancels.pair before (rest ++ after) m

theorem Reduces.append {cs ds : List Command} (h : Reduces cs ds) (after : List Command) :
    Reduces (cs ++ after) (ds ++ after) := by
  induction h with
  | refl => exact .refl _
  | tail _ step ih => exact ih.tail (step.append after)

/-- A motion after a run of the opposite one shortens the run. -/
theorem reduces_replicate (before : List Command) (m : Motion) (n : Nat) :
    Reduces (before ++ List.replicate (n + 1) (.motion m.opposite) ++ [.motion m])
      (before ++ List.replicate n (.motion m.opposite)) := by
  have step := Cancels.pair (before ++ List.replicate n (.motion m.opposite)) [] m.opposite
  rw [Motion.opposite_opposite, List.append_nil] at step
  refine .single ?_
  simpa [List.replicate_succ'] using step

theorem Cancels.congruent {cs ds : List Command} (h : Cancels cs ds) : Congruent cs ds := by
  cases h with
  | pair before after m => simpa using Congruent.context before after (.pair m)

theorem Reduces.congruent {cs ds : List Command} (h : Reduces cs ds) : Congruent cs ds := by
  induction h with
  | refl => exact .refl cs
  | tail _ step ih => exact ih.trans step.congruent

/-- Neighbours that do not undo each other. -/
def Apart (c d : Command) : Prop := ∀ m, c = .motion m → d ≠ .motion m.opposite

/-- Where no neighbours undo each other there is nothing to delete. -/
theorem not_infix_of_isChain {cs : List Command} (h : cs.IsChain Apart) (m : Motion) :
    ¬ [.motion m, .motion m.opposite] <:+: cs := by
  intro found
  have apart := List.IsChain.infix h found
  exact List.isChain_pair.1 apart m rfl rfl

end ByteTape.Command
