import Mathlib.Logic.Relation
import Mathlib.Tactic

/-!
# Runs of a step relation

`Inevitable step P s` says that every run from `s` comes to a state with `P`, whatever the schedule: the run can go
on until then, and it does not go on for ever. It follows from an invariant, progress before `P`, and a measure that
every step makes smaller (`inevitable_of_measure`). What the start has and every step keeps holds all along (`of_run`).

`Exclusive` is what a lock is for: whoever holds it has locked it, and nobody else holds it.
-/

namespace Runs

variable {S : Type} {step : S → S → Prop} {P : S → Prop}

/-- Every run from the state comes to a state with `P`. -/
inductive Inevitable (step : S → S → Prop) (P : S → Prop) : S → Prop where
  /-- `P` holds. -/
  | now {s} : P s → Inevitable step P s
  /-- There is a step, and every step leads to a state from which `P` is inevitable. -/
  | later {s} : (∃ s', step s s') → (∀ s', step s s' → Inevitable step P s') → Inevitable step P s

/-- Where steps keep an invariant and make a measure smaller, and there is one until `P` holds, `P` is inevitable. -/
theorem inevitable_of_measure {I : S → Prop} (left : S → ℕ) (hkept : ∀ s s', I s → ¬ P s → step s s' → I s')
    (hless : ∀ s s', I s → step s s' → left s' < left s) (hprogress : ∀ s, I s → ¬ P s → ∃ s', step s s') {s : S}
    (hs : I s) : Inevitable step P s := by
  induction hn : left s using Nat.strong_induction_on generalizing s with
  | _ n ih =>
    by_cases hP : P s
    · exact .now hP
    · refine .later (hprogress s hs hP) fun s' hstep => ?_
      exact ih (left s') (hn ▸ hless s s' hs hstep) (hkept s s' hs hP hstep) rfl

/-- What holds at the start and what every step keeps holds in every state of a run. -/
theorem of_run {I : S → Prop} {s₀ s : S} (h : Relation.ReflTransGen step s₀ s) (hstart : I s₀)
    (hkept : ∀ {s s' : S}, I s → step s s' → I s') : I s := by
  induction h with
  | refl => exact hstart
  | tail _ hstep ih => exact hkept ih hstep

/-! ## Locks -/

section Exclusive

variable {ι : Type} {holds holds' : ι → Prop} {locked locked' : Prop}

/-- Whoever holds the lock has locked it, and nobody else holds it. -/
structure Exclusive (holds : ι → Prop) (locked : Prop) : Prop where
  /-- The lock is locked while it is held. -/
  locked : ∀ i, holds i → locked
  /-- No two hold it. -/
  alone : ∀ i j, holds i → holds j → i = j

/-- Nobody takes the lock and it stays as it is. -/
theorem Exclusive.keep (h : Exclusive holds locked) (hholds : ∀ i, holds' i → holds i) (hlocked : locked → locked') :
    Exclusive holds' locked' :=
  ⟨fun i hi => hlocked (h.locked i (hholds i hi)), fun i j hi hj => h.alone i j (hholds i hi) (hholds j hj)⟩

/-- Somebody takes a lock that was free. -/
theorem Exclusive.take (h : Exclusive holds locked) {i : ι} (hfree : ¬ locked) (hlocked : locked')
    (hholds : ∀ j, j ≠ i → holds' j → holds j) : Exclusive holds' locked' := by
  have honly : ∀ j, holds' j → j = i := by
    intro j hj
    by_contra hne
    exact hfree (h.locked j (hholds j hne hj))
  exact ⟨fun _ _ => hlocked, fun j k hj hk => (honly j hj).trans (honly k hk).symm⟩

/-- Whoever holds the lock gives it back. -/
theorem Exclusive.release (h : Exclusive holds locked) {i : ι} (hi : holds i) (hdone : ¬ holds' i)
    (hholds : ∀ j, j ≠ i → holds' j → holds j) : Exclusive holds' locked' := by
  have hnone : ∀ j, ¬ holds' j := by
    intro j hj
    by_cases hji : j = i
    · exact hdone (hji ▸ hj)
    · exact hji (h.alone j i (hholds j hji hj) hi)
  exact ⟨fun j hj => absurd hj (hnone j), fun j _ hj _ => absurd hj (hnone j)⟩

end Exclusive

end Runs
