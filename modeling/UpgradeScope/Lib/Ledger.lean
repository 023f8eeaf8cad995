import Mathlib.Algebra.BigOperators.Group.List.Basic
import Mathlib.Data.List.AList
import Mathlib.Tactic

/-!
# Weighted tables

The total weight of a table's entries, kept up to date by hand: an insertion adds the new entry's weight and takes off
the one it replaces, an erasure takes off the erased one.
-/

namespace Ledger

variable {K E : Type} (w : E → ℤ)

/-- The weights of a table's entries together. -/
def total (m : AList fun _ : K => E) : ℤ := (m.entries.map fun e => w e.2).sum

/-- A table without keys is empty. -/
theorem entries_eq_nil {m : AList fun _ : K => E} (h : ∀ k, k ∉ m) : m.entries = [] := by
  cases hm : m.entries with
  | nil => rfl
  | cons e rest =>
    refine absurd (AList.mem_keys.mpr ?_) (h e.1)
    show e.1 ∈ m.entries.keys
    rw [hm]
    simp

variable [DecidableEq K]

/-- The weight under a key, 0 where there is none. -/
def weightAt (m : AList fun _ : K => E) (k : K) : ℤ := ((m.lookup k).map w).getD 0

/-- Erasing a key takes off its weight. -/
theorem total_erase (m : AList fun _ : K => E) (k : K) : total w (m.erase k) = total w m - weightAt w m k := by
  unfold total weightAt
  by_cases hk : k ∈ m
  · obtain ⟨v, before, after, hbefore, hm, herase⟩ := List.exists_of_kerase (AList.mem_keys.mpr hk)
    have hlookup : m.lookup k = some v := by
      refine (AList.mem_lookup_iff).mpr ?_
      rw [hm]
      simp
    have hrest : (m.erase k).entries = before ++ after := herase
    rw [hlookup, hrest, hm]
    simp only [List.map_append, List.map_cons, List.sum_append, List.sum_cons, Option.map_some, Option.getD_some]
    ring
  · have hgone : (m.erase k).entries = m.entries := List.kerase_of_notMem_keys fun h => hk (AList.mem_keys.mp h)
    rw [hgone, AList.lookup_eq_none.mpr hk]
    simp

/-- Inserting an entry takes off the one it replaces and adds its own weight. -/
theorem total_insert (m : AList fun _ : K => E) (k : K) (v : E) :
    total w (m.insert k v) = total w m - weightAt w m k + w v := by
  have hentries : (m.insert k v).entries = ⟨k, v⟩ :: (m.erase k).entries := rfl
  have herase := total_erase w m k
  unfold total at herase ⊢
  rw [hentries, List.map_cons, List.sum_cons, herase]
  ring

end Ledger
