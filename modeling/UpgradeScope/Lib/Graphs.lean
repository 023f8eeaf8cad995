import Mathlib.Logic.Relation
import Mathlib.Order.WellFounded
import Mathlib.Data.Fintype.Pigeonhole

/-!
# Relations without cycles

A relation that leads back to no element of a finite type from a given one can be followed to its end, and the
other way round. Beside it, what it is for two lists of one length to match element by element.
-/

namespace Graphs

variable {α β : Type*} {r : α → α → Prop} {a b : α}

/-- What can be followed to its end does not lead to itself. -/
theorem not_rel_self_of_acc (h : Acc r a) : ¬r a a := by
  induction h with
  | intro a _ ih => exact fun ha => ih a ha ha

/-- Nothing that an accessible node leads to is on a cycle. -/
theorem not_transGen_of_acc (h : Acc (Function.swap r) a) (hb : Relation.ReflTransGen r a b) : ¬Relation.TransGen r b b := by
  have hacc : Acc (Function.swap r) b := by
    induction hb with
    | refl => exact h
    | tail _ hstep ih => exact ih.inv hstep
  intro hcycle
  exact not_rel_self_of_acc hacc.transGen (Relation.transGen_swap.mpr hcycle)

/-- The steps of a sequence lead from each element of it to the later ones. -/
theorem transGen_of_lt {f : ℕ → α} (hf : ∀ n, r (f n) (f (n + 1))) {i j : ℕ} (hij : i < j) :
    Relation.TransGen r (f i) (f j) := by
  induction j, hij using Nat.le_induction with
  | base => exact .single (hf i)
  | succ j _ ih => exact ih.tail (hf j)

/-- In a finite type, what leads to no cycle can be followed to its end. -/
theorem acc_of_acyclic [Finite α] (h : ∀ b, Relation.ReflTransGen r a b → ¬Relation.TransGen r b b) :
    Acc (Function.swap r) a := by
  by_contra hacc
  obtain ⟨f, rfl, hf⟩ := not_acc_iff_exists_descending_chain.mp hacc
  obtain ⟨i, j, hne, heq⟩ := Finite.exists_ne_map_eq_of_infinite f
  wlog hij : i < j generalizing i j
  · exact this j i hne.symm heq.symm (lt_of_le_of_ne (not_lt.mp hij) hne.symm)
  have hreach : Relation.ReflTransGen r (f 0) (f i) := by
    obtain rfl | hi := Nat.eq_zero_or_pos i
    · exact .refl
    · exact (transGen_of_lt hf hi).to_reflTransGen
  have hcycle := transGen_of_lt hf hij
  rw [← heq] at hcycle
  exact h _ hreach hcycle

/-- Every element of a list is matched in a list of the same length. -/
theorem exists_mem_zip {as : List α} {bs : List β} (hlen : as.length = bs.length) (ha : a ∈ as) :
    ∃ b, (a, b) ∈ as.zip bs := by
  obtain ⟨i, hi, rfl⟩ := List.getElem_of_mem ha
  have hlt : i < (as.zip bs).length := by
    rw [List.length_zip]
    omega
  have hmem := List.getElem_mem hlt
  rw [List.getElem_zip] at hmem
  exact ⟨_, hmem⟩

/-- Two lists that match one list, where what matches an element is unique, are the same. -/
theorem eq_of_zip {as : List α} {bs cs : List β} (hb : as.length = bs.length) (hc : as.length = cs.length)
    (h : ∀ a b c, (a, b) ∈ as.zip bs → (a, c) ∈ as.zip cs → b = c) : bs = cs := by
  induction as generalizing bs cs with
  | nil =>
    rw [List.length_eq_zero_iff.mp hb.symm, List.length_eq_zero_iff.mp hc.symm]
  | cons a as ih =>
    obtain ⟨b, bs, rfl⟩ := List.exists_cons_of_length_pos (by rw [← hb]; simp)
    obtain ⟨c, cs, rfl⟩ := List.exists_cons_of_length_pos (by rw [← hc]; simp)
    have hhead : b = c := h a b c (by simp) (by simp)
    have htail : bs = cs := ih (by simpa using hb) (by simpa using hc) fun a b c hab hac =>
      h a b c (List.mem_cons_of_mem _ hab) (List.mem_cons_of_mem _ hac)
    rw [hhead, htail]

end Graphs
