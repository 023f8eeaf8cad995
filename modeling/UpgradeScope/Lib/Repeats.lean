import UpgradeScope.Lib.Reorder

/-!
# Leaving out repeats

A list that leaves out some elements of another one that stand in it before (`Trims`). Joining, mapping and filtering
keep the relation, and what reads only whether and where an element stands first reads both lists alike: membership,
the first element of a kind, and a loop that an element met before does not change (`Trims.foldl_eq`). Keeping the
first element of each key trims a list whose elements have keys of their own (`trims_distinctOn`).
-/

namespace Repeats

open Sorting

variable {α β : Type}

/-- The second list is the first without some elements that stand before. -/
inductive Trims : List α → List α → Prop where
  /-- Nothing to leave out. -/
  | nil : Trims [] []
  /-- An element that stays. -/
  | keep {l l' : List α} (a : α) : Trims l l' → Trims (l ++ [a]) (l' ++ [a])
  /-- An element left out. -/
  | drop {l l' : List α} {a : α} : a ∈ l → Trims l l' → Trims (l ++ [a]) l'

namespace Trims

variable {l l' m m' : List α} {a : α}

/-- A list leaves out nothing of itself. -/
theorem refl (l : List α) : Trims l l := by
  induction l using List.reverseRecOn with
  | nil => exact nil
  | append_singleton l a ih => exact ih.keep a

/-- A list and the list without its repeats have the same elements. -/
theorem mem_iff (h : Trims l l') (a : α) : a ∈ l ↔ a ∈ l' := by
  induction h with
  | nil => rfl
  | keep b _ ih => rw [List.mem_append, List.mem_append, ih]
  | @drop l l' b hb _ ih =>
    rw [List.mem_append, List.mem_singleton, ← ih]
    refine or_iff_left_of_imp fun hab => ?_
    rw [hab]
    exact hb

/-- A list is empty when the list without its repeats is. -/
theorem eq_nil_iff (h : Trims l l') : l = [] ↔ l' = [] := by
  simp only [List.eq_nil_iff_forall_not_mem, h.mem_iff]

/-- Some element of a list has a property when one of the list without its repeats does. -/
theorem any_eq (h : Trims l l') (p : α → Bool) : l.any p = l'.any p := by
  rw [Bool.eq_iff_iff, List.any_eq_true, List.any_eq_true]
  simp only [h.mem_iff]

/-- A list and the list without its repeats have the same set. -/
theorem sortedSet_eq [LinearOrder α] (h : Trims l l') : sortedSet l = sortedSet l' := by
  rw [← sorted_eq_sortedSet (List.nodup_dedup l) fun a => List.mem_dedup]
  exact sorted_eq_sortedSet (List.nodup_dedup l) fun a => List.mem_dedup.trans (h.mem_iff a)

/-- More elements that stand before, left out. -/
theorem drop_all (h : Trims l l') (hm : ∀ b ∈ m, b ∈ l) : Trims (l ++ m) l' := by
  induction m using List.reverseRecOn with
  | nil =>
    rw [List.append_nil]
    exact h
  | append_singleton m b ih =>
    have hb : b ∈ l := hm b (by simp)
    rw [← List.append_assoc]
    exact drop (List.mem_append_left m hb) (ih fun c hc => hm c (List.mem_append_left _ hc))

/-- Lists joined, and their lists without repeats joined, differ in repeats only. -/
theorem append (h : Trims l l') (hm : Trims m m') : Trims (l ++ m) (l' ++ m') := by
  induction hm with
  | nil =>
    rw [List.append_nil, List.append_nil]
    exact h
  | keep b _ ih =>
    rw [← List.append_assoc, ← List.append_assoc]
    exact ih.keep b
  | drop hb _ ih =>
    rw [← List.append_assoc]
    exact drop (List.mem_append_right _ hb) ih

/-- Filtering two lists that differ in repeats only leaves two that do. -/
theorem filter (h : Trims l l') (p : α → Bool) : Trims (l.filter p) (l'.filter p) := by
  induction h with
  | nil => exact nil
  | keep b _ ih =>
    rw [List.filter_append, List.filter_append]
    exact ih.append (refl _)
  | @drop l l' b hb _ ih =>
    rw [List.filter_append]
    refine ih.drop_all fun c hc => ?_
    obtain ⟨hcb, hp⟩ := List.mem_filter.mp hc
    rw [List.mem_singleton.mp hcb] at hp ⊢
    exact List.mem_filter.mpr ⟨hb, hp⟩

/-- Joining the lists made of the elements of two lists that differ in repeats only gives two that do. -/
theorem flatMap (h : Trims l l') (f : α → List β) : Trims (l.flatMap f) (l'.flatMap f) := by
  induction h with
  | nil => exact nil
  | keep b _ ih =>
    rw [List.flatMap_append, List.flatMap_append]
    exact ih.append (refl _)
  | @drop l l' b hb _ ih =>
    rw [List.flatMap_append]
    refine ih.drop_all fun c hc => ?_
    rw [List.flatMap_singleton] at hc
    exact List.mem_flatMap.mpr ⟨b, hb, hc⟩

/-- What is made of the elements, one by one. -/
theorem map (h : Trims l l') (f : α → β) : Trims (l.map f) (l'.map f) := by
  rw [List.map_eq_flatMap, List.map_eq_flatMap]
  exact h.flatMap _

/-- The first element of a kind is the same. -/
theorem find?_eq (h : Trims l l') (p : α → Bool) : l.find? p = l'.find? p := by
  induction h with
  | nil => rfl
  | keep b _ ih => rw [List.find?_append, List.find?_append, ih]
  | @drop l l' b hb _ ih =>
    rw [List.find?_append, ← ih]
    cases hfind : l.find? p with
    | some c => rfl
    | none =>
      have hnot : p b = false := by simpa using List.find?_eq_none.mp hfind b hb
      simp [hnot]

/-- A loop ends alike where an element that it has met does not change its state. -/
theorem foldl_eq {f : β → α → β} {s : β} (h : Trims l l')
    (hagain : ∀ (m : List α) (a : α), (∀ b ∈ m, b ∈ l) → a ∈ m → f (m.foldl f s) a = m.foldl f s) :
    l.foldl f s = l'.foldl f s := by
  induction h with
  | nil => rfl
  | @keep l l' b _ ih =>
    have hrest := ih fun m a hm => hagain m a fun c hc => List.mem_append_left _ (hm c hc)
    rw [List.foldl_append, List.foldl_append, hrest]
  | @drop l l' b hb _ ih =>
    have hrest := ih fun m a hm => hagain m a fun c hc => List.mem_append_left _ (hm c hc)
    rw [List.foldl_append, ← hrest]
    exact hagain l b (fun c hc => List.mem_append_left _ hc) hb

end Trims

/-- The first element of each key, where different elements have different keys. -/
theorem trims_distinctOn {κ : Type} [DecidableEq κ] {key : α → κ} {l : List α}
    (h : ∀ a ∈ l, ∀ b ∈ l, key a = key b → a = b) : Trims l (distinctOn key l) := by
  induction l using List.reverseRecOn with
  | nil => exact .nil
  | append_singleton l a ih =>
    have hrest := ih fun b hb c hc => h b (List.mem_append_left _ hb) c (List.mem_append_left _ hc)
    rw [distinctOn_concat]
    split_ifs with hmet
    · obtain ⟨b, hb, hkey⟩ := List.mem_map.mp hmet
      have hba : b = a := h b (List.mem_append_left _ hb) a (by simp) hkey
      rw [List.append_nil]
      exact .drop (hba ▸ hb) hrest
    · exact hrest.keep a

end Repeats
