import UpgradeScope.Lib.Strings

/-!
# Texts of segments

A text put together from segments with a separator between them is read back by `split`, where no segment holds the
separator (`split_segment`). Lists that are put together from pieces have no repetition when each piece has none and
something that is read off the elements tells the pieces apart (`nodup_flatMap_of_class`).
-/

namespace Go

variable {sep c : Char} {a : String} {s : List Char}

/-- Splitting a list at a separator that it does not hold. -/
theorem splitOn_of_notMem (h : sep ∉ s) : s.splitOn sep = [s] := by
  induction s with
  | nil => exact List.splitOn_nil sep
  | cons c s ih =>
    have hc : ¬ c = sep := fun hc => h (hc ▸ List.mem_cons_self)
    rw [List.splitOn_cons_eq_if_modifyHead, if_neg (by simpa using hc),
      ih fun hs => h (List.mem_cons_of_mem _ hs)]
    rfl

/-- Splitting a list at its first separator. -/
theorem splitOn_append {a : List Char} (h : sep ∉ a) (b : List Char) :
    (a ++ sep :: b).splitOn sep = a :: b.splitOn sep := by
  induction a with
  | nil =>
    rw [List.nil_append, List.splitOn_cons_eq_if_modifyHead, if_pos (by simp)]
  | cons c a ih =>
    have hc : ¬ c = sep := fun hc => h (hc ▸ List.mem_cons_self)
    rw [List.cons_append, List.splitOn_cons_eq_if_modifyHead, if_neg (by simpa using hc),
      ih fun ha => h (List.mem_cons_of_mem _ ha)]
    rfl

/-- The first segment of a text, before a slash. -/
theorem split_segment (h : '/' ∉ a.toList) (b : String) :
    split (a ++ ("/" ++ b)) '/' = a :: split b '/' := by
  have htext : (a ++ ("/" ++ b)).toList = a.toList ++ '/' :: b.toList := by simp
  unfold split
  rw [htext, splitOn_append h, List.map_cons, String.ofList_toList]

/-- A text without a slash is its only segment. -/
theorem split_last (h : '/' ∉ a.toList) : split a '/' = [a] := by
  unfold split
  rw [splitOn_of_notMem h, List.map_singleton, String.ofList_toList]

/-- A character of a list is the separator or in one of the parts. -/
theorem mem_splitOn_of_mem (h : c ∈ s) (hc : c ≠ sep) : ∃ p ∈ s.splitOn sep, c ∈ p := by
  induction s with
  | nil => simp at h
  | cons x s ih =>
    rw [List.splitOn_cons_eq_if_modifyHead]
    by_cases hx : (x == sep) = true
    · rw [if_pos hx]
      have hs : c ∈ s := (List.mem_cons.mp h).resolve_left fun he => hc (he.trans (by simpa using hx))
      obtain ⟨p, hp, hcp⟩ := ih hs
      exact ⟨p, List.mem_cons_of_mem _ hp, hcp⟩
    · rw [if_neg hx]
      obtain ⟨hd, tl, htl⟩ := List.exists_cons_of_ne_nil (List.splitOn_ne_nil sep s)
      rw [htl] at ih ⊢
      rcases List.mem_cons.mp h with rfl | hs
      · exact ⟨c :: hd, by simp, List.mem_cons_self⟩
      · obtain ⟨p, hp, hcp⟩ := ih hs
        rcases List.mem_cons.mp hp with rfl | hp
        · exact ⟨x :: p, by simp, List.mem_cons_of_mem _ hcp⟩
        · exact ⟨p, List.mem_cons_of_mem _ hp, hcp⟩

/-- A text whose parts are of some characters is of these and the separator. -/
theorem chars_of_split {s : String} {p : Char → Bool} (h : ∀ part ∈ split s sep, part.toList.all p = true)
    (hc : c ∈ s.toList) : c = sep ∨ p c = true := by
  by_cases hsep : c = sep
  · exact .inl hsep
  · obtain ⟨part, hpart, hcp⟩ := mem_splitOn_of_mem hc hsep
    have hall := h (String.ofList part) (List.mem_map_of_mem hpart)
    rw [String.toList_ofList] at hall
    exact .inr (List.all_eq_true.mp hall c hcp)

/-- Pieces without repetition, and a class of the elements that tells the pieces apart. -/
theorem nodup_flatMap_of_class {ι β γ : Type} (cls : β → γ) (tag : ι → γ) {is : List ι} {piece : ι → List β}
    (htag : (is.map tag).Nodup) (hcls : ∀ i ∈ is, ∀ b ∈ piece i, cls b = tag i) (hpiece : ∀ i ∈ is, (piece i).Nodup) :
    (is.flatMap piece).Nodup := by
  rw [List.nodup_flatMap]
  refine ⟨hpiece, (List.pairwise_map.mp htag).imp_of_mem fun {i j} hi hj hne => ?_⟩
  intro b hb hb'
  exact hne ((hcls i hi b hb).symm.trans (hcls j hj b hb'))

/-- What is made of some elements of a list has no repetition when it tells apart the keys of the elements, and the
list has none. -/
theorem nodup_filterMap_of_key {α β γ : Type} {f : α → Option β} {key : α → γ} {l : List α} (h : (l.map key).Nodup)
    (hf : ∀ a ∈ l, ∀ a' ∈ l, ∀ b, f a = some b → f a' = some b → key a = key a') : (l.filterMap f).Nodup := by
  induction l with
  | nil => exact List.nodup_nil
  | cons a l ih =>
    obtain ⟨hnot, hrest⟩ := List.nodup_cons.mp (by simpa using h : (key a :: l.map key).Nodup)
    have hl := ih hrest fun a₁ h₁ a₂ h₂ => hf a₁ (List.mem_cons_of_mem _ h₁) a₂ (List.mem_cons_of_mem _ h₂)
    cases ha : f a with
    | none =>
      rw [List.filterMap_cons_none ha]
      exact hl
    | some b =>
      rw [List.filterMap_cons_some ha]
      refine List.nodup_cons.mpr ⟨fun hb => hnot ?_, hl⟩
      obtain ⟨a', ha', hb'⟩ := List.mem_filterMap.mp hb
      rw [hf a List.mem_cons_self a' (List.mem_cons_of_mem _ ha') b ha hb']
      exact List.mem_map_of_mem ha'

end Go
