import Mathlib.Data.List.AList
import Mathlib.Tactic

/-!
# Merging counts and rows

A map from keys to integers as `AList`, read with zero for a missing key (`countAt`), and the sum of
its values (`total`): setting or erasing one key changes both by what was there, and adding the
entries of one map to another, key by key, adds both up (`addEntries_counts`). And rows with keys,
where a row is merged into the last row of its key or comes after them all (`upsertOn`): for lists
that name a key once, a run of merges is the old rows with what they are merged with, in their
order, and then the new ones (`foldl_upsertOn`).
-/

namespace Merging

/-! ## Maps of counts -/

section Counts

variable {κ : Type} [DecidableEq κ] {m : AList fun _ : κ => ℤ} {k j : κ} {v : ℤ}

/-- The count of a key, zero where there is none. -/
def countAt (m : AList fun _ : κ => ℤ) (k : κ) : ℤ := (m.lookup k).getD 0

/-- The sum of the counts. -/
def total (m : AList fun _ : κ => ℤ) : ℤ := (m.entries.map (·.2)).sum

omit [DecidableEq κ] in
/-- The empty map counts nothing. -/
theorem total_empty : total (∅ : AList fun _ : κ => ℤ) = 0 := rfl

/-- An entry of a map is its count. -/
theorem countAt_of_mem {e : Sigma fun _ : κ => ℤ} (h : e ∈ m.entries) : countAt m e.1 = e.2 := by
  unfold countAt
  rw [show m.lookup e.1 = some e.2 from AList.mem_lookup_iff.mpr h]
  rfl

/-- A count that is not zero is an entry. -/
theorem mem_entries_of_countAt (h : countAt m k ≠ 0) : ⟨k, countAt m k⟩ ∈ m.entries := by
  unfold countAt at h ⊢
  cases hl : m.lookup k with
  | none => simp [hl] at h
  | some v => exact AList.mem_lookup_iff.mp hl

/-- The counts of a map after one is set. -/
theorem countAt_insert : countAt (m.insert k v) j = if j = k then v else countAt m j := by
  unfold countAt
  split_ifs with h
  · rw [h, AList.lookup_insert]
    rfl
  · rw [AList.lookup_insert_ne h]

/-- The counts after a key is erased. -/
theorem countAt_erase : countAt (m.erase k) j = if j = k then 0 else countAt m j := by
  unfold countAt
  split_ifs with h
  · rw [h, AList.lookup_erase]
    rfl
  · rw [AList.lookup_erase_ne h]

/-- The sum after a key is erased. -/
theorem total_erase : total (m.erase k) = total m - countAt m k := by
  by_cases h : k ∈ m.entries.keys
  · obtain ⟨v, l₁, l₂, -, hsplit, herased⟩ := List.exists_of_kerase h
    have hcount : countAt m k = v := countAt_of_mem (e := ⟨k, v⟩) (by rw [hsplit]; simp)
    have hentries : (m.erase k).entries = l₁ ++ l₂ := herased
    unfold total
    rw [hcount, hentries, hsplit]
    simp only [List.map_append, List.map_cons, List.sum_append, List.sum_cons]
    ring
  · have hcount : countAt m k = 0 := by
      unfold countAt
      rw [AList.lookup_eq_none.mpr h]
      rfl
    have hentries : (m.erase k).entries = m.entries := List.kerase_of_notMem_keys h
    unfold total
    rw [hcount, hentries, sub_zero]

/-- The sum after a count is set. -/
theorem total_insert : total (m.insert k v) = total m - countAt m k + v := by
  have hentries : (m.insert k v).entries = ⟨k, v⟩ :: (m.erase k).entries := rfl
  have htotal : total (m.insert k v) = v + total (m.erase k) := by
    unfold total
    rw [hentries, List.map_cons, List.sum_cons]
  rw [htotal, total_erase]
  ring

/-- The entries of a map after one is set: that one, or another of the map. -/
theorem mem_entries_insert {e : Sigma fun _ : κ => ℤ} (h : e ∈ (m.insert k v).entries) : e = ⟨k, v⟩ ∨ e ∈ m.entries := by
  have hentries : (m.insert k v).entries = ⟨k, v⟩ :: m.entries.kerase k := rfl
  rw [hentries, List.mem_cons] at h
  exact h.imp_right fun h => (List.kerase_sublist k m.entries).subset h

/-- The entries of a map after a key is erased. -/
theorem mem_entries_erase {e : Sigma fun _ : κ => ℤ} (h : e ∈ (m.erase k).entries) : e ∈ m.entries :=
  (List.kerase_sublist k m.entries).subset h

/-- A count of a map without negative ones is not negative. -/
theorem countAt_nonneg (hm : ∀ e ∈ m.entries, (0 : ℤ) ≤ e.2) (k : κ) : 0 ≤ countAt m k := by
  by_cases h : countAt m k = 0
  · exact h.ge
  · exact hm _ (mem_entries_of_countAt h)

/-- A count of a map without negative ones is at most the sum. -/
theorem countAt_le_total (hm : ∀ e ∈ m.entries, (0 : ℤ) ≤ e.2) (k : κ) : countAt m k ≤ total m := by
  have hrest : 0 ≤ total (m.erase k) := by
    refine List.sum_nonneg fun n hn => ?_
    obtain ⟨e, he, rfl⟩ := List.mem_map.mp hn
    exact hm e (mem_entries_erase he)
  rw [total_erase] at hrest
  omega

/-! ### Adding one map to another -/

/-- The counts of a map with entries added to them, one by one. -/
def addEntries (add : ℤ → ℤ → ℤ) (m : AList fun _ : κ => ℤ) (l : List (Sigma fun _ : κ => ℤ)) : AList fun _ : κ => ℤ :=
  l.foldl (fun acc e => acc.insert e.1 (add (countAt acc e.1) e.2)) m

section Adding

variable {add : ℤ → ℤ → ℤ} {l : List (Sigma fun _ : κ => ℤ)}

/-- Entries of different keys add up key by key, where `add` adds. -/
theorem addEntries_counts (hkeys : l.NodupKeys) (hadd : ∀ e ∈ l, add (countAt m e.1) e.2 = countAt m e.1 + e.2) :
    total (addEntries add m l) = total m + (l.map (·.2)).sum ∧
      ∀ j, countAt (addEntries add m l) j = countAt m j + (l.dlookup j).getD 0 := by
  induction l generalizing m with
  | nil => simp [addEntries]
  | cons e l ih =>
    obtain ⟨hnew, hrest⟩ := List.nodupKeys_cons.mp hkeys
    have hother : ∀ e' ∈ l, e'.1 ≠ e.1 := fun e' he' heq => hnew (heq ▸ List.mem_map_of_mem he')
    have hset : add (countAt m e.1) e.2 = countAt m e.1 + e.2 := hadd e List.mem_cons_self
    obtain ⟨htotal, hcounts⟩ := ih (m := m.insert e.1 (add (countAt m e.1) e.2)) hrest fun e' he' => by
      rw [countAt_insert, if_neg (hother e' he')]
      exact hadd e' (List.mem_cons_of_mem _ he')
    have hstep : addEntries add m (e :: l) = addEntries add (m.insert e.1 (add (countAt m e.1) e.2)) l := rfl
    constructor
    · rw [hstep, htotal, total_insert, hset, List.map_cons, List.sum_cons]
      ring
    · intro j
      rw [hstep, hcounts, countAt_insert]
      by_cases hj : j = e.1
      · subst hj
        rw [if_pos rfl, List.dlookup_cons_eq, List.dlookup_eq_none.mpr hnew, hset]
        simp
      · rw [if_neg hj, List.dlookup_cons_ne _ _ hj]

/-- What holds of the counts of a map, and of what is added, holds of the result. -/
theorem forall_mem_addEntries {p : ℤ → Prop} (hm : ∀ e ∈ m.entries, p e.2) (hadd : ∀ a b, p (add a b)) :
    ∀ e ∈ (addEntries add m l).entries, p e.2 := by
  induction l generalizing m with
  | nil => exact hm
  | cons e l ih =>
    refine ih (m := m.insert e.1 (add (countAt m e.1) e.2)) fun e' he' => ?_
    rcases mem_entries_insert he' with rfl | he'
    · exact hadd _ _
    · exact hm e' he'

end Adding

end Counts

/-! ## Rows with keys -/

section Rows

variable {α κ : Type} [DecidableEq κ] {key : α → κ} {merge : α → α → α}

/-- The last element with a property, changed. -/
def modifyLast (p : α → Bool) (f : α → α) : List α → List α
  | [] => []
  | a :: l => if l.any p then a :: modifyLast p f l else if p a then f a :: l else a :: l

/-- A row merged into the last row of its key, or after them all. -/
def upsertOn (key : α → κ) (merge : α → α → α) (rows : List α) (m : α) : List α :=
  if rows.any (key · = key m) then modifyLast (key · = key m) (merge · m) rows else rows ++ [m]

/-- The elements after a change of the last one with a property. -/
theorem mem_modifyLast {p : α → Bool} {f : α → α} {l : List α} {a : α} (h : a ∈ modifyLast p f l) :
    a ∈ l ∨ ∃ b ∈ l, a = f b := by
  induction l with
  | nil => simp [modifyLast] at h
  | cons b l ih =>
    unfold modifyLast at h
    split_ifs at h
    · rcases List.mem_cons.mp h with rfl | h
      · exact .inl List.mem_cons_self
      · rcases ih h with h | ⟨c, hc, rfl⟩
        · exact .inl (List.mem_cons_of_mem _ h)
        · exact .inr ⟨c, List.mem_cons_of_mem _ hc, rfl⟩
    · rcases List.mem_cons.mp h with rfl | h
      · exact .inr ⟨b, List.mem_cons_self, rfl⟩
      · exact .inl (List.mem_cons_of_mem _ h)
    · exact .inl h

/-- The rows after one merge. -/
theorem mem_upsertOn {rows : List α} {m a : α} (h : a ∈ upsertOn key merge rows m) :
    a ∈ rows ∨ a = m ∨ ∃ b ∈ rows, a = merge b m := by
  unfold upsertOn at h
  split_ifs at h
  · exact (mem_modifyLast h).imp_right .inr
  · exact (List.mem_append.mp h).imp_right fun h => .inl (List.mem_singleton.mp h)

/-- A row has a key when the key is one of the rows'. -/
theorem any_key_iff {rows : List α} {k : κ} : rows.any (key · = k) = true ↔ k ∈ rows.map key := by
  rw [List.any_eq_true, List.mem_map]
  simp only [decide_eq_true_eq]

/-- Among rows of different keys, the last row of a key is the row of the key. -/
theorem modifyLast_eq_map {rows : List α} (hrows : (rows.map key).Nodup) (f : α → α) (k : κ) :
    modifyLast (key · = k) f rows = rows.map fun a => if key a = k then f a else a := by
  induction rows with
  | nil => rfl
  | cons a rows ih =>
    obtain ⟨hnew, hrest⟩ := List.nodup_cons.mp hrows
    unfold modifyLast
    by_cases hany : rows.any (key · = k) = true
    · obtain ⟨b, hb, hbk⟩ := List.any_eq_true.mp hany
      have hne : key a ≠ k := fun hak => hnew (List.mem_map.mpr ⟨b, hb, (of_decide_eq_true hbk).trans hak.symm⟩)
      rw [if_pos hany, ih hrest, List.map_cons, if_neg hne]
    · have hnone : ∀ b ∈ rows, key b ≠ k := fun b hb hbk => hany (List.any_eq_true.mpr ⟨b, hb, decide_eq_true hbk⟩)
      have hsame : rows.map (fun b => if key b = k then f b else b) = rows :=
        (List.map_congr_left fun b hb => if_neg (hnone b hb)).trans (List.map_id rows)
      rw [if_neg hany, List.map_cons, hsame]
      by_cases hak : key a = k
      · simp [hak]
      · simp [hak]

/-- Among rows of different keys, a row is found by its key. -/
theorem find?_key_of_mem {rows : List α} (hrows : (rows.map key).Nodup) {a : α} (ha : a ∈ rows) :
    rows.find? (key · = key a) = some a := by
  induction rows with
  | nil => simp at ha
  | cons b rows ih =>
    obtain ⟨hnew, hrest⟩ := List.nodup_cons.mp hrows
    rcases List.mem_cons.mp ha with rfl | ha
    · simp
    · have hne : key b ≠ key a := fun h => hnew (h ▸ List.mem_map_of_mem ha)
      rw [List.find?_cons_of_neg (by simpa using hne), ih hrest ha]

/-- A row merged with the row of its key among others, where there is one. -/
def mergedWith (key : α → κ) (merge : α → α → α) (ms : List α) (u : α) : α :=
  ((ms.find? (key · = key u)).map (merge u)).getD u

/-- Merging keeps keys. -/
theorem key_mergedWith (hmerge : ∀ u m, key (merge u m) = key u) (ms : List α) (u : α) :
    key (mergedWith key merge ms u) = key u := by
  unfold mergedWith
  cases ms.find? (key · = key u) with
  | none => rfl
  | some m => exact hmerge u m

/-- The keys after one merge. -/
theorem map_key_upsertOn (hmerge : ∀ u m, key (merge u m) = key u) {rows : List α} (hrows : (rows.map key).Nodup) (m : α) :
    (upsertOn key merge rows m).map key = rows.map key ++ if key m ∈ rows.map key then [] else [key m] := by
  unfold upsertOn
  by_cases hany : rows.any (key · = key m) = true
  · rw [if_pos hany, if_pos (any_key_iff.mp hany), modifyLast_eq_map hrows, List.map_map, List.append_nil]
    refine List.map_congr_left fun b _ => ?_
    rw [Function.comp_apply]
    split_ifs
    · exact hmerge b m
    · rfl
  · rw [if_neg hany, if_neg (mt any_key_iff.mpr hany), List.map_append, List.map_singleton]

/-- The rows after a run of merges: the old ones, each with the row of its key, and then the new ones. -/
theorem foldl_upsertOn (hmerge : ∀ u m, key (merge u m) = key u) {rows ms : List α} (hrows : (rows.map key).Nodup)
    (hms : (ms.map key).Nodup) :
    ms.foldl (upsertOn key merge) rows =
      rows.map (mergedWith key merge ms) ++ ms.filter fun m => !rows.any (key · = key m) := by
  induction ms generalizing rows with
  | nil =>
    have hnone : mergedWith key merge [] = id := rfl
    simp [hnone]
  | cons m ms ih =>
    obtain ⟨hnew, hrest⟩ := List.nodup_cons.mp hms
    have hkeys := map_key_upsertOn hmerge hrows m
    have hnodup : ((upsertOn key merge rows m).map key).Nodup := by
      rw [hkeys]
      split_ifs with hmem
      · simpa using hrows
      · exact List.nodup_append.mpr ⟨hrows, List.nodup_singleton _, fun a ha b hb => by
          rw [List.mem_singleton.mp hb]
          exact fun h => hmem (h ▸ ha)⟩
    rw [List.foldl_cons, ih hnodup hrest]
    -- No later row has the key of this one, so the rest see the old keys.
    have hlater : ∀ m' ∈ ms, key m' ≠ key m := fun m' hm' h => hnew (h ▸ List.mem_map_of_mem hm')
    have hfilter : ms.filter (fun m' => !(upsertOn key merge rows m).any (key · = key m')) =
        ms.filter fun m' => !rows.any (key · = key m') := by
      refine List.filter_congr fun m' hm' => ?_
      have hsame : (upsertOn key merge rows m).any (key · = key m') = rows.any (key · = key m') := by
        rw [Bool.eq_iff_iff, any_key_iff, any_key_iff, hkeys]
        split_ifs <;> simp [hlater m' hm']
      rw [hsame]
    have hfind : ms.find? (key · = key m) = none :=
      List.find?_eq_none.mpr fun m' hm' => by simpa using hlater m' hm'
    rw [hfilter]
    by_cases hany : rows.any (key · = key m) = true
    · rw [List.filter_cons_of_neg (by simpa using hany)]
      congr 1
      unfold upsertOn
      rw [if_pos hany, modifyLast_eq_map hrows, List.map_map]
      refine List.map_congr_left fun u _ => ?_
      rw [Function.comp_apply]
      by_cases hu : key u = key m
      · have hmergedKey : key (merge u m) = key m := (hmerge u m).trans hu
        simp [hu, mergedWith, hmergedKey, hfind]
      · have hu' : key m ≠ key u := fun h => hu h.symm
        simp [hu, hu', mergedWith]
    · have hself : mergedWith key merge ms m = m := by
        unfold mergedWith
        rw [hfind]
        rfl
      rw [List.filter_cons_of_pos (by simpa using hany)]
      unfold upsertOn
      rw [if_neg hany, List.map_append, List.map_singleton, hself, List.append_assoc, List.singleton_append]
      congr 1
      refine List.map_congr_left fun u hu => ?_
      have hu' : key m ≠ key u := fun h => hany (any_key_iff.mpr (h ▸ List.mem_map_of_mem hu))
      simp [hu', mergedWith]

end Rows

end Merging
