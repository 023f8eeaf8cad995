import UpgradeScope.Inventory.Admit

/-!
# What an admitted inventory satisfies

`Admit` refuses an inventory at its first problem, so what it lets through has none: every usage row
and volume plugin row counts nothing negative and lists at most `maxObjectRefs` objects, and each
list names a group, version and kind once. It does not bound a count from above, and it does not
compare a row's counts with each other.
-/

namespace UpgradeScope

open Go Sorting

section Problems

variable {X : External}

/-- A list has no problem when none of its elements has one, at whatever index. -/
theorem firstProblem_eq_none {α : Type} {l : List α} {check : α → ℕ → Option AdmitError} {ok : α → Prop}
    (hok : ∀ a i, check a i = none ↔ ok a) : firstProblem l check = none ↔ ∀ a ∈ l, ok a := by
  unfold firstProblem
  rw [List.findSome?_eq_none_iff]
  constructor
  · intro h a ha
    obtain ⟨n, hn⟩ := List.mem_iff_getElem?.mp ha
    exact (hok a n).mp (h (a, n) (List.mk_mem_zipIdx_iff_getElem?.mpr hn))
  · intro h p hp
    exact (hok p.1 p.2).mpr (h p.1 (List.mem_of_getElem? (List.mk_mem_zipIdx_iff_getElem?.mp hp)))

/-- Each element of a list without a problem passes its check, at its index. -/
theorem exists_check_of_firstProblem {α : Type} {l : List α} {check : α → ℕ → Option AdmitError}
    (h : firstProblem l check = none) {a : α} (ha : a ∈ l) : ∃ i, l[i]? = some a ∧ check a i = none := by
  unfold firstProblem at h
  rw [List.findSome?_eq_none_iff] at h
  obtain ⟨n, hn⟩ := List.mem_iff_getElem?.mp ha
  exact ⟨n, hn, h (a, n) (List.mk_mem_zipIdx_iff_getElem?.mpr hn)⟩

/-- An identifier has no problem when it is unset or valid. -/
theorem checkIdentifier_eq_none {field value rule : String} {problems : String → List String} :
    checkIdentifier field value rule problems = none ↔ value = "" ∨ problems value = [] := by
  unfold checkIdentifier
  split_ifs with h
  · simp [h]
  · simp [h]

end Problems

/-! ## Rows -/

/-- What admission makes sure of in one row. -/
structure APIUsage.Admitted (u : APIUsage) : Prop where
  /-- The row does not count fewer than none. -/
  count : 0 ≤ u.count
  /-- Nor does it leave out fewer than none. -/
  omitted : 0 ≤ u.objectsOmitted
  /-- Nor does a namespace of it. -/
  namespaces : ∀ e ∈ u.namespaces.entries, (0 : ℤ) ≤ e.2
  /-- The row lists no more objects than a collector does. -/
  listed : u.objects.length ≤ maxObjectRefs

section Rows

variable {X : External}

/-- A row that `negativeCount` finds nothing in has no negative count. -/
theorem negativeCount_eq_none {u : APIUsage} (h : negativeCount X u = none) :
    0 ≤ u.count ∧ 0 ≤ u.objectsOmitted ∧ ∀ e ∈ u.namespaces.entries, (0 : ℤ) ≤ e.2 := by
  unfold negativeCount at h
  dsimp only at h
  split_ifs at h with hcount homitted
  refine ⟨not_lt.mp hcount, not_lt.mp homitted, fun e he => ?_⟩
  rw [Option.map_eq_none_iff, List.head?_eq_none_iff] at h
  have hnone : u.namespaces.keys.filter (fun ns => ((u.namespaces.lookup ns).getD 0) < 0) = [] := by
    have hperm := sortOn_perm id (u.namespaces.keys.filter fun ns => ((u.namespaces.lookup ns).getD 0) < 0)
    rw [show sortOn id _ = [] from h] at hperm
    exact hperm.symm.eq_nil
  have hkey : e.1 ∈ u.namespaces.keys := List.mem_map_of_mem he
  have hlookup : u.namespaces.lookup e.1 = some e.2 := AList.mem_lookup_iff.mpr he
  have hnot := List.filter_eq_nil_iff.mp hnone e.1 hkey
  simpa [hlookup] using hnot

/-- The rows of a list of usage rows that `validateUsages` finds no problem in. -/
theorem admitted_of_validateUsages {field : String} {us : List APIUsage} (h : validateUsages X field us = none) :
    ∀ u ∈ us, u.Admitted := by
  intro u hu
  obtain ⟨i, -, hcheck⟩ := exists_check_of_firstProblem h hu
  dsimp only at hcheck
  split at hcheck
  · simp at hcheck
  · simp only [Option.orElse_eq_none, Option.map_eq_none_iff] at hcheck
    obtain ⟨hnegative, hlisted, -⟩ := hcheck
    obtain ⟨hcount, homitted, hnamespaces⟩ := negativeCount_eq_none hnegative
    refine ⟨hcount, homitted, hnamespaces, ?_⟩
    split_ifs at hlisted with hlong
    exact not_lt.mp hlong

/-- A list of usage rows that `validateUsages` finds no problem in names each API once. -/
theorem nodup_gvk_of_validateUsages {field : String} {us : List APIUsage} (h : validateUsages X field us = none) :
    (us.map APIUsage.gvk).Nodup := by
  unfold validateUsages firstProblem at h
  rw [List.findSome?_eq_none_iff] at h
  rw [List.Nodup, List.pairwise_map, List.pairwise_iff_getElem]
  intro j i hj hi hlt heq
  have hcheck := h (us[i], i) (List.mk_mem_zipIdx_iff_getElem?.mpr (List.getElem?_eq_getElem hi))
  dsimp only at hcheck
  split at hcheck
  · simp at hcheck
  case h_2 hnone =>
    rw [List.findIdx?_eq_none_iff] at hnone
    have hmem : us[j] ∈ us.take i := List.mem_take_iff_getElem.mpr ⟨j, by omega, rfl⟩
    exact absurd (decide_eq_true heq) (by simpa using hnone _ hmem)

/-- A volume plugin row that `validateVolume` finds no problem in. -/
theorem admitted_of_validateVolume {before : List VolumePluginUse} {v : VolumePluginUse} {i : ℕ}
    (h : validateVolume X before v i = none) : v.asUsage.Admitted := by
  unfold validateVolume at h
  dsimp only at h
  split_ifs at h with hplugin hbefore hlong
  simp only [Option.orElse_eq_none, Option.map_eq_none_iff] at h
  obtain ⟨hcount, homitted, hnamespaces⟩ := negativeCount_eq_none h.1
  exact ⟨hcount, homitted, hnamespaces, not_lt.mp hlong⟩

end Rows

/-! ## Inventories -/

/-- What admission makes sure of in a list of usage rows. -/
structure UsagesAdmitted (us : List APIUsage) : Prop where
  /-- Every row is admitted. -/
  rows : ∀ u ∈ us, u.Admitted
  /-- A group, version and kind is counted once. -/
  once : (us.map APIUsage.gvk).Nodup

/-- What admission makes sure of in every row of an inventory. -/
structure Inventory.Admitted (inv : Inventory) : Prop where
  /-- The objects at flagged APIs. -/
  apiUsage : UsagesAdmitted inv.apiUsage
  /-- The objects nothing can be attributed to. -/
  unknown : UsagesAdmitted inv.apiAuthorshipUnknown
  /-- The stored manifests of the Helm releases. -/
  manifests : ∀ r ∈ inv.helmReleases, UsagesAdmitted r.manifestAPIs
  /-- The custom resources. -/
  crds : ∀ c ∈ inv.crds, UsagesAdmitted c.usage
  /-- The volume plugins. -/
  volumes : ∀ v ∈ inv.volumePlugins, v.asUsage.Admitted

/-- An admitted inventory's rows are admitted. -/
theorem admitted_of_admitInventory {X : External} {raw inv : Inventory} (h : admitInventory X raw = .ok inv) :
    inv.Admitted := by
  obtain ⟨hproblem, rfl⟩ := (admitInventory_eq_ok X).mp h
  unfold admitProblem at hproblem
  simp only [Option.orElse_eq_none] at hproblem
  obtain ⟨-, -, -, -, hlimits⟩ := hproblem
  unfold validateLimits at hlimits
  simp only [Option.orElse_eq_none] at hlimits
  obtain ⟨husage, hunknown, hreleases, hcrds, -, -, hvolumes, -⟩ := hlimits
  have hrows : ∀ {field us}, validateUsages X field us = none → UsagesAdmitted us := fun hus =>
    ⟨admitted_of_validateUsages hus, nodup_gvk_of_validateUsages hus⟩
  refine ⟨hrows husage, hrows hunknown, fun r hr => ?_, fun c hc => ?_, fun v hv => ?_⟩
  · obtain ⟨i, -, hcheck⟩ := exists_check_of_firstProblem hreleases hr
    exact hrows hcheck
  · obtain ⟨i, -, hcheck⟩ := exists_check_of_firstProblem hcrds hc
    exact hrows hcheck
  · unfold validateVolumeLimits at hvolumes
    split_ifs at hvolumes
    obtain ⟨i, -, hcheck⟩ := exists_check_of_firstProblem hvolumes hv
    exact admitted_of_validateVolume hcheck

end UpgradeScope
