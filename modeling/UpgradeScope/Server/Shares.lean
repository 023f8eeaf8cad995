import UpgradeScope.Engine.Usage
import UpgradeScope.Inventory.Admitted

/-!
# A scope's share of a cluster

`clusterShare` of `internal/server/scope.go` reduces an inventory to the evidence in the namespaces
of a scope's teams, which a team's gate is then answered from. `usageShare` divides the usage rows
and `volumeShare` the volume plugin rows, each by adding up the counts of the scope's namespaces:
`volumeShare` with `satAdd`, which stays at the largest integer, and `usageShare` with `+`, which
wraps around. So a share of the volume plugins keeps every row that has evidence in the scope
(`volumeShare_keeps`), and a share of the usage rows does only when no sum is lost (`usageShare_keeps_iff`).
-/

namespace UpgradeScope

open Go Sorting

/-! ## Adding counts -/

/-- `satAdd`: the sum of two counts, none of them negative, at most the largest `int`. -/
def satAdd (a b : ℤ) : ℤ := if max a 0 > maxInt - max b 0 then maxInt else max a 0 + max b 0

/-- Go's `+` on two counts. -/
def plainAdd (a b : ℤ) : ℤ := wrap64 (a + b)

/-- A sum of counts is the sum cut at the largest integer. -/
theorem satAdd_eq_min {a b : ℤ} (ha : 0 ≤ a) (hb : 0 ≤ b) : satAdd a b = min (a + b) maxInt := by
  unfold satAdd
  rw [max_eq_left ha, max_eq_left hb]
  split_ifs with h
  · exact (min_eq_right (by omega)).symm
  · exact (min_eq_left (by omega)).symm

/-- Counts added up with `satAdd` are their sum cut at the largest integer. -/
theorem foldl_satAdd {l : List ℤ} (hl : ∀ n ∈ l, 0 ≤ n) {a : ℤ} (ha : 0 ≤ a) (hmax : a ≤ maxInt) :
    l.foldl satAdd a = min (a + l.sum) maxInt := by
  induction l generalizing a with
  | nil => simpa using hmax
  | cons n l ih =>
    have hn : 0 ≤ n := hl n List.mem_cons_self
    have hsum : 0 ≤ l.sum := List.sum_nonneg fun m hm => hl m (List.mem_cons_of_mem _ hm)
    have hpos : (0 : ℤ) ≤ maxInt := by decide
    rw [List.foldl_cons, satAdd_eq_min ha hn, ih (fun m hm => hl m (List.mem_cons_of_mem _ hm)) (by omega) (by omega),
      List.sum_cons]
    omega

/-- Counts added up with `+` are their sum wrapped to 64 bits. -/
theorem foldl_plainAdd (l : List ℤ) {a : ℤ} (ha : wrap64 a = a) : l.foldl plainAdd a = wrap64 (a + l.sum) := by
  induction l generalizing a with
  | nil => simpa using ha.symm
  | cons n l ih =>
    have hback : wrap64 (plainAdd a n) = plainAdd a n := by
      unfold plainAdd wrap64
      exact Int.bmod_bmod
    rw [List.foldl_cons, ih hback, List.sum_cons]
    unfold plainAdd wrap64
    rw [Int.bmod_add_bmod, add_assoc]

/-- The sums `+` adds up to what `satAdd` does: those in range, and those that wrap around to the
largest integer. -/
theorem wrap64_eq_min_iff {s : ℤ} (hs : 0 ≤ s) : wrap64 s = min s maxInt ↔ s ≤ maxInt ∨ s % 2 ^ 64 = maxInt := by
  have hmod : wrap64 s = if s % 2 ^ 64 < 2 ^ 63 then s % 2 ^ 64 else s % 2 ^ 64 - 2 ^ 64 := by
    unfold wrap64
    rw [Int.bmod_def]
    norm_num
  have hlo : 0 ≤ s % 2 ^ 64 := Int.emod_nonneg _ (by norm_num)
  have hhi : s % 2 ^ 64 < 2 ^ 64 := Int.emod_lt_of_pos _ (by norm_num)
  rw [hmod]
  unfold maxInt
  by_cases h : s ≤ 2 ^ 63 - 1
  · rw [Int.emod_eq_of_lt hs (by omega)]
    simp only [h, true_or, iff_true]
    split_ifs <;> omega
  · simp only [h, false_or]
    split_ifs <;> omega

/-! ## Scopes -/

/-- `readScope`: the teams a caller reads, `none` for the whole fleet. -/
structure ReadScope where
  /-- The teams. -/
  teams : Option (List String)

/-- The namespaces that an inventory attributes to a team of a scope. -/
def inScope (teams : List String) (nsInfo : List NamespaceInfo) (ns : String) : Bool :=
  ns ≠ "" && teamOf nsInfo ns ≠ "" && teamOf nsInfo ns ∈ teams

/-- What a scope keeps of one row's counts and objects. -/
structure Share where
  /-- The counts of the scope's namespaces. -/
  namespaces : NamespaceCounts
  /-- Their sum. -/
  count : ℤ
  /-- The objects in them. -/
  objects : List ObjectRef
  /-- How many objects in them are not listed. -/
  objectsOmitted : ℤ

section Shares

variable («in» : String → Bool)

/-- The counts of the namespaces a scope keeps. -/
def keptCounts (m : NamespaceCounts) : NamespaceCounts where
  entries := m.entries.filter fun e => «in» e.1 && decide (0 < e.2)
  nodupKeys := m.nodupKeys.sublist List.filter_sublist

/-- The loop body that `usageShare` and `volumeShare` share, with the addition each of them uses;
`none` where it counts nothing in the scope. -/
def rowShare (add : ℤ → ℤ → ℤ) (namespaces : NamespaceCounts) (objects : List ObjectRef) : Option Share :=
  let counts := keptCounts «in» namespaces
  let count := (counts.entries.map (·.2)).foldl add 0
  if count = 0 then none
  else
    let objects := objects.filter fun o => «in» o.namespace
    some ⟨counts, count, objects, max 0 (wrap64 (count - objects.length))⟩

/-- The share of a usage row. -/
def shareOf (add : ℤ → ℤ → ℤ) (u : APIUsage) : Option APIUsage :=
  (rowShare «in» add u.namespaces u.objects).map fun s =>
    { u with namespaces := s.namespaces, count := s.count, objects := s.objects, objectsOmitted := s.objectsOmitted }

/-- `usageShare`. -/
def usageShare (us : List APIUsage) : List APIUsage := us.filterMap (shareOf «in» plainAdd)

/-- `volumeShare`. -/
def volumeShare (vs : List VolumePluginUse) : List VolumePluginUse :=
  vs.filterMap fun v => (rowShare «in» satAdd v.namespaces v.objects).map fun s =>
    { v with namespaces := s.namespaces, count := s.count, objects := s.objects, objectsOmitted := s.objectsOmitted }

end Shares

/-- `clusterShare`. -/
def ReadScope.clusterShare (sc : ReadScope) (inv : Inventory) : Inventory :=
  match sc.teams with
  | none => inv
  | some teams =>
    let «in» := inScope teams inv.namespaces
    { inv with
      namespaces := inv.namespaces.filter fun n => «in» n.name
      apiUsage := usageShare «in» inv.apiUsage
      apiAuthorshipUnknown := usageShare «in» inv.apiAuthorshipUnknown
      crds := inv.crds.map fun c => { c with usage := usageShare «in» c.usage }
      helmReleases := inv.helmReleases.filter fun r => «in» r.namespace
      gitopsCharts := inv.gitopsCharts.filter fun c => «in» c.namespace && (c.target = "" || «in» c.target)
      addOns := (inv.addOns.map fun a => { a with namespaces := a.namespaces.filter «in» }).filter (·.namespaces ≠ [])
      volumePlugins := volumeShare «in» inv.volumePlugins
      deprecatedCalls := []
      unrecognizedImages := []
      unrecognizedImagesOmitted := 0 }

/-! ## What a share is to keep -/

/-- What a row counts in the namespaces of a scope. -/
def scopeTotal («in» : String → Bool) (m : NamespaceCounts) : ℤ :=
  ((m.entries.filter fun e => «in» e.1 && decide (0 < e.2)).map (·.2)).sum

/-- A row counts something in a namespace of a scope. -/
def hasEvidence («in» : String → Bool) (u : APIUsage) : Bool := u.namespaces.entries.any fun e => «in» e.1 && decide (0 < e.2)

/-- A row of a share is the scope's part of a row: what it counts there, as far as an `int` goes, with
the objects it does not list left out of the listing. -/
structure KeptRow («in» : String → Bool) (u share : APIUsage) : Prop where
  /-- The row is of the same API. -/
  api : share.gvk = u.gvk
  /-- It counts something. -/
  positive : 0 < share.count
  /-- It counts what the scope's namespaces do, cut at the largest `int`. -/
  count : share.count = min (scopeTotal «in» u.namespaces) maxInt
  /-- What it does not list is omitted. -/
  omitted : share.count - share.objects.length ≤ share.objectsOmitted

/-- A share keeps the rows that have evidence in the scope, and no others. -/
def KeepsRows («in» : String → Bool) (us shares : List APIUsage) : Prop :=
  List.Forall₂ (KeptRow «in») (us.filter (hasEvidence «in»)) shares

/-- A share of an inventory keeps the rows with evidence in the scope of `teams`, in every list that
is divided by its counts. -/
structure ShareKeeps (teams : List String) (inv share : Inventory) : Prop where
  /-- The objects at flagged APIs. -/
  apiUsage : KeepsRows (inScope teams inv.namespaces) inv.apiUsage share.apiUsage
  /-- The objects nothing can be attributed to. -/
  unknown : KeepsRows (inScope teams inv.namespaces) inv.apiAuthorshipUnknown share.apiAuthorshipUnknown
  /-- The custom resources of each CRD. -/
  crds : List.Forall₂ (fun c c' => KeepsRows (inScope teams inv.namespaces) c.usage c'.usage) inv.crds share.crds
  /-- The volume plugins. -/
  volumes : KeepsRows (inScope teams inv.namespaces) (inv.volumePlugins.map (·.asUsage))
    (share.volumePlugins.map (·.asUsage))

/-- The sum of a row's counts in a scope that `+` does not lose: it is an `int`, or wraps around to
the largest one, which is what a saturated sum is. -/
def SumFits («in» : String → Bool) (u : APIUsage) : Prop :=
  scopeTotal «in» u.namespaces ≤ maxInt ∨ scopeTotal «in» u.namespaces % 2 ^ 64 = maxInt

/-- The usage rows of an inventory that a share divides. -/
def Inventory.dividedRows (inv : Inventory) : List APIUsage :=
  inv.apiUsage ++ inv.apiAuthorshipUnknown ++ inv.crds.flatMap (·.usage)

/-! ## One row -/

section Row

variable {«in» : String → Bool} {m : NamespaceCounts}

/-- The counts that a scope keeps are positive. -/
theorem pos_of_kept {n : ℤ} (h : n ∈ (m.entries.filter fun e => «in» e.1 && decide (0 < e.2)).map (·.2)) : 0 < n := by
  obtain ⟨e, he, rfl⟩ := List.mem_map.mp h
  simpa using (Bool.and_eq_true_iff.mp (List.mem_filter.mp he).2).2

/-- What a row counts in a scope is not negative. -/
theorem scopeTotal_nonneg («in» : String → Bool) (m : NamespaceCounts) : 0 ≤ scopeTotal «in» m :=
  List.sum_nonneg fun _ hn => (pos_of_kept hn).le

/-- What a scope has evidence of adds up to something, and nothing else does. -/
theorem scopeTotal_pos_iff {u : APIUsage} : 0 < scopeTotal «in» u.namespaces ↔ hasEvidence «in» u = true := by
  unfold scopeTotal hasEvidence
  rw [List.any_eq_true]
  constructor
  · intro hsum
    by_contra hnone
    rw [List.filter_eq_nil_iff.mpr fun e he hkept => hnone ⟨e, he, hkept⟩] at hsum
    simp at hsum
  · rintro ⟨e, he, hkept⟩
    refine List.sum_pos _ (fun _ hn => pos_of_kept hn) fun hnil => ?_
    rw [List.map_eq_nil_iff, List.filter_eq_nil_iff] at hnil
    exact hnil e he hkept

/-- The count of a row's share of the usage rows. -/
theorem count_plainAdd («in» : String → Bool) (m : NamespaceCounts) :
    ((keptCounts «in» m).entries.map (·.2)).foldl plainAdd 0 = wrap64 (scopeTotal «in» m) := by
  rw [foldl_plainAdd _ (by rfl), zero_add]
  rfl

/-- The count of a row's share of the volume plugins. -/
theorem count_satAdd («in» : String → Bool) (m : NamespaceCounts) :
    ((keptCounts «in» m).entries.map (·.2)).foldl satAdd 0 = min (scopeTotal «in» m) maxInt := by
  have hnonneg : ∀ n ∈ (keptCounts «in» m).entries.map (·.2), (0 : ℤ) ≤ n := fun _ hn => (pos_of_kept hn).le
  rw [foldl_satAdd hnonneg le_rfl (by decide), zero_add]
  rfl

variable {add : ℤ → ℤ → ℤ} {total : ℤ} {u : APIUsage}

/-- A row without evidence in the scope has no share, whether its sum wraps or saturates. -/
theorem shareOf_eq_none (hadd : add = plainAdd ∨ add = satAdd) (h : hasEvidence «in» u = false) :
    shareOf «in» add u = none := by
  have hzero : scopeTotal «in» u.namespaces = 0 := by
    have hnonneg := scopeTotal_nonneg «in» u.namespaces
    have hpos : ¬ 0 < scopeTotal «in» u.namespaces := (not_congr scopeTotal_pos_iff).mpr (by simp [h])
    omega
  unfold shareOf rowShare
  have hcount : ((keptCounts «in» u.namespaces).entries.map (·.2)).foldl add 0 = 0 := by
    rcases hadd with rfl | rfl
    · rw [count_plainAdd, hzero]
      rfl
    · rw [count_satAdd, hzero]
      rfl
  simp [hcount]

/-- A row with evidence in the scope has its share when its counts add up to what they are, cut at the
largest integer, and only then. -/
theorem keptRow_shareOf_iff (hlisted : u.objects.length ≤ maxObjectRefs) (hevidence : hasEvidence «in» u = true) :
    (∃ s, shareOf «in» add u = some s ∧ KeptRow «in» u s) ↔
      ((keptCounts «in» u.namespaces).entries.map (·.2)).foldl add 0 = min (scopeTotal «in» u.namespaces) maxInt := by
  have hpos := scopeTotal_pos_iff.mpr hevidence
  have hmax : (0 : ℤ) < maxInt := by decide
  unfold shareOf rowShare
  dsimp only
  generalize ((keptCounts «in» u.namespaces).entries.map (·.2)).foldl add 0 = count
  constructor
  · rintro ⟨s, hs, hkept⟩
    split_ifs at hs with hzero
    · simp at hs
    · rw [Option.map_some, Option.some.injEq] at hs
      subst hs
      exact hkept.count
  · intro hcount
    have hsome : 0 < count := by omega
    rw [if_neg hsome.ne', Option.map_some]
    refine ⟨_, rfl, rfl, hsome, hcount, ?_⟩
    have hfewer : (u.objects.filter fun o => «in» o.namespace).length ≤ maxObjectRefs :=
      (List.length_filter_le _ _).trans hlisted
    generalize (u.objects.filter fun o => «in» o.namespace).length = listed at hfewer
    have hrange : (listed : ℤ) ≤ 100 := by exact_mod_cast hfewer
    dsimp only
    rw [wrap64_of_range (by omega) (by omega)]
    exact le_max_right _ _

end Row

/-! ## Lists of rows -/

/-- A function that drops what a filter drops has the filtered elements' results. -/
theorem filterMap_filter_of_drop {α β : Type} {p : α → Bool} {f : α → Option β} {l : List α}
    (hdrop : ∀ a ∈ l, p a = false → f a = none) : (l.filter p).filterMap f = l.filterMap f := by
  rw [List.filterMap_filter]
  refine List.filterMap_congr fun a ha => ?_
  cases hp : p a with
  | false => simp [hdrop a ha hp]
  | true => simp

/-- Where a function drops what a filter drops, its results match the filtered elements one by one when each of these has one. -/
theorem forall₂_filter_filterMap {α β : Type} {R : α → β → Prop} {p : α → Bool} {f : α → Option β} {l : List α}
    (hdrop : ∀ a ∈ l, p a = false → f a = none) :
    List.Forall₂ R (l.filter p) (l.filterMap f) ↔ ∀ a ∈ l, p a = true → ∃ b, f a = some b ∧ R a b := by
  induction l with
  | nil => simp
  | cons a l ih =>
    have hrest : ∀ b ∈ l, p b = false → f b = none := fun b hb => hdrop b (List.mem_cons_of_mem _ hb)
    rw [List.forall_mem_cons, ← ih hrest]
    cases hp : p a with
    | false => simp [hp, hdrop a List.mem_cons_self hp]
    | true =>
      cases hf : f a with
      | some b => simp [hp, hf]
      | none =>
        -- One result too few: every other element has at most one.
        simp only [List.filter_cons, List.filterMap_cons, hp, hf, if_true, reduceCtorEq, false_and, exists_false,
          imp_false, not_true_eq_false, iff_false]
        intro hall
        have hlen := hall.length_eq
        have hle : (l.filterMap f).length ≤ (l.filter p).length := by
          rw [← filterMap_filter_of_drop hrest]
          exact List.length_filterMap_le f (l.filter p)
        rw [List.length_cons] at hlen
        omega

variable («in» : String → Bool)

/-- A share of usage rows keeps what it is to keep when the counts in the scope of each row add up
without loss, and only then. -/
theorem usageShare_keeps_iff {us : List APIUsage} (hus : ∀ u ∈ us, u.Admitted) :
    KeepsRows «in» us (usageShare «in» us) ↔ ∀ u ∈ us, SumFits «in» u := by
  have hdrop : ∀ u ∈ us, hasEvidence «in» u = false → shareOf «in» plainAdd u = none := fun u _ h =>
    shareOf_eq_none (.inl rfl) h
  unfold KeepsRows usageShare
  rw [forall₂_filter_filterMap hdrop]
  refine forall₂_congr fun u hu => ?_
  have hnonneg := scopeTotal_nonneg «in» u.namespaces
  cases hevidence : hasEvidence «in» u with
  | false =>
    have hpos : ¬ 0 < scopeTotal «in» u.namespaces := (not_congr scopeTotal_pos_iff).mpr (by simp [hevidence])
    have hmax : (0 : ℤ) < maxInt := by decide
    simp only [reduceCtorEq, false_imp_iff, true_iff]
    exact .inl (by omega)
  | true =>
    rw [keptRow_shareOf_iff (hus u hu).listed hevidence, count_plainAdd, wrap64_eq_min_iff hnonneg]
    exact ⟨fun h => h rfl, fun h _ => h⟩

/-- A share of the volume plugins is one of usage rows whose sums saturate. -/
theorem map_asUsage_volumeShare (vs : List VolumePluginUse) :
    (volumeShare «in» vs).map (·.asUsage) = (vs.map (·.asUsage)).filterMap (shareOf «in» satAdd) := by
  unfold volumeShare
  rw [List.map_filterMap, List.filterMap_map]
  refine List.filterMap_congr fun v _ => ?_
  unfold shareOf
  rw [Function.comp_apply, Option.map_map]
  rfl

/-- A share of the volume plugins keeps what it is to keep. -/
theorem volumeShare_keeps {vs : List VolumePluginUse} (hvs : ∀ v ∈ vs, v.asUsage.Admitted) :
    KeepsRows «in» (vs.map (·.asUsage)) ((volumeShare «in» vs).map (·.asUsage)) := by
  rw [map_asUsage_volumeShare]
  refine (forall₂_filter_filterMap fun u _ h => shareOf_eq_none (.inr rfl) h).mpr fun u hu hevidence => ?_
  obtain ⟨v, hv, rfl⟩ := List.mem_map.mp hu
  exact (keptRow_shareOf_iff (hvs v hv).listed hevidence).mpr (count_satAdd «in» _)

/-! ## The share of an inventory -/

/-- A team's share keeps the rows that have evidence in its namespaces, each with what they count
there, when no usage row's counts in them add up past the largest integer; or, if they do, to one
that wraps around to it. -/
theorem clusterShare_keeps_iff {X : External} {raw inv : Inventory} (hinv : admitInventory X raw = .ok inv)
    (teams : List String) : ShareKeeps teams inv (ReadScope.clusterShare ⟨some teams⟩ inv) ↔
      ∀ u ∈ inv.dividedRows, SumFits (inScope teams inv.namespaces) u := by
  have hadmitted := admitted_of_admitInventory hinv
  have hcrds : List.Forall₂ (fun c c' => KeepsRows (inScope teams inv.namespaces) c.usage c'.usage) inv.crds
      (inv.crds.map fun c => { c with usage := usageShare (inScope teams inv.namespaces) c.usage }) ↔
        ∀ c ∈ inv.crds, ∀ u ∈ c.usage, SumFits (inScope teams inv.namespaces) u := by
    rw [List.forall₂_map_right_iff, List.forall₂_same]
    exact forall₂_congr fun c hc => usageShare_keeps_iff _ (hadmitted.crds c hc).rows
  have husage := usageShare_keeps_iff (inScope teams inv.namespaces) hadmitted.apiUsage.rows
  have hunknown := usageShare_keeps_iff (inScope teams inv.namespaces) hadmitted.unknown.rows
  unfold Inventory.dividedRows
  simp only [List.forall_mem_append, List.forall_mem_flatMap]
  rw [← husage, ← hunknown, ← hcrds]
  constructor
  · rintro ⟨h1, h2, h3, -⟩
    exact ⟨⟨h1, h2⟩, h3⟩
  · rintro ⟨⟨h1, h2⟩, h3⟩
    exact ⟨h1, h2, h3, volumeShare_keeps _ hadmitted.volumes⟩

/-- A cluster with one removed API in use in four namespaces of a team, `n` objects in each. -/
def paymentsCluster (n : ℤ) : Inventory where
  namespaces := [⟨"a", "payments"⟩, ⟨"b", "payments"⟩, ⟨"c", "payments"⟩, ⟨"d", "payments"⟩]
  apiUsage :=
    [{ group := "policy", version := "v1beta1", kind := "PodDisruptionBudget", count := min (4 * n) maxInt
       namespaces := ((((∅ : NamespaceCounts).insert "a" n).insert "b" n).insert "c" n).insert "d" n
       objectsOmitted := min (4 * n) maxInt }]

/-- Eight objects of a team's namespaces are in its share. -/
theorem paymentsCluster_two_keeps : admitInventory External.ascii (paymentsCluster 2) = .ok (paymentsCluster 2) ∧
    ShareKeeps ["payments"] (paymentsCluster 2) (ReadScope.clusterShare ⟨some ["payments"]⟩ (paymentsCluster 2)) := by
  have hinv : admitInventory External.ascii (paymentsCluster 2) = .ok (paymentsCluster 2) :=
    (admitInventory_eq_ok _).mpr ⟨by decide +kernel, rfl⟩
  refine ⟨hinv, (clusterShare_keeps_iff hinv ["payments"]).mpr ?_⟩
  intro u hu
  obtain rfl := List.mem_singleton.mp (show u ∈ (paymentsCluster 2).apiUsage from by simpa [Inventory.dividedRows, paymentsCluster] using hu)
  exact .inl (by decide +kernel)

/-- With `2^62` objects in each, the counts add up to zero and the team's share has no row. -/
theorem paymentsCluster_drops_row : admitInventory External.ascii (paymentsCluster (2 ^ 62)) = .ok (paymentsCluster (2 ^ 62)) ∧
    (ReadScope.clusterShare ⟨some ["payments"]⟩ (paymentsCluster (2 ^ 62))).apiUsage.length = 0 ∧
    ¬ ShareKeeps ["payments"] (paymentsCluster (2 ^ 62))
      (ReadScope.clusterShare ⟨some ["payments"]⟩ (paymentsCluster (2 ^ 62))) := by
  have hnone : (ReadScope.clusterShare ⟨some ["payments"]⟩ (paymentsCluster (2 ^ 62))).apiUsage.length = 0 := by
    decide +kernel
  refine ⟨(admitInventory_eq_ok _).mpr ⟨by decide +kernel, rfl⟩, hnone, fun hkeeps => ?_⟩
  have hlen := hkeeps.apiUsage.length_eq
  rw [hnone] at hlen
  exact absurd hlen (by decide +kernel)

end UpgradeScope
