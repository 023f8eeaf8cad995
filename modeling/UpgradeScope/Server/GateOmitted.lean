import UpgradeScope.Engine.Termination
import UpgradeScope.Inventory.Admitted
import UpgradeScope.Server.Omitted

/-!
# What the gate's merge leaves out

The state that a gate evaluates is merged from a scope's share of a cluster and the posted stream, and
every number of objects it leaves out is added with `satAdd`: it is in range, and a merged row leaves
out no less than each row it is merged of (`mergeCarries`). So the numbers of a gate's answer depend on
the same sums as those of an evaluation, and on what the cut of the listings adds to them
(`omitted_iff`).
-/

namespace UpgradeScope

open Go Sorting Merging Kb Registry Suppress

/-! ## Numbers that saturate -/

/-- A sum of `satAdd` is in range. -/
theorem omitsInt_satAdd (a b : ℤ) : OmitsInt (satAdd a b) := by
  refine ⟨satAdd_nonneg a b, ?_⟩
  unfold satAdd
  split_ifs <;> omega

/-- A sum of `satAdd` is no less than its first number. -/
theorem le_satAdd_left {a : ℤ} (b : ℤ) (ha : a ≤ maxInt) : a ≤ satAdd a b := by
  unfold satAdd
  split_ifs <;> omega

/-- A sum of `satAdd` is no less than its second number. -/
theorem le_satAdd_right (a : ℤ) {b : ℤ} (hb : b ≤ maxInt) : b ≤ satAdd a b := by
  unfold satAdd
  split_ifs <;> omega

/-! ## Merged rows -/

/-- Rows are merged into rows that leave out no less. -/
def Carried (rows merged : List APIUsage) : Prop :=
  ∀ u ∈ rows, ∃ r ∈ merged, r.gvk = u.gvk ∧ u.objectsOmitted ≤ r.objectsOmitted

section Rows

variable {cluster manifests : List APIUsage}

/-- The merged usage rows leave out a number in range. -/
theorem omitsInt_upsertUsage (hcluster : ∀ u ∈ cluster, OmitsInt u.objectsOmitted)
    (hmanifests : ∀ m ∈ manifests, OmitsInt m.objectsOmitted) :
    ∀ r ∈ upsertUsage cluster manifests, OmitsInt r.objectsOmitted := by
  unfold upsertUsage
  induction manifests generalizing cluster with
  | nil => exact hcluster
  | cons m manifests ih =>
    rw [List.foldl_cons]
    refine ih (fun r hr => ?_) fun m' hm' => hmanifests m' (List.mem_cons_of_mem _ hm')
    rcases mem_upsertOn hr with hr | rfl | ⟨u, -, rfl⟩
    · exact hcluster r hr
    · exact hmanifests r List.mem_cons_self
    · exact omitsInt_satAdd _ _

/-- The merged usage rows leave out no less than those they are merged of. -/
theorem carried_upsertUsage (honce : (cluster.map APIUsage.gvk).Nodup) (honce' : (manifests.map APIUsage.gvk).Nodup)
    (hcluster : ∀ u ∈ cluster, OmitsInt u.objectsOmitted) (hmanifests : ∀ m ∈ manifests, OmitsInt m.objectsOmitted) :
    Carried (cluster ++ manifests) (upsertUsage cluster manifests) := by
  rw [upsertUsage_eq honce honce']
  intro u hu
  rcases List.mem_append.mp hu with hu | hu
  · refine ⟨_, List.mem_append_left _ (List.mem_map_of_mem hu), key_mergedWith gvk_upsertRow manifests u, ?_⟩
    rcases mergedWith_upsertRow u with heq | ⟨m, hm, -, heq⟩
    · rw [heq]
    · rw [heq]
      exact le_satAdd_left _ (hcluster u hu).2
  · by_cases hmem : cluster.any (·.gvk = u.gvk) = true
    · obtain ⟨r, hr, hgvk⟩ := List.mem_map.mp (any_key_iff.mp hmem)
      have hfind : manifests.find? (fun m => m.gvk = r.gvk) = some u := hgvk ▸ find?_key_of_mem honce' hu
      refine ⟨_, List.mem_append_left _ (List.mem_map_of_mem hr), (key_mergedWith gvk_upsertRow manifests r).trans hgvk, ?_⟩
      unfold mergedWith
      rw [hfind]
      exact le_satAdd_right _ (hmanifests u hu).2
    · exact ⟨u, List.mem_append_right _ (List.mem_filter.mpr ⟨hu, by simpa using hmem⟩), rfl, le_refl _⟩

/-- What a loop over volume plugin rows makes of a row. -/
theorem foldl_addVolumes {vs : List VolumePluginUse} {m : VolumePluginUse} (hm : OmitsInt m.objectsOmitted ∧ m.count ≤ maxInt)
    (hvs : ∀ v ∈ vs, OmitsInt v.objectsOmitted) :
    (vs.foldl addVolumes m).plugin = m.plugin ∧
      (OmitsInt (vs.foldl addVolumes m).objectsOmitted ∧ (vs.foldl addVolumes m).count ≤ maxInt) ∧
      m.objectsOmitted ≤ (vs.foldl addVolumes m).objectsOmitted ∧
      ∀ v ∈ vs, v.objectsOmitted ≤ (vs.foldl addVolumes m).objectsOmitted := by
  induction vs generalizing m with
  | nil => exact ⟨rfl, hm, le_refl _, by simp⟩
  | cons v vs ih =>
    have hstep : OmitsInt (addVolumes m v).objectsOmitted ∧ (addVolumes m v).count ≤ maxInt :=
      ⟨omitsInt_satAdd _ _, (omitsInt_satAdd _ _).2⟩
    obtain ⟨hplugin, hrange, hle, hall⟩ := ih hstep fun w hw => hvs w (List.mem_cons_of_mem _ hw)
    rw [List.foldl_cons]
    refine ⟨hplugin, hrange, (le_satAdd_left _ hm.1.2).trans hle, fun w hw => ?_⟩
    rcases List.mem_cons.mp hw with rfl | hw
    · exact (le_satAdd_right _ (hvs w List.mem_cons_self).2).trans hle
    · exact hall w hw

end Rows

/-! ## Inventories that merge -/

/-- An inventory's rows are in range and each API has one. -/
structure Inventory.Merges (inv : Inventory) : Prop extends inv.OmitsInts where
  /-- A group, version and kind is counted once. -/
  once : (inv.apiUsage.map APIUsage.gvk).Nodup
  /-- So is one of custom resources. -/
  crdsOnce : ∀ c ∈ inv.crds, (c.usage.map APIUsage.gvk).Nodup

/-- The counts of an inventory are `int`s. -/
structure Inventory.IntCounts (inv : Inventory) : Prop where
  /-- The objects at flagged APIs. -/
  usage : ∀ u ∈ inv.apiUsage, u.objectsOmitted ≤ maxInt
  /-- The objects nothing can be attributed to. -/
  unknown : ∀ u ∈ inv.apiAuthorshipUnknown, u.objectsOmitted ≤ maxInt
  /-- The stored manifests of the Helm releases. -/
  manifests : ∀ r ∈ inv.helmReleases, ∀ u ∈ r.manifestAPIs, u.objectsOmitted ≤ maxInt
  /-- The custom resources. -/
  crds : ∀ c ∈ inv.crds, ∀ u ∈ c.usage, u.objectsOmitted ≤ maxInt
  /-- The volume plugins. -/
  volumes : ∀ v ∈ inv.volumePlugins, v.objectsOmitted ≤ maxInt ∧ v.count ≤ maxInt

/-- An admitted inventory merges. -/
theorem Inventory.Admitted.merges {inv : Inventory} (h : inv.Admitted) (hints : inv.IntCounts) : inv.Merges where
  usage u hu := ⟨(h.apiUsage.rows u hu).omitted, hints.usage u hu⟩
  unknown u hu := ⟨(h.unknown.rows u hu).omitted, hints.unknown u hu⟩
  manifests r hr u hu := ⟨((h.manifests r hr).rows u hu).omitted, hints.manifests r hr u hu⟩
  crds c hc u hu := ⟨((h.crds c hc).rows u hu).omitted, hints.crds c hc u hu⟩
  volumes v hv := ⟨⟨(h.volumes v hv).omitted, (hints.volumes v hv).1⟩, (hints.volumes v hv).2⟩
  once := h.apiUsage.once
  crdsOnce c hc := (h.crds c hc).once

/-- What a stream of at most 2^40 objects decodes to: usage rows, each API once, the custom resources among them by their
definitions, and volume plugin rows. -/
structure Posted (m : Inventory) : Prop where
  /-- Releases are not read from a stream. -/
  releases : m.helmReleases = []
  /-- Every object of a stream is attributed to the version it is written in. -/
  unknown : m.apiAuthorshipUnknown = []
  /-- The objects left out are some of the stream's. -/
  usage : ∀ u ∈ m.apiUsage, 0 ≤ u.objectsOmitted ∧ u.objectsOmitted ≤ 2 ^ 40
  /-- The custom resources are the stream's. -/
  crds : ∀ c ∈ m.crds, ∀ u ∈ c.usage, u ∈ m.apiUsage
  /-- The volume plugins count the stream's objects. -/
  volumes : ∀ v ∈ m.volumePlugins, 0 ≤ v.objectsOmitted ∧ v.objectsOmitted ≤ 2 ^ 40 ∧ v.count ≤ 2 ^ 40
  /-- A group, version and kind has one row. -/
  once : (m.apiUsage.map APIUsage.gvk).Nodup

/-- A stream's refs placed in a file are a stream's. -/
theorem Posted.atPath {m : Inventory} (h : Posted m) (artifact : String) : Posted (UpgradeScope.atPath artifact m) where
  releases := h.releases
  unknown := h.unknown
  usage u hu := by
    obtain ⟨row, hrow, rfl⟩ := List.mem_map.mp hu
    exact h.usage row hrow
  crds c hc u hu := by
    obtain ⟨crd, hcrd, rfl⟩ := List.mem_map.mp hc
    obtain ⟨row, hrow, rfl⟩ := List.mem_map.mp hu
    exact List.mem_map_of_mem (h.crds crd hcrd row hrow)
  volumes v hv := by
    obtain ⟨row, hrow, rfl⟩ := List.mem_map.mp hv
    exact h.volumes row hrow
  once := by
    unfold UpgradeScope.atPath
    rw [List.map_map]
    exact h.once

/-- The rows of a stream leave out a number in range. -/
theorem Posted.omitsInt {m : Inventory} (h : Posted m) : ∀ u ∈ m.apiUsage, OmitsInt u.objectsOmitted := by
  intro u hu
  have hrange := h.usage u hu
  exact ⟨hrange.1, hrange.2.trans (by decide)⟩

/-- A stream alone is in range. -/
theorem Posted.omitsInts {m : Inventory} (h : Posted m) : m.OmitsInts where
  usage := h.omitsInt
  unknown u hu := by
    rw [h.unknown] at hu
    simp at hu
  manifests r hr := by
    rw [h.releases] at hr
    simp at hr
  crds c hc u hu := h.omitsInt u (h.crds c hc u hu)
  volumes v hv := by
    obtain ⟨hnonneg, homitted, hcount⟩ := h.volumes v hv
    exact ⟨⟨hnonneg, homitted.trans (by decide)⟩, hcount.trans (by decide)⟩

/-! ## The share of a scope -/

section Share

variable {inv : Inventory} {«in» : String → Bool}

/-- A share of a row leaves out a number in range. -/
theorem omitsInt_rowShare {add : ℤ → ℤ → ℤ} {counts : NamespaceCounts} {objects : List ObjectRef} {s : Share}
    (h : rowShare «in» add counts objects = some s) : OmitsInt s.objectsOmitted := by
  unfold rowShare at h
  dsimp only at h
  split at h
  · simp at h
  · obtain rfl := Option.some.inj h
    exact ⟨le_max_left _ _, max_le (by decide) (wrap64_le_maxInt _)⟩

/-- The shares of usage rows are in range, whatever the rows. -/
theorem omitsInt_usageShare {us : List APIUsage} : ∀ r ∈ usageShare «in» us, OmitsInt r.objectsOmitted := by
  intro r hr
  obtain ⟨u, -, hshare⟩ := List.mem_filterMap.mp hr
  obtain ⟨s, hs, rfl⟩ := Option.map_eq_some_iff.mp hshare
  exact omitsInt_rowShare hs

/-- The shares of usage rows are of the rows' APIs. -/
theorem nodup_gvk_usageShare {us : List APIUsage} (h : (us.map APIUsage.gvk).Nodup) :
    ((usageShare «in» us).map APIUsage.gvk).Nodup := by
  have hsub : ((usageShare «in» us).map APIUsage.gvk).Sublist (us.map APIUsage.gvk) := by
    unfold usageShare
    induction us with
    | nil => exact List.Sublist.refl _
    | cons u us ih =>
      have hrest := ih (List.nodup_cons.mp h).2
      cases hshare : shareOf «in» plainAdd u with
      | none =>
        rw [List.filterMap_cons_none hshare]
        exact hrest.cons _
      | some r =>
        obtain ⟨s, -, rfl⟩ := Option.map_eq_some_iff.mp hshare
        rw [List.filterMap_cons_some hshare]
        exact hrest.cons_cons _
  exact h.sublist hsub

/-- Counts added up with `satAdd` stay in range. -/
theorem foldl_satAdd_le {l : List ℤ} {a : ℤ} (ha : a ≤ maxInt) : l.foldl satAdd a ≤ maxInt := by
  induction l generalizing a with
  | nil => exact ha
  | cons n l ih => exact ih (omitsInt_satAdd a n).2

/-- A scope's share of an inventory that merges is one. -/
theorem Inventory.Merges.clusterShare (h : inv.Merges) (sc : ReadScope) : (sc.clusterShare inv).Merges := by
  unfold ReadScope.clusterShare
  split
  · exact h
  · rename_i teams _
    refine ⟨⟨omitsInt_usageShare, omitsInt_usageShare, fun r hr => h.manifests r (List.mem_filter.mp hr).1, ?_, ?_⟩,
      nodup_gvk_usageShare h.once, ?_⟩
    · intro c hc
      obtain ⟨c, -, rfl⟩ := List.mem_map.mp hc
      exact omitsInt_usageShare
    · intro v hv
      obtain ⟨v, -, hshare⟩ := List.mem_filterMap.mp hv
      obtain ⟨s, hs, rfl⟩ := Option.map_eq_some_iff.mp hshare
      refine ⟨omitsInt_rowShare hs, ?_⟩
      unfold rowShare at hs
      dsimp only at hs
      split at hs
      · simp at hs
      · obtain rfl := Option.some.inj hs
        exact foldl_satAdd_le (by decide)
    · intro c hc
      obtain ⟨crd, hcrd, rfl⟩ := List.mem_map.mp hc
      exact nodup_gvk_usageShare (h.crdsOnce crd hcrd)

end Share

/-! ## The proposed state -/

section Proposed

variable {registered : String → Bool} {share manifests : Inventory}

/-- The custom resources that the stream's side counts are rows of the stream. -/
theorem usage_mergeManifests_side {proposed : Inventory} {c : CRD} (hc : c ∈ (mergeManifests registered proposed manifests).2.crds) :
    c.usage.Sublist manifests.apiUsage := by
  have hdefs : ∀ (defs : List CRD), (∀ d ∈ defs, d.usage = []) → ∀ out, (∀ d ∈ out, d.usage = []) →
      ∀ d ∈ defs.foldl (upsertOn CRD.groupKind fun _ c => c) out, d.usage = [] := by
    intro defs
    induction defs with
    | nil => exact fun _ out hout => hout
    | cons e defs ih =>
      intro hnew out hout
      refine ih (fun d hd => hnew d (List.mem_cons_of_mem _ hd)) _ fun d hd => ?_
      rcases mem_upsertOn hd with hd | rfl | ⟨-, -, rfl⟩
      · exact hout d hd
      · exact hnew d List.mem_cons_self
      · exact hnew _ List.mem_cons_self
  obtain ⟨d, hd, rfl⟩ := List.mem_map.mp hc
  have hnone : d.usage = [] := by
    refine hdefs _ (fun e he => ?_) [] (by simp) d (mem_sortOn.mp hd)
    obtain ⟨-, -, rfl⟩ := List.mem_map.mp he
    rfl
  dsimp only
  rw [hnone, List.nil_append]
  exact List.filter_sublist

/-- The cluster's rows that stay are rows of its CRD. -/
theorem residentUsage_cases (cluster : List CRD) (c : CRD) :
    residentUsage cluster c = [] ∨ ∃ old ∈ cluster, (residentUsage cluster c).Sublist old.usage := by
  unfold residentUsage
  cases hfind : cluster.reverse.find? (·.groupKind = c.groupKind) with
  | none => exact .inl rfl
  | some old => exact .inr ⟨old, List.mem_reverse.mp (List.mem_of_find?_eq_some hfind), List.filter_sublist⟩

/-- The merge carries what its rows leave out. -/
structure MergeCarries (registered : String → Bool) (share manifests : Inventory) (viewed : Bool) : Prop where
  /-- The objects at flagged APIs. -/
  usage : Carried (share.apiUsage ++ manifests.apiUsage)
    (mergeManifests registered (withUsage share manifests viewed) manifests).1.apiUsage
  /-- The volume plugins. -/
  volumes : ∀ v ∈ share.volumePlugins ++ manifests.volumePlugins,
    ∃ r ∈ (mergeManifests registered (withUsage share manifests viewed) manifests).1.volumePlugins,
      r.plugin = v.plugin ∧ v.objectsOmitted ≤ r.objectsOmitted
  /-- The custom resources of each CRD, the cluster's at a version that is not current and the stream's. -/
  crds : ∀ c ∈ (mergeManifests registered (withUsage share manifests viewed) manifests).2.crds,
    ∃ p ∈ (mergeManifests registered (withUsage share manifests viewed) manifests).1.crds,
      p.groupKind = c.groupKind ∧ Carried (residentUsage share.crds c ++ c.usage) p.usage

section Merge

variable (hshare : share.Merges) (hposted : Posted manifests) (viewed : Bool)

include hshare hposted

/-- The custom resources that are merged into a CRD: in range and each API once. -/
theorem merges_proposedCRD {c : CRD} (hc : c ∈ (mergeManifests registered (withUsage share manifests viewed) manifests).2.crds) :
    (∀ u ∈ (proposedCRD share.crds c).usage, OmitsInt u.objectsOmitted) ∧
      Carried (residentUsage share.crds c ++ c.usage) (proposedCRD share.crds c).usage := by
  have hsub := usage_mergeManifests_side hc
  have hmanifests : ∀ u ∈ c.usage, OmitsInt u.objectsOmitted := fun u hu => hposted.omitsInt u (hsub.subset hu)
  have hresident : (∀ u ∈ residentUsage share.crds c, OmitsInt u.objectsOmitted) ∧
      ((residentUsage share.crds c).map APIUsage.gvk).Nodup := by
    rcases residentUsage_cases share.crds c with hnone | ⟨old, hold, hsub⟩
    · rw [hnone]
      simp
    · exact ⟨fun u hu => hshare.crds old hold u (hsub.subset hu), (hshare.crdsOnce old hold).sublist (hsub.map _)⟩
  refine ⟨fun u hu => omitsInt_upsertUsage hresident.1 hmanifests u (mem_sortOn.mp hu), fun u hu => ?_⟩
  obtain ⟨r, hr, hrow⟩ := carried_upsertUsage hresident.2 (hposted.once.sublist (hsub.map _)) hresident.1 hmanifests u hu
  exact ⟨r, mem_sortOn.mpr hr, hrow⟩

/-- The volume plugins of the merged state: in range, and no less left out than in each row. -/
theorem merges_mergeVolumePlugins :
    (∀ r ∈ mergeVolumePlugins share.volumePlugins manifests.volumePlugins, OmitsInt r.objectsOmitted ∧ r.count ≤ maxInt) ∧
      ∀ v ∈ share.volumePlugins ++ manifests.volumePlugins,
        ∃ r ∈ mergeVolumePlugins share.volumePlugins manifests.volumePlugins,
          r.plugin = v.plugin ∧ v.objectsOmitted ≤ r.objectsOmitted := by
  have hrange : ∀ v ∈ share.volumePlugins ++ manifests.volumePlugins, OmitsInt v.objectsOmitted := by
    intro v hv
    rcases List.mem_append.mp hv with hv | hv
    · exact (hshare.volumes v hv).1
    · exact (hposted.omitsInts.volumes v hv).1
  -- Each group starts from zero and adds its rows one by one.
  have hstart : OmitsInt (0 : ℤ) ∧ (0 : ℤ) ≤ maxInt := ⟨⟨le_refl _, by decide⟩, by decide⟩
  unfold mergeVolumePlugins
  split_ifs with hnone
  · refine ⟨hshare.volumes, fun v hv => ?_⟩
    rw [List.isEmpty_iff.mp hnone, List.append_nil] at hv
    exact ⟨v, hv, rfl, le_refl _⟩
  · refine ⟨fun r hr => ?_, fun v hv => ?_⟩
    · obtain ⟨g, hg, rfl⟩ := List.mem_map.mp hr
      have hrows : ∀ v ∈ g.2, OmitsInt v.objectsOmitted := by
        intro v hv
        rw [(mem_groupOn.mp hg).2] at hv
        exact hrange v (List.mem_filter.mp hv).1
      exact (foldl_addVolumes hstart hrows).2.1
    · set g := (v.plugin, (share.volumePlugins ++ manifests.volumePlugins).filter fun w => w.plugin = v.plugin) with hgroup
      have hg : g ∈ groupOn (·.plugin) (share.volumePlugins ++ manifests.volumePlugins) :=
        mem_groupOn.mpr ⟨⟨v, hv, rfl⟩, rfl⟩
      have hrows : ∀ w ∈ g.2, OmitsInt w.objectsOmitted := fun w hw => hrange w (List.mem_filter.mp hw).1
      obtain ⟨hplugin, -, -, hall⟩ := foldl_addVolumes (m := { plugin := g.1, count := 0 }) hstart hrows
      exact ⟨_, List.mem_map_of_mem hg, hplugin, hall v (List.mem_filter.mpr ⟨hv, by simp⟩)⟩

/-- The merge of a share and a stream carries what they leave out. -/
theorem mergeCarries : MergeCarries registered share manifests viewed where
  usage := carried_upsertUsage hshare.once hposted.once hshare.usage hposted.omitsInt
  volumes := (merges_mergeVolumePlugins hshare hposted).2
  crds _ hc := ⟨_, List.mem_map_of_mem hc, rfl, (merges_proposedCRD hshare hposted viewed hc).2⟩

/-- The merged state is in range. -/
theorem omitsInts_mergeManifests :
    (mergeManifests registered (withUsage share manifests viewed) manifests).1.OmitsInts where
  usage := omitsInt_upsertUsage hshare.usage hposted.omitsInt
  unknown := hshare.unknown
  manifests := hshare.manifests
  crds _ hc := by
    obtain ⟨d, hd, rfl⟩ := List.mem_map.mp hc
    exact (merges_proposedCRD hshare hposted viewed hd).1
  volumes := (merges_mergeVolumePlugins hshare hposted).1

end Merge

end Proposed

/-! ## Evaluations and answers -/

section Claims

variable {X : External} {raw inv posted : Inventory} {registered : String → Bool}
  {teamMap : List NamespaceInfo → List NamespaceInfo} {req : GateRequest}

/-- The team map changes no row. -/
theorem Inventory.Merges.withTeams (h : inv.Merges) : { inv with namespaces := teamMap inv.namespaces }.Merges :=
  ⟨⟨h.usage, h.unknown, h.manifests, h.crds, h.volumes⟩, h.once, h.crdsOnce⟩

/-- The state that a gate evaluates is in range. -/
theorem omitsInts_gateState (hinv : inv.Merges) (hposted : Posted posted) (viewed : Option Bool) :
    (gateState registered teamMap req (viewed.map (inv, ·)) posted).1.OmitsInts := by
  have hmanifests := hposted.atPath req.artifact
  cases viewed with
  | none =>
    have hrange := hmanifests.omitsInts
    exact ⟨hrange.usage, hrange.unknown, hrange.manifests, hrange.crds, hrange.volumes⟩
  | some viewed => exact omitsInts_mergeManifests (hinv.withTeams.clusterShare req.scope) hmanifests viewed

/-- For every admitted inventory whose counts are `int`s, and every stream of at most 2^40 objects: the findings of an
evaluation, and those of a gate's answer with the cluster or without, say how much they leave out exactly when the sums that
`+` adds up are told, those of the flagged rows of each installed release's manifest and, in the gate, those of a finding's
rows with the refs that the cut drops. Whatever the sums, the merge before leaves out no less than its rows. -/
theorem omitted_iff {fuel : ℕ} {k : KB} {target : Version} {now : Time} {limit : ℤ} {rep full ans : Report}
    (hadmitted : admitInventory X raw = .ok inv) (hints : inv.IntCounts) (hposted : Posted posted) (viewed : Option Bool)
    (hrep : evaluate fuel X inv k target now = some rep)
    (hfull : evaluateWithin fuel X (gateState registered teamMap req (viewed.map (inv, ·)) posted).1 k req.target now limit =
      some (.ok full))
    (hans : evaluateGate registered fuel X k now limit teamMap req (viewed.map (inv, ·)) posted = some (.ok ans)) :
    ((∀ f ∈ rep.findings, OmittedKept X k target now inv f) ∧
      AnswerKept X k req.target now (gateState registered teamMap req (viewed.map (inv, ·)) posted).1 req.rules
        (gateState registered teamMap req (viewed.map (inv, ·)) posted).2 full ans ∧
      ∀ v ∈ viewed, MergeCarries registered (req.scope.clusterShare { inv with namespaces := teamMap inv.namespaces })
        (atPath req.artifact posted) v) ↔
    inv.ReleasesTelling k target ∧
      (gateState registered teamMap req (viewed.map (inv, ·)) posted).1.ReleasesTelling k req.target ∧
      CutsTelling X k req.target now (gateState registered teamMap req (viewed.map (inv, ·)) posted).1 req.rules := by
  have hinv : inv.Merges := (admitted_of_admitInventory hadmitted).merges hints
  have hst : (gateState registered teamMap req (viewed.map (inv, ·)) posted).1.OmitsInts :=
    omitsInts_gateState hinv hposted viewed
  obtain ⟨full', hfull', rfl⟩ := evaluateGate_eq_ok registered fuel X k now limit teamMap hans
  obtain rfl : full' = full := Except.ok.inj (Option.some.inj (hfull'.symm.trans hfull))
  rw [evaluate_eq] at hrep
  obtain ⟨found, hfound, rfl⟩ := Option.map_eq_some_iff.mp hrep
  have hmem : ∀ f, f ∈ (reportOf X inv k target now found).findings ↔ f ∈ found := fun f => mem_sortOn
  have hcarries : ∀ v ∈ viewed, MergeCarries registered
      (req.scope.clusterShare { inv with namespaces := teamMap inv.namespaces }) (atPath req.artifact posted) v := fun v _ =>
    mergeCarries (hinv.withTeams.clusterShare req.scope) (hposted.atPath req.artifact) v
  -- The evaluation's part and the answer's are each their own equivalence; the merge holds in any case.
  rw [← found_omitted_iff hinv.toOmitsInts hfound, ← answer_omitted_iff _ hst hfull]
  simp only [hmem]
  constructor
  · rintro ⟨hfound, hanswer, -⟩
    exact ⟨hfound, hanswer⟩
  · rintro ⟨hfound, hanswer⟩
    exact ⟨hfound, hanswer, hcarries⟩

end Claims

/-! ## A release that wraps around -/

/-- A row of a stored manifest with one object listed. -/
def storedRow (group kind : String) (omitted : ℤ) : APIUsage where
  group := group
  version := "v1beta1"
  kind := kind
  count := 1
  objects := [{ «namespace» := "shop", name := "web" }]
  objectsOmitted := omitted

/-- A cluster with a release whose manifest has three rows, by what they leave out. -/
def storedRelease (a b c : ℤ) : Inventory where
  clusterID := "prod"
  serverVersion := "v1.24.0"
  helmReleases :=
    [{ name := "web", «namespace» := "shop", status := "deployed"
       manifestAPIs :=
        [storedRow "batch" "CronJob" a, storedRow "extensions" "Ingress" b, storedRow "policy" "PodDisruptionBudget" c] }]

/-- A knowledge base that removes the APIs of the three rows. -/
def removesThree : KB where
  apiLifecycle :=
    [{ group := "batch", version := "v1beta1", kind := "CronJob", introduced := ⟨1, 8⟩, removed := some ⟨1, 25⟩ },
      { group := "extensions", version := "v1beta1", kind := "Ingress", introduced := ⟨1, 1⟩, removed := some ⟨1, 22⟩ },
      { group := "policy", version := "v1beta1", kind := "PodDisruptionBudget", introduced := ⟨1, 5⟩
        removed := some ⟨1, 25⟩ }]
  skew := defaultSkewPolicy
  maxKnownK8s := ⟨1, 34⟩

/-- The counts of the release's rows are `int`s. -/
theorem intCounts_storedRelease {a b c : ℤ} (ha : a ≤ maxInt) (hb : b ≤ maxInt) (hc : c ≤ maxInt) :
    (storedRelease a b c).IntCounts := by
  refine ⟨by simp [storedRelease], by simp [storedRelease], fun r hr u hu => ?_, by simp [storedRelease],
    by simp [storedRelease]⟩
  rw [List.mem_singleton.mp hr] at hu
  simp only [List.mem_cons, List.not_mem_nil, or_false] at hu
  rcases hu with rfl | rfl | rfl
  · exact ha
  · exact hb
  · exact hc

/-- Rows that leave out the largest `int`, as much again and two more make a finding that leaves out none, which a rule for
the release's namespace then takes whole. -/
theorem storedRelease_wraps_to_none :
    let inv := storedRelease maxInt maxInt 2
    let accepted : Rule := { category := "removed-api", «namespace» := "shop", reason := "accepted" }
    admitInventory External.ascii inv = .ok inv ∧ inv.IntCounts ∧
      ∃ rep, evaluate 3 External.ascii inv removesThree ⟨1, 25⟩ 0 = some rep ∧
        (∃ f ∈ rep.findings, f.key = "removed-api/helm-release/shop/web" ∧ f.objectsOmitted = 0) ∧
        (Suppress.apply External.ascii (gateOptions 0) rep [accepted]).1.findings = [] ∧
        ¬ ∀ f ∈ rep.findings, OmittedKept External.ascii removesThree ⟨1, 25⟩ 0 inv f := by
  intro inv accepted
  have hadmitted : admitInventory External.ascii inv = .ok inv := (admitInventory_eq_ok _).mpr ⟨by decide +kernel, rfl⟩
  have hints : inv.IntCounts := intCounts_storedRelease (le_refl _) (le_refl _) (by decide)
  have hany : (evaluate 3 External.ascii inv removesThree ⟨1, 25⟩ 0).any (fun rep => decide
      ((∃ f ∈ rep.findings, f.key = "removed-api/helm-release/shop/web" ∧ f.objectsOmitted = 0) ∧
        (Suppress.apply External.ascii (gateOptions 0) rep [accepted]).1.findings = [])) = true := by decide +kernel
  obtain ⟨rep, hrep, hfacts⟩ := (Option.any_eq_true _ _).mp hany
  obtain ⟨hnone, htaken⟩ := of_decide_eq_true hfacts
  refine ⟨hadmitted, hints, rep, hrep, hnone, htaken, fun hkept => ?_⟩
  rw [evaluate_eq] at hrep
  obtain ⟨found, hfound, rfl⟩ := Option.map_eq_some_iff.mp hrep
  have hmerges := (admitted_of_admitInventory hadmitted).merges hints
  have htelling := (found_omitted_iff hmerges.toOmitsInts hfound).mp fun f hf => hkept f (mem_sortOn.mpr hf)
  have hwraps := htelling _ List.mem_cons_self (by decide +kernel) true
  rcases hwraps with hzero | hpos
  · exact absurd hzero (by decide +kernel)
  · exact absurd hpos (by decide +kernel)

/-- A stream with one object at a removed API. -/
def postedIngress : Inventory where
  source := .files
  apiUsage :=
    [{ group := "extensions", version := "v1beta1", kind := "Ingress", count := 1
       namespaces := (∅ : NamespaceCounts).insert "shop" 1
       objects := [{ «namespace» := "shop", name := "api", line := 4 }] }]

/-- Rows that leave out six objects together make findings that say so, also in the answer to a posted object. -/
theorem storedRelease_keeps_omitted :
    let inv := storedRelease 1 2 3
    let req : GateRequest := { target := ⟨1, 25⟩ }
    let st := gateState (fun _ => false) id req (some (inv, false)) postedIngress
    ∃ rep full ans, evaluate 3 External.ascii inv removesThree ⟨1, 25⟩ 0 = some rep ∧
      evaluateGate (fun _ => false) 3 External.ascii removesThree 0 (2 ^ 20) id req (some (inv, false)) postedIngress =
        some (.ok ans) ∧
      (∀ f ∈ rep.findings, OmittedKept External.ascii removesThree ⟨1, 25⟩ 0 inv f) ∧
      AnswerKept External.ascii removesThree ⟨1, 25⟩ 0 st.1 [] st.2 full ans := by
  intro inv req st
  have hadmitted : admitInventory External.ascii inv = .ok inv := (admitInventory_eq_ok _).mpr ⟨by decide +kernel, rfl⟩
  have hints : inv.IntCounts := intCounts_storedRelease (by decide) (by decide) (by decide)
  have hposted : Posted postedIngress := by
    refine ⟨rfl, rfl, fun u hu => ?_, by simp [postedIngress], by simp [postedIngress], by decide⟩
    rw [List.mem_singleton.mp hu]
    decide
  have hrep : (evaluate 3 External.ascii inv removesThree ⟨1, 25⟩ 0).isSome = true := by decide +kernel
  have hans : (evaluateGate (fun _ => false) 3 External.ascii removesThree 0 (2 ^ 20) id req (some (inv, false))
      postedIngress).any (fun r => r.toOption.any fun _ => decide True) = true := by decide +kernel
  have hfull : (evaluateWithin 3 External.ascii st.1 removesThree ⟨1, 25⟩ 0 (2 ^ 20)).any (fun r =>
      r.toOption.any fun rep => decide (∀ f ∈ rep.findings, f.objects.length ≤ maxObjectRefs)) = true := by decide +kernel
  obtain ⟨rep, hrep⟩ := Option.isSome_iff_exists.mp hrep
  obtain ⟨ans, hans, -⟩ := exists_ok_of_any hans
  obtain ⟨full, hfull, hshort⟩ := exists_ok_of_any hfull
  have htold : inv.ReleasesTelling removesThree ⟨1, 25⟩ ∧ st.1.ReleasesTelling removesThree ⟨1, 25⟩ := by
    constructor
    all_goals
      intro rel hrel _ removed
      obtain rfl := List.mem_singleton.mp hrel
      cases removed with
      | true => exact .inr (by decide +kernel)
      | false => exact .inl (by decide +kernel)
  -- No finding of the evaluation lists so much that the cut drops a ref.
  have hcuts : CutsTelling External.ascii removesThree ⟨1, 25⟩ 0 st.1 [] := by
    intro f rows hbuilt _ hlong
    obtain ⟨found, hfound, rfl⟩ := foundFindings_of_within hfull
    have hle := hlong.trans_le (List.length_filter_le _ _)
    rcases hbuilt.reported hfound with ⟨hbare, -⟩ | ⟨f', hf', halike, -⟩
    · rw [hbare.objects] at hle
      exact absurd hle (by decide)
    · exact absurd (halike.objects_eq ▸ hshort f' (mem_sortOn.mpr hf')) (not_le.mpr hle)
  have hkept := (omitted_iff hadmitted hints hposted (some false) hrep hfull hans).mpr ⟨htold.1, htold.2, hcuts⟩
  exact ⟨rep, full, ans, hrep, hans, hkept.1, hkept.2.1⟩

end UpgradeScope
