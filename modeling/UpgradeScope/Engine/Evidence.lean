import UpgradeScope.Engine.Blocks

/-!
# More evidence does not unblock

What happens to a blocked verdict when rows are added to an inventory. Every check but one finds with
more rows at least what it found, so its blockers stay: usage rows, callers, CRDs and volume plugins are
judged one by one, and so are installs and nodes as far as blocking goes (`Engine/Blocks.lean`). The check
of the Helm manifests takes objects away: it leaves an object to the live usage row at the manifest's API.
That row is a blocker of its own when it is really at that API, but the rows are looked up by the text of
a key, which two APIs can share, so a row can hide a blocker and be none (`HidesBlocker`).
`blocked_stays_iff` says that this is the only way.
-/

namespace UpgradeScope

open Go Sorting Kb Registry

/-! ## Adding rows -/

/-- A row as collectors write it: it counts the objects it lists and those it omits. -/
def APIUsage.Written (u : APIUsage) : Prop := u.count = u.objects.length + u.objectsOmitted

/-- A volume row as collectors write it. -/
def VolumePluginUse.Written (u : VolumePluginUse) : Prop := u.count = u.objects.length + u.objectsOmitted

/-- The group, version and kind of a usage row. -/
def APIUsage.gvkOf (u : APIUsage) : GVK := ⟨u.group, u.version, u.kind⟩

/-- Every row of an inventory is as collectors write it, with one usage row for each API. -/
structure Inventory.Written (inv : Inventory) : Prop where
  /-- One usage row for each group, version and kind. -/
  oneRow : (inv.apiUsage.map APIUsage.gvkOf).Nodup
  /-- The usage rows. -/
  usage : ∀ u ∈ inv.apiUsage, u.Written
  /-- The rows of objects nobody can be named for. -/
  authorship : ∀ u ∈ inv.apiAuthorshipUnknown, u.Written
  /-- The rows of the Helm releases' manifests. -/
  manifests : ∀ rel ∈ inv.helmReleases, ∀ u ∈ rel.manifestAPIs, u.Written
  /-- The rows of custom resources. -/
  crds : ∀ c ∈ inv.crds, ∀ u ∈ c.usage, u.Written
  /-- The volume rows. -/
  volumes : ∀ u ∈ inv.volumePlugins, u.Written

/-- The second inventory is the first with rows added to the lists of evidence, at any place. -/
structure Adds (inv inv' : Inventory) : Prop where
  /-- The usage rows stay. -/
  apiUsage : inv.apiUsage ⊆ inv'.apiUsage
  /-- The rows of objects nobody can be named for stay. -/
  apiAuthorshipUnknown : inv.apiAuthorshipUnknown ⊆ inv'.apiAuthorshipUnknown
  /-- The callers stay. -/
  deprecatedCalls : inv.deprecatedCalls ⊆ inv'.deprecatedCalls
  /-- The Helm releases stay. -/
  helmReleases : inv.helmReleases ⊆ inv'.helmReleases
  /-- The add-ons stay. -/
  addOns : inv.addOns ⊆ inv'.addOns
  /-- The nodes stay. -/
  nodes : inv.nodes ⊆ inv'.nodes
  /-- The CRDs stay. -/
  crds : inv.crds ⊆ inv'.crds
  /-- The volume rows stay. -/
  volumePlugins : inv.volumePlugins ⊆ inv'.volumePlugins
  /-- Nothing else differs. -/
  rest : inv' = { inv with
    apiUsage := inv'.apiUsage
    apiAuthorshipUnknown := inv'.apiAuthorshipUnknown
    deprecatedCalls := inv'.deprecatedCalls
    helmReleases := inv'.helmReleases
    addOns := inv'.addOns
    nodes := inv'.nodes
    crds := inv'.crds
    volumePlugins := inv'.volumePlugins }

/-- A usage row that hides a blocker of a Helm manifest without being one: it lists an object, it is
not itself at an API that is removed at the target or not served yet, and its key is also that of an
API removed at the target. -/
def HidesBlocker (k : KB) (target : Version) (src : Source) (u : APIUsage) : Prop :=
  u.objects ≠ [] ∧ unservedUse k target src u = false ∧
    (lookup k.apiLifecycle u.gvkOf).any (removedAt target) = false ∧
    ∃ e, lookup k.apiLifecycle e.gvk = some e ∧ removedAt target e = true ∧
      apiKey e.group e.version e.kind = apiKey u.group u.version u.kind

namespace Adds

variable {inv inv' : Inventory} (h : Adds inv inv')

include h

/-- More evidence leaves the source. -/
theorem source : inv'.source = inv.source := by rw [h.rest]

/-- More evidence leaves the namespaces. -/
theorem namespaces : inv'.namespaces = inv.namespaces := by rw [h.rest]

/-- More evidence leaves the capabilities. -/
theorem capability (c : Capability) : inv'.capability c = inv.capability c := by
  unfold Inventory.capability
  rw [h.rest]

/-- More evidence leaves the collector's schema. -/
theorem collectorSchema : inv'.collectorSchema = inv.collectorSchema := by rw [h.rest]

/-- More evidence leaves the server version. -/
theorem serverVersion : inv'.serverVersion = inv.serverVersion := by rw [h.rest]

/-- More evidence leaves the provider. -/
theorem provider : inv'.provider = inv.provider := by rw [h.rest]

/-- More evidence leaves the control plane. -/
theorem controlPlane : inv'.controlPlane = inv.controlPlane := by rw [h.rest]

end Adds

/-! ## The checks that judge row by row -/

/-- The finding of a usage row blocks when its API is not served yet by the target, or is removed at
it. -/
theorem blocks_usageFinding (k : KB) (target : Version) (src : Source) (nsInfo : List NamespaceInfo)
    (u : APIUsage) :
    Blocks (usageFinding k target src nsInfo u).toList ↔
      unservedUse k target src u = true ∨ (lookup k.apiLifecycle u.gvkOf).any (removedAt target) = true := by
  unfold usageFinding unservedUse APIUsage.gvkOf
  cases he : lookup k.apiLifecycle ⟨u.group, u.version, u.kind⟩ with
  | none =>
    dsimp only
    split_ifs <;> simp [Blocks, usageJudgement]
  | some e =>
    dsimp only
    generalize (e.introduced.gt target && (src = .files || listedObjects src u ≠ .stored)) = unserved
    rw [if_neg (by simp)]
    unfold usageJudgement
    cases unserved with
    | true => simp [Blocks]
    | false =>
      cases hr : removedAt target e with
      | true => simp [Blocks, hr]
      | false =>
        cases hn : removedNext target e with
        | true => simp [Blocks, hr, hn]
        | false =>
          cases hdep : e.deprecated with
          | none => simp [Blocks, hr, hn, hdep]
          | some d => by_cases hd : d.gt target <;> simp [Blocks, hr, hn, hdep, hd]

/-- A row of a filtered list of findings is in the list of more rows. -/
theorem filterMap_subset {α : Type} {l l' : List α} {f : α → Option Finding} (h : l ⊆ l') :
    l.filterMap f ⊆ l'.filterMap f := by
  intro x hx
  obtain ⟨a, ha, hfa⟩ := List.mem_filterMap.mp hx
  exact List.mem_filterMap.mpr ⟨a, h ha, hfa⟩

section RowByRow

variable {X : External} {k : KB} {target : Version} {now : Time} {inv inv' : Inventory}

/-- The usage findings stay when evidence is added. -/
theorem Adds.evalAPIUsage (h : Adds inv inv') :
    evalAPIUsage k target inv ⊆ evalAPIUsage k target inv' := by
  unfold UpgradeScope.evalAPIUsage
  rw [h.source, h.namespaces]
  exact filterMap_subset h.apiUsage

/-- The callers' findings stay when evidence is added. -/
theorem Adds.evalDeprecatedCalls (h : Adds inv inv') :
    evalDeprecatedCalls X inv k target ⊆ evalDeprecatedCalls X inv' k target := by
  intro r hr
  obtain ⟨c, hc, rfl⟩ := List.mem_map.mp hr
  refine List.mem_map.mpr ⟨c, ?_, rfl⟩
  unfold judgedCalls otherCallers at hc ⊢
  rw [mem_sortOn] at hc ⊢
  rw [h.capability]
  obtain ⟨hmem, hself⟩ := List.mem_filter.mp hc
  exact List.mem_filter.mpr ⟨h.deprecatedCalls hmem, hself⟩

/-- The findings about objects nobody can be named for stay. -/
theorem Adds.evalAuthorshipUnknown (h : Adds inv inv') :
    evalAuthorshipUnknown k inv ⊆ evalAuthorshipUnknown k inv' := by
  unfold UpgradeScope.evalAuthorshipUnknown
  rw [h.namespaces]
  exact filterMap_subset h.apiAuthorshipUnknown

/-- The volume findings stay when evidence is added. -/
theorem Adds.evalVolumePlugins (h : Adds inv inv') :
    evalVolumePlugins k target inv ⊆ evalVolumePlugins k target inv' := by
  unfold UpgradeScope.evalVolumePlugins
  rw [h.source, h.namespaces]
  exact filterMap_subset h.volumePlugins

/-- What the findings about a CRD read of the inventory stays. -/
theorem Adds.crdFindings (h : Adds inv inv') (c : CRD) :
    crdFindings X inv' target c = crdFindings X inv target c := by
  have hdeprecated : deprecatedVersionFinding X inv' target c = deprecatedVersionFinding X inv target c := by
    funext v
    simp only [deprecatedVersionFinding, crdUsage, crdUsageDetail, h.source, h.namespaces, h.capability]
  have hunserved : unservedVersionFinding X inv' target c = unservedVersionFinding X inv target c := by
    funext u
    simp only [unservedVersionFinding, crdUsage, crdUsageDetail, h.source, h.namespaces]
  unfold UpgradeScope.crdFindings
  rw [hdeprecated, hunserved]

/-- The CRD findings stay when evidence is added. -/
theorem Adds.evalCRDVersions (h : Adds inv inv') :
    evalCRDVersions X inv target ⊆ evalCRDVersions X inv' target := by
  intro f hf
  obtain ⟨c, hc, hfc⟩ := List.mem_flatMap.mp hf
  exact List.mem_flatMap.mpr ⟨c, h.crds hc, by rwa [h.crdFindings]⟩

/-- The installs of an add-on stay, and so what blocks among them. -/
theorem Adds.blocks_addOnFindings {a : AddOn} {node labelsConsulted : Bool}
    {ins ins' : List AddOnInstall} (hsub : ins ⊆ ins') :
    Blocks (addOnFindings X a target now labelsConsulted ins node) →
      Blocks (addOnFindings X a target now labelsConsulted ins' node) := by
  rw [UpgradeScope.blocks_addOnFindings, UpgradeScope.blocks_addOnFindings]
  rintro (hproduct | ⟨i, hi, hb⟩)
  · exact .inl hproduct
  · exact .inr ⟨i, hsub hi, hb⟩

/-- The node runtimes of an entry stay. -/
theorem Adds.runtimeInstalls (h : Adds inv inv') (a : AddOn) :
    runtimeInstalls inv a ⊆ runtimeInstalls inv' a := by
  intro i hi
  obtain ⟨n, hn, hin⟩ := List.mem_filterMap.mp hi
  exact List.mem_filterMap.mpr ⟨n, h.nodes hn, hin⟩

/-- What blocks among the node runtimes stays. -/
theorem Adds.evalNodeRuntimes (h : Adds inv inv') :
    Blocks (evalNodeRuntimes X k target now inv) → Blocks (evalNodeRuntimes X k target now inv') := by
  unfold UpgradeScope.evalNodeRuntimes
  rw [Blocks.flatMap, Blocks.flatMap]
  rintro ⟨a, ha, hb⟩
  refine ⟨a, ha, ?_⟩
  split_ifs at hb with hnone
  · simp [Blocks] at hb
  · rw [not_or] at hnone
    obtain ⟨i, hi⟩ := List.exists_mem_of_ne_nil _ hnone.2
    have hsome : UpgradeScope.runtimeInstalls inv' a ≠ [] := List.ne_nil_of_mem (h.runtimeInstalls a hi)
    rw [if_neg (by simp [hnone.1, hsome])]
    exact Adds.blocks_addOnFindings (h.runtimeInstalls a) hb

/-- What blocks among the add-ons stays when evidence is added. -/
theorem Adds.evalAddOns (h : Adds inv inv') :
    Blocks (evalAddOns X k target now inv) → Blocks (evalAddOns X k target now inv') := by
  unfold UpgradeScope.evalAddOns
  dsimp only
  rw [Blocks.append, Blocks.append]
  rintro (hb | hb)
  · left
    rw [Blocks.flatMap] at hb ⊢
    obtain ⟨name, hname, hb⟩ := hb
    obtain ⟨i, hi, hin⟩ := List.mem_map.mp (mem_of_mem_distinctOn hname)
    obtain ⟨name', hname', hkey⟩ :=
      exists_mem_distinctOn id (List.mem_map_of_mem (f := AddOnInstance.id) (h.addOns hi))
    obtain rfl : name' = name := by rw [← hin]; exact hkey
    refine ⟨name', hname', ?_⟩
    rw [h.collectorSchema, h.namespaces]
    cases hentry : registryEntry k name' with
    | none => simp [hentry, Blocks] at hb
    | some a =>
      rw [hentry] at hb
      refine Adds.blocks_addOnFindings (List.map_subset _ ?_) hb
      intro j hj
      obtain ⟨hmem, hid⟩ := List.mem_filter.mp hj
      exact List.mem_filter.mpr ⟨h.addOns hmem, hid⟩
  · exact .inr (h.evalNodeRuntimes hb)

end RowByRow

/-! ## The version-skew checks -/

section SkewChecks

variable {X : External} {k : KB} {target : Version} {now : Time} {inv inv' : Inventory}

/-- The apiservers stay when evidence is added. -/
theorem Adds.apiserverVersions (h : Adds inv inv') :
    apiserverVersions X inv' = apiserverVersions X inv := by
  unfold UpgradeScope.apiserverVersions
  rw [h.serverVersion, h.controlPlane]

/-- The kubelet check blocks when an apiserver is known and some kubelet is too old for the target. -/
theorem blocks_evalSkew (X : External) (inv : Inventory) (k : KB) (target : Version) :
    Blocks (evalSkew X inv k target) ↔ apiserverVersions X inv ≠ [] ∧
      ∃ n ∈ inv.nodes, (version? X n.kubeletVersion).any (fun kv =>
        decide (minorsBehind target kv > legacyMaxBehind k.skew.kubeletMaxBehind kv)) = true := by
  unfold evalSkew
  cases hapi : UpgradeScope.apiserverVersions X inv with
  | nil => simp [Blocks]
  | cons oldest rest =>
    dsimp only
    simp only [Blocks.append]
    have hpost : ∀ (p : Version → Bool), (∃ n ∈ inv.nodes, (version? X n.kubeletVersion).any p = true) ↔
        kubeletsWith X inv p ≠ [] := by
      intro p
      unfold kubeletsWith
      rw [Ne, List.filter_eq_nil_iff]
      push Not
      rfl
    -- Only the first of the four findings is a blocker.
    have hother : ∀ (fs : List NodeInfo) (sev : Severity) (key title detail url : String),
        sev ≠ .blocker → ¬ Blocks (if fs = [] then [] else [skewFinding sev key title detail url]) := by
      intro fs sev key title detail url hsev
      split_ifs <;> simp [Blocks, skewFinding, hsev]
    rw [hpost]
    generalize kubeletsWith X inv _ = bad
    simp only [hother _ .warning _ _ _ _ (by decide), hother _ .info _ _ _ _ (by decide), or_false]
    by_cases hbad : bad = []
    · simp [hbad, Blocks]
    · simp [hbad, Blocks, skewFinding]

/-- What blocks among the kubelets stays when evidence is added. -/
theorem Adds.evalSkew (h : Adds inv inv') :
    Blocks (evalSkew X inv k target) → Blocks (evalSkew X inv' k target) := by
  rw [blocks_evalSkew, blocks_evalSkew, h.apiserverVersions]
  rintro ⟨hapi, n, hn, hold⟩
  exact ⟨hapi, n, h.nodes hn, hold⟩

/-- The check of the control plane reads no list that rows are added to. -/
theorem Adds.evalControlPlaneSkew (h : Adds inv inv') :
    evalControlPlaneSkew X inv' k target = evalControlPlaneSkew X inv k target := by
  have hversions : ∀ component, componentVersions X inv' component = componentVersions X inv component := by
    intro component
    unfold componentVersions
    rw [h.controlPlane]
  have hfindings : componentFindings X inv' = componentFindings X inv := by
    funext oldest newest rule
    simp only [componentFindings, hversions]
  simp only [UpgradeScope.evalControlPlaneSkew, proxyPostFinding, h.controlPlane, h.serverVersion,
    hversions, hfindings]

/-- A kube-proxy beside its kubelet never blocks. -/
theorem not_blocks_evalKubeProxyKubeletSkew (X : External) (inv : Inventory) (k : KB) :
    ¬ Blocks (evalKubeProxyKubeletSkew X inv k) := by
  apply Blocks.not_of_forall
  intro f hf
  obtain ⟨g, -, rfl⟩ := List.mem_map.mp hf
  simp [skewFinding]

/-- The age of the knowledge base is judged by the server version. -/
theorem Adds.evalKBStale (h : Adds inv inv') : evalKBStale X inv' k target = evalKBStale X inv k target := by
  unfold UpgradeScope.evalKBStale
  rw [h.serverVersion]

/-- The path is judged by the apiservers. -/
theorem Adds.evalUpgradePath (h : Adds inv inv') (fuel : ℕ) :
    evalUpgradePath X fuel inv' target = evalUpgradePath X fuel inv target := by
  unfold UpgradeScope.evalUpgradePath upgradeFrom
  rw [h.apiserverVersions, h.source]

/-- The support calendar is read by the provider and the server version. -/
theorem Adds.evalSupport (h : Adds inv inv') : evalSupport X inv' k now = evalSupport X inv k now := by
  unfold UpgradeScope.evalSupport supportWindow
  rw [h.source, h.provider, h.serverVersion]

end SkewChecks

/-! ## The Helm releases -/

section HelmChecks

variable {X : External} {k : KB} {target : Version} {inv inv' : Inventory}

/-- The finding of a bucket has the bucket's severity. -/
theorem blocks_bucketFinding (k : KB) (target : Version) (rel : HelmRelease) (rows : List ManifestRow)
    (cat : Category) (sev : Severity) :
    Blocks (bucketFinding k target rel rows cat sev).toList ↔ rows ≠ [] ∧ sev = .blocker := by
  unfold bucketFinding
  by_cases hrows : rows = []
  · simp [hrows, Blocks]
  · rw [if_neg hrows]
    simp [hrows, Blocks]

/-- A release blocks when its chart does, or when its manifest has objects left at an API the target
removes. -/
theorem blocks_releaseFindings (X : External) (k : KB) (target : Version) (inv : Inventory)
    (rel : HelmRelease) :
    Blocks (releaseFindings X k target inv rel) ↔ helmInstalled rel = true ∧
      (Blocks (evalChartKubeVersion X target rel).toList ∨
        ∃ u ∈ rel.manifestAPIs, ∃ r, manifestRow k target inv.apiUsage rel u = some r ∧
          removedAt target r.entry = true) := by
  unfold releaseFindings
  by_cases hin : helmInstalled rel = true
  · rw [if_neg (by simp [hin]), Blocks.map (by intro f; rfl), Blocks.append]
    unfold evalHelmManifest
    dsimp only
    rw [Blocks.append, blocks_bucketFinding, blocks_bucketFinding]
    have hrows : (manifestRows k target inv.apiUsage rel).filter (fun r => removedAt target r.entry) ≠ [] ↔
        ∃ u ∈ rel.manifestAPIs, ∃ r, manifestRow k target inv.apiUsage rel u = some r ∧
          removedAt target r.entry = true := by
      rw [Ne, List.filter_eq_nil_iff]
      push Not
      constructor
      · rintro ⟨r, hr, hrem⟩
        obtain ⟨u, hu, hur⟩ := List.mem_filterMap.mp hr
        exact ⟨u, mem_sortOn.mp hu, r, hur, hrem⟩
      · rintro ⟨u, hu, r, hur, hrem⟩
        exact ⟨r, List.mem_filterMap.mpr ⟨u, mem_sortOn.mpr hu, hur⟩, hrem⟩
    rw [hrows]
    simp [hin]
  · rw [if_pos (by simpa using hin)]
    simp [Blocks, hin]

variable {r : ManifestRow} {rel : HelmRelease} {u : APIUsage}

/-- What the row of a manifest is made of. -/
theorem manifestRow_entry {rows : List APIUsage} (h : manifestRow k target rows rel u = some r) :
    lookup k.apiLifecycle u.gvkOf = some r.entry := by
  unfold manifestRow at h
  unfold APIUsage.gvkOf
  cases he : lookup k.apiLifecycle ⟨u.group, u.version, u.kind⟩ with
  | none => simp [he] at h
  | some e =>
    rw [he] at h
    dsimp only at h
    split_ifs at h
    obtain rfl := Option.some.inj h
    rfl

/-- A live object is one that a row with the key lists. -/
theorem mem_liveObjects {rows : List APIUsage} {key : String} {o : ObjectRef} :
    o ∈ liveObjects rows key ↔ ∃ u ∈ rows, apiKey u.group u.version u.kind = key ∧ o ∈ u.objects := by
  simp [liveObjects, and_assoc]

/-- With more live rows a manifest's row stays, unless an added row with its key lists an object. -/
theorem manifestRow_stays {rows rows' : List APIUsage} (hsub : rows ⊆ rows')
    (h : manifestRow k target rows rel u = some r) :
    manifestRow k target rows' rel u = some r ∨
      ∃ l ∈ rows', l ∉ rows ∧ l.objects ≠ [] ∧
        apiKey l.group l.version l.kind = apiKey u.group u.version u.kind := by
  by_cases hadd : ∃ l ∈ rows', l ∉ rows ∧ l.objects ≠ [] ∧
      apiKey l.group l.version l.kind = apiKey u.group u.version u.kind
  · exact .inr hadd
  · left
    -- No added row lists a live object of the API, so the same objects are live.
    have hlive : ∀ o, o ∈ liveObjects rows' (apiKey u.group u.version u.kind) ↔
        o ∈ liveObjects rows (apiKey u.group u.version u.kind) := by
      intro o
      rw [mem_liveObjects, mem_liveObjects]
      constructor
      · rintro ⟨l, hl, hkey, ho⟩
        by_cases hold : l ∈ rows
        · exact ⟨l, hold, hkey, ho⟩
        · exact absurd ⟨l, hl, hold, List.ne_nil_of_mem ho, hkey⟩ hadd
      · rintro ⟨l, hl, hkey, ho⟩
        exact ⟨l, hsub hl, hkey, ho⟩
    have hany : ∀ o, (liveObjects rows' (apiKey u.group u.version u.kind)).any (sameObject rel o) =
        (liveObjects rows (apiKey u.group u.version u.kind)).any (sameObject rel o) := by
      intro o
      rw [Bool.eq_iff_iff, List.any_eq_true, List.any_eq_true]
      simp only [hlive]
    have hleft : ∀ e, leftObjects target rows' rel e u = leftObjects target rows rel e u := by
      intro e
      simp only [leftObjects, hany]
    simpa only [manifestRow, hleft] using h

/-- What blocks among the Helm releases stays, or an added usage row has the key of an API that the
target removes, and lists an object. -/
theorem Adds.evalHelmReleases (h : Adds inv inv') (hb : Blocks (evalHelmReleases X k target inv)) :
    Blocks (evalHelmReleases X k target inv') ∨
      ∃ l ∈ inv'.apiUsage, l ∉ inv.apiUsage ∧ l.objects ≠ [] ∧
        ∃ e, lookup k.apiLifecycle e.gvk = some e ∧ removedAt target e = true ∧
          apiKey e.group e.version e.kind = apiKey l.group l.version l.kind := by
  unfold UpgradeScope.evalHelmReleases at hb ⊢
  rw [Blocks.flatMap] at hb ⊢
  obtain ⟨rel, hrel, hb⟩ := hb
  rw [blocks_releaseFindings] at hb
  obtain ⟨hin, hchart | ⟨u, hu, r, hr, hrem⟩⟩ := hb
  · exact .inl ⟨rel, h.helmReleases hrel, (blocks_releaseFindings ..).mpr ⟨hin, .inl hchart⟩⟩
  · rcases manifestRow_stays h.apiUsage hr with hstay | ⟨l, hl, hnew, hobj, hkey⟩
    · exact .inl ⟨rel, h.helmReleases hrel,
        (blocks_releaseFindings ..).mpr ⟨hin, .inr ⟨u, hu, r, hstay, hrem⟩⟩⟩
    · right
      have hlookup := manifestRow_entry hr
      have hgvk : r.entry.gvk = u.gvkOf := (lookup_gvk _ hlookup).2
      have hparts : r.entry.group = u.group ∧ r.entry.version = u.version ∧ r.entry.kind = u.kind := by
        simpa [APILifecycleEntry.gvk, APIUsage.gvkOf] using hgvk
      obtain ⟨hg, hv, hk⟩ := hparts
      refine ⟨l, hl, hnew, hobj, r.entry, by rw [hgvk]; exact hlookup, hrem, ?_⟩
      rw [hg, hv, hk, hkey]

end HelmChecks

/-! ## The evaluation -/

/-- The checks that can block. -/
inductive Blocked (X : External) (inv : Inventory) (k : KB) (target : Version) (now : Time) : Prop where
  /-- A usage finding blocks. -/
  | usage (h : Blocks (evalAPIUsage k target inv))
  /-- A caller blocks. -/
  | calls (h : Blocks ((evalDeprecatedCalls X inv k target).map (·.2)))
  /-- An add-on blocks. -/
  | addOns (h : Blocks (evalAddOns X k target now inv))
  /-- A Helm release blocks. -/
  | helm (h : Blocks (evalHelmReleases X k target inv))
  /-- A kubelet blocks. -/
  | skew (h : Blocks (evalSkew X inv k target))
  /-- The control plane blocks. -/
  | controlPlane (h : Blocks (evalControlPlaneSkew X inv k target))
  /-- The end of a provider's support blocks. -/
  | support (h : Blocks (evalSupport X inv k now).2)
  /-- A CRD's version blocks. -/
  | crds (h : Blocks (evalCRDVersions X inv target))
  /-- A volume plugin blocks. -/
  | volumes (h : Blocks (evalVolumePlugins k target inv))

/-- An object nobody can be named for never blocks. -/
theorem not_blocks_evalAuthorshipUnknown (k : KB) (inv : Inventory) :
    ¬ Blocks (evalAuthorshipUnknown k inv) := by
  apply Blocks.not_of_forall
  intro f hf
  obtain ⟨u, -, hu⟩ := List.mem_filterMap.mp hf
  unfold authorshipFinding at hu
  split at hu
  · simp at hu
  · split_ifs at hu
    obtain rfl := Option.some.inj hu
    simp

/-- A runtime that no entry covers never blocks. -/
theorem not_blocks_evalUncoveredRuntimes (k : KB) (inv : Inventory) :
    ¬ Blocks (evalUncoveredRuntimes k inv) := by
  apply Blocks.not_of_forall
  intro f hf
  obtain ⟨g, -, rfl⟩ := mem_evalUncoveredRuntimes hf
  simp [uncoveredFinding]

/-- A knowledge base that is too old never blocks. -/
theorem not_blocks_evalKBStale (X : External) (inv : Inventory) (k : KB) (target : Version) :
    ¬ Blocks (evalKBStale X inv k target) := by
  apply Blocks.not_of_forall
  intro f hf
  unfold evalKBStale at hf
  dsimp only at hf
  split_ifs at hf
  · simp at hf
  · obtain rfl := List.mem_singleton.mp hf
    simp

variable {X : External} {target : Version} {k : KB} {now : Time} {src : Source}

/-- The upgrade path never blocks. -/
theorem not_blocks_evalUpgradePath {fuel : ℕ} {inv : Inventory} {fs : List Finding}
    (h : evalUpgradePath X fuel inv target = some fs) : ¬ Blocks fs := by
  apply Blocks.not_of_forall
  intro f hf
  obtain rfl | ⟨title, detail, rfl⟩ := evalUpgradePath_eq_some h
  · simp at hf
  · obtain rfl := List.mem_singleton.mp hf
    simp [skewFinding]

/-- An evaluation answers blocked when its path ends and a check blocks. -/
theorem evaluate_blocked_iff (fuel : ℕ) (X : External) (inv : Inventory) (k : KB) (target : Version)
    (now : Time) :
    (∃ r, evaluate fuel X inv k target now = some r ∧ r.verdict = .blocked) ↔
      (evalUpgradePath X fuel inv target).isSome = true ∧ Blocked X inv k target now := by
  have hverdict : ∀ fs, (reportOf X inv k target now fs).verdict = .blocked ↔ Blocks fs := by
    intro fs
    unfold reportOf
    dsimp only
    rw [verdictFor_eq_blocked]
    unfold sortFindings Blocks
    simp only [mem_sortOn]
  have hfolded : Blocks (foldedFindings X inv k target) ↔
      Blocks (evalAPIUsage k target inv) ∨ Blocks ((evalDeprecatedCalls X inv k target).map (·.2)) := by
    unfold foldedFindings
    rw [blocks_foldDeprecatedCalls, Blocks.map capNamespaces_severity]
  rw [evaluate_eq]
  unfold foundFindings checks
  cases hpath : evalUpgradePath X fuel inv target with
  | none => simp [collect]
  | some path =>
    have hnone := not_blocks_evalUpgradePath hpath
    simp only [collect, Option.bind_some, Option.map_some, Option.some.injEq, exists_eq_left', hverdict,
      Blocks.append, Blocks.map capNamespaces_severity, hfolded, not_blocks_evalAuthorshipUnknown,
      not_blocks_evalUncoveredRuntimes, not_blocks_evalKubeProxyKubeletSkew, not_blocks_evalKBStale, hnone,
      false_or, Option.isSome_some, true_and]
    -- The checks left are those that can block, in the order they run.
    constructor
    · rintro ((hb | hb) | hb | hb | hb | hb | hb | hb | hb | hb)
      · exact .usage hb
      · exact .calls hb
      · exact .addOns hb
      · exact .helm hb
      · exact .skew hb
      · exact .controlPlane hb
      · exact .support hb
      · exact .crds hb
      · exact .volumes hb
      · simp [Blocks] at hb
    · intro hb
      cases hb <;> simp_all

/-- With more rows a blocked evaluation stays blocked, unless an added usage row hides a blocker. -/
theorem Adds.blocked {inv inv' : Inventory} (h : Adds inv inv') (hb : Blocked X inv k target now)
    (hhide : ∀ u ∈ inv'.apiUsage, u ∉ inv.apiUsage → ¬ HidesBlocker k target inv'.source u) :
    Blocked X inv' k target now := by
  cases hb with
  | usage hb => exact .usage (hb.mono h.evalAPIUsage)
  | calls hb => exact .calls (hb.mono (List.map_subset _ h.evalDeprecatedCalls))
  | addOns hb => exact .addOns (h.evalAddOns hb)
  | skew hb => exact .skew (h.evalSkew hb)
  | controlPlane hb => exact .controlPlane (by rwa [h.evalControlPlaneSkew])
  | support hb => exact .support (by rwa [h.evalSupport])
  | crds hb => exact .crds (hb.mono h.evalCRDVersions)
  | volumes hb => exact .volumes (hb.mono h.evalVolumePlugins)
  | helm hb =>
    rcases h.evalHelmReleases hb with hb | ⟨u, hu, hnew, hobj, e, he, hrem, hkey⟩
    · exact .helm hb
    · -- The row that takes the objects is a blocker itself, for it hides none.
      have hflagged : Blocks (usageFinding k target inv'.source inv'.namespaces u).toList := by
        rw [blocks_usageFinding]
        by_contra hnot
        rw [not_or, Bool.not_eq_true, Bool.not_eq_true] at hnot
        exact hhide u hu hnew ⟨hobj, hnot.1, hnot.2, e, he, hrem, hkey⟩
      obtain ⟨f, hf, hblock⟩ := hflagged
      exact .usage ⟨f, List.mem_filterMap.mpr ⟨u, hu, by simpa using hf⟩, hblock⟩

/-- The empty text is no version. -/
theorem version?_empty (X : External) : version? X "" = none := by
  simp [version?, parseVersion, trimPrefix, cutPrefix?, hasPrefix, Except.toOption]

/-- A release whose manifest has one object at an API. -/
def releaseAt (e : APILifecycleEntry) (o : ObjectRef) : HelmRelease where
  name := "web"
  «namespace» := o.namespace
  status := "deployed"
  revision := 1
  manifestAPIs := [{ group := e.group, version := e.version, kind := e.kind, count := 1, objects := [o] }]

/-- An inventory of one release, and of usage rows. -/
def releaseInventory (src : Source) (rel : HelmRelease) (rows : List APIUsage) : Inventory where
  source := src
  helmReleases := [rel]
  apiUsage := rows

/-- An inventory of one release names no apiserver. -/
theorem apiserverVersions_releaseInventory (X : External) (src : Source) (rel : HelmRelease)
    (rows : List APIUsage) : apiserverVersions X (releaseInventory src rel rows) = [] := by
  simp [apiserverVersions, releaseInventory, version?_empty, sortedVersions]

/-- Only the release and the usage rows of such an inventory can block. -/
theorem blocked_releaseInventory {rel : HelmRelease} {rows : List APIUsage} :
    Blocked X (releaseInventory src rel rows) k target now ↔
      (∃ u ∈ rows, Blocks (usageFinding k target src [] u).toList) ∨
        Blocks (releaseFindings X k target (releaseInventory src rel rows) rel) := by
  have husage : Blocks (evalAPIUsage k target (releaseInventory src rel rows)) ↔
      ∃ u ∈ rows, Blocks (usageFinding k target src [] u).toList := by
    simp only [Blocks, evalAPIUsage, releaseInventory, List.mem_filterMap, Option.mem_toList]
    constructor
    · rintro ⟨f, ⟨u, hu, hf⟩, hb⟩
      exact ⟨u, hu, f, hf, hb⟩
    · rintro ⟨u, hu, f, hf, hb⟩
      exact ⟨f, ⟨u, hu, hf⟩, hb⟩
  have hhelm : evalHelmReleases X k target (releaseInventory src rel rows) =
      releaseFindings X k target (releaseInventory src rel rows) rel := by
    simp [evalHelmReleases, releaseInventory]
  rw [← husage, ← hhelm]
  constructor
  · intro hb
    -- Every other check has nothing to judge in such an inventory.
    cases hb with
    | usage hb => exact .inl hb
    | helm hb => exact .inr hb
    | calls hb => simp [evalDeprecatedCalls, judgedCalls, otherCallers, releaseInventory, Blocks] at hb
    | addOns hb =>
      simp [evalAddOns, evalNodeRuntimes, runtimeInstalls, releaseInventory, distinctOn, distinctFrom,
        Blocks] at hb
    | skew hb => 
      exact absurd (apiserverVersions_releaseInventory X src rel rows) ((blocks_evalSkew ..).mp hb).1
    | controlPlane hb => simp [evalControlPlaneSkew, releaseInventory, Blocks] at hb
    | support hb => simp [evalSupport, supportWindow, releaseInventory, version?_empty, Blocks] at hb
    | crds hb => simp [evalCRDVersions, releaseInventory, Blocks] at hb
    | volumes hb => simp [evalVolumePlugins, releaseInventory, Blocks] at hb
  · rintro (hb | hb)
    · exact .usage hb
    · exact .helm hb

/-- The release's object is left to it while no row is live, and taken by a row with its key that lists
it. -/
theorem blocks_releaseAt {rows : List APIUsage} {e : APILifecycleEntry} {o : ObjectRef}
    (he : lookup k.apiLifecycle e.gvk = some e) (hrem : removedAt target e = true) :
    Blocks (releaseFindings X k target (releaseInventory src (releaseAt e o) rows) (releaseAt e o)) ↔
      (liveObjects rows (apiKey e.group e.version e.kind)).any (sameObject (releaseAt e o) o) = false := by
  have hchart : evalChartKubeVersion X target (releaseAt e o) = none := rfl
  have hflagged : ¬ (e.deprecated = none ∧ e.removed = none) := by
    rintro ⟨-, hnone⟩
    simp [removedAt, hnone] at hrem
  have hlookup : lookup k.apiLifecycle ⟨e.group, e.version, e.kind⟩ = some e := he
  have hrow : manifestRow k target rows (releaseAt e o)
      { group := e.group, version := e.version, kind := e.kind, count := 1, objects := [o] } =
        if (liveObjects rows (apiKey e.group e.version e.kind)).any (sameObject (releaseAt e o) o) then none
        else some ⟨{ group := e.group, version := e.version, kind := e.kind, count := 1, objects := [o] },
          e, [o], 1⟩ := by
    -- The row counts the object, or nothing.
    unfold manifestRow leftObjects
    cases hlive : (liveObjects rows (apiKey e.group e.version e.kind)).any
        (sameObject (releaseAt e o) o) with
    | false =>
      rw [hlookup]
      simp only [hflagged, if_false, hrem, Bool.true_or, if_true, List.filter_cons, hlive, Bool.not_false,
        List.filter_nil]
      rfl
    | true =>
      rw [hlookup]
      simp only [hflagged, if_false, hrem, Bool.true_or, if_true, List.filter_cons, hlive, Bool.not_true,
        List.filter_nil]
      rfl
  have hapis : (releaseAt e o).manifestAPIs =
      [{ group := e.group, version := e.version, kind := e.kind, count := 1, objects := [o] }] := rfl
  have hrows : (releaseInventory src (releaseAt e o) rows).apiUsage = rows := rfl
  rw [blocks_releaseFindings, hchart, hapis, hrows]
  simp only [List.mem_singleton, exists_eq_left, hrow]
  cases (liveObjects rows (apiKey e.group e.version e.kind)).any (sameObject (releaseAt e o) o) with
  | false => simp [Blocks, releaseAt, helmInstalled, hrem]
  | true => simp [Blocks]

/-- For a knowledge base and target, adding rows to an inventory never unblocks it exactly when no
usage row that may be added hides a blocker. -/
theorem blocked_stays_iff (X : External) (k : KB) (target : Version) (now : Time)
    (MayAdd : APIUsage → Prop) :
    (∀ (fuel : ℕ) (inv inv' : Inventory) (r : Report), inv.Written → inv'.Written → Adds inv inv' →
        (∀ u ∈ inv'.apiUsage, u ∉ inv.apiUsage → MayAdd u) →
        evaluate fuel X inv k target now = some r → r.verdict = .blocked →
        ∃ r', evaluate fuel X inv' k target now = some r' ∧ r'.verdict = .blocked) ↔
      ∀ (src : Source) (u : APIUsage), MayAdd u → u.Written → ¬ HidesBlocker k target src u := by
  constructor
  · rintro hstays src u hmay hwritten ⟨hobj, hserved, hnotrem, e, he, hrem, hkey⟩
    obtain ⟨o, objs, ho⟩ := List.exists_cons_of_ne_nil hobj
    -- A release with the row's first object at the removed API blocks, until the row is added.
    let before := releaseInventory src (releaseAt e o) []
    let after := releaseInventory src (releaseAt e o) [u]
    have hbefore : Blocked X before k target now :=
      blocked_releaseInventory.mpr (.inr ((blocks_releaseAt he hrem).mpr rfl))
    have hafter : ¬ Blocked X after k target now := by
      rw [blocked_releaseInventory, not_or]
      refine ⟨?_, ?_⟩
      · rintro ⟨v, hv, hb⟩
        rw [List.mem_singleton.mp hv, blocks_usageFinding] at hb
        simp [hserved, hnotrem] at hb
      · rw [blocks_releaseAt he hrem]
        simp [liveObjects, hkey, ho, sameObject]
    have hrow : ∀ rows : List APIUsage, (∀ v ∈ rows, v.Written) → (rows.map APIUsage.gvkOf).Nodup →
        (releaseInventory src (releaseAt e o) rows).Written := by
      intro rows hrows hone
      refine ⟨hone, hrows, by simp [releaseInventory], ?_, by simp [releaseInventory],
        by simp [releaseInventory]⟩
      simp [releaseInventory, releaseAt, APIUsage.Written]
    have hadds : Adds before after := by
      constructor <;> simp [before, after, releaseInventory]
    have hpath : ∀ rows, (evalUpgradePath X 0 (releaseInventory src (releaseAt e o) rows) target).isSome := by
      intro rows
      unfold evalUpgradePath upgradeFrom
      rw [apiserverVersions_releaseInventory]
      split_ifs <;> rfl
    obtain ⟨r, hr, hverdict⟩ := (evaluate_blocked_iff 0 X before k target now).mpr ⟨hpath [], hbefore⟩
    obtain ⟨r', hr'⟩ := hstays 0 before after r (hrow [] (by simp) (by simp))
      (hrow [u] (by simpa using hwritten) (by simp)) hadds
      (by simpa [before, after, releaseInventory] using hmay) hr hverdict
    exact hafter ((evaluate_blocked_iff 0 X after k target now).mp ⟨r', hr'⟩).2
  · intro hnone fuel inv inv' r hinv hinv' hadds hmay hr hverdict
    obtain ⟨hpath, hb⟩ := (evaluate_blocked_iff fuel X inv k target now).mp ⟨r, hr, hverdict⟩
    apply (evaluate_blocked_iff fuel X inv' k target now).mpr
    refine ⟨by rwa [hadds.evalUpgradePath], hadds.blocked hb fun u hu hnew => ?_⟩
    exact hnone inv'.source u (hmay u hu hnew) (hinv'.usage u hu)

/-- A knowledge base with one API, of the core group and removed in 1.30. -/
def removedCoreKB : KB where
  apiLifecycle :=
    [{ group := "", version := "v1", kind := "ComponentStatus", introduced := ⟨1, 0⟩
       deprecated := some ⟨1, 19⟩, removed := some ⟨1, 30⟩ }]
  maxKnownK8s := ⟨1, 34⟩

/-- A cluster with one release, whose manifest has an object at the removed core API, and usage
rows. -/
def coreReleaseCluster (rows : List APIUsage) : Inventory where
  clusterID := "prod"
  serverVersion := "v1.29.0"
  helmReleases :=
    [{ name := "web", «namespace» := "shop", chartName := "web", chartVersion := "1.0.0"
       status := "deployed", revision := 1
       manifestAPIs :=
        [{ group := "", version := "v1", kind := "ComponentStatus", count := 1
           objects := [{ «namespace» := "shop", name := "web" }] }] }]
  apiUsage := rows

/-- A usage row of a group that is called as keys call the core group. -/
def coreNamedRow : APIUsage where
  group := "core"
  version := "v1"
  kind := "ComponentStatus"
  count := 1
  objects := [{ «namespace» := "shop", name := "web" }]

/-- The release blocks the upgrade to 1.31, and one more usage row unblocks it. -/
theorem unblocked_by_coreNamedRow :
    (coreReleaseCluster []).Written ∧ (coreReleaseCluster [coreNamedRow]).Written ∧
      Adds (coreReleaseCluster []) (coreReleaseCluster [coreNamedRow]) ∧
      (evaluate 3 .ascii (coreReleaseCluster []) removedCoreKB ⟨1, 31⟩ 0).map (·.verdict) =
        some .blocked ∧
      (evaluate 3 .ascii (coreReleaseCluster [coreNamedRow]) removedCoreKB ⟨1, 31⟩ 0).map (·.verdict) =
        some .unknown := by
  refine ⟨?_, ?_, ?_, by decide +kernel, by decide +kernel⟩
  · constructor <;> simp [coreReleaseCluster, APIUsage.Written]
  · constructor <;> simp [coreReleaseCluster, coreNamedRow, APIUsage.Written]
  · constructor <;> simp [coreReleaseCluster]

end UpgradeScope
