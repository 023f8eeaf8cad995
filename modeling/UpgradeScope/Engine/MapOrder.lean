import UpgradeScope.Lib.Reorder
import UpgradeScope.Inventory.Admitted
import UpgradeScope.Engine.Rising

/-!
# The order of map iterations

Go visits the keys of a map in any order, and `sort.Slice` returns any sorted permutation. The
evaluation reads maps in five places: the namespace counts of a row (`namespaceBreakdown`), the
installs of an add-on by release line (`groupInstalls`), the kube-proxies by node
(`evalKubeProxyKubeletSkew`), the runtimes without a registry entry (`evalUncoveredRuntimes`) and the
capabilities (`assessmentGaps`). The first four sort the keys they visit, so that the order is lost
(`checksVisiting_eq`); the gaps are sorted by a capability that two of them can share. What
`sort.Slice` then makes of the two may depend on the order it is given, which is the map's as soon as
two of its entries are gaps (`evaluate_visiting_iff`).
-/

namespace UpgradeScope

open Go Sorting Kb Registry

/-! ## Rows whose counts are visited in another order -/

/-- The counts of one map, visited in another order. -/
def SameCounts (m m' : NamespaceCounts) : Prop := m.entries.Perm m'.entries

/-- A usage row, its counts visited in another order. -/
def APIUsage.SameRow (u u' : APIUsage) : Prop :=
  SameCounts u.namespaces u'.namespaces ∧ u' = { u with namespaces := u'.namespaces }

/-- A volume row, its counts visited in another order. -/
def VolumePluginUse.SameRow (u u' : VolumePluginUse) : Prop :=
  SameCounts u.namespaces u'.namespaces ∧ u' = { u with namespaces := u'.namespaces }

/-- A CRD, the counts of its rows visited in another order. -/
def CRD.SameRows (c c' : CRD) : Prop :=
  List.Forall₂ APIUsage.SameRow c.usage c'.usage ∧ c' = { c with usage := c'.usage }

/-- An inventory, the counts of its rows visited in another order. -/
structure Inventory.SameRows (inv inv' : Inventory) : Prop where
  /-- The usage rows. -/
  apiUsage : List.Forall₂ APIUsage.SameRow inv.apiUsage inv'.apiUsage
  /-- The rows of unknown authorship. -/
  authorship : List.Forall₂ APIUsage.SameRow inv.apiAuthorshipUnknown inv'.apiAuthorshipUnknown
  /-- The CRDs. -/
  crds : List.Forall₂ CRD.SameRows inv.crds inv'.crds
  /-- The volume plugins. -/
  volumePlugins : List.Forall₂ VolumePluginUse.SameRow inv.volumePlugins inv'.volumePlugins
  /-- The rest is the same. -/
  rest : inv' =
    { inv with
      apiUsage := inv'.apiUsage
      apiAuthorshipUnknown := inv'.apiAuthorshipUnknown
      crds := inv'.crds
      volumePlugins := inv'.volumePlugins }

/-- The names and the text of counts do not depend on the order of the visit: the keys are sorted. -/
theorem namespaceBreakdown_visited {m m' : NamespaceCounts} (h : SameCounts m m') (label : String) :
    namespaceBreakdown m' label = namespaceBreakdown m label := by
  have hkeys : sorted m'.keys = sorted m.keys := sorted_eq_of_perm (h.map Sigma.fst).symm
  have hlookup : ∀ ns, m'.lookup ns = m.lookup ns := fun ns => (AList.perm_lookup h).symm
  unfold namespaceBreakdown
  simp only [hkeys, hlookup]

section Rows

variable {k : KB} {target : Version} {src : Source} {nsInfo : List NamespaceInfo}

/-- The finding of a usage row does not see the order of its counts. -/
theorem usageFinding_visited {u u' : APIUsage} (h : u.SameRow u') :
    usageFinding k target src nsInfo u' = usageFinding k target src nsInfo u := by
  obtain ⟨hcounts, hrest⟩ := h
  have hbreakdown := namespaceBreakdown_visited hcounts
  rw [hrest]
  unfold usageFinding
  dsimp only
  rw [hbreakdown]
  rfl

/-- The finding of a row of unknown authorship. -/
theorem authorshipFinding_visited {u u' : APIUsage} (h : u.SameRow u') :
    authorshipFinding k nsInfo u' = authorshipFinding k nsInfo u := by
  obtain ⟨hcounts, hrest⟩ := h
  have hbreakdown := namespaceBreakdown_visited hcounts
  rw [hrest]
  unfold authorshipFinding
  simp only [hbreakdown]

/-- The finding of a volume row does not see the order of its counts. -/
theorem volumeFinding_visited {u u' : VolumePluginUse} (h : u.SameRow u') :
    volumeFinding k target src nsInfo u' = volumeFinding k target src nsInfo u := by
  obtain ⟨hcounts, hrest⟩ := h
  have hbreakdown := namespaceBreakdown_visited hcounts
  rw [hrest]
  unfold volumeFinding
  dsimp only
  rw [hbreakdown]
  rfl

end Rows

section Lists

/-- A list of results of rows, each visited in another order. -/
theorem filterMap_eq_of_forall₂ {α β : Type} {R : α → α → Prop} {f : α → Option β} {l l' : List α}
    (h : List.Forall₂ R l l') (hf : ∀ {a b}, R a b → f b = f a) : l'.filterMap f = l.filterMap f := by
  induction h with
  | nil => rfl
  | cons hab _ ih => rw [List.filterMap_cons, List.filterMap_cons, hf hab, ih]

/-- A list of results of chosen rows, each visited in another order. -/
theorem map_filter_eq_of_forall₂ {α β : Type} {R : α → α → Prop} {p : α → Bool} {f g : α → β} {l l' : List α}
    (h : List.Forall₂ R l l') (hp : ∀ {a b}, R a b → p b = p a) (hfg : ∀ {a b}, R a b → g b = f a) :
    (l'.filter p).map g = (l.filter p).map f := by
  induction h with
  | nil => rfl
  | cons hab _ ih =>
    rw [List.filter_cons, List.filter_cons, hp hab]
    split
    · rw [List.map_cons, List.map_cons, hfg hab, ih]
    · exact ih

/-- A row without its counts. -/
def APIUsage.bare (u : APIUsage) : APIUsage := { u with namespaces := ∅ }

/-- A row visited in another order is the same but for its counts. -/
theorem APIUsage.SameRow.bare_eq {u u' : APIUsage} (h : u.SameRow u') : u'.bare = u.bare := by
  rw [h.2]
  rfl

/-- Rows visited in another order are the same but for their counts. -/
theorem map_bare_visited {us us' : List APIUsage} (h : List.Forall₂ APIUsage.SameRow us us') :
    us'.map APIUsage.bare = us.map APIUsage.bare := by
  induction h with
  | nil => rfl
  | cons hab _ ih => rw [List.map_cons, List.map_cons, ih, hab.bare_eq]

/-- A search that does not read the counts finds the same row. -/
theorem find?_visited {us us' : List APIUsage} (h : List.Forall₂ APIUsage.SameRow us us') {p : APIUsage → Bool}
    (hp : ∀ {u u' : APIUsage}, u.SameRow u' → p u' = p u) : Option.Rel APIUsage.SameRow (us.find? p) (us'.find? p) := by
  induction h with
  | nil => exact Option.Rel.none
  | cons hab _ ih =>
    rw [List.find?_cons, List.find?_cons, hp hab]
    split
    · exact Option.Rel.some hab
    · exact ih

/-- The live objects of an API are read without the counts. -/
theorem liveObjects_bare (us : List APIUsage) (key : String) : liveObjects (us.map APIUsage.bare) key = liveObjects us key := by
  unfold liveObjects
  rw [List.filter_map, List.flatMap_map]
  rfl

/-- The fold of the callers reads the rows without their counts. -/
theorem foldTarget_bare (X : External) (us : List APIUsage) (usage : List Finding) (c : DeprecatedCall) :
    foldTarget X (us.map APIUsage.bare) usage c = foldTarget X us usage c := by
  unfold foldTarget
  rw [List.find?_map, Option.bind_map]
  rfl

end Lists

section Visited

variable {X : External} {k : KB} {target : Version} {inv inv' : Inventory} (h : inv.SameRows inv')
include h

/-- The usage findings do not see the order of the rows' counts. -/
theorem evalAPIUsage_visited : evalAPIUsage k target inv' = evalAPIUsage k target inv := by
  have hsource : inv'.source = inv.source := by rw [h.rest]
  have hns : inv'.namespaces = inv.namespaces := by rw [h.rest]
  unfold evalAPIUsage
  rw [hsource, hns]
  exact filterMap_eq_of_forall₂ h.apiUsage usageFinding_visited

/-- The findings of unknown authorship do not see the order of the rows' counts. -/
theorem evalAuthorshipUnknown_visited : evalAuthorshipUnknown k inv' = evalAuthorshipUnknown k inv := by
  have hns : inv'.namespaces = inv.namespaces := by rw [h.rest]
  unfold evalAuthorshipUnknown
  rw [hns]
  exact filterMap_eq_of_forall₂ h.authorship authorshipFinding_visited

/-- The findings of the volume plugins do not see the order of the rows' counts. -/
theorem evalVolumePlugins_visited : evalVolumePlugins k target inv' = evalVolumePlugins k target inv := by
  have hsource : inv'.source = inv.source := by rw [h.rest]
  have hns : inv'.namespaces = inv.namespaces := by rw [h.rest]
  unfold evalVolumePlugins
  rw [hsource, hns]
  exact filterMap_eq_of_forall₂ h.volumePlugins volumeFinding_visited

/-- The fold of the callers does not see the order of the rows' counts. -/
theorem foldDeprecatedCalls_visited (usage : List Finding) (calls : List (DeprecatedCall × Finding)) :
    foldDeprecatedCalls X inv' usage calls = foldDeprecatedCalls X inv usage calls := by
  have hindex : ∀ c call, foldIndex X inv'.apiUsage usage c call = foldIndex X inv.apiUsage usage c call := by
    intro c call
    unfold foldIndex
    rw [← foldTarget_bare, map_bare_visited h.apiUsage, foldTarget_bare]
  unfold foldDeprecatedCalls placedCalls
  simp only [hindex]

/-- The findings of the Helm releases do not see the order of the rows' counts. -/
theorem evalHelmReleases_visited : evalHelmReleases X k target inv' = evalHelmReleases X k target inv := by
  have hreleases : inv'.helmReleases = inv.helmReleases := by rw [h.rest]
  have hns : inv'.namespaces = inv.namespaces := by rw [h.rest]
  have hrows : ∀ rel u, manifestRow k target inv'.apiUsage rel u = manifestRow k target inv.apiUsage rel u := by
    intro rel u
    have hlive : ∀ key, liveObjects inv'.apiUsage key = liveObjects inv.apiUsage key := fun key => by
      rw [← liveObjects_bare, map_bare_visited h.apiUsage, liveObjects_bare]
    unfold manifestRow leftObjects
    simp only [hlive]
  unfold evalHelmReleases releaseFindings evalHelmManifest manifestRows
  rw [hreleases, hns]
  simp only [funext (hrows _)]

variable {c c' : CRD} {u u' : APIUsage}

/-- What a finding about a CRD says of a row. -/
theorem crdUsageDetail_visited (hu : u.SameRow u') : crdUsageDetail inv' u' = crdUsageDetail inv u := by
  have hsource : inv'.source = inv.source := by rw [h.rest]
  have hbreakdown := namespaceBreakdown_visited hu.1
  rw [hu.2]
  unfold crdUsageDetail
  dsimp only
  rw [hsource, hbreakdown]
  rfl

/-- A finding about a CRD with the places of a row. -/
theorem crdUsage_visited (hu : u.SameRow u') (f : Finding) : crdUsage inv' u' f = crdUsage inv u f := by
  have hsource : inv'.source = inv.source := by rw [h.rest]
  have hns : inv'.namespaces = inv.namespaces := by rw [h.rest]
  have hbreakdown := namespaceBreakdown_visited hu.1
  rw [hu.2]
  unfold crdUsage
  dsimp only
  rw [hsource, hns, hbreakdown]
  rfl

/-- The finding about custom resources at a version the CRD does not serve. -/
theorem unservedVersionFinding_visited (hc : c.SameRows c') (hu : u.SameRow u') :
    unservedVersionFinding X inv' target c' u' = unservedVersionFinding X inv target c u := by
  rw [hc.2]
  unfold unservedVersionFinding
  dsimp only
  rw [crdUsage_visited h hu, crdUsageDetail_visited h hu, hu.2]
  rfl

/-- The finding about a deprecated version of a CRD. -/
theorem deprecatedVersionFinding_visited (hc : c.SameRows c') (v : CRDVersion) :
    deprecatedVersionFinding X inv' target c' v = deprecatedVersionFinding X inv target c v := by
  have hcapability : inv'.capability = inv.capability := by
    rw [h.rest]
    rfl
  have hused : Option.Rel APIUsage.SameRow (c.used v.name) (c'.used v.name) := by
    refine find?_visited (List.rel_reverse hc.1) fun hu => ?_
    rw [hu.2]
  rw [hc.2] at hused ⊢
  unfold deprecatedVersionFinding
  dsimp only
  rw [hcapability]
  generalize c.used v.name = inUse at hused ⊢
  generalize CRD.used _ v.name = inUse' at hused ⊢
  cases hused with
  | none => rfl
  | some hu =>
    dsimp only
    rw [crdUsage_visited h hu, crdUsageDetail_visited h hu, hu.2]
    rfl

/-- The findings about a CRD do not see the order of its rows' counts. -/
theorem crdFindings_visited (hc : c.SameRows c') :
    crdFindings X inv' target c' = crdFindings X inv target c := by
  have hversions : c'.versions = c.versions := by rw [hc.2]
  have hstored : c'.storedVersions = c.storedVersions := by rw [hc.2]
  have hserves : c'.serves = c.serves := by
    rw [hc.2]
    rfl
  have hstorage : c'.storageVersion = c.storageVersion := by
    rw [hc.2]
    rfl
  have hdeprecated : deprecatedVersionFinding X inv' target c' = deprecatedVersionFinding X inv target c :=
    funext (deprecatedVersionFinding_visited h hc)
  have hstoredFinding : storedVersionFinding target c' = storedVersionFinding target c := by
    rw [hc.2]
    rfl
  have hunserved : (c'.usage.filter fun u => u.count ≠ 0 && !c.serves u.version).map (unservedVersionFinding X inv' target c') =
      (c.usage.filter fun u => u.count ≠ 0 && !c.serves u.version).map (unservedVersionFinding X inv target c) := by
    refine map_filter_eq_of_forall₂ hc.1 (fun hu => ?_) (unservedVersionFinding_visited h hc)
    rw [hu.2]
  unfold crdFindings
  rw [hversions, hstored, hserves, hstorage, hdeprecated, hstoredFinding, hunserved]

/-- The findings of the CRDs do not see the order of the rows' counts. -/
theorem evalCRDVersions_visited : evalCRDVersions X inv' target = evalCRDVersions X inv target :=
  (flatMap_eq_of_forall₂ h.crds fun _ _ _ hc => (crdFindings_visited h hc).symm).symm

end Visited

/-! ## An evaluation that visits its maps in some order -/

/-- The entry of a capability in the map of an inventory. -/
abbrev CapabilityEntry := Sigma fun _ : Capability => CapabilityStatus

/-- The orders of one evaluation's map iterations. -/
structure Visits (inv : Inventory) where
  /-- The inventory with the counts of its rows in the order they are visited in. -/
  rows : Inventory
  /-- It is the same inventory. -/
  rows_same : inv.SameRows rows
  /-- The capabilities. -/
  capabilities : List CapabilityEntry
  /-- They are the inventory's. -/
  capabilities_perm : capabilities.Perm inv.capabilities.entries
  /-- The keys of `byCycle` of an add-on's installs. -/
  cycles : AddOn → List AddOnInstall → List String → List String
  /-- They are the map's. -/
  cycles_perm : ∀ a ins keys, (cycles a ins keys).Perm keys
  /-- The keys of `byNode`. -/
  nodes : List String → List String
  /-- They are the map's. -/
  nodes_perm : ∀ keys, (nodes keys).Perm keys
  /-- The keys of `byRuntime`. -/
  runtimes : List String → List String
  /-- They are the map's. -/
  runtimes_perm : ∀ keys, (runtimes keys).Perm keys

/-- `sort.Slice` of the gaps by their capability. It need not be stable, and what it makes of gaps that share a
capability is its own: one function of its input, the same in every evaluation. -/
structure SortSlice where
  /-- What it makes of its input. -/
  run : List CapabilityGap → List CapabilityGap
  /-- The result has the elements of the input. -/
  perm : ∀ gaps, (run gaps).Perm gaps
  /-- The result is sorted. -/
  sorted : ∀ gaps, (run gaps).Pairwise fun g g' => g.capability ≤ g'.capability

/-- The groups of a list in the order of their keys, which a map holds and a loop visits: the loop over
`slices.Sorted(maps.Keys(m))`. -/
def groupVisiting {α : Type} (visit : List String → List String) (key : α → String) (l : List α) : List (String × List α) :=
  (sorted (visit (l.map key).dedup)).map fun k => (k, l.filter fun a => key a = k)

/-- The order of the visit is lost in the sort. -/
theorem groupVisiting_eq {α : Type} {visit : List String → List String} (hvisit : ∀ keys, (visit keys).Perm keys)
    (key : α → String) (l : List α) : groupVisiting visit key l = groupOn key l := by
  unfold groupVisiting groupOn
  rw [sorted_eq_sortedSet ((hvisit _).nodup_iff.mpr (List.nodup_dedup _)) fun a => ?_]
  rw [(hvisit _).mem_iff, List.mem_dedup]

section Visiting

variable (fuel : ℕ) (X : External) (k : KB) (target : Version) (now : Time) (sort : SortSlice) {inv : Inventory} (v : Visits inv)

/-- `groupInstalls`. -/
def groupInstallsVisiting (a : AddOn) (ins : List AddOnInstall) (node : Bool) : AddOnSubject × List AddOnSubject :=
  let groups := (groupVisiting (v.cycles a ins) (groupKey a now) ins).map fun g =>
    newAddOnSubject a.displayName g.2 (g.1 ≠ "" && !hasPrefix g.1 belowPrefix) node
  match groups with
  | [g] => (g, groups)
  | _ => (newAddOnSubject a.displayName ins false node, groups)

/-- `groupInstalls` and then `evalAddOn`. -/
def addOnFindingsVisiting (a : AddOn) (labelsConsulted : Bool) (ins : List AddOnInstall) (node : Bool) : List Finding :=
  let (all, groups) := groupInstallsVisiting now v a ins node
  evalAddOn X a target now labelsConsulted all groups

/-- `evalAddOns`, with `evalNodeRuntimes`. -/
def evalAddOnsVisiting : List Finding :=
  let labelsConsulted := labelVersionCollectorSchema ≤ v.rows.collectorSchema
  ((distinctOn id (v.rows.addOns.map (·.id))).flatMap fun id =>
    match registryEntry k id with
    | none => []
    | some a => addOnFindingsVisiting X target now v a labelsConsulted
        ((v.rows.addOns.filter (·.id = id)).map (installOf v.rows.namespaces)) false) ++
    k.addOns.flatMap fun a =>
      if a.matchers.runtimes = [] ∨ runtimeInstalls v.rows a = [] then []
      else addOnFindingsVisiting X target now v a true (runtimeInstalls v.rows a) true

/-- `evalUncoveredRuntimes`. -/
def evalUncoveredRuntimesVisiting : List Finding :=
  if k.addOns = [] then []
  else (groupVisiting v.runtimes (·.1) (v.rows.nodes.filterMap fun n =>
    (nodeRuntime n).bind fun (rt, ver) =>
      if rt = "" ∨ k.addOns.any (fun a => rt ∈ a.matchers.runtimes) then none
      else some (rt, (⟨ver, "", [n.name], []⟩ : AddOnInstall)))).map fun g => uncoveredFinding g.1 (g.2.map (·.2))

/-- `evalKubeProxyKubeletSkew`. -/
def evalKubeProxyKubeletSkewVisiting : List Finding :=
  (groupVisiting v.nodes (·.1) (v.rows.controlPlane.filterMap (proxyMismatch X v.rows k))).map fun (node, bad) =>
    let kubelet := ((bad.head?).map (·.2.1)).getD ""
    let proxies := join (sorted (bad.map (·.2.2.1))) ", "
    skewFinding .warning ("kube-proxy-kubelet/" ++ node)
      s!"kube-proxy on node {node} exceeds version skew vs its kubelet"
      (s!"kube-proxy {proxies} on node {node} is more than {k.skew.kubeProxyMaxBehind} minor version(s) older or newer than the kubelet on that node ({kubelet})." ++
        legacyNote "kube-proxy versions" (bad.any (·.2.2.2)))
      (skewPolicyURL ++ "#kube-proxy")

/-- The checks after the API ones. -/
def checksVisiting : List (Option (List Finding)) :=
  [some (evalAuthorshipUnknown k v.rows),
    some (evalAddOnsVisiting X k target now v),
    some (evalUncoveredRuntimesVisiting k v),
    some (evalHelmReleases X k target v.rows),
    some (evalSkew X v.rows k target),
    some (evalControlPlaneSkew X v.rows k target),
    some (evalKubeProxyKubeletSkewVisiting X k v),
    some (evalKBStale X v.rows k target),
    evalUpgradePath X fuel v.rows target,
    some (evalSupport X v.rows k now).2,
    some (evalCRDVersions X v.rows target),
    some (evalVolumePlugins k target v.rows)]

/-- The gaps before they are sorted, the capabilities in the order of a list. -/
def gatheredGaps (X : External) (inv : Inventory) (k : KB) (target : Version) (entries : List CapabilityEntry) :
    List CapabilityGap :=
  missingGaps inv k ++ entries.filterMap (fun e => reportedGap inv k target e.1 e.2) ++ unreportedGaps inv ++
    (serverVersionGap X inv k).toList ++ (coverageGap k target).toList ++ (targetGap X inv target).toList

/-- `assessmentGaps`. -/
def assessmentGapsVisiting : List CapabilityGap := sort.run (gatheredGaps X v.rows k target v.capabilities)

/-- The report of an evaluation's findings. -/
def reportVisiting (found : List Finding) : Report :=
  let gaps := assessmentGapsVisiting X k target sort v
  { reportOf X v.rows k target now found with
    ready := verdictFor (sortFindings found) gaps = .ready
    verdict := verdictFor (sortFindings found) gaps
    notAssessed := gaps }

/-- `Evaluate`. -/
def evaluateVisiting : Option Report :=
  (collect (checksVisiting fuel X k target now v)).map fun fs =>
    reportVisiting X k target now sort v (foldedFindings X v.rows k target ++ fs.map capNamespaces)

variable {fuel X k target now sort v}

/-- The add-ons' findings do not depend on the order of `byCycle`. -/
theorem addOnFindingsVisiting_eq (a : AddOn) (labelsConsulted : Bool) (ins : List AddOnInstall) (node : Bool) :
    addOnFindingsVisiting X target now v a labelsConsulted ins node = addOnFindings X a target now labelsConsulted ins node := by
  unfold addOnFindingsVisiting groupInstallsVisiting
  rw [groupVisiting_eq (v.cycles_perm a ins)]
  rfl

/-- No check but the one of the gaps depends on the order of a visit. -/
theorem checksVisiting_eq : checksVisiting fuel X k target now v = checks fuel X inv k target now := by
  have h := v.rows_same
  have haddOns : evalAddOnsVisiting X k target now v = evalAddOns X k target now v.rows := by
    unfold evalAddOnsVisiting
    simp only [addOnFindingsVisiting_eq]
    rfl
  have hruntimes : evalUncoveredRuntimesVisiting k v = evalUncoveredRuntimes k v.rows := by
    unfold evalUncoveredRuntimesVisiting evalUncoveredRuntimes uncoveredRuntimes
    rw [groupVisiting_eq v.runtimes_perm]
  have hproxies : evalKubeProxyKubeletSkewVisiting X k v = evalKubeProxyKubeletSkew X v.rows k := by
    unfold evalKubeProxyKubeletSkewVisiting evalKubeProxyKubeletSkew
    rw [groupVisiting_eq v.nodes_perm]
  -- The other checks do not read the counts of a row.
  have hrest : evalAddOns X k target now v.rows = evalAddOns X k target now inv ∧
      evalUncoveredRuntimes k v.rows = evalUncoveredRuntimes k inv ∧
      evalSkew X v.rows k target = evalSkew X inv k target ∧
      evalControlPlaneSkew X v.rows k target = evalControlPlaneSkew X inv k target ∧
      evalKubeProxyKubeletSkew X v.rows k = evalKubeProxyKubeletSkew X inv k ∧
      evalKBStale X v.rows k target = evalKBStale X inv k target ∧
      evalUpgradePath X fuel v.rows target = evalUpgradePath X fuel inv target ∧
      evalSupport X v.rows k now = evalSupport X inv k now := by
    rw [h.rest]
    exact ⟨rfl, rfl, rfl, rfl, rfl, rfl, rfl, rfl⟩
  obtain ⟨haddOns', hruntimes', hskew, hcontrol, hproxies', hstale, hpath, hsupport⟩ := hrest
  unfold checksVisiting checks
  rw [evalAuthorshipUnknown_visited h, haddOns, haddOns', hruntimes, hruntimes', evalHelmReleases_visited h, hskew, hcontrol,
    hproxies, hproxies', hstale, hpath, hsupport, evalCRDVersions_visited h, evalVolumePlugins_visited h]

/-- The findings of an evaluation do not depend on the order of a visit. -/
theorem evaluateVisiting_eq : evaluateVisiting fuel X k target now sort v =
    (foundFindings fuel X inv k target now).map (reportVisiting X k target now sort v) := by
  have hfolded : foldedFindings X v.rows k target = foldedFindings X inv k target := by
    have hcalls : evalDeprecatedCalls X v.rows k target = evalDeprecatedCalls X inv k target := by
      rw [v.rows_same.rest]
      rfl
    unfold foldedFindings
    rw [foldDeprecatedCalls_visited v.rows_same, evalAPIUsage_visited v.rows_same, hcalls]
  unfold evaluateVisiting foundFindings
  rw [checksVisiting_eq, hfolded, Option.map_map]
  rfl

end Visiting

/-! ## Gaps that share a capability -/

section Gaps

variable {X : External} {inv : Inventory} {k : KB} {target : Version}

/-- No two different gaps share a capability: where versions are read in part the server version is read, and no
capability that a collector reports is called like a gap of the target or of the knowledge base's reach, but one that is
read in full, or not at all for the very reason of that gap. -/
structure GapsApart (X : External) (inv : Inventory) (k : KB) (target : Version) : Prop where
  /-- The versions. -/
  versions : ∀ st, inv.capabilities.lookup capVersions = some st → st.available = true → st.partly = true →
    inv.serverVersion ≠ "" ∧ version? X inv.serverVersion ≠ none
  /-- The reach of the knowledge base. -/
  coverage : ∀ st g, inv.capabilities.lookup gapKBCoverage = some st → coverageGap k target = some g →
    st.available = true ∧ st.partly = false ∨ st.available = false ∧ st.reason = g.reason
  /-- The target. -/
  target : ∀ st, inv.capabilities.lookup gapTarget = some st → (upgradeFrom X inv).any target.le = true →
    st.available = true ∧ st.partly = false

/-- What a gathered gap is from. -/
inductive GapSource (X : External) (inv : Inventory) (k : KB) (target : Version) (g : CapabilityGap) : Prop where
  /-- A required capability that is not reported. -/
  | missing : g.capability ∈ [capAPIUsage, capVersions, capAddOns] → inv.capabilities.lookup g.capability = none →
      requiredCapability inv k g.capability = true →
      g = { capability := g.capability, required := true, reason := "not reported in the inventory, so nothing it covers was assessed" } →
      GapSource X inv k target g
  /-- A reported one. -/
  | reported : ∀ st, inv.capabilities.lookup g.capability = some st → reportedGap inv k target g.capability st = some g →
      GapSource X inv k target g
  /-- One that older collectors do not report. -/
  | unreported : g ∈ unreportedGaps inv → GapSource X inv k target g
  /-- The server version. -/
  | server : serverVersionGap X inv k = some g → GapSource X inv k target g
  /-- The reach of the knowledge base. -/
  | coverage : coverageGap k target = some g → GapSource X inv k target g
  /-- The target. -/
  | target : targetGap X inv target = some g → GapSource X inv k target g

variable {g g' : CapabilityGap} {st : CapabilityStatus} {c : Capability}

/-- A reported gap is of its capability. -/
theorem capability_of_reportedGap (h : reportedGap inv k target c st = some g) : g.capability = c := by
  unfold reportedGap at h
  split_ifs at h <;> exact (Option.some.inj h) ▸ rfl

/-- The gathered gaps, by what they are from. -/
theorem mem_gatheredGaps :
    g ∈ gatheredGaps X inv k target inv.capabilities.entries ↔ GapSource X inv k target g := by
  unfold gatheredGaps
  simp only [List.mem_append, Option.mem_toList]
  constructor
  · rintro (((((h | h) | h) | h) | h) | h)
    · obtain ⟨c, hc, rfl⟩ := List.mem_map.mp h
      obtain ⟨hc, hcond⟩ := List.mem_filter.mp hc
      obtain ⟨hlookup, hrequired⟩ := of_decide_eq_true hcond
      exact .missing hc hlookup hrequired rfl
    · obtain ⟨⟨c, st⟩, he, hg⟩ := List.mem_filterMap.mp h
      obtain rfl := capability_of_reportedGap hg
      exact .reported st (AList.mem_lookup_iff.mpr he) hg
    · exact .unreported h
    · exact .server h
    · exact .coverage h
    · exact .target h
  · rintro (⟨hc, hlookup, hrequired, heq⟩ | ⟨st, hlookup, hg⟩ | h | h | h | h)
    · refine .inl (.inl (.inl (.inl (.inl ?_))))
      rw [heq]
      exact List.mem_map.mpr ⟨g.capability, List.mem_filter.mpr ⟨hc, decide_eq_true ⟨hlookup, hrequired⟩⟩, rfl⟩
    · exact .inl (.inl (.inl (.inl (.inr (List.mem_filterMap.mpr ⟨⟨g.capability, st⟩, AList.mem_lookup_iff.mp hlookup, hg⟩)))))
    · exact .inl (.inl (.inl (.inr h)))
    · exact .inl (.inl (.inr h))
    · exact .inl (.inr h)
    · exact .inr h

/-- The gaps that older collectors do not report. -/
theorem of_mem_unreportedGaps (h : g ∈ unreportedGaps inv) :
    inv.capabilities.lookup g.capability = none ∧ (g.capability = capCRDs ∨ g.capability = capVolumes) := by
  unfold unreportedGaps at h
  rcases List.mem_append.mp h with h | h
  · split_ifs at h with hnone
    · rw [List.mem_singleton.mp h]
      exact ⟨hnone, .inl rfl⟩
    · simp at h
  · split_ifs at h with hnone
    · rw [List.mem_singleton.mp h]
      exact ⟨hnone, .inr rfl⟩
    · simp at h

/-- A capability has one gap at most among those that were not reported. -/
theorem unreportedGaps_unique (h : g ∈ unreportedGaps inv) (h' : g' ∈ unreportedGaps inv)
    (hcap : g.capability = g'.capability) : g = g' := by
  have hne : capCRDs ≠ capVolumes := by decide
  unfold unreportedGaps at h h'
  rcases List.mem_append.mp h with h | h <;> rcases List.mem_append.mp h' with h' | h' <;> split_ifs at h h' <;>
    simp only [List.mem_singleton, List.not_mem_nil] at h h' <;> subst h <;> subst h' <;> simp_all

/-- The gap of a server version that does not parse is of the versions, which were read. -/
theorem of_serverVersionGap (h : serverVersionGap X inv k = some g) :
    g.capability = capVersions ∧ g.partly = false ∧ ¬ (inv.serverVersion ≠ "" ∧ version? X inv.serverVersion ≠ none) ∧
      (inv.capabilities.lookup capVersions = none → inv.source = .files) ∧
      ∀ st, inv.capabilities.lookup capVersions = some st → st.available = true := by
  unfold serverVersionGap at h
  dsimp only at h
  split_ifs at h with hassessed hempty hnone
  · obtain rfl := Option.some.inj h
    refine ⟨rfl, rfl, fun hand => hand.1 hempty, fun hl => ?_, fun st hl => ?_⟩
    · simpa [hl] using hassessed
    · simpa [hl] using hassessed
  · obtain rfl := Option.some.inj h
    refine ⟨rfl, rfl, fun hand => hand.2 hnone, fun hl => ?_, fun st hl => ?_⟩
    · simpa [hl] using hassessed
    · simpa [hl] using hassessed

/-- A server version that is not read has a gap where the versions are read. -/
theorem exists_serverVersionGap (hl : inv.capabilities.lookup capVersions = some st) (hst : st.available = true)
    (h : ¬ (inv.serverVersion ≠ "" ∧ version? X inv.serverVersion ≠ none)) :
    ∃ g, serverVersionGap X inv k = some g := by
  unfold serverVersionGap
  simp only [hl, hst, not_true_eq_false, if_false]
  by_cases hempty : inv.serverVersion = ""
  · rw [if_pos hempty]
    exact ⟨_, rfl⟩
  · have hnone : version? X inv.serverVersion = none := by
      by_contra hne
      exact h ⟨hempty, hne⟩
    rw [if_neg hempty, if_pos hnone]
    exact ⟨_, rfl⟩

/-- The gap of the knowledge base's reach. -/
theorem of_coverageGap (h : coverageGap k target = some g) :
    g = { capability := gapKBCoverage, required := true, reason := g.reason } := by
  unfold coverageGap at h
  split_ifs at h
  obtain rfl := Option.some.inj h
  rfl

/-- The gap of a target that is no upgrade is required and whole. -/
theorem of_targetGap (h : targetGap X inv target = some g) :
    g.capability = gapTarget ∧ g.partly = false ∧ g.required = true ∧ (upgradeFrom X inv).any target.le = true := by
  unfold targetGap at h
  obtain ⟨running, hrunning, h⟩ := Option.bind_eq_some_iff.mp h
  split_ifs at h with hle
  obtain rfl := Option.some.inj h
  exact ⟨rfl, rfl, rfl, by simp [hrunning, hle]⟩

/-- A target that is no upgrade has a gap. -/
theorem exists_targetGap (h : (upgradeFrom X inv).any target.le = true) : ∃ g, targetGap X inv target = some g := by
  obtain ⟨running, hrunning, hle⟩ := (Option.any_eq_true _ _).mp h
  unfold targetGap
  rw [hrunning, Option.bind_some, if_pos hle]
  exact ⟨_, rfl⟩

/-- A reported gap is of a capability that is not read, or read in part. -/
theorem of_reportedGap (h : reportedGap inv k target c st = some g) :
    st.available = false ∧ g = { capability := c, reason := st.reason, required := requiredCapability inv k c } ∨
      st.available = true ∧ st.partly = true ∧ g.partly = true := by
  unfold reportedGap at h
  cases havailable : st.available with
  | false =>
    rw [havailable, if_pos (by simp)] at h
    exact .inl ⟨rfl, (Option.some.inj h).symm⟩
  | true =>
    rw [havailable, if_neg (by simp)] at h
    split_ifs at h with hpartly
    exact .inr ⟨rfl, hpartly, (Option.some.inj h) ▸ rfl⟩

/-- Where the gaps are apart, a reported gap is none of the others of its capability. -/
theorem GapsApart.reported_eq (h : GapsApart X inv k target) (hl : inv.capabilities.lookup g.capability = some st)
    (hg : reportedGap inv k target g.capability st = some g) (hg' : GapSource X inv k target g')
    (hcap : g.capability = g'.capability) : g = g' := by
  -- One case for each source of a gap. A missing or unreported capability has no status to report.
  cases hg' with
  | missing _ hnone _ _ =>
    rw [← hcap, hl] at hnone
    exact absurd hnone (by simp)
  | reported st' hl' hg' =>
    rw [← hcap] at hl' hg'
    obtain rfl : st = st' := Option.some.inj (hl.symm.trans hl')
    exact Option.some.inj (hg.symm.trans hg')
  | unreported hmem =>
    have hnone := (of_mem_unreportedGaps hmem).1
    rw [← hcap, hl] at hnone
    exact absurd hnone (by simp)
  | server hserver =>
    obtain ⟨hversions, -, hunread, -, havailable⟩ := of_serverVersionGap hserver
    rw [← hcap] at hversions
    rw [hversions] at hl
    rcases of_reportedGap hg with ⟨hst, -⟩ | ⟨hst, hpartly, -⟩
    · simp [havailable st hl] at hst
    · exact absurd (h.versions st hl hst hpartly) hunread
  | coverage hcoverage =>
    have hform := of_coverageGap hcoverage
    have hname : g.capability = gapKBCoverage := by rw [hcap, hform]
    rw [hname] at hl hg
    rcases of_reportedGap hg with ⟨hst, hgap⟩ | ⟨hst, hpartly, -⟩
    · rcases h.coverage st g' hl hcoverage with ⟨hst', -⟩ | ⟨-, hreason⟩
      · simp [hst] at hst'
      · rw [hgap, hform, hreason]
        simp [requiredCapability]
    · rcases h.coverage st g' hl hcoverage with ⟨-, hpartly'⟩ | ⟨hst', -⟩
      · simp [hpartly] at hpartly'
      · simp [hst] at hst'
  | target htarget =>
    obtain ⟨hname, -, -, hany⟩ := of_targetGap htarget
    rw [← hcap] at hname
    rw [hname] at hl hg
    obtain ⟨hst, hpartly⟩ := h.target st hl hany
    rcases of_reportedGap hg with ⟨hst', -⟩ | ⟨-, hpartly', -⟩
    · simp [hst] at hst'
    · simp [hpartly] at hpartly'

/-- The gap of a required capability that is not reported. -/
def missingGap (c : Capability) : CapabilityGap :=
  { capability := c, required := true, reason := "not reported in the inventory, so nothing it covers was assessed" }

/-- The gap of a capability that is not a reported one's. -/
def standingGap (X : External) (inv : Inventory) (k : KB) (target : Version) (c : Capability) : Option CapabilityGap :=
  if c = gapKBCoverage then coverageGap k target
  else if c = gapTarget then targetGap X inv target
  else if c = capCRDs ∨ c = capVolumes then (unreportedGaps inv).find? (·.capability = c)
  else if c = capVersions then (serverVersionGap X inv k).or (some (missingGap c))
  else some (missingGap c)

/-- A gap that is not a reported capability's is the one of its capability. -/
theorem standingGap_eq (h : GapSource X inv k target g)
    (hnot : ∀ st, inv.capabilities.lookup g.capability = some st → reportedGap inv k target g.capability st ≠ some g) :
    standingGap X inv k target g.capability = some g := by
  unfold standingGap
  cases h with
  | missing hc hnone hrequired heq =>
    have hothers : g.capability ≠ gapKBCoverage ∧ g.capability ≠ gapTarget ∧
        ¬ (g.capability = capCRDs ∨ g.capability = capVolumes) := by
      simp only [List.mem_cons, List.not_mem_nil, or_false] at hc
      rcases hc with hc | hc | hc <;> rw [hc] <;> decide
    rw [if_neg hothers.1, if_neg hothers.2.1, if_neg hothers.2.2]
    split_ifs with hversions
    · -- Versions are required of a cluster only, and only there is their absence no assessment.
      have hserver : serverVersionGap X inv k = none := by
        by_contra hsome
        obtain ⟨g', hg'⟩ := Option.ne_none_iff_exists'.mp hsome
        have hfiles := (of_serverVersionGap hg').2.2.2.1 (hversions ▸ hnone)
        have hdecide : capVersions ≠ capAPIUsage ∧ capVersions ≠ gapKBCoverage := by decide
        rw [hversions] at hrequired
        simp [requiredCapability, hfiles, hdecide] at hrequired
      rw [hserver, Option.none_or]
      exact congrArg some heq.symm
    · exact congrArg some heq.symm
  | reported st hl hg => exact absurd hg (hnot st hl)
  | unreported hmem =>
    have hcap := (of_mem_unreportedGaps hmem).2
    have hothers : g.capability ≠ gapKBCoverage ∧ g.capability ≠ gapTarget := by
      rcases hcap with hcap | hcap <;> rw [hcap] <;> decide
    rw [if_neg hothers.1, if_neg hothers.2, if_pos hcap]
    cases hfind : (unreportedGaps inv).find? (·.capability = g.capability) with
    | none =>
      rw [List.find?_eq_none] at hfind
      exact absurd (decide_eq_true rfl) (hfind g hmem)
    | some g' =>
      have hsame : g'.capability = g.capability := by simpa using List.find?_some hfind
      rw [unreportedGaps_unique (List.mem_of_find?_eq_some hfind) hmem hsame]
  | server hserver =>
    rw [(of_serverVersionGap hserver).1, if_neg (by decide), if_neg (by decide), if_neg (by decide), if_pos rfl, hserver]
    rfl
  | coverage hcoverage =>
    have hname : g.capability = gapKBCoverage := by rw [of_coverageGap hcoverage]
    rw [hname, if_pos rfl, hcoverage]
  | target htarget =>
    rw [(of_targetGap htarget).1, if_neg (by decide), if_pos rfl, htarget]

/-- Where the gaps are apart, a capability has one gap. -/
theorem GapsApart.eq_of_capability (h : GapsApart X inv k target) (hg : GapSource X inv k target g)
    (hg' : GapSource X inv k target g') (hcap : g.capability = g'.capability) : g = g' := by
  by_cases hreported : ∃ st, inv.capabilities.lookup g.capability = some st ∧ reportedGap inv k target g.capability st = some g
  · obtain ⟨st, hl, hgap⟩ := hreported
    exact h.reported_eq hl hgap hg' hcap
  by_cases hreported' : ∃ st, inv.capabilities.lookup g'.capability = some st ∧ reportedGap inv k target g'.capability st = some g'
  · obtain ⟨st, hl, hgap⟩ := hreported'
    exact (h.reported_eq hl hgap hg hcap.symm).symm
  · have hstanding := standingGap_eq hg fun st hl hgap => hreported ⟨st, hl, hgap⟩
    have hstanding' := standingGap_eq hg' fun st hl hgap => hreported' ⟨st, hl, hgap⟩
    rw [hcap] at hstanding
    exact Option.some.inj (hstanding.symm.trans hstanding')

/-- Where a capability has one gap, the gaps are apart. -/
theorem gapsApart_of_unique (h : ∀ g g', GapSource X inv k target g → GapSource X inv k target g' →
    g.capability = g'.capability → g = g') : GapsApart X inv k target := by
  -- A status gives a gap when it is unavailable and when it is partial, of its own capability.
  have hunavailable : ∀ {c st}, inv.capabilities.lookup c = some st → st.available = false →
      GapSource X inv k target { capability := c, reason := st.reason, required := requiredCapability inv k c } := by
    intro c st hl hst
    refine .reported st hl ?_
    simp [reportedGap, hst]
  have hpartial : ∀ {c st}, inv.capabilities.lookup c = some st → st.available = true → st.partly = true →
      ∃ g, GapSource X inv k target g ∧ g.capability = c ∧ g.partly = true := by
    intro c st hl hst hpartly
    refine ⟨⟨c, st.reason, true, sorted st.skipped, partialRequired inv k target c st⟩, .reported st hl ?_, rfl, rfl⟩
    simp [reportedGap, hst, hpartly]
  refine ⟨fun st hl hst hpartly => ?_, fun st g hl hg => ?_, fun st hl hany => ?_⟩
  · by_contra hunread
    obtain ⟨g, hg⟩ := exists_serverVersionGap (k := k) hl hst hunread
    obtain ⟨g', hg', hname, hpart⟩ := hpartial hl hst hpartly
    obtain ⟨hversions, hwhole, -⟩ := of_serverVersionGap hg
    rw [h g' g hg' (.server hg) (hname.trans hversions.symm), hwhole] at hpart
    simp at hpart
  · have hform := of_coverageGap hg
    have hname : g.capability = gapKBCoverage := by rw [hform]
    cases hst : st.available with
    | false =>
      have heq := h _ g (hunavailable hl hst) (.coverage hg) hname.symm
      exact .inr ⟨rfl, congrArg CapabilityGap.reason heq⟩
    | true =>
      refine .inl ⟨rfl, ?_⟩
      by_contra hpartly
      obtain ⟨g', hg', hname', hpart⟩ := hpartial hl hst (by simpa using hpartly)
      rw [h g' g hg' (.coverage hg) (hname'.trans hname.symm), hform] at hpart
      simp at hpart
  · obtain ⟨g, hg⟩ := exists_targetGap hany
    obtain ⟨hname, hwhole, hrequired, -⟩ := of_targetGap hg
    have hst : st.available = true := by
      by_contra hst
      rw [← h _ g (hunavailable hl (by simpa using hst)) (.target hg) hname.symm] at hrequired
      have hdecide : gapTarget ≠ capAPIUsage ∧ gapTarget ≠ gapKBCoverage ∧ gapTarget ≠ capVersions ∧ gapTarget ≠ capAddOns := by
        decide
      simp [requiredCapability, hdecide] at hrequired
    refine ⟨hst, ?_⟩
    by_contra hpartly
    obtain ⟨g', hg', hname', hpart⟩ := hpartial hl hst (by simpa using hpartly)
    rw [h g' g hg' (.target hg) (hname'.trans hname.symm), hwhole] at hpart
    simp at hpart

end Gaps

/-! ## The report -/

/-- At most one entry of the map is a gap: a capability that is not read, or read in part. -/
def OneGap (inv : Inventory) : Prop := (inv.capabilities.entries.filter fun e => !e.2.available || e.2.partly).length ≤ 1

instance (inv : Inventory) : Decidable (OneGap inv) := inferInstanceAs (Decidable (_ ≤ _))

/-- A sort of the gaps that puts one before the others of its capability. -/
def sortFirst (first : CapabilityGap) (gaps : List CapabilityGap) : List CapabilityGap :=
  sortOn (·.capability) (if first ∈ gaps then first :: gaps.erase first else gaps)

/-- The order that puts one gap first is of the gaps it is given. -/
theorem sortFirst_perm (first : CapabilityGap) (gaps : List CapabilityGap) : (sortFirst first gaps).Perm gaps := by
  unfold sortFirst
  refine (sortOn_perm _ _).trans ?_
  split_ifs with hmem
  · exact (List.perm_cons_erase hmem).symm
  · exact List.Perm.refl _

/-- Of the gaps of its capability, the one that is put first comes first: the sort is stable. -/
theorem filter_sortFirst {first : CapabilityGap} {gaps : List CapabilityGap} (h : first ∈ gaps) :
    ((sortFirst first gaps).filter fun g => g.capability = first.capability).head? = some first := by
  unfold sortFirst
  rw [if_pos h, filter_sortOn, List.filter_cons_of_pos (by simp), List.head?_cons]

/-- A sort that puts one gap first in one list, and another one in every other. -/
def SortSlice.telling (gaps : List CapabilityGap) (g g' : CapabilityGap) : SortSlice where
  run l := sortFirst (if l = gaps then g else g') l
  perm l := sortFirst_perm _ l
  sorted _ := sortOn_pairwise _ _

/-- The visits in the order of the model's lists, but for the capabilities. -/
def Visits.of (inv : Inventory) (capabilities : List CapabilityEntry) (h : capabilities.Perm inv.capabilities.entries) :
    Visits inv where
  rows := inv
  rows_same :=
    have hrow : ∀ u : APIUsage, u.SameRow u := fun _ => ⟨List.Perm.refl _, rfl⟩
    have hcrd : ∀ c : CRD, c.SameRows c := fun _ => ⟨List.forall₂_same.mpr fun u _ => hrow u, rfl⟩
    ⟨List.forall₂_same.mpr fun u _ => hrow u, List.forall₂_same.mpr fun u _ => hrow u,
      List.forall₂_same.mpr fun c _ => hcrd c, List.forall₂_same.mpr fun _ _ => ⟨List.Perm.refl _, rfl⟩, rfl⟩
  capabilities := capabilities
  capabilities_perm := h
  cycles _ _ keys := keys
  cycles_perm _ _ keys := List.Perm.refl keys
  nodes keys := keys
  nodes_perm := List.Perm.refl
  runtimes keys := keys
  runtimes_perm := List.Perm.refl

section Report

variable {fuel : ℕ} {X : External} {inv : Inventory} {k : KB} {target : Version} {now : Time} {rep : Report}

/-- The counts of the rows are not read where the gaps are gathered. -/
theorem gatheredGaps_rows (v : Visits inv) (entries : List CapabilityEntry) :
    gatheredGaps X v.rows k target entries = gatheredGaps X inv k target entries := by
  rw [v.rows_same.rest]
  rfl

/-- The gaps before they are sorted, whatever the order of the capabilities. -/
theorem gatheredGaps_perm (v : Visits inv) :
    (gatheredGaps X v.rows k target v.capabilities).Perm (gatheredGaps X inv k target inv.capabilities.entries) := by
  rw [gatheredGaps_rows]
  unfold gatheredGaps
  refine List.Perm.append_right _ (List.Perm.append_right _ (List.Perm.append_right _ (List.Perm.append_right _ ?_)))
  exact List.Perm.append_left _ (v.capabilities_perm.filterMap _)

/-- A reported capability is a gap when it is not read, or read in part. -/
theorem isSome_reportedGap (c : Capability) (st : CapabilityStatus) :
    (reportedGap inv k target c st).isSome = (!st.available || st.partly) := by
  unfold reportedGap
  cases havailable : st.available with
  | false => rfl
  | true => cases hpartly : st.partly <;> simp

/-- The reported gaps, counted by the entries they are from. -/
theorem length_reportedGaps (entries : List CapabilityEntry) :
    (entries.filterMap fun e => reportedGap inv k target e.1 e.2).length =
      (entries.filter fun e => !e.2.available || e.2.partly).length := by
  rw [List.length_filterMap_eq_countP, List.countP_eq_length_filter]
  simp only [isSome_reportedGap]

/-- No reported gap comes twice: each is of its own capability. -/
theorem nodup_reportedGaps : (inv.capabilities.entries.filterMap fun e => reportedGap inv k target e.1 e.2).Nodup := by
  refine List.pairwise_filterMap.mpr ((List.nodupKeys_iff_pairwise.mp inv.capabilities.nodupKeys).imp ?_)
  intro e e' hne g hg g' hg' heq
  exact hne ((capability_of_reportedGap hg).symm.trans ((congrArg _ heq).trans (capability_of_reportedGap hg')))

/-- Where at most one entry of the map is a gap, the gaps are gathered in one order. -/
theorem OneGap.gatheredGaps_eq (h : OneGap inv) (v : Visits inv) :
    gatheredGaps X v.rows k target v.capabilities = gatheredGaps X inv k target inv.capabilities.entries := by
  have hperm := v.capabilities_perm.filterMap fun e => reportedGap inv k target e.1 e.2
  have hone : (inv.capabilities.entries.filterMap fun e => reportedGap inv k target e.1 e.2).length ≤ 1 :=
    (length_reportedGaps _).trans_le h
  rw [gatheredGaps_rows]
  unfold gatheredGaps
  rw [eq_of_perm_of_length_le_one hperm.symm hone]

/-- A list without duplicates that reads the same from both ends has at most one element. -/
theorem length_le_one_of_reverse_eq {α : Type} {l : List α} (hl : l.Nodup) (h : l.reverse = l) : l.length ≤ 1 := by
  cases l with
  | nil => exact Nat.zero_le 1
  | cons a l =>
    have hlast : (a :: l).getLast? = some a := by rw [List.getLast?_eq_head?_reverse, h, List.head?_cons]
    cases l with
    | nil => exact Nat.le_refl 1
    | cons b l =>
      rw [List.getLast?_cons_cons] at hlast
      exact absurd (List.mem_of_getLast? hlast) (List.nodup_cons.mp hl).1

/-- Where two entries of the map are gaps, the gaps are gathered in another order when the map is visited backwards. -/
theorem gatheredGaps_reverse_ne (h : ¬ OneGap inv) :
    gatheredGaps X inv k target inv.capabilities.entries.reverse ≠ gatheredGaps X inv k target inv.capabilities.entries := by
  intro heq
  unfold gatheredGaps at heq
  simp only [List.append_cancel_right_eq, List.append_cancel_left_eq, List.filterMap_reverse] at heq
  exact h ((length_reportedGaps _).symm.trans_le (length_le_one_of_reverse_eq nodup_reportedGaps heq))

/-- Evaluations whose gaps are sorted to the same list give one report. -/
theorem reportVisiting_eq {sort : SortSlice} {v : Visits inv} {gaps : List CapabilityGap}
    (h : assessmentGapsVisiting X k target sort v = gaps) (found : List Finding) :
    reportVisiting X k target now sort v found =
      { reportOf X inv k target now found with
        ready := verdictFor (sortFindings found) gaps = .ready
        verdict := verdictFor (sortFindings found) gaps
        notAssessed := gaps } := by
  have hrest : reportOf X v.rows k target now found = reportOf X inv k target now found := by
    rw [v.rows_same.rest]
    rfl
  unfold reportVisiting
  rw [h, hrest]

/-- Where the gaps are apart, every visit sorts them to the list of the model. -/
theorem GapsApart.assessmentGaps_eq (h : GapsApart X inv k target) (sort : SortSlice) (v : Visits inv) :
    assessmentGapsVisiting X k target sort v = assessmentGaps X inv k target := by
  have hmodel : assessmentGaps X inv k target =
      sortOn (·.capability) (gatheredGaps X inv k target inv.capabilities.entries) := rfl
  have hperm : (assessmentGapsVisiting X k target sort v).Perm (gatheredGaps X inv k target inv.capabilities.entries) :=
    (sort.perm _).trans (gatheredGaps_perm v)
  rw [hmodel]
  refine List.Perm.eq_of_pairwise (fun g g' hg hg' hle hle' => ?_) (sort.sorted _) (sortOn_pairwise _ _)
    (hperm.trans (sortOn_perm _ _).symm)
  refine h.eq_of_capability (mem_gatheredGaps.mp (hperm.mem_iff.mp hg)) (mem_gatheredGaps.mp ?_) (le_antisymm hle hle')
  exact (sortOn_perm _ _).mem_iff.mp hg'

/-- Two gaps of one capability, and two entries of the map that are gaps: under a sort that tells the two orders of the
map apart, either of the two gaps comes first. -/
theorem exists_visits_ne (hrep : evaluate fuel X inv k target now = some rep) (hmany : ¬ OneGap inv) {g g' : CapabilityGap}
    (hg : GapSource X inv k target g) (hg' : GapSource X inv k target g') (hcap : g.capability = g'.capability) (hne : g ≠ g') :
    evaluateVisiting fuel X k target now
        (.telling (gatheredGaps X inv k target inv.capabilities.entries) g g') (Visits.of inv _ (List.Perm.refl _)) ≠
      evaluateVisiting fuel X k target now
        (.telling (gatheredGaps X inv k target inv.capabilities.entries) g g') (Visits.of inv _ (List.reverse_perm _)) := by
  intro heq
  rw [evaluate_eq] at hrep
  obtain ⟨found, hfound, -⟩ := Option.map_eq_some_iff.mp hrep
  rw [evaluateVisiting_eq, evaluateVisiting_eq, hfound, Option.map_some, Option.map_some, Option.some.injEq] at heq
  have hgaps : sortFirst g (gatheredGaps X inv k target inv.capabilities.entries) =
      sortFirst g' (gatheredGaps X inv k target inv.capabilities.entries.reverse) := by
    have hnot := congrArg Report.notAssessed heq
    simpa [reportVisiting, assessmentGapsVisiting, SortSlice.telling, Visits.of, gatheredGaps_reverse_ne hmany] using hnot
  have hmem : g ∈ gatheredGaps X inv k target inv.capabilities.entries := mem_gatheredGaps.mpr hg
  have hmem' : g' ∈ gatheredGaps X inv k target inv.capabilities.entries.reverse :=
    (gatheredGaps_perm (Visits.of inv _ (List.reverse_perm _))).mem_iff.mpr (mem_gatheredGaps.mpr hg')
  have hhead := filter_sortFirst hmem
  rw [hgaps, hcap, filter_sortFirst hmem'] at hhead
  exact hne (Option.some.inj hhead).symm

/-- The report does not depend on the order of a map iteration, whatever `sort.Slice` makes of equal elements, exactly where
no two gaps share a capability or at most one entry of the map of capabilities is a gap. -/
theorem evaluate_visiting_iff (hrep : evaluate fuel X inv k target now = some rep) :
    (∀ (sort : SortSlice) (v v' : Visits inv),
      evaluateVisiting fuel X k target now sort v = evaluateVisiting fuel X k target now sort v') ↔
      GapsApart X inv k target ∨ OneGap inv := by
  constructor
  · intro hsame
    by_cases hone : OneGap inv
    · exact .inr hone
    · refine .inl (gapsApart_of_unique fun g g' hg hg' hcap => ?_)
      by_contra hne
      exact exists_visits_ne hrep hone hg hg' hcap hne (hsame _ _ _)
  · intro h sort v v'
    have hgaps : assessmentGapsVisiting X k target sort v = assessmentGapsVisiting X k target sort v' := by
      rcases h with hapart | hone
      · rw [hapart.assessmentGaps_eq, hapart.assessmentGaps_eq]
      · unfold assessmentGapsVisiting
        rw [hone.gatheredGaps_eq, hone.gatheredGaps_eq]
    rw [evaluateVisiting_eq, evaluateVisiting_eq, funext (reportVisiting_eq hgaps), funext (reportVisiting_eq rfl)]

/-- A cluster whose versions are read in part and twenty more capabilities not at all, with a server version. -/
def partlyRead (serverVersion : String) : Inventory where
  serverVersion := serverVersion
  capabilities := AList.insert capVersions { available := true, partly := true }
    (["a", "b", "c", "d", "e", "f", "g", "h", "i", "j", "k", "l", "m", "n", "o", "p", "q", "r", "s", "t"].foldr
      (fun c m => AList.insert ("x-" ++ c) { available := false, reason := "forbidden" } m) ∅)

/-- Where the server version is read, every visit gives one report. -/
theorem evaluate_visiting_partlyRead : ¬ OneGap (partlyRead "v1.21.0") ∧
    ∃ rep, evaluate 3 External.ascii (partlyRead "v1.21.0") removesIngress ⟨1, 22⟩ 0 = some rep ∧
      ∀ (sort : SortSlice) (v v' : Visits (partlyRead "v1.21.0")),
        evaluateVisiting 3 External.ascii removesIngress ⟨1, 22⟩ 0 sort v =
          evaluateVisiting 3 External.ascii removesIngress ⟨1, 22⟩ 0 sort v' := by
  have hsome : (evaluate 3 External.ascii (partlyRead "v1.21.0") removesIngress ⟨1, 22⟩ 0).isSome = true := by decide +kernel
  obtain ⟨rep, hrep⟩ := Option.isSome_iff_exists.mp hsome
  have hread : (partlyRead "v1.21.0").serverVersion ≠ "" ∧
      version? External.ascii (partlyRead "v1.21.0").serverVersion ≠ none := by decide +kernel
  have hcoverage : (partlyRead "v1.21.0").capabilities.lookup gapKBCoverage = none := by decide +kernel
  have htarget : (partlyRead "v1.21.0").capabilities.lookup gapTarget = none := by decide +kernel
  have hapart : GapsApart External.ascii (partlyRead "v1.21.0") removesIngress ⟨1, 22⟩ :=
    ⟨fun _ _ _ _ => hread, fun _ _ hl => by simp [hcoverage] at hl, fun _ hl => by simp [htarget] at hl⟩
  exact ⟨by decide +kernel, rep, hrep, (evaluate_visiting_iff hrep).mpr (.inl hapart)⟩

/-- Without a server version there are two gaps of the versions among 25. A sort may put the partial one first when the map
is visited from the versions on, and the other one when it is visited backwards; Go's `sort.Slice`, a quicksort past 12
elements, does. -/
theorem evaluate_visits_differ : admitInventory External.ascii (partlyRead "") = .ok (partlyRead "") ∧
    ¬ ∀ (sort : SortSlice) (v v' : Visits (partlyRead "")),
      evaluateVisiting 3 External.ascii removesIngress ⟨1, 22⟩ 0 sort v =
        evaluateVisiting 3 External.ascii removesIngress ⟨1, 22⟩ 0 sort v' := by
  have hsome : (evaluate 3 External.ascii (partlyRead "") removesIngress ⟨1, 22⟩ 0).isSome = true := by decide +kernel
  obtain ⟨rep, hrep⟩ := Option.isSome_iff_exists.mp hsome
  have hpartial : GapSource External.ascii (partlyRead "") removesIngress ⟨1, 22⟩
      { capability := capVersions, reason := "", partly := true } :=
    .reported { available := true, partly := true } (by decide +kernel) (by decide +kernel)
  have hserver : GapSource External.ascii (partlyRead "") removesIngress ⟨1, 22⟩
      { capability := capVersions, required := true,
        reason := "server version not reported; kubelet and control-plane skew were not evaluated" } :=
    .server (by decide +kernel)
  refine ⟨(admitInventory_eq_ok _).mpr ⟨by decide +kernel, ?_⟩, fun hsame => ?_⟩
  · rfl
  · exact exists_visits_ne hrep (by decide +kernel) hpartial hserver rfl (by simp) (hsame _ _ _)

end Report

end UpgradeScope
