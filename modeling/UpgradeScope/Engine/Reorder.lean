import UpgradeScope.Engine.Evaluate
import UpgradeScope.Engine.Fold
import UpgradeScope.Engine.Grades
import UpgradeScope.Engine.Grouping
import UpgradeScope.Inventory.Canonical
import UpgradeScope.Lib.Reorder

/-!
# Inventories in another order

What an evaluation reads of an inventory whose lists are put in another order (`Reorders`). Most checks
sort what they print, so their findings are the same; the others judge one row at a time, so their
findings are the same up to their order, which the report's sort decides. Four things have to be told
apart for that: the API usage row a caller folds into, which is looked up by the texts of keys; the rows
of a release's manifest, which are sorted by their API alone; the version a CRD's objects should move to,
which a loop over its versions picks; and the add-on installs of the nodes, whose findings may differ but
block and warn alike (`severities_addOnFindings`).
-/

namespace UpgradeScope

open Go Sorting Kb Registry

/-! ## Reordering -/

/-- A release with the APIs of its manifest in another order. -/
structure HelmRelease.Reorders (r r' : HelmRelease) : Prop where
  /-- The APIs. -/
  manifestAPIs : r.manifestAPIs.Perm r'.manifestAPIs
  /-- Nothing else differs. -/
  rest : r' = { r with manifestAPIs := r'.manifestAPIs }

/-- An inventory with its lists in another order: all but the add-ons, and what its rows list. -/
structure Reorders (inv inv' : Inventory) : Prop where
  /-- The usage rows. -/
  apiUsage : inv.apiUsage.Perm inv'.apiUsage
  /-- The rows of objects nobody can be named for. -/
  apiAuthorshipUnknown : inv.apiAuthorshipUnknown.Perm inv'.apiAuthorshipUnknown
  /-- The callers. -/
  deprecatedCalls : inv.deprecatedCalls.Perm inv'.deprecatedCalls
  /-- The Helm releases, and the APIs of their manifests. -/
  helmReleases : Reordered HelmRelease.Reorders inv.helmReleases inv'.helmReleases
  /-- The control-plane components. -/
  controlPlane : inv.controlPlane.Perm inv'.controlPlane
  /-- The nodes. -/
  nodes : inv.nodes.Perm inv'.nodes
  /-- The CRDs, and their versions. -/
  crds : Reordered CRD.Reorders inv.crds inv'.crds
  /-- The volume rows. -/
  volumePlugins : inv.volumePlugins.Perm inv'.volumePlugins
  /-- The namespaces. -/
  namespaces : inv.namespaces.Perm inv'.namespaces
  /-- What the capabilities skipped. -/
  capabilities : List.Forall₂ (fun e e' => e.1 = e'.1 ∧ CapabilityStatus.Reorders e.2 e'.2)
    inv.capabilities.entries inv'.capabilities.entries
  /-- Nothing else differs. -/
  rest : inv' = { inv with
    apiUsage := inv'.apiUsage
    apiAuthorshipUnknown := inv'.apiAuthorshipUnknown
    deprecatedCalls := inv'.deprecatedCalls
    helmReleases := inv'.helmReleases
    controlPlane := inv'.controlPlane
    nodes := inv'.nodes
    crds := inv'.crds
    volumePlugins := inv'.volumePlugins
    namespaces := inv'.namespaces
    capabilities := inv'.capabilities }

/-- The kinds of two usage rows of one group and version have a REST resource name in common. -/
def SharesResource (X : External) (u v : APIUsage) : Prop :=
  u.group = v.group ∧ u.version = v.version ∧
    ∃ resource, kindMatchesResource X u.kind resource = true ∧ kindMatchesResource X v.kind resource = true

/-- The rows of an inventory have distinct identities. -/
structure Inventory.Distinct (X : External) (inv : Inventory) : Prop where
  /-- One entry for each namespace. -/
  namespaces : (inv.namespaces.map (·.name)).Nodup
  /-- One entry for each node. -/
  nodes : (inv.nodes.map (·.name)).Nodup
  /-- One usage row for each API. -/
  apiUsage : (inv.apiUsage.map fun u => (u.group, u.version, u.kind)).Nodup
  /-- One entry for each version of a CRD. -/
  versions : ∀ c ∈ inv.crds, (c.versions.map (·.name)).Nodup
  /-- At most one storage version of a CRD. -/
  storage : ∀ c ∈ inv.crds, ∀ v ∈ c.versions, ∀ w ∈ c.versions, v.storage = true → w.storage = true → v = w
  /-- A REST resource of one usage row of a group and version. -/
  resources : ∀ u ∈ inv.apiUsage, ∀ v ∈ inv.apiUsage, SharesResource X u v → u = v

/-- A usage row whose group and version the index of resources keeps apart: neither has the separator
of its keys. -/
def APIUsage.NoNul (u : APIUsage) : Prop := '\x00' ∉ u.group.toList ∧ '\x00' ∉ u.version.toList

/-- Every caller of an inventory but the scanner itself has one usage finding at most to fold into, whatever the order of
the rows. -/
def Inventory.FoldsApart (X : External) (k : KB) (target : Version) (inv : Inventory) : Prop :=
  ∀ c ∈ otherCallers inv,
    TakenApart X inv.apiUsage ((evalAPIUsage k target inv).map capNamespaces) (c, callFinding X k target c)

/-- The rows of one API in a release's manifest are counted as one: all but one of them are not flagged, are left to the
live scan, or are the same. -/
def HelmRelease.RowsApart (k : KB) (target : Version) (rows : List APIUsage) (rel : HelmRelease) : Prop :=
  ∀ u ∈ rel.manifestAPIs, ∀ v ∈ rel.manifestAPIs, rowOrder u = rowOrder v →
    (manifestRow k target rows rel u).isSome = true → (manifestRow k target rows rel v).isSome = true →
      manifestRow k target rows rel u = manifestRow k target rows rel v

/-- The versions of a CRD its objects can move to. -/
def CRD.usable (c : CRD) : List CRDVersion := c.versions.filter fun v => v.served && !v.deprecated

/-- Some finding about a CRD names the version its objects should move to: a served version is
deprecated, or one in use is not served. -/
def CRD.namesPreferred (c : CRD) : Bool :=
  c.versions.any (fun v => v.served && v.deprecated) || c.usage.any fun u => u.count ≠ 0 && !c.serves u.version

/-- One version of a CRD is the one its objects should move to, where a finding names it: the storage
version, where it can be, the only one, or the one that Kubernetes' order of versions puts before all others. -/
def CRD.Preferable (X : External) (c : CRD) : Prop :=
  c.namesPreferred = false ∨ c.usable.any (·.storage) = true ∨ c.usable.length ≤ 1 ∨
    (∀ v ∈ c.usable, v.name ≠ "") ∧
      ∃ name, Greatest (fun a b => decide (X.compareKubeAware a b > 0)) (c.usable.map (·.name)) name

namespace Reorders

variable {inv inv' : Inventory} (h : Reorders inv inv')

include h

/-- Another order leaves the source. -/
theorem source : inv'.source = inv.source := by rw [h.rest]

/-- Another order leaves the collector's schema. -/
theorem collectorSchema : inv'.collectorSchema = inv.collectorSchema := by rw [h.rest]

/-- Another order leaves the server version. -/
theorem serverVersion : inv'.serverVersion = inv.serverVersion := by rw [h.rest]

/-- Another order leaves the provider. -/
theorem provider : inv'.provider = inv.provider := by rw [h.rest]

/-- Another order leaves the add-ons. -/
theorem addOns : inv'.addOns = inv.addOns := by rw [h.rest]

end Reorders

/-! ## What the checks read -/

/-- The statuses of a capability in two lists of capabilities. -/
theorem dlookup_reorders {l l' : List (Sigma fun _ : Capability => CapabilityStatus)}
    (h : List.Forall₂ (fun e e' => e.1 = e'.1 ∧ CapabilityStatus.Reorders e.2 e'.2) l l') (c : Capability) :
    (l.dlookup c = none ∧ l'.dlookup c = none) ∨
      ∃ st st', l.dlookup c = some st ∧ l'.dlookup c = some st' ∧ CapabilityStatus.Reorders st st' := by
  induction h with
  | nil => exact .inl ⟨rfl, rfl⟩
  | @cons e e' l l' he _ ih =>
    obtain ⟨name, st⟩ := e
    obtain ⟨name', st'⟩ := e'
    obtain ⟨rfl, hst⟩ : name = name' ∧ CapabilityStatus.Reorders st st' := he
    by_cases hc : name = c
    · subst hc
      exact .inr ⟨st, st', List.dlookup_cons_eq .., List.dlookup_cons_eq .., hst⟩
    · rw [List.dlookup_cons_ne _ _ (Ne.symm hc), List.dlookup_cons_ne _ _ (Ne.symm hc)]
      exact ih

/-- The distinct versions of a list do not depend on its order. -/
theorem sortedVersions_eq_of_perm {vs vs' : List Version} (h : vs.Perm vs') :
    sortedVersions vs = sortedVersions vs' := by
  unfold sortedVersions
  rw [sortOn_eq_of_perm _ h]
  rintro ⟨a, b⟩ - ⟨c, d⟩ - hkey
  simpa [versionKey] using hkey

section Read

variable {X : External} {inv inv' : Inventory} (h : Reorders inv inv')

include h

/-- The status of a capability, when it is reported. -/
theorem Reorders.lookup (c : Capability) :
    (inv.capabilities.lookup c = none ∧ inv'.capabilities.lookup c = none) ∨
      ∃ st st', inv.capabilities.lookup c = some st ∧ inv'.capabilities.lookup c = some st' ∧
        CapabilityStatus.Reorders st st' :=
  dlookup_reorders h.capabilities c

/-- What a capability skipped does not depend on the order. -/
theorem Reorders.skipped (c : Capability) (s : String) :
    s ∈ (inv'.capability c).skipped ↔ s ∈ (inv.capability c).skipped := by
  unfold Inventory.capability
  rcases h.lookup c with ⟨hnone, hnone'⟩ | ⟨st, st', hst, hst', hre⟩
  · rw [hnone, hnone']
  · rw [hst, hst']
    exact hre.skipped.mem_iff.symm

/-- The team of a namespace does not depend on the order. -/
theorem Reorders.teamOf (hd : inv.Distinct X) : teamOf inv'.namespaces = teamOf inv.namespaces := by
  funext ns
  unfold UpgradeScope.teamOf
  rw [find?_reverse_eq_of_perm h.namespaces]
  intro a ha b hb hans hbns
  exact eq_of_key_eq hd.namespaces ha hb (by simp at hans hbns; rw [hans, hbns])

/-- The teams of namespaces do not depend on the order. -/
theorem Reorders.teamsFor (hd : inv.Distinct X) : teamsFor inv'.namespaces = teamsFor inv.namespaces := by
  funext namespaces
  unfold UpgradeScope.teamsFor
  rw [h.teamOf hd]

/-- The versions of a component do not depend on the order. -/
theorem Reorders.componentVersions (component : String) :
    componentVersions X inv' component = componentVersions X inv component := by
  unfold UpgradeScope.componentVersions
  exact sortedVersions_eq_of_perm ((h.controlPlane.filter _).filterMap _).symm

/-- The versions of the apiservers do not depend on the order. -/
theorem Reorders.apiserverVersions : apiserverVersions X inv' = apiserverVersions X inv := by
  unfold UpgradeScope.apiserverVersions
  rw [h.serverVersion]
  refine sortedVersions_eq_of_perm ((((h.controlPlane.filter _).map _).cons _).filterMap _).symm

/-- The judged callers: their order is their own. -/
theorem Reorders.judgedCalls : judgedCalls inv' = judgedCalls inv := by
  unfold UpgradeScope.judgedCalls otherCallers
  simp only [h.skipped]
  refine sortOn_eq_of_perm ?_ (h.deprecatedCalls.filter _).symm
  intro a _ b _ hab
  obtain ⟨g, v, r, s, rel⟩ := a
  obtain ⟨g', v', r', s', rel'⟩ := b
  simpa [callOrder] using hab

end Read

/-! ## The checks that sort what they print -/

section Sorted

variable {X : External} {k : KB} {target : Version} {now : Time} {inv inv' : Inventory}
  (h : Reorders inv inv')

include h

/-- The nodes whose kubelet satisfies a predicate. -/
theorem Reorders.kubeletsWith (p : Version → Bool) :
    (kubeletsWith X inv' p).Perm (kubeletsWith X inv p) :=
  (h.nodes.filter _).symm

/-- The kubelet findings do not depend on the order. -/
theorem Reorders.evalSkew : evalSkew X inv' k target = evalSkew X inv k target := by
  have hnil : ∀ {l l' : List NodeInfo}, l.Perm l' → (l = []) = (l' = []) := by
    intro l l' hp
    rw [← List.length_eq_zero_iff, ← List.length_eq_zero_iff, hp.length_eq]
  have hun : (inv'.nodes.filter fun n => (version? X n.kubeletVersion).isNone).Perm
      (inv.nodes.filter fun n => (version? X n.kubeletVersion).isNone) := (h.nodes.filter _).symm
  unfold UpgradeScope.evalSkew
  rw [h.apiserverVersions]
  cases UpgradeScope.apiserverVersions X inv with
  | nil => rfl
  | cons oldest rest =>
    have hpost := fun p => h.kubeletsWith (X := X) p
    simp only [hnil (hpost _), hnil hun, (hpost _).length_eq, hun.length_eq,
      sorted_eq_of_perm ((hpost _).map nodeEntry), sorted_eq_of_perm (hun.map _), any_eq_of_perm (hpost _)]

/-- The control-plane findings do not depend on the order. -/
theorem Reorders.evalControlPlaneSkew :
    evalControlPlaneSkew X inv' k target = evalControlPlaneSkew X inv k target := by
  have hnil : (inv'.controlPlane = []) = (inv.controlPlane = []) := by
    rw [← List.length_eq_zero_iff, ← List.length_eq_zero_iff, h.controlPlane.length_eq]
  have hfindings : componentFindings X inv' = componentFindings X inv := by
    funext oldest newest rule
    simp only [componentFindings, h.componentVersions]
  simp only [UpgradeScope.evalControlPlaneSkew, hnil, proxyPostFinding, h.componentVersions,
    h.serverVersion, hfindings]

/-- The kubelet of a node does not depend on the order. -/
theorem Reorders.kubeletOf (hd : inv.Distinct X) : kubeletOf X inv' = kubeletOf X inv := by
  funext node
  unfold UpgradeScope.kubeletOf
  have hperm := h.nodes.filterMap fun n =>
    if n.name = node then (version? X n.kubeletVersion).map fun v => (v, n.kubeletVersion) else none
  -- At most one node has the name, so the list has at most one element.
  have hle : (inv.nodes.filterMap fun n =>
      if n.name = node then (version? X n.kubeletVersion).map fun v => (v, n.kubeletVersion)
      else none).length ≤ 1 := by
    have hone : (inv.nodes.filter fun n => n.name = node).length ≤ 1 := 
      length_filter_key_le_one (p := fun name => name = node) (by simp +contextual) hd.nodes
    refine le_trans ?_ hone
    generalize inv.nodes = ns
    induction ns with
    | nil => simp
    | cons n ns ih =>
      by_cases hn : n.name = node
      · cases hv : version? X n.kubeletVersion <;> simp [hn, hv] <;> omega
      · simpa [hn] using ih
  rw [eq_of_perm_of_length_le_one hperm hle]

omit h in
/-- A kube-proxy out of policy names its node's kubelet. -/
theorem proxyMismatch_kubelet {X : External} {inv : Inventory} {k : KB} {cv : ComponentVersion}
    {r : String × (String × String × Bool)} (hr : proxyMismatch X inv k cv = some r) :
    ∃ kv, kubeletOf X inv r.1 = some (kv, r.2.1) := by
  unfold proxyMismatch at hr
  split_ifs at hr with hno
  cases hk : kubeletOf X inv cv.node with
  | none => simp [hk] at hr
  | some p =>
    obtain ⟨kv, raw⟩ := p
    cases hv : version? X cv.version with
    | none => simp [hk, hv] at hr
    | some pv =>
      simp only [hk, hv] at hr
      split_ifs at hr
      obtain rfl := Option.some.inj hr
      exact ⟨kv, hk⟩

/-- The findings about a kube-proxy beside its kubelet stay. -/
theorem Reorders.evalKubeProxyKubeletSkew (hd : inv.Distinct X) :
    evalKubeProxyKubeletSkew X inv' k = evalKubeProxyKubeletSkew X inv k := by
  have hmismatch : proxyMismatch X inv' k = proxyMismatch X inv k := by
    funext cv
    simp only [proxyMismatch, h.kubeletOf hd]
  unfold UpgradeScope.evalKubeProxyKubeletSkew
  rw [hmismatch]
  refine map_groupOn_eq_of_perm (h.controlPlane.filterMap _).symm fun node bad hbad => ?_
  -- A group's rows are of one node, so of one kubelet.
  have hkubelet : ∀ a ∈ (inv'.controlPlane.filterMap (proxyMismatch X inv k)).filter (·.1 = node),
      ∀ b ∈ (inv'.controlPlane.filterMap (proxyMismatch X inv k)).filter (·.1 = node), a.2.1 = b.2.1 := by
    intro a ha b hb
    obtain ⟨hamem, hanode⟩ := List.mem_filter.mp ha
    obtain ⟨hbmem, hbnode⟩ := List.mem_filter.mp hb
    obtain ⟨cva, -, hcva⟩ := List.mem_filterMap.mp hamem
    obtain ⟨cvb, -, hcvb⟩ := List.mem_filterMap.mp hbmem
    obtain ⟨kva, hka⟩ := proxyMismatch_kubelet hcva
    obtain ⟨kvb, hkb⟩ := proxyMismatch_kubelet hcvb
    rw [of_decide_eq_true hanode] at hka
    rw [of_decide_eq_true hbnode, hka] at hkb
    exact (Prod.mk.inj (Option.some.inj hkb)).2
  simp only [head?_map_eq_of_perm hbad hkubelet, sorted_eq_of_perm (hbad.map _), any_eq_of_perm hbad]

/-- The age of the knowledge base is judged by the server version. -/
theorem Reorders.evalKBStale : evalKBStale X inv' k target = evalKBStale X inv k target := by
  unfold UpgradeScope.evalKBStale
  rw [h.serverVersion]

/-- The oldest apiserver does not depend on the order. -/
theorem Reorders.upgradeFrom : upgradeFrom X inv' = upgradeFrom X inv := by
  unfold UpgradeScope.upgradeFrom
  rw [h.source, h.apiserverVersions]

/-- The path is judged by the apiservers. -/
theorem Reorders.evalUpgradePath (fuel : ℕ) :
    evalUpgradePath X fuel inv' target = evalUpgradePath X fuel inv target := by
  unfold UpgradeScope.evalUpgradePath
  rw [h.upgradeFrom]

/-- The support calendar is read by the provider and the server version. -/
theorem Reorders.evalSupport : evalSupport X inv' k now = evalSupport X inv k now := by
  unfold UpgradeScope.evalSupport supportWindow
  rw [h.source, h.provider, h.serverVersion]

end Sorted

/-! ## The checks that judge row by row -/

section RowByRow

variable {X : External} {k : KB} {target : Version} {now : Time} {inv inv' : Inventory}
  (h : Reorders inv inv')

include h

/-- The usage findings of an inventory in another order are in another order. -/
theorem Reorders.evalAPIUsage (hd : inv.Distinct X) :
    (evalAPIUsage k target inv).Perm (evalAPIUsage k target inv') := by
  have hfinding : usageFinding k target inv'.source inv'.namespaces =
      usageFinding k target inv.source inv.namespaces := by
    funext u
    simp only [usageFinding, h.source, h.teamsFor hd]
  unfold UpgradeScope.evalAPIUsage
  rw [hfinding]
  exact h.apiUsage.filterMap _

/-- The findings about objects nobody can be named for, in another order. -/
theorem Reorders.evalAuthorshipUnknown (hd : inv.Distinct X) :
    (evalAuthorshipUnknown k inv).Perm (evalAuthorshipUnknown k inv') := by
  have hfinding : authorshipFinding k inv'.namespaces = authorshipFinding k inv.namespaces := by
    funext u
    simp only [authorshipFinding, h.teamsFor hd]
  unfold UpgradeScope.evalAuthorshipUnknown
  rw [hfinding]
  exact h.apiAuthorshipUnknown.filterMap _

/-- The volume findings of an inventory in another order are in another order. -/
theorem Reorders.evalVolumePlugins (hd : inv.Distinct X) :
    (evalVolumePlugins k target inv).Perm (evalVolumePlugins k target inv') := by
  have hfinding : volumeFinding k target inv'.source inv'.namespaces =
      volumeFinding k target inv.source inv.namespaces := by
    funext u
    simp only [volumeFinding, h.source, h.teamsFor hd]
  unfold UpgradeScope.evalVolumePlugins
  rw [hfinding]
  exact h.volumePlugins.filterMap _

/-- The objects of a manifest's row that the live scan does not take. -/
theorem Reorders.leftObjects (rel : HelmRelease) (e : APILifecycleEntry) (u : APIUsage) :
    leftObjects target inv'.apiUsage rel e u = leftObjects target inv.apiUsage rel e u := by
  have hlive : ∀ key p, (liveObjects inv'.apiUsage key).any p = (liveObjects inv.apiUsage key).any p := by
    intro key p
    unfold liveObjects
    exact any_eq_of_perm ((h.apiUsage.filter _).flatMap_right _).symm
  simp only [UpgradeScope.leftObjects, hlive]

/-- The findings of a release, whose manifest's rows are sorted. -/
theorem Reorders.releaseFindings (hd : inv.Distinct X) {rel rel' : HelmRelease}
    (hrows : rel.RowsApart k target inv.apiUsage) (hre : rel.Reorders rel') :
    releaseFindings X k target inv' rel' = releaseFindings X k target inv rel := by
  have hrows : manifestRows k target inv'.apiUsage rel' = manifestRows k target inv.apiUsage rel := by
    unfold manifestRows
    have hrow : manifestRow k target inv'.apiUsage rel' = manifestRow k target inv.apiUsage rel := by
      funext u
      have hleft : ∀ e, UpgradeScope.leftObjects target inv'.apiUsage rel' e u =
          UpgradeScope.leftObjects target inv.apiUsage rel e u := by
        intro e
        rw [h.leftObjects]
        unfold UpgradeScope.leftObjects sameObject
        rw [hre.rest]
      simp only [manifestRow, hleft]
    rw [hrow]
    exact (filterMap_sortOn_eq_of_perm hre.manifestAPIs hrows).symm
  have hin : helmInstalled rel' = helmInstalled rel := by rw [hre.rest]; rfl
  have hchart : evalChartKubeVersion X target rel' = evalChartKubeVersion X target rel := by
    rw [hre.rest]; rfl
  have hbucket : bucketFinding k target rel' = bucketFinding k target rel := by rw [hre.rest]; rfl
  have hns : rel'.namespace = rel.namespace := by rw [hre.rest]
  simp only [UpgradeScope.releaseFindings, evalHelmManifest, hin, hchart, hbucket, hrows, hns, h.teamsFor hd]

/-- The findings of the releases, in another order. -/
theorem Reorders.evalHelmReleases (hd : inv.Distinct X)
    (hrows : ∀ rel ∈ inv.helmReleases, rel.RowsApart k target inv.apiUsage) :
    (evalHelmReleases X k target inv).Perm (evalHelmReleases X k target inv') := by
  unfold UpgradeScope.evalHelmReleases
  refine h.helmReleases.flatMap fun rel hrel rel' hre => ?_
  rw [h.releaseFindings hd (hrows rel hrel) hre]

end RowByRow

/-! ## The versions of a CRD -/

section Versions

variable {X : External} {inv inv' : Inventory} {target : Version} {c c' : CRD}

/-- The order of version names that the loop over a CRD's versions follows. -/
def kubeBefore (X : External) (a b : String) : Bool := decide (X.compareKubeAware a b > 0)

/-- The version a CRD's objects should move to: the storage version, or what a loop over the names picks. -/
theorem CRD.preferredVersion_eq (X : External) (c : CRD) : c.preferredVersion X =
    ((c.usable.find? (·.storage)).map (·.name)).getD (pick "" (kubeBefore X) (c.usable.map (·.name))) := by
  unfold CRD.preferredVersion CRD.usable
  dsimp only
  cases (c.versions.filter fun v => v.served && !v.deprecated).find? (·.storage) with
  | some v => rfl
  | none => simp only [pick, kubeBefore, List.foldl_map, decide_eq_true_eq, Option.map_none, Option.getD_none]

/-- The version a CRD's objects should move to. -/
theorem CRD.Reorders.preferredVersion (hre : c.Reorders c') (hone : ∀ v ∈ c.versions, ∀ w ∈ c.versions,
    v.storage = true → w.storage = true → v = w) (hpick : c.usable.any (·.storage) = true ∨
      (c.usable.map (·.name)).length ≤ 1 ∨ ∃ name, name ≠ "" ∧
        Greatest (kubeBefore X) (c.usable.map (·.name)) name) :
    c'.preferredVersion X = c.preferredVersion X := by
  have husable : c.usable.Perm c'.usable := hre.versions.filter _
  have hfind : c'.usable.find? (·.storage) = c.usable.find? (·.storage) := by
    refine (find?_eq_of_perm husable fun v hv w hw => ?_).symm
    exact hone v (List.mem_of_mem_filter hv) w (List.mem_of_mem_filter hw)
  rw [CRD.preferredVersion_eq, CRD.preferredVersion_eq, hfind]
  rcases hpick with hany | hpick
  · obtain ⟨v, hv⟩ := Option.isSome_iff_exists.mp (List.find?_isSome.mpr (List.any_eq_true.mp hany))
    rw [hv]
    rfl
  · rw [pick_eq_of_perm (husable.map _) hpick]

/-- One version to move to, where a finding names it. -/
theorem CRD.Preferable.pick (hpref : c.Preferable X) (hnames : c.namesPreferred = true) :
    c.usable.any (·.storage) = true ∨ (c.usable.map (·.name)).length ≤ 1 ∨ ∃ name, name ≠ "" ∧
      Greatest (kubeBefore X) (c.usable.map (·.name)) name := by
  rcases hpref with hno | hany | hone | ⟨hnamed, name, hgreatest⟩
  · simp [hnames] at hno
  · exact .inl hany
  · exact .inr (.inl (by simpa using hone))
  · obtain ⟨v, hv, hname⟩ := List.mem_map.mp hgreatest.1
    exact .inr (.inr ⟨name, hname ▸ hnamed v hv, hgreatest⟩)

/-- The entry of a version does not depend on the order of a CRD's versions. -/
theorem CRD.Reorders.listed (hre : c.Reorders c') (hnames : (c.versions.map (·.name)).Nodup) :
    c'.listed = c.listed := by
  funext version
  refine (find?_reverse_eq_of_perm hre.versions fun v hv w hw hvn hwn => ?_).symm
  exact eq_of_key_eq hnames hv hw (by simp at hvn hwn; rw [hvn, hwn])

/-- The storage version does not depend on the order of a CRD's versions. -/
theorem CRD.Reorders.storageVersion (hre : c.Reorders c') (hone : ∀ v ∈ c.versions, ∀ w ∈ c.versions,
    v.storage = true → w.storage = true → v = w) : c'.storageVersion = c.storageVersion := by
  unfold CRD.storageVersion
  rw [find?_reverse_eq_of_perm hre.versions hone]

/-- The text of the served versions does not depend on the order of a CRD's versions. -/
theorem CRD.Reorders.servedText (hre : c.Reorders c') : c'.servedText = c.servedText := by
  have hserved : ((c'.versions.filter (·.served)).map (·.name)).Perm
      ((c.versions.filter (·.served)).map (·.name)) := ((hre.versions.filter _).map _).symm
  have hnil : ((c'.versions.filter (·.served)).map (·.name) = []) =
      ((c.versions.filter (·.served)).map (·.name) = []) := by
    rw [← List.length_eq_zero_iff, ← List.length_eq_zero_iff, hserved.length_eq]
  unfold CRD.servedText
  simp only [hnil, sorted_eq_of_perm hserved]

/-- Where a CRD's objects at a version that is not served should move to. -/
def CRD.destination (c : CRD) (preferred : String) : String :=
  if preferred = "" then "a version the CRD serves" else gvString c.group preferred

/-- A finding about a version that is not served names where to move. -/
theorem remediation_unservedVersionFinding (c : CRD) (u : APIUsage) :
    (unservedVersionFinding X inv target c u).remediation =
      "move these objects to " ++ c.destination (c.preferredVersion X) ++
        ("; the apiserver rejects writes at " ++ u.version ++
          if objectManagers u.objects ≠ [] then
            ". A named manager that no longer writes them keeps them listed through its managedFields entry until another manager takes over its fields or the entry is removed"
          else "") := by
  unfold unservedVersionFinding crdUsage CRD.destination
  dsimp only
  by_cases hp : c.preferredVersion X = ""
  · rw [if_neg (not_not.mpr hp), if_pos hp]
    have hsplit : "move these objects to a version the CRD serves; the apiserver rejects writes at " =
        "move these objects to " ++ "a version the CRD serves" ++ "; the apiserver rejects writes at " := by decide
    change "move these objects to a version the CRD serves; the apiserver rejects writes at " ++ u.version ++ _ = _
    rw [hsplit]
    simp only [String.append_assoc]
  · rw [if_pos hp, if_neg hp]
    change "move these objects to " ++ gvString c.group (c.preferredVersion X) ++
      "; the apiserver rejects writes at " ++ u.version ++ _ = _
    simp only [String.append_assoc]

variable (target) in
/-- The findings about a CRD with its versions in another order are those about the deprecated versions, in that
order, and the same others. -/
theorem CRD.Reorders.crdFindings (hre : c.Reorders c') (hsource : inv'.source = inv.source)
    (hteams : teamsFor inv'.namespaces = teamsFor inv.namespaces)
    (hskipped : ∀ s, s ∈ (inv'.capability capCRDs).skipped ↔ s ∈ (inv.capability capCRDs).skipped)
    (hnames : (c.versions.map (·.name)).Nodup)
    (hone : ∀ v ∈ c.versions, ∀ w ∈ c.versions, v.storage = true → w.storage = true → v = w)
    (hdep : (∃ v ∈ c.versions, (v.served && v.deprecated) = true) → c'.preferredVersion X = c.preferredVersion X)
    (huns : (∃ u ∈ c.usage, (u.count ≠ 0 && !c.serves u.version) = true) →
      c.destination (c'.preferredVersion X) = c.destination (c.preferredVersion X)) :
    ∃ rest, crdFindings X inv target c = (c.versions.filter fun v => v.served && v.deprecated).map
        (deprecatedVersionFinding X inv target c) ++ rest ∧
      crdFindings X inv' target c' = (c'.versions.filter fun v => v.served && v.deprecated).map
        (deprecatedVersionFinding X inv target c) ++ rest := by
  have hlisted := hre.listed hnames
  have hserves : c'.serves = c.serves := by
    funext version
    unfold CRD.serves
    rw [hlisted]
  have hstorage := hre.storageVersion hone
  have hgroup : c'.group = c.group := by rw [hre.rest]
  have hkind : c'.kind = c.kind := by rw [hre.rest]
  have hname : c'.name = c.name := by rw [hre.rest]; rfl
  have hused : c'.used = c.used := by rw [hre.rest]; rfl
  have husage : c'.usage = c.usage := by rw [hre.rest]
  have hstored : c'.storedVersions = c.storedVersions := by rw [hre.rest]
  -- Nothing but the order of the versions differs, so the other fields rewrite away.
  have hstoredFinding : storedVersionFinding target c' = storedVersionFinding target c := by
    funext s
    simp only [storedVersionFinding, hstorage, hgroup, hkind, hname]
  -- A finding about a deprecated version names the preferred one, which `hdep` keeps where there is such a finding.
  have hdeprecated : (c'.versions.filter fun v => v.served && v.deprecated).map
        (deprecatedVersionFinding X inv' target c') =
      (c'.versions.filter fun v => v.served && v.deprecated).map (deprecatedVersionFinding X inv target c) := by
    refine List.map_congr_left fun v hv => ?_
    have hpreferred := hdep ⟨v, hre.versions.mem_iff.mpr (List.mem_of_mem_filter hv), (List.mem_filter.mp hv).2⟩
    simp only [deprecatedVersionFinding, crdUsage, crdUsageDetail, hsource, hteams, hskipped, hpreferred, hused,
      hstorage, hstored, hgroup, hkind, hname]
  -- An unserved version names the preferred one in its remediation alone, through `destination`.
  have hunserved : (c.usage.filter fun u => u.count ≠ 0 && !c.serves u.version).map
        (unservedVersionFinding X inv' target c') =
      (c.usage.filter fun u => u.count ≠ 0 && !c.serves u.version).map (unservedVersionFinding X inv target c) := by
    refine List.map_congr_left fun u hu => ?_
    have hdestination := huns ⟨u, List.mem_of_mem_filter hu, (List.mem_filter.mp hu).2⟩
    have hremediation : (unservedVersionFinding X inv' target c' u).remediation =
        (unservedVersionFinding X inv target c u).remediation := by
      rw [remediation_unservedVersionFinding, remediation_unservedVersionFinding, ← hdestination]
      unfold CRD.destination
      rw [hgroup]
    have hrest : { unservedVersionFinding X inv' target c' u with remediation := "" } =
        { unservedVersionFinding X inv target c u with remediation := "" } := by
      simp only [unservedVersionFinding, crdUsage, crdUsageDetail, hsource, hteams, hlisted, hre.servedText, hgroup,
        hkind, hname]
    calc unservedVersionFinding X inv' target c' u
        = { { unservedVersionFinding X inv' target c' u with remediation := "" } with
            remediation := (unservedVersionFinding X inv' target c' u).remediation } := rfl
      _ = { { unservedVersionFinding X inv target c u with remediation := "" } with
            remediation := (unservedVersionFinding X inv target c u).remediation } := by rw [hrest, hremediation]
      _ = unservedVersionFinding X inv target c u := rfl
  unfold UpgradeScope.crdFindings
  rw [hstoredFinding, husage, hstored, hstorage, hserves, hdeprecated, hunserved, List.append_assoc, List.append_assoc]
  exact ⟨_, rfl, rfl⟩

/-- The findings about a CRD, in another order. -/
theorem Reorders.crdFindings (h : Reorders inv inv') (hd : inv.Distinct X) (hc : c ∈ inv.crds)
    (hpref : c.Preferable X) (hre : c.Reorders c') :
    (crdFindings X inv target c).Perm (crdFindings X inv' target c') := by
  have hsame : c.namesPreferred = true → c'.preferredVersion X = c.preferredVersion X := fun hnames =>
    hre.preferredVersion (hd.storage c hc) (hpref.pick hnames)
  have hdep : (∃ v ∈ c.versions, (v.served && v.deprecated) = true) →
      c'.preferredVersion X = c.preferredVersion X := fun hv => hsame (by
    rw [CRD.namesPreferred, List.any_eq_true.mpr hv, Bool.true_or])
  have huns : (∃ u ∈ c.usage, (u.count ≠ 0 && !c.serves u.version) = true) →
      c.destination (c'.preferredVersion X) = c.destination (c.preferredVersion X) := fun hu => by
    rw [hsame (by rw [CRD.namesPreferred, List.any_eq_true.mpr hu, Bool.or_true])]
  obtain ⟨rest, heq, heq'⟩ := hre.crdFindings target h.source (h.teamsFor hd) (h.skipped capCRDs)
    (hd.versions c hc) (hd.storage c hc) hdep huns
  rw [heq, heq']
  exact ((hre.versions.filter _).map _).append_right _

/-- The findings about the CRDs, in another order. -/
theorem Reorders.evalCRDVersions (h : Reorders inv inv') (hd : inv.Distinct X)
    (hpref : ∀ c ∈ inv.crds, c.Preferable X) :
    (evalCRDVersions X inv target).Perm (evalCRDVersions X inv' target) :=
  h.crds.flatMap fun c hc _ hre => h.crdFindings hd hc (hpref c hc) hre

end Versions

/-! ## The gaps -/

section Gaps

variable {X : External} {k : KB} {target : Version} {inv inv' : Inventory} (h : Reorders inv inv')

include h

/-- The capabilities that a verdict requires do not depend on the order. -/
theorem Reorders.requiredCapability : requiredCapability inv' k = requiredCapability inv k := by
  funext c
  unfold UpgradeScope.requiredCapability
  rw [h.source]

/-- The gap of a reported capability: what it skipped is sorted, or searched. -/
theorem Reorders.reportedGap (c : Capability) {st st' : CapabilityStatus} (hre : st.Reorders st') :
    reportedGap inv' k target c st' = reportedGap inv k target c st := by
  have havailable : st'.available = st.available := by rw [hre.rest]
  have hreason : st'.reason = st.reason := by rw [hre.rest]
  have hpartly : st'.partly = st.partly := by rw [hre.rest]
  have hmem : ∀ s, s ∈ st'.skipped ↔ s ∈ st.skipped := fun s => hre.skipped.mem_iff.symm
  have hnil : (st'.skipped = []) = (st.skipped = []) := by
    rw [← List.length_eq_zero_iff, ← List.length_eq_zero_iff, hre.skipped.length_eq]
  have hvolumes : volumesPartialRequired k target st'.skipped = volumesPartialRequired k target st.skipped := by
    simp only [volumesPartialRequired, hmem]
  have hrequired : partialRequired inv' k target c st' = partialRequired inv k target c st := by
    simp only [partialRequired, hmem, ne_eq, hnil, any_eq_of_perm hre.skipped.symm, hvolumes, h.source,
      h.requiredCapability]
  simp only [UpgradeScope.reportedGap, havailable, hreason, hpartly, hrequired, h.requiredCapability,
    sorted_eq_of_perm hre.skipped.symm]

/-- A capability that is not reported stays so. -/
theorem Reorders.lookup_eq_none (c : Capability) :
    (inv'.capabilities.lookup c = none) = (inv.capabilities.lookup c = none) := by
  rcases h.lookup c with ⟨hnone, hnone'⟩ | ⟨st, st', hst, hst', -⟩
  · rw [hnone, hnone']
  · simp [hst, hst']

/-- The gaps do not depend on the order. -/
theorem Reorders.assessmentGaps : assessmentGaps X inv' k target = assessmentGaps X inv k target := by
  have hmissing : missingGaps inv' k = missingGaps inv k := by
    simp only [missingGaps, h.lookup_eq_none, h.requiredCapability]
  have hreported : inv'.capabilities.entries.filterMap
        (fun e => UpgradeScope.reportedGap inv' k target e.1 e.2) =
      inv.capabilities.entries.filterMap fun e => UpgradeScope.reportedGap inv k target e.1 e.2 := by
    have hall := h.capabilities
    generalize inv.capabilities.entries = es at hall ⊢
    generalize inv'.capabilities.entries = es' at hall ⊢
    induction hall with
    | nil => rfl
    | cons he _ ih =>
      rw [List.filterMap_cons, List.filterMap_cons, ← he.1, h.reportedGap _ he.2, ih]
  have hunreported : unreportedGaps inv' = unreportedGaps inv := by
    simp only [unreportedGaps, h.lookup_eq_none]
  have hserver : serverVersionGap X inv' k = serverVersionGap X inv k := by
    unfold serverVersionGap
    rw [h.serverVersion, h.source, h.requiredCapability]
    rcases h.lookup capVersions with ⟨hnone, hnone'⟩ | ⟨st, st', hst, hst', hre⟩
    · rw [hnone, hnone']
    · rw [hst, hst', hre.rest]
  have htarget : targetGap X inv' target = targetGap X inv target := by
    unfold targetGap
    rw [h.upgradeFrom]
  unfold UpgradeScope.assessmentGaps
  rw [hmissing, hreported, hunreported, hserver, htarget]

end Gaps

/-! ## The fold of the callers -/

/-- The key of a resource tells its group, version and name apart. -/
theorem resourceKey_inj {u v : APIUsage} (hu : u.NoNul) (hv : v.NoNul) {r s : String}
    (h : resourceKey u.group u.version r = resourceKey v.group v.version s) :
    u.group = v.group ∧ u.version = v.version ∧ r = s := by
  have hl := congrArg String.toList h
  have hl' : u.group.toList ++ '\x00' :: (u.version.toList ++ '\x00' :: r.toList) =
      v.group.toList ++ '\x00' :: (v.version.toList ++ '\x00' :: s.toList) := by
    simpa [resourceKey] using hl
  obtain ⟨hg, hrest⟩ := append_sep_inj hu.1 hv.1 hl'
  obtain ⟨hver, hr⟩ := append_sep_inj hu.2 hv.2 hrest
  exact ⟨String.toList_inj.mp hg, String.toList_inj.mp hver, String.toList_inj.mp hr⟩

/-- A row's kind goes by the resource that a key of the row's group and version names. -/
theorem keysResource_iff {X : External} {u : APIUsage} {key : String} :
    keysResource X u.group u.version u.kind key = true ↔
      ∃ r, kindMatchesResource X u.kind r = true ∧ resourceKey u.group u.version r = key := by
  simp only [keysResource, kindMatchesResource, decide_eq_true_eq]
  constructor
  · rintro ⟨hk, h | h⟩
    · exact ⟨_, ⟨hk, .inl rfl⟩, h⟩
    · exact ⟨_, ⟨hk, .inr rfl⟩, h⟩
  · rintro ⟨r, ⟨hk, rfl | rfl⟩, h⟩
    · exact ⟨hk, .inl h⟩
    · exact ⟨hk, .inr h⟩

/-- The category of a usage finding is one of three, without a slash. -/
theorem notMem_usageCategory {k : KB} {target : Version} {src : Source} {nsInfo : List NamespaceInfo}
    {u : APIUsage} {f : Finding} (h : usageFinding k target src nsInfo u = some f) :
    '/' ∉ f.category.name.toList := by
  have hcat := usageFinding_category h
  simp only [List.mem_cons, List.not_mem_nil, or_false] at hcat
  obtain hc | hc | hc := hcat <;> rw [hc] <;> decide

section FoldReorders

variable {X : External} {k : KB} {target : Version} {inv inv' : Inventory}

/-- No two usage findings have the same API in their keys. -/
theorem nodup_usageKeys (hrows : (inv.apiUsage.map fun u => (u.group, u.version, u.kind)).Nodup)
    (hplain : ∀ u ∈ inv.apiUsage, u.PlainNames) :
    (((evalAPIUsage k target inv).map capNamespaces).map fun f => keyAPI f.key).Nodup := by
  rw [List.map_map]
  have hkeys : ((fun f : Finding => keyAPI f.key) ∘ capNamespaces) = fun f => keyAPI f.key := by
    funext f
    rw [Function.comp_apply, capNamespaces_key]
  rw [hkeys]
  unfold evalAPIUsage
  rw [List.Nodup, List.pairwise_map, List.pairwise_filterMap]
  rw [List.Nodup, List.pairwise_map] at hrows
  refine hrows.imp_of_mem fun {u v} hu hv hne f hf g hg heq => hne ?_
  obtain ⟨-, hkf, -⟩ := usageFinding_eq_some k target hf
  obtain ⟨-, hkg, -⟩ := usageFinding_eq_some k target hg
  rw [hkf, hkg] at heq
  exact keyAPI_inj (notMem_usageCategory hf) (notMem_usageCategory hg) (hplain u hu) (hplain v hv) heq

/-- Where the usage rows have names that keys and indexes keep apart, so do the folds. -/
theorem Inventory.Distinct.foldsApart (hd : inv.Distinct X) (hnames : ∀ u ∈ inv.apiUsage, u.PlainNames ∧ u.NoNul) :
    inv.FoldsApart X k target := by
  intro c _ f _ htakes
  obtain ⟨⟨u, hu, hgoes, hkey⟩, -⟩ := mayTake_iff.mp htakes
  refine ⟨fun v hv hgoes' => ?_, ?_⟩
  · obtain ⟨ru, hmu, hru⟩ := keysResource_iff.mp hgoes
    obtain ⟨rv, hmv, hrv⟩ := keysResource_iff.mp hgoes'
    obtain ⟨hg, hver, rfl⟩ := resourceKey_inj (hnames u hu).2 (hnames v hv).2 (hru.trans hrv.symm)
    rw [hkey, hd.resources u hu v hv ⟨hg, hver, ru, hmu, hmv⟩]
  · have hnodup : (((evalAPIUsage k target inv).map capNamespaces).map fun f => keyAPI f.key).Nodup :=
      nodup_usageKeys hd.apiUsage fun u hu => (hnames u hu).1
    exact length_filter_key_le_one (p := fun key => decide (key = keyAPI f.key))
      (fun a b ha hb => (of_decide_eq_true ha).trans (of_decide_eq_true hb).symm) hnodup

/-- The API findings with their folded callers, in another order. -/
theorem Reorders.foldedFindings (h : Reorders inv inv') (hd : inv.Distinct X) (hapart : inv.FoldsApart X k target) :
    (foldedFindings X inv k target).Perm (foldedFindings X inv' k target) := by
  have hcalls : evalDeprecatedCalls X inv' k target = evalDeprecatedCalls X inv k target := by
    unfold evalDeprecatedCalls
    rw [h.judgedCalls]
  have husage : ((UpgradeScope.evalAPIUsage k target inv).map capNamespaces).Perm
      ((UpgradeScope.evalAPIUsage k target inv').map capNamespaces) := (h.evalAPIUsage hd).map capNamespaces
  have htaken : ∀ r ∈ evalDeprecatedCalls X inv k target,
      TakenApart X inv.apiUsage ((UpgradeScope.evalAPIUsage k target inv).map capNamespaces) r := by
    intro r hr
    obtain ⟨c, hc, rfl⟩ := List.mem_map.mp hr
    exact hapart c (mem_sortOn.mp hc)
  unfold UpgradeScope.foldedFindings
  rw [hcalls, foldDeprecatedCalls_eq_of_takes inv _ fun r hr => (htaken r hr).foldIndex_eq_some_iff,
    foldDeprecatedCalls_eq_of_takes inv' _ fun r hr => ((htaken r hr).perm h.apiUsage husage).foldIndex_eq_some_iff]
  have htakes : mayTake X inv'.apiUsage = mayTake X inv.apiUsage :=
    funext fun f => funext fun r => mayTake_eq_of_perm h.apiUsage f r
  rw [htakes]
  refine (husage.map _).append (List.Perm.of_eq ?_)
  simp only [any_eq_of_perm husage]

end FoldReorders

/-! ## The severities of add-on findings -/

section Severities

variable {X : External} {a : AddOn} {target : Version} {now : Time} {labelsConsulted node : Bool}

/-- The severities of a group's findings do not depend on the order of its installs. -/
theorem severities_groupFindings {ins ins' : List AddOnInstall} (hperm : ins.Perm ins') (hne : ins ≠ [])
    (hkey : ∀ i ∈ ins, ∀ j ∈ ins, groupKey a now i = groupKey a now j) (name : String) (line : Bool) :
    (groupFindings X a target now labelsConsulted (newAddOnSubject name ins line node)).map (·.severity) =
      (groupFindings X a target now labelsConsulted (newAddOnSubject name ins' line node)).map
        (·.severity) := by
  have hne' : ins' ≠ [] := by
    rintro rfl
    exact hne hperm.eq_nil
  have hsame : SameLine a now (newAddOnSubject name ins line node) (newAddOnSubject name ins' line node) :=
    sameLine_of_groupKey hne hne' fun i hi j hj => hkey i hi j (hperm.mem_iff.mpr hj)
  have hbad : badInstalls X a (newAddOnSubject name ins line node) target = [] ↔
      badInstalls X a (newAddOnSubject name ins' line node) target = [] := by
    have hbadperm : (badInstalls X a (newAddOnSubject name ins line node) target).Perm
        (badInstalls X a (newAddOnSubject name ins' line node) target) := hperm.filter _
    rw [← List.length_eq_zero_iff, ← List.length_eq_zero_iff, hbadperm.length_eq]
  have hgrades : (groupFindings X a target now labelsConsulted (newAddOnSubject name ins line node)).map Finding.grade =
      (groupFindings X a target now labelsConsulted (newAddOnSubject name ins' line node)).map Finding.grade :=
    hsame.map_grade_groupFindings hbad
  have hsev := congrArg (List.map Prod.snd) hgrades
  rw [List.map_map, List.map_map] at hsev
  exact hsev

/-- The severities of an add-on's findings do not depend on the order of its installs. -/
theorem severities_addOnFindings {ins ins' : List AddOnInstall} (hperm : ins.Perm ins') :
    (addOnFindings X a target now labelsConsulted ins node).map (·.severity) =
      (addOnFindings X a target now labelsConsulted ins' node).map (·.severity) := by
  have hproduct : ∀ all : AddOnSubject,
      (productFinding a now all).toList.map (·.severity) = ((productEOL a now).map (·.2.1)).toList := by
    intro all
    unfold productFinding
    cases productEOL a now <;> rfl
  have hgroups : (groupInstalls a ins node now).2.flatMap
        (fun s => (groupFindings X a target now labelsConsulted s).map (·.severity)) =
      (groupInstalls a ins' node now).2.flatMap
        fun s => (groupFindings X a target now labelsConsulted s).map (·.severity) := by
    rw [groupInstalls_snd, groupInstalls_snd, List.flatMap_map, List.flatMap_map, List.flatMap_def,
      List.flatMap_def]
    congr 1
    refine map_groupOn_eq_of_perm hperm fun key m hm => ?_
    by_cases hnil : (ins.filter fun i => groupKey a now i = key) = []
    · rw [hnil] at hm ⊢
      rw [hm.nil_eq]
    · refine severities_groupFindings hm hnil (fun i hi j hj => ?_) _ _
      rw [of_decide_eq_true (List.mem_filter.mp hi).2, of_decide_eq_true (List.mem_filter.mp hj).2]
  rw [addOnFindings_eq_append, addOnFindings_eq_append, List.map_append, List.map_append, hproduct, hproduct, List.map_flatMap, List.map_flatMap, hgroups]

end Severities

/-! ## The evaluation -/

section Whole

variable (fuel : ℕ) (X : External) (inv : Inventory) (k : KB) (target : Version) (now : Time)

/-- The findings of the checks other than the add-ons' and the runtimes'. -/
def otherFindings : Option (List Finding) :=
  (evalUpgradePath X fuel inv target).map fun path =>
    foldedFindings X inv k target ++
      (evalAuthorshipUnknown k inv ++ evalHelmReleases X k target inv ++ evalSkew X inv k target ++
        evalControlPlaneSkew X inv k target ++ evalKubeProxyKubeletSkew X inv k ++
        evalKBStale X inv k target ++ path ++ (evalSupport X inv k now).2 ++ evalCRDVersions X inv target ++
        evalVolumePlugins k target inv).map capNamespaces

/-- The findings of the add-ons and of the runtimes no entry covers. -/
def addOnRows : List Finding :=
  (evalAddOns X k target now inv ++ evalUncoveredRuntimes k inv).map capNamespaces

/-- An evaluation ends when its path does. -/
theorem evaluate_isSome :
    (evaluate fuel X inv k target now).isSome = (evalUpgradePath X fuel inv target).isSome := by
  rw [evaluate_eq]
  unfold foundFindings checks
  cases evalUpgradePath X fuel inv target <;> simp [collect]

/-- A report's findings are those of the add-ons and runtimes, and the others. -/
theorem evaluate_findings {r : Report} (h : evaluate fuel X inv k target now = some r) :
    ∃ others, otherFindings fuel X inv k target now = some others ∧
      r.findings.Perm (others ++ addOnRows X inv k target now) ∧
      r.score = score r.findings ∧ r.verdict = verdictFor r.findings r.notAssessed ∧
      r.notAssessed = assessmentGaps X inv k target := by
  rw [evaluate_eq] at h
  obtain ⟨found, hfound, rfl⟩ := Option.map_eq_some_iff.mp h
  unfold foundFindings checks at hfound
  unfold otherFindings
  cases hpath : evalUpgradePath X fuel inv target with
  | none => simp [hpath, collect] at hfound
  | some path =>
    refine ⟨_, rfl, ?_, rfl, rfl, rfl⟩
    simp only [hpath, collect, Option.bind_some, Option.map_some, Option.some.injEq] at hfound
    rw [← hfound]
    refine (sortOn_perm findingOrder _).trans ?_
    -- The add-on checks stand between the others.
    unfold addOnRows
    rw [List.append_assoc, ← List.map_append]
    refine (List.Perm.map capNamespaces ?_).append_left _
    rw [List.append_nil, ← Multiset.coe_eq_coe]
    simp only [← Multiset.coe_add]
    abel

end Whole

section WholeReorders

variable {fuel : ℕ} {X : External} {inv inv' : Inventory} {k : KB} {target : Version} {now : Time}

/-- The add-on and runtime findings block and warn alike, in whatever order the nodes stand. -/
theorem Reorders.severities_addOnRows (h : Reorders inv inv') (hd : inv.Distinct X) :
    (addOnRows X inv' k target now).map (·.severity) = (addOnRows X inv k target now).map (·.severity) := by
  have hcap : ((fun f : Finding => f.severity) ∘ capNamespaces) = fun f => f.severity := by
    funext f
    exact capNamespaces_severity f
  have hinstalls : installOf inv'.namespaces = installOf inv.namespaces := by
    funext i
    simp only [installOf, h.teamsFor hd]
  have hruntimes : ∀ a : AddOn, (runtimeInstalls inv' a).Perm (runtimeInstalls inv a) := fun a =>
    (h.nodes.filterMap _).symm
  have hnil : ∀ a : AddOn, (runtimeInstalls inv' a = []) = (runtimeInstalls inv a = []) := by
    intro a
    rw [← List.length_eq_zero_iff, ← List.length_eq_zero_iff, (hruntimes a).length_eq]
  -- Texts list the nodes in their order, so only the severities are compared.
  have hnodes : (evalNodeRuntimes X k target now inv').map (·.severity) =
      (evalNodeRuntimes X k target now inv).map (·.severity) := by
    unfold evalNodeRuntimes
    rw [List.map_flatMap, List.map_flatMap]
    congr 1
    funext a
    simp only [hnil]
    split_ifs
    · rfl
    · exact severities_addOnFindings (hruntimes a)
  have huncovered : (evalUncoveredRuntimes k inv').map (·.severity) =
      (evalUncoveredRuntimes k inv).map (·.severity) := by
    unfold evalUncoveredRuntimes
    split_ifs
    · rfl
    · rw [List.map_map, List.map_map]
      exact map_groupOn_eq_of_perm (h.nodes.filterMap _).symm fun _ _ _ => rfl
  unfold addOnRows evalAddOns
  dsimp only
  simp only [List.map_map, hcap, List.map_append, h.addOns, h.collectorSchema, hinstalls, hnodes,
    huncovered]

/-- The findings other than the add-ons' and the runtimes', in another order. -/
theorem Reorders.otherFindings (h : Reorders inv inv') (hd : inv.Distinct X)
    (hapart : inv.FoldsApart X k target) (hrows : ∀ rel ∈ inv.helmReleases, rel.RowsApart k target inv.apiUsage)
    (hpref : ∀ c ∈ inv.crds, c.Preferable X) {others : List Finding}
    (ho : otherFindings fuel X inv k target now = some others) :
    ∃ others', otherFindings fuel X inv' k target now = some others' ∧ others.Perm others' := by
  unfold UpgradeScope.otherFindings at ho ⊢
  rw [h.evalUpgradePath]
  obtain ⟨path, hpath, rfl⟩ := Option.map_eq_some_iff.mp ho
  rw [hpath, Option.map_some]
  refine ⟨_, rfl, ?_⟩
  rw [h.evalSkew, h.evalControlPlaneSkew, h.evalKubeProxyKubeletSkew hd, h.evalKBStale, h.evalSupport]
  refine (h.foldedFindings hd hapart).append (List.Perm.map _ ?_)
  refine List.Perm.append (List.Perm.append ?_ (h.evalCRDVersions hd hpref)) (h.evalVolumePlugins hd)
  refine List.Perm.append_right _ (List.Perm.append_right _ (List.Perm.append_right _ ?_))
  refine List.Perm.append_right _ (List.Perm.append_right _ (List.Perm.append_right _ ?_))
  exact (h.evalAuthorshipUnknown hd).append (h.evalHelmReleases hd hrows)

/-- The score counts severities. -/
theorem score_eq_of_severities {fs gs : List Finding} (h : (fs.map (·.severity)).Perm (gs.map (·.severity))) :
    score fs = score gs := by
  have hcount : ∀ s : Severity, fs.countP (·.severity = s) = gs.countP (·.severity = s) := by
    intro s
    have := h.countP_eq (· = s)
    rwa [List.countP_map, List.countP_map] at this
  unfold score
  rw [hcount, hcount]

/-- The verdict reads severities. -/
theorem verdictFor_eq_of_severities {fs gs : List Finding} (gaps : List CapabilityGap)
    (h : (fs.map (·.severity)).Perm (gs.map (·.severity))) : verdictFor fs gaps = verdictFor gs gaps := by
  have hany : fs.any (·.severity = .blocker) = gs.any (·.severity = .blocker) := by
    have := any_eq_of_perm (p := (· = Severity.blocker)) h
    simpa [List.any_map, Function.comp_def] using this
  unfold verdictFor
  rw [hany]

end WholeReorders

/-- A usage row of one object. -/
def oneObject (group version kind : String) : APIUsage where
  group := group
  version := version
  kind := kind
  count := 1
  objects := [{ «namespace» := "shop", name := "web" }]

/-- A cluster with usage rows, a client that requests an API of one of them, a release with rows in its manifest and a CRD
with versions. -/
def calledCluster (rows apis : List APIUsage) (versions : List CRDVersion) : Inventory where
  serverVersion := "v1.21.0"
  apiUsage := rows
  deprecatedCalls := [{ group := "extensions", version := "v1beta1", resource := "ingresses" }]
  helmReleases := [{ «namespace» := "shop", name := "web", status := "deployed", manifestAPIs := apis }]
  crds := [{ group := "example.io", kind := "Widget", plural := "widgets", versions := versions, storedVersions := ["v1"] }]

/-- A knowledge base of two removed APIs. -/
def ingressKB : KB where
  apiLifecycle :=
    [{ group := "extensions", version := "v1beta1", kind := "Ingress", introduced := ⟨1, 1⟩
       removed := some ⟨1, 22⟩ },
     { group := "apps", version := "v1beta1", kind := "Deployment", introduced := ⟨1, 6⟩
       removed := some ⟨1, 16⟩ }]
  maxKnownK8s := ⟨1, 34⟩

/-- The usage rows, those of the manifest and the versions. -/
def calledRows : List APIUsage × List APIUsage × List CRDVersion :=
  ([oneObject "extensions" "v1beta1" "Ingress", oneObject "apps" "v1beta1" "Deployment"],
    [oneObject "batch" "v1" "Job", { oneObject "batch" "v1" "Job" with count := 2 }],
    [⟨"v1", true, true, false, ""⟩, ⟨"v1alpha1", true, false, true, ""⟩])

/-- The cluster in one order. -/
def ingressFirst : Inventory := calledCluster calledRows.1 calledRows.2.1 calledRows.2.2

/-- The cluster in the other order. -/
def ingressLast : Inventory := calledCluster calledRows.1.reverse calledRows.2.1.reverse calledRows.2.2.reverse

/-- Kubernetes' priority of a version name: its stability, its major and its minor, for `v1`, `v1beta1`
and the like. -/
def kubeVersion (s : String) : Option (ℕ × ℕ × ℕ) :=
  match s.toList with
  | 'v' :: rest =>
    (digits? (rest.takeWhile Char.isDigit)).bind fun major =>
      match rest.dropWhile Char.isDigit with
      | [] => some (2, major, 0)
      | 'b' :: 'e' :: 't' :: 'a' :: minor => (digits? minor).map fun m => (1, major, m)
      | 'a' :: 'l' :: 'p' :: 'h' :: 'a' :: minor => (digits? minor).map fun m => (0, major, m)
      | _ => none
  | _ => none

/-- What the packages answer, with apimachinery's comparison of version names. -/
def kubeAware : External :=
  { External.ascii with
    compareKubeAware := fun a b =>
      match kubeVersion a, kubeVersion b with
      | none, none => if b < a then -1 else if a = b then 0 else 1
      | none, some _ => -1
      | some _, none => 1
      | some (s, major, minor), some (s', major', minor') =>
        if s ≠ s' then s - s' else if major ≠ major' then major - major' else minor - minor' }

/-- A cluster with a CRD that deprecates its storage version `v1alpha1`, and serves others. -/
def deprecatingCluster (others : List CRDVersion) : Inventory where
  crds :=
    [{ group := "example.io", kind := "Widget", plural := "widgets"
       versions := ⟨"v1alpha1", true, true, true, ""⟩ :: others
       storedVersions := ["v1alpha1"] }]

/-- Two versions that Kubernetes' order does not tell apart. -/
def tiedVersions : List CRDVersion := [⟨"v1", true, false, false, ""⟩, ⟨"v01", true, false, false, ""⟩]

/-- The remediations of a cluster's findings, for an empty knowledge base and the target 1.31. -/
def remediations (inv : Inventory) : Option (List String) :=
  (evaluate 0 kubeAware inv { maxKnownK8s := ⟨1, 34⟩ } ⟨1, 31⟩ 0).map fun r => r.findings.map (·.remediation)

end UpgradeScope
