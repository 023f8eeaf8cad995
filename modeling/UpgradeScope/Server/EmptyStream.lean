import UpgradeScope.Engine.Budget
import UpgradeScope.Engine.Duplicates
import UpgradeScope.Engine.Rising
import UpgradeScope.Engine.Sources
import UpgradeScope.Suppress.Order
import UpgradeScope.Server.Answer

/-!
# A stream that applies nothing

The gate merges a stream into a cluster even when there is nothing in it: usage rows, add-ons and
volume plugins are as they were, but the definitions of custom resources are sorted and their rows
taken over, and the API usage is marked read. None of it makes a finding the cluster does not have
(`mem_keys_of_proposed`), and the stream's own side of the merge produces nothing a gate blames on it
(`introduces_side`), so every finding of the answer is the cluster's.
-/

namespace UpgradeScope

open Go Sorting Merging Kb Registry Suppress

/-- What `CollectManifests` makes of a stream without objects. -/
def emptyStream (collectedAt : Time) : Inventory where
  clusterID := "manifests"
  collectorSchema := currentCollectorSchema
  source := .files
  collectedAt := collectedAt
  capabilities :=
    let unread : CapabilityStatus := { available := false, reason := "manifests mode" }
    let read : CapabilityStatus := { available := true }
    ((((((((∅ : AList fun _ : Capability => CapabilityStatus).insert capAPIUsage read).insert capDeprecatedCalls unread).insert
      capHelm unread).insert capAddOns read).insert capVersions unread).insert capCRDs read).insert capVolumes read)

/-! ## What suppression leaves -/

section Kept

variable {X : External} {opts : Options} {rules : List Rule} {f g : Finding}

/-- What stays of a finding is the finding, but for its objects and detail. -/
theorem kept_eq (h : (applyFinding X opts rules f).kept = some g) :
    ∃ objects detail, g = { f with objects := objects, detail := detail } := by
  rw [kept_applyFinding] at h
  split_ifs at h
  unfold partKept at h
  split_ifs at h
  · exact ⟨f.objects, f.detail, (Option.some.inj h).symm⟩
  · exact ⟨_, _, (Option.some.inj h).symm⟩

/-- A finding that lists no object stays whole or not at all. -/
theorem kept_of_unlisted (hnone : f.objects = []) (h : (applyFinding X opts rules f).kept = some g) : g = f := by
  rw [kept_applyFinding] at h
  split_ifs at h
  have hleft : openObjects X opts rules f = [] := by simp [openObjects, hnone]
  unfold partKept at h
  rw [hleft, hnone, if_pos rfl] at h
  exact (Option.some.inj h).symm

/-- A finding of an answer is what stays of one of the report, or of a client that one gave up. -/
theorem mem_suppressGate {now : Time} {rep : Report} (h : g ∈ (suppressGate X now rep rules).findings) :
    ∃ active, (∃ f ∈ rep.findings, (applyFinding X { now := now, source := "config" } active f).kept = some g) ∨
      g.category = .deprecatedAPIInUse := by
  have hopen := (findings_apply X { now := now, source := "config" } rep rules).mem_iff.mp h
  obtain ⟨f, hf, hg⟩ := List.mem_flatMap.mp hopen
  rcases List.mem_append.mp hg with hg | hg
  · exact ⟨_, .inl ⟨f, hf, Option.mem_toList.mp hg⟩⟩
  · obtain ⟨c, -, hg⟩ := List.mem_flatMap.mp hg
    obtain ⟨objects, detail, rfl⟩ := kept_eq (Option.mem_toList.mp hg)
    exact ⟨[], .inr rfl⟩

end Kept

/-! ## The proposed state -/

section Proposed

variable {fuel : ℕ} {X : External} {k : KB} {target : Version} {now : Time} {registered : String → Bool} {inv : Inventory}
  {viewed : Bool} {collectedAt : Time}

/-- Without installs to place, the cluster's stay. -/
theorem upsertAddOns_nil (cluster : List AddOnInstance) : upsertAddOns cluster [] = cluster := by
  have hplace : ∀ out : List AddOnInstance, cluster.foldl placeInstall (out, []) = (out ++ cluster, []) := by
    induction cluster with
    | nil => simp
    | cons c cluster ih =>
      intro out
      have hstep : placeInstall (out, []) c = (out ++ [c], []) := by simp [placeInstall]
      rw [List.foldl_cons, hstep, ih, List.append_assoc, List.singleton_append]
  unfold upsertAddOns
  simp [hplace]

variable {f : Finding} {c : CRD} {crds : List CRD}

/-- The definitions of the stream's side are the cluster's, without custom resources and stored versions. -/
theorem mem_side_crds (h : c ∈ (mergeManifests registered inv (emptyStream collectedAt)).2.crds) :
    ∃ c₀ ∈ inv.crds, c = { c₀ with usage := [], storedVersions := [] } := by
  have hupserts : ∀ (defs out : List CRD) (c : CRD), c ∈ defs.foldl (upsertOn CRD.groupKind fun _ c => c) out →
      c ∈ out ∨ c ∈ defs := by
    intro defs
    induction defs with
    | nil => exact fun out c hc => .inl hc
    | cons d defs ih =>
      intro out c hc
      rcases ih _ c hc with hc | hc
      · rcases mem_upsertOn hc with hc | rfl | ⟨-, -, rfl⟩
        · exact .inl hc
        · exact .inr List.mem_cons_self
        · exact .inr List.mem_cons_self
      · exact .inr (List.mem_cons_of_mem _ hc)
  obtain ⟨d, hd, rfl⟩ := List.mem_map.mp h
  obtain ⟨c₀, hc₀, rfl⟩ := List.mem_map.mp ((hupserts _ _ d (mem_sortOn.mp hd)).resolve_left List.not_mem_nil)
  refine ⟨c₀, by simpa [emptyStream] using hc₀, ?_⟩
  simp [emptyStream]

/-- The proposed state is the cluster with its API usage marked read and its definitions rebuilt. -/
theorem proposed_eq : ∃ st,
    (mergeManifests registered (withUsage inv (emptyStream collectedAt) viewed)
      (emptyStream collectedAt)).1 =
    { inv with
      capabilities := inv.capabilities.insert capAPIUsage st
      crds := (mergeManifests registered (withUsage inv (emptyStream collectedAt) viewed)
        (emptyStream collectedAt)).2.crds.map (proposedCRD inv.crds) } := by
  refine ⟨if viewed then inv.capability capAPIUsage else { available := true }, ?_⟩
  have horphans : ((assessCRDs registered (emptyStream collectedAt)
      (((withUsage inv (emptyStream collectedAt) viewed).crds ++
        (emptyStream collectedAt).crds).map fun c => { c with usage := [], storedVersions := [] })).capability
      capCRDs).skipped = [] := by
    simp [assessCRDs, Inventory.capability, emptyStream, sorted, sortOn]
  have haddOns : upsertAddOns inv.addOns (emptyStream collectedAt).addOns = inv.addOns := upsertAddOns_nil _
  unfold mergeManifests
  dsimp only
  rw [horphans]
  simp only [List.isEmpty_nil, Bool.not_true, Bool.and_false, Bool.false_eq_true, if_false]
  unfold withUsage
  dsimp only
  rw [haddOns]
  rfl

/-- The checks besides the definitions' read one capability: the callers that are the scanner's own. -/
theorem beforeCRDs_frame {caps : AList fun _ : Capability => CapabilityStatus}
    (hcalls : caps.lookup capDeprecatedCalls = inv.capabilities.lookup capDeprecatedCalls) (path : List Finding) :
    beforeCRDs X { inv with capabilities := caps, crds := crds } k target now path = beforeCRDs X inv k target now path := by
  have hjudged : judgedCalls { inv with capabilities := caps, crds := crds } = judgedCalls inv := by
    unfold judgedCalls otherCallers Inventory.capability
    rw [hcalls]
  have hfolded : foldedFindings X { inv with capabilities := caps, crds := crds } k target = foldedFindings X inv k target := by
    unfold foldedFindings foldDeprecatedCalls placedCalls evalDeprecatedCalls
    rw [hjudged]
    rfl
  unfold beforeCRDs
  rw [hfolded]
  rfl

/-- A rebuilt definition is the cluster's, with some of its custom resources. -/
theorem proposedCRD_eq (hcrds : (crds.map CRD.groupKind).Nodup) (hc : c ∈ crds) :
    ∃ us ⊆ c.usage, proposedCRD crds { c with usage := [], storedVersions := [] } = { c with usage := us } := by
  have hfind : crds.reverse.find? (·.groupKind = c.groupKind) = some c :=
    find?_key_of_mem (by simpa using hcrds) (List.mem_reverse.mpr hc)
  refine ⟨sortOn (·.version) (c.usage.filter fun u => !currentVersion { c with usage := [], storedVersions := [] } u.version),
    fun u hu => (List.mem_filter.mp (mem_sortOn.mp hu)).1, ?_⟩
  unfold proposedCRD residentUsage
  rw [show ({ c with usage := [], storedVersions := [] } : CRD).groupKind = c.groupKind from rfl, hfind]
  rfl

/-- A definition with fewer custom resources has no other keys. -/
theorem key_mem_crdFindings {inv' : Inventory} {us : List APIUsage} (hus : us ⊆ c.usage)
    (h : f ∈ crdFindings X inv' target { c with usage := us }) :
    ∃ g ∈ crdFindings X inv target c, Notify.findingKey (capNamespaces g) = Notify.findingKey (capNamespaces f) := by
  have hident : ∀ {g : Finding}, g.key ≠ "" → Notify.findingKey (capNamespaces g) = g.key := by
    intro g hg
    rw [← capNamespaces_key] at hg ⊢
    exact Notify.ident_of_key hg
  have hkey : ∀ mark version, crdKey c mark version ≠ "" := by
    intro mark version hempty
    have hlen := congrArg String.length hempty
    simp [crdKey, String.length_append, Category.name] at hlen
  obtain ⟨m, hm, version, hversion, hf⟩ := exists_crdKey h
  have hmarked : ∃ m' ∈ c.marked, m'.1 = m.1 ∧ version ∈ m'.2 := by
    simp only [CRD.marked, List.mem_cons, List.not_mem_nil, or_false] at hm
    rcases hm with rfl | rfl | rfl
    · exact ⟨_, List.mem_cons_self, rfl, hversion⟩
    · refine ⟨_, List.mem_cons_of_mem _ List.mem_cons_self, rfl, ?_⟩
      obtain ⟨u, hu, rfl⟩ := List.mem_map.mp hversion
      obtain ⟨hmem, hflag⟩ := List.mem_filter.mp hu
      exact List.mem_map_of_mem (List.mem_filter.mpr ⟨hus hmem, hflag⟩)
    · exact ⟨_, List.mem_cons_of_mem _ (List.mem_cons_of_mem _ List.mem_cons_self), rfl, hversion⟩
  obtain ⟨m', hm', hmark, hversion'⟩ := hmarked
  have hmem : crdKey c m'.1 version ∈ (crdFindings X inv target c).map (·.key) := by
    rw [map_key_crdFindings]
    exact List.mem_flatMap.mpr ⟨m', hm', List.mem_map_of_mem hversion'⟩
  obtain ⟨g, hg, hgkey⟩ := List.mem_map.mp hmem
  have hsame : f.key = g.key := hf.trans (by rw [hgkey, hmark]; rfl)
  refine ⟨g, hg, ?_⟩
  rw [hident (hgkey ▸ hkey _ _), hident (hsame ▸ hgkey ▸ hkey _ _), hsame]

/-- The proposed state has no key that the cluster does not have. -/
theorem mem_keys_of_proposed (hcrds : (inv.crds.map CRD.groupKind).Nodup) {found found' : List Finding}
    (hfound : foundFindings fuel X inv k target now = some found)
    (hfound' : foundFindings fuel X (mergeManifests registered (withUsage inv (emptyStream collectedAt) viewed)
      (emptyStream collectedAt)).1 k target now = some found') (hf : f ∈ found') :
    Notify.findingKey f ∈ found.map Notify.findingKey := by
  obtain ⟨st, hproposed⟩ := @proposed_eq registered inv viewed collectedAt
  rw [hproposed, foundFindings_crds] at hfound'
  rw [foundFindings_crds] at hfound
  obtain ⟨path', hpath', rfl⟩ := Option.map_eq_some_iff.mp hfound'
  obtain ⟨path, hpath, rfl⟩ := Option.map_eq_some_iff.mp hfound
  obtain rfl : path = path' := Option.some.inj (hpath.symm.trans hpath')
  rw [beforeCRDs_frame (AList.lookup_insert_ne (by decide))] at hf
  simp only [List.mem_append] at hf
  rcases hf with (hf | hf) | hf
  · exact List.mem_map_of_mem (List.mem_append_left _ (List.mem_append_left _ hf))
  · obtain ⟨g', hg', rfl⟩ := List.mem_map.mp hf
    obtain ⟨c', hc', hg'⟩ := List.mem_flatMap.mp hg'
    obtain ⟨d, hd, rfl⟩ := List.mem_map.mp hc'
    obtain ⟨c, hc, rfl⟩ := mem_side_crds hd
    obtain ⟨us, hus, heq⟩ := proposedCRD_eq hcrds hc
    rw [heq] at hg'
    obtain ⟨g, hg, hkey⟩ : ∃ g ∈ crdFindings X inv target c,
        Notify.findingKey (capNamespaces g) = Notify.findingKey (capNamespaces g') := key_mem_crdFindings hus hg'
    rw [← hkey]
    refine List.mem_map_of_mem (List.mem_append_left _ (List.mem_append_right _ (List.mem_map_of_mem ?_)))
    exact List.mem_flatMap.mpr ⟨c, hc, hg⟩
  · exact List.mem_map_of_mem (List.mem_append_right _ hf)

/-! ## The stream's side -/

/-- A finding about the cluster as a whole or a definition, with no object, is not the stream's. -/
theorem introduces_bare (hf : f.Bare)
    (hcategory : f.category ∈ [.versionSkew, .kbStale, .supportLifecycle, .crdVersion]) :
    (capNamespaces f).objects = [] ∧ introduces (capNamespaces f) = false := by
  rw [hf.capNamespaces]
  refine ⟨hf.objects, ?_⟩
  unfold introduces
  simp only [List.mem_cons, List.not_mem_nil, or_false] at hcategory
  rcases hcategory with hcategory | hcategory | hcategory | hcategory <;> rw [hcategory]
  rw [hf.objects, hf.omitted]
  decide

/-- A definition without custom resources and stored versions has findings about itself only. -/
theorem bare_crdFindings {inv : Inventory}
    (h : f ∈ crdFindings X inv target { c with usage := [], storedVersions := [] }) : f.Bare := by
  simp only [crdFindings, List.filter_nil, List.map_nil, List.append_nil] at h
  obtain ⟨v, -, rfl⟩ := List.mem_map.mp h
  exact ⟨rfl, rfl, rfl⟩

/-- The stream's side of the merge has no finding about what a stream holds. -/
theorem introduces_side {limit : ℤ} {rep : Report}
    (h : evaluateWithin fuel X (mergeManifests registered inv (emptyStream collectedAt)).2 k target now limit = some (.ok rep))
    (hf : f ∈ rep.findings) : f.objects = [] ∧ introduces f = false := by
  obtain ⟨found, hfound, rfl⟩ := foundFindings_of_within h
  have hf : f ∈ found := mem_sortOn.mp hf
  rw [foundFindings_crds] at hfound
  obtain ⟨path, hpath, rfl⟩ := Option.map_eq_some_iff.mp hfound
  set side := (mergeManifests registered inv (emptyStream collectedAt)).2 with hside
  have hfolded : foldedFindings X side k target = [] := by
    have hcalls : judgedCalls side = [] := rfl
    unfold foldedFindings foldDeprecatedCalls placedCalls evalDeprecatedCalls
    rw [hcalls]
    rfl
  have haddOns : evalAddOns X k target now side = [] := by
    have hnodes : evalNodeRuntimes X k target now side = [] :=
      List.flatMap_eq_nil_iff.mpr fun a _ => if_pos (.inr rfl)
    unfold evalAddOns
    rw [hnodes]
    rfl
  have huncovered : evalUncoveredRuntimes k side = [] := by
    unfold evalUncoveredRuntimes
    split
    · rfl
    · rfl
  simp only [beforeCRDs, List.mem_append, List.map_append, hfolded, haddOns, huncovered, List.not_mem_nil, List.map_nil,
    or_false, false_or] at hf
  have hreleases : evalHelmReleases X k target side = [] := rfl
  have hauthorship : evalAuthorshipUnknown k side = [] := rfl
  have hvolumes : evalVolumePlugins k target side = [] := rfl
  simp only [hreleases, hauthorship, hvolumes, List.map_nil, List.not_mem_nil, or_false, false_or] at hf
  rcases hf with ((((((hf | hf) | hf) | hf) | hf) | hf) | hf) <;> obtain ⟨g, hg, rfl⟩ := List.mem_map.mp hf
  · obtain ⟨sev, key, title, detail, citation, rfl⟩ := skewFinding_of_evalSkew hg
    exact introduces_bare (bare_skewFinding ..) List.mem_cons_self
  · obtain ⟨sev, key, title, detail, citation, rfl⟩ := skewFinding_of_evalControlPlaneSkew hg
    exact introduces_bare (bare_skewFinding ..) List.mem_cons_self
  · obtain ⟨r, -, rfl⟩ := List.mem_map.mp hg
    exact introduces_bare (bare_skewFinding ..) List.mem_cons_self
  · refine introduces_bare ?_ ?_ <;> rw [eq_of_mem_unless hg]
    · exact ⟨rfl, rfl, rfl⟩
    · simp
  · -- No version is read from a stream, so there is no path from it.
    obtain rfl : [] = path := Option.some.inj ((rfl : evalUpgradePath X fuel side target = some []).symm.trans hpath)
    simp at hg
  · obtain ⟨id, server, phase, sev, title, detail, remediation, citations, rfl⟩ := mem_evalSupport hg
    exact introduces_bare ⟨rfl, rfl, rfl⟩ (by simp)
  · obtain ⟨c, hc, hg⟩ := List.mem_flatMap.mp hg
    obtain ⟨c₀, -, rfl⟩ := mem_side_crds hc
    refine introduces_bare (bare_crdFindings hg) ?_
    rw [crdFindings_category hg]
    simp

end Proposed

/-! ## The answer -/

section Gate

variable {registered : String → Bool} {fuel : ℕ} {X : External} {k : KB} {now : Time} {limit : ℤ}
  {teamMap : List NamespaceInfo → List NamespaceInfo} {req : GateRequest} {inv : Inventory} {viewed : Bool}
  {collectedAt : Time} {resp : GateResponse}

/-- A scope's share of a cluster has the cluster's definitions. -/
theorem groupKind_clusterShare (sc : ReadScope) (inv : Inventory) :
    (sc.clusterShare inv).crds.map CRD.groupKind = inv.crds.map CRD.groupKind := by
  unfold ReadScope.clusterShare
  split
  · rfl
  · rw [List.map_map]
    rfl

/-- The cut of a scope leaves the sources and the verdict. -/
theorem scope_sources (resp : GateResponse) (sc : ReadScope) (nsInfo : List NamespaceInfo) (invs : List Inventory) :
    (∀ f ∈ (resp.scope sc nsInfo invs).findings, ∃ g ∈ resp.findings, f.source = g.source) ∧
      (resp.scope sc nsInfo invs).verdict = resp.verdict := by
  unfold GateResponse.scope
  split
  · exact ⟨fun f hf => ⟨f, hf, rfl⟩, rfl⟩
  · refine ⟨fun f hf => ?_, rfl⟩
    obtain ⟨g, hg, rfl⟩ := List.mem_map.mp hf
    exact ⟨g, (List.mem_filter.mp hg).1, rfl⟩

/-- For every cluster whose definitions are of different groups and kinds, every scope, team map, list of rules, target and
time: each finding of the gate's answer to an empty stream is the cluster's, and its verdict is not blocked. -/
theorem empty_stream_introduces_nothing (hcrds : (inv.crds.map CRD.groupKind).Nodup)
    (h : gateAnswer registered fuel X k now limit teamMap req (some (inv, viewed)) (emptyStream collectedAt) =
      some (.ok resp)) :
    (∀ f ∈ resp.findings, f.source = .cluster) ∧ resp.verdict ≠ .blocked := by
  set share := req.scope.clusterShare { inv with namespaces := teamMap inv.namespaces } with hshare
  have hdefs : (share.crds.map CRD.groupKind).Nodup := by
    rw [hshare, groupKind_clusterShare]
    exact hcrds
  obtain ⟨ev, hev, hresp⟩ := andThen_eq_ok.mp
    (show answerWithin registered fuel X k now limit req share viewed (emptyStream collectedAt) = some (.ok resp) from h)
  obtain ⟨base, hbase, hev⟩ := andThen_eq_ok.mp hev
  obtain ⟨sideRep, hsideRep, hev⟩ := andThen_eq_ok.mp hev
  obtain ⟨full, hfull, hev⟩ := andThen_eq_ok.mp hev
  obtain rfl := Except.ok.inj (Option.some.inj hev)
  obtain rfl := Except.ok.inj (Option.some.inj hresp)
  -- The stream's side has nothing to blame on it, before and after suppression.
  have hkeys : (suppressSide X now sideRep req.rules).keys = [] := by
    refine List.map_eq_nil_iff.mpr (List.filter_eq_nil_iff.mpr fun g hg => ?_)
    obtain ⟨active, ⟨f, hf, hkept⟩ | hcaller⟩ := mem_suppressGate hg
    · obtain ⟨hnone, hquiet⟩ := introduces_side hsideRep hf
      rw [kept_of_unlisted hnone hkept, hquiet]
      simp
    · simp [introduces, hcaller]
  obtain ⟨found, hfound, rfl⟩ := foundFindings_of_within hbase
  obtain ⟨found', hfound', rfl⟩ := foundFindings_of_within hfull
  set rep := suppressGate X now (reportOf X _ k req.target now found') req.rules with hrep
  have hsource : ∀ f ∈ rep.findings, ∀ mine, sourceOf (some (reportOf X share k req.target now found))
      (suppressSide X now sideRep req.rules) (trim mine f) = .cluster := by
    intro f hf mine
    have htrim : Notify.findingKey (trim mine f) = Notify.findingKey f ∧ (trim mine f).category = f.category := by
      unfold trim
      split_ifs <;> exact ⟨rfl, rfl⟩
    refine if_pos ⟨by simp [hkeys], ?_⟩
    rw [htrim.1, htrim.2]
    obtain ⟨active, ⟨g, hg, hkept⟩ | hcaller⟩ := mem_suppressGate hf
    · obtain ⟨objects, detail, rfl⟩ := kept_eq hkept
      obtain ⟨b, hb, hkey⟩ := List.mem_map.mp (mem_keys_of_proposed hdefs hfound hfound' (mem_sortOn.mp hg))
      exact .inr (List.mem_map.mpr ⟨b, mem_sortOn.mpr hb, hkey⟩)
    · exact .inl hcaller
  refine ⟨fun f hf => ?_, ?_⟩
  · obtain ⟨g, hg, hfg⟩ := (scope_sources _ _ _ _).1 f hf
    obtain ⟨t, ht, rfl⟩ := List.mem_map.mp hg
    obtain ⟨f₀, hf₀, rfl⟩ := List.mem_map.mp ht
    exact hfg.trans (hsource f₀ hf₀ _)
  · rw [(scope_sources _ _ _ _).2]
    unfold gateResult
    dsimp only
    rw [if_neg]
    · split_ifs <;> simp
    · rw [List.any_eq_true]
      rintro ⟨t, ht, hblocks⟩
      obtain ⟨f₀, hf₀, rfl⟩ := List.mem_map.mp ht
      have hcluster := hsource f₀ hf₀ (manifestsOwn [emptyStream collectedAt,
        (mergeManifests registered (withUsage share (emptyStream collectedAt) viewed) (emptyStream collectedAt)).2])
      rw [Option.map_some, Option.getD_some, hcluster] at hblocks
      simp at hblocks

end Gate

/-- A cluster with an Ingress of a removed version, and a definition that deprecates the version of its one custom resource. -/
def blockedCluster : Inventory where
  serverVersion := "v1.21.0"
  apiUsage :=
    [{ group := "extensions", version := "v1beta1", kind := "Ingress", count := 1
       namespaces := (∅ : NamespaceCounts).insert "shop" 1
       objects := [{ «namespace» := "shop", name := "api" }] }]
  crds :=
    [{ group := "example.com", kind := "Widget", plural := "widgets"
       versions := [{ name := "v1", served := true, storage := false, deprecated := true }]
       usage :=
        [{ group := "example.com", version := "v1", kind := "Widget", count := 1
           namespaces := (∅ : NamespaceCounts).insert "shop" 1
           objects := [{ «namespace» := "shop", name := "gear" }] }] }]

/-- A gate with a blocked cluster and an empty stream says that the cluster is blocked, and blames no manifest for it. -/
theorem empty_stream_blockedCluster :
    let req : GateRequest := { target := ⟨1, 22⟩ }
    ∃ resp, gateAnswer (fun _ => false) 3 External.ascii removesIngress 0 (2 ^ 20) id req (some (blockedCluster, false))
        (emptyStream 0) = some (.ok resp) ∧
      resp.clusterVerdict = some .blocked ∧ resp.findings.length = 2 ∧
      (∀ f ∈ resp.findings, f.source = .cluster) ∧ resp.verdict ≠ .blocked := by
  intro req
  have hanswer : (gateAnswer (fun _ => false) 3 External.ascii removesIngress 0 (2 ^ 20) id req (some (blockedCluster, false))
      (emptyStream 0)).any (fun r => r.toOption.any fun resp =>
        decide (resp.clusterVerdict = some .blocked ∧ resp.findings.length = 2)) = true := by decide +kernel
  obtain ⟨resp, hresp, hblocked, hlength⟩ := exists_ok_of_any hanswer
  exact ⟨resp, hresp, hblocked, hlength, empty_stream_introduces_nothing (by decide) hresp⟩

end UpgradeScope
