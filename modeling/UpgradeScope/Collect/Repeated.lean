import UpgradeScope.Lib.Repeats
import UpgradeScope.Collect.EvidenceOrder

/-!
# Evidence met again

What `matchAddOns` makes of evidence does not change when images and labelled pods that stand earlier in it are left
out, where semver reads every version (`matchAddOns_trims`): the oldest version, the strongest source and the first
entry named for an image are those of the first time that each was met. Versions that do not parse are compared as
texts, which is not transitive beside semver, so that meeting one again can change which is kept.
-/

namespace UpgradeScope.Collect

open Go Sorting Registry Repeats

/-- The same evidence without some images and labelled pods that stand in it before. -/
structure AddOnEvidence.TrimsTo (ev ev' : AddOnEvidence) : Prop where
  /-- The images. -/
  images : Trims ev.images ev'.images
  /-- The pods with labels. -/
  labelled : Trims ev.labelled ev'.labelled
  /-- The Helm releases. -/
  releases : ev'.releases = ev.releases
  /-- The GitOps charts. -/
  gitops : ev'.gitops = ev.gitops
  /-- The controllers of the IngressClasses. -/
  ingressControllers : ev'.ingressControllers = ev.ingressControllers

/-- Semver reads every version that detection compares. -/
structure VersionsParse (X : External) (S : Semver) (addons : List AddOn) (ev : AddOnEvidence) : Prop where
  /-- The versions of labels. -/
  labels : ∀ p ∈ ev.labelled, (labelAddOn addons p.labels).2 ≠ "" → Parses X (labelAddOn addons p.labels).2
  /-- The app versions of the evidence. -/
  app : ∀ i, ∀ e ∈ evidenceOf X S addons ev i, e.version ≠ "" → Parses X e.version
  /-- Its chart versions. -/
  chart : ∀ i, ∀ e ∈ evidenceOf X S addons ev i, e.chart ≠ "" → Parses X e.chart

/-- Semver reads every version where each of them is none or parses. -/
theorem versionsParse_of_all {X : External} {S : Semver} {addons : List AddOn} {ev : AddOnEvidence}
    (hlabels : ∀ p ∈ ev.labelled,
      (labelAddOn addons p.labels).2 = "" ∨ (X.newVersion (labelAddOn addons p.labels).2).isSome)
    (hevidence : ∀ e ∈ allEvidence X S addons ev, (e.2.version = "" ∨ (X.newVersion e.2.version).isSome) ∧
      (e.2.chart = "" ∨ (X.newVersion e.2.chart).isSome)) : VersionsParse X S addons ev where
  labels p hp hne := Option.isSome_iff_exists.mp ((hlabels p hp).resolve_left hne)
  app i e he hne := Option.isSome_iff_exists.mp ((hevidence (i, e) (mem_evidenceOf.mp he)).1.resolve_left hne)
  chart i e he hne := Option.isSome_iff_exists.mp ((hevidence (i, e) (mem_evidenceOf.mp he)).2.resolve_left hne)

section Oldest

variable {X : External} {S : Semver} (hS : S.Lawful) {vs vs' : List String}
include hS

/-- A version that was met does not replace the oldest one. -/
theorem olderVersion_oldest (hvs : ∀ v ∈ vs, v ≠ "" → Parses X v) {v : String} (hv : v ∈ vs) :
    olderVersion X S (oldest X S vs) v = oldest X S vs := by
  refine if_neg fun h => ?_
  obtain ⟨hset, -, hle⟩ := oldest_spec hS hvs hv h.1
  rw [hle.not_versionLess] at h
  exact hset (h.2.resolve_right (by simp))

/-- The oldest of some versions is the oldest of them without repeats. -/
theorem oldest_trims (h : Trims vs vs') (hvs : ∀ v ∈ vs, v ≠ "" → Parses X v) : oldest X S vs = oldest X S vs' :=
  h.foldl_eq fun _ _ hm hv => olderVersion_oldest hS (fun w hw => hvs w (hm w hw)) hv

end Oldest

section Claims

variable {X : External} {S : Semver} {addons : List AddOn} {ev ev' : AddOnEvidence} (hev : ev.TrimsTo ev')
include hev

/-- Evidence without repeats has the labels that name an add-on without repeats. -/
theorem labelNamed_trims (img : NsImage) : Trims (labelNamed addons ev img) (labelNamed addons ev' img) :=
  hev.labelled.flatMap _

/-- Evidence without repeats has the releases that name an add-on without repeats. -/
theorem releaseNamed_trims (ns : String) : releaseNamed addons ev' ns = releaseNamed addons ev ns := by
  unfold releaseNamed
  rw [hev.releases]

/-- The entry named for an image without a tag is the first one met. -/
theorem namedClaims_trims (img : NsImage) : namedClaims X addons ev' img = namedClaims X addons ev img := by
  have hnamed : Trims (labelNamed addons ev img ++ releaseNamed addons ev img.namespace)
      (labelNamed addons ev' img ++ releaseNamed addons ev img.namespace) :=
    (labelNamed_trims hev img).append (.refl _)
  unfold namedClaims untaggedClaim
  rw [releaseNamed_trims hev, hnamed.find?_eq]

omit hev in
/-- The version that labels give an image is a pod's. -/
theorem mem_labelVersions {img : NsImage} {id v : String} (h : v ∈ labelVersions addons ev img id) :
    ∃ p ∈ ev.labelled, v = (labelAddOn addons p.labels).2 := by
  obtain ⟨c, hc, rfl⟩ := List.mem_map.mp h
  obtain ⟨p, hp, hc⟩ := List.mem_flatMap.mp (List.mem_filter.mp hc).1
  split_ifs at hc
  · simp at hc
  · obtain ⟨-, -, rfl⟩ := List.mem_map.mp hc
    exact ⟨p, hp, rfl⟩

variable (hS : S.Lawful) (hparse : VersionsParse X S addons ev)
include hS hparse

/-- The oldest version that labels give an image. -/
theorem labelVersion_trims (img : NsImage) (id : String) :
    labelVersion X S addons ev' img id = labelVersion X S addons ev img id := by
  refine (oldest_trims hS (((labelNamed_trims hev img).filter _).map _) fun v hv hne => ?_).symm
  obtain ⟨p, hp, rfl⟩ := mem_labelVersions hv
  exact hparse.labels p hp hne

/-- The claims on an image are the same without repeated evidence. -/
theorem settled_trims : settled X S addons ev' = settled X S addons ev := by
  funext img
  unfold settled
  rw [namedClaims_trims hev]
  simp only [labelVersion_trims hev hS hparse]

/-- The evidence of pods, releases and charts, without repeats. -/
theorem directEvidence_trims : Trims (directEvidence X S addons ev) (directEvidence X S addons ev') := by
  have himage : Trims (imageEvidence X S addons ev) (imageEvidence X S addons ev') := by
    unfold imageEvidence
    rw [settled_trims hev hS hparse]
    exact hev.images.flatMap _
  have hlabel : Trims (labelEvidence X addons ev) (labelEvidence X addons ev') := (hev.labelled.filter _).map _
  have hrelease : releaseEvidence addons ev' = releaseEvidence addons ev := by
    unfold releaseEvidence
    rw [hev.releases]
  have hgitops : gitopsEvidence S addons ev' = gitopsEvidence S addons ev := by
    unfold gitopsEvidence
    rw [hev.gitops]
  unfold directEvidence
  rw [hrelease, hgitops]
  exact ((himage.append hlabel).append (.refl _)).append (.refl _)

/-- Evidence without repeats gives every install its pieces without repeats. -/
theorem allEvidence_trims : Trims (allEvidence X S addons ev) (allEvidence X S addons ev') := by
  have hdirect := directEvidence_trims hev hS hparse
  have hcounts : controllerCounts X S addons ev' = controllerCounts X S addons ev := by
    funext c
    unfold controllerCounts
    simp only [hdirect.any_eq]
  have hingress : ingressEvidence X S addons ev' = ingressEvidence X S addons ev := by
    unfold ingressEvidence
    rw [hcounts, hev.ingressControllers]
  unfold allEvidence
  rw [hingress]
  exact hdirect.append (.refl _)

/-- The evidence of an install, without repeats. -/
theorem evidenceOf_trims (i : Install) : Trims (evidenceOf X S addons ev i) (evidenceOf X S addons ev' i) :=
  ((allEvidence_trims hev hS hparse).filter _).map _

/-- The images that nobody claims are the same without repeated evidence, but for repeats. -/
theorem unmatchedImages_trims : Trims (unmatchedImages X S addons ev) (unmatchedImages X S addons ev') := by
  unfold unmatchedImages
  rw [settled_trims hev hS hparse]
  exact (hev.images.filter _).map _

end Claims

/-! ## The installs -/

section Installs

variable {X : External} {S : Semver} {g g' evs evs' : List Evidence} {i : Install}

/-- The strongest source is that of the evidence without repeats. -/
theorem strongest_trims (h : Trims g g') : strongest g = strongest g' := by
  refine h.foldl_eq fun m e _ he => ?_
  obtain ⟨src, hsrc, hle⟩ := le_strongest he
  unfold strongest at hsrc
  rw [hsrc]
  exact if_neg (by simpa using hle)

/-- The evidence off the releases' lines is the same without repeated evidence. -/
theorem offLine_trims (h : Trims evs evs') : offLine evs' = offLine evs := by
  have hlines : Trims (releaseLines evs) (releaseLines evs') := (((h.filter _).map _).filter _).map _
  funext e
  unfold offLine
  simp only [ne_eq, hlines.eq_nil_iff, hlines.mem_iff]

variable (hS : S.Lawful)
include hS

/-- The install of a group of evidence is that of the group without repeats. -/
theorem instanceOf_trims (h : Trims g g') (happ : ∀ e ∈ g, e.version ≠ "" → Parses X e.version)
    (hchart : ∀ e ∈ g, e.chart ≠ "" → Parses X e.chart) : instanceOf X S i g' = instanceOf X S i g := by
  have hversions : ∀ p : Evidence → Bool,
      oldest X S ((g.filter p).map (·.version)) = oldest X S ((g'.filter p).map (·.version)) := fun p => by
    refine oldest_trims hS ((h.filter p).map _) fun v hv hne => ?_
    obtain ⟨e, he, rfl⟩ := List.mem_map.mp hv
    exact happ e (List.mem_filter.mp he).1 hne
  have hcharts : ∀ p : Evidence → Bool,
      oldest X S ((g.filter p).map (·.chart)) = oldest X S ((g'.filter p).map (·.chart)) := fun p => by
    refine oldest_trims hS ((h.filter p).map _) fun v hv hne => ?_
    obtain ⟨e, he, rfl⟩ := List.mem_map.mp hv
    exact hchart e (List.mem_filter.mp he).1 hne
  unfold instanceOf appVersions podVersions releaseCharts gitopsCharts
  rw [hversions, hversions, hcharts, hcharts, strongest_trims h]

/-- The installs of the groups are those of the evidence without repeats. -/
theorem map_groups_trims (h : Trims evs evs') (happ : ∀ e ∈ evs, e.version ≠ "" → Parses X e.version)
    (hchart : ∀ e ∈ evs, e.chart ≠ "" → Parses X e.chart) :
    (groups evs').map (instanceOf X S i) = (groups evs).map (instanceOf X S i) := by
  have hgroup : ∀ p : Evidence → Bool, instanceOf X S i (evs'.filter p) = instanceOf X S i (evs.filter p) := fun p =>
    instanceOf_trims hS (h.filter p) (fun e he => happ e (List.mem_filter.mp he).1)
      fun e he => hchart e (List.mem_filter.mp he).1
  unfold groups
  dsimp only
  rw [offLine_trims h, List.map_cons, List.map_cons, hgroup, ← if_congr (h.filter (offLine evs)).eq_nil_iff rfl rfl]
  split_ifs
  · rfl
  · rw [List.map_singleton, List.map_singleton, hgroup]

end Installs

/-! ## Detection -/

/-- Detection reads evidence without repeats as it reads the evidence, where semver reads every version. -/
theorem matchAddOns_trims {X : External} {S : Semver} (hS : S.Lawful) {addons : List AddOn} {ev ev' : AddOnEvidence}
    (hev : ev.TrimsTo ev') (hparse : VersionsParse X S addons ev) :
    matchAddOns X S addons ev' = matchAddOns X S addons ev := by
  have hunmatched : sortedSet (unmatchedImages X S addons ev') = sortedSet (unmatchedImages X S addons ev) :=
    (unmatchedImages_trims hev hS hparse).sortedSet_eq.symm
  have hinstalls : ∀ i, (groups (evidenceOf X S addons ev' i)).map (instanceOf X S i) =
      (groups (evidenceOf X S addons ev i)).map (instanceOf X S i) := fun i =>
    map_groups_trims hS (evidenceOf_trims hev hS hparse i) (hparse.app i) (hparse.chart i)
  have hkeys : ((allEvidence X S addons ev).map (·.1)).dedup.Perm ((allEvidence X S addons ev').map (·.1)).dedup := by
    refine (List.perm_ext_iff_of_nodup (List.nodup_dedup _) (List.nodup_dedup _)).mpr fun i => ?_
    rw [List.mem_dedup, List.mem_dedup, ((allEvidence_trims hev hS hparse).map _).mem_iff]
  unfold matchAddOns
  rw [hunmatched]
  refine Prod.ext (Eq.symm ?_) rfl
  simp only [hinstalls]
  exact sortOn_instances_eq_of_perm hkeys

end UpgradeScope.Collect
