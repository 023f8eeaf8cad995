import UpgradeScope.Lib.Merging
import UpgradeScope.Engine.UniqueKeys

/-!
# What a finding is built from

A finding counts the rows of an inventory it is built from, lists some of their objects and says how
many it does not list. `BuiltFrom` follows every check of an evaluation back to those rows: one usage
row, the flagged rows of a release's stored manifest, the installs of an add-on, or none for what is
about the cluster as a whole. Each row is read as a `Tally`, which is all that ignore rules and the
gate's listing depend on.
-/

namespace UpgradeScope

open Go Sorting Kb Registry Merging

/-! ## Rows -/

/-- What a row counts, lists and leaves out. -/
structure Tally where
  /-- How many there are in a namespace, the empty name for those in none. -/
  counts : String → ℤ
  /-- The listed objects. -/
  objects : List ObjectRef
  /-- How many objects are not listed. -/
  omitted : ℤ

/-- A usage row. -/
def APIUsage.tally (u : APIUsage) : Tally := ⟨countAt u.namespaces, u.objects, u.objectsOmitted⟩

/-- A volume plugin row, which also leaves out what it counts besides the objects it names. -/
def VolumePluginUse.tally (u : VolumePluginUse) : Tally :=
  ⟨countAt u.namespaces, u.objects, u.objectsOmitted + u.unlisted⟩

/-- A row of a stored manifest, without the objects that the live scan takes. -/
def ManifestRow.tally (r : ManifestRow) : Tally where
  counts ns := countAt r.usage.namespaces ns -
    (r.usage.objects.countP (·.namespace = ns) - r.objects.countP (·.namespace = ns))
  objects := r.objects
  omitted := r.usage.objectsOmitted

/-- A release, which is in its namespace. -/
def HelmRelease.tally (rel : HelmRelease) : Tally := ⟨fun ns => if ns = rel.namespace then 1 else 0, [], 0⟩

/-- An install, in its namespaces or in none. -/
def AddOnInstall.tally (i : AddOnInstall) : Tally where
  counts ns := if i.where = [] then (if ns = "" then 1 else 0) else i.where.count ns
  objects := []
  omitted := 0

/-! ## Findings -/

section Built

variable (X : External) (k : KB) (target : Version) (now : Time) (inv : Inventory)

/-- The flagged rows of a release's manifest that one of its two findings is about. -/
def bucket (rel : HelmRelease) : Bool → List ManifestRow
  | true => (manifestRows k target inv.apiUsage rel).filter fun r => removedAt target r.entry
  | false => (manifestRows k target inv.apiUsage rel).filter fun r => !removedAt target r.entry

/-- The category and severity of that finding. -/
def bucketGrade : Bool → Category × Severity
  | true => (.removedAPI, .blocker)
  | false => (.deprecatedAPI, .warning)

/-- A finding about a release, in its namespace. -/
def inRelease (rel : HelmRelease) (f : Finding) : Finding :=
  { f with namespaces := [rel.namespace], teams := teamsFor inv.namespaces [rel.namespace] }

/-- The installs that a finding about an add-on covers: all those of its subject, or those of them that
cannot run the target. -/
inductive Covers (a : AddOn) (ins : List AddOnInstall) : Finding → List AddOnInstall → Prop
  | subject {s : AddOnSubject} {cat : Category} {sev : Severity} {key title detail remediation : String}
      {citations : List String} (hs : s ∈ (groupInstalls a ins false now).1 :: (groupInstalls a ins false now).2) :
      Covers a ins (subjectFinding s cat sev key title detail remediation citations) s.installs
  | compat {s : AddOnSubject} {key : String} {f : Finding} (hs : s ∈ (groupInstalls a ins false now).2)
      (hf : evalAddOnCompat X a s target key = some f) : Covers a ins f (badInstalls X a s target)

/-- The collector read the version labels of pods. -/
def labelsConsulted : Bool := labelVersionCollectorSchema ≤ inv.collectorSchema

/-- The installs of a detected add-on. -/
def detectedInstalls (id : String) : List AddOnInstall := (inv.addOns.filter (·.id = id)).map (installOf inv.namespaces)

/-- A finding is about no object and no namespace. -/
structure Finding.Bare (f : Finding) : Prop where
  /-- It lists no object. -/
  objects : f.objects = []
  /-- It leaves none out. -/
  omitted : f.objectsOmitted = 0
  /-- It names no namespace. -/
  namespaces : f.namespaces = []

/-- The rows that a finding of an evaluation is built from. -/
inductive BuiltFrom : Finding → List Tally → Prop
  | usage {u : APIUsage} {g : Finding} (calls : List (DeprecatedCall × Finding)) (hu : u ∈ inv.apiUsage)
      (hg : usageFinding k target inv.source inv.namespaces u = some g) :
      BuiltFrom (withCallers (capNamespaces g) calls) [u.tally]
  | authorship {u : APIUsage} {g : Finding} (hu : u ∈ inv.apiAuthorshipUnknown)
      (hg : authorshipFinding k inv.namespaces u = some g) : BuiltFrom (capNamespaces g) [u.tally]
  | manifest {rel : HelmRelease} {g : Finding} (removed : Bool) (hrel : rel ∈ inv.helmReleases)
      (hinstalled : helmInstalled rel = true)
      (hg : bucketFinding k target rel (bucket k target inv rel removed) (bucketGrade removed).1 (bucketGrade removed).2 =
        some g) :
      BuiltFrom (capNamespaces (inRelease inv rel g)) ((bucket k target inv rel removed).map ManifestRow.tally)
  | chart {rel : HelmRelease} {g : Finding} (hrel : rel ∈ inv.helmReleases) (hinstalled : helmInstalled rel = true)
      (hg : evalChartKubeVersion X target rel = some g) : BuiltFrom (capNamespaces (inRelease inv rel g)) [rel.tally]
  | addOn {id : String} {a : AddOn} {g : Finding} {ins : List AddOnInstall} (hid : id ∈ inv.addOns.map (·.id))
      (ha : registryEntry k id = some a)
      (hg : g ∈ addOnFindings X a target now (labelsConsulted inv) (detectedInstalls inv id) false)
      (hcovers : Covers X target now a (detectedInstalls inv id) g ins) :
      BuiltFrom (capNamespaces g) (ins.map AddOnInstall.tally)
  | deprecatedVersion {c : CRD} {v : CRDVersion} {u : APIUsage} (hc : c ∈ inv.crds)
      (hv : v ∈ c.versions.filter fun v => v.served && v.deprecated) (hu : c.used v.name = some u) :
      BuiltFrom (capNamespaces (deprecatedVersionFinding X inv target c v)) [u.tally]
  | unservedVersion {c : CRD} {u : APIUsage} (hc : c ∈ inv.crds)
      (hu : u ∈ c.usage.filter fun u => u.count ≠ 0 && !c.serves u.version) :
      BuiltFrom (capNamespaces (unservedVersionFinding X inv target c u)) [u.tally]
  | volume {u : VolumePluginUse} {g : Finding} (hu : u ∈ inv.volumePlugins)
      (hg : volumeFinding k target inv.source inv.namespaces u = some g) : BuiltFrom (capNamespaces g) [u.tally]
  | cluster {f : Finding} (hf : f.Bare) : BuiltFrom f []

end Built

/-! ## Every finding is built from rows -/

section Cases

variable {X : External} {k : KB} {target : Version} {now : Time} {inv : Inventory} {f : Finding}

/-- A finding that names no namespace has none to cap. -/
theorem Finding.Bare.capNamespaces (h : f.Bare) : UpgradeScope.capNamespaces f = f := by
  unfold UpgradeScope.capNamespaces
  rw [h.namespaces]
  simp

/-- The findings of the skew policy are about no object and no namespace. -/
theorem bare_skewFinding (sev : Severity) (key title detail citation : String) :
    (skewFinding sev key title detail citation).Bare := ⟨rfl, rfl, rfl⟩

variable {a : AddOn} {fuel : ℕ} {ins : List AddOnInstall} {s : AddOnSubject} {found fs : List Finding} {lc : Bool}
  {rel : HelmRelease} {nsInfo : List NamespaceInfo}

/-- The finding about a release line is about its subject. -/
theorem subject_of_lineFinding (h : lineFinding a now s = some f) :
    ∃ cat sev key title detail remediation citations,
      f = subjectFinding s cat sev key title detail remediation citations := by
  unfold lineFinding at h
  dsimp only at h
  split at h
  · simp at h
  · obtain ⟨-, -, rfl⟩ := Option.map_eq_some_iff.mp h
    exact ⟨_, _, _, _, _, _, _, rfl⟩

/-- The disclosure of missing data is about its subject. -/
theorem subject_of_noDataFinding (h : noDataFinding a now lc s = some f) :
    ∃ cat sev key title detail remediation citations,
      f = subjectFinding s cat sev key title detail remediation citations := by
  obtain ⟨-, -, -, title, detail, hf⟩ := noDataFinding_eq_some h
  exact ⟨_, _, _, _, _, _, _, hf⟩

/-- The findings of an add-on's installs cover some of them. -/
theorem covers_of_addOnFindings (h : f ∈ addOnFindings X a target now lc ins false) :
    ∃ covered, Covers X target now a ins f covered := by
  rcases mem_addOnFindings.mp h with h | ⟨s, hs, h | h | h⟩
  · obtain ⟨cat, sev, title, more, -, rfl⟩ := productFinding_eq_some h
    exact ⟨_, .subject List.mem_cons_self⟩
  · obtain ⟨cat, sev, key, title, detail, remediation, citations, rfl⟩ := subject_of_lineFinding h
    exact ⟨_, .subject (List.mem_cons_of_mem _ hs)⟩
  · exact ⟨_, .compat hs h⟩
  · obtain ⟨cat, sev, key, title, detail, remediation, citations, rfl⟩ := subject_of_noDataFinding h
    exact ⟨_, .subject (List.mem_cons_of_mem _ hs)⟩

/-- The subjects of an add-on's findings are made of installs. -/
theorem exists_newAddOnSubject {node : Bool}
    (hs : s ∈ (groupInstalls a ins node now).1 :: (groupInstalls a ins node now).2) :
    ∃ ins' line, s = newAddOnSubject a.displayName ins' line node := by
  have hgroups : ∀ s ∈ (groupOn (groupKey a now) ins).map fun g =>
      newAddOnSubject a.displayName g.2 (g.1 ≠ "" && !hasPrefix g.1 belowPrefix) node,
      ∃ ins' line, s = newAddOnSubject a.displayName ins' line node := by
    intro s hs
    obtain ⟨g, -, rfl⟩ := List.mem_map.mp hs
    exact ⟨_, _, rfl⟩
  unfold groupInstalls at hs
  dsimp only at hs
  split at hs
  · rename_i g heq
    rw [heq] at hgroups
    dsimp only at hs
    rw [heq] at hs
    rcases List.mem_cons.mp hs with rfl | hs
    · exact hgroups _ List.mem_cons_self
    · exact hgroups _ hs
  · rcases List.mem_cons.mp hs with rfl | hs
    · exact ⟨_, _, rfl⟩
    · exact hgroups _ hs

/-- The subjects of node runtimes name no namespace. -/
theorem groupInstalls_node (hs : s ∈ (groupInstalls a ins true now).1 :: (groupInstalls a ins true now).2) :
    s.namespaces = [] ∧ s.node = true := by
  obtain ⟨ins', line, rfl⟩ := exists_newAddOnSubject hs
  exact ⟨rfl, rfl⟩

/-- The findings of node runtimes are about no namespace. -/
theorem bare_addOnFindings_node (h : f ∈ addOnFindings X a target now lc ins true) : f.Bare := by
  rcases mem_addOnFindings.mp h with h | ⟨s, hs, h | h | h⟩
  · obtain ⟨cat, sev, title, more, -, rfl⟩ := productFinding_eq_some h
    exact ⟨rfl, rfl, (groupInstalls_node List.mem_cons_self).1⟩
  · obtain ⟨cat, sev, key, title, detail, remediation, citations, rfl⟩ := subject_of_lineFinding h
    exact ⟨rfl, rfl, (groupInstalls_node (List.mem_cons_of_mem _ hs)).1⟩
  · obtain ⟨title, detail, citations, rfl⟩ := evalAddOnCompat_eq_some h
    exact ⟨rfl, rfl, if_pos (groupInstalls_node (List.mem_cons_of_mem _ hs)).2⟩
  · obtain ⟨cat, sev, key, title, detail, remediation, citations, rfl⟩ := subject_of_noDataFinding h
    exact ⟨rfl, rfl, (groupInstalls_node (List.mem_cons_of_mem _ hs)).1⟩

/-- A finding of the folded callers is a usage finding or a client's. -/
theorem builtFrom_folded (h : f ∈ foldedFindings X inv k target) : ∃ rows, BuiltFrom X k target now inv f rows := by
  unfold foldedFindings foldDeprecatedCalls at h
  rcases List.mem_append.mp h with h | h
  · obtain ⟨j, hj, rfl⟩ := List.mem_mapIdx.mp h
    obtain ⟨g, hg, hcap⟩ := List.mem_map.mp (List.getElem_mem hj)
    obtain ⟨u, hu, hg⟩ := List.mem_filterMap.mp hg
    rw [← hcap]
    exact ⟨_, .usage _ hu hg⟩
  · obtain ⟨r, hr, rfl⟩ := List.mem_map.mp h
    obtain ⟨r', hr', rfl⟩ := List.mem_map.mp (List.mem_filter.mp hr).1
    obtain ⟨c, -, rfl⟩ := List.mem_map.mp hr'
    exact ⟨_, .cluster ⟨rfl, rfl, rfl⟩⟩

/-- A finding of the add-ons covers installs, or is about nodes. -/
theorem builtFrom_evalAddOns (h : f ∈ evalAddOns X k target now inv) :
    ∃ rows, BuiltFrom X k target now inv (capNamespaces f) rows := by
  unfold evalAddOns at h
  rcases List.mem_append.mp h with h | h
  · obtain ⟨id, hid, h⟩ := List.mem_flatMap.mp h
    split at h
    · simp at h
    · rename_i a ha
      obtain ⟨covered, hcovers⟩ := covers_of_addOnFindings h
      exact ⟨_, .addOn (mem_of_mem_distinctOn hid) ha h hcovers⟩
  · obtain ⟨a, -, h⟩ := List.mem_flatMap.mp h
    split at h
    · simp at h
    · have hbare := bare_addOnFindings_node h
      rw [hbare.capNamespaces]
      exact ⟨_, .cluster hbare⟩

/-- A finding of a release is about its chart, or about rows of its manifest. -/
theorem builtFrom_releaseFindings (hrel : rel ∈ inv.helmReleases) (h : f ∈ releaseFindings X k target inv rel) :
    ∃ rows, BuiltFrom X k target now inv (capNamespaces f) rows := by
  unfold releaseFindings at h
  split at h
  · simp at h
  · rename_i hinstalled
    obtain ⟨g, hg, rfl⟩ := List.mem_map.mp h
    simp only [evalHelmManifest, List.mem_append, Option.mem_toList] at hg
    rcases hg with hg | hg | hg
    · exact ⟨_, .chart hrel (not_not.mp hinstalled) hg⟩
    · exact ⟨_, .manifest true hrel (not_not.mp hinstalled) hg⟩
    · exact ⟨_, .manifest false hrel (not_not.mp hinstalled) hg⟩

/-- A finding about a CRD is about a version in use, or about none. -/
theorem builtFrom_crdFindings {c : CRD} (hc : c ∈ inv.crds) (h : f ∈ crdFindings X inv target c) :
    ∃ rows, BuiltFrom X k target now inv (capNamespaces f) rows := by
  unfold crdFindings at h
  simp only [List.mem_append] at h
  rcases h with (h | h) | h
  · obtain ⟨v, hv, rfl⟩ := List.mem_map.mp h
    cases hu : c.used v.name with
    | some u => exact ⟨_, .deprecatedVersion hc hv hu⟩
    | none =>
      have hbare : (deprecatedVersionFinding X inv target c v).Bare := by
        unfold deprecatedVersionFinding
        dsimp only
        rw [hu]
        exact ⟨rfl, rfl, rfl⟩
      rw [hbare.capNamespaces]
      exact ⟨_, .cluster hbare⟩
  · obtain ⟨u, hu, rfl⟩ := List.mem_map.mp h
    exact ⟨_, .unservedVersion hc hu⟩
  · obtain ⟨v, -, rfl⟩ := List.mem_map.mp h
    have hbare : (storedVersionFinding target c v).Bare := ⟨rfl, rfl, rfl⟩
    rw [hbare.capNamespaces]
    exact ⟨_, .cluster hbare⟩

/-- The path of an upgrade is about no object and no namespace. -/
theorem bare_evalUpgradePath (h : evalUpgradePath X fuel inv target = some fs) (hf : f ∈ fs) : f.Bare := by
  obtain rfl | ⟨title, detail, rfl⟩ := evalUpgradePath_eq_some h
  · simp at hf
  · rw [List.mem_singleton.mp hf]
    exact bare_skewFinding ..

/-- The place in a provider's calendar is about no object and no namespace. -/
theorem bare_evalSupport (h : f ∈ (evalSupport X inv k now).2) : f.Bare := by
  obtain ⟨id, server, phase, sev, title, detail, remediation, citations, rfl⟩ := mem_evalSupport h
  exact ⟨rfl, rfl, rfl⟩

/-- Every finding of a check is built from rows. -/
theorem builtFrom_check (h : some fs ∈ checks fuel X inv k target now) (hf : f ∈ fs) :
    ∃ rows, BuiltFrom X k target now inv (capNamespaces f) rows := by
  -- The checks that judge the cluster as a whole are built from no rows.
  have hcluster : f.Bare → ∃ rows, BuiltFrom X k target now inv (capNamespaces f) rows := by
    intro hbare
    rw [hbare.capNamespaces]
    exact ⟨_, .cluster hbare⟩
  unfold checks at h
  simp only [List.mem_cons, List.not_mem_nil, or_false, Option.some.injEq] at h
  obtain rfl | rfl | rfl | rfl | rfl | rfl | rfl | rfl | hpath | rfl | rfl | rfl := h
  · obtain ⟨u, hu, hg⟩ := List.mem_filterMap.mp hf
    exact ⟨_, .authorship hu hg⟩
  · exact builtFrom_evalAddOns hf
  · obtain ⟨g, -, rfl⟩ := mem_evalUncoveredRuntimes hf
    exact hcluster ⟨rfl, rfl, rfl⟩
  · obtain ⟨rel, hrel, hf⟩ := List.mem_flatMap.mp hf
    exact builtFrom_releaseFindings hrel hf
  · obtain ⟨sev, key, title, detail, citation, rfl⟩ := skewFinding_of_evalSkew hf
    exact hcluster (bare_skewFinding ..)
  · obtain ⟨sev, key, title, detail, citation, rfl⟩ := skewFinding_of_evalControlPlaneSkew hf
    exact hcluster (bare_skewFinding ..)
  · obtain ⟨r, -, rfl⟩ := List.mem_map.mp hf
    exact hcluster (bare_skewFinding ..)
  · refine hcluster ?_
    rw [eq_of_mem_unless hf]
    exact ⟨rfl, rfl, rfl⟩
  · exact hcluster (bare_evalUpgradePath hpath.symm hf)
  · exact hcluster (bare_evalSupport hf)
  · obtain ⟨c, hc, hf⟩ := List.mem_flatMap.mp hf
    exact builtFrom_crdFindings hc hf
  · obtain ⟨u, hu, hg⟩ := List.mem_filterMap.mp hf
    exact ⟨_, .volume hu hg⟩

/-- Every finding of an evaluation is built from rows. -/
theorem exists_builtFrom (h : foundFindings fuel X inv k target now = some found) (hf : f ∈ found) :
    ∃ rows, BuiltFrom X k target now inv f rows := by
  obtain ⟨fs, hfs, rfl⟩ := Option.map_eq_some_iff.mp h
  rcases List.mem_append.mp hf with hf | hf
  · exact builtFrom_folded hf
  · obtain ⟨g, hg, rfl⟩ := List.mem_map.mp hf
    obtain ⟨gs, hgs, hg⟩ := (mem_collect hfs).mp hg
    exact builtFrom_check hgs hg

/-! ## What a finding lists -/

/-- A usage finding lists the same objects when it takes callers. -/
theorem withCallers_objects (f : Finding) (calls : List (DeprecatedCall × Finding)) : (withCallers f calls).objects = f.objects :=
  (withCallers_fields f calls).2.2.2

/-- The finding of a row nobody can be named for lists the row's objects. -/
theorem objects_authorshipFinding {u : APIUsage} (h : authorshipFinding k nsInfo u = some f) :
    f.objects = sortedObjects u.objects := by
  unfold authorshipFinding at h
  split at h
  · simp at h
  · split at h
    · simp at h
    · obtain rfl := Option.some.inj h
      rfl

/-- The finding of a volume plugin lists the row's objects. -/
theorem objects_volumeFinding {src : Source} {u : VolumePluginUse} (h : volumeFinding k target src nsInfo u = some f) :
    f.objects = sortedObjects u.objects := by
  unfold volumeFinding at h
  split at h
  · simp at h
  · obtain ⟨p, -, rfl⟩ := Option.map_eq_some_iff.mp h
    rfl

/-- The finding of a manifest's rows lists their objects. -/
theorem objects_bucketFinding {ms : List ManifestRow} {cat : Category} {sev : Severity}
    (h : bucketFinding k target rel ms cat sev = some f) : f.objects = sortedObjects (ms.flatMap (·.objects)) := by
  unfold bucketFinding at h
  split at h
  · simp at h
  · obtain rfl := Option.some.inj h
    rfl

/-- The finding about a chart's constraint lists no object. -/
theorem objects_evalChartKubeVersion (h : evalChartKubeVersion X target rel = some f) :
    f.objects = [] ∧ f.objectsOmitted = 0 := by
  unfold evalChartKubeVersion at h
  dsimp only at h
  split at h
  · simp at h
  · split at h
    · obtain rfl := Option.some.inj h
      exact ⟨rfl, rfl⟩
    · split at h
      · simp at h
      · obtain rfl := Option.some.inj h
        exact ⟨rfl, rfl⟩

/-- The findings about add-ons list no object. -/
theorem Covers.objects {ins covered : List AddOnInstall} (h : Covers X target now a ins f covered) :
    f.objects = [] ∧ f.objectsOmitted = 0 := by
  cases h with
  | subject hs => exact ⟨rfl, rfl⟩
  | compat hs hf =>
    obtain ⟨title, detail, citations, rfl⟩ := evalAddOnCompat_eq_some hf
    exact ⟨rfl, rfl⟩

/-- A finding lists the objects of its rows. -/
theorem BuiltFrom.objects {rows : List Tally} (h : BuiltFrom X k target now inv f rows) :
    f.objects.Perm (rows.flatMap (·.objects)) := by
  have hone : ∀ t : Tally, [t].flatMap (·.objects) = t.objects := fun t => List.flatMap_singleton ..
  cases h with
  | usage calls hu hg =>
    rw [withCallers_objects, capNamespaces_objects, (usageFinding_eq_some k target hg).2.2.1, hone]
    exact sortOn_perm _ _
  | authorship hu hg =>
    rw [capNamespaces_objects, objects_authorshipFinding hg, hone]
    exact sortOn_perm _ _
  | @manifest rel g removed hrel hinstalled hg =>
    rw [capNamespaces_objects, List.flatMap_map]
    show g.objects.Perm _
    rw [objects_bucketFinding hg]
    exact sortOn_perm _ _
  | @chart rel g hrel hinstalled hg =>
    rw [capNamespaces_objects, hone]
    show g.objects.Perm _
    rw [(objects_evalChartKubeVersion hg).1]
    exact List.Perm.refl _
  -- An install counts and lists no object, so both sides are empty.
  | @addOn id a g ins hid ha hg hcovers =>
    have hnone : ins.flatMap (fun i => i.tally.objects) = [] := List.flatMap_eq_nil_iff.mpr fun i _ => rfl
    rw [capNamespaces_objects, hcovers.objects.1, List.flatMap_map, hnone]
  | deprecatedVersion hc hv hu =>
    rw [capNamespaces_objects, hone]
    unfold deprecatedVersionFinding
    dsimp only
    rw [hu]
    exact sortOn_perm _ _
  | unservedVersion hc hu =>
    rw [capNamespaces_objects, hone]
    exact sortOn_perm _ _
  | volume hu hg =>
    rw [capNamespaces_objects, objects_volumeFinding hg, hone]
    exact sortOn_perm _ _
  | cluster hf =>
    rw [hf.objects]
    exact List.Perm.refl _

/-! ## Rows that give a finding -/

/-- Two findings agree but for the clients folded into them. -/
def Finding.Alike (f g : Finding) : Prop := f = { g with callers := f.callers, detail := f.detail }

/-- Findings that agree but for their callers list the same objects. -/
theorem Finding.Alike.objects_eq {g : Finding} (h : f.Alike g) : f.objects = g.objects :=
  calc f.objects = ({ g with callers := f.callers, detail := f.detail } : Finding).objects := congrArg Finding.objects h
    _ = g.objects := rfl

/-- A usage finding keeps what it says when it takes callers. -/
theorem alike_withCallers (g : Finding) (calls calls' : List (DeprecatedCall × Finding)) :
    (withCallers g calls).Alike (withCallers g calls') := by
  unfold Finding.Alike withCallers
  split_ifs <;> rfl

/-- The finding of a check is found. -/
theorem found_of_check (h : foundFindings fuel X inv k target now = some found)
    (hfs : some fs ∈ checks fuel X inv k target now) (hf : f ∈ fs) : capNamespaces f ∈ found := by
  obtain ⟨all, hall, rfl⟩ := Option.map_eq_some_iff.mp h
  exact List.mem_append_right _ (List.mem_map_of_mem ((mem_collect hall).mpr ⟨fs, hfs, hf⟩))

/-- What rows give is found, with the clients that fold into it. -/
theorem BuiltFrom.reported {rows : List Tally} (hfound : foundFindings fuel X inv k target now = some found)
    (h : BuiltFrom X k target now inv f rows) :
    f.Bare ∧ rows = [] ∨ ∃ g ∈ found, g.Alike f ∧ BuiltFrom X k target now inv g rows := by
  have hreport : ∀ {fs : List Finding} {g : Finding}, BuiltFrom X k target now inv (UpgradeScope.capNamespaces g) rows →
      some fs ∈ checks fuel X inv k target now → g ∈ fs → ∃ f' ∈ found, f'.Alike (UpgradeScope.capNamespaces g) ∧
        BuiltFrom X k target now inv f' rows := fun hbuilt hfs hg =>
    ⟨_, found_of_check hfound hfs hg, rfl, hbuilt⟩
  have hhelm : some (evalHelmReleases X k target inv) ∈ checks fuel X inv k target now := by simp [checks]
  cases h with
  -- The report's finding has the callers that folded into it, which need not be `calls`.
  | @usage u g calls hu hg =>
    have hmem : UpgradeScope.capNamespaces g ∈ (evalAPIUsage k target inv).map UpgradeScope.capNamespaces :=
      List.mem_map_of_mem (List.mem_filterMap.mpr ⟨u, hu, hg⟩)
    obtain ⟨j, hj, hcap⟩ := List.getElem_of_mem hmem
    obtain ⟨all, hall, rfl⟩ := Option.map_eq_some_iff.mp hfound
    refine .inr ⟨_, List.mem_append_left _ (List.mem_append_left _ (List.mem_mapIdx.mpr ⟨j, hj, rfl⟩)), ?_, ?_⟩
    · rw [hcap]
      exact alike_withCallers ..
    · rw [hcap]
      exact .usage _ hu hg
  | authorship hu hg =>
    exact .inr (hreport (.authorship hu hg) List.mem_cons_self (List.mem_filterMap.mpr ⟨_, hu, hg⟩))
  | manifest removed hrel hinstalled hg =>
    refine .inr (hreport (.manifest removed hrel hinstalled hg) hhelm (List.mem_flatMap.mpr ⟨_, hrel, ?_⟩))
    unfold releaseFindings
    rw [if_neg (not_not.mpr hinstalled)]
    refine List.mem_map_of_mem (f := inRelease inv _) (List.mem_append_right _ ?_)
    unfold evalHelmManifest
    cases removed with
    | true => exact List.mem_append_left _ (Option.mem_toList.mpr hg)
    | false => exact List.mem_append_right _ (Option.mem_toList.mpr hg)
  | chart hrel hinstalled hg =>
    refine .inr (hreport (.chart hrel hinstalled hg) hhelm (List.mem_flatMap.mpr ⟨_, hrel, ?_⟩))
    unfold releaseFindings
    rw [if_neg (not_not.mpr hinstalled)]
    exact List.mem_map_of_mem (f := inRelease inv _) (List.mem_append_left _ (Option.mem_toList.mpr hg))
  -- An add-on is judged once however often its id is detected.
  | addOn hid ha hg hcovers =>
    obtain ⟨id, hdistinct, rfl⟩ := exists_mem_distinctOn id hid
    refine .inr (hreport (.addOn hid ha hg hcovers)
      (by simp [checks] : some (evalAddOns X k target now inv) ∈ checks fuel X inv k target now)
      (List.mem_append_left _ (List.mem_flatMap.mpr ⟨_, hdistinct, ?_⟩)))
    rw [show registryEntry k id = _ from ha]
    exact hg
  | deprecatedVersion hc hv hu =>
    exact .inr (hreport (.deprecatedVersion hc hv hu)
      (by simp [checks] : some (evalCRDVersions X inv target) ∈ checks fuel X inv k target now)
      (List.mem_flatMap.mpr ⟨_, hc, List.mem_append_left _ (List.mem_append_left _ (List.mem_map_of_mem hv))⟩))
  | unservedVersion hc hu =>
    exact .inr (hreport (.unservedVersion hc hu)
      (by simp [checks] : some (evalCRDVersions X inv target) ∈ checks fuel X inv k target now)
      (List.mem_flatMap.mpr ⟨_, hc, List.mem_append_left _ (List.mem_append_right _ (List.mem_map_of_mem hu))⟩))
  | volume hu hg =>
    exact .inr (hreport (.volume hu hg)
      (by simp [checks] : some (evalVolumePlugins k target inv) ∈ checks fuel X inv k target now)
      (List.mem_filterMap.mpr ⟨_, hu, hg⟩))
  | cluster hf => exact .inl ⟨hf, rfl⟩

end Cases

end UpgradeScope
