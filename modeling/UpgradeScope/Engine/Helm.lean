import UpgradeScope.Engine.Usage

/-!
# Helm releases

`internal/engine/engine.go`, the checks of the installed Helm releases: the chart's `kubeVersion`
against the target (`evalChartKubeVersion`), and the flagged APIs of the stored manifest
(`evalHelmManifest`), whose objects are left to the live finding where that is at least as severe.
-/

namespace UpgradeScope

open Go Sorting Kb

/-- `helmChartYAMLURL`. -/
def helmChartYAMLURL : String := "https://helm.sh/docs/topics/charts/#the-chartyaml-file"

/-- `helmKubernetesAPIsURL`. -/
def helmKubernetesAPIsURL : String := "https://helm.sh/docs/topics/kubernetes_apis/"

/-- `helmInstalled`: the release has anything running. -/
def helmInstalled (rel : HelmRelease) : Bool := rel.status ≠ "uninstalled" ∧ rel.status ≠ "uninstalling"

/-- `helmReleaseRef`: "revision 3 of Helm release shop/web". -/
def helmReleaseRef (rel : HelmRelease) : String :=
  if rel.revision > 0 then s!"revision {rel.revision} of Helm release {rel.namespace}/{rel.name}"
  else s!"Helm release {rel.namespace}/{rel.name}"

/-- The reference at the start of a sentence: its first character, one of `r` and `H`, in capitals. -/
def helmReleaseSubject (rel : HelmRelease) : String :=
  if rel.revision > 0 then s!"Revision {rel.revision} of Helm release {rel.namespace}/{rel.name}"
  else s!"Helm release {rel.namespace}/{rel.name}"

/-- The key of a release's finding. -/
def helmKey (cat : Category) (rel : HelmRelease) : String :=
  cat.name ++ "/helm-release/" ++ rel.namespace ++ "/" ++ rel.name

section Helm

variable (X : External) (k : KB) (target : Version)

/-- `evalChartKubeVersion`: a chart whose `kubeVersion` excludes the target blocks, one that does not
parse is disclosed. -/
def evalChartKubeVersion (rel : HelmRelease) : Option Finding :=
  if trimSpace rel.kubeVersion = "" then none
  else
    let declares := s!"Chart {rel.chartName} {rel.chartVersion} ({helmReleaseRef rel}) declares kubeVersion {X.quote rel.kubeVersion} in Chart.yaml"
    match X.constraint rel.kubeVersion with
    | none => some
      { category := .chartIncompat
        severity := .info
        key := helmKey .chartIncompat rel
        title := s!"Helm release {rel.namespace}/{rel.name}: chart kubeVersion {X.quote rel.kubeVersion} could not be parsed"
        detail := declares ++ ", which is not a valid semver constraint, so the chart's Kubernetes compatibility was not assessed."
        citations := [helmChartYAMLURL] }
    | some check =>
      -- Go converts the target's components to unsigned 64-bit integers.
      if check ⟨(target.major % 2 ^ 64).toNat, (target.minor % 2 ^ 64).toNat, 0, "", ""⟩ then none
      else some
        { category := .chartIncompat
          severity := .blocker
          key := helmKey .chartIncompat rel
          title := s!"Helm release {rel.namespace}/{rel.name}: chart {rel.chartName} {rel.chartVersion} requires Kubernetes {X.quote rel.kubeVersion} (target {target})"
          detail := declares ++ s!", which Kubernetes {target} does not satisfy. Helm refuses to install or upgrade a chart whose kubeVersion excludes the cluster version, so once the cluster runs {target} every helm upgrade of this release fails until it moves to a chart version that supports {target}."
          remediation := s!"upgrade the release to a chart version whose kubeVersion includes {target} before upgrading the cluster"
          citations := [helmChartYAMLURL] }

/-- The live objects of an API: those of the usage rows with its API key. -/
def liveObjects (rows : List APIUsage) (key : String) : List ObjectRef :=
  (rows.filter fun u => apiKey u.group u.version u.kind = key).flatMap (·.objects)

/-- A live object is a manifest's: same name, and same namespace or the release's where the manifest
leaves it unset. -/
def sameObject (rel : HelmRelease) (o l : ObjectRef) : Bool :=
  l.name = o.name ∧ (l.namespace = o.namespace ∨ o.namespace = "" ∧ l.namespace = rel.namespace)

/-- One flagged row of a manifest: its entry, the objects the live scan does not take, and how many
objects it counts. -/
structure ManifestRow where
  /-- The row. -/
  usage : APIUsage
  /-- Its lifecycle. -/
  entry : APILifecycleEntry
  /-- The objects left to the manifest's finding. -/
  objects : List ObjectRef
  /-- How many objects are left. -/
  count : ℤ

/-- The objects of a manifest's row that the live scan does not take: a live finding takes them when
it is at least as severe. -/
def leftObjects (rows : List APIUsage) (rel : HelmRelease) (e : APILifecycleEntry) (u : APIUsage) :
    List ObjectRef :=
  if removedAt target e || removedNext target e then
    u.objects.filter fun o => !(liveObjects rows (apiKey u.group u.version u.kind)).any (sameObject rel o)
  else u.objects

/-- The order of a manifest's rows. -/
def rowOrder (u : APIUsage) : String ×ₗ String ×ₗ String := toLex (u.group, toLex (u.version, u.kind))

/-- A row of a manifest as its finding counts it; `none` when the API is not flagged or the live
scan takes all of its objects. -/
def manifestRow (rows : List APIUsage) (rel : HelmRelease) (u : APIUsage) : Option ManifestRow :=
  match lookup k.apiLifecycle ⟨u.group, u.version, u.kind⟩ with
  | none => none
  | some e =>
    if e.deprecated = none ∧ e.removed = none then none
    else
      let objs := leftObjects target rows rel e u
      let count := wrap64 (u.count - (u.objects.length - objs.length))
      if count ≤ 0 then none else some ⟨u, e, objs, count⟩

/-- The flagged rows of a release's manifest, in the order of their APIs. -/
def manifestRows (rows : List APIUsage) (rel : HelmRelease) : List ManifestRow :=
  (sortOn rowOrder rel.manifestAPIs).filterMap (manifestRow k target rows rel)

/-- An API as a manifest's finding names it. -/
def ManifestRow.api (r : ManifestRow) : String :=
  gvString r.usage.group r.usage.version ++ " " ++ r.usage.kind

/-- The row's removal is past what the knowledge base covers. -/
def ManifestRow.projected (r : ManifestRow) : Option String :=
  r.entry.removed.bind fun v => if v.gt k.maxKnownK8s then some v.string else none

/-- The row as the detail lists it, with when its API is deprecated and removed. -/
def ManifestRow.text (r : ManifestRow) : String :=
  let deprecated :=
    if removedAt target r.entry then []
    else (r.entry.deprecated.map fun v => "deprecated in " ++ v.string).toList
  let removed := (r.entry.removed.map fun v =>
    "removed in " ++ v.string ++ if v.gt k.maxKnownK8s then " (projected)" else "").toList
  let phases := join (deprecated ++ removed) ", "
  s!"{r.api} ({phases}; {pluralObjects r.count})"

/-- Where a row's objects move to: a replacement, or an API no served replacement is known for. -/
def ManifestRow.remedy (r : ManifestRow) : Option String × Option String :=
  let es := k.apiLifecycle
  match resolveReplacement es r.entry target with
  | some g => (some (gvString g.group g.version ++ " " ++ g.kind), none)
  | none => match laterReplacement es r.entry target with
    | some (later, since) =>
      (none, some s!"{r.api} ({gvString later.group later.version} {later.kind} is served from {since})")
    | none => match servedSuccessor es r.entry target with
      | some succ => (some (successorRemedy succ k.maxKnownK8s true), none)
      | none => (none, if r.entry.replacement.isSome then some r.api else none)

/-- The finding of a release's rows at removed APIs, or at deprecated ones. -/
def bucketFinding (rel : HelmRelease) (rows : List ManifestRow) (cat : Category) (sev : Severity) :
    Option Finding :=
  if rows = [] then none
  else
    let apis := join (rows.map ManifestRow.api) ", "
    let entries := join (rows.map (ManifestRow.text k target)) ", "
    let count := rows.foldl (fun n r => wrap64 (n + r.count)) 0
    let projected := sorted (appendNew [] (rows.filterMap (ManifestRow.projected k)))
    let projection :=
      if projected = [] then ""
      else " The removal in " ++ join projected ", " ++ s!" is projected: it is a default of k8s.io/api's lifecycle markers, not a shipped release (the newest the knowledge base covers is {k.maxKnownK8s}), and may change before it ships."
    let remedies := rows.map (ManifestRow.remedy k target)
    let replacements := remedies.filterMap (·.1)
    let unserved := remedies.filterMap (·.2)
    let fix := "upgrade the release to a chart version that renders supported APIs" ++
      if replacements = [] then "" else " (" ++ join replacements ", " ++ ")"
    let stores := s!"{helmReleaseSubject rel} (chart {rel.chartName} {rel.chartVersion}) stores a manifest with"
    let blocked := sev = .blocker
    let serves := if projected = [] then "does not serve" else "is projected not to serve"
    some
      { category := cat
        severity := sev
        key := helmKey cat rel
        title :=
          if blocked then s!"helm upgrade of release {rel.namespace}/{rel.name} will fail: its manifest uses {apis}"
          else s!"Helm release {rel.namespace}/{rel.name} manifest uses deprecated {apis}"
        detail :=
          if blocked then
            s!"{stores} {pluralObjects count} at APIs Kubernetes {target} {serves}: {entries}. Helm refuses to upgrade a release whose stored manifest uses APIs the cluster no longer serves.{projection}"
          else s!"{stores} {pluralObjects count} at deprecated APIs: {entries}.{projection}"
        remediation := fix ++
          (if blocked then
            " before upgrading the cluster; if the cluster already stopped serving them, rewrite the stored manifest with the helm-mapkubeapis plugin first"
          else "") ++
          (if unserved = [] then ""
          else s!"; no replacement Kubernetes {target} serves is known for " ++ join unserved ", ")
        citations := [helmKubernetesAPIsURL, deprecationGuideURL]
        objects := sortedObjects (rows.flatMap (·.objects))
        objectsOmitted := rows.foldl (fun n r => wrap64 (n + r.usage.objectsOmitted)) 0 }

/-- `evalHelmManifest`: at most a blocker for removed APIs and a warning for deprecated ones. -/
def evalHelmManifest (live : List APIUsage) (rel : HelmRelease) : List Finding :=
  let rows := manifestRows k target live rel
  (bucketFinding k target rel (rows.filter fun r => removedAt target r.entry) .removedAPI .blocker).toList ++
    (bucketFinding k target rel (rows.filter fun r => !removedAt target r.entry)
      .deprecatedAPI .warning).toList

/-- The findings of one release, in its namespace. -/
def releaseFindings (inv : Inventory) (rel : HelmRelease) : List Finding :=
  if ¬ helmInstalled rel then []
  else ((evalChartKubeVersion X target rel).toList ++ evalHelmManifest k target inv.apiUsage rel).map
    fun f => { f with namespaces := [rel.namespace], teams := teamsFor inv.namespaces [rel.namespace] }

/-- `evalHelmReleases`, before charging. -/
def evalHelmReleases (inv : Inventory) : List Finding :=
  inv.helmReleases.flatMap (releaseFindings X k target inv)

end Helm

end UpgradeScope
