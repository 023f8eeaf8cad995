import UpgradeScope.Inventory.Version

/-!
# Inventories

`internal/inventory/types.go` and `volumes.go`: what a collector records of a cluster, or of a stream
of manifests, and the evaluation reads. Go's maps are association lists without duplicate keys
(`AList`); a function of the model that reads one does not depend on the order of its entries.
-/

namespace UpgradeScope

open Go

/-- What a collector can assess; collectors newer than the server may name others. -/
abbrev Capability := String

/-- `CapAPIUsage`. -/
def capAPIUsage : Capability := "api-usage"
/-- `CapDeprecatedCalls`. -/
def capDeprecatedCalls : Capability := "deprecated-calls"
/-- `CapHelm`. -/
def capHelm : Capability := "helm"
/-- `CapAddOns`. -/
def capAddOns : Capability := "addons"
/-- `CapVersions`. -/
def capVersions : Capability := "versions"
/-- `CapCRDs`. -/
def capCRDs : Capability := "crds"
/-- `CapVolumes`. -/
def capVolumes : Capability := "volumes"

/-- `SkippedNewerKB`. -/
def skippedNewerKB : String := "knowledge base differs from the agent's"
/-- `SkippedPods`. -/
def skippedPods : String := "v1 pods"
/-- `SkippedPersistentVolumes`. -/
def skippedPersistentVolumes : String := "v1 persistentvolumes"
/-- `SkippedStorageClasses`. -/
def skippedStorageClasses : String := "storage.k8s.io/v1 storageclasses"

/-- How a capability's collection went. -/
structure CapabilityStatus where
  /-- Whether the capability was read at all. -/
  available : Bool
  /-- Why not, or what failed. -/
  reason : String := ""
  /-- Whether an available capability could not read all it covers. -/
  partly : Bool := false
  /-- What a partial capability did not read. -/
  skipped : List String := []
  deriving DecidableEq

/-- How an inventory was collected. Go's type is a string that the code only compares with
`SourceFiles`, so every other text is `cluster`. -/
inductive Source where
  /-- From a live cluster. -/
  | cluster
  /-- From rendered manifests. -/
  | files
  deriving DecidableEq, Repr

/-- `CurrentCollectorSchema`. -/
def currentCollectorSchema : ℤ := 1

/-- `LabelVersionCollectorSchema`: the first schema whose collectors read a pod's version label. -/
def labelVersionCollectorSchema : ℤ := 1

/-- `MaxObjectRefs`: the objects a usage row lists. -/
def maxObjectRefs : ℕ := 100

/-- `MaxUnrecognizedImages`. -/
def maxUnrecognizedImages : ℕ := 200

/-- `MaxVolumePlugins`. -/
def maxVolumePlugins : ℕ := 64

/-- One object using an API. -/
structure ObjectRef where
  /-- Its namespace, empty when unset or cluster-scoped. -/
  «namespace» : String := ""
  /-- Its name. -/
  name : String := ""
  /-- The manifest file it was read from. -/
  file : String := ""
  /-- The line of its `apiVersion` key, from 1; 0 for a live object. -/
  line : ℤ := 0
  /-- The Helm template it was rendered from. -/
  renderedFrom : String := ""
  /-- The field manager that wrote it through the deprecated version. -/
  manager : String := ""
  /-- The value of its ignore annotation. -/
  ignore : String := ""
  /-- The value of its ignore-reason annotation. -/
  ignoreReason : String := ""
  /-- Whether the ignore value was read from a key of before v0.2.0. -/
  ignoreLegacyKey : Bool := false
  /-- Whether the reason was read from a key of before v0.2.0. -/
  ignoreReasonLegacyKey : Bool := false
  deriving DecidableEq

/-- `ObjectRef.LegacyIgnore`. -/
def ObjectRef.legacyIgnore (r : ObjectRef) : Bool := r.ignoreLegacyKey || r.ignoreReasonLegacyKey

/-- A count for each namespace, "" for cluster-scoped objects. -/
abbrev NamespaceCounts := AList fun _ : String => ℤ

/-- The objects found at one group, version and kind. -/
structure APIUsage where
  /-- The API group, "" for core. -/
  group : String
  /-- The API version. -/
  version : String
  /-- The kind. -/
  kind : String
  /-- How many objects. -/
  count : ℤ
  /-- How many in each namespace. -/
  namespaces : NamespaceCounts := ∅
  /-- The objects listed, at most `maxObjectRefs` by a collector. -/
  objects : List ObjectRef := []
  /-- How many objects are not listed. -/
  objectsOmitted : ℤ := 0

/-- One row of `apiserver_requested_deprecated_apis`. -/
structure DeprecatedCall where
  /-- The API group, "" for core. -/
  group : String
  /-- The API version. -/
  version : String
  /-- The REST resource. -/
  resource : String
  /-- The subresource. -/
  subresource : String := ""
  /-- The release that removes it, as the apiserver says. -/
  removedRelease : String := ""
  deriving DecidableEq

/-- A Helm release and the deprecated or removed APIs in its stored manifest. -/
structure HelmRelease where
  /-- The release's name. -/
  name : String
  /-- The release's namespace. -/
  «namespace» : String
  /-- The chart's name. -/
  chartName : String := ""
  /-- The chart's version. -/
  chartVersion : String := ""
  /-- The app version the chart gives. -/
  appVersion : String := ""
  /-- The chart's `kubeVersion` constraint. -/
  kubeVersion : String := ""
  /-- The installed revision's status. -/
  status : String := ""
  /-- The installed revision. -/
  revision : ℤ := 0
  /-- The flagged APIs of its stored manifest. -/
  manifestAPIs : List APIUsage := []

/-- A chart a GitOps tool deploys. -/
structure GitOpsChart where
  /-- The tool. -/
  tool : String
  /-- The custom resource's name. -/
  name : String
  /-- The custom resource's namespace. -/
  «namespace» : String := ""
  /-- The namespace it deploys into. -/
  target : String := ""
  /-- The chart. -/
  chart : String
  /-- The chart's version or constraint. -/
  version : String := ""
  /-- Where the chart comes from. -/
  repo : String := ""
  deriving DecidableEq

/-- One install of a registry add-on. -/
structure AddOnInstance where
  /-- The add-on's registry id. -/
  id : String
  /-- The app version, "" when not known. -/
  version : String := ""
  /-- The Helm chart's version. -/
  chartVersion : String := ""
  /-- The namespaces it was found in. -/
  namespaces : List String := []
  /-- The strongest evidence: chart, image, gitops, labels or ingressclass. -/
  source : String := ""
  deriving DecidableEq

/-- One observed control-plane component version. -/
structure ComponentVersion where
  /-- The component. -/
  component : String
  /-- The raw image tag. -/
  version : String
  /-- The node a kube-proxy runs on. -/
  node : String := ""
  deriving DecidableEq

/-- One node. -/
structure NodeInfo where
  /-- The node's name. -/
  name : String
  /-- The raw kubelet version. -/
  kubeletVersion : String
  /-- The raw container runtime version, `runtime://version`. -/
  containerRuntime : String := ""
  deriving DecidableEq

/-- One namespace and the team that owns it. -/
structure NamespaceInfo where
  /-- The namespace. -/
  name : String
  /-- The value of its team label. -/
  team : String := ""
  deriving DecidableEq

/-- One entry of a CRD's `spec.versions`. -/
structure CRDVersion where
  /-- The version's name. -/
  name : String
  /-- Whether it is served. -/
  served : Bool
  /-- Whether it is the storage version. -/
  storage : Bool
  /-- Whether the CRD deprecates it. -/
  deprecated : Bool := false
  /-- The CRD author's words about the deprecation. -/
  deprecationWarning : String := ""
  deriving DecidableEq

/-- One CustomResourceDefinition. -/
structure CRD where
  /-- The group. -/
  group : String
  /-- The kind. -/
  kind : String
  /-- The plural resource name. -/
  plural : String
  /-- The versions it lists. -/
  versions : List CRDVersion
  /-- The versions objects may be stored at. -/
  storedVersions : List String := []
  /-- The custom resources at a deprecated, unserved or unlisted version. -/
  usage : List APIUsage := []

/-- `CRD.PreferredVersion`: the storage version when it is served and not deprecated, else the
highest-priority such version; "" when there is none. -/
def CRD.preferredVersion (X : External) (c : CRD) : String :=
  let usable := c.versions.filter fun v => v.served && !v.deprecated
  match usable.find? (·.storage) with
  | some v => v.name
  | none => usable.foldl (fun best v =>
      if best = "" ∨ X.compareKubeAware v.name best > 0 then v.name else best) ""

/-- One in-tree volume plugin in use. -/
structure VolumePluginUse where
  /-- The plugin's field name. -/
  plugin : String
  /-- How many objects name it. -/
  count : ℤ
  /-- How many in each namespace. -/
  namespaces : NamespaceCounts := ∅
  /-- The objects listed. -/
  objects : List ObjectRef := []
  /-- How many objects are not listed. -/
  objectsOmitted : ℤ := 0

/-- An inventory of a cluster or of a stream of manifests. -/
structure Inventory where
  /-- The schema of the inventory. -/
  schemaVersion : ℤ := 1
  /-- The cluster's identity. -/
  clusterID : String := ""
  /-- The generation of field meanings the collector filled it with, 0 for none. -/
  collectorSchema : ℤ := 0
  /-- Whether it was read from a cluster or from files. -/
  source : Source := .cluster
  /-- When it was collected. -/
  collectedAt : Time := 0
  /-- The raw version of the API server. -/
  serverVersion : String := ""
  /-- The managed provider; a newer collector may name others than eks, gke, aks and other. -/
  provider : String := ""
  /-- How each capability's collection went. -/
  capabilities : AList fun _ : Capability => CapabilityStatus := ∅
  /-- The objects at flagged APIs. -/
  apiUsage : List APIUsage := []
  /-- The deprecated APIs clients requested. -/
  deprecatedCalls : List DeprecatedCall := []
  /-- The Helm releases. -/
  helmReleases : List HelmRelease := []
  /-- The charts GitOps tools deploy. -/
  gitopsCharts : List GitOpsChart := []
  /-- The add-on installs. -/
  addOns : List AddOnInstance := []
  /-- The nodes. -/
  nodes : List NodeInfo := []
  /-- The control-plane components. -/
  controlPlane : List ComponentVersion := []
  /-- The namespaces with their teams. -/
  namespaces : List NamespaceInfo := []
  /-- The images no add-on matcher claims. -/
  unrecognizedImages : List String := []
  /-- How many such images are not listed. -/
  unrecognizedImagesOmitted : ℤ := 0
  /-- The CustomResourceDefinitions. -/
  crds : List CRD := []
  /-- The objects of a flagged kind nothing can be attributed to. -/
  apiAuthorshipUnknown : List APIUsage := []
  /-- When the kube-apiserver whose metrics were read started. -/
  apiServerStartTime : Time := 0
  /-- The offset of the zone its start is written in, in seconds east of UTC. -/
  apiServerStartZone : ℤ := 0
  /-- How old reused pod evidence was, in seconds. -/
  addOnEvidenceAgeSeconds : ℤ := 0
  /-- The in-tree volume plugins in use. -/
  volumePlugins : List VolumePluginUse := []

/-- A capability's status, the zero status when the inventory does not report it. -/
def Inventory.capability (inv : Inventory) (c : Capability) : CapabilityStatus :=
  (inv.capabilities.lookup c).getD { available := false }

end UpgradeScope
