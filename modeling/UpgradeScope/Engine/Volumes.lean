import UpgradeScope.Engine.Usage

/-!
# In-tree volume plugins

`internal/engine/volumes.go`: the in-tree volume plugins that pods, PersistentVolumes and StorageClasses
name, judged by the knowledge base's dataset (`evalVolumePlugins`).
-/

namespace UpgradeScope

open Go Sorting Kb

/-- `pluralVolumeObjects`. -/
def pluralVolumeObjects (n : ℤ) : String :=
  if n = 1 then "1 PersistentVolume or StorageClass" else s!"{n} PersistentVolumes or StorageClasses"

/-- The count of objects as a count of pods. -/
def pluralPods (n : ℤ) : String := replaceFirst (pluralObjects n) "object" "pod"

/-- `volumeObjectsListed`: what a row's objects are. -/
def volumeObjectsListed (src : Source) (refs : List ObjectRef) : ObjectsListed :=
  if src = .files then .manifest
  else match refs with
    | [] => .stored
    | r :: _ =>
      if r.line > 0 then .manifest
      else if refs.any (·.line > 0) then .mixed
      else .stored

/-- `deprecatedWhen`. -/
def deprecatedWhen (deprecated target : Version) : String :=
  if deprecated.gt target then "deprecated in " ++ deprecated.string
  else "deprecated since " ++ deprecated.string

/-- `pvSourcePlugins`: the plugins a PersistentVolume can name. -/
def pvSourcePlugins : List String :=
  ["awsElasticBlockStore", "azureDisk", "azureFile", "cephfs", "cinder", "csi", "fc", "flexVolume",
    "flocker", "gcePersistentDisk", "glusterfs", "hostPath", "iscsi", "local", "nfs",
    "photonPersistentDisk", "portworxVolume", "quobyte", "rbd", "scaleIO", "storageos", "vsphereVolume"]

namespace VolumePluginUse

/-- `refs`: the objects a row names, listed or not, at most the largest `int`. -/
def refs (u : VolumePluginUse) : ℤ :=
  u.objects.length + min (max u.objectsOmitted 0) (maxInt - u.objects.length)

/-- `unlisted`: what a row that names objects counts besides them. -/
def unlisted (u : VolumePluginUse) : ℤ := if 0 < u.refs then max 0 (u.count - u.refs) else 0

end VolumePluginUse

section Volumes

variable (k : KB) (target : Version)

/-- The dataset's entry of a plugin, the last of the name counting. -/
def volumePlugin (name : String) : Option VolumePlugin :=
  k.volumePlugins.reverse.find? (·.plugin = name)

/-- The severity, title and consequence of naming a plugin. -/
def volumeJudgement (p : VolumePlugin) (u : VolumePluginUse) (count : String) :
    Severity × String × String :=
  let classes := p.provisioner ≠ "" ∧ 0 < u.refs
  match p.lifecycle with
  | .removed removed deprecated =>
    let title := s!"In-tree volume plugin {u.plugin} removed in {removed} ({count})"
    let consequence := s!"From {removed} a pod that names it, or that mounts a claim bound to a PersistentVolume that does, does not start." ++
      if classes then
        s!" A StorageClass with provisioner {p.provisioner} has its new claims provisioned by the in-tree plugin, so from {removed} they are not provisioned."
      else ""
    if removed.le target then (.blocker, title, consequence)
    else if removed = target.next then (.warning, title, consequence)
    else
      (.info, match deprecated with
        | some d =>
          s!"In-tree volume plugin {u.plugin} {deprecatedWhen d target}, removed in {removed} ({count})"
        | none => title, consequence)
  | .csiMigration removed driver =>
    (if removed.le target then .warning else .info,
      s!"In-tree volume plugin {u.plugin} needs CSI driver {driver} from {removed} ({count})",
      s!"From {removed} the {driver} CSI driver serves every operation on these volumes: a cluster without it installed cannot mount them, one with it is fine." ++
        if classes then
          s!" A StorageClass with provisioner {p.provisioner} has its new claims provisioned by the in-tree plugin, so from {removed} by that CSI driver."
        else "")
  | .deprecated since =>
    (.info, s!"In-tree volume plugin {u.plugin} {deprecatedWhen since target} ({count})",
      "It still works; upstream has not scheduled its removal.")

/-- One turn of `evalVolumePlugins`. -/
def volumeFinding (src : Source) (nsInfo : List NamespaceInfo) (u : VolumePluginUse) : Option Finding :=
  if u.count ≤ 0 then none
  else (volumePlugin k u.plugin).map fun p =>
    let listed := volumeObjectsListed src u.objects
    let named := 0 < u.refs
    let count := if listed = .stored ∧ ¬ named then pluralPods u.count else pluralObjects u.count
    -- A cluster's row names its PersistentVolumes and StorageClasses, beside the pods it counts.
    let subject :=
      if listed = .stored ∧ named then
        (if 0 < u.unlisted then pluralPods u.unlisted ++ " and " else "") ++ pluralVolumeObjects u.refs
      else count
    let total := if listed = .stored ∧ named then u.unlisted + u.refs else u.count
    let (sev, title, consequence) := volumeJudgement target p u count
    let (places, names) := namespaceBreakdown u.namespaces listed.emptyNamespace
    let verb := if total = 1 then "names" else "name"
    { category := .volumePlugin
      severity := sev
      key := Category.volumePlugin.name ++ "/" ++ u.plugin
      title := title
      detail := s!"{subject} {verb} it, in: {places}. {consequence}" ++
        if p.note ≠ "" then " Upstream: " ++ p.note ++ "." else ""
      teams := teamsFor nsInfo names
      namespaces := names
      remediation := p.replacement
      citations := p.citations
      objects := sortedObjects u.objects
      objectsOmitted := wrap64 (u.objectsOmitted + u.unlisted) }

/-- `evalVolumePlugins`, before charging. -/
def evalVolumePlugins (inv : Inventory) : List Finding :=
  inv.volumePlugins.filterMap (volumeFinding k target inv.source inv.namespaces)

/-- `volumesPartialRequired`: an unread list may hide a plugin that blocks at the target. -/
def volumesPartialRequired (skipped : List String) : Bool :=
  let pvs := skippedPersistentVolumes ∈ skipped
  let classes := skippedStorageClasses ∈ skipped
  k.volumePlugins.any fun p =>
    match p.lifecycle with
    | .removed removed _ =>
      removed.le target && (pvs && p.plugin ∈ pvSourcePlugins || classes && p.provisioner ≠ "")
    | _ => false

end Volumes

end UpgradeScope
