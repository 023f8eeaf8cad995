import UpgradeScope.Collect.Repeated
import UpgradeScope.Collect.ApiUsage
import UpgradeScope.Collect.DiscoveryCache

/-!
# Reusing a pod pass

`internal/collect/podpass_cache.go` and `collectAddOnsFrom` of `addons.go`: an agent lists the pods outside kube-system
only every few collections, and detects add-ons in between from the evidence of the last full pass, joined with the
kube-system pods, the Helm releases, the GitOps charts and the IngressClasses of the collection. What the pass holds is
the evidence of its pods without repeats. In every run of collections a pass that is reused is complete, young enough
and of the same installs, and the add-ons and the volume plugins of a collection that reuses it are those of one that
lists the pods, where they are unchanged (`pass_reused`). A repeat of a labelled pod is told by its fields joined with
NUL characters, which an image can hold, so that two different pods of one text are taken for one and the second is
forgotten (`joined_pods_forgotten`).
-/

namespace UpgradeScope.PodPass

open Go Sorting Registry Repeats Collect

/-! ## What the API server answers -/

/-- `metav1.NamespaceSystem`. -/
def namespaceSystem : String := "kube-system"

/-- An error of a list. -/
structure ListError where
  /-- Its text. -/
  text : String
  /-- `apierrors.IsBadRequest`. -/
  badRequest : Bool := false
  /-- `apierrors.IsNotFound`. -/
  notFound : Bool := false

/-- What the pages of a list answer, up to the last or to the first that fails. -/
inductive Paged (α : Type) where
  /-- A page that fails. -/
  | failed (err : ListError)
  /-- The last page. -/
  | last (items : List α)
  /-- A page with more to come. -/
  | next (items : List α) (rest : Paged α)

namespace Paged

variable {α : Type}

/-- The items of the pages that were read. -/
def items : Paged α → List α
  | failed _ => []
  | last xs => xs
  | next xs rest => xs ++ rest.items

/-- The error of the page that failed. -/
def error? : Paged α → Option ListError
  | failed e => some e
  | last _ => none
  | next _ rest => rest.error?

/-- A page was read. -/
def read : Paged α → Bool
  | failed _ => false
  | _ => true

/-- A list without an error was read. -/
theorem read_of_complete : ∀ {p : Paged α}, p.error? = none → p.read = true
  | failed _, h => by simp [error?] at h
  | last _, _ => rfl
  | next _ _, _ => rfl

end Paged

/-- A pod, as far as it is read. -/
structure Pod where
  /-- The namespace. -/
  «namespace» : String
  /-- The labels. -/
  labels : AList fun _ : String => String := ∅
  /-- The images of the init containers. -/
  initContainers : List String := []
  /-- The images of the containers. -/
  containers : List String := []
  /-- The sources that are set in each volume, by their JSON names. -/
  volumes : List (List String) := []

/-- The pods of kube-system, as a list of that namespace answers. -/
def SystemPods : Type := { pods : List Pod // ∀ p ∈ pods, p.namespace = namespaceSystem }

/-- `corev1.PersistentVolume`, as far as it is read. -/
structure PersistentVolume where
  /-- The name. -/
  name : String
  /-- The annotations. -/
  annotations : AList fun _ : String => String := ∅
  /-- The namespace of the claim, where there is one. -/
  claim : Option String := none
  /-- `Status.Phase` is `Bound`. -/
  bound : Bool := false
  /-- The sources that are set, by their JSON names. -/
  sources : List String := []

/-- `storagev1.StorageClass`, as far as it is read. -/
structure StorageClass where
  /-- The name. -/
  name : String
  /-- The annotations. -/
  annotations : AList fun _ : String => String := ∅
  /-- The provisioner. -/
  provisioner : String := ""

/-! ## Volume plugins -/

/-- What the knowledge base knows of in-tree volume plugins. -/
structure Plugins where
  /-- `inTreePluginFields`: those a pod's volume can name. -/
  inTreePluginFields : List String
  /-- `pvPluginFields`: those a PersistentVolume can name. -/
  pvPluginFields : List String
  /-- `volumeProvisioners`: the plugin of an in-tree provisioner, "" for another. -/
  volumeProvisioners : String → String

/-- One user of a plugin, in its namespace, with its reference when it is listed. -/
structure VolumeUser where
  /-- The plugin. -/
  plugin : String
  /-- The namespace. -/
  «namespace» : String
  /-- The reference of an object. -/
  ref : Option ObjectRef := none

/-- `podVolumePlugins`. -/
def podVolumePlugins (V : Plugins) (vols : List (List String)) : List String :=
  sortedSet (vols.flatMap fun v => v.filter (· ∈ V.inTreePluginFields))

/-- `pvVolumePlugins`. -/
def pvVolumePlugins (V : Plugins) (sources : List String) : List String :=
  sortedSet (sources.filter (· ∈ V.pvPluginFields))

/-- `volumeTally`, as the users it has counted; the maps of the source hold how many there are of each. -/
abbrev VolumeTally := List VolumeUser

/-- `volumeTally.without`: the users outside a namespace. -/
def without (t : VolumeTally) (ns : String) : VolumeTally := t.filter (·.namespace ≠ ns)

/-- The row of a plugin. -/
def pluginRow (t : VolumeTally) (plugin : String) : VolumePluginUse :=
  let users := t.filter (·.plugin = plugin)
  let refs := users.filterMap (·.ref)
  { plugin := plugin
    count := users.length
    namespaces := ((sortedSet (users.map (·.namespace))).map fun ns =>
      (⟨ns, ((users.filter (·.namespace = ns)).length : ℤ)⟩ : Sigma fun _ : String => ℤ)).toAList
    objects := refs.take maxObjectRefs
    objectsOmitted := (refs.length - maxObjectRefs : ℕ) }

/-- `volumeTally.rows`: sorted by plugin. -/
def rows (t : VolumeTally) : List VolumePluginUse := (sortedSet (t.map (·.plugin))).map (pluginRow t)

/-- The users of a PersistentVolume's plugins. -/
def pvUsers (V : Plugins) (pv : PersistentVolume) : List VolumeUser :=
  (pvVolumePlugins V pv.sources).map fun p =>
    ⟨p, if pv.bound then pv.claim.getD "" else "", some (withIgnore { name := pv.name } pv.annotations)⟩

/-- The user that a StorageClass is of its plugin. -/
def classUsers (V : Plugins) (sc : StorageClass) : List VolumeUser :=
  if V.volumeProvisioners sc.provisioner = "" then []
  else [⟨V.volumeProvisioners sc.provisioner, "", some (withIgnore { name := sc.name } sc.annotations)⟩]

/-- `failed` of `listVolumeObjects`: the reason of a list that failed and what it skipped. -/
def volumeFailure {α : Type} (resource kind skipped : String) (p : Paged α) : List (String × String) :=
  match p.error? with
  | none => []
  | some e =>
    let what := if p.read then "only the " ++ kind ++ " listed before the failure were checked"
      else kind ++ " were not checked"
    [("list " ++ resource ++ ": " ++ e.text ++ "; " ++ what, skipped)]

/-! ## Evidence of pods -/

/-- `podContainerImages`. -/
def podContainerImages (p : Pod) : List String := p.initContainers ++ p.containers

/-- `appLabelsOf`. -/
def appLabelsOf (labels : AList fun _ : String => String) : AppLabels where
  chart := (labels.lookup "helm.sh/chart").getD ""
  name := (labels.lookup "app.kubernetes.io/name").getD ""
  version := (labels.lookup "app.kubernetes.io/version").getD ""
  partOf := (labels.lookup "app.kubernetes.io/part-of").getD ""

/-- `addOnEvidence`, as far as it is of pods. -/
structure PodEvidence where
  /-- Every container's image. -/
  images : List NsImage := []
  /-- The pods with labels. -/
  labelled : List LabelledPod := []
  /-- The users of volume plugins. -/
  volumes : VolumeTally := []

/-- The images of a pod. -/
def Pod.nsImages (p : Pod) : List NsImage := (podContainerImages p).map fun image => ⟨p.namespace, image⟩

/-- The pod with its labels, where they could name an add-on. -/
def Pod.labelled (p : Pod) : List LabelledPod :=
  if appLabelsOf p.labels = {} then [] else [⟨p.namespace, appLabelsOf p.labels, podContainerImages p⟩]

/-- The users of volume plugins that a pod is. -/
def Pod.users (V : Plugins) (p : Pod) : VolumeTally :=
  (podVolumePlugins V p.volumes).map fun plugin => { plugin := plugin, «namespace» := p.namespace }

/-- `addOnEvidence.addPod`, and `volumeTally.addPod`. -/
def PodEvidence.addPod (V : Plugins) (ev : PodEvidence) (p : Pod) : PodEvidence where
  images := ev.images ++ p.nsImages
  labelled := ev.labelled ++ p.labelled
  volumes := ev.volumes ++ p.users V

/-! ## The cache -/

/-- The pass that a cache holds. -/
structure Pass where
  /-- When it began. -/
  began : ℤ
  /-- The collections that reused it. -/
  since : ℤ := 0
  /-- The signature of the installs it was taken with. -/
  sig : String
  /-- The images outside kube-system. -/
  images : List NsImage
  /-- The labelled pods outside kube-system. -/
  labels : List LabelledPod
  /-- The users of volume plugins outside kube-system. -/
  volumes : VolumeTally

/-- `PodPassCache`. -/
structure PodPassCache where
  /-- How many collections one pass serves, the first included. -/
  every : ℤ
  /-- The age from which it serves none, in nanoseconds; no limit when it is not positive. -/
  maxAge : ℤ
  /-- `have`, with what is held. -/
  held : Option Pass := none

/-- `time.Second`. -/
def second : ℤ := 1000000000

namespace PodPassCache

/-- `PodPassCache.enabled`. -/
def enabled (c : PodPassCache) : Bool := 1 < c.every

/-- `PodPassCache.reuse`: the pass, its age in seconds, and the cache that counts the reuse. -/
def reuse (c : PodPassCache) (sig : String) (now : ℤ) : Option (Pass × ℤ × PodPassCache) :=
  match c.held with
  | none => none
  | some pass =>
    let age := now - pass.began
    if ¬ c.enabled ∨ sig ≠ pass.sig then none
    else if pass.since + 1 ≥ c.every ∨ c.maxAge > 0 ∧ age ≥ c.maxAge then none
    else some (pass, max 1 (age.tdiv second), { c with held := some { pass with since := pass.since + 1 } })

/-- `PodPassCache.forget`. -/
def forget (c : PodPassCache) : PodPassCache := { c with held := none }

/-- What tells a labelled pod from another. -/
def podFields (p : LabelledPod) : List String :=
  [p.namespace, p.labels.chart, p.labels.name, p.labels.version, p.labels.partOf] ++ p.images

/-- The text of a labelled pod. -/
def podKey (p : LabelledPod) : String := join (podFields p) "\x00"

/-- `PodPassCache.record`. -/
def record (c : PodPassCache) (ev : PodEvidence) (start : ℤ) (sig : String) : PodPassCache :=
  if ¬ c.enabled then c
  else { c.forget with held := some {
    began := start
    sig := sig
    images := distinctOn id (ev.images.filter (·.namespace ≠ namespaceSystem))
    labels := distinctOn podKey (ev.labelled.filter (·.namespace ≠ namespaceSystem))
    volumes := without ev.volumes namespaceSystem } }

end PodPassCache

/-- `installSignature`: the releases and charts of add-ons, digested. -/
def installSignature (sha256 : String → Vector UInt8 32) (releases : List HelmRelease) (gitops : List GitOpsChart)
    (addons : List AddOn) : String :=
  let names := fun chart => addons.any fun a => chart ∈ a.matchers.charts
  let lines := ((releases.filter fun r => names r.chartName).map fun r =>
      join ["helm", r.namespace, r.name, r.chartName, r.chartVersion, r.appVersion, r.status, toString r.revision]
        "\x00") ++
    (gitops.filter fun g => names g.chart).map fun g =>
      join ["gitops", g.tool, g.namespace, g.name, g.target, g.chart, g.version, g.repo] "\x00"
  if lines = [] then ""
  else String.ofList ((sha256 (join (sorted lines) "\n")).toList.flatMap DiscoveryCache.hexByte)

/-! ## A collection -/

/-- What the add-ons step of a collection finds: what the steps before it left and what the server answers it. -/
structure Collection where
  /-- The registry's add-ons. -/
  addons : List AddOn
  /-- The Helm releases. -/
  releases : List HelmRelease := []
  /-- The GitOps charts. -/
  gitops : List GitOpsChart := []
  /-- The helm capability is available. -/
  helmAvailable : Bool := true
  /-- The pods of kube-system, where the versions step listed them. -/
  sysPods : Option SystemPods
  /-- The clock when the cache is asked. -/
  now : ℤ
  /-- The clock when the pods would be listed. -/
  start : ℤ
  /-- The pods outside kube-system, by a field selector. -/
  selected : Paged Pod
  /-- The pods of all namespaces. -/
  unselected : Paged Pod
  /-- The controllers of the IngressClasses. -/
  classes : Paged String := .last []
  /-- The PersistentVolumes. -/
  persistentVolumes : Paged PersistentVolume := .last []
  /-- The StorageClasses. -/
  storageClasses : Paged StorageClass := .last []

/-- What the add-ons step leaves in the inventory and returns. -/
structure Outcome where
  /-- `AddOns`. -/
  addOns : List AddOnInstance
  /-- `UnrecognizedImages`. -/
  unrecognizedImages : List String
  /-- `UnrecognizedImagesOmitted`. -/
  unrecognizedImagesOmitted : ℕ
  /-- `AddOnEvidenceAgeSeconds`. -/
  ageSeconds : ℤ
  /-- `VolumePlugins`. -/
  volumePlugins : List VolumePluginUse
  /-- The status of the volumes capability. -/
  volumes : CapabilityStatus
  /-- The error. -/
  err : Option CollectError

/-- Two collections report the same add-ons and volume plugins. -/
def Outcome.SameFindings (a b : Outcome) : Prop := a.addOns = b.addOns ∧ a.volumePlugins = b.volumePlugins

namespace Collection

variable (V : Plugins) (I : Collection)

/-- The evidence of the kube-system pods that the versions step listed. -/
def systemEvidence : PodEvidence := (I.sysPods.elim [] (·.val)).foldl (PodEvidence.addPod V) {}

/-- The answer to the list of pods. A server that refuses the field selector is asked without it. -/
def answer : Paged Pod :=
  if I.sysPods.isNone then I.unselected
  else match I.selected with
    | .failed e => if e.badRequest then I.unselected else .failed e
    | p => p

/-- The pods that a collection reads of a page: those of kube-system only where the versions step did not list them. -/
def pods : List Pod := I.answer.items.filter fun p => I.sysPods.isNone || p.namespace ≠ namespaceSystem

/-- The evidence of a list of pods; none where its first page failed. -/
def listedEvidence : PodEvidence :=
  if I.answer.read then I.pods.foldl (PodEvidence.addPod V) (I.systemEvidence V) else {}

/-- `sig`. -/
def signature (sha256 : String → Vector UInt8 32) : String := installSignature sha256 I.releases I.gitops I.addons

/-- What the cache gives to reuse. -/
def reused (sha256 : String → Vector UInt8 32) (cache : Option PodPassCache) : Option (Pass × ℤ × PodPassCache) :=
  if I.sysPods.isNone then none else cache.bind fun c => c.reuse (I.signature sha256) I.now

/-- The evidence of a pass that is reused, joined with that of the kube-system pods. -/
def reusedEvidence (pass : Pass) : PodEvidence where
  images := (I.systemEvidence V).images ++ pass.images
  labelled := (I.systemEvidence V).labelled ++ pass.labels
  volumes := (I.systemEvidence V).volumes ++ pass.volumes

/-- The evidence that detection reads. -/
def evidence (ev : PodEvidence) : AddOnEvidence where
  images := ev.images
  labelled := ev.labelled
  releases := I.releases
  gitops := I.gitops
  ingressControllers := I.classes.items

/-- `listVolumeObjects`: the users of the volume objects, and what failed. -/
def volumeObjects : VolumeTally × List (String × String) :=
  (I.persistentVolumes.items.flatMap (pvUsers V) ++ I.storageClasses.items.flatMap (classUsers V),
    volumeFailure "persistentvolumes" "PersistentVolumes" skippedPersistentVolumes I.persistentVolumes ++
      volumeFailure "storageclasses" "StorageClasses" skippedStorageClasses I.storageClasses)

/-- `setLiveVolumes`: the rows and the status of the volumes capability. -/
def liveVolumes (ev : PodEvidence) (podErr : Option ListError) (podsRead : Bool) :
    List VolumePluginUse × CapabilityStatus :=
  match podErr, podsRead with
  | some e, false => ([], { available := false, reason := "list pods: " ++ e.text })
  | podErr, _ =>
    let (users, failed) := I.volumeObjects V
    let pods := podErr.elim "" fun e =>
      "list pods: " ++ e.text ++ "; volume plugins were read from the pods listed before the failure only"
    let reason := join ((pods :: failed.map (·.1)).filter (· ≠ "")) "; "
    let skipped := (if podErr.isSome then [skippedPods] else []) ++ failed.map (·.2)
    (rows (ev.volumes ++ users),
      { available := true, reason := reason, partly := reason ≠ ""
        skipped := if failed = [] then skipped else sorted skipped })

/-- The error that the step returns. -/
def report (podErr : Option ListError) : Option CollectError :=
  let classErr := I.classes.error?.filter fun e => !e.notFound
  let failures := (podErr.elim [] fun e => ["list pods: " ++ e.text]) ++
    classErr.elim [] fun e => ["list ingressclasses: " ++ e.text]
  let skipped := (podErr.elim [] fun _ => [skippedPods]) ++
    classErr.elim [] fun _ => ["networking.k8s.io/v1 ingressclasses"]
  let readFrom := (if podErr.isNone then ["pods"] else []) ++
    (if I.releases ≠ [] ∨ I.helmAvailable then ["Helm releases"] else []) ++
    (if I.gitops ≠ [] then ["GitOps chart sources"] else []) ++
    if I.classes.read then ["IngressClasses"] else []
  let msg := join failures "; " ++ "; add-ons were detected from " ++ join readFrom " and " ++ " only"
  let partly := some (.partially msg (sorted skipped))
  match podErr with
  | some e =>
    -- Nothing was read: the capability is not assessed, not partial.
    if I.releases = [] ∧ I.gitops = [] ∧ ¬ I.classes.read then some (.full ("list pods: " ++ e.text)) else partly
  | none => if failures = [] then none else partly

/-- What the step finds in evidence of pods of some age. -/
def outcome (X : External) (S : Semver) (ev : PodEvidence) (age : ℤ) (podErr : Option ListError) (podsRead : Bool) :
    Outcome :=
  let (found, unrec) := matchAddOns X S I.addons (I.evidence ev)
  let (plugins, status) := I.liveVolumes V ev podErr podsRead
  { addOns := found
    unrecognizedImages := unrec.take maxUnrecognizedImages
    unrecognizedImagesOmitted := unrec.length - maxUnrecognizedImages
    ageSeconds := age
    volumePlugins := plugins
    volumes := status
    err := I.report podErr }

/-- `collectAddOnsFrom`, with the cache for the next collection. -/
def collectAddOnsFrom (X : External) (S : Semver) (sha256 : String → Vector UInt8 32) (cache : Option PodPassCache) :
    Outcome × Option PodPassCache :=
  match I.reused sha256 cache with
  | some (pass, age, counted) => (I.outcome V X S (I.reusedEvidence V pass) age none false, some counted)
  | none =>
    -- The held pass is dropped before the pods are listed, whatever the list does.
    let cache := cache.map (·.forget)
    let ev := I.listedEvidence V
    (I.outcome V X S ev 0 I.answer.error? I.answer.read,
      if I.answer.error?.isNone then cache.map fun c => c.record ev I.start (I.signature sha256)
      else cache.map (·.forget))

end Collection

/-! ## The evidence of lists of pods -/

section Evidence

variable {V : Plugins} {I J : Collection}

/-- Evidence of some pods and of others. -/
instance : Append PodEvidence where
  append a b := ⟨a.images ++ b.images, a.labelled ++ b.labelled, a.volumes ++ b.volumes⟩

/-- The evidence of some pods. -/
def evidenceOfPods (V : Plugins) (pods : List Pod) : PodEvidence where
  images := pods.flatMap Pod.nsImages
  labelled := pods.flatMap Pod.labelled
  volumes := pods.flatMap (Pod.users V)

/-- The evidence outside kube-system. -/
def PodEvidence.outside (ev : PodEvidence) : PodEvidence where
  images := ev.images.filter (·.namespace ≠ namespaceSystem)
  labelled := ev.labelled.filter (·.namespace ≠ namespaceSystem)
  volumes := without ev.volumes namespaceSystem

/-- The loop over pods adds what each one shows. -/
theorem foldl_addPod (pods : List Pod) (ev : PodEvidence) :
    pods.foldl (PodEvidence.addPod V) ev = ev ++ evidenceOfPods V pods := by
  have hparts : pods.foldl (PodEvidence.addPod V) ev =
      ⟨ev.images ++ pods.flatMap Pod.nsImages, ev.labelled ++ pods.flatMap Pod.labelled,
        ev.volumes ++ pods.flatMap (Pod.users V)⟩ := by
    induction pods generalizing ev with
    | nil => simp
    | cons p pods ih =>
      rw [List.foldl_cons, ih]
      simp [PodEvidence.addPod]
  exact hparts

/-- A pod's images are of its namespace. -/
theorem Pod.namespace_of_image {p : Pod} {i : NsImage} (h : i ∈ p.nsImages) : i.namespace = p.namespace := by
  obtain ⟨image, -, rfl⟩ := List.mem_map.mp h
  rfl

/-- A labelled pod is of its namespace. -/
theorem Pod.namespace_of_labelled {p : Pod} {l : LabelledPod} (h : l ∈ p.labelled) : l.namespace = p.namespace := by
  unfold Pod.labelled at h
  split_ifs at h
  · simp at h
  · rw [List.mem_singleton.mp h]

/-- A user of a plugin is of its pod's namespace. -/
theorem Pod.namespace_of_user {p : Pod} {u : VolumeUser} (h : u ∈ p.users V) : u.namespace = p.namespace := by
  obtain ⟨plugin, -, rfl⟩ := List.mem_map.mp h
  rfl

/-- The evidence outside kube-system is that of the pods outside. -/
theorem outside_evidenceOfPods (pods : List Pod) :
    (evidenceOfPods V pods).outside = evidenceOfPods V (pods.filter (·.namespace ≠ namespaceSystem)) := by
  unfold evidenceOfPods PodEvidence.outside without
  rw [filter_flatMap_of_kind (fun p i hi => by rw [p.namespace_of_image hi]) pods,
    filter_flatMap_of_kind (fun p l hl => by rw [p.namespace_of_labelled hl]) pods,
    filter_flatMap_of_kind (fun p u hu => by rw [p.namespace_of_user hu]) pods]

/-- The evidence outside kube-system of evidence and more. -/
theorem outside_append (a b : PodEvidence) : (a ++ b).outside = a.outside ++ b.outside := by
  have hparts : (⟨a.images ++ b.images, a.labelled ++ b.labelled, a.volumes ++ b.volumes⟩ : PodEvidence).outside =
      ⟨a.outside.images ++ b.outside.images, a.outside.labelled ++ b.outside.labelled,
        a.outside.volumes ++ b.outside.volumes⟩ := by
    simp [PodEvidence.outside, without]
  exact hparts

/-- The evidence of the kube-system pods is none of the others'. -/
theorem Collection.outside_systemEvidence : (I.systemEvidence V).outside = {} := by
  unfold systemEvidence
  rw [foldl_addPod, outside_append, outside_evidenceOfPods]
  have hnone : (I.sysPods.elim [] (·.val)).filter (fun p => p.namespace ≠ namespaceSystem) = [] := by
    refine List.filter_eq_nil_iff.mpr fun p hp => ?_
    cases hsys : I.sysPods with
    | none => simp [hsys] at hp
    | some sys =>
      rw [hsys] at hp
      simp [sys.2 p hp]
  rw [hnone]
  rfl

/-- The pods outside kube-system that the list of pods answers. -/
def Collection.outside (I : Collection) : List Pod := I.answer.items.filter (·.namespace ≠ namespaceSystem)

/-- The evidence of a complete list of pods is that of all of them. -/
theorem Collection.listedEvidence_eq (h : I.answer.error? = none) :
    I.listedEvidence V = I.systemEvidence V ++ evidenceOfPods V I.pods := by
  unfold listedEvidence
  rw [if_pos (Paged.read_of_complete h), foldl_addPod]

/-- What a complete list shows outside kube-system. -/
theorem Collection.outside_listedEvidence (h : I.answer.error? = none) :
    (I.listedEvidence V).outside = evidenceOfPods V I.outside := by
  have hpods : I.pods.filter (fun p => p.namespace ≠ namespaceSystem) = I.outside := by
    unfold pods outside
    rw [List.filter_filter]
    refine List.filter_congr fun p _ => ?_
    cases decide (p.namespace ≠ namespaceSystem) <;> simp
  rw [listedEvidence_eq h, outside_append, outside_systemEvidence, outside_evidenceOfPods, hpods]
  rfl

/-- The pods that are read are those outside kube-system, where the versions step listed the others. -/
theorem Collection.pods_eq (h : I.sysPods.isSome) : I.pods = I.outside := by
  unfold pods outside
  refine List.filter_congr fun p _ => ?_
  simp [Option.isNone_eq_false_iff.mpr h]

end Evidence

/-! ## A pass and a list of its pods -/

section Equivalent

variable {V : Plugins} {I J : Collection} {X : External} {S : Semver} {sha256 : String → Vector UInt8 32} {pass : Pass}
  {n : ℤ}

/-- The pass that a complete list leaves, after some reuses. -/
def Collection.fullPass (V : Plugins) (sha256 : String → Vector UInt8 32) (J : Collection) (since : ℤ) : Pass where
  began := J.start
  since := since
  sig := J.signature sha256
  images := distinctOn id (J.listedEvidence V).outside.images
  labels := distinctOn PodPassCache.podKey (J.listedEvidence V).outside.labelled
  volumes := (J.listedEvidence V).outside.volumes

/-- Different labelled pods outside kube-system have different texts. -/
def Collection.KeysApart (V : Plugins) (J : Collection) : Prop :=
  ∀ p ∈ (J.listedEvidence V).outside.labelled, ∀ q ∈ (J.listedEvidence V).outside.labelled,
    PodPassCache.podKey p = PodPassCache.podKey q → p = q

/-- Pods without NUL characters have texts of their own. -/
theorem Collection.keysApart_of_notMem
    (h : ∀ p ∈ (J.listedEvidence V).outside.labelled, ∀ s ∈ PodPassCache.podFields p, '\x00' ∉ s.toList) :
    J.KeysApart V := by
  have hfields : ∀ p ∈ (J.listedEvidence V).outside.labelled,
      split (PodPassCache.podKey p) '\x00' = PodPassCache.podFields p := fun p hp => by
    have hparts : (['\x00'].intercalate ((PodPassCache.podFields p).map String.toList)).splitOn '\x00' =
        (PodPassCache.podFields p).map String.toList := by
      refine List.splitOn_intercalate _ (fun l hl => ?_) (by simp [PodPassCache.podFields])
      obtain ⟨s, hs, rfl⟩ := List.mem_map.mp hl
      exact h p hp s hs
    have hsep : "\x00".toList = ['\x00'] := rfl
    unfold split PodPassCache.podKey join
    rw [String.toList_intercalate, hsep, hparts]
    simp
  intro p hp q hq heq
  have hsame : PodPassCache.podFields p = PodPassCache.podFields q := by rw [← hfields p hp, ← hfields q hq, heq]
  obtain ⟨ns, ⟨chart, name, version, partOf⟩, images⟩ := p
  obtain ⟨ns', ⟨chart', name', version', partOf'⟩, images'⟩ := q
  simpa [PodPassCache.podFields, and_assoc] using hsame

/-- The evidence of a collection that reuses a pass is that of one that lists the same pods, without repeats. -/
theorem Collection.trims_reusedEvidence (hI : I.answer.error? = none) (hJ : J.answer.error? = none)
    (hsys : I.sysPods.isSome) (hsame : I.outside = J.outside) (hkeys : J.KeysApart V)
    (hpass : pass = J.fullPass V sha256 n) :
    (I.evidence (I.listedEvidence V)).TrimsTo (I.evidence (I.reusedEvidence V pass)) where
  images := by
    have hlisted : (I.listedEvidence V).images = (I.systemEvidence V).images ++ (J.listedEvidence V).outside.images := by
      rw [listedEvidence_eq hI, pods_eq hsys, hsame, outside_listedEvidence hJ]
      rfl
    have hfirst : Trims (J.listedEvidence V).outside.images (distinctOn id (J.listedEvidence V).outside.images) :=
      trims_distinctOn fun _ _ _ _ heq => heq
    unfold evidence reusedEvidence
    rw [hlisted, hpass]
    exact (Trims.refl _).append hfirst
  labelled := by
    have hlisted : (I.listedEvidence V).labelled =
        (I.systemEvidence V).labelled ++ (J.listedEvidence V).outside.labelled := by
      rw [listedEvidence_eq hI, pods_eq hsys, hsame, outside_listedEvidence hJ]
      rfl
    unfold evidence reusedEvidence
    rw [hlisted, hpass]
    exact (Trims.refl _).append (trims_distinctOn hkeys)
  releases := rfl
  gitops := rfl
  ingressControllers := rfl

/-- The users of volume plugins are the same. -/
theorem Collection.volumes_reusedEvidence (hI : I.answer.error? = none) (hJ : J.answer.error? = none)
    (hsys : I.sysPods.isSome) (hsame : I.outside = J.outside) (hpass : pass = J.fullPass V sha256 n) :
    (I.reusedEvidence V pass).volumes = (I.listedEvidence V).volumes := by
  unfold reusedEvidence
  rw [hpass, listedEvidence_eq hI, pods_eq hsys, hsame]
  unfold fullPass
  rw [outside_listedEvidence hJ]
  rfl

/-- A collection without a cache lists the pods. -/
theorem Collection.collect_without_cache : (I.collectAddOnsFrom V X S sha256 none).1 =
    I.outcome V X S (I.listedEvidence V) 0 I.answer.error? I.answer.read := by
  have hnone : I.reused sha256 none = none := by
    unfold reused
    split_ifs <;> rfl
  unfold collectAddOnsFrom
  rw [hnone]

/-- What a collection that reuses a pass reports. -/
theorem Collection.collect_reused {cache : Option PodPassCache} {age : ℤ} {counted : PodPassCache}
    (h : I.reused sha256 cache = some (pass, age, counted)) : I.collectAddOnsFrom V X S sha256 cache =
      (I.outcome V X S (I.reusedEvidence V pass) age none false, some counted) := by
  unfold collectAddOnsFrom
  rw [h]

/-- The add-ons and the volume plugins of a pass are those of a list of the same pods. -/
theorem Collection.outcome_reused (hS : S.Lawful) (hI : I.answer.error? = none) (hJ : J.answer.error? = none)
    (hsys : I.sysPods.isSome) (hsame : I.outside = J.outside) (hkeys : J.KeysApart V)
    (hparse : VersionsParse X S I.addons (I.evidence (I.listedEvidence V)))
    (hpass : pass = J.fullPass V sha256 n) (age : ℤ) :
    (I.outcome V X S (I.reusedEvidence V pass) age none false).SameFindings
      (I.collectAddOnsFrom V X S sha256 none).1 := by
  have hfound := matchAddOns_trims hS (trims_reusedEvidence hI hJ hsys hsame hkeys hpass) hparse
  have hvolumes := volumes_reusedEvidence hI hJ hsys hsame hpass
  rw [collect_without_cache, hI]
  constructor
  · unfold outcome
    rw [hfound]
  · unfold outcome liveVolumes
    dsimp only
    rw [hvolumes]

end Equivalent

/-! ## Runs of collections -/

section Runs

variable (V : Plugins) (X : External) (S : Semver) (sha256 : String → Vector UInt8 32)

/-- `NewPodPassCache`. -/
def newPodPassCache (every maxAge : ℤ) : PodPassCache := { every := every, maxAge := maxAge }

/-- The cache after some collections. -/
def after (cache : Option PodPassCache) (Is : List Collection) : Option PodPassCache :=
  Is.foldl (fun cache I => (I.collectAddOnsFrom V X S sha256 cache).2) cache

/-- A collection reuses a pass after some others. -/
def Reuses (cache : Option PodPassCache) (before : List Collection) (I : Collection) : Prop :=
  (I.reused sha256 (after V X S sha256 cache before)).isSome

instance (cache : Option PodPassCache) (before : List Collection) (I : Collection) :
    Decidable (Reuses V X S sha256 cache before I) := inferInstanceAs (Decidable (_ = true))

/-- A pass that was held since the collection `J`, which listed every pod, and reused in all those after it. -/
structure HeldSince (cache : Option PodPassCache) (earlier : List Collection) (J : Collection) (between : List Collection)
    (pass : Pass) : Prop where
  /-- The collection listed the pods. -/
  listed : ¬ Reuses V X S sha256 cache earlier J
  /-- It read all of them. -/
  complete : J.answer.error? = none
  /-- Those after it reused the pass. -/
  reused : ∀ mid K later, between = mid ++ K :: later → Reuses V X S sha256 cache (earlier ++ J :: mid) K
  /-- The pass is what its list left, with the reuses counted. -/
  pass_eq : pass = J.fullPass V sha256 between.length

/-- The cache after some collections: its limits, and the pass it holds. -/
structure Sound (cache : PodPassCache) (before : List Collection) (c : PodPassCache) : Prop where
  /-- How many collections a pass serves. -/
  every : c.every = cache.every
  /-- The age from which it serves none. -/
  maxAge : c.maxAge = cache.maxAge
  /-- The pass was held since one of the collections. -/
  held : ∀ pass, c.held = some pass → ∃ earlier J between, before = earlier ++ J :: between ∧
    HeldSince V X S sha256 (some cache) earlier J between pass

variable {V X S sha256} {cache : PodPassCache} {before : List Collection} {I : Collection} {c : PodPassCache}

/-- The cache after one more collection. -/
theorem after_concat (cache : Option PodPassCache) : after V X S sha256 cache (before ++ [I]) =
    (I.collectAddOnsFrom V X S sha256 (after V X S sha256 cache before)).2 := by
  unfold after
  rw [List.foldl_append]
  rfl

/-- A pass is reused for its own signature only, while it is young and was not reused too often, and the reuse is counted. -/
theorem reuse_eq_some {sig : String} {now age : ℤ} {pass : Pass} {counted : PodPassCache}
    (h : c.reuse sig now = some (pass, age, counted)) :
    c.held = some pass ∧ sig = pass.sig ∧ pass.since + 1 < c.every ∧ (0 < c.maxAge → now - pass.began < c.maxAge) ∧
      counted = { c with held := some { pass with since := pass.since + 1 } } := by
  unfold PodPassCache.reuse at h
  split at h
  · simp at h
  · rename_i held hheld
    dsimp only at h
    split_ifs at h with hsig hold
    simp only [Option.some.injEq, Prod.mk.injEq] at h
    obtain ⟨rfl, -, rfl⟩ := h
    push Not at hsig hold
    exact ⟨hheld, hsig.2, hold.1, hold.2, rfl⟩

/-- What a collection reuses is held by the cache. -/
theorem reused_eq_some {cache : Option PodPassCache} {r : Pass × ℤ × PodPassCache} (h : I.reused sha256 cache = some r) :
    I.sysPods.isSome ∧ ∃ c, cache = some c ∧ c.reuse (I.signature sha256) I.now = some r := by
  unfold Collection.reused at h
  split_ifs at h with hsys
  have hread : I.sysPods ≠ none := fun hnone => hsys (Option.isNone_iff_eq_none.mpr hnone)
  exact ⟨Option.isSome_iff_ne_none.mpr hread, Option.bind_eq_some_iff.mp h⟩

/-- A new cache holds nothing. -/
theorem Sound.start (hnew : cache.held = none) : Sound V X S sha256 cache [] cache :=
  ⟨rfl, rfl, fun pass h => by simp [hnew] at h⟩

/-- A collection that reuses the pass is one more after its list. -/
theorem HeldSince.reuse {cache : Option PodPassCache} {earlier between : List Collection} {J : Collection} {pass : Pass}
    (h : HeldSince V X S sha256 cache earlier J between pass)
    (hreuse : Reuses V X S sha256 cache (earlier ++ J :: between) I) :
    HeldSince V X S sha256 cache earlier J (between ++ [I]) { pass with since := pass.since + 1 } where
  listed := h.listed
  complete := h.complete
  reused := by
    intro mid K later hmid
    rcases List.eq_nil_or_concat later with rfl | ⟨later, last, rfl⟩
    · obtain ⟨rfl, hK⟩ := List.append_inj' hmid rfl
      obtain rfl : I = K := List.singleton_inj.mp hK
      exact hreuse
    · rw [List.concat_eq_append, ← List.cons_append, ← List.append_assoc] at hmid
      exact h.reused mid K later (List.append_inj' hmid rfl).1
  pass_eq := by
    rw [h.pass_eq, List.length_append]
    push_cast
    rfl

/-- One more collection: it reuses the pass, or leaves its own where it listed every pod, or none. -/
theorem Sound.collect (h : Sound V X S sha256 cache before c)
    (hafter : after V X S sha256 (some cache) before = some c) :
    ∃ c', (I.collectAddOnsFrom V X S sha256 (some c)).2 = some c' ∧ Sound V X S sha256 cache (before ++ [I]) c' := by
  cases hr : I.reused sha256 (some c) with
  | some r =>
    obtain ⟨pass, age, counted⟩ := r
    obtain ⟨-, c', hc', hreuse⟩ := reused_eq_some hr
    obtain rfl : c = c' := Option.some.inj hc'
    obtain ⟨hheld, -, -, -, hcounted⟩ := reuse_eq_some hreuse
    refine ⟨counted, by rw [Collection.collect_reused hr], ?_⟩
    rw [hcounted]
    refine ⟨h.every, h.maxAge, fun pass' hpass' => ?_⟩
    obtain rfl := Option.some.inj hpass'
    obtain ⟨earlier, J, between, hsplit, hsince⟩ := h.held pass hheld
    refine ⟨earlier, J, between ++ [I], by simp [hsplit], hsince.reuse ?_⟩
    unfold Reuses
    rw [← hsplit, hafter, hr]
    rfl
  | none =>
    have hlisted : ¬ Reuses V X S sha256 (some cache) before I := by
      unfold Reuses
      rw [hafter, hr]
      simp
    unfold Collection.collectAddOnsFrom
    rw [hr]
    dsimp only
    -- A listing that is not complete leaves no pass.
    split_ifs with hcomplete
    · refine ⟨c.forget.record (I.listedEvidence V) I.start (I.signature sha256), rfl, ?_⟩
      unfold PodPassCache.record
      split_ifs with henabled
      · refine ⟨h.every, h.maxAge, fun pass hpass => ?_⟩
        obtain rfl := Option.some.inj hpass
        exact ⟨before, I, [], rfl, hlisted, Option.isNone_iff_eq_none.mp hcomplete, by simp, rfl⟩
      · exact ⟨h.every, h.maxAge, fun pass hpass => by simp [PodPassCache.forget] at hpass⟩
    · exact ⟨c.forget.forget, rfl, h.every, h.maxAge, fun pass hpass => by simp [PodPassCache.forget] at hpass⟩

/-- The cache after every run of collections. -/
theorem sound_after (hnew : cache.held = none) (before : List Collection) :
    ∃ c, after V X S sha256 (some cache) before = some c ∧ Sound V X S sha256 cache before c := by
  induction before using List.reverseRecOn with
  | nil => exact ⟨cache, rfl, .start hnew⟩
  | append_singleton before I ih =>
    obtain ⟨c, hafter, hc⟩ := ih
    rw [after_concat, hafter]
    exact hc.collect hafter

/-- A pass that is reused is complete and fresh, and a collection that reuses it reports the add-ons and the volume
plugins of one that lists the same pods, where different pods of a list have different texts. -/
theorem pass_reused (hS : S.Lawful) {every maxAge : ℤ} (hkeys : ∀ J ∈ before, J.KeysApart V)
    (hreuse : Reuses V X S sha256 (some (newPodPassCache every maxAge)) before I) :
    ∃ earlier J between, before = earlier ++ J :: between ∧
      ¬ Reuses V X S sha256 (some (newPodPassCache every maxAge)) earlier J ∧ J.answer.error? = none ∧
      (∀ mid K later, between = mid ++ K :: later →
        Reuses V X S sha256 (some (newPodPassCache every maxAge)) (earlier ++ J :: mid) K) ∧
      (between.length + 1 : ℤ) ≤ every - 1 ∧ (0 < maxAge → I.now - J.start < maxAge) ∧
      I.signature sha256 = J.signature sha256 ∧
      (I.answer.error? = none → I.outside = J.outside →
        VersionsParse X S I.addons (I.evidence (I.listedEvidence V)) →
        (I.collectAddOnsFrom V X S sha256
          (after V X S sha256 (some (newPodPassCache every maxAge)) before)).1.SameFindings
          (I.collectAddOnsFrom V X S sha256 none).1) := by
  have hrun : ∃ c, after V X S sha256 (some (newPodPassCache every maxAge)) before = some c ∧
      Sound V X S sha256 (newPodPassCache every maxAge) before c := sound_after rfl before
  obtain ⟨c, hafter, hc⟩ := hrun
  obtain ⟨⟨pass, age, counted⟩, hr⟩ := Option.isSome_iff_exists.mp hreuse
  obtain ⟨hsys, c', hc', hreused⟩ := reused_eq_some hr
  obtain rfl : c = c' := Option.some.inj (hafter.symm.trans hc')
  obtain ⟨hheld, hsig, hcount, hage, -⟩ := reuse_eq_some hreused
  -- The pass held is that of the last collection that listed, with only reuses since.
  obtain ⟨earlier, J, between, hsplit, hsince⟩ := hc.held pass hheld
  have hJ : J ∈ before := by rw [hsplit]; simp
  refine ⟨earlier, J, between, hsplit, hsince.listed, hsince.complete, hsince.reused, ?_, ?_, ?_, ?_⟩
  · rw [hsince.pass_eq, hc.every] at hcount
    have hlength : (between.length : ℤ) + 1 < every := hcount
    omega
  · rw [hsince.pass_eq, hc.maxAge] at hage
    exact hage
  · rw [hsig, hsince.pass_eq]
    rfl
  · intro hI hsame hparse
    rw [Collection.collect_reused hr]
    exact Collection.outcome_reused hS hI hsince.complete hsys hsame (hkeys J hJ) hparse hsince.pass_eq age

end Runs

/-! ## Two collections -/

/-- A knowledge base without volume plugins. -/
def noPlugins : Plugins := ⟨[], [], fun _ => ""⟩

/-- A digest that tells no texts apart. -/
def zeroDigest (_ : String) : Vector UInt8 32 := Vector.replicate 32 0

/-- A pod whose labels name cert-manager. -/
def certManagerPod (images : List String) : Pod :=
  { «namespace» := "cm", labels := AList.insert "app.kubernetes.io/name" "cm" ∅, containers := images }

/-- A collection that finds some pods, at a time. -/
def certManagerCollection (pods : List Pod) (time : ℤ) : Collection where
  addons := certManagerRegistry
  sysPods := some ⟨[], by simp⟩
  now := time
  start := time
  selected := .last pods
  unselected := .last pods

/-- A cache for three collections and an hour. -/
def certManagerCache : PodPassCache := newPodPassCache 3 (3600 * second)

/-- A pod that runs a provider's build, which its labels do not claim, and another one with the same text. -/
def joinedPods : List Pod :=
  [certManagerPod ["y", "mcr.microsoft.com/x"], certManagerPod ["y\x00mcr.microsoft.com/x"]]

/-- A pod is taken for a repeat of one listed before it, and forgotten: a collection that reuses the pass misses the
add-on that one which lists the pods finds. -/
theorem joined_pods_forgotten :
    Reuses noPlugins plainExternal plainSemver zeroDigest (some certManagerCache)
        [certManagerCollection joinedPods 0] (certManagerCollection joinedPods (600 * second)) ∧
      (certManagerCollection joinedPods 0).answer.error? = none ∧
      (certManagerCollection joinedPods (600 * second)).answer.error? = none ∧
      (certManagerCollection joinedPods (600 * second)).outside = (certManagerCollection joinedPods 0).outside ∧
      VersionsParse plainExternal plainSemver certManagerRegistry
        ((certManagerCollection joinedPods (600 * second)).evidence
          ((certManagerCollection joinedPods (600 * second)).listedEvidence noPlugins)) ∧
      ((certManagerCollection joinedPods (600 * second)).collectAddOnsFrom noPlugins plainExternal plainSemver zeroDigest
        (after noPlugins plainExternal plainSemver zeroDigest (some certManagerCache)
          [certManagerCollection joinedPods 0])).1.addOns = [] ∧
      ((certManagerCollection joinedPods (600 * second)).collectAddOnsFrom noPlugins plainExternal plainSemver zeroDigest
        none).1.addOns.map (·.id) = ["cm"] := by
  refine ⟨by decide +kernel, rfl, rfl, rfl, versionsParse_of_all (by decide +kernel) (by decide +kernel), ?_, ?_⟩
  · decide +kernel
  · decide +kernel

/-- Two pods of one deployment. -/
def deployedPods : List Pod := [certManagerPod ["q.io/j/cm:v1.15.3"], certManagerPod ["q.io/j/cm:v1.15.3"]]

/-- The pods of a deployment are held once, and the next collection reports it as one that lists them. -/
theorem certManager_pass_reused :
    (certManagerCollection deployedPods 0).KeysApart noPlugins ∧
      Reuses noPlugins plainExternal plainSemver zeroDigest (some certManagerCache)
        [certManagerCollection deployedPods 0] (certManagerCollection deployedPods (600 * second)) ∧
      ((certManagerCollection deployedPods (600 * second)).collectAddOnsFrom noPlugins plainExternal plainSemver
        zeroDigest (after noPlugins plainExternal plainSemver zeroDigest (some certManagerCache)
          [certManagerCollection deployedPods 0])).1.SameFindings
        ((certManagerCollection deployedPods (600 * second)).collectAddOnsFrom noPlugins plainExternal plainSemver
          zeroDigest none).1 := by
  have hkeys : (certManagerCollection deployedPods 0).KeysApart noPlugins :=
    Collection.keysApart_of_notMem (by decide +kernel)
  have hreuse : Reuses noPlugins plainExternal plainSemver zeroDigest (some certManagerCache)
      [certManagerCollection deployedPods 0] (certManagerCollection deployedPods (600 * second)) := by
    decide +kernel
  obtain ⟨earlier, J, between, hsplit, -, -, -, -, -, -, hequal⟩ :=
    pass_reused plainSemver_lawful (fun J hJ => by rw [List.mem_singleton.mp hJ]; exact hkeys) hreuse
  have hJ : J ∈ [certManagerCollection deployedPods 0] := by
    rw [hsplit]
    simp
  rw [List.mem_singleton.mp hJ] at hequal
  refine ⟨hkeys, hreuse, hequal rfl rfl (versionsParse_of_all ?_ ?_)⟩
  · decide +kernel
  · decide +kernel

end UpgradeScope.PodPass
