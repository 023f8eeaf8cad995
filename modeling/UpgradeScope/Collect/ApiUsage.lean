import UpgradeScope.Suppress.Apply
import UpgradeScope.Lib.Merging
import UpgradeScope.Lib.Reorder

/-!
# Objects at deprecated APIs

`collectAPIUsage` of `internal/collect/apiusage.go` finds the objects that someone still writes through a deprecated
or removed group/version. Each resource with a flagged version that the cluster serves is listed once, at a version
that is not deprecated where there is one, and resources that share storage across groups share the LIST. Every object
of a LIST is then attributed to the flagged APIs its LIST stands for (its targets), or, when nothing says who wrote it,
to one of them.

The maps that the code fills while it goes through discovery are functions of what it went through here, in the same
order.
-/

namespace UpgradeScope.Collect

open Go Sorting Merging Kb

/-! ## What is read -/

/-- The functions of client-go and of Go's `encoding/json` that the collector calls. -/
structure Kube extends External where
  /-- `schema.ParseGroupVersion`: a group and a version, none for its error. -/
  parseGroupVersion : String → Option (String × String)
  /-- `GroupVersion.String`, of a group and a version. -/
  groupVersion : String → String → String
  /-- The `apiVersion` that `json.Unmarshal` reads from an object, none for its error. -/
  appliedVersion : String → Option String

/-- `metav1.ManagedFieldsOperationType`. -/
inductive Operation
  | apply
  | update
deriving DecidableEq

/-- `metav1.ManagedFieldsEntry`. -/
structure ManagedFieldsEntry where
  manager : String
  operation : Operation
  apiVersion : String
  time : Option ℤ := none
  subresource : String := ""
deriving DecidableEq

/-- `metav1.PartialObjectMetadata`. -/
structure ObjectMeta where
  «namespace» : String := ""
  name : String
  annotations : AList fun _ : String => String := ∅
  managedFields : List ManagedFieldsEntry := []

/-- What the pages of a LIST answer, up to the last or to the first that fails. -/
inductive Pages
  | failed (err : String)
  | last (items : List ObjectMeta)
  | next (items : List ObjectMeta) (rest : Pages)

/-- `metav1.APIResource`. -/
structure APIResource where
  name : String
  kind : String
  verbs : List String := []

/-- `metav1.APIResourceList`. -/
structure APIResourceList where
  groupVersion : String
  resources : List APIResource

/-- `schema.GroupResource`. -/
structure GroupResource where
  group : String
  resource : String
deriving DecidableEq

/-- `schema.GroupVersionResource`. -/
structure GVR where
  group : String
  version : String
  resource : String
deriving DecidableEq

/-- The error of a discovery: the groups that failed, with the answer of the others or without, or another one. -/
inductive DiscoveryError
  /-- `ErrGroupDiscoveryFailed`: the groups and versions that failed. -/
  | groups (failed : List (String × String)) (msg : String)
  | other (msg : String)

/-- What `ServerGroupsAndResourcesWithContext` answers. -/
structure Discovery where
  /-- The groups and their preferred versions; a nil group is left out. -/
  groups : List (String × String) := []
  /-- The resources of each group/version, none for a nil slice. -/
  lists : Option (List APIResourceList)
  err : Option DiscoveryError := none

/-! ## Who writes an object -/

section Authors

variable (X : Kube) (m : ObjectMeta)

/-- `lastAppliedAnnotation`. -/
def lastAppliedAnnotation : String := "kubectl.kubernetes.io/last-applied-configuration"

/-- `lastAppliedManager`. -/
def lastAppliedManager : String := "kubectl last-applied"

/-- `apfAutoUpdateAnnotation`. -/
def apfAutoUpdateAnnotation : String := "apf.kubernetes.io/autoupdate-spec"

/-- `internalManagers`: the field managers inside the control plane. -/
def internalManagers : List String :=
  ["kube-apiserver", "kube-controller-manager", "kube-scheduler", "api-priority-and-fairness-config-producer-v1"]

/-- `controlPlaneOwned`: only internal managers ever wrote the object. -/
def controlPlaneOwned : Bool := m.managedFields ≠ [] ∧ m.managedFields.all (·.manager ∈ internalManagers)

/-- The entries that say which version someone writes through: neither of the status nor of an internal manager. -/
def writerFields : List ManagedFieldsEntry :=
  m.managedFields.filter fun f => ¬(f.subresource = "status" ∨ f.manager ∈ internalManagers)

/-- `writerKey`. -/
def ManagedFieldsEntry.writer (f : ManagedFieldsEntry) : String × String := (f.manager, f.subresource)

/-- The `order` of `writerEntries`: the writers as first seen. -/
def writers : List (String × String) := (distinctOn (·.writer) (writerFields m)).map (·.writer)

/-- The `byKey` of `writerEntries`. -/
def entriesOf (k : String × String) : List ManagedFieldsEntry := (writerFields m).filter (·.writer = k)

/-- `lastAppliedVersion`. -/
def lastAppliedVersion : String :=
  match m.annotations.lookup lastAppliedAnnotation with
  | some raw => (X.appliedVersion raw).getD ""
  | none => ""

/-- `authorshipUnknown`. -/
def authorshipUnknown : Bool := writers m = [] ∧ lastAppliedVersion X m = "" ∧ ¬controlPlaneOwned m

end Authors

/-- `o.Time.Before(e.Time)` of two entries that both have a time. -/
def ManagedFieldsEntry.before (o e : ManagedFieldsEntry) : Bool :=
  match o.time, e.time with
  | some s, some t => s < t
  | _, _ => false

/-- `writesNow`: one manager's entries say that it still writes through a version. -/
def writesNow (entries : List ManagedFieldsEntry) (gv : String) : Bool :=
  entries.any fun e => e.apiVersion = gv ∧
    (e.operation = .apply ∨ entries.all fun o => o.apiVersion = gv ∨ o.before e)

/-- `authoringManager`: who still writes the object through a version, or "". -/
def authoringManager (X : Kube) (m : ObjectMeta) (gv : String) : String :=
  match (writers m).find? fun k => writesNow (entriesOf m k) gv with
  | some k => k.1
  | none =>
    if writers m ≠ [] then ""
    else if lastAppliedVersion X m = gv then lastAppliedManager
    else ""

/-! ## The row of an API -/

/-- `read` of `apigroup`: the value of a current annotation key or, without one, of its old key, and whether it is the
old one's. -/
def readAnnotation (ann : AList fun _ : String => String) (current old : String) : String × Bool :=
  match ann.lookup current, ann.lookup old with
  | some v, _ => (v, false)
  | none, some v => (v, true)
  | none, none => ("", false)

/-- `withIgnore`, with `ReadIgnore`. -/
def withIgnore (ref : ObjectRef) (ann : AList fun _ : String => String) : ObjectRef :=
  let ignore := readAnnotation ann Suppress.ignoreAnnotation Suppress.legacyIgnoreAnnotation
  let reason := readAnnotation ann Suppress.ignoreReasonAnnotation Suppress.legacyIgnoreReasonAnnotation
  { ref with
    ignore := ignore.1, ignoreReason := reason.1, ignoreLegacyKey := ignore.2, ignoreReasonLegacyKey := reason.2 }

/-- One more object in a row: it is counted, and listed while there is room. -/
def record (u : APIUsage) (m : ObjectMeta) (manager : String) : APIUsage :=
  let u := { u with
    count := u.count + 1, namespaces := u.namespaces.insert m.namespace (countAt u.namespaces m.namespace + 1) }
  if u.objects.length < maxObjectRefs then
    { u with objects := u.objects ++
        [withIgnore { «namespace» := m.namespace, name := m.name, manager := manager } m.annotations] }
  else { u with objectsOmitted := u.objectsOmitted + 1 }

/-- `usageTarget`: the usage of one flagged group/version/kind while its resource is listed. -/
structure UsageTarget where
  /-- "group/version", or "v1" for core. -/
  gv : String
  /-- The type goes away: every object counts. -/
  allObjects : Bool
  usage : APIUsage
  /-- The objects that nothing attributes, which `usage` does not count. -/
  unknown : APIUsage

section Attribute

variable (X : Kube)

/-- `unknownAt` of `listUsage`: the lowest target that looks at authors, the first of several, with its index. -/
def unknownAt (targets : List UsageTarget) : Option (UsageTarget × ℕ) :=
  targets.zipIdx.foldl (fun found t =>
    if t.1.allObjects then found
    else match found with
      | none => some t
      | some s => if X.compareKubeAware t.1.usage.version s.1.usage.version < 0 then some t else found) none

/-- What one object adds to a target; `here` says that the objects nothing attributes go to this one. -/
def attributeTo (here : Bool) (t : UsageTarget) (m : ObjectMeta) : UsageTarget :=
  if m.annotations.lookup apfAutoUpdateAnnotation = some "true" then t
  -- a type that goes away counts objects, not authors, except the control plane's own, which it replaces
  else if t.allObjects then
    if controlPlaneOwned m then t else { t with usage := record t.usage m "" }
  else
    let manager := authoringManager X m t.gv
    if manager = "" then
      if here && authorshipUnknown X m then { t with unknown := record t.unknown m manager } else t
    else { t with usage := record t.usage m manager }

/-- One page of a LIST. -/
def attributeAll («at» : Option ℕ) (targets : List UsageTarget) (items : List ObjectMeta) : List UsageTarget :=
  items.foldl (fun ts m => ts.mapIdx fun j t => attributeTo X («at» = some j) t m) targets

/-- The pages of `listUsage`. -/
def readPages («at» : Option ℕ) : Pages → List UsageTarget → Except String (List UsageTarget)
  | .failed err, _ => .error err
  | .last items, targets => .ok (attributeAll X «at» targets items)
  | .next items rest, targets => readPages «at» rest (attributeAll X «at» targets items)

/-- `listUsage`: the targets with the objects of every page. What a failed LIST had counted is dropped. -/
def listUsage (pages : Pages) (targets : List UsageTarget) : Except String (List UsageTarget) :=
  readPages X ((unknownAt X targets).map (·.2)) pages targets

end Attribute

/-! ## What is listed -/

/-- `servedVersion`: one version the cluster serves a resource at. -/
structure ServedVersion where
  version : String
  kind : String
  /-- The knowledge base marks this group/version/kind deprecated or removed. -/
  flagged : Bool
  list : Bool
deriving DecidableEq

section Plan

variable (X : Kube) (lifecycle : List APILifecycleEntry)

/-- Deprecated or removed. -/
def flags (e : APILifecycleEntry) : Bool := e.deprecated.isSome || e.removed.isSome

/-- `flagged`: the last entry of a group/version/kind that is deprecated or removed. -/
def flagged (k : Kb.GVK) : Option APILifecycleEntry := lifecycle.reverse.find? fun e => flags e ∧ e.gvk = k

/-- `continues`: the kinds with a version that is neither. -/
def continues (group kind : String) : Bool := lifecycle.any fun e => ¬flags e ∧ e.group = group ∧ e.kind = kind

/-- A resource of a group/version as a served version. -/
def servedAs (group version : String) (r : APIResource) : ServedVersion where
  version := version
  kind := r.kind
  flagged := (flagged lifecycle ⟨group, version, r.kind⟩).isSome
  list := decide ("list" ∈ r.verbs)

/-- What one list of discovery adds to `byResource`; subresources are passed over, as is a list whose group/version
does not parse. -/
def servedIn (l : APIResourceList) : List (GroupResource × ServedVersion) :=
  match X.parseGroupVersion l.groupVersion with
  | none => []
  | some (group, version) =>
    (l.resources.filter fun r => '/' ∉ r.name.toList).map fun r =>
      (⟨group, r.name⟩, servedAs lifecycle group version r)

variable (lists : List APIResourceList)

/-- What discovery serves, in its order. -/
def discovered : List (GroupResource × ServedVersion) := lists.flatMap (servedIn X lifecycle)

/-- `byResource`: every served version of a resource, in discovery order. -/
def byResource (gr : GroupResource) : List ServedVersion :=
  ((discovered X lifecycle lists).filter (·.1 = gr)).map (·.2)

/-- `order`: the resources as first seen. -/
def order : List GroupResource := (distinctOn (·.1) (discovered X lifecycle lists)).map (·.1)

/-- The comparison of `bestListable`: unflagged before flagged, then the preferred version, then the newest. -/
def listOrder (preferred : String) (a b : ServedVersion) : ℤ :=
  if a.flagged ≠ b.flagged then if a.flagged then 1 else -1
  else if decide (a.version = preferred) ≠ decide (b.version = preferred) then if a.version = preferred then -1 else 1
  else X.compareKubeAware b.version a.version

/-- `bestListable`: the first of the listable versions, sorted stably. -/
def bestListable (served : List ServedVersion) (preferred : String) : Option ServedVersion :=
  ((served.filter (·.list)).insertionSort fun a b => listOrder X preferred a b ≤ 0).head?

/-- `listVersion`. -/
def listVersion (served : List ServedVersion) (preferred : String) : Option ServedVersion :=
  if served.any (·.flagged) then bestListable X served preferred else none

variable (preferred : String → String)

/-- `replacementList`: where else a resource can be listed when every version its own group serves is flagged. -/
def replacementList (resource : String) (r : Option Kb.GVK) : Option GVR :=
  match r with
  | none => none
  | some r =>
    let same := (byResource X lifecycle lists ⟨r.group, resource⟩).filter (·.kind = r.kind)
    match bestListable X same (preferred r.group) with
    | none => none
    | some best => if best.flagged then none else some ⟨r.group, best.version, resource⟩

/-- The knowledge base's entry of a served version, where it is flagged. -/
def entryOf (gr : GroupResource) (s : ServedVersion) : Option APILifecycleEntry :=
  flagged lifecycle ⟨gr.group, s.version, s.kind⟩

/-- Where the objects of a resource are listed. -/
structure Plan where
  gvr : GVR
  /-- Listing there is itself a deprecated request. -/
  deprecatedList : Bool
  /-- Every listable version is flagged. -/
  allFlagged : Bool

/-- The turn of a resource in the loop that makes the LISTs: none where it is not listed. -/
def planOf (gr : GroupResource) : Option Plan :=
  let served := byResource X lifecycle lists gr
  match listVersion X served (preferred gr.group) with
  | none => none
  | some listV =>
    let own : GVR := ⟨gr.group, listV.version, gr.resource⟩
    if listV.flagged then
      match served.findSome? fun s =>
          replacementList X lifecycle lists preferred gr.resource ((entryOf lifecycle gr s).bind (·.replacement)) with
      | some r => some ⟨r, false, true⟩
      | none =>
        -- worth a deprecated request only for a kind whose removal is scheduled
        if served.any fun s => s.flagged ∧ ((entryOf lifecycle gr s).bind (·.removed)).isSome then some ⟨own, true, true⟩
        else none
    else some ⟨own, false, false⟩

/-- The target of a flagged version. -/
def targetOf (gr : GroupResource) (allFlagged : Bool) (s : ServedVersion) : UsageTarget where
  gv := X.groupVersion gr.group s.version
  allObjects := (((entryOf lifecycle gr s).bind (·.replacement)).isNone && !continues lifecycle gr.group s.kind && allFlagged)
  usage := { group := gr.group, version := s.version, kind := s.kind, count := 0 }
  unknown := { group := gr.group, version := s.version, kind := s.kind, count := 0 }

/-- The targets of a resource. -/
def targetsIn (gr : GroupResource) (allFlagged : Bool) : List UsageTarget :=
  ((byResource X lifecycle lists gr).filter (·.flagged)).map (targetOf X lifecycle gr allFlagged)

/-- The resources that are listed, as first seen, and where. -/
def plans : List (GroupResource × Plan) :=
  (order X lifecycle lists).filterMap fun gr => (planOf X lifecycle lists preferred gr).map (gr, ·)

/-- `toList`: the LISTs, as first seen. -/
def toList : List GVR := (distinctOn (·.2.gvr) (plans X lifecycle lists preferred)).map (·.2.gvr)

/-- `targetsOf`: the targets of a LIST, those of every resource that is listed there. -/
def targetsOf (gvr : GVR) : List UsageTarget :=
  ((plans X lifecycle lists preferred).filter (·.2.gvr = gvr)).flatMap fun p => targetsIn X lifecycle lists p.1 p.2.allFlagged

end Plan

/-! ## `collectAPIUsage` -/

/-- `selfCalls`: what the scanner's own requests are in the metric of deprecated ones. -/
structure SelfCalls where
  /-- The resources this scan listed at a deprecated version. -/
  listed : List String := []
  /-- The group/versions at which an earlier scan may have listed one. -/
  undiscovered : List String := []
  /-- Discovery did not answer at all. -/
  blind : Bool := false

/-- How a collection failed. -/
inductive CollectError
  /-- The capability degrades. -/
  | full (msg : String)
  /-- `partialError`, incomplete, with the flagged APIs that went unchecked. -/
  | partially (msg : String) (skipped : List String)
deriving DecidableEq

/-- What `collectAPIUsage` leaves: the rows it sets, none where it returns before, and what it returns. -/
structure Collected where
  /-- `APIUsage` and `APIAuthorshipUnknown` of the inventory. -/
  rows : Option (List APIUsage × List APIUsage)
  self : SelfCalls
  err : Option CollectError

section Collect

variable (X : Kube) (lifecycle : List APILifecycleEntry)

/-- `apiName`. -/
def apiName (gv kind : String) : String := gv ++ " " ++ kind

/-- `unknownSelfCalls`: what is known before discovery has answered, or of the groups it skipped. -/
def unknownSelfCalls (skipped : Option (List (String × String))) : SelfCalls where
  undiscovered := sortedSet ((lifecycle.filter fun e => e.removed.isSome ∧
    (skipped.all fun gvs => (e.group, e.version) ∈ gvs)).map fun e => X.groupVersion e.group e.version)
  blind := skipped.isNone

/-- `preferred`: a group's preferred version, "" for a group that has none. -/
def preferredOf (groups : List (String × String)) (group : String) : String :=
  ((groups.reverse.find? (·.1 = group)).map (·.2)).getD ""

/-- The keys a map of entries has. -/
def flaggedKeys : List Kb.GVK := (lifecycle.filter flags).map (·.gvk)

/-- `unchecked` after discovery: the flagged APIs of the groups it skipped. -/
def undiscovered (skipped : List (String × String)) : List String :=
  skipped.flatMap fun gv => ((flaggedKeys lifecycle).filter fun k => k.group = gv.1 ∧ k.version = gv.2).map fun k =>
    apiName (X.groupVersion gv.1 gv.2) k.kind

/-- The order of the rows. -/
def byGVK (u : APIUsage) : Lex (String × Lex (String × String)) := toLex (u.group, toLex (u.version, u.kind))

/-- The name of a target's API. -/
def UsageTarget.apiName (t : UsageTarget) : String := Collect.apiName t.gv t.usage.kind

/-- One LIST and what came of it. -/
structure ListRun where
  gvr : GVR
  targets : List UsageTarget
  result : Except String (List UsageTarget)

variable (list : GVR → Pages) (lists : List APIResourceList) (preferred : String → String)

/-- A LIST with its targets. -/
def runOf (gvr : GVR) : ListRun where
  gvr := gvr
  targets := targetsOf X lifecycle lists preferred gvr
  result := listUsage X (list gvr) (targetsOf X lifecycle lists preferred gvr)

/-- The LISTs, in the order of `toList`. -/
def runs : List ListRun := (toList X lifecycle lists preferred).map (runOf X lifecycle list lists preferred)

/-- The failure of a LIST. -/
def ListRun.failure (r : ListRun) : Option String :=
  match r.result with
  | .error e => some ("list " ++ X.groupVersion r.gvr.group r.gvr.version ++ " " ++ r.gvr.resource ++ ": " ++ e)
  | .ok _ => none

/-- The flagged APIs that a failed LIST leaves unchecked. -/
def ListRun.unchecked (r : ListRun) : List String :=
  match r.result with
  | .error _ => r.targets.map (·.apiName)
  | .ok _ => []

/-- The targets of a LIST that succeeded, with its objects. -/
def ListRun.done (r : ListRun) : List UsageTarget :=
  match r.result with
  | .error _ => []
  | .ok targets => targets

/-- `self.listed`: the LISTs that are deprecated requests, by the resource each was first seen for. -/
def deprecatedLists : List String :=
  sorted ((distinctOn (·.2.gvr) (plans X lifecycle lists preferred)).filterMap fun p =>
    if p.2.deprecatedList then some (X.groupVersion p.2.gvr.group p.2.gvr.version ++ " " ++ p.2.gvr.resource) else none)

/-- `collectAPIUsage` once discovery has answered, with the groups it skipped, if any. -/
def collectListed (skipped : Option (List (String × String))) (self : SelfCalls) : Collected :=
  let rs := runs X lifecycle list lists preferred
  let done := rs.flatMap (·.done)
  let failures := (match skipped with
    | some gvs => ["discovery: groups " ++ join (sorted (gvs.map fun gv => X.groupVersion gv.1 gv.2)) "," ++ " skipped"]
    | none => []) ++ rs.filterMap (·.failure X)
  let unchecked := undiscovered X lifecycle (skipped.getD []) ++ rs.flatMap (·.unchecked)
  { rows := some (sortOn byGVK ((done.map (·.usage)).filter (0 < ·.count)),
      sortOn byGVK ((done.map (·.unknown)).filter (0 < ·.count)))
    self := { self with listed := deprecatedLists X lifecycle lists preferred }
    err :=
      if failures = [] then none
      -- nothing usable: the capability degrades
      else if rs ≠ [] ∧ rs.all (·.result.isOk = false) then some (.full (join failures "; "))
      else some (.partially (join failures "; ") (sortedSet unchecked)) }

/-- `collectAPIUsage`. -/
def collectAPIUsage (disc : Discovery) : Collected :=
  match disc.err, disc.lists with
  | none, lists => collectListed X lifecycle list (lists.getD []) (preferredOf disc.groups) none {}
  | some (.groups failed _), some lists =>
    collectListed X lifecycle list lists (preferredOf disc.groups) (some failed)
      (unknownSelfCalls X lifecycle (some failed))
  | some (.groups _ msg), none => ⟨none, unknownSelfCalls X lifecycle none, some (.full ("discovery: " ++ msg))⟩
  | some (.other msg), _ => ⟨none, unknownSelfCalls X lifecycle none, some (.full ("discovery: " ++ msg))⟩

end Collect

/-! ## What a LIST adds up to -/

/-- The objects of every page, where all of them are answered. -/
def Pages.items : Pages → Except String (List ObjectMeta)
  | .failed err => .error err
  | .last items => .ok items
  | .next items rest => rest.items.map (items ++ ·)

section Lists

variable (X : Kube)

/-- The object counts as use of a target's API. -/
def counts (t : UsageTarget) (m : ObjectMeta) : Bool :=
  m.annotations.lookup apfAutoUpdateAnnotation ≠ some "true" ∧
    if t.allObjects then ¬controlPlaneOwned m else authoringManager X m t.gv ≠ ""

/-- Nothing attributes the object, to a target that looks at authors. -/
def unattributed (t : UsageTarget) (m : ObjectMeta) : Bool :=
  m.annotations.lookup apfAutoUpdateAnnotation ≠ some "true" ∧ t.allObjects = false ∧
    authoringManager X m t.gv = "" ∧ authorshipUnknown X m

/-- Who the row names as the author of an object that counts. -/
def managerOf (t : UsageTarget) (m : ObjectMeta) : String := if t.allObjects then "" else authoringManager X m t.gv

/-- The usage row of a target with the objects of a LIST. -/
def usageRow (t : UsageTarget) (items : List ObjectMeta) : APIUsage :=
  (items.filter (counts X t)).foldl (fun u m => record u m (managerOf X t m)) t.usage

/-- The row of the objects that nothing attributes. -/
def unknownRow (here : Bool) (t : UsageTarget) (items : List ObjectMeta) : APIUsage :=
  (items.filter fun m => here && unattributed X t m).foldl (fun u m => record u m "") t.unknown

variable {X}

theorem attributeTo_eq (here : Bool) (t : UsageTarget) (m : ObjectMeta) :
    attributeTo X here t m = { t with usage := usageRow X t [m], unknown := unknownRow X here t [m] } := by
  obtain ⟨gv, allObjects, usage, unknown⟩ := t
  unfold attributeTo usageRow unknownRow counts unattributed managerOf
  cases allObjects <;> cases here <;> dsimp only <;> split_ifs <;> simp_all

/-- Objects are attributed one by one, whatever the rows hold already. -/
theorem foldl_attributeTo (here : Bool) (items : List ObjectMeta) : ∀ t : UsageTarget,
    items.foldl (attributeTo X here) t =
      { t with usage := usageRow X t items, unknown := unknownRow X here t items } := by
  induction items with
  | nil => exact fun t => rfl
  | cons m items ih =>
    intro t
    rw [List.foldl_cons, ih, attributeTo_eq]
    have husage : usageRow X t (m :: items) =
        (items.filter (counts X t)).foldl (fun u m => record u m (managerOf X t m)) (usageRow X t [m]) := by
      simp only [usageRow, List.filter_cons, List.filter_nil]
      split_ifs <;> rfl
    have hunknown : unknownRow X here t (m :: items) =
        (items.filter fun m => here && unattributed X t m).foldl (fun u m => record u m "") (unknownRow X here t [m]) := by
      simp only [unknownRow, List.filter_cons, List.filter_nil]
      split_ifs <;> rfl
    rw [husage, hunknown]
    rfl

theorem attributeAll_append («at» : Option ℕ) (targets : List UsageTarget) (items items' : List ObjectMeta) :
    attributeAll X «at» targets (items ++ items') = attributeAll X «at» (attributeAll X «at» targets items) items' :=
  List.foldl_append

theorem attributeAll_eq («at» : Option ℕ) (targets : List UsageTarget) (items : List ObjectMeta) :
    attributeAll X «at» targets items = targets.mapIdx fun j t =>
      { t with usage := usageRow X t items, unknown := unknownRow X («at» = some j) t items } := by
  simp only [← foldl_attributeTo]
  induction items generalizing targets with
  | nil =>
    refine (List.ext_getElem ?_ ?_).symm
    · simp [attributeAll]
    · simp [attributeAll]
  | cons m items ih =>
    rw [attributeAll, List.foldl_cons, ← attributeAll, ih, List.mapIdx_mapIdx]
    rfl

theorem readPages_eq («at» : Option ℕ) (pages : Pages) : ∀ targets : List UsageTarget,
    readPages X «at» pages targets = pages.items.map (attributeAll X «at» targets) := by
  induction pages with
  | failed err => exact fun _ => rfl
  | last items => exact fun _ => rfl
  | next items rest ih =>
    intro targets
    rw [readPages, ih, Pages.items]
    cases rest.items with
    | error e => rfl
    | ok items' => exact congrArg Except.ok (attributeAll_append _ _ _ _).symm

/-- A LIST that is answered to its last page gives every target the rows of all its objects. -/
theorem listUsage_eq (pages : Pages) (targets : List UsageTarget) :
    listUsage X pages targets = pages.items.map fun items => targets.mapIdx fun j t =>
      { t with usage := usageRow X t items, unknown := unknownRow X ((unknownAt X targets).map (·.2) = some j) t items } := by
  rw [listUsage, readPages_eq]
  cases pages.items with
  | error e => rfl
  | ok items => exact congrArg Except.ok (attributeAll_eq _ _ _)

end Lists

/-! ## Every removal is accounted for -/

section Accounts

variable {X : Kube} {lifecycle : List APILifecycleEntry} {list : GVR → Pages} {lists : List APIResourceList}
  {preferred : String → String} {gr : GroupResource} {s : ServedVersion} {plan : Plan}

theorem mem_byResource : s ∈ byResource X lifecycle lists gr ↔ (gr, s) ∈ discovered X lifecycle lists := by
  unfold byResource
  simp only [List.mem_map, List.mem_filter, decide_eq_true_eq]
  constructor
  · rintro ⟨⟨gr', s'⟩, ⟨hmem, rfl⟩, rfl⟩
    exact hmem
  · intro hmem
    exact ⟨(gr, s), ⟨hmem, rfl⟩, rfl⟩

theorem mem_order : gr ∈ order X lifecycle lists ↔ ∃ s, s ∈ byResource X lifecycle lists gr := by
  simp only [mem_byResource]
  unfold order
  constructor
  · intro h
    obtain ⟨p, hp, rfl⟩ := List.mem_map.mp h
    exact ⟨p.2, mem_of_mem_distinctOn hp⟩
  · rintro ⟨s, hs⟩
    obtain ⟨p, hp, hkey⟩ := exists_mem_distinctOn (·.1) hs
    exact List.mem_map.mpr ⟨p, hp, hkey⟩

theorem mem_plans : (gr, plan) ∈ plans X lifecycle lists preferred ↔
    gr ∈ order X lifecycle lists ∧ planOf X lifecycle lists preferred gr = some plan := by
  unfold plans
  simp only [List.mem_filterMap, Option.map_eq_some_iff, Prod.mk.injEq]
  constructor
  · rintro ⟨gr', hgr, plan', hplan, rfl, rfl⟩
    exact ⟨hgr, hplan⟩
  · rintro ⟨hgr, hplan⟩
    exact ⟨gr, hgr, plan, hplan, rfl, rfl⟩

variable {gvr : GVR} {t : UsageTarget} {e : APILifecycleEntry} {k : Kb.GVK} {self : SelfCalls}
  {unknowns usages : List APIUsage}

theorem mem_toList : gvr ∈ toList X lifecycle lists preferred ↔
    ∃ p ∈ plans X lifecycle lists preferred, p.2.gvr = gvr := by
  unfold toList
  constructor
  · intro h
    obtain ⟨p, hp, rfl⟩ := List.mem_map.mp h
    exact ⟨p, mem_of_mem_distinctOn hp, rfl⟩
  · rintro ⟨p, hp, rfl⟩
    obtain ⟨q, hq, hkey⟩ := exists_mem_distinctOn (·.2.gvr) hp
    exact List.mem_map.mpr ⟨q, hq, hkey⟩

theorem mem_targetsOf : t ∈ targetsOf X lifecycle lists preferred gvr ↔
    ∃ gr plan, (gr, plan) ∈ plans X lifecycle lists preferred ∧ plan.gvr = gvr ∧
      ∃ s ∈ byResource X lifecycle lists gr, s.flagged = true ∧ t = targetOf X lifecycle gr plan.allFlagged s := by
  unfold targetsOf targetsIn
  simp only [List.mem_flatMap, List.mem_filter, List.mem_map, decide_eq_true_eq]
  constructor
  · rintro ⟨⟨gr, plan⟩, ⟨hp, hgvr⟩, s, ⟨hs, hflagged⟩, rfl⟩
    exact ⟨gr, plan, hp, hgvr, s, hs, hflagged, rfl⟩
  · rintro ⟨gr, plan, hp, hgvr, s, hs, hflagged, rfl⟩
    exact ⟨(gr, plan), ⟨hp, hgvr⟩, s, ⟨hs, hflagged⟩, rfl⟩

theorem bestListable_isSome {served : List ServedVersion} {preferred : String} (h : ∃ s ∈ served, s.list = true) :
    ∃ best, bestListable X served preferred = some best := by
  obtain ⟨s, hs, hlist⟩ := h
  have hmem : s ∈ (served.filter (·.list)).insertionSort fun a b => listOrder X preferred a b ≤ 0 :=
    (List.mem_insertionSort _).mpr (List.mem_filter.mpr ⟨hs, hlist⟩)
  unfold bestListable
  cases hsort : (served.filter (·.list)).insertionSort fun a b => listOrder X preferred a b ≤ 0 with
  | nil => simp [hsort] at hmem
  | cons best rest => exact ⟨best, rfl⟩

/-- A resource with a listable version and a kind whose removal is scheduled is listed. -/
theorem exists_planOf (hs : s ∈ byResource X lifecycle lists gr) (hflagged : s.flagged = true)
    (hremoved : ((entryOf lifecycle gr s).bind (·.removed)).isSome = true)
    (hlist : ∃ s' ∈ byResource X lifecycle lists gr, s'.list = true) :
    ∃ plan, planOf X lifecycle lists preferred gr = some plan := by
  obtain ⟨best, hbest⟩ : ∃ best, bestListable X (byResource X lifecycle lists gr) (preferred gr.group) = some best :=
    bestListable_isSome hlist
  have hany : (byResource X lifecycle lists gr).any (·.flagged) = true := List.any_eq_true.mpr ⟨s, hs, hflagged⟩
  have hworth : ((byResource X lifecycle lists gr).any fun s =>
      s.flagged ∧ ((entryOf lifecycle gr s).bind (·.removed)).isSome) = true :=
    List.any_eq_true.mpr ⟨s, hs, by simp [hflagged, hremoved]⟩
  unfold planOf listVersion
  simp only [hany, hbest, if_true, hworth]
  split_ifs
  · split
    · exact ⟨_, rfl⟩
    · exact ⟨_, rfl⟩
  · exact ⟨_, rfl⟩

/-- A kind that the knowledge base's index has as removed is flagged. -/
theorem flagged_of_lookup (h : Kb.lookup lifecycle k = some e) (hremoved : e.removed.isSome = true) :
    flagged lifecycle k = some e := by
  unfold Kb.lookup at h
  unfold flagged
  generalize lifecycle.reverse = es at h ⊢
  induction es with
  | nil => cases h
  | cons e' es ih =>
    rw [List.find?_cons] at h ⊢
    by_cases hk : e'.gvk = k
    · simp only [hk, decide_true, Option.some.injEq] at h
      subst h
      simp [hk, flags, hremoved]
    · simp only [hk, decide_false] at h
      simpa [hk] using ih h

/-- Discovery shows a kind served, at a resource that has a version to list. -/
def ShowsListable (X : Kube) (lists : List APIResourceList) (k : Kb.GVK) : Prop :=
  ∃ l ∈ lists, X.parseGroupVersion l.groupVersion = some (k.group, k.version) ∧
    ∃ r ∈ l.resources, r.kind = k.kind ∧ '/' ∉ r.name.toList ∧
      ∃ l' ∈ lists, (∃ v, X.parseGroupVersion l'.groupVersion = some (k.group, v)) ∧
        ∃ r' ∈ l'.resources, r'.name = r.name ∧ "list" ∈ r'.verbs

theorem mem_servedIn {l : APIResourceList} {group version : String} {r : APIResource}
    (hl : X.parseGroupVersion l.groupVersion = some (group, version)) (hr : r ∈ l.resources) (hname : '/' ∉ r.name.toList) :
    (⟨group, r.name⟩, servedAs lifecycle group version r) ∈ servedIn X lifecycle l := by
  unfold servedIn
  rw [hl]
  exact List.mem_map.mpr ⟨r, List.mem_filter.mpr ⟨hr, by simpa using hname⟩, rfl⟩

/-- A kind whose removal is scheduled and that discovery shows at a listable resource is a target of a LIST. -/
theorem exists_target (he : Kb.lookup lifecycle k = some e) (hremoved : e.removed.isSome = true)
    (hshows : ShowsListable X lists k) :
    ∃ gvr ∈ toList X lifecycle lists preferred, ∃ t ∈ targetsOf X lifecycle lists preferred gvr,
      t.usage = { group := k.group, version := k.version, kind := k.kind, count := 0 } ∧
        t.gv = X.groupVersion k.group k.version := by
  obtain ⟨l, hl, hparse, r, hr, hkind, hname, l', hl', ⟨v, hparse'⟩, r', hr', hname', hverb⟩ := hshows
  have hentry : flagged lifecycle ⟨k.group, k.version, r.kind⟩ = some e := hkind ▸ flagged_of_lookup he hremoved
  have hs : servedAs lifecycle k.group k.version r ∈ byResource X lifecycle lists ⟨k.group, r.name⟩ :=
    mem_byResource.mpr (List.mem_flatMap.mpr ⟨l, hl, mem_servedIn hparse hr hname⟩)
  have hs' : servedAs lifecycle k.group v r' ∈ byResource X lifecycle lists ⟨k.group, r.name⟩ :=
    mem_byResource.mpr (List.mem_flatMap.mpr ⟨l', hl', hname' ▸ mem_servedIn hparse' hr' (hname' ▸ hname)⟩)
  have hflagged : (servedAs lifecycle k.group k.version r).flagged = true := by simp [servedAs, hentry]
  obtain ⟨plan, hplan⟩ : ∃ plan, planOf X lifecycle lists preferred ⟨k.group, r.name⟩ = some plan :=
    exists_planOf hs hflagged (by simp [entryOf, servedAs, hentry, hremoved]) ⟨_, hs', by simpa [servedAs] using hverb⟩
  have hplans := mem_plans.mpr ⟨mem_order.mpr ⟨_, hs⟩, hplan⟩
  refine ⟨plan.gvr, mem_toList.mpr ⟨_, hplans, rfl⟩, _, mem_targetsOf.mpr ⟨_, _, hplans, rfl, _, hs, hflagged, rfl⟩, ?_, rfl⟩
  simp [targetOf, servedAs, hkind]

theorem record_count (u : APIUsage) (m : ObjectMeta) (manager : String) : (record u m manager).count = u.count + 1 := by
  unfold record
  dsimp only
  split_ifs <;> rfl

/-- A row counts every object that is recorded in it. -/
theorem foldl_record_count (manager : ObjectMeta → String) (ms : List ObjectMeta) (u : APIUsage) :
    (ms.foldl (fun u m => record u m (manager m)) u).count = u.count + ms.length := by
  induction ms generalizing u with
  | nil => simp
  | cons m ms ih =>
    rw [List.foldl_cons, ih, record_count, List.length_cons]
    push_cast
    ring

/-- A row counts the objects it is made of. -/
theorem usageRow_count (t : UsageTarget) (items : List ObjectMeta) :
    (usageRow X t items).count = t.usage.count + items.countP (counts X t) := by
  rw [usageRow, foldl_record_count, List.countP_eq_length_filter]

/-- The targets of a LIST that was answered to its last page have the rows of all its objects. -/
theorem done_runOf_ok {items : List ObjectMeta} (hitems : (list gvr).items = .ok items) :
    (runOf X lifecycle list lists preferred gvr).done = (targetsOf X lifecycle lists preferred gvr).mapIdx fun j t =>
      { t with
        usage := usageRow X t items
        unknown := unknownRow X ((unknownAt X (targetsOf X lifecycle lists preferred gvr)).map (·.2) = some j) t items } := by
  unfold ListRun.done runOf
  dsimp only
  rw [listUsage_eq, hitems]
  rfl

/-- A LIST that fails otherwise leaves nothing, and its targets unchecked. -/
theorem runOf_error {e : String} (hitems : (list gvr).items = .error e) :
    (runOf X lifecycle list lists preferred gvr).result = .error e := by
  unfold runOf
  dsimp only
  rw [listUsage_eq, hitems]
  rfl

theorem mem_done (ht : t ∈ (runOf X lifecycle list lists preferred gvr).done) :
    ∃ items, (list gvr).items = .ok items ∧ ∃ t' ∈ targetsOf X lifecycle lists preferred gvr, ∃ here,
      t.usage = usageRow X t' items ∧ t.unknown = unknownRow X here t' items := by
  cases hitems : (list gvr).items with
  | error e =>
    rw [ListRun.done, runOf_error hitems] at ht
    cases ht
  | ok items =>
    rw [done_runOf_ok hitems] at ht
    obtain ⟨i, hi, rfl⟩ := List.mem_mapIdx.mp ht
    exact ⟨items, rfl, _, List.getElem_mem hi, _, rfl, rfl⟩

theorem exists_mem_done {items : List ObjectMeta} (hitems : (list gvr).items = .ok items)
    (ht : t ∈ targetsOf X lifecycle lists preferred gvr) :
    ∃ t' ∈ (runOf X lifecycle list lists preferred gvr).done, t'.usage = usageRow X t items := by
  obtain ⟨i, hi, rfl⟩ := List.getElem_of_mem ht
  rw [done_runOf_ok hitems]
  exact ⟨_, List.mem_mapIdx.mpr ⟨i, hi, rfl⟩, rfl⟩

theorem targetsOf_unknown (ht : t ∈ targetsOf X lifecycle lists preferred gvr) :
    t.unknown.count = 0 := by
  obtain ⟨gr, plan, -, -, s, -, -, rfl⟩ := mem_targetsOf.mp ht
  rfl

/-- The rows hold the objects of LISTs that were answered to their last page. -/
theorem rows_of_complete {skipped : Option (List (String × String))}
    (hrows : (collectListed X lifecycle list lists preferred skipped self).rows = some (usages, unknowns)) :
    (∀ u ∈ usages, ∃ gvr items, (list gvr).items = .ok items ∧ ∃ t ∈ targetsOf X lifecycle lists preferred gvr,
      u = usageRow X t items) ∧
    ∀ u ∈ unknowns, ∃ gvr items, (list gvr).items = .ok items ∧ ∃ t ∈ targetsOf X lifecycle lists preferred gvr,
      u = unknownRow X true t items := by
  obtain ⟨rfl, rfl⟩ := Prod.mk.inj (Option.some.inj hrows)
  constructor
  · intro u hu
    obtain ⟨hmem, -⟩ := List.mem_filter.mp (mem_sortOn.mp hu)
    obtain ⟨t, ht, rfl⟩ := List.mem_map.mp hmem
    obtain ⟨r, hr, ht⟩ := List.mem_flatMap.mp ht
    obtain ⟨gvr, -, rfl⟩ := List.mem_map.mp hr
    obtain ⟨items, hitems, t', ht', -, husage, -⟩ := mem_done ht
    exact ⟨gvr, items, hitems, t', ht', husage⟩
  · intro u hu
    obtain ⟨hmem, hpos⟩ := List.mem_filter.mp (mem_sortOn.mp hu)
    obtain ⟨t, ht, rfl⟩ := List.mem_map.mp hmem
    obtain ⟨r, hr, ht⟩ := List.mem_flatMap.mp ht
    obtain ⟨gvr, -, rfl⟩ := List.mem_map.mp hr
    obtain ⟨items, hitems, t', ht', here, -, hunknown⟩ := mem_done ht
    refine ⟨gvr, items, hitems, t', ht', ?_⟩
    cases here with
    | true => exact hunknown
    | false =>
      -- only the target they go to has a row of objects that nothing attributes
      rw [hunknown] at hpos
      simp [unknownRow, targetsOf_unknown ht'] at hpos

/-- A removal that is scheduled is counted in its row, or named as unchecked. -/
theorem removal_accounted {skipped : Option (List (String × String))}
    (hrows : (collectListed X lifecycle list lists preferred skipped self).rows = some (usages, unknowns))
    (hfull : ∀ msg, (collectListed X lifecycle list lists preferred skipped self).err ≠ some (.full msg))
    (he : Kb.lookup lifecycle k = some e) (hremoved : e.removed.isSome = true) (hshows : ShowsListable X lists k) :
    (∃ gvr items, (list gvr).items = .ok items ∧ ∃ t ∈ targetsOf X lifecycle lists preferred gvr,
      t.usage = { group := k.group, version := k.version, kind := k.kind, count := 0 } ∧
      t.gv = X.groupVersion k.group k.version ∧ (usageRow X t items).count = items.countP (counts X t) ∧
      (0 < (usageRow X t items).count → usageRow X t items ∈ usages)) ∨
    ∃ msg names, (collectListed X lifecycle list lists preferred skipped self).err = some (.partially msg names) ∧
      apiName (X.groupVersion k.group k.version) k.kind ∈ names := by
  obtain ⟨rfl, rfl⟩ := Prod.mk.inj (Option.some.inj hrows)
  obtain ⟨gvr, hgvr, t, ht, husage, hgv⟩ : ∃ gvr ∈ toList X lifecycle lists preferred,
      ∃ t ∈ targetsOf X lifecycle lists preferred gvr,
        t.usage = { group := k.group, version := k.version, kind := k.kind, count := 0 } ∧
          t.gv = X.groupVersion k.group k.version := exists_target he hremoved hshows
  have hrun : runOf X lifecycle list lists preferred gvr ∈ runs X lifecycle list lists preferred :=
    List.mem_map.mpr ⟨gvr, hgvr, rfl⟩
  -- The LIST was answered to its last page, or its failure names the API.
  cases hitems : (list gvr).items with
  | ok items =>
    refine .inl ⟨gvr, items, hitems, t, ht, husage, hgv, ?_, fun hpos => ?_⟩
    · rw [usageRow_count, husage]
      simp
    · obtain ⟨t', ht', hrow⟩ := exists_mem_done hitems ht
      rw [← hrow] at hpos ⊢
      refine mem_sortOn.mpr (List.mem_filter.mpr ⟨List.mem_map.mpr ⟨t', List.mem_flatMap.mpr ⟨_, hrun, ht'⟩, rfl⟩, ?_⟩)
      simpa using hpos
  | error err =>
    have hresult : (runOf X lifecycle list lists preferred gvr).result = .error err := runOf_error hitems
    have hname : apiName (X.groupVersion k.group k.version) k.kind ∈ undiscovered X lifecycle (skipped.getD []) ++
        (runs X lifecycle list lists preferred).flatMap (·.unchecked) := by
      refine List.mem_append_right _ (List.mem_flatMap.mpr ⟨_, hrun, ?_⟩)
      unfold ListRun.unchecked
      rw [hresult]
      refine List.mem_map.mpr ⟨t, ht, ?_⟩
      rw [UsageTarget.apiName, hgv, husage]
    obtain ⟨msg, hmsg⟩ : ∃ msg, (runOf X lifecycle list lists preferred gvr).failure X = some msg := by
      unfold ListRun.failure
      rw [hresult]
      exact ⟨_, rfl⟩
    have hfailure : (runs X lifecycle list lists preferred).filterMap (·.failure X) ≠ [] :=
      List.ne_nil_of_mem (List.mem_filterMap.mpr ⟨_, hrun, hmsg⟩)
    refine .inr ?_
    unfold collectListed at hfull ⊢
    dsimp only at hfull ⊢
    rw [if_neg (by simp [hfailure])] at hfull ⊢
    split_ifs at hfull ⊢
    · exact absurd rfl (hfull _)
    · exact ⟨_, _, rfl, mem_sortedSet.mpr hname⟩

/-- No flagged API goes unchecked silently. Where the collection does not fail as a whole, every group/version/kind whose
removal the knowledge base schedules and that discovery shows at a listable resource has the objects of a LIST that was
answered to its last page counted in its row, or is named among those the partial error skipped; and every row is made
of the objects of such a LIST. -/
theorem collectAPIUsage_accounts (X : Kube) (lifecycle : List APILifecycleEntry) (list : GVR → Pages) (disc : Discovery)
    (hfull : ∀ msg, (collectAPIUsage X lifecycle list disc).err ≠ some (.full msg)) :
    ∃ usages unknowns, (collectAPIUsage X lifecycle list disc).rows = some (usages, unknowns) ∧
      (∀ k e, Kb.lookup lifecycle k = some e → e.removed.isSome = true → ShowsListable X (disc.lists.getD []) k →
        (∃ gvr items, (list gvr).items = .ok items ∧
          ∃ t ∈ targetsOf X lifecycle (disc.lists.getD []) (preferredOf disc.groups) gvr,
            t.usage = { group := k.group, version := k.version, kind := k.kind, count := 0 } ∧
            t.gv = X.groupVersion k.group k.version ∧ (usageRow X t items).count = items.countP (counts X t) ∧
            (0 < (usageRow X t items).count → usageRow X t items ∈ usages)) ∨
        ∃ msg names, (collectAPIUsage X lifecycle list disc).err = some (.partially msg names) ∧
          apiName (X.groupVersion k.group k.version) k.kind ∈ names) ∧
      (∀ u ∈ usages, ∃ gvr items, (list gvr).items = .ok items ∧
        ∃ t ∈ targetsOf X lifecycle (disc.lists.getD []) (preferredOf disc.groups) gvr, u = usageRow X t items) ∧
      ∀ u ∈ unknowns, ∃ gvr items, (list gvr).items = .ok items ∧
        ∃ t ∈ targetsOf X lifecycle (disc.lists.getD []) (preferredOf disc.groups) gvr, u = unknownRow X true t items := by
  -- Discovery that answered nothing at all is the failure that is excluded.
  obtain ⟨skipped, self, hcollect⟩ : ∃ skipped self, collectAPIUsage X lifecycle list disc =
      collectListed X lifecycle list (disc.lists.getD []) (preferredOf disc.groups) skipped self := by
    unfold collectAPIUsage at hfull ⊢
    split at hfull
    case h_1 => exact ⟨_, _, rfl⟩
    case h_2 hlists => exact ⟨_, _, by rw [hlists]; rfl⟩
    case h_3 => exact absurd rfl (hfull _)
    case h_4 => exact absurd rfl (hfull _)
  rw [hcollect] at hfull ⊢
  obtain ⟨usages, unknowns, hrows⟩ : ∃ usages unknowns,
      (collectListed X lifecycle list (disc.lists.getD []) (preferredOf disc.groups) skipped self).rows =
        some (usages, unknowns) := ⟨_, _, rfl⟩
  refine ⟨usages, unknowns, hrows, ?_, rows_of_complete hrows⟩
  exact fun k e he hremoved hshows => removal_accounted hrows hfull he hremoved hshows

/-- client-go's functions on plain group/versions, with annotations that hold a bare version. -/
def Kube.plain : Kube where
  toExternal := External.ascii
  parseGroupVersion gv := match split gv '/' with
    | [v] => some ("", v)
    | [g, v] => some (g, v)
    | _ => none
  groupVersion g v := if g = "" then v else g ++ "/" ++ v
  appliedVersion := some

/-- The lifecycle of two kinds that are removed, one of them replaced in another group. -/
def removedKinds : List APILifecycleEntry :=
  [{ group := "policy", version := "v1beta1", kind := "PodSecurityPolicy", introduced := ⟨1, 10⟩, removed := some ⟨1, 25⟩ },
    { group := "extensions", version := "v1beta1", kind := "Ingress", introduced := ⟨1, 1⟩, removed := some ⟨1, 22⟩,
      replacement := some ⟨"networking.k8s.io", "v1", "Ingress"⟩ }]

/-- A cluster that serves the two removed kinds, and the replacement of one. -/
def servesRemoved : Discovery where
  lists := some [⟨"extensions/v1beta1", [⟨"ingresses", "Ingress", ["list"]⟩]⟩,
    ⟨"networking.k8s.io/v1", [⟨"ingresses", "Ingress", ["list"]⟩]⟩,
    ⟨"policy/v1beta1", [⟨"podsecuritypolicies", "PodSecurityPolicy", ["list"]⟩]⟩]

/-- The LISTs of a cluster that refuses the second page of its Ingresses. -/
def refusedIngresses (gvr : GVR) : Pages :=
  if gvr.resource = "ingresses" then .next [{ name := "web" }] (.failed "forbidden")
  else .last [{ name := "restricted" }]

/-- The Ingress API of the other group is named, and no row holds the Ingress of the first page. -/
theorem collectAPIUsage_accounts_refused :
    ∃ usages unknowns, (collectAPIUsage .plain removedKinds refusedIngresses servesRemoved).rows = some (usages, unknowns) ∧
      (∃ msg names, (collectAPIUsage .plain removedKinds refusedIngresses servesRemoved).err = some (.partially msg names) ∧
        "extensions/v1beta1 Ingress" ∈ names) ∧
      ∀ u ∈ usages, ∃ gvr items, (refusedIngresses gvr).items = .ok items := by
  have herr : (collectAPIUsage .plain removedKinds refusedIngresses servesRemoved).err =
      some (.partially "list networking.k8s.io/v1 ingresses: forbidden" ["extensions/v1beta1 Ingress"]) := by
    decide +kernel
  obtain ⟨usages, unknowns, hrows, -, husages, -⟩ :=
    collectAPIUsage_accounts .plain removedKinds refusedIngresses servesRemoved (by simp [herr])
  refine ⟨usages, unknowns, hrows, ⟨_, _, herr, by simp⟩, fun u hu => ?_⟩
  obtain ⟨gvr, items, hitems, -⟩ := husages u hu
  exact ⟨gvr, items, hitems⟩

end Accounts

end UpgradeScope.Collect
