import UpgradeScope.Engine.Evaluate
import UpgradeScope.Suppress.Apply
import UpgradeScope.Server.GateMerge

/-!
# The gate

`internal/server/gate.go` answers a posted stream of manifests with the report of the state they would
leave a cluster in. `mergeManifests` makes that state out of the cluster's inventory and the stream's:
usage rows, add-ons and volume plugins are merged, and the stream's custom resources are judged against
the definitions of both (`assessCRDs` of `internal/collect`). `evaluateGate` evaluates it, applies the
request's ignore rules and the objects' annotations, and cuts the listings of what is left. Without a
cluster the stream is evaluated alone.

What the stream decodes to is a parameter, as is what the team map makes of namespaces; the API groups
that client-go's scheme registers are one too.
-/

namespace UpgradeScope

open Go Sorting Merging Kb Suppress

/-! ## Volume plugins -/

/-- One turn of the loop of `mergeVolumePlugins`: a row added to its plugin's. -/
def addVolumes (m u : VolumePluginUse) : VolumePluginUse where
  plugin := m.plugin
  count := satAdd m.count u.count
  namespaces := addEntries satAdd m.namespaces u.namespaces.entries
  objects := m.objects ++ u.objects
  objectsOmitted := satAdd m.objectsOmitted u.objectsOmitted

/-- `mergeVolumePlugins`. -/
def mergeVolumePlugins (cluster manifests : List VolumePluginUse) : List VolumePluginUse :=
  if manifests.isEmpty then cluster
  else (groupOn (·.plugin) (cluster ++ manifests)).map fun g => g.2.foldl addVolumes { plugin := g.1, count := 0 }

/-! ## Custom resources -/

/-- `currentVersion`: the CRD serves the version without deprecating it. -/
def currentVersion (c : CRD) (v : String) : Bool :=
  (c.versions.find? (·.name = v)).any fun cv => cv.served && !cv.deprecated

/-- The group and kind a CRD defines. -/
def CRD.groupKind (c : CRD) : String × String := (c.group, c.kind)

/-- Why the crds capability is partial: custom resource APIs, sorted, that nothing in a place defines. -/
def undefinedReason (place : String) (orphans : List String) : String :=
  match orphans with
  | [api] => s!"no CRD in {place} for {api}, so whether its version is served was not assessed"
  | _ =>
    let listed := orphans.take 5
    let more := if orphans.length > 5 then s!" and {orphans.length - 5} more" else ""
    s!"no CRD in {place} for {orphans.length} custom resource APIs (" ++ join listed ", " ++ more ++
      "), so whether their versions are served was not assessed"

/-- `orphansReason`. -/
def orphansReason (orphans : List String) : String := undefinedReason "the cluster or the posted manifests" orphans

/-- `notCustomResources`. -/
def notCustomResources : List String := ["kustomize.config.k8s.io", "kpt.dev"]

section Assess

variable (registered : String → Bool)

/-- `builtinGroup` of `internal/collect`: Kubernetes itself serves the group. -/
def servedGroup (group : String) : Bool :=
  group = "apiextensions.k8s.io" || group = "apiregistration.k8s.io" || registered group

/-- `customResource`: objects of the group can only be served through a CRD. -/
def customResource (group : String) : Bool :=
  contains group "." && !servedGroup registered group && group ∉ notCustomResources

/-- `assessCRDs`: the CRDs, a later definition of a group and kind replacing an earlier one, each with
the objects at a version it does not serve or deprecates. -/
def assessCRDs (inv : Inventory) (crds : List CRD) : Inventory :=
  let out := crds.foldl (upsertOn CRD.groupKind fun _ c => c) []
  let orphans := sorted ((inv.apiUsage.filter fun u =>
    !out.any (·.groupKind = (u.group, u.kind)) && customResource registered u.group).map fun u =>
      u.group ++ "/" ++ u.version ++ " " ++ u.kind)
  { inv with
    crds := (sortOn (fun c : CRD => toLex c.groupKind) out).map fun c =>
      { c with usage := c.usage ++ inv.apiUsage.filter fun u =>
          c.groupKind = (u.group, u.kind) && !currentVersion c u.version }
    capabilities := inv.capabilities.insert capCRDs
      (if orphans = [] then { available := true }
      else { available := true, partly := true, reason := undefinedReason "the scanned files" orphans, skipped := orphans }) }

/-! ## The proposed state -/

/-- The cluster's custom resources of a CRD's group and kind at a version the CRD has not current. -/
def residentUsage (cluster : List CRD) (c : CRD) : List APIUsage :=
  ((cluster.reverse.find? (·.groupKind = c.groupKind)).map fun old =>
    old.usage.filter fun u => !currentVersion c u.version).getD []

/-- A CRD of the proposed state: with the cluster's stored versions, and its custom resources merged
with the stream's. -/
def proposedCRD (cluster : List CRD) (c : CRD) : CRD :=
  { c with
    storedVersions := ((cluster.reverse.find? (·.groupKind = c.groupKind)).map (·.storedVersions)).getD c.storedVersions
    usage := sortOn (·.version) (upsertUsage (residentUsage cluster c) c.usage) }

/-- `mergeManifests`: the proposed state, and the stream judged against its CRDs. -/
def mergeManifests (proposed manifests : Inventory) : Inventory × Inventory :=
  let defs := (proposed.crds ++ manifests.crds).map fun c => { c with usage := [], storedVersions := [] }
  let side := assessCRDs registered manifests defs
  let st := proposed.capability capCRDs
  let orphans := (side.capability capCRDs).skipped
  let reason := orphansReason orphans
  ({ proposed with
      addOns := upsertAddOns proposed.addOns manifests.addOns
      volumePlugins := mergeVolumePlugins proposed.volumePlugins manifests.volumePlugins
      crds := side.crds.map (proposedCRD proposed.crds)
      capabilities :=
        if st.available && !orphans.isEmpty then
          proposed.capabilities.insert capCRDs
            { st with
              partly := true
              reason := if st.reason = "" then reason else st.reason ++ "; " ++ reason
              skipped := sortedSet (st.skipped ++ orphans) }
        else proposed.capabilities }, side)

/-- The inventory `gateWithin` evaluates before the rest of the merge: the stream's API usage is
available, unless the server judged the cluster's not to be. -/
def withUsage (clusterInv manifests : Inventory) (viewed : Bool) : Inventory :=
  { clusterInv with
    apiUsage := upsertUsage clusterInv.apiUsage manifests.apiUsage
    capabilities := clusterInv.capabilities.insert capAPIUsage
      (if viewed then clusterInv.capability capAPIUsage else { available := true }) }

/-- `manifestsOwn`: the objects of the stream and of its side of the merge. -/
def manifestsOwn (invs : List Inventory) (o : ObjectRef) : Bool :=
  invs.any fun inv => inv.apiUsage.any (fun u => o ∈ u.objects) || inv.crds.any (fun c => c.usage.any fun u => o ∈ u.objects) ||
    inv.volumePlugins.any fun v => o ∈ v.objects

/-! ## The answer -/

/-- Goes on with a report, unless there is none. -/
def andThen {α β : Type} (x : Option (Except TooLarge α)) (f : α → Option (Except TooLarge β)) :
    Option (Except TooLarge β) :=
  match x with
  | none => none
  | some (.error e) => some (.error e)
  | some (.ok a) => f a

/-- A computation that went on with a report returned. -/
theorem andThen_eq_ok {α β : Type} {x : Option (Except TooLarge α)} {f : α → Option (Except TooLarge β)} {b : β} :
    andThen x f = some (.ok b) ↔ ∃ a, x = some (.ok a) ∧ f a = some (.ok b) := by
  unfold andThen
  split <;> simp

/-- A computation evaluates to a report with a property. -/
theorem exists_ok_of_any {α : Type} {x : Option (Except TooLarge α)} {p : α → Prop} [DecidablePred p]
    (h : x.any (fun r => r.toOption.any fun a => decide (p a)) = true) : ∃ a, x = some (.ok a) ∧ p a := by
  obtain ⟨r, hr, hp⟩ := (Option.any_eq_true _ _).mp h
  cases r with
  | error e => simp [Except.toOption] at hp
  | ok a => exact ⟨a, hr, of_decide_eq_true (by simpa [Except.toOption] using hp)⟩

/-- `gateEval`: the evaluation of the proposed state, those it is compared with, and what the stream
holds. -/
structure GateEval where
  /-- The proposed state's report. -/
  full : Report
  /-- The cluster's, with a cluster only. -/
  baseline : Option Report := none
  /-- The stream's own, with a cluster only. -/
  side : Option Report := none
  /-- The objects of the stream. -/
  mine : ObjectRef → Bool := fun _ => false

/-- The refs of a stream's rows, in the file the request names. -/
def atPath (artifact : String) (inv : Inventory) : Inventory :=
  let placed := fun u : APIUsage => { u with objects := u.objects.map ({ · with file := artifact }) }
  { inv with
    apiUsage := inv.apiUsage.map placed
    crds := inv.crds.map fun c => { c with usage := c.usage.map placed }
    volumePlugins := inv.volumePlugins.map fun v => { v with objects := v.objects.map ({ · with file := artifact }) } }

/-- A gate request: its target, rules and path, and whose scope it is read in. -/
structure GateRequest where
  /-- `?target=`. -/
  target : Version
  /-- `?config=`. -/
  rules : List Rule := []
  /-- `?path=`. -/
  artifact : String := ""
  /-- The caller's scope. -/
  scope : ReadScope := ⟨none⟩

section Answer

variable (fuel : ℕ) (X : External) (k : KB) (now : Time) (limit : ℤ) (teamMap : List NamespaceInfo → List NamespaceInfo)

/-- `gateWithin`. -/
def gateWithin (target : Version) (clusterInv : Inventory) (viewed : Bool) (manifests : Inventory) :
    Option (Except TooLarge GateEval) :=
  let merged := mergeManifests registered (withUsage clusterInv manifests viewed) manifests
  andThen (evaluateWithin fuel X clusterInv k target now limit) fun base =>
  andThen (evaluateWithin fuel X merged.2 k target now limit) fun sideRep =>
  andThen (evaluateWithin fuel X merged.1 k target now limit) fun full =>
    some (.ok ⟨full, some base, some sideRep, manifestsOwn [manifests, merged.2]⟩)

/-- `suppressGate`, its warnings apart. -/
def suppressGate (rep : Report) (rules : List Rule) : Report :=
  (Suppress.apply X { now := now, source := "config" } rep rules).1

/-- The state a gate evaluates, and the objects of its stream. -/
def gateState (req : GateRequest) (cluster : Option (Inventory × Bool)) (posted : Inventory) :
    Inventory × (ObjectRef → Bool) :=
  let manifests := atPath req.artifact posted
  match cluster with
  | none => ({ manifests with namespaces := teamMap manifests.namespaces }, fun _ => false)
  | some (inv, viewed) =>
    let share := req.scope.clusterShare { inv with namespaces := teamMap inv.namespaces }
    let merged := mergeManifests registered (withUsage share manifests viewed) manifests
    (merged.1, manifestsOwn [manifests, merged.2])

/-- `evaluateGate`, up to the tags of `gateResult`: the answer's report, with a cluster's inventory and
whether the server's judgement of it changed its API usage, or without. -/
def evaluateGate (req : GateRequest) (cluster : Option (Inventory × Bool)) (posted : Inventory) :
    Option (Except TooLarge Report) :=
  let manifests := atPath req.artifact posted
  let eval := match cluster with
    | none =>
      andThen (evaluateWithin fuel X { manifests with namespaces := teamMap manifests.namespaces } k req.target now limit)
        fun full => some (.ok { full := full })
    | some (inv, viewed) => gateWithin registered fuel X k now limit req.target
        (req.scope.clusterShare { inv with namespaces := teamMap inv.namespaces }) viewed manifests
  andThen eval fun ev => some (.ok (capObjects (suppressGate X now ev.full req.rules) ev.mine))

/-- The answer of a gate is the report of its state, suppressed and cut. -/
theorem evaluateGate_eq_ok {req : GateRequest} {cluster : Option (Inventory × Bool)} {posted : Inventory} {ans : Report}
    (h : evaluateGate registered fuel X k now limit teamMap req cluster posted = some (.ok ans)) :
    ∃ full, evaluateWithin fuel X (gateState registered teamMap req cluster posted).1 k req.target now limit = some (.ok full) ∧
      ans = capObjects (suppressGate X now full req.rules) (gateState registered teamMap req cluster posted).2 := by
  unfold evaluateGate at h
  obtain ⟨ev, hev, hans⟩ := andThen_eq_ok.mp h
  obtain rfl := Except.ok.inj (Option.some.inj hans)
  cases cluster with
  | none =>
    obtain ⟨full, hfull, hev⟩ := andThen_eq_ok.mp hev
    obtain rfl := Except.ok.inj (Option.some.inj hev)
    exact ⟨full, hfull, rfl⟩
  | some c =>
    obtain ⟨base, -, hev⟩ := andThen_eq_ok.mp hev
    obtain ⟨sideRep, -, hev⟩ := andThen_eq_ok.mp hev
    obtain ⟨full, hfull, hev⟩ := andThen_eq_ok.mp hev
    obtain rfl := Except.ok.inj (Option.some.inj hev)
    exact ⟨full, hfull, rfl⟩

end Answer

end Assess

end UpgradeScope
