import UpgradeScope.Engine.Skew
import UpgradeScope.Engine.Volumes

/-!
# What an evaluation could not assess

`assessmentGaps` of `internal/engine/engine.go`: the capabilities that are missing, unavailable or
partial, a server version that does not parse, a target past the knowledge base, and a target that is
no upgrade. A required gap keeps a verdict from being ready.
-/

namespace UpgradeScope

open Go Sorting Kb

/-- `removedBy`: an API a partial capability names is removed at the target. -/
def removedBy (k : KB) (target : Version) (api : String) : Bool :=
  match splitAPI api with
  | none => false
  | some (group, version, kind) => (lookup k.apiLifecycle ⟨group, version, kind⟩).any (removedAt target)

section Gaps

variable (X : External) (inv : Inventory) (k : KB) (target : Version)

/-- The capabilities whose absence makes the verdict unknown. -/
def requiredCapability (c : Capability) : Bool :=
  c = capAPIUsage || c = gapKBCoverage ||
    inv.source ≠ .files && (c = capVersions || c = capAddOns && k.addOns ≠ [])

/-- A partial capability may hide a blocker. -/
def partialRequired (c : Capability) (st : CapabilityStatus) : Bool :=
  if c = capAPIUsage then skippedNewerKB ∈ st.skipped || st.skipped.any (removedBy k target)
  else if c = capVersions then requiredCapability inv k c && st.skipped ≠ []
  else if c = capAddOns then
    requiredCapability inv k c && (skippedPods ∈ st.skipped || skippedNewerKB ∈ st.skipped)
  else if c = capVolumes then inv.source ≠ .files && volumesPartialRequired k target st.skipped
  else false

/-- The required capabilities an inventory does not report. -/
def missingGaps : List CapabilityGap :=
  ([capAPIUsage, capVersions, capAddOns].filter fun c =>
    inv.capabilities.lookup c = none ∧ requiredCapability inv k c).map fun c =>
      { capability := c
        required := true
        reason := "not reported in the inventory, so nothing it covers was assessed" }

/-- The gap of a reported capability: unavailable, or available in part. -/
def reportedGap (c : Capability) (st : CapabilityStatus) : Option CapabilityGap :=
  if ¬ st.available then
    some { capability := c, reason := st.reason, required := requiredCapability inv k c }
  else if st.partly then
    some
      { capability := c
        reason := st.reason
        partly := true
        skipped := sorted st.skipped
        required := partialRequired inv k target c st }
  else none

/-- The capabilities older collectors do not report: CRDs and volume plugins (`volumesGap`). -/
def unreportedGaps : List CapabilityGap :=
  (if inv.capabilities.lookup capCRDs = none then
    [{ capability := capCRDs
       reason := "not reported by the collector, which predates CRD checks; upgrade it to assess CRD versions" }]
  else []) ++
  (if inv.capabilities.lookup capVolumes = none then
    [{ capability := capVolumes
       reason := "not reported by the collector, which predates in-tree volume plugin checks; upgrade it to assess volume plugins" }]
  else [])

/-- The gap of a server version that is missing or does not parse. -/
def serverVersionGap : Option CapabilityGap :=
  let assessed : Bool := match inv.capabilities.lookup capVersions with
    | none => inv.source = .files
    | some st => st.available
  let required := requiredCapability inv k capVersions
  if ¬ assessed then none
  else if inv.serverVersion = "" then
    some
      { capability := capVersions
        required := required
        reason := "server version not reported; kubelet and control-plane skew were not evaluated" }
  else if version? X inv.serverVersion = none then
    some
      { capability := capVersions
        required := required
        reason := s!"server version {X.quote inv.serverVersion} could not be parsed; kubelet and control-plane skew were not evaluated" }
  else none

/-- The gap of a target past the knowledge base. -/
def coverageGap : Option CapabilityGap :=
  if target.le k.maxKnownK8s then none
  else some
    { capability := gapKBCoverage
      required := true
      reason := s!"knowledge base covers Kubernetes up to {k.maxKnownK8s}; target {target} cannot be assessed (API removals after {k.maxKnownK8s} are projected from k8s.io/api lifecycle markers, not shipped releases)" }

/-- The gap of a target that is no upgrade of the cluster. -/
def targetGap : Option CapabilityGap :=
  (upgradeFrom X inv).bind fun running =>
    if target.le running then
      some
        { capability := gapTarget
          required := true
          reason := s!"target {target} is not an upgrade: kube-apiserver already runs {running}, and every check judges a newer minor" }
    else none

/-- `assessmentGaps`, sorted by capability. -/
def assessmentGaps : List CapabilityGap :=
  sortOn (·.capability)
    (missingGaps inv k ++
      inv.capabilities.entries.filterMap (fun e => reportedGap inv k target e.1 e.2) ++
      unreportedGaps inv ++ (serverVersionGap X inv k).toList ++ (coverageGap k target).toList ++
      (targetGap X inv target).toList)

end Gaps

end UpgradeScope
