import UpgradeScope.Engine.Usage

/-!
# The versions of custom resource definitions

`internal/engine/crdversions.go`: what each CRD says about its own versions. A deprecated version
warns while custom resources use it, a version in use that the CRD does not serve blocks, and a stored
version it does not serve warns (`evalCRDVersions`).
-/

namespace UpgradeScope

open Go Sorting Kb

/-- `crdVersioningURL`. -/
def crdVersioningURL : String :=
  "https://kubernetes.io/docs/tasks/extend-kubernetes/custom-resources/custom-resource-definition-versioning/"

/-- `storageMigrationURL`. -/
def storageMigrationURL : String :=
  crdVersioningURL ++ "#upgrade-existing-objects-to-a-new-stored-version"

namespace CRD

/-- The CRD's own name. -/
def name (c : CRD) : String := c.plural ++ "." ++ c.group

/-- The entry of a version, the last of the name counting. -/
def listed (c : CRD) (version : String) : Option CRDVersion :=
  c.versions.reverse.find? (·.name = version)

/-- The version is listed and served. -/
def serves (c : CRD) (version : String) : Bool := (c.listed version).any (·.served)

/-- The storage version, the last of several, "" for none. -/
def storageVersion (c : CRD) : String :=
  ((c.versions.reverse.find? (·.storage)).map (·.name)).getD ""

/-- The served versions as text. -/
def servedText (c : CRD) : String :=
  let served := (c.versions.filter (·.served)).map (·.name)
  if served = [] then "no version" else join (sorted served) ", "

/-- The custom resources in use at a version, the last row of the version counting. -/
def used (c : CRD) (version : String) : Option APIUsage :=
  c.usage.reverse.find? fun u => u.version = version ∧ 0 < u.count

end CRD

section Crds

variable (X : External) (inv : Inventory) (target : Version)

/-- What every finding about a CRD's version says of its cause. -/
def independent : String :=
  s!" CRD versions are set by the add-on that ships the CRD, independent of Kubernetes {target}."

/-- The detail `crdUsage` returns: who uses the version. -/
def crdUsageDetail (u : APIUsage) : String :=
  let listed := listedObjects inv.source u
  let what := match listed with
    | .manifest => s!"{u.count} manifest object(s) use this version"
    | .mixed => s!"{u.count} object(s) use this version"
    | .stored => s!"{u.count} object(s) written through this version"
  let (nsDetail, _) := namespaceBreakdown u.namespaces listed.emptyNamespace
  (if nsDetail = "" then what ++ "." else what ++ ": " ++ nsDetail ++ ".") ++ writtenBy u

/-- `crdUsage`: the finding with the teams, namespaces and objects of a usage row. -/
def crdUsage (u : APIUsage) (f : Finding) : Finding :=
  let (_, nsNames) := namespaceBreakdown u.namespaces (listedObjects inv.source u).emptyNamespace
  { f with
    teams := teamsFor inv.namespaces nsNames
    namespaces := nsNames
    objects := sortedObjects u.objects
    objectsOmitted := u.objectsOmitted }

/-- The finding about a version the CRD serves and marks deprecated. -/
def deprecatedVersionFinding (c : CRD) (v : CRDVersion) : Finding :=
  let gv := gvString c.group v.name
  let inUse := c.used v.name
  let preferred := c.preferredVersion X
  let usage := match inUse with
    | some u => crdUsageDetail inv u
    | none =>
      if gv ++ " " ++ c.kind ∈ (inv.capability capCRDs).skipped then
        "Custom resources written through this version were not checked (see the crds gap)."
      else "No custom resource was found written through this version."
  let warning := trimSpace v.deprecationWarning
  let words := X.quote (trimSuffix warning ".")
  let quoted := if warning ≠ "" then s!" The CRD says: {words}." else ""
  let stored :=
    if v.name ≠ c.storageVersion ∧ v.name ∈ c.storedVersions then
      s!" Objects may still be stored at {v.name} (status.storedVersions)."
    else ""
  let f : Finding :=
    { category := .crdVersion
      severity := if inUse.isSome then .warning else .info
      key := Category.crdVersion.name ++ "/deprecated/" ++ apiKey c.group v.name c.kind
      title := s!"{gv} {c.kind} is a deprecated CRD version" ++
        (inUse.map fun u => s!" ({pluralObjects u.count})").getD ""
      detail := usage ++ s!" CRD {c.name} marks {v.name} deprecated." ++ quoted ++ stored ++
        independent target
      remediation :=
        if preferred = "" then
          s!"check the add-on's upgrade notes for the version that replaces {v.name}: the CRD serves none that is not deprecated"
        else if inUse.isSome then
          s!"move these objects to {gvString c.group preferred} before an add-on upgrade stops serving {v.name}"
        else s!"use {gvString c.group preferred}; an add-on upgrade may stop serving {v.name}"
      citations := [crdVersioningURL ++ "#version-deprecation"] }
  match inUse with
  | some u => crdUsage inv u f
  | none => f

/-- The finding about custom resources at a version the CRD does not serve. -/
def unservedVersionFinding (c : CRD) (u : APIUsage) : Finding :=
  let gv := gvString c.group u.version
  let preferred := c.preferredVersion X
  crdUsage inv u
    { category := .crdVersion
      severity := .blocker
      key := Category.crdVersion.name ++ "/unserved/" ++ apiKey c.group u.version c.kind
      title := s!"{gv} {c.kind} is not served by its CRD ({pluralObjects u.count})"
      detail := crdUsageDetail inv u ++
        (if (c.listed u.version).isSome then
          s!" CRD {c.name} marks {u.version} served: false (it serves {c.servedText}), so the apiserver rejects these objects at {u.version}."
        else
          s!" CRD {c.name} does not list {u.version} (it serves {c.servedText}), so the apiserver rejects these objects at {u.version}.") ++
        independent target
      remediation :=
        (if preferred ≠ "" then
          s!"move these objects to {gvString c.group preferred}; the apiserver rejects writes at {u.version}"
        else
          s!"move these objects to a version the CRD serves; the apiserver rejects writes at {u.version}") ++
        if objectManagers u.objects ≠ [] then
          ". A named manager that no longer writes them keeps them listed through its managedFields entry until another manager takes over its fields or the entry is removed"
        else ""
      citations := [crdVersioningURL] }

/-- The finding about a stored version the CRD does not serve. -/
def storedVersionFinding (c : CRD) (s : String) : Finding :=
  let storage := c.storageVersion
  { category := .crdVersion
    severity := .warning
    key := Category.crdVersion.name ++ "/stored-unserved/" ++ apiKey c.group s c.kind
    title := s!"CRD {c.name} lists unserved version {s} in status.storedVersions"
    detail := s!"Objects may still be persisted at {s}, which CRD {c.name} no longer serves (storage version: {storage}). A CRD update that drops {s} from spec.versions is rejected while status.storedVersions lists it, so the add-on upgrade that drops it fails." ++
      independent target
    remediation := s!"migrate every stored {c.kind} to the storage version {storage} (kube-storage-version-migrator, the add-on's own tool such as cert-manager's cmctl upgrade migrate-api-version, or a no-op update of each object), then remove {s} from status.storedVersions (kubectl patch crd {c.name} --subresource=status)"
    citations := [storageMigrationURL] }

/-- The findings about one CRD. -/
def crdFindings (c : CRD) : List Finding :=
  ((c.versions.filter fun v => v.served && v.deprecated).map (deprecatedVersionFinding X inv target c)) ++
    ((c.usage.filter fun u => u.count ≠ 0 && !c.serves u.version).map
      (unservedVersionFinding X inv target c)) ++
    ((c.storedVersions.filter fun s => s ≠ c.storageVersion && !c.serves s).map
      (storedVersionFinding target c))

/-- `evalCRDVersions`, before charging. -/
def evalCRDVersions : List Finding := inv.crds.flatMap (crdFindings X inv target)

end Crds

end UpgradeScope
