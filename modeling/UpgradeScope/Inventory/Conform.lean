import UpgradeScope.Inventory.Admit

/-!
# Repairing an inventory

`internal/inventory/conform.go` and `conformVolumes`: a collector repairs the inventory it built so that `Admit` does
not refuse it. What it leaves out is recorded for the capability it costs data (`Repairs`), and written into the
capability's status at the end: the capability is partial, and `skipped` names what was not recorded, twenty of the
names at most. What the repairs of known shapes leave is dropped an element at a time, by the field that the checks
name (`dropElement`).
-/

namespace UpgradeScope

open Go Sorting

/-! ## What was repaired -/

/-- `maxFallbackDrops`. -/
def maxFallbackDrops : ℕ := 256

/-- `maxNamedSkips`. -/
def maxNamedSkips : ℕ := 20

/-- `capRepairs`: the repairs of a capability. -/
structure CapRepairs where
  /-- What is named as skipped, in the order first named. -/
  skipped : List String := []
  /-- The kinds of repairs and how many of each, in the order first made. -/
  notes : List (String × ℕ) := []

/-- `repairs`: the capabilities with repairs, in the order of the first. -/
abbrev Repairs := List (Capability × CapRepairs)

/-- One more repair of a kind. -/
def CapRepairs.note (cr : CapRepairs) (note : String) : CapRepairs :=
  { cr with
    notes :=
      if cr.notes.any (·.1 = note) then cr.notes.map fun p => if p.1 = note then (p.1, p.2 + 1) else p
      else cr.notes ++ [(note, 1)] }

/-- A name is named once. -/
def CapRepairs.skip (cr : CapRepairs) (what : String) : CapRepairs :=
  if what ∈ cr.skipped then cr else { cr with skipped := cr.skipped ++ [what] }

namespace Repairs

/-- `repairs.of`: the repairs of a capability. -/
def of (r : Repairs) (c : Capability) : CapRepairs := ((r.find? (·.1 = c)).map (·.2)).getD {}

/-- The repairs with those of a capability changed. -/
def modify (r : Repairs) (c : Capability) (f : CapRepairs → CapRepairs) : Repairs :=
  if r.any (·.1 = c) then r.map fun p => if p.1 = c then (p.1, f p.2) else p else r ++ [(c, f {})]

/-- `repairs.skip`. -/
def skip (r : Repairs) (c : Capability) (what : String) : Repairs := r.modify c (·.skip what)

/-- `repairs.add`. -/
def add (r : Repairs) (c : Capability) (note skipped : String) : Repairs :=
  r.modify c fun cr => if skipped ≠ "" then (cr.note note).skip skipped else cr.note note

/-- `repairs.total`. -/
def total (r : Repairs) (c : Capability) : ℕ := ((r.of c).notes.map (·.2)).sum

end Repairs

/-- The kinds of a capability's repairs, and how many names are not told. -/
def CapRepairs.parts (cr : CapRepairs) : List String :=
  (cr.notes.map fun p => s!"{p.2} {p.1}") ++
    if cr.skipped.length > maxNamedSkips then [s!"{cr.skipped.length - maxNamedSkips} more not named"] else []

/-- The note of a capability's repairs. -/
def CapRepairs.text (cr : CapRepairs) : String := "not recorded, so not assessed: " ++ join cr.parts "; "

/-- The names that are told. -/
def CapRepairs.named (cr : CapRepairs) : List String := (sorted cr.skipped).take maxNamedSkips

/-- The status of an available capability with its repairs. -/
def CapabilityStatus.repaired (st : CapabilityStatus) (cr : CapRepairs) : CapabilityStatus :=
  { st with
    partly := true
    reason := (if st.reason ≠ "" then st.reason ++ "; " else "") ++ cr.text
    skipped := sortedSet (st.skipped ++ cr.named) }

/-- One turn of `repairs.apply`: a capability that is not reported, or not available, stays so. -/
def applyRepair (inv : Inventory) (p : Capability × CapRepairs) : Inventory :=
  match inv.capabilities.lookup p.1 with
  | none => inv
  | some st =>
    if st.available then { inv with capabilities := inv.capabilities.insert p.1 (st.repaired p.2) } else inv

/-- `repairs.apply`: the inventory with the repairs in its statuses, and a line for each capability. -/
def Repairs.apply (r : Repairs) (inv : Inventory) : Inventory × List String :=
  (r.foldl applyRepair inv, r.map fun p => p.1 ++ ": " ++ p.2.text)

/-! ## The shapes collectors are known to produce -/

section Conform

variable (X : External)

/-- `problemsWith` finds none. -/
def fits (value : String) (problems : String → List String) : Bool := value = "" || problems value = []

/-- `shortIdentifier`: a valid identifier as it stands, else quoted and cut. -/
def shortIdentifier (s : String) (problems : String → List String) : String :=
  if fits s problems then s
  else
    let q := X.quote (utf8Prefix s 40)
    if byteLen s > 40 then String.ofList q.toList.dropLast ++ "…\"" else q

/-- `releaseLabel`. -/
def releaseLabel (ns name : String) : String :=
  shortIdentifier X ns X.labelProblems ++ "/" ++ shortIdentifier X name X.subdomainProblems

/-- `releaseProblem`: why a Helm release would be refused. -/
def releaseProblem (rel : HelmRelease) : Option String :=
  if ¬ fits rel.name X.subdomainProblems then some "a name that is not an RFC 1123 subdomain"
  else if ¬ fits rel.namespace X.labelProblems then some "a namespace that is not a namespace name"
  else if [rel.chartName, rel.chartVersion, rel.appVersion, rel.kubeVersion, rel.status].any
      (byteLen · > maxStringBytes) then
    some s!"chart metadata over {maxStringBytes} bytes"
  else none

/-- `objectProblem`: why an object would be refused. -/
def objectProblem (o : ObjectRef) : Option String :=
  if ¬ fits o.namespace X.labelProblems then some "a namespace that is not a namespace name"
  else if ¬ fits o.name (objectNameProblems X) then some "a name that is not an object name"
  else if (managerProblem X o.manager).isSome then some "a field manager the apiserver would not accept"
  else if [o.file, o.ignore, o.ignoreReason, o.renderedFrom].any (byteLen · > maxStringBytes) then
    some s!"a string over {maxStringBytes} bytes"
  else none

/-- `article`. -/
def article (word : String) : String :=
  match word.toList with
  | c :: _ => if c ∈ "AEIOUaeiou".toList then "an" else "a"
  | [] => "a"

/-- `conformRefs`: the namespace counts, objects and omitted count of a row without what would be refused, and with
at most `maxObjectRefs` objects. -/
def conformRefs (counts : NamespaceCounts) (objs : List ObjectRef) (omitted : ℤ) (c : Capability) (what : String)
    (r : Repairs) : NamespaceCounts × List ObjectRef × ℤ × Repairs :=
  let bad := counts.keys.filter fun ns => ¬ fits ns X.labelProblems ∨ byteLen ns > maxStringBytes
  let r := bad.foldl (fun r _ =>
    r.add c ("namespace key(s) of " ++ article what ++ " " ++ what ++ " count dropped for not being a namespace name")
      "") r
  let reasons := objs.filterMap (objectProblem X)
  let r := reasons.foldl (fun r why => r.add c ("object(s) of " ++ what ++ " dropped for " ++ why) "") r
  let kept := objs.filter fun o => (objectProblem X o).isNone
  let omitted := wrap64 (omitted + reasons.length)
  (bad.foldl (fun m ns => m.erase ns) counts,
    if kept.length > maxObjectRefs then
      (kept.take maxObjectRefs, wrap64 (omitted + (kept.length - maxObjectRefs : ℕ)),
        r.add c ("object(s) of " ++ what ++ " beyond the cap counted, not listed") "")
    else (kept, omitted, r))

/-- `conformUsages`. -/
def conformUsages (c : Capability) : List APIUsage → Repairs → List APIUsage × Repairs
  | [], r => ([], r)
  | u :: us, r =>
    let (counts, objs, omitted, r) := conformRefs X u.namespaces u.objects u.objectsOmitted c "API usage" r
    let (us, r) := conformUsages c us r
    ({ u with namespaces := counts, objects := objs, objectsOmitted := omitted } :: us, r)

/-- `conformHelm`: the releases without those that would be refused, their manifests repaired. -/
def conformHelm : List HelmRelease → Repairs → List HelmRelease × Repairs
  | [], r => ([], r)
  | rel :: rels, r =>
    match releaseProblem X rel with
    | some why =>
      conformHelm rels (r.add capHelm ("Helm release(s) dropped for " ++ why) (releaseLabel X rel.namespace rel.name))
    | none =>
      let before := r.total capHelm
      let (us, r) := conformUsages X capHelm rel.manifestAPIs r
      let r := if r.total capHelm ≠ before then r.skip capHelm (rel.namespace ++ "/" ++ rel.name) else r
      let (rels, r) := conformHelm rels r
      ({ rel with manifestAPIs := us } :: rels, r)

/-- The usage rows of the CRDs, repaired. -/
def conformCRDs : List CRD → Repairs → List CRD × Repairs
  | [], r => ([], r)
  | crd :: crds, r =>
    let (us, r) := conformUsages X capCRDs crd.usage r
    let (crds, r) := conformCRDs crds r
    ({ crd with usage := us } :: crds, r)

/-- An add-on install with a string over the limit. -/
def AddOnInstance.long (a : AddOnInstance) : Bool :=
  [a.id, a.version, a.chartVersion, a.source].any (byteLen · > maxStringBytes)

/-- `conformAddOns`. -/
def conformAddOns (addOns : List AddOnInstance) (r : Repairs) : List AddOnInstance × Repairs :=
  (addOns.filter fun a => ¬ a.long,
    (addOns.filter (·.long)).foldl (fun r _ =>
      r.add capAddOns s!"add-on install(s) dropped for a string over {maxStringBytes} bytes" skippedPods) r)

/-- `conformImages`: the images, the omitted count, and the repairs. -/
def conformImages (images : List String) (omitted : ℤ) (r : Repairs) : List String × ℤ × Repairs :=
  let long := images.filter fun img => byteLen img > maxStringBytes
  let kept := images.filter fun img => ¬ byteLen img > maxStringBytes
  let r := long.foldl (fun r _ =>
    r.add capAddOns s!"image repositor(ies) over {maxStringBytes} bytes counted in unrecognizedImagesOmitted, not listed"
      "") r
  let omitted := wrap64 (omitted + long.length)
  if kept.length > maxUnrecognizedImages then
    (kept.take maxUnrecognizedImages, wrap64 (omitted + (kept.length - maxUnrecognizedImages : ℕ)),
      r.add capAddOns "image repositor(ies) beyond the cap counted in unrecognizedImagesOmitted, not listed" "")
  else (kept, omitted, r)

/-- `volumeLabel`. -/
def volumeLabel (v : VolumePluginUse) : String :=
  if volumePluginProblems v.plugin = [] then v.plugin else quoteShort X (utf8Prefix v.plugin 40)

/-- The rows of the volume plugins, repaired. -/
def conformVolumeRows : List VolumePluginUse → Repairs → List VolumePluginUse × Repairs
  | [], r => ([], r)
  | v :: vs, r =>
    let (counts, objs, omitted, r) :=
      conformRefs X v.namespaces v.objects v.objectsOmitted capVolumes "volume plugin use" r
    let (vs, r) := conformVolumeRows vs r
    ({ v with namespaces := counts, objects := objs, objectsOmitted := omitted } :: vs, r)

/-- `conformVolumes`. -/
def conformVolumes (vs : List VolumePluginUse) (r : Repairs) : List VolumePluginUse × Repairs :=
  let (vs, r) := conformVolumeRows X vs r
  (vs.take maxVolumePlugins,
    (vs.drop maxVolumePlugins).foldl (fun r v =>
      r.add capVolumes "volume plugin entr(ies) beyond the cap dropped" (volumeLabel X v)) r)

/-! ## What is left -/

/-- `checkAdmissible`. -/
def checkAdmissible (inv : Inventory) : Option AdmitError := validateIdentifiers X inv <|> validateLimits X inv

/-- `elementOf`: the list and the index of the path an error names. -/
def elementOf (field : String) : Option (String × ℕ) :=
  match cut field '[' with
  | (list, rest, true) =>
    match cut rest ']' with
    | (idx, _, true) => (atoi idx).bind fun n => if n < 0 then none else some (list, n.toNat)
    | _ => none
  | _ => none

/-- `usageLabel`: "group/version Kind", cut where long. -/
def usageLabel (u : APIUsage) : String :=
  utf8Prefix (if u.group = "" then u.version else u.group ++ "/" ++ u.version) 96 ++ " " ++ utf8Prefix u.kind 64

/-- What a GitOps tool is named as when a chart of it is dropped. -/
def toolLabel (tool : String) : String := if tool ≠ "argocd" ∧ tool ≠ "flux" then "" else tool

/-- The element of a list dropped, when there is one: `add` records it. -/
def dropAt {α : Type} (l : List α) (i : ℕ) (set : List α → Inventory) (add : α → Repairs) :
    Option (Inventory × Repairs) :=
  l[i]?.map fun a => (set (l.eraseIdx i), add a)

/-- `dropElement`, of a list. -/
def dropFrom (list : String) (i : ℕ) (inv : Inventory) (r : Repairs) : Option (Inventory × Repairs) :=
  match list with
  | "helmReleases" => dropAt inv.helmReleases i (fun l => { inv with helmReleases := l }) fun rel =>
      r.add capHelm "Helm release(s) dropped for a value Admit refuses" (releaseLabel X rel.namespace rel.name)
  | "gitopsCharts" => dropAt inv.gitopsCharts i (fun l => { inv with gitopsCharts := l }) fun c =>
      r.add capHelm "GitOps chart source(s) dropped for a value Admit refuses" (toolLabel c.tool)
  | "addOns" => dropAt inv.addOns i (fun l => { inv with addOns := l }) fun _ =>
      r.add capAddOns "add-on install(s) dropped for a value Admit refuses" skippedPods
  | "apiUsage" => dropAt inv.apiUsage i (fun l => { inv with apiUsage := l }) fun u =>
      r.add capAPIUsage "API usage entr(ies) dropped for a value Admit refuses" (usageLabel u)
  | "apiAuthorshipUnknown" =>
    dropAt inv.apiAuthorshipUnknown i (fun l => { inv with apiAuthorshipUnknown := l }) fun u =>
      r.add capAPIUsage "API usage entr(ies) dropped for a value Admit refuses" (usageLabel u)
  | "crds" => dropAt inv.crds i (fun l => { inv with crds := l }) fun _ =>
      r.add capCRDs "CRD(s) dropped for a value Admit refuses" ""
  | "deprecatedCalls" => dropAt inv.deprecatedCalls i (fun l => { inv with deprecatedCalls := l }) fun _ =>
      r.add capDeprecatedCalls "deprecated call row(s) dropped for a value Admit refuses" ""
  | "nodes" => dropAt inv.nodes i (fun l => { inv with nodes := l }) fun _ =>
      r.add capVersions "node(s) dropped for a value Admit refuses" "nodes"
  | "controlPlane" => dropAt inv.controlPlane i (fun l => { inv with controlPlane := l }) fun _ =>
      r.add capVersions "control-plane component(s) dropped for a value Admit refuses" ""
  | "namespaces" => dropAt inv.namespaces i (fun l => { inv with namespaces := l }) fun _ =>
      r.add capVersions "namespace(s) dropped for a value Admit refuses" ""
  | "volumePlugins" => dropAt inv.volumePlugins i (fun l => { inv with volumePlugins := l }) fun v =>
      r.add capVolumes "volume plugin entr(ies) dropped for a value Admit refuses" (volumeLabel X v)
  | "unrecognizedImages" =>
    dropAt inv.unrecognizedImages i
      (fun l => { inv with
        unrecognizedImages := l
        unrecognizedImagesOmitted := wrap64 (inv.unrecognizedImagesOmitted + 1) }) fun _ =>
      r.add capAddOns "image repositor(ies) dropped for a value Admit refuses" ""
  | _ => none

/-- The field an error names, of an identifier or a limit. -/
def AdmitError.field : AdmitError → Option String
  | .identifier field _ _ _ => some field
  | .limit field _ _ _ => some field
  | _ => none

/-- `dropElement`: the inventory without the element an error names, `none` where there is none to drop. -/
def dropElement (err : AdmitError) (inv : Inventory) (r : Repairs) : Option (Inventory × Repairs) :=
  err.field.bind fun field =>
    if field = "provider" then
      some ({ inv with provider := "" },
        r.add capVersions "provider name dropped for not being a provider name" "")
    else (elementOf field).bind fun p => dropFrom X p.1 p.2 inv r

/-- The loop that drops the element that the checks name, at most so many times; it returns the last error. -/
def dropLoop : ℕ → Inventory → Repairs → Inventory × Repairs × Option AdmitError
  | n, inv, r =>
    match checkAdmissible X inv, n with
    | none, _ => (inv, r, none)
    | some err, 0 => (inv, r, some err)
    | some err, n + 1 =>
      match dropElement X err inv r with
      | none => (inv, r, some err)
      | some (inv, r) => dropLoop n inv r

/-- The repairs of the shapes that collectors are known to produce. -/
def conformKnown (inv : Inventory) : Inventory × Repairs :=
  let (releases, r) := conformHelm X inv.helmReleases []
  let (usage, r) := conformUsages X capAPIUsage inv.apiUsage r
  let (unknown, r) := conformUsages X capAPIUsage inv.apiAuthorshipUnknown r
  let (crds, r) := conformCRDs X inv.crds r
  let (addOns, r) := conformAddOns inv.addOns r
  let (images, omitted, r) := conformImages inv.unrecognizedImages inv.unrecognizedImagesOmitted r
  let (volumes, r) := conformVolumes X inv.volumePlugins r
  ({ inv with
      helmReleases := releases
      apiUsage := usage
      apiAuthorshipUnknown := unknown
      crds := crds
      addOns := addOns
      unrecognizedImages := images
      unrecognizedImagesOmitted := omitted
      volumePlugins := volumes }, r)

/-- `Conform`: the repaired inventory, a line for each capability, and the first problem `Admit` still has. -/
def conform (inv : Inventory) : Inventory × List String × Option AdmitError :=
  let (inv, r) := conformKnown X (cutFreeText inv)
  let (inv, r, err) := dropLoop X maxFallbackDrops inv r
  let (inv, lines) := r.apply inv
  let inv := cutFreeText inv
  (inv, lines, err <|> checkAdmissible X inv)

end Conform

end UpgradeScope
