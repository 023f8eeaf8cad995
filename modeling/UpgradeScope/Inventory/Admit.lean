import UpgradeScope.Inventory.Types
import UpgradeScope.Lib.Sorting

/-!
# Admitting an inventory

`internal/inventory/admit.go`, `validate.go` and `limits.go`: the checks of a pushed inventory before it
is judged. `admitInventory` reads the versions of the schema and of the server, the identifiers
(`validateIdentifiers`), cuts the free text to its limits (`cutFreeText`) and reads the limits
(`validateLimits`); it returns the inventory as cut, or the first problem with the field it is in.
-/

namespace UpgradeScope

open Go Sorting

/-! ## Problems -/

/-- What `Admit` refuses an inventory for. -/
inductive AdmitError where
  /-- `SchemaVersionError`. -/
  | schemaVersion (got : ℤ)
  /-- `CollectorSchemaError`. -/
  | collectorSchema (got : ℤ)
  /-- `ServerVersionError`. -/
  | serverVersion (err : String)
  /-- `IdentifierError`: the field, the value, what it must be, and why it is not. -/
  | identifier (field value rule : String) (problems : List String)
  /-- `LimitError`: the field and the problem, and both without the value at fault. -/
  | limit (field problem place limit : String)
  deriving DecidableEq

/-- `SupportedSchemaVersion`. -/
def supportedSchemaVersion : ℤ := 1

/-- `MaxStringBytes`. -/
def maxStringBytes : ℕ := 16 * 1024

/-- `MaxReasonBytes`. -/
def maxReasonBytes : ℕ := 64 * 1024

/-- `MaxManagerBytes`. -/
def maxManagerBytes : ℕ := 128

/-- `MaxCapabilities`. -/
def maxCapabilities : ℕ := 32

/-- `MaxObjectNameBytes`. -/
def maxObjectNameBytes : ℕ := 253

/-- The characters of the longest prefix of at most `n` bytes. -/
def utf8PrefixChars : ℕ → List Char → List Char
  | _, [] => []
  | n, c :: cs => if c.utf8Size ≤ n then c :: utf8PrefixChars (n - c.utf8Size) cs else []

/-- `utf8Prefix`: the longest prefix of at most `n` bytes that ends at a character boundary. -/
def utf8Prefix (s : String) (n : ℕ) : String := String.ofList (utf8PrefixChars n s.toList)

/-- `quoteShort`: quotes at most the first 64 bytes. -/
def quoteShort (X : External) (s : String) : String :=
  if byteLen s ≤ 64 then X.quote s else X.quote (utf8Prefix s 64) ++ s!"… ({byteLen s} bytes)"

/-- The text of a problem. -/
def AdmitError.text (X : External) : AdmitError → String
  | .schemaVersion got =>
    s!"unsupported inventory schemaVersion {got} (want {supportedSchemaVersion})"
  | .collectorSchema got =>
    s!"unsupported inventory collectorSchema {got} (want {currentCollectorSchema}, or none from collectors that predate it)"
  | .serverVersion err => "invalid inventory serverVersion: " ++ err
  | .identifier field value rule problems =>
    field ++ ": " ++ quoteShort X value ++ " is not " ++ rule ++ " (" ++ join problems "; " ++ ")"
  | .limit field problem _ _ => field ++ ": " ++ problem

/-! ## Identifiers -/

/-- `ruleNamespace`. -/
def ruleNamespace : String := "a namespace name: an RFC 1123 label of at most 63 bytes"
/-- `ruleObjectName`. -/
def ruleObjectName : String :=
  "an object name: at most 253 bytes, not '.' or '..', without '/' or '%'"
/-- `ruleSubdomain`. -/
def ruleSubdomain : String := "an RFC 1123 subdomain of at most 253 bytes"
/-- `ruleLabelValue`. -/
def ruleLabelValue : String := "a label value: at most 63 bytes"
/-- `ruleProvider`. -/
def ruleProvider : String :=
  "a provider name: at most 63 bytes of letters, digits, '-', '_' or '.'"
/-- `ruleVolumePlugin`. -/
def ruleVolumePlugin : String :=
  "a volume plugin: a field name of at most 64 ASCII letters and digits, starting with a letter"

/-- An ASCII letter. -/
def asciiLetter (c : Char) : Bool := ('a' ≤ c ∧ c ≤ 'z') ∨ ('A' ≤ c ∧ c ≤ 'Z')

/-- An ASCII digit. -/
def asciiDigit (c : Char) : Bool := '0' ≤ c ∧ c ≤ '9'

/-- `volumePluginProblems`: a letter and at most 63 letters and digits. -/
def volumePluginProblems (s : String) : List String :=
  match s.toList with
  | c :: cs =>
    if asciiLetter c ∧ cs.length ≤ 63 ∧ cs.all fun d => asciiLetter d || asciiDigit d then []
    else if byteLen s > 64 then [s!"longer than 64 bytes ({byteLen s})"]
    else ["not a field name: ASCII letters and digits, starting with a letter"]
  | [] => ["not a field name: ASCII letters and digits, starting with a letter"]

section Identifiers

variable (X : External)

/-- `objectNameProblems`. -/
def objectNameProblems (s : String) : List String :=
  X.pathSegmentProblems s ++
    if byteLen s > maxObjectNameBytes then [s!"must be no more than {maxObjectNameBytes} bytes"] else []

/-- One identifier: an empty value is unset and accepted (`problemsWith`). -/
def checkIdentifier (field value rule : String) (problems : String → List String) : Option AdmitError :=
  if value = "" ∨ problems value = [] then none
  else some (.identifier field value rule (problems value))

/-- The first problem of the elements of a list, each with its index. -/
def firstProblem {α : Type} (l : List α) (check : α → ℕ → Option AdmitError) : Option AdmitError :=
  l.zipIdx.findSome? fun p => check p.1 p.2

/-- `validateUsage`: a row's namespaces, the least of the invalid ones, and its objects. -/
def validateUsage (field : String) (u : APIUsage) : Option AdmitError :=
  let bad := sorted (u.namespaces.keys.filter fun ns => ns ≠ "" ∧ X.labelProblems ns ≠ [])
  ((bad.head?).map fun ns =>
    .identifier (field ++ ".namespaces") ns ruleNamespace (X.labelProblems ns)) <|>
  firstProblem u.objects fun o k =>
    checkIdentifier s!"{field}.objects[{k}].namespace" o.namespace ruleNamespace X.labelProblems <|>
      checkIdentifier s!"{field}.objects[{k}].name" o.name ruleObjectName (objectNameProblems X)

/-- `VolumePluginUse.asUsage`. -/
def VolumePluginUse.asUsage (v : VolumePluginUse) : APIUsage :=
  { group := "", version := "", kind := v.plugin, count := v.count, namespaces := v.namespaces,
    objects := v.objects, objectsOmitted := v.objectsOmitted }

/-- The identifiers of a Helm release. -/
def validateRelease (r : HelmRelease) (i : ℕ) : Option AdmitError :=
  let field := s!"helmReleases[{i}]"
  checkIdentifier (field ++ ".name") r.name ruleSubdomain X.subdomainProblems <|>
    checkIdentifier (field ++ ".namespace") r.namespace ruleNamespace X.labelProblems <|>
    firstProblem r.manifestAPIs fun u j => validateUsage X s!"{field}.manifestApis[{j}]" u

/-- The identifiers of a GitOps chart. -/
def validateGitOpsChart (c : GitOpsChart) (i : ℕ) : Option AdmitError :=
  let field := s!"gitopsCharts[{i}]"
  checkIdentifier (field ++ ".name") c.name ruleSubdomain X.subdomainProblems <|>
    checkIdentifier (field ++ ".namespace") c.namespace ruleNamespace X.labelProblems <|>
    checkIdentifier (field ++ ".target") c.target ruleNamespace X.labelProblems

/-- `ValidateIdentifiers`: the first identifier that is not valid for what it names. -/
def validateIdentifiers (inv : Inventory) : Option AdmitError :=
  checkIdentifier "provider" inv.provider ruleProvider X.labelValueProblems <|>
    firstProblem inv.apiUsage (fun u i => validateUsage X s!"apiUsage[{i}]" u) <|>
    firstProblem inv.apiAuthorshipUnknown (fun u i => validateUsage X s!"apiAuthorshipUnknown[{i}]" u) <|>
    firstProblem inv.helmReleases (validateRelease X) <|>
    firstProblem inv.gitopsCharts (validateGitOpsChart X) <|>
    firstProblem inv.addOns (fun a i => firstProblem a.namespaces fun ns j =>
      checkIdentifier s!"addOns[{i}].namespaces[{j}]" ns ruleNamespace X.labelProblems) <|>
    firstProblem inv.nodes (fun n i =>
      checkIdentifier s!"nodes[{i}].name" n.name ruleSubdomain X.subdomainProblems) <|>
    firstProblem inv.controlPlane (fun cv i =>
      checkIdentifier s!"controlPlane[{i}].node" cv.node ruleSubdomain X.subdomainProblems) <|>
    firstProblem inv.namespaces (fun n i =>
      checkIdentifier s!"namespaces[{i}].name" n.name ruleNamespace X.labelProblems <|>
        checkIdentifier s!"namespaces[{i}].team" n.team ruleLabelValue X.labelValueProblems) <|>
    firstProblem inv.crds (fun c i => firstProblem c.usage fun u j =>
      validateUsage X s!"crds[{i}].usage[{j}]" u) <|>
    firstProblem inv.volumePlugins fun v i =>
      checkIdentifier s!"volumePlugins[{i}].plugin" v.plugin ruleVolumePlugin volumePluginProblems <|>
        validateUsage X s!"volumePlugins[{i}]" v.asUsage

end Identifiers

/-! ## Cutting free text -/

/-- `cutMark`: what ends a text that was cut. -/
def cutMark : String := " …(cut)"

/-- `cutText`: at most `max` bytes ending in `cutMark`, when the text is longer. -/
def cutText (s : String) (max : ℕ) : String :=
  if byteLen s ≤ max then s else utf8Prefix s (max - byteLen cutMark) ++ cutMark

/-- `cutTokens`: the comma-separated tokens that fit whole in `max` bytes, when the list is longer. -/
def cutTokens (s : String) (max : ℕ) : String :=
  if byteLen s ≤ max then s
  else match cutChars ',' (utf8PrefixChars (max + 1) s.toList).reverse with
    | none => ""
    | some (_, before) => String.ofList (before.dropWhile fun c => c = ',' || c = ' ').reverse

/-- An object with its annotations and its comment cut. -/
def ObjectRef.cut (o : ObjectRef) : ObjectRef :=
  { o with
    ignore := cutTokens o.ignore maxStringBytes
    ignoreReason := cutText o.ignoreReason maxStringBytes
    renderedFrom := cutText o.renderedFrom maxStringBytes }

/-- A usage row with its objects cut. -/
def APIUsage.cut (u : APIUsage) : APIUsage := { u with objects := u.objects.map ObjectRef.cut }

/-- A capability's status with its reason and skipped entries cut. -/
def CapabilityStatus.cut (st : CapabilityStatus) : CapabilityStatus :=
  { st with
    reason := cutText st.reason maxReasonBytes
    skipped := st.skipped.map fun s => cutText s maxStringBytes }

/-- A map with a function applied to every value. -/
def mapValues {κ υ : Type} (f : υ → υ) (m : AList fun _ : κ => υ) : AList fun _ : κ => υ :=
  ⟨m.entries.map fun e => ⟨e.1, f e.2⟩, List.NodupKeys.map₂ (fun _ => f) m.entries m.nodupKeys⟩

/-- `CutFreeText`: the free text a collector copies whole, cut to the limits. -/
def cutFreeText (inv : Inventory) : Inventory :=
  { inv with
    capabilities := mapValues CapabilityStatus.cut inv.capabilities
    apiUsage := inv.apiUsage.map APIUsage.cut
    apiAuthorshipUnknown := inv.apiAuthorshipUnknown.map APIUsage.cut
    helmReleases := inv.helmReleases.map fun r => { r with manifestAPIs := r.manifestAPIs.map APIUsage.cut }
    gitopsCharts := inv.gitopsCharts.map fun c =>
      { c with
        chart := cutText c.chart maxStringBytes
        version := cutText c.version maxStringBytes
        repo := cutText c.repo maxStringBytes }
    crds := inv.crds.map fun c => { c with usage := c.usage.map APIUsage.cut }
    volumePlugins := inv.volumePlugins.map fun v => { v with objects := v.objects.map ObjectRef.cut } }

/-! ## Limits -/

/-- A problem that quotes nothing of the inventory. -/
def plainLimit (field problem : String) : AdmitError := .limit field problem field problem

section Limits

variable (X : External)

/-- `negativeCount`: where a row counts something negative, the problem, and the problem without the
value. -/
def negativeCount (u : APIUsage) : Option (String × String × String) :=
  let negative := "a negative count, where a collector counts what it saw"
  if u.count < 0 then some (".count", negative, negative)
  else if u.objectsOmitted < 0 then some (".objectsOmitted", negative, negative)
  else
    ((sorted (u.namespaces.keys.filter fun ns => ((u.namespaces.lookup ns).getD 0) < 0)).head?).map fun ns =>
      (".namespaces", s!"namespace {quoteShort X ns} counted negative, where a collector counts what it saw",
        "a namespace counted negative, where a collector counts what it saw")

/-- `managerProblem`: a field manager the apiserver would refuse. -/
def managerProblem (m : String) : Option (String × String) :=
  let limit :=
    if byteLen m > maxManagerBytes then
      some s!"not a field manager: longer than the apiserver's {maxManagerBytes} bytes"
    else if m.toList.all X.isPrint then none
    else
      let before := String.ofList (m.toList.takeWhile X.isPrint)
      some s!"not a field manager: a non-printable character at byte {byteLen before}"
  limit.map fun l => (quoteShort X m ++ " is " ++ l, l)

/-- The first object whose manager the apiserver would refuse. -/
def validateManagers (field : String) (objects : List ObjectRef) : Option AdmitError :=
  firstProblem objects fun o k => (managerProblem X o.manager).map fun p =>
    .limit s!"{field}.objects[{k}].manager" p.1 s!"{field}.objects[{k}].manager" p.2

/-- The group, version and kind a usage row counts. -/
def APIUsage.gvk (u : APIUsage) : String × String × String := (u.group, u.version, u.kind)

/-- A usage row as messages name it. -/
def APIUsage.api (u : APIUsage) : String :=
  (if u.group = "" then u.version else u.group ++ "/" ++ u.version) ++ " " ++ u.kind

/-- `validateUsages`: each group, version and kind once, nothing negative, at most `maxObjectRefs`
objects, and managers the apiserver accepts. -/
def validateUsages (field : String) (us : List APIUsage) : Option AdmitError :=
  firstProblem us fun u i =>
    let place := s!"{field}[{i}]"
    match (us.take i).findIdx? fun v => v.gvk = u.gvk with
    | some j =>
      some (.limit place
        s!"{quoteShort X u.api} is listed again (first at {field}[{j}]): a collector counts each group/version/kind once"
        place
        s!"the group/version/kind of {field}[{j}] listed again: a collector counts each group/version/kind once")
    | none =>
      ((negativeCount X u).map fun n => .limit (place ++ n.1) n.2.1 (place ++ n.1) n.2.2) <|>
      (if u.objects.length > maxObjectRefs then
        some (plainLimit (place ++ ".objects")
          s!"{u.objects.length} objects, over the {maxObjectRefs} a collector records (it counts the rest in objectsOmitted)")
      else none) <|>
      validateManagers X place u.objects

/-- One volume plugin row of `validateVolumeLimits`, with the rows before it. -/
def validateVolume (before : List VolumePluginUse) (v : VolumePluginUse) (i : ℕ) : Option AdmitError :=
  let place := s!"volumePlugins[{i}]"
  if v.plugin = "" then some (plainLimit (place ++ ".plugin") "no plugin named")
  else if before.any (·.plugin = v.plugin) then
    some (.limit (place ++ ".plugin")
      s!"plugin {quoteShort X v.plugin} listed twice, where a collector counts each once"
      (place ++ ".plugin") "a plugin listed twice, where a collector counts each once")
  else if v.objects.length > maxObjectRefs then
    some (plainLimit (place ++ ".objects")
      s!"{v.objects.length} objects, over the {maxObjectRefs} a collector lists (it counts the rest in objectsOmitted)")
  else
    ((negativeCount X v.asUsage).map fun n =>
      let field := if n.1 = ".namespaces" then place ++ n.1 else place
      .limit field n.2.1 field n.2.2) <|>
    validateManagers X place v.objects

/-- `validateVolumeLimits`. -/
def validateVolumeLimits (inv : Inventory) : Option AdmitError :=
  if inv.volumePlugins.length > maxVolumePlugins then
    some (plainLimit "volumePlugins"
      s!"{inv.volumePlugins.length} plugins, over the {maxVolumePlugins} a collector lists")
  else firstProblem inv.volumePlugins fun v i => validateVolume X (inv.volumePlugins.take i) v i

/-! ### Every string of an inventory -/

/-- `pathStep`: one step of a JSON path. -/
inductive PathStep where
  /-- A field. -/
  | name (n : String)
  /-- A map's key. -/
  | key (k : String)
  /-- A list's index. -/
  | index (i : ℕ)
  deriving DecidableEq

/-- A string of an inventory: where it is, how long it may be, and what the path ends in. -/
structure Located where
  /-- The path. -/
  path : List PathStep := []
  /-- The string. -/
  value : String
  /-- Its limit. -/
  max : ℕ := maxStringBytes
  /-- The end of the path's text. -/
  suffix : String := ""

/-- `stringWalker.at`: the path, map keys quoted, or hidden. -/
def pathText (unquoted : Bool) (path : List PathStep) : String :=
  path.foldl (fun text step =>
    match step with
    | .key k => if unquoted then text ++ "[…]" else text ++ "[" ++ quoteShort X k ++ "]"
    | .name n => if text = "" then n else text ++ "." ++ n
    | .index i => text ++ s!"[{i}]") ""

/-- `stringWalker.check`: a string over its limit. -/
def overLimit (l : Located) : Option AdmitError :=
  if byteLen l.value > l.max then
    some (.limit (pathText X false l.path ++ l.suffix)
      s!"{quoteShort X l.value} is over the {l.max}-byte limit" (pathText X true l.path ++ l.suffix)
      s!"{byteLen l.value} bytes, over the {l.max}-byte limit")
  else none

/-- The strings under a field. -/
def under (step : PathStep) (ls : List Located) : List Located :=
  ls.map fun l => { l with path := step :: l.path }

/-- A string field. -/
def textField (name value : String) : List Located := [{ path := [.name name], value := value }]

/-- The strings of the elements of a list field. -/
def listField {α : Type} (name : String) (strings : α → List Located) (l : List α) : List Located :=
  under (.name name) (l.zipIdx.flatMap fun p => under (.index p.2) (strings p.1))

/-- A string that is a list's element. -/
def element (s : String) : List Located := [{ value := s }]

/-- The keys of namespace counts. -/
def countKeys (m : NamespaceCounts) : List Located :=
  under (.name "namespaces") (m.keys.map fun k => { value := k, suffix := " (a key)" })

/-- The strings of an object. -/
def ObjectRef.strings (o : ObjectRef) : List Located :=
  textField "namespace" o.namespace ++ textField "name" o.name ++ textField "file" o.file ++
    textField "renderedFrom" o.renderedFrom ++ textField "manager" o.manager ++
    textField "ignore" o.ignore ++ textField "ignoreReason" o.ignoreReason

/-- The strings of a usage row. -/
def APIUsage.strings (u : APIUsage) : List Located :=
  textField "group" u.group ++ textField "version" u.version ++ textField "kind" u.kind ++
    countKeys u.namespaces ++ listField "objects" ObjectRef.strings u.objects

/-- The strings of a capability and its status. -/
def capabilityStrings (c : Capability) (st : CapabilityStatus) : List Located :=
  { value := c, suffix := " (a key)" } :: under (.key c)
    ({ path := [.name "reason"], value := st.reason, max := maxReasonBytes } ::
      listField "skipped" element st.skipped)

/-- The strings of a Helm release. -/
def HelmRelease.strings (r : HelmRelease) : List Located :=
  textField "name" r.name ++ textField "namespace" r.namespace ++ textField "chartName" r.chartName ++
    textField "chartVersion" r.chartVersion ++ textField "appVersion" r.appVersion ++
    textField "kubeVersion" r.kubeVersion ++ textField "status" r.status ++
    listField "manifestApis" APIUsage.strings r.manifestAPIs

/-- The strings of a CRD. -/
def CRD.strings (c : CRD) : List Located :=
  textField "group" c.group ++ textField "kind" c.kind ++ textField "plural" c.plural ++
    listField "versions" (fun v => textField "name" v.name ++
      textField "deprecationWarning" v.deprecationWarning) c.versions ++
    listField "storedVersions" element c.storedVersions ++ listField "usage" APIUsage.strings c.usage

/-- Every string of an inventory, in the order of its fields. -/
def Inventory.strings (inv : Inventory) : List Located :=
  textField "clusterId" inv.clusterID ++ textField "serverVersion" inv.serverVersion ++
    textField "provider" inv.provider ++
    under (.name "capabilities") (inv.capabilities.entries.flatMap fun e => capabilityStrings e.1 e.2) ++
    listField "apiUsage" APIUsage.strings inv.apiUsage ++
    listField "deprecatedCalls" (fun c => textField "group" c.group ++ textField "version" c.version ++
      textField "resource" c.resource ++ textField "subresource" c.subresource ++
      textField "removedRelease" c.removedRelease) inv.deprecatedCalls ++
    listField "helmReleases" HelmRelease.strings inv.helmReleases ++
    listField "gitopsCharts" (fun c => textField "tool" c.tool ++ textField "name" c.name ++
      textField "namespace" c.namespace ++ textField "target" c.target ++ textField "chart" c.chart ++
      textField "version" c.version ++ textField "repo" c.repo) inv.gitopsCharts ++
    listField "addOns" (fun a => textField "id" a.id ++ textField "version" a.version ++
      textField "chartVersion" a.chartVersion ++ listField "namespaces" element a.namespaces ++
      textField "source" a.source) inv.addOns ++
    listField "nodes" (fun n => textField "name" n.name ++ textField "kubeletVersion" n.kubeletVersion ++
      textField "containerRuntime" n.containerRuntime) inv.nodes ++
    listField "controlPlane" (fun c => textField "component" c.component ++
      textField "version" c.version ++ textField "node" c.node) inv.controlPlane ++
    listField "namespaces" (fun n => textField "name" n.name ++ textField "team" n.team) inv.namespaces ++
    listField "unrecognizedImages" element inv.unrecognizedImages ++
    listField "crds" CRD.strings inv.crds ++
    listField "apiAuthorshipUnknown" APIUsage.strings inv.apiAuthorshipUnknown ++
    listField "volumePlugins" (fun v => textField "plugin" v.plugin ++ countKeys v.namespaces ++
      listField "objects" ObjectRef.strings v.objects) inv.volumePlugins

/-- `ValidateLimits`: the first value beyond what any collector records. -/
def validateLimits (inv : Inventory) : Option AdmitError :=
  validateUsages X "apiUsage" inv.apiUsage <|>
    validateUsages X "apiAuthorshipUnknown" inv.apiAuthorshipUnknown <|>
    firstProblem inv.helmReleases (fun r i =>
      validateUsages X s!"helmReleases[{i}].manifestApis" r.manifestAPIs) <|>
    firstProblem inv.crds (fun c i => validateUsages X s!"crds[{i}].usage" c.usage) <|>
    (if inv.unrecognizedImages.length > maxUnrecognizedImages then
      some (plainLimit "unrecognizedImages"
        s!"{inv.unrecognizedImages.length} images, over the {maxUnrecognizedImages} a collector lists (it counts the rest in unrecognizedImagesOmitted)")
    else none) <|>
    (if inv.capabilities.entries.length > maxCapabilities then
      some (plainLimit "capabilities"
        s!"{inv.capabilities.entries.length} capabilities, over the {maxCapabilities} this server takes")
    else none) <|>
    validateVolumeLimits X inv <|> inv.strings.findSome? (overLimit X)

/-- A server version that is not a Kubernetes 1.x version; an inventory without one is admitted. -/
def serverVersionProblem (inv : Inventory) : Option AdmitError :=
  if inv.serverVersion = "" then none
  else match parseMajorOne X inv.serverVersion with
    | .error e => some (.serverVersion e)
    | .ok _ => none

/-- The first problem of an inventory. -/
def admitProblem (inv : Inventory) : Option AdmitError :=
  (if inv.schemaVersion ≠ supportedSchemaVersion then some (.schemaVersion inv.schemaVersion) else none) <|>
    (if inv.collectorSchema < 0 ∨ inv.collectorSchema > currentCollectorSchema then
      some (.collectorSchema inv.collectorSchema)
    else none) <|>
    serverVersionProblem X inv <|> validateIdentifiers X inv <|> validateLimits X (cutFreeText inv)

/-- `Admit`: the inventory with its free text cut, or its first problem. -/
def admitInventory (inv : Inventory) : Except AdmitError Inventory :=
  match admitProblem X inv with
  | some e => .error e
  | none => .ok (cutFreeText inv)

/-- What `admitInventory` lets through is the inventory with its free text cut. -/
theorem admitInventory_eq_ok {inv inv' : Inventory} :
    admitInventory X inv = .ok inv' ↔ admitProblem X inv = none ∧ cutFreeText inv = inv' := by
  unfold admitInventory
  cases admitProblem X inv with
  | some e => simp
  | none => simp

end Limits

end UpgradeScope
