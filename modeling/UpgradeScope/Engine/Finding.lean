import UpgradeScope.Inventory.Types
import UpgradeScope.Lib.Sorting
import UpgradeScope.Kb

/-!
# Findings, gaps and reports

`internal/engine/findings.go`, `score.go` and the sizes of `budget.go`: what an evaluation produces,
the keys that identify a finding, which gaps of a report hide a finding (`hiddenBy`), and when a
deprecated caller is the same problem as a usage finding (`foldsInto`).
-/

namespace UpgradeScope

open Go Sorting

/-! ## Categories, severities and verdicts -/

/-- The names of the categories this binary knows. -/
def knownCategories : List String :=
  ["removed-api", "deprecated-api", "deprecated-api-in-use", "eol-addon", "eol-approaching",
    "version-skew", "chart-incompat", "kb-stale", "addon-no-data", "unknown-api", "crd-version",
    "support-lifecycle", "volume-plugin"]

/-- A finding's category. A stored report may name one this binary does not know. -/
inductive Category where
  /-- `CatRemovedAPI`. -/
  | removedAPI
  /-- `CatDeprecatedAPI`. -/
  | deprecatedAPI
  /-- `CatDeprecatedAPIInUse`. -/
  | deprecatedAPIInUse
  /-- `CatEOLAddon`. -/
  | eolAddon
  /-- `CatEOLApproaching`. -/
  | eolApproaching
  /-- `CatVersionSkew`. -/
  | versionSkew
  /-- `CatChartIncompat`. -/
  | chartIncompat
  /-- `CatKBStale`. -/
  | kbStale
  /-- `CatAddOnNoData`. -/
  | addOnNoData
  /-- `CatUnknownAPI`. -/
  | unknownAPI
  /-- `CatCRDVersion`. -/
  | crdVersion
  /-- `CatSupportLifecycle`. -/
  | supportLifecycle
  /-- `CatVolumePlugin`. -/
  | volumePlugin
  /-- A category of another binary. -/
  | unknown (name : String) (h : name ∉ knownCategories)
  deriving DecidableEq

/-- The category as reports spell it. -/
def Category.name : Category → String
  | .removedAPI => "removed-api"
  | .deprecatedAPI => "deprecated-api"
  | .deprecatedAPIInUse => "deprecated-api-in-use"
  | .eolAddon => "eol-addon"
  | .eolApproaching => "eol-approaching"
  | .versionSkew => "version-skew"
  | .chartIncompat => "chart-incompat"
  | .kbStale => "kb-stale"
  | .addOnNoData => "addon-no-data"
  | .unknownAPI => "unknown-api"
  | .crdVersion => "crd-version"
  | .supportLifecycle => "support-lifecycle"
  | .volumePlugin => "volume-plugin"
  | .unknown name _ => name

/-- A finding's severity. -/
inductive Severity where
  /-- `SevBlocker`. -/
  | blocker
  /-- `SevWarning`. -/
  | warning
  /-- `SevInfo`. -/
  | info
  deriving DecidableEq, Repr

/-- The severity as reports spell it. -/
def Severity.name : Severity → String
  | .blocker => "blocker"
  | .warning => "warning"
  | .info => "info"

/-- `severityRank`: blockers first. -/
def Severity.rank : Severity → ℕ
  | .blocker => 0
  | .warning => 1
  | .info => 2

/-- The report's readiness answer. -/
inductive Verdict where
  /-- No blockers, and everything required was assessed. -/
  | ready
  /-- At least one blocker. -/
  | blocked
  /-- No blockers found, but a required gap may hide one. -/
  | unknown
  deriving DecidableEq, Repr

/-! ## Findings and reports -/

/-- One row of the deprecated-calls metric folded into an API usage finding. -/
structure Caller where
  /-- The API group, "" for core. -/
  group : String
  /-- The API version. -/
  version : String
  /-- The REST resource. -/
  resource : String
  /-- The subresource. -/
  subresource : String
  /-- The key of its own finding. -/
  key : String
  /-- The severity of its own finding. -/
  severity : Severity
  /-- The title of its own finding. -/
  title : String
  /-- The detail of its own finding. -/
  detail : String
  deriving DecidableEq

/-- A finding of a report. -/
structure Finding where
  /-- Its category. -/
  category : Category
  /-- Its severity. -/
  severity : Severity
  /-- Its stable, count-free identity. -/
  key : String
  /-- One line. -/
  title : String
  /-- Evidence sentences. -/
  detail : String
  /-- The teams of every affected namespace, sorted. -/
  teams : List String := []
  /-- The affected namespaces, sorted, at most `maxFindingNamespaces`. -/
  namespaces : List String := []
  /-- How many namespaces are not listed. -/
  namespacesOmitted : ℤ := 0
  /-- Whether an add-on finding also covers an install in no named namespace. -/
  unnamespaced : Bool := false
  /-- What to do. -/
  remediation : String := ""
  /-- Where the rule is published. -/
  citations : List String := []
  /-- The affected objects, sorted. -/
  objects : List ObjectRef := []
  /-- How many affected objects are not listed. -/
  objectsOmitted : ℤ := 0
  /-- The deprecated callers folded into it. -/
  callers : List Caller := []
  deriving DecidableEq

/-- One thing the evaluation could not assess. -/
structure CapabilityGap where
  /-- The capability. -/
  capability : Capability
  /-- Why. -/
  reason : String
  /-- Whether the capability ran but did not read everything. -/
  partly : Bool := false
  /-- What it named as unread. -/
  skipped : List String := []
  /-- Whether it makes the verdict unknown. -/
  required : Bool := false
  deriving DecidableEq

/-- `GapKBCoverage`. -/
def gapKBCoverage : Capability := "kb-coverage"
/-- `GapTarget`. -/
def gapTarget : Capability := "target"

/-- A finding, or some of its objects, that an ignore rule or annotation accepted. -/
structure SuppressedFinding where
  /-- The finding. -/
  finding : Finding
  /-- Why it was accepted. -/
  reason : String
  /-- What accepted it. -/
  source : String
  /-- When the rule expires. -/
  expires : String := ""
  deriving DecidableEq

/-- Where a managed cluster's minor stands in its provider's support calendar. -/
inductive SupportPhase where
  /-- `SupportStandard`. -/
  | standard
  /-- `SupportEnding`. -/
  | ending
  /-- `SupportExtended`. -/
  | extended
  /-- `SupportEnded`. -/
  | ended
  deriving DecidableEq, Repr

/-- The phase as keys spell it. -/
def SupportPhase.name : SupportPhase → String
  | .standard => "standard"
  | .ending => "ending"
  | .extended => "extended"
  | .ended => "ended"

/-- A managed cluster's place in its provider's support calendar. -/
structure SupportStatus where
  /-- eks, gke or aks. -/
  provider : String
  /-- The control plane's minor. -/
  minor : String
  /-- The phase. -/
  phase : SupportPhase
  /-- The day extended support begins. -/
  extendedSupportFrom : String
  /-- The day extended support ends. -/
  extendedSupportEnds : String
  /-- What extended support adds per year at list price. -/
  annualCostDelta : String := ""
  /-- The price's currency. -/
  currency : String := ""
  /-- The day the price was read. -/
  priceAsOf : String := ""
  /-- Whom the price applies to. -/
  annualCostNote : String := ""
  /-- The condition under which the extended window applies. -/
  extendedSupportCondition : String := ""
  deriving DecidableEq

/-- A report. -/
structure Report where
  /-- The cluster. -/
  clusterID : String
  /-- The version judged. -/
  target : Version
  /-- The raw version of the API server. -/
  serverVersion : String
  /-- The knowledge base's version. -/
  kbVersion : String
  /-- The score. -/
  score : ℤ
  /-- Whether the verdict is ready. -/
  ready : Bool
  /-- The verdict. -/
  verdict : Verdict
  /-- The findings, sorted. -/
  findings : List Finding
  /-- The gaps, sorted by capability. -/
  notAssessed : List CapabilityGap
  /-- The cluster's place in its provider's calendar. -/
  support : Option SupportStatus := none
  /-- What ignore rules took out of the findings. -/
  suppressed : List SuppressedFinding := []
  /-- The images no matcher claims. -/
  unrecognizedImages : List String := []
  /-- How many such images are not listed. -/
  unrecognizedImagesOmitted : ℤ := 0
  /-- How old reused pod evidence was. -/
  addOnEvidenceAgeSeconds : ℤ := 0
  deriving DecidableEq

/-! ## Keys -/

/-- `deprecationGuideURL`. -/
def deprecationGuideURL : String :=
  "https://kubernetes.io/docs/reference/using-api/deprecation-guide/"

/-- `Caller.Finding`: the caller as the finding of its own row. -/
def Caller.finding (c : Caller) : Finding where
  category := .deprecatedAPIInUse
  severity := c.severity
  key := c.key
  title := c.title
  detail := c.detail
  citations := [deprecationGuideURL]

/-- `gvString`: "group/version", and only the version for core. -/
def gvString (group version : String) : String :=
  if group = "" then version else group ++ "/" ++ version

/-- `keyGroup`: the core group is "core" in keys. -/
def keyGroup (group : String) : String := if group = "" then "core" else group

/-- `apiKey`: the tail of an API finding's key. -/
def apiKey (group version kind : String) : String :=
  keyGroup group ++ "/" ++ version ++ "/" ++ kind

/-- `unservedKeyPhase`. -/
def unservedKeyPhase : String := "unserved"

/-- `UnservedKey`: the key of a finding for an API the target does not serve yet. -/
def unservedKey (removalKey : String) : String := removalKey ++ "/" ++ unservedKeyPhase

/-- `BaseOfUnservedKey`: the removal key under an unserved key, when it is one. -/
def baseOfUnservedKey (key : String) : Option String :=
  match cutSuffix? key ("/" ++ unservedKeyPhase) with
  | none => none
  | some base =>
    if ¬ hasPrefix base (Category.removedAPI.name ++ "/") ∨
        hasPrefix base (Category.removedAPI.name ++ "/helm-release/") then none
    else some base

/-- `keyAPI`: the group, version and name of an API finding's key. -/
def keyAPI (key : String) : String := (cut ((baseOfUnservedKey key).getD key) '/').2.1

/-- `splitAPI`: an API as a partial capability names it, "group/version name". -/
def splitAPI (api : String) : Option (String × String × String) :=
  match cut api ' ' with
  | (_, _, false) => none
  | (gv, name, true) =>
    -- Go cuts at the last slash.
    match cutChars '/' gv.toList.reverse with
    | some (version, group) =>
      some (String.ofList group.reverse, String.ofList version.reverse, name)
    | none => some ("", gv, name)

/-- The plural of a lower-case kind under the apiserver's default pluralization. -/
def plural (k : String) : String :=
  match k.toList.reverse with
  | 's' :: _ => k ++ "es"
  | 'y' :: c :: rest =>
    if c ∈ ['a', 'e', 'i', 'o', 'u'] then k ++ "s" else String.ofList (c :: rest).reverse ++ "ies"
  | _ => k ++ "s"

/-- `resourceNames`: a kind's REST resource names, itself in lower case and its plural. -/
def resourceNames (X : External) (kind : String) : String × String :=
  (X.lower kind, plural (X.lower kind))

/-- `kindMatchesResource`: the resource is one of the kind's names. -/
def kindMatchesResource (X : External) (kind resource : String) : Bool :=
  kind ≠ "" ∧ (resource = (resourceNames X kind).1 ∨ resource = (resourceNames X kind).2)

/-- Whether a category name is one of an API usage finding. -/
def isUsageCategory (name : String) : Bool :=
  name = Category.removedAPI.name ∨ name = Category.deprecatedAPI.name ∨
    name = Category.unknownAPI.name

/-- `FoldsInto`: the key of a deprecated caller names the API of a usage finding's key. -/
def foldsInto (X : External) (call usage : String) : Bool :=
  if ¬ isUsageCategory (cut usage '/').1 then false
  else
    match split (keyAPI usage) '/', splitN '/' 4 (cut call '/').2.1.toList with
    | [ug, uv, uk], cg :: cv :: cr :: _ =>
      (cut call '/').1 = Category.deprecatedAPIInUse.name ∧ ug ≠ "helm-release" ∧
        String.ofList cg = ug ∧ String.ofList cv = uv ∧
        kindMatchesResource X uk (String.ofList cr)
    | _, _ => false

/-! ## What a gap hides -/

/-- `categorySources`: the capabilities a category's findings are built from. -/
def categorySources : Category → Option (List Capability)
  | .removedAPI | .deprecatedAPI | .unknownAPI => some [capAPIUsage]
  | .deprecatedAPIInUse => some [capDeprecatedCalls]
  | .eolAddon | .eolApproaching | .addOnNoData | .chartIncompat =>
    some [capAddOns, capVersions, capHelm]
  | .versionSkew => some [capVersions]
  | .crdVersion => some [capCRDs]
  | .volumePlugin => some [capVolumes]
  | .supportLifecycle => some [capVersions]
  | .kbStale => some []
  | .unknown _ _ => none

/-- `Sources`: what a finding of a category and key is built from; `none` for a category this
binary does not know. -/
def sources (c : Category) (key : String) : Option (List Capability) :=
  if hasPrefix key (c.name ++ "/helm-release/") then some [capHelm] else categorySources c

/-- `CapabilityGap.skips`: a partial gap names what a key is about. -/
def CapabilityGap.skips (g : CapabilityGap) (key : String) : Bool :=
  if g.capability = capAPIUsage ∨ g.capability = capDeprecatedCalls then
    skippedNewerKB ∈ g.skipped || g.skipped.any fun s =>
      match splitAPI s with
      | some (group, version, name) => apiKey group version name = keyAPI key
      | none => false
  else if g.capability = capHelm then
    if ¬ contains key "/helm-release/" then 0 < g.skipped.length
    else g.skipped.any fun s => ¬ contains s "/" || hasSuffix key ("/helm-release/" ++ s)
  else 0 < g.skipped.length

/-- A gap leaves the finding of a category and key unassessed. -/
def CapabilityGap.hides (g : CapabilityGap) (c : Category) (key : String) : Bool :=
  match sources c key with
  | none => true
  | some srcs => g.capability ∈ srcs && (!g.partly || g.skips key)

/-- Appends the values that a list does not hold yet, in order (`appendNew`). -/
def appendNew (dst add : List String) : List String :=
  add.foldl (fun dst a => if a ∈ dst then dst else dst ++ [a]) dst

/-- `HiddenBy`: the capabilities of a report's gaps that leave a finding unassessed. -/
def hiddenBy (gaps : List CapabilityGap) (c : Category) (key : String) : List Capability :=
  appendNew [] ((gaps.filter fun g => g.hides c key).map (·.capability))

/-! ## Order, score and verdict -/

/-- The order of a report's findings: severity, category, title, key. -/
def findingOrder (f : Finding) : ℕ ×ₗ String ×ₗ String ×ₗ String :=
  toLex (f.severity.rank, toLex (f.category.name, toLex (f.title, f.key)))

/-- `sortFindings`. -/
def sortFindings (fs : List Finding) : List Finding := sortOn findingOrder fs

/-- `Score`: what blockers and warnings take from 100. -/
def score (fs : List Finding) : ℤ :=
  100 - min 75 (25 * (fs.countP (·.severity = .blocker) : ℤ)) -
    min 20 (5 * (fs.countP (·.severity = .warning) : ℤ))

/-- `verdictFor`: blocked on any blocker, else unknown on any required gap, else ready. -/
def verdictFor (fs : List Finding) (gaps : List CapabilityGap) : Verdict :=
  if fs.any (·.severity = .blocker) then .blocked
  else if gaps.any (·.required) then .unknown
  else .ready

/-- `Report.Rescore`: the score and the verdict again, from the findings and gaps. -/
def Report.rescore (r : Report) : Report :=
  { r with
    score := UpgradeScope.score r.findings
    verdict := verdictFor r.findings r.notAssessed
    ready := verdictFor r.findings r.notAssessed = .ready }

/-- The verdict is blocked exactly when a finding blocks. -/
theorem verdictFor_eq_blocked {fs : List Finding} {gaps : List CapabilityGap} :
    verdictFor fs gaps = .blocked ↔ ∃ f ∈ fs, f.severity = .blocker := by
  unfold verdictFor
  split_ifs with h1 h2
  · simpa using h1
  · simpa using h1
  · simpa using h1

/-! ## Sizes -/

/-- `MaxFindingNamespaces`: the namespaces a finding lists. -/
def maxFindingNamespaces : ℕ := 100

/-- `capNamespaces`: lists at most `maxFindingNamespaces` namespaces and counts the rest. -/
def capNamespaces (f : Finding) : Finding :=
  if f.namespaces.length > maxFindingNamespaces then
    { f with
      namespaces := f.namespaces.take maxFindingNamespaces
      namespacesOmitted := f.namespacesOmitted + (f.namespaces.length - maxFindingNamespaces) }
  else f

section CapNamespaces

variable (f : Finding)

@[simp] theorem capNamespaces_category : (capNamespaces f).category = f.category := by
  unfold capNamespaces
  split_ifs <;> rfl

@[simp] theorem capNamespaces_severity : (capNamespaces f).severity = f.severity := by
  unfold capNamespaces
  split_ifs <;> rfl

@[simp] theorem capNamespaces_key : (capNamespaces f).key = f.key := by
  unfold capNamespaces
  split_ifs <;> rfl

@[simp] theorem capNamespaces_objects : (capNamespaces f).objects = f.objects := by
  unfold capNamespaces
  split_ifs <;> rfl

@[simp] theorem capNamespaces_remediation : (capNamespaces f).remediation = f.remediation := by
  unfold capNamespaces
  split_ifs <;> rfl

@[simp] theorem capNamespaces_callers : (capNamespaces f).callers = f.callers := by
  unfold capNamespaces
  split_ifs <;> rfl

end CapNamespaces

/-- `fieldOverhead`: what a field's name and punctuation take. -/
def fieldOverhead : ℕ := 16

/-- The bytes of a list of strings, with what separates them. -/
def stringsSize (l : List String) : ℕ := (l.map fun s => byteLen s + 3).sum

/-- What `findingSize` counts of an object. -/
def objectSize (o : ObjectRef) : ℕ :=
  8 * fieldOverhead + byteLen o.namespace + byteLen o.name + byteLen o.file + byteLen o.renderedFrom +
    byteLen o.manager + byteLen o.ignore + byteLen o.ignoreReason

/-- `callerSize`. -/
def callerSize (c : Caller) : ℕ :=
  8 * fieldOverhead + byteLen c.group + byteLen c.version + byteLen c.resource +
    byteLen c.subresource + byteLen c.key + byteLen c.severity.name + byteLen c.title +
    byteLen c.detail

/-- `findingSize`: about the bytes a finding takes in a report. -/
def findingSize (f : Finding) : ℕ :=
  8 * fieldOverhead + byteLen f.category.name + byteLen f.severity.name + byteLen f.key +
    byteLen f.title + byteLen f.detail + byteLen f.remediation + stringsSize f.teams +
    stringsSize f.namespaces + stringsSize f.citations + (f.objects.map objectSize).sum +
    (f.callers.map callerSize).sum

/-- `gapSize`. -/
def gapSize (g : CapabilityGap) : ℕ :=
  4 * fieldOverhead + byteLen g.capability + byteLen g.reason + stringsSize g.skipped

end UpgradeScope
