import UpgradeScope.Engine.Usage

/-!
# Add-ons and node runtimes

`internal/engine/engine.go` and `runtimes.go`, the checks of the add-on registry: the installs of one
add-on are grouped by release line (`groupInstalls`), each group is judged at its oldest version
(`evalAddOn`), node container runtimes are installs on nodes (`evalNodeRuntimes`), and a runtime that no
registry entry covers is disclosed (`evalUncoveredRuntimes`).
-/

namespace UpgradeScope

open Go Sorting Kb Registry

/-- `addOnInstall`: one detected install, in namespaces or on a node. -/
structure AddOnInstall where
  /-- The app version, "" when unknown. -/
  version : String
  /-- How it was found. -/
  via : String := ""
  /-- Its sorted namespaces, or the node's name. -/
  «where» : List String
  /-- The teams of its namespaces. -/
  teams : List String := []
  deriving DecidableEq

/-- `addOnSubject`: installs of one add-on that are judged together. -/
structure AddOnSubject where
  /-- The oldest version, "" when none is known. -/
  version : String
  /-- The evidence sentence. -/
  located : String
  /-- The namespaces, sorted. -/
  namespaces : List String
  /-- The teams, sorted. -/
  teams : List String
  /-- Whether some install is in no named namespace. -/
  unnamespaced : Bool
  /-- The installs. -/
  installs : List AddOnInstall
  /-- Whether they are node runtimes. -/
  node : Bool

/-! ## Versions and release lines -/

/-- `versionParts`: "1.31.0-rc.0" as [1, 31, 0]. -/
def versionParts (s : String) : Option (List ℤ) :=
  let core := (cutSuffixMark s).1
  if core = "" then none else (split core '.').mapM atoi

/-- `versionBefore`: numerically where both parse, else as strings. -/
def versionBefore (a b : String) : Bool :=
  match versionParts a, versionParts b with
  | some pa, some pb => pa < pb
  | _, _ => a < b

/-- The oldest known version of a loop over versions. -/
def oldestVersion (versions : List String) : String :=
  versions.foldl (fun oldest v =>
    if v ≠ "" ∧ (oldest = "" ∨ versionBefore v oldest) then v else oldest) ""

/-- `cycleFor`: the most specific release line whose components lead the version's. -/
def cycleFor (version : String) (cycles : List Cycle) : Option Cycle :=
  match versionParts version with
  | none => none
  | some v =>
    (cycles.foldl (fun (best : Option Cycle × ℕ) c =>
      match versionParts c.cycle with
      | some p => if p.length ≤ v.length ∧ best.2 < p.length ∧ v.take p.length = p then (some c, p.length)
        else best
      | none => best) (none, 0)).1

/-- `cycleEnded`: the line has ended by now. -/
def cycleEnded (c : Cycle) (now : Time) : Bool :=
  match c.eol with
  | none => false
  | some (.ended b) => b
  | some (.date d) => (parseDate d).any (· ≤ now)

/-- The oldest line of those that parse, with its components. -/
def oldestCycle (cycles : List Cycle) : Option (Cycle × List ℤ) :=
  cycles.foldl (fun oldest c =>
    match versionParts c.cycle with
    | some p =>
      match oldest with
      | some (o, op) => if p < op then some (c, p) else some (o, op)
      | none => some (c, p)
    | none => oldest) none

/-- `predatesCycles`: the version is older than every line, and the oldest line has ended. -/
def predatesCycles (version : String) (cycles : List Cycle) (now : Time) : Option Cycle :=
  match versionParts version, oldestCycle cycles with
  | some v, some (c, p) =>
    if p.length ≤ v.length ∧ v.take p.length < p ∧ cycleEnded c now then some c else none
  | _, _ => none

/-- `newestSupportedCycle`: the highest line not ended by now, "" if none. -/
def newestSupportedCycle (cycles : List Cycle) (now : Time) : String :=
  (cycles.foldl (fun (best : List ℤ × String) c =>
    let live := match c.eol with
      | none => false
      | some (.ended b) => !b
      | some (.date d) => (parseDate d).any (now < ·)
    match live, versionParts c.cycle with
    | true, some p => if best.1 < p then (p, c.cycle) else best
    | _, _ => best) ([], "")).2

/-! ## Subjects -/

/-- `nsLabel`. -/
def nsLabel (ns : String) : String := orElse ns "no namespace set"

/-- `namedNamespaces`: drops the unset namespace, which sorts first. -/
def namedNamespaces : List String → List String
  | "" :: ns => ns
  | ns => ns

/-- `addOnLocatedLimit`. -/
def addOnLocatedLimit : ℕ := 10

/-- `located`: the first names, and how many more. -/
def located (names : List String) : String :=
  if names.length ≤ addOnLocatedLimit then join names ", "
  else join (names.take addOnLocatedLimit) ", " ++ s!", and {names.length - addOnLocatedLimit} more"

/-- `unnamespaced`: an install in no named namespace. -/
def AddOnInstall.unnamespaced (i : AddOnInstall) : Bool := i.where.isEmpty || "" ∈ i.where

/-- The evidence sentence of node runtimes. -/
def locatedOnNodes (name : String) (ins : List AddOnInstall) (line : Bool) : String :=
  let names := sorted (ins.map fun i =>
    i.where.headD "" ++ if line then "" else " (" ++ orElse i.version "version unknown" ++ ")")
  let oldest := oldestVersion (ins.map (·.version))
  if line then s!"Detected {name} version {oldest} on node(s): {located names}."
  else s!"Detected {name} on node(s): {located names}."

/-- The namespaces of installs, the unset one included. -/
def installNamespaces (ins : List AddOnInstall) : List String := sortedSet (ins.flatMap (·.where))

/-- One install's places, with its version and how it was found. -/
def installParts (i : AddOnInstall) : List String :=
  (if i.where.isEmpty then ["cluster-scoped"] else i.where).map fun ns =>
    nsLabel ns ++ " (" ++ orElse i.version "version unknown" ++ " via " ++ i.via ++ ")"

/-- The evidence sentence of installs in namespaces. -/
def locatedInNamespaces (name : String) (ins : List AddOnInstall) : String :=
  let first := ins.headD ⟨"", "", [], []⟩
  let same := ins.all fun i => i.version = first.version ∧ i.via = first.via
  let namespaces := installNamespaces ins
  let version := orElse first.version "(unknown)"
  if same ∧ namespaces = [] then
    s!"Detected {name} version {version} via {first.via} (cluster-scoped)."
  else if same then
    s!"Detected {name} version {version} via {first.via} in namespace(s): {located (namespaces.map nsLabel)}."
  else s!"Detected {name} in namespace(s): {located (sorted (ins.flatMap installParts))}."

/-- `newAddOnSubject`: installs judged at the oldest known version. -/
def newAddOnSubject (name : String) (ins : List AddOnInstall) (line node : Bool) : AddOnSubject where
  version := oldestVersion (ins.map (·.version))
  located := if node then locatedOnNodes name ins line else locatedInNamespaces name ins
  namespaces := if node then [] else namedNamespaces (installNamespaces ins)
  teams := if node then [] else sortedSet (ins.flatMap (·.teams))
  unnamespaced := !node && ins.any AddOnInstall.unnamespaced
  installs := ins
  node := node

/-- `belowPrefix`. -/
def belowPrefix : String := "below-"

/-- The release-line group an install belongs to. -/
def groupKey (a : AddOn) (now : Time) (i : AddOnInstall) : String :=
  match cycleFor i.version a.cycles with
  | some c => c.cycle
  | none => match predatesCycles i.version a.cycles now with
    | some oldest => belowPrefix ++ oldest.cycle
    | none => ""

/-- `groupInstalls`: the groups of an add-on's installs by release line, in the order of the lines. -/
def groupInstalls (a : AddOn) (ins : List AddOnInstall) (node : Bool) (now : Time) :
    AddOnSubject × List AddOnSubject :=
  let groups := (groupOn (groupKey a now) ins).map fun g =>
    newAddOnSubject a.displayName g.2 (g.1 ≠ "" && !hasPrefix g.1 belowPrefix) node
  match groups with
  | [g] => (g, groups)
  | _ => (newAddOnSubject a.displayName ins false node, groups)

/-! ## Missing versions -/

/-- What an older agent did not read. -/
def unreadLabels : String :=
  " The collecting agent predates reading a pod's app.kubernetes.io/version label for an image without a tag, so such a label may carry the version; upgrade the agent."

/-- Why an install has no version, by the evidence it was found by. -/
def noVersionSentence (node labelsConsulted : Bool) (i : AddOnInstall) : String :=
  let via := (cut (cut i.via ',').1 ' ').1
  if node then "The node reports no container runtime version."
  else if via = "image" then
    if labelsConsulted then
      "No version was read from the image: either its tag names no version (a digest, :latest) and no pod running it whose labels name this add-on gives a usable app.kubernetes.io/version, or it is a component image whose release line the registry does not map yet."
    else
      "No version was read from the image: either its tag names no version (a digest, :latest) or it is a component image whose release line the registry does not map yet." ++ unreadLabels
  else if via = "labels" then
    "The pod labels name it, but no app.kubernetes.io/version label gives a version that applies to it."
  else if via = "chart" then
    if labelsConsulted then
      "The Helm release records no appVersion, and no pod image tag or app.kubernetes.io/version label gives a version."
    else
      "No app version was read from the Helm release or from a pod image tag: either the release records none, or the collecting agent did not collect it (a v0.1.x agent reported only the chart version)." ++ unreadLabels
  else if via = "gitops" then
    if labelsConsulted then
      "The GitOps chart reference gives no app version, and no running pod's image tag or app.kubernetes.io/version label does."
    else
      "The GitOps chart reference gives no app version, and no running pod's image tag does." ++ unreadLabels
  else if via = "ingressclass" then "An IngressClass names it but carries no version."
  else "No version was recorded for this add-on."

/-- `noVersionReason`: the reasons in the order of the installs, each once. -/
def noVersionReason (ins : List AddOnInstall) (node labelsConsulted : Bool) : String :=
  " " ++ join (appendNew [] (ins.map (noVersionSentence node labelsConsulted))) " " ++
    " Its end of life and Kubernetes compatibility were not assessed."

/-! ## Compatibility -/

section Compat

variable (X : External)

/-- `matchesRange`: a detected version, without its suffix, satisfies a constraint. -/
def matchesRange (version constraint : String) : Bool :=
  match X.constraint constraint, X.newVersion (trimSpace version) with
  | some check, some v => check { v with prerelease := "", metadata := "" }
  | _, _ => false

/-- `k8sOutOfRange`: the target is outside the bounds; the title of the finding. -/
def k8sOutOfRange (name version k8sMin k8sMax : String) (target : Version) : Option String :=
  if k8sMax ≠ "" ∧ (version? X k8sMax).any (fun kmax => (kmax.compare target).isLT) then
    some s!"{name} {version} supports Kubernetes up to {k8sMax} (target {target})"
  else if k8sMin ≠ "" ∧ (version? X k8sMin).any (fun kmin => (target.compare kmin).isLT) then
    some s!"{name} {version} requires Kubernetes {k8sMin} or newer (target {target})"
  else none

/-- `k8sRangeText`. -/
def k8sRangeText (k8sMin k8sMax : String) : String :=
  if k8sMin = "" then "up to " ++ k8sMax
  else if k8sMax = "" then k8sMin ++ " and newer"
  else k8sMin ++ " through " ++ k8sMax

/-- `compatFor`: the title, detail and citations when the target is outside the range of the
version's release line, or of the first compatibility row that matches it. -/
def compatFor (a : AddOn) (version : String) (target : Version) :
    Option (String × String × List String) :=
  let byLine := (cycleFor version a.cycles).bind fun c =>
    (k8sOutOfRange X a.displayName version c.k8sMin c.k8sMax target).map fun title =>
      (title, s!"Installed version {version} is in the {c.cycle} release line, which supports Kubernetes {k8sRangeText c.k8sMin c.k8sMax}.",
        c.citations)
  match byLine with
  | some r => some r
  | none => (a.compat.find? fun c => matchesRange X version c.range).bind fun c =>
      (k8sOutOfRange X a.displayName version c.k8sMin c.k8sMax target).map fun title =>
        (title, s!"Installed version {version} matches compatibility range {X.quote c.range}, which supports Kubernetes {k8sRangeText c.k8sMin c.k8sMax}.",
          c.citations)

/-- The installs of a subject that cannot run the target. -/
def badInstalls (a : AddOn) (s : AddOnSubject) (target : Version) : List AddOnInstall :=
  s.installs.filter fun i => i.version ≠ "" ∧ (compatFor X a i.version target).isSome

/-- `evalAddOnCompat`: the blocker naming the installs that cannot run the target, at the key the
caller gives. -/
def evalAddOnCompat (a : AddOn) (s : AddOnSubject) (target : Version) (key : String) : Option Finding :=
  let bad := badInstalls X a s target
  match compatFor X a (oldestVersion (bad.map (·.version))) target with
  | none => none
  | some (title, detail, citations) =>
    if bad = [] then none
    else
      let named := located (sorted (bad.flatMap fun i =>
        i.where.map fun w => nsLabel w ++ " (" ++ i.version ++ ")"))
      some
        { category := .chartIncompat
          severity := .blocker
          key := key
          title := title
          detail := detail ++
            if s.node then " Incompatible nodes: " ++ named ++ "."
            else if 1 < (sortedSet (bad.map (·.version))).length then
              " Incompatible installs: " ++ named ++ "."
            else ""
          teams := if s.node then [] else sortedSet (bad.flatMap (·.teams))
          namespaces := if s.node then [] else namedNamespaces (installNamespaces bad)
          unnamespaced := !s.node && bad.any AddOnInstall.unnamespaced
          remediation := a.recommendation
          citations := citations }

variable {X} in
/-- The finding about compatibility names the installs that cannot run the target. -/
theorem evalAddOnCompat_eq_some {a : AddOn} {s : AddOnSubject} {target : Version} {key : String} {f : Finding}
    (h : evalAddOnCompat X a s target key = some f) :
    ∃ title detail citations, f =
      { category := .chartIncompat
        severity := .blocker
        key := key
        title := title
        detail := detail
        teams := if s.node then [] else sortedSet ((badInstalls X a s target).flatMap (·.teams))
        namespaces := if s.node then [] else namedNamespaces (installNamespaces (badInstalls X a s target))
        unnamespaced := !s.node && (badInstalls X a s target).any AddOnInstall.unnamespaced
        remediation := a.recommendation
        citations := citations } := by
  unfold evalAddOnCompat at h
  dsimp only at h
  split at h
  · simp at h
  · split at h
    · simp at h
    · obtain rfl := Option.some.inj h
      exact ⟨_, _, _, rfl⟩

end Compat

/-! ## Ends of life -/

/-- Ninety days, the window of an approaching end of life. -/
def eolWindow : ℤ := 90 * day

/-- The citations and remediation of a finding about a release line (`lineFinding`). -/
def lineCitations (a : AddOn) (c : Cycle) : List String := appendNew [] (c.citations ++ a.support.citations)

/-- The remediation of a finding about a release line. -/
def lineRemediation (a : AddOn) (now : Time) : String :=
  let newest := newestSupportedCycle a.cycles now
  if a.recommendation = "" ∧ newest ≠ "" then
    s!"Upgrade {a.displayName} to a supported release line (newest: {newest})."
  else a.recommendation

/-- The end of a release line: severity, category, and the title and detail after the located
sentence (`cycleEOL`). -/
def cycleEOL (a : AddOn) (c : Cycle) (now : Time) : Option (Category × Severity × String × String) :=
  match c.eol with
  | none => none
  | some (.ended true) =>
    some (.eolAddon, .blocker, s!"{a.displayName} {c.cycle} is end-of-life",
      s!" Upstream support for the {c.cycle} release line has ended.")
  | some (.ended false) => none
  | some (.date d) =>
    match parseDate d with
    | none => none
    | some at_ =>
      if at_ ≤ now then
        some (.eolAddon, .blocker, s!"{a.displayName} {c.cycle} is end-of-life since {d}",
          s!" Upstream support for the {c.cycle} release line ended on {d}.")
      else if at_ ≤ now + eolWindow then
        some (.eolApproaching, .warning, s!"{a.displayName} {c.cycle} reaches end-of-life on {d}",
          s!" Upstream support for the {c.cycle} release line ends on {d}.")
      else none

/-- The end of versions older than every line (`predatesEOL`). -/
def predatesEOL (a : AddOn) (oldest : Cycle) (version : String) :
    Category × Severity × String × String :=
  let ended := match oldest.eol with
    | some (.date d) => s!"support for {oldest.cycle} ended on {d}"
    | _ => s!"support for {oldest.cycle} has ended"
  (.eolAddon, .blocker,
    s!"{a.displayName} {version} is end-of-life (older than the {oldest.cycle} release line)",
    s!" Versions older than the {oldest.cycle} release line, the oldest one upstream still documents, are past end of life: {ended}.")

/-- `splitSupportFinding`: the end of a product whose support lasts longer under a condition. -/
def splitSupportFinding (a : AddOn) («end» ext now : Time) :
    Option (Category × Severity × String × String) :=
  let s := a.support
  let cond := s.extendedSupportCondition
  let window := now + eolWindow
  if ext ≤ now then
    some (.eolAddon, .blocker, s!"{a.displayName} is end-of-life since {s.extendedEOLDate}",
      s!" Support ended on {s.eolDate}, and support that applied only if {cond} ended on {s.extendedEOLDate}.")
  else if ext ≤ window then
    some (.eolApproaching, .warning, s!"{a.displayName} reaches end-of-life on {s.extendedEOLDate}",
      s!" Support until then applies only if {cond}; without it, support ended on {s.eolDate}.")
  else if «end» ≤ now then
    some (.eolApproaching, .warning,
      s!"{a.displayName} is supported until {s.extendedEOLDate} only if {cond}",
      s!" Support without that condition ended on {s.eolDate}; upgradescope cannot see whether this cluster meets it.")
  else if «end» ≤ window then
    some (.eolApproaching, .warning, s!"{a.displayName} reaches end-of-life on {s.eolDate}",
      s!" Support ends on {s.eolDate}; after that it continues until {s.extendedEOLDate} only if {cond}, which upgradescope cannot see.")
  else none

/-- The end of a product as a whole: category, severity, title and the detail after the located
sentence. -/
def productEOL (a : AddOn) (now : Time) : Option (Category × Severity × String × String) :=
  let s := a.support
  let eolDate := if s.eolDate = "" then none else parseDate s.eolDate
  let extDate :=
    if s.extendedEOLDate = "" ∨ s.status = .eol then none else parseDate s.extendedEOLDate
  match eolDate, extDate with
  | some end_, some ext => splitSupportFinding a end_ ext now
  | _, _ =>
    if s.status = .eol ∨ eolDate.any (· ≤ now) then
      if eolDate.any (now < ·) then
        some (.eolAddon, .blocker, s!"{a.displayName} is end-of-life on {s.eolDate}",
          s!" Upstream support ends on {s.eolDate}.")
      else if s.eolDate ≠ "" then
        some (.eolAddon, .blocker, s!"{a.displayName} is end-of-life since {s.eolDate}",
          " Upstream support has ended.")
      else
        some (.eolAddon, .blocker, s!"{a.displayName} is end-of-life", " Upstream support has ended.")
    else if eolDate.any (· ≤ now + eolWindow) then
      some (.eolApproaching, .warning, s!"{a.displayName} reaches end-of-life on {s.eolDate}",
        s!" Upstream support ends on {s.eolDate}.")
    else none

/-- Whether the product carries a date or an end-of-life status. -/
def productDated (a : AddOn) : Bool :=
  a.support.status = .eol || a.support.eolDate ≠ "" && (parseDate a.support.eolDate).isSome

/-- The sentence that softens the ended release line of a node runtime. -/
def nodeRuntimeNote : String :=
  " The runtime comes with the node image or OS, not with the Kubernetes version, so this does not block the upgrade by itself."

/-- A finding about installs, in the registry's words (`finding` of `evalAddOn`). -/
def subjectFinding (s : AddOnSubject) (cat : Category) (sev : Severity) (key title detail : String)
    (remediation : String) (citations : List String) : Finding where
  category := cat
  severity := sev
  key := key
  title := title
  detail := detail
  teams := s.teams
  namespaces := s.namespaces
  unnamespaced := s.unnamespaced
  remediation := remediation
  citations := citations

section EvalAddOn

variable (X : External) (a : AddOn) (target : Version) (now : Time) (labelsConsulted : Bool)

/-- The tail of the keys of a group's findings: the add-on and the release line. -/
def lineKey (s : AddOnSubject) : String :=
  match cycleFor s.version a.cycles, predatesCycles s.version a.cycles now with
  | some c, _ => a.id ++ "/" ++ c.cycle
  | none, some oldest => a.id ++ "/" ++ belowPrefix ++ oldest.cycle
  | none, none => a.id

/-- The finding about the end of a group's release line. -/
def lineFinding (s : AddOnSubject) : Option Finding :=
  let judged : Option (Cycle × (Category × Severity × String × String)) :=
    match cycleFor s.version a.cycles with
    | some c => (cycleEOL a c now).map fun f => (c, f)
    | none => (predatesCycles s.version a.cycles now).map fun o => (o, predatesEOL a o s.version)
  if productDated a then none
  else judged.map fun (c, cat, sev, title, more) =>
    let soften := s.node && sev = .blocker
    subjectFinding s cat (if soften then .warning else sev) (cat.name ++ "/" ++ lineKey a now s) title
      (s.located ++ more ++ if soften then nodeRuntimeNote else "")
      (lineRemediation a now) (lineCitations a c)

/-- The disclosure that a group's version has no lifecycle data. -/
def noDataFinding (s : AddOnSubject) : Option Finding :=
  if productDated a ∨ (cycleFor s.version a.cycles).isSome ∨
      (predatesCycles s.version a.cycles now).isSome then none
  else
    let ver := orElse s.version "(version unknown)"
    let reason :=
      if s.version = "" then noVersionReason s.installs s.node labelsConsulted
      else " The registry has no release-line data for this version, so its end of life was not assessed."
    some (subjectFinding s .addOnNoData .info (Category.addOnNoData.name ++ "/" ++ a.id)
      s!"no lifecycle data for {a.displayName} {ver}" (s.located ++ reason) "" a.support.citations)

variable {a now labelsConsulted} in
/-- A group has no lifecycle data when neither its product nor a line of the registry dates it. -/
theorem noDataFinding_eq_some {s : AddOnSubject} {f : Finding} (h : noDataFinding a now labelsConsulted s = some f) :
    productDated a = false ∧ cycleFor s.version a.cycles = none ∧ predatesCycles s.version a.cycles now = none ∧
      ∃ title detail, f = subjectFinding s .addOnNoData .info (Category.addOnNoData.name ++ "/" ++ a.id) title detail ""
        a.support.citations := by
  unfold noDataFinding at h
  split at h
  · simp at h
  · rename_i hcond
    simp only [not_or, Bool.not_eq_true, Option.isSome_eq_false_iff, Option.isNone_iff_eq_none] at hcond
    exact ⟨hcond.1, hcond.2.1, hcond.2.2, _, _, (Option.some.inj h).symm⟩

/-- The findings about one release-line group. -/
def groupFindings (s : AddOnSubject) : List Finding :=
  (lineFinding a now s).toList ++
    (evalAddOnCompat X a s target (Category.chartIncompat.name ++ "/" ++ lineKey a now s)).toList ++
    (noDataFinding a now labelsConsulted s).toList

/-- `evalAddOn`: the product's finding about all installs, and the groups' findings. -/
def evalAddOn (all : AddOnSubject) (groups : List AddOnSubject) : List Finding :=
  ((productEOL a now).map fun (cat, sev, title, more) =>
    subjectFinding all cat sev (cat.name ++ "/" ++ a.id) title (all.located ++ more)
      a.recommendation a.support.citations).toList ++
    groups.flatMap (groupFindings X a target now labelsConsulted)

/-- The findings of an add-on's installs: `groupInstalls` and then `evalAddOn`. -/
def addOnFindings (ins : List AddOnInstall) (node : Bool) : List Finding :=
  let (all, groups) := groupInstalls a ins node now
  evalAddOn X a target now labelsConsulted all groups

/-- The finding about the product as a whole. -/
def productFinding (all : AddOnSubject) : Option Finding :=
  (productEOL a now).map fun (cat, sev, title, more) =>
    subjectFinding all cat sev (cat.name ++ "/" ++ a.id) title (all.located ++ more) a.recommendation a.support.citations

/-- The findings about an add-on's installs: the product's and those of the groups. -/
theorem addOnFindings_eq_append (ins : List AddOnInstall) (node : Bool) :
    addOnFindings X a target now labelsConsulted ins node =
      (productFinding a now (groupInstalls a ins node now).1).toList ++
        (groupInstalls a ins node now).2.flatMap (groupFindings X a target now labelsConsulted) := rfl

variable {a now} in
/-- A product's finding says what `productEOL` does of its end of life. -/
theorem productFinding_eq_some {all : AddOnSubject} {f : Finding} (h : productFinding a now all = some f) :
    ∃ cat sev title more, productEOL a now = some (cat, sev, title, more) ∧
      f = subjectFinding all cat sev (cat.name ++ "/" ++ a.id) title (all.located ++ more) a.recommendation
        a.support.citations := by
  obtain ⟨⟨cat, sev, title, more⟩, hproduct, hf⟩ := Option.map_eq_some_iff.mp h
  exact ⟨cat, sev, title, more, hproduct, hf.symm⟩

variable {X a target now labelsConsulted} in
/-- A finding about an add-on's installs is the product's, or of a group: about its line, about the target, or that
nothing is known of its version. -/
theorem mem_addOnFindings {ins : List AddOnInstall} {node : Bool} {f : Finding} :
    f ∈ addOnFindings X a target now labelsConsulted ins node ↔
      productFinding a now (groupInstalls a ins node now).1 = some f ∨
        ∃ s ∈ (groupInstalls a ins node now).2, lineFinding a now s = some f ∨
          evalAddOnCompat X a s target (Category.chartIncompat.name ++ "/" ++ lineKey a now s) = some f ∨
          noDataFinding a now labelsConsulted s = some f := by
  simp only [addOnFindings_eq_append, groupFindings, List.mem_append, List.mem_flatMap, Option.mem_toList, or_assoc]

end EvalAddOn

/-! ## The checks -/

section Checks

variable (X : External) (k : KB) (target : Version) (now : Time) (inv : Inventory)

/-- How an instance was found, with its chart's version. -/
def AddOnInstance.via (i : AddOnInstance) : String :=
  if i.chartVersion = "" then i.source
  else if i.source = "chart" then i.source ++ " " ++ i.chartVersion
  else i.source ++ ", chart " ++ i.chartVersion

/-- The install of an inventory's instance. -/
def installOf (nsInfo : List NamespaceInfo) (i : AddOnInstance) : AddOnInstall :=
  ⟨i.version, i.via, sorted i.namespaces, teamsFor nsInfo (sorted i.namespaces)⟩

/-- The registry entry of an id, the last one counting. -/
def registryEntry (id : String) : Option AddOn := k.addOns.reverse.find? (·.id = id)

/-- The runtime and the version a node reports, "runtime://version". -/
def nodeRuntime (n : NodeInfo) : Option (String × String) :=
  (cutAt n.containerRuntime "://").map fun (rt, ver) => (rt, trimPrefix ver "v")

/-- The installs of the runtimes an entry matches. -/
def runtimeInstalls (a : AddOn) : List AddOnInstall :=
  inv.nodes.filterMap fun n => (nodeRuntime n).bind fun (rt, ver) =>
    if rt ∈ a.matchers.runtimes then some ⟨ver, "", [n.name], []⟩ else none

/-- `evalNodeRuntimes`: the node container runtimes of the entries that match some. -/
def evalNodeRuntimes : List Finding :=
  k.addOns.flatMap fun a =>
    if a.matchers.runtimes = [] ∨ runtimeInstalls inv a = [] then []
    else addOnFindings X a target now true (runtimeInstalls inv a) true

/-- `evalAddOns`: every detected add-on of the registry, in the order of the inventory, and the node
runtimes. -/
def evalAddOns : List Finding :=
  let labelsConsulted := labelVersionCollectorSchema ≤ inv.collectorSchema
  ((distinctOn id (inv.addOns.map (·.id))).flatMap fun id =>
    match registryEntry k id with
    | none => []
    | some a => addOnFindings X a target now labelsConsulted
        ((inv.addOns.filter (·.id = id)).map (installOf inv.namespaces)) false) ++
    evalNodeRuntimes X k target now inv

/-- The runtimes that no registry entry covers, with their installs. -/
def uncoveredRuntimes : List (String × List (String × AddOnInstall)) :=
  groupOn (·.1) (inv.nodes.filterMap fun n =>
    (nodeRuntime n).bind fun (rt, ver) =>
      if rt = "" ∨ k.addOns.any (fun a => rt ∈ a.matchers.runtimes) then none
      else some (rt, ⟨ver, "", [n.name], []⟩))

/-- One turn of `evalUncoveredRuntimes`. -/
def uncoveredFinding (rt : String) (ins : List AddOnInstall) : Finding :=
  let first := (ins.headD ⟨"", "", [], []⟩).version
  -- One known version names it once; otherwise each node's own.
  let same := first ≠ "" && ins.all (·.version = first)
  { category := .addOnNoData
    severity := .info
    key := Category.addOnNoData.name ++ "/" ++ rt
    title := "no lifecycle data for container runtime " ++ rt
    detail := locatedOnNodes rt ins same ++
      " The registry has no entry for this container runtime, so its end of life and Kubernetes compatibility were not assessed." }

/-- `evalUncoveredRuntimes`, before charging. -/
def evalUncoveredRuntimes : List Finding :=
  if k.addOns = [] then []
  else (uncoveredRuntimes k inv).map fun g => uncoveredFinding g.1 (g.2.map (·.2))

variable {k inv} in
/-- The findings about runtimes that no entry covers. -/
theorem mem_evalUncoveredRuntimes {f : Finding} (h : f ∈ evalUncoveredRuntimes k inv) :
    ∃ g ∈ uncoveredRuntimes k inv, f = uncoveredFinding g.1 (g.2.map (·.2)) := by
  unfold evalUncoveredRuntimes at h
  split at h
  · simp at h
  · obtain ⟨g, hg, rfl⟩ := List.mem_map.mp h
    exact ⟨g, hg, rfl⟩

end Checks

end UpgradeScope
