import UpgradeScope.Engine.Finding

/-!
# API usage and deprecated callers

`internal/engine/engine.go`, the checks of the API lifecycle: the objects at removed, deprecated or
unknown APIs (`usageFinding`), the objects nobody can be named for (`authorshipFinding`), the clients
the apiserver's metric records (`callFinding`), and the fold of a caller's row into the usage finding
of the API it requests (`foldDeprecatedCalls`).
-/

namespace UpgradeScope

open Go Sorting Kb

/-! ## Text shared by the checks -/

/-- `apiVersioningURL`. -/
def apiVersioningURL : String := "https://kubernetes.io/docs/reference/using-api/#api-versioning"

/-- `pluralObjects`. -/
def pluralObjects (n : ℤ) : String := if n = 1 then "1 object" else s!"{n} objects"

/-- The team a namespace's label names, the last entry of a name counting. -/
def teamOf (nsInfo : List NamespaceInfo) (ns : String) : String :=
  ((nsInfo.reverse.find? (·.name = ns)).map (·.team)).getD ""

/-- `teamLookup.teamsFor`: the teams of namespaces, sorted. -/
def teamsFor (nsInfo : List NamespaceInfo) (namespaces : List String) : List String :=
  sortedSet ((namespaces.map (teamOf nsInfo)).filter (· ≠ ""))

/-- `namespaceBreakdown`: "ns (count)" parts in the order of the names, at most
`maxFindingNamespaces` named ones, and every name. -/
def namespaceBreakdown (counts : NamespaceCounts) (emptyLabel : String) : String × List String :=
  let keys := sorted counts.keys
  let names := keys.filter (· ≠ "")
  -- The empty key sorts first.
  let shown := keys.filter (· = "") ++ names.take maxFindingNamespaces
  let parts := shown.map fun ns =>
    orElse ns emptyLabel ++ s!" ({(counts.lookup ns).getD 0})"
  let more :=
    if names.length > maxFindingNamespaces then
      s!", and {names.length - maxFindingNamespaces} more namespace(s)"
    else ""
  (join parts ", " ++ more, names)

/-- The order of a finding's objects: file, line, namespace, name. -/
def objectOrder (o : ObjectRef) : String ×ₗ ℤ ×ₗ String ×ₗ String :=
  toLex (o.file, toLex (o.line, toLex (o.namespace, o.name)))

/-- `sortedObjects`. -/
def sortedObjects (refs : List ObjectRef) : List ObjectRef := sortOn objectOrder refs

/-- `objectManagers`: the distinct managers, sorted. -/
def objectManagers (refs : List ObjectRef) : List String :=
  sortedSet ((refs.map (·.manager)).filter (· ≠ ""))

/-- `writtenBy`: the managers of a row's objects as a sentence. -/
def writtenBy (u : APIUsage) : String :=
  if objectManagers u.objects = [] then ""
  else
    let by_ :=
      if u.objectsOmitted > 0 then
        s!" Written by (of {wrap64 (u.objects.length + u.objectsOmitted)} objects, not all identified): "
      else " Written by: "
    by_ ++ join (objectManagers u.objects) ", " ++ "."

/-- `objectsListed`: what a usage row's listed objects say its objects are. -/
inductive ObjectsListed where
  /-- A cluster's objects, or none listed. -/
  | stored
  /-- Manifest objects. -/
  | manifest
  /-- Manifest objects in a cluster's row that counts more. -/
  | mixed
  deriving DecidableEq

/-- `listedObjects`: read off the first listed object. -/
def listedObjects (src : Source) (u : APIUsage) : ObjectsListed :=
  match u.objects with
  | [] => .stored
  | o :: _ =>
    if o.line = 0 then .stored
    else if src = .files ∨ u.count ≤ u.objects.length then .manifest
    else .mixed

/-- `objectsListed.emptyNamespace`: what the empty namespace is called. -/
def ObjectsListed.emptyNamespace : ObjectsListed → String
  | .manifest => "no namespace set"
  | .mixed => "cluster-scoped or no namespace set"
  | .stored => "cluster-scoped"

/-! ## Objects at flagged APIs -/

/-- `successorRemedy`: the version to move to, with its stability. -/
def successorRemedy (succ : APILifecycleEntry) (maxKnown : Version) (inList : Bool) : String :=
  let out := gvString succ.group succ.version ++ " " ++ succ.kind
  if ¬ preGA succ.version then out
  else
    let alpha := contains succ.version "alpha"
    let note := if alpha then "alpha; must be enabled" else "beta; may need enabling"
    let later :=
      match alpha, succ.removed with
      | true, some r =>
        if r.gt maxKnown then
          if inList then s!"itself removed in the projected {r}" else s!"itself removed in {r} (projected)"
        else s!"itself removed in {r}"
      | _, _ => ""
    if inList then out ++ " - " ++ (if later ≠ "" then note ++ "; " ++ later else note)
    else out ++ " (" ++ note ++ ")" ++ if later ≠ "" then ", " ++ later else ""

/-- `withMigration`: a hint with the knowledge base's note. -/
def withMigration (hint : String) (m : Migration) : String :=
  if hint = "" then m.note else hint ++ "; " ++ m.note

section Usage

variable (k : KB) (target : Version)

/-- `e.Removed.Compare(target) <= 0`: the API is removed at the target. -/
def removedAt (e : APILifecycleEntry) : Bool := e.removed.any (·.le target)

/-- `e.Removed.Compare(target.Next()) == 0`: the API is removed in the next minor. -/
def removedNext (e : APILifecycleEntry) : Bool := e.removed.any (· = target.next)

/-- A group of the knowledge base. -/
def builtinGroup (group : String) : Bool :=
  (k.apiLifecycle.any (·.group = group)) || group ∈ k.builtinGroups

/-- A manifest names an API the target does not serve yet. -/
def unservedUse (src : Source) (u : APIUsage) : Bool :=
  match lookup k.apiLifecycle ⟨u.group, u.version, u.kind⟩ with
  | some e => e.introduced.gt target && (src = .files || listedObjects src u ≠ .stored)
  | none => false

/-- The remediation of a usage finding and what it cites besides the deprecation guide. -/
def usageRemedy (e : APILifecycleEntry) (u : APIUsage) (unserved : Bool) : String × List String :=
  let es := k.apiLifecycle
  let hint : String × List String :=
    if unserved then
      match servedAlternative es e target with
      | some alt =>
        let enable := if preGA alt.version then " (alpha and beta APIs may need enabling)" else ""
        (s!"write it as {gvString alt.group alt.version} {alt.kind}, the newest version Kubernetes {target} can serve{enable}, or upgrade the cluster to Kubernetes {e.introduced} before applying it",
          [apiVersioningURL])
      | none =>
        (s!"Kubernetes {target} serves no version of {u.kind} as mature as {u.version} that the knowledge base knows: upgrade the cluster to Kubernetes {e.introduced} before applying it",
          [apiVersioningURL])
    else match resolveReplacement es e target with
      | some r =>
        (s!"migrate to {gvString r.group r.version} {r.kind}",
          match lookup es r with
          | some re => if e.replacementDefaulted then [changelogURL re.introduced] else []
          | none => [])
      | none => match laterReplacement es e target with
        | some (later, since) =>
          (s!"no replacement Kubernetes {target} serves is known; {gvString later.group later.version} {later.kind} is served from {since}" ++
            (if servedAt e target then
              s!"; {gvString u.group u.version} is the right version for Kubernetes {target} until then"
            else ""), [])
        | none => match servedSuccessor es e target with
          | some succ => ("migrate to " ++ successorRemedy succ k.maxKnownK8s false, [])
          | none =>
            (if e.replacement.isSome then s!"no replacement Kubernetes {target} serves is known" else "", [])
  match e.migration, unserved with
  | some m, false => (withMigration hint.1 m, appendNew (deprecationGuideURL :: hint.2) m.citations)
  | _, _ => (hint.1, deprecationGuideURL :: hint.2)

/-- The category, severity and title of a usage finding; `none` when the API is neither deprecated
nor removed. -/
def usageJudgement (e? : Option APILifecycleEntry) (u : APIUsage) (unserved : Bool) :
    Option (Category × Severity × String) :=
  let gv := gvString u.group u.version
  let objects := pluralObjects u.count
  match e? with
  | none => some (.unknownAPI, .info, s!"{gv} {u.kind} is not in the knowledge base ({objects})")
  | some e =>
    let projected := if e.removed.any (·.gt k.maxKnownK8s) then " (projected)" else ""
    let removedIn := (e.removed.map Version.string).getD ""
    if unserved then
      some (.removedAPI, .blocker,
        s!"{gv} {u.kind} is not served until {e.introduced}, after target {target} ({objects})")
    else if removedAt target e then
      some (.removedAPI, .blocker, s!"{gv} {u.kind} removed in {removedIn}{projected} ({objects})")
    else if removedNext target e then
      some (.removedAPI, .warning, s!"{gv} {u.kind} removed in {removedIn}{projected} ({objects})")
    else match e.deprecated with
      | some d =>
        if d.gt target then
          let projected := d.string ++ if d.gt k.maxKnownK8s then " (projected)" else ""
          some (.deprecatedAPI, .info,
            s!"{gv} {u.kind} deprecated in {projected}, after target {target} ({objects})")
        else some (.deprecatedAPI, .info, s!"{gv} {u.kind} deprecated since {d} ({objects})")
      | none => none

/-- The evidence sentences of a usage finding. -/
def usageDetail (e? : Option APILifecycleEntry) (u : APIUsage) (listed : ObjectsListed)
    (nsDetail : String) (cat : Category) (unserved : Bool) : String :=
  let what :=
    if listed = .manifest then s!"{u.count} manifest object(s) use this API"
    else if listed = .mixed then s!"{u.count} object(s) use this API"
    else if objectManagers u.objects ≠ [] then s!"{u.count} object(s) written through this API version"
    else s!"{u.count} object(s) still stored/served at this version"
  let base := (if nsDetail = "" then what ++ "." else what ++ ": " ++ nsDetail ++ ".") ++ writtenBy u
  match e? with
  | none =>
    base ++ s!" The knowledge base has no lifecycle data for this built-in API: it may have been removed, so check that Kubernetes {target} serves it."
  | some e =>
    base ++
      (if unserved then
        s!" Kubernetes {target} does not serve it yet (introduced in {e.introduced}), so applying these objects to it fails with \"no matches for kind\"."
      else "") ++
      match e.removed with
      | some r =>
        if cat = .removedAPI ∧ r.gt k.maxKnownK8s ∧ ¬ unserved then
          s!" The removal in {r} is projected: it is a default of k8s.io/api's lifecycle markers, not a shipped release (the newest the knowledge base covers is {k.maxKnownK8s}), and may change before it ships."
        else ""
      | none => ""

/-- The key of a usage finding. -/
def usageKey (cat : Category) (u : APIUsage) (unserved : Bool) : String :=
  let key := cat.name ++ "/" ++ apiKey u.group u.version u.kind
  if unserved then unservedKey key else key

/-- One turn of `evalAPIUsage`: the finding of a usage row. -/
def usageFinding (src : Source) (nsInfo : List NamespaceInfo) (u : APIUsage) : Option Finding :=
  let e? := lookup k.apiLifecycle ⟨u.group, u.version, u.kind⟩
  if e? = none ∧ ¬ builtinGroup k u.group then none
  else
    let listed := listedObjects src u
    let (nsDetail, nsNames) := namespaceBreakdown u.namespaces listed.emptyNamespace
    let unserved := unservedUse k target src u
    let remedy := usageRemedy k target (e?.getD default) u unserved
    (usageJudgement k target e? u unserved).map fun (cat, sev, title) =>
      { category := cat
        severity := sev
        key := usageKey cat u unserved
        title := title
        detail := usageDetail k target e? u listed nsDetail cat unserved
        teams := teamsFor nsInfo nsNames
        namespaces := nsNames
        remediation := remedy.1
        citations := remedy.2
        objects := sortedObjects u.objects
        objectsOmitted := u.objectsOmitted }

/-- What the finding of a usage row is made of. -/
theorem usageFinding_eq_some {src : Source} {nsInfo : List NamespaceInfo} {u : APIUsage} {f : Finding}
    (h : usageFinding k target src nsInfo u = some f) :
    usageJudgement k target (lookup k.apiLifecycle ⟨u.group, u.version, u.kind⟩) u
        (unservedUse k target src u) = some (f.category, f.severity, f.title) ∧
      f.key = usageKey f.category u (unservedUse k target src u) ∧
      f.objects = sortedObjects u.objects ∧ f.objectsOmitted = u.objectsOmitted ∧ f.callers = [] := by
  simp only [usageFinding] at h
  split_ifs at h
  obtain ⟨⟨cat, sev, title⟩, hj, rfl⟩ := Option.map_eq_some_iff.mp h
  exact ⟨hj, rfl, rfl, rfl, rfl⟩

/-- `evalAPIUsage`: the findings of the usage rows, before they are charged. -/
def evalAPIUsage (inv : Inventory) : List Finding :=
  inv.apiUsage.filterMap (usageFinding k target inv.source inv.namespaces)

/-! ## Objects nobody can be named for -/

/-- `authorshipUnknownKey`. -/
def authorshipUnknownKey : String := "authorship-unknown"

/-- One turn of `evalAuthorshipUnknown`. -/
def authorshipFinding (nsInfo : List NamespaceInfo) (u : APIUsage) : Option Finding :=
  match lookup k.apiLifecycle ⟨u.group, u.version, u.kind⟩ with
  | none => none
  | some e =>
    if e.deprecated = none ∧ e.removed = none then none
    else
      let (nsDetail, nsNames) := namespaceBreakdown u.namespaces "cluster-scoped"
      let gv := gvString u.group u.version
      some
        { category := .deprecatedAPI
          severity := .info
          key := Category.deprecatedAPI.name ++ "/" ++ apiKey u.group u.version u.kind ++ "/" ++
            authorshipUnknownKey
          title := s!"{gv} {u.kind}: authorship unknown ({pluralObjects u.count})"
          detail := s!"{u.count} object(s) have no managedFields entry to attribute them by (none outside the status subresource and the control plane) and no usable last-applied annotation, which is what creating one with an empty spec leaves, so who writes them, and through which API version, cannot be told. They are stored the same through every served version of {u.kind}: not counted as use of {gv}, no effect on the verdict or score." ++
            if nsDetail ≠ "" then " Namespaces: " ++ nsDetail ++ "." else ""
          teams := teamsFor nsInfo nsNames
          namespaces := nsNames
          citations := [deprecationGuideURL]
          objects := sortedObjects u.objects
          objectsOmitted := u.objectsOmitted }

/-- `evalAuthorshipUnknown`, before charging. -/
def evalAuthorshipUnknown (inv : Inventory) : List Finding :=
  inv.apiAuthorshipUnknown.filterMap (authorshipFinding k inv.namespaces)

end Usage

/-! ## Deprecated callers -/

section Calls

variable (X : External)

/-- `resourceKey`: a group, version and resource as the indexes of the fold key them. -/
def resourceKey (group version resource : String) : String :=
  group ++ "\x00" ++ version ++ "\x00" ++ resource

/-- A kind of a group and version goes by the resource a key names. -/
def keysResource (group version kind key : String) : Bool :=
  kind ≠ "" ∧ (resourceKey group version (resourceNames X kind).1 = key ∨
    resourceKey group version (resourceNames X kind).2 = key)

/-- `kbRemovals`: the release in which the knowledge base removes a resource, by the first entry
that has it. -/
def kbRemoval (k : KB) (key : String) : Option Version :=
  k.apiLifecycle.findSome? fun e =>
    e.removed.filter fun _ => keysResource X e.group e.version e.kind key

/-- The resource of a row with its subresource. -/
def DeprecatedCall.res (c : DeprecatedCall) : String :=
  if c.subresource ≠ "" then c.resource ++ "/" ++ c.subresource else c.resource

/-- What the metric records, in a caller's detail. -/
def metricSentence : String :=
  "apiserver_requested_deprecated_apis records requests to this API since the last apiserver restart; "

/-- What the metric does not record, in a caller's detail. -/
def anonymousSentence : String :=
  " The metric does not identify the client; apiserver audit logs do."

/-- The release that removes the API a row requests and the sentence that says so: the knowledge
base's, else the one the apiserver records. -/
def callRemoval (k : KB) (c : DeprecatedCall) : Option (Version × String) :=
  let label := if c.removedRelease = "" then none else version? X c.removedRelease
  match kbRemoval X k (resourceKey c.group c.version c.resource), label with
  | some removed, some l =>
    if l = removed then some (removed, s!"it is removed in {removed}.")
    else some (removed, s!"it is removed in {removed} per the knowledge base; the apiserver reports {l}.")
  | some removed, none =>
    if c.removedRelease = "" then
      some (removed, s!"it is removed in {removed} per the knowledge base; the apiserver records no removal release.")
    else
      some (removed, s!"it is removed in {removed} per the knowledge base; the apiserver's removal release {X.quote c.removedRelease} could not be parsed.")
  | none, some l => some (l, s!"it is removed in {l}.")
  | none, none => none

/-- The key of a row's finding. -/
def callKey (c : DeprecatedCall) : String :=
  Category.deprecatedAPIInUse.name ++ "/" ++ keyGroup c.group ++ "/" ++ c.version ++ "/" ++ c.res

/-- The severity, title and detail of a row's finding. -/
def callJudgement (k : KB) (target : Version) (c : DeprecatedCall) : Severity × String × String :=
  let requesting := s!"clients still requesting {gvString c.group c.version} {c.res}"
  match callRemoval X k c with
  | none =>
    (.info, requesting ++ " (deprecated)", metricSentence ++
      (if c.removedRelease = "" then "no removal release is recorded."
      else s!"removal release {X.quote c.removedRelease} could not be parsed.") ++ anonymousSentence)
  | some (removed, sentence) =>
    (if removed.le target then .blocker
      else if removed = target.next then .warning
      else .info,
      requesting ++ s!" (removed in {removed})", metricSentence ++ sentence ++ anonymousSentence)

/-- One turn of `evalDeprecatedCalls`: the finding of a row of the metric. -/
def callFinding (k : KB) (target : Version) (c : DeprecatedCall) : Finding where
  category := .deprecatedAPIInUse
  severity := (callJudgement X k target c).1
  key := callKey c
  title := (callJudgement X k target c).2.1
  detail := (callJudgement X k target c).2.2
  citations := [deprecationGuideURL]

/-- `otherCallers`: the rows that are not the scanner's own requests. -/
def otherCallers (inv : Inventory) : List DeprecatedCall :=
  let self := (inv.capability capDeprecatedCalls).skipped
  inv.deprecatedCalls.filter fun c =>
    ¬ (c.subresource = "" ∧ gvString c.group c.version ++ " " ++ c.resource ∈ self)

/-- The order rows are judged in. -/
def callOrder (c : DeprecatedCall) : String ×ₗ String ×ₗ String ×ₗ String ×ₗ String :=
  toLex (c.group, toLex (c.version, toLex (c.resource, toLex (c.subresource, c.removedRelease))))

/-- The rows an evaluation judges, in their order. -/
def judgedCalls (inv : Inventory) : List DeprecatedCall := sortOn callOrder (otherCallers inv)

/-- The caller a row becomes on the usage finding it folds into. -/
def callerOf (c : DeprecatedCall) (f : Finding) : Caller :=
  ⟨c.group, c.version, c.resource, c.subresource, f.key, f.severity, f.title, f.detail⟩

/-- The finding of a row is read back from the caller the row becomes. -/
theorem finding_callerOf (k : KB) (target : Version) (c : DeprecatedCall) :
    (callerOf c (callFinding X k target c)).finding = callFinding X k target c := rfl

/-- The last index of a list whose element satisfies a predicate. -/
def lastIdx {α : Type} (p : α → Bool) : List α → Option ℕ
  | [] => none
  | a :: l =>
    match lastIdx p l with
    | some i => some (i + 1)
    | none => if p a then some 0 else none

/-- The usage finding of the API a row requests: the first usage row whose kind has the row's
resource decides, and the last finding of its API is taken (`byResource`, `byAPI`). -/
def foldTarget (rows : List APIUsage) (usage : List Finding) (c : DeprecatedCall) : Option ℕ :=
  (rows.find? fun u =>
    keysResource X u.group u.version u.kind (resourceKey c.group c.version c.resource)).bind fun u =>
      lastIdx (fun f => keyAPI f.key = apiKey u.group u.version u.kind) usage

/-- Where a row folds to: nowhere when no usage finding is of its API, or when it is the more severe. -/
def foldIndex (rows : List APIUsage) (usage : List Finding) (c : DeprecatedCall) (call : Finding) :
    Option ℕ :=
  (foldTarget X rows usage c).filter fun j =>
    (usage[j]?).any fun f => f.severity.rank ≤ call.severity.rank

/-- The resources a usage finding's callers requested, the API named with the first. -/
def requested : List DeprecatedCall → List String
  | [] => []
  | c :: cs => (gvString c.group c.version ++ " " ++ c.res) :: cs.map (·.res)

/-- The sentence the fold adds to a usage finding. -/
def foldSentence (rows : List DeprecatedCall) : String :=
  " apiserver_requested_deprecated_apis also records requests to " ++ join (requested rows) ", " ++
    " since the last apiserver restart; the metric does not identify the client."

/-- A usage finding with the rows folded into it. -/
def withCallers (f : Finding) (rows : List (DeprecatedCall × Finding)) : Finding :=
  if rows = [] then f
  else { f with
    callers := f.callers ++ rows.map fun r => callerOf r.1 r.2
    detail := f.detail ++ foldSentence (rows.map (·.1)) }

/-- The judged rows with where each folds to. -/
def placedCalls (inv : Inventory) (usage : List Finding) (calls : List (DeprecatedCall × Finding)) :
    List ((DeprecatedCall × Finding) × Option ℕ) :=
  calls.map fun r => (r, foldIndex X inv.apiUsage usage r.1 r.2)

/-- The rows that fold into the usage finding of an index. -/
def foldedInto (placed : List ((DeprecatedCall × Finding) × Option ℕ)) (j : ℕ) :
    List (DeprecatedCall × Finding) :=
  (placed.filter fun r => r.2 = some j).map (·.1)

/-- `foldDeprecatedCalls`: the usage findings with the rows that fold into them, and the rows that
stand alone. -/
def foldDeprecatedCalls (inv : Inventory) (usage : List Finding)
    (calls : List (DeprecatedCall × Finding)) : List Finding :=
  let placed := placedCalls X inv usage calls
  (usage.mapIdx fun j f => withCallers f (foldedInto placed j)) ++
    (placed.filter fun r => r.2 = none).map (·.1.2)

/-- What the fold charges: the API each folded row repeats, and each sentence it adds. -/
def foldCharges (inv : Inventory) (usage : List Finding)
    (calls : List (DeprecatedCall × Finding)) : List ℕ :=
  let placed := placedCalls X inv usage calls
  (placed.filter fun r => r.2 ≠ none).map (fun r =>
    byteLen r.1.1.group + byteLen r.1.1.version + byteLen r.1.1.resource + byteLen r.1.1.subresource) ++
    (distinctOn id (placed.filterMap (·.2))).map fun j =>
      byteLen (foldSentence ((foldedInto placed j).map (·.1)))

/-- `RemovalOfCall`: the release in which the knowledge base removes the API that the key of a caller's finding
names. -/
def removalOfCall (k : KB) (key : String) : Option Version :=
  match splitN '/' 4 (cut key '/').2.1.toList with
  | group :: version :: resource :: _ =>
    if (cut key '/').1 ≠ Category.deprecatedAPIInUse.name then none
    else
      let group := if String.ofList group = "core" then "" else String.ofList group
      (k.apiLifecycle.find? fun e => e.group = group ∧ e.version = String.ofList version ∧ e.removed.isSome ∧
        kindMatchesResource X e.kind (String.ofList resource)).bind (·.removed)
  | _ => none

end Calls

end UpgradeScope
