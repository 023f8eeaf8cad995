import UpgradeScope.Engine.Finding

/-!
# Ignore rules

`internal/suppress/suppress.go`: rules and object annotations move findings, or single objects of a
finding, from a report's findings to what it suppresses. `applyFinding` splits one finding, and `apply`
runs a queue of findings, to which the callers of a finding that object selectors took whole are added
as findings of their own.
-/

namespace UpgradeScope.Suppress

open Go Sorting

/-- `AnnotationSource`. -/
def annotationSource : String := "annotation"

/-- `Rule`: one ignore entry. -/
structure Rule where
  /-- The key of the finding it names, "" for none. -/
  key : String := ""
  /-- The category it names, "" for none. -/
  category : String := ""
  /-- A glob on an object's namespace. -/
  «namespace» : String := ""
  /-- A glob on an object's name. -/
  name : String := ""
  /-- A glob on an object's file. -/
  file : String := ""
  /-- Why. -/
  reason : String
  /-- The last day it applies. -/
  expires : String := ""
  deriving DecidableEq

/-- `Options`. -/
structure Options where
  /-- Decides which rules have expired. -/
  now : Time
  /-- Labels what rules suppress, and starts their warnings. -/
  source : String := ""
  /-- Joined before object files when matching file globs. -/
  fileBase : String := ""

/-! ## Rules -/

section Rules

variable (X : External)

/-- `Rule.Validate`: the first problem. -/
def Rule.validate (r : Rule) : Option String :=
  let keyCategory := (cut r.key '/').1
  if r.key = "" ∧ r.category = "" then some "set key or category"
  else if r.key ≠ "" ∧ r.category ≠ "" then some "set only one of key and category"
  else if r.category ≠ "" ∧ r.category ∉ knownCategories then some s!"unknown category {X.quote r.category}"
  else if r.key ≠ "" ∧ keyCategory ∉ knownCategories then
    some s!"key {X.quote r.key} does not start with a finding category"
  else if trimSpace r.reason = "" then some "reason is required"
  else if r.expires ≠ "" ∧ parseDate r.expires = none then
    some s!"expires {X.quote r.expires} is not a YYYY-MM-DD date"
  else
    [("namespace", r.namespace), ("name", r.name), ("file", r.file)].findSome? fun (field, pattern) =>
      if (split pattern '/').any fun seg => X.pathMatch seg "" = none then
        some s!"invalid {field} glob {X.quote pattern}"
      else none

/-- `Rule.expired`: now is past the last day. -/
def Rule.expired (r : Rule) (now : Time) : Bool :=
  r.expires ≠ "" && (parseDate r.expires).any fun d => d + day ≤ now

/-- `Rule.String`. -/
def Rule.text (r : Rule) : String := if r.key ≠ "" then "key " ++ r.key else "category " ++ r.category

/-- `legacySupportKey`: a support-lifecycle key without its phase. -/
def legacySupportKey (key : String) : Bool :=
  match cutPrefix? key (Category.supportLifecycle.name ++ "/") with
  | none => false
  | some rest => count rest '/' = 1 ∧ ¬ hasPrefix rest "/" ∧ ¬ hasSuffix rest "/"

/-- The rule has no object selectors. -/
def Rule.selectsAll (r : Rule) : Bool := r.namespace = "" ∧ r.name = "" ∧ r.file = ""

/-- The rule names the finding, by its key or its category. -/
def Rule.names (r : Rule) (f : Finding) : Bool :=
  ¬ (r.key ≠ "" ∧ r.key ≠ f.key ∨ r.category ≠ "" ∧ r.category ≠ f.category.name)

/-- `allMatch`: there is a name, and all match. -/
def allMatch (pattern : String) (names : List String) : Bool :=
  names.all (X.globMatch pattern) && 0 < names.length

/-- `matchSegments`: path segments against a glob's, `**` spanning any number of them. -/
def matchSegments : List String → List String → Bool
  | [], segs => segs = []
  | p :: pattern, segs =>
    if p = "**" then segs.tails.any fun rest => matchSegments pattern rest
    else match segs with
      | [] => false
      | s :: rest => X.globMatch p s && matchSegments pattern rest

/-- `matchFile`. -/
def matchFile (pattern name : String) : Bool :=
  matchSegments X (split (pathClean pattern) '/') (split (pathClean name) '/')

/-- `Rule.matches`: the object satisfies every selector. -/
def Rule.matches (r : Rule) (fileBase : String) (o : ObjectRef) : Bool :=
  (r.namespace = "" || X.globMatch r.namespace o.namespace) &&
    (r.name = "" || X.globMatch r.name o.name) &&
    (r.file = "" || o.file ≠ "" && matchFile X r.file (pathJoin fileBase o.file))

/-- A rule that selects by namespace takes a finding that lists no object: all of its namespaces are
named, listed and match. -/
def Rule.takesObjectless (r : Rule) (f : Finding) : Bool :=
  r.name = "" && r.file = "" && f.namespacesOmitted = 0 && !f.unnamespaced && allMatch X r.namespace f.namespaces

end Rules

/-! ## Annotations -/

/-- `IgnoreAnnotation`. -/
def ignoreAnnotation : String := "upgradescope.basit.engineer/ignore"
/-- `IgnoreReasonAnnotation`. -/
def ignoreReasonAnnotation : String := "upgradescope.basit.engineer/ignore-reason"
/-- `LegacyIgnoreAnnotation`. -/
def legacyIgnoreAnnotation : String := "upgradescope.dev/ignore"
/-- `LegacyIgnoreReasonAnnotation`. -/
def legacyIgnoreReasonAnnotation : String := "upgradescope.dev/ignore-reason"

/-- `LegacyIgnoreWarning`: one notice for all the objects on the old keys. -/
def legacyIgnoreWarning (objects : List String) : String :=
  let named := objects.take 5
  let more := if objects.length > 5 then s!" and {objects.length - 5} more" else ""
  let noun := if objects.length = 1 then "object" else "objects"
  s!"annotation keys {legacyIgnoreAnnotation} and {legacyIgnoreReasonAnnotation} are deprecated and read only until v0.3.0: rename them to {ignoreAnnotation} and {ignoreReasonAnnotation} on {objects.length} {noun}: " ++
    join named ", " ++ more

/-- `objectName`. -/
def objectName (o : ObjectRef) : String :=
  (if o.namespace ≠ "" then o.namespace ++ "/" else "") ++ orElse o.name "(unnamed)" ++
    if o.file ≠ "" then s!" ({o.file}:{o.line})" else ""

/-- `annotated`: the object's annotation names the finding's category or key. -/
def annotated (f : Finding) (o : ObjectRef) : Bool :=
  (split o.ignore ',').any fun tok =>
    trimSpace tok ≠ "" ∧ (trimSpace tok = f.category.name ∨ trimSpace tok = f.key)

/-- The reason an object's annotation gives. -/
def annotationReason (o : ObjectRef) : String := trimSpace o.ignoreReason

/-- The object's annotation accepts the finding, with a reason. -/
def accepts (f : Finding) (o : ObjectRef) : Bool := annotated f o && annotationReason o ≠ ""

/-- The warning about an annotation without a reason. -/
def reasonWarning (o : ObjectRef) : String :=
  let ignoreKey := if o.ignoreLegacyKey then legacyIgnoreAnnotation else ignoreAnnotation
  let reasonKey :=
    if o.ignoreReasonLegacyKey ∨ o.ignoreLegacyKey ∧ o.ignoreReason = "" then legacyIgnoreReasonAnnotation
    else ignoreReasonAnnotation
  s!"object {objectName o}: {ignoreKey} annotation without {reasonKey} is not applied"

/-! ## One finding -/

/-- `group`: what one rule, or one annotation's reason, took. -/
structure Group where
  /-- The reason. -/
  reason : String
  /-- The rule's or the annotation's source. -/
  source : String
  /-- The rule's last day. -/
  expires : String := ""
  /-- The objects it took. -/
  objects : List ObjectRef
  /-- Whether it also took what is not listed. -/
  whole : Bool := false
  /-- Whether it is a rule without object selectors, which takes the callers too. -/
  all : Bool := false

/-- Where the loop over the rules is. -/
structure Taking where
  /-- What rules took so far. -/
  groups : List Group := []
  /-- The objects left. -/
  remaining : List ObjectRef
  /-- Whether a rule took the finding whole. -/
  whole : Bool := false
  /-- The warnings so far. -/
  warnings : List String := []

section Apply

variable (X : External) (opts : Options)

/-- The warning about a rule for the key a finding of an unserved API had before. -/
def unservedWarning (f : Finding) (r : Rule) : List String :=
  if baseOfUnservedKey f.key = some r.key then
    [s!"{opts.source}: ignore rule ({r.text}) matches nothing for the API of {X.quote f.key}: the key of a finding for an API the target does not serve yet ends in /unserved now, so that a rule for it never accepts the removal that follows; write {f.key} to accept it (the bare key stays the removal's)"]
  else []

/-- What a rule that names a finding takes of the objects left, and what it leaves. -/
def ruleTakes (f : Finding) (r : Rule) (remaining : List ObjectRef) : Group × List ObjectRef :=
  let g : Group := { reason := r.reason, source := opts.source, expires := r.expires, objects := [] }
  if r.selectsAll then ({ g with objects := remaining, whole := true, all := true }, [])
  else if f.objects = [] then ({ g with whole := r.takesObjectless X f }, remaining)
  else ({ g with objects := remaining.filter (r.matches X opts.fileBase) },
    remaining.filter fun o => !r.matches X opts.fileBase o)

/-- One turn of the loop over the rules. -/
def applyRule (f : Finding) (st : Taking) (r : Rule) : Taking :=
  if st.whole then st
  else if r.names f then
    let (g, rest) := ruleTakes X opts f r st.remaining
    { st with
      remaining := rest
      whole := g.whole
      groups := if g.whole ∨ g.objects ≠ [] then st.groups ++ [g] else st.groups }
  else { st with warnings := st.warnings ++ unservedWarning X opts f r }

/-- The loop over the rules. -/
def applyRules (f : Finding) (rules : List Rule) : Taking :=
  rules.foldl (applyRule X opts f) { remaining := f.objects }

/-- The groups of the objects whose annotations accept the finding, one for each reason. -/
def annotationGroups (f : Finding) (remaining : List ObjectRef) : List Group :=
  let taken := remaining.filter (accepts f)
  (distinctOn id (taken.map annotationReason)).map fun reason =>
    { reason := reason, source := annotationSource, objects := taken.filter fun o => annotationReason o = reason }

/-- The objects whose annotations are read: those left when no rule took the finding whole. -/
def Taking.seen (st : Taking) : List ObjectRef := if st.whole then [] else st.remaining

/-- What rules and annotations took. -/
def Taking.allGroups (st : Taking) (f : Finding) : List Group := st.groups ++ annotationGroups f st.seen

/-- The objects that neither a rule nor an annotation took. -/
def Taking.left (st : Taking) (f : Finding) : List ObjectRef :=
  if st.whole then st.remaining else st.remaining.filter fun o => !accepts f o

/-- What `applyFinding` returns. -/
structure Outcome where
  /-- What stays. -/
  kept : Option Finding
  /-- What is suppressed. -/
  taken : List SuppressedFinding := []
  /-- The callers that stand on their own. -/
  callers : List Caller := []
  /-- The warnings. -/
  warnings : List String := []
  /-- The objects on the old annotation keys. -/
  legacy : List String := []

/-- The entry of a group: its objects, what is not listed when it took the finding whole, and the
callers when it is a rule without object selectors. -/
def suppressedBy (f : Finding) (g : Group) : SuppressedFinding where
  finding :=
    { f with
      objects := g.objects
      objectsOmitted := if g.whole then f.objectsOmitted else 0
      callers := if g.all then f.callers else [] }
  reason := g.reason
  source := g.source
  expires := g.expires

/-- `applyFinding`: what stays of a finding, what is suppressed, and the callers that stand alone. -/
def applyFinding (rules : List Rule) (f : Finding) : Outcome :=
  let st := applyRules X opts f rules
  let groups := st.allGroups f
  let warnings := st.warnings ++
    (st.seen.filter fun o => annotated f o && annotationReason o = "").map reasonWarning
  let legacy := (st.seen.filter fun o => annotated f o && o.legacyIgnore).map objectName
  if groups.isEmpty then { kept := some f, warnings := warnings, legacy := legacy }
  else if st.whole ∨ st.left f = [] ∧ f.objectsOmitted = 0 then
    { kept := none
      taken := groups.map (suppressedBy f)
      callers := if groups.any (·.all) then [] else f.callers
      warnings := warnings
      legacy := legacy }
  else
    let listed := (groups.map (·.objects.length)).sum
    { kept := some
        { f with
          objects := st.left f
          detail := trimSpace s!"{f.detail} {listed} object(s) suppressed (see suppressed)." }
      taken := groups.map (suppressedBy f)
      warnings := warnings
      legacy := legacy }

/-! ## A report -/

/-- The rules that apply, and the warnings about the others. -/
def activeRules (rules : List Rule) : List Rule × List String :=
  (rules.zipIdx.filterMap fun (r, _) =>
      if (r.validate X).isSome ∨ r.expired opts.now then none else some r,
    rules.zipIdx.flatMap fun (r, i) =>
      match r.validate X with
      | some err => [s!"{opts.source}: ignore[{i}]: skipped: {err}"]
      | none =>
        if r.expired opts.now then
          [s!"{opts.source}: ignore[{i}] ({r.text}) expired on {r.expires} and no longer applies"]
        else if legacySupportKey r.key then
          [s!"{opts.source}: ignore[{i}] ({r.text}) matches nothing: the key of a support-lifecycle finding names its phase now; write {r.key}/ending, {r.key}/extended or {r.key}/ended for the phase you accept (see the support lifecycle page)"]
        else [])

/-- Where the loop over the queue is. -/
structure Applied where
  /-- What stays. -/
  findings : List Finding := []
  /-- What is suppressed. -/
  suppressed : List SuppressedFinding := []
  /-- The warnings, each once. -/
  warnings : List String := []
  /-- The objects on the old annotation keys, each once. -/
  legacy : List String := []
  /-- Whether callers were added to the queue. -/
  reemitted : Bool := false

/-- One turn of the loop over the queue, but for the callers it adds. -/
def Applied.add (acc : Applied) (o : Outcome) : Applied where
  findings := acc.findings ++ o.kept.toList
  suppressed := acc.suppressed ++ o.taken
  warnings := appendNew acc.warnings o.warnings
  legacy := appendNew acc.legacy o.legacy
  reemitted := acc.reemitted || o.callers ≠ []

/-- The turns a queue can take: one for each finding, and one for each of its callers. -/
def queueTurns (queue : List Finding) : ℕ := (queue.map fun f => 1 + f.callers.length).sum

/-- The loop over the queue, at most `n` turns. -/
def applyQueue (rules : List Rule) : ℕ → List Finding → Applied → Applied
  | _, [], acc => acc
  | 0, _ :: _, acc => acc
  | n + 1, f :: queue, acc =>
    let o := applyFinding X opts rules f
    applyQueue rules n (queue ++ o.callers.map Caller.finding) (acc.add o)

/-- `Apply`: the report with what rules and annotations accept moved to its suppressed findings, and
the warnings. -/
def apply (r : Report) (rules : List Rule) : Report × List String :=
  let active := activeRules X opts rules
  let acc := applyQueue X opts active.1 (queueTurns r.findings) r.findings {}
  let warnings := active.2 ++
    (if acc.legacy.isEmpty then [] else [legacyIgnoreWarning acc.legacy]) ++ acc.warnings
  if acc.suppressed.isEmpty then (r, warnings)
  else
    ({ r with
        findings := if acc.reemitted then sortFindings acc.findings else acc.findings
        suppressed := r.suppressed ++ acc.suppressed }.rescore, warnings)

end Apply

end UpgradeScope.Suppress
