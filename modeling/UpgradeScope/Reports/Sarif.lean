import UpgradeScope.Reports.CodeQuality

/-!
# SARIF reports

`internal/sarif/sarif.go` writes a report for code scanning. GitHub rejects a file in which one result lacks a location, so only
objects with a file and a line are results; the rest of the report must still be in the document, as notifications, since what
is dropped silently reads as a clean pass. `sarif_is_whole` says what the loop over the findings, with its growing table of
rules, leaves: every result stands on a line of a file and points to the rule of its finding, and every finding is either its
results or a notification at its level.
-/

namespace UpgradeScope.Reports

open Go Suppress

/-! ## The document -/

/-- `sarifRule`. -/
structure SarifRule where
  /-- `ID`. -/
  id : String
  /-- `ShortDescription`. -/
  shortDescription : String
  /-- `FullDescription`. -/
  fullDescription : String
  /-- `Help.Text`. -/
  helpText : String
  /-- `Help.Markdown`. -/
  helpMarkdown : String
  /-- `HelpURI`. -/
  helpURI : String
  /-- `DefaultConfiguration.Level`. -/
  level : String
  /-- `Properties.Tags`. -/
  tags : List String
  deriving DecidableEq

/-- `sarifResult`, with its one location. -/
structure SarifResult where
  /-- `RuleID`. -/
  ruleID : String
  /-- `RuleIndex`. -/
  ruleIndex : ℕ
  /-- `Level`. -/
  level : String
  /-- `Message.Text`. -/
  message : String
  /-- `ArtifactLocation.URI`. -/
  uri : String
  /-- `Region.StartLine`. -/
  startLine : ℤ
  /-- The entry of `PartialFingerprints`. -/
  fingerprint : String
  /-- `BaselineState`. -/
  baselineState : Option BaselineState
  deriving DecidableEq

/-- `sarifNotification`. -/
structure SarifNotification where
  /-- `Level`. -/
  level : String
  /-- `Message.Text`. -/
  message : String
  /-- `Properties`. -/
  properties : List (String × String) := []
  deriving DecidableEq

/-- `sarifRun`, with `sarifRunProperties`. -/
structure SarifRun where
  /-- `Driver.Version`. -/
  version : String
  /-- `Driver.Rules`. -/
  rules : List SarifRule
  /-- `Results`. -/
  results : List SarifResult
  /-- `ToolExecutionNotifications`. -/
  notifications : List SarifNotification
  /-- `Ready`. -/
  ready : Bool
  /-- `Verdict`. -/
  verdict : Verdict
  /-- `Score`. -/
  score : ℤ
  /-- `Findings`. -/
  findings : ℕ
  /-- `OmittedFindings`. -/
  omittedFindings : ℕ
  /-- `Suppressed`. -/
  suppressed : ℕ
  /-- `NotAssessed`. -/
  notAssessed : List CapabilityGap
  deriving DecidableEq

/-! ## The texts -/

/-- `level`. -/
def level : Severity → String
  | .blocker => "error"
  | .warning => "warning"
  | .info => "note"

/-- `categoryText`: a short title and a full description; a category it does not list has its name and the finding's title. -/
def categoryText (f : Finding) : String × String :=
  match f.category with
  | .removedAPI => ("Removed Kubernetes API",
      "The object uses an API version that the target Kubernetes version (or the minor after it) no longer serves; applying it after the upgrade fails.")
  | .deprecatedAPI => ("Deprecated Kubernetes API",
      "The object uses a deprecated API version that a later Kubernetes release removes.")
  | .deprecatedAPIInUse => ("Deprecated Kubernetes API in use",
      "Clients still request a deprecated API version from the apiserver.")
  | .eolAddon => ("End-of-life add-on", "The add-on version has reached end of life upstream.")
  | .eolApproaching => ("Add-on approaching end of life", "The add-on version reaches end of life upstream within 90 days.")
  | .versionSkew => ("Kubernetes version skew", "Component versions violate the Kubernetes version-skew policy.")
  | .chartIncompat => ("Incompatible add-on version", "The add-on version does not support the target Kubernetes version.")
  | .kbStale => ("Knowledge base out of date", "The knowledge base does not cover the Kubernetes version being assessed.")
  | .unknownAPI => ("Unknown Kubernetes API",
      "The object uses a built-in API group at a version or kind the knowledge base has no lifecycle data for; the target Kubernetes version may not serve it.")
  | .addOnNoData => ("Add-on without knowledge-base data",
      "The add-on is running but the knowledge base has no support or compatibility data for it, so it was not assessed.")
  | .supportLifecycle => ("Managed Kubernetes support lifecycle",
      "The cluster's Kubernetes minor is leaving, or has left, its managed provider's standard support.")
  | .crdVersion => ("CustomResourceDefinition version",
      "The custom resource uses a version its CRD does not serve (the apiserver rejects it) or deprecates (an add-on upgrade may stop serving it).")
  | .volumePlugin => ("In-tree volume plugin",
      "The workload or PersistentVolume names an in-tree volume plugin the target Kubernetes version removed (pods naming it do not start), serves only through a CSI driver that must be installed, or deprecates.")
  | .unknown name _ => (name, f.title)

/-- `docsURI`. -/
def docsURI : String := "https://github.com/abd-ulbasit/upgradescope#readme"

/-- `rule`. -/
def sarifRule (id : String) (f : Finding) : SarifRule :=
  let text := categoryText f
  let subject := cutPrefix? id (f.category.name ++ "/")
  let fix := if f.remediation = "" then "see the references" else f.remediation
  { id := id
    shortDescription := text.1 ++ (subject.map fun s => ": " ++ s).getD ""
    fullDescription := text.2
    helpText := f.title ++ ".\n\nFix: " ++ fix ++ "." ++
      if f.citations = [] then "" else "\n\nReferences:" ++ join (f.citations.map fun c => "\n- " ++ c) ""
    helpMarkdown := f.title ++ ".\n\n**Fix:** " ++ fix ++ "." ++
      if f.citations = [] then "" else "\n\n**References:**\n" ++ join (f.citations.map fun c => "\n- <" ++ c ++ ">") ""
    helpURI := f.citations.head?.getD docsURI
    level := level f.severity
    tags := ["kubernetes", "upgrade", f.category.name] }

/-- `message`. -/
def resultMessage (f : Finding) (o : ObjectRef) : String :=
  f.title ++ ": " ++ objectName o ++ (if o.renderedFrom ≠ "" then " (rendered from " ++ o.renderedFrom ++ ")" else "") ++ "." ++
    if f.remediation ≠ "" then " Fix: " ++ f.remediation ++ "." else ""

/-- The place of an object in a notification's list. -/
def atPlace (o : ObjectRef) : String :=
  if o.file ≠ "" ∧ o.line > 0 then s!" ({o.file}:{o.line})" else if o.line > 0 then s!" (line {o.line})" else ""

/-- `unanchoredMessage`. -/
def unanchoredMessage (f : Finding) : String :=
  "Not reported as a result (no file location): " ++ sentence f.title ++
    (if f.detail ≠ "" then " " ++ sentence f.detail else "") ++
    (if f.objects = [] then "" else " Objects: " ++ objectList atPlace f.objects f.objectsOmitted ++ ".") ++
    if f.remediation ≠ "" then " Fix: " ++ sentence f.remediation else ""

/-- `notUploadedMessage`. -/
def notUploadedMessage (n : ℕ) : String :=
  if n = 1 then "1 finding accepted by ignore rules or annotations is not uploaded; see the JSON report."
  else s!"{n} findings accepted by ignore rules or annotations are not uploaded; see the JSON report."

/-- `suppressedMessage`. -/
def suppressedMessage (s : SuppressedFinding) : String :=
  let why := s.reason ++ if s.expires ≠ "" then "; until " ++ s.expires else ""
  "Suppressed (" ++ why ++ "): " ++ sentence s.finding.title ++
    if s.finding.objects = [] then ""
    else " Objects: " ++ objectList atPlace s.finding.objects s.finding.objectsOmitted ++ "."

/-- `unlistedMessage`. -/
def unlistedMessage (f : Finding) (n : ℤ) : String :=
  let loose := f.objects.filter fun o => o.file = "" ∨ o.line < 1
  f.title ++ s!": {n} more affected object(s) are not listed as results" ++
    (if loose ≠ [] then ": " ++ objectList atPlace loose f.objectsOmitted
    else if maxObjectRefs ≤ f.objects.length then s!" (at most {maxObjectRefs} objects are recorded per finding)"
    else "") ++ "."

/-- `notification`. -/
def notification (f : Finding) (lvl message : String) : SarifNotification where
  level := lvl
  message := message
  properties := [("findingKey", check f), ("category", f.category.name), ("severity", f.severity.name)]

/-- What `url.URL` leaves of a path as it is: letters, digits and `-_.~$&+,/:;=@`. -/
def keptInPath (c : UInt8) : Bool :=
  (0x61 ≤ c && c ≤ 0x7a) || (0x41 ≤ c && c ≤ 0x5a) || (0x30 ≤ c && c ≤ 0x39) ||
    c ∈ "-_.~$&+,/:;=@".toUTF8.toList

/-- A digit of `0123456789ABCDEF`. -/
def upperHex (n : UInt8) : UInt8 := if n < 10 then 0x30 + n else 0x41 + (n - 10)

/-- A byte of an escaped path: any other one is a percent sign and its two digits. -/
def escapePathByte (c : UInt8) : List UInt8 :=
  if keptInPath c then [c] else [0x25, upperHex (c >>> 4), upperHex (c &&& 15)]

/-- `fileURI`: a relative path stays relative, with a dot segment before a first segment that reads as a scheme; an absolute
one is a `file` URI. -/
def fileURI (p : String) : String :=
  let escaped := String.ofList ((p.toUTF8.toList.flatMap escapePathByte).map fun c => Char.ofNat c.toNat)
  if p = "*" then "*"
  else if hasPrefix p "/" then "file://" ++ escaped
  else if contains (cut escaped '/').1 ":" then "./" ++ escaped
  else escaped

/-! ## The loop -/

/-- `anchored`: the objects that have a file location. -/
def anchored (f : Finding) : List ObjectRef := f.objects.filter fun o => o.file ≠ "" ∧ o.line > 0

/-- `Unanchored`. -/
def unanchored (r : Report) : ℕ := r.findings.countP fun f => (anchored f).length = 0

/-- Where the loop of `Write` over the findings is. -/
structure Rendering where
  /-- The rules so far. -/
  rules : List SarifRule := []
  /-- Where the rule of an id is. -/
  ruleIndex : String → Option ℕ := fun _ => none
  /-- The results so far. -/
  results : List SarifResult := []
  /-- The notifications so far. -/
  notes : List SarifNotification := []
  /-- The results of each fingerprint before it is numbered. -/
  occurrences : String → ℕ := fun _ => 0
  /-- The findings that are no results. -/
  omitted : ℕ := 0

/-- What identifies a result: its rule and object, not its line. -/
def resultParts (id : String) (o : ObjectRef) : List String := [id, o.file, o.namespace, o.name]

section Write

variable (sha256 : String → String)

/-- The result of one located object. -/
def Rendering.addResult (f : MarkedFinding) (idx : ℕ) (st : Rendering) (o : ObjectRef) : Rendering :=
  let base := fingerprint sha256 (resultParts (check f.finding) o) 0
  let n := st.occurrences base
  { st with
    occurrences := Function.update st.occurrences base (n + 1)
    results := st.results ++
      [{ ruleID := check f.finding
         ruleIndex := idx
         level := level f.finding.severity
         message := resultMessage f.finding o
         uri := fileURI o.file
         startLine := o.line
         fingerprint := if n > 0 then fingerprint sha256 (resultParts (check f.finding) o) n else base
         baselineState := f.state }] }

/-- `addResults`: the rule of the finding, when it is new, and a result for each located object. -/
def Rendering.addResults (f : MarkedFinding) (objs : List ObjectRef) (st : Rendering) : Rendering :=
  match st.ruleIndex (check f.finding) with
  | some idx => objs.foldl (Rendering.addResult sha256 f idx) st
  | none =>
    let idx := st.rules.length
    objs.foldl (Rendering.addResult sha256 f idx)
      { st with
        ruleIndex := Function.update st.ruleIndex (check f.finding) (some idx)
        rules := st.rules ++ [sarifRule (check f.finding) f.finding] }

/-- One turn of the loop over the findings. -/
def Rendering.finding (st : Rendering) (f : MarkedFinding) : Rendering :=
  let objs := anchored f.finding
  if objs.length = 0 then
    { st with
      omitted := st.omitted + 1
      notes := st.notes ++ [notification f.finding (level f.finding.severity) (unanchoredMessage f.finding)] }
  else
    let n := wrap64 (f.finding.objectsOmitted + f.finding.objects.length - objs.length)
    Rendering.addResults sha256 f objs
      { st with
        notes := st.notes ++ if n > 0 then [notification f.finding "note" (unlistedMessage f.finding n)] else [] }

/-- The notes about accepted findings: the located ones are counted, the others have their reason. -/
def suppressedNotes (ss : List SuppressedFinding) : List SarifNotification :=
  let notUploaded := ss.countP fun s => 0 < (anchored s.finding).length
  (ss.filterMap fun s =>
    if 0 < (anchored s.finding).length then none else some (notification s.finding "note" (suppressedMessage s))) ++
  if 0 < notUploaded then [{ level := "note", message := notUploadedMessage notUploaded }] else []

/-- The notes about gaps: a required one is an error. -/
def gapNotes (gaps : List CapabilityGap) : List SarifNotification :=
  gaps.filterMap fun g =>
    if !g.required && !g.partly then none
    else some
      { level := if g.required then "error" else "note"
        message := "Not assessed: " ++ label g ++ ": " ++ sentence g.reason ++
          if g.skipped = [] then "" else " Skipped: " ++ join g.skipped ", " ++ "."
        properties := [("capability", g.capability)] }

/-- `Write`, up to the JSON of the log. -/
def sarif (r : MarkedReport) (toolVersion : String) : SarifRun :=
  let st := r.findings.foldl (Rendering.finding sha256) {}
  { version := toolVersion
    rules := st.rules
    results := st.results
    notifications := st.notes ++ suppressedNotes r.report.suppressed ++ gapNotes r.report.notAssessed
    ready := r.report.ready
    verdict := r.report.verdict
    score := r.report.score
    findings := r.report.findings.length
    omittedFindings := st.omitted
    suppressed := r.report.suppressed.length
    notAssessed := r.report.notAssessed }

end Write

/-! ## What the loop leaves -/

section Loop

variable {sha256 : String → String}

/-- A result without its fingerprint. -/
def SarifResult.bare (res : SarifResult) : SarifResult := { res with fingerprint := "" }

/-- What the result of an object holds, its fingerprint apart. -/
def resultOf (f : MarkedFinding) (idx : ℕ) (o : ObjectRef) : SarifResult where
  ruleID := check f.finding
  ruleIndex := idx
  level := level f.finding.severity
  message := resultMessage f.finding o
  uri := fileURI o.file
  startLine := o.line
  fingerprint := ""
  baselineState := f.state

variable {st : Rendering} (f : MarkedFinding)

/-- One result more is one name more. -/
theorem addResult_names (idx : ℕ) (st : Rendering) (o : ObjectRef) (rest : List (List String)) :
    (st.addResult sha256 f idx o).results.map (·.fingerprint) ++
        fingerprintsOf sha256 (st.addResult sha256 f idx o).occurrences rest =
      st.results.map (·.fingerprint) ++
        fingerprintsOf sha256 st.occurrences (resultParts (check f.finding) o :: rest) := by
  have hname : ∀ n : ℕ, (if n > 0 then fingerprint sha256 (resultParts (check f.finding) o) n
      else fingerprint sha256 (resultParts (check f.finding) o) 0) =
        fingerprint sha256 (resultParts (check f.finding) o) n := by
    intro n
    split_ifs with h
    · rfl
    · rw [Nat.eq_zero_of_not_pos h]
  simp only [Rendering.addResult, fingerprintsOf, Numbering.numbered, List.map_append, List.map_cons, List.map_nil, hname,
    List.append_assoc, List.singleton_append]

/-- The loop over a finding's located objects adds their results, and leaves the rest. -/
theorem foldl_addResult (idx : ℕ) (objs : List ObjectRef) (st : Rendering) :
    let st' := objs.foldl (Rendering.addResult sha256 f idx) st
    st'.rules = st.rules ∧ st'.ruleIndex = st.ruleIndex ∧ st'.notes = st.notes ∧ st'.omitted = st.omitted ∧
      st'.results.map SarifResult.bare = st.results.map SarifResult.bare ++ objs.map (resultOf f idx) ∧
      ∀ rest, st'.results.map (·.fingerprint) ++ fingerprintsOf sha256 st'.occurrences rest =
        st.results.map (·.fingerprint) ++
          fingerprintsOf sha256 st.occurrences (objs.map (resultParts (check f.finding)) ++ rest) := by
  induction objs generalizing st with
  | nil => simp
  | cons o objs ih =>
    obtain ⟨hrules, hindex, hnotes, homitted, hresults, hnames⟩ := ih (st.addResult sha256 f idx o)
    refine ⟨hrules, hindex, hnotes, homitted, ?_, fun rest => ?_⟩
    · rw [List.foldl_cons, hresults]
      simp [Rendering.addResult, SarifResult.bare, resultOf]
    · rw [List.foldl_cons, hnames, addResult_names]
      rfl

/-- The parts of the results of some findings. -/
def partsOf (fs : List MarkedFinding) : List (List String) :=
  fs.flatMap fun f => (anchored f.finding).map (resultParts (check f.finding))

/-- What holds between two turns of the loop, over the findings so far. -/
structure Rendered (sha256 : String → String) (done : List MarkedFinding) (st : Rendering) : Prop where
  /-- The table gives the place of each rule. -/
  index : ∀ id i, st.ruleIndex id = some i ↔ (st.rules.map (·.id))[i]? = some id
  /-- Every result points to its rule. -/
  points : ∀ res ∈ st.results, st.ruleIndex res.ruleID = some res.ruleIndex
  /-- The results are those of the located objects, in the order of the report. -/
  results : st.results.map (fun res => { res.bare with ruleIndex := 0 }) =
    done.flatMap fun f => (anchored f.finding).map (resultOf f 0)
  /-- Each is named by its parts, numbered where they repeat. -/
  names : ∀ rest, st.results.map (·.fingerprint) ++ fingerprintsOf sha256 st.occurrences rest =
    fingerprintsOf sha256 (fun _ => 0) (partsOf done ++ rest)
  /-- The findings without a located object are counted. -/
  omitted : st.omitted = done.countP fun f => (anchored f.finding).length = 0
  /-- They are notifications. -/
  notes : ∀ f ∈ done, anchored f.finding = [] →
    notification f.finding (level f.finding.severity) (unanchoredMessage f.finding) ∈ st.notes

/-- The invariant of the rendering holds before the loop. -/
theorem rendered_start : Rendered sha256 [] {} where
  index := by simp
  points := by simp
  results := rfl
  names := by simp [partsOf]
  omitted := rfl
  notes := by simp

/-- A finding with located objects, once its rule is in the table. -/
theorem Rendered.located {done : List MarkedFinding} {st st₀ : Rendering} (h : Rendered sha256 done st) (f : MarkedFinding)
    {idx : ℕ} (hne : anchored f.finding ≠ []) (hresults : st₀.results = st.results)
    (hoccurrences : st₀.occurrences = st.occurrences) (homitted : st₀.omitted = st.omitted)
    (hnotes : ∀ note ∈ st.notes, note ∈ st₀.notes)
    (hextends : ∀ id i, st.ruleIndex id = some i → st₀.ruleIndex id = some i)
    (hindex : ∀ id i, st₀.ruleIndex id = some i ↔ (st₀.rules.map (·.id))[i]? = some id)
    (hidx : st₀.ruleIndex (check f.finding) = some idx) :
    Rendered sha256 (done ++ [f]) ((anchored f.finding).foldl (Rendering.addResult sha256 f idx) st₀) := by
  obtain ⟨hrules', hindex', hnotes', homitted', hresults', hnames'⟩ := foldl_addResult f idx (anchored f.finding) st₀
  have hcount : ¬ (anchored f.finding).length = 0 := fun hzero => hne (List.length_eq_zero_iff.mp hzero)
  refine ⟨?_, fun res hres => ?_, ?_, fun rest => ?_, ?_, fun g hg hnone => ?_⟩
  · rw [hrules', hindex']
    exact hindex
  · rw [hindex']
    have hbare : res.bare ∈ st₀.results.map SarifResult.bare ++ (anchored f.finding).map (resultOf f idx) := by
      rw [← hresults']
      exact List.mem_map_of_mem hres
    rcases List.mem_append.mp hbare with hold | hnew
    · obtain ⟨old, hmem, heq⟩ := List.mem_map.mp hold
      have hid : old.bare.ruleID = res.bare.ruleID := congrArg SarifResult.ruleID heq
      have hi : old.bare.ruleIndex = res.bare.ruleIndex := congrArg SarifResult.ruleIndex heq
      dsimp only [SarifResult.bare] at hid hi
      rw [← hid, ← hi]
      exact hextends _ _ (h.points old (hresults ▸ hmem))
    · obtain ⟨o, -, heq⟩ := List.mem_map.mp hnew
      have hid : (resultOf f idx o).ruleID = res.bare.ruleID := congrArg SarifResult.ruleID heq
      have hi : (resultOf f idx o).ruleIndex = res.bare.ruleIndex := congrArg SarifResult.ruleIndex heq
      dsimp only [SarifResult.bare, resultOf] at hid hi
      rw [← hid, ← hi]
      exact hidx
  · have hmap : ∀ l : List SarifResult, l.map (fun res => { res.bare with ruleIndex := 0 }) =
        (l.map SarifResult.bare).map fun res => { res with ruleIndex := 0 } := by
      intro l
      rw [List.map_map]
      rfl
    have hdone := h.results
    rw [hmap] at hdone
    rw [hmap, hresults', List.map_append, hresults, hdone, List.flatMap_append, List.flatMap_singleton, List.map_map]
    rfl
  · rw [hnames', hresults, hoccurrences, h.names, partsOf, partsOf, List.flatMap_append, List.flatMap_singleton,
      List.append_assoc]
  · rw [homitted', homitted, h.omitted, List.countP_append, List.countP_singleton, if_neg (by simpa using hne)]
    rfl
  · rw [hnotes']
    rcases List.mem_append.mp hg with hg | hg
    · exact hnotes _ (h.notes g hg hnone)
    · rw [List.mem_singleton.mp hg] at hnone
      exact absurd hnone hne

/-- An entry of a table with one more at its end. -/
theorem getElem?_concat_iff {ids : List String} {c id : String} {i : ℕ} :
    (ids ++ [c])[i]? = some id ↔ ids[i]? = some id ∨ i = ids.length ∧ c = id := by
  rcases Nat.lt_trichotomy i ids.length with hlt | rfl | hgt
  · rw [List.getElem?_append_left hlt]
    constructor
    · exact .inl
    · exact fun hor => hor.resolve_right fun hlast => absurd hlast.1 hlt.ne
  · rw [List.getElem?_append_right le_rfl, Nat.sub_self]
    simp
  · have hnone : ids[i]? = none := List.getElem?_eq_none hgt.le
    rw [List.getElem?_append_right hgt.le, hnone, List.getElem?_eq_none (by simp; omega)]
    simp [hgt.ne']

/-- One turn of the loop over the findings. -/
theorem Rendered.finding {done : List MarkedFinding} (h : Rendered sha256 done st) (f : MarkedFinding) :
    Rendered sha256 (done ++ [f]) (st.finding sha256 f) := by
  unfold Rendering.finding
  dsimp only
  by_cases hnone : anchored f.finding = []
  · rw [if_pos (List.length_eq_zero_iff.mpr hnone)]
    refine ⟨h.index, h.points, ?_, fun rest => ?_, ?_, fun g hg hanchored => ?_⟩
    · rw [h.results, List.flatMap_append, List.flatMap_singleton, hnone, List.map_nil, List.append_nil]
    · rw [h.names, partsOf, partsOf, List.flatMap_append, List.flatMap_singleton, hnone, List.map_nil, List.append_nil]
    · rw [h.omitted, List.countP_append, List.countP_singleton, if_pos (by simpa using hnone)]
    · rcases List.mem_append.mp hg with hg | hg
      · exact List.mem_append_left _ (h.notes g hg hanchored)
      · rw [List.mem_singleton.mp hg]
        exact List.mem_append_right _ (List.mem_singleton_self _)
  · rw [if_neg fun hzero => hnone (List.length_eq_zero_iff.mp hzero)]
    unfold Rendering.addResults
    dsimp only
    cases hseen : st.ruleIndex (check f.finding) with
    | some idx =>
      exact h.located f hnone rfl rfl rfl (fun _ => List.mem_append_left _) (fun _ _ hi => hi) h.index hseen
    | none =>
      -- The rule is new: it goes to the end of the table, where no rule was.
      refine h.located f hnone rfl rfl rfl (fun _ => List.mem_append_left _) (fun id i hi => ?_) (fun id i => ?_)
        (Function.update_self _ _ _)
      · have hne : id ≠ check f.finding := by
          rintro rfl
          rw [hseen] at hi
          cases hi
        exact (Function.update_of_ne hne _ _).trans hi
      · dsimp only
        rw [List.map_append, List.map_singleton, getElem?_concat_iff, List.length_map]
        by_cases hid : id = check f.finding
        · subst hid
          rw [Function.update_self]
          have hold : (st.rules.map (·.id))[i]? ≠ some (check f.finding) := by
            intro hi
            rw [← h.index, hseen] at hi
            cases hi
          constructor
          · intro hi
            exact .inr ⟨(Option.some.inj hi).symm, rfl⟩
          · rintro (hi | ⟨rfl, -⟩)
            · exact absurd hi hold
            · rfl
        · rw [Function.update_of_ne hid, h.index]
          exact ⟨.inl, fun hor => hor.resolve_right fun hlast => hid hlast.2.symm⟩

/-- The invariant of the rendering holds after the loop. -/
theorem rendered_foldl (fs done : List MarkedFinding) (h : Rendered sha256 done st) :
    Rendered sha256 (done ++ fs) (fs.foldl (Rendering.finding sha256) st) := by
  induction fs generalizing done st with
  | nil => simpa using h
  | cons f fs ih => simpa using ih (done ++ [f]) (h.finding f)

/-- No rule has an id that another one has. -/
theorem Rendered.nodup {done : List MarkedFinding} (h : Rendered sha256 done st) :
    (st.rules.map (·.id)).Nodup := by
  rw [List.nodup_iff_getElem?_ne_getElem?]
  intro i j hij hj heq
  have hlast : (st.rules.map (·.id))[j]? = some ((st.rules.map (·.id))[j]) := List.getElem?_eq_getElem hj
  have hi := (h.index _ i).mpr (heq.trans hlast)
  have hj' := (h.index _ j).mpr hlast
  rw [hi] at hj'
  exact absurd (Option.some.inj hj') hij.ne

end Loop

/-- A required gap is a notification at the level of an error. -/
theorem exists_gapNote {gaps : List CapabilityGap} {g : CapabilityGap} (hg : g ∈ gaps) (hrequired : g.required = true) :
    ∃ note ∈ gapNotes gaps, note.level = "error" ∧ ("capability", g.capability) ∈ note.properties := by
  refine ⟨_, List.mem_filterMap.mpr ⟨g, hg, by rw [hrequired]; rfl⟩, rfl, List.mem_singleton_self _⟩

/-- A SARIF document is the whole report. No two of its rules have an id in common, and every result points to the rule of its
finding. The results are those of the located objects, in the order of the report, each on a line of a file; a finding that
has none is counted as omitted and is a notification at its level, and a required gap is one at the level of an error. Where
SHA-256 tells the report's texts apart and no name holds the separator, no two results have a fingerprint in common. -/
theorem sarif_is_whole (sha256 : String → String) (r : MarkedReport) (toolVersion : String) :
    let run := sarif sha256 r toolVersion
    (run.rules.map (·.id)).Nodup ∧
      (∀ res ∈ run.results, (run.rules.map (·.id))[res.ruleIndex]? = some res.ruleID) ∧
      (run.results.map fun res => (res.ruleID, res.level, res.uri, res.startLine, res.baselineState)) =
        (r.findings.flatMap fun f => (anchored f.finding).map fun o =>
          (check f.finding, level f.finding.severity, fileURI o.file, o.line, f.state)) ∧
      (∀ res ∈ run.results, 0 < res.startLine ∧ ∃ f ∈ r.report.findings, ∃ o ∈ f.objects, o.file ≠ "" ∧ res.uri = fileURI o.file) ∧
      run.omittedFindings = unanchored r.report ∧
      (∀ f ∈ r.report.findings, anchored f = [] →
        notification f (level f.severity) (unanchoredMessage f) ∈ run.notifications) ∧
      (∀ g ∈ r.report.notAssessed, g.required = true →
        ∃ note ∈ run.notifications, note.level = "error" ∧ ("capability", g.capability) ∈ note.properties) ∧
      ((∀ p ∈ partsOf r.findings, ∀ s ∈ p, NulFree s) → TellsApart sha256 (partsOf r.findings) →
        (run.results.map (·.fingerprint)).Nodup) := by
  have h := rendered_foldl r.findings [] (@rendered_start sha256)
  rw [List.nil_append] at h
  have hlist : ((sarif sha256 r toolVersion).results.map fun res =>
      (res.ruleID, res.level, res.uri, res.startLine, res.baselineState)) =
        (r.findings.flatMap fun f => (anchored f.finding).map fun o =>
          (check f.finding, level f.finding.severity, fileURI o.file, o.line, f.state)) := by
    have hmap := congrArg (List.map fun res : SarifResult =>
      (res.ruleID, res.level, res.uri, res.startLine, res.baselineState)) h.results
    rw [List.map_map, List.map_flatMap] at hmap
    have hresults : (sarif sha256 r toolVersion).results = (r.findings.foldl (Rendering.finding sha256) {}).results := rfl
    rw [hresults]
    simpa [Function.comp_def, SarifResult.bare, resultOf] using hmap
  have hfinding : ∀ f ∈ r.report.findings, ∃ mf ∈ r.findings, mf.finding = f := by
    intro f hf
    rw [← r.same] at hf
    exact List.mem_map.mp hf
  refine ⟨h.nodup, fun res hres => (h.index _ _).mp (h.points res hres), hlist, fun res hres => ?_, ?_,
    fun f hf hnone => ?_, fun g hg hrequired => ?_, fun hnul hsha => ?_⟩
  · have hmem := List.mem_map_of_mem (f := fun res : SarifResult =>
      (res.ruleID, res.level, res.uri, res.startLine, res.baselineState)) hres
    rw [hlist] at hmem
    obtain ⟨f, hf, hin⟩ := List.mem_flatMap.mp hmem
    obtain ⟨o, ho, heq⟩ := List.mem_map.mp hin
    simp only [Prod.mk.injEq] at heq
    obtain ⟨-, -, huri, hline, -⟩ := heq
    obtain ⟨hobj, hplace⟩ := List.mem_filter.mp ho
    have hplace := of_decide_eq_true hplace
    refine ⟨hline ▸ hplace.2, f.finding, ?_, o, hobj, hplace.1, huri.symm⟩
    rw [← r.same]
    exact List.mem_map_of_mem hf
  · have homitted : (sarif sha256 r toolVersion).omittedFindings = _ := h.omitted
    rw [homitted, unanchored, ← r.same, List.countP_map]
    rfl
  · obtain ⟨mf, hmf, rfl⟩ := hfinding f hf
    exact List.mem_append_left _ (List.mem_append_left _ (h.notes mf hmf hnone))
  · obtain ⟨note, hnote, hlevel, hcap⟩ := exists_gapNote hg hrequired
    exact ⟨note, List.mem_append_right _ hnote, hlevel, hcap⟩
  · have hnames := h.names []
    rw [List.append_nil, fingerprintsOf, Numbering.numbered, List.map_nil, List.append_nil] at hnames
    have hall : (sarif sha256 r toolVersion).results.map (·.fingerprint) = fingerprintsOf sha256 (fun _ => 0) (partsOf r.findings) :=
      hnames
    have hfour : ∀ p ∈ partsOf r.findings, p.length = 4 := by
      intro p hp
      obtain ⟨f, -, hp⟩ := List.mem_flatMap.mp hp
      obtain ⟨o, -, rfl⟩ := List.mem_map.mp hp
      rfl
    rw [hall]
    refine nodup_fingerprintsOf hnul (fun p hp hnil => ?_) (fun p hp q hq => .inl ((hfour p hp).trans (hfour q hq).symm)) hsha
    have hlength := hfour p hp
    rw [hnil] at hlength
    cases hlength

/-- SHA-256 of the texts of `twoDocuments`, as SARIF hashes them. -/
def twoResultDigests (text : String) : String :=
  if text = hashedText (resultParts (check (removedIngresses [])) { name := "a", file := "x.yaml" }) 0 then
    "1e363cf70753386920425e422957b7d352d55bd6a6a8e1ec34ab91e95da4e2f6"
  else if text = hashedText (resultParts (check (removedIngresses [])) { name := "a", file := "x.yaml" }) 1 then
    "b39aeca05b1125c24b62c4a4e7d75c61405212e6b38b3a878ae34fa51bcf9d21"
  else ""

/-- Two results of one rule, on two lines, with two fingerprints. -/
theorem sarif_is_whole_twoDocuments :
    ((sarif twoResultDigests (unmarked twoDocuments) "v1").results.map fun res => (res.ruleIndex, res.startLine, res.fingerprint)) =
        [(0, 1, "1e363cf70753386920425e422957b7d352d55bd6a6a8e1ec34ab91e95da4e2f6"),
          (0, 9, "b39aeca05b1125c24b62c4a4e7d75c61405212e6b38b3a878ae34fa51bcf9d21")] ∧
      ((sarif twoResultDigests (unmarked twoDocuments) "v1").results.map (·.fingerprint)).Nodup := by
  have hnul : ∀ p ∈ partsOf (unmarked twoDocuments).findings, ∀ s ∈ p, NulFree s := by decide
  have hsha : TellsApart twoResultDigests (partsOf (unmarked twoDocuments).findings) := by
    unfold TellsApart
    decide +kernel
  obtain ⟨-, -, -, -, -, -, -, hnodup⟩ := sarif_is_whole twoResultDigests (unmarked twoDocuments) "v1"
  exact ⟨by decide +kernel, hnodup hnul hsha⟩

end UpgradeScope.Reports
