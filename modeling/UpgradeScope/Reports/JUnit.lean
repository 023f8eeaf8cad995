import UpgradeScope.Reports.Texts

/-!
# JUnit reports

`internal/junit/junit.go` writes a report as a test report: one suite for each category, one test case for each finding,
accepted finding and gap. The suites are built one case at a time and sorted in between, and the counts are taken suite by
suite. `casesOf_suitesOf` says which cases there are, whatever suite they are in, and `junit_fails_iff` when the report fails.
-/

namespace UpgradeScope.Reports

open Go Suppress

/-! ## The document -/

/-- `outcome`: the element of a test case that did not pass. -/
structure Outcome where
  /-- Its message. -/
  message : String
  /-- Its type. -/
  type : String := ""
  /-- Its text. -/
  text : String := ""
  deriving DecidableEq

/-- `testcase`. -/
structure TestCase where
  /-- Its name. -/
  name : String
  /-- Its class. -/
  classname : String := ""
  /-- How long it took. -/
  time : String := ""
  /-- Its failure. -/
  failure : Option Outcome := none
  /-- Its error. -/
  error : Option Outcome := none
  /-- Why it was skipped. -/
  skipped : Option Outcome := none
  /-- What it printed. -/
  systemOut : String := ""
  deriving DecidableEq

/-- `testsuite`, its counts apart. -/
structure TestSuite where
  /-- Its name. -/
  name : String
  /-- Its test cases. -/
  cases : List TestCase := []
  deriving DecidableEq

/-- `Options`: the gate that the outcomes follow. -/
structure Options where
  /-- `FailOn`. -/
  failOn : FailOn := .blocker
  /-- `AllowIncomplete`. -/
  allowIncomplete : Bool := false
  deriving DecidableEq

/-- The tool's name. -/
def toolName : String := "upgradescope"

/-- `zero`: every time. -/
def zero : String := "0"

/-- `notAssessed`: the suite of the gaps. -/
def notAssessedSuite : String := "not-assessed"

/-- A test case of a suite. -/
def TestCase.inSuite (c : TestCase) (suite : String) : TestCase :=
  { c with classname := toolName ++ "." ++ suite, time := zero }

/-- `add`: the case at the end of its suite, which comes last when it is new. -/
def addCase (ss : List TestSuite) (suite : String) (c : TestCase) : List TestSuite :=
  if ss.any (·.name = suite) then
    ss.map fun s => if s.name = suite then { s with cases := s.cases ++ [c.inSuite suite] } else s
  else ss ++ [{ name := suite, cases := [c.inSuite suite] }]

/-! ## The texts -/

/-- `objectText`. -/
def objectText (o : ObjectRef) : String :=
  let place :=
    if o.file ≠ "" ∧ o.line > 0 then s!" ({o.file}:{o.line})"
    else if o.file ≠ "" then s!" ({o.file})"
    else if o.line > 0 then s!" (line {o.line})"
    else ""
  objectName o ++ place ++ if o.renderedFrom ≠ "" then ", rendered from " ++ o.renderedFrom else ""

/-- The lines under a heading. -/
def bullets (heading : String) (items : List String) : String :=
  if items = [] then "" else "\n" ++ heading ++ join (items.map fun i => "\n- " ++ i) ""

/-- `findingText`. -/
def findingText (f : Finding) : String :=
  let more :=
    if f.objectsOmitted > 0 ∧ maxObjectRefs ≤ f.objects.length then
      s!"\n- and {f.objectsOmitted} more (at most {maxObjectRefs} objects are recorded per finding)"
    else if f.objectsOmitted > 0 then s!"\n- and {f.objectsOmitted} more"
    else ""
  sentence f.title ++ (if f.detail ≠ "" then "\n" ++ sentence f.detail else "") ++
    (if f.objects = [] then "" else bullets "Objects:" (f.objects.map objectText) ++ more) ++
    (if f.teams = [] then "" else "\nTeams: " ++ join f.teams ", ") ++
    (if f.remediation ≠ "" then "\nFix: " ++ sentence f.remediation else "") ++ bullets "References:" f.citations

/-- `gapText`. -/
def gapText (g : CapabilityGap) : String :=
  label g ++ ": " ++ g.reason ++ if g.skipped = [] then "" else " (skipped: " ++ join g.skipped ", " ++ ")"

/-! ## The test cases -/

/-- The test case of a finding. -/
def findingCase (failOn : FailOn) (f : MarkedFinding) : TestCase :=
  let text := findingText f.finding
  if f.state = some .unchanged then
    { name := check f.finding
      skipped := some { message := "unchanged since the baseline: " ++ f.finding.title }
      systemOut := f.finding.severity.name ++ ": " ++ text }
  else if reaches f.finding.severity failOn then
    { name := check f.finding
      failure := some { message := f.finding.title, type := f.finding.severity.name, text := text } }
  else { name := check f.finding, systemOut := f.finding.severity.name ++ ": " ++ text }

/-- The test case of an accepted finding. -/
def suppressedCase (s : SuppressedFinding) : TestCase :=
  let why := s.reason ++ (if s.expires ≠ "" then "; until " ++ s.expires else "") ++
    if s.source ≠ "" then "; by " ++ s.source else ""
  { name := check s.finding ++ " (suppressed)"
    skipped := some { message := "suppressed (" ++ why ++ "): " ++ s.finding.title }
    systemOut := s.finding.severity.name ++ ": " ++ findingText s.finding }

/-- The gate fails on a gap: the target's always, any other required one unless it is allowed. -/
def gapFails (opts : Options) (g : CapabilityGap) : Bool :=
  g.required && opts.failOn ≠ .never && (g.capability = gapTarget || !opts.allowIncomplete)

/-- The test case of a gap. -/
def gapCase (opts : Options) (g : CapabilityGap) : TestCase :=
  let message := "not assessed: " ++ gapText g
  if gapFails opts g then
    { name := g.capability
      error := some
        { message := message
          type := notAssessedSuite
          text :=
            if g.capability = gapTarget then "The verdict is unknown: the target is not an upgrade of this cluster."
            else "The verdict is unknown: a required check did not run, so a blocker may have been missed." } }
  else { name := g.capability, skipped := some { message := message } }

/-- The one test case of a report with nothing to say. -/
def readyCase (r : Report) : TestCase where
  name := "no findings"
  systemOut := "verdict " ++ Export.verdictName r.verdict ++ s!", score {r.score}/100, target {r.target}, knowledge base {r.kbVersion}: no findings, nothing suppressed, every check assessed."

/-! ## The suites -/

/-- `categoryOrder`. -/
def categoryOrder : List String :=
  [Category.removedAPI, .deprecatedAPI, .deprecatedAPIInUse, .unknownAPI, .eolAddon, .eolApproaching, .chartIncompat,
    .addOnNoData, .versionSkew, .kbStale].map Category.name

/-- Where a suite stands in `categoryOrder`; what it does not list comes after it. -/
def suiteRank (name : String) : ℕ := categoryOrder.idxOf name

/-- `sortSuites`. -/
def sortSuites (ss : List TestSuite) : List TestSuite :=
  Sorting.sortOn (fun s => (toLex (suiteRank s.name, s.name) : ℕ ×ₗ String)) ss

/-- The suites of a report's findings, accepted findings and gaps, in the order of the document. -/
def listedSuites (r : MarkedReport) (opts : Options) : List TestSuite :=
  let found := r.findings.foldl (fun ss f => addCase ss f.finding.category.name (findingCase opts.failOn f)) []
  let withSuppressed :=
    r.report.suppressed.foldl (fun ss s => addCase ss s.finding.category.name (suppressedCase s)) found
  r.report.notAssessed.foldl (fun ss g => addCase ss notAssessedSuite (gapCase opts g)) (sortSuites withSuppressed)

/-- The suites of a document, which has at least one. -/
def suitesOf (r : MarkedReport) (opts : Options) : List TestSuite :=
  if listedSuites r opts = [] then addCase [] "readiness" (readyCase r.report) else listedSuites r opts

/-- The counts of a suite or of a document. -/
structure Counts where
  /-- `Tests`. -/
  tests : ℕ := 0
  /-- `Failures`. -/
  failures : ℕ := 0
  /-- `Errors`. -/
  errors : ℕ := 0
  /-- `Skipped`, which only suites have. -/
  skipped : ℕ := 0
  deriving DecidableEq

/-- One turn of the loop over a suite's cases. -/
def Counts.case (n : Counts) (c : TestCase) : Counts :=
  let n := { n with tests := n.tests + 1 }
  if c.failure.isSome then { n with failures := n.failures + 1 }
  else if c.error.isSome then { n with errors := n.errors + 1 }
  else if c.skipped.isSome then { n with skipped := n.skipped + 1 }
  else n

/-- The counts of a suite. -/
def TestSuite.counts (s : TestSuite) : Counts := s.cases.foldl Counts.case {}

/-- `testsuites`: the suites with their counts, and the document's. -/
structure TestSuites where
  /-- Each suite with its counts. -/
  suites : List (TestSuite × Counts)
  /-- The tests of all suites. -/
  tests : ℕ
  /-- The failures of all suites. -/
  failures : ℕ
  /-- The errors of all suites. -/
  errors : ℕ
  deriving DecidableEq

/-- `Write`, up to the XML of the document. -/
def junit (r : MarkedReport) (opts : Options) : TestSuites :=
  (suitesOf r opts).foldl
    (fun doc s =>
      { suites := doc.suites ++ [(s, s.counts)]
        tests := doc.tests + s.counts.tests
        failures := doc.failures + s.counts.failures
        errors := doc.errors + s.counts.errors })
    { suites := [], tests := 0, failures := 0, errors := 0 }

/-- A test report fails: it holds a failure or an error. -/
def TestSuites.fails (doc : TestSuites) : Prop := 0 < doc.failures + doc.errors

/-! ## The cases of the suites -/

/-- The cases of all suites. -/
def casesOf (ss : List TestSuite) : List TestCase := ss.flatMap (·.cases)

variable (r : MarkedReport) {ss : List TestSuite} {suite : String}

/-- Adding a case to a suite that is there leaves the names. -/
theorem names_addCase_of_mem (h : suite ∈ ss.map (·.name)) (c : TestCase) :
    (addCase ss suite c).map (·.name) = ss.map (·.name) := by
  have hany : (ss.any (·.name = suite)) = true := by simpa using h
  rw [addCase, if_pos hany, List.map_map]
  refine List.map_congr_left fun s _ => ?_
  dsimp only [Function.comp_apply]
  split_ifs <;> rfl

/-- Adding a case to a suite that is not there adds the suite. -/
theorem addCase_of_notMem (h : suite ∉ ss.map (·.name)) (c : TestCase) :
    addCase ss suite c = ss ++ [{ name := suite, cases := [c.inSuite suite] }] := by
  have hany : ¬ (ss.any (·.name = suite)) = true := by simpa using h
  rw [addCase, if_neg hany]

/-- Adding a case keeps the suites' names different. -/
theorem nodup_addCase (h : (ss.map (·.name)).Nodup) (suite : String) (c : TestCase) :
    ((addCase ss suite c).map (·.name)).Nodup := by
  by_cases hmem : suite ∈ ss.map (·.name)
  · rwa [names_addCase_of_mem hmem c]
  · rw [addCase_of_notMem hmem c, List.map_append]
    exact h.append (List.nodup_singleton _) (List.disjoint_singleton.mpr hmem)

/-- Adding a case adds one case. -/
theorem casesOf_addCase (h : (ss.map (·.name)).Nodup) (suite : String) (c : TestCase) :
    (casesOf (addCase ss suite c)).Perm (casesOf ss ++ [c.inSuite suite]) := by
  by_cases hmem : suite ∈ ss.map (·.name)
  · -- The suite is split off the list; no other one has its name, so no other one changes.
    obtain ⟨s, hs, rfl⟩ := List.mem_map.mp hmem
    obtain ⟨before, after, rfl⟩ := List.append_of_mem hs
    have hany : ((before ++ s :: after).any (·.name = s.name)) = true := by simp
    have hother : ∀ l : List TestSuite, s.name ∉ l.map (·.name) →
        l.map (fun t => if t.name = s.name then { t with cases := t.cases ++ [c.inSuite s.name] } else t) = l := by
      intro l hl
      refine (List.map_congr_left fun t ht => if_neg fun heq => hl ?_).trans (List.map_id' l)
      rw [← heq]
      exact List.mem_map_of_mem ht
    rw [List.map_append, List.map_cons, List.nodup_append] at h
    obtain ⟨-, hafter, hbefore⟩ := h
    have hb : s.name ∉ before.map (·.name) := fun hb => hbefore s.name hb s.name List.mem_cons_self rfl
    have ha : s.name ∉ after.map (·.name) := (List.nodup_cons.mp hafter).1
    rw [addCase, if_pos hany, List.map_append, List.map_cons, hother before hb, hother after ha, if_pos rfl]
    simp only [casesOf, List.flatMap_append, List.flatMap_cons, List.append_assoc]
    refine List.Perm.append_left _ (List.Perm.append_left _ ?_)
    exact List.perm_append_comm
  · rw [addCase_of_notMem hmem c]
    simp [casesOf]

/-- Adding a case for each item of a list adds their cases, and keeps the suites' names different. -/
theorem casesOf_foldl {α : Type} (suite : α → String) (case : α → TestCase) (l : List α) (h : (ss.map (·.name)).Nodup) :
    ((l.foldl (fun ss x => addCase ss (suite x) (case x)) ss).map (·.name)).Nodup ∧
      (casesOf (l.foldl (fun ss x => addCase ss (suite x) (case x)) ss)).Perm
        (casesOf ss ++ l.map fun x => (case x).inSuite (suite x)) := by
  induction l generalizing ss with
  | nil => simpa using h
  | cons x l ih =>
    obtain ⟨hnodup, hperm⟩ := ih (nodup_addCase h (suite x) (case x))
    refine ⟨hnodup, hperm.trans ?_⟩
    have hone := (casesOf_addCase h (suite x) (case x)).append_right (l.map fun x => (case x).inSuite (suite x))
    simpa using hone

/-- Sorting the suites moves their cases. -/
theorem casesOf_sortSuites (ss : List TestSuite) : (casesOf (sortSuites ss)).Perm (casesOf ss) :=
  (Sorting.sortOn_perm _ ss).flatMap_right _

/-- The cases of what is to be said about a report. -/
def saidOf (r : MarkedReport) (opts : Options) : List TestCase :=
  (r.findings.map fun f => (findingCase opts.failOn f).inSuite f.finding.category.name) ++
    (r.report.suppressed.map fun s => (suppressedCase s).inSuite s.finding.category.name) ++
    r.report.notAssessed.map fun g => (gapCase opts g).inSuite notAssessedSuite

/-- The suites hold a case for each finding, accepted finding and gap. -/
theorem casesOf_listedSuites (opts : Options) : (casesOf (listedSuites r opts)).Perm (saidOf r opts) := by
  have hnil : ((([] : List TestSuite)).map (·.name)).Nodup := List.nodup_nil
  obtain ⟨hnodup, hfound⟩ := casesOf_foldl (fun f : MarkedFinding => f.finding.category.name) (findingCase opts.failOn)
    r.findings hnil
  obtain ⟨hnodup', hsuppressed⟩ := casesOf_foldl (fun s : SuppressedFinding => s.finding.category.name) suppressedCase
    r.report.suppressed hnodup
  have hsorted := ((Sorting.sortOn_perm (fun s : TestSuite => (toLex (suiteRank s.name, s.name) : ℕ ×ₗ String)) _).map
    (·.name)).nodup_iff.mpr hnodup'
  obtain ⟨-, hall⟩ := casesOf_foldl (fun _ : CapabilityGap => notAssessedSuite) (gapCase opts) r.report.notAssessed hsorted
  exact hall.trans (((casesOf_sortSuites _).trans (hsuppressed.trans (hfound.append_right _))).append_right _)

/-- There are no suites only when there is nothing to say. -/
theorem listedSuites_eq_nil_iff (opts : Options) : listedSuites r opts = [] ↔ saidOf r opts = [] := by
  constructor
  · intro h
    have hperm := casesOf_listedSuites r opts
    rw [h] at hperm
    exact hperm.nil_eq.symm
  · intro h
    simp only [saidOf, List.append_eq_nil_iff, List.map_eq_nil_iff] at h
    obtain ⟨⟨hfindings, hsuppressed⟩, hgaps⟩ := h
    unfold listedSuites
    rw [hfindings, hsuppressed, hgaps]
    rfl

/-- The cases of a document are what is said of the report, or one that says it is ready. -/
theorem casesOf_suitesOf (opts : Options) :
    (casesOf (suitesOf r opts)).Perm
      (if saidOf r opts = [] then [(readyCase r.report).inSuite "readiness"] else saidOf r opts) := by
  unfold suitesOf
  by_cases h : saidOf r opts = []
  · rw [if_pos h, if_pos ((listedSuites_eq_nil_iff r opts).mpr h)]
    exact List.Perm.refl _
  · rw [if_neg h, if_neg fun hs => h ((listedSuites_eq_nil_iff r opts).mp hs)]
    exact casesOf_listedSuites r opts

/-! ## The counts -/

/-- A test case fails or errs. -/
def TestCase.red (c : TestCase) : Bool := c.failure.isSome || c.error.isSome

/-- What the loop over a suite's cases counts. -/
theorem counts_foldl (cs : List TestCase) (n : Counts) :
    (cs.foldl Counts.case n).tests = n.tests + cs.length ∧
      (cs.foldl Counts.case n).failures + (cs.foldl Counts.case n).errors = n.failures + n.errors + cs.countP TestCase.red := by
  induction cs generalizing n with
  | nil => simp
  | cons c cs ih =>
    obtain ⟨htests, hred⟩ := ih (n.case c)
    rw [List.foldl_cons, htests, hred, List.length_cons, List.countP_cons]
    have hstep : (n.case c).tests = n.tests + 1 ∧
        (n.case c).failures + (n.case c).errors = n.failures + n.errors + if c.red = true then 1 else 0 := by
      unfold Counts.case TestCase.red
      cases c.failure <;> cases c.error <;> cases c.skipped <;> simp <;> omega
    omega

/-- The counts of a suite are those of its cases. -/
theorem TestSuite.counts_eq (s : TestSuite) :
    s.counts.tests = s.cases.length ∧ s.counts.failures + s.counts.errors = s.cases.countP TestCase.red := by
  obtain ⟨htests, hred⟩ := counts_foldl s.cases {}
  unfold TestSuite.counts
  dsimp only at htests hred
  omega

/-- What the loop over the suites counts. -/
theorem junit_counts (opts : Options) :
    (junit r opts).tests = (casesOf (suitesOf r opts)).length ∧
      (junit r opts).failures + (junit r opts).errors = (casesOf (suitesOf r opts)).countP TestCase.red := by
  unfold junit
  induction suitesOf r opts using List.reverseRecOn with
  | nil => exact ⟨rfl, rfl⟩
  | append_singleton ss s ih =>
    obtain ⟨htests, hred⟩ := ih
    obtain ⟨hstests, hsred⟩ := s.counts_eq
    rw [List.foldl_append, List.foldl_cons, List.foldl_nil]
    simp only [casesOf, List.flatMap_append, List.flatMap_singleton, List.length_append, List.countP_append] at htests hred ⊢
    omega

/-- A document holds one test for each finding, accepted finding and gap, and at least one. -/
theorem junit_tests (opts : Options) :
    (junit r opts).tests =
      max 1 (r.report.findings.length + r.report.suppressed.length + r.report.notAssessed.length) := by
  have hfindings : r.findings.length = r.report.findings.length := by rw [← r.same, List.length_map]
  rw [(junit_counts r opts).1, (casesOf_suitesOf r opts).length_eq]
  have hlength : (saidOf r opts).length =
      r.report.findings.length + r.report.suppressed.length + r.report.notAssessed.length := by
    simp only [saidOf, List.length_append, List.length_map, hfindings]
  split_ifs with h
  · rw [h, List.length_nil] at hlength
    rw [← hlength]
    rfl
  · have hpos := List.length_pos_iff.mpr h
    omega

/-- The case of a finding is red when it reaches the threshold and is not unchanged. -/
theorem red_findingCase (failOn : FailOn) (f : MarkedFinding) (suite : String) :
    ((findingCase failOn f).inSuite suite).red = true ↔
      f.state ≠ some .unchanged ∧ reaches f.finding.severity failOn = true := by
  unfold findingCase TestCase.inSuite TestCase.red
  by_cases hstate : f.state = some .unchanged
  · simp [hstate]
  · by_cases hreach : reaches f.finding.severity failOn = true <;> simp [hstate, hreach]

/-- The case of a gap is red when the gate fails on it. -/
theorem red_gapCase (opts : Options) (g : CapabilityGap) (suite : String) :
    ((gapCase opts g).inSuite suite).red = true ↔ gapFails opts g = true := by
  unfold gapCase TestCase.inSuite TestCase.red
  by_cases h : gapFails opts g = true <;> simp [h]

/-- A test report fails on a finding that reaches the threshold and is new, or on a gap. -/
theorem junit_fails_iff (opts : Options) :
    (junit r opts).fails ↔
      (∃ f ∈ r.findings, f.state ≠ some .unchanged ∧ reaches f.finding.severity opts.failOn = true) ∨
        ∃ g ∈ r.report.notAssessed, gapFails opts g = true := by
  unfold TestSuites.fails
  rw [(junit_counts r opts).2, (casesOf_suitesOf r opts).countP_eq, List.countP_pos_iff]
  have hsaid : (∃ c ∈ saidOf r opts, c.red = true) ↔
      (∃ f ∈ r.findings, f.state ≠ some .unchanged ∧ reaches f.finding.severity opts.failOn = true) ∨
        ∃ g ∈ r.report.notAssessed, gapFails opts g = true := by
    have hsuppressed : ∀ s : SuppressedFinding, ((suppressedCase s).inSuite s.finding.category.name).red = false :=
      fun s => rfl
    simp only [saidOf, List.mem_append, List.mem_map, or_and_right, exists_or, exists_exists_and_eq_and, red_findingCase,
      red_gapCase, hsuppressed, Bool.false_eq_true, and_false, exists_false, or_false]
  split_ifs with h
  · rw [h] at hsaid
    rw [← hsaid]
    simp [readyCase, TestCase.inSuite, TestCase.red]
  · exact hsaid

end UpgradeScope.Reports
