import UpgradeScope.Lib.Meter
import UpgradeScope.Engine.AddOns
import UpgradeScope.Engine.Crds
import UpgradeScope.Engine.Gaps
import UpgradeScope.Engine.Helm
import UpgradeScope.Engine.Support

/-!
# The evaluation

`Evaluate` and `EvaluateWithin` of `internal/engine`: the checks in their order, each finding charged to
the budget of the report's size, and the report made of what they found. The checks themselves are
total functions but for the loop of `evalUpgradePath`, which is given `fuel` turns, so an evaluation is
`none` when that loop has not ended within them.
-/

namespace UpgradeScope

open Go Sorting Kb Meter

/-- `ErrReportTooLarge`. -/
inductive TooLarge where
  /-- The report would be over its size limit. -/
  | tooLarge
  deriving DecidableEq

/-- `reportBaseSize`: what a report has besides its findings, gaps and images. -/
def reportBaseSize (inv : Inventory) (k : KB) : ℕ :=
  12 * fieldOverhead + byteLen inv.clusterID + byteLen inv.serverVersion + byteLen k.version

/-- `budget.add` for each finding: its namespaces are capped, and it is charged. -/
def addFindings (b : Option Budget) (fs : List Finding) : List Finding × Option Budget :=
  addEach findingSize b (fs.map capNamespaces)

/-- `evalDeprecatedCalls`: every judged row with its finding, which names no namespace to cap, before
charging. -/
def evalDeprecatedCalls (X : External) (inv : Inventory) (k : KB) (target : Version) :
    List (DeprecatedCall × Finding) :=
  (judgedCalls inv).map fun c => (c, callFinding X k target c)

section Evaluate

variable (fuel : ℕ) (X : External) (inv : Inventory) (k : KB) (target : Version) (now : Time)

/-- The checks after the API ones, in their order. -/
def checks : List (Option (List Finding)) :=
  [some (evalAuthorshipUnknown k inv),
    some (evalAddOns X k target now inv),
    some (evalUncoveredRuntimes k inv),
    some (evalHelmReleases X k target inv),
    some (evalSkew X inv k target),
    some (evalControlPlaneSkew X inv k target),
    some (evalKubeProxyKubeletSkew X inv k),
    some (evalKBStale X inv k target),
    evalUpgradePath X fuel inv target,
    some (evalSupport X inv k now).2,
    some (evalCRDVersions X inv target),
    some (evalVolumePlugins k target inv)]

/-- The loop over the checks: each is run only while the budget is not over. -/
def runChecks : Option Budget → List Finding → List (Option (List Finding)) →
    Option (Except TooLarge (List Finding × Option Budget))
  | b, found, [] => some (.ok (found, b))
  | b, found, check :: rest =>
    if exceeded b then some (.error .tooLarge)
    else match check with
      | none => none
      | some fs => runChecks (addFindings b fs).2 (found ++ (addFindings b fs).1) rest

/-- The API checks: usage findings, callers, and the fold of the ones into the others, each only
while the budget is not over. -/
def apiFindings (b : Option Budget) : List Finding × Option Budget :=
  let usage := addFindings b (evalAPIUsage k target inv)
  let calls :=
    if exceeded usage.2 then ([], usage.2)
    else addEach (fun r => findingSize r.2) usage.2 (evalDeprecatedCalls X inv k target)
  if exceeded calls.2 then ([], calls.2)
  else
    let folded := addEach id calls.2 (foldCharges X inv usage.1 calls.1)
    (if exceeded folded.2 then [] else foldDeprecatedCalls X inv usage.1 calls.1, folded.2)

/-- The images of a report: sorted, each once, at most `maxUnrecognizedImages`. -/
def listedImages : List String := (sortedSet inv.unrecognizedImages).take maxUnrecognizedImages

/-- The report of an evaluation's findings. -/
def reportOf (found : List Finding) : Report :=
  let findings := sortFindings found
  let gaps := assessmentGaps X inv k target
  let images := sortedSet inv.unrecognizedImages
  { clusterID := inv.clusterID
    target := target
    serverVersion := inv.serverVersion
    kbVersion := k.version
    score := score findings
    ready := verdictFor findings gaps = .ready
    verdict := verdictFor findings gaps
    findings := findings
    notAssessed := gaps
    support := (evalSupport X inv k now).1
    unrecognizedImages := listedImages inv
    unrecognizedImagesOmitted :=
      if images.length > maxUnrecognizedImages then
        wrap64 (inv.unrecognizedImagesOmitted + (images.length - maxUnrecognizedImages))
      else inv.unrecognizedImagesOmitted
    addOnEvidenceAgeSeconds := max 0 inv.addOnEvidenceAgeSeconds }

/-- `evaluate`: the evaluation within a budget, `none` for no limit. -/
def evaluateIn (b : Option Budget) : Option (Except TooLarge Report) :=
  let api := apiFindings X inv k target (charge b (reportBaseSize inv k))
  (runChecks api.2 api.1 (checks fuel X inv k target now)).map fun
    | .error e => .error e
    | .ok (found, b) =>
      let gaps := assessmentGaps X inv k target
      let b := chargeAll b (gaps.map gapSize ++ (listedImages inv).map fun img => byteLen img + 3)
      if exceeded b then .error .tooLarge else .ok (reportOf X inv k target now found)

/-- `Evaluate`: no limit, so no error. -/
def evaluate : Option Report := (evaluateIn fuel X inv k target now none).bind Except.toOption

/-- `EvaluateWithin`: the report, or the error that it would be over `maxBytes`. -/
def evaluateWithin (maxBytes : ℤ) : Option (Except TooLarge Report) :=
  evaluateIn fuel X inv k target now (some (Budget.start maxBytes))

/-! ## What an evaluation without a limit finds -/

/-- The findings of checks one after the other, `none` when one of them does not end. -/
def collect : List (Option (List Finding)) → Option (List Finding)
  | [] => some []
  | check :: rest => check.bind fun fs => (collect rest).map (fs ++ ·)

/-- The findings of the API checks: the usage findings with their folded callers, and the callers
that stand alone. -/
def foldedFindings : List Finding :=
  foldDeprecatedCalls X inv ((evalAPIUsage k target inv).map capNamespaces)
    (evalDeprecatedCalls X inv k target)

/-- Every finding of an evaluation, in the order the checks make them. -/
def foundFindings : Option (List Finding) :=
  (collect (checks fuel X inv k target now)).map fun fs =>
    foldedFindings X inv k target ++ fs.map capNamespaces

/-- Without a limit every check runs. -/
theorem runChecks_none (found : List Finding) (cs : List (Option (List Finding))) :
    runChecks none found cs =
      (collect cs).map fun fs => .ok (found ++ fs.map capNamespaces, none) := by
  induction cs generalizing found with
  | nil => simp [runChecks, collect]
  | cons check rest ih =>
    cases check with
    | none => simp [runChecks, collect]
    | some fs =>
      simp only [runChecks, exceeded_none, Bool.false_eq_true, if_false, addFindings, addEach_none, ih,
        collect, Option.bind_some, Option.map_map]
      congr 1
      funext gs
      simp

/-- `Evaluate` reports every finding. -/
theorem evaluate_eq :
    evaluate fuel X inv k target now =
      (foundFindings fuel X inv k target now).map (reportOf X inv k target now) := by
  have hapi : apiFindings X inv k target none = (foldedFindings X inv k target, none) := by
    simp [apiFindings, addFindings, foldedFindings]
  unfold evaluate evaluateIn
  dsimp only
  rw [charge_none, hapi, runChecks_none]
  unfold foundFindings
  cases collect (checks fuel X inv k target now) with
  | none => rfl
  | some fs => simp [Except.toOption]

/-- The findings of an evaluation are the API findings and the checks'. -/
theorem mem_collect {cs : List (Option (List Finding))} {fs : List Finding} (h : collect cs = some fs)
    {f : Finding} : f ∈ fs ↔ ∃ gs, some gs ∈ cs ∧ f ∈ gs := by
  induction cs generalizing fs with
  | nil =>
    obtain rfl := Option.some.inj h
    simp
  | cons check rest ih =>
    cases check with
    | none => simp [collect] at h
    | some gs =>
      obtain ⟨rs, hrs, rfl⟩ := Option.map_eq_some_iff.mp (by simpa [collect] using h)
      simp [ih hrs]

end Evaluate

/-! ## What a report says -/

/-- A usage finding keeps its key, its category, its severity and its objects when it takes callers. -/
theorem withCallers_fields (f : Finding) (rows : List (DeprecatedCall × Finding)) :
    (withCallers f rows).key = f.key ∧ (withCallers f rows).category = f.category ∧
      (withCallers f rows).severity = f.severity ∧ (withCallers f rows).objects = f.objects := by
  unfold withCallers
  split_ifs <;> exact ⟨rfl, rfl, rfl, rfl⟩

section Reported

variable {fuel : ℕ} {X : External} {inv : Inventory} {k : KB} {target : Version} {now : Time} {rep : Report}

/-- The findings of a report are those that the checks found. -/
theorem mem_findings_evaluate (h : evaluate fuel X inv k target now = some rep) (f : Finding) :
    f ∈ rep.findings ↔ f ∈ foldedFindings X inv k target ∨
      ∃ gs, some gs ∈ checks fuel X inv k target now ∧ ∃ g ∈ gs, capNamespaces g = f := by
  rw [evaluate_eq] at h
  obtain ⟨found, hfound, rfl⟩ := Option.map_eq_some_iff.mp h
  obtain ⟨fs, hfs, rfl⟩ := Option.map_eq_some_iff.mp hfound
  have hsorted : (reportOf X inv k target now (foldedFindings X inv k target ++ fs.map capNamespaces)).findings.Perm
      (foldedFindings X inv k target ++ fs.map capNamespaces) := sortOn_perm findingOrder _
  rw [hsorted.mem_iff, List.mem_append, List.mem_map]
  refine or_congr_right ⟨?_, ?_⟩
  · rintro ⟨g, hg, rfl⟩
    obtain ⟨gs, hgs, hmem⟩ := (mem_collect hfs).mp hg
    exact ⟨gs, hgs, g, hmem, rfl⟩
  · rintro ⟨gs, hgs, g, hg, rfl⟩
    exact ⟨g, (mem_collect hfs).mpr ⟨gs, hgs, hg⟩, rfl⟩

/-- The findings of a check are in the report. -/
theorem check_reported (h : evaluate fuel X inv k target now = some rep) {fs : List Finding}
    (hfs : some fs ∈ checks fuel X inv k target now) {f : Finding} (hf : f ∈ fs) : capNamespaces f ∈ rep.findings :=
  (mem_findings_evaluate h _).mpr (.inr ⟨fs, hfs, f, hf, rfl⟩)

/-- The finding of a usage row is in the report, with the callers it takes. -/
theorem usageFinding_reported (h : evaluate fuel X inv k target now = some rep) {u : APIUsage} (hu : u ∈ inv.apiUsage)
    {g : Finding} (hg : usageFinding k target inv.source inv.namespaces u = some g) :
    ∃ f ∈ rep.findings, f.key = g.key ∧ f.category = g.category ∧ f.severity = g.severity ∧ f.objects = g.objects := by
  have hmem : capNamespaces g ∈ (evalAPIUsage k target inv).map capNamespaces :=
    List.mem_map_of_mem (List.mem_filterMap.mpr ⟨u, hu, hg⟩)
  obtain ⟨j, hj, hcap⟩ := List.getElem_of_mem hmem
  refine ⟨_, (mem_findings_evaluate h _).mpr (.inl (List.mem_append_left _ (List.mem_mapIdx.mpr ⟨j, hj, rfl⟩))), ?_⟩
  obtain ⟨hkey, hcat, hsev, hobjects⟩ := withCallers_fields ((evalAPIUsage k target inv).map capNamespaces)[j]
    (foldedInto (placedCalls X inv ((evalAPIUsage k target inv).map capNamespaces) (evalDeprecatedCalls X inv k target)) j)
  rw [hkey, hcat, hsev, hobjects, hcap, capNamespaces_key, capNamespaces_category, capNamespaces_severity,
    capNamespaces_objects]
  exact ⟨rfl, rfl, rfl, rfl⟩

end Reported

end UpgradeScope
