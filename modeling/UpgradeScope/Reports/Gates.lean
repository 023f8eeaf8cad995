import UpgradeScope.Reports.JUnit
import UpgradeScope.Server.Answer

/-!
# Test reports and the gates

A pipeline may read the test report and not the exit code of `scan`, or the status of the server's gate, so they have to
agree: `Write` of `internal/junit/junit.go` promises a report that fails exactly when the gate does. They decide it from
different things. The gate of a scan (`internal/cli/scan.go`) counts findings, looks for a target gap and asks for the
verdict; the server's (`internal/server/gate.go`) asks for the verdict of what the manifests introduce and, at `warning`, for
their findings; the test report looks at one finding and one gap at a time. `junit_fails_with_the_scan` and
`junit_fails_with_the_gate` say that they agree all the same.
-/

namespace UpgradeScope.Reports

open Go Kb Suppress

/-! ## The gate of a scan -/

/-- A finding's objects under a directory. -/
def placed (base : String) (f : Finding) : Finding :=
  { f with objects := f.objects.map fun o => if o.file ≠ "" then { o with file := pathJoin base o.file } else o }

/-- `withFileBase`. -/
def withFileBase (r : MarkedReport) (base : String) : MarkedReport :=
  if base = "" then r
  else
    { report :=
        { r.report with
          findings := r.report.findings.map (placed base)
          suppressed := r.report.suppressed.map fun s => { s with finding := placed base s.finding } }
      findings := r.findings.map fun f => { f with finding := placed base f.finding }
      same := by rw [← r.same, List.map_map, List.map_map]; rfl }

/-- Where the files are does not decide whether a test report fails. -/
theorem fails_withFileBase (r : MarkedReport) (base : String) (opts : Options) :
    (junit (withFileBase r base) opts).fails ↔ (junit r opts).fails := by
  rw [junit_fails_iff, junit_fails_iff]
  unfold withFileBase
  split_ifs
  · rfl
  · simp only [List.mem_map, exists_exists_and_eq_and]
    rfl

/-- The gate of a scan fails on a new finding at the threshold, a target gap, or an assessment that is not complete. -/
theorem gate_ne_none_iff {r : MarkedReport} {failOn : FailOn} {allowIncomplete : Bool} :
    gate r failOn allowIncomplete ≠ none ↔
      failOn ≠ .never ∧ (findingsReach r failOn = true ∨ (∃ g ∈ r.report.notAssessed, g.capability = gapTarget) ∨
        incomplete r = true ∧ allowIncomplete = false) := by
  unfold gate
  by_cases hnever : failOn = .never
  · simp [hnever]
  rw [if_neg hnever]
  by_cases hreach : findingsReach r failOn = true
  · simp [hnever, hreach]
  rw [if_neg hreach]
  cases hfind : r.report.notAssessed.find? (·.capability = gapTarget) with
  | some g =>
    have hg : g.capability = gapTarget := by simpa using List.find?_some hfind
    refine iff_of_true (by simp) ⟨hnever, .inr (.inl ⟨g, List.mem_of_find?_eq_some hfind, hg⟩)⟩
  | none =>
    have hno : ¬ ∃ g ∈ r.report.notAssessed, g.capability = gapTarget := by
      rintro ⟨g, hg, hcap⟩
      simpa [hcap] using List.find?_eq_none.mp hfind g hg
    simp [hnever, hreach, hno]

section Scan

variable {fuel : ℕ} {X : External} {inv : Inventory} {k : KB} {target : Version} {now : Time}

/-- The capabilities a collector reports are its own: a target gap is only ever the engine's. -/
def OwnCapabilities (inv : Inventory) : Prop := inv.capabilities.lookup gapTarget = none

/-- A target gap is required. -/
theorem required_of_targetGap (h : OwnCapabilities inv) {g : CapabilityGap} (hg : g ∈ assessmentGaps X inv k target)
    (hcap : g.capability = gapTarget) : g.required = true := by
  rw [assessmentGaps, (Sorting.sortOn_perm _ _).mem_iff] at hg
  simp only [List.mem_append, or_assoc] at hg
  rcases hg with hg | hg | hg | hg | hg | hg
  · obtain ⟨c, -, rfl⟩ := List.mem_map.mp hg
    rfl
  · -- A capability of the collector's is not the target.
    obtain ⟨e, he, hgap⟩ := List.mem_filterMap.mp hg
    have hname : e.1 = g.capability := by
      unfold reportedGap at hgap
      split_ifs at hgap <;> exact (congrArg CapabilityGap.capability (Option.some.inj hgap))
    have hlookup : e.2 ∈ inv.capabilities.lookup e.1 := AList.mem_lookup_iff.mpr he
    rw [hname, hcap, h] at hlookup
    cases hlookup
  · unfold unreportedGaps at hg
    rw [List.mem_append] at hg
    exfalso
    rcases hg with hg | hg <;> split_ifs at hg <;> simp only [List.mem_singleton, List.not_mem_nil] at hg <;>
      (rw [hg] at hcap; exact absurd hcap (by decide))
  · exfalso
    rw [Option.mem_toList, serverVersionGap] at hg
    have hnot : capVersions ≠ gapTarget := by decide
    split_ifs at hg <;> (rw [← Option.some.inj hg] at hcap; exact absurd hcap hnot)
  · rw [Option.mem_toList, coverageGap] at hg
    split_ifs at hg
    rw [← Option.some.inj hg]
  · rw [Option.mem_toList, targetGap, Option.bind_eq_some_iff] at hg
    obtain ⟨running, -, hg⟩ := hg
    split_ifs at hg
    rw [← Option.some.inj hg]

variable (fuel X inv k target now) in
/-- A scan up to its output: the evaluation's report, without what its rules accept, compared with its baseline. -/
def scanned (opts : Suppress.Options) (rules : List Rule) (baseline : Option Baseline) : Option MarkedReport :=
  (evaluate fuel X inv k target now).map fun r => markWith baseline (Suppress.apply X opts r rules).1

/-- Comparing with a baseline leaves the report. -/
theorem report_markWith (b : Option Baseline) (r : Report) : (markWith b r).report = r := by cases b <;> rfl

/-- Accepting findings leaves the gaps. -/
theorem notAssessed_apply (opts : Suppress.Options) (rep : Report) (rules : List Rule) :
    (Suppress.apply X opts rep rules).1.notAssessed = rep.notAssessed := by
  rcases apply_cases X opts rep rules with ⟨-, heq⟩ | ⟨-, r', hgaps, heq⟩
  · rw [heq]
  · rw [heq, ← hgaps]
    rfl

/-- What is scanned has the gaps and the verdict of its evaluation. -/
theorem scanned_spec {opts : Suppress.Options} {rules : List Rule} {baseline : Option Baseline} {r : MarkedReport}
    (h : scanned fuel X inv k target now opts rules baseline = some r) :
    r.report.notAssessed = assessmentGaps X inv k target ∧
      r.report.verdict = verdictFor r.report.findings r.report.notAssessed := by
  obtain ⟨rep, hrep, rfl⟩ := Option.map_eq_some_iff.mp h
  obtain ⟨-, hverdict⟩ := rescore_apply hrep opts rules
  have heval : rep.notAssessed = assessmentGaps X inv k target := by
    rw [evaluate_eq] at hrep
    obtain ⟨found, -, rfl⟩ := Option.map_eq_some_iff.mp hrep
    rfl
  rw [report_markWith]
  exact ⟨(notAssessed_apply opts rep rules).trans heval, by rw [hverdict, notAssessed_apply]⟩

/-- A verdict is unknown only for a required gap. -/
theorem exists_required_of_unknown {fs : List Finding} {gaps : List CapabilityGap} (h : verdictFor fs gaps = .unknown) :
    ∃ g ∈ gaps, g.required = true := by
  unfold verdictFor at h
  split_ifs at h with _ hrequired
  simpa using hrequired

/-- The test report of a scan fails exactly when the scan's gate does, wherever the files are, whatever rules and baseline
it is given; and it holds one test for each finding, accepted finding and gap, and at least one. -/
theorem junit_fails_with_the_scan (hinv : OwnCapabilities inv) {opts : Suppress.Options} {rules : List Rule}
    {baseline : Option Baseline} {r : MarkedReport} (h : scanned fuel X inv k target now opts rules baseline = some r)
    (base : String) (failOn : FailOn) (allowIncomplete : Bool) :
    ((junit (withFileBase r base) ⟨failOn, allowIncomplete⟩).fails ↔ gate r failOn allowIncomplete ≠ none) ∧
      (junit (withFileBase r base) ⟨failOn, allowIncomplete⟩).tests =
        max 1 (r.report.findings.length + r.report.suppressed.length + r.report.notAssessed.length) := by
  obtain ⟨hgaps, hverdict⟩ := scanned_spec h
  have htarget : ∀ g ∈ r.report.notAssessed, g.capability = gapTarget → g.required = true :=
    fun g hg hcap => required_of_targetGap hinv (hgaps ▸ hg) hcap
  have hincomplete : incomplete r = true ↔ ∃ g ∈ r.report.notAssessed, g.required = true := by
    unfold incomplete
    rw [Bool.or_eq_true, decide_eq_true_eq, List.any_eq_true]
    refine ⟨fun hor => ?_, .inr⟩
    rcases hor with hunknown | hrequired
    · exact exists_required_of_unknown (hverdict ▸ hunknown)
    · exact hrequired
  constructor
  · rw [fails_withFileBase, junit_fails_iff, gate_ne_none_iff]
    by_cases hnever : failOn = .never
    · subst hnever
      simp [gapFails, reaches]
    rw [findingsReach_iff hnever, hincomplete]
    simp only [hnever, ne_eq, not_false_eq_true, true_and]
    refine or_congr_right ?_
    simp only [gapFails, ne_eq, hnever, not_false_eq_true, decide_true, Bool.and_true, Bool.and_eq_true, Bool.or_eq_true,
      decide_eq_true_eq, Bool.not_eq_true']
    constructor
    · rintro ⟨g, hg, hrequired, hcap | hallow⟩
      · exact .inl ⟨g, hg, hcap⟩
      · exact .inr ⟨⟨g, hg, hrequired⟩, hallow⟩
    · rintro (⟨g, hg, hcap⟩ | ⟨⟨g, hg, hrequired⟩, hallow⟩)
      · exact ⟨g, hg, htarget g hg hcap, .inl hcap⟩
      · exact ⟨g, hg, hrequired, .inr hallow⟩
  · rw [junit_tests]
    unfold withFileBase
    split_ifs
    · rfl
    · simp only [List.length_map]

end Scan

/-- A cluster's Ingress fails the scan and its test report. -/
theorem junit_fails_with_the_scan_ingress :
    ∃ r, scanned 0 .ascii (requestedCluster [""]) ingressKB ⟨1, 22⟩ 0 { now := 0 } [] none = some r ∧
      gate r .blocker true = some .failed ∧ (junit (withFileBase r "deploy") ⟨.blocker, true⟩).fails := by
  have hany : (scanned 0 .ascii (requestedCluster [""]) ingressKB ⟨1, 22⟩ 0 { now := 0 } [] none).any
      (fun r => gate r .blocker true = some .failed) = true := by decide +kernel
  obtain ⟨r, hr, hgate⟩ := (Option.any_eq_true _ _).mp hany
  have hfailed := of_decide_eq_true hgate
  have hinv : OwnCapabilities (requestedCluster [""]) := rfl
  refine ⟨r, hr, hfailed, (junit_fails_with_the_scan hinv hr "deploy" .blocker true).1.mpr ?_⟩
  rw [hfailed]
  exact Option.some_ne_none _

/-! ## The server's gate -/

/-- `gateFails`: the status of a gate's answer is 422. -/
def gateFails (resp : GateResponse) (failOn : FailOn) (allowIncomplete : Bool) : Bool :=
  if failOn = .never then false
  else if resp.verdict = .blocked then true
  else if resp.verdict = .unknown ∧ allowIncomplete = false then true
  else if resp.verdict = .unknown ∧ ∃ g ∈ resp.report.notAssessed, g.capability = gapTarget then true
  else failOn = .warning && resp.findings.any fun f => f.source = .manifest && f.finding.severity = .warning

/-- `sarifReport`: what the manifests introduce, with the gate's verdict. -/
def sarifReport (resp : GateResponse) : Report :=
  { resp.report with
    suppressed := resp.introducedSuppressed
    findings := (resp.findings.filter (·.source = .manifest)).map (·.finding)
    verdict := resp.verdict
    ready := resp.ready }

/-- The answer's verdict is that of what the manifests introduce, and its target gaps are required. -/
structure Judged (resp : GateResponse) : Prop where
  /-- The manifests' blockers, then the required gaps, decide the verdict. -/
  verdict : resp.verdict = verdictFor (sarifReport resp).findings resp.report.notAssessed
  /-- A target gap is required. -/
  target : ∀ g ∈ resp.report.notAssessed, g.capability = gapTarget → g.required = true

/-- `gateResult` judges. -/
theorem judged_gateResult {rep : Report} (h : ∀ g ∈ rep.notAssessed, g.capability = gapTarget → g.required = true)
    (baseline : Option Report) (introduced : GateSide) : Judged (gateResult rep baseline introduced) where
  verdict := by
    have hany : (rep.findings.any fun f => sourceOf baseline introduced f = .manifest && f.severity = .blocker) =
        (sarifReport (gateResult rep baseline introduced)).findings.any (·.severity = .blocker) := by
      simp only [sarifReport, gateResult, List.filter_map, List.map_map, List.any_map, List.any_filter]
      rfl
    unfold verdictFor
    rw [← hany]
    rfl
  target := h

/-- Cutting a finding leaves its severity. -/
theorem severity_cut (k : Keep) (f : Finding) : (k.cut f).1.severity = f.severity := by
  unfold Keep.cut
  dsimp only
  split_ifs <;> rfl

variable {resp : GateResponse} (sc : ReadScope)

/-- A scope withholds a gap's words, not the gap. -/
theorem map_scopeGaps (gaps : List CapabilityGap) :
    (sc.scopeGaps gaps).map (fun g => (g.capability, g.required)) = gaps.map fun g => (g.capability, g.required) := by
  unfold ReadScope.scopeGaps
  rw [List.map_map]
  refine List.map_congr_left fun g _ => ?_
  dsimp only [Function.comp_apply]
  split_ifs <;> rfl

/-- Where a gap's capability and whether it is required decide, the scope's gaps answer as the others. -/
theorem exists_scopeGaps (gaps : List CapabilityGap) (p : Capability × Bool → Prop) :
    (∃ g ∈ sc.scopeGaps gaps, p (g.capability, g.required)) ↔ ∃ g ∈ gaps, p (g.capability, g.required) := by
  have h := map_scopeGaps sc gaps
  have hexists : ∀ l : List CapabilityGap, (∃ g ∈ l, p (g.capability, g.required)) ↔
      ∃ x ∈ l.map (fun g => (g.capability, g.required)), p x := by
    intro l
    simp only [List.mem_map, exists_exists_and_eq_and]
  rw [hexists, hexists, h]

/-- A scope reads every finding of the manifests, at its severity. -/
theorem severities_scope (resp : GateResponse) (sc : ReadScope) (nsInfo : List NamespaceInfo) (invs : List Inventory) :
    (sarifReport (resp.scope sc nsInfo invs)).findings.map (·.severity) = (sarifReport resp).findings.map (·.severity) := by
  unfold GateResponse.scope
  cases sc.teams with
  | none => rfl
  | some teams =>
    simp only [sarifReport, List.filter_map, List.map_map, List.filter_filter]
    -- What the scope leaves out is the cluster's.
    have hfilter : ∀ f : GateFinding, (decide (f.source = .manifest) && !(decide (f.source = .cluster) && !sc.owns f.finding.teams)) =
        decide (f.source = .manifest) := by
      intro f
      cases f.source <;> simp
    simp only [Function.comp_def, severity_cut, hfilter]

/-- What a scope reads of an answer is judged as the answer. -/
theorem Judged.scope (h : Judged resp) (sc : ReadScope) (nsInfo : List NamespaceInfo) (invs : List Inventory) :
    Judged (resp.scope sc nsInfo invs) := by
  have hverdict : (resp.scope sc nsInfo invs).verdict = resp.verdict := by
    unfold GateResponse.scope
    cases sc.teams <;> rfl
  have hgaps : (resp.scope sc nsInfo invs).report.notAssessed = resp.report.notAssessed ∨
      (resp.scope sc nsInfo invs).report.notAssessed = sc.scopeGaps resp.report.notAssessed := by
    unfold GateResponse.scope
    cases sc.teams with
    | none => exact .inl rfl
    | some teams => exact .inr rfl
  have hexists : ∀ p : Capability × Bool → Prop,
      (∃ g ∈ (resp.scope sc nsInfo invs).report.notAssessed, p (g.capability, g.required)) ↔
        ∃ g ∈ resp.report.notAssessed, p (g.capability, g.required) := by
    intro p
    rcases hgaps with hgaps | hgaps
    · rw [hgaps]
    · rw [hgaps, exists_scopeGaps]
  refine ⟨?_, fun g hg hcap => ?_⟩
  · rw [hverdict, h.verdict, ← verdictFor_eq_of_severities _ (List.Perm.of_eq (severities_scope resp sc nsInfo invs))]
    have hrequired : ((resp.scope sc nsInfo invs).report.notAssessed.any (·.required)) =
        resp.report.notAssessed.any (·.required) := by
      rw [Bool.eq_iff_iff, List.any_eq_true, List.any_eq_true]
      exact hexists fun x => x.2 = true
    unfold verdictFor
    rw [hrequired]
  · by_contra hnot
    obtain ⟨g', hg', hcap', hnot'⟩ := (hexists fun x => x.1 = gapTarget ∧ ¬ x.2 = true).mp ⟨g, hg, hcap, hnot⟩
    exact hnot' (h.target g' hg' hcap')

/-- A gate fails where it is blocked, where it is unknown and that is not allowed or the target is no upgrade, and for a
warning at that threshold. -/
theorem gateFails_iff {failOn : FailOn} {allowIncomplete : Bool} (hnever : failOn ≠ .never) :
    gateFails resp failOn allowIncomplete = true ↔
      resp.verdict = .blocked ∨
        resp.verdict = .unknown ∧ (allowIncomplete = false ∨ ∃ g ∈ resp.report.notAssessed, g.capability = gapTarget) ∨
          failOn = .warning ∧ ∃ f ∈ (sarifReport resp).findings, f.severity = .warning := by
  have hwarning : (resp.findings.any fun f => f.source = .manifest && f.finding.severity = .warning) = true ↔
      ∃ f ∈ (sarifReport resp).findings, f.severity = .warning := by
    simp only [sarifReport, List.any_eq_true, Bool.and_eq_true, decide_eq_true_eq, List.mem_map, List.mem_filter]
    constructor
    · rintro ⟨f, hf, hsource, hsev⟩
      exact ⟨f.finding, ⟨f, ⟨hf, hsource⟩, rfl⟩, hsev⟩
    · rintro ⟨_, ⟨f, ⟨hf, hsource⟩, rfl⟩, hsev⟩
      exact ⟨f, hf, hsource, hsev⟩
  unfold gateFails
  rw [if_neg hnever, ← hwarning]
  split_ifs with hblocked hincomplete htarget
  · simp [hblocked]
  · simp [hincomplete]
  · simp [htarget]
  · simp only [Bool.and_eq_true, decide_eq_true_eq, hblocked, false_or]
    constructor
    · exact .inr
    · rintro (⟨hunknown, hallow | htgt⟩ | hwarn)
      · exact absurd ⟨hunknown, hallow⟩ hincomplete
      · exact absurd ⟨hunknown, htgt⟩ htarget
      · exact hwarn

/-- The test report of a judged answer fails exactly when its status is 422. -/
theorem Judged.fails_iff (h : Judged resp) (failOn : FailOn) (allowIncomplete : Bool) :
    (junit (unmarked (sarifReport resp)) ⟨failOn, allowIncomplete⟩).fails ↔ gateFails resp failOn allowIncomplete = true := by
  have hfindings : (∃ f ∈ (unmarked (sarifReport resp)).findings,
      f.state ≠ some .unchanged ∧ reaches f.finding.severity failOn = true) ↔
        ∃ f ∈ (sarifReport resp).findings, reaches f.severity failOn = true := by
    simp [unmarked]
  rw [junit_fails_iff, hfindings]
  by_cases hnever : failOn = .never
  · subst hnever
    simp [reaches, gapFails, gateFails]
  rw [gateFails_iff hnever, h.verdict]
  have hgap : (∃ g ∈ (unmarked (sarifReport resp)).report.notAssessed, gapFails ⟨failOn, allowIncomplete⟩ g = true) ↔
      ∃ g ∈ resp.report.notAssessed, g.required = true ∧ (g.capability = gapTarget ∨ allowIncomplete = false) := by
    simp only [unmarked, sarifReport, gapFails, ne_eq, hnever, not_false_eq_true, decide_true, Bool.and_true,
      Bool.and_eq_true, Bool.or_eq_true, decide_eq_true_eq, Bool.not_eq_true']
  rw [hgap]
  by_cases hblocker : ∃ f ∈ (sarifReport resp).findings, f.severity = .blocker
  · -- An introduced blocker fails both.
    obtain ⟨f, hf, hsev⟩ := hblocker
    refine iff_of_true (.inl ⟨f, hf, ?_⟩) (.inl (verdictFor_eq_blocked.mpr ⟨f, hf, hsev⟩))
    rw [hsev]
    revert hnever
    cases failOn <;> decide
  · have hnotblocked : verdictFor (sarifReport resp).findings resp.report.notAssessed ≠ .blocked :=
      fun hb => hblocker (verdictFor_eq_blocked.mp hb)
    have hunknown : verdictFor (sarifReport resp).findings resp.report.notAssessed = .unknown ↔
        ∃ g ∈ resp.report.notAssessed, g.required = true := by
      refine ⟨exists_required_of_unknown, fun hrequired => ?_⟩
      unfold verdictFor at hnotblocked ⊢
      rw [← List.any_eq_true] at hrequired
      split_ifs at hnotblocked ⊢ <;> first | rfl | exact absurd rfl hnotblocked
    have hreach : (∃ f ∈ (sarifReport resp).findings, reaches f.severity failOn = true) ↔
        failOn = .warning ∧ ∃ f ∈ (sarifReport resp).findings, f.severity = .warning := by
      cases failOn with
      | never => exact absurd rfl hnever
      | blocker => simpa [reaches] using hblocker
      | warning =>
        simp only [reaches, decide_eq_true_eq, true_and]
        refine exists_congr fun f => and_congr_right fun hf => or_iff_right fun hsev => hblocker ⟨f, hf, hsev⟩
    rw [hreach, hunknown]
    simp only [hnotblocked, false_or]
    rw [or_comm]
    refine or_congr_left ?_
    constructor
    · rintro ⟨g, hg, hrequired, hcap | hallow⟩
      · exact ⟨⟨g, hg, hrequired⟩, .inr ⟨g, hg, hcap⟩⟩
      · exact ⟨⟨g, hg, hrequired⟩, .inl hallow⟩
    · rintro ⟨⟨g, hg, hrequired⟩, hallow | ⟨g', hg', hcap⟩⟩
      · exact ⟨g, hg, hrequired, .inr hallow⟩
      · exact ⟨g', hg', h.target g' hg' hcap, .inl hcap⟩

section Gate

variable {registered : String → Bool} {fuel : ℕ} {X : External} {k : KB} {now : Time} {limit : ℤ}
  {teamMap : List NamespaceInfo → List NamespaceInfo} {req : GateRequest} {cluster : Option (Inventory × Bool)}
  {posted : Inventory} {resp : GateResponse}

/-- The answer of a gate is the result over the report of its state, as the scope reads it. -/
theorem gateAnswer_eq_ok (h : gateAnswer registered fuel X k now limit teamMap req cluster posted = some (.ok resp)) :
    ∃ full baseline introduced mine sc nsInfo invs,
      evaluateWithin fuel X (gateState registered teamMap req cluster posted).1 k req.target now limit = some (.ok full) ∧
        resp = (gateResult (capObjects (suppressGate X now full req.rules) mine) baseline introduced).scope sc nsInfo invs := by
  cases cluster with
  | none =>
    obtain ⟨full, hfull, hresp⟩ := andThen_eq_ok.mp h
    obtain rfl := Except.ok.inj (Option.some.inj hresp)
    exact ⟨full, none, {}, fun _ => false, ⟨none⟩, [], [], hfull, rfl⟩
  | some c =>
    obtain ⟨ev, hev, hresp⟩ := andThen_eq_ok.mp h
    obtain rfl := Except.ok.inj (Option.some.inj hresp)
    obtain ⟨base, -, hev⟩ := andThen_eq_ok.mp hev
    obtain ⟨side, -, hev⟩ := andThen_eq_ok.mp hev
    obtain ⟨full, hfull, hev⟩ := andThen_eq_ok.mp hev
    obtain rfl := Except.ok.inj (Option.some.inj hev)
    exact ⟨full, _, _, _, _, _, _, hfull, rfl⟩

/-- A stream's API usage is a capability that collectors report. -/
theorem OwnCapabilities.withUsage {share : Inventory} (h : OwnCapabilities share) (manifests : Inventory) (viewed : Bool) :
    OwnCapabilities (withUsage share manifests viewed) := by
  have hne : gapTarget ≠ capAPIUsage := by decide
  exact (AList.lookup_insert_ne hne).trans h

/-- A merge with manifests adds no capability to the collectors' own: it writes the CRDs' only. -/
theorem OwnCapabilities.merge {proposed : Inventory} (h : OwnCapabilities proposed) (registered : String → Bool)
    (manifests : Inventory) : OwnCapabilities (mergeManifests registered proposed manifests).1 := by
  have hne : gapTarget ≠ capCRDs := by decide
  unfold OwnCapabilities mergeManifests
  dsimp only
  split
  · exact (AList.lookup_insert_ne hne).trans h
  · exact h

/-- Merging a stream into a cluster reports no capability that a collector does not. -/
theorem ownCapabilities_gateState (hposted : OwnCapabilities posted) (hcluster : ∀ c ∈ cluster, OwnCapabilities c.1) :
    OwnCapabilities (gateState registered teamMap req cluster posted).1 := by
  cases cluster with
  | none => exact hposted
  | some c =>
    have hinv : OwnCapabilities c.1 := hcluster c rfl
    have hshare : OwnCapabilities (req.scope.clusterShare { c.1 with namespaces := teamMap c.1.namespaces }) := by
      unfold ReadScope.clusterShare
      cases req.scope.teams <;> exact hinv
    exact (hshare.withUsage _ _).merge registered _

/-- Every answer of a gate is judged. -/
theorem judged_gateAnswer (hposted : OwnCapabilities posted) (hcluster : ∀ c ∈ cluster, OwnCapabilities c.1)
    (h : gateAnswer registered fuel X k now limit teamMap req cluster posted = some (.ok resp)) : Judged resp := by
  obtain ⟨full, baseline, introduced, mine, sc, nsInfo, invs, hfull, rfl⟩ := gateAnswer_eq_ok h
  obtain ⟨found, -, rfl⟩ := foundFindings_of_within hfull
  refine (judged_gateResult (fun g hg hcap => ?_) baseline introduced).scope sc nsInfo invs
  have hstate : OwnCapabilities (gateState registered teamMap req cluster posted).1 :=
    ownCapabilities_gateState hposted hcluster
  have hgaps : g ∈ (Suppress.apply X { now := now, source := "config" }
      (reportOf X (gateState registered teamMap req cluster posted).1 k req.target now found) req.rules).1.notAssessed := hg
  rw [notAssessed_apply] at hgaps
  exact required_of_targetGap hstate hgaps hcap

/-- The test report of a gate's answer fails exactly when the answer's status is 422, whether it is read by the whole fleet or
by a team, with a cluster or without, at every threshold. -/
theorem junit_fails_with_the_gate (hposted : OwnCapabilities posted) (hcluster : ∀ c ∈ cluster, OwnCapabilities c.1)
    (h : gateAnswer registered fuel X k now limit teamMap req cluster posted = some (.ok resp)) (failOn : FailOn)
    (allowIncomplete : Bool) :
    (junit (unmarked (sarifReport resp)) ⟨failOn, allowIncomplete⟩).fails ↔ gateFails resp failOn allowIncomplete = true :=
  (judged_gateAnswer hposted hcluster h).fails_iff failOn allowIncomplete

end Gate

/-- A stream with an Ingress, posted without a cluster, is answered with 422 and a test report that fails. -/
theorem junit_fails_with_the_gate_ingress :
    ∃ resp, gateAnswer (fun _ => true) 0 .ascii ingressKB 0 maxInt id { target := ⟨1, 22⟩ } none (requestedCluster []) =
        some (.ok resp) ∧ gateFails resp .blocker true = true ∧ (junit (unmarked (sarifReport resp)) ⟨.blocker, true⟩).fails := by
  have hsome : (gateAnswer (fun _ => true) 0 .ascii ingressKB 0 maxInt id { target := ⟨1, 22⟩ } none (requestedCluster [])).any
      (fun x => x.toOption.any fun resp => gateFails resp .blocker true) = true := by decide +kernel
  obtain ⟨x, hx, hany⟩ := (Option.any_eq_true _ _).mp hsome
  obtain ⟨resp, hresp, hfails⟩ := (Option.any_eq_true _ _).mp hany
  have hok : x = .ok resp := by
    cases x with
    | error e => cases hresp
    | ok r => exact congrArg Except.ok (Option.some.inj hresp)
  subst hok
  have hposted : OwnCapabilities (requestedCluster []) := rfl
  have hcluster : ∀ c ∈ (none : Option (Inventory × Bool)), OwnCapabilities c.1 := by simp
  exact ⟨resp, hx, hfails, (junit_fails_with_the_gate hposted hcluster hx .blocker true).mpr hfails⟩

end UpgradeScope.Reports
