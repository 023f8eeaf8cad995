import UpgradeScope.Suppress.Verdicts

/-!
# Baselines

`internal/suppress/baseline.go` and the gate of `internal/cli/scan.go`. A scan may be given the JSON report of an earlier
one. `ReadBaseline` folds its findings into one entry for each identity, and `Mark` compares every finding of the new
report with the entry of its identity; `gate` then passes over what is unchanged. `Held` says the same without the fold,
about the two lists of findings, and `state_baselineOf` that the two agree; what a team that adopts a baseline relies on is
read off `Held`: a second scan of the same thing passes, and so does one of less.
-/

namespace UpgradeScope.Suppress

open Go Sorting

/-! ## What a baseline records -/

/-- What a JSON report holds of a finding, as far as a baseline reads it. The severity of a report that another program
wrote may be one this binary does not know. -/
structure Recorded where
  /-- Its category. -/
  category : Category
  /-- Its severity, when it is one of the three. -/
  severity : Option Severity
  /-- Its key. -/
  key : String
  /-- Its title. -/
  title : String
  /-- The objects it lists. -/
  objects : List ObjectRef
  /-- How many more it counts. -/
  objectsOmitted : ℤ
  deriving DecidableEq

/-- A finding as `--write-baseline` writes it. -/
def recorded (f : Finding) : Recorded where
  category := f.category
  severity := some f.severity
  key := f.key
  title := f.title
  objects := f.objects
  objectsOmitted := f.objectsOmitted

/-- `severityRank`: a missing or unknown severity ranks lowest. -/
def severityRank : Option Severity → ℕ
  | some .info => 1
  | some .warning => 2
  | some .blocker => 3
  | none => 0

/-- `objectID`: an object without its line. -/
abbrev ObjectID := String × String × String

/-- The identity of an object. -/
def objectID (o : ObjectRef) : ObjectID := (o.namespace, o.name, o.file)

/-- `findingID`: the key, or for a keyless finding its category and title. -/
def Recorded.id (f : Recorded) : String :=
  if f.key ≠ "" then f.key else f.category.name ++ "\x00" ++ f.title

/-- The objects of a finding, listed and omitted, as `int` adds them. -/
def Recorded.size (f : Recorded) : ℤ := wrap64 (f.objects.length + f.objectsOmitted)

/-- `legacyUnservedFinding`: a "not served until" blocker under the key of the API's removal, as releases before the
unserved keys wrote it. -/
def Recorded.legacyUnserved (f : Recorded) : Bool :=
  f.category = .removedAPI && contains f.title " is not served until " && (baseOfUnservedKey f.key).isNone &&
    !hasPrefix f.key (Category.removedAPI.name ++ "/helm-release/")

/-- `baselineEntry`. -/
structure Entry where
  /-- The objects of the findings with the identity. -/
  objects : List ObjectID := []
  /-- How many there are, listed and omitted. -/
  total : ℤ := 0
  /-- The highest rank among the findings. -/
  severity : ℕ := 0
  deriving DecidableEq

/-- `Baseline`: an entry for each identity. -/
abbrev Baseline := String → Option Entry

/-- One turn of the loop of `ReadBaseline`. -/
def Baseline.record (b : Baseline) (f : Recorded) : Baseline :=
  if f.legacyUnserved then b
  else
    let e := (b f.id).getD {}
    Function.update b f.id
      (some
        { objects := e.objects ++ f.objects.map objectID
          total := wrap64 (e.total + f.size)
          severity := max e.severity (severityRank f.severity) })

/-- The baseline of a report's findings. -/
def baselineOf (fs : List Recorded) : Baseline := fs.foldl Baseline.record fun _ => none

/-- `ReadBaseline` of a document that decodes: its schema version and findings, where it has them. -/
def readBaseline (schema : Option ℤ) (findings : Option (List Recorded)) (schemaVersion : ℤ) : Except String Baseline :=
  match schema, findings with
  | some v, some fs =>
    if v > schemaVersion then
      .error s!"baseline schemaVersion {v} is newer than this upgradescope reads ({schemaVersion})"
    else .ok (baselineOf fs)
  | _, _ =>
    .error "baseline is not an upgradescope JSON report (want the output of scan --output json or --write-baseline)"

/-- `reportSchemaVersion`, which a scan writes into its JSON report and reads baselines up to. -/
def reportSchemaVersion : ℤ := 1

/-- The baseline that a scan reads of the report which a scan wrote (`--write-baseline`). -/
def writtenBaseline (r : Report) : Except String Baseline :=
  readBaseline (some reportSchemaVersion) (some (r.findings.map recorded)) reportSchemaVersion

/-- What a scan wrote is read. -/
theorem writtenBaseline_eq (r : Report) : writtenBaseline r = .ok (baselineOf (r.findings.map recorded)) := by
  simp [writtenBaseline, readBaseline]

/-! ## Marking -/

/-- `BaselineState`. -/
inductive BaselineState where
  /-- `BaselineNew`. -/
  | new
  /-- `BaselineUnchanged`. -/
  | unchanged
  deriving DecidableEq, Repr

/-- A finding with its state, which only a report compared with a baseline has. -/
structure MarkedFinding where
  /-- The finding. -/
  finding : Finding
  /-- Its state. -/
  state : Option BaselineState := none
  deriving DecidableEq

/-- A report whose findings carry their states. -/
structure MarkedReport where
  /-- The report. -/
  report : Report
  /-- Its findings with their states. -/
  findings : List MarkedFinding
  /-- They are the report's, in order. -/
  same : findings.map (·.finding) = report.findings

/-- A report that was compared with no baseline. -/
def unmarked (r : Report) : MarkedReport where
  report := r
  findings := r.findings.map fun f => { finding := f }
  same := by simp [Function.comp_def]

/-- The state `Mark` gives a finding. -/
def Baseline.state (b : Baseline) (f : Finding) : BaselineState :=
  match b (recorded f).id with
  | none => .new
  | some e =>
    if severityRank (some f.severity) ≤ e.severity ∧ (recorded f).size ≤ e.total ∧
        ∀ o ∈ f.objects, objectID o ∈ e.objects then .unchanged
    else .new

/-- `Mark`. -/
def Baseline.mark (b : Baseline) (r : Report) : MarkedReport where
  report := r
  findings := r.findings.map fun f => ⟨f, some (b.state f)⟩
  same := by simp [Function.comp_def]

/-- A scan's `--baseline`, which it may not have. -/
def markWith (b : Option Baseline) (r : Report) : MarkedReport := (b.map fun b => b.mark r).getD (unmarked r)

/-! ## The gate of a scan -/

/-- `--fail-on`. -/
inductive FailOn where
  /-- The default. -/
  | blocker
  /-- Warnings fail too. -/
  | warning
  /-- Nothing fails. -/
  | never
  deriving DecidableEq, Repr

/-- How the gate fails: each is exit code 2. -/
inductive GateError where
  /-- `ErrGateFailed`. -/
  | failed
  /-- `ErrTargetNotUpgrade`, with the gap's reason. -/
  | targetNotUpgrade (reason : String)
  /-- `ErrIncomplete`. -/
  | incomplete
  deriving DecidableEq

/-- `findingsReach`: a finding that is not unchanged reaches the threshold. -/
def findingsReach (r : MarkedReport) (failOn : FailOn) : Bool :=
  let counted := r.findings.filter (·.state ≠ some .unchanged)
  let blockers := counted.countP (·.finding.severity = .blocker)
  let warnings := counted.countP (·.finding.severity = .warning)
  match failOn with
  | .warning => 0 < blockers + warnings
  | _ => 0 < blockers

/-- `incomplete`: an unknown verdict, or a required gap behind a baseline's blockers. -/
def incomplete (r : MarkedReport) : Bool := r.report.verdict = .unknown || r.report.notAssessed.any (·.required)

/-- `gate` of a scan. -/
def gate (r : MarkedReport) (failOn : FailOn) (allowIncomplete : Bool) : Option GateError :=
  if failOn = .never then none
  else if findingsReach r failOn then some .failed
  else
    match r.report.notAssessed.find? (·.capability = gapTarget) with
    | some g => some (.targetNotUpgrade g.reason)
    | none => if incomplete r && !allowIncomplete then some .incomplete else none

/-- A severity at or above a threshold, as `reaches` of `internal/junit/junit.go` says it. -/
def reaches (s : Severity) : FailOn → Bool
  | .never => false
  | .warning => s = .blocker ∨ s = .warning
  | .blocker => s = .blocker

variable {failOn : FailOn} {r r' : Report} {f : Finding} {allowIncomplete : Bool} (fs : List Recorded)

/-- The gate counts the findings that reach its threshold and are not unchanged. -/
theorem findingsReach_iff {r : MarkedReport} (h : failOn ≠ .never) :
    findingsReach r failOn = true ↔
      ∃ f ∈ r.findings, f.state ≠ some .unchanged ∧ reaches f.finding.severity failOn = true := by
  cases failOn with
  | never => exact absurd rfl h
  | blocker =>
    simp only [findingsReach, decide_eq_true_eq, List.countP_pos_iff, List.mem_filter, reaches, and_assoc, ne_eq]
  | warning =>
    simp only [findingsReach, decide_eq_true_eq, Nat.add_pos_iff_pos_or_pos, List.countP_pos_iff, List.mem_filter, reaches,
      and_assoc, ne_eq]
    constructor
    · rintro (⟨f, hf, hstate, hsev⟩ | ⟨f, hf, hstate, hsev⟩)
      · exact ⟨f, hf, hstate, .inl hsev⟩
      · exact ⟨f, hf, hstate, .inr hsev⟩
    · rintro ⟨f, hf, hstate, hsev | hsev⟩
      · exact .inl ⟨f, hf, hstate, hsev⟩
      · exact .inr ⟨f, hf, hstate, hsev⟩

/-! ## What the entries of a baseline are -/

/-- The findings a baseline counts under an identity. -/
def underID (fs : List Recorded) (id : String) : List Recorded := fs.filter fun g => !g.legacyUnserved && g.id = id

/-- The entry of the findings under one identity. -/
def entryOf (fs : List Recorded) : Entry where
  objects := fs.flatMap fun g => g.objects.map objectID
  total := wrap64 (fs.map Recorded.size).sum
  severity := (fs.map fun g => severityRank g.severity).foldl max 0

/-- Wrapping a sum's part first changes nothing. -/
theorem wrap64_wrap64_add (a b : ℤ) : wrap64 (wrap64 a + b) = wrap64 (a + b) := by
  unfold wrap64
  exact Int.bmod_add_bmod

/-- The entry of findings under one identity and one more. -/
theorem entryOf_concat (f : Recorded) :
    entryOf (fs ++ [f]) =
      { objects := (entryOf fs).objects ++ f.objects.map objectID
        total := wrap64 ((entryOf fs).total + f.size)
        severity := max (entryOf fs).severity (severityRank f.severity) } := by
  simp only [entryOf, List.flatMap_append, List.flatMap_singleton, List.map_append, List.map_singleton, List.sum_append,
    List.sum_singleton, List.foldl_append, List.foldl_cons, List.foldl_nil, wrap64_wrap64_add]

/-- Each identity's entry is that of the findings under it, and there is none without findings. -/
theorem baselineOf_eq (id : String) :
    baselineOf fs id = if underID fs id = [] then none else some (entryOf (underID fs id)) := by
  -- On the findings from the last: the loop appends to the entry that the ones before it left.
  induction fs using List.reverseRecOn with
  | nil => rfl
  | append_singleton fs f ih =>
    have hfold : baselineOf (fs ++ [f]) = (baselineOf fs).record f := by simp [baselineOf, List.foldl_append]
    have hunder : underID (fs ++ [f]) id = underID fs id ++ underID [f] id := by simp [underID, List.filter_append]
    rw [hfold, hunder]
    unfold Baseline.record
    by_cases hlegacy : f.legacyUnserved = true
    · rw [if_pos hlegacy, ih]
      simp [underID, hlegacy]
    rw [if_neg hlegacy]
    by_cases hid : f.id = id
    · subst hid
      have hself : underID [f] f.id = [f] := by simp [underID, hlegacy]
      have hne : underID fs f.id ++ [f] ≠ [] := List.append_ne_nil_of_right_ne_nil _ (List.cons_ne_nil _ _)
      rw [Function.update_self, hself, entryOf_concat, ih, if_neg hne]
      by_cases hnone : underID fs f.id = []
      · rw [if_pos hnone, hnone]
        rfl
      · rw [if_neg hnone, Option.getD_some]
    · have hother : underID [f] id = [] := by simp [underID, hid]
      rw [Function.update_of_ne (Ne.symm hid), hother, List.append_nil, ih]

/-! ## What is held -/

/-- A finding is held by an earlier report: findings under its identity had it at its severity or a higher one, named every
object it lists, and were at least as many. -/
structure Held (old : List Recorded) (f : Finding) : Prop where
  /-- One was at least as severe. -/
  severe : ∃ g ∈ underID old (recorded f).id, severityRank (some f.severity) ≤ severityRank g.severity
  /-- Every listed object was listed. -/
  objects : ∀ o ∈ f.objects, ∃ g ∈ underID old (recorded f).id, ∃ o' ∈ g.objects, objectID o' = objectID o
  /-- There were at least as many objects. -/
  total : (recorded f).size ≤ wrap64 ((underID old (recorded f).id).map Recorded.size).sum

/-- A number is at most the greatest of a list exactly when it is at most one of them. -/
theorem le_foldl_max {l : List ℕ} {n : ℕ} (hn : 0 < n) : n ≤ l.foldl max 0 ↔ ∃ m ∈ l, n ≤ m := by
  induction l using List.reverseRecOn with
  | nil => simp [Nat.pos_iff_ne_zero.mp hn]
  | append_singleton l m ih =>
    simp only [List.foldl_append, List.foldl_cons, List.foldl_nil, le_max_iff, ih, List.mem_append, List.mem_singleton]
    constructor
    · rintro (⟨x, hx, hle⟩ | hle)
      · exact ⟨x, .inl hx, hle⟩
      · exact ⟨m, .inr rfl, hle⟩
    · rintro ⟨x, hx | rfl, hle⟩
      · exact .inl ⟨x, hx, hle⟩
      · exact .inr hle

/-- Every severity of a finding ranks above none. -/
theorem severityRank_pos (s : Severity) : 0 < severityRank (some s) := by cases s <;> decide

/-- `Mark` leaves unchanged exactly the findings that the baseline's report holds. -/
theorem state_baselineOf (old : List Recorded) (f : Finding) :
    (baselineOf old).state f = .unchanged ↔ Held old f := by
  unfold Baseline.state
  rw [baselineOf_eq]
  have hsevere : severityRank (some f.severity) ≤ (entryOf (underID old (recorded f).id)).severity ↔
      ∃ g ∈ underID old (recorded f).id, severityRank (some f.severity) ≤ severityRank g.severity := by
    simp only [entryOf, le_foldl_max (severityRank_pos f.severity), List.mem_map, exists_exists_and_eq_and]
  have hobjects : (∀ o ∈ f.objects, objectID o ∈ (entryOf (underID old (recorded f).id)).objects) ↔
      ∀ o ∈ f.objects, ∃ g ∈ underID old (recorded f).id, ∃ o' ∈ g.objects, objectID o' = objectID o := by
    simp only [entryOf, List.mem_flatMap, List.mem_map]
  by_cases hnone : underID old (recorded f).id = []
  · rw [if_pos hnone]
    constructor
    · intro h
      cases h
    · intro h
      obtain ⟨g, hg, -⟩ := h.severe
      rw [hnone] at hg
      cases hg
  rw [if_neg hnone]
  dsimp only
  split_ifs with h
  · obtain ⟨hs, ht, ho⟩ := h
    exact iff_of_true rfl ⟨hsevere.mp hs, hobjects.mp ho, ht⟩
  · refine iff_of_false (by decide) fun held => h ?_
    exact ⟨hsevere.mpr held.severe, held.total, hobjects.mpr held.objects⟩

/-- What `Mark` says of a finding decides whether the gate counts it. -/
theorem gate_failed_iff {old : List Recorded} (h : failOn ≠ .never) :
    gate ((baselineOf old).mark r) failOn allowIncomplete = some .failed ↔
      ∃ f ∈ r.findings, reaches f.severity failOn = true ∧ ¬ Held old f := by
  have hreach : gate ((baselineOf old).mark r) failOn allowIncomplete = some .failed ↔
      findingsReach ((baselineOf old).mark r) failOn = true := by
    unfold gate
    rw [if_neg h]
    by_cases hr : findingsReach ((baselineOf old).mark r) failOn = true
    · rw [if_pos hr]
      exact iff_of_true rfl hr
    · rw [if_neg hr]
      refine iff_of_false ?_ hr
      cases ((baselineOf old).mark r).report.notAssessed.find? (·.capability = gapTarget) with
      | some g => simp
      | none =>
        dsimp only
        split_ifs <;> simp
  rw [hreach, findingsReach_iff h]
  simp only [Baseline.mark, List.mem_map, exists_exists_and_eq_and, ne_eq, Option.some.injEq, state_baselineOf]
  constructor
  · rintro ⟨f, hf, hstate, hsev⟩
    exact ⟨f, hf, hsev, hstate⟩
  · rintro ⟨f, hf, hsev, hstate⟩
    exact ⟨f, hf, hstate, hsev⟩

/-! ## A chain of baselines -/

/-- A finding is no worse than another: of its identity, at most as severe, about objects of the other, and no more of
them. -/
structure NoWorse (f g : Finding) : Prop where
  /-- They are the same problem. -/
  id : (recorded g).id = (recorded f).id
  /-- At most as severe. -/
  severity : severityRank (some f.severity) ≤ severityRank (some g.severity)
  /-- About objects the other lists. -/
  objects : ∀ o ∈ f.objects, ∃ o' ∈ g.objects, objectID o' = objectID o
  /-- About no more objects. -/
  total : f.objects.length + f.objectsOmitted ≤ g.objects.length + g.objectsOmitted

/-- A finding is no worse than itself. -/
theorem NoWorse.refl (f : Finding) : NoWorse f f := ⟨rfl, le_rfl, fun o ho => ⟨o, ho, rfl⟩, le_rfl⟩

/-- No worse than what is no worse. -/
theorem NoWorse.trans {f g h : Finding} (hfg : NoWorse f g) (hgh : NoWorse g h) : NoWorse f h where
  id := hgh.id.trans hfg.id
  severity := hfg.severity.trans hgh.severity
  objects o ho := by
    obtain ⟨o', ho', heq'⟩ := hfg.objects o ho
    obtain ⟨o'', ho'', heq''⟩ := hgh.objects o' ho'
    exact ⟨o'', ho'', heq''.trans heq'⟩
  total := hfg.total.trans hgh.total

/-- The reports of a scan: each identity once, with counts that `int` holds. -/
structure Counted (r : Report) : Prop where
  /-- No two findings have an identity in common. -/
  ids : (r.findings.map fun f => (recorded f).id).Nodup
  /-- What is not listed is counted from zero. -/
  omitted : ∀ f ∈ r.findings, 0 ≤ f.objectsOmitted
  /-- All of a finding's objects fit in an `int`. -/
  fits : ∀ f ∈ r.findings, f.objects.length + f.objectsOmitted ≤ maxInt

/-- A finding's size is the number of its objects. -/
theorem Counted.size (h : Counted r) (hf : f ∈ r.findings) :
    (recorded f).size = f.objects.length + f.objectsOmitted := by
  have homitted := h.omitted f hf
  have hfits := h.fits f hf
  have hlo : -2 ^ 63 ≤ (f.objects.length + f.objectsOmitted : ℤ) := by omega
  exact wrap64_of_range hlo hfits

/-- With each identity once, what is held is held by one finding. -/
theorem held_iff (h : Counted r) (h' : Counted r') (hf : f ∈ r'.findings) :
    Held (r.findings.map recorded) f ↔
      ∃ g ∈ r.findings, (recorded g).legacyUnserved = false ∧ NoWorse f g := by
  have hsingle : ∀ g ∈ r.findings, (recorded g).legacyUnserved = false → (recorded g).id = (recorded f).id →
      underID (r.findings.map recorded) (recorded f).id = [recorded g] := by
    intro g hg hlegacy hid
    have hfilter : underID (r.findings.map recorded) (recorded f).id =
        (r.findings.filter fun g' => !(recorded g').legacyUnserved && (recorded g').id = (recorded f).id).map recorded := by
      rw [underID, List.filter_map]
      rfl
    have honly : (r.findings.filter fun g' => !(recorded g').legacyUnserved && (recorded g').id = (recorded f).id) = [g] := by
      have hnodup : r.findings.Nodup := List.Nodup.of_map _ h.ids
      have hmem : ∀ g', g' ∈ r.findings.filter (fun g' => !(recorded g').legacyUnserved && (recorded g').id = (recorded f).id) ↔
          g' = g := by
        intro g'
        simp only [List.mem_filter, Bool.and_eq_true, Bool.not_eq_true', decide_eq_true_eq]
        constructor
        · rintro ⟨hg', -, hid'⟩
          exact List.inj_on_of_nodup_map h.ids hg' hg (hid'.trans hid.symm)
        · rintro rfl
          exact ⟨hg, hlegacy, hid⟩
      refine List.perm_singleton.mp ((List.perm_ext_iff_of_nodup (hnodup.filter _) (List.nodup_singleton g)).mpr fun g' => ?_)
      rw [hmem g', List.mem_singleton]
    rw [hfilter, honly]
    rfl
  constructor
  · intro held
    obtain ⟨g', hg', hsev⟩ := held.severe
    simp only [underID, List.mem_filter, List.mem_map, Bool.and_eq_true, Bool.not_eq_true', decide_eq_true_eq] at hg'
    obtain ⟨⟨g, hg, rfl⟩, hlegacy, hid⟩ := hg'
    have hunder := hsingle g hg hlegacy hid
    refine ⟨g, hg, hlegacy, hid, hsev, fun o ho => ?_, ?_⟩
    · obtain ⟨g'', hg'', o', ho', heq⟩ := held.objects o ho
      rw [hunder, List.mem_singleton] at hg''
      subst hg''
      exact ⟨o', ho', heq⟩
    · have htotal := held.total
      rw [hunder, List.map_singleton, List.sum_singleton, h'.size hf, h.size hg] at htotal
      have homitted := h.omitted g hg
      have hlo : -2 ^ 63 ≤ (g.objects.length + g.objectsOmitted : ℤ) := by omega
      rwa [wrap64_of_range hlo (h.fits g hg)] at htotal
  · rintro ⟨g, hg, hlegacy, hno⟩
    have hunder := hsingle g hg hlegacy hno.id
    refine ⟨⟨recorded g, ?_, hno.severity⟩, fun o ho => ?_, ?_⟩
    · rw [hunder]
      exact List.mem_singleton_self _
    · obtain ⟨o', ho', heq⟩ := hno.objects o ho
      exact ⟨recorded g, by rw [hunder]; exact List.mem_singleton_self _, o', ho', heq⟩
    · have homitted := h.omitted g hg
      have hlo : -2 ^ 63 ≤ (g.objects.length + g.objectsOmitted : ℤ) := by omega
      rw [hunder, List.map_singleton, List.sum_singleton, h'.size hf, h.size hg, wrap64_of_range hlo (h.fits g hg)]
      exact hno.total

/-- Reaching a threshold is kept by a severity that ranks higher. -/
theorem reaches_of_rank_le {s t : Severity} (h : severityRank (some s) ≤ severityRank (some t))
    (hs : reaches s failOn = true) : reaches t failOn = true := by
  revert h hs
  cases s <;> cases t <;> cases failOn <;> decide

/-- One scan of a pipeline, gated on the baseline that the scan before it wrote. -/
structure Passes (failOn : FailOn) (allowIncomplete : Bool) (r r' : Report) : Prop where
  /-- The report that the baseline was written from. -/
  before : Counted r
  /-- The report that is gated. -/
  after : Counted r'
  /-- The gate does not fail on findings. -/
  passes : ∃ b, writtenBaseline r = .ok b ∧ gate (b.mark r') failOn allowIncomplete ≠ some .failed

/-- What a passing scan says about each finding at the threshold. -/
theorem Passes.noWorse (hnever : failOn ≠ .never) (h : Passes failOn allowIncomplete r r') (hf : f ∈ r'.findings)
    (hreach : reaches f.severity failOn = true) :
    ∃ g ∈ r.findings, reaches g.severity failOn = true ∧ NoWorse f g := by
  have hheld : Held (r.findings.map recorded) f := by
    by_contra hnot
    obtain ⟨b, hb, hpassed⟩ := h.passes
    obtain rfl := Except.ok.inj ((writtenBaseline_eq r).symm.trans hb)
    exact hpassed ((gate_failed_iff hnever).mpr ⟨f, hf, hreach, hnot⟩)
  obtain ⟨g, hg, -, hno⟩ := (held_iff h.before h.after hf).mp hheld
  exact ⟨g, hg, reaches_of_rank_le hno.severity hreach, hno⟩

/-- A pipeline that gates every scan on the baseline of the one before it is a ratchet. However many scans pass, each finding
at the threshold of the last is no worse than one of the first: its key was there at its severity or a higher one, every
object it lists was listed, and there were at least as many. And no scan is held up for nothing: one whose findings at the
threshold are each no worse than one the baseline counts passes. -/
theorem baselines_ratchet {failOn : FailOn} {allowIncomplete : Bool} (hnever : failOn ≠ .never) :
    (∀ r₀ r : Report, Relation.ReflTransGen (Passes failOn allowIncomplete) r₀ r →
      ∀ f ∈ r.findings, reaches f.severity failOn = true → ∃ g ∈ r₀.findings, NoWorse f g) ∧
    (∀ r r' : Report, Counted r → Counted r' →
      (∀ f ∈ r'.findings, reaches f.severity failOn = true →
        ∃ g ∈ r.findings, (recorded g).legacyUnserved = false ∧ NoWorse f g) →
      Passes failOn allowIncomplete r r') := by
  refine ⟨fun r₀ r hrun => ?_, fun r r' hr hr' hno => ⟨hr, hr', _, writtenBaseline_eq r, fun hfailed => ?_⟩⟩
  · -- On the scans: the last one's finding is no worse than one of the scan before, which the scans up to it bound.
    induction hrun with
    | refl => exact fun f hf _ => ⟨f, hf, NoWorse.refl f⟩
    | tail _ hstep ih =>
      intro f hf hreach
      obtain ⟨g, hg, hgreach, hfg⟩ := hstep.noWorse hnever hf hreach
      obtain ⟨g₀, hg₀, hgg₀⟩ := ih g hg hgreach
      exact ⟨g₀, hg₀, hfg.trans hgg₀⟩
  · obtain ⟨f, hf, hreach, hnot⟩ := (gate_failed_iff hnever).mp hfailed
    exact hnot ((held_iff hr hr' hf).mpr (hno f hf hreach))

/-- A blocker about some Ingresses. -/
def removedIngresses (names : List String) : Finding where
  category := .removedAPI
  severity := .blocker
  key := "removed-api/networking.k8s.io/v1beta1/Ingress"
  title := "networking.k8s.io/v1beta1 Ingress is removed"
  detail := ""
  objects := names.map fun n => { «namespace» := "shop", name := n }

/-- A report with that blocker only. -/
def ingressReport (names : List String) : Report where
  clusterID := "c"
  target := ⟨1, 22⟩
  serverVersion := "v1.21.0"
  kbVersion := "kb"
  score := 75
  ready := false
  verdict := .blocked
  findings := [removedIngresses names]
  notAssessed := []

/-- A report with one blocker about at most two Ingresses has each identity once, and small counts. -/
theorem counted_ingressReport {names : List String} (h : names.length ≤ 2) : Counted (ingressReport names) where
  ids := List.nodup_singleton _
  omitted f hf := by
    rw [List.mem_singleton.mp hf]
    exact le_rfl
  fits f hf := by
    rw [List.mem_singleton.mp hf]
    simp only [removedIngresses, List.length_map, maxInt]
    omega

/-- One of two Ingresses is moved to the new API: the scan passes on the baseline, and the next one passes on its own. -/
theorem baselines_ratchet_ingresses :
    Relation.ReflTransGen (Passes .blocker false) (ingressReport ["a", "b"]) (ingressReport ["b"]) ∧
      ∃ g ∈ (ingressReport ["a", "b"]).findings, NoWorse (removedIngresses ["b"]) g := by
  have ratchet := @baselines_ratchet .blocker false (by decide)
  have hstep : Passes .blocker false (ingressReport ["a", "b"]) (ingressReport ["b"]) := by
    refine ratchet.2 _ _ (counted_ingressReport (by decide)) (counted_ingressReport (by decide)) fun f hf _ => ?_
    rw [List.mem_singleton.mp hf]
    exact ⟨removedIngresses ["a", "b"], List.mem_singleton_self _, by decide, by decide, by decide, by decide, by decide⟩
  exact ⟨.single hstep, ratchet.1 _ _ (.single hstep) _ (List.mem_singleton_self _) rfl⟩

end UpgradeScope.Suppress
