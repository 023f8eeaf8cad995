import UpgradeScope.Suppress.Order
import UpgradeScope.Engine.Budget
import UpgradeScope.Engine.Reorder

/-!
# How an accepted report looks

Accepting findings takes them out of a report's score and verdict. A finding whose objects alone were accepted gives up
its callers, though, and each of them that no rule accepts stands as a finding of its own, at its own severity. For the
reports of `evaluate` a caller is never more severe than the finding it was folded into, so the verdict gets no worse;
but one finding can give up any number of callers, so the score may drop. `apply_looks_no_worse` says when it does not:
when at each severity that counts no more callers stand than findings leave.
-/

namespace UpgradeScope

open Go Sorting Kb

/-- How good a verdict is: blocked is the worst, ready the best. -/
def Verdict.goodness : Verdict → ℕ
  | .blocked => 0
  | .unknown => 1
  | .ready => 2

/-- The findings of a severity. -/
def ofSeverity (sev : Severity) (fs : List Finding) : ℕ := fs.countP (·.severity = sev)

/-- More of a list's findings give no better score. -/
theorem score_le_score {fs gs : List Finding} (hblockers : ofSeverity .blocker gs ≤ ofSeverity .blocker fs)
    (hwarnings : ofSeverity .warning gs ≤ ofSeverity .warning fs) : score fs ≤ score gs := by
  unfold ofSeverity at hblockers hwarnings
  unfold score
  omega

/-- Findings that block only where the others do give no worse a verdict. -/
theorem goodness_le_goodness {fs gs : List Finding} (gaps : List CapabilityGap)
    (h : (∃ g ∈ gs, g.severity = .blocker) → ∃ f ∈ fs, f.severity = .blocker) :
    (verdictFor fs gaps).goodness ≤ (verdictFor gs gaps).goodness := by
  by_cases hfs : verdictFor fs gaps = .blocked
  · rw [hfs]
    exact Nat.zero_le _
  · -- Neither list blocks, so the gaps decide both verdicts.
    have hgs : verdictFor gs gaps ≠ .blocked := fun hb => hfs (verdictFor_eq_blocked.mpr (h (verdictFor_eq_blocked.mp hb)))
    have hsame : verdictFor fs gaps = verdictFor gs gaps := by
      unfold verdictFor at hfs hgs ⊢
      split_ifs at hfs hgs ⊢ <;> first | rfl | exact absurd rfl hfs | exact absurd rfl hgs
    rw [hsame]

/-! ## The callers of a report -/

section Callers

variable {fuel : ℕ} {X : External} {inv : Inventory} {k : KB} {target : Version} {now : Time} {rep : Report}

/-- A row folds only into a finding at least as severe. -/
theorem rank_le_of_mem_foldedInto {usage : List Finding} {calls : List (DeprecatedCall × Finding)} {j : ℕ}
    (hj : j < usage.length) {r : DeprecatedCall × Finding} (h : r ∈ foldedInto (placedCalls X inv usage calls) j) :
    usage[j].severity.rank ≤ r.2.severity.rank := by
  obtain ⟨x, hx, rfl⟩ := List.mem_map.mp h
  obtain ⟨hx, hindex⟩ := List.mem_filter.mp hx
  obtain ⟨r, -, rfl⟩ := List.mem_map.mp hx
  obtain ⟨-, hany⟩ := Option.filter_eq_some_iff.mp (of_decide_eq_true hindex)
  rw [List.getElem?_eq_getElem hj] at hany
  simpa using hany

/-- The callers of a finding with rows folded into it are those it had and the rows. -/
theorem mem_callers_withCallers {f : Finding} {rows : List (DeprecatedCall × Finding)} {c : Caller}
    (h : c ∈ (withCallers f rows).callers) : c ∈ f.callers ∨ ∃ r ∈ rows, c = callerOf r.1 r.2 := by
  unfold withCallers at h
  split_ifs at h
  · exact .inl h
  · rcases List.mem_append.mp h with h | h
    · exact .inl h
    · obtain ⟨r, hr, rfl⟩ := List.mem_map.mp h
      exact .inr ⟨r, hr, rfl⟩

/-- In a report no caller is more severe than the finding it was folded into. -/
theorem rank_le_callers_evaluate (h : evaluate fuel X inv k target now = some rep) {f : Finding} (hf : f ∈ rep.findings)
    {c : Caller} (hc : c ∈ f.callers) : f.severity.rank ≤ c.severity.rank := by
  rcases (mem_findings_evaluate h f).mp hf with hf | ⟨gs, hgs, g, hg, rfl⟩
  · rcases List.mem_append.mp hf with hf | hf
    · obtain ⟨j, hj, rfl⟩ := List.mem_mapIdx.mp hf
      rcases mem_callers_withCallers hc with hc | ⟨r, hr, rfl⟩
      · rw [callers_evalAPIUsage (List.getElem_mem hj)] at hc
        simp at hc
      · rw [(withCallers_fields _ _).2.2.1]
        exact rank_le_of_mem_foldedInto hj hr
    · -- A row that stands alone has no callers of its own.
      obtain ⟨x, hx, rfl⟩ := List.mem_map.mp hf
      obtain ⟨r, hr, rfl⟩ := List.mem_map.mp (List.mem_filter.mp hx).1
      rw [← readBack_of_mem hr] at hc
      simp [Caller.finding] at hc
  · rw [capNamespaces_callers, checks_callers hgs g hg] at hc
    simp at hc

end Callers

namespace Suppress

variable {X : External} {opts : Options} {f : Finding} {rules : List Rule}

/-! ## What leaves and what stands in its place -/

/-- The callers a finding gives up that no rule accepts: each stands as a finding of its own. -/
def standing (X : External) (opts : Options) (rules : List Rule) (f : Finding) : List Caller :=
  (applyFinding X opts rules f).callers.filter fun c => !namedWhole rules c.finding

/-- Nothing stays of the finding. -/
def leaves (X : External) (opts : Options) (rules : List Rule) (f : Finding) : Bool :=
  (applyFinding X opts rules f).kept.isNone

/-- What a finding leaves open: what stays of it, and the callers that stand. -/
theorem opened_eq (X : External) (opts : Options) (rules : List Rule) (f : Finding) :
    opened X opts rules f =
      (applyFinding X opts rules f).kept.toList ++ (standing X opts rules f).map Caller.finding := by
  unfold opened standing
  congr 1
  induction (applyFinding X opts rules f).callers with
  | nil => rfl
  | cons c cs ih =>
    rw [List.flatMap_cons, ih, kept_caller, List.filter_cons]
    cases namedWhole rules c.finding <;> simp

/-- What stays of a finding has its severity. -/
theorem severity_kept {g : Finding} (h : (applyFinding X opts rules f).kept = some g) : g.severity = f.severity := by
  rw [kept_applyFinding] at h
  unfold partKept at h
  split_ifs at h
  · rw [← Option.some.inj h]
  · rw [← Option.some.inj h]

/-- The account of one finding: what it leaves open and itself when it leaves are itself and the callers that stand. -/
theorem ofSeverity_opened (X : External) (opts : Options) (rules : List Rule) (sev : Severity) (f : Finding) :
    ofSeverity sev (opened X opts rules f) + ofSeverity sev (if leaves X opts rules f then [f] else []) =
      ofSeverity sev [f] + ofSeverity sev ((standing X opts rules f).map Caller.finding) := by
  rw [opened_eq]
  unfold ofSeverity leaves
  rw [List.countP_append]
  cases hkept : (applyFinding X opts rules f).kept with
  | none =>
    simp only [Option.toList_none, List.countP_nil, Option.isNone_none, if_true]
    omega
  | some g =>
    have hsame : [g].countP (·.severity = sev) = [f].countP (·.severity = sev) := by
      simp [List.countP_cons, severity_kept hkept]
    simp only [Option.toList_some, Option.isNone_some, Bool.false_eq_true, if_false, List.countP_nil, hsame]
    omega

/-- The account of a report's findings: those they leave open and those that leave are the findings and the callers that
stand. -/
theorem ofSeverity_flatMap_opened (X : External) (opts : Options) (rules : List Rule) (sev : Severity)
    (fs : List Finding) :
    ofSeverity sev (fs.flatMap (opened X opts rules)) + ofSeverity sev (fs.filter (leaves X opts rules)) =
      ofSeverity sev fs + ofSeverity sev (fs.flatMap fun f => (standing X opts rules f).map Caller.finding) := by
  induction fs with
  | nil => rfl
  | cons f fs ih =>
    have hone := ofSeverity_opened X opts rules sev f
    have hleaves : (f :: fs).filter (leaves X opts rules) =
        (if leaves X opts rules f then [f] else []) ++ fs.filter (leaves X opts rules) := by
      rw [List.filter_cons]
      split_ifs <;> rfl
    have hcons : ofSeverity sev (f :: fs) = ofSeverity sev [f] + ofSeverity sev fs := by
      unfold ofSeverity
      rw [← List.countP_append]
      rfl
    rw [hleaves, hcons, List.flatMap_cons, List.flatMap_cons]
    unfold ofSeverity at hone ih ⊢
    simp only [List.countP_append]
    omega

/-! ## The report -/

section Report

variable {fuel : ℕ} {inv : Inventory} {k : KB} {target : Version} {now : Time} {rep : Report}

/-- A report of `evaluate` is scored as its findings and gaps are. -/
theorem rescore_evaluate (h : evaluate fuel X inv k target now = some rep) :
    rep.score = score rep.findings ∧ rep.verdict = verdictFor rep.findings rep.notAssessed := by
  rw [evaluate_eq] at h
  obtain ⟨found, -, rfl⟩ := Option.map_eq_some_iff.mp h
  exact ⟨rfl, rfl⟩

/-- The score and the verdict that `apply` gives an evaluation are those of the findings it leaves. -/
theorem rescore_apply (h : evaluate fuel X inv k target now = some rep) (opts : Options) (rules : List Rule) :
    (apply X opts rep rules).1.score = score (apply X opts rep rules).1.findings ∧
      (apply X opts rep rules).1.verdict = verdictFor (apply X opts rep rules).1.findings rep.notAssessed := by
  rcases apply_cases X opts rep rules with ⟨-, heq⟩ | ⟨-, r', hgaps, heq⟩
  · rw [heq]
    exact rescore_evaluate h
  · rw [heq, ← hgaps]
    exact ⟨rfl, rfl⟩

/-- What stays open of a finding of `evaluate` blocks only if the finding does. -/
theorem blocker_of_mem_opened (h : evaluate fuel X inv k target now = some rep) (hf : f ∈ rep.findings) {g : Finding}
    (hg : g ∈ opened X opts rules f) (hblocks : g.severity = .blocker) : f.severity = .blocker := by
  rw [opened_eq] at hg
  rcases List.mem_append.mp hg with hg | hg
  · rw [← severity_kept (Option.mem_toList.mp hg)]
    exact hblocks
  · obtain ⟨c, hc, rfl⟩ := List.mem_map.mp hg
    have hmem : c ∈ f.callers := by
      have hc := (List.mem_filter.mp hc).1
      rw [callers_applyFinding] at hc
      split_ifs at hc
      · simp at hc
      · exact hc
    have hrank := rank_le_callers_evaluate h hf hmem
    have hcaller : c.severity = .blocker := hblocks
    rw [hcaller] at hrank
    cases hsev : f.severity with
    | blocker => rfl
    | warning => simp [hsev, Severity.rank] at hrank
    | info => simp [hsev, Severity.rank] at hrank

/-- At a severity, no more callers stand than findings leave. -/
def Replaces (X : External) (opts : Options) (rules : List Rule) (sev : Severity) (fs : List Finding) : Prop :=
  ofSeverity sev (fs.flatMap fun f => (standing X opts rules f).map Caller.finding) ≤
    ofSeverity sev (fs.filter (leaves X opts rules))

instance (X : External) (opts : Options) (rules : List Rule) (sev : Severity) (fs : List Finding) :
    Decidable (Replaces X opts rules sev fs) := inferInstanceAs (Decidable (_ ≤ _))

/-- An accepted report of `evaluate` has a verdict at least as good, and a score at least as high when no more callers
stand than findings leave, at the severities that count. -/
theorem apply_looks_no_worse (h : evaluate fuel X inv k target now = some rep) (opts : Options) (rules : List Rule) :
    rep.verdict.goodness ≤ (apply X opts rep rules).1.verdict.goodness ∧
      (Replaces X opts (activeRules X opts rules).1 .blocker rep.findings →
        Replaces X opts (activeRules X opts rules).1 .warning rep.findings →
        rep.score ≤ (apply X opts rep rules).1.score) := by
  set active := (activeRules X opts rules).1 with hactive
  have hopen := findings_apply X opts rep rules
  rw [(rescore_evaluate h).1, (rescore_evaluate h).2, (rescore_apply h opts rules).1, (rescore_apply h opts rules).2]
  constructor
  · refine goodness_le_goodness _ ?_
    rintro ⟨g, hg, hblocks⟩
    obtain ⟨f, hf, hg⟩ := List.mem_flatMap.mp (hopen.mem_iff.mp hg)
    exact ⟨f, hf, blocker_of_mem_opened h hf hg hblocks⟩
  · intro hblockers hwarnings
    have hcount : ∀ sev, Replaces X opts active sev rep.findings →
        ofSeverity sev (apply X opts rep rules).1.findings ≤ ofSeverity sev rep.findings := by
      intro sev hsev
      have haccount := ofSeverity_flatMap_opened X opts active sev rep.findings
      have hperm : ofSeverity sev (apply X opts rep rules).1.findings =
          ofSeverity sev (rep.findings.flatMap (opened X opts active)) := hopen.countP_eq _
      unfold Replaces at hsev
      omega
    exact score_le_score (hcount .blocker hblockers) (hcount .warning hwarnings)

end Report

/-- A cluster with a listed Ingress, and clients that request the API of Ingresses and subresources of it. -/
def requestedCluster (subresources : List String) : Inventory where
  serverVersion := "v1.21.0"
  apiUsage := [oneObject "extensions" "v1beta1" "Ingress"]
  deprecatedCalls := subresources.map fun sub =>
    { group := "extensions", version := "v1beta1", resource := "ingresses", subresource := sub }

/-- The team of a namespace accepts the removed APIs of its objects. -/
def shopRule : Rule := { category := "removed-api", «namespace» := "shop", reason := "migrates next week" }

/-- With one client the client's finding takes the place of the Ingress' finding. -/
theorem apply_looks_no_worse_one_client :
    ∃ rep, evaluate 0 .ascii (requestedCluster [""]) ingressKB ⟨1, 22⟩ 0 = some rep ∧ rep.score = 75 ∧
      rep.verdict.goodness ≤ (apply .ascii { now := 0 } rep [shopRule]).1.verdict.goodness ∧
      rep.score ≤ (apply .ascii { now := 0 } rep [shopRule]).1.score := by
  have hany : (evaluate 0 .ascii (requestedCluster [""]) ingressKB ⟨1, 22⟩ 0).any (fun rep => rep.score = 75 ∧
      Replaces .ascii { now := 0 } (activeRules .ascii { now := 0 } [shopRule]).1 .blocker rep.findings ∧
      Replaces .ascii { now := 0 } (activeRules .ascii { now := 0 } [shopRule]).1 .warning rep.findings) = true := by
    decide +kernel
  obtain ⟨rep, hrep, hall⟩ := (Option.any_eq_true _ _).mp hany
  obtain ⟨hscore, hblockers, hwarnings⟩ := of_decide_eq_true hall
  obtain ⟨hverdict, hhigher⟩ := apply_looks_no_worse hrep { now := 0 } [shopRule]
  exact ⟨rep, hrep, hscore, hverdict, hhigher hblockers hwarnings⟩

/-- With two clients of one Ingress two findings stand for one, and the score drops from 75 to 50. -/
theorem apply_lowers_score :
    ∃ rep, evaluate 0 .ascii (requestedCluster ["", "status"]) ingressKB ⟨1, 22⟩ 0 = some rep ∧ rep.score = 75 ∧
      (apply .ascii { now := 0 } rep [shopRule]).1.score = 50 ∧
      ¬ rep.score ≤ (apply .ascii { now := 0 } rep [shopRule]).1.score := by
  have hany : (evaluate 0 .ascii (requestedCluster ["", "status"]) ingressKB ⟨1, 22⟩ 0).any (fun rep =>
      rep.score = 75 ∧ (apply .ascii { now := 0 } rep [shopRule]).1.score = 50) = true := by decide +kernel
  obtain ⟨rep, hrep, hall⟩ := (Option.any_eq_true _ _).mp hany
  obtain ⟨hscore, hafter⟩ := of_decide_eq_true hall
  refine ⟨rep, hrep, hscore, hafter, ?_⟩
  rw [hscore, hafter]
  decide

end Suppress

end UpgradeScope
