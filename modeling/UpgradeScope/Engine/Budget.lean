import UpgradeScope.Engine.Evaluate

/-!
# Evaluating within a limit

`internal/engine/budget.go`: the checks stop in the middle of their loops once the budget is over, and
the fold changes findings after they were charged. The charged size of a report is defined from the
report alone (`chargedSize`), and the accounting shows that a bounded evaluation is the unbounded one
exactly when that size is within the limit, and the error otherwise.
-/

namespace UpgradeScope

open Go Sorting Kb Meter

/-! ## The charged size of a report -/

/-- What a folded caller was charged: the finding its row had, and the API it repeats. -/
def chargedCaller (c : Caller) : ℕ :=
  findingSize c.finding + (byteLen c.group + byteLen c.version + byteLen c.resource + byteLen c.subresource)

/-- What a finding was charged: itself with the sentence the fold adds, and its folded callers. -/
def chargedFinding (f : Finding) : ℕ :=
  findingSize { f with callers := [] } + (f.callers.map chargedCaller).sum

/-- What a report was charged: its base, findings, gaps and unrecognized images. -/
def chargedSize (r : Report) : ℕ :=
  12 * fieldOverhead + byteLen r.clusterID + byteLen r.serverVersion + byteLen r.kbVersion +
    (r.findings.map chargedFinding).sum + (r.notAssessed.map gapSize).sum +
    (r.unrecognizedImages.map fun img => byteLen img + 3).sum

/-- A folded caller takes no more than it was charged. -/
theorem callerSize_le_chargedCaller (c : Caller) : callerSize c ≤ chargedCaller c := by
  simp only [callerSize, chargedCaller, Caller.finding, findingSize]
  omega

/-- A finding takes no more than it was charged. -/
theorem findingSize_le_chargedFinding (f : Finding) : findingSize f ≤ chargedFinding f := by
  have hcallers : (f.callers.map callerSize).sum ≤ (f.callers.map chargedCaller).sum :=
    List.sum_le_sum fun c _ => callerSize_le_chargedCaller c
  simp only [chargedFinding, findingSize, List.map_nil, List.sum_nil]
  omega

variable {target : Version} {X : External} {f : Finding} {inv : Inventory} {k : KB} {now : Time} {fs : List Finding}
  {fuel : ℕ} {rel : HelmRelease}

/-- A finding without folded callers was charged its size. -/
theorem chargedFinding_of_callers_nil (h : f.callers = []) :
    chargedFinding f = findingSize f := by
  obtain ⟨⟩ := f
  simp only at h
  subst h
  simp [chargedFinding]

/-! ## No check but the fold sets callers -/

/-- The findings of the installs of one add-on have no callers. -/
theorem addOnFindings_callers {a : Registry.AddOn} {labels node : Bool} {ins : List AddOnInstall}
    (h : f ∈ addOnFindings X a target now labels ins node) : f.callers = [] := by
  rcases mem_addOnFindings.mp h with h | ⟨s, -, h | h | h⟩
  · obtain ⟨cat, sev, title, more, -, rfl⟩ := productFinding_eq_some h
    rfl
  · simp only [lineFinding] at h
    split_ifs at h
    obtain ⟨_, -, rfl⟩ := Option.map_eq_some_iff.mp h
    rfl
  · obtain ⟨title, detail, citations, rfl⟩ := evalAddOnCompat_eq_some h
    rfl
  · obtain ⟨-, -, -, title, detail, rfl⟩ := noDataFinding_eq_some h
    rfl

/-- The findings of the add-on checks have no callers. -/
theorem evalAddOns_callers (h : f ∈ evalAddOns X k target now inv) : f.callers = [] := by
  simp only [evalAddOns, evalNodeRuntimes, List.mem_append, List.mem_flatMap] at h
  rcases h with ⟨id, -, h⟩ | ⟨a, -, h⟩
  · split at h
    · simp at h
    · exact addOnFindings_callers h
  · split_ifs at h
    · simp at h
    · exact addOnFindings_callers h

/-- The finding of a chart's constraint has no callers. -/
theorem evalChartKubeVersion_callers (h : evalChartKubeVersion X target rel = some f) : f.callers = [] := by
  simp only [evalChartKubeVersion] at h
  split_ifs at h
  split at h
  · obtain rfl := Option.some.inj h
    rfl
  · split_ifs at h
    obtain rfl := Option.some.inj h
    rfl

/-- The finding of a stored manifest's rows has no callers. -/
theorem bucketFinding_callers {rows : List ManifestRow} {cat : Category} {sev : Severity}
    (h : bucketFinding k target rel rows cat sev = some f) : f.callers = [] := by
  unfold bucketFinding at h
  by_cases hrows : rows.isEmpty = true
  · simp [List.isEmpty_iff.mp hrows] at h
  · rw [if_neg (by simpa using hrows)] at h
    obtain rfl := Option.some.inj h
    rfl

/-- The findings of Helm releases have no callers. -/
theorem evalHelmReleases_callers (h : f ∈ evalHelmReleases X k target inv) : f.callers = [] := by
  simp only [evalHelmReleases, releaseFindings, evalHelmManifest, List.mem_flatMap] at h
  obtain ⟨rel, -, h⟩ := h
  by_cases hin : helmInstalled rel = true
  · rw [if_neg (not_not.mpr hin)] at h
    obtain ⟨g, hg, rfl⟩ := List.mem_map.mp h
    show g.callers = []
    simp only [List.mem_append, Option.mem_toList] at hg
    rcases hg with hg | hg | hg
    · exact evalChartKubeVersion_callers hg
    · exact bucketFinding_callers hg
    · exact bucketFinding_callers hg
  · rw [if_pos hin] at h
    simp at h

/-- The kubelet findings have no callers. -/
theorem evalSkew_callers (h : f ∈ evalSkew X inv k target) : f.callers = [] := by
  unfold evalSkew at h
  split at h
  · simp at h
  · dsimp only at h
    simp only [List.mem_append] at h
    rcases h with ((h | h) | h) | h
    all_goals
      rw [eq_of_mem_unless h]
      rfl

/-- The findings of control-plane components have no callers. -/
theorem evalControlPlaneSkew_callers (h : f ∈ evalControlPlaneSkew X inv k target) : f.callers = [] := by
  unfold evalControlPlaneSkew at h
  split_ifs at h
  · simp at h
  · dsimp only at h
    simp only [List.mem_append] at h
    rcases h with (h | h) | h
    · rw [eq_of_mem_unless h]
      rfl
    · unfold haSpreadFinding at h
      split at h
      · dsimp only at h
        split_ifs at h
        · rw [List.mem_singleton.mp h]
          rfl
        · simp at h
      · simp at h
    · split at h
      · simp at h
      · obtain ⟨rule, -, hr⟩ := List.mem_flatMap.mp h
        simp only [componentFindings, List.mem_append] at hr
        rcases hr with hr | hr
        all_goals
          rw [eq_of_mem_unless hr]
          rfl

/-- The upgrade-path finding has no callers. -/
theorem evalUpgradePath_callers (h : evalUpgradePath X fuel inv target = some fs) :
    ∀ f ∈ fs, f.callers = [] := by
  intro f hf
  obtain rfl | ⟨title, detail, rfl⟩ := evalUpgradePath_eq_some h
  · simp at hf
  · rw [List.mem_singleton.mp hf]
    rfl

/-- The findings about CRD versions have no callers. -/
theorem evalCRDVersions_callers (h : f ∈ evalCRDVersions X inv target) : f.callers = [] := by
  simp only [evalCRDVersions, crdFindings, List.mem_flatMap, List.mem_append] at h
  obtain ⟨c, -, (h | h) | h⟩ := h
  · obtain ⟨v, -, rfl⟩ := List.mem_map.mp h
    unfold deprecatedVersionFinding
    dsimp only
    split <;> rfl
  · obtain ⟨u, -, rfl⟩ := List.mem_map.mp h
    rfl
  · obtain ⟨v, -, rfl⟩ := List.mem_map.mp h
    rfl

/-- The findings of every check after the fold have no callers. -/
theorem checks_callers (h : some fs ∈ checks fuel X inv k target now) :
    ∀ f ∈ fs, f.callers = [] := by
  simp only [checks, List.mem_cons, Option.some.injEq, List.not_mem_nil, or_false] at h
  rcases h with rfl | rfl | rfl | rfl | rfl | rfl | rfl | rfl | h | rfl | rfl | rfl
  · intro f hf
    obtain ⟨u, -, hu⟩ := List.mem_filterMap.mp hf
    unfold authorshipFinding at hu
    split at hu
    · cases hu
    · split_ifs at hu
      obtain rfl := Option.some.inj hu
      rfl
  · exact fun f hf => evalAddOns_callers hf
  · intro f hf
    obtain ⟨g, -, rfl⟩ := mem_evalUncoveredRuntimes hf
    rfl
  · exact fun f hf => evalHelmReleases_callers hf
  · exact fun f hf => evalSkew_callers hf
  · exact fun f hf => evalControlPlaneSkew_callers hf
  · intro f hf
    obtain ⟨g, -, rfl⟩ := List.mem_map.mp hf
    rfl
  · intro f hf
    rw [eq_of_mem_unless hf]
  · exact evalUpgradePath_callers h.symm
  · intro f hf
    obtain ⟨id, server, phase, sev, title, detail, remediation, citations, rfl⟩ := mem_evalSupport hf
    rfl
  · exact fun f hf => evalCRDVersions_callers hf
  · intro f hf
    obtain ⟨u, -, hu⟩ := List.mem_filterMap.mp hf
    unfold volumeFinding at hu
    by_cases hcount : u.count ≤ 0
    · simp [hcount] at hu
    · rw [if_neg hcount] at hu
      obtain ⟨p, -, rfl⟩ := Option.map_eq_some_iff.mp hu
      rfl

/-! ## What the fold charges -/

/-- The API a folded row repeats on the usage finding. -/
def apiLen (c : DeprecatedCall) : ℕ :=
  byteLen c.group + byteLen c.version + byteLen c.resource + byteLen c.subresource

/-- What the sentence about folded rows adds to a finding. -/
def sentenceLen (rows : List (DeprecatedCall × Finding)) : ℕ :=
  if rows = [] then 0 else byteLen (foldSentence (rows.map (·.1)))

/-- The finding of a caller's row is read back from the caller it becomes. -/
def ReadBack (r : DeprecatedCall × Finding) : Prop := (callerOf r.1 r.2).finding = r.2

/-- Every judged row reads back. -/
theorem readBack_of_mem {r : DeprecatedCall × Finding} (h : r ∈ evalDeprecatedCalls X inv k target) : ReadBack r := by
  obtain ⟨c, -, rfl⟩ := List.mem_map.mp h
  exact finding_callerOf X k target c

/-- The findings of usage rows have no callers before the fold. -/
theorem callers_evalAPIUsage (h : f ∈ (evalAPIUsage k target inv).map capNamespaces) : f.callers = [] := by
  obtain ⟨g, hg, rfl⟩ := List.mem_map.mp h
  obtain ⟨u, -, hu⟩ := List.mem_filterMap.mp hg
  rw [capNamespaces_callers]
  exact (usageFinding_eq_some k target hu).2.2.2.2

/-- A usage finding with rows folded into it was charged its own size, its sentence, and each row. -/
theorem chargedFinding_withCallers {rows : List (DeprecatedCall × Finding)} (hf : f.callers = [])
    (hrows : ∀ r ∈ rows, ReadBack r) :
    chargedFinding (withCallers f rows) =
      findingSize f + (sentenceLen rows + (rows.map fun r => findingSize r.2 + apiLen r.1).sum) := by
  unfold withCallers sentenceLen
  by_cases hnil : rows = []
  · subst hnil
    simp [chargedFinding_of_callers_nil hf]
  · rw [if_neg hnil, if_neg hnil]
    have hcallers : ((rows.map fun r => callerOf r.1 r.2).map chargedCaller).sum =
        (rows.map fun r => findingSize r.2 + apiLen r.1).sum := by
      rw [List.map_map]
      refine congrArg List.sum (List.map_congr_left fun r hr => ?_)
      show chargedCaller (callerOf r.1 r.2) = _
      unfold chargedCaller
      rw [hrows r hr]
      rfl
    have hdetail : byteLen (f.detail ++ foldSentence (rows.map (·.1))) =
        byteLen f.detail + byteLen (foldSentence (rows.map (·.1))) := String.utf8ByteSize_append ..
    simp only [chargedFinding, findingSize, hf, List.nil_append, List.map_nil, List.sum_nil, hcallers,
      hdetail]
    omega

/-- A row folds into a finding that exists. -/
theorem foldIndex_lt {rows : List APIUsage} {usage : List Finding} {c : DeprecatedCall} {call : Finding} {j : ℕ}
    (h : foldIndex X rows usage c call = some j) : j < usage.length := by
  unfold foldIndex at h
  obtain ⟨-, hj⟩ := Option.filter_eq_some_iff.mp h
  by_contra hge
  rw [List.getElem?_eq_none (not_lt.mp hge)] at hj
  simp at hj

section FoldAccount

variable {X : External} {inv : Inventory} {usage : List Finding}
    {calls : List (DeprecatedCall × Finding)}

/-- The rows folded into one finding are rows. -/
theorem mem_of_mem_foldedInto {j : ℕ} {r : DeprecatedCall × Finding}
    (h : r ∈ foldedInto (placedCalls X inv usage calls) j) : r ∈ calls := by
  obtain ⟨x, hx, rfl⟩ := List.mem_map.mp h
  obtain ⟨hx, -⟩ := List.mem_filter.mp hx
  obtain ⟨r, hr, rfl⟩ := List.mem_map.mp hx
  exact hr

/-- The sentences, finding by finding, are those of the distinct findings with rows. -/
theorem sum_sentenceLen :
    ((List.range usage.length).map fun j =>
        sentenceLen (foldedInto (placedCalls X inv usage calls) j)).sum =
      ((distinctOn id ((placedCalls X inv usage calls).filterMap (·.2))).map fun j =>
        byteLen (foldSentence ((foldedInto (placedCalls X inv usage calls) j).map (·.1)))).sum := by
  set placed := placedCalls X inv usage calls with hplaced
  have hmem : ∀ j, j ∈ placed.filterMap (·.2) ↔ foldedInto placed j ≠ [] := by
    intro j
    unfold foldedInto
    simp [List.filter_eq_nil_iff]
  rw [sum_distinctOn_id (n := usage.length) (placed.filterMap (·.2))]
  · refine congrArg List.sum (List.map_congr_left fun j hj => ?_)
    have hne := (hmem j).mp (mem_of_mem_distinctOn hj)
    simp [sentenceLen, hne]
  · intro j hj
    obtain ⟨r, hr, hrj⟩ := List.mem_filterMap.mp hj
    rw [hplaced] at hr
    obtain ⟨r, -, rfl⟩ := List.mem_map.mp hr
    exact foldIndex_lt hrj
  · intro j hj
    rw [hmem, not_not] at hj
    simp [sentenceLen, hj]

/-- The findings of the fold were charged as the usage findings, the rows, and what the fold
charges: no byte escapes the accounting. -/
theorem sum_chargedFinding_fold (husage : ∀ f ∈ usage, f.callers = [])
    (hcalls : ∀ r ∈ calls, ReadBack r) :
    ((foldDeprecatedCalls X inv usage calls).map chargedFinding).sum =
      (usage.map findingSize).sum + (calls.map fun r => findingSize r.2).sum +
        (foldCharges X inv usage calls).sum := by
  set placed := placedCalls X inv usage calls with hplaced
  have hlt : ∀ r ∈ placed, ∀ j, r.2 = some j → j < usage.length := by
    intro r hr j hj
    obtain ⟨r, -, rfl⟩ := List.mem_map.mp (hplaced ▸ hr)
    exact foldIndex_lt hj
  -- The usage findings with their rows.
  have hfolded : ((usage.mapIdx fun j f => withCallers f (foldedInto placed j)).map chargedFinding).sum =
      (usage.map findingSize).sum + (((List.range usage.length).map fun j =>
        sentenceLen (foldedInto placed j)).sum +
      ((placed.filter fun r => r.2 ≠ none).map fun r => findingSize r.1.2 + apiLen r.1.1).sum) := by
    have hrow : (usage.mapIdx fun j f => withCallers f (foldedInto placed j)).map chargedFinding =
        usage.mapIdx fun j f => findingSize f + (sentenceLen (foldedInto placed j) +
          ((foldedInto placed j).map fun r => findingSize r.2 + apiLen r.1).sum) := by
      refine List.ext_getElem (by simp) fun j h1 h2 => ?_
      simp only [List.getElem_map, List.getElem_mapIdx]
      exact chargedFinding_withCallers (husage _ (List.getElem_mem _))
        fun r hr => hcalls r (mem_of_mem_foldedInto hr)
    have hgroups := sum_range_filter placed (fun r => findingSize r.2 + apiLen r.1) hlt
    rw [hrow, sum_mapIdx_add, List.sum_map_add, ← hgroups]
    simp only [foldedInto, List.map_map, Function.comp_def]
  -- The rows that stand alone.
  have halone : (((placed.filter fun r => r.2 = none).map (·.1.2)).map chargedFinding).sum =
      ((placed.filter fun r => r.2 = none).map fun r => findingSize r.1.2).sum := by
    rw [List.map_map]
    refine congrArg List.sum (List.map_congr_left fun r hr => ?_)
    obtain ⟨r, hr', rfl⟩ := List.mem_map.mp (hplaced ▸ (List.mem_filter.mp hr).1)
    have hnil : r.2.callers = [] := by
      rw [← hcalls r hr']
      rfl
    exact chargedFinding_of_callers_nil hnil
  have hall : (calls.map fun r => findingSize r.2).sum =
      ((placed.filter fun r => r.2 ≠ none).map fun r => findingSize r.1.2).sum +
        ((placed.filter fun r => r.2 = none).map fun r => findingSize r.1.2).sum := by
    have hsplit := sum_filter_add (fun r : (DeprecatedCall × Finding) × Option ℕ => findingSize r.1.2)
      (fun r => decide (r.2 ≠ none)) placed
    have hmap : (placed.map fun r => findingSize r.1.2) = calls.map fun r => findingSize r.2 := by
      simp [hplaced, placedCalls, Function.comp_def]
    rw [← hmap, ← hsplit]
    simp
  unfold foldDeprecatedCalls foldCharges
  dsimp only
  rw [← hplaced, List.map_append, List.sum_append, hfolded, halone, List.sum_append, ← sum_sentenceLen,
    ← hplaced, hall, List.sum_map_add]
  simp only [apiLen]
  omega

end FoldAccount

/-! ## The run within a limit -/

section Within

variable {fuel : ℕ} {X : External} {inv : Inventory} {k : KB} {target : Version} {now : Time}

/-- What the API checks charge in all. -/
def apiCost (X : External) (inv : Inventory) (k : KB) (target : Version) : ℕ :=
  (((evalAPIUsage k target inv).map capNamespaces).map findingSize).sum +
    ((evalDeprecatedCalls X inv k target).map fun r => findingSize r.2).sum +
    (foldCharges X inv ((evalAPIUsage k target inv).map capNamespaces)
      (evalDeprecatedCalls X inv k target)).sum

/-- What the findings of the other checks charge. -/
def checkCost (fs : List Finding) : ℕ := ((fs.map capNamespaces).map findingSize).sum

variable {fs : List Finding} {limit : ℤ} {b : Budget} {cs : List (Option (List Finding))} {n : ℕ}

/-- The API checks spend their whole cost, as far as being over goes, and have found everything when
the budget is not over. -/
theorem apiFindings_spent (X : External) (inv : Inventory) (k : KB) (target : Version) (h : Spent limit n b) :
    ∃ b', (apiFindings X inv k target (some b)).2 = some b' ∧
      Spent limit (n + apiCost X inv k target) b' ∧
      (b'.isOver = false →
        (apiFindings X inv k target (some b)).1 = foldedFindings X inv k target) := by
  unfold apiFindings addFindings apiCost foldedFindings
  set usage := (evalAPIUsage k target inv).map capNamespaces
  set calls := evalDeprecatedCalls X inv k target
  obtain ⟨b₁, hb₁, hs₁, hall₁⟩ := h.addEach findingSize usage
  dsimp only
  rw [hb₁, ← Nat.add_assoc, ← Nat.add_assoc]
  cases hover₁ : b₁.isOver with
  | true =>
    -- Neither the callers nor the fold run.
    have hex : exceeded (some b₁) = true := by simp [exceeded, hover₁]
    refine ⟨b₁, by simp [hex], (hs₁.of_isOver hover₁ _).of_isOver hover₁ _, by simp [hover₁]⟩
  | false =>
    have hex : exceeded (some b₁) = false := by simp [exceeded, hover₁]
    obtain ⟨b₂, hb₂, hs₂, hall₂⟩ := hs₁.addEach (fun r => findingSize r.2) calls
    simp only [hex, Bool.false_eq_true, if_false, hb₂]
    cases hover₂ : b₂.isOver with
    | true =>
      have hex₂ : exceeded (some b₂) = true := by simp [exceeded, hover₂]
      refine ⟨b₂, by simp [hex₂], hs₂.of_isOver hover₂ _, by simp [hover₂]⟩
    | false =>
      have hex₂ : exceeded (some b₂) = false := by simp [exceeded, hover₂]
      rw [hall₁ hover₁, hall₂ hover₂]
      obtain ⟨b₃, hb₃, hs₃, -⟩ := hs₂.addEach id (foldCharges X inv usage calls)
      simp only [hex₂, Bool.false_eq_true, if_false, hb₃]
      refine ⟨b₃, rfl, by simpa using hs₃, fun hover₃ => ?_⟩
      simp [exceeded, hover₃]

/-- A run of checks that do not all end does not end in a report. -/
theorem runChecks_of_collect_none (b : Budget) (found : List Finding) (h : collect cs = none) :
    runChecks (some b) found cs = none ∨ runChecks (some b) found cs = some (.error .tooLarge) := by
  induction cs generalizing b found with
  | nil => simp [collect] at h
  | cons check rest ih =>
    by_cases hex : exceeded (some b) = true
    · exact Or.inr (by rw [runChecks.eq_def]; simp [hex])
    · cases check with
      | none => exact Or.inl (by rw [runChecks, if_neg hex])
      | some fs =>
        have hrest : collect rest = none := by simpa [collect] using h
        obtain ⟨b', hb'⟩ := Option.isSome_iff_exists.mp
          (isSome_addEach findingSize b (fs.map capNamespaces))
        rw [runChecks, if_neg hex]
        simp only [addFindings, hb']
        exact ih _ _ hrest

/-- A run of checks that all end either stops over the limit, or spends their whole cost and has
found everything when the budget is not over. -/
theorem runChecks_spent {found all : List Finding} (h : Spent limit n b) (hfound : b.isOver = false → found = all)
    (hcs : collect cs = some fs) :
    (runChecks (some b) found cs = some (.error .tooLarge) ∧ limit < (n + checkCost fs : ℕ)) ∨
      ∃ out b', runChecks (some b) found cs = some (.ok (out, some b')) ∧
        Spent limit (n + checkCost fs) b' ∧
        (b'.isOver = false → out = all ++ fs.map capNamespaces) := by
  induction cs generalizing n b found all fs with
  | nil =>
    obtain rfl : [] = fs := by simpa [collect] using hcs
    exact Or.inr ⟨found, b, rfl, by simpa [checkCost] using h, fun hb => by simp [hfound hb]⟩
  | cons check rest ih =>
    cases check with
    | none => simp [collect] at hcs
    | some gs =>
      obtain ⟨rs, hrs, rfl⟩ : ∃ rs, collect rest = some rs ∧ gs ++ rs = fs := by
        simpa [collect] using hcs
      have hcost : n + checkCost (gs ++ rs) = n + checkCost gs + checkCost rs := by
        simp [checkCost, Nat.add_assoc]
      rw [runChecks, hcost]
      cases hover : b.isOver with
      -- Over the limit already: the loop stops, and what is left could only add to it.
      | true =>
        have hlt := h.isOver_iff.mp hover
        refine Or.inl ⟨by simp [exceeded, hover], ?_⟩
        push_cast
        omega
      | false =>
        obtain ⟨b', hb', hs', hall'⟩ := h.addEach findingSize (gs.map capNamespaces)
        have hex : ¬ exceeded (some b) = true := by simp [exceeded, hover]
        rw [if_neg hex]
        simp only [addFindings, hb']
        have hfound' : b'.isOver = false →
            found ++ (addEach findingSize (some b) (gs.map capNamespaces)).1 =
              all ++ gs.map capNamespaces := fun hno => by rw [hall' hno, hfound hover]
        have hstep := ih hs' hfound' hrs
        rw [List.map_append, ← List.append_assoc]
        exact hstep

/-- The charged size of an evaluation's report is what the checks, the gaps and the images charge. -/
theorem chargedSize_reportOf (h : collect (checks fuel X inv k target now) = some fs) :
    chargedSize (reportOf X inv k target now (foldedFindings X inv k target ++ fs.map capNamespaces)) =
      reportBaseSize inv k + apiCost X inv k target + checkCost fs +
        ((assessmentGaps X inv k target).map gapSize ++
          (listedImages inv).map fun img => byteLen img + 3).sum := by
  have hfold : ((foldedFindings X inv k target).map chargedFinding).sum = apiCost X inv k target :=
    sum_chargedFinding_fold (fun f hf => callers_evalAPIUsage hf) fun r hr => readBack_of_mem hr
  have hchecks : ((fs.map capNamespaces).map chargedFinding).sum = checkCost fs := by
    refine congrArg List.sum (List.map_congr_left fun g hg => ?_)
    obtain ⟨f, hf, rfl⟩ := List.mem_map.mp hg
    obtain ⟨gs, hgs, hf⟩ := (mem_collect h).mp hf
    exact chargedFinding_of_callers_nil (by rw [capNamespaces_callers, checks_callers hgs f hf])
  have hsorted : ((sortFindings (foldedFindings X inv k target ++ fs.map capNamespaces)).map
      chargedFinding).sum = apiCost X inv k target + checkCost fs := by
    rw [sortFindings, ((sortOn_perm findingOrder _).map chargedFinding).sum_eq, List.map_append, List.sum_append,
      hfold, hchecks]
  unfold chargedSize reportOf reportBaseSize
  dsimp only
  rw [hsorted, List.sum_append]
  omega

/-- Where the checks end, a bounded evaluation is the report within the limit, else the error. -/
theorem evaluateWithin_of_collect (limit : ℤ) (h : collect (checks fuel X inv k target now) = some fs) :
    let r := reportOf X inv k target now (foldedFindings X inv k target ++ fs.map capNamespaces)
    evaluateWithin fuel X inv k target now limit =
      some (if (chargedSize r : ℤ) ≤ limit then .ok r else .error .tooLarge) := by
  intro r
  have hsize : chargedSize r = _ := chargedSize_reportOf h
  obtain ⟨b₁, hb₁, hs₁, hall₁⟩ :=
    apiFindings_spent X inv k target
      (Spent.start limit (reportBaseSize inv k))
  unfold evaluateWithin evaluateIn
  dsimp only
  set rest := (assessmentGaps X inv k target).map gapSize ++
    (listedImages inv).map fun img => byteLen img + 3 with hrest
  change (runChecks (apiFindings X inv k target (some ((Budget.start limit).charge (reportBaseSize inv k)))).2
    (apiFindings X inv k target (some ((Budget.start limit).charge (reportBaseSize inv k)))).1 _).map _ = _
  rw [hb₁]
  rcases runChecks_spent hs₁ hall₁ h with ⟨herr, hlt⟩ | ⟨out, b₂, hok, hs₂, hall₂⟩
  · have hbig : ¬ (chargedSize r : ℤ) ≤ limit := by
      rw [hsize]
      omega
    rw [herr, if_neg hbig]
    rfl
  · obtain ⟨b₃, hb₃, hs₃⟩ := hs₂.chargeAll rest
    have hiff : exceeded (some b₃) = true ↔ ¬ (chargedSize r : ℤ) ≤ limit := by
      rw [hs₃.exceeded_iff, hsize, not_le]
    rw [hok, Option.map_some]
    dsimp only
    rw [hb₃]
    by_cases hfit : (chargedSize r : ℤ) ≤ limit
    · have hno : ¬ exceeded (some b₃) = true := fun hex => hiff.mp hex hfit
      have hover : b₂.isOver = false := by
        -- What is not over after the last charge was not over before it.
        by_contra hover
        have hlt := hs₂.isOver_iff.mp (by simpa using hover)
        rw [hsize] at hfit
        omega
      rw [if_neg hno, if_pos hfit, hall₂ hover]
    · rw [if_pos (hiff.mpr hfit), if_neg hfit]

/-- Where the checks do not all end, a bounded evaluation returns no report. -/
theorem evaluateWithin_of_collect_none (limit : ℤ) (h : collect (checks fuel X inv k target now) = none) :
    evaluateWithin fuel X inv k target now limit = none ∨
      evaluateWithin fuel X inv k target now limit = some (.error .tooLarge) := by
  obtain ⟨b, hb, -⟩ := apiFindings_spent X inv k target (Spent.start limit (reportBaseSize inv k))
  unfold evaluateWithin evaluateIn
  dsimp only [charge, Option.map_some]
  rw [hb]
  rcases runChecks_of_collect_none b (apiFindings X inv k target
    (some ((Budget.start limit).charge (reportBaseSize inv k)))).1 h with h | h
  · exact Or.inl (by rw [h]; rfl)
  · exact Or.inr (by rw [h]; rfl)

/-- The report of a bounded evaluation is that of all findings. -/
theorem foundFindings_of_within {r : Report} (h : evaluateWithin fuel X inv k target now limit = some (.ok r)) :
    ∃ found, foundFindings fuel X inv k target now = some found ∧ r = reportOf X inv k target now found := by
  cases hcollect : collect (checks fuel X inv k target now) with
  | none =>
    rcases evaluateWithin_of_collect_none limit hcollect with h' | h' <;> simp [h'] at h
  | some fs =>
    refine ⟨foldedFindings X inv k target ++ fs.map capNamespaces, by simp [foundFindings, hcollect], ?_⟩
    rw [evaluateWithin_of_collect limit hcollect] at h
    split_ifs at h
    · exact (Except.ok.inj (Option.some.inj h)).symm
    · simp at h

end Within

/-- A bounded evaluation is the unbounded one or the error. Whatever the limit, where the unbounded
evaluation returns a report the bounded one returns that report when its charged size is within the
limit and the error otherwise; where the unbounded one has not returned, the bounded one has not
either, or has returned the error. So a report it returns is the unbounded one's, within the limit in
its charged size and in the size of its findings, and is returned at every larger limit too. -/
theorem evaluateWithin_refines (fuel : ℕ) (X : External) (inv : Inventory) (k : KB) (target : Version)
    (now : Time) :
    (∀ limit r, evaluate fuel X inv k target now = some r →
      evaluateWithin fuel X inv k target now limit =
        some (if (chargedSize r : ℤ) ≤ limit then .ok r else .error .tooLarge)) ∧
    (∀ limit, evaluate fuel X inv k target now = none →
      evaluateWithin fuel X inv k target now limit = none ∨
        evaluateWithin fuel X inv k target now limit = some (.error .tooLarge)) ∧
    (∀ limit limit' r, limit ≤ limit' →
      evaluateWithin fuel X inv k target now limit = some (.ok r) →
        evaluateWithin fuel X inv k target now limit' = some (.ok r)) ∧
    (∀ limit r, evaluateWithin fuel X inv k target now limit = some (.ok r) →
      evaluate fuel X inv k target now = some r ∧ (chargedSize r : ℤ) ≤ limit ∧
        ((r.findings.map findingSize).sum : ℤ) ≤ limit) := by
  have hreturns : ∀ limit r, evaluate fuel X inv k target now = some r →
      evaluateWithin fuel X inv k target now limit =
        some (if (chargedSize r : ℤ) ≤ limit then .ok r else .error .tooLarge) := by
    intro limit r hr
    rw [evaluate_eq, foundFindings, Option.map_map] at hr
    obtain ⟨fs, hfs, rfl⟩ := Option.map_eq_some_iff.mp hr
    exact evaluateWithin_of_collect limit hfs
  have hdiverges : ∀ limit, evaluate fuel X inv k target now = none →
      evaluateWithin fuel X inv k target now limit = none ∨
        evaluateWithin fuel X inv k target now limit = some (.error .tooLarge) := by
    intro limit hr
    rw [evaluate_eq, foundFindings, Option.map_map, Option.map_eq_none_iff] at hr
    exact evaluateWithin_of_collect_none limit hr
  -- An answer within the limit is the unbounded one, and the two after it follow from that.
  have hok : ∀ limit r, evaluateWithin fuel X inv k target now limit = some (.ok r) →
      evaluate fuel X inv k target now = some r ∧ (chargedSize r : ℤ) ≤ limit := by
    intro limit r h
    cases hr : evaluate fuel X inv k target now with
    | none =>
      rcases hdiverges limit hr with h' | h' <;> simp [h'] at h
    | some r' =>
      rw [hreturns limit r' hr] at h
      split_ifs at h with hfit
      · obtain rfl : r' = r := by simpa using h
        exact ⟨rfl, hfit⟩
      · simp at h
  refine ⟨hreturns, hdiverges, ?_, ?_⟩
  · intro limit limit' r hle h
    obtain ⟨hr, hfit⟩ := hok limit r h
    rw [hreturns limit' r hr, if_pos (hfit.trans hle)]
  · intro limit r h
    obtain ⟨hr, hfit⟩ := hok limit r h
    have hfindings : (r.findings.map findingSize).sum ≤ chargedSize r := by
      have := List.sum_le_sum fun f (_ : f ∈ r.findings) => findingSize_le_chargedFinding f
      unfold chargedSize
      omega
    refine ⟨hr, hfit, ?_⟩
    have : ((r.findings.map findingSize).sum : ℤ) ≤ chargedSize r := by exact_mod_cast hfindings
    omega

/-- What is left of a limit is a Go `int`, which a charge could take below its range. Of a limit that is not negative, the
only kind that a caller passes, it does so only once the limit is over: an evaluation's budget goes over where Go's
does. -/
theorem isOver_wrapped {limit : ℤ} (hlow : 0 ≤ limit) (hhigh : limit ≤ maxInt) {sizes : List ℕ} (hsizes : ∀ n ∈ sizes, n ≤ 2 ^ 63) :
    (sizes.foldl (Budget.chargeIn wrap64) (.start limit)).isOver = (sizes.foldl Budget.charge (.start limit)).isOver :=
  isOver_foldl_chargeIn (fun _ => hlow) (fun _ hz hle => wrap64_of_range (by simpa using hz) (hle.trans hhigh)) hsizes rfl

/-- One row at a removed API, within 100 bytes and within the size its report is charged. -/
theorem evaluateWithin_one_row :
    let inv : Inventory := { apiUsage := [{ group := "g.io", version := "v1", kind := "Job", count := 1 }] }
    let k : KB :=
      { maxKnownK8s := ⟨1, 34⟩
        apiLifecycle :=
          [{ group := "g.io", version := "v1", kind := "Job", introduced := ⟨1, 8⟩, removed := some ⟨1, 25⟩ }] }
    evaluateWithin 0 External.ascii inv k ⟨1, 30⟩ 0 100 = some (.error .tooLarge) ∧
      ∃ r, r.verdict = .blocked ∧ evaluate 0 External.ascii inv k ⟨1, 30⟩ 0 = some r ∧
        evaluateWithin 0 External.ascii inv k ⟨1, 30⟩ 0 (chargedSize r) = some (.ok r) := by
  intro inv k
  obtain ⟨r, hr, hblocked⟩ :
      ∃ r, evaluate 0 External.ascii inv k ⟨1, 30⟩ 0 = some r ∧ r.verdict = .blocked := by
    have hany : (evaluate 0 External.ascii inv k ⟨1, 30⟩ 0).any (·.verdict = .blocked) = true := by
      decide +kernel
    simpa [Option.any_eq_true] using hany
  have hspec := evaluateWithin_refines 0 External.ascii inv k ⟨1, 30⟩ 0
  refine ⟨?_, r, hblocked, hr, ?_⟩
  · rw [hspec.1 100 r hr, if_neg]
    have : 192 ≤ chargedSize r := by
      unfold chargedSize fieldOverhead
      omega
    omega
  · rw [hspec.1 (chargedSize r) r hr, if_pos le_rfl]

end UpgradeScope
