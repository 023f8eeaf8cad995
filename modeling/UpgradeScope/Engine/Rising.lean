import UpgradeScope.Engine.Evaluate
import UpgradeScope.Engine.Grades
import UpgradeScope.Engine.Termination

/-!
# Higher targets judge no milder

An API, an in-tree volume plugin or a node that is judged for one target is judged at least as severely for a higher one
of the same major. For an API this is so of everything that is said about it together: a caller's own finding may be
gone at the higher target, where the usage finding of its API has become as severe and has taken it in (`JudgedAs`). For
kubelets and kube-proxies it is so exactly when no version that is out of policy is so far behind that the distance
leaves the 64-bit range between the two targets (`rising_target_iff`).
-/

namespace UpgradeScope

open Go Sorting Kb

/-- A target and a higher one of its major, of minors below a thousand. -/
structure Rising (t t' : Version) : Prop where
  /-- The major is the same. -/
  major : t.major = t'.major
  /-- Minors are not negative. -/
  nonneg : 0 ≤ t.minor
  /-- The second target is not the lower one. -/
  le : t.minor ≤ t'.minor
  /-- Minors are below a thousand. -/
  bound : t'.minor < 1000

section Grades

variable {t t' : Version}

/-- What is out by a target is out by a higher one. -/
theorem Rising.le_of_le (h : Rising t t') {v : Version} (hv : v.le t = true) : v.le t' = true := by
  rw [Version.le_iff] at hv ⊢
  have hmajor := h.major
  have hle := h.le
  omega

/-- The next minor of a target is that of a higher one, or at most the higher one. -/
theorem Rising.next (h : Rising t t') : t' = t ∨ t.next.le t' = true := by
  have hnext : t.next = ⟨t.major, t.minor + 1⟩ := by
    have hlow := h.nonneg
    have hbound := h.bound
    have hle := h.le
    rw [Version.next, wrap64_of_range (by omega) (by unfold maxInt; omega)]
  by_cases hsame : t'.minor = t.minor
  · left
    obtain ⟨major, minor⟩ := t
    obtain ⟨major', minor'⟩ := t'
    rw [Version.mk.injEq]
    exact ⟨h.major.symm, hsame⟩
  · right
    rw [hnext, Version.le_iff]
    refine .inr ⟨h.major, ?_⟩
    have hle := h.le
    show t.minor + 1 ≤ t'.minor
    omega

/-- The severity of using what a release removes. -/
theorem Rising.removalGrade (h : Rising t t') (removed : Version) :
    (UpgradeScope.removalGrade t' removed).rank ≤ (UpgradeScope.removalGrade t removed).rank := by
  unfold UpgradeScope.removalGrade
  by_cases hat : removed.le t = true
  · rw [if_pos hat, if_pos (h.le_of_le hat)]
  rw [if_neg hat]
  by_cases hnext : removed = t.next
  · rw [if_pos hnext]
    rcases h.next with rfl | hle
    · rw [if_neg hat, if_pos hnext]
    · rw [hnext, if_pos hle]
      decide
  · rw [if_neg hnext]
    split_ifs <;> decide

/-- The severity of using an API, by its lifecycle. -/
theorem Rising.usageGrade (h : Rising t t') {e? : Option APILifecycleEntry} {cat : Category} {sev : Severity}
    (hgrade : UpgradeScope.usageGrade t e? false = some (cat, sev)) :
    ∃ cat' sev', UpgradeScope.usageGrade t' e? false = some (cat', sev') ∧ sev'.rank ≤ sev.rank := by
  cases e? with
  | none => exact ⟨cat, sev, hgrade, le_rfl⟩
  | some e =>
    unfold UpgradeScope.usageGrade at hgrade ⊢
    simp only [Bool.false_or] at hgrade ⊢
    by_cases hat' : removedAt t' e = true
    · exact ⟨.removedAPI, .blocker, if_pos hat', Nat.zero_le _⟩
    have hat : ¬ removedAt t e = true := by
      intro hat
      obtain ⟨r, hr, hle⟩ := (Option.any_eq_true _ _).mp hat
      exact hat' ((Option.any_eq_true _ _).mpr ⟨r, hr, h.le_of_le hle⟩)
    rw [if_neg hat] at hgrade
    rw [if_neg hat']
    by_cases hnext : removedNext t e = true
    · -- The next minor is not yet reached, so the targets are one.
      obtain ⟨r, hr, heq⟩ := (Option.any_eq_true _ _).mp hnext
      have heq : r = t.next := of_decide_eq_true heq
      rcases h.next with rfl | hle
      · rw [if_pos hnext] at hgrade ⊢
        exact ⟨_, _, hgrade, le_rfl⟩
      · exact absurd ((Option.any_eq_true _ _).mpr ⟨r, hr, heq ▸ hle⟩) hat'
    · rw [if_neg hnext] at hgrade
      split at hgrade
      · rename_i hdep
        obtain ⟨-, rfl⟩ := Prod.mk.inj (Option.some.inj hgrade)
        by_cases hnext' : removedNext t' e = true
        · exact ⟨.removedAPI, .warning, if_pos hnext', by decide⟩
        · rw [if_neg hnext', if_pos hdep]
          exact ⟨_, _, rfl, le_rfl⟩
      · exact nomatch hgrade

end Grades

/-! ## What a report says about an API -/

section Fold

variable (X : External) (inv : Inventory) {calls : List (DeprecatedCall × Finding)}

/-- The fold leaves a caller on its own, or makes it a caller of a usage finding. -/
theorem mem_fold_call (usage : List Finding) {r : DeprecatedCall × Finding} (hr : r ∈ calls) :
    r.2 ∈ foldDeprecatedCalls X inv usage calls ∨
      ∃ f ∈ foldDeprecatedCalls X inv usage calls, callerOf r.1 r.2 ∈ f.callers := by
  have hplaced : (r, foldIndex X inv.apiUsage usage r.1 r.2) ∈ placedCalls X inv usage calls :=
    List.mem_map.mpr ⟨r, hr, rfl⟩
  cases hindex : foldIndex X inv.apiUsage usage r.1 r.2 with
  | none =>
    rw [hindex] at hplaced
    refine .inl (List.mem_append_right _ (List.mem_map.mpr ⟨(r, none), List.mem_filter.mpr ⟨hplaced, rfl⟩, rfl⟩))
  | some j =>
    rw [hindex] at hplaced
    have hlt : j < usage.length := by
      obtain ⟨-, hany⟩ := Option.filter_eq_some_iff.mp hindex
      obtain ⟨f, hf, -⟩ := (Option.any_eq_true _ _).mp hany
      exact (List.getElem?_eq_some_iff.mp hf).1
    have hfolded : r ∈ foldedInto (placedCalls X inv usage calls) j :=
      List.mem_map.mpr ⟨(r, some j), List.mem_filter.mpr ⟨hplaced, by simp⟩, rfl⟩
    refine .inr ⟨_, List.mem_append_left _ (List.mem_mapIdx.mpr ⟨j, hlt, rfl⟩), ?_⟩
    rw [withCallers, if_neg (List.ne_nil_of_mem hfolded)]
    exact List.mem_append_right _ (List.mem_map.mpr ⟨r, hfolded, rfl⟩)

end Fold

section Reports

variable (X : External) (inv : Inventory) (k : KB)

/-- How a report for a target judges an API, which some usage rows are of and some callers request: by the usage finding
of a row, by the finding of a caller, or by a caller of a finding. -/
inductive JudgedAs (t : Version) (rep : Report) (ofAPI : APIUsage → Prop) (requests : DeprecatedCall → Prop) :
    Severity → Prop
  /-- The finding of a usage row. -/
  | usage {u : APIUsage} {g f : Finding} : u ∈ inv.apiUsage → ofAPI u →
      usageFinding k t inv.source inv.namespaces u = some g → f ∈ rep.findings → f.key = g.key →
      f.category = g.category → f.severity = g.severity → JudgedAs t rep ofAPI requests f.severity
  /-- The finding of a caller. -/
  | alone {c : DeprecatedCall} : c ∈ otherCallers inv → requests c → callFinding X k t c ∈ rep.findings →
      JudgedAs t rep ofAPI requests (callFinding X k t c).severity
  /-- A caller that is folded into a finding. -/
  | folded {c : DeprecatedCall} {f : Finding} : c ∈ otherCallers inv → requests c → f ∈ rep.findings →
      callerOf c (callFinding X k t c) ∈ f.callers →
      JudgedAs t rep ofAPI requests (callerOf c (callFinding X k t c)).severity

/-- Whatever one report says about an API, another one says at least as severely. -/
def NoMilder (t t' : Version) (rep rep' : Report) (ofAPI : APIUsage → Prop) (requests : DeprecatedCall → Prop) : Prop :=
  ∀ sev, JudgedAs X inv k t rep ofAPI requests sev →
    ∃ sev', JudgedAs X inv k t' rep' ofAPI requests sev' ∧ sev'.rank ≤ sev.rank

/-- No object of the API usage was read from a manifest. -/
def NoManifestRefs : Prop := ∀ u ∈ inv.apiUsage, ∀ o ∈ u.objects, o.line = 0

variable {X inv k}

variable {t t' : Version} {fuel : ℕ} {g : Finding} {now : Time} {u : APIUsage}

/-- A cluster's usage without manifest objects is served by every target. -/
theorem not_unservedUse (hsource : inv.source ≠ .files) (hrefs : NoManifestRefs inv) (hu : u ∈ inv.apiUsage)
    (target : Version) : unservedUse k target inv.source u = false := by
  have hlisted : listedObjects inv.source u = .stored := by
    unfold listedObjects
    split
    · rfl
    · rename_i o rest hobjects
      rw [if_pos (hrefs u hu o (hobjects ▸ List.mem_cons_self))]
  unfold unservedUse
  split
  · simp [hsource, hlisted]
  · rfl

/-- A usage row has a finding for a higher target when it has one, and at least as severe. -/
theorem Rising.usageFinding (h : Rising t t') (hsource : inv.source ≠ .files) (hrefs : NoManifestRefs inv)
    (hu : u ∈ inv.apiUsage) (hg : UpgradeScope.usageFinding k t inv.source inv.namespaces u = some g) :
    ∃ g', UpgradeScope.usageFinding k t' inv.source inv.namespaces u = some g' ∧ g'.severity.rank ≤ g.severity.rank := by
  have hgrade := usageFinding_grade hg
  rw [not_unservedUse hsource hrefs hu t] at hgrade
  obtain ⟨cat', sev', hgrade', hrank⟩ := h.usageGrade hgrade
  have hknown : ¬ (lookup k.apiLifecycle ⟨u.group, u.version, u.kind⟩ = none ∧ ¬ builtinGroup k u.group = true) := by
    intro hout
    simp only [UpgradeScope.usageFinding, if_pos hout] at hg
    cases hg
  rw [← not_unservedUse hsource hrefs hu t'] at hgrade'
  obtain ⟨g', hg', -, hsev⟩ := exists_usageFinding inv.namespaces hknown hgrade'
  exact ⟨g', hg', hsev ▸ hrank⟩

/-- Every caller is judged at least as severely for a higher target. -/
theorem Rising.callFinding (h : Rising t t') (c : DeprecatedCall) :
    (UpgradeScope.callFinding X k t' c).severity.rank ≤ (UpgradeScope.callFinding X k t c).severity.rank := by
  rw [callFinding_severity, callFinding_severity]
  cases callRemoval X k c with
  | none => exact le_rfl
  | some r => exact h.removalGrade r.1

/-- A report judges every caller: on its own, or as a caller of a usage finding. -/
theorem judgedAs_call {rep : Report} (hrep : evaluate fuel X inv k t now = some rep) {ofAPI : APIUsage → Prop}
    {requests : DeprecatedCall → Prop} {c : DeprecatedCall} (hc : c ∈ otherCallers inv) (hreq : requests c) :
    JudgedAs X inv k t rep ofAPI requests (UpgradeScope.callFinding X k t c).severity := by
  have hrow : (c, UpgradeScope.callFinding X k t c) ∈ evalDeprecatedCalls X inv k t :=
    List.mem_map.mpr ⟨c, mem_sortOn.mpr hc, rfl⟩
  rcases mem_fold_call X inv ((evalAPIUsage k t inv).map capNamespaces) hrow with halone | ⟨f, hf, hcaller⟩
  · exact .alone hc hreq ((mem_findings_evaluate hrep _).mpr (.inl halone))
  · exact .folded hc hreq ((mem_findings_evaluate hrep f).mpr (.inl hf)) hcaller

/-- A higher target judges no API milder: whatever is said about it for one target is said for the higher one, of the
same usage row or the same caller, at least as severely. -/
theorem Rising.noMilder (h : Rising t t') (hsource : inv.source ≠ .files) (hrefs : NoManifestRefs inv)
    {rep rep' : Report} (hrep' : evaluate fuel X inv k t' now = some rep') (ofAPI : APIUsage → Prop)
    (requests : DeprecatedCall → Prop) :
    NoMilder X inv k t t' rep rep' ofAPI requests := by
  intro sev hjudged
  cases hjudged with
  | @usage u g f hu hof hg hf hkey hcat hsev =>
    obtain ⟨g', hg', hrank⟩ := h.usageFinding hsource hrefs hu hg
    obtain ⟨f', hf', hkey', hcat', hsev', -⟩ := usageFinding_reported hrep' hu hg'
    refine ⟨f'.severity, .usage hu hof hg' hf' hkey' hcat' hsev', ?_⟩
    rw [hsev', hsev]
    exact hrank
  | alone hc hreq hmem => exact ⟨_, judgedAs_call hrep' hc hreq, h.callFinding _⟩
  | folded hc hreq hf hcaller => exact ⟨_, judgedAs_call hrep' hc hreq, h.callFinding _⟩

/-- A removed volume plugin that has a finding has one for a higher target, at least as severe. -/
theorem Rising.volumeFinding (h : Rising t t') {u : VolumePluginUse} {p : VolumePlugin}
    (hp : volumePlugin k u.plugin = some p) {removed : Version} {deprecated : Option Version}
    (hremoved : p.lifecycle = .removed removed deprecated)
    (hg : UpgradeScope.volumeFinding k t inv.source inv.namespaces u = some g) :
    ∃ g', UpgradeScope.volumeFinding k t' inv.source inv.namespaces u = some g' ∧ g'.key = g.key ∧
      g'.category = g.category ∧ g'.severity.rank ≤ g.severity.rank := by
  have hjudged : ∀ (target : Version) (count : String),
      (volumeJudgement target p u count).1 = UpgradeScope.removalGrade target removed := by
    intro target count
    unfold volumeJudgement UpgradeScope.removalGrade
    rw [hremoved]
    dsimp only
    split_ifs <;> rfl
  have hcount : ¬ u.count ≤ 0 := by
    intro hle
    simp only [UpgradeScope.volumeFinding, if_pos hle] at hg
    exact nomatch hg
  simp only [UpgradeScope.volumeFinding, if_neg hcount, hp, Option.map_some, Option.some.injEq] at hg ⊢
  subst hg
  refine ⟨_, rfl, rfl, rfl, ?_⟩
  dsimp only
  rw [hjudged, hjudged]
  exact h.removalGrade removed

end Reports

/-! ## Skew -/

/-- A version is further behind a target than a limit allows. -/
def OutOfPolicy (limit : ℤ) (t v : Version) : Prop := legacyMaxBehind limit v < minorsBehind t v

instance (limit : ℤ) (t v : Version) : Decidable (OutOfPolicy limit t v) := by
  unfold OutOfPolicy
  infer_instance

/-- Between two targets the distance of a version leaves the 64-bit range, and comes back within the limit. -/
def Overflows (limit : ℤ) (t t' v : Version) : Prop :=
  maxInt < minorsBehind t v + (t'.minor - t.minor) ∧
    minorsBehind t v + (t'.minor - t.minor) - 2 ^ 64 ≤ legacyMaxBehind limit v

/-- The distance for a higher target, when the sum is in range. -/
theorem Rising.minorsBehind {t t' : Version} (h : Rising t t') (v : Version) :
    UpgradeScope.minorsBehind t' v = wrap64 (UpgradeScope.minorsBehind t v + (t'.minor - t.minor)) := by
  unfold UpgradeScope.minorsBehind wrap64
  rw [Int.bmod_add_bmod, h.major]
  congr 1
  ring

/-- A wrapped integer is at least the smallest. -/
theorem neg_le_wrap64 (z : ℤ) : -2 ^ 63 ≤ wrap64 z := by
  have h := Int.le_bmod (x := z) (m := 2 ^ 64) (by norm_num)
  unfold wrap64
  norm_num at h ⊢
  omega

/-- An integer past the largest wraps to the negative ones. -/
theorem wrap64_of_over {z : ℤ} (hover : maxInt < z) (hhi : z ≤ maxInt + 2 ^ 63) : wrap64 z = z - 2 ^ 64 := by
  have hback : wrap64 (z - 2 ^ 64) = wrap64 z := by
    have hmod := Int.sub_mul_bmod_self_right z 1 (2 ^ 64)
    rw [one_mul] at hmod
    exact_mod_cast hmod
  unfold maxInt at hover hhi
  rw [← hback, wrap64_of_range (by omega) (by unfold maxInt; omega)]

/-- A version that is out of policy for a target stays so for a higher one unless its distance overflows. -/
theorem Rising.outOfPolicy_iff {t t' : Version} (h : Rising t t') {limit : ℤ} {v : Version}
    (hout : OutOfPolicy limit t v) : OutOfPolicy limit t' v ↔ ¬ Overflows limit t t' v := by
  have hlow : -2 ^ 63 ≤ UpgradeScope.minorsBehind t v := neg_le_wrap64 _
  have hhigh : UpgradeScope.minorsBehind t v ≤ maxInt := wrap64_le_maxInt _
  have hle := h.le
  have hbound := h.bound
  have hnonneg := h.nonneg
  unfold OutOfPolicy at hout ⊢
  unfold Overflows
  rw [h.minorsBehind]
  by_cases hover : maxInt < UpgradeScope.minorsBehind t v + (t'.minor - t.minor)
  · rw [wrap64_of_over hover (by omega)]
    omega
  · rw [wrap64_of_range (by omega) (not_lt.mp hover)]
    omega

section Skew

variable (X : External) (inv : Inventory) (k : KB)

/-- A report for a target says of a node that its kubelet would be out of policy after the upgrade. -/
def KubeletExceeds (t : Version) (rep : Report) (n : NodeInfo) : Prop :=
  n ∈ inv.nodes ∧ (∃ v, version? X n.kubeletVersion = some v ∧ OutOfPolicy k.skew.kubeletMaxBehind t v) ∧
    ∃ f ∈ evalSkew X inv k t, f.key = "version-skew/kubelet-post-upgrade" ∧ f.severity = .blocker ∧
      capNamespaces f ∈ rep.findings

/-- A report for a target says of a kube-proxy version that it would be out of policy after the upgrade. -/
def ProxyExceeds (t : Version) (rep : Report) (v : Version) : Prop :=
  v ∈ componentVersions X inv "kube-proxy" ∧ OutOfPolicy k.skew.kubeProxyMaxBehind t v ∧
    ∃ f ∈ proxyPostFinding X inv k t, f.key = "version-skew/kube-proxy-post-upgrade" ∧ f.severity = .blocker ∧
      capNamespaces f ∈ rep.findings

variable {X inv k} {fuel : ℕ} {t : Version} {now : Time} {rep : Report}

/-- A kubelet out of policy is among those that `evalSkew` lists. -/
theorem kubeletsWith_ne_nil {n : NodeInfo} (hn : n ∈ inv.nodes) {v : Version} (hv : version? X n.kubeletVersion = some v)
    (hout : OutOfPolicy k.skew.kubeletMaxBehind t v) : kubeletsWith X inv (fun kv =>
      decide (minorsBehind t kv > legacyMaxBehind k.skew.kubeletMaxBehind kv)) ≠ [] :=
  List.ne_nil_of_mem (List.mem_filter.mpr ⟨hn, by rw [hv]; exact decide_eq_true hout⟩)

/-- Where a component's version is seen, there is a control plane. -/
theorem controlPlane_ne_nil {component : String} {v : Version} (hv : v ∈ componentVersions X inv component) :
    inv.controlPlane ≠ [] := by
  intro hnone
  simp [componentVersions, hnone, sortedVersions, sortOn] at hv

/-- The kubelets are judged where the version of an apiserver is known. -/
theorem kubeletExceeds_iff (hrep : evaluate fuel X inv k t now = some rep) {n : NodeInfo} (hn : n ∈ inv.nodes) :
    KubeletExceeds X inv k t rep n ↔ apiserverVersions X inv ≠ [] ∧
      ∃ v, version? X n.kubeletVersion = some v ∧ OutOfPolicy k.skew.kubeletMaxBehind t v := by
  constructor
  · rintro ⟨-, hout, f, hf, -⟩
    refine ⟨?_, hout⟩
    intro hnone
    simp [evalSkew, hnone] at hf
  · rintro ⟨hsome, v, hv, hout⟩
    refine ⟨hn, ⟨v, hv, hout⟩, ?_⟩
    obtain ⟨f, hf, hkey, hsev⟩ : ∃ f ∈ evalSkew X inv k t, f.key = "version-skew/kubelet-post-upgrade" ∧
        f.severity = .blocker := by
      unfold evalSkew
      split
      · rename_i hnone
        exact absurd hnone hsome
      · dsimp only
        rw [if_neg (kubeletsWith_ne_nil hn hv hout)]
        refine ⟨_, List.mem_append_left _ (List.mem_append_left _ (List.mem_append_left _ List.mem_cons_self)), ?_, rfl⟩
        exact (by decide : Category.versionSkew.name ++ "/" ++ "kubelet-post-upgrade" =
          "version-skew/kubelet-post-upgrade")
    have hcheck : some (evalSkew X inv k t) ∈ checks fuel X inv k t now := by simp [checks]
    exact ⟨f, hf, hkey, hsev, check_reported hrep hcheck hf⟩

/-- The kube-proxies are judged wherever they are seen. -/
theorem proxyExceeds_iff (hrep : evaluate fuel X inv k t now = some rep) {v : Version}
    (hv : v ∈ componentVersions X inv "kube-proxy") :
    ProxyExceeds X inv k t rep v ↔ OutOfPolicy k.skew.kubeProxyMaxBehind t v := by
  constructor
  · rintro ⟨-, hout, -⟩
    exact hout
  · intro hout
    have hbad : (componentVersions X inv "kube-proxy").filter (fun v =>
        minorsBehind t v > legacyMaxBehind k.skew.kubeProxyMaxBehind v) ≠ [] :=
      List.ne_nil_of_mem (List.mem_filter.mpr ⟨hv, decide_eq_true hout⟩)
    obtain ⟨f, hf, hkey, hsev⟩ : ∃ f ∈ proxyPostFinding X inv k t,
        f.key = "version-skew/kube-proxy-post-upgrade" ∧ f.severity = .blocker := by
      unfold proxyPostFinding
      dsimp only
      rw [if_neg hbad]
      refine ⟨_, List.mem_cons_self, ?_, rfl⟩
      exact (by decide : Category.versionSkew.name ++ "/" ++ "kube-proxy-post-upgrade" =
        "version-skew/kube-proxy-post-upgrade")
    have hf' : f ∈ evalControlPlaneSkew X inv k t := by
      unfold evalControlPlaneSkew
      rw [if_neg (controlPlane_ne_nil hv)]
      exact List.mem_append_left _ (List.mem_append_left _ hf)
    have hcheck : some (evalControlPlaneSkew X inv k t) ∈ checks fuel X inv k t now := by simp [checks]
    exact ⟨hv, hout, f, hf, hkey, hsev, check_reported hrep hcheck hf'⟩

end Skew

/-! ## Two targets -/

/-- What a report for a higher target keeps of a report for a lower one. -/
structure JudgesNoMilder (X : External) (inv : Inventory) (k : KB) (t t' : Version) (rep rep' : Report) : Prop where
  /-- The API of every usage row, with the callers that request it. -/
  usages : ∀ u ∈ inv.apiUsage, NoMilder X inv k t t' rep rep'
    (fun u' => (u'.group, u'.version, u'.kind) = (u.group, u.version, u.kind))
    (fun c => keysResource X u.group u.version u.kind (resourceKey c.group c.version c.resource) = true)
  /-- The API of every caller, with the usage rows of it. -/
  callers : ∀ c ∈ otherCallers inv, NoMilder X inv k t t' rep rep'
    (fun u => keysResource X u.group u.version u.kind (resourceKey c.group c.version c.resource) = true)
    (fun c' => resourceKey c'.group c'.version c'.resource = resourceKey c.group c.version c.resource)
  /-- Every volume plugin that a release removes. -/
  volumes : ∀ u ∈ inv.volumePlugins, ∀ p, volumePlugin k u.plugin = some p →
    (∃ removed deprecated, p.lifecycle = .removed removed deprecated) →
    ∀ g, volumeFinding k t inv.source inv.namespaces u = some g → capNamespaces g ∈ rep.findings →
      ∃ g', volumeFinding k t' inv.source inv.namespaces u = some g' ∧ capNamespaces g' ∈ rep'.findings ∧
        g'.key = g.key ∧ g'.severity.rank ≤ g.severity.rank
  /-- Every node whose kubelet would be out of policy. -/
  kubelets : ∀ n, KubeletExceeds X inv k t rep n → KubeletExceeds X inv k t' rep' n
  /-- Every kube-proxy version that would be out of policy. -/
  proxies : ∀ v, ProxyExceeds X inv k t rep v → ProxyExceeds X inv k t' rep' v

/-- No kubelet that is judged, and no kube-proxy, is so far behind a target that its distance overflows up to the higher
one. -/
def NoOverflow (X : External) (inv : Inventory) (k : KB) (t t' : Version) : Prop :=
  (apiserverVersions X inv ≠ [] → ∀ n ∈ inv.nodes, ∀ v, version? X n.kubeletVersion = some v →
    OutOfPolicy k.skew.kubeletMaxBehind t v → ¬ Overflows k.skew.kubeletMaxBehind t t' v) ∧
  ∀ v ∈ componentVersions X inv "kube-proxy", OutOfPolicy k.skew.kubeProxyMaxBehind t v →
    ¬ Overflows k.skew.kubeProxyMaxBehind t t' v

section Targets

variable {X : External} {inv : Inventory} {k : KB} {t t' : Version} {fuel : ℕ} {now : Time} {rep rep' : Report}

/-- The finding of a removed plugin is in the report for the higher target too. -/
theorem Rising.volumes (h : Rising t t') (hrep' : evaluate fuel X inv k t' now = some rep') {u : VolumePluginUse}
    (hu : u ∈ inv.volumePlugins) {p : VolumePlugin} (hp : volumePlugin k u.plugin = some p) {removed : Version}
    {deprecated : Option Version} (hremoved : p.lifecycle = .removed removed deprecated) {g : Finding}
    (hg : UpgradeScope.volumeFinding k t inv.source inv.namespaces u = some g) :
    ∃ g', UpgradeScope.volumeFinding k t' inv.source inv.namespaces u = some g' ∧ capNamespaces g' ∈ rep'.findings ∧
      g'.key = g.key ∧ g'.severity.rank ≤ g.severity.rank := by
  obtain ⟨g', hg', hkey, -, hrank⟩ := h.volumeFinding hp hremoved hg
  refine ⟨g', hg', (mem_findings_evaluate hrep' _).mpr (.inr ⟨evalVolumePlugins k t' inv, by simp [checks], g', ?_, rfl⟩),
    hkey, hrank⟩
  exact List.mem_filterMap.mpr ⟨u, hu, hg'⟩

/-- The evaluations for both targets end. -/
theorem Rising.terminates (h : Rising t t') : Terminates X inv k t now ∧ Terminates X inv k t' now := by
  have hnonneg := h.nonneg
  have hle := h.le
  have hbound := h.bound
  constructor
  · refine (BelowLargestMinor.terminates fun running _ => ⟨hnonneg, ?_⟩).1
    unfold maxInt
    omega
  · refine (BelowLargestMinor.terminates fun running _ => ⟨by omega, ?_⟩).1
    unfold maxInt
    omega

/-- For two targets of one major both evaluations end, and the higher target judges nothing milder exactly when no
distance overflows. -/
theorem rising_target_iff (h : Rising t t') (hsource : inv.source ≠ .files) (hrefs : NoManifestRefs inv) :
    Terminates X inv k t now ∧ Terminates X inv k t' now ∧
      ∀ fuel fuel' rep rep', evaluate fuel X inv k t now = some rep → evaluate fuel' X inv k t' now = some rep' →
        (JudgesNoMilder X inv k t t' rep rep' ↔ NoOverflow X inv k t t') := by
  refine ⟨h.terminates.1, h.terminates.2, fun fuel fuel' rep rep' hrep hrep' => ⟨?_, ?_⟩⟩
  · intro hjudges
    constructor
    · intro hsome n hn v hv hout
      have hexceeds := hjudges.kubelets n ((kubeletExceeds_iff hrep hn).mpr ⟨hsome, v, hv, hout⟩)
      obtain ⟨-, v', hv', hout'⟩ := (kubeletExceeds_iff hrep' hn).mp hexceeds
      obtain rfl : v = v' := Option.some.inj (hv.symm.trans hv')
      exact (h.outOfPolicy_iff hout).mp hout'
    · intro v hv hout
      have hexceeds := hjudges.proxies v ((proxyExceeds_iff hrep hv).mpr hout)
      exact (h.outOfPolicy_iff hout).mp ((proxyExceeds_iff hrep' hv).mp hexceeds)
  -- The rows, the calls and the volumes never judge milder; the distances do only by overflowing.
  · rintro ⟨hkubelets, hproxies⟩
    refine ⟨?_, ?_, ?_, ?_, ?_⟩
    · exact fun u _ => h.noMilder hsource hrefs hrep' _ _
    · exact fun c _ => h.noMilder hsource hrefs hrep' _ _
    · rintro u hu p hp ⟨removed, deprecated, hremoved⟩ g hg -
      exact h.volumes hrep' hu hp hremoved hg
    · intro n hexceeds
      have hn := hexceeds.1
      obtain ⟨hsome, v, hv, hout⟩ := (kubeletExceeds_iff hrep hn).mp hexceeds
      refine (kubeletExceeds_iff hrep' hn).mpr ⟨hsome, v, hv, ?_⟩
      exact (h.outOfPolicy_iff hout).mpr (hkubelets hsome n hn v hv hout)
    · intro v hexceeds
      have hv := hexceeds.1
      have hout := (proxyExceeds_iff hrep hv).mp hexceeds
      exact (proxyExceeds_iff hrep' hv).mpr ((h.outOfPolicy_iff hout).mpr (hproxies v hv hout))

end Targets

/-- A cluster of one node, of this kubelet version, whose manifests and a client use an API that 1.22 removes. -/
def oneNode (kubelet : String) : Inventory where
  serverVersion := "v1.20.0"
  nodes := [{ name := "a", kubeletVersion := kubelet }]
  apiUsage := [{ group := "extensions", version := "v1beta1", kind := "Ingress", count := 1 }]
  deprecatedCalls := [{ group := "extensions", version := "v1beta1", resource := "ingresses" }]

/-- A knowledge base of that API, with the policy of three minors. -/
def removesIngress : KB where
  apiLifecycle :=
    [{ group := "extensions", version := "v1beta1", kind := "Ingress", introduced := ⟨1, 1⟩, removed := some ⟨1, 22⟩ }]
  skew := defaultSkewPolicy
  maxKnownK8s := ⟨1, 34⟩

/-- A kubelet of 1.17 is out of policy for 1.21, and 1.22 judges nothing milder. -/
theorem no_milder_one_node :
    (∃ n ∈ (oneNode "v1.17.0").nodes, ∃ v, version? External.ascii n.kubeletVersion = some v ∧
      OutOfPolicy removesIngress.skew.kubeletMaxBehind ⟨1, 21⟩ v) ∧
    ∃ rep rep', evaluate 3 External.ascii (oneNode "v1.17.0") removesIngress ⟨1, 21⟩ 0 = some rep ∧
      evaluate 3 External.ascii (oneNode "v1.17.0") removesIngress ⟨1, 22⟩ 0 = some rep' ∧
      JudgesNoMilder External.ascii (oneNode "v1.17.0") removesIngress ⟨1, 21⟩ ⟨1, 22⟩ rep rep' := by
  have hv : version? External.ascii "v1.17.0" = some ⟨1, 17⟩ := by decide +kernel
  refine ⟨⟨_, List.mem_cons_self, ⟨1, 17⟩, hv, by decide⟩, ?_⟩
  have hsome : (evaluate 3 External.ascii (oneNode "v1.17.0") removesIngress ⟨1, 21⟩ 0).isSome = true := by
    decide +kernel
  have hsome' : (evaluate 3 External.ascii (oneNode "v1.17.0") removesIngress ⟨1, 22⟩ 0).isSome = true := by
    decide +kernel
  obtain ⟨rep, hrep⟩ := Option.isSome_iff_exists.mp hsome
  obtain ⟨rep', hrep'⟩ := Option.isSome_iff_exists.mp hsome'
  have hrising : Rising ⟨1, 21⟩ ⟨1, 22⟩ := ⟨rfl, by decide, by decide, by decide⟩
  have hrefs : NoManifestRefs (oneNode "v1.17.0") := by simp [NoManifestRefs, oneNode]
  refine ⟨rep, rep', hrep, hrep', ?_⟩
  refine ((rising_target_iff hrising (by decide) hrefs).2.2 3 3 rep rep' hrep hrep').mpr ⟨?_, ?_⟩
  · intro _ n hn v hv'
    obtain rfl := List.mem_singleton.mp hn
    obtain rfl : ⟨1, 17⟩ = v := Option.some.inj (hv.symm.trans hv')
    exact fun _ hover => absurd hover.1 (by decide)
  · intro v hmem
    simp [componentVersions, oneNode, sortedVersions, sortOn] at hmem

/-- An admitted cluster whose kubelet is out of policy for 1.20 and not for 1.21: the distance is the largest integer,
and wraps. -/
theorem milder_past_largest_distance :
    let inv := oneNode "v9223372036854776.829.0"
    admitInventory External.ascii inv = .ok inv ∧ Rising ⟨1, 20⟩ ⟨1, 21⟩ ∧ inv.source ≠ .files ∧ NoManifestRefs inv ∧
      ∃ rep rep', evaluate 3 External.ascii inv removesIngress ⟨1, 20⟩ 0 = some rep ∧
        evaluate 3 External.ascii inv removesIngress ⟨1, 21⟩ 0 = some rep' ∧
        (∃ f ∈ rep.findings, f.key = "version-skew/kubelet-post-upgrade") ∧
        (¬ ∃ f ∈ rep'.findings, f.key = "version-skew/kubelet-post-upgrade") ∧
        ¬ JudgesNoMilder External.ascii inv removesIngress ⟨1, 20⟩ ⟨1, 21⟩ rep rep' := by
  intro inv
  have hbefore : (evaluate 3 External.ascii inv removesIngress ⟨1, 20⟩ 0).any (fun rep =>
      ∃ f ∈ rep.findings, f.key = "version-skew/kubelet-post-upgrade") = true := by decide +kernel
  have hafter : (evaluate 3 External.ascii inv removesIngress ⟨1, 21⟩ 0).any (fun rep =>
      ¬ ∃ f ∈ rep.findings, f.key = "version-skew/kubelet-post-upgrade") = true := by decide +kernel
  obtain ⟨rep, hrep, hfound⟩ := (Option.any_eq_true _ _).mp hbefore
  obtain ⟨rep', hrep', hgone⟩ := (Option.any_eq_true _ _).mp hafter
  have hgone := of_decide_eq_true hgone
  refine ⟨(admitInventory_eq_ok _).mpr ⟨by decide +kernel, rfl⟩, ⟨rfl, by decide, by decide, by decide⟩, by decide,
    by simp [NoManifestRefs, inv, oneNode], rep, rep', hrep, hrep', of_decide_eq_true hfound, hgone, ?_⟩
  intro hjudges
  have hv : version? External.ascii "v9223372036854776.829.0" = some ⟨9223372036854776, 829⟩ := by decide +kernel
  have hout : OutOfPolicy removesIngress.skew.kubeletMaxBehind ⟨1, 20⟩ ⟨9223372036854776, 829⟩ := by decide
  have hknown : apiserverVersions External.ascii inv ≠ [] := by decide +kernel
  have hn : ({ name := "a", kubeletVersion := "v9223372036854776.829.0" } : NodeInfo) ∈ inv.nodes := List.mem_cons_self
  obtain ⟨-, -, f, -, hkey, -, hf⟩ :=
    hjudges.kubelets _ ((kubeletExceeds_iff hrep hn).mpr ⟨hknown, _, hv, hout⟩)
  exact hgone ⟨_, hf, by rw [capNamespaces_key, hkey]⟩

end UpgradeScope
