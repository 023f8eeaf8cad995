import UpgradeScope.Engine.Rising
import UpgradeScope.Kb.Replacements

/-!
# The distance of versions

The skew checks of kubelets and kube-proxies report a version as behind when `minorsBehind` puts it
further from the control plane than a limit. `minorsBehind` makes one integer of a version, a
thousand for each major, and subtracts in 64 bits. So what is reported follows the order of versions
as long as no minor reaches past a thousand and nothing overflows: `realDistances_iff` says exactly
when, by the flat distance as an integer and the multiples of `2^64` it wraps around by.
-/

namespace UpgradeScope

open Go Sorting Kb

/-! ## The window of the distances that are reported -/

/-- The distance `minorsBehind` computes, as an integer. -/
def flatDistance (ctrl v : Version) : ℤ := 1000 * (ctrl.major - v.major) + (ctrl.minor - v.minor)

/-- Wrapping takes away a multiple of `2^64`. -/
theorem exists_wrap64 (z : ℤ) : ∃ j : ℤ, wrap64 z = z - j * 2 ^ 64 := by
  unfold wrap64
  have hdvd : (2 ^ 64 : ℤ) ∣ z - z.bmod (2 ^ 64) := by
    have := Int.dvd_self_sub_bmod (x := z) (m := 2 ^ 64)
    exact_mod_cast this
  obtain ⟨j, hj⟩ := hdvd
  exact ⟨j, by linarith⟩

/-- A multiple of `2^64` is lost. -/
theorem wrap64_sub_mul (z j : ℤ) : wrap64 (z - j * 2 ^ 64) = wrap64 z := by
  have hmod := Int.sub_mul_bmod_self_right z j (2 ^ 64)
  unfold wrap64
  exact_mod_cast hmod

section Window

variable {limit : ℤ} {ctrl v w : Version}

/-- `minorsBehind` is the flat distance wrapped to 64 bits. -/
theorem minorsBehind_eq (ctrl v : Version) : minorsBehind ctrl v = wrap64 (flatDistance ctrl v) := by
  unfold minorsBehind flatDistance
  congr 1
  ring

/-- A limit for an old version is an `int` as the limit is. -/
theorem neg_le_legacyMaxBehind (hlimit : -2 ^ 63 ≤ limit) (v : Version) : -2 ^ 63 ≤ legacyMaxBehind limit v := by
  unfold legacyMaxBehind
  split_ifs
  · omega
  · exact hlimit

/-- A version is out of policy when its flat distance is between the limit and the largest integer, up to a multiple of
`2^64`. -/
theorem outOfPolicy_iff_window (hlimit : -2 ^ 63 ≤ limit) : OutOfPolicy limit ctrl v ↔
    ∃ j : ℤ, legacyMaxBehind limit v < flatDistance ctrl v - j * 2 ^ 64 ∧ flatDistance ctrl v - j * 2 ^ 64 ≤ maxInt := by
  unfold OutOfPolicy
  rw [minorsBehind_eq]
  constructor
  · intro hout
    obtain ⟨j, hj⟩ := exists_wrap64 (flatDistance ctrl v)
    exact ⟨j, hj ▸ hout, hj ▸ wrap64_le_maxInt _⟩
  · rintro ⟨j, hlo, hhi⟩
    have hlegacy := neg_le_legacyMaxBehind hlimit v
    rw [← wrap64_sub_mul _ j, wrap64_of_range (by omega) hhi]
    exact hlo

/-- The older of two versions of a major has no wider limit. -/
theorem legacyMaxBehind_le (hmajor : w.major = v.major) (hminor : w.minor < v.minor) :
    legacyMaxBehind limit w ≤ legacyMaxBehind limit v := by
  unfold legacyMaxBehind
  split_ifs <;> omega

/-- From a version to an older one of its major the flat distance passes the largest integer, up to a multiple of `2^64`,
and comes back no further than the limit. -/
def Crosses (limit : ℤ) (ctrl v w : Version) : Prop :=
  ∃ j : ℤ, legacyMaxBehind limit v < flatDistance ctrl v - j * 2 ^ 64 ∧ flatDistance ctrl v - j * 2 ^ 64 ≤ maxInt ∧
    maxInt < flatDistance ctrl w - j * 2 ^ 64 ∧ flatDistance ctrl w - (j + 1) * 2 ^ 64 ≤ legacyMaxBehind limit w

/-- An older version of the same major is out of policy with a version unless the distance crosses the range between
them. -/
theorem outOfPolicy_older_iff (hlimit : -2 ^ 63 ≤ limit) (hmajor : w.major = v.major) (hminor : w.minor < v.minor)
    (hlow : 0 ≤ w.minor) (hhigh : v.minor ≤ maxInt) :
    (OutOfPolicy limit ctrl v → OutOfPolicy limit ctrl w) ↔ ¬ Crosses limit ctrl v w := by
  have hflat : flatDistance ctrl w = flatDistance ctrl v + (v.minor - w.minor) := by
    unfold flatDistance
    rw [hmajor]
    ring
  have hlegacy : legacyMaxBehind limit w ≤ legacyMaxBehind limit v := legacyMaxBehind_le hmajor hminor
  have hint := neg_le_legacyMaxBehind hlimit w
  rw [outOfPolicy_iff_window hlimit, outOfPolicy_iff_window hlimit]
  unfold Crosses
  rw [hflat]
  generalize flatDistance ctrl v = d
  unfold maxInt at *
  constructor
  · rintro hboth ⟨j, hlo, hhi, hover, hback⟩
    obtain ⟨i, hi, hi'⟩ := hboth ⟨j, hlo, hhi⟩
    -- The one multiple that brings the older distance into range is the next one.
    obtain rfl : i = j + 1 := by omega
    omega
  · rintro hnot ⟨j, hlo, hhi⟩
    by_cases hover : d + (v.minor - w.minor) - j * 2 ^ 64 ≤ 2 ^ 63 - 1
    · exact ⟨j, by omega, hover⟩
    · refine ⟨j + 1, ?_, by omega⟩
      by_contra hback
      exact hnot ⟨j, hlo, hhi, by omega, by omega⟩

/-- A version that is not older than the control plane is within the limit: in the same major, its minor; of a higher
major, the flat distance up to multiples of `2^64`. -/
structure Sane (limit : ℤ) (ctrl v : Version) : Prop where
  /-- The same major. -/
  same : v.major = ctrl.major → ctrl.minor ≤ v.minor → ctrl.minor - v.minor ≤ legacyMaxBehind limit v
  /-- A higher major. -/
  higher : ctrl.major < v.major → ∀ j : ℤ, flatDistance ctrl v - j * 2 ^ 64 ≤ maxInt →
    flatDistance ctrl v - j * 2 ^ 64 ≤ legacyMaxBehind limit v

/-- A version out of policy is older than the control plane when the comparison is sane. -/
theorem older_of_outOfPolicy_iff (hlimit : -2 ^ 63 ≤ limit) (hctrl : 0 ≤ ctrl.minor) (hv : v.minor ≤ maxInt) :
    (OutOfPolicy limit ctrl v → ctrl.gt v = true) ↔ Sane limit ctrl v := by
  rw [outOfPolicy_iff_window hlimit, Version.gt_iff]
  have hint := neg_le_legacyMaxBehind hlimit v
  constructor
  · intro holder
    refine ⟨fun hmajor hminor => ?_, fun hmajor j hj => ?_⟩
    · by_contra hfar
      have hflat : flatDistance ctrl v = ctrl.minor - v.minor := by
        unfold flatDistance
        rw [hmajor]
        ring
      have hgt := holder ⟨0, by omega, by unfold maxInt; omega⟩
      omega
    · by_contra hfar
      have hgt := holder ⟨j, not_le.mp hfar, hj⟩
      omega
  · rintro ⟨hsame, hhigher⟩ ⟨j, hlo, hhi⟩
    by_contra hnot
    -- `j` is how often the flat distance wraps around. Within a major it does not.
    rcases lt_trichotomy v.major ctrl.major with hmajor | hmajor | hmajor
    · omega
    · have hminor : ctrl.minor ≤ v.minor := by omega
      have hflat : flatDistance ctrl v = ctrl.minor - v.minor := by
        unfold flatDistance
        rw [hmajor]
        ring
      have hwithin := hsame hmajor hminor
      unfold maxInt at *
      have hj : j = 0 := by omega
      subst hj
      omega
    · exact absurd hlo (not_lt.mpr (hhigher hmajor j hhi))

end Window

/-! ## The comparisons of a run -/

/-- One comparison of kubelets or kube-proxies with a version of the control plane. -/
structure Comparison where
  /-- The key of its finding, after the category. -/
  key : String
  /-- The minors that a version may be behind. -/
  limit : ℤ
  /-- The version of the control plane. -/
  ctrl : Version
  /-- The versions compared with it. -/
  versions : List Version

section Comparisons

variable (X : External) (inv : Inventory) (k : KB) (target : Version)

/-- The versions of the kubelets. -/
def kubeletVersions : List Version := inv.nodes.filterMap fun n => version? X n.kubeletVersion

/-- The apiservers that `evalControlPlaneSkew` compares components with. -/
def seenAPIServers : List Version :=
  if componentVersions X inv "kube-apiserver" = [] then (version? X inv.serverVersion).toList
  else componentVersions X inv "kube-apiserver"

/-- The comparisons of `evalSkew` with the newest apiserver and the target. -/
def kubeletComparisons : List Comparison :=
  match (apiserverVersions X inv).getLast? with
  | none => []
  | some newest =>
    [⟨"kubelet-current", k.skew.kubeletMaxBehind, newest, kubeletVersions X inv⟩,
      ⟨"kubelet-post-upgrade", k.skew.kubeletMaxBehind, target, kubeletVersions X inv⟩]

/-- The comparisons of `evalControlPlaneSkew` of kube-proxies: with the target, and, of those not newer than the oldest
apiserver, with the newest. -/
def proxyComparisons : List Comparison :=
  ⟨"kube-proxy-post-upgrade", k.skew.kubeProxyMaxBehind, target, componentVersions X inv "kube-proxy"⟩ ::
    match (seenAPIServers X inv).head?, (seenAPIServers X inv).getLast? with
    | some oldest, some newest =>
      [⟨"kube-proxy-behind", k.skew.kubeProxyMaxBehind, newest,
        (componentVersions X inv "kube-proxy").filter fun v => !v.gt oldest⟩]
    | _, _ => []

/-- The comparisons of a run. -/
def skewComparisons : List Comparison := kubeletComparisons X inv k target ++ proxyComparisons X inv k target

variable {X inv k target}

/-- A report has the finding of a comparison, and the version is one that it is about. -/
def Comparison.Reports (c : Comparison) (rep : Report) (v : Version) : Prop :=
  v ∈ c.versions ∧ OutOfPolicy c.limit c.ctrl v ∧ ∃ f ∈ rep.findings, f.key = Category.versionSkew.name ++ "/" ++ c.key

variable {c : Comparison} {v : Version}

/-- `evalSkew` has the finding of a comparison that finds a kubelet out of policy. -/
theorem mem_evalSkew_of_outOfPolicy (hc : c ∈ kubeletComparisons X inv k target) (hv : v ∈ c.versions)
    (hout : OutOfPolicy c.limit c.ctrl v) :
    ∃ f ∈ evalSkew X inv k target, f.key = Category.versionSkew.name ++ "/" ++ c.key := by
  unfold kubeletComparisons at hc
  cases hknown : apiserverVersions X inv with
  | nil => simp [hknown] at hc
  | cons oldest rest =>
    rw [hknown, List.getLast?_eq_some_getLast (by simp)] at hc
    unfold evalSkew
    rw [hknown]
    dsimp only
    rcases List.mem_cons.mp hc with rfl | hc
    · obtain ⟨n, hn, hnv⟩ := List.mem_filterMap.mp hv
      rw [if_neg (kubeletsWith_ne_nil hn hnv hout)]
      exact ⟨_, List.mem_append_left _ (List.mem_append_left _ (List.mem_append_right _ List.mem_cons_self)), rfl⟩
    · obtain rfl := List.mem_singleton.mp hc
      obtain ⟨n, hn, hnv⟩ := List.mem_filterMap.mp hv
      rw [if_neg (kubeletsWith_ne_nil hn hnv hout)]
      exact ⟨_, List.mem_append_left _ (List.mem_append_left _ (List.mem_append_left _ List.mem_cons_self)), rfl⟩

/-- The versions of the comparisons of kube-proxies are of kube-proxies. -/
theorem mem_componentVersions_of_compared (hc : c ∈ proxyComparisons X inv k target) (hv : v ∈ c.versions) :
    v ∈ componentVersions X inv "kube-proxy" := by
  unfold proxyComparisons at hc
  rcases List.mem_cons.mp hc with rfl | hc
  · exact hv
  · split at hc
    · obtain rfl := List.mem_singleton.mp hc
      exact (List.mem_filter.mp hv).1
    · simp at hc

/-- `evalControlPlaneSkew` has the finding of a comparison that finds a kube-proxy out of policy. -/
theorem mem_evalControlPlaneSkew_of_outOfPolicy (hc : c ∈ proxyComparisons X inv k target) (hv : v ∈ c.versions)
    (hout : OutOfPolicy c.limit c.ctrl v) :
    ∃ f ∈ evalControlPlaneSkew X inv k target, f.key = Category.versionSkew.name ++ "/" ++ c.key := by
  have hproxy := mem_componentVersions_of_compared hc hv
  unfold evalControlPlaneSkew
  rw [if_neg (controlPlane_ne_nil hproxy)]
  unfold proxyComparisons at hc
  -- After the upgrade the kube-proxies are compared with the target, before it with the newest apiserver.
  rcases List.mem_cons.mp hc with rfl | hc
  · have hbad : (componentVersions X inv "kube-proxy").filter (fun v =>
        minorsBehind target v > legacyMaxBehind k.skew.kubeProxyMaxBehind v) ≠ [] :=
      List.ne_nil_of_mem (List.mem_filter.mpr ⟨hproxy, decide_eq_true hout⟩)
    unfold proxyPostFinding
    dsimp only
    rw [if_neg hbad]
    exact ⟨_, List.mem_append_left _ (List.mem_append_left _ List.mem_cons_self), rfl⟩
  · cases hservers : seenAPIServers X inv with
    | nil => simp [hservers] at hc
    | cons oldest rest =>
      rw [hservers, List.head?_cons, List.getLast?_eq_some_getLast (by simp)] at hc
      obtain rfl := List.mem_singleton.mp hc
      have hnotNewer : v.gt oldest = false := by simpa using (List.mem_filter.mp hv).2
      have hrule : ⟨"kube-proxy", k.skew.kubeProxyMaxBehind, true, .warning,
          "kube-proxy must not be newer than kube-apiserver"⟩ ∈ componentRules k := by simp [componentRules]
      have hbad : (componentVersions X inv "kube-proxy").filter (fun v => !v.gt oldest &&
          decide (minorsBehind ((oldest :: rest).getLast (by simp)) v > legacyMaxBehind k.skew.kubeProxyMaxBehind v)) ≠ [] := by
        refine List.ne_nil_of_mem (List.mem_filter.mpr ⟨hproxy, ?_⟩)
        rw [hnotNewer]
        exact decide_eq_true hout
      have hfinding : ∃ f ∈ componentFindings X inv oldest ((oldest :: rest).getLast (by simp))
          ⟨"kube-proxy", k.skew.kubeProxyMaxBehind, true, .warning, "kube-proxy must not be newer than kube-apiserver"⟩,
          f.key = Category.versionSkew.name ++ "/" ++ "kube-proxy-behind" := by
        unfold componentFindings
        simp only [↓reduceIte]
        rw [if_neg hbad]
        exact ⟨_, List.mem_append_right _ List.mem_cons_self, rfl⟩
      obtain ⟨f, hf, hkey⟩ := hfinding
      unfold seenAPIServers at hservers
      dsimp only
      rw [hservers]
      exact ⟨f, List.mem_append_right _ (List.mem_flatMap.mpr ⟨_, hrule, hf⟩), hkey⟩

/-- A comparison reports the versions it finds out of policy. -/
theorem reports_iff {fuel : ℕ} {now : Time} {rep : Report} (hrep : evaluate fuel X inv k target now = some rep)
    (hc : c ∈ skewComparisons X inv k target) (hv : v ∈ c.versions) :
    c.Reports rep v ↔ OutOfPolicy c.limit c.ctrl v := by
  refine ⟨fun h => h.2.1, fun hout => ⟨hv, hout, ?_⟩⟩
  rcases List.mem_append.mp hc with hc | hc
  · obtain ⟨f, hf, hkey⟩ := mem_evalSkew_of_outOfPolicy hc hv hout
    have hcheck : some (evalSkew X inv k target) ∈ checks fuel X inv k target now := by simp [checks]
    exact ⟨_, check_reported hrep hcheck hf, by rw [capNamespaces_key, hkey]⟩
  · obtain ⟨f, hf, hkey⟩ := mem_evalControlPlaneSkew_of_outOfPolicy hc hv hout
    have hcheck : some (evalControlPlaneSkew X inv k target) ∈ checks fuel X inv k target now := by simp [checks]
    exact ⟨_, check_reported hrep hcheck hf, by rw [capNamespaces_key, hkey]⟩

/-- The versions of a component were parsed. -/
theorem parsed_of_mem_componentVersions {component : String} (hv : v ∈ componentVersions X inv component) :
    ∃ s, version? X s = some v := by
  simp only [componentVersions, sortedVersions, List.mem_dedup, mem_sortOn] at hv
  obtain ⟨cv, -, hcv⟩ := List.mem_filterMap.mp hv
  exact ⟨_, hcv⟩

/-- The versions that are compared were parsed. -/
theorem parsed_of_compared (hc : c ∈ skewComparisons X inv k target) (hv : v ∈ c.versions) :
    ∃ s, version? X s = some v := by
  rcases List.mem_append.mp hc with hc | hc
  · have hmem : v ∈ kubeletVersions X inv := by
      unfold kubeletComparisons at hc
      split at hc
      · simp at hc
      · rcases List.mem_cons.mp hc with rfl | hc
        · exact hv
        · obtain rfl := List.mem_singleton.mp hc
          exact hv
    obtain ⟨n, -, hn⟩ := List.mem_filterMap.mp hmem
    exact ⟨_, hn⟩
  · exact parsed_of_mem_componentVersions (mem_componentVersions_of_compared hc hv)

/-- The version of the control plane of a comparison is the target, or was parsed. -/
theorem ctrl_parsed (hc : c ∈ skewComparisons X inv k target) :
    c.ctrl = target ∨ ∃ s, version? X s = some c.ctrl := by
  rcases List.mem_append.mp hc with hc | hc
  · unfold kubeletComparisons at hc
    split at hc
    · simp at hc
    case h_2 newest hnewest =>
      rcases List.mem_cons.mp hc with rfl | hc
      · have hmem : newest ∈ apiserverVersions X inv := List.mem_of_getLast? hnewest
        simp only [apiserverVersions, sortedVersions, List.mem_dedup, mem_sortOn] at hmem
        obtain ⟨s, -, hs⟩ := List.mem_filterMap.mp hmem
        exact .inr ⟨s, hs⟩
      · obtain rfl := List.mem_singleton.mp hc
        exact .inl rfl
  · unfold proxyComparisons at hc
    rcases List.mem_cons.mp hc with rfl | hc
    · exact .inl rfl
    · split at hc
      case h_1 oldest newest holdest hnewest =>
        obtain rfl := List.mem_singleton.mp hc
        have hmem : newest ∈ seenAPIServers X inv := List.mem_of_getLast? hnewest
        unfold seenAPIServers at hmem
        split_ifs at hmem
        · exact .inr ⟨_, Option.mem_toList.mp hmem⟩
        · exact .inr (parsed_of_mem_componentVersions hmem)
      · simp at hc

/-- The limit of a comparison is one of the policy's. -/
theorem limit_of_compared (hc : c ∈ skewComparisons X inv k target) :
    c.limit = k.skew.kubeletMaxBehind ∨ c.limit = k.skew.kubeProxyMaxBehind := by
  unfold skewComparisons kubeletComparisons proxyComparisons at hc
  rcases List.mem_append.mp hc with hc | hc
  · split at hc
    · simp at hc
    · rcases List.mem_cons.mp hc with rfl | hc
      · exact .inl rfl
      · obtain rfl := List.mem_singleton.mp hc
        exact .inl rfl
  · rcases List.mem_cons.mp hc with rfl | hc
    · exact .inr rfl
    · split at hc
      · obtain rfl := List.mem_singleton.mp hc
        exact .inr rfl
      · simp at hc

end Comparisons

/-! ## What is reported and the order of versions -/

/-- What a comparison reports follows the order of versions. -/
structure RealDistances (c : Comparison) (rep : Report) : Prop where
  /-- Only a version older than the control plane is reported. -/
  older : ∀ v, c.Reports rep v → c.ctrl.gt v = true
  /-- With a version that is reported, so is an older one of the same major. -/
  downward : ∀ v ∈ c.versions, ∀ w ∈ c.versions, w.major = v.major → c.ctrl.gt v = true → c.ctrl.gt w = true →
    v.gt w = true → c.Reports rep v → c.Reports rep w

/-- The versions of a comparison whose flat distance tells their order. -/
structure Comparison.Sound (c : Comparison) : Prop where
  /-- A version that is not older is within the limit. -/
  sane : ∀ v ∈ c.versions, Sane c.limit c.ctrl v
  /-- No distance crosses the range from a version to an older one of its major. -/
  uncrossed : ∀ v ∈ c.versions, ∀ w ∈ c.versions, w.major = v.major → c.ctrl.gt v = true → c.ctrl.gt w = true →
    v.gt w = true → ¬ Crosses c.limit c.ctrl v w

/-- The versions of one major tell their order, whatever limit that is not negative. -/
theorem Comparison.sound_of_major {c : Comparison} (hlimit : 0 ≤ c.limit) (hctrl : 0 ≤ c.ctrl.minor ∧ c.ctrl.minor ≤ maxInt)
    (hversions : ∀ v ∈ c.versions, v.major = c.ctrl.major ∧ 0 ≤ v.minor ∧ v.minor ≤ maxInt) : c.Sound := by
  have hlegacy : ∀ v, 0 ≤ legacyMaxBehind c.limit v := by
    intro v
    unfold legacyMaxBehind
    split_ifs <;> omega
  have hflat : ∀ v ∈ c.versions, flatDistance c.ctrl v = c.ctrl.minor - v.minor := by
    intro v hv
    unfold flatDistance
    rw [(hversions v hv).1]
    ring
  refine ⟨fun v hv => ⟨fun _ hminor => ?_, fun hmajor => ?_⟩, ?_⟩
  · have := hlegacy v
    omega
  · have := (hversions v hv).1
    omega
  · rintro v hv w hw - - - - ⟨j, hlo, hhi, hover, -⟩
    have := hlegacy v
    obtain ⟨-, hv0, hv1⟩ := hversions v hv
    obtain ⟨-, hw0, hw1⟩ := hversions w hw
    rw [hflat v hv] at hlo hhi
    rw [hflat w hw] at hover
    unfold maxInt at *
    omega

/-- A run reports kubelets and kube-proxies by their real distance when the flat distances of all its comparisons tell the
order of versions, and only then. -/
theorem realDistances_iff {X : External} {inv : Inventory} {k : KB} {target : Version} {text : String} {fuel : ℕ} {now : Time}
    {rep : Report} (htarget : version? X text = some target) (hkubelet : -2 ^ 63 ≤ k.skew.kubeletMaxBehind)
    (hproxy : -2 ^ 63 ≤ k.skew.kubeProxyMaxBehind) (hrep : evaluate fuel X inv k target now = some rep) :
    (∀ c ∈ skewComparisons X inv k target, RealDistances c rep) ↔ ∀ c ∈ skewComparisons X inv k target, c.Sound := by
  refine forall₂_congr fun c hc => ?_
  have hlimit : -2 ^ 63 ≤ c.limit := by
    rcases limit_of_compared hc with h | h <;> rw [h] <;> assumption
  have hctrl : 0 ≤ c.ctrl.minor := by
    rcases ctrl_parsed hc with h | ⟨s, hs⟩
    · rw [h]
      exact (version?_range htarget).1
    · exact (version?_range hs).1
  have hrange : ∀ v ∈ c.versions, 0 ≤ v.minor ∧ v.minor ≤ maxInt := by
    intro v hv
    obtain ⟨s, hs⟩ := parsed_of_compared hc hv
    exact version?_range hs
  have hreports : ∀ {v}, v ∈ c.versions → (c.Reports rep v ↔ OutOfPolicy c.limit c.ctrl v) := reports_iff hrep hc
  -- Within one major an older version is reported with a newer one, unless the distance wraps around between them.
  have hpair : ∀ v ∈ c.versions, ∀ w ∈ c.versions, w.major = v.major → v.gt w = true →
      ((c.Reports rep v → c.Reports rep w) ↔ ¬ Crosses c.limit c.ctrl v w) := by
    intro v hv w hw hmajor hnewer
    have hminor : w.minor < v.minor := by
      rw [Version.gt_iff] at hnewer
      omega
    rw [hreports hv, hreports hw]
    exact outOfPolicy_older_iff hlimit hmajor hminor (hrange w hw).1 (hrange v hv).2
  constructor
  · rintro ⟨holder, hdownward⟩
    refine ⟨fun v hv => ?_, fun v hv w hw hmajor hv' hw' hnewer => ?_⟩
    · exact (older_of_outOfPolicy_iff hlimit hctrl (hrange v hv).2).mp fun hout => holder v ((hreports hv).mpr hout)
    · exact (hpair v hv w hw hmajor hnewer).mp (hdownward v hv w hw hmajor hv' hw' hnewer)
  · rintro ⟨hsane, huncrossed⟩
    refine ⟨fun v hv => ?_, fun v hv w hw hmajor hv' hw' hnewer => ?_⟩
    · exact (older_of_outOfPolicy_iff hlimit hctrl (hrange v hv.1).2).mpr (hsane v hv.1) hv.2.1
    · exact (hpair v hv w hw hmajor hnewer).mpr (huncrossed v hv w hw hmajor hv' hw' hnewer)

/-- A node of 1.17 before and after an upgrade from 1.20 to 1.21 is reported by its distance. -/
theorem realDistances_one_node : version? External.ascii "v1.21.0" = some ⟨1, 21⟩ ∧
    ∃ rep, evaluate 3 External.ascii (oneNode "v1.17.0") removesIngress ⟨1, 21⟩ 0 = some rep ∧
      ∀ c ∈ skewComparisons External.ascii (oneNode "v1.17.0") removesIngress ⟨1, 21⟩, RealDistances c rep := by
  have htarget : version? External.ascii "v1.21.0" = some ⟨1, 21⟩ := by decide +kernel
  have hsome : (evaluate 3 External.ascii (oneNode "v1.17.0") removesIngress ⟨1, 21⟩ 0).isSome = true := by decide +kernel
  obtain ⟨rep, hrep⟩ := Option.isSome_iff_exists.mp hsome
  refine ⟨htarget, rep, hrep, (realDistances_iff htarget (by decide) (by decide) hrep).mpr fun c hc => ?_⟩
  have hall : ∀ c ∈ skewComparisons External.ascii (oneNode "v1.17.0") removesIngress ⟨1, 21⟩,
      0 ≤ c.limit ∧ (0 ≤ c.ctrl.minor ∧ c.ctrl.minor ≤ maxInt) ∧
        ∀ v ∈ c.versions, v.major = c.ctrl.major ∧ 0 ≤ v.minor ∧ v.minor ≤ maxInt := by decide +kernel
  obtain ⟨hlimit, hctrl, hversions⟩ := hall c hc
  exact Comparison.sound_of_major hlimit hctrl hversions

/-- A kubelet of 2.0 is newer than an apiserver of 1.5000, and is reported as behind it. -/
theorem kubelet_newer_and_behind :
    let inv : Inventory := { serverVersion := "v1.5000.0", nodes := [{ name := "a", kubeletVersion := "v2.0.0" }] }
    admitInventory External.ascii inv = .ok inv ∧ version? External.ascii "v1.5000.0" = some ⟨1, 5000⟩ ∧
      version? External.ascii "v2.0.0" = some ⟨2, 0⟩ ∧ version? External.ascii "1.5001" = some ⟨1, 5001⟩ ∧
      ∃ rep, evaluate 3 External.ascii inv removesIngress ⟨1, 5001⟩ 0 = some rep ∧
        ¬ ∀ c ∈ skewComparisons External.ascii inv removesIngress ⟨1, 5001⟩, RealDistances c rep := by
  intro inv
  have hsome : (evaluate 3 External.ascii inv removesIngress ⟨1, 5001⟩ 0).isSome = true := by decide +kernel
  obtain ⟨rep, hrep⟩ := Option.isSome_iff_exists.mp hsome
  refine ⟨(admitInventory_eq_ok _).mpr ⟨by decide +kernel, rfl⟩, by decide +kernel, by decide +kernel, by decide +kernel,
    rep, hrep, fun hall => ?_⟩
  have hc : (⟨"kubelet-current", removesIngress.skew.kubeletMaxBehind, ⟨1, 5000⟩, [⟨2, 0⟩]⟩ : Comparison) ∈
      skewComparisons External.ascii inv removesIngress ⟨1, 5001⟩ := by
    have hlast : (apiserverVersions External.ascii inv).getLast? = some ⟨1, 5000⟩ := by decide +kernel
    have hversions : kubeletVersions External.ascii inv = [⟨2, 0⟩] := by decide +kernel
    unfold skewComparisons kubeletComparisons
    rw [hlast, hversions]
    exact List.mem_cons_self
  have hreports := (reports_iff hrep hc List.mem_cons_self).mpr (by decide)
  exact absurd ((hall _ hc).older _ hreports) (by decide)

end UpgradeScope
