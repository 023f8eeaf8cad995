import UpgradeScope.Engine.Budget
import UpgradeScope.Engine.Coverage
import UpgradeScope.Engine.Sources
import UpgradeScope.Suppress.Order
import UpgradeScope.Server.Gate

/-!
# What a listing leaves out

A finding says how many affected objects it does not list, and suppression takes a finding by its
objects only when it leaves none out. Every row of an admitted inventory leaves out a number that is
not negative, but nothing bounds it from above, so each sum on the way to a finding can pass the
largest `int`. The merge of the gate adds with `satAdd`, and the volume plugins count what is left of
the `int`. The checks of a release's manifest and the cut of the gate's listings add with `+`, which
wraps around: the number is right exactly when the sum is none or its low 64 bits are a positive `int`
(`Telling`, `omitted_iff`).
-/

namespace UpgradeScope

open Go Sorting Merging Kb Registry Suppress

/-! ## Sums that wrap around -/

/-- A sum of counts that an `int` still tells from none. -/
def Telling (sum : ℤ) : Prop := sum = 0 ∨ 0 < wrap64 sum

/-- A count in range is told. -/
theorem telling_of_range {n : ℤ} (hn : 0 ≤ n) (hmax : n ≤ maxInt) : Telling n := by
  rcases hn.eq_or_lt with rfl | hpos
  · exact .inl rfl
  · right
    rw [wrap64_of_range (by omega) hmax]
    exact hpos

/-- What `+` makes of counts and of what a cut adds is right when the sum is told. -/
theorem telling_iff {counts : List ℤ} (hcounts : ∀ n ∈ counts, 0 ≤ n) (cut : ℕ) :
    (0 ≤ wrap64 (counts.sum + cut) ∧ (wrap64 (counts.sum + cut) = 0 → (∀ n ∈ counts, n = 0) ∧ cut = 0)) ↔
      Telling (counts.sum + cut) := by
  have hsum : 0 ≤ counts.sum := List.sum_nonneg hcounts
  constructor
  · rintro ⟨hnonneg, hzero⟩
    rcases hnonneg.eq_or_lt with heq | hpos
    · obtain ⟨hnone, hcut⟩ := hzero heq.symm
      left
      rw [List.sum_eq_zero hnone, hcut]
      rfl
    · exact .inr hpos
  · rintro (heq | hpos)
    · have hnone : counts.sum = 0 := by omega
      rw [heq]
      refine ⟨le_refl _, fun _ => ⟨fun n hn => ?_, by omega⟩⟩
      have hle := List.single_le_sum hcounts n hn
      exact le_antisymm (hle.trans hnone.le) (hcounts n hn)
    · exact ⟨hpos.le, fun heq => absurd heq hpos.ne'⟩

/-- An `int` added to a wrapped sum. -/
theorem wrap64_wrap64_add (a b : ℤ) : wrap64 (wrap64 a + b) = wrap64 (a + b) := Int.bmod_add_bmod

/-! ## Rows in range -/

/-- A row leaves out a number of objects that an `int` holds, not fewer than none. -/
def OmitsInt (omitted : ℤ) : Prop := 0 ≤ omitted ∧ omitted ≤ maxInt

/-- The rows that an evaluation reads leave out an `int`. -/
structure Inventory.OmitsInts (inv : Inventory) : Prop where
  /-- The objects at flagged APIs. -/
  usage : ∀ u ∈ inv.apiUsage, OmitsInt u.objectsOmitted
  /-- The objects nothing can be attributed to. -/
  unknown : ∀ u ∈ inv.apiAuthorshipUnknown, OmitsInt u.objectsOmitted
  /-- The stored manifests of the Helm releases. -/
  manifests : ∀ r ∈ inv.helmReleases, ∀ u ∈ r.manifestAPIs, OmitsInt u.objectsOmitted
  /-- The custom resources. -/
  crds : ∀ c ∈ inv.crds, ∀ u ∈ c.usage, OmitsInt u.objectsOmitted
  /-- The volume plugins, whose counts are read too. -/
  volumes : ∀ v ∈ inv.volumePlugins, OmitsInt v.objectsOmitted ∧ v.count ≤ maxInt

/-- What a volume plugin's finding leaves out is in range: the row counts no more than an `int`. -/
theorem omitsInt_tally {v : VolumePluginUse} (h : OmitsInt v.objectsOmitted) (hcount : v.count ≤ maxInt) :
    OmitsInt v.tally.omitted := by
  obtain ⟨hnonneg, hmax⟩ := h
  have hlen : (0 : ℤ) ≤ v.objects.length := Int.natCast_nonneg _
  have hmaxInt : (0 : ℤ) ≤ maxInt := by decide
  unfold VolumePluginUse.tally VolumePluginUse.unlisted VolumePluginUse.refs OmitsInt
  dsimp only
  rw [max_eq_left hnonneg]
  split_ifs <;> omega

section Found

variable {X : External} {k : KB} {target : Version} {now : Time} {inv : Inventory} {f g : Finding} {rows : List Tally}

@[simp] theorem capNamespaces_objectsOmitted (f : Finding) : (capNamespaces f).objectsOmitted = f.objectsOmitted := by
  unfold capNamespaces
  split_ifs <;> rfl

/-- A usage finding leaves out as many when it takes callers. -/
theorem withCallers_objectsOmitted (f : Finding) (calls : List (DeprecatedCall × Finding)) :
    (withCallers f calls).objectsOmitted = f.objectsOmitted := by
  unfold withCallers
  split_ifs <;> rfl

/-- A row leaves out the number that its own finding does. -/
theorem omitted_single {t : Tally} (h : OmitsInt t.omitted) (hf : f.objectsOmitted = t.omitted) :
    f.objectsOmitted = wrap64 (([t].map Tally.omitted).sum) ∧ ∀ s ∈ [t], 0 ≤ s.omitted := by
  refine ⟨?_, fun s hs => ?_⟩
  · rw [List.map_singleton, List.sum_singleton, wrap64_of_range (by linarith [h.1]) h.2, hf]
  · rw [List.mem_singleton.mp hs]
    exact h.1

variable {nsInfo : List NamespaceInfo} {rel : HelmRelease}

/-- The finding of a row nobody can be named for leaves out what the row does. -/
theorem omitted_authorshipFinding {u : APIUsage} (h : authorshipFinding k nsInfo u = some f) :
    f.objectsOmitted = u.objectsOmitted := by
  unfold authorshipFinding at h
  split at h
  · simp at h
  · split at h
    · simp at h
    · obtain rfl := Option.some.inj h
      rfl

/-- The finding of a volume plugin leaves out what its row does, and what the row counts besides. -/
theorem omitted_volumeFinding {src : Source} {u : VolumePluginUse} (h : volumeFinding k target src nsInfo u = some f) :
    f.objectsOmitted = wrap64 u.tally.omitted := by
  unfold volumeFinding at h
  split at h
  · simp at h
  · obtain ⟨p, -, rfl⟩ := Option.map_eq_some_iff.mp h
    rfl

/-- The finding of a manifest's rows leaves out what they do together. -/
theorem omitted_bucketFinding {ms : List ManifestRow} {cat : Category} {sev : Severity}
    (h : bucketFinding k target rel ms cat sev = some f) :
    f.objectsOmitted = wrap64 ((ms.map ManifestRow.tally).map Tally.omitted).sum := by
  have hfold : ms.foldl (fun n r => wrap64 (n + r.usage.objectsOmitted)) 0 =
      (ms.map fun r => r.usage.objectsOmitted).foldl plainAdd 0 := by
    rw [List.foldl_map]
    rfl
  unfold bucketFinding at h
  split at h
  · simp at h
  · obtain rfl := Option.some.inj h
    rw [List.map_map]
    refine hfold.trans ?_
    rw [foldl_plainAdd _ (by decide), zero_add]
    rfl

/-- A row of a bucket is a row of the release's manifest. -/
theorem usage_of_mem_bucket {removed : Bool} {r : ManifestRow} (hr : r ∈ bucket k target inv rel removed) :
    r.usage ∈ rel.manifestAPIs := by
  have hmem : r ∈ manifestRows k target inv.apiUsage rel := by
    cases removed <;> exact (List.mem_filter.mp hr).1
  obtain ⟨u, hu, hrow⟩ := List.mem_filterMap.mp hmem
  unfold manifestRow at hrow
  split at hrow
  · simp at hrow
  · split at hrow
    · simp at hrow
    · dsimp only at hrow
      split at hrow
      · simp at hrow
      · obtain rfl := Option.some.inj hrow
        exact mem_sortOn.mp hu

/-- What a finding leaves out is the sum of what its rows do, wrapped around. -/
theorem BuiltFrom.omitted (hinv : inv.OmitsInts) (h : BuiltFrom X k target now inv f rows) :
    f.objectsOmitted = wrap64 (rows.map Tally.omitted).sum ∧ ∀ t ∈ rows, 0 ≤ t.omitted := by
  cases h with
  | usage calls hu hg =>
    refine omitted_single (hinv.usage _ hu) ?_
    rw [withCallers_objectsOmitted, capNamespaces_objectsOmitted]
    exact (usageFinding_eq_some k target hg).2.2.2.1
  | authorship hu hg =>
    refine omitted_single (hinv.unknown _ hu) ?_
    rw [capNamespaces_objectsOmitted]
    exact omitted_authorshipFinding hg
  -- The one finding of several rows, so the one whose sum can wrap.
  | @manifest rel g removed hrel hinstalled hg =>
    refine ⟨?_, fun t ht => ?_⟩
    · rw [capNamespaces_objectsOmitted]
      show g.objectsOmitted = _
      exact omitted_bucketFinding hg
    · obtain ⟨r, hr, rfl⟩ := List.mem_map.mp ht
      exact (hinv.manifests _ hrel _ (usage_of_mem_bucket hr)).1
  | @chart rel g hrel hinstalled hg =>
    refine omitted_single (t := rel.tally) ⟨le_refl _, (by decide : (0 : ℤ) ≤ maxInt)⟩ ?_
    rw [capNamespaces_objectsOmitted]
    show g.objectsOmitted = _
    exact (objects_evalChartKubeVersion hg).2
  | @addOn id a g ins hid ha hg hcovers =>
    have hnone : ∀ t ∈ ins.map AddOnInstall.tally, t.omitted = 0 := by
      intro t ht
      obtain ⟨i, -, rfl⟩ := List.mem_map.mp ht
      rfl
    refine ⟨?_, fun t ht => (hnone t ht).ge⟩
    rw [capNamespaces_objectsOmitted, hcovers.objects.2, List.sum_eq_zero]
    · rfl
    · intro n hn
      obtain ⟨t, ht, rfl⟩ := List.mem_map.mp hn
      exact hnone t ht
  | @deprecatedVersion c v u hc hv hu =>
    refine omitted_single (hinv.crds c hc u (List.mem_reverse.mp (List.mem_of_find?_eq_some hu))) ?_
    rw [capNamespaces_objectsOmitted]
    unfold deprecatedVersionFinding
    dsimp only
    rw [hu]
    rfl
  | unservedVersion hc hu =>
    refine omitted_single (hinv.crds _ hc _ (List.mem_filter.mp hu).1) ?_
    rw [capNamespaces_objectsOmitted]
    rfl
  | @volume u g hu hg =>
    have hint := omitsInt_tally (hinv.volumes u hu).1 (hinv.volumes u hu).2
    refine omitted_single hint ?_
    rw [capNamespaces_objectsOmitted, omitted_volumeFinding hg, wrap64_of_range (by linarith [hint.1]) hint.2]
  | cluster hf => exact ⟨hf.omitted, by simp⟩

/-- No installed release's manifest has flagged rows, those removed at the target or the others, that leave out a sum
that an `int` does not tell. -/
def Inventory.ReleasesTelling (inv : Inventory) (k : KB) (target : Version) : Prop :=
  ∀ rel ∈ inv.helmReleases, helmInstalled rel = true → ∀ removed,
    Telling ((bucket k target inv rel removed).map fun r => r.usage.objectsOmitted).sum

/-- The sum of every finding's rows is told when those of the manifests are. -/
theorem BuiltFrom.telling (hinv : inv.OmitsInts) (hfit : inv.ReleasesTelling k target)
    (h : BuiltFrom X k target now inv f rows) : Telling (rows.map Tally.omitted).sum := by
  have hone : ∀ t : Tally, OmitsInt t.omitted → Telling ([t].map Tally.omitted).sum := by
    intro t ht
    rw [List.map_singleton, List.sum_singleton]
    exact telling_of_range ht.1 ht.2
  cases h with
  | usage calls hu hg => exact hone _ (hinv.usage _ hu)
  | authorship hu hg => exact hone _ (hinv.unknown _ hu)
  | manifest removed hrel hinstalled hg =>
    have htold := hfit _ hrel hinstalled removed
    rw [List.map_map]
    exact htold
  | chart hrel hinstalled hg => exact .inl rfl
  | addOn hid ha hg hcovers =>
    refine .inl (List.sum_eq_zero fun n hn => ?_)
    obtain ⟨t, ht, rfl⟩ := List.mem_map.mp hn
    obtain ⟨i, -, rfl⟩ := List.mem_map.mp ht
    rfl
  | deprecatedVersion hc hv hu =>
    exact hone _ (hinv.crds _ hc _ (List.mem_reverse.mp (List.mem_of_find?_eq_some hu)))
  | unservedVersion hc hu => exact hone _ (hinv.crds _ hc _ (List.mem_filter.mp hu).1)
  | volume hu hg => exact hone _ (omitsInt_tally (hinv.volumes _ hu).1 (hinv.volumes _ hu).2)
  | cluster hf => exact .inl rfl

/-- The number that a finding says it leaves out is not negative, and none only if no row leaves any out. -/
structure OmittedKept (X : External) (k : KB) (target : Version) (now : Time) (inv : Inventory) (f : Finding) : Prop where
  /-- It is not negative. -/
  nonneg : 0 ≤ f.objectsOmitted
  /-- It is none only if every row lists all it counts. -/
  zero : ∀ rows, BuiltFrom X k target now inv f rows → f.objectsOmitted = 0 → ∀ t ∈ rows, t.omitted = 0

/-- A finding's number is kept when the sum of its rows is told. -/
theorem BuiltFrom.kept_iff (hinv : inv.OmitsInts) (h : BuiltFrom X k target now inv f rows) :
    (0 ≤ f.objectsOmitted ∧ (f.objectsOmitted = 0 → ∀ t ∈ rows, t.omitted = 0)) ↔ Telling (rows.map Tally.omitted).sum := by
  obtain ⟨homitted, hnonneg⟩ := h.omitted hinv
  have hiff := telling_iff (List.forall_mem_map.mpr hnonneg) 0
  rw [Nat.cast_zero, add_zero, List.forall_mem_map] at hiff
  rw [homitted, ← hiff]
  simp

/-- The findings of an evaluation say how much they leave out exactly when the sums of the manifests are told. -/
theorem found_omitted_iff {fuel : ℕ} {found : List Finding} (hinv : inv.OmitsInts)
    (hfound : foundFindings fuel X inv k target now = some found) :
    (∀ f ∈ found, OmittedKept X k target now inv f) ↔ inv.ReleasesTelling k target := by
  constructor
  · intro h rel hrel hinstalled removed
    by_cases hempty : bucket k target inv rel removed = []
    · rw [hempty]
      exact .inl rfl
    · obtain ⟨g, hg, -⟩ := bucketFinding_of_ne_nil k target rel hempty (bucketGrade removed).1 (bucketGrade removed).2
      have hbuilt : BuiltFrom X k target now inv _ _ := .manifest removed hrel hinstalled hg
      rcases hbuilt.reported hfound with ⟨-, hnone⟩ | ⟨f, hf, -, hbuilt⟩
      · exact absurd (List.map_eq_nil_iff.mp hnone) hempty
      · have htold := (hbuilt.kept_iff hinv).mp ⟨(h f hf).nonneg, (h f hf).zero _ hbuilt⟩
        rw [List.map_map] at htold
        exact htold
  · intro hfit f hf
    obtain ⟨rows, hbuilt⟩ := exists_builtFrom hfound hf
    refine ⟨((hbuilt.kept_iff hinv).mpr (hbuilt.telling hinv hfit)).1, fun rows' hbuilt' => ?_⟩
    exact ((hbuilt'.kept_iff hinv).mpr (hbuilt'.telling hinv hfit)).2

end Found

/-! ## The cut of the listings -/

section Cut

variable {mine : ObjectRef → Bool}

/-- How many refs the loop keeps: the manifests' and as many others as there is room for, `maxObjectRefs` at most. -/
theorem length_keepRefs {os kept : List ObjectRef} {room : ℕ} (hkept : kept.length ≤ maxObjectRefs)
    (hroom : room = 0 ∨ kept.length + room + os.countP mine ≤ maxObjectRefs) :
    (keepRefs mine os kept room).length =
      min maxObjectRefs (kept.length + os.countP mine + min room (os.countP fun o => !mine o)) := by
  induction os generalizing kept room with
  | nil => simp [keepRefs, hkept]
  | cons o os ih =>
    have hpush : (kept ++ [o]).length = kept.length + 1 := by simp
    have hgoes := fun kept room => @ih kept room
    unfold keepRefs
    -- A ref of the manifests is kept while there is a place at all, another while its own room lasts.
    cases hmine : mine o with
    | true =>
      rw [List.countP_cons_of_pos hmine] at hroom ⊢
      rw [List.countP_cons_of_neg (by simp [hmine])]
      by_cases hfew : kept.length < maxObjectRefs
      · rw [if_pos (by simpa using hfew), hgoes (kept ++ [o]) room (by omega) (by omega), hpush]
        omega
      · rw [if_neg (by simpa using hfew), if_neg (by simp), hgoes kept room hkept (by omega)]
        omega
    | false =>
      rw [List.countP_cons_of_neg (by simp [hmine])] at hroom ⊢
      rw [List.countP_cons_of_pos (by simp [hmine]), if_neg (by simp)]
      by_cases hspace : 0 < room
      · rw [if_pos (by simpa using hspace), hgoes (kept ++ [o]) (room - 1) (by omega) (by omega), hpush]
        omega
      · rw [if_neg (by simpa using hspace), hgoes kept room hkept (by omega)]
        omega

/-- The refs that the cut drops. -/
def cutRefs (n : ℕ) : ℕ := n - maxObjectRefs

/-- The cut adds what it drops to what a finding leaves out, and drops all but `maxObjectRefs`. -/
theorem trim_spec (mine : ObjectRef → Bool) {g : Finding} {sum : ℤ} (hsum : g.objectsOmitted = wrap64 sum) :
    (trim mine g).objectsOmitted = wrap64 (sum + cutRefs g.objects.length) ∧
      ((trim mine g).objects = g.objects ↔ cutRefs g.objects.length = 0) := by
  have hparts : g.objects.length = g.objects.countP mine + g.objects.countP fun o => !mine o := by
    rw [List.length_eq_countP_add_countP mine]
    simp
  unfold trim cutRefs
  split_ifs with hshort
  · rw [Nat.sub_eq_zero_of_le hshort]
    simp [hsum]
  · have hlen : (keepRefs mine g.objects [] (maxObjectRefs - g.objects.countP mine)).length = maxObjectRefs := by
      rw [length_keepRefs (by simp) (by simp only [List.length_nil]; omega)]
      simp only [List.length_nil]
      omega
    dsimp only
    rw [hlen, hsum, wrap64_wrap64_add, Nat.cast_sub (by omega)]
    refine ⟨rfl, fun heq => ?_, fun hzero => by omega⟩
    rw [heq] at hlen
    omega

end Cut

/-! ## What suppression leaves -/

section Kept

variable {X : External} {opts : Options} {rules : List Rule} {f g : Finding}

/-- What stays of a finding leaves out as much as the finding, and lists its open objects. -/
theorem kept_spec (h : (applyFinding X opts rules f).kept = some g) :
    namedWhole rules f = false ∧ g.objectsOmitted = f.objectsOmitted ∧ g.objects = openObjects X opts rules f := by
  rw [kept_applyFinding] at h
  split at h
  · simp at h
  · rename_i hwhole
    simp only [Bool.or_eq_true, not_or, Bool.not_eq_true] at hwhole
    refine ⟨hwhole.1, ?_⟩
    unfold partKept at h
    split at h
    · rename_i hall
      obtain rfl := Option.some.inj h
      exact ⟨rfl, (List.filter_sublist.eq_of_length hall).symm⟩
    · split at h
      · simp at h
      · obtain rfl := Option.some.inj h
        exact ⟨rfl, rfl⟩

/-- A finding with open objects stays, unless a rule without selectors takes it. -/
theorem exists_kept (hwhole : namedWhole rules f = false) (hopen : openObjects X opts rules f ≠ []) :
    ∃ g, (applyFinding X opts rules f).kept = some g := by
  have hobjects : f.objects ≠ [] := by
    intro hnil
    exact hopen (by simp [openObjects, hnil])
  have hless : namedObjectless X rules f = false := by simp [namedObjectless, hobjects]
  rw [kept_applyFinding, hwhole, hless, Bool.or_false, if_neg Bool.false_ne_true]
  unfold partKept
  split
  · exact ⟨_, rfl⟩
  · rw [if_neg fun h => hopen h.1]
    exact ⟨_, rfl⟩

/-- Findings that agree but for their callers have the same objects open. -/
theorem Finding.Alike.openObjects_eq (h : f.Alike g) : openObjects X opts rules f = openObjects X opts rules g :=
  calc openObjects X opts rules f = openObjects X opts rules { g with callers := f.callers, detail := f.detail } :=
        congrArg _ h
    _ = openObjects X opts rules g := rfl

/-- Rules without selectors name findings that agree but for their callers alike. -/
theorem Finding.Alike.namedWhole_eq (h : f.Alike g) : namedWhole rules f = namedWhole rules g :=
  calc namedWhole rules f = namedWhole rules { g with callers := f.callers, detail := f.detail } := congrArg _ h
    _ = namedWhole rules g := rfl

end Kept

/-! ## The answer of the gate -/

section Answer

variable (X : External) (k : KB) (target : Version) (now : Time) (st : Inventory) (rules : List Rule)

/-- The options of the gate's rules. -/
def gateOptions : Options := { now := now, source := "config" }

/-- No finding that no rule takes whole has more than `maxObjectRefs` objects open and rows that leave out, with the refs
that the cut drops, a sum that an `int` does not tell. -/
def CutsTelling : Prop :=
  ∀ f rows, BuiltFrom X k target now st f rows → namedWhole (activeRules X (gateOptions now) rules).1 f = false →
    maxObjectRefs < (openObjects X (gateOptions now) (activeRules X (gateOptions now) rules).1 f).length →
      Telling ((rows.map Tally.omitted).sum +
        cutRefs (openObjects X (gateOptions now) (activeRules X (gateOptions now) rules).1 f).length)

/-- The findings of a gate's answer say how much they leave out. -/
structure AnswerKept (mine : ObjectRef → Bool) (full ans : Report) : Prop where
  /-- Those that suppression judges do, so it takes none whole for a sum that wrapped to none. -/
  judged : ∀ f ∈ full.findings, OmittedKept X k target now st f
  /-- The number of the answer's is not negative. -/
  nonneg : ∀ g ∈ ans.findings, 0 ≤ g.objectsOmitted
  /-- What the cut makes of what stays of a finding says none only if no row leaves any out and the cut drops none. -/
  zero : ∀ f ∈ full.findings, ∀ rows, BuiltFrom X k target now st f rows →
    ∀ g, (applyFinding X (gateOptions now) (activeRules X (gateOptions now) rules).1 f).kept = some g →
      (trim mine g).objectsOmitted = 0 → (∀ t ∈ rows, t.omitted = 0) ∧ (trim mine g).objects = g.objects

variable {X k target now st rules}

/-- What is cut of what stays of a finding is right when the sum with the dropped refs is told. -/
theorem BuiltFrom.cut_iff {f g : Finding} {rows : List Tally} (mine : ObjectRef → Bool) (hst : st.OmitsInts)
    (h : BuiltFrom X k target now st f rows)
    (hkept : (applyFinding X (gateOptions now) (activeRules X (gateOptions now) rules).1 f).kept = some g) :
    (0 ≤ (trim mine g).objectsOmitted ∧ ((trim mine g).objectsOmitted = 0 →
      (∀ t ∈ rows, t.omitted = 0) ∧ (trim mine g).objects = g.objects)) ↔
        Telling ((rows.map Tally.omitted).sum + cutRefs g.objects.length) := by
  obtain ⟨homitted, hnonneg⟩ := h.omitted hst
  obtain ⟨-, hsame, -⟩ := kept_spec hkept
  obtain ⟨htrim, hobjects⟩ := trim_spec mine (hsame.trans homitted)
  rw [← telling_iff (List.forall_mem_map.mpr hnonneg), List.forall_mem_map, htrim, hobjects]

/-- Under the conditions the sum of a finding's rows is told with the refs that the cut drops. -/
theorem BuiltFrom.telling_cut {f g : Finding} {rows : List Tally} (hst : st.OmitsInts) (hfit : st.ReleasesTelling k target)
    (hcuts : CutsTelling X k target now st rules) (h : BuiltFrom X k target now st f rows)
    (hkept : (applyFinding X (gateOptions now) (activeRules X (gateOptions now) rules).1 f).kept = some g) :
    Telling ((rows.map Tally.omitted).sum + cutRefs g.objects.length) := by
  obtain ⟨hwhole, -, hobjects⟩ := kept_spec hkept
  by_cases hlong : maxObjectRefs < g.objects.length
  · rw [hobjects] at hlong ⊢
    exact hcuts f rows h hwhole hlong
  · unfold cutRefs
    rw [Nat.sub_eq_zero_of_le (not_lt.mp hlong), Nat.cast_zero, add_zero]
    exact h.telling hst hfit

/-- The findings of a gate's answer say how much they leave out exactly when the sums of the manifests are told, and those
with what the cut drops. -/
theorem answer_omitted_iff {fuel : ℕ} {limit : ℤ} {full : Report} (mine : ObjectRef → Bool) (hst : st.OmitsInts)
    (hfull : evaluateWithin fuel X st k target now limit = some (.ok full)) :
    AnswerKept X k target now st rules mine full (capObjects (suppressGate X now full rules) mine) ↔
      st.ReleasesTelling k target ∧ CutsTelling X k target now st rules := by
  obtain ⟨found, hfound, rfl⟩ := foundFindings_of_within hfull
  have hmem : ∀ f, f ∈ (reportOf X st k target now found).findings ↔ f ∈ found := fun f => mem_sortOn
  have hopened := findings_apply X (gateOptions now) (reportOf X st k target now found) rules
  constructor
  · rintro ⟨hjudged, hnonneg, hzero⟩
    refine ⟨(found_omitted_iff hst hfound).mp fun f hf => hjudged f ((hmem f).mpr hf), fun f rows hbuilt hwhole hlong => ?_⟩
    rcases hbuilt.reported hfound with ⟨hbare, -⟩ | ⟨f', hf', halike, hbuilt'⟩
    · simp [openObjects, hbare.objects] at hlong
    -- The finding of the report stays with the same objects open.
    · rw [← halike.openObjects_eq] at hlong ⊢
      obtain ⟨g, hkept⟩ := exists_kept (halike.namedWhole_eq.trans hwhole)
        (List.ne_nil_of_length_pos (Nat.zero_lt_of_lt hlong))
      have hg : g ∈ (suppressGate X now (reportOf X st k target now found) rules).findings := by
        refine hopened.mem_iff.mpr (List.mem_flatMap.mpr ⟨f', (hmem f').mpr hf', ?_⟩)
        exact List.mem_append_left _ (Option.mem_toList.mpr hkept)
      have htold := (hbuilt'.cut_iff mine hst hkept).mp
        ⟨hnonneg _ (List.mem_map_of_mem hg), hzero f' ((hmem f').mpr hf') rows hbuilt' g hkept⟩
      rwa [(kept_spec hkept).2.2] at htold
  · rintro ⟨hfit, hcuts⟩
    refine ⟨fun f hf => (found_omitted_iff hst hfound).mpr hfit f ((hmem f).mp hf), fun cut hcut => ?_,
      fun f hf rows hbuilt g hkept => ((hbuilt.cut_iff mine hst hkept).mpr (hbuilt.telling_cut hst hfit hcuts hkept)).2⟩
    obtain ⟨g, hg, rfl⟩ := List.mem_map.mp hcut
    obtain ⟨f, hf, hg⟩ := List.mem_flatMap.mp (hopened.mem_iff.mp hg)
    rcases List.mem_append.mp hg with hkept | hg
    · obtain ⟨rows, hbuilt⟩ := exists_builtFrom hfound ((hmem f).mp hf)
      have hkept := Option.mem_toList.mp hkept
      exact ((hbuilt.cut_iff mine hst hkept).mpr (hbuilt.telling_cut hst hfit hcuts hkept)).1
    -- A client that stands alone lists no object.
    · obtain ⟨c, -, hg⟩ := List.mem_flatMap.mp hg
      have hbuilt : BuiltFrom X k target now st c.finding [] := .cluster ⟨rfl, rfl, rfl⟩
      have hkept := Option.mem_toList.mp hg
      exact ((hbuilt.cut_iff mine hst hkept).mpr (hbuilt.telling_cut hst hfit hcuts hkept)).1

end Answer

end UpgradeScope
