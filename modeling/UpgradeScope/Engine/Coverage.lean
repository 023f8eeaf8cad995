import UpgradeScope.Engine.Evidence
import UpgradeScope.Engine.Grades
import UpgradeScope.Inventory.Admit

/-!
# Every object of a manifest is covered once

The check of the Helm releases leaves an object of a stored manifest to the live usage finding of its API where that
finding is at least as severe, and lists it itself otherwise. What it takes for granted of the live finding is what the
check of the usage rows decides of the same lifecycle entry (`usageGrade`), so an object is listed in one of the two, and
not in both at one severity. The live rows are looked up by the text of a key, though, and a row of another API with that
key takes an object without a finding of its own: `coveredOnce_iff` says that this is the only way an object is lost.
-/

namespace UpgradeScope

open Go Sorting Kb

/-- A row as collectors write it and admission accepts it: it counts the objects it lists and those it omits, which are
not negative, in a 64-bit integer. -/
structure APIUsage.Counted (u : APIUsage) : Prop where
  /-- The count is that of all objects. -/
  written : u.count = u.objects.length + u.objectsOmitted
  /-- The objects that are not listed are counted. -/
  omitted : 0 ≤ u.objectsOmitted
  /-- The count is a machine integer. -/
  range : u.count ≤ maxInt

/-- An API that is deprecated or removed, in some release. -/
def Flagged (e : APILifecycleEntry) : Prop := ¬ (e.deprecated = none ∧ e.removed = none)

/-- The category and the severity of a manifest's finding about an API. -/
def manifestGrade (target : Version) (e : APILifecycleEntry) : Category × Severity :=
  if removedAt target e then (.removedAPI, .blocker) else (.deprecatedAPI, .warning)

/-- A usage row warns only of an API that is removed right after the target. -/
theorem usageGrade_ne_warning {target : Version} {e : APILifecycleEntry} (hat : removedAt target e = false)
    (hnext : removedNext target e = false) (unserved : Bool) (cat : Category) :
    usageGrade target (some e) unserved ≠ some (cat, .warning) := by
  unfold usageGrade
  dsimp only
  rw [hat, hnext]
  cases unserved with
  | true => simp
  | false => cases e.deprecated <;> simp

/-! ## The rows of a manifest -/

section Rows

variable {X : External} {k : KB} {target : Version} {live : List APIUsage} {rel : HelmRelease} {u : APIUsage}
  {e : APILifecycleEntry}

/-- A live finding takes an object: it is as severe, and lists the object at the key of the API. -/
def Taken (target : Version) (live : List APIUsage) (rel : HelmRelease) (e : APILifecycleEntry) (u : APIUsage)
    (o : ObjectRef) : Prop :=
  (removedAt target e = true ∨ removedNext target e = true) ∧
    ∃ v ∈ live, apiKey v.group v.version v.kind = apiKey u.group u.version u.kind ∧
      ∃ l ∈ v.objects, sameObject rel o l = true

/-- The objects that are left are those that no live finding takes. -/
theorem mem_leftObjects {o : ObjectRef} :
    o ∈ leftObjects target live rel e u ↔ o ∈ u.objects ∧ ¬ Taken target live rel e u o := by
  have hany : (liveObjects live (apiKey u.group u.version u.kind)).any (sameObject rel o) = true ↔
      ∃ v ∈ live, apiKey v.group v.version v.kind = apiKey u.group u.version u.kind ∧
        ∃ l ∈ v.objects, sameObject rel o l = true := by
    rw [List.any_eq_true]
    constructor
    · rintro ⟨l, hl, hsame⟩
      obtain ⟨v, hv, hkey, hlv⟩ := mem_liveObjects.mp hl
      exact ⟨v, hv, hkey, l, hlv, hsame⟩
    · rintro ⟨v, hv, hkey, l, hlv, hsame⟩
      exact ⟨l, mem_liveObjects.mpr ⟨v, hv, hkey, hlv⟩, hsame⟩
  unfold leftObjects Taken
  rw [← hany]
  by_cases hsevere : removedAt target e = true ∨ removedNext target e = true
  · rw [if_pos (by simpa using hsevere), List.mem_filter]
    simp [hsevere]
  · rw [if_neg (by simpa using hsevere)]
    simp [hsevere]

/-- What is left of a row's objects is some of them. -/
theorem length_leftObjects_le : (leftObjects target live rel e u).length ≤ u.objects.length := by
  unfold leftObjects
  split_ifs
  · exact List.length_filter_le _ _
  · exact le_rfl

/-- A row of which an object is left, listed or omitted, is counted. -/
theorem manifestRow_of_left (hcount : u.Counted) (he : lookup k.apiLifecycle u.gvkOf = some e) (hflag : Flagged e)
    (hleft : leftObjects target live rel e u ≠ [] ∨ 0 < u.objectsOmitted) :
    ∃ r, manifestRow k target live rel u = some r ∧ r.usage = u ∧ r.entry = e ∧
      r.objects = leftObjects target live rel e u := by
  have hle : (leftObjects target live rel e u).length ≤ u.objects.length := length_leftObjects_le
  have hwritten := hcount.written
  have homitted := hcount.omitted
  have hrange := hcount.range
  have hpos : 0 < u.count - (u.objects.length - (leftObjects target live rel e u).length : ℤ) := by
    rcases hleft with hleft | hleft
    · have := List.length_pos_iff.mpr hleft
      omega
    · omega
  have hwrap : wrap64 (u.count - (u.objects.length - (leftObjects target live rel e u).length : ℤ)) =
      u.count - (u.objects.length - (leftObjects target live rel e u).length : ℤ) :=
    wrap64_of_range (by omega) (by omega)
  refine ⟨⟨u, e, leftObjects target live rel e u,
    u.count - (u.objects.length - (leftObjects target live rel e u).length : ℤ)⟩, ?_, rfl, rfl, rfl⟩
  unfold manifestRow
  rw [show lookup k.apiLifecycle ⟨u.group, u.version, u.kind⟩ = some e from he]
  dsimp only
  rw [if_neg hflag, hwrap, if_neg (by omega)]

/-- What a row of a manifest's finding is made of. -/
theorem mem_manifestRows {r : ManifestRow} (hr : r ∈ manifestRows k target live rel) :
    r.usage ∈ rel.manifestAPIs ∧ lookup k.apiLifecycle r.usage.gvkOf = some r.entry ∧
      r.objects = leftObjects target live rel r.entry r.usage := by
  obtain ⟨u, hu, hrow⟩ := List.mem_filterMap.mp hr
  have hentry := manifestRow_entry hrow
  unfold manifestRow at hrow
  split at hrow
  · exact nomatch hrow
  · dsimp only at hrow
    split_ifs at hrow
    obtain rfl := Option.some.inj hrow
    exact ⟨mem_sortOn.mp hu, hentry, rfl⟩

variable (k target rel) in
/-- Some rows of a release's manifest have a finding, which lists their objects. -/
theorem bucketFinding_of_ne_nil {rows : List ManifestRow} (hrows : rows ≠ []) (cat : Category) (sev : Severity) :
    ∃ f, bucketFinding k target rel rows cat sev = some f ∧ f.key = helmKey cat rel ∧ f.category = cat ∧
      f.severity = sev ∧ f.objects = sortedObjects (rows.flatMap (·.objects)) := by
  unfold bucketFinding
  rw [if_neg hrows]
  exact ⟨_, rfl, rfl, rfl, rfl, rfl⟩

/-- A release has the finding of each of its rows. -/
theorem exists_manifestFinding {r : ManifestRow} (hr : r ∈ manifestRows k target live rel) :
    ∃ f ∈ evalHelmManifest k target live rel, f.key = helmKey (manifestGrade target r.entry).1 rel ∧
      (f.category, f.severity) = manifestGrade target r.entry ∧ ∀ o ∈ r.objects, o ∈ f.objects := by
  unfold evalHelmManifest manifestGrade
  by_cases hat : removedAt target r.entry = true
  · rw [if_pos hat]
    have hmem : r ∈ (manifestRows k target live rel).filter fun r => removedAt target r.entry :=
      List.mem_filter.mpr ⟨hr, hat⟩
    obtain ⟨f, hf, hkey, hcat, hsev, hobjects⟩ :=
      bucketFinding_of_ne_nil k target rel (List.ne_nil_of_mem hmem) .removedAPI .blocker
    refine ⟨f, List.mem_append_left _ (Option.mem_toList.mpr hf), hkey, Prod.ext hcat hsev, fun o ho => ?_⟩
    rw [hobjects]
    exact mem_sortOn.mpr (List.mem_flatMap.mpr ⟨r, hmem, ho⟩)
  · rw [if_neg hat]
    have hmem : r ∈ (manifestRows k target live rel).filter fun r => !removedAt target r.entry :=
      List.mem_filter.mpr ⟨hr, by simpa using hat⟩
    obtain ⟨f, hf, hkey, hcat, hsev, hobjects⟩ :=
      bucketFinding_of_ne_nil k target rel (List.ne_nil_of_mem hmem) .deprecatedAPI .warning
    refine ⟨f, List.mem_append_right _ (Option.mem_toList.mpr hf), hkey, Prod.ext hcat hsev, fun o ho => ?_⟩
    rw [hobjects]
    exact mem_sortOn.mpr (List.mem_flatMap.mpr ⟨r, hmem, ho⟩)

end Rows

/-! ## The report -/

section Reports

variable (k : KB) (target : Version) (inv : Inventory) (rep : Report) (rel : HelmRelease)

/-- A report has the finding of a release about APIs of this lifecycle. -/
def ReleaseFinds (e : APILifecycleEntry) : Prop :=
  ∃ f ∈ rep.findings, f.key = helmKey (manifestGrade target e).1 rel ∧ (f.category, f.severity) = manifestGrade target e

/-- The finding of a release lists an object of its manifest at an API, with a severity. -/
def ReleaseLists (gvk : GVK) (o : ObjectRef) (sev : Severity) : Prop :=
  ∃ r ∈ manifestRows k target inv.apiUsage rel, r.usage.gvkOf = gvk ∧ o ∈ r.objects ∧
    ∃ f ∈ rep.findings, f.key = helmKey (manifestGrade target r.entry).1 rel ∧
      (f.category, f.severity) = manifestGrade target r.entry ∧ f.severity = sev ∧ ∀ o ∈ r.objects, o ∈ f.objects

/-- A live usage finding of an API lists a manifest's object, with a severity. -/
def LiveLists (gvk : GVK) (o : ObjectRef) (sev : Severity) : Prop :=
  ∃ v ∈ inv.apiUsage, v.gvkOf = gvk ∧ ∃ g, usageFinding k target inv.source inv.namespaces v = some g ∧
    ∃ f ∈ rep.findings, f.key = g.key ∧ f.category = g.category ∧ f.severity = g.severity ∧ f.severity = sev ∧
      f.objects = g.objects ∧ ∃ l ∈ f.objects, sameObject rel o l = true

/-- A live usage finding of an API lists a manifest's object at least as severely as the manifest's finding. -/
def LiveCovers (u : APIUsage) (e : APILifecycleEntry) (o : ObjectRef) : Prop :=
  ∃ sev, sev.rank ≤ (manifestGrade target e).2.rank ∧ LiveLists k target inv rep rel u.gvkOf o sev

/-- Every object of an installed release's manifest at a flagged API is covered once. -/
structure CoveredOnce : Prop where
  /-- It is listed by the release's finding, or by a live one at least as severe. -/
  covered : ∀ rel ∈ inv.helmReleases, helmInstalled rel = true → ∀ u ∈ rel.manifestAPIs, ∀ e,
    lookup k.apiLifecycle u.gvkOf = some e → Flagged e → ∀ o ∈ u.objects,
      ReleaseLists k target inv rep rel u.gvkOf o (manifestGrade target e).2 ∨ LiveCovers k target inv rep rel u e o
  /-- It is not listed by both at one severity. -/
  once : ∀ rel ∈ inv.helmReleases, ∀ gvk o sev,
    ¬ (ReleaseLists k target inv rep rel gvk o sev ∧ LiveLists k target inv rep rel gvk o sev)
  /-- A release of which an object is left has the finding. -/
  found : ∀ rel ∈ inv.helmReleases, helmInstalled rel = true → ∀ u ∈ rel.manifestAPIs, ∀ e,
    lookup k.apiLifecycle u.gvkOf = some e → Flagged e →
      ((∃ o ∈ u.objects, ¬ LiveCovers k target inv rep rel u e o) ∨ 0 < u.objectsOmitted) →
        ReleaseFinds target rep rel e

/-- Where a live row with the key of a manifest's API lists an object of the manifest, a row of that very API does. -/
def KeyedByAPI : Prop :=
  ∀ rel ∈ inv.helmReleases, helmInstalled rel = true → ∀ u ∈ rel.manifestAPIs, ∀ e,
    lookup k.apiLifecycle u.gvkOf = some e → ∀ o ∈ u.objects, Taken target inv.apiUsage rel e u o →
      ∃ v ∈ inv.apiUsage, v.gvkOf = u.gvkOf ∧ ∃ l ∈ v.objects, sameObject rel o l = true

variable {k target inv rep rel} {fuel : ℕ} {X : External} {now : Time}

/-- The finding of each row of an installed release is in the report. -/
theorem releaseFinding_reported (h : evaluate fuel X inv k target now = some rep) (hrel : rel ∈ inv.helmReleases)
    (hin : helmInstalled rel = true) {r : ManifestRow} (hr : r ∈ manifestRows k target inv.apiUsage rel) :
    ∃ f ∈ rep.findings, f.key = helmKey (manifestGrade target r.entry).1 rel ∧
      (f.category, f.severity) = manifestGrade target r.entry ∧ ∀ o ∈ r.objects, o ∈ f.objects := by
  obtain ⟨f, hf, hkey, hgrade, hobjects⟩ := exists_manifestFinding hr
  have hmem : { f with namespaces := [rel.namespace], teams := teamsFor inv.namespaces [rel.namespace] } ∈
      evalHelmReleases X k target inv := by
    refine List.mem_flatMap.mpr ⟨rel, hrel, ?_⟩
    unfold releaseFindings
    rw [if_neg (by simp [hin])]
    exact List.mem_map.mpr ⟨f, List.mem_append_right _ hf, rfl⟩
  have hcheck : some (evalHelmReleases X k target inv) ∈ checks fuel X inv k target now := by simp [checks]
  refine ⟨_, check_reported h hcheck hmem, ?_, ?_, ?_⟩
  · rw [capNamespaces_key]
    exact hkey
  · rw [capNamespaces_category, capNamespaces_severity]
    exact hgrade
  · rw [capNamespaces_objects]
    exact hobjects

variable {e : APILifecycleEntry} {o : ObjectRef} {sev : Severity} {u : APIUsage}

/-- A live row at an API that is removed at the target or right after it is a finding as severe as the manifest's. -/
theorem liveCovers_of_row (h : evaluate fuel X inv k target now = some rep) {u v : APIUsage}
    (he : lookup k.apiLifecycle u.gvkOf = some e) (hsevere : removedAt target e = true ∨ removedNext target e = true)
    (hv : v ∈ inv.apiUsage) (hgvk : v.gvkOf = u.gvkOf) {o l : ObjectRef} (hl : l ∈ v.objects)
    (hsame : sameObject rel o l = true) : LiveCovers k target inv rep rel u e o := by
  have hlookup : lookup k.apiLifecycle ⟨v.group, v.version, v.kind⟩ = some e := by
    rw [← he, ← hgvk]
    rfl
  -- The two checks grade one lifecycle entry.
  obtain ⟨sev, hgrade, hrank⟩ : ∃ sev, usageGrade target (some e) (unservedUse k target inv.source v) =
      some (.removedAPI, sev) ∧ sev.rank ≤ (manifestGrade target e).2.rank := by
    unfold usageGrade manifestGrade
    dsimp only
    by_cases hat : removedAt target e = true
    · rw [if_pos (by simp [hat]), if_pos hat]
      exact ⟨_, rfl, le_rfl⟩
    · rw [if_neg hat]
      have hnext := hsevere.resolve_left hat
      by_cases hunserved : unservedUse k target inv.source v = true
      · rw [if_pos (by simp [hunserved])]
        exact ⟨_, rfl, by decide⟩
      · rw [if_neg (by simp [hunserved, hat]), if_pos hnext]
        exact ⟨_, rfl, le_rfl⟩
  rw [← hlookup] at hgrade
  obtain ⟨g, hg, -, hsev⟩ := exists_usageFinding inv.namespaces (by simp [hlookup]) hgrade
  obtain ⟨-, -, hobjects, -⟩ := usageFinding_eq_some k target hg
  obtain ⟨f, hf, hkey, hcat, hfsev, hfobjects⟩ := usageFinding_reported h hv hg
  refine ⟨sev, hrank, v, hv, hgvk, g, hg, f, hf, hkey, hcat, hfsev, hfsev.trans hsev, hfobjects, l, ?_, hsame⟩
  rw [hfobjects, hobjects]
  exact mem_sortOn.mpr hl

/-- An object that is left is listed by the release's finding. -/
theorem releaseLists_of_left (h : evaluate fuel X inv k target now = some rep) (hrel : rel ∈ inv.helmReleases)
    (hin : helmInstalled rel = true) (hu : u ∈ rel.manifestAPIs) (hcount : u.Counted)
    (he : lookup k.apiLifecycle u.gvkOf = some e) (hflag : Flagged e) (ho : o ∈ leftObjects target inv.apiUsage rel e u) :
    ReleaseLists k target inv rep rel u.gvkOf o (manifestGrade target e).2 := by
  obtain ⟨r, hrow, rfl, rfl, hobjects⟩ := manifestRow_of_left hcount he hflag (.inl (List.ne_nil_of_mem ho))
  have hr : r ∈ manifestRows k target inv.apiUsage rel := List.mem_filterMap.mpr ⟨r.usage, mem_sortOn.mpr hu, hrow⟩
  obtain ⟨f, hf, hkey, hgrade, hlisted⟩ := releaseFinding_reported h hrel hin hr
  exact ⟨r, hr, rfl, hobjects ▸ ho, f, hf, hkey, hgrade, (Prod.ext_iff.mp hgrade).2, hlisted⟩

/-- An object that the release's finding lists at an API is not taken. -/
theorem ReleaseLists.not_taken (he : lookup k.apiLifecycle u.gvkOf = some e)
    (h : ReleaseLists k target inv rep rel u.gvkOf o sev) :
    ¬ Taken target inv.apiUsage rel e u o := by
  obtain ⟨r, hr, hgvk, ho, -⟩ := h
  obtain ⟨-, hentry, hobjects⟩ := mem_manifestRows hr
  rw [hobjects] at ho
  have hnot := (mem_leftObjects.mp ho).2
  obtain rfl : r.entry = e := Option.some.inj ((hgvk ▸ hentry).symm.trans he)
  have hparts : r.usage.group = u.group ∧ r.usage.version = u.version ∧ r.usage.kind = u.kind := by
    simpa [APIUsage.gvkOf] using hgvk
  obtain ⟨hgroup, hversion, hkind⟩ := hparts
  unfold Taken at hnot ⊢
  rwa [hgroup, hversion, hkind] at hnot

/-- No object is listed by a release's finding and by a live one of its API at one severity. -/
theorem not_listed_twice {gvk : GVK} (hrelease : ReleaseLists k target inv rep rel gvk o sev) :
    ¬ LiveLists k target inv rep rel gvk o sev := by
  rintro ⟨v, hv, rfl, g, hg, f, hf, hkey, hcat, hsev, hfsev, hobjects, l, hl, hsame⟩
  obtain ⟨r, hr, hgvk, -, f', -, -, hgrade', hfsev', -⟩ := id hrelease
  obtain ⟨-, hentry, -⟩ := mem_manifestRows hr
  rw [hgvk] at hentry
  have hmanifest : (manifestGrade target r.entry).2 = sev := by rw [← hgrade', ← hfsev']
  have husage := usageFinding_grade hg
  rw [show lookup k.apiLifecycle ⟨v.group, v.version, v.kind⟩ = some r.entry from hentry, ← hsev, hfsev] at husage
  have hlive : l ∈ v.objects := by
    obtain ⟨-, -, hgobjects, -⟩ := usageFinding_eq_some k target hg
    rw [hobjects, hgobjects] at hl
    exact mem_sortOn.mp hl
  refine hrelease.not_taken hentry ⟨?_, v, hv, rfl, l, hlive, hsame⟩
  -- Where neither removal is near, the live finding is a blocker or an info, and the manifest's a warning.
  by_contra hfar
  rw [not_or, Bool.not_eq_true, Bool.not_eq_true] at hfar
  unfold manifestGrade at hmanifest
  rw [hfar.1] at hmanifest
  obtain rfl : Severity.warning = sev := hmanifest
  exact usageGrade_ne_warning hfar.1 hfar.2 _ _ husage

/-- Every object of the manifests is covered once exactly when no row of another API stands under the key of one. -/
theorem coveredOnce_iff (hcount : ∀ rel ∈ inv.helmReleases, ∀ u ∈ rel.manifestAPIs, u.Counted)
    (h : evaluate fuel X inv k target now = some rep) :
    CoveredOnce k target inv rep ↔ KeyedByAPI k target inv := by
  constructor
  · intro hcovered rel hrel hin u hu e he o ho htaken
    have hflag : Flagged e := by
      rintro ⟨-, hnone⟩
      rcases htaken.1 with hat | hnext
      · simp [removedAt, hnone] at hat
      · simp [removedNext, hnone] at hnext
    rcases hcovered.covered rel hrel hin u hu e he hflag o ho with hlists | ⟨sev, -, v, hv, hgvk, g, hg, f, -, -, -, -, -,
      hobjects, l, hl, hsame⟩
    · exact absurd htaken (hlists.not_taken he)
    · obtain ⟨-, -, hgobjects, -⟩ := usageFinding_eq_some k target hg
      rw [hobjects, hgobjects] at hl
      exact ⟨v, hv, hgvk, l, mem_sortOn.mp hl, hsame⟩
  · intro hkeyed
    -- What is taken is covered by the row of the same API.
    have hcovers : ∀ rel ∈ inv.helmReleases, helmInstalled rel = true → ∀ u ∈ rel.manifestAPIs, ∀ e,
        lookup k.apiLifecycle u.gvkOf = some e → ∀ o ∈ u.objects, Taken target inv.apiUsage rel e u o →
          LiveCovers k target inv rep rel u e o := by
      intro rel hrel hin u hu e he o ho htaken
      obtain ⟨v, hv, hgvk, l, hl, hsame⟩ := hkeyed rel hrel hin u hu e he o ho htaken
      exact liveCovers_of_row h he htaken.1 hv hgvk hl hsame
    refine ⟨?_, fun rel _ gvk o sev hboth => not_listed_twice hboth.1 hboth.2, ?_⟩
    · intro rel hrel hin u hu e he hflag o ho
      by_cases htaken : Taken target inv.apiUsage rel e u o
      · exact .inr (hcovers rel hrel hin u hu e he o ho htaken)
      · exact .inl (releaseLists_of_left h hrel hin hu (hcount rel hrel u hu) he hflag
          (mem_leftObjects.mpr ⟨ho, htaken⟩))
    · intro rel hrel hin u hu e he hflag hleft
      have hsome : leftObjects target inv.apiUsage rel e u ≠ [] ∨ 0 < u.objectsOmitted := by
        refine hleft.imp_left ?_
        rintro ⟨o, ho, hnot⟩
        have hopen : ¬ Taken target inv.apiUsage rel e u o := fun htaken =>
          hnot (hcovers rel hrel hin u hu e he o ho htaken)
        exact List.ne_nil_of_mem (mem_leftObjects.mpr ⟨ho, hopen⟩)
      obtain ⟨r, hrow, rfl, rfl, -⟩ := manifestRow_of_left (hcount rel hrel u hu) he hflag hsome
      have hr : r ∈ manifestRows k target inv.apiUsage rel :=
        List.mem_filterMap.mpr ⟨r.usage, mem_sortOn.mpr hu, hrow⟩
      obtain ⟨f, hf, hkey, hgrade, -⟩ := releaseFinding_reported h hrel hin hr
      exact ⟨f, hf, hkey, hgrade⟩

end Reports

/-- The object of the manifest is left to the release's finding beside a live row that lists another one. -/
theorem covered_beside_other_object :
    let inv := coreReleaseCluster [{ group := "", version := "v1", kind := "ComponentStatus", count := 1
                                     objects := [{ «namespace» := "shop", name := "db" }] }]
    ∃ rep, evaluate 3 External.ascii inv removedCoreKB ⟨1, 30⟩ 0 = some rep ∧
      CoveredOnce removedCoreKB ⟨1, 30⟩ inv rep := by
  intro inv
  have hsome : (evaluate 3 External.ascii inv removedCoreKB ⟨1, 30⟩ 0).isSome = true := by decide +kernel
  obtain ⟨rep, hrep⟩ := Option.isSome_iff_exists.mp hsome
  refine ⟨rep, hrep, (coveredOnce_iff ?_ hrep).mpr ?_⟩
  · intro rel hrel u hu
    obtain rfl := List.mem_singleton.mp hrel
    obtain rfl := List.mem_singleton.mp hu
    exact ⟨by decide, by decide, by decide⟩
  · intro rel hrel _ u hu e _ o ho htaken
    obtain rfl := List.mem_singleton.mp hrel
    obtain rfl := List.mem_singleton.mp hu
    obtain ⟨-, v, hv, -, hl⟩ := htaken
    obtain rfl := List.mem_singleton.mp hv
    exact ⟨_, List.mem_singleton_self _, rfl, hl⟩

/-- An admitted cluster with a row of a group that is called as keys call the core group: the release has no finding
for its object at the removed core API, and no live row has one. -/
theorem lost_to_core_named_row :
    let inv := coreReleaseCluster [coreNamedRow]
    admitInventory External.ascii inv = .ok inv ∧
      (∀ rel ∈ inv.helmReleases, ∀ u ∈ rel.manifestAPIs, u.Counted) ∧ (∀ u ∈ inv.apiUsage, u.Counted) ∧
      ∃ rep, evaluate 3 External.ascii inv removedCoreKB ⟨1, 30⟩ 0 = some rep ∧
        (∀ f ∈ rep.findings, f.objects = []) ∧ ¬ CoveredOnce removedCoreKB ⟨1, 30⟩ inv rep := by
  intro inv
  have hnone : (evaluate 3 External.ascii inv removedCoreKB ⟨1, 30⟩ 0).any (fun rep =>
      ∀ f ∈ rep.findings, f.objects = []) = true := by decide +kernel
  obtain ⟨rep, hrep, hempty⟩ := (Option.any_eq_true _ _).mp hnone
  have hempty := of_decide_eq_true hempty
  have hcount : ∀ rel ∈ inv.helmReleases, ∀ u ∈ rel.manifestAPIs, u.Counted := by
    intro rel hrel u hu
    obtain rfl := List.mem_singleton.mp hrel
    obtain rfl := List.mem_singleton.mp hu
    exact ⟨by decide, by decide, by decide⟩
  refine ⟨(admitInventory_eq_ok _).mpr ⟨by decide +kernel, rfl⟩, hcount, ?_, rep, hrep, hempty, ?_⟩
  · intro u hu
    obtain rfl := List.mem_singleton.mp hu
    exact ⟨by decide, by decide, by decide⟩
  · intro hcovered
    rcases hcovered.covered _ List.mem_cons_self (by decide) _ List.mem_cons_self _ rfl (by simp [Flagged]) _
      List.mem_cons_self with ⟨r, -, -, ho, f, hf, -, -, -, hlisted⟩ | ⟨-, -, -, -, -, -, -, f, hf, -, -, -, -, -, l, hl, -⟩
    · have := hlisted _ ho
      rw [hempty f hf] at this
      exact absurd this List.not_mem_nil
    · rw [hempty f hf] at hl
      exact absurd hl List.not_mem_nil

end UpgradeScope
