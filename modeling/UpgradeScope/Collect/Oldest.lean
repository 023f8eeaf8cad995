import UpgradeScope.Collect.AddOns

/-!
# The oldest version of an install

`matchAddOns` judges an add-on in a namespace at the oldest version it was found at, and puts pods
off the lines of its Helm releases apart, so that no newer version hides an older one. Over versions
that semver reads, with no leading zeros, every version that evidence gives is at least the version
of a reported install, or is on the release line of a release's version that is reported for it
(`older_install_reported`).
-/

namespace UpgradeScope.Collect

open Go Sorting Registry

/-! ## The order of versions -/

/-- What detection relies on of semver's order: it is a total preorder, by the major and the minor first. -/
structure Semver.Lawful (S : Semver) : Prop where
  /-- No two versions are before each other. -/
  asymm : ∀ {a b}, S.lessThan a b = true → S.lessThan b a = false
  /-- What is not after a version is not after what that is not after. -/
  trans : ∀ {a b c}, S.lessThan b a = false → S.lessThan c b = false → S.lessThan c a = false
  /-- A version of a lower line is before. -/
  line : ∀ {a b : SemVer}, a.major < b.major ∨ a.major = b.major ∧ a.minor < b.minor → S.lessThan a b = true

/-- A version that semver reads. -/
def Parses (X : External) (v : String) : Prop := ∃ sv, X.newVersion v = some sv

/-- A version that semver reads, with no leading zero in its first two components. -/
def Canonical (X : External) (v : String) : Prop :=
  ∃ sv, X.newVersion v = some sv ∧ releaseLine v = (⟨sv.major, sv.minor⟩ : Version).string

/-- A version is at most another, as semver reads them. -/
def AtMost (X : External) (S : Semver) (a b : String) : Prop :=
  ∃ av bv, X.newVersion a = some av ∧ X.newVersion b = some bv ∧ S.lessThan bv av = false

section Order

variable {X : External} {S : Semver} {a b c : String}

/-- Semver reads a version in its canonical spelling. -/
theorem Canonical.parses (ha : Canonical X a) : Parses X a := by
  obtain ⟨sv, hsv, -⟩ := ha
  exact ⟨sv, hsv⟩

/-- A version is at most itself. -/
theorem AtMost.refl (hS : S.Lawful) (ha : Parses X a) : AtMost X S a a := by
  obtain ⟨sv, hsv⟩ := ha
  refine ⟨sv, sv, hsv, hsv, ?_⟩
  by_contra hlt
  rw [Bool.not_eq_false] at hlt
  exact absurd (hS.asymm hlt) (by simp [hlt])

/-- The order of versions chains. -/
theorem AtMost.trans (hS : S.Lawful) (hab : AtMost X S a b) (hbc : AtMost X S b c) : AtMost X S a c := by
  obtain ⟨av, bv, hav, hbv, hle⟩ := hab
  obtain ⟨bv', cv, hbv', hcv, hle'⟩ := hbc
  obtain rfl : bv = bv' := Option.some.inj (hbv.symm.trans hbv')
  exact ⟨av, cv, hav, hcv, hS.trans hle hle'⟩

/-- Of two versions the one that is not before is at least the other. -/
theorem atMost_of_not_versionLess (ha : Parses X a) (hb : Parses X b) (h : versionLess X S b a = false) :
    AtMost X S a b := by
  obtain ⟨av, hav⟩ := ha
  obtain ⟨bv, hbv⟩ := hb
  refine ⟨av, bv, hav, hbv, ?_⟩
  simpa [versionLess, hav, hbv] using h

/-- What is at least a version is not before it. -/
theorem AtMost.not_versionLess (h : AtMost X S a b) : versionLess X S b a = false := by
  obtain ⟨av, bv, hav, hbv, hle⟩ := h
  simpa [versionLess, hav, hbv] using hle

/-- A version before another is at most it. -/
theorem atMost_of_versionLess (hS : S.Lawful) (ha : Parses X a) (hb : Parses X b) (h : versionLess X S a b = true) :
    AtMost X S a b := by
  obtain ⟨av, hav⟩ := ha
  obtain ⟨bv, hbv⟩ := hb
  refine ⟨av, bv, hav, hbv, hS.asymm ?_⟩
  simpa [versionLess, hav, hbv] using h

/-- A version that is at most one of a line and on another line is at most every version of that line. -/
theorem AtMost.of_line (hS : S.Lawful) (hab : AtMost X S a b) (ha : Canonical X a) (hb : Canonical X b) (hc : Canonical X c)
    (hline : releaseLine b = releaseLine c) (hother : releaseLine a ≠ releaseLine c) : AtMost X S a c := by
  obtain ⟨av, bv, hav, hbv, hle⟩ := hab
  obtain ⟨av', hav', hla⟩ := ha
  obtain rfl : av = av' := Option.some.inj (hav.symm.trans hav')
  obtain ⟨bv', hbv', hlb⟩ := hb
  obtain rfl : bv = bv' := Option.some.inj (hbv.symm.trans hbv')
  obtain ⟨cv, hcv, hlc⟩ := hc
  rw [hlb, hlc] at hline
  have hsame := Version.string_injective hline
  simp only [Version.mk.injEq, Nat.cast_inj] at hsame
  -- The line of the first is another one, and not a higher one.
  have hne : ¬ (av.major = cv.major ∧ av.minor = cv.minor) := by
    rintro ⟨hmajor, hminor⟩
    exact hother (by rw [hla, hlc, hmajor, hminor])
  have hnotHigher : ¬ (bv.major < av.major ∨ bv.major = av.major ∧ bv.minor < av.minor) := fun h => by
    rw [hS.line h] at hle
    exact absurd hle (by simp)
  exact ⟨av, cv, hav, hcv, hS.asymm (hS.line (by omega))⟩

/-- What the loop over versions ends with, from a version it has. -/
theorem foldl_olderVersion (hS : S.Lawful) {vs : List String} {cur : String} (hcur : Parses X cur) (hne : cur ≠ "")
    (hvs : ∀ v ∈ vs, v ≠ "" → Parses X v) :
    vs.foldl (olderVersion X S) cur ≠ "" ∧ vs.foldl (olderVersion X S) cur ∈ cur :: vs ∧
      ∀ v ∈ cur :: vs, v ≠ "" → AtMost X S (vs.foldl (olderVersion X S) cur) v := by
  induction vs generalizing cur with
  | nil =>
    refine ⟨hne, List.mem_cons_self, fun v hv _ => ?_⟩
    rw [List.mem_singleton.mp hv]
    exact AtMost.refl hS hcur
  | cons w vs ih =>
    have hvs' : ∀ v ∈ vs, v ≠ "" → Parses X v := fun v hv => hvs v (List.mem_cons_of_mem _ hv)
    rw [List.foldl_cons]
    -- The version met is taken when it is less, and what was held before it is then above both.
    by_cases hw : w ≠ "" ∧ (cur = "" ∨ versionLess X S w cur)
    · have hstep : olderVersion X S cur w = w := if_pos hw
      have hwc := hvs w List.mem_cons_self hw.1
      have hless : versionLess X S w cur = true := hw.2.resolve_left hne
      rw [hstep]
      obtain ⟨hset, hmem, hle⟩ := ih hwc hw.1 hvs'
      refine ⟨hset, List.mem_cons_of_mem _ hmem, fun v hv hvne => ?_⟩
      rcases List.mem_cons.mp hv with rfl | hv
      · exact (hle w List.mem_cons_self hw.1).trans hS (atMost_of_versionLess hS hwc hcur hless)
      · exact hle v hv hvne
    · have hstep : olderVersion X S cur w = cur := if_neg hw
      rw [hstep]
      obtain ⟨hset, hmem, hle⟩ := ih hcur hne hvs'
      refine ⟨hset, ?_, fun v hv hvne => ?_⟩
      · rcases List.mem_cons.mp hmem with h | h
        · rw [h]
          exact List.mem_cons_self
        · exact List.mem_cons_of_mem _ (List.mem_cons_of_mem _ h)
      · rcases List.mem_cons.mp hv with rfl | hv
        · exact hle _ List.mem_cons_self hvne
        rcases List.mem_cons.mp hv with rfl | hv
        · rw [not_and_or, not_or] at hw
          have hnot : versionLess X S v cur = false := by simpa using (hw.resolve_left (not_not.mpr hvne)).2
          exact (hle cur List.mem_cons_self hne).trans hS
            (atMost_of_not_versionLess hcur (hvs v List.mem_cons_self hvne) hnot)
        · exact hle v (List.mem_cons_of_mem _ hv) hvne

/-- The oldest of some versions is one of them and at most every one. -/
theorem oldest_spec (hS : S.Lawful) {vs : List String} (hvs : ∀ v ∈ vs, v ≠ "" → Parses X v) {v : String} (hv : v ∈ vs)
    (hne : v ≠ "") : oldest X S vs ≠ "" ∧ oldest X S vs ∈ vs ∧ AtMost X S (oldest X S vs) v := by
  unfold oldest
  induction vs with
  | nil => simp at hv
  | cons w vs ih =>
    have hvs' : ∀ v ∈ vs, v ≠ "" → Parses X v := fun v hv => hvs v (List.mem_cons_of_mem _ hv)
    rw [List.foldl_cons]
    by_cases hw : w = ""
    · have hstep : olderVersion X S "" w = "" := if_neg (by simp [hw])
      rw [hstep]
      have hv' : v ∈ vs := (List.mem_cons.mp hv).resolve_left fun h => hne (h.trans hw)
      obtain ⟨hset, hmem, hle⟩ := ih hvs' hv'
      exact ⟨hset, List.mem_cons_of_mem _ hmem, hle⟩
    · have hstep : olderVersion X S "" w = w := if_pos ⟨hw, .inl rfl⟩
      rw [hstep]
      obtain ⟨hset, hmem, hle⟩ := foldl_olderVersion hS (hvs w List.mem_cons_self hw) hw hvs'
      exact ⟨hset, hmem, hle v hv hne⟩

/-- Without a version there is no oldest. -/
theorem oldest_eq_empty {vs : List String} (h : ∀ v ∈ vs, v = "") : oldest X S vs = "" := by
  unfold oldest
  induction vs with
  | nil => rfl
  | cons w vs ih =>
    have hw : w = "" := h w List.mem_cons_self
    have hstep : olderVersion X S "" w = "" := if_neg (by simp [hw])
    rw [List.foldl_cons, hstep]
    exact ih fun v hv => h v (List.mem_cons_of_mem _ hv)

end Order

/-! ## What evidence gives -/

section Gives

variable (X : External) (S : Semver) (addons : List AddOn) (ev : AddOnEvidence)

/-- A Helm release gives an add-on in its namespace its app version. -/
inductive ReleaseGives : Install → String → Prop where
  /-- The release of a chart of an entry. -/
  | release {rel : HelmRelease} {a : AddOn} : rel ∈ ev.releases → a ∈ addons → rel.chartName ∈ a.matchers.charts →
      versionFromTag rel.appVersion ≠ "" → ReleaseGives ⟨a.id, rel.namespace⟩ (versionFromTag rel.appVersion)

/-- A pod gives an add-on in its namespace a version. -/
inductive PodGives : Install → String → Prop where
  /-- A claim on an image. -/
  | image {img : NsImage} {c : ImageClaim} : img ∈ ev.images → c ∈ settled X S addons ev img → c.version ≠ "" →
      PodGives ⟨c.id, img.namespace⟩ c.version
  /-- A label that counts. -/
  | label {p : LabelledPod} : p ∈ ev.labelled → labelCounts X addons p = true → (labelAddOn addons p.labels).2 ≠ "" →
      PodGives ⟨(labelAddOn addons p.labels).1, p.namespace⟩ (labelAddOn addons p.labels).2

variable {X S addons ev} {i : Install} {v : String}

variable {e : Evidence}

/-- The evidence of an install is every piece that names it. -/
theorem mem_evidenceOf : e ∈ evidenceOf X S addons ev i ↔ (i, e) ∈ allEvidence X S addons ev := by
  unfold evidenceOf
  constructor
  · intro h
    obtain ⟨⟨j, e'⟩, hmem, rfl⟩ := List.mem_map.mp h
    obtain ⟨hall, hj⟩ := List.mem_filter.mp hmem
    obtain rfl : j = i := of_decide_eq_true hj
    exact hall
  · intro h
    exact List.mem_map.mpr ⟨(i, e), List.mem_filter.mpr ⟨h, decide_eq_true rfl⟩, rfl⟩

/-- What a piece of evidence is: an image's, a label's, a release's, or one that gives no version. -/
theorem mem_allEvidence : (i, e) ∈ allEvidence X S addons ev ↔
    (i, e) ∈ imageEvidence X S addons ev ∨ (i, e) ∈ labelEvidence X addons ev ∨ (i, e) ∈ releaseEvidence addons ev ∨
      (i, e) ∈ gitopsEvidence S addons ev ∨ (i, e) ∈ ingressEvidence X S addons ev := by
  unfold allEvidence directEvidence
  simp only [List.mem_append, or_assoc]

/-- The evidence of the releases, by the release and the entry it is of. -/
theorem mem_releaseEvidence : (i, e) ∈ releaseEvidence addons ev ↔
    ∃ rel ∈ ev.releases, ∃ a ∈ addons, rel.chartName ∈ a.matchers.charts ∧ i = ⟨a.id, rel.namespace⟩ ∧
      e = ⟨.chart, versionFromTag rel.appVersion, trimPrefix rel.chartVersion "v"⟩ := by
  unfold releaseEvidence
  simp only [List.mem_flatMap, List.mem_map, List.mem_filter, decide_eq_true_eq, Prod.mk.injEq]
  constructor
  · rintro ⟨rel, hrel, a, ha, c, ⟨hc, rfl⟩, rfl, rfl⟩
    exact ⟨rel, hrel, a, ha, hc, rfl, rfl⟩
  · rintro ⟨rel, hrel, a, ha, hc, rfl, rfl⟩
    exact ⟨rel, hrel, a, ha, rel.chartName, ⟨hc, rfl⟩, rfl, rfl⟩

/-- The evidence of the images, by the image and the entry that claims it. -/
theorem mem_imageEvidence : (i, e) ∈ imageEvidence X S addons ev ↔
    ∃ img ∈ ev.images, ∃ c ∈ settled X S addons ev img, i = ⟨c.id, img.namespace⟩ ∧ e = ⟨.image, c.version, ""⟩ := by
  unfold imageEvidence
  simp only [List.mem_flatMap, List.mem_map, Prod.mk.injEq]
  constructor
  · rintro ⟨img, himg, c, hc, rfl, rfl⟩
    exact ⟨img, himg, c, hc, rfl, rfl⟩
  · rintro ⟨img, himg, c, hc, rfl, rfl⟩
    exact ⟨img, himg, c, hc, rfl, rfl⟩

/-- The evidence of the labels, by the pod and the entry they name. -/
theorem mem_labelEvidence : (i, e) ∈ labelEvidence X addons ev ↔
    ∃ p ∈ ev.labelled, labelCounts X addons p = true ∧ i = ⟨(labelAddOn addons p.labels).1, p.namespace⟩ ∧
      e = ⟨.labels, (labelAddOn addons p.labels).2, ""⟩ := by
  unfold labelEvidence
  simp only [List.mem_map, List.mem_filter, Prod.mk.injEq]
  constructor
  · rintro ⟨p, ⟨hp, hcounts⟩, rfl, rfl⟩
    exact ⟨p, hp, hcounts, rfl, rfl⟩
  · rintro ⟨p, hp, hcounts, rfl, rfl⟩
    exact ⟨p, ⟨hp, hcounts⟩, rfl, rfl⟩

/-- The evidence of the GitOps charts gives no version. -/
theorem of_mem_gitopsEvidence (h : (i, e) ∈ gitopsEvidence S addons ev) : e.source = .gitops ∧ e.version = "" := by
  unfold gitopsEvidence at h
  simp only [List.mem_flatMap, List.mem_map, Prod.mk.injEq] at h
  obtain ⟨g, -, a, -, -, rfl⟩ := h
  exact ⟨rfl, rfl⟩

/-- The evidence of the IngressClasses has no version. -/
theorem of_mem_ingressEvidence (h : (i, e) ∈ ingressEvidence X S addons ev) :
    e.source = .ingressclass ∧ e.version = "" := by
  unfold ingressEvidence at h
  simp only [List.mem_map, Prod.mk.injEq] at h
  obtain ⟨c, -, -, rfl⟩ := h
  exact ⟨rfl, rfl⟩

/-- Releases give the versions of the evidence of charts. -/
theorem releaseGives_iff : ReleaseGives addons ev i v ↔
    v ≠ "" ∧ ∃ e ∈ evidenceOf X S addons ev i, e.source = .chart ∧ e.version = v := by
  constructor
  · rintro ⟨hrel, ha, hchart, hne⟩
    refine ⟨hne, _, mem_evidenceOf.mpr (mem_allEvidence.mpr (.inr (.inr (.inl (mem_releaseEvidence.mpr
      ⟨_, hrel, _, ha, hchart, rfl, rfl⟩))))), rfl, rfl⟩
  · rintro ⟨hne, e, he, hsource, rfl⟩
    rcases mem_allEvidence.mp (mem_evidenceOf.mp he) with h | h | h | h | h
    · obtain ⟨img, -, c, -, -, rfl⟩ := mem_imageEvidence.mp h
      simp at hsource
    · obtain ⟨p, -, -, -, rfl⟩ := mem_labelEvidence.mp h
      simp at hsource
    · obtain ⟨rel, hrel, a, ha, hchart, rfl, rfl⟩ := mem_releaseEvidence.mp h
      exact .release hrel ha hchart hne
    · rw [(of_mem_gitopsEvidence h).1] at hsource
      simp at hsource
    · rw [(of_mem_ingressEvidence h).1] at hsource
      simp at hsource

/-- Pods give the versions of the evidence of images and labels. -/
theorem podGives_iff : PodGives X S addons ev i v ↔
    v ≠ "" ∧ ∃ e ∈ evidenceOf X S addons ev i, e.source ≠ .chart ∧ e.version = v := by
  constructor
  · rintro (⟨himg, hc, hne⟩ | ⟨hp, hcounts, hne⟩)
    · exact ⟨hne, _, mem_evidenceOf.mpr (mem_allEvidence.mpr (.inl (mem_imageEvidence.mpr ⟨_, himg, _, hc, rfl, rfl⟩))),
        by simp, rfl⟩
    · exact ⟨hne, _, mem_evidenceOf.mpr (mem_allEvidence.mpr (.inr (.inl (mem_labelEvidence.mpr
        ⟨_, hp, hcounts, rfl, rfl⟩)))), by simp, rfl⟩
  · rintro ⟨hne, e, he, hsource, rfl⟩
    rcases mem_allEvidence.mp (mem_evidenceOf.mp he) with h | h | h | h | h
    · obtain ⟨img, himg, c, hc, rfl, rfl⟩ := mem_imageEvidence.mp h
      exact .image himg hc hne
    · obtain ⟨p, hp, hcounts, rfl, rfl⟩ := mem_labelEvidence.mp h
      exact .label hp hcounts hne
    · obtain ⟨rel, hrel, a, ha, hchart, rfl, rfl⟩ := mem_releaseEvidence.mp h
      simp at hsource
    · exact absurd (of_mem_gitopsEvidence h).2 hne
    · exact absurd (of_mem_ingressEvidence h).2 hne

end Gives

/-! ## The reported installs -/

section Reported

variable {X : External} {S : Semver} {addons : List AddOn} {ev : AddOnEvidence} {i : Install}

variable {e : Evidence} {g evs : List Evidence}

/-- The install that a group of an install's evidence makes is reported. -/
theorem instanceOf_reported (he : e ∈ evidenceOf X S addons ev i) (hg : g ∈ groups (evidenceOf X S addons ev i)) :
    instanceOf X S i g ∈ (matchAddOns X S addons ev).1 := by
  have hi : i ∈ ((allEvidence X S addons ev).map (·.1)).dedup :=
    List.mem_dedup.mpr (List.mem_map.mpr ⟨(i, e), mem_evidenceOf.mp he, rfl⟩)
  unfold matchAddOns
  exact mem_sortOn.mpr (List.mem_flatMap.mpr ⟨i, hi, List.mem_map.mpr ⟨g, hg, rfl⟩⟩)

/-- Evidence is in one of the groups of its install: with the others off the releases' lines, or with the rest. -/
theorem exists_group (he : e ∈ evs) :
    ∃ g ∈ groups evs, e ∈ g ∧ g = evs.filter fun e' => offLine evs e' = offLine evs e := by
  unfold groups
  dsimp only
  cases hoff : offLine evs e with
  | true =>
    have hmem : e ∈ evs.filter (offLine evs) := List.mem_filter.mpr ⟨he, hoff⟩
    refine ⟨evs.filter (offLine evs), ?_, hmem, by simp⟩
    rw [if_neg (List.ne_nil_of_mem hmem)]
    exact List.mem_cons_of_mem _ List.mem_cons_self
  | false =>
    refine ⟨evs.filter fun e => !offLine evs e, List.mem_cons_self, List.mem_filter.mpr ⟨he, by simp [hoff]⟩, ?_⟩
    refine List.filter_congr fun e' _ => ?_
    cases offLine evs e' <;> simp

/-- The strongest source is at least as strong as every piece of evidence. -/
theorem le_strongest (he : e ∈ evs) :
    ∃ src, strongest evs = some src ∧ e.source.strength ≤ src.strength := by
  have hrun : ∀ (evs : List Evidence) (cur : Option EvidenceSource), ∃ r,
      evs.foldl (fun cur e => if ((cur.map (·.strength)).getD 0) < e.source.strength then some e.source else cur) cur = r ∧
        ((cur.map (·.strength)).getD 0) ≤ ((r.map (·.strength)).getD 0) ∧
        ∀ e ∈ evs, e.source.strength ≤ ((r.map (·.strength)).getD 0) := by
    intro evs
    induction evs with
    | nil => exact fun cur => ⟨cur, rfl, le_rfl, by simp⟩
    | cons w evs ih =>
      intro cur
      rw [List.foldl_cons]
      obtain ⟨r, hr, hle, hall⟩ := ih (if ((cur.map (·.strength)).getD 0) < w.source.strength then some w.source else cur)
      refine ⟨r, hr, ?_, List.forall_mem_cons.mpr ⟨?_, hall⟩⟩
      · split_ifs at hle with hlt
        · exact hlt.le.trans hle
        · exact hle
      · split_ifs at hle with hlt
        · exact hle
        · exact (not_lt.mp hlt).trans hle
  obtain ⟨r, hr, -, hall⟩ := hrun evs none
  have hpos : 0 < e.source.strength := by cases e.source <;> decide
  have hle := hall e he
  cases r with
  | none => simp at hle; omega
  | some src => exact ⟨src, hr, by simpa using hle⟩

/-- A group with a version is in its namespace. -/
theorem namespaces_instanceOf (he : e ∈ g) (hsource : e.source ≠ .ingressclass) :
    (instanceOf X S i g).namespaces = [i.ns] := by
  obtain ⟨src, hsrc, hle⟩ := le_strongest he
  unfold instanceOf
  rw [hsrc]
  refine if_neg fun h => hsource ?_
  rw [Option.some.injEq] at h
  subst h
  cases hs : e.source <;> simp [hs, EvidenceSource.strength] at hle ⊢

/-- The version of a group without a release's: the oldest of its pods'. -/
theorem version_of_pods (h : ∀ w ∈ appVersions g, w = "") :
    (instanceOf X S i g).version = oldest X S (podVersions g) := by
  unfold instanceOf
  dsimp only
  rw [oldest_eq_empty h]
  rfl

/-- The version of a group with a release's: the oldest of these. -/
theorem version_of_releases (h : oldest X S (appVersions g) ≠ "") :
    (instanceOf X S i g).version = oldest X S (appVersions g) := by
  unfold instanceOf orElse
  exact if_neg h

variable (hS : S.Lawful)
include hS

/-- A pod's version in a group without a release's version is at least the group's. -/
theorem atMost_of_pods (hg : ∀ e ∈ g, e.version ≠ "" → Canonical X e.version) (hnone : ∀ w ∈ appVersions g, w = "")
    (he : e ∈ g) (hsource : e.source ≠ .chart) (hne : e.version ≠ "") :
    AtMost X S (instanceOf X S i g).version e.version := by
  have hmem : e.version ∈ podVersions g :=
    List.mem_map_of_mem (List.mem_filter.mpr ⟨he, decide_eq_true hsource⟩)
  have hvs : ∀ v ∈ podVersions g, v ≠ "" → Parses X v := by
    intro v hv hvne
    obtain ⟨e', he', rfl⟩ := List.mem_map.mp hv
    exact (hg e' (List.mem_filter.mp he').1 hvne).parses
  rw [version_of_pods hnone]
  exact (oldest_spec hS hvs hmem hne).2.2

/-- The version of a group with a release's version is one of the releases', and at most that one. -/
theorem atMost_of_release (hg : ∀ e ∈ g, e.version ≠ "" → Canonical X e.version) (he : e ∈ g)
    (hsource : e.source = .chart) (hne : e.version ≠ "") :
    AtMost X S (instanceOf X S i g).version e.version ∧
      ∃ e' ∈ g, e'.source = .chart ∧ e'.version ≠ "" ∧ e'.version = (instanceOf X S i g).version := by
  have hmem : e.version ∈ appVersions g :=
    List.mem_map_of_mem (List.mem_filter.mpr ⟨he, decide_eq_true hsource⟩)
  have hvs : ∀ v ∈ appVersions g, v ≠ "" → Parses X v := by
    intro v hv hvne
    obtain ⟨e', he', rfl⟩ := List.mem_map.mp hv
    exact (hg e' (List.mem_filter.mp he').1 hvne).parses
  obtain ⟨hset, hoMem, hle⟩ := oldest_spec hS hvs hmem hne
  rw [version_of_releases hset]
  obtain ⟨e', he', heq⟩ := List.mem_map.mp hoMem
  obtain ⟨hmem', hchart⟩ := List.mem_filter.mp he'
  exact ⟨hle, e', hmem', of_decide_eq_true hchart, by rw [heq]; exact hset, heq⟩

/-- No newer version hides an older install. -/
theorem older_install_reported
    (hversions : ∀ i v, PodGives X S addons ev i v ∨ ReleaseGives addons ev i v → Canonical X v) {v : String}
    (hv : PodGives X S addons ev i v ∨ ReleaseGives addons ev i v) :
    ∃ inst ∈ (matchAddOns X S addons ev).1, inst.id = i.id ∧ inst.namespaces = [i.ns] ∧
      (AtMost X S inst.version v ∨
        releaseLine inst.version = releaseLine v ∧ ReleaseGives addons ev i inst.version) := by
  have hcanonical : ∀ e ∈ evidenceOf X S addons ev i, e.version ≠ "" → Canonical X e.version := by
    intro e he hne
    by_cases hsource : e.source = .chart
    · exact hversions i _ (.inr (releaseGives_iff.mpr ⟨hne, e, he, hsource, rfl⟩))
    · exact hversions i _ (.inl (podGives_iff.mpr ⟨hne, e, he, hsource, rfl⟩))
  obtain ⟨hne, e, he, rfl⟩ : v ≠ "" ∧ ∃ e ∈ evidenceOf X S addons ev i, e.version = v := by
    rcases hv with hv | hv
    · obtain ⟨hne, e, he, -, heq⟩ := podGives_iff.mp hv
      exact ⟨hne, e, he, heq⟩
    · obtain ⟨hne, e, he, -, heq⟩ := releaseGives_iff.mp hv
      exact ⟨hne, e, he, heq⟩
  obtain ⟨g, hg, heg, hgroup⟩ := exists_group he
  have hsub : ∀ e' ∈ g, e' ∈ evidenceOf X S addons ev i := by
    intro e' he'
    rw [hgroup] at he'
    exact (List.mem_filter.mp he').1
  have hgc : ∀ e' ∈ g, e'.version ≠ "" → Canonical X e'.version := fun e' he' => hcanonical e' (hsub e' he')
  have hplace : e.source ≠ .ingressclass := by
    rcases mem_allEvidence.mp (mem_evidenceOf.mp he) with h | h | h | h | h
    · obtain ⟨img, -, c, -, -, rfl⟩ := mem_imageEvidence.mp h
      simp
    · obtain ⟨p, -, -, -, rfl⟩ := mem_labelEvidence.mp h
      simp
    · obtain ⟨rel, -, a, -, -, -, rfl⟩ := mem_releaseEvidence.mp h
      simp
    · exact absurd (of_mem_gitopsEvidence h).2 hne
    · exact absurd (of_mem_ingressEvidence h).2 hne
  refine ⟨_, instanceOf_reported he hg, rfl, namespaces_instanceOf heg hplace, ?_⟩
  by_cases hsource : e.source = .chart
  · exact .inl (atMost_of_release hS hgc heg hsource hne).1
  by_cases hoff : offLine (evidenceOf X S addons ev i) e = true
  · -- A pod off the releases' lines is in a group without a release.
    refine .inl (atMost_of_pods hS hgc (fun w hw => ?_) heg hsource hne)
    obtain ⟨e', he', rfl⟩ := List.mem_map.mp hw
    obtain ⟨hmem, hchart⟩ := List.mem_filter.mp he'
    rw [hgroup] at hmem
    have hoff' : offLine (evidenceOf X S addons ev i) e' = true := by
      simpa [hoff] using (List.mem_filter.mp hmem).2
    simp [offLine, of_decide_eq_true hchart] at hoff'
  · -- A release's evidence is never off its own lines, so it is in this group.
    have hreleases : ∀ e' ∈ evidenceOf X S addons ev i, e'.source = .chart → e' ∈ g := by
      intro e' he' hchart
      rw [hgroup]
      refine List.mem_filter.mpr ⟨he', ?_⟩
      have hnot : offLine (evidenceOf X S addons ev i) e' = false := by simp [offLine, hchart]
      simpa [hnot] using hoff
    by_cases hline : releaseLine e.version ∈ releaseLines (evidenceOf X S addons ev i)
    · obtain ⟨r, hr, hreq⟩ := List.mem_map.mp hline
      obtain ⟨hrmem, hrne⟩ := List.mem_filter.mp hr
      obtain ⟨er, her, rfl⟩ := List.mem_map.mp hrmem
      obtain ⟨hermem, herchart⟩ := List.mem_filter.mp her
      have hrne' : er.version ≠ "" := of_decide_eq_true hrne
      obtain ⟨hle, e', he', hchart', hne', heq'⟩ := atMost_of_release (i := i) hS hgc
        (hreleases er hermem (of_decide_eq_true herchart)) (of_decide_eq_true herchart) hrne'
      by_cases hsame : releaseLine (instanceOf X S i g).version = releaseLine e.version
      · exact .inr ⟨hsame, releaseGives_iff.mpr ⟨heq' ▸ hne', e', hsub e' he', hchart', heq'⟩⟩
      · exact .inl (hle.of_line hS (heq' ▸ hgc e' he' hne') (hcanonical er hermem hrne') (hcanonical e he hne) hreq hsame)
    · refine .inl (atMost_of_pods hS hgc (fun w hw => ?_) heg hsource hne)
      by_contra hwne
      obtain ⟨e', he', rfl⟩ := List.mem_map.mp hw
      obtain ⟨hmem, hchart⟩ := List.mem_filter.mp he'
      have hlines : releaseLines (evidenceOf X S addons ev i) ≠ [] := by
        refine List.ne_nil_of_mem (List.mem_map_of_mem (a := e'.version) (List.mem_filter.mpr ⟨?_, decide_eq_true hwne⟩))
        exact List.mem_map_of_mem (List.mem_filter.mpr ⟨hsub e' hmem, hchart⟩)
      exact hoff (by simp [offLine, hlines, hsource, hne, hline])

end Reported

/-! ## A registry of one add-on -/

/-- A version of two or three numeric components, as `semver.NewVersion` reads it. -/
def looseVersion (s : String) : Option SemVer :=
  match (split s '.').map atoi with
  | [some major, some minor] => some ⟨major.toNat, minor.toNat, 0, "", ""⟩
  | [some major, some minor, some patch] => some ⟨major.toNat, minor.toNat, patch.toNat, "", ""⟩
  | _ => none

/-- The packages on plain inputs, with versions of two components too. -/
def plainExternal : External := { External.ascii with newVersion := looseVersion }

/-- The order of versions without pre-releases. -/
def plainSemver : Semver where
  lessThan a b := a.major < b.major || a.major = b.major &&
    (a.minor < b.minor || a.minor = b.minor && a.patch < b.patch)
  strictNewVersion := External.threeParts

/-- The plain reading of versions keeps the laws of semver. -/
theorem plainSemver_lawful : plainSemver.Lawful := by
  refine ⟨fun h => ?_, fun h h' => ?_, fun h => ?_⟩
  all_goals
    simp only [plainSemver, Bool.or_eq_true, Bool.and_eq_true, decide_eq_true_eq, Bool.or_eq_false_iff,
      Bool.and_eq_false_iff, decide_eq_false_iff_not] at *
    omega

/-- A registry of cert-manager, by its image and its chart. -/
def certManagerRegistry : List AddOn :=
  [{ id := "cm", displayName := "cert-manager", matchers := { images := ["j/cm"], charts := ["cm"] }
     support := { status := .supported } }]

/-- A release of 1.15.3 beside a pod of 1.12.0 in one namespace. -/
def certManagerEvidence : AddOnEvidence where
  images := [⟨"cm", "q.io/j/cm:v1.12.0"⟩]
  releases := [{ name := "cm", «namespace» := "cm", chartName := "cm", appVersion := "v1.15.3" }]

/-- The release does not hide the older pod. -/
theorem certManager_older_reported :
    (∀ i v, PodGives plainExternal plainSemver certManagerRegistry certManagerEvidence i v ∨
      ReleaseGives certManagerRegistry certManagerEvidence i v → Canonical plainExternal v) ∧
    ∃ inst ∈ (matchAddOns plainExternal plainSemver certManagerRegistry certManagerEvidence).1,
      inst.id = "cm" ∧ inst.namespaces = ["cm"] ∧ (AtMost plainExternal plainSemver inst.version "1.12.0" ∨
        releaseLine inst.version = releaseLine "1.12.0" ∧
          ReleaseGives certManagerRegistry certManagerEvidence ⟨"cm", "cm"⟩ inst.version) := by
  -- The registry gives two versions of the evidence in all.
  have hall : ∀ p ∈ allEvidence plainExternal plainSemver certManagerRegistry certManagerEvidence,
      p.2.version = "1.12.0" ∨ p.2.version = "1.15.3" := by decide +kernel
  have hversions : ∀ i v, PodGives plainExternal plainSemver certManagerRegistry certManagerEvidence i v ∨
      ReleaseGives certManagerRegistry certManagerEvidence i v → Canonical plainExternal v := by
    intro i v hv
    obtain ⟨e, he, rfl⟩ : ∃ e ∈ evidenceOf plainExternal plainSemver certManagerRegistry certManagerEvidence i, e.version = v := by
      rcases hv with hv | hv
      · obtain ⟨-, e, he, -, heq⟩ := podGives_iff.mp hv
        exact ⟨e, he, heq⟩
      · obtain ⟨-, e, he, -, heq⟩ := releaseGives_iff.mp hv
        exact ⟨e, he, heq⟩
    rcases hall _ (mem_evidenceOf.mp he) with h | h
    · rw [h]
      exact ⟨⟨1, 12, 0, "", ""⟩, by decide +kernel, by decide +kernel⟩
    · rw [h]
      exact ⟨⟨1, 15, 3, "", ""⟩, by decide +kernel, by decide +kernel⟩
  refine ⟨hversions, older_install_reported (i := ⟨"cm", "cm"⟩) plainSemver_lawful hversions (.inl ?_)⟩
  have hclaim : (⟨"cm", "1.12.0", true⟩ : ImageClaim) ∈
      settled plainExternal plainSemver certManagerRegistry certManagerEvidence ⟨"cm", "q.io/j/cm:v1.12.0"⟩ := by
    decide +kernel
  have himage : (⟨"cm", "q.io/j/cm:v1.12.0"⟩ : NsImage) ∈ certManagerEvidence.images := List.mem_cons_self
  exact .image himage hclaim (by decide)

end UpgradeScope.Collect
