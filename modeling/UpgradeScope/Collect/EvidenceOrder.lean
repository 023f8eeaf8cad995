import UpgradeScope.Registry.Claims
import UpgradeScope.Collect.Oldest

/-!
# Evidence in another order

What `matchAddOns` makes of evidence does not depend on the order of its lists where each of the
lists of versions that it folds has one oldest text (`matchAddOns_reorders`). Versions that semver
takes to be equal keep the spelling met first, and versions that do not parse are compared as texts,
which is not transitive beside semver, so without that condition the order shows
(`certManager_order_shows`). An image without a tag goes to the first entry its evidence names that
shares its repository by tags; without claim conflicts there is at most one such entry
(`sharesRepository_unique`).
-/

namespace UpgradeScope.Collect

open Go Sorting Registry

/-! ## The oldest text -/

/-- The versions have one oldest text: none is given, or one is before every other given one, and none before it. -/
def SingleOldest (X : External) (S : Semver) (vs : List String) : Prop :=
  (∀ v ∈ vs, v = "") ∨
    ∃ v ∈ vs, v ≠ "" ∧ ∀ w ∈ vs, w ≠ "" → w ≠ v → versionLess X S v w = true ∧ versionLess X S w v = false

instance (X : External) (S : Semver) (vs : List String) : Decidable (SingleOldest X S vs) :=
  inferInstanceAs (Decidable (_ ∨ _))

section Versions

variable {X : External} {S : Semver} {vs vs' : List String}

/-- The oldest version is the one that the loop over the given versions keeps. -/
theorem oldest_eq_pick (vs : List String) : oldest X S vs = pick "" (versionLess X S) (vs.filter (· ≠ "")) :=
  foldl_known_eq_pick (versionLess X S) vs

/-- Versions with one oldest text have it in every order. -/
theorem SingleOldest.oldest_eq (h : SingleOldest X S vs) (hperm : vs.Perm vs') : oldest X S vs' = oldest X S vs := by
  rw [oldest_eq_pick, oldest_eq_pick, eq_comm]
  refine pick_eq_of_perm (hperm.filter _) ?_
  rcases h with hnone | ⟨v, hv, hne, hbefore⟩
  · left
    rw [List.filter_eq_nil_iff.mpr fun v hv => by simp [hnone v hv]]
    simp
  · refine .inr ⟨v, hne, List.mem_filter.mpr ⟨hv, decide_eq_true hne⟩, fun w hw hwv => ?_⟩
    obtain ⟨hw, hwne⟩ := List.mem_filter.mp hw
    exact hbefore w hw (of_decide_eq_true hwne) hwv

/-- Where a version is given, the oldest is one of them. -/
theorem oldest_mem {v : String} (hv : v ∈ vs) (hne : v ≠ "") : oldest X S vs ∈ vs ∧ oldest X S vs ≠ "" := by
  have hknown : v ∈ vs.filter (· ≠ "") := List.mem_filter.mpr ⟨hv, decide_eq_true hne⟩
  have hset : "" ∉ vs.filter (· ≠ "") := by simp
  have hmem := pick_mem_of_ne_nil (versionLess X S) (List.ne_nil_of_mem hknown) hset
  rw [← oldest_eq_pick] at hmem
  obtain ⟨hmem, hgiven⟩ := List.mem_filter.mp hmem
  exact ⟨hmem, of_decide_eq_true hgiven⟩

/-- A version that the oldest of a list only stands in for does not depend on the order of the list. -/
theorem orElse_oldest_eq {ws : List String} (h : (∀ w ∈ ws, w = "") → SingleOldest X S vs) (hperm : vs.Perm vs') :
    orElse (oldest X S ws) (oldest X S vs') = orElse (oldest X S ws) (oldest X S vs) := by
  by_cases hnone : ∀ w ∈ ws, w = ""
  · rw [(h hnone).oldest_eq hperm]
  · push Not at hnone
    obtain ⟨w, hw, hne⟩ := hnone
    simp [orElse, (oldest_mem (X := X) (S := S) hw hne).2]

end Versions

/-! ## Images without a tag -/

section Untagged

variable {X : External} {addons : List AddOn} {ref : ImageRef}

/-- The path of a matcher has no tag pattern of its own. -/
theorem splitTagPattern_path (m : String) : splitTagPattern (splitTagPattern m).1 = ((splitTagPattern m).1, "") := by
  unfold splitTagPattern
  have hcut : cut (cut m ':').1 ':' = ((cut m ':').1, "", false) := by
    cases hm : cutChars ':' m.toList with
    | none => simp [cut, hm]
    | some p =>
      obtain ⟨-, hcolon⟩ := cutChars_eq_some.mp hm
      have hnone : cutChars ':' p.1 = none := cutChars_eq_none.mpr hcolon
      simp [cut, hm, hnone]
  rw [hcut]

/-- The path of a matcher claims an image: it is a provider's location and the image's repository is there, or neither
is a provider's and the image's path is the matcher's. -/
theorem imageMatches_path (ref : ImageRef) (m : String) : imageMatches X ref (splitTagPattern m).1 = true ↔
    if isProviderBuild (splitTagPattern m).1 then pathMatches ref.repository (splitTagPattern m).1 = true
    else isProviderBuild ref.repository = false ∧ pathMatches ref.path (splitTagPattern m).1 = true := by
  unfold imageMatches
  rw [splitTagPattern_path]
  dsimp only
  rw [if_neg (by simp)]
  split_ifs with hprovider
  · rfl
  · simp

/-- The paths of two matchers that claim one image overlap: both are a provider's location or neither is, and one is
below the other. -/
theorem paths_overlap {m m' : String} (h : imageMatches X ref (splitTagPattern m).1 = true)
    (h' : imageMatches X ref (splitTagPattern m').1 = true) :
    isProviderBuild (splitTagPattern m).1 = isProviderBuild (splitTagPattern m').1 ∧
      (pathMatches (splitTagPattern m).1 (splitTagPattern m').1 = true ∨
        pathMatches (splitTagPattern m').1 (splitTagPattern m).1 = true) := by
  rw [imageMatches_path] at h h'
  cases hp : isProviderBuild (splitTagPattern m).1 <;> cases hp' : isProviderBuild (splitTagPattern m').1 <;>
    simp only [hp, hp', Bool.false_eq_true, if_false, if_true] at h h'
  · exact ⟨rfl, pathMatches_or h.2 h'.2⟩
  · exact absurd (isProviderBuild_of_pathMatches h' hp') (by simp [h.1])
  · exact absurd (isProviderBuild_of_pathMatches h hp) (by simp [h'.1])
  · exact ⟨rfl, pathMatches_or h h'⟩

/-- Two matchers with tag patterns whose paths claim one image overlap. -/
theorem matchersOverlap_of_imageMatches {m m' : String} (hm : tagQualified m = true) (hm' : tagQualified m' = true)
    (h : imageMatches X ref (splitTagPattern m).1 = true) (h' : imageMatches X ref (splitTagPattern m').1 = true) :
    matchersOverlap m m' = true := by
  have htags : decide ((splitTagPattern m).2 = "") = decide ((splitTagPattern m').2 = "") := by
    rw [decide_eq_false (of_decide_eq_true hm), decide_eq_false (of_decide_eq_true hm')]
  obtain ⟨hprovider, hpaths⟩ := paths_overlap h h'
  unfold matchersOverlap claimsOverlap
  dsimp only
  rw [if_neg (by simp [hprovider, htags]), Bool.or_eq_true]
  exact hpaths

/-- At most one id shares a repository by tags. -/
theorem sharesRepository_unique (hconf : claimConflicts X addons = []) {id id' : String}
    (h : sharesRepository X addons ref id = true) (h' : sharesRepository X addons ref id' = true) : id = id' := by
  unfold sharesRepository at h h'
  rw [Option.any_eq_true] at h h'
  obtain ⟨a, ha, hclaims⟩ := h
  obtain ⟨a', ha', hclaims'⟩ := h'
  obtain ⟨m, hm, hmatch⟩ := List.any_eq_true.mp hclaims
  obtain ⟨m', hm', hmatch'⟩ := List.any_eq_true.mp hclaims'
  rw [Bool.and_eq_true] at hmatch hmatch'
  have hid : a.id = id := by simpa using List.find?_some ha
  have hid' : a'.id = id' := by simpa using List.find?_some ha'
  by_contra hne
  have hapart := apart_of_claimConflicts hconf (List.mem_of_find?_eq_some ha) (List.mem_of_find?_eq_some ha')
    (fun heq => hne (by rw [← hid, ← hid', heq])) (List.mem_append_left _ hm) (List.mem_append_left _ hm')
  rw [matchersOverlap_of_imageMatches hmatch.1 hmatch'.1 hmatch.2 hmatch'.2] at hapart
  simp at hapart

end Untagged

/-! ## Reordered evidence -/

/-- The same evidence, each list in any order. -/
structure AddOnEvidence.Reorders (ev ev' : AddOnEvidence) : Prop where
  /-- The images. -/
  images : ev.images.Perm ev'.images
  /-- The pods with labels. -/
  labelled : ev.labelled.Perm ev'.labelled
  /-- The Helm releases. -/
  releases : ev.releases.Perm ev'.releases
  /-- The GitOps charts. -/
  gitops : ev.gitops.Perm ev'.gitops
  /-- The controllers of the IngressClasses. -/
  ingressControllers : ev.ingressControllers.Perm ev'.ingressControllers

/-- A group of evidence has one oldest text of every version that it shows. -/
structure GroupOldest (X : External) (S : Semver) (g : List Evidence) : Prop where
  /-- The app versions of the releases. -/
  app : SingleOldest X S (appVersions g)
  /-- The versions of the pods, where no release gives one. -/
  pods : (∀ v ∈ appVersions g, v = "") → SingleOldest X S (podVersions g)
  /-- The chart versions of the releases. -/
  releaseChart : SingleOldest X S (releaseCharts g)
  /-- The chart versions of the GitOps resources, where no release gives one. -/
  gitopsChart : (∀ v ∈ releaseCharts g, v = "") → SingleOldest X S (gitopsCharts g)

/-- Every list of versions that detection folds has one oldest text. -/
structure OldestApart (X : External) (S : Semver) (addons : List AddOn) (ev : AddOnEvidence) : Prop where
  /-- The labels of an image whose tag names no version. -/
  labels : ∀ img ∈ ev.images, versionFromTag (parseImage img.image).tag = "" → ∀ c ∈ namedClaims X addons ev img,
    c.byTag = true → SingleOldest X S (labelVersions addons ev img c.id)
  /-- The versions of each install. -/
  groups : ∀ i, ∀ g ∈ groups (evidenceOf X S addons ev i), GroupOldest X S g

section Claims

variable {X : External} {S : Semver} {addons : List AddOn} {ev ev' : AddOnEvidence} (hev : ev.Reorders ev')
include hev

/-- Evidence in another order has the same labels that name an add-on, in another order. -/
theorem labelNamed_perm (img : NsImage) : (labelNamed addons ev img).Perm (labelNamed addons ev' img) :=
  hev.labelled.flatMap_right _

/-- The versions of labels, in another order. -/
theorem labelVersions_perm (img : NsImage) (id : String) :
    (labelVersions addons ev img id).Perm (labelVersions addons ev' img id) :=
  ((labelNamed_perm hev img).filter _).map _

/-- Evidence in another order has the same releases that name an add-on, in another order. -/
theorem releaseNamed_perm (ns : String) : (releaseNamed addons ev ns).Perm (releaseNamed addons ev' ns) :=
  (hev.releases.filter _).flatMap_right _

omit hev in
/-- What is named for an image has the version of its tag. -/
theorem byTag_of_named {img : NsImage} {c : ImageClaim}
    (hc : c ∈ labelNamed addons ev img ++ releaseNamed addons ev img.namespace) : c.byTag = true := by
  rcases List.mem_append.mp hc with hc | hc
  · obtain ⟨p, -, hc⟩ := List.mem_flatMap.mp hc
    split_ifs at hc
    · simp at hc
    · obtain ⟨-, -, rfl⟩ := List.mem_map.mp hc
      rfl
  · obtain ⟨rel, -, hc⟩ := List.mem_flatMap.mp hc
    obtain ⟨a, -, rfl⟩ := List.mem_map.mp hc
    rfl

/-- The entry named for an image without a tag is the same in every order; which of its labels is met first is not. -/
theorem namedClaims_reorders (hconf : claimConflicts X addons = []) (img : NsImage) :
    namedClaims X addons ev' img = namedClaims X addons ev img ∨ (parseImage img.image).tag = "" ∧
      ∃ c c', namedClaims X addons ev img = [c] ∧ namedClaims X addons ev' img = [c'] ∧ c'.id = c.id ∧
        c.byTag = true ∧ c'.byTag = true := by
  unfold namedClaims untaggedClaim
  by_cases htag : (parseImage img.image).tag ≠ ""
  · rw [if_pos htag, if_pos htag]
    exact .inl rfl
  rw [if_neg htag, if_neg htag]
  have hperm : (labelNamed addons ev img ++ releaseNamed addons ev img.namespace).Perm
      (labelNamed addons ev' img ++ releaseNamed addons ev' img.namespace) :=
    (labelNamed_perm hev img).append (releaseNamed_perm hev img.namespace)
  cases hfind : (labelNamed addons ev img ++ releaseNamed addons ev img.namespace).find? fun n =>
      sharesRepository X addons (parseImage img.image) n.id with
  | none =>
    have hnone : ((labelNamed addons ev' img ++ releaseNamed addons ev' img.namespace).find? fun n =>
        sharesRepository X addons (parseImage img.image) n.id) = none := by
      rw [List.find?_eq_none] at hfind ⊢
      exact fun n hn => hfind n (hperm.mem_iff.mpr hn)
    rw [hnone]
    exact .inl rfl
  | some c =>
    have hc := List.mem_of_find?_eq_some hfind
    cases hfind' : (labelNamed addons ev' img ++ releaseNamed addons ev' img.namespace).find? fun n =>
        sharesRepository X addons (parseImage img.image) n.id with
    | none =>
      rw [List.find?_eq_none] at hfind'
      exact absurd (List.find?_some hfind) (hfind' c (hperm.mem_iff.mp hc))
    | some c' =>
      have hshares : sharesRepository X addons (parseImage img.image) c.id = true := by
        simpa using List.find?_some hfind
      have hshares' : sharesRepository X addons (parseImage img.image) c'.id = true := by
        simpa using List.find?_some hfind'
      -- Both name the one entry that the repository is of.
      refine .inr ⟨not_not.mp htag, c, c', rfl, rfl, ?_, byTag_of_named hc, ?_⟩
      · exact sharesRepository_unique hconf hshares' hshares
      · exact byTag_of_named (List.mem_of_find?_eq_some hfind')

/-- The claims on an image, in another order. -/
theorem settled_reorders (hconf : claimConflicts X addons = []) (hone : OldestApart X S addons ev) {img : NsImage}
    (himg : img ∈ ev.images) : settled X S addons ev' img = settled X S addons ev img := by
  have hlabel : versionFromTag (parseImage img.image).tag = "" → ∀ c ∈ namedClaims X addons ev img, c.byTag = true →
      labelVersion X S addons ev' img c.id = labelVersion X S addons ev img c.id := fun hversion c hc hby =>
    (hone.labels img himg hversion c hc hby).oldest_eq (labelVersions_perm hev img c.id)
  unfold settled
  rcases namedClaims_reorders hev hconf img with heq | ⟨htag, c, c', hc, hc', hid, hby, hby'⟩
  · rw [heq]
    split_ifs with hversion
    · refine List.map_congr_left fun c hc => ?_
      split_ifs with hby
      · rw [hlabel hversion c hc hby]
      · rfl
    · rfl
  · have hversion : versionFromTag (parseImage img.image).tag = "" := by
      rw [htag]
      rfl
    have hsame := hlabel hversion c (by rw [hc]; exact List.mem_cons_self) hby
    rw [if_pos hversion, if_pos hversion, hc, hc']
    -- Both claims are of one add-on, and the version of either is replaced.
    obtain ⟨id, version, byTag⟩ := c
    obtain ⟨id', version', byTag'⟩ := c'
    simp only at hid hby hby' hsame
    simp [hid, hby, hby', hsame]

/-- Evidence in another order gives every install the same pieces, in another order. -/
theorem allEvidence_perm (hconf : claimConflicts X addons = []) (hone : OldestApart X S addons ev) :
    (allEvidence X S addons ev).Perm (allEvidence X S addons ev') := by
  have himage : (imageEvidence X S addons ev).Perm (imageEvidence X S addons ev') := by
    unfold imageEvidence
    have hsettled : (ev.images.flatMap fun img => (settled X S addons ev img).map fun c =>
          ((⟨c.id, img.namespace⟩, { source := .image, version := c.version }) : Install × Evidence)) =
        ev.images.flatMap fun img => (settled X S addons ev' img).map fun c =>
          ((⟨c.id, img.namespace⟩, { source := .image, version := c.version }) : Install × Evidence) :=
      List.flatMap_congr fun img himg => by rw [settled_reorders hev hconf hone himg]
    rw [hsettled]
    exact hev.images.flatMap_right _
  have hdirect : (directEvidence X S addons ev).Perm (directEvidence X S addons ev') := by
    unfold directEvidence
    refine ((himage.append ?_).append ?_).append ?_
    · exact (hev.labelled.filter _).map _
    · exact hev.releases.flatMap_right _
    · exact hev.gitops.flatMap_right _
  have hcounts : controllerCounts X S addons ev = controllerCounts X S addons ev' := by
    funext c
    unfold controllerCounts
    have hany : ∀ id, ((directEvidence X S addons ev).any fun e => e.1.id = id) =
        (directEvidence X S addons ev').any fun e => e.1.id = id := fun id => any_eq_of_perm hdirect
    simp only [hany]
  refine hdirect.append ?_
  unfold ingressEvidence
  rw [hcounts]
  exact (hev.ingressControllers.filter _).map _

/-- The evidence of an install, in another order. -/
theorem evidenceOf_perm (hconf : claimConflicts X addons = []) (hone : OldestApart X S addons ev) (i : Install) :
    (evidenceOf X S addons ev i).Perm (evidenceOf X S addons ev' i) :=
  ((allEvidence_perm hev hconf hone).filter _).map _

/-- The images nobody claims, in another order. -/
theorem unmatchedImages_perm (hconf : claimConflicts X addons = []) (hone : OldestApart X S addons ev) :
    (unmatchedImages X S addons ev).Perm (unmatchedImages X S addons ev') := by
  unfold unmatchedImages
  have hfilter : (ev.images.filter fun img => decide (settled X S addons ev img = [])) =
      ev.images.filter fun img => decide (settled X S addons ev' img = []) :=
    List.filter_congr fun img himg => by rw [settled_reorders hev hconf hone himg]
  rw [hfilter]
  exact (hev.images.filter _).map _

end Claims

/-! ## The installs of reordered evidence -/

section Installs

variable {X : External} {S : Semver} {g g' evs evs' : List Evidence} {i : Install}

/-- The strongest source does not depend on the order. -/
theorem strongest_eq_of_perm (h : g.Perm g') : strongest g' = strongest g := by
  unfold strongest
  refine h.symm.foldl_eq' (fun e _ e' _ cur => ?_) none
  rcases cur with - | cur
  · cases e.source <;> cases e'.source <;> rfl
  · cases cur <;> cases e.source <;> cases e'.source <;> rfl

/-- The install of a group does not depend on the order of its evidence. -/
theorem GroupOldest.instanceOf_eq (hone : GroupOldest X S g) (h : g.Perm g') :
    instanceOf X S i g' = instanceOf X S i g := by
  have happ : oldest X S (appVersions g') = oldest X S (appVersions g) := hone.app.oldest_eq ((h.filter _).map _)
  have hchart : oldest X S (releaseCharts g') = oldest X S (releaseCharts g) :=
    hone.releaseChart.oldest_eq ((h.filter _).map _)
  have hpods : (podVersions g).Perm (podVersions g') := (h.filter _).map _
  have hgitops : (gitopsCharts g).Perm (gitopsCharts g') := (h.filter _).map _
  unfold instanceOf
  rw [happ, hchart, orElse_oldest_eq hone.pods hpods, orElse_oldest_eq hone.gitopsChart hgitops, strongest_eq_of_perm h]

/-- Which evidence is off the releases' lines does not depend on the order. -/
theorem offLine_eq_of_perm (h : evs.Perm evs') : offLine evs' = offLine evs := by
  have hlines : (releaseLines evs).Perm (releaseLines evs') := (((h.filter _).map _).filter _).map _
  funext e
  unfold offLine
  have hnil : decide (releaseLines evs' ≠ []) = decide (releaseLines evs ≠ []) := by
    rw [decide_eq_decide, ne_eq, ne_eq, ← List.length_eq_zero_iff, ← List.length_eq_zero_iff, hlines.length_eq]
  have hmem : decide (releaseLine e.version ∉ releaseLines evs') = decide (releaseLine e.version ∉ releaseLines evs) := by
    rw [decide_eq_decide, hlines.mem_iff]
  rw [hnil, hmem]

/-- The installs of the groups do not depend on the order of the evidence. -/
theorem map_groups_eq_of_perm (hone : ∀ g ∈ groups evs, GroupOldest X S g) (h : evs.Perm evs') :
    (groups evs').map (instanceOf X S i) = (groups evs).map (instanceOf X S i) := by
  unfold groups at hone ⊢
  dsimp only at hone ⊢
  rw [offLine_eq_of_perm h]
  have hagree := (hone _ List.mem_cons_self).instanceOf_eq (i := i) (h.filter fun e => !offLine evs e)
  have hother : (evs.filter (offLine evs)).Perm (evs'.filter (offLine evs)) := h.filter _
  have hnil : evs'.filter (offLine evs) = [] ↔ evs.filter (offLine evs) = [] := by
    rw [← List.length_eq_zero_iff, ← List.length_eq_zero_iff, hother.length_eq]
  rw [List.map_cons, List.map_cons, hagree]
  by_cases hnone : evs.filter (offLine evs) = []
  · rw [if_pos hnone, if_pos (hnil.mpr hnone)]
  · rw [if_neg hnone] at hone
    rw [if_neg hnone, if_neg (mt hnil.mp hnone), List.map_singleton, List.map_singleton]
    rw [(hone _ (List.mem_cons_of_mem _ List.mem_cons_self)).instanceOf_eq hother]

/-- The strongest source is the source of a piece of evidence. -/
theorem strongest_mem {src : EvidenceSource} (h : strongest g = some src) : ∃ e ∈ g, e.source = src := by
  have hrun : ∀ (g : List Evidence) (cur : Option EvidenceSource),
      g.foldl (fun cur e => if ((cur.map (·.strength)).getD 0) < e.source.strength then some e.source else cur) cur =
        some src → cur = some src ∨ ∃ e ∈ g, e.source = src := by
    intro g
    induction g with
    | nil => exact fun cur hcur => .inl hcur
    | cons e g ih =>
      intro cur hcur
      rw [List.foldl_cons] at hcur
      rcases ih _ hcur with hstep | ⟨e', he', hsrc⟩
      · split_ifs at hstep
        · exact .inr ⟨e, List.mem_cons_self, Option.some.inj hstep⟩
        · exact .inl hstep
      · exact .inr ⟨e', List.mem_cons_of_mem _ he', hsrc⟩
  exact (hrun g none h).resolve_left (by simp)

/-- The evidence of a group is evidence of its install. -/
theorem mem_of_mem_groups (hg : g ∈ groups evs) {e : Evidence} (he : e ∈ g) : e ∈ evs := by
  unfold groups at hg
  dsimp only at hg
  rcases List.mem_cons.mp hg with rfl | hg
  · exact (List.mem_filter.mp he).1
  · split_ifs at hg with hnone
    · simp at hg
    · rw [List.mem_singleton.mp hg] at he
      exact (List.mem_filter.mp he).1

/-- The line of the releases' group is one of the releases' lines, where a pod is off them. -/
theorem line_of_agree (hother : evs.filter (offLine evs) ≠ []) :
    releaseLine (instanceOf X S i (evs.filter fun e => !offLine evs e)).version ∈ releaseLines evs := by
  obtain ⟨e, he⟩ := List.exists_mem_of_ne_nil _ hother
  have hoff := (List.mem_filter.mp he).2
  have hlines : releaseLines evs ≠ [] := by
    intro hnil
    simp [offLine, hnil] at hoff
  -- A release's evidence is never off its own lines, so the group has every release's version.
  have hgroup : appVersions (evs.filter fun e => !offLine evs e) = appVersions evs := by
    unfold appVersions
    rw [List.filter_filter]
    refine congrArg _ (List.filter_congr fun e _ => ?_)
    by_cases hchart : e.source = .chart
    · simp [offLine, hchart]
    · simp [hchart]
  obtain ⟨line, hline⟩ := List.exists_mem_of_ne_nil _ hlines
  obtain ⟨v, hv, -⟩ := List.mem_map.mp hline
  obtain ⟨hv, hne⟩ := List.mem_filter.mp hv
  obtain ⟨hmem, hset⟩ := oldest_mem (X := X) (S := S) hv (of_decide_eq_true hne)
  rw [version_of_releases (by rw [hgroup]; exact hset), hgroup]
  exact List.mem_map_of_mem (List.mem_filter.mpr ⟨hmem, decide_eq_true hset⟩)

/-- The line of the other group is none of them. -/
theorem line_of_other (hother : evs.filter (offLine evs) ≠ []) :
    releaseLine (instanceOf X S i (evs.filter (offLine evs))).version ∉ releaseLines evs := by
  have hpods : ∀ e ∈ evs.filter (offLine evs), e.source ≠ .chart ∧ e.version ≠ "" ∧
      releaseLine e.version ∉ releaseLines evs := by
    intro e he
    have hoff := (List.mem_filter.mp he).2
    unfold offLine at hoff
    simp only [Bool.and_eq_true, decide_eq_true_eq] at hoff
    exact ⟨hoff.1.1.2, hoff.1.2, hoff.2⟩
  have hnone : ∀ w ∈ appVersions (evs.filter (offLine evs)), w = "" := by
    intro w hw
    obtain ⟨e, he, rfl⟩ := List.mem_map.mp hw
    obtain ⟨he, hchart⟩ := List.mem_filter.mp he
    exact absurd (of_decide_eq_true hchart) (hpods e he).1
  obtain ⟨e, he⟩ := List.exists_mem_of_ne_nil _ hother
  have hmem : e.version ∈ podVersions (evs.filter (offLine evs)) :=
    List.mem_map_of_mem (List.mem_filter.mpr ⟨he, decide_eq_true (hpods e he).1⟩)
  rw [version_of_pods hnone]
  obtain ⟨e', he', heq⟩ := List.mem_map.mp (oldest_mem (X := X) (S := S) hmem (hpods e he).2.1).1
  rw [← heq]
  exact (hpods e' (List.mem_filter.mp he').1).2.2

/-- The groups of an install have different versions. -/
theorem groups_apart (hg : g ∈ groups evs) (hg' : g' ∈ groups evs)
    (h : (instanceOf X S i g).version = (instanceOf X S i g').version) : g = g' := by
  unfold groups at hg hg'
  dsimp only at hg hg'
  by_cases hnone : evs.filter (offLine evs) = []
  · rw [if_pos hnone] at hg hg'
    rw [List.mem_singleton.mp hg, List.mem_singleton.mp hg']
  · rw [if_neg hnone] at hg hg'
    have hagree := line_of_agree (X := X) (S := S) (i := i) hnone
    have hother := line_of_other (X := X) (S := S) (i := i) hnone
    simp only [List.mem_cons, List.not_mem_nil, or_false] at hg hg'
    rcases hg with rfl | rfl <;> rcases hg' with rfl | rfl
    · rfl
    · rw [h] at hagree
      exact absurd hagree hother
    · rw [← h] at hagree
      exact absurd hagree hother
    · rfl

end Installs

section Detected

variable {X : External} {S : Semver} {addons : List AddOn} {ev ev' : AddOnEvidence} {i j : Install} {g g' : List Evidence}

/-- An install with namespaces is in its own. -/
theorem namespaces_of_ne_nil (h : (instanceOf X S i g).namespaces ≠ []) : (instanceOf X S i g).namespaces = [i.ns] := by
  unfold instanceOf at h ⊢
  exact if_neg fun hclass => h (if_pos hclass)

/-- The namespace of an install without namespaces is empty. -/
theorem ns_of_namespaces (hg : g ∈ groups (evidenceOf X S addons ev i)) (h : (instanceOf X S i g).namespaces = []) :
    i.ns = "" := by
  unfold instanceOf at h
  dsimp only at h
  split_ifs at h with hsource
  obtain ⟨e, he, hclass⟩ := strongest_mem hsource
  rcases mem_allEvidence.mp (mem_evidenceOf.mp (mem_of_mem_groups hg he)) with h | h | h | h | h
  · obtain ⟨img, -, c, -, -, rfl⟩ := mem_imageEvidence.mp h
    simp at hclass
  · obtain ⟨p, -, -, -, rfl⟩ := mem_labelEvidence.mp h
    simp at hclass
  · obtain ⟨rel, -, a, -, -, -, rfl⟩ := mem_releaseEvidence.mp h
    simp at hclass
  · simp [(of_mem_gitopsEvidence h).1] at hclass
  · unfold ingressEvidence at h
    obtain ⟨c, -, hc⟩ := List.mem_map.mp h
    rw [← (Prod.mk.inj hc).1]

/-- Two detected installs of one place in the order are one. -/
theorem instance_eq_of_order (hg : g ∈ groups (evidenceOf X S addons ev i)) (hg' : g' ∈ groups (evidenceOf X S addons ev j))
    (h : instanceOrder (instanceOf X S i g) = instanceOrder (instanceOf X S j g')) :
    instanceOf X S i g = instanceOf X S j g' := by
  have hkey : i.id = j.id ∧ (instanceOf X S i g).namespaces = (instanceOf X S j g').namespaces ∧
      (instanceOf X S i g).version = (instanceOf X S j g').version := by
    unfold instanceOrder at h
    have hpair := Prod.mk.inj (toLex_inj.mp h)
    have hrest := Prod.mk.inj (toLex_inj.mp hpair.2)
    exact ⟨hpair.1, hrest.1, (Prod.mk.inj (toLex_inj.mp hrest.2)).1⟩
  obtain ⟨hid, hnamespaces, hversion⟩ := hkey
  have hns : i.ns = j.ns := by
    by_cases hnone : (instanceOf X S i g).namespaces = []
    · rw [ns_of_namespaces hg hnone, ns_of_namespaces hg' (hnamespaces ▸ hnone)]
    · have hset : (instanceOf X S j g').namespaces ≠ [] := hnamespaces ▸ hnone
      rw [namespaces_of_ne_nil hnone, namespaces_of_ne_nil hset] at hnamespaces
      exact List.singleton_inj.mp hnamespaces
  obtain rfl : i = j := by
    cases i
    cases j
    simp_all
  rw [groups_apart hg hg' hversion]

/-- The installs of evidence, sorted, do not depend on the order in which they are met. -/
theorem sortOn_instances_eq_of_perm {is is' : List Install} (h : is.Perm is') :
    sortOn instanceOrder (is.flatMap fun i => (groups (evidenceOf X S addons ev i)).map (instanceOf X S i)) =
      sortOn instanceOrder (is'.flatMap fun i => (groups (evidenceOf X S addons ev i)).map (instanceOf X S i)) := by
  refine sortOn_eq_of_perm (fun a ha b hb hkey => ?_) (h.flatMap_right _)
  obtain ⟨i, -, ha⟩ := List.mem_flatMap.mp ha
  obtain ⟨g, hg, rfl⟩ := List.mem_map.mp ha
  obtain ⟨j, -, hb⟩ := List.mem_flatMap.mp hb
  obtain ⟨g', hg', rfl⟩ := List.mem_map.mp hb
  exact instance_eq_of_order hg hg' hkey

/-- Detection does not depend on the order of its evidence where every list of versions it folds has one oldest text. -/
theorem matchAddOns_reorders (hconf : claimConflicts X addons = []) (hev : ev.Reorders ev')
    (hone : OldestApart X S addons ev) : matchAddOns X S addons ev' = matchAddOns X S addons ev := by
  unfold matchAddOns
  rw [sortedSet_eq_of_perm (unmatchedImages_perm hev hconf hone)]
  refine Prod.ext (Eq.symm ?_) rfl
  have hinstalls : ∀ i, (groups (evidenceOf X S addons ev' i)).map (instanceOf X S i) =
      (groups (evidenceOf X S addons ev i)).map (instanceOf X S i) := fun i =>
    map_groups_eq_of_perm (hone.groups i) (evidenceOf_perm hev hconf hone i)
  simp only [hinstalls]
  exact sortOn_instances_eq_of_perm ((allEvidence_perm hev hconf hone).map _).dedup

end Detected

/-! ## Pods of one namespace -/

/-- Pods of cert-manager in one namespace. -/
def certManagerPods (images : List String) : AddOnEvidence where
  images := images.map fun image => ⟨"cm", image⟩

/-- Two spellings of one version in either order: the one met first is reported. -/
theorem certManager_order_shows : claimConflicts plainExternal certManagerRegistry = [] ∧
    (certManagerPods ["q.io/j/cm:v1.31", "q.io/j/cm:v1.31.0"]).Reorders
      (certManagerPods ["q.io/j/cm:v1.31.0", "q.io/j/cm:v1.31"]) ∧
    (matchAddOns plainExternal plainSemver certManagerRegistry
      (certManagerPods ["q.io/j/cm:v1.31", "q.io/j/cm:v1.31.0"])).1.map (·.version) = ["1.31"] ∧
    (matchAddOns plainExternal plainSemver certManagerRegistry
      (certManagerPods ["q.io/j/cm:v1.31.0", "q.io/j/cm:v1.31"])).1.map (·.version) = ["1.31.0"] := by
  refine ⟨rfl, ⟨List.Perm.swap _ _ _, List.Perm.refl _, List.Perm.refl _, List.Perm.refl _, List.Perm.refl _⟩, ?_, ?_⟩
  · decide +kernel
  · decide +kernel

/-- Two versions in either order: the older one is reported. -/
theorem certManager_reorders : claimConflicts plainExternal certManagerRegistry = [] ∧
    OldestApart plainExternal plainSemver certManagerRegistry
      (certManagerPods ["q.io/j/cm:v1.15.3", "q.io/j/cm:v1.12.0"]) ∧
    matchAddOns plainExternal plainSemver certManagerRegistry
        (certManagerPods ["q.io/j/cm:v1.12.0", "q.io/j/cm:v1.15.3"]) =
      matchAddOns plainExternal plainSemver certManagerRegistry
        (certManagerPods ["q.io/j/cm:v1.15.3", "q.io/j/cm:v1.12.0"]) := by
  have hall : allEvidence plainExternal plainSemver certManagerRegistry
      (certManagerPods ["q.io/j/cm:v1.15.3", "q.io/j/cm:v1.12.0"]) =
        [(⟨"cm", "cm"⟩, ⟨.image, "1.15.3", ""⟩), (⟨"cm", "cm"⟩, ⟨.image, "1.12.0", ""⟩)] := by
    decide +kernel
  have hone : OldestApart plainExternal plainSemver certManagerRegistry
      (certManagerPods ["q.io/j/cm:v1.15.3", "q.io/j/cm:v1.12.0"]) := by
    refine ⟨by decide +kernel, fun i g hg => ?_⟩
    unfold evidenceOf at hg
    rw [hall] at hg
    by_cases hi : (⟨"cm", "cm"⟩ : Install) = i
    · have hgroup : g = [⟨.image, "1.15.3", ""⟩, ⟨.image, "1.12.0", ""⟩] := by
        simpa [hi, groups, offLine, releaseLines, appVersions] using hg
      subst hgroup
      exact ⟨by decide +kernel, fun _ => by decide +kernel, by decide +kernel, fun _ => by decide +kernel⟩
    · have hgroup : g = [] := by
        simpa [hi, groups] using hg
      subst hgroup
      exact ⟨by decide +kernel, fun _ => by decide +kernel, by decide +kernel, fun _ => by decide +kernel⟩
  exact ⟨rfl, hone, matchAddOns_reorders rfl
    ⟨List.Perm.swap _ _ _, List.Perm.refl _, List.Perm.refl _, List.Perm.refl _, List.Perm.refl _⟩ hone⟩

end UpgradeScope.Collect
