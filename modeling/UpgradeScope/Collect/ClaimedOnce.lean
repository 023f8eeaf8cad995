import UpgradeScope.Registry.Merge
import UpgradeScope.Collect.EvidenceOrder

/-!
# Every image is claimed once

`ClaimConflicts` compares the matchers of a registry's entries two by two, as texts; `imageClaims` decides which entries
an image reference belongs to, with those that match its tag ahead. Two matchers of one image overlap
(`claimsOverlap_of_imageMatches`), so in a registry without conflicts an image has one entry at most, and a label or a
chart names one. An operator's entries that bring no conflicts take no image away from an embedded entry that they do
not replace: a matcher that is ahead by its tags is one that the embedded registry has already.
-/

namespace UpgradeScope.Collect

open Go Registry

variable {X : External} {L : Library} {ref : ImageRef}

/-! ## Matchers of one image -/

/-- A matcher claims an image by its path, and by its tag where it has a pattern. -/
theorem imageMatches_path_of {m : String} (h : imageMatches X ref m = true) :
    imageMatches X ref (splitTagPattern m).1 = true := by
  rw [imageMatches_path]
  unfold imageMatches at h
  dsimp only at h
  split_ifs at h with htag hprovider
  · rw [if_pos hprovider]
    exact h
  · rw [if_neg hprovider]
    simpa using h

/-- Two matchers of one image overlap, unless one of them is ahead by its tags. -/
theorem claimsOverlap_of_imageMatches {m m' : String} {ahead : Bool} (h : imageMatches X ref m = true)
    (h' : imageMatches X ref m' = true) (htags : ahead = true → tagQualified m = tagQualified m') :
    claimsOverlap m m' ahead = true := by
  obtain ⟨hprovider, hpaths⟩ := paths_overlap (imageMatches_path_of h) (imageMatches_path_of h')
  unfold claimsOverlap
  dsimp only
  rw [if_neg, Bool.or_eq_true]
  · exact hpaths
  · rintro (hne | ⟨hahead, hne⟩)
    · exact hne hprovider
    · refine hne ?_
      have := htags hahead
      simp only [tagQualified, ne_eq, decide_not, Bool.not_inj_iff] at this
      exact this

/-- A valid entry's component images have no tag pattern. -/
theorem not_tagQualified_of_validate {a : AddOn} (h : validate X L a = []) {c : ComponentImage}
    (hc : c ∈ a.matchers.components) : tagQualified c.image = false := by
  have hcomponents : ∀ p ∈ a.matchers.components.zipIdx,
      validateComponent X L s!"{a.id}: matchers.components[{p.2}] ({p.1.image})" p.1 a.matchers.images = [] := by
    simp only [validate, validateMatchers, List.append_eq_nil_iff, List.flatMap_eq_nil_iff] at h
    exact h.1.1.1.2.1.2
  obtain ⟨i, hi⟩ := List.mem_iff_getElem?.mp hc
  have hcomponent := hcomponents (c, i) (List.mem_zipIdx_iff_getElem?.mpr hi)
  simp only [validateComponent, List.append_eq_nil_iff] at hcomponent
  have hcolon : ':' ∉ c.image.toList := by
    intro hmem
    have hcontains : contains c.image ":" = true := by
      obtain ⟨before, after, hsplit⟩ := List.append_of_mem hmem
      refine List.any_eq_true.mpr ⟨':' :: after, (List.mem_tails _ _).mpr ⟨before, hsplit.symm⟩, ?_⟩
      rfl
    simp [hcontains] at hcomponent
  simp [tagQualified, splitTagPattern, cut_of_notMem hcolon]

/-! ## What an entry claims -/

section Entry

variable {a : AddOn}

/-- An entry claims an image by its tag exactly where one of its matchers with a pattern does. -/
theorem entryClaim_tagged : (∃ c, entryClaim X ref a = some (true, c)) ↔
    ∃ m ∈ a.matchers.images, tagQualified m = true ∧ imageMatches X ref m = true := by
  unfold entryClaim
  dsimp only
  constructor
  · rintro ⟨c, hc⟩
    split_ifs at hc with htag hpath
    · obtain ⟨m, hm, hq⟩ := List.any_eq_true.mp htag
      rw [List.mem_filter] at hm
      exact ⟨m, hm.1, hq, hm.2⟩
    · simp at hc
    · obtain ⟨_, -, heq⟩ := Option.map_eq_some_iff.mp hc
      simp at heq
  · rintro ⟨m, hm, hq, hmatch⟩
    rw [if_pos (List.any_eq_true.mpr ⟨m, List.mem_filter.mpr ⟨hm, hmatch⟩, hq⟩)]
    exact ⟨_, rfl⟩

/-- An entry that claims an image has a matcher that claims it, with a pattern where the claim is by the tag. -/
theorem exists_matcher {t : Bool} {c : ImageClaim} (h : entryClaim X ref a = some (t, c)) :
    ∃ m ∈ a.imageClaims, imageMatches X ref m = true ∧ (t = true → tagQualified m = true) := by
  cases t with
  | true =>
    obtain ⟨m, hm, hq, hmatch⟩ := entryClaim_tagged.mp ⟨c, h⟩
    exact ⟨m, List.mem_append_left _ hm, hmatch, fun _ => hq⟩
  | false =>
    unfold entryClaim at h
    dsimp only at h
    split_ifs at h with htag hpath
    · simp at h
    · obtain ⟨m, hm⟩ := List.exists_mem_of_ne_nil _ hpath
      rw [List.mem_filter] at hm
      exact ⟨m, List.mem_append_left _ hm.1, hm.2, by simp⟩
    · obtain ⟨comp, hcomp, -⟩ := Option.map_eq_some_iff.mp h
      have hmem := List.mem_of_find?_eq_some hcomp
      have hmatch := List.find?_some hcomp
      exact ⟨comp.image, List.mem_append_right _ (List.mem_map.mpr ⟨comp, hmem, rfl⟩), by simpa using hmatch, by simp⟩

/-- The claim of an entry has its id. -/
theorem entryClaim_id {t : Bool} {c : ImageClaim} (h : entryClaim X ref a = some (t, c)) : a.id = c.id := by
  unfold entryClaim at h
  dsimp only at h
  split_ifs at h with htag hpath
  · simp [← (Prod.mk.inj (Option.some.inj h)).2]
  · simp [← (Prod.mk.inj (Option.some.inj h)).2]
  · obtain ⟨comp, -, heq⟩ := Option.map_eq_some_iff.mp h
    simp [← (Prod.mk.inj heq).2]

/-- A valid entry that claims an image otherwise has none with a pattern that claims it. -/
theorem not_tagQualified_of_entryClaim (hvalid : validate X L a = []) {c : ImageClaim}
    (h : entryClaim X ref a = some (false, c)) {m : String} (hm : m ∈ a.imageClaims)
    (hmatch : imageMatches X ref m = true) : tagQualified m = false := by
  rcases List.mem_append.mp hm with hm | hm
  · rw [Bool.eq_false_iff]
    intro hq
    obtain ⟨d, hd⟩ : ∃ d, entryClaim X ref a = some (true, d) := entryClaim_tagged.mpr ⟨m, hm, hq, hmatch⟩
    rw [h] at hd
    simp at hd
  · obtain ⟨comp, hcomp, rfl⟩ := List.mem_map.mp hm
    exact not_tagQualified_of_validate hvalid hcomp

end Entry

/-! ## One entry at most -/

/-- The one entry that claims an image, where no other one is ahead of it or beside it. -/
theorem imageClaims_eq_singleton {addons others : List AddOn} {a : AddOn} {t : Bool} {c : ImageClaim}
    (hperm : addons.Perm (a :: others)) (ha : entryClaim X ref a = some (t, c))
    (hahead : ∀ b ∈ others, ∀ d, entryClaim X ref b ≠ some (true, d))
    (hbeside : t = false → ∀ b ∈ others, entryClaim X ref b = none) : imageClaims X addons ref = [c] := by
  have hclaims : (addons.filterMap (entryClaim X ref)).Perm ((t, c) :: others.filterMap (entryClaim X ref)) := by
    simpa [ha] using hperm.filterMap (entryClaim X ref)
  have htagged : (others.filterMap (entryClaim X ref)).filter (·.1) = [] := by
    rw [List.filter_eq_nil_iff]
    rintro ⟨t', d⟩ hmem htrue
    obtain ⟨b, hb, hclaim⟩ := List.mem_filterMap.mp hmem
    obtain rfl : t' = true := htrue
    exact hahead b hb d hclaim
  unfold imageClaims
  dsimp only
  cases t with
  | true =>
    have hone : (addons.filterMap (entryClaim X ref)).filter (·.1) = [(true, c)] := by
      have := hclaims.filter (·.1)
      rw [List.filter_cons_of_pos rfl, htagged] at this
      exact List.perm_singleton.mp this
    rw [hone, if_pos (by simp)]
    rfl
  | false =>
    have hnone : others.filterMap (entryClaim X ref) = [] := by
      rw [List.filterMap_eq_nil_iff]
      exact hbeside rfl
    rw [hnone] at hclaims
    rw [List.perm_singleton.mp hclaims]
    rfl

/-- A claim on an image is of an entry, by its tag or where no entry claims it by its tag. -/
theorem exists_entry {addons : List AddOn} {c : ImageClaim} (h : c ∈ imageClaims X addons ref) :
    ∃ a ∈ addons, ∃ t, entryClaim X ref a = some (t, c) ∧
      (t = false → ∀ b ∈ addons, ∀ d, entryClaim X ref b ≠ some (true, d)) := by
  unfold imageClaims at h
  dsimp only at h
  split_ifs at h with htagged
  · obtain ⟨⟨t, d⟩, hmem, rfl⟩ := List.mem_map.mp h
    obtain ⟨hmem, htrue⟩ := List.mem_filter.mp hmem
    obtain rfl : t = true := htrue
    obtain ⟨a, ha, hclaim⟩ := List.mem_filterMap.mp hmem
    exact ⟨a, ha, true, hclaim, by simp⟩
  · obtain ⟨⟨t, d⟩, hmem, rfl⟩ := List.mem_map.mp h
    obtain ⟨hmem, htrue⟩ := List.mem_filter.mp hmem
    obtain rfl : t = false := by simpa using htrue
    obtain ⟨a, ha, hclaim⟩ := List.mem_filterMap.mp hmem
    refine ⟨a, ha, false, hclaim, fun _ b hb d' hb' => htagged ?_⟩
    rw [ne_eq, List.map_eq_nil_iff, List.filter_eq_nil_iff]
    intro hall
    exact hall (true, d') (List.mem_filterMap.mpr ⟨b, hb, hb'⟩) rfl

section Registry

variable {addons : List AddOn}

variable {c d : ImageClaim} {a b : AddOn} {base extra : List AddOn} {t : Bool}

/-- In a list of entries with distinct ids, the others are other entries. -/
theorem ne_of_mem_others {l₁ l₂ : List AddOn} (hids : ((l₁ ++ a :: l₂).map (·.id)).Nodup) (hb : b ∈ l₁ ++ l₂) :
    b.id ≠ a.id := by
  have hnodup : ((a :: (l₁ ++ l₂)).map (·.id)).Nodup := ((List.perm_middle (a := a)).map _).nodup_iff.mp hids
  rw [List.map_cons, List.nodup_cons] at hnodup
  intro heq
  exact hnodup.1 (heq ▸ List.mem_map_of_mem hb)

/-- What two entries that are apart claim of one image: not both by the tag, nor both otherwise. -/
theorem claims_apart (hva : validate X L a = []) (hvb : validate X L b = []) (hapart : Apart none a b)
    (ha : entryClaim X ref a = some (t, c)) : entryClaim X ref b ≠ some (t, d) := by
  intro hb
  obtain ⟨ma, hma, hmatch, hqa⟩ := exists_matcher ha
  obtain ⟨mb, hmb, hmatch', hqb⟩ := exists_matcher hb
  have hover : claimsOverlap ma mb (tagsAhead none a b ma mb) = true := by
    refine claimsOverlap_of_imageMatches hmatch hmatch' fun _ => ?_
    cases t with
    | true => rw [hqa rfl, hqb rfl]
    | false => rw [not_tagQualified_of_entryClaim hva ha hma hmatch, not_tagQualified_of_entryClaim hvb hb hmb hmatch']
  rw [hapart.images ma hma mb hmb] at hover
  simp at hover

/-- The entry that claims an image in a registry without conflicts, with what the others do not do. -/
theorem claims_of_others (hvalid : ∀ a ∈ addons, validate X L a = []) (hids : (addons.map (·.id)).Nodup)
    (hconf : claimConflicts X addons = []) (h : c ∈ imageClaims X addons ref) :
    ∃ l₁ a l₂ t, addons = l₁ ++ a :: l₂ ∧ entryClaim X ref a = some (t, c) ∧
      (∀ b ∈ l₁ ++ l₂, ∀ d, entryClaim X ref b ≠ some (true, d)) ∧
      (t = false → ∀ b ∈ l₁ ++ l₂, entryClaim X ref b = none) := by
  obtain ⟨a, ha, t, hclaim, hnone⟩ := exists_entry h
  obtain ⟨l₁, l₂, rfl⟩ := List.append_of_mem ha
  have hmem : ∀ b ∈ l₁ ++ l₂, b ∈ l₁ ++ a :: l₂ := by
    intro b hb
    simp only [List.mem_append, List.mem_cons] at hb ⊢
    tauto
  have hapart : ∀ b ∈ l₁ ++ l₂, ∀ d, entryClaim X ref b ≠ some (t, d) := by
    intro b hb d
    have hne : a ≠ b := fun heq => ne_of_mem_others hids hb (by rw [heq])
    exact claims_apart (hvalid a ha) (hvalid b (hmem b hb)) (apart_of_claimConflictsWith hconf ha (hmem b hb) hne) hclaim
  refine ⟨l₁, a, l₂, t, rfl, hclaim, fun b hb d hb' => ?_, fun hfalse b hb => ?_⟩
  · cases t with
    | true => exact hapart b hb d hb'
    | false => exact hnone rfl b (hmem b hb) d hb'
  · subst hfalse
    rw [Option.eq_none_iff_forall_ne_some]
    rintro ⟨t', d⟩
    cases t' with
    | true => exact hnone rfl b (hmem b hb) d
    | false => exact hapart b hb d

/-- An image in a registry without conflicts has one entry at most. -/
theorem imageClaims_eq_of_mem (hvalid : ∀ a ∈ addons, validate X L a = []) (hids : (addons.map (·.id)).Nodup)
    (hconf : claimConflicts X addons = []) (h : c ∈ imageClaims X addons ref) :
    imageClaims X addons ref = [c] := by
  obtain ⟨l₁, a, l₂, t, rfl, hclaim, hahead, hbeside⟩ := claims_of_others hvalid hids hconf h
  exact imageClaims_eq_singleton List.perm_middle hclaim hahead hbeside

/-- A label or a chart names one entry at most. -/
theorem names_unique (hids : (addons.map (·.id)).Nodup) (hconf : claimConflicts X addons = []) (ha : a ∈ addons)
    (hb : b ∈ addons) {v : String} (hav : v = a.id ∨ v ∈ a.matchers.charts) (hbv : v = b.id ∨ v ∈ b.matchers.charts) :
    a = b := by
  by_contra hne
  have hapart := apart_of_claimConflictsWith hconf ha hb hne
  rcases hav with rfl | hav
  · rcases hbv with hid | hbv
    · exact hne (List.inj_on_of_nodup_map hids ha hb hid)
    · exact hapart.id hbv
  · rcases hbv with rfl | hbv
    · exact hapart.id' hav
    · exact hapart.charts v hav hbv

/-! ## An operator's entries -/

/-- What an operator's entry that brings no conflict claims of an image that an embedded entry has. -/
theorem extra_claims {a e : AddOn} (hvalid : ∀ b ∈ base, validate X L b = []) (ha : a ∈ base)
    (hclaim : entryClaim X ref a = some (t, c))
    (hnone : t = false → ∀ b ∈ base, ∀ d, entryClaim X ref b ≠ some (true, d)) (hextra : e ∈ extra)
    (hapart : Apart (some (blessed base extra)) a e) {t' : Bool} (he : entryClaim X ref e = some (t', d)) :
    t = true ∧ t' = false := by
  obtain ⟨ma, hma, hmatch, hqa⟩ := exists_matcher hclaim
  obtain ⟨me, hme, hmatch', hqe⟩ := exists_matcher he
  have hover := hapart.images ma hma me hme
  have htags : tagQualified ma ≠ tagQualified me ∧ blessed base extra e me = true := by
    by_contra hnot
    rw [claimsOverlap_of_imageMatches hmatch hmatch' fun hahead => ?_] at hover
    · simp at hover
    · simp only [tagsAhead, Bool.and_eq_true] at hahead
      by_contra hne
      exact hnot ⟨hne, hahead.2⟩
  cases t with
  | true =>
    refine ⟨rfl, ?_⟩
    rw [Bool.eq_false_iff]
    intro htrue
    exact htags.1 (by rw [hqa rfl, hqe htrue])
  | false =>
    -- The operator's matcher is ahead by its tags, so an embedded entry has it and was ahead by it already.
    exfalso
    have hq : tagQualified me = true := by
      have := htags.1
      rw [not_tagQualified_of_entryClaim (hvalid a ha) hclaim hma hmatch] at this
      simpa using this.symm
    have hisExtra : isExtra extra e.id = true := List.any_eq_true.mpr ⟨e, hextra, by simp⟩
    have hblessed := htags.2
    rw [blessed, hisExtra, Bool.not_true, if_neg (by simp), Option.any_eq_true] at hblessed
    obtain ⟨old, hold, hme'⟩ := hblessed
    have hbase := mem_of_embedded hold
    rcases List.mem_append.mp (of_decide_eq_true hme') with hme' | hme'
    · obtain ⟨d', hd'⟩ : ∃ d', entryClaim X ref old = some (true, d') := entryClaim_tagged.mpr ⟨me, hme', hq, hmatch'⟩
      exact hnone rfl old hbase d' hd'
    · obtain ⟨comp, hcomp, rfl⟩ := List.mem_map.mp hme'
      rw [not_tagQualified_of_validate (hvalid old hbase) hcomp] at hq
      simp at hq

/-- An image that the embedded registry gives to an entry that is not replaced stays with it. -/
theorem imageClaims_merge {rest : (AddOn → AddOn → ℤ) → List AddOn → List AddOn} (hrest : SortFunc.Sorts rest)
    (hvalid : ∀ b ∈ base, validate X L b = []) (hids : (base.map (·.id)).Nodup) (hconf : claimConflicts X base = [])
    (hmerge : mergeConflicts X base extra rest = []) (h : c ∈ imageClaims X base ref) (hkept : ∀ e ∈ extra, e.id ≠ c.id) :
    imageClaims X (merge rest base extra) ref = [c] := by
  obtain ⟨l₁, a, l₂, t, rfl, hclaim, hahead, hbeside⟩ := claims_of_others hvalid hids hconf h
  have hid : a.id = c.id := entryClaim_id hclaim
  have hkeptA : (!isExtra extra a.id) = true := by
    rw [isExtra, Bool.not_eq_true', List.any_eq_false]
    intro e he
    simpa [hid] using hkept e he
  have hperm : (merge rest (l₁ ++ a :: l₂) extra).Perm
      (a :: (((l₁ ++ l₂).filter fun b => !isExtra extra b.id) ++ extra)) := by
    refine (merge_perm hrest).trans ?_
    rw [List.filter_append, List.filter_cons_of_pos (p := fun b : AddOn => !isExtra extra b.id) hkeptA,
      List.filter_append, List.append_assoc, List.append_assoc]
    exact List.perm_middle
  -- The operator's entries claim the image behind the tags of the embedded one, or not at all.
  have hextra : ∀ e ∈ extra, ∀ t' d, entryClaim X ref e = some (t', d) → t = true ∧ t' = false := by
    intro e he t' d hd
    have hmemA : a ∈ merge rest (l₁ ++ a :: l₂) extra := hperm.mem_iff.mpr (by simp)
    have hmemE : e ∈ merge rest (l₁ ++ a :: l₂) extra := hperm.mem_iff.mpr (by simp [he])
    have hne : a ≠ e := fun heq => hkept e he (by rw [← heq, hid])
    have hnone : t = false → ∀ b ∈ l₁ ++ a :: l₂, ∀ d, entryClaim X ref b ≠ some (true, d) := by
      intro hfalse b hb d'
      simp only [List.mem_append, List.mem_cons] at hb
      rcases hb with hb | rfl | hb
      · exact hahead b (List.mem_append_left _ hb) d'
      · simp [hclaim, hfalse]
      · exact hahead b (List.mem_append_right _ hb) d'
    exact extra_claims hvalid (by simp) hclaim hnone he (apart_of_claimConflictsWith hmerge hmemA hmemE hne) hd
  refine imageClaims_eq_singleton hperm hclaim (fun b hb d hd => ?_) fun hfalse b hb => ?_
  · rcases List.mem_append.mp hb with hb | hb
    · exact hahead b (List.mem_of_mem_filter hb) d hd
    · simpa using (hextra b hb true d hd).2
  · rcases List.mem_append.mp hb with hb | hb
    · exact hbeside hfalse b (List.mem_of_mem_filter hb)
    · rw [Option.eq_none_iff_forall_ne_some]
      rintro ⟨t', d⟩ hd
      have := (hextra b hb t' d hd).1
      simp [hfalse] at this

/-- A registry without conflicts claims each image once: an image reference belongs to one entry at most, a label or a
chart names one at most, and an operator's entries without conflicts leave every image with its entry, unless they
replace that. -/
theorem claimed_once {base : List AddOn} (hvalid : ∀ a ∈ base, validate X L a = []) (hids : (base.map (·.id)).Nodup)
    (hconf : claimConflicts X base = []) :
    (∀ ref, (imageClaims X base ref).length ≤ 1) ∧
    (∀ v, ∀ a ∈ base, ∀ b ∈ base, (v = a.id ∨ v ∈ a.matchers.charts) → (v = b.id ∨ v ∈ b.matchers.charts) → a = b) ∧
    ∀ rest, SortFunc.Sorts rest → ∀ extra, mergeConflicts X base extra rest = [] → ∀ ref, ∀ c ∈ imageClaims X base ref,
      (∀ e ∈ extra, e.id ≠ c.id) → imageClaims X (merge rest base extra) ref = [c] := by
  refine ⟨fun ref => ?_, fun v a ha b hb => names_unique hids hconf ha hb,
    fun rest hrest extra hmerge ref c hc hkept => imageClaims_merge hrest hvalid hids hconf hmerge hc hkept⟩
  by_cases hnil : imageClaims X base ref = []
  · simp [hnil]
  · obtain ⟨c, hc⟩ := List.exists_mem_of_ne_nil _ hnil
    rw [imageClaims_eq_of_mem hvalid hids hconf hc]
    simp

end Registry

/-- Two builds of one repository, told apart by their tags. -/
def ingressRegistry : List AddOn :=
  [{ id := "ingress-nginx", displayName := "ingress-nginx", schemaVersion := 2, matchers := { images := ["rancher/nic"] }
     support := { status := .unknown } },
   { id := "rke2-ingress-nginx", displayName := "RKE2 ingress-nginx", schemaVersion := 2
     matchers := { images := ["rancher/nic:*-hardened*"] }, support := { status := .unknown } }]

/-- An operator's copy of the second entry, with another chart. -/
def ingressCopy : List AddOn :=
  [{ id := "rke2-ingress-nginx", displayName := "RKE2 ingress-nginx", schemaVersion := 2
     matchers := { images := ["rancher/nic:*-hardened*"], charts := ["nic"] }, support := { status := .unknown } }]

/-- With the copy in place of the entry, a build without the tag stays with the other one. -/
theorem claimed_once_ingress :
    imageClaims External.ascii ingressRegistry ⟨"docker.io", "rancher/nic", "v1.9.4"⟩ =
        [⟨"ingress-nginx", "1.9.4", true⟩] ∧
      imageClaims External.ascii (merge SortFunc.insertionSortCmpFunc ingressRegistry ingressCopy)
        ⟨"docker.io", "rancher/nic", "v1.9.4"⟩ = [⟨"ingress-nginx", "1.9.4", true⟩] := by
  have hclaims : imageClaims External.ascii ingressRegistry ⟨"docker.io", "rancher/nic", "v1.9.4"⟩ =
      [⟨"ingress-nginx", "1.9.4", true⟩] := by decide +kernel
  refine ⟨hclaims, ?_⟩
  exact (claimed_once (L := ⟨fun _ => .error "", fun _ => false, fun _ => ""⟩) (by decide +kernel) (by decide)
    (by decide +kernel)).2.2 _
    SortFunc.sorts_insertionSortCmpFunc ingressCopy (by decide +kernel) _ _ (by rw [hclaims]; simp) (by decide)

end UpgradeScope.Collect
