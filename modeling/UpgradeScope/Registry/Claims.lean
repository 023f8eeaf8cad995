import UpgradeScope.Registry.Validate

/-!
# Claims on images and charts

`registry/claims.go`: `ClaimConflicts` lists the images and charts that two entries of a registry
both claim. Two matchers that match one repository overlap (`pathMatches_or`), and no provider's
build is matched by a matcher of another location (`isProviderBuild_of_pathMatches`), so a registry
without conflicts gives each repository to one entry.
-/

namespace UpgradeScope.Registry

open Go

/-! ## Conflicts -/

/-- `imageClaims`: the image matchers of an entry and of its components. -/
def AddOn.imageClaims (a : AddOn) : List String := a.matchers.images ++ a.matchers.components.map (·.image)

section Conflicts

variable (X : External) (blessed : Option (AddOn → String → Bool)) (hint : Option (AddOn → AddOn → String → String))

/-- The fix that an error suggests. -/
def conflictFix (a b : AddOn) (claim : String) : String :=
  match hint with
  | some h => orElse (h a b claim) "replace the embedded entry by using its id"
  | none => "replace the embedded entry by using its id"

/-- Whether the matchers of two owners keep the precedence of tags. -/
def tagsAhead (a b : AddOn) (ma mb : String) : Bool :=
  match blessed with
  | some f => f a ma && f b mb
  | none => true

/-- The conflicts of two entries over images. -/
def imageConflicts (a b : AddOn) : List String :=
  let fix := conflictFix hint a b "image"
  a.imageClaims.flatMap fun ma =>
    (b.imageClaims.filter fun mb => claimsOverlap ma mb (tagsAhead blessed a b ma mb)).map fun mb =>
      s!"registry: {a.id} image matcher {X.quote ma} and {b.id} image matcher {X.quote mb} claim the same image; an image may belong to one entry only ({fix})"

/-- The conflicts of two entries over charts. -/
def chartConflicts (a b : AddOn) : List String :=
  let fix := conflictFix hint a b "chart"
  a.matchers.charts.flatMap fun ca =>
    (b.matchers.charts.filter fun cb => ca = cb).map fun _ =>
      s!"registry: {a.id} and {b.id} both match chart {X.quote ca}; a chart may belong to one entry only ({fix})"

/-- The conflict of an id that is another entry's chart. -/
def idConflicts (a other : AddOn) : List String :=
  if a.id ∈ other.matchers.charts then
    [s!"registry: the id {X.quote a.id} of {a.id} is also a chart name of {other.id}; a label may name one entry only (rename the entry or drop the chart)"]
  else []

/-- `claimConflicts`: the conflicts of every entry with every one after it. -/
def claimConflictsWith : List AddOn → List String
  | [] => []
  | a :: rest =>
    (rest.flatMap fun b =>
      imageConflicts X blessed hint a b ++ chartConflicts X hint a b ++ idConflicts X a b ++ idConflicts X b a) ++
      claimConflictsWith rest

/-- `ClaimConflicts`. -/
def claimConflicts (addons : List AddOn) : List String := claimConflictsWith X none none addons

end Conflicts

/-! ## Registries without conflicts -/

/-- Two entries share no image, no chart, and no name that is one's id and the other's chart. -/
structure Apart (blessed : Option (AddOn → String → Bool)) (a b : AddOn) : Prop where
  /-- No two of their matchers overlap. -/
  images : ∀ ma ∈ a.imageClaims, ∀ mb ∈ b.imageClaims, claimsOverlap ma mb (tagsAhead blessed a b ma mb) = false
  /-- They have no chart in common. -/
  charts : ∀ c ∈ a.matchers.charts, c ∉ b.matchers.charts
  /-- The one's id is none of the other's charts. -/
  id : a.id ∉ b.matchers.charts
  /-- Nor the other's id one of its charts. -/
  id' : b.id ∉ a.matchers.charts

section Apart

variable {X : External} {blessed : Option (AddOn → String → Bool)} {hint : Option (AddOn → AddOn → String → String)}

/-- Overlapping is mutual, whatever the precedence. -/
theorem claimsOverlap_comm (m m' : String) (ahead : Bool) : claimsOverlap m m' ahead = claimsOverlap m' m ahead := by
  unfold claimsOverlap
  dsimp only
  rw [Bool.or_comm]
  refine if_congr (or_congr ne_comm ?_) rfl rfl
  exact and_congr_right fun _ => ne_comm

/-- Whether tags take precedence between two add-ons does not depend on which is named first. -/
theorem tagsAhead_comm (a b : AddOn) (ma mb : String) : tagsAhead blessed a b ma mb = tagsAhead blessed b a mb ma := by
  cases blessed with
  | none => rfl
  | some f => exact Bool.and_comm _ _

variable {a b : AddOn} {addons : List AddOn}

/-- Being kept apart is symmetric in the two add-ons. -/
theorem Apart.symm (h : Apart blessed a b) : Apart blessed b a where
  images mb hmb ma hma := by
    rw [claimsOverlap_comm, tagsAhead_comm]
    exact h.images ma hma mb hmb
  charts c hc hc' := h.charts c hc' hc
  id := h.id'
  id' := h.id

/-- Two entries without conflicts are apart. -/
theorem apart_of_conflicts
    (h : imageConflicts X blessed hint a b ++ chartConflicts X hint a b ++ idConflicts X a b ++ idConflicts X b a = []) :
    Apart blessed a b := by
  simp only [List.append_eq_nil_iff] at h
  obtain ⟨⟨⟨himages, hcharts⟩, hid⟩, hid'⟩ := h
  refine ⟨fun ma hma mb hmb => ?_, fun c hc hc' => ?_, fun hmem => ?_, fun hmem => ?_⟩
  · unfold imageConflicts at himages
    dsimp only at himages
    rw [List.flatMap_eq_nil_iff] at himages
    have hnone := List.map_eq_nil_iff.mp (himages ma hma)
    rw [List.filter_eq_nil_iff] at hnone
    exact Bool.not_eq_true _ ▸ hnone mb hmb
  · unfold chartConflicts at hcharts
    dsimp only at hcharts
    rw [List.flatMap_eq_nil_iff] at hcharts
    have hnone := List.map_eq_nil_iff.mp (hcharts c hc)
    rw [List.filter_eq_nil_iff] at hnone
    exact hnone c hc' (by simp)
  · simp [idConflicts, hmem] at hid
  · simp [idConflicts, hmem] at hid'

/-- Any two entries of a registry without conflicts are apart. -/
theorem apart_of_claimConflictsWith (h : claimConflictsWith X blessed hint addons = []) (ha : a ∈ addons)
    (hb : b ∈ addons) (hab : a ≠ b) : Apart blessed a b := by
  have hpairwise : addons.Pairwise (Apart blessed) := by
    clear ha hb
    induction addons with
    | nil => exact .nil
    | cons a rest ih =>
      rw [claimConflictsWith, List.append_eq_nil_iff, List.flatMap_eq_nil_iff] at h
      exact .cons (fun b hb => apart_of_conflicts (h.1 b hb)) (ih h.2)
  have hsymm : Std.Symm (Apart blessed) := ⟨fun _ _ => Apart.symm⟩
  exact hpairwise.forall ha hb hab

/-- Two entries of a registry without conflicts share no image. -/
theorem apart_of_claimConflicts (h : claimConflicts X addons = []) (ha : a ∈ addons) (hb : b ∈ addons) (hab : a ≠ b)
    {ma mb : String} (hma : ma ∈ a.imageClaims) (hmb : mb ∈ b.imageClaims) :
    matchersOverlap ma mb = false :=
  (apart_of_claimConflictsWith h ha hb hab).images ma hma mb hmb

end Apart

/-! ## Matchers of one repository -/

/-- A path ends with whole segments. -/
def EndsIn (path core : String) : Prop := '/' :: core.toList <:+ '/' :: path.toList

/-- The segments that the paths of a matcher end in, where it matches under a prefix. -/
def matcherCore (m : String) : Option String :=
  match cutPrefix? m anyPrefix with
  | some name => some name
  | none => if contains m "/" then some m else none

section Paths

variable {path m m' core : String}

/-- A path that is some segments or ends with a slash and them. -/
theorem endsIn_iff : EndsIn path core ↔ (path = core ∨ hasSuffix path ("/" ++ core) = true) := by
  unfold EndsIn hasSuffix
  rw [List.suffix_cons_iff, List.isSuffixOf_iff_suffix, String.toList_append]
  constructor
  · rintro (h | h)
    · exact .inl (String.toList_injective (List.cons.inj h).2.symm)
    · exact .inr h
  · rintro (rfl | h)
    · exact .inl rfl
    · exact .inr h

/-- What a matcher with a core matches. -/
theorem pathMatches_core (h : matcherCore m = some core) : pathMatches path m = true ↔ EndsIn path core := by
  unfold matcherCore at h
  unfold pathMatches
  rw [endsIn_iff]
  cases hcut : cutPrefix? m anyPrefix with
  | some name =>
    obtain rfl : name = core := by simpa [hcut] using h
    simp
  | none =>
    simp only [hcut] at h ⊢
    split_ifs at h with hslash
    obtain rfl : m = core := by simpa using h
    simp [hslash]

/-- A matcher without a core matches its own path only. -/
theorem pathMatches_exact (h : matcherCore m = none) : pathMatches path m = true ↔ path = m := by
  unfold matcherCore at h
  unfold pathMatches
  cases hcut : cutPrefix? m anyPrefix with
  | some name => simp [hcut] at h
  | none =>
    simp only [hcut] at h ⊢
    split_ifs at h with hslash
    simp [hslash]

/-- A matcher is its core, behind the mark of any prefix or not. -/
theorem eq_of_matcherCore (h : matcherCore m = some core) : m = core ∨ m = anyPrefix ++ core := by
  unfold matcherCore at h
  cases hcut : cutPrefix? m anyPrefix with
  | some name =>
    obtain rfl : name = core := by simpa [hcut] using h
    unfold cutPrefix? at hcut
    split_ifs at hcut with hpre
    obtain ⟨rest, rfl⟩ := hasPrefix_iff.mp hpre
    refine .inr ?_
    rw [← Option.some.inj hcut]
    simp
  | none =>
    simp only [hcut] at h
    split_ifs at h with hslash
    exact .inl (by simpa using h)

/-- A matcher ends in its core. -/
theorem endsIn_of_matcherCore (h : matcherCore m = some core) : EndsIn m core := by
  rcases eq_of_matcherCore h with rfl | rfl
  · exact List.suffix_rfl
  · rw [endsIn_iff]
    right
    unfold hasSuffix
    rw [List.isSuffixOf_iff_suffix, String.toList_append, String.toList_append]
    exact ⟨['*'], rfl⟩

/-- Two matchers of one path match one another. -/
theorem pathMatches_or (h : pathMatches path m = true) (h' : pathMatches path m' = true) :
    pathMatches m m' = true ∨ pathMatches m' m = true := by
  cases hm : matcherCore m with
  | none =>
    obtain rfl := (pathMatches_exact hm).mp h
    exact .inl h'
  | some core =>
    cases hm' : matcherCore m' with
    | none =>
      obtain rfl := (pathMatches_exact hm').mp h'
      exact .inr h
    | some core' =>
      have hends := (pathMatches_core hm).mp h
      have hends' := (pathMatches_core hm').mp h'
      -- Both are ends of one path, so one is an end of the other.
      rcases List.suffix_or_suffix_of_suffix hends hends' with hle | hle
      · exact .inr ((pathMatches_core hm).mpr (hle.trans (endsIn_of_matcherCore hm')))
      · exact .inl ((pathMatches_core hm').mpr (hle.trans (endsIn_of_matcherCore hm)))

/-- A provider's location in a path stands after a slash, where the path is written after one. -/
theorem isProviderBuild_iff : isProviderBuild path = true ↔
    ∃ p ∈ providerBuildPrefixes, '/' :: p.toList <:+: '/' :: path.toList := by
  unfold isProviderBuild
  rw [List.any_eq_true]
  refine exists_congr fun p => and_congr_right fun _ => ?_
  rw [Bool.or_eq_true, List.infix_cons_iff, List.cons_prefix_cons]
  unfold hasPrefix contains
  rw [List.isPrefixOf_iff_prefix, List.any_eq_true]
  refine or_congr (by simp) ?_
  constructor
  · rintro ⟨t, ht, hpre⟩
    rw [List.isPrefixOf_iff_prefix, String.toList_append] at hpre
    exact List.infix_iff_prefix_suffix.mpr ⟨t, hpre, (List.mem_tails _ _).mp ht⟩
  · intro h
    obtain ⟨t, hpre, hsuf⟩ := List.infix_iff_prefix_suffix.mp h
    refine ⟨t, (List.mem_tails _ _).mpr hsuf, ?_⟩
    rw [List.isPrefixOf_iff_prefix, String.toList_append]
    exact hpre

/-- What a provider's matcher matches is a provider's build. -/
theorem isProviderBuild_of_pathMatches (h : pathMatches path m = true) (hm : isProviderBuild m = true) :
    isProviderBuild path = true := by
  cases hcore : matcherCore m with
  | none =>
    rw [(pathMatches_exact hcore).mp h]
    exact hm
  | some core =>
    have hends := (pathMatches_core hcore).mp h
    rw [isProviderBuild_iff] at hm ⊢
    obtain ⟨p, hp, hin⟩ := hm
    refine ⟨p, hp, List.IsInfix.trans ?_ hends.isInfix⟩
    rcases eq_of_matcherCore hcore with rfl | rfl
    · exact hin
    · -- No location starts with the mark, so it stands after it.
      have hstar : ¬ p.toList <+: '*' :: '/' :: core.toList := by
        simp only [providerBuildPrefixes, List.mem_cons, List.not_mem_nil, or_false] at hp
        rcases hp with rfl | rfl | rfl <;> simp [List.cons_prefix_cons]
      have hchars : (anyPrefix ++ core).toList = '*' :: '/' :: core.toList := by
        rw [String.toList_append]
        rfl
      rw [hchars, List.infix_cons_iff, List.cons_prefix_cons, List.infix_cons_iff] at hin
      rcases hin with ⟨-, hin⟩ | hin | hin
      · exact absurd hin hstar
      · simp [List.cons_prefix_cons] at hin
      · exact hin

end Paths

end UpgradeScope.Registry
