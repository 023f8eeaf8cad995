import UpgradeScope.Engine.Reorder

/-!
# Duplicate pushes

The server does not judge a push again whose canonical form it has, so inventories with one canonical form must have
one report, but for the age of their add-on evidence. They have, but where the version a CRD's objects should move to
is picked among versions of which one has no name: the loop that picks it takes the empty name for having picked none,
so it ends with that version or with another one as the versions are ordered (`CRD.EmptyPreferred`).
-/

namespace UpgradeScope

open Go Sorting Kb Registry

/-! ## The two reports -/

/-- A report without the age of the add-on evidence. -/
def Report.withoutAge (r : Report) : Report := { r with addOnEvidenceAgeSeconds := 0 }

/-- The CRDs of an inventory have distinct version names that Kubernetes' order tells apart, and at most one storage
version. -/
structure Inventory.Versioned (X : External) (inv : Inventory) : Prop where
  /-- One entry for each version. -/
  names : ∀ c ∈ inv.crds, (c.versions.map (·.name)).Nodup
  /-- At most one storage version. -/
  storage : ∀ c ∈ inv.crds, ∀ v ∈ c.versions, ∀ w ∈ c.versions, v.storage = true → w.storage = true → v = w
  /-- The order of the names. -/
  ordered : ∀ c ∈ inv.crds, TotalOn (kubeBefore X) (c.versions.map (·.name))

/-- The version to move to is picked among several, and the first of them in Kubernetes' order has the empty name. -/
def CRD.EmptyPreferred (X : External) (c : CRD) : Prop :=
  c.usable.any (·.storage) = false ∧ Greatest (kubeBefore X) (c.usable.map (·.name)) "" ∧
    ∃ v ∈ c.usable, v.name ≠ ""

/-- A finding about the CRD tells which version to move to: a served version is deprecated, or one in use is not
served and a version to move to is not called as none is. -/
def CRD.ShowsPreferred (c : CRD) : Prop :=
  (∃ v ∈ c.versions, (v.served && v.deprecated) = true) ∨
    (∃ u ∈ c.usage, (u.count ≠ 0 && !c.serves u.version) = true) ∧
      ∃ v ∈ c.usable, v.name ≠ "" ∧ c.destination v.name ≠ c.destination ""

section Findings

variable (fuel : ℕ) (X : External) (inv : Inventory) (k : KB) (target : Version) (now : Time)

/-- The findings of the checks before the CRDs'. -/
def beforeCRDs (path : List Finding) : List Finding :=
  foldedFindings X inv k target ++
    (evalAuthorshipUnknown k inv ++ evalAddOns X k target now inv ++ evalUncoveredRuntimes k inv ++
      evalHelmReleases X k target inv ++ evalSkew X inv k target ++ evalControlPlaneSkew X inv k target ++
      evalKubeProxyKubeletSkew X inv k ++ evalKBStale X inv k target ++ path ++
      (evalSupport X inv k now).2).map capNamespaces

/-- The findings about the CRDs stand between the others. -/
theorem foundFindings_crds : foundFindings fuel X inv k target now =
    (evalUpgradePath X fuel inv target).map fun path =>
      beforeCRDs X inv k target now path ++ (evalCRDVersions X inv target).map capNamespaces ++
        (evalVolumePlugins k target inv).map capNamespaces := by
  unfold foundFindings checks beforeCRDs
  cases evalUpgradePath X fuel inv target with
  | none => simp [collect]
  | some path => simp [collect]

end Findings

section Alike

variable {fuel : ℕ} {X : External} {inv inv' : Inventory} {k : KB} {target : Version} {now : Time}

/-- Of inventories of one canonical form, the one as if collected with the other is the other reordered. -/
theorem Alike.reorders (h : Alike inv inv') :
    Reorders { inv with
      collectedAt := inv'.collectedAt
      apiServerStartTime := inv'.apiServerStartTime
      apiServerStartZone := inv'.apiServerStartZone
      addOnEvidenceAgeSeconds := inv'.addOnEvidenceAgeSeconds } inv' := by
  constructor
  case helmReleases =>
    refine ⟨inv.helmReleases, .refl _, ?_⟩
    rw [h.rest]
    exact List.forall₂_same.mpr fun r _ => ⟨.refl _, rfl⟩
  case crds => exact ⟨inv.crds, .refl _, h.crds⟩
  case capabilities => exact h.capabilities
  case rest => rw [h.rest]
  all_goals
    rw [h.rest]

/-- A duplicate push skipped the same of a capability. -/
theorem Alike.skipped (h : Alike inv inv') (c : Capability) (s : String) :
    s ∈ (inv'.capability c).skipped ↔ s ∈ (inv.capability c).skipped :=
  h.reorders.skipped c s

/-- A duplicate push is of the same source. -/
theorem Alike.source (h : Alike inv inv') : inv'.source = inv.source := by rw [h.rest]

/-- A duplicate push has the same namespaces. -/
theorem Alike.namespaces (h : Alike inv inv') : inv'.namespaces = inv.namespaces := by rw [h.rest]

/-- The checks before the CRDs' find the same. -/
theorem Alike.beforeCRDs (h : Alike inv inv') (path : List Finding) :
    beforeCRDs X inv' k target now path = beforeCRDs X inv k target now path := by
  have hcalls : judgedCalls inv' = judgedCalls inv := h.reorders.judgedCalls
  have hfolded : foldedFindings X inv' k target = foldedFindings X inv k target := by
    unfold foldedFindings evalDeprecatedCalls
    rw [hcalls, h.rest]
    rfl
  unfold UpgradeScope.beforeCRDs
  rw [hfolded, h.rest]
  rfl

/-- Findings are ordered by what capping leaves. -/
theorem findingOrder_capNamespaces (f : Finding) : findingOrder (capNamespaces f) = findingOrder f := by
  unfold capNamespaces
  split_ifs <;> rfl

/-- The deprecated versions of a CRD have findings of their own. -/
theorem deprecatedVersionFinding_inj {c : CRD} {v w : CRDVersion}
    (h : findingOrder (deprecatedVersionFinding X inv target c v) =
      findingOrder (deprecatedVersionFinding X inv target c w)) : v.name = w.name := by
  have hkey : (deprecatedVersionFinding X inv target c v).key = (deprecatedVersionFinding X inv target c w).key :=
    (Prod.mk.inj (Prod.mk.inj (Prod.mk.inj h).2).2).2
  have hform : ∀ v, (deprecatedVersionFinding X inv target c v).key =
      Category.crdVersion.name ++ "/deprecated/" ++ apiKey c.group v.name c.kind := by
    intro v
    unfold deprecatedVersionFinding
    dsimp only
    cases c.used v.name <;> rfl
  rw [hform, hform] at hkey
  have hlist := congrArg String.toList hkey
  exact String.toList_inj.mp (by simpa [apiKey] using hlist)

/-- No two findings about the deprecated versions of a CRD have one place in a report's order. -/
theorem nodup_deprecatedVersionFindings {c : CRD} (hnames : (c.versions.map (·.name)).Nodup) :
    (((c.versions.filter fun v => v.served && v.deprecated).map
      (deprecatedVersionFinding X inv target c)).map findingOrder).Nodup := by
  rw [List.map_map]
  refine List.Nodup.map_on (fun v hv w hw hvw => ?_) (hnames.of_map.filter _)
  exact eq_of_key_eq hnames (List.mem_of_mem_filter hv) (List.mem_of_mem_filter hw) (deprecatedVersionFinding_inj hvw)

/-- Where the empty name is not preferred, or no finding shows it, the findings about a CRD tell the same version to
move to in whatever order its versions stand. -/
theorem CRD.Reorders.destination {c c' : CRD} (hre : c.Reorders c') (hnames : (c.versions.map (·.name)).Nodup)
    (hone : ∀ v ∈ c.versions, ∀ w ∈ c.versions, v.storage = true → w.storage = true → v = w)
    (hordered : TotalOn (kubeBefore X) (c.versions.map (·.name)))
    (hshown : c.EmptyPreferred X → ¬ c.ShowsPreferred) :
    ((∃ v ∈ c.versions, (v.served && v.deprecated) = true) → c'.preferredVersion X = c.preferredVersion X) ∧
      ((∃ u ∈ c.usage, (u.count ≠ 0 && !c.serves u.version) = true) →
        c.destination (c'.preferredVersion X) = c.destination (c.preferredVersion X)) := by
  by_cases hempty : c.EmptyPreferred X
  · have hhidden := hshown hempty
    unfold CRD.ShowsPreferred at hhidden
    rw [not_or] at hhidden
    refine ⟨fun hdep => absurd hdep hhidden.1, fun huns => ?_⟩
    -- Whichever version is picked, it is called as none is.
    have hcalled : ∀ d : CRD, c.Reorders d → c.destination (d.preferredVersion X) = c.destination "" := by
      intro d hd
      have husable : c.usable.Perm d.usable := hd.versions.filter _
      have hnone : d.usable.find? (·.storage) = none := by
        rw [← Option.not_isSome_iff_eq_none, List.find?_isSome, ← List.any_eq_true,
          ← any_eq_of_perm husable, hempty.1]
        simp
      rw [CRD.preferredVersion_eq, hnone, Option.map_none, Option.getD_none]
      have hpicked : pick "" (kubeBefore X) (d.usable.map (·.name)) = "" ∨
          pick "" (kubeBefore X) (d.usable.map (·.name)) ∈ d.usable.map (·.name) := pick_mem _
      rcases hpicked with hpick | hpick
      · rw [hpick]
      · obtain ⟨v, hv, hname⟩ := List.mem_map.mp hpick
        rw [← hname]
        by_cases hv0 : v.name = ""
        · rw [hv0]
        · by_contra hne
          exact hhidden.2 ⟨huns, v, husable.mem_iff.mpr hv, hv0, hne⟩
    rw [hcalled c' hre, hcalled c ⟨.refl _, rfl⟩]
  · have hpick : c.usable.any (·.storage) = true ∨ (c.usable.map (·.name)).length ≤ 1 ∨ ∃ name, name ≠ "" ∧
        Greatest (kubeBefore X) (c.usable.map (·.name)) name := by
      cases hstorage : c.usable.any (·.storage) with
      | true => exact .inl rfl
      | false =>
        right
        by_contra hnot
        rw [not_or] at hnot
        have hne : c.usable.map (·.name) ≠ [] := fun hnil => hnot.1 (by simp [hnil])
        have hsub : c.usable.map (·.name) ⊆ c.versions.map (·.name) := (List.filter_sublist.map _).subset
        obtain ⟨name, hgreatest⟩ := (hordered.subset hsub).exists_greatest hne
        have hname : name = "" := by
          by_contra hname
          exact hnot.2 ⟨name, hname, hgreatest⟩
        subst hname
        -- There are two names, and one of them at most is empty.
        refine hempty ⟨hstorage, hgreatest, ?_⟩
        by_contra hall
        have hlen : (c.usable.filter fun v => v.name = "").length ≤ 1 :=
          length_filter_key_le_one (p := fun n => n = "") (by simp +contextual)
            ((List.filter_sublist.map _).nodup hnames)
        rw [List.filter_eq_self.mpr] at hlen
        · exact hnot.1 (by simpa using hlen)
        · intro v hv
          by_contra hv0
          exact hall ⟨v, hv, by simpa using hv0⟩
    have hsame := hre.preferredVersion hone hpick
    exact ⟨fun _ => hsame, fun _ => by rw [hsame]⟩

variable (target) in
/-- The findings about the CRDs agree on every place in a report's order. -/
theorem Alike.filter_evalCRDVersions (h : Alike inv inv') (hp : inv.Versioned X)
    (hshown : ∀ c ∈ inv.crds, c.EmptyPreferred X → ¬ c.ShowsPreferred)
    {p : ℕ ×ₗ String ×ₗ String ×ₗ String → Bool} (hplace : ∀ a b, p a = true → p b = true → a = b) :
    (evalCRDVersions X inv' target).filter (fun f => p (findingOrder f)) =
      (evalCRDVersions X inv target).filter fun f => p (findingOrder f) := by
  have hcrd : ∀ c ∈ inv.crds, ∀ c', c.Reorders c' →
      (crdFindings X inv' target c').filter (fun f => p (findingOrder f)) =
        (crdFindings X inv target c).filter fun f => p (findingOrder f) := by
    intro c hc c' hre
    obtain ⟨hdep, huns⟩ := hre.destination (hp.names c hc) (hp.storage c hc) (hp.ordered c hc) (hshown c hc)
    have hteams : teamsFor inv'.namespaces = teamsFor inv.namespaces := congrArg teamsFor h.namespaces
    obtain ⟨rest, heq, heq'⟩ := hre.crdFindings target h.source hteams (h.skipped capCRDs) (hp.names c hc)
      (hp.storage c hc) hdep huns
    rw [heq, heq', List.filter_append, List.filter_append, filter_key_eq_of_perm hplace
      ((hre.versions.filter _).map _) (nodup_deprecatedVersionFindings (hp.names c hc))]
  unfold evalCRDVersions
  rw [List.filter_flatMap, List.filter_flatMap]
  exact (flatMap_eq_of_forall₂ h.crds fun c hc c' hre => (hcrd c hc c' hre).symm).symm

/-- Findings that agree on every place in a report's order are sorted alike. -/
theorem sortFindings_eq_of_places {fs gs : List Finding}
    (h : ∀ p : ℕ ×ₗ String ×ₗ String ×ₗ String → Bool, (∀ a b, p a = true → p b = true → a = b) →
      fs.filter (fun f => p (findingOrder f)) = gs.filter fun f => p (findingOrder f)) :
    sortFindings fs = sortFindings gs := by
  refine sortOn_eq_of_filter fun place => ?_
  refine h (fun o => @decide (o = place) (LinearOrder.toDecidableEq o place)) fun a b ha hb => ?_
  rw [of_decide_eq_true ha, of_decide_eq_true hb]

/-- The same findings make the same report, but for the age of the add-on evidence. -/
theorem Alike.reportOf (h : Alike inv inv') {found found' : List Finding}
    (hsorted : sortFindings found' = sortFindings found) :
    (reportOf X inv' k target now found').withoutAge = (reportOf X inv k target now found).withoutAge := by
  have hgaps : assessmentGaps X inv' k target = assessmentGaps X inv k target := h.reorders.assessmentGaps
  have hcluster : inv'.clusterID = inv.clusterID := by rw [h.rest]
  have hserver : inv'.serverVersion = inv.serverVersion := by rw [h.rest]
  have hsupport : evalSupport X inv' k now = evalSupport X inv k now := h.reorders.evalSupport
  have himages : inv'.unrecognizedImages = inv.unrecognizedImages := by rw [h.rest]
  have homitted : inv'.unrecognizedImagesOmitted = inv.unrecognizedImagesOmitted := by rw [h.rest]
  simp only [UpgradeScope.reportOf, Report.withoutAge, listedImages, hsorted, hgaps, hcluster, hserver, hsupport,
    himages, homitted]

/-- Reports of inventories with one canonical form agree. -/
theorem Alike.evaluate (h : Alike inv inv') (hp : inv.Versioned X)
    (hshown : ∀ c ∈ inv.crds, c.EmptyPreferred X → ¬ c.ShowsPreferred) :
    (evaluate fuel X inv' k target now).map Report.withoutAge =
      (evaluate fuel X inv k target now).map Report.withoutAge := by
  have hpath : evalUpgradePath X fuel inv' target = evalUpgradePath X fuel inv target := h.reorders.evalUpgradePath fuel
  have hvolumes : evalVolumePlugins k target inv' = evalVolumePlugins k target inv := by rw [h.rest]; rfl
  rw [evaluate_eq, evaluate_eq, foundFindings_crds, foundFindings_crds, hpath, hvolumes]
  cases evalUpgradePath X fuel inv target with
  | none => simp only [Option.map_none]
  | some path =>
    simp only [Option.map_some, Option.some.injEq]
    refine h.reportOf (sortFindings_eq_of_places fun p hplace => ?_)
    simp only [List.filter_append, List.filter_map, Function.comp_def, findingOrder_capNamespaces,
      h.filter_evalCRDVersions target hp hshown hplace, h.beforeCRDs]

end Alike

/-! ## Where the order of the versions shows -/

section Shows

variable {X : External} {inv : Inventory} {k : KB} {target : Version} {now : Time} {c : CRD}

/-- Two orders of a CRD's versions are orders of one another. -/
theorem CRD.Reorders.symm_trans {c c₁ c₂ : CRD} (h₁ : c.Reorders c₁) (h₂ : c.Reorders c₂) : c₁.Reorders c₂ := by
  refine ⟨h₁.versions.symm.trans h₂.versions, ?_⟩
  rw [h₁.rest, h₂.rest]

/-- A CRD with other versions. -/
def CRD.withVersions (c : CRD) (versions : List CRDVersion) : CRD := { c with versions := versions }

/-- The loop is given the usable versions in two orders: it ends with none when the empty name is the last, and with
the last when the empty name is the one before. -/
theorem CRD.EmptyPreferred.exists_reorders (h : c.EmptyPreferred X) {v : CRDVersion} (hv : v ∈ c.usable)
    (hname : v.name ≠ "") : (∃ c', c.Reorders c' ∧ c'.preferredVersion X = "") ∧
      ∃ c', c.Reorders c' ∧ c'.preferredVersion X = v.name := by
  obtain ⟨hstorage, hgreatest, -⟩ := h
  obtain ⟨e, he, hempty⟩ := List.mem_map.mp hgreatest.1
  have hve : v ≠ e := fun heq => hname (heq ▸ hempty)
  obtain ⟨hev, hused⟩ := List.mem_filter.mp he
  obtain ⟨hvv, hvused⟩ := List.mem_filter.mp hv
  -- The two versions are moved to the end, and swapped for the second order.
  set m := (c.versions.erase e).erase v
  have hperm : c.versions.Perm (m ++ [v, e]) := by
    have hv' : v ∈ c.versions.erase e := (List.mem_erase_of_ne hve).mpr hvv
    have hfront : c.versions.Perm (e :: v :: m) :=
      (List.perm_cons_erase hev).trans ((List.perm_cons_erase hv').cons e)
    have hback : ([v, e] ++ m).Perm (m ++ [v, e]) := List.perm_append_comm
    exact (hfront.trans (.swap v e m)).trans hback
  have husable : ∀ l : List CRDVersion, c.versions.Perm l → (c.withVersions l).preferredVersion X =
      pick "" (kubeBefore X) ((c.withVersions l).usable.map (·.name)) := by
    intro l hl
    have hnone : (c.withVersions l).usable.find? (·.storage) = none := by
      rw [← Option.not_isSome_iff_eq_none, List.find?_isSome, ← List.any_eq_true]
      have hperm' : c.usable.Perm (c.withVersions l).usable := hl.filter _
      rw [← any_eq_of_perm hperm', hstorage]
      simp
    rw [CRD.preferredVersion_eq, hnone, Option.map_none, Option.getD_none]
  have hswap : (m ++ [v, e]).Perm (m ++ [e, v]) := (List.Perm.swap e v []).append_left m
  have hlast : (c.withVersions (m ++ [v, e])).usable.map (·.name) =
      (m.filter fun v => v.served && !v.deprecated).map (·.name) ++ [v.name] ++ [""] := by
    simp [CRD.withVersions, CRD.usable, hused, hvused, hempty]
  have hfirst : (c.withVersions (m ++ [e, v])).usable.map (·.name) =
      (m.filter fun v => v.served && !v.deprecated).map (·.name) ++ [""] ++ [v.name] := by
    simp [CRD.withVersions, CRD.usable, hused, hvused, hempty]
  have hgreatest' : Greatest (kubeBefore X)
      ((m.filter fun v => v.served && !v.deprecated).map (·.name) ++ [v.name] ++ [""]) "" := by
    rw [← hlast]
    exact hgreatest.perm ((hperm.filter _).map _)
  refine ⟨⟨c.withVersions (m ++ [v, e]), ⟨hperm, rfl⟩, ?_⟩, c.withVersions (m ++ [e, v]), ⟨hperm.trans hswap, rfl⟩, ?_⟩
  · rw [husable _ hperm, hlast]
    exact pick_concat_unset hgreatest'
  · rw [husable _ (hperm.trans hswap), hfirst, pick_concat, if_pos]
    left
    refine pick_concat_unset ⟨by simp, fun b hb hne => hgreatest'.2 b ?_ hne⟩
    rw [List.append_assoc]
    rcases List.mem_append.mp hb with hb | hb
    · exact List.mem_append_left _ hb
    · exact absurd (List.mem_singleton.mp hb) hne

/-- A finding's place in a report's order. -/
def atPlace (place : ℕ ×ₗ String ×ₗ String ×ₗ String) (f : Finding) : Bool :=
  @decide (findingOrder f = place) (LinearOrder.toDecidableEq _ _)

/-- A finding is at a place of the sorted findings when its order is that place. -/
theorem atPlace_iff {place : ℕ ×ₗ String ×ₗ String ×ₗ String} {f : Finding} :
    atPlace place f = true ↔ findingOrder f = place :=
  ⟨of_decide_eq_true, decide_eq_true⟩

/-- Findings that sort alike agree on every place. -/
theorem filter_atPlace_of_sortFindings {fs gs : List Finding} (h : sortFindings fs = sortFindings gs)
    (place : ℕ ×ₗ String ×ₗ String ×ₗ String) : fs.filter (atPlace place) = gs.filter (atPlace place) := by
  have hfilter : ∀ l : List Finding, l.filter (atPlace place) = (sortFindings l).filter (atPlace place) := fun l =>
    (filter_sortOn findingOrder place l).symm
  rw [hfilter fs, hfilter gs, h]

/-- An inventory with another of its CRDs in the place of one. -/
def Inventory.withCRDs (inv : Inventory) (crds : List CRD) : Inventory := { inv with crds := crds }

/-- Other CRDs do not change what is found about one. -/
theorem crdFindings_withCRDs (crds : List CRD) : crdFindings X (inv.withCRDs crds) target = crdFindings X inv target :=
  rfl

/-- There is a target whose path ends at once. -/
theorem exists_evalUpgradePath (X : External) (inv : Inventory) : ∃ target, evalUpgradePath X 0 inv target = some [] := by
  unfold evalUpgradePath
  cases upgradeFrom X inv with
  | none => exact ⟨⟨0, 0⟩, rfl⟩
  | some running =>
    refine ⟨running, ?_⟩
    dsimp only
    rw [sub_self, if_pos (.inr (by decide))]

/-- When reports agree, the findings about a CRD and about it with its versions reordered agree on every place. -/
theorem crdFindings_agree {c c' : CRD} (hre : c.Reorders c') (hc : c ∈ inv.crds)
    (hnames : (c.versions.map (·.name)).Nodup) (htarget : evalUpgradePath X 0 inv target = some [])
    (hsame : ∀ inv' : Inventory, inv'.canonical = inv.canonical →
      (evaluate 0 X inv' k target now).map Report.withoutAge = (evaluate 0 X inv k target now).map Report.withoutAge)
    (place : ℕ ×ₗ String ×ₗ String ×ₗ String) :
    ((crdFindings X inv target c').map capNamespaces).filter (atPlace place) =
      ((crdFindings X inv target c).map capNamespaces).filter (atPlace place) := by
  obtain ⟨pre, post, hsplit⟩ := List.append_of_mem hc
  set inv' := inv.withCRDs (pre ++ c' :: post) with hinv'
  have hcanonical : inv'.canonical = inv.canonical := by
    have hcrds : inv'.crds.map CRD.canonical = inv.crds.map CRD.canonical := by
      show (pre ++ c' :: post).map CRD.canonical = _
      rw [hsplit, List.map_append, List.map_append, List.map_cons, List.map_cons, hre.canonical hnames]
    unfold Inventory.canonical
    rw [hcrds]
    rfl
  have halike := alike_of_canonical hcanonical
  have hreports := hsame inv' hcanonical
  have hpath : evalUpgradePath X 0 inv' target = some [] := htarget
  rw [evaluate_eq, evaluate_eq, foundFindings_crds, foundFindings_crds, hpath, htarget] at hreports
  simp only [Option.map_some, Option.some.injEq, halike.beforeCRDs] at hreports
  have hsorted := congrArg Report.findings hreports
  have hfilter := filter_atPlace_of_sortFindings hsorted place
  have hvolumes : evalVolumePlugins k target inv' = evalVolumePlugins k target inv := rfl
  rw [hvolumes, List.filter_append, List.filter_append, List.filter_append, List.filter_append] at hfilter
  -- What stands before and after the CRDs is the same in both reports, and so are the CRDs before and after this one.
  have hcrds := List.append_cancel_left (List.append_cancel_right hfilter)
  have heval' : evalCRDVersions X inv' target = pre.flatMap (crdFindings X inv target) ++
      (crdFindings X inv target c' ++ post.flatMap (crdFindings X inv target)) := by
    unfold evalCRDVersions
    rw [hinv', crdFindings_withCRDs]
    show (pre ++ c' :: post).flatMap _ = _
    rw [List.flatMap_append, List.flatMap_cons]
  have heval : evalCRDVersions X inv target = pre.flatMap (crdFindings X inv target) ++
      (crdFindings X inv target c ++ post.flatMap (crdFindings X inv target)) := by
    unfold evalCRDVersions
    rw [hsplit, List.flatMap_append, List.flatMap_cons]
  rw [heval, heval'] at hcrds
  simp only [List.map_append, List.filter_append] at hcrds
  exact List.append_cancel_right (List.append_cancel_left hcrds)

/-- A finding about a deprecated version tells to move to the preferred one, or to look for one. -/
theorem remediation_deprecatedVersionFinding (v : CRDVersion) :
    (deprecatedVersionFinding X inv target c v).remediation.toList.head? =
      if c.preferredVersion X = "" then some 'c' else if (c.used v.name).isSome then some 'm' else some 'u' := by
  unfold deprecatedVersionFinding crdUsage
  by_cases hp : c.preferredVersion X = ""
  · cases c.used v.name <;> simp [hp, toString]
  · cases c.used v.name <;> simp [hp, toString]

/-- Where there is a version to move to, no finding tells to look for one. -/
theorem head_remediation {f : Finding} (hp : c.preferredVersion X ≠ "") (hf : f ∈ crdFindings X inv target c) :
    f.remediation.toList.head? ≠ some 'c' := by
  unfold crdFindings at hf
  rw [List.mem_append, List.mem_append] at hf
  rcases hf with (hf | hf) | hf
  · obtain ⟨v, -, rfl⟩ := List.mem_map.mp hf
    rw [remediation_deprecatedVersionFinding, if_neg hp]
    split_ifs <;> simp
  · obtain ⟨u, -, rfl⟩ := List.mem_map.mp hf
    rw [remediation_unservedVersionFinding]
    simp
  · obtain ⟨s, -, rfl⟩ := List.mem_map.mp hf
    obtain ⟨rest, hrest⟩ : ∃ rest, (storedVersionFinding target c s).remediation = "migrate every stored " ++ rest := by
      simp only [storedVersionFinding, String.append_assoc]
      exact ⟨_, rfl⟩
    rw [hrest]
    simp

/-- The place of a finding is not that of one with another kind of key. -/
theorem filter_atPlace_eq_nil {fs : List Finding} {f : Finding} (h : ∀ g ∈ fs, g.key ≠ f.key) :
    (fs.map capNamespaces).filter (atPlace (findingOrder f)) = [] := by
  refine List.filter_eq_nil_iff.mpr fun g hg hplace => ?_
  obtain ⟨g, hmem, rfl⟩ := List.mem_map.mp hg
  rw [atPlace_iff, findingOrder_capNamespaces] at hplace
  exact h g hmem (Prod.mk.inj (Prod.mk.inj (Prod.mk.inj hplace).2).2).2

/-- At the place of a finding about a version that is not served, there are such findings only. -/
theorem filter_unserved (c c' : CRD) (u : APIUsage) :
    ((crdFindings X inv target c').map capNamespaces).filter
        (atPlace (findingOrder (unservedVersionFinding X inv target c u))) =
      (((c'.usage.filter fun u => u.count ≠ 0 && !c'.serves u.version).map
        (unservedVersionFinding X inv target c')).map capNamespaces).filter
          (atPlace (findingOrder (unservedVersionFinding X inv target c u))) := by
  have hkey : (unservedVersionFinding X inv target c u).key =
      Category.crdVersion.name ++ "/unserved/" ++ apiKey c.group u.version c.kind := rfl
  -- The three kinds of keys differ right after the category.
  have hdeprecated : ∀ v : CRDVersion, (deprecatedVersionFinding X inv target c' v).key ≠
      (unservedVersionFinding X inv target c u).key := by
    intro v heq
    have hform : (deprecatedVersionFinding X inv target c' v).key =
        Category.crdVersion.name ++ "/deprecated/" ++ apiKey c'.group v.name c'.kind := by
      unfold deprecatedVersionFinding
      dsimp only
      cases c'.used v.name <;> rfl
    rw [hform, hkey] at heq
    simpa using congrArg String.toList heq
  have hstored : ∀ s : String, (storedVersionFinding target c' s).key ≠
      (unservedVersionFinding X inv target c u).key := by
    intro s heq
    rw [hkey] at heq
    simpa [storedVersionFinding] using congrArg String.toList heq
  have hnoDeprecated : (((c'.versions.filter fun v => v.served && v.deprecated).map
      (deprecatedVersionFinding X inv target c')).map capNamespaces).filter
        (atPlace (findingOrder (unservedVersionFinding X inv target c u))) = [] := by
    refine filter_atPlace_eq_nil fun g hg => ?_
    obtain ⟨v, -, rfl⟩ := List.mem_map.mp hg
    exact hdeprecated v
  have hnoStored : (((c'.storedVersions.filter fun s => s ≠ c'.storageVersion && !c'.serves s).map
      (storedVersionFinding target c')).map capNamespaces).filter
        (atPlace (findingOrder (unservedVersionFinding X inv target c u))) = [] := by
    refine filter_atPlace_eq_nil fun g hg => ?_
    obtain ⟨s, -, rfl⟩ := List.mem_map.mp hg
    exact hstored s
  unfold crdFindings
  rw [List.map_append, List.map_append, List.filter_append, List.filter_append, hnoDeprecated, hnoStored,
    List.nil_append, List.append_nil]

/-- The place of a finding about a version that is not served does not depend on the order of the CRD's versions. -/
theorem CRD.Reorders.findingOrder_unserved {c c' : CRD} (hre : c.Reorders c') (u : APIUsage) :
    findingOrder (unservedVersionFinding X inv target c' u) = findingOrder (unservedVersionFinding X inv target c u) := by
  rw [hre.rest]
  rfl

/-- Two orders of a CRD's versions whose findings agree on every place tell the same to move to. -/
theorem destination_of_agree {c c' : CRD} (hre : c.Reorders c') (hnames : (c.versions.map (·.name)).Nodup)
    (hagree : ∀ place, ((crdFindings X inv target c).map capNamespaces).filter (atPlace place) =
      ((crdFindings X inv target c').map capNamespaces).filter (atPlace place)) {u : APIUsage} (hu : u ∈ c.usage)
    (huns : (u.count ≠ 0 && !c.serves u.version) = true) :
    c.destination (c.preferredVersion X) = c'.destination (c'.preferredVersion X) := by
  have hserves : c'.serves = c.serves := by
    funext version
    unfold CRD.serves
    rw [hre.listed hnames]
  have husage : c'.usage = c.usage := by rw [hre.rest]
  have hfilter := hagree (findingOrder (unservedVersionFinding X inv target c u))
  rw [filter_unserved c c u, filter_unserved c c' u, hserves, husage, List.map_map, List.map_map, List.filter_map,
    List.filter_map] at hfilter
  -- The same rows stand there, each with its finding.
  have hrows : ∀ w : APIUsage,
      (atPlace (findingOrder (unservedVersionFinding X inv target c u)) ∘
        (capNamespaces ∘ unservedVersionFinding X inv target c')) w =
      (atPlace (findingOrder (unservedVersionFinding X inv target c u)) ∘
        (capNamespaces ∘ unservedVersionFinding X inv target c)) w := by
    intro w
    rw [Bool.eq_iff_iff, Function.comp_apply, Function.comp_apply, Function.comp_apply, Function.comp_apply,
      atPlace_iff, atPlace_iff, findingOrder_capNamespaces, findingOrder_capNamespaces, hre.findingOrder_unserved]
  rw [List.filter_congr fun w _ => hrows w] at hfilter
  have hmem : u ∈ (c.usage.filter fun u => u.count ≠ 0 && !c.serves u.version).filter
      (atPlace (findingOrder (unservedVersionFinding X inv target c u)) ∘
        (capNamespaces ∘ unservedVersionFinding X inv target c)) := by
    refine List.mem_filter.mpr ⟨List.mem_filter.mpr ⟨hu, huns⟩, ?_⟩
    rw [Function.comp_apply, Function.comp_apply, atPlace_iff, findingOrder_capNamespaces]
  have heq := congrArg Finding.remediation (List.map_inj_left.mp hfilter u hmem)
  rw [Function.comp_apply, Function.comp_apply, capNamespaces_remediation, capNamespaces_remediation,
    remediation_unservedVersionFinding, remediation_unservedVersionFinding] at heq
  have hlist := congrArg String.toList heq
  simpa [String.toList_inj] using hlist

/-- Inventories of one canonical form have one report, but for the age of their add-on evidence, whatever knowledge
base, target and time, exactly when no CRD whose findings tell a version to move to prefers the version without a
name among several. -/
theorem duplicates_agree_iff (hp : inv.Versioned X) :
    (∀ inv' : Inventory, inv'.canonical = inv.canonical → ∀ (fuel : ℕ) (k : KB) (target : Version) (now : Time),
      (evaluate fuel X inv' k target now).map Report.withoutAge =
        (evaluate fuel X inv k target now).map Report.withoutAge) ↔
      ∀ c ∈ inv.crds, c.EmptyPreferred X → ¬ c.ShowsPreferred := by
  constructor
  · intro hsame c hc hempty hshows
    obtain ⟨target, htarget⟩ := exists_evalUpgradePath X inv
    have hnames := hp.names c hc
    have hagree : ∀ c', c.Reorders c' → ∀ place,
        ((crdFindings X inv target c').map capNamespaces).filter (atPlace place) =
          ((crdFindings X inv target c).map capNamespaces).filter (atPlace place) := fun c' hre place =>
      crdFindings_agree hre hc hnames htarget
        (fun inv' hcanonical => hsame inv' hcanonical 0 { maxKnownK8s := target } target 0) place
    rcases hshows with ⟨w, hw, hdep⟩ | ⟨⟨u, hu, huns⟩, v, hv, hname, hdest⟩
    · -- In one order the finding tells to look for a version, in the other there is one.
      obtain ⟨v, hv, hname⟩ := hempty.2.2
      obtain ⟨⟨c₁, hre₁, hpref₁⟩, c₂, hre₂, hpref₂⟩ := hempty.exists_reorders hv hname
      set f := deprecatedVersionFinding X inv target c₁ w
      have hmem : capNamespaces f ∈ ((crdFindings X inv target c₁).map capNamespaces).filter
          (atPlace (findingOrder f)) := by
        refine List.mem_filter.mpr ⟨List.mem_map_of_mem ?_, atPlace_iff.mpr (findingOrder_capNamespaces f)⟩
        unfold crdFindings
        refine List.mem_append_left _ (List.mem_append_left _ (List.mem_map_of_mem ?_))
        exact List.mem_filter.mpr ⟨hre₁.versions.mem_iff.mp hw, hdep⟩
      rw [hagree c₁ hre₁, ← hagree c₂ hre₂] at hmem
      obtain ⟨g, hg, hcap⟩ := List.mem_map.mp (List.mem_of_mem_filter hmem)
      have hhead := head_remediation (hpref₂ ▸ hname) hg
      rw [← capNamespaces_remediation, hcap, capNamespaces_remediation, remediation_deprecatedVersionFinding,
        if_pos hpref₁] at hhead
      exact hhead rfl
    · obtain ⟨⟨c₁, hre₁, hpref₁⟩, c₂, hre₂, hpref₂⟩ := hempty.exists_reorders hv hname
      have hserves : c₁.serves = c.serves := by
        funext version
        unfold CRD.serves
        rw [hre₁.listed hnames]
      have husage : c₁.usage = c.usage := by rw [hre₁.rest]
      have heq := destination_of_agree (hre₁.symm_trans hre₂)
        ((hre₁.versions.map _).nodup_iff.mp hnames) (fun place => (hagree c₁ hre₁ place).trans (hagree c₂ hre₂ place).symm)
        (husage ▸ hu) (hserves ▸ huns)
      have hgroup₁ : c₁.destination "" = c.destination "" := by rw [hre₁.rest]; rfl
      have hgroup₂ : c₂.destination v.name = c.destination v.name := by rw [hre₂.rest]; rfl
      rw [hpref₁, hpref₂, hgroup₁, hgroup₂] at heq
      exact hdest heq.symm
  · intro hshown inv' hcanonical fuel k target now
    exact (alike_of_canonical hcanonical).evaluate hp hshown

end Shows

/-- A pushed cluster whose CRD deprecates its storage version `v1alpha1` and serves others. -/
def pushedCluster (others : List CRDVersion) (age : ℤ) : Inventory :=
  { deprecatingCluster others with schemaVersion := 1, clusterID := "uid", addOnEvidenceAgeSeconds := age }

/-- Two versions with names. -/
def namedVersions : List CRDVersion := [⟨"v1", true, false, false, ""⟩, ⟨"v1beta1", true, false, false, ""⟩]

/-- The cluster pushed again, with its versions in another order and reused pod evidence, has the same report. -/
theorem duplicates_agree_named :
    (pushedCluster namedVersions.reverse 60).canonical = (pushedCluster namedVersions 0).canonical ∧
      (evaluate 0 kubeAware (pushedCluster namedVersions.reverse 60) { maxKnownK8s := ⟨1, 34⟩ } ⟨1, 31⟩ 0).map
          Report.withoutAge =
        (evaluate 0 kubeAware (pushedCluster namedVersions 0) { maxKnownK8s := ⟨1, 34⟩ } ⟨1, 31⟩ 0).map
          Report.withoutAge := by
  have hcanonical : (pushedCluster namedVersions.reverse 60).canonical = (pushedCluster namedVersions 0).canonical := by
    simp only [Inventory.canonical, pushedCluster, deprecatingCluster, List.map_cons, List.map_nil]
    congr 2
  have hp : (pushedCluster namedVersions 0).Versioned kubeAware := by
    constructor
    · simp [pushedCluster, deprecatingCluster, namedVersions]
    · simp [pushedCluster, deprecatingCluster, namedVersions]
    · intro c hc
      obtain rfl := List.mem_singleton.mp hc
      exact ⟨by decide +kernel, by decide +kernel⟩
  refine ⟨hcanonical, (duplicates_agree_iff hp).mpr (fun c hc hempty => ?_) _ hcanonical 0 _ _ 0⟩
  obtain rfl := List.mem_singleton.mp hc
  exact absurd hempty.2.1.1 (by decide)

/-- A version without a name, and one that Kubernetes' order puts behind it. -/
def unnamedVersions : List CRDVersion := [⟨"", true, false, false, ""⟩, ⟨"foo", true, false, false, ""⟩]

/-- Two pushes that are admitted and have one canonical form, with different reports: where the version without a name
is the first, the other is named; where it is the last, none is. -/
theorem duplicates_differ_unnamed :
    admitProblem kubeAware (pushedCluster unnamedVersions 0) = none ∧
      admitProblem kubeAware (pushedCluster unnamedVersions.reverse 0) = none ∧
      (pushedCluster unnamedVersions 0).Versioned kubeAware ∧
      (pushedCluster unnamedVersions.reverse 0).canonical = (pushedCluster unnamedVersions 0).canonical ∧
      remediations (pushedCluster unnamedVersions 0) =
        some ["use example.io/foo; an add-on upgrade may stop serving v1alpha1"] ∧
      remediations (pushedCluster unnamedVersions.reverse 0) =
        some ["check the add-on's upgrade notes for the version that replaces v1alpha1: the CRD serves none that is not deprecated"] := by
  refine ⟨by decide +kernel, by decide +kernel, ?_, ?_, by decide +kernel, by decide +kernel⟩
  · constructor
    · simp [pushedCluster, deprecatingCluster, unnamedVersions]
    · simp [pushedCluster, deprecatingCluster, unnamedVersions]
    · intro c hc
      obtain rfl := List.mem_singleton.mp hc
      exact ⟨by decide +kernel, by decide +kernel⟩
  · simp only [Inventory.canonical, pushedCluster, deprecatingCluster, List.map_cons, List.map_nil]
    congr 2

end UpgradeScope
