import UpgradeScope.Engine.KeyFamilies

/-!
# Finding keys are unique

Every finding's key starts with its category (`keyed_of_mem_foundFindings`). The keys of each family of checks tell its
rows apart, and no key is of two families, so no two findings of an evaluation share a key.
-/

namespace UpgradeScope

open Go Sorting Kb Registry

/-! ## Keys start with their category -/

/-- The key starts with the category and a slash; the knowledge base's is the category alone. -/
def Finding.Keyed (f : Finding) : Prop :=
  if f.category = .kbStale then f.key = f.category.name else hasPrefix f.key (f.category.name ++ "/") = true

instance (f : Finding) : Decidable f.Keyed := by
  unfold Finding.Keyed
  infer_instance

section Keyed

variable {X : External} {k : KB} {target : Version} {now : Time} {inv : Inventory} {f : Finding}

/-- A finding whose key is its category and a tail is keyed. -/
theorem Finding.Keyed.of_tail (hcat : f.category ≠ .kbStale) (tail : String)
    (h : f.key = f.category.name ++ "/" ++ tail) : f.Keyed := by
  unfold Finding.Keyed
  rw [if_neg hcat]
  exact hasPrefix_iff.mpr ⟨tail, h⟩

/-- A finding with another one's category and key. -/
theorem Finding.Keyed.congr {g : Finding} (h : f.Keyed) (hcat : g.category = f.category) (hkey : g.key = f.key) :
    g.Keyed := by
  unfold Finding.Keyed
  rw [hcat, hkey]
  exact h

/-- The key is the category, a name, and whatever follows after a slash. -/
def Finding.Headed (f : Finding) (head : String) : Prop :=
  ∃ rest, (rest = "" ∨ ∃ t, rest = "/" ++ t) ∧ f.key = f.category.name ++ "/" ++ (head ++ rest)

/-- A key with a name starts with its category. -/
theorem Finding.Headed.keyed {head : String} (h : f.Headed head) (hcat : f.category ≠ .kbStale) : f.Keyed := by
  obtain ⟨rest, -, hkey⟩ := h
  exact .of_tail hcat _ hkey

variable {nsInfo : List NamespaceInfo} {src : Source} {u : APIUsage} {a : AddOn} (c : DeprecatedCall)
  {ins : List AddOnInstall}

/-- The usage findings are named by the group. -/
theorem headed_usage (h : usageFinding k target src nsInfo u = some f) : f.Headed (keyGroup u.group) := by
  obtain ⟨-, hkey, -⟩ := usageFinding_eq_some k target h
  unfold usageKey at hkey
  split_ifs at hkey
  · refine ⟨"/" ++ (u.version ++ "/" ++ u.kind ++ "/" ++ unservedKeyPhase), .inr ⟨_, rfl⟩, ?_⟩
    simpa only [unservedKey, apiKey, String.append_assoc] using hkey
  · refine ⟨"/" ++ (u.version ++ "/" ++ u.kind), .inr ⟨_, rfl⟩, ?_⟩
    simpa only [apiKey, String.append_assoc] using hkey

/-- The usage findings are keyed. -/
theorem keyed_usage (h : usageFinding k target src nsInfo u = some f) : f.Keyed := by
  refine (headed_usage h).keyed ?_
  have := usageFinding_category h
  simp only [List.mem_cons, List.not_mem_nil, or_false] at this
  obtain hc | hc | hc := this <;> simp [hc]

/-- The callers' findings are named by the group. -/
theorem headed_call : (callFinding X k target c).Headed (keyGroup c.group) := by
  refine ⟨"/" ++ (c.version ++ "/" ++ c.res), .inr ⟨_, rfl⟩, ?_⟩
  show callKey c = _
  simp only [callKey, callFinding, String.append_assoc]

/-- The callers' findings are keyed. -/
theorem keyed_call : (callFinding X k target c).Keyed :=
  (headed_call c).keyed (by simp [callFinding])

/-- The API findings are keyed. -/
theorem keyed_folded (h : f ∈ foldedFindings X inv k target) : f.Keyed := by
  unfold foldedFindings foldDeprecatedCalls at h
  rcases List.mem_append.mp h with h | h
  · obtain ⟨j, hj, rfl⟩ := List.mem_mapIdx.mp h
    rw [List.length_map] at hj
    obtain ⟨u, -, hu⟩ := List.mem_filterMap.mp (List.getElem_mem hj)
    refine (keyed_usage hu).congr ?_ ?_
    · unfold withCallers
      split_ifs <;> simp
    · unfold withCallers
      split_ifs <;> simp
  · obtain ⟨r, hr, rfl⟩ := List.mem_map.mp h
    obtain ⟨row, hrow, rfl⟩ := List.mem_map.mp (List.mem_filter.mp hr).1
    obtain ⟨c, -, rfl⟩ := List.mem_map.mp hrow
    exact keyed_call c

/-- The authorship findings are keyed. -/
theorem keyed_authorship (h : authorshipFinding k nsInfo u = some f) :
    f.Keyed := by
  unfold authorshipFinding at h
  split at h
  · simp at h
  · split at h
    · simp at h
    · obtain rfl := Option.some.inj h
      exact .of_tail (by simp) (apiKey u.group u.version u.kind ++ "/" ++ authorshipUnknownKey)
        (by simp only [String.append_assoc])

/-- The tail of a line's keys starts with the add-on. -/
theorem exists_lineKey (a : AddOn) (now : Time) (s : AddOnSubject) :
    ∃ rest, (rest = "" ∨ ∃ t, rest = "/" ++ t) ∧ lineKey a now s = a.id ++ rest := by
  unfold lineKey
  split
  · exact ⟨_, .inr ⟨_, rfl⟩, String.append_assoc ..⟩
  · rename_i oldest _ _
    exact ⟨"/" ++ (belowPrefix ++ oldest.cycle), .inr ⟨_, rfl⟩, by simp only [String.append_assoc]⟩
  · exact ⟨"", .inl rfl, by simp⟩

/-- The findings about an add-on's installs are named by the add-on. -/
theorem headed_addOnFindings {lc node : Bool} (h : f ∈ addOnFindings X a target now lc ins node) :
    f.category ∈ [Category.eolAddon, .eolApproaching, .chartIncompat, .addOnNoData] ∧ f.Headed a.id := by
  have hline : ∀ (s : AddOnSubject), f.key = f.category.name ++ "/" ++ lineKey a now s → f.Headed a.id := by
    intro s hkey
    obtain ⟨rest, hrest, hs⟩ := exists_lineKey a now s
    exact ⟨rest, hrest, hs ▸ hkey⟩
  have hid : f.key = f.category.name ++ "/" ++ a.id → f.Headed a.id := fun hkey => ⟨"", .inl rfl, by simpa using hkey⟩
  rw [addOnFindings_eq] at h
  rcases List.mem_append.mp h with h | h
  · obtain ⟨cat, sev, title, more, hproduct, rfl⟩ := productFinding_eq_some (Option.mem_toList.mp h)
    refine ⟨?_, hid rfl⟩
    have hcat := (productEOL_eq_some hproduct).1
    simp only [List.mem_cons, List.not_mem_nil, or_false] at hcat
    obtain rfl | rfl := hcat <;> simp [subjectFinding]
  · obtain ⟨g, -, hf⟩ := List.mem_flatMap.mp h
    unfold groupFindings at hf
    simp only [List.mem_append, Option.mem_toList] at hf
    obtain (hf | hf) | hf := hf
    · obtain ⟨-, hcat, hkey, -⟩ := lineFinding_eq_some hf
      simp only [List.mem_cons, List.not_mem_nil, or_false] at hcat
      exact ⟨by obtain hc | hc := hcat <;> simp [hc], hline _ hkey⟩
    · obtain ⟨title, detail, citations, rfl⟩ := evalAddOnCompat_eq_some hf
      exact ⟨by simp, hline _ rfl⟩
    · obtain ⟨-, -, -, title, detail, rfl⟩ := noDataFinding_eq_some hf
      exact ⟨by simp [subjectFinding], hid rfl⟩

/-- The findings about an add-on's installs are keyed. -/
theorem keyed_addOnFindings {lc node : Bool} (h : f ∈ addOnFindings X a target now lc ins node) : f.Keyed := by
  obtain ⟨hcat, hhead⟩ := headed_addOnFindings h
  refine hhead.keyed ?_
  simp only [List.mem_cons, List.not_mem_nil, or_false] at hcat
  obtain hc | hc | hc | hc := hcat <;> simp [hc]

/-- The add-ons' and runtimes' findings are an entry's about some installs. -/
theorem mem_evalAddOns (h : f ∈ evalAddOns X k target now inv) :
    ∃ a ∈ k.addOns, ∃ lc ins node, f ∈ addOnFindings X a target now lc ins node := by
  unfold evalAddOns at h
  rcases List.mem_append.mp h with h | h
  · obtain ⟨id, -, hf⟩ := List.mem_flatMap.mp h
    split at hf
    · simp at hf
    · rename_i a ha
      exact ⟨a, List.mem_reverse.mp (List.mem_of_find?_eq_some ha), _, _, _, hf⟩
  · obtain ⟨a, ha, hf⟩ := List.mem_flatMap.mp h
    split at hf
    · simp at hf
    · exact ⟨a, ha, _, _, _, hf⟩

/-- What a release's findings are named by. -/
theorem releaseFindings_key {rel : HelmRelease} (h : f ∈ releaseFindings X k target inv rel) :
    f.category ∈ [Category.chartIncompat, .removedAPI, .deprecatedAPI] ∧ f.key = helmKey f.category rel := by
  unfold releaseFindings at h
  split at h
  · simp at h
  obtain ⟨g, hg, rfl⟩ := List.mem_map.mp h
  suffices hkey : g.category ∈ [Category.chartIncompat, .removedAPI, .deprecatedAPI] ∧
      g.key = helmKey g.category rel from hkey
  have hbucket : ∀ (rows : List ManifestRow) (cat : Category) (sev : Severity),
      g ∈ (bucketFinding k target rel rows cat sev).toList → g.category = cat ∧ g.key = helmKey cat rel := by
    intro rows cat sev hb
    have hb := Option.mem_toList.mp hb
    unfold bucketFinding at hb
    split at hb
    · simp at hb
    · obtain rfl := Option.some.inj hb
      exact ⟨rfl, rfl⟩
  rcases List.mem_append.mp hg with hg | hg
  · have hg := Option.mem_toList.mp hg
    unfold evalChartKubeVersion at hg
    dsimp only at hg
    split at hg
    · simp at hg
    · split at hg
      · obtain rfl := Option.some.inj hg
        exact ⟨by simp, rfl⟩
      · split at hg
        · simp at hg
        · obtain rfl := Option.some.inj hg
          exact ⟨by simp, rfl⟩
  · unfold evalHelmManifest at hg
    rcases List.mem_append.mp hg with hg | hg
    · obtain ⟨hcat, hkey⟩ := hbucket _ _ _ hg
      rw [hcat, hkey]
      exact ⟨by simp, rfl⟩
    · obtain ⟨hcat, hkey⟩ := hbucket _ _ _ hg
      rw [hcat, hkey]
      exact ⟨by simp, rfl⟩

/-- A release's key, its category apart. -/
theorem helmKey_eq (cat : Category) (rel : HelmRelease) :
    helmKey cat rel = cat.name ++ "/" ++ ("helm-release" ++ "/" ++ (rel.namespace ++ "/" ++ rel.name)) := by
  have hmark : "/helm-release/" = "/" ++ "helm-release" ++ "/" := by decide
  unfold helmKey
  rw [hmark]
  simp only [String.append_assoc]

/-- The versions of a CRD that findings are about, with the mark of their keys. -/
def CRD.marked (c : CRD) : List (String × List String) :=
  [("deprecated", (c.versions.filter fun v => v.served && v.deprecated).map (·.name)),
    ("unserved", (c.usage.filter fun u => u.count ≠ 0 && !c.serves u.version).map (·.version)),
    ("stored-unserved", c.storedVersions.filter fun s => s ≠ c.storageVersion && !c.serves s)]

/-- The key of a finding about a CRD's version. -/
def crdKey (c : CRD) (mark version : String) : String :=
  Category.crdVersion.name ++ "/" ++ (mark ++ "/" ++ apiKey c.group version c.kind)

/-- The keys of the findings about a CRD. -/
theorem map_key_crdFindings (c : CRD) :
    (crdFindings X inv target c).map (·.key) = c.marked.flatMap fun m => m.2.map (crdKey c m.1) := by
  have hmark : ∀ (mark : String) (version : String), Category.crdVersion.name ++ ("/" ++ mark ++ "/") ++
      apiKey c.group version c.kind = crdKey c mark version := by
    intro mark version
    simp only [crdKey, String.append_assoc]
  unfold crdFindings CRD.marked
  simp only [List.map_append, List.map_map, List.flatMap_cons, List.flatMap_nil, List.append_nil, List.append_assoc]
  refine congrArg₂ _ (List.map_congr_left fun v _ => ?_) (congrArg₂ _ (List.map_congr_left fun u _ => ?_)
    (List.map_congr_left fun s _ => ?_))
  · rw [Function.comp_apply, Function.comp_apply, ← hmark]
    unfold deprecatedVersionFinding
    dsimp only
    split <;> rfl
  · rw [Function.comp_apply, Function.comp_apply, ← hmark]
    rfl
  · rw [Function.comp_apply, ← hmark]
    rfl

/-- The category of the findings about a CRD. -/
theorem crdFindings_category {c : CRD} (h : f ∈ crdFindings X inv target c) : f.category = .crdVersion := by
  unfold crdFindings at h
  simp only [List.mem_append] at h
  obtain (h | h) | h := h <;> obtain ⟨v, -, rfl⟩ := List.mem_map.mp h
  · unfold deprecatedVersionFinding
    dsimp only
    split <;> rfl
  · rfl
  · rfl

/-- The key of a CRD's finding is that of a version the CRD is marked for. -/
theorem exists_crdKey {c : CRD} (h : f ∈ crdFindings X inv target c) :
    ∃ m ∈ c.marked, ∃ version ∈ m.2, f.key = crdKey c m.1 version := by
  have hkey : f.key ∈ (crdFindings X inv target c).map (·.key) := List.mem_map_of_mem h
  rw [map_key_crdFindings] at hkey
  obtain ⟨m, hm, hkey⟩ := List.mem_flatMap.mp hkey
  obtain ⟨version, hversion, hkey⟩ := List.mem_map.mp hkey
  exact ⟨m, hm, version, hversion, hkey.symm⟩

/-- The finding about a volume plugin. -/
theorem volumeFinding_key {u : VolumePluginUse} (h : volumeFinding k target src nsInfo u = some f) :
    f.category = .volumePlugin ∧ f.key = Category.volumePlugin.name ++ "/" ++ u.plugin := by
  unfold volumeFinding at h
  split at h
  · simp at h
  · obtain ⟨p, -, rfl⟩ := Option.map_eq_some_iff.mp h
    exact ⟨rfl, rfl⟩

/-- The skew policy's findings are keyed. -/
theorem keyed_skewFinding (sev : Severity) (key title detail citation : String) :
    (skewFinding sev key title detail citation).Keyed :=
  .of_tail (by simp [skewFinding]) key rfl

/-- The kubelets' findings are the skew policy's. -/
theorem skewFinding_of_evalSkew (h : f ∈ evalSkew X inv k target) :
    ∃ sev key title detail citation, f = skewFinding sev key title detail citation := by
  unfold evalSkew at h
  split at h
  · simp at h
  · simp only [List.mem_append] at h
    obtain ((h | h) | h) | h := h <;> rw [eq_of_mem_unless h] <;> exact ⟨_, _, _, _, _, rfl⟩

/-- The components' findings are the skew policy's. -/
theorem skewFinding_of_evalControlPlaneSkew (h : f ∈ evalControlPlaneSkew X inv k target) :
    ∃ sev key title detail citation, f = skewFinding sev key title detail citation := by
  unfold evalControlPlaneSkew at h
  split at h
  · simp at h
  simp only [List.mem_append] at h
  obtain (h | h) | h := h
  · rw [eq_of_mem_unless h]
    exact ⟨_, _, _, _, _, rfl⟩
  · unfold haSpreadFinding at h
    split at h
    · dsimp only at h
      split at h
      · exact ⟨_, _, _, _, _, List.mem_singleton.mp h⟩
      · simp at h
    · simp at h
  · split at h
    · simp at h
    · obtain ⟨rule, -, h⟩ := List.mem_flatMap.mp h
      rcases List.mem_append.mp h with h | h
      · rw [eq_of_mem_unless h]
        exact ⟨_, _, _, _, _, rfl⟩
      · rw [eq_of_mem_unless h]
        exact ⟨_, _, _, _, _, rfl⟩

/-- Every finding of an evaluation is keyed. -/
theorem keyed_of_mem_foundFindings {fuel : ℕ} {found : List Finding}
    (h : foundFindings fuel X inv k target now = some found) : ∀ f ∈ found, f.Keyed := by
  intro f hf
  obtain ⟨fs, hfs, rfl⟩ := Option.map_eq_some_iff.mp h
  rcases List.mem_append.mp hf with hf | hf
  · exact keyed_folded hf
  obtain ⟨g, hg, rfl⟩ := List.mem_map.mp hf
  -- Capping the namespaces touches neither the category nor the key.
  refine Finding.Keyed.congr ?_ (capNamespaces_category g) (capNamespaces_key g)
  obtain ⟨gs, hgs, hg⟩ := (mem_collect hfs).mp hg
  unfold checks at hgs
  simp only [List.mem_cons, List.not_mem_nil, or_false, Option.some.injEq] at hgs
  -- One case for each check, in the order they run.
  obtain rfl | rfl | rfl | rfl | rfl | rfl | rfl | rfl | hpath | rfl | rfl | rfl := hgs
  · obtain ⟨u, -, hu⟩ := List.mem_filterMap.mp hg
    exact keyed_authorship hu
  · obtain ⟨a, -, lc, ins, node, hf⟩ := mem_evalAddOns hg
    exact keyed_addOnFindings hf
  · obtain ⟨r, -, rfl⟩ := mem_evalUncoveredRuntimes hg
    exact .of_tail (by simp [uncoveredFinding]) r.1 rfl
  · obtain ⟨rel, -, hrel⟩ := List.mem_flatMap.mp hg
    obtain ⟨hcat, hkey⟩ := releaseFindings_key hrel
    simp only [List.mem_cons, List.not_mem_nil, or_false] at hcat
    exact .of_tail (by obtain hc | hc | hc := hcat <;> simp [hc]) _ (hkey.trans (helmKey_eq _ rel))
  · obtain ⟨sev, key, title, detail, citation, rfl⟩ := skewFinding_of_evalSkew hg
    exact keyed_skewFinding ..
  · obtain ⟨sev, key, title, detail, citation, rfl⟩ := skewFinding_of_evalControlPlaneSkew hg
    exact keyed_skewFinding ..
  · obtain ⟨g, -, rfl⟩ := List.mem_map.mp hg
    exact keyed_skewFinding ..
  · rw [eq_of_mem_unless hg]
    rfl
  · obtain rfl | ⟨title, detail, rfl⟩ := evalUpgradePath_eq_some hpath.symm
    · simp at hg
    · obtain rfl := List.mem_singleton.mp hg
      exact keyed_skewFinding ..
  · obtain ⟨id, server, phase, sev, title, detail, remediation, citations, rfl⟩ := mem_evalSupport hg
    refine .of_tail (by simp) (id ++ "/" ++ server ++ "/" ++ phase.name) ?_
    simp only [supportKey, String.append_assoc]
  · obtain ⟨c, -, hf⟩ := List.mem_flatMap.mp hg
    obtain ⟨m, -, version, -, hkey⟩ := exists_crdKey hf
    have hcat := crdFindings_category hf
    exact .of_tail (by simp [hcat]) _ (by rw [hcat]; exact hkey)
  · obtain ⟨u, -, hu⟩ := List.mem_filterMap.mp hg
    obtain ⟨hcat, hkey⟩ := volumeFinding_key hu
    exact .of_tail (by simp [hcat]) _ (by rw [hcat]; exact hkey)

end Keyed

/-! ## The keys of a family -/

section Families

variable {X : External} {k : KB} {target : Version} {now : Time} {inv : Inventory}

variable {a : AddOn} {c : CRD} {f : Finding} {m : String × List String} {ins : List AddOnInstall} {rel : HelmRelease}
  {version : String}

/-- The family of the findings about an add-on's installs. -/
theorem familyOf_addOnFindings (ha : PlainEntry a) {lc node : Bool} (h : f ∈ addOnFindings X a target now lc ins node) :
    familyOf f.key = .addOns := by
  obtain ⟨hcat, line, hsegs⟩ := split_addOnFindings ha h
  have hlength : (a.id :: lineSegments line).length ≠ 3 := by
    unfold lineSegments
    split_ifs <;> simp
  unfold familyOf
  rw [hsegs]
  simp only [List.mem_cons, List.not_mem_nil, or_false] at hcat
  obtain hc | hc | hc | hc := hcat <;> rw [hc]
  · rfl
  · rfl
  · show (if (a.id :: lineSegments line).length = 3 then KeyFamily.helm else .addOns) = _
    rw [if_neg hlength]
  · rfl

/-- The entry that the registry has for an id is one of its add-ons, with that id. -/
theorem registryEntry_spec {id : String} (h : registryEntry k id = some a) : a ∈ k.addOns ∧ a.id = id :=
  ⟨List.mem_reverse.mp (List.mem_of_find?_eq_some h), by simpa using List.find?_some h⟩

/-- The entry that a key names. -/
def keyEntry (key : String) : String := (split key '/').getD 1 ""

/-- The findings about an entry's installs name the entry. -/
theorem keyEntry_addOnFindings (ha : PlainEntry a) {lc node : Bool} (h : f ∈ addOnFindings X a target now lc ins node) :
    keyEntry f.key = a.id := by
  obtain ⟨-, line, hsegs⟩ := split_addOnFindings ha h
  unfold keyEntry
  rw [hsegs]
  rfl

/-- The keys of the add-ons' and the runtimes' findings. -/
theorem nodup_addOns (hd : DistinctRows k inv) (hp : PlainKeys k inv) :
    ((evalAddOns X k target now inv ++ evalUncoveredRuntimes k inv).map (·.key)).Nodup := by
  have hof : ∀ a ∈ k.addOns, ∀ (ins : List AddOnInstall) (lc node : Bool),
      ∀ key ∈ (addOnFindings X a target now lc ins node).map (·.key), keyEntry key = a.id := by
    intro a ha ins lc node key hkey
    obtain ⟨f, hf, rfl⟩ := List.mem_map.mp hkey
    exact keyEntry_addOnFindings (hp.addOns a ha) hf
  have huncovered : (evalUncoveredRuntimes k inv).map (·.key) =
      if k.addOns = [] then [] else (uncoveredRuntimes k inv).map fun g => Category.addOnNoData.name ++ "/" ++ g.1 := by
    unfold evalUncoveredRuntimes
    split_ifs
    · rfl
    · rw [List.map_map]
      rfl
  unfold evalAddOns
  rw [List.map_append, List.map_append, List.map_flatMap, huncovered]
  refine List.Nodup.append (List.Nodup.append ?_ ?_ ?_) ?_ ?_
  · -- The detected add-ons, each once.
    refine nodup_flatMap_of_class keyEntry id ?_ ?_ ?_
    · simpa using nodup_distinctOn id (inv.addOns.map (·.id))
    · intro id _ key hkey
      split at hkey
      · simp at hkey
      · rename_i a ha
        obtain ⟨hmem, rfl⟩ := registryEntry_spec ha
        exact hof a hmem _ _ _ key hkey
    · intro id _
      split
      · exact List.nodup_nil
      · rename_i a ha
        exact nodup_addOnFindings (hp.addOns a (registryEntry_spec ha).1) _ _ _
  · -- The entries with runtimes.
    unfold evalNodeRuntimes
    rw [List.map_flatMap]
    refine nodup_flatMap_of_class keyEntry (·.id) hd.addOns ?_ ?_
    · intro a ha key hkey
      split at hkey
      · simp at hkey
      · exact hof a ha _ _ _ key hkey
    · intro a ha
      split
      · exact List.nodup_nil
      · exact nodup_addOnFindings (hp.addOns a ha) _ _ _
  · -- No entry is both detected and a runtime.
    intro key h h'
    obtain ⟨id, hid, hkey⟩ := List.mem_flatMap.mp h
    have hdetected : id ∈ inv.addOns.map (·.id) := mem_of_mem_distinctOn hid
    split at hkey
    · simp at hkey
    rename_i a ha
    obtain ⟨hmem, rfl⟩ := registryEntry_spec ha
    unfold evalNodeRuntimes at h'
    rw [List.map_flatMap] at h'
    obtain ⟨b, hb, hkey'⟩ := List.mem_flatMap.mp h'
    split at hkey'
    · simp at hkey'
    rename_i hruntimes
    have hids : a.id = b.id := (hof a hmem _ _ _ key hkey).symm.trans (hof b hb _ _ _ key hkey')
    exact hruntimes (.inr (hd.runtimes b hb (hids ▸ hdetected)))
  · -- The runtimes without an entry.
    split_ifs
    · exact List.nodup_nil
    · have hnames : ((uncoveredRuntimes k inv).map (·.1)).Nodup := by
        unfold uncoveredRuntimes groupOn
        rw [List.map_map]
        exact (List.map_id _).symm ▸ nodup_sortedSet _
      rw [show (fun g : String × List (String × AddOnInstall) => Category.addOnNoData.name ++ "/" ++ g.1) =
        (Category.addOnNoData.name ++ "/" ++ ·) ∘ (·.1) from rfl, ← List.map_map]
      exact hnames.map fun _ _ => (String.append_right_inj _).mp
  · -- Such a runtime is not called like an entry.
    intro key h h'
    split_ifs at h'
    · simp at h'
    obtain ⟨g, hg, rfl⟩ := List.mem_map.mp h'
    have hname : keyEntry (Category.addOnNoData.name ++ "/" ++ g.1) = g.1 := by
      unfold keyEntry
      rw [split_category (by decide), split_last (hp.uncovered g hg)]
      rfl
    refine hd.uncovered g hg ?_
    rw [← hname]
    rcases List.mem_append.mp h with h | h
    · obtain ⟨id, -, hkey⟩ := List.mem_flatMap.mp h
      split at hkey
      · simp at hkey
      · rename_i a ha
        rw [hof a (registryEntry_spec ha).1 _ _ _ _ hkey]
        exact List.mem_map_of_mem (registryEntry_spec ha).1
    · unfold evalNodeRuntimes at h
      rw [List.map_flatMap] at h
      obtain ⟨a, ha, hkey⟩ := List.mem_flatMap.mp h
      split at hkey
      · simp at hkey
      · rw [hof a ha _ _ _ _ hkey]
        exact List.mem_map_of_mem ha

/-- The segments of the keys of a release's findings. -/
theorem split_helmKey (h : '/' ∉ rel.namespace.toList ∧ '/' ∉ rel.name.toList) {cat : Category}
    (hcat : cat ∈ [Category.chartIncompat, .removedAPI, .deprecatedAPI]) :
    split (helmKey cat rel) '/' = [cat.name, "helm-release", rel.namespace, rel.name] := by
  have hslash : '/' ∉ cat.name.toList := by
    simp only [List.mem_cons, List.not_mem_nil, or_false] at hcat
    obtain rfl | rfl | rfl := hcat <;> decide
  rw [helmKey_eq, split_category hslash, String.append_assoc, split_segment (by decide), String.append_assoc,
    split_segment h.1, split_last h.2]

/-- The family of a release's findings. -/
theorem familyOf_releaseFindings (hrel : '/' ∉ rel.namespace.toList ∧ '/' ∉ rel.name.toList)
    (h : f ∈ releaseFindings X k target inv rel) : familyOf f.key = .helm := by
  obtain ⟨hcat, hkey⟩ := releaseFindings_key h
  unfold familyOf
  rw [hkey, split_helmKey hrel hcat]
  simp only [List.mem_cons, List.not_mem_nil, or_false] at hcat
  obtain hc | hc | hc := hcat <;> rw [hc] <;> rfl

/-- The findings of a release differ in category. -/
theorem nodup_releaseFindings_category (rel : HelmRelease) :
    ((releaseFindings X k target inv rel).map (·.category)).Nodup := by
  unfold releaseFindings
  split
  · exact List.nodup_nil
  rw [List.map_map]
  show (((evalChartKubeVersion X target rel).toList ++ evalHelmManifest k target inv.apiUsage rel).map
    fun f : Finding => f.category).Nodup
  have hchart : ∀ f, evalChartKubeVersion X target rel = some f → f.category = .chartIncompat := by
    intro f hf
    unfold evalChartKubeVersion at hf
    dsimp only at hf
    split at hf
    · simp at hf
    · split at hf
      · rw [← Option.some.inj hf]
      · split at hf
        · simp at hf
        · rw [← Option.some.inj hf]
  have hbucket : ∀ (rows : List ManifestRow) (cat : Category) (sev : Severity) (f : Finding),
      bucketFinding k target rel rows cat sev = some f → f.category = cat := by
    intro rows cat sev f hf
    unfold bucketFinding at hf
    split at hf
    · simp at hf
    · rw [← Option.some.inj hf]
  unfold evalHelmManifest
  dsimp only
  rw [List.map_append, List.map_append]
  have hoption : ∀ (o : Option Finding) (cat : Category), (∀ f, o = some f → f.category = cat) →
      (o.toList.map (·.category)).Sublist [cat] := by
    intro o cat ho
    cases o with
    | none => exact List.nil_sublist _
    | some f => simp [ho f rfl]
  have hsub := (hoption _ _ hchart).append
    ((hoption _ _ (hbucket ((manifestRows k target inv.apiUsage rel).filter fun r => removedAt target r.entry)
      .removedAPI .blocker)).append
      (hoption _ _ (hbucket ((manifestRows k target inv.apiUsage rel).filter fun r => !removedAt target r.entry)
        .deprecatedAPI .warning)))
  exact List.Nodup.sublist hsub (by decide)

/-- The keys of the releases' findings are told apart. -/
theorem nodup_helm (hd : (inv.helmReleases.map fun r => (r.namespace, r.name)).Nodup)
    (hp : ∀ r ∈ inv.helmReleases, '/' ∉ r.namespace.toList ∧ '/' ∉ r.name.toList) :
    ((evalHelmReleases X k target inv).map (·.key)).Nodup := by
  unfold evalHelmReleases
  rw [List.map_flatMap]
  refine nodup_flatMap_of_class (fun key => ((split key '/').getD 2 "", (split key '/').getD 3 "")) _ hd ?_ ?_
  · intro rel hrel key hkey
    obtain ⟨f, hf, rfl⟩ := List.mem_map.mp hkey
    obtain ⟨hcat, hfkey⟩ := releaseFindings_key hf
    rw [hfkey, split_helmKey (hp rel hrel) hcat]
    rfl
  · intro rel hrel
    have hkeys : (releaseFindings X k target inv rel).map (·.key) =
        ((releaseFindings X k target inv rel).map (·.category)).map (helmKey · rel) := by
      rw [List.map_map]
      exact List.map_congr_left fun f hf => (releaseFindings_key hf).2
    rw [hkeys]
    refine (List.nodup_map_iff_inj_on (nodup_releaseFindings_category rel)).mpr fun cat hcat cat' hcat' heq => ?_
    obtain ⟨f, hf, rfl⟩ := List.mem_map.mp hcat
    obtain ⟨f', hf', rfl⟩ := List.mem_map.mp hcat'
    have hc := (releaseFindings_key hf).1
    have hc' := (releaseFindings_key hf').1
    have hsegs := split_helmKey (hp rel hrel) hc
    rw [heq, split_helmKey (hp rel hrel) hc'] at hsegs
    have hname := (List.cons.inj hsegs).1
    simp only [List.mem_cons, List.not_mem_nil, or_false] at hc hc'
    obtain hc | hc | hc := hc <;> obtain hc' | hc' | hc' := hc' <;> rw [hc, hc'] at hname ⊢ <;>
      exact absurd hname (by decide)

/-- The key of a finding of the skew policy. -/
def skewKey (name : String) : String := Category.versionSkew.name ++ "/" ++ name

/-- The names of the components' findings. -/
def componentKeys : List String :=
  ["kube-proxy-post-upgrade", "apiserver-ha-spread", "kube-controller-manager-newer", "kube-controller-manager-behind",
    "kube-scheduler-newer", "kube-scheduler-behind", "kube-proxy-newer", "kube-proxy-behind"]

/-- What is found under a condition has no other key. -/
theorem map_key_unless_sublist {c : Prop} [Decidable c] (g : Finding) :
    ((if c then [] else [g]).map (·.key)).Sublist [g.key] := by
  split_ifs
  · exact List.nil_sublist _
  · exact List.Sublist.refl _

/-- The keys of the kubelets' findings are some of the kubelet keys, in order. -/
theorem evalSkew_sublist :
    ((evalSkew X inv k target).map (·.key)).Sublist (kubeletKeys.map skewKey) := by
  unfold evalSkew
  split
  · exact List.nil_sublist _
  · dsimp only
    rw [List.map_append, List.map_append, List.map_append]
    exact ((map_key_unless_sublist _).append ((map_key_unless_sublist _))).append (map_key_unless_sublist _)
      |>.append (map_key_unless_sublist _)

/-- The keys of one component's findings are some of its two, in order. -/
theorem componentFindings_sublist (oldest newest : Version) (rule : ComponentRule) :
    ((componentFindings X inv oldest newest rule).map (·.key)).Sublist
      [skewKey (rule.component ++ "-newer"), skewKey (rule.component ++ "-behind")] := by
  unfold componentFindings
  dsimp only
  rw [List.map_append]
  exact (map_key_unless_sublist _).append (map_key_unless_sublist _)

/-- The keys of the components' findings are some of the component keys, in order. -/
theorem evalControlPlaneSkew_sublist :
    ((evalControlPlaneSkew X inv k target).map (·.key)).Sublist (componentKeys.map skewKey) := by
  unfold evalControlPlaneSkew
  split
  · exact List.nil_sublist _
  dsimp only
  rw [List.map_append, List.map_append]
  have hspread : ((haSpreadFinding (componentVersions X inv "kube-apiserver") k).map (·.key)).Sublist
      [skewKey "apiserver-ha-spread"] := by
    unfold haSpreadFinding
    split
    · dsimp only
      split
      · exact List.Sublist.refl _
      · exact List.nil_sublist _
    · exact List.nil_sublist _
  have hpost : ((proxyPostFinding X inv k target).map (·.key)).Sublist [skewKey "kube-proxy-post-upgrade"] :=
    map_key_unless_sublist _
  refine (hpost.append hspread).append (?_ : List.Sublist _ ((componentKeys.drop 2).map skewKey))
  split
  · exact List.nil_sublist _
  · rename_i oldest rest _
    unfold componentRules
    simp only [List.flatMap_cons, List.flatMap_nil, List.map_append, List.append_nil]
    exact (componentFindings_sublist ..).append ((componentFindings_sublist ..).append (componentFindings_sublist ..))

/-- The keys of the findings about kube-proxies beside their kubelets. -/
theorem nodup_proxies : ((evalKubeProxyKubeletSkew X inv k).map (·.key)).Nodup := by
  unfold evalKubeProxyKubeletSkew groupOn
  rw [List.map_map, List.map_map]
  exact (nodup_sortedSet _).map fun node node' h =>
    (String.append_right_inj _).mp ((String.append_right_inj _).mp h)

/-- The segments of a key of the skew policy. -/
theorem split_skewKey (name : String) : split (skewKey name) '/' = "version-skew" :: split name '/' :=
  split_category (by decide) name

/-- The marked versions of a CRD are its own. -/
theorem mem_of_mem_marked (h : m ∈ c.marked) (hv : version ∈ m.2) :
    version ∈ c.versions.map (·.name) ++ c.usage.map (·.version) ++ c.storedVersions := by
  simp only [List.mem_append]
  simp only [CRD.marked, List.mem_cons, List.not_mem_nil, or_false] at h
  obtain rfl | rfl | rfl := h
  · exact .inl (.inl ((List.filter_sublist.map _).subset hv))
  · exact .inl (.inr ((List.filter_sublist.map _).subset hv))
  · exact .inr (List.mem_filter.mp hv).1

/-- The versions of a mark have no repetition. -/
theorem nodup_of_mem_marked (hd : DistinctRows k inv) (hc : c ∈ inv.crds) (h : m ∈ c.marked) : m.2.Nodup := by
  simp only [CRD.marked, List.mem_cons, List.not_mem_nil, or_false] at h
  obtain rfl | rfl | rfl := h
  · exact (hd.crdVersions c hc).sublist (List.filter_sublist.map _)
  · exact (hd.crdUsage c hc).sublist (List.filter_sublist.map _)
  · exact (hd.crdStored c hc).sublist List.filter_sublist

/-- The segments of the keys of the findings about a CRD's versions. -/
theorem split_crdKey (hp : PlainKeys k inv) (hc : c ∈ inv.crds) (h : m ∈ c.marked) (hv : version ∈ m.2) :
    split (crdKey c m.1 version) '/' = ["crd-version", m.1, keyGroup c.group, version, c.kind] := by
  have hmark : '/' ∉ m.1.toList := by
    simp only [CRD.marked, List.mem_cons, List.not_mem_nil, or_false] at h
    obtain rfl | rfl | rfl := h <;> dsimp only <;> decide
  have hversion := hp.crdVersions c hc version (mem_of_mem_marked h hv)
  unfold crdKey
  rw [split_category (by decide), String.append_assoc, split_segment hmark,
    split_apiKey (hp.crds c hc).1 hversion (hp.crds c hc).2.1]
  rfl

/-- The keys of the findings about the versions of the CRDs. -/
theorem nodup_crds (hd : DistinctRows k inv) (hp : PlainKeys k inv) :
    ((evalCRDVersions X inv target).map (·.key)).Nodup := by
  unfold evalCRDVersions
  rw [List.map_flatMap]
  refine nodup_flatMap_of_class (fun key => ((split key '/').getD 2 "", (split key '/').getD 4 ""))
    (fun c => (keyGroup c.group, c.kind)) ?_ ?_ ?_
  · refine (List.nodup_map_iff_inj_on hd.crds.of_map).mpr fun c hc c' hc' heq => ?_
    obtain ⟨hgroup, hkind⟩ := Prod.mk.inj heq
    refine List.inj_on_of_nodup_map hd.crds hc hc' ?_
    rw [keyGroup_inj (hp.crds c hc).2.2 (hp.crds c' hc').2.2 hgroup, hkind]
  · intro c hc key hkey
    obtain ⟨f, hf, rfl⟩ := List.mem_map.mp hkey
    obtain ⟨m, hm, version, hversion, hkey⟩ := exists_crdKey hf
    rw [hkey, split_crdKey hp hc hm hversion]
    rfl
  · intro c hc
    rw [map_key_crdFindings]
    -- The marks tell the three lists apart, the versions the keys of one list.
    refine nodup_flatMap_of_class (fun key => (split key '/').getD 1 "") (·.1)
      (by simp [CRD.marked]) ?_ ?_
    · intro m hm key hkey
      obtain ⟨version, hversion, rfl⟩ := List.mem_map.mp hkey
      rw [split_crdKey hp hc hm hversion]
      rfl
    · intro m hm
      refine (List.nodup_map_iff_inj_on (nodup_of_mem_marked hd hc hm)).mpr fun v hv v' hv' heq => ?_
      have hsegs := split_crdKey hp hc hm hv
      rw [heq, split_crdKey hp hc hm hv'] at hsegs
      simpa using hsegs.symm

/-- The keys of the findings about volume plugins. -/
theorem nodup_volumes (hd : (inv.volumePlugins.map (·.plugin)).Nodup) :
    ((evalVolumePlugins k target inv).map (·.key)).Nodup := by
  unfold evalVolumePlugins
  rw [List.map_filterMap]
  refine nodup_filterMap_of_key hd fun u _ u' _ key h h' => ?_
  obtain ⟨f, hf, rfl⟩ := Option.map_eq_some_iff.mp h
  obtain ⟨f', hf', heq⟩ := Option.map_eq_some_iff.mp h'
  rw [(volumeFinding_key hf).2, (volumeFinding_key hf').2] at heq
  exact ((String.append_right_inj _).mp heq).symm

/-- The loop over the upgrade path finds at most one thing. -/
theorem evalUpgradePath_key {fuel : ℕ} {fs : List Finding} (h : evalUpgradePath X fuel inv target = some fs) :
    (fs.map (·.key)).Sublist (["upgrade-path"].map skewKey) := by
  obtain rfl | ⟨title, detail, rfl⟩ := evalUpgradePath_eq_some h
  · exact List.nil_sublist _
  · exact List.Sublist.refl _

/-- The calendar's finding, if there is one. -/
theorem evalSupport_key :
    ((evalSupport X inv k now).2.map (·.key)).Nodup ∧
      ∀ f ∈ (evalSupport X inv k now).2, ∃ tail, f.key = Category.supportLifecycle.name ++ "/" ++ tail := by
  constructor
  · unfold evalSupport
    split
    · simp
    · dsimp only
      cases supportText _ _ _ _ _ <;> simp
  · intro f hf
    obtain ⟨id, server, phase, sev, title, detail, remediation, citations, rfl⟩ := mem_evalSupport hf
    refine ⟨id ++ "/" ++ server ++ "/" ++ phase.name, ?_⟩
    simp only [supportKey, String.append_assoc]

end Families

/-! ## The keys of an evaluation -/

section Evaluation

variable {X : External} {k : KB} {target : Version} {now : Time} {inv : Inventory}

/-- The keys of an evaluation by family, the upgrade path's given. -/
def familyKeys (X : External) (k : KB) (target : Version) (now : Time) (inv : Inventory) (path : List Finding) :
    List (KeyFamily × List String) :=
  [(.usage, (evalAPIUsage k target inv).map (·.key)),
    (.callers, ((placedCalls X inv ((evalAPIUsage k target inv).map capNamespaces)
      (evalDeprecatedCalls X inv k target)).filter fun r => r.2 = none).map fun r => r.1.2.key),
    (.authorship, (evalAuthorshipUnknown k inv).map (·.key)),
    (.addOns, (evalAddOns X k target now inv ++ evalUncoveredRuntimes k inv).map (·.key)),
    (.helm, (evalHelmReleases X k target inv).map (·.key)),
    (.kubelets, (evalSkew X inv k target).map (·.key)),
    (.components, (evalControlPlaneSkew X inv k target).map (·.key)),
    (.proxies, (evalKubeProxyKubeletSkew X inv k).map (·.key)),
    (.staleKB, (evalKBStale X inv k target).map (·.key)),
    (.path, path.map (·.key)),
    (.support, (evalSupport X inv k now).2.map (·.key)),
    (.crds, (evalCRDVersions X inv target).map (·.key)),
    (.volumes, (evalVolumePlugins k target inv).map (·.key))]

/-- The keys of an evaluation are those of the families. -/
theorem map_key_foundFindings {fuel : ℕ} {found : List Finding}
    (h : foundFindings fuel X inv k target now = some found) :
    ∃ path, evalUpgradePath X fuel inv target = some path ∧
      found.map (·.key) = (familyKeys X k target now inv path).flatMap (·.2) := by
  obtain ⟨fs, hfs, rfl⟩ := Option.map_eq_some_iff.mp h
  unfold checks at hfs
  cases hpath : evalUpgradePath X fuel inv target with
  | none => simp [collect, hpath] at hfs
  | some path =>
    refine ⟨path, rfl, ?_⟩
    rw [hpath] at hfs
    simp only [collect, Option.bind_some, Option.map_some, Option.some.injEq] at hfs
    have hcap : ∀ l : List Finding, (l.map capNamespaces).map (·.key) = l.map (·.key) := by
      intro l
      rw [List.map_map]
      exact List.map_congr_left fun f _ => capNamespaces_key f
    unfold foldedFindings familyKeys
    rw [List.map_append, map_key_foldDeprecatedCalls, hcap, hcap, ← hfs]
    simp only [List.flatMap_cons, List.flatMap_nil, List.map_append, List.append_assoc, List.append_nil]

/-- Each family's keys are told apart, and are of the family. -/
theorem familyKeys_spec (hd : DistinctRows k inv) (hp : PlainKeys k inv) {fuel : ℕ} {path : List Finding}
    (hpath : evalUpgradePath X fuel inv target = some path) :
    ∀ m ∈ familyKeys X k target now inv path, m.2.Nodup ∧ ∀ key ∈ m.2, familyOf key = m.1 := by
  -- The skew checks have fixed names, so for three of the families both parts are decided on the names.
  have hskew : ∀ {keys names : List String}, keys.Sublist (names.map skewKey) → ∀ fam : KeyFamily,
      (names.map skewKey).Nodup → (∀ n ∈ names, familyOf (skewKey n) = fam) →
      keys.Nodup ∧ ∀ key ∈ keys, familyOf key = fam := by
    intro keys names hsub fam hnodup hfam
    refine ⟨hnodup.sublist hsub, fun key hkey => ?_⟩
    obtain ⟨n, hn, rfl⟩ := List.mem_map.mp (hsub.subset hkey)
    exact hfam n hn
  intro m hm
  unfold familyKeys at hm
  simp only [List.mem_cons, List.not_mem_nil, or_false] at hm
  -- One case for each family, in the order of the report.
  obtain rfl | rfl | rfl | rfl | rfl | rfl | rfl | rfl | rfl | rfl | rfl | rfl | rfl := hm
  · refine ⟨nodup_usage hd.usage fun u hu => (hp.usage u (List.mem_append_left _ hu)).1, fun key hkey => ?_⟩
    obtain ⟨f, hf, rfl⟩ := List.mem_map.mp hkey
    obtain ⟨u, hu, hf⟩ := List.mem_filterMap.mp hf
    obtain ⟨hplain, hrelease⟩ := hp.usage u (List.mem_append_left _ hu)
    exact familyOf_usage hf hplain hrelease
  · have hcalls : (placedCalls X inv ((evalAPIUsage k target inv).map capNamespaces)
        (evalDeprecatedCalls X inv k target)).map (fun r => r.1.2.key) =
          (evalDeprecatedCalls X inv k target).map fun r => r.2.key := by
      unfold placedCalls
      rw [List.map_map]
      rfl
    -- The calls that stay are some of those placed: folding takes rows away and makes no key.
    refine ⟨(hcalls ▸ nodup_calls hd.calls hp.calls).sublist (List.filter_sublist.map _), fun key hkey => ?_⟩
    obtain ⟨row, hrow, rfl⟩ := List.mem_map.mp (hcalls ▸ (List.filter_sublist.map _).subset hkey)
    obtain ⟨c, hc, rfl⟩ := List.mem_map.mp hrow
    have hplain := hp.calls c (List.mem_filter.mp (mem_sortOn.mp hc)).1
    show keyFamily (split (callKey c) '/') = _
    rw [split_callKey hplain]
    rfl
  · refine ⟨nodup_authorship hd.unknown fun u hu => (hp.usage u (List.mem_append_right _ hu)).1, fun key hkey => ?_⟩
    obtain ⟨f, hf, rfl⟩ := List.mem_map.mp hkey
    obtain ⟨u, hu, hf⟩ := List.mem_filterMap.mp hf
    obtain ⟨hplain, hrelease⟩ := hp.usage u (List.mem_append_right _ hu)
    exact familyOf_authorship hf hplain hrelease
  · refine ⟨nodup_addOns hd hp, fun key hkey => ?_⟩
    obtain ⟨f, hf, rfl⟩ := List.mem_map.mp hkey
    rcases List.mem_append.mp hf with hf | hf
    · obtain ⟨a, ha, lc, ins, node, hf⟩ := mem_evalAddOns hf
      exact familyOf_addOnFindings (hp.addOns a ha) hf
    · obtain ⟨g, -, rfl⟩ := mem_evalUncoveredRuntimes hf
      show keyFamily (split (Category.addOnNoData.name ++ "/" ++ g.1) '/') = _
      rw [split_category (by decide)]
      rfl
  · refine ⟨nodup_helm hd.releases hp.releases, fun key hkey => ?_⟩
    obtain ⟨f, hf, rfl⟩ := List.mem_map.mp hkey
    obtain ⟨rel, hrel, hf⟩ := List.mem_flatMap.mp hf
    exact familyOf_releaseFindings (hp.releases rel hrel) hf
  · exact hskew evalSkew_sublist .kubelets (by decide) (by decide)
  · exact hskew evalControlPlaneSkew_sublist .components (by decide) (by decide)
  · refine ⟨nodup_proxies, fun key hkey => ?_⟩
    obtain ⟨f, hf, rfl⟩ := List.mem_map.mp hkey
    obtain ⟨g, -, rfl⟩ := List.mem_map.mp hf
    show keyFamily (split (skewKey ("kube-proxy-kubelet/" ++ g.1)) '/') = _
    -- A node's name may hold a slash. The family is decided by the segment before it.
    have hname : "kube-proxy-kubelet/" ++ g.1 = "kube-proxy-kubelet" ++ ("/" ++ g.1) := by
      rw [← String.append_assoc]
      rfl
    rw [split_skewKey, hname, split_segment (by decide)]
    rfl
  · have hsub : ((evalKBStale X inv k target).map (·.key)).Sublist ["kb-stale"] := map_key_unless_sublist _
    refine ⟨(List.nodup_singleton _).sublist hsub, fun key hkey => ?_⟩
    rw [List.mem_singleton.mp (hsub.subset hkey)]
    rfl
  · exact hskew (evalUpgradePath_key hpath) .path (by decide) (by decide)
  · refine ⟨evalSupport_key.1, fun key hkey => ?_⟩
    obtain ⟨f, hf, rfl⟩ := List.mem_map.mp hkey
    obtain ⟨tail, hkey⟩ := evalSupport_key.2 f hf
    unfold familyOf
    rw [hkey, split_category (by decide)]
    rfl
  · refine ⟨nodup_crds hd hp, fun key hkey => ?_⟩
    obtain ⟨f, hf, rfl⟩ := List.mem_map.mp hkey
    obtain ⟨c, hc, hf⟩ := List.mem_flatMap.mp hf
    obtain ⟨m, hm, version, hversion, hkey⟩ := exists_crdKey hf
    unfold familyOf
    rw [hkey, split_crdKey hp hc hm hversion]
    rfl
  · refine ⟨nodup_volumes hd.volumes, fun key hkey => ?_⟩
    obtain ⟨f, hf, rfl⟩ := List.mem_map.mp hkey
    obtain ⟨u, -, hf⟩ := List.mem_filterMap.mp hf
    unfold familyOf
    rw [(volumeFinding_key hf).2, split_category (by decide)]
    rfl

/-- No two findings of an evaluation share a key, and every key starts with its category. -/
theorem evaluate_keys {fuel : ℕ} {r : Report} (h : evaluate fuel X inv k target now = some r) (hd : DistinctRows k inv)
    (hp : PlainKeys k inv) :
    (r.findings.map (·.key)).Nodup ∧ ∀ f ∈ r.findings, f.Keyed := by
  rw [evaluate_eq] at h
  obtain ⟨found, hfound, rfl⟩ := Option.map_eq_some_iff.mp h
  have hsorted : (reportOf X inv k target now found).findings.Perm found := sortOn_perm findingOrder found
  constructor
  · rw [(hsorted.map _).nodup_iff]
    obtain ⟨path, hpath, hkeys⟩ := map_key_foundFindings hfound
    have hspec := @familyKeys_spec X k target now inv hd hp fuel path hpath
    rw [hkeys]
    exact nodup_flatMap_of_class familyOf (·.1) (by simp [familyKeys])
      (fun m hm key hkey => (hspec m hm).2 key hkey) fun m hm => (hspec m hm).1
  · intro f hf
    exact keyed_of_mem_foundFindings hfound f (hsorted.mem_iff.mp hf)

end Evaluation

/-- A cluster that uses a removed API, directly and from a release's manifest, and requests it. -/
def jobCluster : Inventory where
  serverVersion := "v1.29.0"
  apiUsage := [{ group := "g.io", version := "v1", kind := "Job", count := 1 }]
  deprecatedCalls := [{ group := "g.io", version := "v1", resource := "jobs", subresource := "", removedRelease := "1.40" }]
  helmReleases :=
    [{ «namespace» := "shop", name := "web", manifestAPIs := [{ group := "g.io", version := "v1", kind := "Job", count := 2 }] }]
  nodes := [{ name := "n1", kubeletVersion := "v1.20.0", containerRuntime := "cri-o://1.29" }]

/-- A knowledge base of one removed API and one add-on. -/
def jobKB : KB :=
  { maxKnownK8s := ⟨1, 29⟩
    apiLifecycle := [{ group := "g.io", version := "v1", kind := "Job", introduced := ⟨1, 8⟩, removed := some ⟨1, 25⟩ }]
    addOns := [{ id := "istio", displayName := "Istio", support := { status := .supported } }] }

/-- The cluster's findings have six keys. -/
theorem evaluate_keys_jobCluster :
    ∃ r, evaluate 0 External.ascii jobCluster jobKB ⟨1, 30⟩ 0 = some r ∧ r.findings.length = 6 ∧
      (r.findings.map (·.key)).Nodup ∧ ∀ f ∈ r.findings, f.Keyed := by
  have hlength : (evaluate 0 External.ascii jobCluster jobKB ⟨1, 30⟩ 0).map (·.findings.length) = some 6 := by
    decide +kernel
  obtain ⟨r, hr, hlen⟩ := Option.map_eq_some_iff.mp hlength
  have hd : DistinctRows jobKB jobCluster := by
    constructor <;> decide +kernel
  have hp : PlainKeys jobKB jobCluster := by
    constructor
    · intro u hu
      obtain rfl := List.mem_singleton.mp hu
      exact ⟨by constructor <;> decide, by decide⟩
    all_goals decide +kernel
  exact ⟨r, hr, hlen, evaluate_keys hr hd hp⟩

end UpgradeScope
