import UpgradeScope.Lib.Segments
import UpgradeScope.Engine.Evaluate
import UpgradeScope.Engine.Grades
import UpgradeScope.Engine.Installs
import UpgradeScope.Engine.Keys
import UpgradeScope.Inventory.Admit

/-!
# Families of finding keys

Deltas, plans, baselines and suppression name a finding by its key alone. A key is the category and the names a check
found it by, between slashes. Where no name has a slash, `split` reads the names back, and a key belongs to one family
of checks (`keyFamily`): by its category, or, where two checks share a category, by the segment that follows it. Here
are the families, and the keys of the API checks and of an add-on's installs.
-/

namespace UpgradeScope

open Go Sorting Kb Registry

/-! ## Inventories whose rows are told apart -/

/-- What a caller's row is about. -/
def DeprecatedCall.request (c : DeprecatedCall) : String × String × String × String :=
  (c.group, c.version, c.resource, c.subresource)

/-- The rows of an inventory and a knowledge base have identities of their own. -/
structure DistinctRows (k : KB) (inv : Inventory) : Prop where
  /-- Usage rows, by their API. -/
  usage : (inv.apiUsage.map APIUsage.gvk).Nodup
  /-- Rows of unknown authorship, by their API. -/
  unknown : (inv.apiAuthorshipUnknown.map APIUsage.gvk).Nodup
  /-- Callers, by what they request. -/
  calls : (inv.deprecatedCalls.map DeprecatedCall.request).Nodup
  /-- Helm releases, by namespace and name. -/
  releases : (inv.helmReleases.map fun r => (r.namespace, r.name)).Nodup
  /-- CRDs, by group and kind. -/
  crds : (inv.crds.map fun c => (c.group, c.kind)).Nodup
  /-- The versions a CRD lists. -/
  crdVersions : ∀ c ∈ inv.crds, (c.versions.map (·.name)).Nodup
  /-- The versions of a CRD's usage rows. -/
  crdUsage : ∀ c ∈ inv.crds, (c.usage.map (·.version)).Nodup
  /-- The versions a CRD may be stored at. -/
  crdStored : ∀ c ∈ inv.crds, c.storedVersions.Nodup
  /-- Volume rows, by plugin. -/
  volumes : (inv.volumePlugins.map (·.plugin)).Nodup
  /-- The entries of the registry, by id. -/
  addOns : (k.addOns.map (·.id)).Nodup
  /-- A detected add-on is no node's runtime. -/
  runtimes : ∀ a ∈ k.addOns, a.id ∈ inv.addOns.map (·.id) → runtimeInstalls inv a = []
  /-- A runtime without an entry is not called like one. -/
  uncovered : ∀ g ∈ uncoveredRuntimes k inv, g.1 ∉ k.addOns.map (·.id)

/-- The names that keys are made of have no slash, and no group is called as keys call the core group or a release. -/
structure PlainKeys (k : KB) (inv : Inventory) : Prop where
  /-- Usage rows. -/
  usage : ∀ u ∈ inv.apiUsage ++ inv.apiAuthorshipUnknown, u.PlainNames ∧ u.group ≠ "helm-release"
  /-- Callers. -/
  calls : ∀ c ∈ inv.deprecatedCalls, '/' ∉ c.group.toList ∧ '/' ∉ c.version.toList ∧ '/' ∉ c.resource.toList ∧
    '/' ∉ c.subresource.toList ∧ c.group ≠ "core"
  /-- Helm releases. -/
  releases : ∀ r ∈ inv.helmReleases, '/' ∉ r.namespace.toList ∧ '/' ∉ r.name.toList
  /-- CRDs. -/
  crds : ∀ c ∈ inv.crds, '/' ∉ c.group.toList ∧ '/' ∉ c.kind.toList ∧ c.group ≠ "core"
  /-- The versions of CRDs. -/
  crdVersions : ∀ c ∈ inv.crds, ∀ v ∈ c.versions.map (·.name) ++ c.usage.map (·.version) ++ c.storedVersions,
    '/' ∉ v.toList
  /-- The entries of the registry. -/
  addOns : ∀ a ∈ k.addOns, '/' ∉ a.id.toList ∧ ∀ c ∈ a.cycles, '/' ∉ c.cycle.toList
  /-- The runtimes without an entry. -/
  uncovered : ∀ g ∈ uncoveredRuntimes k inv, '/' ∉ g.1.toList

/-! ## Families of keys -/

/-- The checks that make findings, those of one subject together. -/
inductive KeyFamily where
  /-- API usage. -/
  | usage
  /-- Deprecated callers. -/
  | callers
  /-- Objects nobody can be named for. -/
  | authorship
  /-- Add-ons and node runtimes. -/
  | addOns
  /-- Helm releases. -/
  | helm
  /-- Kubelets. -/
  | kubelets
  /-- Control-plane components. -/
  | components
  /-- A kube-proxy beside its kubelet. -/
  | proxies
  /-- The knowledge base's horizon. -/
  | staleKB
  /-- The upgrade path. -/
  | path
  /-- A provider's calendar. -/
  | support
  /-- CRD versions. -/
  | crds
  /-- Volume plugins. -/
  | volumes
  deriving DecidableEq

/-- The kubelet findings' names. -/
def kubeletKeys : List String :=
  ["kubelet-post-upgrade", "kubelet-current", "kubelet-newer-than-apiserver", "kubelet-unparseable"]

/-- The family of a key's segments. -/
def keyFamily : List String → KeyFamily
  | "deprecated-api-in-use" :: _ => .callers
  | "chart-incompat" :: rest => if rest.length = 3 then .helm else .addOns
  | "eol-addon" :: _ => .addOns
  | "eol-approaching" :: _ => .addOns
  | "addon-no-data" :: _ => .addOns
  | "version-skew" :: rest =>
    if rest.head? = some "kube-proxy-kubelet" then .proxies
    else if rest.head? = some "upgrade-path" then .path
    else if rest.head?.any (· ∈ kubeletKeys) then .kubelets
    else .components
  | "kb-stale" :: _ => .staleKB
  | "support-lifecycle" :: _ => .support
  | "crd-version" :: _ => .crds
  | "volume-plugin" :: _ => .volumes
  | _ :: rest =>
    if rest.head? = some "helm-release" then .helm
    else if rest[3]? = some authorshipUnknownKey then .authorship
    else .usage
  | [] => .usage

/-- The family a key belongs to. -/
def familyOf (key : String) : KeyFamily := keyFamily (split key '/')

/-- The first segment of a key is its category. -/
theorem split_category {cat : Category} (h : '/' ∉ cat.name.toList) (b : String) :
    split (cat.name ++ "/" ++ b) '/' = cat.name :: split b '/' := by
  rw [String.append_assoc]
  exact split_segment h b

/-- The segments of an API's key. -/
theorem split_apiKey {g v k : String} (hg : '/' ∉ g.toList) (hv : '/' ∉ v.toList) (hk : '/' ∉ k.toList) :
    split (apiKey g v k) '/' = [keyGroup g, v, k] := by
  unfold apiKey
  rw [String.append_assoc, String.append_assoc, String.append_assoc, split_segment (notMem_keyGroup hg),
    split_segment hv, split_last hk]

/-- The segments of an API's key with a mark. -/
theorem split_apiKey_mark {g v k m : String} (hg : '/' ∉ g.toList) (hv : '/' ∉ v.toList) (hk : '/' ∉ k.toList)
    (hm : '/' ∉ m.toList) : split (apiKey g v k ++ "/" ++ m) '/' = [keyGroup g, v, k, m] := by
  unfold apiKey
  simp only [String.append_assoc]
  rw [split_segment (notMem_keyGroup hg), split_segment hv, split_segment hk, split_last hm]

/-! ## API usage -/

section Usage

variable {k : KB} {target : Version} {inv : Inventory} {u : APIUsage} {f : Finding}

/-- The segments of a usage finding's key. -/
theorem split_usageKey {cat : Category} (hcat : '/' ∉ cat.name.toList) (hu : u.PlainNames) (unserved : Bool) :
    split (usageKey cat u unserved) '/' =
      [cat.name, keyGroup u.group, u.version, u.kind] ++ if unserved then ["unserved"] else [] := by
  unfold usageKey
  cases unserved with
  | true =>
    have hkey : unservedKey (cat.name ++ "/" ++ apiKey u.group u.version u.kind) =
        cat.name ++ "/" ++ (apiKey u.group u.version u.kind ++ "/" ++ "unserved") := by
      simp only [unservedKey, unservedKeyPhase, String.append_assoc]
    simp only [if_true]
    rw [hkey, split_category hcat, split_apiKey_mark hu.group hu.version hu.kind (by decide)]
    rfl
  | false =>
    simp only [Bool.false_eq_true, if_false]
    rw [split_category hcat, split_apiKey hu.group hu.version hu.kind]
    rfl

variable {nsInfo : List NamespaceInfo} {src : Source}

/-- The segments of a usage finding: its category, its API, and the mark of an unserved one. -/
theorem split_usage (h : usageFinding k target src nsInfo u = some f) (hu : u.PlainNames) :
    ∃ mark : List String, split f.key '/' = [f.category.name, keyGroup u.group, u.version, u.kind] ++ mark ∧
      (mark = [] ∨ mark = ["unserved"]) := by
  obtain ⟨-, hkey, -⟩ := usageFinding_eq_some k target h
  have hcat : '/' ∉ f.category.name.toList := by
    have := usageFinding_category h
    simp only [List.mem_cons, List.not_mem_nil, or_false] at this
    obtain hc | hc | hc := this <;> rw [hc] <;> decide
  refine ⟨_, hkey ▸ split_usageKey hcat hu _, ?_⟩
  split_ifs
  · exact .inr rfl
  · exact .inl rfl

/-- A usage finding's key is of its family. -/
theorem familyOf_usage (h : usageFinding k target src nsInfo u = some f) (hu : u.PlainNames)
    (hrelease : u.group ≠ "helm-release") : familyOf f.key = .usage := by
  obtain ⟨mark, hsegs, hmark⟩ := split_usage h hu
  have hgroup : keyGroup u.group ≠ "helm-release" := by
    unfold keyGroup
    split_ifs
    · decide
    · exact hrelease
  have hcat := usageFinding_category h
  simp only [List.mem_cons, List.not_mem_nil, or_false] at hcat
  unfold familyOf
  rw [hsegs]
  obtain hc | hc | hc := hcat <;> obtain rfl | rfl := hmark <;> rw [hc] <;>
    simp [Category.name, keyFamily, hgroup, authorshipUnknownKey]

/-- The keys of the usage findings are told apart. -/
theorem nodup_usage (hd : (inv.apiUsage.map APIUsage.gvk).Nodup) (hp : ∀ u ∈ inv.apiUsage, u.PlainNames) :
    ((evalAPIUsage k target inv).map (·.key)).Nodup := by
  unfold evalAPIUsage
  rw [List.map_filterMap]
  refine nodup_filterMap_of_key hd fun u hu u' hu' key h h' => ?_
  obtain ⟨f, hf, rfl⟩ := Option.map_eq_some_iff.mp h
  obtain ⟨f', hf', hkey⟩ := Option.map_eq_some_iff.mp h'
  obtain ⟨mark, hsegs, -⟩ := split_usage hf (hp u hu)
  obtain ⟨mark', hsegs', -⟩ := split_usage hf' (hp u' hu')
  rw [hkey, hsegs] at hsegs'
  simp only [List.cons_append, List.nil_append, List.cons.injEq] at hsegs'
  obtain ⟨-, hg, hv, hk, -⟩ := hsegs'
  unfold APIUsage.gvk
  rw [keyGroup_inj (hp u hu).notCore (hp u' hu').notCore hg, hv, hk]

/-- The segments of the key of an authorship finding. -/
theorem split_authorship (h : authorshipFinding k nsInfo u = some f) (hu : u.PlainNames) :
    f.category = .deprecatedAPI ∧
      split f.key '/' = ["deprecated-api", keyGroup u.group, u.version, u.kind, authorshipUnknownKey] := by
  unfold authorshipFinding at h
  split at h
  · simp at h
  · rename_i e _
    by_cases hflagged : e.deprecated = none ∧ e.removed = none
    · rw [if_pos hflagged] at h
      simp at h
    rw [if_neg hflagged] at h
    obtain rfl := Option.some.inj h
    refine ⟨rfl, ?_⟩
    have hkey : Category.deprecatedAPI.name ++ "/" ++ apiKey u.group u.version u.kind ++ "/" ++ authorshipUnknownKey =
        Category.deprecatedAPI.name ++ "/" ++ (apiKey u.group u.version u.kind ++ "/" ++ authorshipUnknownKey) := by
      simp only [String.append_assoc]
    dsimp only
    rw [hkey, split_category (by decide), split_apiKey_mark hu.group hu.version hu.kind (by decide)]
    rfl

/-- The keys of the authorship findings are told apart. -/
theorem nodup_authorship (hd : (inv.apiAuthorshipUnknown.map APIUsage.gvk).Nodup)
    (hp : ∀ u ∈ inv.apiAuthorshipUnknown, u.PlainNames) : ((evalAuthorshipUnknown k inv).map (·.key)).Nodup := by
  unfold evalAuthorshipUnknown
  rw [List.map_filterMap]
  refine nodup_filterMap_of_key hd fun u hu u' hu' key h h' => ?_
  obtain ⟨f, hf, rfl⟩ := Option.map_eq_some_iff.mp h
  obtain ⟨f', hf', hkey⟩ := Option.map_eq_some_iff.mp h'
  have hsegs := (split_authorship hf (hp u hu)).2
  have hsegs' := (split_authorship hf' (hp u' hu')).2
  rw [hkey, hsegs] at hsegs'
  simp only [List.cons.injEq, true_and, and_true] at hsegs'
  obtain ⟨hg, hv, hk⟩ := hsegs'
  unfold APIUsage.gvk
  rw [keyGroup_inj (hp u hu).notCore (hp u' hu').notCore hg, hv, hk]

/-- The family of an authorship finding's key. -/
theorem familyOf_authorship (h : authorshipFinding k nsInfo u = some f) (hu : u.PlainNames)
    (hrelease : u.group ≠ "helm-release") : familyOf f.key = .authorship := by
  have hgroup : keyGroup u.group ≠ "helm-release" := by
    unfold keyGroup
    split_ifs
    · decide
    · exact hrelease
  unfold familyOf
  rw [(split_authorship h hu).2]
  simp [keyFamily, hgroup]

end Usage

/-! ## Callers -/

section Calls

variable {X : External} {k : KB} {target : Version} {inv : Inventory}

/-- A caller's row with plain names. -/
def DeprecatedCall.PlainNames (c : DeprecatedCall) : Prop :=
  '/' ∉ c.group.toList ∧ '/' ∉ c.version.toList ∧ '/' ∉ c.resource.toList ∧ '/' ∉ c.subresource.toList ∧
    c.group ≠ "core"

/-- The segments of a caller's key. -/
theorem split_callKey {c : DeprecatedCall} (h : c.PlainNames) :
    split (callKey c) '/' =
      ["deprecated-api-in-use", keyGroup c.group, c.version, c.resource] ++
        if c.subresource ≠ "" then [c.subresource] else [] := by
  obtain ⟨hg, hv, hr, hs, -⟩ := h
  unfold callKey DeprecatedCall.res
  split_ifs with hsub
  · simp only [String.append_assoc]
    rw [split_segment (by decide), split_segment (notMem_keyGroup hg), split_segment hv, split_segment hr,
      split_last hs]
    rfl
  · simp only [String.append_assoc]
    rw [split_segment (by decide), split_segment (notMem_keyGroup hg), split_segment hv, split_last hr]
    rfl

/-- A caller's key tells what it requests. -/
theorem callKey_inj {c c' : DeprecatedCall} (h : c.PlainNames) (h' : c'.PlainNames) (heq : callKey c = callKey c') :
    c.request = c'.request := by
  have hsegs : split (callKey c) '/' = split (callKey c') '/' := by rw [heq]
  rw [split_callKey h, split_callKey h'] at hsegs
  simp only [List.cons_append, List.nil_append, List.cons.injEq, true_and] at hsegs
  obtain ⟨hg, hv, hr, hs⟩ := hsegs
  have hsub : c.subresource = c'.subresource := by
    split_ifs at hs with h1 h2 h2 <;> simp_all
  unfold DeprecatedCall.request
  rw [keyGroup_inj h.2.2.2.2 h'.2.2.2.2 hg, hv, hr, hsub]

/-- The keys of the callers' findings, folded or not. -/
theorem nodup_calls (hd : (inv.deprecatedCalls.map DeprecatedCall.request).Nodup)
    (hp : ∀ c ∈ inv.deprecatedCalls, c.PlainNames) :
    ((evalDeprecatedCalls X inv k target).map fun r => r.2.key).Nodup := by
  have hkeys : (evalDeprecatedCalls X inv k target).map (fun r => r.2.key) = (judgedCalls inv).map callKey := by
    unfold evalDeprecatedCalls
    rw [List.map_map]
    rfl
  rw [hkeys]
  have hjudged : ((judgedCalls inv).map DeprecatedCall.request).Nodup := by
    refine ((sortOn_perm callOrder (otherCallers inv)).map _).nodup_iff.mpr ?_
    exact hd.sublist (List.filter_sublist.map _)
  have hmem : ∀ c ∈ judgedCalls inv, c ∈ inv.deprecatedCalls := fun c hc =>
    (List.mem_filter.mp (mem_sortOn.mp hc)).1
  refine (List.nodup_map_iff_inj_on hjudged.of_map).mpr fun c hc c' hc' heq => ?_
  have hrequest := callKey_inj (hp c (hmem c hc)) (hp c' (hmem c' hc')) heq
  exact List.inj_on_of_nodup_map hjudged hc hc' hrequest

/-- The keys of the API findings: the usage findings' and those of the callers that stand alone. -/
theorem map_key_foldDeprecatedCalls (usage : List Finding) (calls : List (DeprecatedCall × Finding)) :
    (foldDeprecatedCalls X inv usage calls).map (·.key) = usage.map (·.key) ++
      ((placedCalls X inv usage calls).filter fun r => r.2 = none).map fun r => r.1.2.key := by
  unfold foldDeprecatedCalls
  rw [List.map_append, List.map_map]
  congr 1
  refine List.ext_getElem (by simp) fun i hi hi' => ?_
  simp only [List.getElem_map, List.getElem_mapIdx]
  unfold withCallers
  split_ifs <;> rfl

end Calls

/-! ## Add-ons -/

section AddOns

variable {X : External} {k : KB} {target : Version} {now : Time} {inv : Inventory} {a : AddOn}

/-- The registry's ids and lines have no slash. -/
def PlainEntry (a : AddOn) : Prop := '/' ∉ a.id.toList ∧ ∀ c ∈ a.cycles, '/' ∉ c.cycle.toList

/-- The segments that a group's line adds to a key. -/
def lineSegments (line : String) : List String := if line = "" then [] else [line]

variable {f : Finding} {ins : List AddOnInstall} {g : String × List AddOnInstall} {cat : Category} {cycles : List Cycle}

/-- The oldest line is one of the registry. -/
theorem mem_of_oldestCycle {q : Cycle × List ℤ} (h : oldestCycle cycles = some q) : q.1 ∈ cycles := by
  -- The loop keeps a line of the registry throughout.
  refine List.foldlRecOn cycles _ (motive := fun oldest => ∀ q, oldest = some q → q.1 ∈ cycles) (by simp) ?_ q h
  intro oldest hkept x hx q hq
  split at hq
  · split at hq
    · split_ifs at hq
      · rwa [← Option.some.inj hq]
      · exact hkept q hq
    · rwa [← Option.some.inj hq]
  · exact hkept q hq

/-- A line is one of the registry's. -/
theorem mem_of_predatesCycles {version : String} {c : Cycle} (h : predatesCycles version cycles now = some c) :
    c ∈ cycles := by
  obtain ⟨p, hp⟩ := predatesCycles_eq_some h
  exact mem_of_oldestCycle hp

/-- The line of a group has no slash. -/
theorem notMem_groupKey (ha : PlainEntry a) (i : AddOnInstall) : '/' ∉ (groupKey a now i).toList := by
  obtain ⟨c, hc, hkey⟩ | ⟨o, -, ho, hkey⟩ | ⟨-, -, hkey⟩ := groupKey_cases a now i
  · rw [hkey]
    exact ha.2 c (List.mem_of_find?_eq_some (cycleFor_find hc).2)
  · rw [hkey, String.toList_append]
    have := ha.2 o (mem_of_predatesCycles ho)
    simp [belowPrefix, this]
  · rw [hkey]
    decide

/-- The tail of the keys of a group's findings. -/
theorem lineKey_group (hg : g ∈ groupOn (groupKey a now) ins) (line node : Bool) :
    lineKey a now (newAddOnSubject a.displayName g.2 line node) =
        (if g.1 = "" then a.id else a.id ++ "/" ++ g.1) ∧
      (g.1 = "" ↔ (cycleFor (newAddOnSubject a.displayName g.2 line node).version a.cycles = none ∧
        predatesCycles (newAddOnSubject a.displayName g.2 line node).version a.cycles now = none)) := by
  obtain ⟨⟨i, hi, hkey⟩, hrows⟩ := mem_groupOn.mp hg
  have hne : g.2 ≠ [] := by
    rw [hrows]
    exact List.ne_nil_of_mem (List.mem_filter.mpr ⟨hi, by simpa using hkey⟩)
  -- The subject's version is the oldest of the group, and that install has the group's own key.
  obtain ⟨j, hj, hversion⟩ := exists_oldest hne
  have hjkey : groupKey a now j = g.1 := by
    rw [hrows] at hj
    simpa using (List.mem_filter.mp hj).2
  have hs : (newAddOnSubject a.displayName g.2 line node).version = j.version := hversion.symm
  unfold lineKey
  rw [hs]
  obtain ⟨c, hc, hcase⟩ | ⟨o, hc, ho, hcase⟩ | ⟨hc, ho, hcase⟩ := groupKey_cases a now j
  · have hcycle : c.cycle ≠ "" := fun h => (cycleFor_find hc).1 (h ▸ versionParts_empty)
    rw [hc, ← hjkey, hcase, if_neg hcycle]
    exact ⟨rfl, by simp [hcycle]⟩
  · have hbelow : belowPrefix ++ o.cycle ≠ "" := fun h =>
      absurd (congrArg String.toList h) (by simp [belowPrefix])
    rw [hc, ho, ← hjkey, hcase, if_neg hbelow]
    refine ⟨by simp only [String.append_assoc], by simp [hbelow]⟩
  · rw [hc, ho, ← hjkey, hcase]
    exact ⟨rfl, by simp⟩

/-- The segments of the keys of a group's findings. -/
theorem split_group (ha : PlainEntry a) {line : String} (hline : '/' ∉ line.toList) (hcat : '/' ∉ cat.name.toList) :
    split (cat.name ++ "/" ++ (if line = "" then a.id else a.id ++ "/" ++ line)) '/' =
      cat.name :: a.id :: lineSegments line := by
  rw [split_category hcat]
  unfold lineSegments
  split_ifs with h
  · rw [split_last ha.1]
  · rw [String.append_assoc, split_segment ha.1, split_last hline]

/-- A finding about the end of a group's line, at the group's key. -/
theorem lineFinding_eq_some {s : AddOnSubject} (h : lineFinding a now s = some f) :
    productDated a = false ∧ f.category ∈ [Category.eolAddon, .eolApproaching] ∧
      f.key = f.category.name ++ "/" ++ lineKey a now s ∧
      ¬ (cycleFor s.version a.cycles = none ∧ predatesCycles s.version a.cycles now = none) := by
  unfold lineFinding at h
  dsimp only at h
  split_ifs at h with hdated
  obtain ⟨⟨c, cat, sev, title, more⟩, hjudged, rfl⟩ := Option.map_eq_some_iff.mp h
  have hcat : cat ∈ [Category.eolAddon, .eolApproaching] ∧
      ¬ (cycleFor s.version a.cycles = none ∧ predatesCycles s.version a.cycles now = none) := by
    -- The version is on a line, or below the oldest one; on neither there is no finding.
    cases hc : cycleFor s.version a.cycles with
    | some d =>
      rw [hc] at hjudged
      obtain ⟨j, hj, hjeq⟩ := Option.map_eq_some_iff.mp hjudged
      obtain ⟨-, rfl⟩ := Prod.mk.inj hjeq
      refine ⟨?_, by simp⟩
      unfold cycleEOL at hj
      split at hj
      · simp at hj
      · simp [← (Prod.mk.inj (Option.some.inj hj)).1]
      · simp at hj
      · split at hj
        · simp at hj
        · split_ifs at hj
          · simp [← (Prod.mk.inj (Option.some.inj hj)).1]
          · simp [← (Prod.mk.inj (Option.some.inj hj)).1]
    | none =>
      rw [hc] at hjudged
      obtain ⟨o, ho, hoeq⟩ := Option.map_eq_some_iff.mp hjudged
      obtain ⟨-, hpre⟩ := Prod.mk.inj hoeq
      refine ⟨?_, by simp [ho]⟩
      simp [← (Prod.mk.inj hpre).1]
  exact ⟨by simpa using hdated, hcat.1, rfl, hcat.2⟩

/-- A finding of a group of installs: its category, and the segments of its key. -/
theorem split_groupFindings (ha : PlainEntry a) (hg : g ∈ groupOn (groupKey a now) ins) {line node lc : Bool}
    (h : f ∈ groupFindings X a target now lc (newAddOnSubject a.displayName g.2 line node)) :
    split f.key '/' = f.category.name :: a.id :: lineSegments g.1 ∧
      (f.category = .chartIncompat ∨
        productDated a = false ∧ f.category ∈ [Category.eolAddon, .eolApproaching, .addOnNoData]) := by
  obtain ⟨hkey, hempty⟩ := lineKey_group hg line node
  have hline : '/' ∉ g.1.toList := by
    obtain ⟨⟨i, -, hi⟩, -⟩ := mem_groupOn.mp hg
    rw [← hi]
    exact notMem_groupKey ha i
  unfold groupFindings at h
  simp only [List.mem_append, Option.mem_toList] at h
  obtain (h | h) | h := h
  · obtain ⟨hdated, hcat, hf, -⟩ := lineFinding_eq_some h
    have hslash : '/' ∉ f.category.name.toList := by
      simp only [List.mem_cons, List.not_mem_nil, or_false] at hcat
      obtain hc | hc := hcat <;> rw [hc] <;> decide
    refine ⟨?_, .inr ⟨hdated, ?_⟩⟩
    · rw [hf, hkey]
      exact split_group ha hline hslash
    · simp only [List.mem_cons, List.not_mem_nil, or_false] at hcat ⊢
      exact hcat.imp id .inl
  · obtain ⟨title, detail, citations, rfl⟩ := evalAddOnCompat_eq_some h
    refine ⟨?_, .inl rfl⟩
    rw [hkey]
    exact split_group ha hline (by decide)
  · obtain ⟨hdated, hcycle, hpredates, title, detail, rfl⟩ := noDataFinding_eq_some h
    refine ⟨?_, .inr ⟨hdated, by simp [subjectFinding]⟩⟩
    -- Without data there is no line either, so this key has the add-on's id as its last segment.
    have hnone := hempty.mpr ⟨hcycle, hpredates⟩
    show split (Category.addOnNoData.name ++ "/" ++ a.id) '/' = _
    rw [split_category (by decide), split_last ha.1, hnone]
    rfl

/-- The keys of a group's findings differ in their categories. -/
theorem nodup_groupFindings (ha : PlainEntry a) (hg : g ∈ groupOn (groupKey a now) ins) (line node lc : Bool) :
    ((groupFindings X a target now lc (newAddOnSubject a.displayName g.2 line node)).map (·.key)).Nodup := by
  set fs := groupFindings X a target now lc (newAddOnSubject a.displayName g.2 line node) with hfs
  have hcategories : (fs.map (·.category.name)).Nodup := by
    rw [hfs]
    unfold groupFindings
    rw [List.map_append, List.map_append]
    have hlines : ∀ n ∈ (lineFinding a now (newAddOnSubject a.displayName g.2 line node)).toList.map (·.category.name),
        n = "eol-addon" ∨ n = "eol-approaching" := by
      intro n hn
      obtain ⟨f, hf, rfl⟩ := List.mem_map.mp hn
      have hcat := (lineFinding_eq_some (Option.mem_toList.mp hf)).2.1
      simp only [List.mem_cons, List.not_mem_nil, or_false] at hcat
      obtain hc | hc := hcat <;> simp [hc, Category.name]
    have hcompat : ∀ n ∈ (evalAddOnCompat X a (newAddOnSubject a.displayName g.2 line node) target
        (Category.chartIncompat.name ++ "/" ++ lineKey a now (newAddOnSubject a.displayName g.2 line node))).toList.map
          (·.category.name), n = "chart-incompat" := by
      intro n hn
      obtain ⟨f, hf, rfl⟩ := List.mem_map.mp hn
      obtain ⟨title, detail, citations, rfl⟩ := evalAddOnCompat_eq_some (Option.mem_toList.mp hf)
      rfl
    have hnodata : ∀ n ∈ (noDataFinding a now lc (newAddOnSubject a.displayName g.2 line node)).toList.map
        (·.category.name), n = "addon-no-data" := by
      intro n hn
      obtain ⟨f, hf, rfl⟩ := List.mem_map.mp hn
      obtain ⟨-, -, -, title, detail, rfl⟩ := noDataFinding_eq_some (Option.mem_toList.mp hf)
      rfl
    refine List.Nodup.append (List.Nodup.append ?_ ?_ ?_) ?_ ?_
    · cases lineFinding a now (newAddOnSubject a.displayName g.2 line node) <;> simp
    · cases evalAddOnCompat X a (newAddOnSubject a.displayName g.2 line node) target _ <;> simp
    · intro n h h'
      obtain rfl := hcompat n h'
      exact absurd (hlines _ h) (by decide)
    · cases noDataFinding a now lc (newAddOnSubject a.displayName g.2 line node) <;> simp
    · intro n h h'
      obtain rfl := hnodata n h'
      rcases List.mem_append.mp h with h | h
      · exact absurd (hlines _ h) (by decide)
      · exact absurd (hcompat _ h) (by decide)
  -- The first segment of a key is its category.
  have hfirst : (fs.map (·.key)).map (fun key => (split key '/').headD "") = fs.map (·.category.name) := by
    rw [List.map_map]
    refine List.map_congr_left fun f hf => ?_
    rw [Function.comp_apply, (split_groupFindings ha hg (hfs ▸ hf)).1]
    rfl
  exact (hfirst ▸ hcategories).of_map

/-- A product that is judged as a whole is at its end or near it, and has a date or is over. -/
theorem productEOL_eq_some {rest : Severity × String × String} (h : productEOL a now = some (cat, rest)) :
    cat ∈ [Category.eolAddon, .eolApproaching] ∧ productDated a = true := by
  unfold productEOL at h
  dsimp only at h
  -- A date that parses is what makes the product dated.
  have hdate : ∀ d, (if a.support.eolDate = "" then none else parseDate a.support.eolDate) = some d →
      productDated a = true := by
    intro d hd
    split_ifs at hd with hempty
    simp [productDated, hempty, hd]
  generalize (if a.support.eolDate = "" then none else parseDate a.support.eolDate) = eolDate at h hdate
  split at h
  · refine ⟨?_, hdate _ rfl⟩
    unfold splitSupportFinding at h
    dsimp only at h
    split_ifs at h <;> simp [← (Prod.mk.inj (Option.some.inj h)).1]
  · split at h
    · rename_i hended
      refine ⟨by split_ifs at h <;> simp [← (Prod.mk.inj (Option.some.inj h)).1], ?_⟩
      rcases hended with hstatus | hpast
      · simp [productDated, hstatus]
      · obtain ⟨d, hd, -⟩ := (Option.any_eq_true _ _).mp hpast
        exact hdate d hd
    · split at h
      · rename_i hsoon
        obtain ⟨d, hd, -⟩ := (Option.any_eq_true _ _).mp hsoon
        exact ⟨by simp [← (Prod.mk.inj (Option.some.inj h)).1], hdate d hd⟩
      · simp at h

/-- The findings about an add-on's installs: the product's and those of the groups. -/
theorem addOnFindings_eq (ins : List AddOnInstall) (lc node : Bool) :
    addOnFindings X a target now lc ins node =
      (productFinding a now (groupInstalls a ins node now).1).toList ++
        (groupOn (groupKey a now) ins).flatMap fun g => groupFindings X a target now lc
          (newAddOnSubject a.displayName g.2 (g.1 ≠ "" && !hasPrefix g.1 belowPrefix) node) := by
  have hgroups : ∀ fs : AddOnSubject → List Finding, (groupInstalls a ins node now).2.flatMap fs =
      (groupOn (groupKey a now) ins).flatMap fun g =>
        fs (newAddOnSubject a.displayName g.2 (g.1 ≠ "" && !hasPrefix g.1 belowPrefix) node) := by
    intro fs
    rw [groupInstalls_snd, List.flatMap_map]
  rw [addOnFindings_eq_append, hgroups]

/-- The key of a product's finding is its category and the add-on's id. -/
theorem split_product (ha : PlainEntry a) {all : AddOnSubject} (h : f ∈ (productFinding a now all).toList) :
    f.category ∈ [Category.eolAddon, .eolApproaching] ∧ productDated a = true ∧
      split f.key '/' = [f.category.name, a.id] := by
  obtain ⟨cat, sev, title, more, hproduct, rfl⟩ := productFinding_eq_some (Option.mem_toList.mp h)
  obtain ⟨hcat, hdated⟩ := productEOL_eq_some hproduct
  have hslash : '/' ∉ cat.name.toList := by
    simp only [List.mem_cons, List.not_mem_nil, or_false] at hcat
    obtain rfl | rfl := hcat <;> decide
  refine ⟨hcat, hdated, ?_⟩
  show split (cat.name ++ "/" ++ a.id) '/' = _
  rw [split_category hslash, split_last ha.1]
  rfl

/-- The findings about the installs of one add-on: the add-on is the second segment of their keys. -/
theorem split_addOnFindings (ha : PlainEntry a) {lc node : Bool} (h : f ∈ addOnFindings X a target now lc ins node) :
    f.category ∈ [Category.eolAddon, .eolApproaching, .chartIncompat, .addOnNoData] ∧
      ∃ line, split f.key '/' = f.category.name :: a.id :: lineSegments line := by
  rw [addOnFindings_eq] at h
  rcases List.mem_append.mp h with h | h
  · obtain ⟨hcat, -, hsegs⟩ := split_product ha h
    refine ⟨?_, "", hsegs⟩
    simp only [List.mem_cons, List.not_mem_nil, or_false] at hcat ⊢
    exact hcat.imp id .inl
  · obtain ⟨g, hg, hf⟩ := List.mem_flatMap.mp h
    obtain ⟨hsegs, hcat⟩ := split_groupFindings ha hg hf
    refine ⟨?_, g.1, hsegs⟩
    simp only [List.mem_cons, List.not_mem_nil, or_false] at hcat ⊢
    obtain hc | ⟨-, hc | hc | hc⟩ := hcat <;> simp [hc]

/-- The lines of an add-on's groups tell their keys apart. -/
theorem lineSegments_inj {line line' : String} (h : lineSegments line = lineSegments line') : line = line' := by
  unfold lineSegments at h
  split_ifs at h with h1 h2 h2
  · rw [h1, h2]
  · simpa using h

/-- The keys of the findings about the installs of one add-on. -/
theorem nodup_addOnFindings (ha : PlainEntry a) (ins : List AddOnInstall) (lc node : Bool) :
    ((addOnFindings X a target now lc ins node).map (·.key)).Nodup := by
  rw [addOnFindings_eq, List.map_append, List.map_flatMap]
  refine List.Nodup.append ?_ ?_ ?_
  · cases productFinding a now (groupInstalls a ins node now).1 <;> simp
  · -- The groups of different lines.
    refine nodup_flatMap_of_class (fun key => (split key '/').drop 2) (fun g => lineSegments g.1) ?_ ?_
      fun g hg => nodup_groupFindings ha hg ..
    · have hkeys : ((groupOn (groupKey a now) ins).map (·.1)).Nodup := by
        unfold groupOn
        rw [List.map_map]
        exact (List.map_id _).symm ▸ nodup_sortedSet _
      rw [show (fun g : String × List AddOnInstall => lineSegments g.1) = lineSegments ∘ (·.1) from rfl,
        ← List.map_map]
      exact hkeys.map fun _ _ => lineSegments_inj
    · intro g hg key hkey
      obtain ⟨f, hf, rfl⟩ := List.mem_map.mp hkey
      rw [(split_groupFindings ha hg hf).1]
      rfl
  · -- A product that is judged as a whole leaves its groups the compatibility alone.
    intro key h h'
    obtain ⟨f, hf, rfl⟩ := List.mem_map.mp h
    obtain ⟨g, hg, hkey⟩ := List.mem_flatMap.mp h'
    obtain ⟨f', hf', heq⟩ := List.mem_map.mp hkey
    obtain ⟨hcat, hdated, hsegs⟩ := split_product ha hf
    obtain ⟨hsegs', hcat'⟩ := split_groupFindings ha hg hf'
    have hname : f'.category.name = f.category.name := by
      rw [heq, hsegs] at hsegs'
      exact (List.cons.inj hsegs').1.symm
    have hcompat : f'.category = .chartIncompat := hcat'.resolve_right fun h => by simp [hdated] at h
    rw [hcompat] at hname
    simp only [List.mem_cons, List.not_mem_nil, or_false] at hcat
    obtain hc | hc := hcat <;> rw [hc] at hname <;> exact absurd hname (by decide)

end AddOns

end UpgradeScope
