import UpgradeScope.Engine.Budget
import UpgradeScope.Engine.KeyFamilies
import UpgradeScope.Engine.Reorder

/-!
# Callers by row and by key

A row of the apiserver's metric names an API by its group, version and resource. The engine looks the row up
in indexes built from the names joined with NUL characters; a delta, which has only the key of the row's
finding, splits the key at its slashes. Where a row's names have neither, the two agree: on the release that
removes the API (`kbRemoval_eq_removalOfCall`), and on the usage finding that is of the row's API
(`foldsInto_callKey`). The fold keeps what `foldsInto` says of the keys exactly when no row is found under the joined
names of another API, to any effect (`foldDeprecatedCalls_faithful`).
-/

namespace UpgradeScope

open Go Sorting Kb

/-! ## The key of a row -/

/-- A caller's row whose names the indexes of the fold keep apart: none has the separator of their keys. -/
def DeprecatedCall.NoNul (c : DeprecatedCall) : Prop :=
  '\x00' ∉ c.group.toList ∧ '\x00' ∉ c.version.toList ∧ '\x00' ∉ c.resource.toList

section Keys

variable {X : External} {c : DeprecatedCall}

/-- The names of a row are read off its resource key, whatever the other names are: with one more separator
than the two of the key, the other side would be another text. -/
theorem resourceKey_eq_iff (hc : c.NoNul) {g v r : String} :
    resourceKey g v r = resourceKey c.group c.version c.resource ↔
      g = c.group ∧ v = c.version ∧ r = c.resource := by
  refine ⟨fun h => ?_, fun ⟨hg, hv, hr⟩ => by rw [hg, hv, hr]⟩
  have hl : g.toList ++ '\x00' :: (v.toList ++ '\x00' :: r.toList) =
      c.group.toList ++ '\x00' :: (c.version.toList ++ '\x00' :: c.resource.toList) := by
    simpa [resourceKey] using congrArg String.toList h
  have hcount := congrArg (List.count '\x00') hl
  simp only [List.count_append, List.count_cons_self, List.count_eq_zero.mpr hc.1,
    List.count_eq_zero.mpr hc.2.1, List.count_eq_zero.mpr hc.2.2] at hcount
  have hg0 : '\x00' ∉ g.toList := List.count_eq_zero.mp (by omega)
  have hv0 : '\x00' ∉ v.toList := List.count_eq_zero.mp (by omega)
  obtain ⟨hg, hrest⟩ := append_sep_inj hg0 hc.1 hl
  obtain ⟨hv, hr⟩ := append_sep_inj hv0 hc.2.1 hrest
  exact ⟨String.toList_inj.mp hg, String.toList_inj.mp hv, String.toList_inj.mp hr⟩

/-- A kind goes by the resource of a row exactly when its group and version are the row's and the resource
is one of its names. -/
theorem keysResource_row (hc : c.NoNul) {g v kind : String} :
    keysResource X g v kind (resourceKey c.group c.version c.resource) = true ↔
      g = c.group ∧ v = c.version ∧ kindMatchesResource X kind c.resource = true := by
  simp only [keysResource, kindMatchesResource, decide_eq_true_eq, resourceKey_eq_iff hc]
  constructor
  · rintro ⟨hk, ⟨hg, hv, hr⟩ | ⟨hg, hv, hr⟩⟩
    · exact ⟨hg, hv, hk, .inl hr.symm⟩
    · exact ⟨hg, hv, hk, .inr hr.symm⟩
  · rintro ⟨hg, hv, hk, hr | hr⟩
    · exact ⟨hk, .inl ⟨hg, hv, hr.symm⟩⟩
    · exact ⟨hk, .inr ⟨hg, hv, hr.symm⟩⟩

/-- A kind of a row's own group and version goes by the resource of the row exactly when the resource is one of its
names, whatever the names are. -/
theorem keysResource_own {kind : String} :
    keysResource X c.group c.version kind (resourceKey c.group c.version c.resource) = true ↔
      kindMatchesResource X kind c.resource = true := by
  have hsame : ∀ r, resourceKey c.group c.version r = resourceKey c.group c.version c.resource ↔ c.resource = r :=
    fun r => (String.append_right_inj _).trans eq_comm
  simp only [keysResource, kindMatchesResource, decide_eq_true_eq, hsame]

/-- The category and the names in the key of a row's finding. -/
theorem cut_callKey (hc : c.PlainNames) :
    (cut (callKey c) '/').1 = Category.deprecatedAPIInUse.name ∧
      ∃ rest, splitN '/' 4 (cut (callKey c) '/').2.1.toList =
        (keyGroup c.group).toList :: c.version.toList :: c.resource.toList :: rest := by
  obtain ⟨hg, hv, hr, -, -⟩ := hc
  have hcut : cut (callKey c) '/' = (Category.deprecatedAPIInUse.name,
      keyGroup c.group ++ "/" ++ c.version ++ "/" ++ c.res, true) := by
    have := cut_append '/' Category.deprecatedAPIInUse.name (keyGroup c.group ++ "/" ++ c.version ++ "/" ++ c.res)
      (by decide)
    rw [← this]
    simp [callKey, String.append_assoc]
  have htail : (keyGroup c.group ++ "/" ++ c.version ++ "/" ++ c.res).toList =
      (keyGroup c.group).toList ++ '/' :: (c.version.toList ++ '/' :: c.res.toList) := by simp
  rw [hcut]
  refine ⟨rfl, ?_⟩
  rw [htail]
  -- The first two pieces end at the key's own slashes, the third at the one before a subresource.
  rw [splitN, cutChars_eq_some.mpr ⟨rfl, notMem_keyGroup hg⟩]
  dsimp only
  rw [splitN, cutChars_eq_some.mpr ⟨rfl, hv⟩]
  dsimp only
  by_cases hsub : c.subresource = ""
  · refine ⟨[], ?_⟩
    have hres : c.res.toList = c.resource.toList := by simp [DeprecatedCall.res, hsub]
    rw [hres, splitN, cutChars_eq_none.mpr hr]
  · refine ⟨[c.subresource.toList], ?_⟩
    have hres : c.res.toList = c.resource.toList ++ '/' :: c.subresource.toList := by
      simp [DeprecatedCall.res, hsub]
    rw [hres, splitN, cutChars_eq_some.mpr ⟨rfl, hr⟩]
    rfl

/-- The group in a key, read back. -/
theorem keyGroup_back {g : String} (h : g ≠ "core") : (if keyGroup g = "core" then "" else keyGroup g) = g := by
  unfold keyGroup
  by_cases hg : g = "" <;> simp [hg, h]

/-- The release that removes the API a row requests is the one that its finding's key leads to. -/
theorem kbRemoval_eq_removalOfCall (k : KB) (target : Version) (hc : c.PlainNames) (hnul : c.NoNul) :
    kbRemoval X k (resourceKey c.group c.version c.resource) =
      removalOfCall X k (callFinding X k target c).key := by
  obtain ⟨hcat, rest, hsplit⟩ := cut_callKey hc
  show _ = removalOfCall X k (callKey c)
  unfold removalOfCall kbRemoval
  rw [hsplit]
  dsimp only
  rw [if_neg (by simp [hcat]), String.ofList_toList, String.ofList_toList, String.ofList_toList,
    keyGroup_back hc.2.2.2.2]
  have hasks : ∀ e : APILifecycleEntry,
      keysResource X e.group e.version e.kind (resourceKey c.group c.version c.resource) =
        decide (e.group = c.group ∧ e.version = c.version ∧ kindMatchesResource X e.kind c.resource = true) :=
    fun e => by rw [Bool.eq_iff_iff, keysResource_row hnul, decide_eq_true_eq]
  simp only [hasks]
  -- Both loops run over the entries and stop at the first with a removal that is asked for.
  induction k.apiLifecycle with
  | nil => rfl
  | cons e entries ih =>
    rw [List.findSome?_cons, List.find?_cons]
    cases hrem : e.removed with
    | none => simpa [hrem] using ih
    | some r =>
      by_cases hask : e.group = c.group ∧ e.version = c.version ∧ kindMatchesResource X e.kind c.resource = true
      · have hask' : e.group = c.group ∧ e.version = c.version ∧ (some r).isSome = true ∧
            kindMatchesResource X e.kind c.resource = true := ⟨hask.1, hask.2.1, rfl, hask.2.2⟩
        rw [decide_eq_true hask, decide_eq_true hask']
        exact hrem.symm
      · have hask' : ¬ (e.group = c.group ∧ e.version = c.version ∧ (some r).isSome = true ∧
            kindMatchesResource X e.kind c.resource = true) := fun h => hask ⟨h.1, h.2.1, h.2.2.2⟩
        rw [decide_eq_false hask, decide_eq_false hask']
        exact ih

/-- The removal of the beta CronJob is read the same from the row and from the key. -/
theorem kbRemoval_cronjobs :
    let k : KB :=
      { maxKnownK8s := ⟨1, 36⟩
        apiLifecycle :=
          [{ group := "batch", version := "v1beta1", kind := "Job", introduced := ⟨1, 8⟩ },
           { group := "batch", version := "v1beta1", kind := "CronJob", introduced := ⟨1, 8⟩
             removed := some ⟨1, 25⟩ }] }
    let c : DeprecatedCall := { group := "batch", version := "v1beta1", resource := "cronjobs", subresource := "status" }
    (c.PlainNames ∧ c.NoNul) ∧
      kbRemoval .ascii k (resourceKey c.group c.version c.resource) =
        removalOfCall .ascii k (callFinding .ascii k ⟨1, 25⟩ c).key ∧
      kbRemoval .ascii k (resourceKey c.group c.version c.resource) = some ⟨1, 25⟩ := by
  intro k c
  have hplain : c.PlainNames := by
    unfold DeprecatedCall.PlainNames
    decide
  have hnul : c.NoNul := by
    unfold DeprecatedCall.NoNul
    decide
  exact ⟨⟨hplain, hnul⟩, kbRemoval_eq_removalOfCall k ⟨1, 25⟩ hplain hnul, by decide +kernel⟩

end Keys

/-! ## The usage finding of a row's API -/

section Usage

variable {X : External} {k : KB} {target : Version} {src : Source} {nsInfo : List NamespaceInfo} {u : APIUsage}
  {f : Finding} {c : DeprecatedCall}

/-- A usage row whose API is read back from the key of its finding: its kind is not called as the mark of an
unserved key, and its group not as keys call Helm releases. -/
structure APIUsage.ReadBack (u : APIUsage) : Prop extends u.PlainNames where
  /-- The group is not called helm-release. -/
  notRelease : u.group ≠ "helm-release"
  /-- The kind is not called unserved. -/
  notUnserved : u.kind ≠ "unserved"

/-- What of the names is needed to read the API back: a group may be called as keys call the core group. -/
structure APIUsage.Legible (u : APIUsage) : Prop where
  /-- The group has no slash. -/
  group : '/' ∉ u.group.toList
  /-- The kind has no slash. -/
  kind : '/' ∉ u.kind.toList
  /-- The group is not called helm-release. -/
  notRelease : u.group ≠ "helm-release"
  /-- The kind is not called unserved. -/
  notUnserved : u.kind ≠ "unserved"

/-- A row that is told apart can be read back. -/
theorem APIUsage.ReadBack.legible (h : u.ReadBack) : u.Legible := ⟨h.group, h.kind, h.notRelease, h.notUnserved⟩

/-- The key of a served API's finding is no unserved key. -/
theorem baseOfUnservedKey_served (hu : u.Legible) (cat : Category) : baseOfUnservedKey (usageKey cat u false) = none := by
  refine Option.eq_none_iff_forall_ne_some.mpr fun base hbase => hu.notUnserved ?_
  have hl : (cat.name.toList ++ '/' :: ((keyGroup u.group).toList ++ '/' :: u.version.toList)) ++ '/' :: u.kind.toList =
      base.toList ++ '/' :: "unserved".toList := by
    simpa [usageKey, unservedKey, unservedKeyPhase, apiKey_toList] using
      congrArg String.toList (baseOfUnservedKey_some hbase).1
  exact String.toList_inj.mp (append_sep_inj_right hu.kind (by decide) hl).2

/-- The key of an unserved API's finding is an unserved key. -/
theorem baseOfUnservedKey_unserved (hu : u.Legible) :
    baseOfUnservedKey (usageKey .removedAPI u true) = some (usageKey .removedAPI u false) := by
  have hkey : usageKey .removedAPI u true = usageKey .removedAPI u false ++ ("/" ++ unservedKeyPhase) := by
    simp [usageKey, unservedKey, String.append_assoc]
  have hpre : hasPrefix (usageKey .removedAPI u false) (Category.removedAPI.name ++ "/") = true :=
    hasPrefix_iff.mpr ⟨apiKey u.group u.version u.kind, rfl⟩
  have hrelease : ¬ hasPrefix (usageKey .removedAPI u false) (Category.removedAPI.name ++ "/helm-release/") = true := by
    intro h
    obtain ⟨t, ht⟩ := hasPrefix_iff.mp h
    have hl : (keyGroup u.group).toList ++ '/' :: (u.version.toList ++ '/' :: u.kind.toList) =
        "helm-release".toList ++ '/' :: t.toList := by
      have := congrArg String.toList ht
      simpa [usageKey, apiKey_toList, Category.name] using this
    have hgroup : keyGroup u.group = "helm-release" :=
      String.toList_inj.mp (append_sep_inj (notMem_keyGroup hu.group) (by decide) hl).1
    unfold keyGroup at hgroup
    split_ifs at hgroup
    · exact absurd hgroup (by decide)
    · exact hu.notRelease hgroup
  unfold baseOfUnservedKey
  rw [cutSuffix?_eq_some.mpr hkey]
  dsimp only
  rw [if_neg (by simp [hpre, hrelease])]

/-- A finding that the target does not serve an API yet is of the category of removals. -/
theorem category_of_unserved (h : usageFinding k target src nsInfo u = some f)
    (hunserved : unservedUse k target src u = true) : f.category = .removedAPI := by
  have hgrade := usageFinding_grade h
  rw [hunserved] at hgrade
  unfold unservedUse at hunserved
  cases he : lookup k.apiLifecycle ⟨u.group, u.version, u.kind⟩ with
  | none => simp [he] at hunserved
  | some e =>
    rw [he] at hgrade
    exact (Prod.mk.inj (Option.some.inj hgrade)).1.symm

/-- The API of a usage finding's row is read back from its key. -/
theorem keyAPI_usage (h : usageFinding k target src nsInfo u = some f) (hu : u.Legible) :
    keyAPI f.key = apiKey u.group u.version u.kind := by
  have hcut : ∀ cat : Category, '/' ∉ cat.name.toList →
      (cut (usageKey cat u false) '/').2.1 = apiKey u.group u.version u.kind := by
    intro cat hcat
    have := cut_append '/' cat.name (apiKey u.group u.version u.kind) hcat
    exact congrArg (fun p => p.2.1) this
  obtain ⟨-, hkey, -⟩ := usageFinding_eq_some k target h
  unfold keyAPI
  rw [hkey]
  cases hunserved : unservedUse k target src u with
  | true =>
    rw [category_of_unserved h hunserved, baseOfUnservedKey_unserved hu]
    exact hcut .removedAPI (by decide)
  | false =>
    rw [baseOfUnservedKey_served hu]
    exact hcut f.category (notMem_usageCategory h)

/-- The key of a usage finding starts with its category, which is one of a usage finding. -/
theorem isUsageCategory_usage (h : usageFinding k target src nsInfo u = some f) :
    isUsageCategory (cut f.key '/').1 = true := by
  obtain ⟨-, hkey, -⟩ := usageFinding_eq_some k target h
  have hcut : (cut f.key '/').1 = f.category.name := by
    obtain ⟨tail, htail⟩ : ∃ tail, f.key = f.category.name ++ "/" ++ tail := by
      rw [hkey]
      unfold usageKey unservedKey
      split_ifs
      · exact ⟨apiKey u.group u.version u.kind ++ "/" ++ unservedKeyPhase, by simp [String.append_assoc]⟩
      · exact ⟨_, rfl⟩
    have := cut_append '/' f.category.name tail (notMem_usageCategory h)
    rw [htail]
    exact congrArg Prod.fst this
  have hcat := usageFinding_category h
  simp only [List.mem_cons, List.not_mem_nil, or_false] at hcat
  rw [hcut]
  obtain hc | hc | hc := hcat <;> rw [hc] <;> decide

/-- The key of a row's finding folds into a usage finding exactly when the row requests its API. -/
theorem foldsInto_callKey (h : usageFinding k target src nsInfo u = some f) (hu : u.ReadBack) (hc : c.PlainNames) :
    foldsInto X (callKey c) f.key = true ↔
      u.group = c.group ∧ u.version = c.version ∧ kindMatchesResource X u.kind c.resource = true := by
  obtain ⟨hcat, rest, hsplit⟩ := cut_callKey hc
  have hrelease : keyGroup u.group ≠ "helm-release" := by
    unfold keyGroup
    split_ifs
    · decide
    · exact hu.notRelease
  unfold foldsInto
  rw [if_neg (by simp [isUsageCategory_usage h]), keyAPI_usage h hu.legible, split_apiKey hu.group hu.version hu.kind, hsplit]
  dsimp only
  rw [decide_eq_true_eq, String.ofList_toList, String.ofList_toList, String.ofList_toList]
  constructor
  · rintro ⟨-, -, hg, hv, hkind⟩
    exact ⟨(keyGroup_inj hc.2.2.2.2 hu.notCore hg).symm, hv.symm, hkind⟩
  · rintro ⟨hg, hv, hkind⟩
    exact ⟨hcat, hrelease, by rw [hg], hv.symm, hkind⟩

end Usage

/-! ## The fold -/

section Fold

variable {X : External} {k : KB} {target : Version} {inv : Inventory} {rows : List DeprecatedCall}

/-- The names of usage rows and callers' rows are told apart. -/
structure FoldNames (X : External) (inv : Inventory) (rows : List DeprecatedCall) : Prop where
  /-- One usage row for each API. -/
  distinct : (inv.apiUsage.map APIUsage.gvk).Nodup
  /-- The names of the usage rows are read back from keys. -/
  usage : ∀ u ∈ inv.apiUsage, u.ReadBack
  /-- The kinds of one group and version have no resource name in common. -/
  resources : ∀ u ∈ inv.apiUsage, ∀ v ∈ inv.apiUsage, SharesResource X u v → u = v
  /-- The names of the callers' rows are read back from keys. -/
  callers : ∀ c ∈ rows, c.PlainNames

/-- The usage findings and the findings of callers' rows with the fold of the one into the other. -/
structure CallersFolded (X : External) (usage calls taken alone : List Finding) : Prop where
  /-- The usage findings stand in their order, with their keys, severities and objects. -/
  kept : List.Forall₂ (fun f t => t.key = f.key ∧ t.severity = f.severity ∧ t.objects = f.objects ∧
    t.objectsOmitted = f.objectsOmitted) usage taken
  /-- Some callers' findings follow, in their order. -/
  inOrder : alone.Sublist calls
  /-- Every caller's finding is there once, folded or standing alone. -/
  once : ((taken.flatMap (·.callers)).map Caller.finding ++ alone).Perm calls
  /-- A folded caller is on the usage finding its key folds into, and is not the more severe. -/
  matched : ∀ t ∈ taken, ∀ c ∈ t.callers, foldsInto X c.key t.key = true ∧ t.severity.rank ≤ c.severity.rank
  /-- A caller's key folds into one usage finding at most. -/
  unique : ∀ call ∈ calls, ∀ f ∈ usage, ∀ g ∈ usage, foldsInto X call.key f.key = true →
    foldsInto X call.key g.key = true → f = g
  /-- A caller is folded exactly when there is such a usage finding and it is not the more severe. -/
  folded : ∀ call ∈ calls, (∃ t ∈ taken, ∃ c ∈ t.callers, c.finding = call) ↔
    ∃ f ∈ usage, foldsInto X call.key f.key = true ∧ f.severity.rank ≤ call.severity.rank
  /-- It stands alone otherwise. -/
  standing : ∀ call ∈ calls, call ∈ alone ↔
    ¬ ∃ f ∈ usage, foldsInto X call.key f.key = true ∧ f.severity.rank ≤ call.severity.rank

variable {c : DeprecatedCall} {f : Finding}

/-- A usage finding of the fold is the capped finding of a usage row. -/
theorem exists_usageRow (hf : f ∈ (evalAPIUsage k target inv).map capNamespaces) :
    ∃ u ∈ inv.apiUsage, ∃ f₀, usageFinding k target inv.source inv.namespaces u = some f₀ ∧ f.key = f₀.key ∧
      f.severity = f₀.severity ∧ f.callers = [] := by
  obtain ⟨f₀, hf₀, rfl⟩ := List.mem_map.mp hf
  obtain ⟨u, hu, hfinding⟩ := List.mem_filterMap.mp hf₀
  obtain ⟨-, -, -, -, hcallers⟩ := usageFinding_eq_some k target hfinding
  exact ⟨u, hu, f₀, hfinding, capNamespaces_key f₀, capNamespaces_severity f₀, by
    rw [capNamespaces_callers, hcallers]⟩

/-- The first usage row with the resource key of a caller's row is of the caller's group and version, or it is to no
effect that it is not: no usage finding that could take the caller is of that row's API or of the caller's own. -/
def FoundByName (X : External) (inv : Inventory) (usage : List Finding) (c : DeprecatedCall) (call : Finding) : Prop :=
  ∀ v, inv.apiUsage.find? (fun v => keysResource X v.group v.version v.kind
      (resourceKey c.group c.version c.resource)) = some v →
    (v.group = c.group ∧ v.version = c.version) ∨
      ∀ f ∈ usage, f.severity.rank ≤ call.severity.rank →
        keyAPI f.key ≠ apiKey v.group v.version v.kind ∧ foldsInto X call.key f.key = false

/-- A row is found by its names where no usage row of another group or version has its resource key. -/
theorem foundByName_of_apart {usage : List Finding} {call : Finding}
    (h : ∀ u ∈ inv.apiUsage, keysResource X u.group u.version u.kind (resourceKey c.group c.version c.resource) = true →
      u.group = c.group ∧ u.version = c.version) : FoundByName X inv usage c call := by
  intro v hv
  have hkeys := List.find?_some hv
  exact .inl (h v (List.mem_of_find?_eq_some hv) hkeys)

/-- A usage finding takes a row that is found by its names exactly when the key of the row's finding folds into its own
and the row is not the more severe: the first usage row with the row's resource is the finding's. -/
theorem takesCall_iff (hn : FoldNames X inv rows) (hf : f ∈ (evalAPIUsage k target inv).map capNamespaces)
    (hc : c ∈ rows) (call : Finding) (hcall : call.key = callKey c)
    (hfound : FoundByName X inv ((evalAPIUsage k target inv).map capNamespaces) c call) :
    takesCall X inv.apiUsage f (c, call) = true ↔
      foldsInto X call.key f.key = true ∧ f.severity.rank ≤ call.severity.rank := by
  obtain ⟨u, hu, f₀, hfinding, hkey, -, -⟩ := exists_usageRow hf
  have hplain := hn.callers c hc
  have hfolds : foldsInto X call.key f.key = true ↔
      u.group = c.group ∧ u.version = c.version ∧ kindMatchesResource X u.kind c.resource = true := by
    rw [hcall, hkey, foldsInto_callKey hfinding (hn.usage u hu) hplain]
  have hapi : keyAPI f.key = apiKey u.group u.version u.kind := by
    rw [hkey, keyAPI_usage hfinding (hn.usage u hu).legible]
  unfold takesCall
  rw [Bool.and_eq_true, decide_eq_true_eq]
  refine and_congr_left fun hrank => ?_
  rw [Option.any_eq_true]
  -- `takesCall` goes through the first usage row of the resource, `foldsInto` through the keys alone.
  constructor
  · rintro ⟨v, hv, happly⟩
    have happly := of_decide_eq_true happly
    obtain ⟨hg, hver⟩ := (hfound v hv).resolve_right fun h => (h f hf hrank).1 happly
    have hkind := List.find?_some hv
    rw [hg, hver, keysResource_own] at hkind
    have hsame := apiKey_inj (hn.usage u hu).toPlainNames
      (hn.usage v (List.mem_of_find?_eq_some hv)).toPlainNames (hapi.symm.trans happly)
    simp only [Prod.mk.injEq] at hsame
    exact hfolds.mpr ⟨hsame.1.trans hg, hsame.2.1.trans hver, by rwa [hsame.2.2]⟩
  · intro hfold
    obtain ⟨hg, hver, hkind⟩ := hfolds.mp hfold
    have hkeys : keysResource X u.group u.version u.kind (resourceKey c.group c.version c.resource) = true := by
      rw [hg, hver]
      exact keysResource_own.mpr hkind
    obtain ⟨v, hv⟩ : ∃ v, inv.apiUsage.find? (fun v => keysResource X v.group v.version v.kind
        (resourceKey c.group c.version c.resource)) = some v :=
      Option.isSome_iff_exists.mp (List.find?_isSome.mpr ⟨u, hu, hkeys⟩)
    refine ⟨v, hv, decide_eq_true ?_⟩
    obtain ⟨hgv, hverv⟩ := (hfound v hv).resolve_right fun h => by simp [(h f hf hrank).2] at hfold
    have hkindv := List.find?_some hv
    rw [hgv, hverv, keysResource_own] at hkindv
    have hshares : SharesResource X u v := ⟨hg.trans hgv.symm, hver.trans hverv.symm, c.resource, hkind, hkindv⟩
    rw [hapi, hn.resources u hu v (List.mem_of_find?_eq_some hv) hshares]

/-- The keys of the usage findings name distinct APIs. -/
theorem FoldNames.nodup_keyAPI (hn : FoldNames X inv rows) :
    (((evalAPIUsage k target inv).map capNamespaces).map fun f => keyAPI f.key).Nodup :=
  nodup_usageKeys hn.distinct fun u hu => (hn.usage u hu).toPlainNames

/-- A row's key folds into one usage finding: the kinds of a group and version share no resource. -/
theorem foldsInto_unique (hn : FoldNames X inv rows) (hc : c ∈ rows) {f g : Finding}
    (hf : f ∈ (evalAPIUsage k target inv).map capNamespaces) (hg : g ∈ (evalAPIUsage k target inv).map capNamespaces)
    (hcf : foldsInto X (callKey c) f.key = true) (hcg : foldsInto X (callKey c) g.key = true) : f = g := by
  obtain ⟨u, hu, f₀, hfu, hkeyf, -, -⟩ := exists_usageRow hf
  obtain ⟨v, hv, g₀, hgv, hkeyg, -, -⟩ := exists_usageRow hg
  rw [hkeyf, foldsInto_callKey hfu (hn.usage u hu) (hn.callers c hc)] at hcf
  rw [hkeyg, foldsInto_callKey hgv (hn.usage v hv) (hn.callers c hc)] at hcg
  have hshares : SharesResource X u v :=
    ⟨hcf.1.trans hcg.1.symm, hcf.2.1.trans hcg.2.1.symm, c.resource, hcf.2.2, hcg.2.2⟩
  obtain rfl := hn.resources u hu v hv hshares
  obtain rfl := Option.some.inj (hfu.symm.trans hgv)
  exact List.inj_on_of_nodup_map (hn.nodup_keyAPI) hf hg (by rw [hkeyf, hkeyg])

/-- The callers on a usage finding after the fold. -/
theorem withCallers_callers (f : Finding) (taken : List (DeprecatedCall × Finding)) :
    (withCallers f taken).callers = f.callers ++ taken.map fun r => callerOf r.1 r.2 := by
  unfold withCallers
  split_ifs with h
  · simp [h]
  · rfl

section Takes

variable {usage : List Finding} {calls : List (DeprecatedCall × Finding)} {takes : Finding → DeprecatedCall × Finding → Bool}

/-- The callers of a finding that had none are the rows it takes. -/
theorem callers_withTaken {f : Finding} (hf : f.callers = []) :
    (withCallers f (calls.filter (takes f))).callers = (calls.filter (takes f)).map fun r => callerOf r.1 r.2 := by
  rw [withCallers_callers, hf, List.nil_append]

/-- A caller on a usage finding is the row of a call the finding takes. -/
theorem mem_callers_withTaken (husage : ∀ f ∈ usage, f.callers = []) {t : Finding}
    (ht : t ∈ usage.map fun f => withCallers f (calls.filter (takes f))) {c : Caller} (hc : c ∈ t.callers) :
    ∃ f ∈ usage, ∃ r ∈ calls, takes f r = true ∧ t.key = f.key ∧ t.severity = f.severity ∧ c = callerOf r.1 r.2 := by
  obtain ⟨f, hf, rfl⟩ := List.mem_map.mp ht
  rw [callers_withTaken (husage f hf)] at hc
  obtain ⟨r, hr, rfl⟩ := List.mem_map.mp hc
  obtain ⟨hrc, htaken⟩ := List.mem_filter.mp hr
  obtain ⟨hkey, -, hsev, -⟩ := withCallers_fields f (calls.filter (takes f))
  exact ⟨f, hf, r, hrc, htaken, hkey, hsev, rfl⟩

/-- The calls the usage findings take, and those none takes, are the calls: where no two findings take one call. -/
theorem perm_callers_withTaken (husage : ∀ f ∈ usage, f.callers = []) (hback : ∀ r ∈ calls, ReadBack r)
    (hexclude : usage.Pairwise fun f g => ∀ r ∈ calls, takes f r = true → takes g r = false) :
    (((usage.map fun f => withCallers f (calls.filter (takes f))).flatMap (·.callers)).map Caller.finding ++
      (calls.filter fun r => !usage.any fun f => takes f r).map (·.2)).Perm (calls.map (·.2)) := by
  have hfolded : ((usage.map fun f => withCallers f (calls.filter (takes f))).flatMap (·.callers)).map Caller.finding =
      (usage.flatMap fun f => calls.filter (takes f)).map (·.2) := by
    rw [List.flatMap_map, List.map_flatMap, List.map_flatMap]
    refine List.flatMap_congr fun f hf => ?_
    rw [callers_withTaken (husage f hf), List.map_map]
    exact List.map_congr_left fun r hr => hback r (List.mem_filter.mp hr).1
  rw [hfolded, ← List.map_append]
  exact (perm_flatMap_filter_append _ calls hexclude).map _

/-- No finding takes a call exactly when it folds into none that is as severe. -/
theorem not_any_takes_iff (htakes : ∀ f ∈ usage, ∀ r ∈ calls, takes f r = true ↔
      foldsInto X r.2.key f.key = true ∧ f.severity.rank ≤ r.2.severity.rank) {r : DeprecatedCall × Finding} (hr : r ∈ calls) :
    (!usage.any fun f => takes f r) = true ↔
      ¬ ∃ f ∈ usage, foldsInto X r.2.key f.key = true ∧ f.severity.rank ≤ r.2.severity.rank := by
  rw [Bool.not_eq_true', ← Bool.not_eq_true, List.any_eq_true]
  refine not_congr ⟨?_, ?_⟩
  · rintro ⟨f, hf, htaken⟩
    exact ⟨f, hf, (htakes f hf r hr).mp htaken⟩
  · rintro ⟨f, hf, hfolds⟩
    exact ⟨f, hf, (htakes f hf r hr).mpr hfolds⟩

/-- A fold by a relation that reads the keys as `foldsInto` does, and finds at most one finding for a call, is
faithful. -/
theorem callersFolded_of_takes (husage : ∀ f ∈ usage, f.callers = []) (hback : ∀ r ∈ calls, ReadBack r)
    (hdistinct : usage.Nodup)
    (htakes : ∀ f ∈ usage, ∀ r ∈ calls, takes f r = true ↔
      foldsInto X r.2.key f.key = true ∧ f.severity.rank ≤ r.2.severity.rank)
    (hunique : ∀ r ∈ calls, ∀ f ∈ usage, ∀ g ∈ usage, foldsInto X r.2.key f.key = true →
      foldsInto X r.2.key g.key = true → f = g) :
    CallersFolded X usage (calls.map (·.2)) (usage.map fun f => withCallers f (calls.filter (takes f)))
      ((calls.filter fun r => !usage.any fun f => takes f r).map (·.2)) := by
  refine ⟨?_, ?_, ?_, ?_, ?_, ?_, ?_⟩
  · rw [List.forall₂_map_right_iff, List.forall₂_same]
    intro f _
    obtain ⟨hkey, -, hsev, hobjects⟩ := withCallers_fields f (calls.filter (takes f))
    refine ⟨hkey, hsev, hobjects, ?_⟩
    unfold withCallers
    split_ifs <;> rfl
  · exact List.filter_sublist.map _
  · refine perm_callers_withTaken husage hback ?_
    refine hdistinct.imp_of_mem fun {f g} hf hg hne r hr hfr => ?_
    -- Two findings that took one call would be the same finding.
    rw [← Bool.not_eq_true]
    intro hgr
    exact hne (hunique r hr f hf g hg ((htakes f hf r hr).mp hfr).1 ((htakes g hg r hr).mp hgr).1)
  · intro t ht c hc
    obtain ⟨f, hf, r, hr, htaken, hkey, hsev, rfl⟩ := mem_callers_withTaken husage ht hc
    rw [hkey, hsev]
    exact (htakes f hf r hr).mp htaken
  · intro call hc f hf g hg
    obtain ⟨r, hr, rfl⟩ := List.mem_map.mp hc
    exact hunique r hr f hf g hg
  · intro call hc
    constructor
    · rintro ⟨t, ht, c, hct, rfl⟩
      obtain ⟨f, hf, r, hr, htaken, -, -, rfl⟩ := mem_callers_withTaken husage ht hct
      rw [hback r hr]
      exact ⟨f, hf, (htakes f hf r hr).mp htaken⟩
    · rintro ⟨f, hf, hfolds⟩
      obtain ⟨r, hr, rfl⟩ := List.mem_map.mp hc
      refine ⟨_, List.mem_map_of_mem hf, callerOf r.1 r.2, ?_, hback r hr⟩
      rw [callers_withTaken (husage f hf)]
      exact List.mem_map_of_mem (f := fun r : DeprecatedCall × Finding => callerOf r.1 r.2)
        (List.mem_filter.mpr ⟨hr, (htakes f hf r hr).mpr hfolds⟩)
  · intro call hc
    constructor
    · intro halone
      obtain ⟨r, hr, rfl⟩ := List.mem_map.mp halone
      obtain ⟨hrc, hno⟩ := List.mem_filter.mp hr
      exact (not_any_takes_iff htakes hrc).mp hno
    · intro hno
      obtain ⟨r, hr, rfl⟩ := List.mem_map.mp hc
      exact List.mem_map.mpr ⟨r, List.mem_filter.mpr ⟨hr, (not_any_takes_iff htakes hr).mpr hno⟩, rfl⟩

end Takes

/-- The callers' rows are paired with the findings of each. -/
theorem mem_rows {r : DeprecatedCall × Finding} (hr : r ∈ rows.map fun c => (c, callFinding X k target c)) :
    r.1 ∈ rows ∧ r.2 = callFinding X k target r.1 := by
  obtain ⟨c, hc, rfl⟩ := List.mem_map.mp hr
  exact ⟨hc, rfl⟩

/-- Where every caller's row is found by its names, the fold is faithful. -/
theorem callersFolded_of_found (hn : FoldNames X inv rows)
    (hfound : ∀ c ∈ rows, FoundByName X inv ((evalAPIUsage k target inv).map capNamespaces) c (callFinding X k target c)) :
    ∃ taken alone, foldDeprecatedCalls X inv ((evalAPIUsage k target inv).map capNamespaces)
        (rows.map fun c => (c, callFinding X k target c)) = taken ++ alone ∧
      CallersFolded X ((evalAPIUsage k target inv).map capNamespaces) (rows.map (callFinding X k target)) taken alone := by
  rw [foldDeprecatedCalls_eq inv _ hn.nodup_keyAPI]
  refine ⟨_, _, rfl, ?_⟩
  have hsnd : rows.map (callFinding X k target) = (rows.map fun c => (c, callFinding X k target c)).map (·.2) := by
    rw [List.map_map]
    rfl
  rw [hsnd]
  refine callersFolded_of_takes (fun f hf => callers_evalAPIUsage hf) ?_ (List.Nodup.of_map _ hn.nodup_keyAPI) ?_ ?_
  · intro r hr
    unfold ReadBack
    rw [(mem_rows hr).2]
    exact finding_callerOf X k target r.1
  · intro f hf r hr
    obtain ⟨hc, hr2⟩ := mem_rows hr
    exact takesCall_iff hn hf hc r.2 (by rw [hr2]; rfl) (hr2 ▸ hfound r.1 hc)
  · intro r hr f hf g hg hrf hrg
    obtain ⟨hc, hr2⟩ := mem_rows hr
    have hkey : r.2.key = callKey r.1 := by rw [hr2]; rfl
    rw [hkey] at hrf hrg
    exact foldsInto_unique hn hc hf hg hrf hrg

/-- A faithful fold takes a caller's row only by its own API, and misses none: every row is found by its names. -/
theorem found_of_callersFolded (hn : FoldNames X inv rows) {taken alone : List Finding}
    (heq : foldDeprecatedCalls X inv ((evalAPIUsage k target inv).map capNamespaces)
        (rows.map fun c => (c, callFinding X k target c)) = taken ++ alone)
    (h : CallersFolded X ((evalAPIUsage k target inv).map capNamespaces) (rows.map (callFinding X k target)) taken alone)
    {c : DeprecatedCall} (hc : c ∈ rows) :
    FoundByName X inv ((evalAPIUsage k target inv).map capNamespaces) c (callFinding X k target c) := by
  set usage := (evalAPIUsage k target inv).map capNamespaces with husage
  set calls := rows.map fun c => (c, callFinding X k target c) with hcalls
  rw [foldDeprecatedCalls_eq inv _ hn.nodup_keyAPI] at heq
  -- The usage findings are as many in both splits, so the splits are one.
  obtain ⟨rfl, -⟩ := List.append_inj heq (by rw [List.length_map, h.kept.length_eq])
  have hnames : ∀ f ∈ usage, foldsInto X (callKey c) f.key = true → ∀ v ∈ inv.apiUsage,
      keyAPI f.key = apiKey v.group v.version v.kind → v.group = c.group ∧ v.version = c.version := by
    intro f hf hfold v hv hapi
    obtain ⟨u, hu, f₀, hfinding, hkey, -, -⟩ := exists_usageRow hf
    rw [hkey, foldsInto_callKey hfinding (hn.usage u hu) (hn.callers c hc)] at hfold
    rw [hkey, keyAPI_usage hfinding (hn.usage u hu).legible] at hapi
    have hsame := apiKey_inj (hn.usage u hu).toPlainNames (hn.usage v hv).toPlainNames hapi
    simp only [Prod.mk.injEq] at hsame
    exact ⟨hsame.1.symm.trans hfold.1, hsame.2.1.symm.trans hfold.2.1⟩
  -- What a finding takes it takes by the keys.
  have htaken : ∀ f ∈ usage, ∀ r ∈ calls, takesCall X inv.apiUsage f r = true → foldsInto X (callKey r.1) f.key = true := by
    intro f hf r hr htakes
    have hcaller : callerOf r.1 r.2 ∈ (withCallers f (calls.filter (takesCall X inv.apiUsage f))).callers := by
      rw [callers_withTaken (callers_evalAPIUsage hf)]
      exact List.mem_map_of_mem (f := fun r : DeprecatedCall × Finding => callerOf r.1 r.2)
        (List.mem_filter.mpr ⟨hr, htakes⟩)
    obtain ⟨hkey, -⟩ := withCallers_fields f (calls.filter (takesCall X inv.apiUsage f))
    have hfold := (h.matched _ (List.mem_map_of_mem hf) _ hcaller).1
    rw [hkey, (mem_rows hr).2] at hfold
    exact hfold
  intro v hv
  have hvmem := List.mem_of_find?_eq_some hv
  refine or_iff_not_imp_left.mpr fun hother f hf hrank => ⟨fun hapi => hother ?_, ?_⟩
  · have htakes : takesCall X inv.apiUsage f (c, callFinding X k target c) = true := by
      unfold takesCall
      rw [Bool.and_eq_true, Option.any_eq_true, decide_eq_true_eq]
      exact ⟨⟨v, hv, decide_eq_true hapi⟩, hrank⟩
    have hfold := htaken f hf (c, callFinding X k target c) (List.mem_map.mpr ⟨c, hc, rfl⟩) htakes
    exact hnames f hf hfold v hvmem hapi
  · rw [← Bool.not_eq_true]
    intro hfold
    -- The caller is on a finding through a row of the same names, which is found as this one is.
    obtain ⟨t, ht, caller, hcaller, hfinding⟩ := (h.folded _ (List.mem_map_of_mem hc)).mpr ⟨f, hf, hfold, hrank⟩
    obtain ⟨g, hg, r, hr, htakes, -, -, rfl⟩ := mem_callers_withTaken (fun f hf => callers_evalAPIUsage hf) ht hcaller
    obtain ⟨hr1, hr2⟩ := mem_rows hr
    have hkey : callKey r.1 = callKey c := by
      have hback := finding_callerOf X k target r.1
      rw [← hr2, hfinding] at hback
      rw [hr2] at hback
      exact (congrArg Finding.key hback).symm
    have hfoldg := htaken g hg r hr htakes
    rw [hkey] at hfoldg
    have hrequest := callKey_inj (hn.callers r.1 hr1) (hn.callers c hc) hkey
    simp only [DeprecatedCall.request, Prod.mk.injEq] at hrequest
    unfold takesCall at htakes
    rw [Bool.and_eq_true, hrequest.1, hrequest.2.1, hrequest.2.2.1, hv] at htakes
    exact hother (hnames g hg hfoldg v hvmem (of_decide_eq_true htakes.1))

/-- Folding callers loses nothing and hides no severity exactly when every caller's row is found by its names. -/
theorem foldDeprecatedCalls_faithful (hn : FoldNames X inv rows) :
    (∃ taken alone, foldDeprecatedCalls X inv ((evalAPIUsage k target inv).map capNamespaces)
        (rows.map fun c => (c, callFinding X k target c)) = taken ++ alone ∧
      CallersFolded X ((evalAPIUsage k target inv).map capNamespaces) (rows.map (callFinding X k target)) taken alone) ↔
    ∀ c ∈ rows, FoundByName X inv ((evalAPIUsage k target inv).map capNamespaces) c (callFinding X k target c) := by
  constructor
  · rintro ⟨taken, alone, heq, h⟩ c hc
    exact found_of_callersFolded hn heq h hc
  · exact callersFolded_of_found hn

/-- A client of an ingress resource folds into the finding of the ingresses, one of another API stands
alone. -/
theorem foldDeprecatedCalls_ingress :
    let rows : List DeprecatedCall :=
      [{ group := "extensions", version := "v1beta1", resource := "ingresses" },
       { group := "batch", version := "v1beta1", resource := "cronjobs" }]
    (FoldNames .ascii ingressFirst rows ∧ ∀ c ∈ rows, ∀ u ∈ ingressFirst.apiUsage,
        keysResource .ascii u.group u.version u.kind (resourceKey c.group c.version c.resource) = true →
          u.group = c.group ∧ u.version = c.version) ∧
      ∃ taken alone, foldDeprecatedCalls .ascii ingressFirst
          ((evalAPIUsage ingressKB ⟨1, 22⟩ ingressFirst).map capNamespaces)
          (rows.map fun c => (c, callFinding .ascii ingressKB ⟨1, 22⟩ c)) = taken ++ alone ∧
        CallersFolded .ascii ((evalAPIUsage ingressKB ⟨1, 22⟩ ingressFirst).map capNamespaces)
          (rows.map (callFinding .ascii ingressKB ⟨1, 22⟩)) taken alone := by
  intro rows
  have hnames : FoldNames .ascii ingressFirst rows := by
    constructor
    case distinct => decide
    case usage =>
      simp only [ingressFirst, calledCluster, calledRows, List.forall_mem_cons, List.not_mem_nil, false_implies,
        implies_true, and_true]
      refine ⟨⟨?_, by decide, by decide⟩, ?_, by decide, by decide⟩ <;> constructor <;> decide
    case resources => simp [ingressFirst, calledCluster, calledRows, oneObject, SharesResource]
    case callers =>
      unfold DeprecatedCall.PlainNames
      decide
  have hapart : ∀ c ∈ rows, ∀ u ∈ ingressFirst.apiUsage,
      keysResource .ascii u.group u.version u.kind (resourceKey c.group c.version c.resource) = true →
        u.group = c.group ∧ u.version = c.version := by decide
  exact ⟨⟨hnames, hapart⟩, (foldDeprecatedCalls_faithful hnames).mpr fun c hc => foundByName_of_apart (hapart c hc)⟩

/-- With a separator of the indexes inside the names, a client of one API folds into the finding of
another. -/
theorem not_callersFolded_nul :
    let inv : Inventory :=
      { apiUsage := [{ group := "a", version := "b\x00v1", kind := "Thing", count := 1, objects := [{ name := "one" }] }] }
    let rows : List DeprecatedCall := [{ group := "a\x00b", version := "v1", resource := "things" }]
    let k : KB := { builtinGroups := ["a"], maxKnownK8s := ⟨1, 34⟩ }
    FoldNames .ascii inv rows ∧
      ¬ ∃ taken alone, foldDeprecatedCalls .ascii inv ((evalAPIUsage k ⟨1, 22⟩ inv).map capNamespaces)
          (rows.map fun c => (c, callFinding .ascii k ⟨1, 22⟩ c)) = taken ++ alone ∧
        CallersFolded .ascii ((evalAPIUsage k ⟨1, 22⟩ inv).map capNamespaces)
          (rows.map (callFinding .ascii k ⟨1, 22⟩)) taken alone := by
  intro inv rows k
  have hnames : FoldNames .ascii inv rows := by
    constructor
    case distinct => decide
    case usage =>
      simp only [inv, List.forall_mem_cons, List.not_mem_nil, false_implies, implies_true, and_true]
      exact ⟨⟨by decide, by decide, by decide, by decide⟩, by decide, by decide⟩
    case resources => simp [inv]
    case callers =>
      unfold DeprecatedCall.PlainNames
      decide
  refine ⟨hnames, ?_⟩
  rintro ⟨taken, alone, hfold, h⟩
  -- The fold has no finding but the usage finding, so the client is on it, against their keys.
  have hlength : (foldDeprecatedCalls .ascii inv ((evalAPIUsage k ⟨1, 22⟩ inv).map capNamespaces)
      (rows.map fun c => (c, callFinding .ascii k ⟨1, 22⟩ c))).length = 1 := by decide +kernel
  have husage : ((evalAPIUsage k ⟨1, 22⟩ inv).map capNamespaces).length = 1 := by decide +kernel
  have hnone : (((evalAPIUsage k ⟨1, 22⟩ inv).map capNamespaces).all fun f =>
      !foldsInto .ascii (callFinding .ascii k ⟨1, 22⟩ { group := "a\x00b", version := "v1", resource := "things" }).key
        f.key) = true := by decide +kernel
  rw [hfold, List.length_append, ← h.kept.length_eq, husage] at hlength
  have halone : alone = [] := List.length_eq_zero_iff.mp (by omega)
  have hcall : callFinding .ascii k ⟨1, 22⟩ { group := "a\x00b", version := "v1", resource := "things" } ∈
      rows.map (callFinding .ascii k ⟨1, 22⟩) := List.mem_cons_self
  have hstands := (h.standing _ hcall).mpr fun ⟨f, hf, hfolds, _⟩ => by
    have := List.all_eq_true.mp hnone f hf
    simp [hfolds] at this
  rw [halone] at hstands
  simp at hstands

end Fold

end UpgradeScope
