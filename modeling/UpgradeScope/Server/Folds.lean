import UpgradeScope.Engine.Keys
import UpgradeScope.Server.Notify

/-!
# The index of carried usage findings

The delta asks of every new deprecated caller whether it folds into a carried usage finding, and
answers by a lookup (`newCarriedFolds`, `folds`) instead of comparing it with every carried finding
(`foldsInto`). The lookup's answer is `foldsInto`'s when no carried key is an unserved key twice over
(`folds_iff`): the index takes the unserved phase off a key before `foldsInto` takes it off again.
-/

namespace UpgradeScope.Notify

open Go Sorting

variable (X : External)

/-- A key whose base, when it is an unserved key, is not an unserved key itself. -/
def Plain (key : String) : Prop := ∀ base, baseOfUnservedKey key = some base → baseOfUnservedKey base = none

instance (key : String) : Decidable (Plain key) :=
  match h : baseOfUnservedKey key with
  | none => isTrue fun base hb => by simp [h] at hb
  | some base =>
    if hb : baseOfUnservedKey base = none then
      isTrue fun b hb' => by rw [h] at hb'; exact Option.some.inj hb' ▸ hb
    else isFalse fun hp => hb (hp base h)

/-- The group, version and lower-case kind of the API a usage key names. -/
def usageAPI (usage : String) : Option (String × String × String) :=
  if ¬ isUsageCategory (cut usage '/').1 then none
  else match split (keyAPI usage) '/' with
    | [group, version, kind] =>
      if group = "helm-release" ∨ kind = "" then none else some (group, version, X.lower kind)
    | _ => none

/-- A deprecated caller's key names a resource of an API. -/
def callsAPI (call : String) (api : String × String × String) : Prop :=
  (cut call '/').1 = Category.deprecatedAPIInUse.name ∧
    ∃ r rest, splitN '/' 4 (cut call '/').2.1.toList =
      api.1.toList :: api.2.1.toList :: r :: rest ∧
      (String.ofList r = api.2.2 ∨ String.ofList r = plural api.2.2)

/-- `foldsInto` in terms of the API a usage key names. -/
theorem foldsInto_iff {call usage : String} :
    foldsInto X call usage = true ↔ ∃ api, usageAPI X usage = some api ∧ callsAPI call api := by
  unfold foldsInto usageAPI
  by_cases hcat : isUsageCategory (cut usage '/').1
  · rw [if_neg (by simp [hcat]), if_neg (by simp [hcat])]
    split
    · rename_i ug uv uk cg cv cr rest hu hc
      rw [decide_eq_true_eq, kindMatchesResource, decide_eq_true_eq]
      simp only [hu, callsAPI, hc, resourceNames]
      constructor
      · rintro ⟨hcall, hug, rfl, rfl, hk, hr⟩
        refine ⟨(String.ofList cg, String.ofList cv, X.lower uk), ?_, hcall, cr, rest, by simp, hr⟩
        rw [if_neg (by simp [hug, hk])]
      · rintro ⟨api, hapi, hcall, r, rest', heq, hr⟩
        split_ifs at hapi with hbad
        obtain rfl := Option.some.inj hapi
        simp only [List.cons.injEq] at heq
        obtain ⟨rfl, rfl, rfl, rfl⟩ := heq
        simp only [not_or] at hbad
        simp [hcall, hbad.1, hbad.2, hr]
    · rename_i hno
      constructor
      · simp
      · rintro ⟨api, hapi, hcall, r, rest, heq, hr⟩
        split at hapi
        · rename_i g v k hs
          exact absurd heq (hno _ _ _ _ _ _ _ hs)
        · simp at hapi
  · rw [if_pos (by simp [hcat]), if_pos (by simp [hcat])]
    simp

/-- The category of an unserved key and of its base is `removed-api`. -/
theorem cut_of_hasPrefix_removed {s : String} (h : hasPrefix s (Category.removedAPI.name ++ "/")) :
    (cut s '/').1 = Category.removedAPI.name := by
  obtain ⟨t, rfl⟩ := hasPrefix_iff.mp h
  have := cut_append '/' Category.removedAPI.name t (by decide)
  rw [show String.singleton '/' = "/" from rfl] at this
  rw [this]

/-- A key and the key it is indexed under have one category. -/
theorem cut_base {key base : String} (h : baseOfUnservedKey key = some base) :
    (cut key '/').1 = (cut base '/').1 := by
  obtain ⟨rfl, hpre⟩ := baseOfUnservedKey_some h
  rw [cut_of_hasPrefix_removed hpre]
  refine cut_of_hasPrefix_removed (hasPrefix_iff.mpr ?_)
  obtain ⟨t, rfl⟩ := hasPrefix_iff.mp hpre
  exact ⟨t ++ "/" ++ unservedKeyPhase, by simp [unservedKey, String.append_assoc]⟩

/-- The key a finding is indexed under names the finding's API. -/
theorem usageAPI_base {key : String} (h : Plain key) :
    usageAPI X ((baseOfUnservedKey key).getD key) = usageAPI X key := by
  cases hb : baseOfUnservedKey key with
  | none => rfl
  | some base =>
    unfold usageAPI keyAPI
    rw [Option.getD_some, cut_base hb, hb, h base hb]
    rfl

/-- A finding is indexed exactly under the API its key names. -/
theorem indexedUsage_eq (h : FindingHead) :
    indexedUsage X h =
      (usageAPI X h.ident).map fun api => ((baseOfUnservedKey h.ident).getD h.ident, api) := by
  have hcat : (cut h.ident '/').1 = (cut ((baseOfUnservedKey h.ident).getD h.ident) '/').1 := by
    cases hb : baseOfUnservedKey h.ident with
    | none => rfl
    | some base => exact cut_base hb
  unfold indexedUsage usageAPI keyAPI
  rw [hcat]
  generalize (baseOfUnservedKey h.ident).getD h.ident = usage
  by_cases husage : isUsageCategory (cut usage '/').1
  · simp only [husage, not_true, if_false]
    generalize split (cut usage '/').2.1 '/' = parts
    rcases parts with _ | ⟨g, _ | ⟨v, _ | ⟨k, _ | ⟨l, rest⟩⟩⟩⟩
    · rfl
    · rfl
    · rfl
    · by_cases hbad : g = "helm-release" ∨ k = "" <;> simp [hbad]
    · rfl
  · simp [husage]

/-- A key that names no kind called as the mark of an unserved key. -/
def NotUnservedKind (key : String) : Prop := ∀ g v, split (keyAPI key) '/' ≠ [g, v, unservedKeyPhase]

/-- The last of three segments is what follows the last slash. -/
theorem split_three_last {t last g v k : String} (hlast : '/' ∉ last.toList)
    (h : split (t ++ "/" ++ last) '/' = [g, v, k]) : k = last := by
  have hsegs : (t ++ "/" ++ last).toList.splitOn '/' = [g.toList, v.toList, k.toList] := by
    have := congrArg (List.map String.toList) h
    simpa [split, Function.comp_def] using this
  have htext : t.toList ++ '/' :: last.toList = (g.toList ++ '/' :: v.toList) ++ '/' :: k.toList := by
    have hjoin : ['/'].intercalate ((t ++ "/" ++ last).toList.splitOn '/') = (t ++ "/" ++ last).toList :=
      List.intercalate_splitOn _
    rw [hsegs] at hjoin
    simpa [List.intercalate] using hjoin.symm
  have hk : '/' ∉ k.toList := notMem_of_mem_split (s := t ++ "/" ++ last) (by simp [h])
  exact (String.toList_inj.mp (append_sep_inj_right hlast hk htext).2).symm

/-- Where a key names an API whose kind is not the mark, the key it is indexed under names the same. -/
theorem usageAPI_base_of_kind {key : String} (hkind : NotUnservedKind key) {api : String × String × String}
    (h : usageAPI X key = some api) : usageAPI X ((baseOfUnservedKey key).getD key) = some api := by
  by_cases hplain : Plain key
  · rw [usageAPI_base X hplain, h]
  · -- An unserved key twice over: what is left of it ends in the mark, and that is the kind.
    exfalso
    unfold Plain at hplain
    push Not at hplain
    obtain ⟨base, hb, hbase⟩ := hplain
    obtain ⟨base', hb'⟩ := Option.ne_none_iff_exists'.mp hbase
    obtain ⟨rfl, hpre⟩ := baseOfUnservedKey_some hb'
    obtain ⟨t, rfl⟩ := hasPrefix_iff.mp hpre
    have hapi : keyAPI key = t ++ "/" ++ unservedKeyPhase := by
      unfold keyAPI
      rw [hb, Option.getD_some]
      have hcut := cut_append '/' Category.removedAPI.name (t ++ "/" ++ unservedKeyPhase) (by decide)
      have hkey : unservedKey (Category.removedAPI.name ++ "/" ++ t) =
          Category.removedAPI.name ++ String.singleton '/' ++ (t ++ "/" ++ unservedKeyPhase) := by
        simp [unservedKey, String.append_assoc]
      rw [hkey, hcut]
    unfold usageAPI at h
    split_ifs at h
    split at h
    · rename_i g v k hs
      rw [hapi] at hs
      refine hkind g v ?_
      rw [hapi, hs, split_three_last (by decide) hs]
    · simp at h

/-- The group and version of a named API hold no slash. -/
theorem usageAPI_noSlash {usage : String} {api : String × String × String}
    (h : usageAPI X usage = some api) : '/' ∉ api.1.toList ∧ '/' ∉ api.2.1.toList := by
  unfold usageAPI at h
  split_ifs at h
  split at h
  · rename_i g v k hs
    split_ifs at h
    obtain rfl := Option.some.inj h
    exact ⟨notMem_of_mem_split (s := keyAPI usage) (by simp [hs]),
      notMem_of_mem_split (s := keyAPI usage) (by simp [hs])⟩
  · simp at h

/-- An API's group, version and kind are read off the text that joins them. -/
theorem joined_inj {a b : String × String × String} (ha : '/' ∉ a.1.toList ∧ '/' ∉ a.2.1.toList)
    (hb : '/' ∉ b.1.toList ∧ '/' ∉ b.2.1.toList)
    (h : a.1 ++ "/" ++ a.2.1 ++ "/" ++ a.2.2 = b.1 ++ "/" ++ b.2.1 ++ "/" ++ b.2.2) : a = b := by
  obtain ⟨ag, av, ak⟩ := a
  obtain ⟨bg, bv, bk⟩ := b
  have hl := congrArg String.toList h
  simp only [String.toList_append, show "/".toList = ['/'] from rfl, List.append_assoc,
    List.singleton_append] at hl
  obtain ⟨hg, hrest⟩ := append_sep_inj ha.1 hb.1 hl
  obtain ⟨hv, hk⟩ := append_sep_inj ha.2 hb.2 hrest
  rw [String.toList_inj] at hg hv hk
  exact Prod.ext hg (Prod.ext hv hk)

/-- The engine's plural of a kind is one of the names the index lists. -/
theorem mem_carriedResourceNames {k r : String} (h : r = k ∨ r = plural k) :
    r ∈ carriedResourceNames k := by
  rcases h with rfl | rfl
  · simp [carriedResourceNames]
  · unfold plural
    split
    · simp [carriedResourceNames]
    · rename_i c rest hk
      split_ifs
      · simp [carriedResourceNames]
      · have hcut : cutSuffix? k "y" = some (String.ofList (c :: rest).reverse) := by
          rw [cutSuffix?_eq_some, ← String.toList_inj]
          have := congrArg List.reverse hk
          simpa using this
        simp [carriedResourceNames, hcut]
    · simp [carriedResourceNames]

variable {carried : List FindingHead}

/-- The lookup answers as comparing the caller with every carried finding would, when the key that each
carried finding is indexed under names its API. -/
theorem folds_iff_of_indexed (hp : ∀ h ∈ carried, ∀ api, usageAPI X h.ident = some api →
      usageAPI X ((baseOfUnservedKey h.ident).getD h.ident) = some api) {call : String} :
    folds X (newCarriedFolds X carried) call = true ↔
      ∃ h ∈ carried, foldsInto X call h.ident = true := by
  -- An entry of the index comes from a carried finding with the same API.
  have hentry : ∀ u, u ∈ carried.filterMap (indexedUsage X) →
      ∃ h ∈ carried, usageAPI X h.ident = some u.2 ∧ usageAPI X u.1 = some u.2 := by
    intro u hu
    obtain ⟨h, hh, hidx⟩ := List.mem_filterMap.mp hu
    rw [indexedUsage_eq X h] at hidx
    obtain ⟨api, hapi, rfl⟩ := Option.map_eq_some_iff.mp hidx
    exact ⟨h, hh, hapi, hp h hh api hapi⟩
  constructor
  · intro hf
    unfold folds at hf
    split_ifs at hf
    split at hf
    · obtain ⟨e, he, hfold⟩ := List.any_eq_true.mp hf
      obtain ⟨hidx, -⟩ := List.mem_filter.mp he
      obtain ⟨u, hu, hmap⟩ := List.mem_flatMap.mp hidx
      obtain ⟨r, -, rfl⟩ := List.mem_map.mp hmap
      obtain ⟨h, hh, hapi, hapi'⟩ := hentry u (mem_of_mem_distinctOn hu)
      obtain ⟨api, hu', hcall⟩ := (foldsInto_iff X).mp hfold
      rw [hapi'] at hu'
      exact ⟨h, hh, (foldsInto_iff X).mpr ⟨api, by rw [hapi, hu'], hcall⟩⟩
    · simp at hf
  · rintro ⟨h, hh, hfold⟩
    obtain ⟨api, hapi, hcall⟩ := (foldsInto_iff X).mp hfold
    have hin : ((baseOfUnservedKey h.ident).getD h.ident, api) ∈ carried.filterMap (indexedUsage X) :=
      List.mem_filterMap.mpr ⟨h, hh, by rw [indexedUsage_eq X h, hapi]; rfl⟩
    -- The entry kept for this API may be another finding's, with the same API.
    obtain ⟨u, hu, hid⟩ := exists_mem_distinctOn
      (fun u : String × String × String × String => u.2.1 ++ "/" ++ u.2.2.1 ++ "/" ++ u.2.2.2) hin
    obtain ⟨h', -, -, hu'⟩ := hentry u (mem_of_mem_distinctOn hu)
    have heq : u.2 = api :=
      joined_inj (usageAPI_noSlash X hu') (usageAPI_noSlash X hapi) hid
    obtain ⟨hcat, r, rest, hsplit, hr⟩ := hcall
    unfold folds
    rw [if_neg (by simpa using hcat), hsplit]
    refine List.any_eq_true.mpr ⟨(u.2.1 ++ "/" ++ u.2.2.1 ++ "/" ++ String.ofList r, u.1), ?_, ?_⟩
    · refine List.mem_filter.mpr ⟨List.mem_flatMap.mpr ⟨u, hu, List.mem_map.mpr
        ⟨String.ofList r, mem_carriedResourceNames (by rw [heq]; exact hr), rfl⟩⟩, ?_⟩
      simp [heq]
    · exact (foldsInto_iff X).mpr ⟨api, by rw [hu', heq], hcat, r, rest, hsplit, hr⟩

/-- The lookup answers as comparing the caller with every carried finding would, when no carried key
is an unserved key twice over. -/
theorem folds_iff (hp : ∀ h ∈ carried, Plain h.ident) {call : String} :
    folds X (newCarriedFolds X carried) call = true ↔
      ∃ h ∈ carried, foldsInto X call h.ident = true :=
  folds_iff_of_indexed X fun h hh api hapi => by rw [usageAPI_base X (hp h hh), hapi]

/-- The names a kind may go by are distinct. -/
theorem nodup_carriedResourceNames (kind : String) : (carriedResourceNames kind).Nodup := by
  unfold carriedResourceNames
  cases hstem : cutSuffix? kind "y" with
  | none => simp [← String.toList_inj]
  | some stem =>
    rw [cutSuffix?_eq_some.mp hstem]
    simp [← String.toList_inj]

/-- The index keeps one entry for a resource and an API. -/
theorem pairwise_newCarriedFolds (hp : ∀ h ∈ carried, ∀ api, usageAPI X h.ident = some api →
      usageAPI X ((baseOfUnservedKey h.ident).getD h.ident) = some api) :
    (newCarriedFolds X carried).Pairwise fun e e' => e.1 = e'.1 → usageAPI X e.2 ≠ usageAPI X e'.2 := by
  set kept := distinctOn (fun u : String × String × String × String => u.2.1 ++ "/" ++ u.2.2.1 ++ "/" ++ u.2.2.2)
    (carried.filterMap (indexedUsage X)) with hkept
  have hapi : ∀ u ∈ kept, usageAPI X u.1 = some u.2 := by
    intro u hu
    obtain ⟨h, hh, hidx⟩ := List.mem_filterMap.mp (mem_of_mem_distinctOn hu)
    rw [indexedUsage_eq X h] at hidx
    obtain ⟨api, hapi, rfl⟩ := Option.map_eq_some_iff.mp hidx
    exact hp h hh api hapi
  have hdistinct : kept.Pairwise fun u u' => u.2 ≠ u'.2 := by
    refine (List.pairwise_map.mp (nodup_distinctOn _ _)).imp fun {u u'} hne heq => hne ?_
    rw [heq]
  unfold newCarriedFolds
  rw [← hkept, List.pairwise_flatMap]
  constructor
  · -- Of one kind there is one entry for each of its names.
    intro u hu
    rw [List.pairwise_map]
    refine (nodup_carriedResourceNames u.2.2.2).imp fun {r r'} hne heq => absurd ?_ hne
    exact (String.append_right_inj _).mp heq
  · refine hdistinct.imp_of_mem fun {u u'} hu hu' hne e he e' he' _ heq => hne ?_
    obtain ⟨r, -, rfl⟩ := List.mem_map.mp he
    obtain ⟨r', -, rfl⟩ := List.mem_map.mp he'
    rw [hapi u hu, hapi u' hu'] at heq
    exact Option.some.inj heq

/-- The index answers what `foldsInto` answers when no carried key names a kind called unserved, and under a
resource it has one entry for each group, version and lower-case kind. -/
theorem folds_iff_of_kinds {carried : List FindingHead} (hkinds : ∀ h ∈ carried, NotUnservedKind h.ident) :
    (∀ call, folds X (newCarriedFolds X carried) call = true ↔
      ∃ h ∈ carried, foldsInto X call h.ident = true) ∧
    ∀ resource, (((newCarriedFolds X carried).filter (·.1 = resource)).map fun e => usageAPI X e.2).Nodup := by
  have hp : ∀ h ∈ carried, ∀ api, usageAPI X h.ident = some api →
      usageAPI X ((baseOfUnservedKey h.ident).getD h.ident) = some api :=
    fun h hh api => usageAPI_base_of_kind X (hkinds h hh)
  refine ⟨fun call => folds_iff_of_indexed X hp, fun resource => ?_⟩
  rw [List.Nodup, List.pairwise_map]
  refine ((pairwise_newCarriedFolds X hp).filter _).imp_of_mem fun {e e'} he he' hne => hne ?_
  rw [of_decide_eq_true (List.mem_filter.mp he).2, of_decide_eq_true (List.mem_filter.mp he').2]

/-- Two spellings of a kind, one of them not served yet, and a finding of another category: one entry answers for
the kind. -/
theorem folds_ingress_spellings :
    let head := fun (category : Category) (key : String) => (⟨category, .blocker, key, "", [], 0, false, 0⟩ : FindingHead)
    let carried := [head .removedAPI "removed-api/networking.k8s.io/v1/Ingress/unserved",
      head .deprecatedAPI "deprecated-api/networking.k8s.io/v1/ingress", head .versionSkew "version-skew/node-a"]
    (∀ h ∈ carried, NotUnservedKind h.ident) ∧
      ((∀ call, folds .ascii (newCarriedFolds .ascii carried) call = true ↔
          ∃ h ∈ carried, foldsInto .ascii call h.ident = true) ∧
        ∀ resource, (((newCarriedFolds .ascii carried).filter (·.1 = resource)).map fun e =>
          usageAPI .ascii e.2).Nodup) ∧
      folds .ascii (newCarriedFolds .ascii carried) "deprecated-api-in-use/networking.k8s.io/v1/ingresses/status" =
        true := by
  intro head carried
  have hkinds : ∀ h ∈ carried, NotUnservedKind h.ident := by
    have hsegs : carried.all (fun h => (split (keyAPI h.ident) '/').getLast? ≠ some unservedKeyPhase) = true := by
      decide +kernel
    intro h hh g v heq
    have hlast := List.all_eq_true.mp hsegs h hh
    rw [heq] at hlast
    simp at hlast
  exact ⟨hkinds, folds_iff_of_kinds .ascii hkinds, by decide +kernel⟩

end UpgradeScope.Notify
