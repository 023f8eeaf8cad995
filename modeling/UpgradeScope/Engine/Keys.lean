import UpgradeScope.Engine.Usage

/-!
# The keys of API findings

A finding's key is text: the category, then the group, version and kind of the API between slashes, and
`/unserved` after them when the target does not serve the API yet. Where no name has a slash and no group
is called as keys call the core group (`APIUsage.PlainNames`), the text tells the APIs apart: `apiKey_inj`
for the tail of a key, `keyAPI_inj` for the API that is read back from the key of a usage finding.
-/

namespace UpgradeScope

open Go

/-- A usage row whose names the keys of findings keep apart: no name has the separator of a key, and
the group is not called as keys call the core group. -/
structure APIUsage.PlainNames (u : APIUsage) : Prop where
  /-- The group has no slash. -/
  group : '/' ∉ u.group.toList
  /-- The version has no slash. -/
  version : '/' ∉ u.version.toList
  /-- The kind has no slash. -/
  kind : '/' ∉ u.kind.toList
  /-- The group is not called core. -/
  notCore : u.group ≠ "core"

/-- The text after the last separator and the text before it are read off the whole. -/
theorem append_sep_inj_right {sep : Char} {a b a' b' : List Char} (hb : sep ∉ b) (hb' : sep ∉ b')
    (h : a ++ sep :: b = a' ++ sep :: b') : a = a' ∧ b = b' := by
  have hrev : b.reverse ++ sep :: a.reverse = b'.reverse ++ sep :: a'.reverse := by
    simpa using congrArg List.reverse h
  obtain ⟨h1, h2⟩ := append_sep_inj (by simpa using hb) (by simpa using hb') hrev
  exact ⟨List.reverse_injective h2, List.reverse_injective h1⟩

/-- The characters of an API's key. -/
theorem apiKey_toList (g v k : String) :
    (apiKey g v k).toList = (keyGroup g).toList ++ '/' :: (v.toList ++ '/' :: k.toList) := by
  simp [apiKey]

/-- A group without a slash has none in keys. -/
theorem notMem_keyGroup {g : String} (h : '/' ∉ g.toList) : '/' ∉ (keyGroup g).toList := by
  unfold keyGroup
  split_ifs
  · decide
  · exact h

/-- The keys of groups that are not called core tell them apart. -/
theorem keyGroup_inj {g g' : String} (h : g ≠ "core") (h' : g' ≠ "core") (heq : keyGroup g = keyGroup g') :
    g = g' := by
  unfold keyGroup at heq
  split_ifs at heq with hg hg' hg'
  · rw [hg, hg']
  · exact absurd heq.symm h'
  · exact absurd heq h
  · exact heq

/-- The key of an API tells it apart. -/
theorem apiKey_inj {u u' : APIUsage} (h : u.PlainNames) (h' : u'.PlainNames)
    (heq : apiKey u.group u.version u.kind = apiKey u'.group u'.version u'.kind) :
    (u.group, u.version, u.kind) = (u'.group, u'.version, u'.kind) := by
  have hl := congrArg String.toList heq
  rw [apiKey_toList, apiKey_toList] at hl
  obtain ⟨hg, hrest⟩ := append_sep_inj (notMem_keyGroup h.group) (notMem_keyGroup h'.group) hl
  obtain ⟨hv, hk⟩ := append_sep_inj h.version h'.version hrest
  rw [keyGroup_inj h.notCore h'.notCore (String.toList_inj.mp hg), String.toList_inj.mp hv,
    String.toList_inj.mp hk]

/-- An unserved key is its base with the mark of one. -/
theorem baseOfUnservedKey_some {key base : String} (h : baseOfUnservedKey key = some base) :
    key = unservedKey base ∧ hasPrefix base (Category.removedAPI.name ++ "/") := by
  unfold baseOfUnservedKey at h
  split at h
  · simp at h
  · rename_i b hb
    split_ifs at h with hbad
    obtain rfl := Option.some.inj h
    refine ⟨?_, by simpa using (not_or.mp hbad).1⟩
    rw [cutSuffix?_eq_some.mp hb]
    simp [unservedKey, String.append_assoc]

/-- What is read back as the API of a usage finding's key: the API's key; with the mark of an unserved
API where the key looks like a Helm release's; or without its kind, where that is the mark. -/
theorem keyAPI_usageKey {cat : Category} {u : APIUsage} {unserved : Bool} (hcat : '/' ∉ cat.name.toList)
    (hu : u.PlainNames) :
    keyAPI (usageKey cat u unserved) = apiKey u.group u.version u.kind ∨
      keyAPI (usageKey cat u unserved) = apiKey u.group u.version u.kind ++ "/unserved" ∨
      (u.kind = "unserved" ∧ keyAPI (usageKey cat u unserved) = keyGroup u.group ++ "/" ++ u.version) := by
  obtain ⟨rest, hkey, hrest⟩ : ∃ rest, usageKey cat u unserved = cat.name ++ "/" ++ rest ∧
      (unserved = true ∧ rest = apiKey u.group u.version u.kind ++ "/unserved" ∨
        unserved = false ∧ rest = apiKey u.group u.version u.kind) := by
    unfold usageKey
    cases unserved with
    | true => exact ⟨_, by simp [unservedKey, unservedKeyPhase, String.append_assoc], .inl ⟨rfl, rfl⟩⟩
    | false => exact ⟨_, rfl, .inr ⟨rfl, rfl⟩⟩
  rw [hkey]
  unfold keyAPI
  cases hbase : baseOfUnservedKey (cat.name ++ "/" ++ rest) with
  | none =>
    -- Nothing is cut off, so the text after the category is read back.
    have hcut : (cut (cat.name ++ "/" ++ rest) '/').2.1 = rest := by
      rw [show ("/" : String) = String.singleton '/' from rfl, cut_append '/' _ _ hcat]
    rw [Option.getD_none, hcut]
    rcases hrest with ⟨-, rfl⟩ | ⟨-, rfl⟩
    · exact .inr (.inl rfl)
    · exact .inl rfl
  | some base =>
    obtain ⟨t, ht, hrest'⟩ : ∃ t, base = "removed-api" ++ "/" ++ t ∧ rest = t ++ "/unserved" := by
      obtain ⟨hkey', hpre⟩ := baseOfUnservedKey_some hbase
      obtain ⟨t, rfl⟩ := hasPrefix_iff.mp hpre
      refine ⟨t, by simp [Category.name], ?_⟩
      have hl : cat.name.toList ++ '/' :: rest.toList =
          "removed-api".toList ++ '/' :: (t.toList ++ "/unserved".toList) := by
        simpa [Category.name, unservedKey, unservedKeyPhase] using congrArg String.toList hkey'
      obtain ⟨-, hr⟩ := append_sep_inj hcat (by decide) hl
      rw [← String.toList_inj, hr, String.toList_append]
    have hcut : (cut base '/').2.1 = t := by
      rw [ht, show ("/" : String) = String.singleton '/' from rfl, cut_append '/' _ _ (by decide)]
    rw [Option.getD_some, hcut]
    rcases hrest with ⟨-, rfl⟩ | ⟨-, rfl⟩
    · left
      exact (String.append_left_inj "/unserved").mp hrest'.symm
    · -- The API's own kind is the mark.
      right; right
      have hl := congrArg String.toList hrest'
      rw [apiKey_toList, String.toList_append] at hl
      have hl' : ((keyGroup u.group).toList ++ '/' :: u.version.toList) ++ '/' :: u.kind.toList =
          t.toList ++ '/' :: "unserved".toList := by
        simpa using hl
      obtain ⟨h1, h2⟩ := append_sep_inj_right hu.kind (by decide) hl'
      refine ⟨String.toList_inj.mp h2, ?_⟩
      rw [← String.toList_inj, ← h1]
      simp

/-- How many slashes the forms of `keyAPI_usageKey` have. -/
theorem count_slash {u : APIUsage} (hu : u.PlainNames) :
    count (apiKey u.group u.version u.kind) '/' = 2 ∧
      count (apiKey u.group u.version u.kind ++ "/unserved") '/' = 3 ∧
      count (keyGroup u.group ++ "/" ++ u.version) '/' = 1 := by
  have hg := List.count_eq_zero.mpr (notMem_keyGroup hu.group)
  have hv := List.count_eq_zero.mpr hu.version
  have hk := List.count_eq_zero.mpr hu.kind
  have hmark : "/unserved".toList.count '/' = 1 := by decide
  unfold count
  refine ⟨?_, ?_, ?_⟩
  · rw [apiKey_toList]
    simp [hg, hv, hk]
  · rw [String.toList_append, List.count_append, apiKey_toList, hmark]
    simp [hg, hv, hk]
  · simp [hg, hv]

/-- The API that is read back from the key of a usage finding tells the row apart. -/
theorem keyAPI_inj {cat cat' : Category} {u u' : APIUsage} {unserved unserved' : Bool}
    (hcat : '/' ∉ cat.name.toList) (hcat' : '/' ∉ cat'.name.toList) (hu : u.PlainNames)
    (hu' : u'.PlainNames)
    (heq : keyAPI (usageKey cat u unserved) = keyAPI (usageKey cat' u' unserved')) :
    (u.group, u.version, u.kind) = (u'.group, u'.version, u'.kind) := by
  obtain ⟨h2, h3, h1⟩ := count_slash hu
  obtain ⟨h2', h3', h1'⟩ := count_slash hu'
  -- Different forms have different numbers of slashes.
  have hn := congrArg (count · '/') heq
  rcases keyAPI_usageKey hcat hu with h | h | ⟨hk, h⟩ <;> rw [h] at heq hn <;>
    rcases keyAPI_usageKey hcat' hu' with h' | h' | ⟨hk', h'⟩ <;> rw [h'] at heq hn
  case inl.inl => exact apiKey_inj hu hu' heq
  case inr.inl.inr.inl => exact apiKey_inj hu hu' ((String.append_left_inj "/unserved").mp heq)
  case inr.inr.inr.inr =>
    have hl := congrArg String.toList heq
    have hl' : (keyGroup u.group).toList ++ '/' :: u.version.toList =
        (keyGroup u'.group).toList ++ '/' :: u'.version.toList := by simpa using hl
    obtain ⟨hg, hv⟩ := append_sep_inj (notMem_keyGroup hu.group) (notMem_keyGroup hu'.group) hl'
    rw [hk, hk', keyGroup_inj hu.notCore hu'.notCore (String.toList_inj.mp hg), String.toList_inj.mp hv]
  all_goals omega

end UpgradeScope
