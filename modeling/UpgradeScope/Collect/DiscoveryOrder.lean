import UpgradeScope.Collect.ApiUsage

/-!
# Discovery in another order

What `collectAPIUsage` finds does not depend on the order of discovery's lists, or of the resources in them, where
nothing that it chooses by their order is tied: the place that a resource is listed at (`mayList` has those that some
order leads to), and the rows of one group/version/kind that it then sorts (`NothingTied`). One tie is left, among the
targets of one LIST: the objects that nothing attributes go to the target of the lowest version, and two groups that share
a LIST can have the same version. `collectAPIUsage_order` says that without the other ties the order shows exactly when
there are such objects at two lowest targets; `ingress_order_shows` has the Ingresses of two groups.
-/

namespace UpgradeScope.Collect

open Go Sorting Merging Kb

/-- What apimachinery documents of `CompareKubeAwareVersionStrings`: it orders versions. -/
structure KubeOrder (cmp : String → String → ℤ) : Prop where
  /-- A version is below another when that is above it. -/
  swap : ∀ a b, cmp a b < 0 ↔ 0 < cmp b a
  trans : ∀ a b c, cmp a b ≤ 0 → cmp b c ≤ 0 → cmp a c ≤ 0

/-! ## Where a resource is listed -/

section Best

variable {X : Kube} {pref : String} {a b c : ServedVersion}

/-- What `bestListable` looks at before the versions. -/
def listRank (pref : String) (a : ServedVersion) : ℕ :=
  (if a.flagged then 2 else 0) + if a.version = pref then 0 else 1

theorem listOrder_nonpos_iff : listOrder X pref a b ≤ 0 ↔ listRank pref a < listRank pref b ∨
    listRank pref a = listRank pref b ∧ X.compareKubeAware b.version a.version ≤ 0 := by
  unfold listOrder listRank
  cases a.flagged <;> cases b.flagged <;> by_cases ha : a.version = pref <;> by_cases hb : b.version = pref <;>
    simp [ha, hb]

theorem listOrder_total (hX : KubeOrder X.compareKubeAware) (a b : ServedVersion) :
    listOrder X pref a b ≤ 0 ∨ listOrder X pref b a ≤ 0 := by
  have hswap := hX.swap b.version a.version
  simp only [listOrder_nonpos_iff]
  omega

theorem listOrder_trans (hX : KubeOrder X.compareKubeAware) (hab : listOrder X pref a b ≤ 0)
    (hbc : listOrder X pref b c ≤ 0) : listOrder X pref a c ≤ 0 := by
  have htrans := hX.trans c.version b.version a.version
  simp only [listOrder_nonpos_iff] at *
  omega

/-- The listable versions that no other one is before: `bestListable` returns one of them, in some order each. -/
def bests (X : Kube) (served : List ServedVersion) (pref : String) : List ServedVersion :=
  served.filter fun a => a.list ∧ ∀ b ∈ served, b.list → listOrder X pref a b ≤ 0

variable {served : List ServedVersion}

theorem mem_bests : a ∈ bests X served pref ↔
    a ∈ served ∧ a.list = true ∧ ∀ b ∈ served, b.list = true → listOrder X pref a b ≤ 0 := by
  unfold bests
  rw [List.mem_filter, decide_eq_true_eq]

theorem bests_perm {served served' : List ServedVersion} (h : served.Perm served') :
    a ∈ bests X served' pref ↔ a ∈ bests X served pref := by
  simp only [mem_bests, h.mem_iff]

/-- The best versions are flagged or not together. -/
theorem flagged_eq_of_mem_bests (ha : a ∈ bests X served pref) (hb : b ∈ bests X served pref) :
    a.flagged = b.flagged := by
  obtain ⟨ha, halist, habest⟩ := mem_bests.mp ha
  obtain ⟨hb, hblist, hbbest⟩ := mem_bests.mp hb
  have hab := listOrder_nonpos_iff.mp (habest b hb hblist)
  have hba := listOrder_nonpos_iff.mp (hbbest a ha halist)
  have hrank : listRank pref a = listRank pref b := by omega
  revert hrank
  unfold listRank
  cases a.flagged <;> cases b.flagged <;> by_cases ha : a.version = pref <;> by_cases hb : b.version = pref <;>
    simp [ha, hb]

theorem mem_bests_of_bestListable (hX : KubeOrder X.compareKubeAware) (h : bestListable X served pref = some a) :
    a ∈ bests X served pref := by
  have : Std.Total fun a b : ServedVersion => listOrder X pref a b ≤ 0 := ⟨listOrder_total hX⟩
  have : IsTrans ServedVersion fun a b => listOrder X pref a b ≤ 0 := ⟨fun _ _ _ => listOrder_trans hX⟩
  unfold bestListable at h
  obtain ⟨rest, hsorted⟩ := List.head?_eq_some_iff.mp h
  have hpairwise := List.pairwise_insertionSort (fun a b => listOrder X pref a b ≤ 0) (served.filter (·.list))
  rw [hsorted, List.pairwise_cons] at hpairwise
  have hmem : ∀ {b}, b ∈ a :: rest ↔ b ∈ served ∧ b.list = true := fun {b} => by
    rw [← hsorted, List.mem_insertionSort, List.mem_filter]
  refine mem_bests.mpr ⟨(hmem.mp List.mem_cons_self).1, (hmem.mp List.mem_cons_self).2, fun b hb hlist => ?_⟩
  rcases List.mem_cons.mp (hmem.mpr ⟨hb, hlist⟩) with rfl | hrest
  · exact (listOrder_total hX b b).elim id id
  · exact hpairwise.1 b hrest

theorem bestListable_eq_none :
    bestListable X served pref = none ↔ ∀ a ∈ served, a.list = false := by
  unfold bestListable
  rw [List.head?_eq_none_iff, ← List.length_eq_zero_iff, List.length_insertionSort, List.length_eq_zero_iff,
    List.filter_eq_nil_iff]
  simp

theorem listVersion_eq_none :
    listVersion X served pref = none ↔ served.any (·.flagged) = false ∨ ∀ a ∈ served, a.list = false := by
  unfold listVersion
  split_ifs with hflagged
  · simp [hflagged, bestListable_eq_none]
  · simp [hflagged]

theorem mem_bests_of_listVersion (hX : KubeOrder X.compareKubeAware) (h : listVersion X served pref = some a) :
    served.any (·.flagged) = true ∧ a ∈ bests X served pref := by
  unfold listVersion at h
  split_ifs at h with hflagged
  exact ⟨hflagged, mem_bests_of_bestListable hX h⟩

end Best

section Order

variable (X : Kube) (lifecycle : List APILifecycleEntry) (lists : List APIResourceList) (preferred : String → String)

/-- Where a served version's replacement is listed. -/
def replacementOf (gr : GroupResource) (s : ServedVersion) : Option GVR :=
  replacementList X lifecycle lists preferred gr.resource ((entryOf lifecycle gr s).bind (·.replacement))

/-- The places that a replacement of one of the resource's versions is listed at in some order. -/
def mayReplace (gr : GroupResource) : List GVR :=
  (byResource X lifecycle lists gr).flatMap fun s => ((entryOf lifecycle gr s).bind (·.replacement)).toList.flatMap fun r =>
    let same := (byResource X lifecycle lists ⟨r.group, gr.resource⟩).filter (·.kind = r.kind)
    ((bests X same (preferred r.group)).filter (!·.flagged)).map fun best => ⟨r.group, best.version, gr.resource⟩

/-- The places that a resource is listed at in some order: `planOf` for each of its best versions. -/
def mayList (gr : GroupResource) : List GVR :=
  let served := byResource X lifecycle lists gr
  if served.any (·.flagged) then
    (bests X served (preferred gr.group)).flatMap fun listV =>
      let own : GVR := ⟨gr.group, listV.version, gr.resource⟩
      if listV.flagged then
        match mayReplace X lifecycle lists preferred gr with
        | [] =>
          if served.any fun s => s.flagged ∧ ((entryOf lifecycle gr s).bind (·.removed)).isSome then [own] else []
        | places => places
      else [own]
  else []

/-- Each resource is listed at one place, whatever the order. -/
def OnePlace : Prop := ∀ gr ∈ order X lifecycle lists, ∀ gvr ∈ mayList X lifecycle lists preferred gr,
  ∀ gvr' ∈ mayList X lifecycle lists preferred gr, gvr = gvr'

instance : Decidable (OnePlace X lifecycle lists preferred) := inferInstanceAs (Decidable (∀ gr ∈ _, _))

/-- The same group/version with the same resources. -/
def SameList (l l' : APIResourceList) : Prop := l'.groupVersion = l.groupVersion ∧ l.resources.Perm l'.resources

variable {X lifecycle lists preferred} {lists' : List APIResourceList} {gr : GroupResource}

theorem discovered_perm (h : Reordered SameList lists lists') :
    (discovered X lifecycle lists).Perm (discovered X lifecycle lists') := by
  refine h.flatMap fun l _ l' hl => ?_
  unfold servedIn
  rw [hl.1]
  cases X.parseGroupVersion l.groupVersion with
  | none => rfl
  | some gv => exact (hl.2.filter _).map _

variable {best : ServedVersion} {r : GVR}

/-- A resource is listed at a best version of its own that is not flagged, or is removed and has no other place. -/
theorem mem_mayList_own (hflagged : (byResource X lifecycle lists gr).any (·.flagged) = true)
    (hbest : best ∈ bests X (byResource X lifecycle lists gr) (preferred gr.group))
    (h : best.flagged = false ∨ mayReplace X lifecycle lists preferred gr = [] ∧
      ((byResource X lifecycle lists gr).any fun s => s.flagged ∧ ((entryOf lifecycle gr s).bind (·.removed)).isSome) = true) :
    ⟨gr.group, best.version, gr.resource⟩ ∈ mayList X lifecycle lists preferred gr := by
  unfold mayList
  rw [if_pos hflagged]
  refine List.mem_flatMap.mpr ⟨best, hbest, ?_⟩
  rcases h with hunflagged | ⟨hempty, hremoved⟩
  · simp [hunflagged]
  · simp only [hempty, hremoved, if_true]
    split_ifs <;> exact List.mem_singleton_self _

/-- A resource with flagged versions only is listed where a replacement is. -/
theorem mem_mayList_replaced (hflagged : (byResource X lifecycle lists gr).any (·.flagged) = true)
    (hbest : best ∈ bests X (byResource X lifecycle lists gr) (preferred gr.group)) (hbestflagged : best.flagged = true)
    (hr : r ∈ mayReplace X lifecycle lists preferred gr) : r ∈ mayList X lifecycle lists preferred gr := by
  unfold mayList
  rw [if_pos hflagged]
  refine List.mem_flatMap.mpr ⟨best, hbest, ?_⟩
  dsimp only
  rw [if_pos hbestflagged]
  cases hplaces : mayReplace X lifecycle lists preferred gr with
  | nil => simp [hplaces] at hr
  | cons p ps =>
    rw [hplaces] at hr
    exact hr

/-- A resource's plan, from the version it would be listed at. -/
theorem planOf_of_listVersion (h : listVersion X (byResource X lifecycle lists gr) (preferred gr.group) = some best) :
    planOf X lifecycle lists preferred gr =
      if best.flagged then
        match (byResource X lifecycle lists gr).findSome? (replacementOf X lifecycle lists preferred gr) with
        | some r => some ⟨r, false, true⟩
        | none =>
          if (byResource X lifecycle lists gr).any fun s => s.flagged ∧ ((entryOf lifecycle gr s).bind (·.removed)).isSome then
            some ⟨⟨gr.group, best.version, gr.resource⟩, true, true⟩
          else none
      else some ⟨⟨gr.group, best.version, gr.resource⟩, false, false⟩ := by
  unfold planOf
  dsimp only
  rw [h]
  rfl

variable (hperm : (discovered X lifecycle lists).Perm (discovered X lifecycle lists'))

include hperm

theorem byResource_perm (gr : GroupResource) : (byResource X lifecycle lists gr).Perm (byResource X lifecycle lists' gr) :=
  (hperm.filter _).map _

theorem order_perm : (order X lifecycle lists).Perm (order X lifecycle lists') := by
  refine (List.perm_ext_iff_of_nodup (nodup_distinctOn _ _) (nodup_distinctOn _ _)).mpr fun gr => ?_
  change gr ∈ order X lifecycle lists ↔ gr ∈ order X lifecycle lists'
  rw [mem_order, mem_order]
  simp only [(byResource_perm hperm gr).mem_iff]

theorem mem_mayReplace_perm {gvr : GVR} :
    gvr ∈ mayReplace X lifecycle lists' preferred gr ↔ gvr ∈ mayReplace X lifecycle lists preferred gr := by
  have hsame : ∀ (r : Kb.GVK) best, best ∈ bests X
      ((byResource X lifecycle lists' ⟨r.group, gr.resource⟩).filter (·.kind = r.kind)) (preferred r.group) ↔
      best ∈ bests X ((byResource X lifecycle lists ⟨r.group, gr.resource⟩).filter (·.kind = r.kind)) (preferred r.group) :=
    fun r _ => bests_perm ((byResource_perm hperm ⟨r.group, gr.resource⟩).filter _)
  unfold mayReplace
  simp only [List.mem_flatMap, List.mem_map, List.mem_filter, hsame, (byResource_perm hperm gr).mem_iff]

omit hperm

variable (hX : KubeOrder X.compareKubeAware)

include hX

/-- Where `replacementList` finds a place, it is one of those. -/
theorem mem_mayReplace_of_replacementOf {s : ServedVersion} (hs : s ∈ byResource X lifecycle lists gr)
    (h : replacementOf X lifecycle lists preferred gr s = some r) : r ∈ mayReplace X lifecycle lists preferred gr := by
  unfold replacementOf at h
  cases hentry : (entryOf lifecycle gr s).bind (·.replacement) with
  | none => simp [hentry, replacementList] at h
  | some q =>
    rw [hentry, replacementList] at h
    cases hbest : bestListable X
        ((byResource X lifecycle lists ⟨q.group, gr.resource⟩).filter (·.kind = q.kind)) (preferred q.group) with
    | none => simp [hbest] at h
    | some best =>
      rw [hbest] at h
      dsimp only at h
      split_ifs at h with hflagged
      obtain rfl := Option.some.inj h
      refine List.mem_flatMap.mpr ⟨s, hs, List.mem_flatMap.mpr ⟨q, Option.mem_toList.mpr hentry, ?_⟩⟩
      exact List.mem_map.mpr ⟨best, List.mem_filter.mpr ⟨mem_bests_of_bestListable hX hbest, by simpa using hflagged⟩, rfl⟩

/-- `replacementList` finds no place exactly where there is none. -/
theorem findSome?_replacementOf : (byResource X lifecycle lists gr).findSome? (replacementOf X lifecycle lists preferred gr) = none ↔
    mayReplace X lifecycle lists preferred gr = [] := by
  rw [List.findSome?_eq_none_iff, List.eq_nil_iff_forall_not_mem]
  constructor
  · intro hnone r hr
    obtain ⟨s, hs, hr⟩ := List.mem_flatMap.mp hr
    obtain ⟨q, hq, hr⟩ := List.mem_flatMap.mp hr
    obtain ⟨best, hbest, rfl⟩ := List.mem_map.mp hr
    obtain ⟨hbest, hflagged⟩ := List.mem_filter.mp hbest
    have hfound := hnone s hs
    unfold replacementOf at hfound
    rw [Option.mem_toList.mp hq, replacementList] at hfound
    -- The search has a best version too, which is flagged like this one.
    cases hlisted : bestListable X
        ((byResource X lifecycle lists ⟨q.group, gr.resource⟩).filter (·.kind = q.kind)) (preferred q.group) with
    | none =>
      obtain ⟨hmem, hlist, -⟩ := mem_bests.mp hbest
      simp [bestListable_eq_none.mp hlisted best hmem] at hlist
    | some best' =>
      have hsame := flagged_eq_of_mem_bests (mem_bests_of_bestListable hX hlisted) hbest
      have hunflagged : best'.flagged = false := by simpa [hsame] using hflagged
      simp [hlisted, hunflagged] at hfound
  · intro hnone s hs
    by_contra hsome
    obtain ⟨r, hr⟩ := Option.ne_none_iff_exists'.mp hsome
    exact hnone r (mem_mayReplace_of_replacementOf hX hs hr)

include hperm

variable (hplace : OnePlace X lifecycle lists preferred)

include hplace

theorem planOf_eq (gr : GroupResource) : planOf X lifecycle lists' preferred gr = planOf X lifecycle lists preferred gr := by
  have hserved := byResource_perm hperm gr
  have hany : ∀ p : ServedVersion → Bool, (byResource X lifecycle lists' gr).any p = (byResource X lifecycle lists gr).any p :=
    fun p => any_eq_of_perm hserved.symm
  cases hbest : listVersion X (byResource X lifecycle lists gr) (preferred gr.group) with
  | none =>
    have hnone : listVersion X (byResource X lifecycle lists' gr) (preferred gr.group) = none := by
      rw [listVersion_eq_none] at hbest ⊢
      simpa only [hany, hserved.mem_iff] using hbest
    rw [planOf, planOf, hbest, hnone]
  | some best =>
    cases hbest' : listVersion X (byResource X lifecycle lists' gr) (preferred gr.group) with
    | none =>
      rw [listVersion_eq_none] at hbest'
      simp only [hany, ← hserved.mem_iff] at hbest'
      simp [listVersion_eq_none.mpr hbest'] at hbest
    | some best' =>
      obtain ⟨hflagged, hmem⟩ := mem_bests_of_listVersion hX hbest
      have hmem' := (bests_perm hserved).mp (mem_bests_of_listVersion hX hbest').2
      have hsame := flagged_eq_of_mem_bests hmem' hmem
      obtain ⟨s, hs, -⟩ := List.any_eq_true.mp hflagged
      have hunique := hplace gr (mem_order.mpr ⟨s, hs⟩)
      rw [planOf_of_listVersion hbest, planOf_of_listVersion hbest', hsame, hany]
      by_cases hbestflagged : best.flagged = true
      · rw [if_pos hbestflagged, if_pos hbestflagged]
        have hnone : (byResource X lifecycle lists' gr).findSome? (replacementOf X lifecycle lists' preferred gr) = none ↔
            (byResource X lifecycle lists gr).findSome? (replacementOf X lifecycle lists preferred gr) = none := by
          rw [findSome?_replacementOf hX, findSome?_replacementOf hX, List.eq_nil_iff_forall_not_mem,
            List.eq_nil_iff_forall_not_mem]
          simp only [mem_mayReplace_perm hperm]
        cases hfind : (byResource X lifecycle lists gr).findSome? (replacementOf X lifecycle lists preferred gr) with
        | none =>
          rw [hnone.mpr hfind]
          have hempty := (findSome?_replacementOf hX).mp hfind
          dsimp only
          split_ifs with hremoved
          · rw [hunique _ (mem_mayList_own hflagged hmem' (.inr ⟨hempty, hremoved⟩))
              _ (mem_mayList_own hflagged hmem (.inr ⟨hempty, hremoved⟩))]
          · rfl
        | some r =>
          cases hfind' : (byResource X lifecycle lists' gr).findSome? (replacementOf X lifecycle lists' preferred gr) with
          | none => simp [hnone.mp hfind'] at hfind
          | some r' =>
            obtain ⟨t, ht, hr⟩ := List.exists_of_findSome?_eq_some hfind
            obtain ⟨t', ht', hr'⟩ := List.exists_of_findSome?_eq_some hfind'
            have hplaced := mem_mayReplace_of_replacementOf hX ht hr
            have hplaced' := (mem_mayReplace_perm hperm).mp (mem_mayReplace_of_replacementOf hX ht' hr')
            rw [hunique _ (mem_mayList_replaced hflagged hmem hbestflagged hplaced)
              _ (mem_mayList_replaced hflagged hmem hbestflagged hplaced')]
      · rw [if_neg hbestflagged, if_neg hbestflagged]
        have hunflagged : best.flagged = false := by simpa using hbestflagged
        rw [hunique _ (mem_mayList_own hflagged hmem' (.inl (hsame.trans hunflagged)))
          _ (mem_mayList_own hflagged hmem (.inl hunflagged))]

theorem plans_perm : (plans X lifecycle lists preferred).Perm (plans X lifecycle lists' preferred) := by
  unfold plans
  simp only [planOf_eq hperm hX hplace]
  exact (order_perm hperm).filterMap _

theorem toList_perm : (toList X lifecycle lists preferred).Perm (toList X lifecycle lists' preferred) := by
  refine (List.perm_ext_iff_of_nodup (nodup_distinctOn _ _) (nodup_distinctOn _ _)).mpr fun gvr => ?_
  change gvr ∈ toList X lifecycle lists preferred ↔ gvr ∈ toList X lifecycle lists' preferred
  rw [mem_toList, mem_toList]
  simp only [(plans_perm hperm hX hplace).mem_iff]

theorem targetsOf_perm (gvr : GVR) :
    (targetsOf X lifecycle lists preferred gvr).Perm (targetsOf X lifecycle lists' preferred gvr) := by
  have htargets : ∀ p : GroupResource × Plan,
      (targetsIn X lifecycle lists p.1 p.2.allFlagged).Perm (targetsIn X lifecycle lists' p.1 p.2.allFlagged) :=
    fun p => ((byResource_perm hperm p.1).filter _).map _
  exact (((plans_perm hperm hX hplace).filter _).flatMap_right _).trans
    (List.Perm.flatMap_left _ fun p _ => htargets p)

end Order

/-! ## Where the objects go that nothing attributes -/

section Unknown

variable {X : Kube} {targets targets' : List UsageTarget} {t t' : UsageTarget}

/-- The target looks at authors, and none that does is lower. -/
def Lowest (X : Kube) (targets : List UsageTarget) (t : UsageTarget) : Prop :=
  t ∈ targets ∧ t.allObjects = false ∧
    ∀ t' ∈ targets, t'.allObjects = false → ¬X.compareKubeAware t'.usage.version t.usage.version < 0

theorem Lowest.perm (h : Lowest X targets t) (hperm : targets.Perm targets') : Lowest X targets' t :=
  ⟨hperm.mem_iff.mp h.1, h.2.1, fun t' ht' => h.2.2 t' (hperm.mem_iff.mpr ht')⟩

/-- The turn of a target in the loop that looks for the lowest. -/
def lowerOf (X : Kube) (found : Option (UsageTarget × ℕ)) (t : UsageTarget × ℕ) : Option (UsageTarget × ℕ) :=
  if t.1.allObjects then found
  else match found with
    | none => some t
    | some s => if X.compareKubeAware t.1.usage.version s.1.usage.version < 0 then some t else found

theorem unknownAt_eq (targets : List UsageTarget) : unknownAt X targets = targets.zipIdx.foldl (lowerOf X) none := rfl

/-- What the loop has found is the lowest of the targets it went through. -/
def FoundLowest (X : Kube) (ts : List (UsageTarget × ℕ)) : Option (UsageTarget × ℕ) → Prop
  | none => ∀ p ∈ ts, p.1.allObjects = true
  | some s => s ∈ ts ∧ s.1.allObjects = false ∧
      ∀ p ∈ ts, p.1.allObjects = false → ¬X.compareKubeAware p.1.usage.version s.1.usage.version < 0

theorem foldl_lower (hX : KubeOrder X.compareKubeAware) (ts : List (UsageTarget × ℕ)) :
    FoundLowest X ts (ts.foldl (lowerOf X) none) := by
  induction ts using List.reverseRecOn with
  | nil => exact fun p hp => absurd hp List.not_mem_nil
  | append_singleton ts p ih =>
    rw [List.foldl_append, List.foldl_cons, List.foldl_nil]
    cases hfound : ts.foldl (lowerOf X) none with
    | none =>
      rw [hfound] at ih
      unfold lowerOf
      split_ifs with hall
      · intro q hq
        obtain hq | rfl := List.mem_append.mp hq |>.imp_right List.mem_singleton.mp
        · exact ih q hq
        · exact hall
      · refine ⟨by simp, by simpa using hall, fun q hq hlooks => ?_⟩
        obtain hq | rfl := List.mem_append.mp hq |>.imp_right List.mem_singleton.mp
        · simp [ih q hq] at hlooks
        · intro hlt
          have hgt := (hX.swap _ _).mp hlt
          omega
    | some s =>
      rw [hfound] at ih
      obtain ⟨hmem, hlooks, hlowest⟩ := ih
      unfold lowerOf
      dsimp only
      split_ifs with hall hlt
      · refine ⟨List.mem_append_left _ hmem, hlooks, fun q hq hq' => ?_⟩
        obtain hq | rfl := List.mem_append.mp hq |>.imp_right List.mem_singleton.mp
        · exact hlowest q hq hq'
        · simp [hall] at hq'
      · refine ⟨by simp, by simpa using hall, fun q hq hq' => ?_⟩
        obtain hq | rfl := List.mem_append.mp hq |>.imp_right List.mem_singleton.mp
        · -- lower than the new one would be lower than the one before
          intro hlower
          have hnot := hlowest q hq hq'
          have hswap := hX.swap q.1.usage.version s.1.usage.version
          have hback := hX.trans p.1.usage.version s.1.usage.version q.1.usage.version hlt.le
          have hswap' := hX.swap q.1.usage.version p.1.usage.version
          omega
        · intro hself
          have hgt := (hX.swap _ _).mp hself
          omega
      · refine ⟨List.mem_append_left _ hmem, hlooks, fun q hq hq' => ?_⟩
        obtain hq | rfl := List.mem_append.mp hq |>.imp_right List.mem_singleton.mp
        · exact hlowest q hq hq'
        · exact hlt

/-- The target that the objects go to is a lowest one. -/
theorem unknownAt_some (hX : KubeOrder X.compareKubeAware) {j : ℕ} (h : unknownAt X targets = some (t, j)) :
    Lowest X targets t ∧ targets[j]? = some t := by
  have hfound := foldl_lower hX targets.zipIdx
  rw [← unknownAt_eq, h] at hfound
  obtain ⟨hmem, hlooks, hlowest⟩ := hfound
  rw [List.mem_zipIdx_iff_getElem?] at hmem
  refine ⟨⟨List.mem_of_getElem? hmem, hlooks, fun t' ht' hlooks' => ?_⟩, hmem⟩
  obtain ⟨i, hi⟩ := List.getElem?_of_mem ht'
  exact hlowest (t', i) (List.mem_zipIdx_iff_getElem?.mpr hi) hlooks'

/-- `unknownAt` finds a target where there is a lowest one. -/
theorem unknownAt_isSome (hX : KubeOrder X.compareKubeAware) (h : Lowest X targets t) : ∃ s, unknownAt X targets = some s := by
  have hfound := foldl_lower hX targets.zipIdx
  rw [← unknownAt_eq] at hfound
  cases hat : unknownAt X targets with
  | some s => exact ⟨s, rfl⟩
  | none =>
    rw [hat] at hfound
    obtain ⟨i, hi⟩ := List.getElem?_of_mem h.1
    have hall := hfound (t, i) (List.mem_zipIdx_iff_getElem?.mpr hi)
    simp [h.2.1] at hall

/-- A lowest target that comes first is the one. -/
theorem unknownAt_cons (h : Lowest X (t :: targets) t) : unknownAt X (t :: targets) = some (t, 0) := by
  have hkeep : ∀ ts : List (UsageTarget × ℕ), (∀ p ∈ ts, p.1 ∈ t :: targets) → ts.foldl (lowerOf X) (some (t, 0)) = some (t, 0) := by
    intro ts hts
    induction ts with
    | nil => rfl
    | cons p ts ih =>
      have hp := h.2.2 p.1 (hts p List.mem_cons_self)
      have hstep : lowerOf X (some (t, 0)) p = some (t, 0) := by
        unfold lowerOf
        split_ifs with hall
        · rfl
        · simp [hp (by simpa using hall)]
      rw [List.foldl_cons, hstep]
      exact ih fun q hq => hts q (List.mem_cons_of_mem _ hq)
  rw [unknownAt_eq, List.zipIdx_cons, List.foldl_cons]
  have hfirst : lowerOf X none (t, 0) = some (t, 0) := by simp [lowerOf, h.2.1]
  rw [hfirst]
  refine hkeep _ fun p hp => List.mem_cons_of_mem _ ?_
  exact (List.mem_zipIdx hp).2.2 ▸ List.getElem_mem _

end Unknown

section Rows

variable {X : Kube} {lifecycle : List APILifecycleEntry} {list : GVR → Pages} {lists : List APIResourceList}
  {preferred : String → String} {gvr gvr' : GVR} {t t' : UsageTarget} {items : List ObjectMeta}

theorem record_key (u : APIUsage) (m : ObjectMeta) (manager : String) : byGVK (record u m manager) = byGVK u := by
  unfold record
  dsimp only
  split_ifs <;> rfl

theorem foldl_record_key {f : ObjectMeta → String} (ms : List ObjectMeta) (u : APIUsage) :
    byGVK (ms.foldl (fun u m => record u m (f m)) u) = byGVK u := by
  induction ms generalizing u with
  | nil => rfl
  | cons m ms ih => rw [List.foldl_cons, ih, record_key]

theorem usageRow_key (t : UsageTarget) (items : List ObjectMeta) : byGVK (usageRow X t items) = byGVK t.usage :=
  foldl_record_key _ _

theorem unknownRow_key (here : Bool) (t : UsageTarget) (items : List ObjectMeta) :
    byGVK (unknownRow X here t items) = byGVK t.unknown :=
  foldl_record_key (f := fun _ => "") _ _

theorem unknown_eq_usage (ht : t ∈ targetsOf X lifecycle lists preferred gvr) : t.unknown = t.usage := by
  obtain ⟨gr, plan, -, -, s, -, -, rfl⟩ := mem_targetsOf.mp ht
  rfl

/-- The rows of a LIST of the objects that nothing attributes: one at most, at the lowest target. -/
theorem unknowns_runOf (hX : KubeOrder X.compareKubeAware) (hitems : (list gvr).items = .ok items) :
    ((runOf X lifecycle list lists preferred gvr).done.map (·.unknown)).filter (0 < ·.count) =
      (((unknownAt X (targetsOf X lifecycle lists preferred gvr)).map fun p => unknownRow X true p.1 items).toList).filter
        (0 < ·.count) := by
  rw [done_runOf_ok hitems, map_mapIdx]
  cases hat : unknownAt X (targetsOf X lifecycle lists preferred gvr) with
  | none =>
    simp only [Option.map_none, Option.toList_none, List.filter_nil]
    refine List.filter_eq_nil_iff.mpr fun u hu => ?_
    obtain ⟨i, hi, rfl⟩ := List.mem_mapIdx.mp hu
    simp [unknownRow, targetsOf_unknown (List.getElem_mem hi)]
  | some p =>
    obtain ⟨t, j⟩ := p
    obtain ⟨-, hj⟩ := unknownAt_some hX hat
    rw [filter_mapIdx_of_one hj]
    · simp
    · intro i t' hi hne
      simp [unknownRow, Ne.symm hne, targetsOf_unknown (List.mem_of_getElem? hi)]

theorem usages_runOf (hitems : (list gvr).items = .ok items) :
    (runOf X lifecycle list lists preferred gvr).done.map (·.usage) =
      (targetsOf X lifecycle lists preferred gvr).map (usageRow X · items) := by
  rw [done_runOf_ok hitems, map_mapIdx]
  exact List.ext_getElem (by simp) (by simp)

end Rows

/-! ## The rows -/

section Free

variable (X : Kube) (lifecycle : List APILifecycleEntry) (list : GVR → Pages) (lists : List APIResourceList)

/-- The rows of a complete discovery. -/
def rowsOf (groups : List (String × String)) (lists : List APIResourceList) : Option (List APIUsage × List APIUsage) :=
  (collectAPIUsage X lifecycle list { groups := groups, lists := some lists }).rows

/-- In every order of the lists and of the resources in them the rows are the same. -/
def SameInAnyOrder (groups : List (String × String)) : Prop :=
  ∀ lists', Reordered SameList lists lists' → rowsOf X lifecycle list groups lists' = rowsOf X lifecycle list groups lists

/-- A LIST with an object that nothing attributes to a lowest target has one lowest target. -/
def LoneLowest (preferred : String → String) : Prop :=
  ∀ gvr ∈ toList X lifecycle lists preferred, ∀ items, (list gvr).items = .ok items →
    ∀ t t', Lowest X (targetsOf X lifecycle lists preferred gvr) t → Lowest X (targetsOf X lifecycle lists preferred gvr) t' →
      (∃ m ∈ items, unattributed X t m = true) → t' = t

/-- Nothing that the order of discovery decides is tied, but for the targets of one LIST: each resource is listed at one
place, and the rows of one group/version/kind, which are sorted by it alone, are one. -/
structure NothingTied (preferred : String → String) : Prop where
  /-- Where a resource is listed. -/
  places : OnePlace X lifecycle lists preferred
  /-- The rows of usage that have an object. -/
  usages : ∀ gvr gvr' items items', (list gvr).items = .ok items → (list gvr').items = .ok items' →
    ∀ t ∈ targetsOf X lifecycle lists preferred gvr, ∀ t' ∈ targetsOf X lifecycle lists preferred gvr',
      byGVK t.usage = byGVK t'.usage → 0 < (usageRow X t items).count → 0 < (usageRow X t' items').count →
        usageRow X t items = usageRow X t' items'
  /-- The rows of objects that nothing attributes. -/
  unknowns : ∀ gvr gvr' items items', (list gvr).items = .ok items → (list gvr').items = .ok items' →
    ∀ t t', Lowest X (targetsOf X lifecycle lists preferred gvr) t → Lowest X (targetsOf X lifecycle lists preferred gvr') t' →
      byGVK t.usage = byGVK t'.usage → 0 < (unknownRow X true t items).count → 0 < (unknownRow X true t' items').count →
        t = t' ∧ gvr = gvr'

variable {X lifecycle list lists} {preferred : String → String} {groups : List (String × String)}
  {lists' : List APIResourceList} {gvr : GVR} {items : List ObjectMeta} {t : UsageTarget}

/-- Without such an object there is no row. -/
theorem unknownRow_count (ht : t ∈ targetsOf X lifecycle lists preferred gvr) :
    (unknownRow X true t items).count = items.countP (unattributed X t) := by
  rw [unknownRow, foldl_record_count fun _ => "", targetsOf_unknown ht, List.countP_eq_length_filter]
  simp

/-- The rows of a LIST of the objects that nothing attributes are those of any order of its targets. -/
theorem unknowns_eq (hX : KubeOrder X.compareKubeAware) (hlone : LoneLowest X lifecycle list lists preferred)
    (hperm : (targetsOf X lifecycle lists preferred gvr).Perm (targetsOf X lifecycle lists' preferred gvr))
    (hgvr : gvr ∈ toList X lifecycle lists preferred) (hitems : (list gvr).items = .ok items) :
    ((runOf X lifecycle list lists preferred gvr).done.map (·.unknown)).filter (0 < ·.count) =
      ((runOf X lifecycle list lists' preferred gvr).done.map (·.unknown)).filter (0 < ·.count) := by
  rw [unknowns_runOf hX hitems, unknowns_runOf hX hitems]
  cases hat : unknownAt X (targetsOf X lifecycle lists preferred gvr) with
  | none =>
    cases hat' : unknownAt X (targetsOf X lifecycle lists' preferred gvr) with
    | none => rfl
    | some p =>
      have hlowest := (unknownAt_some hX hat').1.perm hperm.symm
      obtain ⟨s, hs⟩ := unknownAt_isSome hX hlowest
      simp [hat] at hs
  | some p =>
    obtain ⟨t, j⟩ := p
    have ht := (unknownAt_some hX hat).1
    obtain ⟨⟨t', j'⟩, hat'⟩ := unknownAt_isSome hX (ht.perm hperm)
    have ht' := (unknownAt_some hX hat').1.perm hperm.symm
    rw [hat']
    by_cases heq : t' = t
    · rw [heq]
      rfl
    · -- two lowest targets, so nothing goes to either
      have hnone : ∀ {t t' : UsageTarget}, Lowest X (targetsOf X lifecycle lists preferred gvr) t →
          Lowest X (targetsOf X lifecycle lists preferred gvr) t' → t' ≠ t → (unknownRow X true t items).count = 0 := by
        intro t t' ht ht' hne
        rw [unknownRow_count ht.1]
        simp only [Int.natCast_eq_zero, List.countP_eq_zero]
        exact fun m hm hun => hne (hlone gvr hgvr items hitems t t' ht ht' ⟨m, hm, hun⟩)
      simp [hnone ht ht' heq, hnone ht' ht (Ne.symm heq)]

theorem runs_flatMap {β : Type} (f : ListRun → List β) : (runs X lifecycle list lists preferred).flatMap f =
    (toList X lifecycle lists preferred).flatMap fun gvr => f (runOf X lifecycle list lists preferred gvr) :=
  List.flatMap_map _ _ _

theorem rowsOf_eq : rowsOf X lifecycle list groups lists =
    some (sortOn byGVK ((((runs X lifecycle list lists (preferredOf groups)).flatMap (·.done)).map (·.usage)).filter (0 < ·.count)),
      sortOn byGVK ((((runs X lifecycle list lists (preferredOf groups)).flatMap (·.done)).map (·.unknown)).filter (0 < ·.count))) :=
  rfl

/-- The rows of usage, and those of the objects that nothing attributes, of every LIST. -/
theorem mem_usages {u : APIUsage} (hu : u ∈ ((runs X lifecycle list lists preferred).flatMap (·.done)).map (·.usage)) :
    ∃ gvr items t, (list gvr).items = .ok items ∧ t ∈ targetsOf X lifecycle lists preferred gvr ∧ u = usageRow X t items := by
  obtain ⟨t, ht, rfl⟩ := List.mem_map.mp hu
  rw [runs_flatMap] at ht
  obtain ⟨gvr, -, ht⟩ := List.mem_flatMap.mp ht
  obtain ⟨items, hitems, t', ht', -, husage, -⟩ := mem_done ht
  exact ⟨gvr, items, t', hitems, ht', husage⟩

theorem mem_unknowns {u : APIUsage} (hX : KubeOrder X.compareKubeAware)
    (hu : u ∈ (((runs X lifecycle list lists preferred).flatMap (·.done)).map (·.unknown)).filter (0 < ·.count)) :
    ∃ gvr items t j, (list gvr).items = .ok items ∧ unknownAt X (targetsOf X lifecycle lists preferred gvr) = some (t, j) ∧
      gvr ∈ toList X lifecycle lists preferred ∧ u = unknownRow X true t items := by
  rw [runs_flatMap, List.map_flatMap, List.filter_flatMap] at hu
  obtain ⟨gvr, hgvr, hu⟩ := List.mem_flatMap.mp hu
  cases hitems : (list gvr).items with
  | error e =>
    rw [ListRun.done, runOf_error hitems] at hu
    cases hu
  | ok items =>
    rw [unknowns_runOf hX hitems] at hu
    cases hat : unknownAt X (targetsOf X lifecycle lists preferred gvr) with
    | none => simp [hat] at hu
    | some p =>
      rw [hat] at hu
      obtain ⟨hu, -⟩ := List.mem_filter.mp hu
      exact ⟨gvr, items, p.1, p.2, hitems, hat, hgvr, by simpa using hu⟩

/-- With one lowest target wherever it matters, no order shows. -/
theorem sameInAnyOrder_of_loneLowest (hX : KubeOrder X.compareKubeAware) (hlist : ∀ gvr, ∃ items, (list gvr).items = .ok items)
    (huntied : NothingTied X lifecycle list lists (preferredOf groups)) (hlone : LoneLowest X lifecycle list lists (preferredOf groups)) :
    SameInAnyOrder X lifecycle list lists groups := by
  intro lists' hreordered
  have hperm : (discovered X lifecycle lists).Perm (discovered X lifecycle lists') := discovered_perm hreordered
  have hlists := toList_perm hperm hX huntied.places
  have htargets := targetsOf_perm hperm hX huntied.places
  rw [rowsOf_eq, rowsOf_eq]
  -- The rows first, then those of objects that nothing attributes: each a sort of the same rows by keys of their own.
  congr 2
  · symm
    refine sortOn_eq_of_perm ?_ (List.Perm.filter _ ?_)
    · intro a ha b hb hkey
      obtain ⟨ha, hpos⟩ := List.mem_filter.mp ha
      obtain ⟨hb, hpos'⟩ := List.mem_filter.mp hb
      obtain ⟨gvr, items, t, hitems, ht, rfl⟩ := mem_usages ha
      obtain ⟨gvr', items', t', hitems', ht', rfl⟩ := mem_usages hb
      rw [usageRow_key, usageRow_key] at hkey
      exact huntied.usages gvr gvr' items items' hitems hitems' t ht t' ht' hkey (by simpa using hpos) (by simpa using hpos')
    · rw [runs_flatMap, runs_flatMap, List.map_flatMap, List.map_flatMap]
      refine (hlists.flatMap_right _).trans (List.Perm.flatMap_left _ fun gvr _ => ?_)
      obtain ⟨items, hitems⟩ := hlist gvr
      rw [usages_runOf hitems, usages_runOf hitems]
      exact (htargets gvr).map _
  · symm
    refine sortOn_eq_of_perm ?_ ?_
    · intro a ha b hb hkey
      obtain ⟨gvr, items, t, j, hitems, hat, -, rfl⟩ := mem_unknowns hX ha
      obtain ⟨gvr', items', t', j', hitems', hat', -, rfl⟩ := mem_unknowns hX hb
      have ht := (unknownAt_some hX hat).1
      have ht' := (unknownAt_some hX hat').1
      rw [unknownRow_key, unknownRow_key, unknown_eq_usage ht.1, unknown_eq_usage ht'.1] at hkey
      obtain ⟨rfl, rfl⟩ := huntied.unknowns gvr gvr' items items' hitems hitems' t t' ht ht' hkey
        (of_decide_eq_true (List.mem_filter.mp ha).2) (of_decide_eq_true (List.mem_filter.mp hb).2)
      rw [Except.ok.inj (hitems.symm.trans hitems')]
    · rw [runs_flatMap, runs_flatMap, List.map_flatMap, List.map_flatMap, List.filter_flatMap, List.filter_flatMap]
      refine (hlists.flatMap_right _).trans (List.Perm.flatMap_left _ fun gvr hgvr => ?_)
      obtain ⟨items, hitems⟩ := hlist gvr
      rw [unknowns_eq hX hlone (htargets gvr) (hlists.mem_iff.mpr hgvr) hitems]

/-! ## A tie that shows -/

/-- Anything discovered can come first. -/
theorem exists_front {p : GroupResource × ServedVersion} (hp : p ∈ discovered X lifecycle lists) :
    ∃ lists' rest, Reordered SameList lists lists' ∧ discovered X lifecycle lists' = p :: rest := by
  obtain ⟨l, hl, hserved⟩ := List.mem_flatMap.mp hp
  obtain ⟨before, after, rfl⟩ := List.append_of_mem hl
  unfold servedIn at hserved
  cases hparse : X.parseGroupVersion l.groupVersion with
  | none => simp [hparse] at hserved
  | some gv =>
    rw [hparse] at hserved
    obtain ⟨r, hr, rfl⟩ := List.mem_map.mp hserved
    obtain ⟨hr, hname⟩ := List.mem_filter.mp hr
    obtain ⟨resources, resources', hresources⟩ := List.append_of_mem hr
    have hreordered : Reordered SameList (before ++ l :: after)
        (⟨l.groupVersion, r :: (resources ++ resources')⟩ :: (before ++ after)) := by
      refine ⟨l :: (before ++ after), List.perm_middle, .cons ⟨rfl, ?_⟩ (List.forall₂_same.mpr fun _ _ => ⟨rfl, .refl _⟩)⟩
      rw [hresources]
      exact List.perm_middle
    refine ⟨_, (((resources ++ resources').filter fun r => '/' ∉ r.name.toList).map fun r =>
      (⟨gv.1, r.name⟩, servedAs lifecycle gv.1 gv.2 r)) ++ discovered X lifecycle (before ++ after), hreordered, ?_⟩
    rw [discovered, List.flatMap_cons, servedIn, hparse]
    simp only [List.filter_cons, hname, if_true, List.map_cons, List.cons_append]
    rfl

/-- The target of what is discovered first is the first of its LIST. -/
theorem targetsOf_front {gr : GroupResource} {s : ServedVersion} {rest : List (GroupResource × ServedVersion)} {plan : Plan}
    (hfront : discovered X lifecycle lists = (gr, s) :: rest) (hplan : planOf X lifecycle lists preferred gr = some plan)
    (hflagged : s.flagged = true) :
    ∃ more, targetsOf X lifecycle lists preferred plan.gvr = targetOf X lifecycle gr plan.allFlagged s :: more := by
  have hplans : ∃ more, plans X lifecycle lists preferred = (gr, plan) :: more := by
    unfold plans order
    rw [hfront, distinctOn, distinctFrom]
    simp [hplan]
  have htargets : ∃ more, targetsIn X lifecycle lists gr plan.allFlagged = targetOf X lifecycle gr plan.allFlagged s :: more := by
    unfold targetsIn byResource
    rw [hfront]
    simp [hflagged]
  obtain ⟨more, hplans⟩ := hplans
  obtain ⟨more', htargets⟩ := htargets
  unfold targetsOf
  rw [hplans, List.filter_cons]
  simp [htargets]

/-- A target of a LIST can come first among its targets. -/
theorem exists_first_target (hX : KubeOrder X.compareKubeAware) (hplace : OnePlace X lifecycle lists preferred)
    (ht : t ∈ targetsOf X lifecycle lists preferred gvr) :
    ∃ lists' more, Reordered SameList lists lists' ∧ targetsOf X lifecycle lists' preferred gvr = t :: more := by
  obtain ⟨gr, plan, hp, rfl, s, hs, hflagged, rfl⟩ := mem_targetsOf.mp ht
  obtain ⟨lists', rest, hreordered, hfront⟩ := exists_front (mem_byResource.mp hs)
  have hplan : planOf X lifecycle lists' preferred gr = some plan :=
    (planOf_eq (discovered_perm hreordered) hX hplace gr).trans (mem_plans.mp hp).2
  obtain ⟨more, hmore⟩ := targetsOf_front hfront hplan hflagged
  exact ⟨lists', more, hreordered, hmore⟩

/-- Where a lowest target comes first, the objects that nothing attributes are in its row. -/
theorem mem_unknowns_of_first (hX : KubeOrder X.compareKubeAware) {more : List UsageTarget}
    (hfirst : targetsOf X lifecycle lists preferred gvr = t :: more) (hgvr : gvr ∈ toList X lifecycle lists preferred)
    (hlowest : Lowest X (targetsOf X lifecycle lists preferred gvr) t) (hitems : (list gvr).items = .ok items)
    (hun : ∃ m ∈ items, unattributed X t m = true) :
    unknownRow X true t items ∈
      (((runs X lifecycle list lists preferred).flatMap (·.done)).map (·.unknown)).filter (0 < ·.count) := by
  have hat : unknownAt X (targetsOf X lifecycle lists preferred gvr) = some (t, 0) := by
    rw [hfirst] at hlowest ⊢
    exact unknownAt_cons hlowest
  have hcount : 0 < (unknownRow X true t items).count := by
    rw [unknownRow_count hlowest.1]
    exact_mod_cast List.countP_pos_iff.mpr hun
  rw [runs_flatMap, List.map_flatMap, List.filter_flatMap]
  refine List.mem_flatMap.mpr ⟨gvr, hgvr, ?_⟩
  rw [unknowns_runOf hX hitems, hat]
  simp [hcount]

/-- Two lowest targets of one LIST show an order each, where an object goes to the first. -/
theorem loneLowest_of_sameInAnyOrder (hX : KubeOrder X.compareKubeAware)
    (huntied : NothingTied X lifecycle list lists (preferredOf groups)) (hsame : SameInAnyOrder X lifecycle list lists groups) :
    LoneLowest X lifecycle list lists (preferredOf groups) := by
  intro gvr hgvr items hitems t t' ht ht' hun
  by_contra hne
  obtain ⟨lists₁, more₁, hreordered₁, hfirst₁⟩ := exists_first_target hX huntied.places ht.1
  obtain ⟨lists₂, more₂, hreordered₂, hfirst₂⟩ := exists_first_target hX huntied.places ht'.1
  have hperm₁ : (discovered X lifecycle lists).Perm (discovered X lifecycle lists₁) := discovered_perm hreordered₁
  have hperm₂ : (discovered X lifecycle lists).Perm (discovered X lifecycle lists₂) := discovered_perm hreordered₂
  -- the row of the first target, in the order that has it first
  have hrow := mem_unknowns_of_first hX hfirst₁ ((toList_perm hperm₁ hX huntied.places).mem_iff.mp hgvr)
    (ht.perm (targetsOf_perm hperm₁ hX huntied.places gvr)) hitems hun
  have heq : rowsOf X lifecycle list groups lists₁ = rowsOf X lifecycle list groups lists₂ :=
    (hsame lists₁ hreordered₁).trans (hsame lists₂ hreordered₂).symm
  rw [rowsOf_eq, rowsOf_eq] at heq
  have hsorted := (Prod.mk.inj (Option.some.inj heq)).2
  have hother : unknownRow X true t items ∈ sortOn byGVK _ := mem_sortOn.mpr hrow
  rw [hsorted, mem_sortOn] at hother
  -- is a row of the other order too, where the LIST has its row at the other target
  obtain ⟨gvr', items', s, j, hitems', hat, -, heq⟩ := mem_unknowns hX hother
  have hs := (unknownAt_some hX hat).1.perm (targetsOf_perm hperm₂ hX huntied.places gvr').symm
  have hpos : 0 < (unknownRow X true t items).count := of_decide_eq_true (List.mem_filter.mp hrow).2
  have hkey := congrArg byGVK heq
  rw [unknownRow_key, unknownRow_key, unknown_eq_usage ht.1, unknown_eq_usage hs.1] at hkey
  obtain ⟨rfl, rfl⟩ := huntied.unknowns gvr gvr' items items' hitems hitems' t s ht hs hkey hpos (heq ▸ hpos)
  have hlowest := ht'.perm (targetsOf_perm hperm₂ hX huntied.places gvr)
  rw [hfirst₂] at hat hlowest
  rw [unknownAt_cons hlowest] at hat
  exact hne (Prod.mk.inj (Option.some.inj hat)).1

/-- Without the other ties, the rows are the same in every order of discovery exactly when every LIST with an object that
nothing attributes has one lowest target. -/
theorem collectAPIUsage_order (X : Kube) (lifecycle : List APILifecycleEntry) (list : GVR → Pages)
    (groups : List (String × String)) (lists : List APIResourceList) (hX : KubeOrder X.compareKubeAware)
    (hlist : ∀ gvr, ∃ items, (list gvr).items = .ok items) (huntied : NothingTied X lifecycle list lists (preferredOf groups)) :
    SameInAnyOrder X lifecycle list lists groups ↔ LoneLowest X lifecycle list lists (preferredOf groups) :=
  ⟨loneLowest_of_sameInAnyOrder hX huntied, sameInAnyOrder_of_loneLowest hX hlist huntied⟩

end Free

/-! ## The Ingresses of two groups -/

/-- The Ingress APIs that were removed in 1.22, in two groups, both replaced by one. -/
def ingressKinds : List APILifecycleEntry :=
  [{ group := "extensions", version := "v1beta1", kind := "Ingress", introduced := ⟨1, 1⟩, removed := some ⟨1, 22⟩,
      replacement := some ⟨"networking.k8s.io", "v1", "Ingress"⟩ },
    { group := "networking.k8s.io", version := "v1beta1", kind := "Ingress", introduced := ⟨1, 14⟩, removed := some ⟨1, 22⟩,
      replacement := some ⟨"networking.k8s.io", "v1", "Ingress"⟩ }]

/-- A group/version that serves Ingresses. -/
def ingressList (gv : String) : APIResourceList := ⟨gv, [⟨"ingresses", "Ingress", ["list"]⟩]⟩

/-- The Ingress that nothing says who wrote. -/
def unwritten (_ : GVR) : Pages := .last [{ «namespace» := "shop", name := "web" }]

/-- An Ingress without a known author, of two groups that share a LIST, is a row of the group that discovery has first. -/
theorem ingress_order_shows :
    Reordered SameList [ingressList "extensions/v1beta1", ingressList "networking.k8s.io/v1", ingressList "networking.k8s.io/v1beta1"]
      [ingressList "networking.k8s.io/v1", ingressList "networking.k8s.io/v1beta1", ingressList "extensions/v1beta1"] ∧
    (∀ gvr, ∃ items, (unwritten gvr).items = .ok items) ∧
    rowsOf .plain ingressKinds unwritten []
      [ingressList "networking.k8s.io/v1", ingressList "networking.k8s.io/v1beta1", ingressList "extensions/v1beta1"] ≠
    rowsOf .plain ingressKinds unwritten []
      [ingressList "extensions/v1beta1", ingressList "networking.k8s.io/v1", ingressList "networking.k8s.io/v1beta1"] := by
  refine ⟨⟨_, ?_, List.forall₂_same.mpr fun _ _ => ⟨rfl, .refl _⟩⟩, fun _ => ⟨_, rfl⟩, fun h => ?_⟩
  · exact @List.perm_append_comm _ [_] [_, _]
  · have hgroups := congrArg (Option.map fun rows => rows.2.map (·.group)) h
    revert hgroups
    decide +kernel

theorem kubeOrder_plain : KubeOrder Kube.plain.compareKubeAware where
  swap a b := by
    change (if a < b then -1 else if a = b then 0 else 1 : ℤ) < 0 ↔ 0 < (if b < a then -1 else if b = a then 0 else 1 : ℤ)
    rcases lt_trichotomy a b with h | rfl | h
    · simp [h, h.not_gt, h.ne']
    · simp
    · simp [h, h.not_gt, h.ne']
  trans a b c := by
    have hle : ∀ x y : String, Kube.plain.compareKubeAware x y ≤ 0 ↔ x ≤ y := by
      intro x y
      change (if x < y then -1 else if x = y then 0 else 1 : ℤ) ≤ 0 ↔ x ≤ y
      rcases lt_trichotomy x y with h | rfl | h
      · simp [h, h.le]
      · simp
      · simp [h.not_gt, h.ne', h.not_ge]
    rw [hle, hle, hle]
    exact le_trans

/-- One LIST with one target has nothing to tie it with. -/
theorem nothingTied_of_one {X : Kube} {lifecycle : List APILifecycleEntry} {list : GVR → Pages} {lists : List APIResourceList}
    {preferred : String → String} {gvr : GVR} (hplaces : OnePlace X lifecycle lists preferred)
    (hlists : toList X lifecycle lists preferred = [gvr]) (hone : (targetsOf X lifecycle lists preferred gvr).length = 1) :
    NothingTied X lifecycle list lists preferred ∧ LoneLowest X lifecycle list lists preferred := by
  obtain ⟨s, hs⟩ := List.length_eq_one_iff.mp hone
  have honly : ∀ {gvr' t}, t ∈ targetsOf X lifecycle lists preferred gvr' → gvr' = gvr ∧ t = s := by
    intro gvr' t ht
    obtain ⟨gr, plan, hp, hgvr, -⟩ := mem_targetsOf.mp ht
    have hmem : gvr' ∈ toList X lifecycle lists preferred := mem_toList.mpr ⟨_, hp, hgvr⟩
    rw [hlists, List.mem_singleton] at hmem
    rw [hmem, hs, List.mem_singleton] at ht
    exact ⟨hmem, ht⟩
  refine ⟨⟨hplaces, ?_, ?_⟩, ?_⟩
  · intro gvr₁ gvr₂ items items' hitems hitems' t ht t' ht' _ _ _
    obtain ⟨rfl, rfl⟩ := honly ht
    obtain ⟨rfl, rfl⟩ := honly ht'
    rw [Except.ok.inj (hitems.symm.trans hitems')]
  · intro gvr₁ gvr₂ items items' _ _ t t' ht ht' _ _ _
    exact ⟨(honly ht.1).2.trans (honly ht'.1).2.symm, (honly ht.1).1.trans (honly ht'.1).1.symm⟩
  · intro gvr' _ items _ t t' ht ht' _
    exact (honly ht'.1).2.trans (honly ht.1).2.symm

/-- The Ingresses of one group, listed where their replacement is, have one lowest target, and no order shows. -/
theorem collectAPIUsage_order_ingress :
    mayList .plain ingressKinds [ingressList "extensions/v1beta1", ingressList "networking.k8s.io/v1"] (preferredOf [])
        ⟨"extensions", "ingresses"⟩ = [⟨"networking.k8s.io", "v1", "ingresses"⟩] ∧
      (∃ t, unknownAt .plain (targetsOf .plain ingressKinds
        [ingressList "extensions/v1beta1", ingressList "networking.k8s.io/v1"] (preferredOf [])
        ⟨"networking.k8s.io", "v1", "ingresses"⟩) = some t) ∧
      SameInAnyOrder .plain ingressKinds unwritten
        [ingressList "extensions/v1beta1", ingressList "networking.k8s.io/v1"] [] := by
  have hplaces : OnePlace Kube.plain ingressKinds [ingressList "extensions/v1beta1", ingressList "networking.k8s.io/v1"]
      (preferredOf []) := by decide +kernel
  have hlists : toList Kube.plain ingressKinds [ingressList "extensions/v1beta1", ingressList "networking.k8s.io/v1"]
      (preferredOf []) = [⟨"networking.k8s.io", "v1", "ingresses"⟩] := by decide +kernel
  have hone : (targetsOf Kube.plain ingressKinds [ingressList "extensions/v1beta1", ingressList "networking.k8s.io/v1"]
      (preferredOf []) ⟨"networking.k8s.io", "v1", "ingresses"⟩).length = 1 := by decide +kernel
  obtain ⟨huntied, hlone⟩ := nothingTied_of_one hplaces hlists hone
  refine ⟨by decide +kernel, Option.isSome_iff_exists.mp (by decide +kernel), ?_⟩
  exact (collectAPIUsage_order .plain ingressKinds unwritten [] _ kubeOrder_plain (fun _ => ⟨_, rfl⟩) huntied).mpr hlone

end UpgradeScope.Collect
