import UpgradeScope.Lib.Merging
import UpgradeScope.Server.Shares
import UpgradeScope.Engine.Finding

/-!
# Merging manifests into a cluster's inventory

A gate answers for the state a cluster would be in with the posted manifests applied. `upsertUsage`
of `internal/server/gate.go` merges their usage rows into the cluster's, object by object;
`upsertAddOns` of `gate_merge.go` merges their add-on installs into the cluster's; and `capObjects`
cuts the listing of each finding of the answer, which the merge leaves longer than a collector's.
A row is in balance when what it lists and omits, and what its namespaces count, both add up to its
count (`APIUsage.Balanced`). The merge keeps rows in balance (`usageMerged_upsertUsage`), the cut keeps
what a finding lists and omits together, and the merge of the installs loses and repeats none
(`upsertAddOns_merges`).
-/

namespace UpgradeScope

open Go Sorting Merging

/-! ## The merge of usage rows -/

/-- A manifest row replaces a listed object: it has an object of that namespace and name. -/
def replaces (m : APIUsage) (o : ObjectRef) : Bool :=
  o.name ≠ "" && m.objects.any fun n => n.name = o.name && n.namespace = o.namespace

/-- A row's count and its namespaces' without one replaced object, the count no less than zero and a
namespace without any left out. -/
def withoutObject (st : ℤ × NamespaceCounts) (o : ObjectRef) : ℤ × NamespaceCounts :=
  let n := wrap64 (countAt st.2 o.namespace - 1)
  (max 0 (wrap64 (st.1 - 1)), if n ≤ 0 then st.2.erase o.namespace else st.2.insert o.namespace n)

/-- A manifest row merged into the cluster's row of its group, version and kind. -/
def upsertRow (u m : APIUsage) : APIUsage :=
  let left := (u.objects.filter (replaces m)).foldl withoutObject (u.count, u.namespaces)
  { u with
    count := satAdd left.1 m.count
    namespaces := addEntries satAdd left.2 m.namespaces.entries
    objects := (u.objects.filter fun o => !replaces m o) ++ m.objects
    objectsOmitted := satAdd u.objectsOmitted m.objectsOmitted }

/-- A merged row is of the cluster's row's API. -/
theorem gvk_upsertRow (u m : APIUsage) : (upsertRow u m).gvk = u.gvk := rfl

/-- `upsertUsage`. -/
def upsertUsage (cluster manifests : List APIUsage) : List APIUsage :=
  manifests.foldl (upsertOn APIUsage.gvk upsertRow) cluster

/-! ### Rows in balance -/

/-- A row whose numbers agree. -/
structure APIUsage.Balanced (u : APIUsage) : Prop where
  /-- The count is an `int`. -/
  fits : u.count ≤ maxInt
  /-- It is what the row lists and omits. -/
  listed : u.count = u.objects.length + u.objectsOmitted
  /-- It is the sum of the namespaces' counts. -/
  spread : u.count = total u.namespaces
  /-- A namespace counts at least its listed objects. -/
  covers : ∀ ns, (u.objects.countP (·.namespace = ns) : ℤ) ≤ countAt u.namespaces ns
  /-- The row omits no fewer than none. -/
  omitted : 0 ≤ u.objectsOmitted
  /-- No namespace counts fewer than none. -/
  namespaces : ∀ e ∈ u.namespaces.entries, (0 : ℤ) ≤ e.2

/-- A sum of `satAdd` in range is the sum. -/
theorem satAdd_of_le {a b : ℤ} (ha : 0 ≤ a) (hb : 0 ≤ b) (h : a + b ≤ maxInt) : satAdd a b = a + b := by
  rw [satAdd_eq_min ha hb, min_eq_left h]

/-- A sum of `satAdd` is not negative. -/
theorem satAdd_nonneg (a b : ℤ) : 0 ≤ satAdd a b := by
  unfold satAdd maxInt
  split_ifs <;> omega

/-- A row's numbers without one object, where the row and the object's namespace count one at least. -/
theorem withoutObject_spec {count : ℤ} {counts : NamespaceCounts} {o : ObjectRef} (hcount : 1 ≤ count) (hmax : count ≤ maxInt)
    (hone : 1 ≤ countAt counts o.namespace) (hfits : countAt counts o.namespace ≤ maxInt)
    (hcounts : ∀ e ∈ counts.entries, (0 : ℤ) ≤ e.2) :
    ∃ counts', withoutObject (count, counts) o = (count - 1, counts') ∧ total counts' = total counts - 1 ∧
      (∀ ns, countAt counts' ns = countAt counts ns - if o.namespace = ns then 1 else 0) ∧
      ∀ e ∈ counts'.entries, (0 : ℤ) ≤ e.2 := by
  have hwrap : wrap64 (countAt counts o.namespace - 1) = countAt counts o.namespace - 1 :=
    wrap64_of_range (by omega) (by omega)
  have hcount' : max 0 (wrap64 (count - 1)) = count - 1 := by
    rw [wrap64_of_range (by omega) (by omega), max_eq_right (by omega)]
  unfold withoutObject
  dsimp only
  rw [hcount', hwrap]
  -- The namespace is left out when its last object is.
  by_cases hlast : countAt counts o.namespace - 1 ≤ 0
  · rw [if_pos hlast]
    refine ⟨_, rfl, ?_, fun ns => ?_, fun e he => hcounts e (mem_entries_erase he)⟩
    · rw [total_erase]
      omega
    · rw [countAt_erase]
      by_cases hns : o.namespace = ns
      · subst hns
        rw [if_pos rfl, if_pos rfl]
        omega
      · rw [if_neg (Ne.symm hns), if_neg hns, sub_zero]
  · rw [if_neg hlast]
    refine ⟨_, rfl, ?_, fun ns => ?_, fun e he => ?_⟩
    · rw [total_insert]
      ring
    · rw [countAt_insert]
      by_cases hns : o.namespace = ns
      · subst hns
        rw [if_pos rfl, if_pos rfl]
      · rw [if_neg (Ne.symm hns), if_neg hns, sub_zero]
    · rcases mem_entries_insert he with rfl | he
      · exact (not_le.mp hlast).le
      · exact hcounts e he

/-- A row's numbers without replaced objects, where the row and its namespaces count at least these. -/
theorem foldl_withoutObject {gone : List ObjectRef} {count : ℤ} {counts : NamespaceCounts}
    (hcount : (gone.length : ℤ) ≤ count) (hmax : count ≤ maxInt)
    (hcovers : ∀ ns, (gone.countP (·.namespace = ns) : ℤ) ≤ countAt counts ns) (hfits : ∀ ns, countAt counts ns ≤ maxInt)
    (hcounts : ∀ e ∈ counts.entries, (0 : ℤ) ≤ e.2) :
    ∃ counts', gone.foldl withoutObject (count, counts) = (count - gone.length, counts') ∧
      total counts' = total counts - gone.length ∧
      (∀ ns, countAt counts' ns = countAt counts ns - gone.countP (·.namespace = ns)) ∧
      ∀ e ∈ counts'.entries, (0 : ℤ) ≤ e.2 := by
  induction gone generalizing count counts with
  | nil => exact ⟨counts, by simp, by simp, by simp, hcounts⟩
  | cons o gone ih =>
    have hcons : ∀ ns, ((o :: gone).countP (·.namespace = ns) : ℤ) =
        gone.countP (·.namespace = ns) + if o.namespace = ns then 1 else 0 := by
      intro ns
      rw [List.countP_cons]
      simp
    -- The namespace of the object counts it at least, so taking one away stays in range.
    have hone : 1 ≤ countAt counts o.namespace := by
      have hall := hcovers o.namespace
      rw [hcons, if_pos rfl] at hall
      omega
    rw [List.length_cons] at hcount
    push_cast at hcount
    obtain ⟨counts₁, hstep, htotal₁, hat₁, hcounts₁⟩ :=
      withoutObject_spec (by omega) hmax hone (hfits _) hcounts
    have hcovers₁ : ∀ ns, (gone.countP (·.namespace = ns) : ℤ) ≤ countAt counts₁ ns := by
      intro ns
      have hall := hcovers ns
      rw [hcons] at hall
      rw [hat₁]
      omega
    have hfits₁ : ∀ ns, countAt counts₁ ns ≤ maxInt := by
      intro ns
      have hall := hfits ns
      rw [hat₁]
      split_ifs <;> omega
    have hcount₁ : (gone.length : ℤ) ≤ count - 1 := by omega
    obtain ⟨counts₂, hrun, htotal₂, hat₂, hcounts₂⟩ := ih hcount₁ (by omega) hcovers₁ hfits₁ hcounts₁
    refine ⟨counts₂, ?_, ?_, fun ns => ?_, hcounts₂⟩
    · rw [List.foldl_cons, hstep, hrun, List.length_cons]
      push_cast
      rw [sub_sub, add_comm (1 : ℤ)]
    · rw [htotal₂, htotal₁, List.length_cons]
      push_cast
      ring
    · rw [hat₂, hat₁, hcons]
      ring

/-- A row merged with a row keeps in balance, when the sum of the counts is an `int`. -/
theorem APIUsage.Balanced.upsertRow {u m : APIUsage} (hu : u.Balanced) (hm : m.Balanced)
    (hsum : u.count - u.objects.countP (replaces m) + m.count ≤ maxInt) : (UpgradeScope.upsertRow u m).Balanced := by
  have hlisted := hu.listed
  have homitted := hu.omitted
  have hlisted' := hm.listed
  have homitted' := hm.omitted
  have hspread := hu.spread
  have hspread' := hm.spread
  have hlengths := List.length_eq_length_filter_add (l := u.objects) (replaces m)
  rw [List.countP_eq_length_filter] at hsum
  -- The replaced objects are among the listed ones, in every namespace.
  have hparts : ∀ ns, u.objects.countP (·.namespace = ns) = (u.objects.filter (replaces m)).countP (·.namespace = ns) +
      (u.objects.filter fun o => !replaces m o).countP (·.namespace = ns) := fun ns =>
    List.countP_eq_countP_filter_add _ _ _
  have hcovers : ∀ ns, ((u.objects.filter (replaces m)).countP (·.namespace = ns) : ℤ) ≤ countAt u.namespaces ns := by
    intro ns
    have hall := hu.covers ns
    rw [hparts] at hall
    push_cast at hall
    omega
  have hfits : ∀ ns, countAt u.namespaces ns ≤ maxInt := fun ns =>
    (countAt_le_total hu.namespaces ns).trans (hu.spread ▸ hu.fits)
  obtain ⟨counts, hleft, htotal, hat, hcounts⟩ := foldl_withoutObject (by omega) hu.fits hcovers hfits hu.namespaces
  -- Every addition is in range, so it is exact.
  have hadd : ∀ e ∈ m.namespaces.entries, satAdd (countAt counts e.1) e.2 = countAt counts e.1 + e.2 := by
    intro e he
    have hle := countAt_le_total hcounts e.1
    have hle' := countAt_le_total hm.namespaces e.1
    rw [countAt_of_mem he] at hle'
    exact satAdd_of_le (countAt_nonneg hcounts _) (hm.namespaces e he) (by omega)
  obtain ⟨htotals, hats⟩ := addEntries_counts (m := counts) m.namespaces.nodupKeys hadd
  have hcount : satAdd (u.count - (u.objects.filter (replaces m)).length) m.count =
      u.count - (u.objects.filter (replaces m)).length + m.count := satAdd_of_le (by omega) (by omega) (by omega)
  have homit : satAdd u.objectsOmitted m.objectsOmitted = u.objectsOmitted + m.objectsOmitted :=
    satAdd_of_le homitted homitted' (by omega)
  unfold UpgradeScope.upsertRow
  rw [hleft]
  dsimp only
  rw [hcount, homit]
  refine ⟨hsum, ?_, ?_, fun ns => ?_, add_nonneg homitted homitted', ?_⟩
  · rw [List.length_append]
    push_cast
    omega
  · dsimp only
    rw [htotals]
    have hentries : (m.namespaces.entries.map (·.2)).sum = total m.namespaces := rfl
    omega
  · have hall := hu.covers ns
    have hall' := hm.covers ns
    have hlookup : (m.namespaces.entries.dlookup ns).getD 0 = countAt m.namespaces ns := rfl
    rw [hats, hat, hlookup, List.countP_append]
    rw [hparts] at hall
    push_cast at hall ⊢
    omega
  · exact forall_mem_addEntries hcounts satAdd_nonneg

/-! ### The merged rows -/

/-- The merged rows of a cluster and its manifests. -/
structure UsageMerged (cluster manifests out : List APIUsage) : Prop where
  /-- Every row is in balance. -/
  balanced : ∀ r ∈ out, r.Balanced
  /-- A group, version and kind has one row. -/
  once : (out.map APIUsage.gvk).Nodup
  /-- The cluster's rows come first, in their order. -/
  first : (out.take cluster.length).map APIUsage.gvk = cluster.map APIUsage.gvk
  /-- The objects of a manifest row are listed. -/
  manifest : ∀ m ∈ manifests, ∃ r ∈ out, r.gvk = m.gvk ∧ m.objects.Sublist r.objects
  /-- The listed objects of a cluster's row are listed, unless the manifests replace them. -/
  live : ∀ u ∈ cluster, ∃ r ∈ out, r.gvk = u.gvk ∧
    (u.objects.filter fun o => !manifests.any fun m => m.gvk = u.gvk && replaces m o).Sublist r.objects

section Merge

variable {cluster manifests : List APIUsage}

/-- A cluster's row with the manifest row of its group, version and kind. -/
theorem mergedWith_upsertRow (u : APIUsage) : mergedWith APIUsage.gvk upsertRow manifests u = u ∨
    ∃ m ∈ manifests, m.gvk = u.gvk ∧ mergedWith APIUsage.gvk upsertRow manifests u = upsertRow u m := by
  unfold mergedWith
  cases hfind : manifests.find? fun m => m.gvk = u.gvk with
  | none => exact .inl rfl
  | some m =>
    have hgvk : m.gvk = u.gvk := by simpa using List.find?_some hfind
    exact .inr ⟨m, List.mem_of_find?_eq_some hfind, hgvk, rfl⟩

/-- The rows a merge returns are the cluster's, each with the manifests' of its API, and then the manifests' own. -/
theorem upsertUsage_eq (hcluster : (cluster.map APIUsage.gvk).Nodup) (hmanifests : (manifests.map APIUsage.gvk).Nodup) :
    upsertUsage cluster manifests = cluster.map (mergedWith APIUsage.gvk upsertRow manifests) ++
      manifests.filter fun m => !cluster.any (·.gvk = m.gvk) :=
  foldl_upsertOn gvk_upsertRow hcluster hmanifests

/-- The merge of rows in balance is in balance and lists what it is to list. -/
theorem usageMerged_upsertUsage (hcluster : ∀ u ∈ cluster, u.Balanced) (hmanifests : ∀ m ∈ manifests, m.Balanced)
    (honce : (cluster.map APIUsage.gvk).Nodup) (honce' : (manifests.map APIUsage.gvk).Nodup)
    (hsums : ∀ u ∈ cluster, ∀ m ∈ manifests, m.gvk = u.gvk →
      u.count - u.objects.countP (replaces m) + m.count ≤ maxInt) :
    UsageMerged cluster manifests (upsertUsage cluster manifests) := by
  have hkey : ∀ u, (mergedWith APIUsage.gvk upsertRow manifests u).gvk = u.gvk := key_mergedWith gvk_upsertRow manifests
  have hkeys : (cluster.map (mergedWith APIUsage.gvk upsertRow manifests)).map APIUsage.gvk = cluster.map APIUsage.gvk := by
    rw [List.map_map]
    exact List.map_congr_left fun u _ => hkey u
  -- The rows of the cluster in their order, each merged with the stream's row of its API if any, then the stream's
  -- others.
  rw [upsertUsage_eq honce honce']
  refine ⟨fun r hr => ?_, ?_, ?_, fun m hm => ?_, fun u hu => ?_⟩
  · rcases List.mem_append.mp hr with hr | hr
    · obtain ⟨u, hu, rfl⟩ := List.mem_map.mp hr
      rcases mergedWith_upsertRow u with heq | ⟨m, hm, hgvk, heq⟩
      · rw [heq]
        exact hcluster u hu
      · rw [heq]
        exact (hcluster u hu).upsertRow (hmanifests m hm) (hsums u hu m hm hgvk)
    · exact hmanifests r (List.mem_filter.mp hr).1
  · rw [List.map_append, hkeys]
    refine List.nodup_append.mpr ⟨honce, honce'.sublist (List.filter_sublist.map _), fun a ha b hb heq => ?_⟩
    obtain ⟨m, hm, rfl⟩ := List.mem_map.mp hb
    have hnew : cluster.any (·.gvk = m.gvk) = false := by simpa using (List.mem_filter.mp hm).2
    rw [any_key_iff.mpr (heq ▸ ha)] at hnew
    exact absurd hnew (by simp)
  · have hlen : (cluster.map (mergedWith APIUsage.gvk upsertRow manifests)).length = cluster.length := List.length_map _
    rw [List.take_left' hlen, hkeys]
  · by_cases hmem : cluster.any (·.gvk = m.gvk) = true
    · obtain ⟨u, hu, hgvk⟩ := List.mem_map.mp (any_key_iff.mp hmem)
      have hfind : manifests.find? (fun m' => m'.gvk = u.gvk) = some m := hgvk ▸ find?_key_of_mem honce' hm
      refine ⟨_, List.mem_append_left _ (List.mem_map_of_mem hu), (hkey u).trans hgvk, ?_⟩
      unfold mergedWith
      rw [hfind]
      exact List.sublist_append_right _ _
    · exact ⟨m, List.mem_append_right _ (List.mem_filter.mpr ⟨hm, by simpa using hmem⟩), rfl, List.Sublist.refl _⟩
  · refine ⟨_, List.mem_append_left _ (List.mem_map_of_mem hu), hkey u, ?_⟩
    rcases mergedWith_upsertRow u with heq | ⟨m, hm, hgvk, heq⟩
    · rw [heq]
      exact List.filter_sublist
    · rw [heq]
      refine List.Sublist.trans ?_ (List.sublist_append_left _ _)
      refine List.monotone_filter_right _ fun o ho => ?_
      simp only [Bool.not_eq_true', List.any_eq_false, Bool.and_eq_true, decide_eq_true_eq, not_and] at ho ⊢
      exact Bool.eq_false_iff.mpr (ho m hm hgvk)

end Merge

/-! ## The cut of the answer's listings -/

/-- The loop of `capObjects`: the manifests' refs are kept while there are fewer than
`maxObjectRefs`, and the others while there is room. -/
def keepRefs (mine : ObjectRef → Bool) : List ObjectRef → List ObjectRef → ℕ → List ObjectRef
  | [], kept, _ => kept
  | o :: os, kept, room =>
    if mine o && kept.length < maxObjectRefs then keepRefs mine os (kept ++ [o]) room
    else if !mine o && 0 < room then keepRefs mine os (kept ++ [o]) (room - 1)
    else keepRefs mine os kept room

/-- `trim` of `capObjects`: a finding with its listing cut to `maxObjectRefs` and what is cut omitted. -/
def trim (mine : ObjectRef → Bool) (f : Finding) : Finding :=
  if f.objects.length ≤ maxObjectRefs then f
  else
    let kept := keepRefs mine f.objects [] (maxObjectRefs - f.objects.countP mine)
    { f with objects := kept, objectsOmitted := wrap64 (f.objectsOmitted + (f.objects.length - kept.length)) }

/-- `capObjects`. -/
def capObjects (rep : Report) (mine : ObjectRef → Bool) : Report :=
  { rep with
    findings := rep.findings.map (trim mine)
    suppressed := rep.suppressed.map fun s => { s with finding := trim mine s.finding } }

/-- The cut of a finding's listing. -/
structure Trimmed (mine : ObjectRef → Bool) (f cut : Finding) : Prop where
  /-- The finding lists and omits as many objects together. -/
  books : cut.objects.length + cut.objectsOmitted = f.objects.length + f.objectsOmitted
  /-- It lists no more than a collector does. -/
  listed : cut.objects.length ≤ maxObjectRefs
  /-- It lists refs of the finding, in their order. -/
  refs : cut.objects.Sublist f.objects
  /-- All of the manifests' are among them, unless there are too many. -/
  own : f.objects.countP mine ≤ maxObjectRefs → (f.objects.filter mine).Sublist cut.objects
  /-- Nothing else changes. -/
  rest : cut = { f with objects := cut.objects, objectsOmitted := cut.objectsOmitted }

section Cut

variable {mine : ObjectRef → Bool}

/-- What the loop keeps of the refs left, with `kept` of them kept before and room for `room` others: while what is kept,
the room and the manifests' refs left fit together, none of the manifests' is dropped. -/
theorem keepRefs_spec {os kept : List ObjectRef} {room : ℕ} (hkept : kept.length ≤ maxObjectRefs)
    (hroom : room = 0 ∨ kept.length + room + os.countP mine ≤ maxObjectRefs) :
    ∃ more, keepRefs mine os kept room = kept ++ more ∧ (kept ++ more).length ≤ maxObjectRefs ∧ more.Sublist os ∧
      (kept.length + room + os.countP mine ≤ maxObjectRefs → (os.filter mine).Sublist more) := by
  induction os generalizing kept room with
  | nil => exact ⟨[], by simp [keepRefs], by simpa using hkept, List.Sublist.refl _, fun _ => List.Sublist.refl _⟩
  | cons o os ih =>
    have hpush : (kept ++ [o]).length = kept.length + 1 := by simp
    -- The loop goes on with this ref kept or passed over, and with the room that is left.
    have hgoes := fun kept room => @ih kept room
    unfold keepRefs
    cases hmine : mine o with
    | true =>
      rw [List.countP_cons_of_pos hmine] at hroom ⊢
      rw [List.filter_cons_of_pos hmine]
      by_cases hfew : kept.length < maxObjectRefs
      · obtain ⟨more, heq, hlen, hsub, hown⟩ := hgoes (kept ++ [o]) room (by omega) (by omega)
        refine ⟨o :: more, by simpa [hfew] using heq, by simpa using hlen, hsub.cons_cons o, fun hfit => ?_⟩
        exact (hown (by omega)).cons_cons o
      · obtain ⟨more, heq, hlen, hsub, -⟩ := hgoes kept room hkept (by omega)
        exact ⟨more, by simpa [hfew] using heq, hlen, hsub.cons o, fun hfit => by omega⟩
    | false =>
      rw [List.countP_cons_of_neg (by simp [hmine])] at hroom ⊢
      rw [List.filter_cons_of_neg (by simp [hmine])]
      by_cases hspace : 0 < room
      · obtain ⟨more, heq, hlen, hsub, hown⟩ := hgoes (kept ++ [o]) (room - 1) (by omega) (by omega)
        refine ⟨o :: more, by simpa [hspace] using heq, by simpa using hlen, hsub.cons_cons o, fun hfit => ?_⟩
        exact (hown (by omega)).cons o
      · obtain ⟨more, heq, hlen, hsub, hown⟩ := hgoes kept room hkept (by omega)
        exact ⟨more, by simpa [hspace] using heq, hlen, hsub.cons o, hown⟩

/-- A finding whose listed and omitted objects are an `int` together is cut as it is to be. -/
theorem trimmed_trim {f : Finding} (homitted : 0 ≤ f.objectsOmitted) (hfits : f.objects.length + f.objectsOmitted ≤ maxInt) :
    Trimmed mine f (trim mine f) := by
  unfold trim
  split_ifs with hshort
  · exact ⟨rfl, hshort, List.Sublist.refl _, fun _ => List.filter_sublist, rfl⟩
  · obtain ⟨kept, hkept, hlen, hsub, hown⟩ := @keepRefs_spec mine f.objects []
      (maxObjectRefs - f.objects.countP mine) (by simp) (by simp only [List.length_nil]; omega)
    rw [List.nil_append] at hkept hlen
    have hle := hsub.length_le
    dsimp only
    rw [hkept]
    refine ⟨?_, hlen, hsub, fun hfew => hown (by simp only [List.length_nil]; omega), rfl⟩
    dsimp only
    rw [wrap64_of_range (by omega) (by omega)]
    ring

end Cut

/-- The books of a finding are in range: what it omits is not negative, and is an `int` together with what it lists. -/
def Finding.BooksFit (f : Finding) : Prop := 0 ≤ f.objectsOmitted ∧ f.objects.length + f.objectsOmitted ≤ maxInt

/-- The merge of usage rows keeps the books: of rows in balance, each group, version and kind once a side, whose sums are
in range, the merged rows are in balance, the cluster's first, with the manifests' objects and those they do not
replace. And the cut of the listings afterwards keeps each finding's books, and the manifests' refs where they fit. -/
theorem upsertUsage_capObjects_keep_books {cluster manifests : List APIUsage} (hcluster : ∀ u ∈ cluster, u.Balanced)
    (hmanifests : ∀ m ∈ manifests, m.Balanced) (honce : (cluster.map APIUsage.gvk).Nodup)
    (honce' : (manifests.map APIUsage.gvk).Nodup)
    (hsums : ∀ u ∈ cluster, ∀ m ∈ manifests, m.gvk = u.gvk →
      u.count - u.objects.countP (replaces m) + m.count ≤ maxInt) :
    UsageMerged cluster manifests (upsertUsage cluster manifests) ∧
      ∀ (rep : Report) (mine : ObjectRef → Bool), (∀ f ∈ rep.findings, f.BooksFit) →
        (∀ s ∈ rep.suppressed, s.finding.BooksFit) →
          List.Forall₂ (Trimmed mine) rep.findings (capObjects rep mine).findings ∧
          List.Forall₂ (fun s s' => Trimmed mine s.finding s'.finding) rep.suppressed (capObjects rep mine).suppressed := by
  refine ⟨usageMerged_upsertUsage hcluster hmanifests honce honce' hsums, fun rep mine hfindings hsuppressed => ⟨?_, ?_⟩⟩
  · unfold capObjects
    rw [List.forall₂_map_right_iff, List.forall₂_same]
    exact fun f hf => trimmed_trim (hfindings f hf).1 (hfindings f hf).2
  · unfold capObjects
    rw [List.forall₂_map_right_iff, List.forall₂_same]
    exact fun s hs => trimmed_trim (hsuppressed s hs).1 (hsuppressed s hs).2

/-- The CronJobs of a namespace, some of them listed. -/
def cronJobsIn (ns : String) (objects : List ObjectRef) (omitted : ℤ) : APIUsage where
  group := "batch"
  version := "v1beta1"
  kind := "CronJob"
  count := objects.length + omitted
  namespaces := (∅ : NamespaceCounts).insert ns (objects.length + omitted)
  objects := objects
  objectsOmitted := omitted

/-- The CronJobs of a namespace are in balance. -/
theorem balanced_cronJobsIn {ns : String} {objects : List ObjectRef} {omitted : ℤ} (hobjects : ∀ o ∈ objects, o.namespace = ns)
    (homitted : 0 ≤ omitted) (hfits : objects.length + omitted ≤ maxInt) : (cronJobsIn ns objects omitted).Balanced := by
  refine ⟨hfits, rfl, ?_, fun n => ?_, homitted, ?_⟩
  · unfold cronJobsIn
    rw [total_insert]
    simp [total_empty, countAt]
  · unfold cronJobsIn
    dsimp only
    rw [countAt_insert]
    split_ifs with hn
    · have hle := List.countP_le_length (p := fun o : ObjectRef => decide (o.namespace = n)) (l := objects)
      omega
    · rw [List.countP_eq_zero.mpr fun o ho => by simpa [hobjects o ho] using Ne.symm hn]
      simp [countAt]
  · intro e he
    rcases mem_entries_insert he with rfl | he
    · exact add_nonneg (Int.natCast_nonneg _) homitted
    · simp at he

/-- A posted CronJob that the cluster lists replaces it, and one that it does not is counted beside it. -/
theorem upsertUsage_cronJobs :
    let cluster := [cronJobsIn "shop" [{ «namespace» := "shop", name := "nightly" }] 3]
    let manifests := [cronJobsIn "shop" [{ «namespace» := "shop", name := "nightly", line := 4 },
      { «namespace» := "shop", name := "hourly", line := 9 }] 0]
    UsageMerged cluster manifests (upsertUsage cluster manifests) ∧
      (upsertUsage cluster manifests).map (fun u => (u.count, u.objects.map (·.name))) = [(5, ["nightly", "hourly"])] := by
  refine ⟨(upsertUsage_capObjects_keep_books ?_ ?_ (by decide) (by decide) ?_).1, by decide +kernel⟩
  · intro u hu
    rw [List.mem_singleton.mp hu]
    exact balanced_cronJobsIn (by decide) (by decide) (by decide)
  · intro m hm
    rw [List.mem_singleton.mp hm]
    exact balanced_cronJobsIn (by decide) (by decide) (by decide)
  · intro u hu m hm _
    rw [List.mem_singleton.mp hu, List.mem_singleton.mp hm]
    decide +kernel

/-! ## The merge of add-on installs -/

/-- `same` of `upsertAddOns`: installs of one add-on in the same namespaces. -/
def sameInstall (a b : AddOnInstance) : Bool := a.id = b.id && sorted a.namespaces = sorted b.namespaces

/-- One turn over the cluster's installs: what is returned so far, and the manifests' installs with
whether each is placed. Those that match the cluster's install take its place, where they are not
placed yet. -/
def placeInstall (st : List AddOnInstance × List (AddOnInstance × Bool)) (c : AddOnInstance) :
    List AddOnInstance × List (AddOnInstance × Bool) :=
  let now := (st.2.filter fun p => sameInstall c p.1 && !p.2).map (·.1)
  (st.1 ++ now ++ (if st.2.any fun p => sameInstall c p.1 then [] else [c]),
    st.2.map fun p => (p.1, p.2 || sameInstall c p.1))

/-- `upsertAddOns`. -/
def upsertAddOns (cluster manifests : List AddOnInstance) : List AddOnInstance :=
  let st := cluster.foldl placeInstall ([], manifests.map fun m => (m, false))
  st.1 ++ (st.2.filter fun p => !p.2).map (·.1)

/-- No manifest install matches an install. -/
def unmatched (manifests : List AddOnInstance) (c : AddOnInstance) : Bool := !manifests.any (sameInstall c)

/-- What is returned while the cluster's installs `seen` were visited. -/
structure Placing (manifests seen : List AddOnInstance) (st : List AddOnInstance × List (AddOnInstance × Bool)) : Prop where
  /-- The marks are of the manifests' installs. -/
  marks : st.2.map (·.1) = manifests
  /-- What is returned is what is placed of the manifests', and the cluster's that none of them matches. -/
  placed : st.1.Perm ((st.2.filter (·.2)).map (·.1) ++ seen.filter (unmatched manifests))
  /-- The cluster's are in their order. -/
  order : st.1.filter (unmatched manifests) = seen.filter (unmatched manifests)

section AddOns

variable {manifests : List AddOnInstance}

/-- An install is the same as itself. -/
theorem sameInstall_self (a : AddOnInstance) : sameInstall a a = true := by simp [sameInstall]

/-- An install of the manifests is matched. -/
theorem unmatched_eq_false {m : AddOnInstance} (hm : m ∈ manifests) : unmatched manifests m = false := by
  unfold unmatched
  simpa using ⟨m, hm, sameInstall_self m⟩

/-- What one of two properties picks is what the first picks, and what only the second does. -/
theorem filter_or_perm {α : Type} (p q : α → Bool) (l : List α) :
    (l.filter fun a => p a || q a).Perm (l.filter p ++ l.filter fun a => q a && !p a) := by
  induction l with
  | nil => exact List.Perm.refl _
  | cons a l ih =>
    cases hp : p a with
    | true => simpa [List.filter_cons, hp] using ih
    | false =>
      cases hq : q a with
      | true => simpa [List.filter_cons, hp, hq] using (ih.cons a).trans List.perm_middle.symm
      | false => simpa [List.filter_cons, hp, hq] using ih

/-- Visiting an install of the cluster keeps the invariant of the placing. -/
theorem Placing.step {seen : List AddOnInstance} {st : List AddOnInstance × List (AddOnInstance × Bool)}
    (h : Placing manifests seen st) (c : AddOnInstance) : Placing manifests (seen ++ [c]) (placeInstall st c) := by
  obtain ⟨hmarks, hplaced, horder⟩ := h
  have hnow : ∀ a ∈ (st.2.filter fun p => sameInstall c p.1 && !p.2).map (·.1), unmatched manifests a = false := by
    intro a ha
    obtain ⟨p, hp, rfl⟩ := List.mem_map.mp ha
    exact unmatched_eq_false (hmarks ▸ List.mem_map_of_mem (List.mem_filter.mp hp).1)
  -- The marks list the stream's installs, so an unmatched one is one that no mark is like.
  have hmatched : unmatched manifests c = !st.2.any fun p => sameInstall c p.1 := by
    unfold unmatched
    rw [← hmarks, List.any_map]
    rfl
  have hlast : [c].filter (unmatched manifests) = if st.2.any (fun p => sameInstall c p.1) then [] else [c] := by
    rw [List.filter_singleton, hmatched]
    cases st.2.any fun p => sameInstall c p.1 <;> rfl
  refine ⟨?_, ?_, ?_⟩
  · rw [← hmarks]
    unfold placeInstall
    rw [List.map_map]
    rfl
  -- The installs placed so far are the marked ones, and this one marks those it is like.
  · have hfilter : ((placeInstall st c).2.filter (·.2)).map (·.1) =
        (st.2.filter fun p => p.2 || sameInstall c p.1).map (·.1) := by
      unfold placeInstall
      rw [List.filter_map, List.map_map]
      rfl
    have hsplit := (filter_or_perm (·.2) (fun p => sameInstall c p.1) st.2).map (·.1)
    rw [List.map_append] at hsplit
    rw [hfilter, List.filter_append, hlast]
    unfold placeInstall
    dsimp only
    refine (List.Perm.append_right _ (hplaced.append_right _)).trans ?_
    rw [← List.append_assoc]
    refine List.Perm.append_right _ ?_
    rw [List.append_assoc]
    refine (List.Perm.append_left _ List.perm_append_comm).trans ?_
    rw [← List.append_assoc]
    exact hsplit.symm.append_right _
  · unfold placeInstall
    dsimp only
    have hnone : ((st.2.filter fun p => sameInstall c p.1 && !p.2).map (·.1)).filter (unmatched manifests) = [] :=
      List.filter_eq_nil_iff.mpr fun a ha => by simp [hnow a ha]
    rw [List.filter_append, List.filter_append, List.filter_append, horder, hnone, List.append_nil, ← hlast,
      List.filter_filter]
    simp

/-- Visiting all installs of the cluster keeps the invariant of the placing. -/
theorem placing_foldl (cluster manifests : List AddOnInstance) :
    Placing manifests cluster (cluster.foldl placeInstall ([], manifests.map fun m => (m, false))) := by
  induction cluster using List.reverseRecOn with
  | nil =>
    refine ⟨?_, ?_, rfl⟩
    · simp [Function.comp_def]
    · simp [List.filter_map, Function.comp_def]
  | append_singleton cluster c ih =>
    rw [List.foldl_append]
    exact ih.step c

/-- What a merge of the installs returns. -/
theorem upsertAddOns_perm (cluster manifests : List AddOnInstance) :
    (upsertAddOns cluster manifests).Perm (manifests ++ cluster.filter (unmatched manifests)) ∧
      (upsertAddOns cluster manifests).filter (unmatched manifests) = cluster.filter (unmatched manifests) := by
  obtain ⟨hmarks, hplaced, horder⟩ := placing_foldl cluster manifests
  unfold upsertAddOns
  dsimp only
  generalize cluster.foldl placeInstall ([], manifests.map fun m => (m, false)) = st at hmarks hplaced horder
  constructor
  · refine (hplaced.append_right _).trans ?_
    rw [List.append_assoc]
    refine (List.Perm.append_left _ List.perm_append_comm).trans ?_
    rw [← List.append_assoc, ← List.map_append]
    refine List.Perm.append_right _ ?_
    rw [← hmarks]
    exact (List.filter_append_perm _ _).map _
  · have hnone : ((st.2.filter fun p => !p.2).map (·.1)).filter (unmatched manifests) = [] := by
      refine List.filter_eq_nil_iff.mpr fun a ha => ?_
      obtain ⟨p, hp, rfl⟩ := List.mem_map.mp ha
      simp [unmatched_eq_false (hmarks ▸ List.mem_map_of_mem (List.mem_filter.mp hp).1)]
    rw [List.filter_append, horder, hnone, List.append_nil]

/-- Installs that differ at most in the order of their namespaces. -/
structure Respelled (a b : AddOnInstance) : Prop where
  /-- The namespaces are the same, in some order. -/
  namespaces : a.namespaces.Perm b.namespaces
  /-- Nothing else differs. -/
  rest : a = { b with namespaces := a.namespaces }

/-- An install with its namespaces in their order. -/
def AddOnInstance.normal (a : AddOnInstance) : AddOnInstance := { a with namespaces := sorted a.namespaces }

/-- Installs differ at most in the order of their namespaces when they are the same with these in their order. -/
theorem respelled_iff {a b : AddOnInstance} : Respelled a b ↔ a.normal = b.normal := by
  constructor
  · rintro ⟨hperm, hrest⟩
    rw [hrest]
    unfold AddOnInstance.normal
    dsimp only
    rw [sorted_eq_of_perm hperm]
  · intro h
    have hsorted : sorted a.namespaces = sorted b.namespaces := congrArg AddOnInstance.namespaces h
    refine ⟨(sortOn_perm id a.namespaces).symm.trans ?_, ?_⟩
    · rw [show sortOn id a.namespaces = sorted b.namespaces from hsorted]
      exact sortOn_perm id b.namespaces
    · obtain ⟨id, version, chartVersion, namespaces, source⟩ := a
      obtain ⟨id', version', chartVersion', namespaces', source'⟩ := b
      simp only [AddOnInstance.normal, AddOnInstance.mk.injEq] at h ⊢
      exact ⟨h.1, h.2.1, h.2.2.1, trivial, h.2.2.2.2⟩

/-- Whether installs are the same does not depend on the order of their namespaces. -/
theorem sameInstall_normal (a b : AddOnInstance) : sameInstall a.normal b.normal = sameInstall a b := by
  have hsorted : ∀ l : List String, sorted (sorted l) = sorted l := fun l => sorted_eq_of_perm (sortOn_perm id l)
  unfold sameInstall AddOnInstance.normal
  dsimp only
  rw [hsorted, hsorted]

/-- A state of the merge with the namespaces of every install in their order. -/
def normalState (st : List AddOnInstance × List (AddOnInstance × Bool)) : List AddOnInstance × List (AddOnInstance × Bool) :=
  (st.1.map (·.normal), st.2.map fun p => (p.1.normal, p.2))

/-- One turn does not see the order of namespaces. -/
theorem placeInstall_normal (st : List AddOnInstance × List (AddOnInstance × Bool)) (c : AddOnInstance) :
    placeInstall (normalState st) c.normal = normalState (placeInstall st c) := by
  unfold placeInstall normalState
  dsimp only
  rw [Prod.mk.injEq]
  constructor
  · simp only [List.map_append, List.filter_map, List.map_map, List.any_map, Function.comp_def, sameInstall_normal]
    split_ifs <;> rfl
  · simp only [List.map_map, Function.comp_def, sameInstall_normal]

/-- A merge does not see the order of namespaces. -/
theorem upsertAddOns_normal (cluster manifests : List AddOnInstance) :
    upsertAddOns (cluster.map (·.normal)) (manifests.map (·.normal)) = (upsertAddOns cluster manifests).map (·.normal) := by
  have hrun : ∀ st, (cluster.map (·.normal)).foldl placeInstall (normalState st) = normalState (cluster.foldl placeInstall st) := by
    induction cluster with
    | nil => exact fun st => rfl
    | cons c cluster ih =>
      intro st
      rw [List.map_cons, List.foldl_cons, List.foldl_cons, placeInstall_normal, ih]
  have hstart : (([], (manifests.map (·.normal)).map fun m => (m, false)) : List AddOnInstance × List (AddOnInstance × Bool)) =
      normalState ([], manifests.map fun m => (m, false)) := by
    simp [normalState, Function.comp_def]
  unfold upsertAddOns
  dsimp only
  rw [hstart, hrun]
  simp only [normalState, List.map_append, List.filter_map, List.map_map, Function.comp_def]

/-- The merge of the installs neither loses nor repeats one: it returns the manifests' installs and the
cluster's that none of them matches, each once and the cluster's in their order; and the order of namespaces inside the
installs changes nothing but the order of namespaces inside what is returned. -/
theorem upsertAddOns_merges (cluster manifests : List AddOnInstance) :
    (upsertAddOns cluster manifests).Perm (manifests ++ cluster.filter (unmatched manifests)) ∧
      (upsertAddOns cluster manifests).filter (unmatched manifests) = cluster.filter (unmatched manifests) ∧
      ∀ cluster' manifests', List.Forall₂ Respelled cluster cluster' → List.Forall₂ Respelled manifests manifests' →
        List.Forall₂ Respelled (upsertAddOns cluster manifests) (upsertAddOns cluster' manifests') := by
  have hnormal : ∀ {l l' : List AddOnInstance}, List.Forall₂ Respelled l l' ↔ l.map (·.normal) = l'.map (·.normal) := by
    intro l l'
    rw [← List.forall₂_eq_eq_eq, List.forall₂_map_left_iff, List.forall₂_map_right_iff]
    exact ⟨fun h => h.imp fun _ _ => respelled_iff.mp, fun h => h.imp fun _ _ => respelled_iff.mpr⟩
  obtain ⟨hperm, horder⟩ := upsertAddOns_perm cluster manifests
  refine ⟨hperm, horder, fun cluster' manifests' hcluster hmanifests => hnormal.mpr ?_⟩
  rw [← upsertAddOns_normal, ← upsertAddOns_normal, hnormal.mp hcluster, hnormal.mp hmanifests]

/-- A posted install replaces the cluster's in the same two namespaces, whichever of them is named first. -/
theorem upsertAddOns_certManager :
    let live : AddOnInstance := { id := "cert-manager", version := "1.14.0", namespaces := ["a", "b"] }
    let posted : AddOnInstance := { id := "cert-manager", version := "1.15.0", namespaces := ["b", "a"] }
    let posted' : AddOnInstance := { id := "cert-manager", version := "1.15.0", namespaces := ["a", "b"] }
    upsertAddOns [live] [posted] = [posted] ∧
      List.Forall₂ Respelled (upsertAddOns [live] [posted]) (upsertAddOns [live] [posted']) :=
  ⟨by decide +kernel, (upsertAddOns_merges _ _).2.2 _ _ (.cons ⟨.refl _, rfl⟩ .nil) (.cons ⟨.swap _ _ _, rfl⟩ .nil)⟩

end AddOns

end UpgradeScope
