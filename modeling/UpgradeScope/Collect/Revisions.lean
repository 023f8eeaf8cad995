import UpgradeScope.External
import UpgradeScope.Lib.SortFunc
import UpgradeScope.Lib.Strings

/-!
# Which revision of a Helm release is installed

`helmRevisionOf` and `installedRevision` of `internal/collect/helm.go`. A release's stored revisions are
sorted by their numbers, the newest first, and the newest one's status decides which of them the release
is judged by. The sort compares two numbers by their machine difference, so it puts the newest first
exactly while that difference fits: any two numbers less than `2^63` apart
(`installedRevision_newest_iff`). The numbers come from labels and object names, where any 64-bit value
can stand (`helmRevisionOf_range`).
-/

namespace UpgradeScope.Collect

open Go SortFunc

/-! ## The stored revisions -/

/-- `helmObjectPrefix`: what the name of every object that stores a release starts with. -/
def helmObjectPrefix : String := "sh.helm.release.v1."

/-- What is read of an object's metadata. -/
structure PartialObjectMetadata where
  /-- The object's name. -/
  name : String
  /-- Its labels. -/
  labels : AList fun _ : String => String
  /-- Its UID. -/
  uid : String := ""
  /-- Its resource version. -/
  resourceVersion : String := ""

/-- A label's value, empty when the object does not have it. -/
def PartialObjectMetadata.label (m : PartialObjectMetadata) (key : String) : String := (m.labels.lookup key).getD ""

/-- `strings.LastIndex`, counted in characters. -/
def lastIndex (s sub : String) : Option ℕ :=
  ((List.range (s.toList.length + 1)).filter fun i => sub.toList.isPrefixOf (s.toList.drop i)).getLast?

/-- `releaseRevision`: the number a stored object's name ends in, 0 when there is none. -/
def releaseRevision (secretName : String) : ℤ :=
  match lastIndex secretName ".v" with
  | none => 0
  | some i => (atoi (String.ofList (secretName.toList.drop (i + 2)))).getD 0

/-- `helmRevisionOf`: a stored revision's release name and number, from the labels or else from the
object's name; nothing for an object that stores no release. -/
def helmRevisionOf (X : External) (m : PartialObjectMetadata) : Option (String × ℤ) :=
  match cutPrefix? m.name helmObjectPrefix with
  | none => none
  | some rest =>
    -- A label that is no subdomain is not the release's name.
    let labelled := if m.label "name" ≠ "" ∧ 0 < (X.subdomainProblems (m.label "name")).length then "" else m.label "name"
    let name :=
      if labelled = "" then
        match lastIndex rest ".v" with
        | none => ""
        | some i => if 0 < i then String.ofList (rest.toList.take i) else ""
      else labelled
    let rev := (atoi (m.label "version")).getD (releaseRevision m.name)
    if name ≠ "" then some (name, rev) else none

/-- `helmRevision`: one stored revision. -/
structure HelmRevision where
  /-- The storage driver, by its index. -/
  driver : ℕ := 0
  /-- The Secret's or ConfigMap's name. -/
  object : String := ""
  /-- The revision's number. -/
  revision : ℤ := 0
  /-- The status its label gives. -/
  status : String := ""
  /-- The object's UID. -/
  uid : String := ""
  /-- The object's resource version. -/
  rv : String := ""
deriving DecidableEq

/-- The revision `collectHelmFetching` records for an object of a driver's list. -/
def storedRevision (X : External) (d : ℕ) (m : PartialObjectMetadata) : Option HelmRevision :=
  (helmRevisionOf X m).map fun p =>
    { driver := d, object := m.name, revision := p.2, status := m.label "status", uid := m.uid, rv := m.resourceVersion }

variable {revs older : List HelmRevision} {s : String} {a b : HelmRevision}

/-- `strconv.Atoi` answers within 64 bits. -/
theorem atoi_range {z : ℤ} (h : atoi s = some z) : -2 ^ 63 ≤ z ∧ z ≤ maxInt := by
  unfold atoi at h
  unfold maxInt
  split at h
  all_goals
    obtain ⟨n, -, hn⟩ := Option.bind_eq_some_iff.mp h
    split_ifs at hn with hle
    obtain rfl := Option.some.inj hn
    omega

/-- The number read of a stored revision is a 64-bit one, whatever its labels and name are. -/
theorem helmRevisionOf_range {X : External} {m : PartialObjectMetadata} {name : String} {rev : ℤ}
    (h : helmRevisionOf X m = some (name, rev)) : -2 ^ 63 ≤ rev ∧ rev ≤ maxInt := by
  have hrelease : -2 ^ 63 ≤ releaseRevision m.name ∧ releaseRevision m.name ≤ maxInt := by
    unfold releaseRevision
    split
    · decide
    · rename_i i _
      cases hat : atoi (String.ofList (m.name.toList.drop (i + 2))) with
      | none => decide
      | some z => exact atoi_range hat
  unfold helmRevisionOf at h
  split at h
  · simp at h
  · dsimp only at h
    split_ifs at h
    all_goals
      obtain rfl : _ = rev := congrArg Prod.snd (Option.some.inj h)
      cases hat : atoi (m.label "version") with
      | none => exact hrelease
      | some z => exact atoi_range hat

/-! ## The installed one -/

/-- `revisionPick`: what was found in a release's history. -/
inductive RevisionPick where
  /-- A revision to judge the release by. -/
  | installed
  /-- Uninstalled: nothing runs. -/
  | gone
  /-- Failed revisions only. -/
  | unjudged
deriving DecidableEq

/-- The comparison of `installedRevision`: Go's difference of two numbers, the greater one first. -/
def newestFirst (a b : HelmRevision) : ℤ := wrap64 (b.revision - a.revision)

/-- What `installedRevision` answers once it has sorted the history; nothing for an empty one, which it
does not guard against. -/
def pickRevision : List HelmRevision → Option (HelmRevision × RevisionPick)
  | [] => none
  | newest :: older =>
    if newest.status = "uninstalled" ∨ newest.status = "uninstalling" then some ({}, .gone)
    else if newest.status = "failed" then
      match older.find? (·.status = "deployed") with
      | some r => some (r, .installed)
      | none =>
        match older.find? (·.status = "superseded") with
        | some r => some (r, .installed)
        | none => some ({}, .unjudged)
    else some (newest, .installed)

/-- `installedRevision`, with `rest` for what `slices.SortFunc` does to more than 12 revisions. -/
def installedRevision (rest : (HelmRevision → HelmRevision → ℤ) → List HelmRevision → List HelmRevision)
    (revs : List HelmRevision) : Option (HelmRevision × RevisionPick) :=
  pickRevision (sortFunc rest newestFirst revs)

/-! ## What the newest revision's status asks for -/

/-- The revision has the greatest number of those with a property. -/
def NewestWith (p : HelmRevision → Prop) (revs : List HelmRevision) (r : HelmRevision) : Prop :=
  (r ∈ revs ∧ p r) ∧ ∀ x ∈ revs, p x → x.revision ≤ r.revision

/-- The answer is the one that the status of the revision with the greatest number asks for. -/
def AnswersByNewest (revs : List HelmRevision) (out : HelmRevision × RevisionPick) : Prop :=
  ∃ newest, NewestWith (fun _ => True) revs newest ∧
    if newest.status = "uninstalled" ∨ newest.status = "uninstalling" then out = ({}, .gone)
    else if newest.status = "failed" then
      (∃ r, NewestWith (·.status = "deployed") revs r ∧ out = (r, .installed)) ∨
        ((∀ x ∈ revs, x.status ≠ "deployed") ∧
          ∃ r, NewestWith (·.status = "superseded") revs r ∧ out = (r, .installed)) ∨
        ((∀ x ∈ revs, x.status ≠ "deployed" ∧ x.status ≠ "superseded") ∧ out = ({}, .unjudged))
    else out = (newest, .installed)

/-- The revisions of a history are in order, the newest first. -/
def NewestFirst (revs : List HelmRevision) : Prop := revs.Pairwise fun a b => b.revision ≤ a.revision

/-- The first revision with a status is the newest with it, when the revision in front has another. -/
theorem newestWith_of_find {newest r : HelmRevision} (h : NewestFirst (newest :: older)) (hne : newest.status ≠ s)
    (hfind : older.find? (·.status = s) = some r) : NewestWith (·.status = s) (newest :: older) r := by
  obtain ⟨hr, before, after, rfl, hbefore⟩ := List.find?_eq_some_iff_append.mp hfind
  have hs : r.status = s := by simpa using hr
  refine ⟨⟨by simp, hs⟩, ?_⟩
  intro x hx hxs
  rcases List.mem_cons.mp hx with rfl | hx
  · exact absurd hxs hne
  · rcases List.mem_append.mp hx with hx | hx
    · exact absurd hxs (by simpa using hbefore x hx)
    · rcases List.mem_cons.mp hx with rfl | hx
      · exact le_rfl
      · have hsuffix := (List.pairwise_append.mp (List.pairwise_cons.mp h).2).2.1
        exact (List.pairwise_cons.mp hsuffix).1 x hx

/-- No revision has a status that the search does not find. -/
theorem forall_ne_of_find {newest : HelmRevision} (hne : newest.status ≠ s) (hfind : older.find? (·.status = s) = none) :
    ∀ x ∈ newest :: older, x.status ≠ s := by
  intro x hx
  rcases List.mem_cons.mp hx with rfl | hx
  · exact hne
  · simpa using List.find?_eq_none.mp hfind x hx

/-- On a history in order the answer is the newest revision's. -/
theorem pickRevision_spec (hne : revs ≠ []) (h : NewestFirst revs) :
    ∃ out, pickRevision revs = some out ∧ AnswersByNewest revs out := by
  obtain ⟨newest, older, rfl⟩ := List.exists_cons_of_ne_nil hne
  have hnewest : NewestWith (fun _ => True) (newest :: older) newest := by
    refine ⟨⟨by simp, trivial⟩, ?_⟩
    intro x hx _
    rcases List.mem_cons.mp hx with rfl | hx
    · exact le_rfl
    · exact (List.pairwise_cons.mp h).1 x hx
  rw [pickRevision]
  -- The branches of `pickRevision`, in its order.
  by_cases hgone : newest.status = "uninstalled" ∨ newest.status = "uninstalling"
  · exact ⟨_, by rw [if_pos hgone], newest, hnewest, by rw [if_pos hgone]⟩
  by_cases hfailed : newest.status = "failed"
  · rw [if_neg hgone, if_pos hfailed]
    have hdep : newest.status ≠ "deployed" := by rw [hfailed]; decide
    have hsup : newest.status ≠ "superseded" := by rw [hfailed]; decide
    cases hd : older.find? (·.status = "deployed") with
    | some r =>
      refine ⟨_, rfl, newest, hnewest, ?_⟩
      rw [if_neg hgone, if_pos hfailed]
      exact .inl ⟨r, newestWith_of_find h hdep hd, rfl⟩
    | none =>
      have hnone := forall_ne_of_find hdep hd
      cases hs : older.find? (·.status = "superseded") with
      | some r =>
        refine ⟨_, rfl, newest, hnewest, ?_⟩
        rw [if_neg hgone, if_pos hfailed]
        exact .inr (.inl ⟨hnone, r, newestWith_of_find h hsup hs, rfl⟩)
      | none =>
        refine ⟨_, rfl, newest, hnewest, ?_⟩
        rw [if_neg hgone, if_pos hfailed]
        exact .inr (.inr ⟨fun x hx => ⟨hnone x hx, forall_ne_of_find hsup hs x hx⟩, rfl⟩)
  · exact ⟨_, by rw [if_neg hgone, if_neg hfailed], newest, hnewest, by rw [if_neg hgone, if_neg hfailed]⟩

/-- The answer asked for does not depend on the order of the history. -/
theorem AnswersByNewest.of_perm {revs revs' : List HelmRevision} {out : HelmRevision × RevisionPick} (hp : revs.Perm revs')
    (h : AnswersByNewest revs out) : AnswersByNewest revs' out := by
  simpa only [AnswersByNewest, NewestWith, hp.mem_iff] using h

/-! ## When the sort puts the newest first -/

/-- Any two of the numbers are less than `2^63` apart. -/
def DistancesFit (ns : List ℤ) : Prop := ∀ a ∈ ns, ∀ b ∈ ns, a - b < 2 ^ 63

/-- While the distance fits, the machine difference orders two revisions by their numbers. -/
theorem newestFirst_neg (hab : a.revision - b.revision < 2 ^ 63) (hba : b.revision - a.revision < 2 ^ 63) :
    newestFirst a b < 0 ↔ b.revision < a.revision := by
  unfold newestFirst
  rw [wrap64_of_range (by omega) (by unfold maxInt; omega)]
  omega

/-- For revisions too far apart the difference wraps, and the smaller number comes first. -/
theorem newestFirst_wraps (ha : -2 ^ 63 ≤ a.revision) (hb : b.revision ≤ maxInt) (h : 2 ^ 63 ≤ b.revision - a.revision) :
    newestFirst a b < 0 := by
  unfold newestFirst wrap64
  unfold maxInt at hb
  rw [Int.bmod_def]
  have hmod : (b.revision - a.revision) % ((2 ^ 64 : ℕ) : ℤ) = b.revision - a.revision := by
    refine Int.emod_eq_of_lt ?_ ?_
    · omega
    · push_cast
      omega
  rw [hmod, if_neg (by push_cast; omega)]
  push_cast
  omega

/-- While the distances fit, the comparison orders the history. -/
theorem DistancesFit.strictWeak (h : DistancesFit (revs.map (·.revision))) :
    StrictWeak newestFirst revs := by
  have hneg : ∀ a ∈ revs, ∀ b ∈ revs, (newestFirst a b < 0 ↔ b.revision < a.revision) := by
    intro a ha b hb
    have hma : a.revision ∈ revs.map (·.revision) := List.mem_map.mpr ⟨a, ha, rfl⟩
    have hmb : b.revision ∈ revs.map (·.revision) := List.mem_map.mpr ⟨b, hb, rfl⟩
    exact newestFirst_neg (h _ hma _ hmb) (h _ hmb _ hma)
  constructor
  · intro a ha b hb hab hba
    rw [hneg a ha b hb] at hab
    rw [hneg b hb a ha] at hba
    omega
  · intro a ha b hb c hc hab hbc
    rw [hneg a ha b hb] at hab
    rw [hneg b hb c hc] at hbc
    rw [hneg a ha c hc]
    omega

/-- While the distances fit, the sort puts the newest revision first. -/
theorem DistancesFit.newestFirst_sort {rest : (HelmRevision → HelmRevision → ℤ) → List HelmRevision → List HelmRevision}
    (hrest : Sorts rest) (h : DistancesFit (revs.map (·.revision))) :
    NewestFirst (sortFunc rest newestFirst revs) := by
  have hperm := (sorts_sortFunc hrest).perm newestFirst revs
  have hordered := (sorts_sortFunc hrest).ordered newestFirst revs h.strictWeak
  refine hordered.imp_of_mem ?_
  intro a b ha hb hab
  have hma : a.revision ∈ revs.map (·.revision) := List.mem_map.mpr ⟨a, hperm.mem_iff.mp ha, rfl⟩
  have hmb : b.revision ∈ revs.map (·.revision) := List.mem_map.mpr ⟨b, hperm.mem_iff.mp hb, rfl⟩
  rw [newestFirst_neg (h _ hmb _ hma) (h _ hma _ hmb)] at hab
  omega

/-! ## A history that the sort gets wrong -/

/-- A revision of a history whose newest is deployed and whose others are gone. -/
def goneBefore (g n : ℤ) : HelmRevision := { revision := n, status := if n = g then "deployed" else "uninstalled" }

/-- The newest revision is lost behind one that the sort puts first. -/
theorem not_answersByNewest {g x : ℤ} {ns : List ℤ} (hx : newestFirst (goneBefore g x) (goneBefore g g) < 0)
    (hmax : ∀ n ∈ g :: x :: ns, n ≤ g) (hnodup : (g :: x :: ns).Nodup) :
    ¬ ∃ out, installedRevision insertionSortCmpFunc ((g :: x :: ns).map (goneBefore g)) = some out ∧
      AnswersByNewest ((g :: x :: ns).map (goneBefore g)) out := by
  rintro ⟨out, hout, newest, ⟨⟨hmem, -⟩, hge⟩, hanswer⟩
  obtain ⟨n, hn, rfl⟩ := List.mem_map.mp hmem
  -- The greatest number is `g`, whose revision is deployed.
  have hng : n = g := by
    have h := hge (goneBefore g g) (List.mem_map.mpr ⟨g, by simp, rfl⟩) trivial
    exact le_antisymm (hmax n hn) h
  subst hng
  simp only [goneBefore, if_true] at hanswer
  rw [if_neg (by decide), if_neg (by decide)] at hanswer
  subst hanswer
  rw [installedRevision, sortFunc, ite_self] at hout
  have hperm := sorts_insertionSortCmpFunc.perm newestFirst ((n :: x :: ns).map (goneBefore n))
  obtain ⟨hxn, hnns⟩ : x ≠ n ∧ n ∉ ns := by
    have h := (List.nodup_cons.mp hnodup).1
    rw [List.mem_cons, not_or] at h
    exact ⟨fun heq => h.1 heq.symm, h.2⟩
  have hhead : (insertionSortCmpFunc newestFirst ((n :: x :: ns).map (goneBefore n))).head? ≠ some (goneBefore n n) := by
    refine head?_insertionSortCmpFunc hx ?_ ?_
    · intro heq
      exact hxn (congrArg HelmRevision.revision heq)
    · intro hmem
      obtain ⟨m, hm, heq⟩ := List.mem_map.mp hmem
      obtain rfl : m = n := congrArg HelmRevision.revision heq
      exact hnns hm
  cases hsorted : insertionSortCmpFunc newestFirst ((n :: x :: ns).map (goneBefore n)) with
  | nil =>
    rw [hsorted] at hperm
    simpa using hperm.length_eq
  | cons first older =>
    rw [hsorted] at hhead hout hperm
    obtain ⟨m, -, rfl⟩ := List.mem_map.mp (hperm.mem_iff.mp List.mem_cons_self)
    have hm : m ≠ n := fun heq => hhead (by rw [heq]; rfl)
    have hgone : (goneBefore n m).status = "uninstalled" := by simp [goneBefore, hm]
    rw [pickRevision, if_pos (.inl hgone)] at hout
    simp at hout

/-- The status of the revision with the greatest number decides, in every order of a history and for
all its statuses, exactly when any two of the numbers are less than `2^63` apart. -/
theorem installedRevision_newest_iff {ns : List ℤ} (hne : ns ≠ []) (hnodup : ns.Nodup)
    (hrange : ∀ n ∈ ns, -2 ^ 63 ≤ n ∧ n ≤ maxInt) :
    (∀ rest, Sorts rest → ∀ revs : List HelmRevision, (revs.map (·.revision)).Perm ns →
        ∃ out, installedRevision rest revs = some out ∧ AnswersByNewest revs out) ↔
      DistancesFit ns := by
  constructor
  · intro h
    by_contra hfit
    unfold DistancesFit at hfit
    push Not at hfit
    obtain ⟨a, ha, b, hb, hab⟩ := hfit
    -- Two numbers too far apart: the greatest is too far from the lower one as well, and the sort puts it behind.
    obtain ⟨g, hg, hmax⟩ : ∃ g ∈ ns, ∀ n ∈ ns, n ≤ g := by
      obtain ⟨g, hg⟩ := Option.isSome_iff_exists.mp (List.isSome_max?_of_ne_nil hne)
      exact ⟨g, (List.max?_eq_some_iff.mp hg).1, (List.max?_eq_some_iff.mp hg).2⟩
    have hgb : 2 ^ 63 ≤ g - b := by
      have := hmax a ha
      omega
    have hbg : b ≠ g := by
      rintro rfl
      omega
    have hperm : ns.Perm (g :: b :: (ns.erase g).erase b) :=
      (List.perm_cons_erase hg).trans ((List.perm_cons_erase ((List.mem_erase_of_ne hbg).mpr hb)).cons g)
    have hwraps : newestFirst (goneBefore g b) (goneBefore g g) < 0 :=
      newestFirst_wraps (hrange b hb).1 (hrange g hg).2 hgb
    refine not_answersByNewest hwraps ?_ (hperm.nodup_iff.mp hnodup) ?_
    · intro n hn
      exact hmax n (hperm.mem_iff.mpr hn)
    -- The order of the history that shows it, with every revision but the greatest uninstalled.
    · refine h insertionSortCmpFunc sorts_insertionSortCmpFunc _ ?_
      rw [List.map_map]
      exact (List.map_id _).symm ▸ hperm.symm
  · intro hfit rest hrest revs hrevs
    have hfit' : DistancesFit (revs.map (·.revision)) := by
      intro a ha b hb
      exact hfit a (hrevs.mem_iff.mp ha) b (hrevs.mem_iff.mp hb)
    have hperm := (sorts_sortFunc hrest).perm newestFirst revs
    have hsorted : sortFunc rest newestFirst revs ≠ [] := by
      intro hnil
      rw [hnil] at hperm
      obtain rfl : revs = [] := hperm.symm.eq_nil
      exact hne hrevs.symm.eq_nil
    obtain ⟨out, hout, hanswer⟩ := pickRevision_spec hsorted (hfit'.newestFirst_sort hrest)
    exact ⟨out, hout, hanswer.of_perm hperm⟩

/-- A history of a failed upgrade, with its revisions out of order. -/
theorem installedRevision_failed_upgrade :
    ∃ out, installedRevision insertionSortCmpFunc
        [{ revision := 1, status := "superseded" }, { revision := 3, status := "failed" },
          { revision := 2, status := "deployed" }] = some out ∧
      AnswersByNewest [{ revision := 1, status := "superseded" }, { revision := 3, status := "failed" },
        { revision := 2, status := "deployed" }] out :=
  (installedRevision_newest_iff (by decide : ([1, 3, 2] : List ℤ) ≠ []) (by decide) (by decide)).mpr (by unfold DistancesFit; decide)
    insertionSortCmpFunc sorts_insertionSortCmpFunc _ (by decide)

/-- The deployed revision of a release, stored under the greatest number. -/
def newestStored : PartialObjectMetadata :=
  { name := "sh.helm.release.v1.shop.v9223372036854775807", labels := [⟨"status", "deployed"⟩].toAList }

/-- An uninstalled revision of a release, stored under a negative number, which an object's name may end in. -/
def negativeStored : PartialObjectMetadata :=
  { name := "sh.helm.release.v1.shop.v-5", labels := [⟨"status", "uninstalled"⟩].toAList }

/-- The history read from the two objects. -/
def wrappedHistory : List HelmRevision := [newestStored, negativeStored].filterMap (storedRevision External.ascii 0)

/-- The release is taken for gone though the revision with the greatest number is deployed. -/
theorem newest_lost_to_negative : (wrappedHistory.map (·.revision)).Nodup ∧
    installedRevision insertionSortCmpFunc wrappedHistory = some ({}, .gone) ∧
      ¬ ∃ out, installedRevision insertionSortCmpFunc wrappedHistory = some out ∧ AnswersByNewest wrappedHistory out := by
  have hrevs : wrappedHistory.map (·.revision) = [maxInt, -5] := by decide +kernel
  have hgone : installedRevision insertionSortCmpFunc wrappedHistory = some ({}, .gone) := by decide +kernel
  refine ⟨by rw [hrevs]; decide, hgone, ?_⟩
  rintro ⟨out, hout, newest, ⟨⟨hmem, -⟩, hge⟩, hanswer⟩
  rw [hgone] at hout
  obtain rfl := Option.some.inj hout
  have hdeployed : ∀ r ∈ wrappedHistory, r.revision = maxInt → r.status = "deployed" := by decide +kernel
  have hstatus : newest.status = "deployed" := by
    have hle : ∀ r ∈ wrappedHistory, r.revision ≤ newest.revision := fun r hr => hge r hr trivial
    have hmax : ∃ r ∈ wrappedHistory, r.revision = maxInt := by decide +kernel
    have hlt : ∀ r ∈ wrappedHistory, r.revision ≤ maxInt := by decide +kernel
    obtain ⟨r, hr, heq⟩ := hmax
    exact hdeployed newest hmem (le_antisymm (hlt newest hmem) (heq ▸ hle r hr))
  rw [hstatus, if_neg (by decide), if_neg (by decide)] at hanswer
  simp at hanswer

end UpgradeScope.Collect
