import UpgradeScope.Engine.Rising
import UpgradeScope.Engine.Sources
import UpgradeScope.Suppress.Order

/-!
# Rules that select by namespace

A rule that selects by namespace alone is to accept what is in the namespaces it matches, and a finding
that also counts something elsewhere, or in no namespace, is to stay. Suppression decides from the
finding: from the objects it lists, and when it lists none from the namespaces it names. A finding does
not name the empty namespace, which only the findings about add-ons mark (`not_unseen_addOn`), the
finding of a release names the release's namespace alone, a glob such as `*` matches an object's empty
namespace, and rows can count more than they list. `Unseen` has these ways in which what lies outside
does not show, and `outsideKept_iff` says that there are no others.
-/

namespace UpgradeScope.Suppress

open Go Sorting Merging Kb Registry

/-! ## What lies outside -/

/-- A rule selects by namespace and by nothing else. -/
structure Rule.NamespaceOnly (r : Rule) : Prop where
  /-- It has a glob on namespaces. -/
  «namespace» : r.namespace ≠ ""
  /-- It has none on names. -/
  name : r.name = ""
  /-- It has none on files. -/
  file : r.file = ""

/-- No rule that names the finding matches the namespace, or it is none. -/
def Outside (X : External) (rules : List Rule) (f : Finding) (ns : String) : Prop :=
  ns = "" ∨ ∀ r ∈ rules, r.names f = true → X.globMatch r.namespace ns = false

/-- What a row counts in a namespace is listed, and each object accepts the finding itself. -/
structure SelfAccepted (f : Finding) (t : Tally) (ns : String) : Prop where
  /-- The listed objects do. -/
  listed : ∀ o ∈ t.objects, o.namespace = ns → accepts f o = true
  /-- There are no others. -/
  counted : t.counts ns ≤ t.objects.countP (·.namespace = ns)

section Rules

variable (X : External) (opts : Options) (rules : List Rule)

/-- Nothing stays of the finding when the rules are applied (`findings_apply`). -/
def Leaves (f : Finding) : Prop := (applyFinding X opts (activeRules X opts rules).1 f).kept = none

/-- Every listed object of the finding is selected by a rule or accepts the finding, and it leaves out none. -/
structure AllTaken (f : Finding) : Prop where
  /-- It lists some. -/
  lists : f.objects ≠ []
  /-- Each is taken. -/
  taken : ∀ o ∈ f.objects, selectedBy X opts (activeRules X opts rules).1 f o = true ∨ accepts f o = true
  /-- None is left out. -/
  omitted : f.objectsOmitted = 0

/-- The finding lists no object, and an applied rule that names it matches every namespace it names. -/
structure NamesTaken (f : Finding) : Prop where
  /-- It lists none. -/
  lists : f.objects = []
  /-- A rule takes it. -/
  taken : ∃ r ∈ (activeRules X opts rules).1, r.names f = true ∧ r.takesObjectless X f = true

variable (k : KB) (target : Version) (inv : Inventory)

/-- The ways in which what rows count outside does not show in their finding. -/
inductive Unseen (f : Finding) (rows : List Tally) : Prop
  /-- All the namespaces it names are taken, and a row counts some in none. -/
  | nowhere {t : Tally} (htaken : NamesTaken X opts rules f) (ht : t ∈ rows) (hcounts : 0 < t.counts "")
  /-- The namespace of a release is taken, and the release's manifest counts some outside. -/
  | elsewhere {rel : HelmRelease} {removed : Bool} {t : Tally} {ns : String} (htaken : NamesTaken X opts rules f)
      (hrel : rel ∈ inv.helmReleases) (hrows : rows = (bucket k target inv rel removed).map ManifestRow.tally)
      (ht : t ∈ rows) (hhome : ns ≠ rel.namespace) (hns : Outside X rules f ns) (hcounts : 0 < t.counts ns)
  /-- All that is listed is taken, and an object in no namespace does not accept the finding: a glob matches no name. -/
  | unnamed {t : Tally} {o : ObjectRef} (htaken : AllTaken X opts rules f) (ht : t ∈ rows) (ho : o ∈ t.objects)
      (hns : o.namespace = "") (hnot : accepts f o = false)
  /-- All that is listed is taken, and a row counts more outside than it lists there. -/
  | uncounted {t : Tally} {ns : String} (htaken : AllTaken X opts rules f) (ht : t ∈ rows) (hns : Outside X rules f ns)
      (hcounts : t.objects.countP (·.namespace = ns) < t.counts ns)

end Rules

/-! ## What suppression takes -/

section Taken

variable {X : External} {opts : Options} {rules : List Rule} {f g : Finding}

/-- The rules that apply are some of the rules. -/
theorem mem_of_active {r : Rule} (hr : r ∈ (activeRules X opts rules).1) : r ∈ rules := by
  rw [activeRules_eq] at hr
  exact (List.mem_filter.mp hr).1

/-- A finding leaves for its objects, or for its namespaces when it lists none. -/
theorem leaves_iff (hrules : ∀ r ∈ rules, r.NamespaceOnly) :
    Leaves X opts rules f ↔ AllTaken X opts rules f ∨ NamesTaken X opts rules f := by
  -- A rule with a namespace selects no finding as a whole.
  have hselects : ∀ r ∈ (activeRules X opts rules).1, r.selectsAll = false := by
    intro r hr
    have honly := hrules r (mem_of_active hr)
    simp [Rule.selectsAll, honly.namespace]
  have hwhole : namedWhole (activeRules X opts rules).1 f = false := by
    rw [namedWhole, List.any_eq_false]
    intro r hr
    simp [hselects r hr]
  have hless : namedObjectless X (activeRules X opts rules).1 f = true ↔ NamesTaken X opts rules f := by
    have hparts : NamesTaken X opts rules f ↔ f.objects = [] ∧
        ∃ r ∈ (activeRules X opts rules).1, r.names f = true ∧ r.takesObjectless X f = true :=
      ⟨fun h => ⟨h.lists, h.taken⟩, fun h => ⟨h.1, h.2⟩⟩
    unfold namedObjectless
    rw [hparts, Bool.and_eq_true, decide_eq_true_eq, List.any_eq_true]
    refine and_congr_right fun _ => exists_congr fun r => and_congr_right fun hr => ?_
    rw [hselects r hr]
    simp
  have hopen : openObjects X opts (activeRules X opts rules).1 f = [] ↔
      ∀ o ∈ f.objects, selectedBy X opts (activeRules X opts rules).1 f o = true ∨ accepts f o = true := by
    unfold openObjects
    rw [List.filter_eq_nil_iff]
    refine forall₂_congr fun o _ => ?_
    cases selectedBy X opts (activeRules X opts rules).1 f o <;> cases accepts f o <;> simp
  unfold Leaves
  rw [kept_applyFinding, hwhole, Bool.false_or, ← hless]
  by_cases hobjectless : namedObjectless X (activeRules X opts rules).1 f = true
  · rw [if_pos hobjectless]
    simp [hobjectless]
  · rw [if_neg hobjectless]
    simp only [hobjectless, Bool.false_eq_true, or_false]
    unfold partKept
    -- With no object listed nothing is open, yet the finding stays: `partKept` keeps what lists nothing.
    by_cases hnone : f.objects = []
    · have hstays : openObjects X opts (activeRules X opts rules).1 f = [] := by simp [openObjects, hnone]
      rw [hstays, hnone, if_pos rfl]
      simp only [reduceCtorEq, false_iff]
      exact fun htaken => htaken.lists hnone
    · have hlength : (openObjects X opts (activeRules X opts rules).1 f) = [] →
          (openObjects X opts (activeRules X opts rules).1 f).length ≠ f.objects.length := by
        intro hnil hlen
        rw [hnil] at hlen
        exact hnone (List.length_eq_zero_iff.mp hlen.symm)
      split_ifs with hall htaken
      · simp only [false_iff]
        exact fun htaken => hlength (hopen.mpr htaken.taken) hall
      · simp only [true_iff]
        exact ⟨hnone, hopen.mp htaken.1, htaken.2⟩
      · simp only [false_iff]
        exact fun h => htaken ⟨hopen.mpr h.taken, h.omitted⟩

/-- An object that a rule selects is in a namespace that the rule matches. -/
theorem not_outside_of_selected (hrules : ∀ r ∈ rules, r.NamespaceOnly) {o : ObjectRef} (hns : o.namespace ≠ "")
    (h : selectedBy X opts (activeRules X opts rules).1 f o = true) : ¬ Outside X rules f o.namespace := by
  obtain ⟨r, hr, hboth⟩ := List.any_eq_true.mp h
  rw [Bool.and_eq_true] at hboth
  have hmatch : X.globMatch r.namespace o.namespace = true := by
    have hmatches := hboth.2
    simp only [Rule.matches, Bool.and_eq_true, Bool.or_eq_true, decide_eq_true_eq] at hmatches
    exact hmatches.1.1.resolve_left (hrules r (mem_of_active hr)).namespace
  rintro (hnone | hout)
  · exact hns hnone
  · rw [hout r (mem_of_active hr) hboth.1] at hmatch
    exact absurd hmatch Bool.false_ne_true

/-! ### Findings that agree but for their callers -/

/-- Of two findings that agree but for their callers and detail, rules that select by namespace leave both or none. -/
theorem leaves_of_alike (hrules : ∀ r ∈ rules, r.NamespaceOnly) (h : f.Alike g) (hleaves : Leaves X opts rules g) :
    Leaves X opts rules f := by
  have hfields : ∀ callers detail, (Leaves X opts rules { g with callers := callers, detail := detail } ↔
      Leaves X opts rules g) := by
    intro callers detail
    rw [leaves_iff hrules, leaves_iff hrules]
    exact or_congr ⟨fun h => ⟨h.lists, h.taken, h.omitted⟩, fun h => ⟨h.lists, h.taken, h.omitted⟩⟩
      ⟨fun h => ⟨h.lists, h.taken⟩, fun h => ⟨h.lists, h.taken⟩⟩
  have hagain := (hfields f.callers f.detail).mpr hleaves
  rwa [← show f = { g with callers := f.callers, detail := f.detail } from h] at hagain

/-- Findings that agree but for their callers have the same namespaces outside the rules. -/
theorem outside_of_alike (h : f.Alike g) {ns : String} (hns : Outside X rules g ns) : Outside X rules f ns := by
  have hagain : Outside X rules { g with callers := f.callers, detail := f.detail } ns := hns
  rwa [← show f = { g with callers := f.callers, detail := f.detail } from h] at hagain

/-- An object's annotations accept both of two findings that agree but for their callers, or neither. -/
theorem accepts_of_alike (h : f.Alike g) (o : ObjectRef) : accepts f o = accepts g o :=
  calc accepts f o = accepts { g with callers := f.callers, detail := f.detail } o := congrArg (accepts · o) h
    _ = accepts g o := rfl

/-- A rule takes a finding for its namespaces only when the finding names them all, and then none of them is outside. -/
theorem NamesTaken.named (h : NamesTaken X opts rules f) :
    f.namespacesOmitted = 0 ∧ f.unnamespaced = false ∧ ∀ ns ∈ f.namespaces, Outside X rules f ns → ns = "" := by
  obtain ⟨r, hr, hnames, htakes⟩ := h.taken
  simp only [Rule.takesObjectless, allMatch, Bool.and_eq_true, Bool.not_eq_true', decide_eq_true_eq] at htakes
  obtain ⟨⟨⟨-, homitted⟩, hmarked⟩, hall, -⟩ := htakes
  refine ⟨homitted, hmarked, fun ns hns hout => hout.resolve_right fun hnone => ?_⟩
  have hmatch := List.all_eq_true.mp hall ns hns
  rw [hnone r (mem_of_active hr) hnames] at hmatch
  exact absurd hmatch Bool.false_ne_true

end Taken

/-! ## The namespaces that a finding names -/

section Named

variable {X : External} {k : KB} {target : Version} {now : Time} {inv : Inventory} {opts : Options} {rules : List Rule}
  {f g : Finding}

/-- A finding that leaves out no namespace is not capped. -/
theorem capNamespaces_of_omitted (hg : g.namespacesOmitted = 0) (h : (capNamespaces g).namespacesOmitted = 0) :
    capNamespaces g = g := by
  unfold capNamespaces at h ⊢
  split_ifs at h ⊢ with hlong
  · dsimp only at h
    omega
  · rfl

/-- A row's breakdown names every namespace that the row counts some in. -/
theorem mem_namespaceBreakdown {m : NamespaceCounts} {label ns : String} (hns : ns ≠ "") (h : 0 < countAt m ns) :
    ns ∈ (namespaceBreakdown m label).2 := by
  have hkey : ns ∈ m.keys := List.mem_map_of_mem (f := Sigma.fst) (mem_entries_of_countAt h.ne')
  exact List.mem_filter.mpr ⟨mem_sorted.mpr hkey, by simpa using hns⟩

/-- The finding names the namespaces of a row, before it is capped. -/
def NamesRow (m : NamespaceCounts) (g : Finding) : Prop :=
  g.namespaces = (namespaceBreakdown m "").2 ∧ g.namespacesOmitted = 0

variable {ns : String} {u : APIUsage} {a : AddOn} {covered ins : List AddOnInstall}

/-- A usage finding names the namespaces of its row. -/
theorem namesRow_usageFinding (h : usageFinding k target inv.source inv.namespaces u = some g) :
    NamesRow u.namespaces g := by
  simp only [usageFinding] at h
  split_ifs at h
  obtain ⟨-, -, rfl⟩ := Option.map_eq_some_iff.mp h
  exact ⟨rfl, rfl⟩

/-- The finding of a row nobody can be named for names the row's namespaces. -/
theorem namesRow_authorshipFinding (h : authorshipFinding k inv.namespaces u = some g) :
    NamesRow u.namespaces g := by
  unfold authorshipFinding at h
  split at h
  · simp at h
  · split at h
    · simp at h
    · obtain rfl := Option.some.inj h
      exact ⟨rfl, rfl⟩

/-- The finding of a volume plugin names the row's namespaces. -/
theorem namesRow_volumeFinding {u : VolumePluginUse} (h : volumeFinding k target inv.source inv.namespaces u = some g) :
    NamesRow u.namespaces g := by
  unfold volumeFinding at h
  split at h
  · simp at h
  · obtain ⟨p, -, rfl⟩ := Option.map_eq_some_iff.mp h
    exact ⟨rfl, rfl⟩

/-- The finding about a deprecated version in use names the row's namespaces. -/
theorem namesRow_deprecatedVersionFinding {c : CRD} {v : CRDVersion} (hu : c.used v.name = some u) :
    NamesRow u.namespaces (deprecatedVersionFinding X inv target c v) := by
  unfold deprecatedVersionFinding
  dsimp only
  rw [hu]
  exact ⟨rfl, rfl⟩

/-- A finding about an add-on names the namespaces of the installs it covers, and marks those in none. -/
theorem namespaces_covers (h : Covers X target now a ins g covered) :
    g.namespaces = namedNamespaces (installNamespaces covered) ∧ g.namespacesOmitted = 0 ∧
      g.unnamespaced = covered.any AddOnInstall.unnamespaced := by
  cases h with
  | subject hs =>
    obtain ⟨ins', line, rfl⟩ := exists_newAddOnSubject hs
    exact ⟨rfl, rfl, rfl⟩
  | @compat s key f hs hf =>
    obtain ⟨ins', line, rfl⟩ := exists_newAddOnSubject (List.mem_cons_of_mem _ hs)
    obtain ⟨title, detail, citations, rfl⟩ := evalAddOnCompat_eq_some hf
    exact ⟨rfl, rfl, rfl⟩

/-- A named namespace of installs is among those their findings name. -/
theorem mem_namedNamespaces {l : List String} (hns : ns ≠ "") (h : ns ∈ l) : ns ∈ namedNamespaces l := by
  unfold namedNamespaces
  split
  · exact (List.mem_cons.mp h).resolve_left hns
  · exact h

/-- An install counts in its namespaces. -/
theorem mem_where_of_tally {i : AddOnInstall} (hns : ns ≠ "") (h : 0 < i.tally.counts ns) : ns ∈ i.where := by
  unfold AddOnInstall.tally at h
  dsimp only at h
  split_ifs at h with hnone
  · exact absurd h (lt_irrefl 0)
  · exact List.count_pos_iff.mp (by exact_mod_cast h)

/-- A finding that leaves out no namespace names each one its rows count some in, but for a release's manifest. -/
theorem named_of_builtFrom {rows : List Tally} {t : Tally} (h : BuiltFrom X k target now inv f rows)
    (homitted : f.namespacesOmitted = 0) (ht : t ∈ rows) (hns : ns ≠ "") (hcounts : 0 < t.counts ns) :
    ns ∈ f.namespaces ∨ ∃ rel ∈ inv.helmReleases, ∃ removed,
      rows = (bucket k target inv rel removed).map ManifestRow.tally ∧ rel.namespace ∈ f.namespaces := by
  have hrow : ∀ {g : Finding} {m : NamespaceCounts}, NamesRow m g → (capNamespaces g).namespacesOmitted = 0 →
      0 < countAt m ns → ns ∈ (capNamespaces g).namespaces := by
    intro g m hg homitted hcounts
    rw [capNamespaces_of_omitted hg.2 homitted, hg.1]
    exact mem_namespaceBreakdown hns hcounts
  have hrelease : ∀ (g : Finding) (rel : HelmRelease), rel.namespace ∈ (capNamespaces (inRelease inv rel g)).namespaces := by
    intro g rel
    have hshort : ¬ (inRelease inv rel g).namespaces.length > maxFindingNamespaces := by
      simp [inRelease, maxFindingNamespaces]
    unfold capNamespaces
    rw [if_neg hshort]
    exact List.mem_singleton_self _
  cases h with
  | @usage u g calls hu hg =>
    obtain rfl := List.mem_singleton.mp ht
    obtain ⟨hnames, hnone⟩ : (withCallers (capNamespaces g) calls).namespaces = (capNamespaces g).namespaces ∧
        (withCallers (capNamespaces g) calls).namespacesOmitted = (capNamespaces g).namespacesOmitted := by
      unfold withCallers
      split_ifs <;> exact ⟨rfl, rfl⟩
    rw [hnames]
    exact .inl (hrow (namesRow_usageFinding hg) (hnone ▸ homitted) hcounts)
  | authorship hu hg =>
    obtain rfl := List.mem_singleton.mp ht
    exact .inl (hrow (namesRow_authorshipFinding hg) homitted hcounts)
  -- A release's finding names the release's own namespace, wherever its objects are.
  | @manifest rel g removed hrel hinstalled hg => exact .inr ⟨rel, hrel, removed, rfl, hrelease g rel⟩
  | @chart rel g hrel hinstalled hg =>
    obtain rfl := List.mem_singleton.mp ht
    unfold HelmRelease.tally at hcounts
    dsimp only at hcounts
    split_ifs at hcounts with hhome
    · rw [hhome]
      exact .inl (hrelease g rel)
    · exact absurd hcounts (lt_irrefl 0)
  | @addOn id a g ins hid ha hg hcovers =>
    obtain ⟨i, hi, rfl⟩ := List.mem_map.mp ht
    obtain ⟨hnamespaces, hnone, -⟩ := namespaces_covers hcovers
    rw [capNamespaces_of_omitted hnone homitted, hnamespaces]
    exact .inl (mem_namedNamespaces hns (mem_sortedSet.mpr (List.mem_flatMap.mpr ⟨i, hi, mem_where_of_tally hns hcounts⟩)))
  | deprecatedVersion hc hv hu =>
    obtain rfl := List.mem_singleton.mp ht
    exact .inl (hrow (namesRow_deprecatedVersionFinding hu) homitted hcounts)
  | unservedVersion hc hu =>
    obtain rfl := List.mem_singleton.mp ht
    exact .inl (hrow ⟨rfl, rfl⟩ homitted hcounts)
  | volume hu hg =>
    obtain rfl := List.mem_singleton.mp ht
    exact .inl (hrow (namesRow_volumeFinding hg) homitted hcounts)
  | cluster hf => simp at ht

/-- The findings about add-ons show all that they count: they list no object, and mark what is in no namespace. -/
theorem not_unseen_addOn (h : Covers X target now a ins g covered) :
    ¬ Unseen X opts rules k target inv (capNamespaces g) (covered.map AddOnInstall.tally) := by
  obtain ⟨hnamespaces, hnone, hunnamespaced⟩ := namespaces_covers h
  have hlists : ¬ AllTaken X opts rules (capNamespaces g) := by
    intro htaken
    refine htaken.lists ?_
    rw [capNamespaces_objects]
    exact h.objects.1
  have hshown : ∀ {t : Tally} {ns : String}, NamesTaken X opts rules (capNamespaces g) →
      t ∈ covered.map AddOnInstall.tally → Outside X rules (capNamespaces g) ns → ¬ 0 < t.counts ns := by
    intro t ns htaken ht hns hcounts
    obtain ⟨i, hi, rfl⟩ := List.mem_map.mp ht
    obtain ⟨homitted, hmarked, hnamed⟩ := htaken.named
    rw [capNamespaces_of_omitted hnone homitted] at hmarked hnamed hns
    rw [hunnamespaced, List.any_eq_false] at hmarked
    have hwhere : i.where ≠ [] ∧ "" ∉ i.where := by simpa [AddOnInstall.unnamespaced] using hmarked i hi
    -- An install in no namespace is marked, and one in a namespace is named.
    by_cases hempty : ns = ""
    · rw [hempty] at hcounts
      unfold AddOnInstall.tally at hcounts
      dsimp only at hcounts
      rw [if_neg hwhere.1] at hcounts
      exact hwhere.2 (List.count_pos_iff.mp (by exact_mod_cast hcounts))
    · refine hempty (hnamed ns ?_ hns)
      rw [hnamespaces]
      exact mem_namedNamespaces hempty
        (mem_sortedSet.mpr (List.mem_flatMap.mpr ⟨i, hi, mem_where_of_tally hempty hcounts⟩))
  intro hunseen
  cases hunseen with
  | nowhere htaken ht hcounts => exact hshown htaken ht (.inl rfl) hcounts
  | elsewhere htaken hrel hrows ht hhome hns hcounts => exact hshown htaken ht hns hcounts
  | unnamed htaken ht ho hns hnot => exact hlists htaken
  | uncounted htaken ht hns hcounts => exact hlists htaken

end Named

/-! ## Evaluations -/

section Report

variable (X : External) (opts : Options) (rules : List Rule) (k : KB) (target : Version) (now : Time) (inv : Inventory)

/-- No finding has left that counts something outside, unless each object of it was listed and accepts it. -/
def OutsideKept (rep : Report) : Prop :=
  ∀ f ∈ rep.findings, Leaves X opts rules f → ∀ rows, BuiltFrom X k target now inv f rows →
    ∀ t ∈ rows, ∀ ns, Outside X rules f ns → SelfAccepted f t ns

variable {X opts rules k target now inv} {f : Finding} {rows : List Tally}

/-- A finding leaves with something outside that was not accepted in one of the ways in which it does not show. -/
theorem unseen_iff (hrules : ∀ r ∈ rules, r.NamespaceOnly) (hbuilt : BuiltFrom X k target now inv f rows) :
    Unseen X opts rules k target inv f rows ↔
      Leaves X opts rules f ∧ ∃ t ∈ rows, ∃ ns, Outside X rules f ns ∧ ¬ SelfAccepted f t ns := by
  have hlists : ∀ t ∈ rows, ∀ o ∈ t.objects, o ∈ f.objects := fun t ht o ho =>
    hbuilt.objects.mem_iff.mpr (List.mem_flatMap.mpr ⟨t, ht, ho⟩)
  have hempty : f.objects = [] → ∀ t ∈ rows, t.objects = [] := fun hnone t ht =>
    List.eq_nil_iff_forall_not_mem.mpr fun o ho => by simpa [hnone] using hlists t ht o ho
  -- Where nothing is listed, all that a row counts is unaccepted.
  have hunlisted : f.objects = [] → ∀ t ∈ rows, ∀ ns, SelfAccepted f t ns ↔ ¬ 0 < t.counts ns := by
    intro hnone t ht ns
    have hobjects := hempty hnone t ht
    constructor
    · intro haccepted
      have hle := haccepted.counted
      rw [hobjects] at hle
      exact not_lt.mpr hle
    · intro hcounts
      refine ⟨fun o ho => ?_, ?_⟩
      · rw [hobjects] at ho
        simp at ho
      · rw [hobjects]
        exact not_lt.mp hcounts
  rw [leaves_iff hrules]
  constructor
  · intro hunseen
    cases hunseen with
    | nowhere htaken ht hcounts =>
      exact ⟨.inr htaken, _, ht, "", .inl rfl, fun h => (hunlisted htaken.lists _ ht _).mp h hcounts⟩
    | elsewhere htaken hrel hrows ht hhome hns hcounts =>
      exact ⟨.inr htaken, _, ht, _, hns, fun h => (hunlisted htaken.lists _ ht _).mp h hcounts⟩
    | unnamed htaken ht ho hns hnot =>
      refine ⟨.inl htaken, _, ht, "", .inl rfl, fun haccepted => ?_⟩
      rw [haccepted.listed _ ho hns] at hnot
      exact absurd hnot (by simp)
    | uncounted htaken ht hns hcounts =>
      exact ⟨.inl htaken, _, ht, _, hns, fun haccepted => absurd hcounts (not_lt.mpr haccepted.counted)⟩
  · rintro ⟨htaken | htaken, t, ht, ns, hns, hnot⟩
    · -- What is listed outside in a named namespace no rule selects, so it accepts the finding.
      by_contra hunseen
      refine hnot ⟨fun o ho hons => ?_, not_lt.mp fun hcounts => hunseen (.uncounted htaken ht hns hcounts)⟩
      by_cases hunnamed : o.namespace = ""
      · by_contra hrejects
        exact hunseen (.unnamed htaken ht ho hunnamed (Bool.eq_false_iff.mpr hrejects))
      · refine (htaken.taken o (hlists t ht o ho)).resolve_left fun hselected => ?_
        exact not_outside_of_selected hrules hunnamed hselected (hons ▸ hns)
    · -- The finding names no namespace outside, so this one is none or a manifest's.
      have hcounts : 0 < t.counts ns := by
        rw [hunlisted htaken.lists t ht ns] at hnot
        exact not_not.mp hnot
      obtain ⟨homitted, -, hnamed⟩ := htaken.named
      by_cases hunnamed : ns = ""
      · exact .nowhere htaken ht (hunnamed ▸ hcounts)
      · rcases named_of_builtFrom hbuilt homitted ht hunnamed hcounts with hmem | ⟨rel, hrel, removed, hrows, hhome⟩
        · exact absurd (hnamed ns hmem hns) hunnamed
        · refine .elsewhere htaken hrel hrows ht (fun heq => ?_) hns hcounts
          exact hunnamed (hnamed ns (heq ▸ hhome) hns)

/-- Where what lies outside of a finding does not show, a report has a finding that left with it. -/
theorem not_outsideKept_of_unseen {fuel : ℕ} {rep : Report} (hrules : ∀ r ∈ rules, r.NamespaceOnly)
    (hrep : evaluate fuel X inv k target now = some rep) (hbuilt : BuiltFrom X k target now inv f rows)
    (hunseen : Unseen X opts rules k target inv f rows) : ¬ OutsideKept X opts rules k target now inv rep := by
  intro hkept
  obtain ⟨hleaves, t, ht, ns, hns, hnot⟩ := (unseen_iff hrules hbuilt).mp hunseen
  rw [evaluate_eq] at hrep
  obtain ⟨found, hfound, rfl⟩ := Option.map_eq_some_iff.mp hrep
  rcases hbuilt.reported hfound with ⟨-, hnone⟩ | ⟨f', hf', halike, hbuilt'⟩
  · rw [hnone] at ht
    simp at ht
  · obtain ⟨hlisted, hcounted⟩ := hkept f' (mem_sortOn.mpr hf') (leaves_of_alike hrules halike hleaves) rows hbuilt' t ht ns
      (outside_of_alike halike hns)
    refine hnot ⟨fun o ho hons => ?_, hcounted⟩
    rw [← accepts_of_alike halike]
    exact hlisted o ho hons

/-- For every inventory, knowledge base and target, and every list of rules that select by namespace alone: the rules leave
open what stays of each finding of the evaluation, and no finding has left that counts something in a namespace that none of
the rules naming it matches, or in none, unless each such object was listed and accepts it, exactly when there are no rows
whose finding does not show what they count outside. -/
theorem outsideKept_iff {fuel : ℕ} {rep : Report} (hrules : ∀ r ∈ rules, r.NamespaceOnly)
    (hrep : evaluate fuel X inv k target now = some rep) :
    (apply X opts rep rules).1.findings.Perm (rep.findings.flatMap (opened X opts (activeRules X opts rules).1)) ∧
      (OutsideKept X opts rules k target now inv rep ↔
        ∀ f rows, BuiltFrom X k target now inv f rows → ¬ Unseen X opts rules k target inv f rows) := by
  refine ⟨findings_apply X opts rep rules, ?_, ?_⟩
  · intro hkept f rows hbuilt hunseen
    exact not_outsideKept_of_unseen hrules hrep hbuilt hunseen hkept
  · intro hseen f hf hleaves rows hbuilt t ht ns hns
    by_contra hnot
    exact hseen f rows hbuilt ((unseen_iff hrules hbuilt).mpr ⟨hleaves, t, ht, ns, hns, hnot⟩)

end Report

/-! ## One usage row -/

section OneRow

/-- Ingresses of a removed version, none of them listed. -/
def countedRow (count : ℤ) (counts : NamespaceCounts) : APIUsage where
  group := "extensions"
  version := "v1beta1"
  kind := "Ingress"
  count := count
  namespaces := counts

/-- A cluster with one usage row of Ingresses, counted by namespace. -/
def countedIngress (count : ℤ) (counts : NamespaceCounts) : Inventory where
  serverVersion := "v1.21.0"
  apiUsage := [countedRow count counts]

/-- The blockers of one namespace are accepted. -/
def acceptsShop : Rule where
  category := "removed-api"
  «namespace» := "shop"
  reason := "accepted"

/-- The rule that accepts the shop selects by namespace alone. -/
theorem namespaceOnly_acceptsShop : ∀ r ∈ [acceptsShop], r.NamespaceOnly := by
  intro r hr
  rw [List.mem_singleton.mp hr]
  exact ⟨by decide, rfl, rfl⟩

/-- What is found in that cluster is built from the row, or from none. -/
theorem rows_countedIngress {X : External} {k : KB} {target : Version} {now : Time} {count : ℤ} {counts : NamespaceCounts}
    {f : Finding} {rows : List Tally} (h : BuiltFrom X k target now (countedIngress count counts) f rows) :
    rows ⊆ [(countedRow count counts).tally] := by
  cases h with
  | usage calls hu hg =>
    rw [List.mem_singleton.mp hu]
    exact List.Subset.refl _
  | authorship hu hg => simp [countedIngress] at hu
  | manifest removed hrel hinstalled hg => simp [countedIngress] at hrel
  | chart hrel hinstalled hg => simp [countedIngress] at hrel
  | addOn hid ha hg hcovers => simp [countedIngress] at hid
  | deprecatedVersion hc hv hu => simp [countedIngress] at hc
  | unservedVersion hc hu => simp [countedIngress] at hc
  | volume hu hg => simp [countedIngress] at hu
  | cluster hf => exact List.nil_subset _

/-- An Ingress counted in no namespace leaves with two in the namespace that the rule is for. -/
theorem outside_taken_in_no_namespace :
    let inv := countedIngress 3 (((∅ : NamespaceCounts).insert "" 1).insert "shop" 2)
    let opts : Options := { now := 0 }
    admitInventory External.ascii inv = .ok inv ∧ acceptsShop.validate External.ascii = none ∧
      (∀ r ∈ [acceptsShop], r.NamespaceOnly) ∧
      ∃ rep, evaluate 3 External.ascii inv removesIngress ⟨1, 22⟩ 0 = some rep ∧
        (∃ f ∈ rep.findings, f.key = "removed-api/extensions/v1beta1/Ingress" ∧ f.severity = .blocker) ∧
        (apply External.ascii opts rep [acceptsShop]).1.findings = [] ∧
        ¬ OutsideKept External.ascii opts [acceptsShop] removesIngress ⟨1, 22⟩ 0 inv rep := by
  intro inv opts
  have hany : (evaluate 3 External.ascii inv removesIngress ⟨1, 22⟩ 0).any (fun rep => decide
      ((∃ f ∈ rep.findings, f.key = "removed-api/extensions/v1beta1/Ingress" ∧ f.severity = .blocker) ∧
        (apply External.ascii opts rep [acceptsShop]).1.findings = [])) = true := by decide +kernel
  obtain ⟨rep, hrep, hfacts⟩ := (Option.any_eq_true _ _).mp hany
  obtain ⟨hfound, htaken⟩ := of_decide_eq_true hfacts
  refine ⟨(admitInventory_eq_ok _).mpr ⟨by decide +kernel, rfl⟩, by decide +kernel, namespaceOnly_acceptsShop, rep, hrep,
    hfound, htaken, ?_⟩
  have hgiven : (usageFinding removesIngress ⟨1, 22⟩ inv.source inv.namespaces
      (countedRow 3 (((∅ : NamespaceCounts).insert "" 1).insert "shop" 2))).any (fun g => decide
        (g.objects = [] ∧ acceptsShop ∈ (activeRules External.ascii opts [acceptsShop]).1 ∧
          acceptsShop.names (withCallers (capNamespaces g) []) = true ∧
          acceptsShop.takesObjectless External.ascii (withCallers (capNamespaces g) []) = true)) = true := by decide +kernel
  obtain ⟨g, hg, hgiven⟩ := (Option.any_eq_true _ _).mp hgiven
  obtain ⟨hnone, hactive, hnames, htakes⟩ := of_decide_eq_true hgiven
  have hbuilt : BuiltFrom External.ascii removesIngress ⟨1, 22⟩ 0 inv (withCallers (capNamespaces g) []) _ :=
    .usage [] (List.mem_singleton_self _) hg
  refine not_outsideKept_of_unseen namespaceOnly_acceptsShop hrep hbuilt
    (.nowhere ⟨?_, acceptsShop, hactive, hnames, htakes⟩ (List.mem_singleton_self _) (by decide +kernel))
  rw [withCallers_objects, capNamespaces_objects, hnone]

/-- Two Ingresses in the namespace that the rule is for leave, and nothing outside does. -/
theorem outside_kept_in_namespace :
    let inv := countedIngress 2 ((∅ : NamespaceCounts).insert "shop" 2)
    let opts : Options := { now := 0 }
    ∃ rep, evaluate 3 External.ascii inv removesIngress ⟨1, 22⟩ 0 = some rep ∧
      (∃ f ∈ rep.findings, f.key = "removed-api/extensions/v1beta1/Ingress") ∧
      (apply External.ascii opts rep [acceptsShop]).1.findings = [] ∧
      OutsideKept External.ascii opts [acceptsShop] removesIngress ⟨1, 22⟩ 0 inv rep := by
  intro inv opts
  have hany : (evaluate 3 External.ascii inv removesIngress ⟨1, 22⟩ 0).any (fun rep => decide
      ((∃ f ∈ rep.findings, f.key = "removed-api/extensions/v1beta1/Ingress") ∧
        (apply External.ascii opts rep [acceptsShop]).1.findings = [])) = true := by decide +kernel
  obtain ⟨rep, hrep, hfacts⟩ := (Option.any_eq_true _ _).mp hany
  obtain ⟨hfound, htaken⟩ := of_decide_eq_true hfacts
  refine ⟨rep, hrep, hfound, htaken, (outsideKept_iff namespaceOnly_acceptsShop hrep).2.mpr fun f rows hbuilt hunseen => ?_⟩
  have hrow : ∀ t ∈ rows, t = (countedRow 2 ((∅ : NamespaceCounts).insert "shop" 2)).tally := fun t ht =>
    List.mem_singleton.mp (rows_countedIngress hbuilt ht)
  -- The row lists no object, so the rule takes the finding by its namespaces.
  have hlists : ¬ AllTaken External.ascii opts [acceptsShop] f := by
    intro htaken
    refine htaken.lists (List.eq_nil_iff_forall_not_mem.mpr fun o ho => ?_)
    obtain ⟨t, ht, ho⟩ := List.mem_flatMap.mp (hbuilt.objects.mem_iff.mp ho)
    rw [hrow t ht] at ho
    simp [APIUsage.tally, countedRow] at ho
  cases hunseen with
  | nowhere htaken ht hcounts =>
    rw [hrow _ ht] at hcounts
    exact absurd hcounts (by decide +kernel)
  | elsewhere htaken hrel hrows ht hhome hns hcounts => simp [inv, countedIngress] at hrel
  | unnamed htaken ht ho hns hnot => exact hlists htaken
  | uncounted htaken ht hns hcounts => exact hlists htaken

end OneRow

end UpgradeScope.Suppress
