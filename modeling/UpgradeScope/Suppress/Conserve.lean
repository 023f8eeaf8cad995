import UpgradeScope.Suppress.Apply

/-!
# Suppression conserves evidence

What rules and annotations take of a finding, and what they leave, is the finding again: its listed
objects, its omitted count and its callers each end in one place (`Conserves`), and a finding leaves a
report only for a reason (`MayLeave`). One turn of the loop over the rules keeps the invariant
`TakingInv`, so the whole loop does, and the queue that judges re-emitted callers is a second pass over
findings that have none of their own.
-/

namespace UpgradeScope.Suppress

open Go Sorting

variable {X : External} {opts : Options} {f : Finding} {rules : List Rule}

/-! ## The loop over the rules -/

/-- The rule that took a finding whole: one without object selectors, or, of a finding that lists no
object, one that selects by namespace alone and matches all of its namespaces. -/
def WholeRule (X : External) (f : Finding) (rules : List Rule) (g : Group) : Prop :=
  ∃ r ∈ rules, r.names f = true ∧ g.reason = r.reason ∧ g.expires = r.expires ∧
    (r.selectsAll = true ∧ g.all = true ∨
      r.selectsAll = false ∧ g.all = false ∧ f.objects = [] ∧ r.takesObjectless X f = true)

/-- What holds at every turn of the loop over the rules: the groups and what remains are the finding's
objects, and only the last group can have taken the finding whole. -/
structure TakingInv (X : External) (opts : Options) (f : Finding) (rules : List Rule) (st : Taking) :
    Prop where
  /-- The objects are split between the groups and what remains. -/
  objects : (st.groups.flatMap (·.objects) ++ st.remaining).Perm f.objects
  /-- A group that did not take the finding whole has objects, and they match its rule. -/
  matched : ∀ g ∈ st.groups, g.whole = false → g.all = false ∧ g.objects ≠ [] ∧
    ∃ r ∈ rules, r.names f = true ∧ ∀ o ∈ g.objects, r.matches X opts.fileBase o = true
  /-- While no rule has taken the finding whole, no group has. -/
  parts : st.whole = false → ∀ g ∈ st.groups, g.whole = false
  /-- Once one has, it is the last group, and nothing remains. -/
  last : st.whole = true → st.remaining = [] ∧ ∃ init g, st.groups = init ++ [g] ∧ g.whole = true ∧
    WholeRule X f rules g ∧ ∀ h ∈ init, h.whole = false

/-- The loop starts with everything remaining. -/
theorem takingInv_start : TakingInv X opts f rules { remaining := f.objects } where
  objects := by simp
  matched := by simp
  parts := by simp
  last := by simp

variable {st : Taking} {g : Group}

/-- A finding that lists no object has none in any group, and none remaining. -/
theorem TakingInv.nil (h : TakingInv X opts f rules st) (hf : f.objects = []) :
    st.remaining = [] := by
  have hlen := h.objects.length_eq
  rw [hf, List.length_append, List.length_nil] at hlen
  exact List.eq_nil_of_length_eq_zero (by omega)

/-- One turn of the loop over the rules keeps the invariant of what is taken. -/
theorem takingInv_step {r : Rule} (hr : r ∈ rules) (h : TakingInv X opts f rules st) :
    TakingInv X opts f rules (applyRule X opts f st r) := by
  unfold applyRule
  split_ifs with hwhole hnames
  · exact h
  · have hwhole : st.whole = false := by simpa using hwhole
    have hparts := h.parts hwhole
    unfold ruleTakes
    by_cases hall : r.selectsAll = true
    · -- A rule without selectors takes what remains and what is not listed.
      simp only [hall, if_true, true_or]
      refine ⟨?_, ?_, ?_, ?_⟩
      · simpa using h.objects
      · intro g hg hgw
        rcases List.mem_append.mp hg with hg | hg
        · exact h.matched g hg hgw
        · rw [List.mem_singleton] at hg
          subst hg
          simp at hgw
      · simp
      · intro _
        exact ⟨rfl, st.groups, _, rfl, rfl, ⟨r, hr, hnames, rfl, rfl, Or.inl ⟨hall, rfl⟩⟩, hparts⟩
    · have hall : r.selectsAll = false := by simpa using hall
      simp only [hall, Bool.false_eq_true, if_false]
      by_cases hobj : f.objects = []
      · simp only [hobj, if_true]
        have hrem := h.nil hobj
        cases htake : r.takesObjectless X f with
        | true =>
          simp only [true_or, if_true]
          refine ⟨?_, ?_, ?_, ?_⟩
          · simpa [hobj] using h.objects
          · intro g hg hgw
            rcases List.mem_append.mp hg with hg | hg
            · exact h.matched g hg hgw
            · rw [List.mem_singleton] at hg
              subst hg
              simp at hgw
          · simp
          · intro _
            exact ⟨hrem, st.groups, _, rfl, rfl,
              ⟨r, hr, hnames, rfl, rfl, Or.inr ⟨hall, rfl, hobj, htake⟩⟩, hparts⟩
        | false =>
          simp only [Bool.false_eq_true, ne_eq, not_true_eq_false, or_self, if_false]
          exact ⟨by simpa [hobj] using h.objects, h.matched, fun _ => hparts, by simp⟩
      · -- Selectors split what remains.
        simp only [hobj, if_false, Bool.false_eq_true, false_or]
        have hsplit : (st.remaining.filter (r.matches X opts.fileBase) ++
            st.remaining.filter fun o => !r.matches X opts.fileBase o).Perm st.remaining :=
          List.filter_append_perm _ _
        by_cases hnone : st.remaining.filter (r.matches X opts.fileBase) = []
        · rw [if_neg (by simpa using hnone)]
          rw [hnone, List.nil_append] at hsplit
          exact ⟨(List.Perm.append_left _ hsplit).trans h.objects, h.matched, fun _ => hparts, by simp⟩
        · rw [if_pos hnone]
          refine ⟨?_, ?_, ?_, by simp⟩
          · rw [List.flatMap_append, List.append_assoc]
            simpa using (List.Perm.append_left _ hsplit).trans h.objects
          · intro g hg hgw
            rcases List.mem_append.mp hg with hg | hg
            · exact h.matched g hg hgw
            · rw [List.mem_singleton] at hg
              subst hg
              exact ⟨rfl, hnone, r, hr, hnames, fun o ho => (List.mem_filter.mp ho).2⟩
          · intro _ g hg
            rcases List.mem_append.mp hg with hg | hg
            · exact hparts g hg
            · rw [List.mem_singleton] at hg
              rw [hg]
  · exact ⟨h.objects, h.matched, h.parts, h.last⟩

/-- The whole loop keeps the invariant. -/
theorem takingInv_run : TakingInv X opts f rules (applyRules X opts f rules) := by
  suffices h : ∀ (rs : List Rule) (st : Taking), rs ⊆ rules → TakingInv X opts f rules st →
      TakingInv X opts f rules (rs.foldl (applyRule X opts f) st) from
    h rules _ (List.Subset.refl _) takingInv_start
  intro rs
  induction rs with
  | nil => exact fun st _ h => h
  | cons r rs ih =>
    intro st hsub h
    exact ih _ (fun x hx => hsub (List.mem_cons_of_mem _ hx))
      (takingInv_step (hsub List.mem_cons_self) h)

/-! ## One finding -/

/-- The annotations' groups hold the objects whose annotations accept the finding. -/
theorem annotationGroups_objects (f : Finding) (l : List ObjectRef) :
    ((annotationGroups f l).flatMap (·.objects)).Perm (l.filter (accepts f)) := by
  unfold annotationGroups
  rw [List.flatMap_map]
  exact perm_flatMap_distinctOn annotationReason (l.filter (accepts f))

/-- No annotation takes a finding whole. -/
theorem annotationGroups_parts {l : List ObjectRef} (h : g ∈ annotationGroups f l) :
    g.whole = false ∧ g.all = false := by
  obtain ⟨reason, -, rfl⟩ := List.mem_map.mp h
  exact ⟨rfl, rfl⟩

/-- The objects that nothing took and the groups are the finding's objects. -/
theorem TakingInv.left_append (h : TakingInv X opts f rules st) :
    (st.left f ++ (st.allGroups f).flatMap (·.objects)).Perm f.objects := by
  unfold Taking.left Taking.allGroups Taking.seen
  rw [List.flatMap_append]
  refine List.Perm.trans ?_ h.objects
  cases hwhole : st.whole with
  | true =>
    simp only [if_true]
    simpa [annotationGroups, distinctOn, distinctFrom] using List.perm_append_comm
  | false =>
    simp only [Bool.false_eq_true, if_false]
    have hsplit : ((annotationGroups f st.remaining).flatMap (·.objects) ++
        st.remaining.filter fun o => !accepts f o).Perm st.remaining :=
      ((annotationGroups_objects f st.remaining).append_right _).trans (List.filter_append_perm _ _)
    refine List.perm_append_comm.trans ?_
    rw [List.append_assoc]
    exact List.Perm.append_left _ hsplit

/-- While no rule took the finding whole, no group did. -/
theorem TakingInv.allGroups_parts (h : TakingInv X opts f rules st) (hwhole : st.whole = false)
    (hg : g ∈ st.allGroups f) : g.whole = false ∧ g.all = false := by
  rcases List.mem_append.mp hg with hg | hg
  · have hgw := h.parts hwhole g hg
    exact ⟨hgw, (h.matched g hg hgw).1⟩
  · exact annotationGroups_parts hg

/-- Once a rule took the finding whole, its group is the last one, and nothing is left. -/
theorem TakingInv.allGroups_last (h : TakingInv X opts f rules st) (hwhole : st.whole = true) :
    st.left f = [] ∧ ∃ init g, st.allGroups f = init ++ [g] ∧ g.whole = true ∧
      WholeRule X f rules g ∧ ∀ i ∈ init, i.whole = false ∧ i.all = false := by
  obtain ⟨hrem, init, g, hgroups, hgw, hrule, hinit⟩ := h.last hwhole
  refine ⟨by rw [Taking.left, if_pos hwhole, hrem], init, g, ?_, hgw, hrule, fun i hi => ?_⟩
  · rw [Taking.allGroups, Taking.seen, if_pos hwhole, hgroups]
    simp [annotationGroups, distinctOn, distinctFrom]
  · have hiw := hinit i hi
    exact ⟨hiw, (h.matched i (by rw [hgroups]; simp [hi]) hiw).1⟩

/-- What stays of a finding and what is suppressed of it are the finding again. -/
structure Conserves (f : Finding) (rules : List Rule) (o : Outcome) : Prop where
  /-- What stays and each suppressed entry is the same problem. -/
  same : ∀ g ∈ o.kept.toList ++ o.taken.map (·.finding),
    g.key = f.key ∧ g.category = f.category ∧ g.severity = f.severity ∧ g.title = f.title
  /-- The listed objects are split between what stays and the suppressed entries. -/
  objects : (o.kept.toList.flatMap (·.objects) ++ o.taken.flatMap (·.finding.objects)).Perm f.objects
  /-- The omitted count stays, or goes to exactly one suppressed entry. -/
  omitted :
    (∃ k, o.kept = some k ∧ k.objectsOmitted = f.objectsOmitted ∧
      ∀ s ∈ o.taken, s.finding.objectsOmitted = 0) ∨
    (o.kept = none ∧ ∃ pre s post, o.taken = pre ++ s :: post ∧
      s.finding.objectsOmitted = f.objectsOmitted ∧ ∀ t ∈ pre ++ post, t.finding.objectsOmitted = 0)
  /-- The callers stay, or go to the entry of a rule without object selectors, or stand alone. -/
  callers :
    (∃ k, o.kept = some k ∧ k.callers = f.callers ∧ (∀ s ∈ o.taken, s.finding.callers = []) ∧
      o.callers = []) ∨
    (o.kept = none ∧ o.callers = [] ∧ ∃ pre s post, o.taken = pre ++ s :: post ∧
      s.finding.callers = f.callers ∧ (∀ t ∈ pre ++ post, t.finding.callers = []) ∧
      ∃ r ∈ rules, r.names f = true ∧ r.selectsAll = true ∧ s.reason = r.reason ∧ s.expires = r.expires) ∨
    (o.kept = none ∧ (∀ s ∈ o.taken, s.finding.callers = []) ∧ o.callers = f.callers)

/-- What a finding may leave a report for: a rule without object selectors that names it; it lists no
object, and a rule that selects by namespace alone matches all of its named and fully listed
namespaces; or nothing of it is omitted, and a rule or an annotation with a reason took each of its
objects. -/
def MayLeave (X : External) (opts : Options) (rules : List Rule) (f : Finding) : Prop :=
  (∃ r ∈ rules, r.names f = true ∧ r.selectsAll = true) ∨
  (f.objects = [] ∧ f.namespaces ≠ [] ∧ f.namespacesOmitted = 0 ∧ f.unnamespaced = false ∧
    ∃ r ∈ rules, r.names f = true ∧ r.namespace ≠ "" ∧ r.name = "" ∧ r.file = "" ∧
      ∀ ns ∈ f.namespaces, X.globMatch r.namespace ns = true) ∨
  (f.objects ≠ [] ∧ f.objectsOmitted = 0 ∧ ∀ o ∈ f.objects,
    (∃ r ∈ rules, r.names f = true ∧ r.matches X opts.fileBase o = true) ∨
      annotated f o = true ∧ annotationReason o ≠ "")

/-- The entries of groups that did not take the finding whole carry no omitted count and no
callers. -/
theorem suppressedBy_part (h : g.whole = false ∧ g.all = false) :
    (suppressedBy f g).finding.objectsOmitted = 0 ∧ (suppressedBy f g).finding.callers = [] := by
  simp [suppressedBy, h.1, h.2]

/-- The entries of the groups hold the groups' objects. -/
theorem flatMap_suppressedBy (groups : List Group) :
    (groups.map (suppressedBy f)).flatMap (·.finding.objects) = groups.flatMap (·.objects) := by
  rw [List.flatMap_map]
  rfl

/-- Splitting a finding conserves its evidence. -/
theorem applyFinding_conserves (X : External) (opts : Options) (rules : List Rule) (f : Finding) :
    Conserves f rules (applyFinding X opts rules f) := by
  have hinv : TakingInv X opts f rules (applyRules X opts f rules) := takingInv_run
  unfold applyFinding
  dsimp only
  set st := applyRules X opts f rules
  have hobjects := hinv.left_append
  have hsame : ∀ s ∈ (st.allGroups f).map (suppressedBy f), s.finding.key = f.key ∧
      s.finding.category = f.category ∧ s.finding.severity = f.severity ∧ s.finding.title = f.title := by
    intro s hs
    obtain ⟨g, -, rfl⟩ := List.mem_map.mp hs
    exact ⟨rfl, rfl, rfl, rfl⟩
  by_cases hnone : (st.allGroups f).isEmpty = true
  · rw [if_pos hnone]
    exact ⟨by simp, by simp, Or.inl ⟨f, rfl, rfl, by simp⟩, Or.inl ⟨f, rfl, rfl, by simp, rfl⟩⟩
  · rw [if_neg hnone]
    cases hwhole : st.whole with
    | true =>
      obtain ⟨hleft, init, g, hgroups, hgw, ⟨r, hr, hnames, hreason, hexpires, htook⟩, hinit⟩ :=
        hinv.allGroups_last hwhole
      rw [if_pos (Or.inl rfl)]
      rw [hleft, List.nil_append] at hobjects
      have htaken : (st.allGroups f).map (suppressedBy f) =
          init.map (suppressedBy f) ++ suppressedBy f g :: [] := by rw [hgroups]; simp
      have hparts : ∀ t ∈ init.map (suppressedBy f) ++ [], t.finding.objectsOmitted = 0 ∧
          t.finding.callers = [] := by
        intro t ht
        obtain ⟨i, hi, rfl⟩ := List.mem_map.mp (by simpa using ht)
        exact suppressedBy_part (hinit i hi)
      refine ⟨by simpa using hsame, ?_, Or.inr ⟨rfl, _, _, _, htaken, ?_, fun t ht => (hparts t ht).1⟩,
        Or.inr ?_⟩
      · rw [flatMap_suppressedBy]
        simpa using hobjects
      · simp [suppressedBy, hgw]
      · rcases htook with ⟨hall, hgall⟩ | ⟨-, hgall, -⟩
        · refine Or.inl ⟨rfl, ?_, _, _, _, htaken, ?_, fun t ht => (hparts t ht).2, r, hr, hnames, hall,
            hreason, hexpires⟩
          · rw [if_pos]
            rw [hgroups]
            simp [hgall]
          · simp [suppressedBy, hgall]
        · have hnoall : ∀ h ∈ st.allGroups f, h.all = false := by
            intro h hh
            rw [hgroups, List.mem_append, List.mem_singleton] at hh
            rcases hh with hh | rfl
            · exact (hinit h hh).2
            · exact hgall
          refine Or.inr ⟨rfl, ?_, ?_⟩
          · intro s hs
            obtain ⟨h, hh, rfl⟩ := List.mem_map.mp hs
            simp [suppressedBy, hnoall h hh]
          · rw [if_neg]
            simpa using hnoall
    | false =>
      have hparts : ∀ t ∈ (st.allGroups f).map (suppressedBy f), t.finding.objectsOmitted = 0 ∧
          t.finding.callers = [] := by
        intro t ht
        obtain ⟨g, hg, rfl⟩ := List.mem_map.mp ht
        exact suppressedBy_part (hinv.allGroups_parts hwhole hg)
      have hnoall : ¬ (st.allGroups f).any (·.all) = true := by
        simp only [List.any_eq_true, not_exists, not_and, Bool.not_eq_true]
        exact fun g hg => (hinv.allGroups_parts hwhole hg).2
      by_cases hleaves : st.left f = [] ∧ f.objectsOmitted = 0
      · rw [if_pos (Or.inr hleaves), if_neg hnoall]
        rw [hleaves.1, List.nil_append] at hobjects
        refine ⟨by simpa using hsame, ?_, Or.inr ⟨rfl, ?_⟩, Or.inr (Or.inr ⟨rfl, fun s hs => (hparts s hs).2, rfl⟩)⟩
        · rw [flatMap_suppressedBy]
          simpa using hobjects
        · -- Nothing is omitted, so any entry carries all of it.
          obtain ⟨g, gs, hgs⟩ := List.exists_cons_of_ne_nil (by simpa using hnone)
          rw [hgs] at hparts ⊢
          refine ⟨[], suppressedBy f g, gs.map (suppressedBy f), rfl, ?_, fun t ht => ?_⟩
          · rw [(hparts _ (by simp)).1, hleaves.2]
          · exact (hparts t (by simpa using Or.inr ht)).1
      · rw [if_neg (by simpa using hleaves)]
        refine ⟨?_, ?_, Or.inl ⟨_, rfl, rfl, fun s hs => (hparts s hs).1⟩,
          Or.inl ⟨_, rfl, rfl, fun s hs => (hparts s hs).2, rfl⟩⟩
        · intro g hg
          rcases List.mem_append.mp hg with hg | hg
          · rw [List.mem_singleton.mp hg]
            exact ⟨rfl, rfl, rfl, rfl⟩
          · obtain ⟨s, hs, rfl⟩ := List.mem_map.mp hg
            exact hsame s hs
        · rw [flatMap_suppressedBy]
          simpa using hobjects

/-- A finding leaves only for a reason. -/
theorem mayLeave_of_kept_none (h : (applyFinding X opts rules f).kept = none) :
    MayLeave X opts rules f := by
  have hinv : TakingInv X opts f rules (applyRules X opts f rules) := takingInv_run
  unfold applyFinding at h
  dsimp only at h
  set st := applyRules X opts f rules
  by_cases hnone : (st.allGroups f).isEmpty = true
  · simp [hnone] at h
  · rw [if_neg hnone] at h
    cases hwhole : st.whole with
    | true =>
      obtain ⟨-, init, g, -, -, ⟨r, hr, hnames, -, -, htook⟩, -⟩ := hinv.allGroups_last hwhole
      rcases htook with ⟨hall, -⟩ | ⟨hall, -, hobj, htakes⟩
      · exact Or.inl ⟨r, hr, hnames, hall⟩
      · simp only [Rule.takesObjectless, allMatch, Bool.and_eq_true, decide_eq_true_eq,
          Bool.not_eq_true'] at htakes
        obtain ⟨⟨⟨⟨hname, hfile⟩, homitted⟩, hnamed⟩, hns, hpos⟩ := htakes
        have hne : r.namespace ≠ "" := by
          intro hns'
          simp [Rule.selectsAll, hns', hname, hfile] at hall
        exact Or.inr (Or.inl ⟨hobj, List.length_pos_iff.mp hpos, homitted, hnamed, r, hr, hnames, hne,
          hname, hfile, List.all_eq_true.mp hns⟩)
    | false =>
      -- Everything listed was taken, in parts, and nothing is omitted.
      have hleaves : st.left f = [] ∧ f.objectsOmitted = 0 := by
        by_contra hno
        rw [if_neg (by simpa [hwhole] using hno)] at h
        cases h
      obtain ⟨hleft, homitted⟩ := hleaves
      refine Or.inr (Or.inr ⟨?_, homitted, fun o ho => ?_⟩)
      · intro hobj
        -- A group in parts has an object, and there is none.
        obtain ⟨g, hg⟩ := List.exists_mem_of_ne_nil _ (by simpa using hnone)
        have hg' : g ∈ st.groups := by
          rcases List.mem_append.mp hg with hg | hg
          · exact hg
          · simp [Taking.seen, hwhole, hinv.nil hobj, annotationGroups, distinctOn, distinctFrom] at hg
        obtain ⟨-, hne, -⟩ := hinv.matched g hg' (hinv.parts hwhole g hg')
        obtain ⟨o, ho⟩ := List.exists_mem_of_ne_nil _ hne
        have hmem : o ∈ f.objects :=
          hinv.objects.mem_iff.mp (List.mem_append_left _ (List.mem_flatMap.mpr ⟨g, hg', ho⟩))
        simp [hobj] at hmem
      · have hmem : o ∈ st.groups.flatMap (·.objects) ++ st.remaining := hinv.objects.mem_iff.mpr ho
        rcases List.mem_append.mp hmem with hmem | hmem
        · obtain ⟨g, hg, hog⟩ := List.mem_flatMap.mp hmem
          obtain ⟨-, -, r, hr, hnames, hmatch⟩ := hinv.matched g hg (hinv.parts hwhole g hg)
          exact Or.inl ⟨r, hr, hnames, hmatch o hog⟩
        · rw [Taking.left, if_neg (by simp [hwhole]), List.filter_eq_nil_iff] at hleft
          have hacc : accepts f o = true := by simpa using hleft o hmem
          simp only [accepts, Bool.and_eq_true, decide_eq_true_eq] at hacc
          exact Or.inr hacc

/-! ## The queue -/

/-- The callers a finding gives up are its own. -/
theorem applyFinding_callers (X : External) (opts : Options) (rules : List Rule) (f : Finding) :
    (applyFinding X opts rules f).callers = [] ∨ (applyFinding X opts rules f).callers = f.callers := by
  rcases (applyFinding_conserves X opts rules f).callers with
    ⟨k, -, -, -, h⟩ | ⟨-, h, -⟩ | ⟨-, -, h⟩
  · exact Or.inl h
  · exact Or.inl h
  · exact Or.inr h

/-- The findings of the callers that a list of findings gives up. -/
def reemitted (X : External) (opts : Options) (rules : List Rule) (fs : List Finding) : List Finding :=
  fs.flatMap fun f => (applyFinding X opts rules f).callers.map Caller.finding

/-- A caller's finding gives up no caller. -/
theorem reemitted_callers (X : External) (opts : Options) (rules : List Rule) (cs : List Caller) :
    reemitted X opts rules (cs.map Caller.finding) = [] := by
  unfold reemitted
  rw [List.flatMap_eq_nil_iff]
  intro f hf
  obtain ⟨c, -, rfl⟩ := List.mem_map.mp hf
  have hnone : (applyFinding X opts rules c.finding).callers = [] := by
    rcases applyFinding_callers X opts rules c.finding with h | h
    · exact h
    · rw [h]
      rfl
  rw [hnone]
  rfl

/-- With enough turns, the loop over the queue judges the findings and then the callers they gave
up. -/
theorem applyQueue_eq {n : ℕ} {queue : List Finding} {acc : Applied} (hn : queueTurns queue ≤ n) :
    applyQueue X opts rules n queue acc =
      (queue ++ reemitted X opts rules queue).foldl
        (fun acc f => acc.add (applyFinding X opts rules f)) acc := by
  induction n generalizing queue acc with
  | zero =>
    cases queue with
    | nil => simp [applyQueue, reemitted]
    | cons f queue =>
      simp only [queueTurns, List.map_cons, List.sum_cons] at hn
      omega
  | succ n ih =>
    cases queue with
    | nil => simp [applyQueue, reemitted]
    | cons f queue =>
      have hlen : (applyFinding X opts rules f).callers.length ≤ f.callers.length := by
        rcases applyFinding_callers X opts rules f with h | h
        · simp [h]
        · rw [h]
      -- A finding takes a turn and each of its callers another; a caller has none of its own.
      have hturns : queueTurns (queue ++ (applyFinding X opts rules f).callers.map Caller.finding) ≤ n := by
        have hone : ((applyFinding X opts rules f).callers.map Caller.finding).map
            (fun g => 1 + g.callers.length) = (applyFinding X opts rules f).callers.map fun _ => 1 := by
          rw [List.map_map]
          rfl
        simp only [queueTurns, List.map_cons, List.sum_cons] at hn
        simp only [queueTurns, List.map_append, List.sum_append, hone, List.map_const', List.sum_replicate,
          smul_eq_mul, mul_one]
        omega
      have hagain : reemitted X opts rules
          (queue ++ (applyFinding X opts rules f).callers.map Caller.finding) =
            reemitted X opts rules queue := by
        have := reemitted_callers X opts rules (applyFinding X opts rules f).callers
        unfold reemitted at this ⊢
        rw [List.flatMap_append, this, List.append_nil]
      rw [applyQueue, ih hturns, hagain]
      simp [reemitted]

/-- What the loop has kept and suppressed. -/
theorem foldl_add (X : External) (opts : Options) (rules : List Rule) (fs : List Finding) (acc : Applied) :
    (fs.foldl (fun acc f => acc.add (applyFinding X opts rules f)) acc).findings =
        acc.findings ++ fs.flatMap (fun f => (applyFinding X opts rules f).kept.toList) ∧
      (fs.foldl (fun acc f => acc.add (applyFinding X opts rules f)) acc).suppressed =
        acc.suppressed ++ fs.flatMap fun f => (applyFinding X opts rules f).taken := by
  induction fs generalizing acc with
  | nil => simp
  | cons f fs ih =>
    obtain ⟨h1, h2⟩ := ih (acc.add (applyFinding X opts rules f))
    rw [List.foldl_cons, h1, h2]
    simp [Applied.add]

/-- A finding of which nothing is taken stays as it is. -/
theorem kept_of_taken_nil (h : (applyFinding X opts rules f).taken = []) :
    (applyFinding X opts rules f).kept = some f ∧ (applyFinding X opts rules f).callers = [] := by
  unfold applyFinding at h ⊢
  dsimp only at h ⊢
  by_cases hnone : ((applyRules X opts f rules).allGroups f).isEmpty = true
  · simp [hnone]
  · rw [if_neg hnone] at h
    split_ifs at h
    all_goals
      rw [List.map_eq_nil_iff] at h
      simp [h] at hnone

/-- `Apply` keeps and suppresses what it splits the findings, and the callers they give up, into. -/
theorem apply_eq (X : External) (opts : Options) (r : Report) (rules : List Rule) :
    let active := (activeRules X opts rules).1
    let judged := r.findings ++ reemitted X opts active r.findings
    (apply X opts r rules).1.findings.Perm
        (judged.flatMap fun f => (applyFinding X opts active f).kept.toList) ∧
      (apply X opts r rules).1.suppressed =
        r.suppressed ++ judged.flatMap fun f => (applyFinding X opts active f).taken := by
  intro active judged
  obtain ⟨hfindings, hsuppressed⟩ := foldl_add X opts active judged {}
  have hqueue : applyQueue X opts active (queueTurns r.findings) r.findings {} = _ :=
    applyQueue_eq le_rfl
  rw [← hqueue, List.nil_append] at hfindings hsuppressed
  unfold apply
  dsimp only
  by_cases hnone : (applyQueue X opts active (queueTurns r.findings) r.findings {}).suppressed = []
  · -- Nothing is taken of any finding, so each stays and none is added.
    rw [if_pos (by simpa using hnone)]
    rw [hnone] at hsuppressed
    have hkept : ∀ f ∈ judged, (applyFinding X opts active f).kept = some f ∧
        (applyFinding X opts active f).callers = [] := fun f hf =>
      kept_of_taken_nil (List.flatMap_eq_nil_iff.mp hsuppressed.symm f hf)
    have hagain : reemitted X opts active r.findings = [] := by
      unfold reemitted
      rw [List.flatMap_eq_nil_iff]
      intro f hf
      rw [(hkept f (List.mem_append_left _ hf)).2]
      rfl
    refine ⟨?_, by rw [← hsuppressed, List.append_nil]⟩
    have hall : (judged.flatMap fun f => (applyFinding X opts active f).kept.toList) = judged := by
      calc (judged.flatMap fun f => (applyFinding X opts active f).kept.toList)
          = judged.flatMap fun f => [f] := List.flatMap_congr fun f hf => by rw [(hkept f hf).1]; rfl
        _ = judged := by simp
    rw [hall]
    simp [judged, hagain]
  · rw [if_neg (by simpa using hnone)]
    refine ⟨?_, by rw [← hsuppressed]; rfl⟩
    rw [← hfindings]
    show (if _ then _ else _ : List Finding).Perm _
    split_ifs
    · exact sortOn_perm findingOrder _
    · exact List.Perm.refl _

/-- Suppression loses and duplicates nothing, and fails closed. Every finding of the report, and every
caller that one of them gives up as a finding of its own, is split: what stays of them is the new
report's findings, what is taken of them is added to what the report suppresses. Each split conserves
the finding's evidence (`Conserves`), so the callers given up are exactly those that neither stay nor
go with a rule without object selectors, they are findings of the category deprecated-api-in-use, and
they give up none themselves. A finding leaves only for a reason (`MayLeave`). -/
theorem apply_conserves (X : External) (opts : Options) (r : Report) (rules : List Rule) :
    let active := (activeRules X opts rules).1
    let split := applyFinding X opts active
    let again := r.findings.flatMap fun f => (split f).callers.map Caller.finding
    (apply X opts r rules).1.findings.Perm ((r.findings ++ again).flatMap fun f => (split f).kept.toList) ∧
      (apply X opts r rules).1.suppressed =
        r.suppressed ++ ((r.findings ++ again).flatMap fun f => (split f).taken) ∧
      (∀ f ∈ r.findings ++ again, Conserves f active (split f) ∧
        ((split f).kept = none → MayLeave X opts active f)) ∧
      ∀ g ∈ again, g.category = .deprecatedAPIInUse ∧ (split g).callers = [] := by
  intro active split again
  obtain ⟨hfindings, hsuppressed⟩ := apply_eq X opts r rules
  refine ⟨hfindings, hsuppressed, fun f _ => ⟨applyFinding_conserves X opts active f, mayLeave_of_kept_none⟩, ?_⟩
  intro g hg
  obtain ⟨f, -, hg⟩ := List.mem_flatMap.mp hg
  obtain ⟨c, -, rfl⟩ := List.mem_map.mp hg
  refine ⟨rfl, ?_⟩
  rcases applyFinding_callers X opts active c.finding with h | h
  · exact h
  · rw [show split c.finding = applyFinding X opts active c.finding from rfl, h]
    rfl

end UpgradeScope.Suppress
