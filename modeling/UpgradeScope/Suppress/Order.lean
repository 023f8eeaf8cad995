import UpgradeScope.Suppress.Conserve
import UpgradeScope.Lib.Reorder

/-!
# Rules in another order

The rules of a report are tried in order, and the first to match an object takes it. What stays open of a
finding does not depend on it: whether some rule takes the finding whole, and which of its objects no rule
selects and no annotation accepts, are facts about the set of rules (`applyRules_spec`, `kept_applyFinding`).

What can depend on it is whose the callers are. A rule without selectors takes them with the finding, but the
loop stops at the first rule that takes the finding whole, and for a finding that lists no object that can be
one that selects by namespace; its callers then stand alone although a later rule accepts the finding with
everything in it. `apply_orderFree_iff` says that this is the only way the order shows.
-/

namespace UpgradeScope.Suppress

open Go Sorting

variable {X : External} {opts : Options} {f : Finding} {rules rules' : List Rule}

/-! ## What the loop over the rules decides -/

/-- A rule without object selectors names the finding. -/
def namedWhole (rules : List Rule) (f : Finding) : Bool := rules.any fun r => r.names f && r.selectsAll

/-- The finding lists no object, and a rule that selects by namespace names it and takes it. -/
def namedObjectless (X : External) (rules : List Rule) (f : Finding) : Bool :=
  f.objects = [] && rules.any fun r => r.names f && !r.selectsAll && r.takesObjectless X f

/-- A rule that names the finding selects the object. -/
def selectedBy (X : External) (opts : Options) (rules : List Rule) (f : Finding) (o : ObjectRef) : Bool :=
  rules.any fun r => r.names f && r.matches X opts.fileBase o

/-- The loop over the rules: a finding is taken whole when some rule takes it whole, and else the objects that
no rule selects remain. -/
theorem applyRules_spec (X : External) (opts : Options) (f : Finding) (rules : List Rule) :
    (applyRules X opts f rules).whole = (namedWhole rules f || namedObjectless X rules f) ∧
      ((applyRules X opts f rules).whole = false →
        (applyRules X opts f rules).remaining = f.objects.filter fun o => !selectedBy X opts rules f o) := by
  -- The last rule of the loop meets the state that the rules before it left.
  induction rules using List.reverseRecOn with
  | nil => simp [applyRules, namedWhole, namedObjectless, selectedBy]
  | append_singleton rs r ih =>
    have hstep : applyRules X opts f (rs ++ [r]) = applyRule X opts f (applyRules X opts f rs) r := by
      simp [applyRules]
    rw [hstep]
    set st := applyRules X opts f rs
    obtain ⟨hwhole, hremaining⟩ := ih
    have hwhole' : namedWhole (rs ++ [r]) f = (namedWhole rs f || (r.names f && r.selectsAll)) := by
      simp [namedWhole]
    have hobjectless : namedObjectless X (rs ++ [r]) f = (namedObjectless X rs f ||
        (decide (f.objects = []) && (r.names f && !r.selectsAll && r.takesObjectless X f))) := by
      unfold namedObjectless
      rw [List.any_append, Bool.and_or_distrib_left]
      simp
    have hselected : ∀ o, selectedBy X opts (rs ++ [r]) f o =
        (selectedBy X opts rs f o || (r.names f && r.matches X opts.fileBase o)) := by
      intro o
      simp [selectedBy]
    rw [hwhole', hobjectless]
    simp only [hselected]
    unfold applyRule
    by_cases hst : st.whole = true
    · rw [if_pos hst]
      rw [hst] at hwhole
      refine ⟨?_, by simp [hst]⟩
      rcases Bool.or_eq_true_iff.mp hwhole.symm with h | h <;> simp [h, hst]
    · have hst' : st.whole = false := by simpa using hst
      rw [hst', eq_comm, Bool.or_eq_false_iff] at hwhole
      rw [if_neg hst, hwhole.1, hwhole.2]
      by_cases hnames : r.names f = true
      · rw [if_pos hnames, hnames]
        unfold ruleTakes
        cases hall : r.selectsAll with
        | true => simp
        | false =>
          by_cases hobj : f.objects = []
          · refine ⟨by simp [hobj], fun _ => ?_⟩
            have hnone : st.remaining = [] := by rw [hremaining hst', hobj, List.filter_nil]
            simp [hobj, hnone]
          · -- Selectors leave of what remained what they do not match.
            refine ⟨by simp [hobj], fun _ => ?_⟩
            simp only [hobj, if_false, Bool.false_eq_true]
            rw [hremaining hst', List.filter_filter]
            refine List.filter_congr fun o _ => ?_
            simp [Bool.and_comm]
      · rw [if_neg hnames]
        have hnames' : r.names f = false := by simpa using hnames
        simp [hnames', hst', hremaining hst']

/-- Once a rule has taken the finding whole, the other rules are not tried. -/
theorem applyRules_append {rs : List Rule} (h : (applyRules X opts f rs).whole = true) (rs' : List Rule) :
    applyRules X opts f (rs ++ rs') = applyRules X opts f rs := by
  induction rs' using List.reverseRecOn with
  | nil => rw [List.append_nil]
  | append_singleton rs' r ih =>
    have hstep : applyRules X opts f (rs ++ (rs' ++ [r])) =
        applyRule X opts f (applyRules X opts f (rs ++ rs')) r := by simp [applyRules]
    rw [hstep, ih, applyRule, if_pos h]

/-! ## What stays of a finding -/

/-- The objects that no rule selects and no annotation accepts. -/
def openObjects (X : External) (opts : Options) (rules : List Rule) (f : Finding) : List ObjectRef :=
  f.objects.filter fun o => !selectedBy X opts rules f o && !accepts f o

/-- What stays of a finding that no rule takes whole, by the objects that are left. -/
def partKept (f : Finding) (left : List ObjectRef) : Option Finding :=
  if left.length = f.objects.length then some f
  else if left = [] ∧ f.objectsOmitted = 0 then none
  else some
    { f with
      objects := left
      detail := trimSpace s!"{f.detail} {f.objects.length - left.length} object(s) suppressed (see suppressed)." }

/-- The groups of annotations have objects. -/
theorem annotationGroups_ne_nil {l : List ObjectRef} {g : Group} (h : g ∈ annotationGroups f l) : g.objects ≠ [] := by
  obtain ⟨reason, hreason, rfl⟩ := List.mem_map.mp h
  obtain ⟨o, ho, horeason⟩ := List.mem_map.mp (mem_of_mem_distinctOn hreason)
  exact List.ne_nil_of_mem (List.mem_filter.mpr ⟨ho, by simpa using horeason⟩)

/-- The objects left of a finding that no rule takes whole. -/
theorem left_applyRules (h : (applyRules X opts f rules).whole = false) :
    (applyRules X opts f rules).left f = openObjects X opts rules f := by
  unfold Taking.left openObjects
  rw [if_neg (by simp [h]), (applyRules_spec X opts f rules).2 h, List.filter_filter]
  refine List.filter_congr fun o _ => ?_
  rw [Bool.and_comm]

/-- The groups took the objects that are not left. -/
theorem sum_allGroups (X : External) (opts : Options) (f : Finding) (rules : List Rule) :
    ((applyRules X opts f rules).left f).length +
      (((applyRules X opts f rules).allGroups f).map (·.objects.length)).sum = f.objects.length := by
  have hinv : TakingInv X opts f rules (applyRules X opts f rules) := takingInv_run
  rw [← hinv.left_append.length_eq, List.length_append, List.length_flatMap]

/-- When no rule takes the finding whole, something is taken of it exactly when an object is. -/
theorem allGroups_isEmpty (h : (applyRules X opts f rules).whole = false) :
    ((applyRules X opts f rules).allGroups f).isEmpty = true ↔
      ((applyRules X opts f rules).left f).length = f.objects.length := by
  have hinv : TakingInv X opts f rules (applyRules X opts f rules) := takingInv_run
  have hsum := sum_allGroups X opts f rules
  rw [List.isEmpty_iff]
  constructor
  · intro hnone
    rw [hnone] at hsum
    simpa using hsum
  · intro hlen
    refine List.eq_nil_iff_forall_not_mem.mpr fun g hg => ?_
    -- Every group has an object, so the sum of their numbers would not be zero.
    have hobjects : g.objects ≠ [] := by
      rcases List.mem_append.mp hg with hg | hg
      · exact (hinv.matched g hg (hinv.parts h g hg)).2.1
      · exact annotationGroups_ne_nil hg
    have hle : g.objects.length ≤ (((applyRules X opts f rules).allGroups f).map (·.objects.length)).sum :=
      List.single_le_sum (fun n _ => Nat.zero_le n) _ (List.mem_map_of_mem hg)
    have hpos := List.length_pos_iff.mpr hobjects
    omega

/-- Once a rule took the finding whole, something is taken of it. -/
theorem allGroups_ne_nil_of_whole (h : (applyRules X opts f rules).whole = true) :
    ((applyRules X opts f rules).allGroups f).isEmpty = false := by
  have hinv : TakingInv X opts f rules (applyRules X opts f rules) := takingInv_run
  obtain ⟨-, init, g, hgroups, -⟩ := hinv.allGroups_last h
  simp [hgroups]

/-- What stays of a finding is a fact about the set of rules. -/
theorem kept_applyFinding (X : External) (opts : Options) (rules : List Rule) (f : Finding) :
    (applyFinding X opts rules f).kept =
      if namedWhole rules f || namedObjectless X rules f then none
      else partKept f (openObjects X opts rules f) := by
  rw [← (applyRules_spec X opts f rules).1]
  unfold applyFinding
  dsimp only
  cases hwhole : (applyRules X opts f rules).whole with
  | true =>
    rw [allGroups_ne_nil_of_whole hwhole]
    simp
  | false =>
    have hsum := sum_allGroups X opts f rules
    have hempty := allGroups_isEmpty hwhole
    rw [left_applyRules hwhole] at hsum hempty
    simp only [left_applyRules hwhole, Bool.false_eq_true, false_or, if_false]
    unfold partKept
    by_cases hlen : (openObjects X opts rules f).length = f.objects.length
    · rw [if_pos (hempty.mpr hlen), if_pos hlen]
    · rw [if_neg (fun h => hlen (hempty.mp h)), if_neg hlen]
      have hlisted : (((applyRules X opts f rules).allGroups f).map (·.objects.length)).sum =
          f.objects.length - (openObjects X opts rules f).length := by omega
      rw [hlisted]
      split_ifs <;> rfl

/-- Nothing is taken of a finding exactly when it stays as it is. -/
theorem taken_eq_nil_iff : (applyFinding X opts rules f).taken = [] ↔
    (namedWhole rules f || namedObjectless X rules f) = false ∧
      (openObjects X opts rules f).length = f.objects.length := by
  rw [← (applyRules_spec X opts f rules).1]
  unfold applyFinding
  dsimp only
  cases hwhole : (applyRules X opts f rules).whole with
  | true =>
    rw [allGroups_ne_nil_of_whole hwhole]
    have hne := allGroups_ne_nil_of_whole hwhole
    simp only [Bool.false_eq_true, if_false, true_or, if_true, Bool.true_eq_false, false_and, iff_false,
      List.map_eq_nil_iff]
    intro hnil
    rw [hnil] at hne
    simp at hne
  | false =>
    have hempty := allGroups_isEmpty hwhole
    rw [left_applyRules hwhole] at hempty
    rw [← hempty]
    simp only [Bool.false_eq_true, true_and]
    by_cases hnone : ((applyRules X opts f rules).allGroups f).isEmpty = true
    · simp [hnone]
    · rw [if_neg hnone]
      have hne : (applyRules X opts f rules).allGroups f ≠ [] := by simpa using hnone
      split_ifs <;> simp [hne]

/-! ## Whose the callers are -/

/-- A rule without selectors took the finding, and the callers with it. -/
def takesCallers (X : External) (opts : Options) (rules : List Rule) (f : Finding) : Bool :=
  ((applyRules X opts f rules).allGroups f).any (·.all)

/-- The callers a finding gives up: all of them, when it leaves and no rule took them. -/
theorem callers_applyFinding (X : External) (opts : Options) (rules : List Rule) (f : Finding) :
    (applyFinding X opts rules f).callers =
      if (applyFinding X opts rules f).kept.isSome || takesCallers X opts rules f then [] else f.callers := by
  unfold applyFinding takesCallers
  dsimp only
  by_cases hnone : ((applyRules X opts f rules).allGroups f).isEmpty = true
  · rw [if_pos hnone]
    simp
  · rw [if_neg hnone]
    by_cases hleaves : (applyRules X opts f rules).whole = true ∨
        (applyRules X opts f rules).left f = [] ∧ f.objectsOmitted = 0
    · rw [if_pos hleaves]
      simp
    · rw [if_neg hleaves]
      simp

/-- A rule that took the callers has no selectors and names the finding. -/
theorem namedWhole_of_takesCallers (h : takesCallers X opts rules f = true) : namedWhole rules f = true := by
  have hinv : TakingInv X opts f rules (applyRules X opts f rules) := takingInv_run
  obtain ⟨g, hg, hall⟩ := List.any_eq_true.mp h
  cases hwhole : (applyRules X opts f rules).whole with
  | false =>
    rw [(hinv.allGroups_parts hwhole hg).2] at hall
    simp at hall
  | true =>
    obtain ⟨-, init, last, hgroups, -, ⟨r, hr, hnames, -, -, hrule⟩, hinit⟩ := hinv.allGroups_last hwhole
    rw [hgroups, List.mem_append, List.mem_singleton] at hg
    rcases hg with hg | rfl
    · rw [(hinit g hg).2] at hall
      simp at hall
    · rcases hrule with ⟨hselects, -⟩ | ⟨-, hnot, -⟩
      · exact List.any_eq_true.mpr ⟨r, hr, by simp [hnames, hselects]⟩
      · rw [hnot] at hall
        simp at hall

/-- Where no rule that selects by namespace takes the finding, a rule without selectors takes the callers. -/
theorem takesCallers_of_namedWhole (h : namedWhole rules f = true) (hno : namedObjectless X rules f = false) :
    takesCallers X opts rules f = true := by
  have hinv : TakingInv X opts f rules (applyRules X opts f rules) := takingInv_run
  have hwhole : (applyRules X opts f rules).whole = true := by
    rw [(applyRules_spec X opts f rules).1, h, Bool.true_or]
  obtain ⟨-, init, last, hgroups, -, ⟨r, hr, hnames, -, -, hrule⟩, -⟩ := hinv.allGroups_last hwhole
  refine List.any_eq_true.mpr ⟨last, by simp [hgroups], ?_⟩
  rcases hrule with ⟨-, hall⟩ | ⟨hselects, -, hobj, htakes⟩
  · exact hall
  · have : namedObjectless X rules f = true := by
      unfold namedObjectless
      rw [Bool.and_eq_true]
      exact ⟨by simpa using hobj, List.any_eq_true.mpr ⟨r, hr, by simp [hnames, hselects, htakes]⟩⟩
    rw [hno] at this
    simp at this

/-- With the rules without selectors first, these rules take the callers. -/
theorem takesCallers_selectsAll_first (h : namedWhole rules f = true) :
    takesCallers X opts (rules.filter (·.selectsAll) ++ rules.filter fun r => !r.selectsAll) f = true := by
  have hfirst : namedWhole (rules.filter (·.selectsAll)) f = true := by
    obtain ⟨r, hr, hnamed⟩ := List.any_eq_true.mp h
    rw [Bool.and_eq_true] at hnamed
    exact List.any_eq_true.mpr ⟨r, List.mem_filter.mpr ⟨hr, hnamed.2⟩, by simp [hnamed.1, hnamed.2]⟩
  have hnone : namedObjectless X (rules.filter (·.selectsAll)) f = false := by
    unfold namedObjectless
    rw [Bool.and_eq_false_iff]
    right
    refine List.any_eq_false.mpr fun r hr => ?_
    simp [(List.mem_filter.mp hr).2]
  have hwhole : (applyRules X opts f (rules.filter (·.selectsAll))).whole = true := by
    rw [(applyRules_spec X opts f _).1, hfirst, Bool.true_or]
  unfold takesCallers
  rw [applyRules_append hwhole]
  exact takesCallers_of_namedWhole hfirst hnone

/-- With the rules without selectors last, a finding that one by namespace takes keeps its callers from
them. -/
theorem takesCallers_selectsAll_last (h : namedObjectless X rules f = true) :
    takesCallers X opts ((rules.filter fun r => !r.selectsAll) ++ rules.filter (·.selectsAll)) f = false := by
  have hfirst : namedObjectless X (rules.filter fun r => !r.selectsAll) f = true := by
    unfold namedObjectless at h ⊢
    rw [Bool.and_eq_true] at h ⊢
    obtain ⟨r, hr, hnamed⟩ := List.any_eq_true.mp h.2
    simp only [Bool.and_eq_true] at hnamed
    exact ⟨h.1, List.any_eq_true.mpr ⟨r, List.mem_filter.mpr ⟨hr, hnamed.1.2⟩, by simp [hnamed.1.1, hnamed.1.2, hnamed.2]⟩⟩
  have hwhole : (applyRules X opts f (rules.filter fun r => !r.selectsAll)).whole = true := by
    rw [(applyRules_spec X opts f _).1, hfirst, Bool.or_true]
  have hnone : namedWhole (rules.filter fun r => !r.selectsAll) f = false := by
    refine List.any_eq_false.mpr fun r hr => ?_
    have := (List.mem_filter.mp hr).2
    simp only [Bool.not_eq_true'] at this
    simp [this]
  unfold takesCallers
  rw [applyRules_append hwhole, ← Bool.not_eq_true]
  intro htakes
  rw [namedWhole_of_takesCallers htakes] at hnone
  simp at hnone

/-- A caller's finding stays open unless a rule without selectors names it. -/
theorem kept_caller (X : External) (opts : Options) (rules : List Rule) (c : Caller) :
    (applyFinding X opts rules c.finding).kept = if namedWhole rules c.finding then none else some c.finding := by
  -- It lists neither an object nor a namespace, so nothing else takes it.
  have hnone : namedObjectless X rules c.finding = false := by
    unfold namedObjectless
    rw [Bool.and_eq_false_iff]
    right
    refine List.any_eq_false.mpr fun r _ => ?_
    simp [Rule.takesObjectless, allMatch, Caller.finding]
  rw [kept_applyFinding, hnone, Bool.or_false]
  split_ifs
  · rfl
  · rfl

/-! ## What a report leaves open -/

/-- What a finding leaves open: what stays of it, and what stays of the callers it gives up. -/
def opened (X : External) (opts : Options) (rules : List Rule) (f : Finding) : List Finding :=
  (applyFinding X opts rules f).kept.toList ++
    (applyFinding X opts rules f).callers.flatMap fun c => (applyFinding X opts rules c.finding).kept.toList

/-- The findings that `apply` leaves open, finding by finding. -/
theorem findings_apply (X : External) (opts : Options) (r : Report) (rules : List Rule) :
    (apply X opts r rules).1.findings.Perm (r.findings.flatMap (opened X opts (activeRules X opts rules).1)) := by
  refine (apply_eq X opts r rules).1.trans ?_
  set active := (activeRules X opts rules).1
  have hagain : (reemitted X opts active r.findings).flatMap (fun f => (applyFinding X opts active f).kept.toList) =
      r.findings.flatMap fun f => (applyFinding X opts active f).callers.flatMap fun c =>
        (applyFinding X opts active c.finding).kept.toList := by
    unfold reemitted
    rw [List.flatMap_assoc]
    refine List.flatMap_congr fun f _ => ?_
    rw [List.flatMap_map]
  rw [List.flatMap_append, hagain]
  exact List.flatMap_append_perm r.findings _ _

/-- The rules that apply are the valid ones that have not expired. -/
theorem activeRules_eq (X : External) (opts : Options) (rules : List Rule) :
    (activeRules X opts rules).1 =
      rules.filter fun r => !((r.validate X).isSome || r.expired opts.now) := by
  have hindex : (activeRules X opts rules).1 = (rules.zipIdx.map Prod.fst).filterMap fun r =>
      if (r.validate X).isSome ∨ r.expired opts.now then none else some r := by
    rw [List.filterMap_map]
    rfl
  rw [hindex, List.zipIdx_map_fst, ← List.filterMap_eq_filter]
  refine List.filterMap_congr fun r _ => ?_
  unfold Option.guard
  by_cases hbad : (r.validate X).isSome = true ∨ r.expired opts.now = true
  · rw [if_pos hbad, if_neg]
    rw [Bool.not_eq_true, Bool.not_eq_false', Bool.or_eq_true]
    exact hbad
  · rw [if_neg hbad, if_pos]
    rw [Bool.not_eq_true', ← Bool.not_eq_true, Bool.or_eq_true]
    exact hbad

section Perm

variable (h : rules.Perm rules')

include h

theorem namedWhole_eq_of_perm (f : Finding) : namedWhole rules' f = namedWhole rules f :=
  (any_eq_of_perm h).symm

theorem namedObjectless_eq_of_perm (f : Finding) : namedObjectless X rules' f = namedObjectless X rules f := by
  unfold namedObjectless
  rw [any_eq_of_perm h]

theorem openObjects_eq_of_perm (f : Finding) : openObjects X opts rules' f = openObjects X opts rules f := by
  unfold openObjects selectedBy
  simp only [any_eq_of_perm h]

/-- What stays of a finding does not depend on the order of the rules. -/
theorem kept_eq_of_perm (f : Finding) :
    (applyFinding X opts rules' f).kept = (applyFinding X opts rules f).kept := by
  rw [kept_applyFinding, kept_applyFinding, namedWhole_eq_of_perm h, namedObjectless_eq_of_perm h,
    openObjects_eq_of_perm h]

/-- Whether something is taken of a finding does not depend on the order of the rules. -/
theorem taken_eq_nil_of_perm (f : Finding) :
    (applyFinding X opts rules' f).taken = [] ↔ (applyFinding X opts rules f).taken = [] := by
  rw [taken_eq_nil_iff, taken_eq_nil_iff, namedWhole_eq_of_perm h, namedObjectless_eq_of_perm h,
    openObjects_eq_of_perm h]

end Perm

/-- No caller of the finding would stay open, where the order of the rules decides whose the callers are. -/
def CallersNamed (X : External) (rules : List Rule) (f : Finding) : Prop :=
  namedObjectless X rules f = true → namedWhole rules f = true → ∀ c ∈ f.callers, namedWhole rules c.finding = true

/-- The order of the rules does not change which callers a finding leaves open, where it does not decide which rule takes
the finding, or no caller would stay open. -/
theorem opened_eq_of_perm (h : rules.Perm rules') (hf : CallersNamed X rules f) :
    opened X opts rules' f = opened X opts rules f := by
  have hcallers : ∀ rs : List Rule, rules.Perm rs →
      ((applyFinding X opts rs f).callers.flatMap fun c => (applyFinding X opts rs c.finding).kept.toList) =
        if (applyFinding X opts rules f).kept.isSome || namedWhole rules f then []
        else f.callers.flatMap fun c => (applyFinding X opts rules c.finding).kept.toList := by
    intro rs hrs
    rw [callers_applyFinding, kept_eq_of_perm hrs]
    cases hkept : (applyFinding X opts rules f).kept.isSome with
    | true => rfl
    | false =>
      simp only [Bool.false_or, kept_eq_of_perm hrs]
      cases hnamed : namedWhole rules f with
      | false =>
        have hno : takesCallers X opts rs f = false := by
          rw [← Bool.not_eq_true]
          intro htakes
          have := namedWhole_of_takesCallers htakes
          rw [namedWhole_eq_of_perm hrs, hnamed] at this
          simp at this
        simp [hno]
      | true =>
        cases hobjectless : namedObjectless X rules f with
        | false =>
          have htakes : takesCallers X opts rs f = true := takesCallers_of_namedWhole
            (by rw [namedWhole_eq_of_perm hrs, hnamed]) (by rw [namedObjectless_eq_of_perm hrs, hobjectless])
          simp [htakes]
        | true =>
          -- Whoever takes the callers, none of them stays open.
          have hclosed : (f.callers.flatMap fun c => (applyFinding X opts rules c.finding).kept.toList) = [] := by
            refine List.flatMap_eq_nil_iff.mpr fun c hc => ?_
            rw [kept_caller, hf hobjectless hnamed c hc]
            rfl
          cases takesCallers X opts rs f with
          | true => rfl
          | false => simpa using hclosed
  unfold opened
  rw [hcallers rules' h, hcallers rules (List.Perm.refl _), kept_eq_of_perm h]

/-! ## The report -/

/-- A score and a verdict do not depend on the order of the findings. -/
theorem rescore_eq_of_perm {r r' : Report} (h : r.findings.Perm r'.findings) (hgaps : r.notAssessed = r'.notAssessed) :
    r.rescore.score = r'.rescore.score ∧ r.rescore.verdict = r'.rescore.verdict := by
  constructor
  · show score r.findings = score r'.findings
    unfold score
    rw [h.countP_eq, h.countP_eq]
  · show verdictFor r.findings r.notAssessed = verdictFor r'.findings r'.notAssessed
    unfold verdictFor
    rw [any_eq_of_perm h, hgaps]

/-- What `apply` returns: the report itself when nothing is taken, and else what is left open, scored again. -/
theorem apply_cases (X : External) (opts : Options) (r : Report) (rules : List Rule) :
    ((∀ f ∈ r.findings, (applyFinding X opts (activeRules X opts rules).1 f).taken = []) ∧
      (apply X opts r rules).1 = r) ∨
    (¬ (∀ f ∈ r.findings, (applyFinding X opts (activeRules X opts rules).1 f).taken = []) ∧
      ∃ r' : Report, r'.notAssessed = r.notAssessed ∧ (apply X opts r rules).1 = r'.rescore) := by
  set active := (activeRules X opts rules).1 with hactive
  set judged := r.findings ++ reemitted X opts active r.findings
  have hsuppressed : (applyQueue X opts active (queueTurns r.findings) r.findings {}).suppressed =
      judged.flatMap fun f => (applyFinding X opts active f).taken := by
    rw [applyQueue_eq le_rfl, (foldl_add X opts active judged {}).2]
    rfl
  have hnone : (applyQueue X opts active (queueTurns r.findings) r.findings {}).suppressed = [] ↔
      ∀ f ∈ r.findings, (applyFinding X opts active f).taken = [] := by
    rw [hsuppressed, List.flatMap_eq_nil_iff]
    refine ⟨fun h f hf => h f (List.mem_append_left _ hf), fun h f hf => ?_⟩
    rcases List.mem_append.mp hf with hf | hf
    · exact h f hf
    · -- A finding of which nothing is taken gives up no caller.
      obtain ⟨g, hg, hfg⟩ := List.mem_flatMap.mp hf
      rw [(kept_of_taken_nil (h g hg)).2] at hfg
      simp at hfg
  by_cases hall : ∀ f ∈ r.findings, (applyFinding X opts active f).taken = []
  · refine .inl ⟨hall, ?_⟩
    unfold apply
    dsimp only
    rw [if_pos (by rw [← hactive, List.isEmpty_iff]; exact hnone.mpr hall)]
  · refine .inr ⟨hall, ?_⟩
    unfold apply
    dsimp only
    rw [if_neg (by rw [← hactive, List.isEmpty_iff]; exact fun h => hall (hnone.mp h))]
    refine ⟨_, ?_, rfl⟩
    rfl

/-- A report leaves the same open for every order of the rules. -/
def OrderFree (X : External) (opts : Options) (r : Report) (rules : List Rule) : Prop :=
  ∀ rules', rules.Perm rules' →
    (apply X opts r rules').1.findings.Perm (apply X opts r rules).1.findings ∧
      (apply X opts r rules').1.score = (apply X opts r rules).1.score ∧
      (apply X opts r rules').1.verdict = (apply X opts r rules).1.verdict

/-- Reports that leave the same open have the same score and verdict. -/
theorem score_verdict_eq_of_perm {r : Report} (h : rules.Perm rules')
    (hfindings : (apply X opts r rules').1.findings.Perm (apply X opts r rules).1.findings) :
    (apply X opts r rules').1.score = (apply X opts r rules).1.score ∧
      (apply X opts r rules').1.verdict = (apply X opts r rules).1.verdict := by
  have hactive : (activeRules X opts rules).1.Perm (activeRules X opts rules').1 := by
    rw [activeRules_eq, activeRules_eq]
    exact h.filter _
  have hsame : (∀ f ∈ r.findings, (applyFinding X opts (activeRules X opts rules').1 f).taken = []) ↔
      ∀ f ∈ r.findings, (applyFinding X opts (activeRules X opts rules).1 f).taken = [] :=
    forall₂_congr fun f _ => taken_eq_nil_of_perm hactive f
  rcases apply_cases X opts r rules with ⟨hall, heq⟩ | ⟨hnot, r₁, hgaps, heq⟩
  · rcases apply_cases X opts r rules' with ⟨-, heq'⟩ | ⟨hnot', -⟩
    · rw [heq, heq']
      exact ⟨rfl, rfl⟩
    · exact absurd (hsame.mpr hall) hnot'
  · rcases apply_cases X opts r rules' with ⟨hall', -⟩ | ⟨-, r₂, hgaps', heq'⟩
    · exact absurd (hsame.mp hall') hnot
    · rw [heq, heq'] at hfindings ⊢
      exact rescore_eq_of_perm hfindings (hgaps'.trans hgaps.symm)

/-- With the rules without selectors last, a finding leaves at least as much open as with them first, and more where a
caller of it would stay open. -/
theorem length_opened_lt (X : External) (opts : Options) (rules : List Rule) (f : Finding) :
    let first := rules.filter (·.selectsAll) ++ rules.filter fun r => !r.selectsAll
    let last := (rules.filter fun r => !r.selectsAll) ++ rules.filter (·.selectsAll)
    (opened X opts first f).length ≤ (opened X opts last f).length ∧
      (¬ CallersNamed X rules f → (opened X opts first f).length < (opened X opts last f).length) := by
  intro first last
  have hfirst : rules.Perm first := (List.filter_append_perm _ _).symm
  have hlast : rules.Perm last := hfirst.trans List.perm_append_comm
  -- Where the callers are named the order does not show. Otherwise the rules without selectors, put first, take them.
  by_cases hnamed : CallersNamed X rules f
  · rw [opened_eq_of_perm hfirst hnamed, opened_eq_of_perm hlast hnamed]
    exact ⟨le_rfl, fun h => absurd hnamed h⟩
  · unfold CallersNamed at hnamed
    push Not at hnamed
    obtain ⟨hobjectless, hwhole, c, hc, hopen⟩ := hnamed
    have hkept : (applyFinding X opts rules f).kept = none := by
      rw [kept_applyFinding, hwhole]
      rfl
    have hnone : opened X opts first f = [] := by
      unfold opened
      rw [callers_applyFinding, takesCallers_selectsAll_first hwhole, kept_eq_of_perm hfirst, hkept]
      rfl
    have hsome : c.finding ∈ opened X opts last f := by
      unfold opened
      rw [callers_applyFinding, takesCallers_selectsAll_last hobjectless, kept_eq_of_perm hlast, hkept]
      refine List.mem_append_right _ (List.mem_flatMap.mpr ⟨c, hc, ?_⟩)
      rw [kept_eq_of_perm hlast, kept_caller, if_neg hopen]
      simp
    have hlt : (opened X opts first f).length < (opened X opts last f).length := by
      rw [hnone]
      exact List.length_pos_of_mem hsome
    exact ⟨hlt.le, fun _ => hlt⟩

/-- What a report leaves open does not depend on the order of the rules exactly when no caller stays open of a finding
without listed objects that both a rule by namespace and one without selectors take. -/
theorem apply_orderFree_iff (X : External) (opts : Options) (r : Report) (rules : List Rule) :
    OrderFree X opts r rules ↔ ∀ f ∈ r.findings, CallersNamed X (activeRules X opts rules).1 f := by
  constructor
  · intro h
    by_contra hno
    push Not at hno
    obtain ⟨f, hf, hf'⟩ := hno
    -- The rules without selectors first, and last.
    set first := rules.filter (·.selectsAll) ++ rules.filter fun r => !r.selectsAll with hfirst
    set last := (rules.filter fun r => !r.selectsAll) ++ rules.filter (·.selectsAll) with hlast
    have hpermfirst : rules.Perm first := (List.filter_append_perm _ _).symm
    have hpermlast : rules.Perm last := hpermfirst.trans List.perm_append_comm
    set active := (activeRules X opts rules).1 with hactive
    have hactivefirst : (activeRules X opts first).1 =
        active.filter (·.selectsAll) ++ active.filter fun r => !r.selectsAll := by
      rw [hactive, activeRules_eq, activeRules_eq, hfirst, List.filter_append]
      congr 1 <;> rw [List.filter_comm]
    have hactivelast : (activeRules X opts last).1 =
        (active.filter fun r => !r.selectsAll) ++ active.filter (·.selectsAll) := by
      rw [hactive, activeRules_eq, activeRules_eq, hlast, List.filter_append]
      congr 1 <;> rw [List.filter_comm]
    have hsame : (r.findings.flatMap (opened X opts (activeRules X opts first).1)).length =
        (r.findings.flatMap (opened X opts (activeRules X opts last).1)).length := by
      rw [← (findings_apply X opts r first).length_eq, ← (findings_apply X opts r last).length_eq,
        (h first hpermfirst).1.length_eq, (h last hpermlast).1.length_eq]
    have hlt : (r.findings.flatMap (opened X opts (activeRules X opts first).1)).length <
        (r.findings.flatMap (opened X opts (activeRules X opts last).1)).length := by
      rw [hactivefirst, hactivelast, List.length_flatMap, List.length_flatMap]
      exact List.sum_lt_sum _ _ (fun g _ => (length_opened_lt X opts active g).1)
        ⟨f, hf, (length_opened_lt X opts active f).2 hf'⟩
    omega
  · intro h rules' hperm
    have hactive : (activeRules X opts rules).1.Perm (activeRules X opts rules').1 := by
      rw [activeRules_eq, activeRules_eq]
      exact hperm.filter _
    have hopened : r.findings.flatMap (opened X opts (activeRules X opts rules').1) =
        r.findings.flatMap (opened X opts (activeRules X opts rules).1) :=
      List.flatMap_congr fun f hf => opened_eq_of_perm hactive (h f hf)
    have hfindings : (apply X opts r rules').1.findings.Perm (apply X opts r rules).1.findings := by
      refine (findings_apply X opts r rules').trans ?_
      rw [hopened]
      exact (findings_apply X opts r rules).symm
    exact ⟨hfindings, score_verdict_eq_of_perm hperm hfindings⟩

/-- Ingresses that an agent counted by namespace without listing them, and a client of theirs. With the rule for their
namespace before the rule for their key the client's finding stays open; in the other order it does not. -/
theorem not_orderFree_ingresses :
    let client : Caller := ⟨"extensions", "v1beta1", "ingresses", "",
      "deprecated-api-in-use/extensions/v1beta1/ingresses", .blocker,
      "clients still requesting extensions/v1beta1 ingresses (removed in 1.22)", "it is removed in 1.22."⟩
    let ingresses : Finding :=
      { category := .removedAPI, severity := .blocker, key := "removed-api/extensions/v1beta1/Ingress"
        title := "extensions/v1beta1 Ingress removed in 1.22 (3 objects)", detail := "web: 3."
        namespaces := ["web"], callers := [client] }
    let r : Report := ⟨"", ⟨1, 22⟩, "v1.21.0", "", 75, false, .blocked, [ingresses], [], none, [], [], 0, 0⟩
    let byNamespace : Rule := { key := ingresses.key, «namespace» := "web", reason := "the team migrates next week" }
    let byKey : Rule := { key := ingresses.key, reason := "served by a conversion proxy" }
    (activeRules .ascii { now := 0 } [byNamespace, byKey]).1 = [byNamespace, byKey] ∧
      ¬ OrderFree .ascii { now := 0 } r [byNamespace, byKey] := by
  intro client ingresses r byNamespace byKey
  refine ⟨by decide +kernel, fun h => ?_⟩
  have hswap := (h [byKey, byNamespace] (.swap ..)).1.length_eq
  have hone : (apply .ascii { now := 0 } r [byNamespace, byKey]).1.findings.length = 1 := by decide +kernel
  have hnone : (apply .ascii { now := 0 } r [byKey, byNamespace]).1.findings.length = 0 := by decide +kernel
  omega

end UpgradeScope.Suppress
