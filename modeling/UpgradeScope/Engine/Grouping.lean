import UpgradeScope.Engine.Installs

/-!
# Installs judged together

The installs of one release line are judged as a group, at the oldest version among them. Nothing but the
wording depends on it: the keys and the severities of a group's findings are those of its installs judged
one by one (`grades_groupFindings`), so the grades of an add-on's findings are the union over its installs
(`gradesOf_addOnFindings`).

Two of the three findings about a group follow from the line that judges it, which is the line of every
install in it (`SameLine`); the third, about compatibility, names the installs that cannot run the target
and stands when there is one.
-/

namespace UpgradeScope

open Go Sorting Kb Registry

/-- What a finding counts for: its key and its severity. -/
def Finding.grade (f : Finding) : String × Severity := (f.key, f.severity)

/-- The grades of some findings. -/
def gradesOf (fs : List Finding) : Set (String × Severity) := {p | p ∈ fs.map Finding.grade}

variable {p : String × Severity}

theorem mem_gradesOf {fs : List Finding} :
    p ∈ gradesOf fs ↔ ∃ f ∈ fs, f.grade = p := List.mem_map

theorem mem_gradesOf_append {fs gs : List Finding} :
    p ∈ gradesOf (fs ++ gs) ↔ p ∈ gradesOf fs ∨ p ∈ gradesOf gs := by
  simp [gradesOf]

theorem mem_gradesOf_toList {o : Option Finding} :
    p ∈ gradesOf o.toList ↔ o.map Finding.grade = some p := by
  cases o <;> simp [gradesOf, eq_comm]

theorem mem_gradesOf_flatMap {α : Type} {l : List α} {fs : α → List Finding} :
    p ∈ gradesOf (l.flatMap fs) ↔ ∃ x ∈ l, p ∈ gradesOf (fs x) := by
  simp only [mem_gradesOf, List.mem_flatMap]
  constructor
  · rintro ⟨f, ⟨x, hx, hf⟩, hp⟩
    exact ⟨x, hx, f, hf, hp⟩
  · rintro ⟨x, hx, f, hf, hp⟩
    exact ⟨f, ⟨x, hx, hf⟩, hp⟩

/-! ## One group -/

section Group

variable {X : External} {a : AddOn} {target : Version} {now : Time} {labelsConsulted : Bool}

/-- One release line judges two groups of installs of one kind. -/
structure SameLine (a : AddOn) (now : Time) (s s' : AddOnSubject) : Prop where
  /-- The release line. -/
  cycle : cycleFor s.version a.cycles = cycleFor s'.version a.cycles
  /-- The line both are older than, when there is no line of theirs. -/
  predates : cycleFor s.version a.cycles = none →
    predatesCycles s.version a.cycles now = predatesCycles s'.version a.cycles now
  /-- Whether they are node runtimes. -/
  node : s.node = s'.node

variable {s s' : AddOnSubject} {ins : List AddOnInstall} {p : String × Severity}

theorem SameLine.lineKey_eq (h : SameLine a now s s') :
    lineKey a now s = lineKey a now s' := by
  unfold lineKey
  rw [← h.cycle]
  cases hc : cycleFor s.version a.cycles with
  | some c => rfl
  | none => rw [h.predates hc]

/-- The end of a line is keyed and graded by the line. -/
theorem SameLine.grade_lineFinding (h : SameLine a now s s') :
    (lineFinding a now s).map Finding.grade = (lineFinding a now s').map Finding.grade := by
  unfold lineFinding
  rw [← h.cycle, ← h.lineKey_eq, ← h.node]
  by_cases hdated : productDated a = true
  · simp [hdated]
  · cases hc : cycleFor s.version a.cycles with
    | some c => simp [hdated, subjectFinding, Finding.grade, Function.comp_def]
    | none =>
      -- Of what the end of older versions says, only the text names the version.
      rw [h.predates hc]
      simp [hdated, subjectFinding, predatesEOL, Finding.grade, Function.comp_def]

/-- The disclosure that there is no line is keyed by the add-on. -/
theorem SameLine.grade_noDataFinding (h : SameLine a now s s') :
    (noDataFinding a now labelsConsulted s).map Finding.grade =
      (noDataFinding a now labelsConsulted s').map Finding.grade := by
  unfold noDataFinding
  dsimp only
  rw [← h.cycle]
  cases hc : cycleFor s.version a.cycles with
  | some c => simp
  | none =>
    rw [h.predates hc]
    split_ifs <;> rfl

/-- The compatibility finding of a group is a blocker, when an install cannot run the target. -/
theorem grade_evalAddOnCompat (s : AddOnSubject) (key : String) :
    (evalAddOnCompat X a s target key).map Finding.grade =
      if badInstalls X a s target = [] then none else some (key, .blocker) := by
  unfold evalAddOnCompat
  dsimp only
  by_cases hbad : badInstalls X a s target = []
  · rw [hbad, if_pos rfl]
    split <;> rfl
  · rw [if_neg hbad]
    -- The oldest of the installs that cannot run the target gives the finding its text.
    obtain ⟨i, hi, hv⟩ := exists_oldest hbad
    have hcompat : (compatFor X a i.version target).isSome :=
      (of_decide_eq_true (List.mem_filter.mp hi).2).2
    obtain ⟨⟨title, detail, citations⟩, hr⟩ := Option.isSome_iff_exists.mp hcompat
    rw [← hv, hr]
    dsimp only
    rw [if_neg hbad]
    rfl

/-- The grades of a group's findings: of its release line, of the installs that cannot run the target, of missing data. -/
theorem mem_gradesOf_groupFindings :
    p ∈ gradesOf (groupFindings X a target now labelsConsulted s) ↔
      (lineFinding a now s).map Finding.grade = some p ∨
      (badInstalls X a s target ≠ [] ∧ (Category.chartIncompat.name ++ "/" ++ lineKey a now s, .blocker) = p) ∨
      (noDataFinding a now labelsConsulted s).map Finding.grade = some p := by
  unfold groupFindings
  rw [mem_gradesOf_append, mem_gradesOf_append, mem_gradesOf_toList, mem_gradesOf_toList,
    mem_gradesOf_toList, grade_evalAddOnCompat, or_assoc]
  by_cases hbad : badInstalls X a s target = []
  · rw [if_pos hbad]
    simp [hbad]
  · rw [if_neg hbad]
    simp [hbad]

/-- Groups that one line judges and that both have installs that cannot run the target, or both have
none, have findings of the same grades. -/
theorem SameLine.map_grade_groupFindings (h : SameLine a now s s')
    (hbad : badInstalls X a s target = [] ↔ badInstalls X a s' target = []) :
    (groupFindings X a target now labelsConsulted s).map Finding.grade =
      (groupFindings X a target now labelsConsulted s').map Finding.grade := by
  have htoList : ∀ o : Option Finding, o.toList.map Finding.grade = (o.map Finding.grade).toList := by
    intro o
    cases o <;> rfl
  unfold groupFindings
  simp only [List.map_append, htoList, grade_evalAddOnCompat, h.grade_lineFinding, h.grade_noDataFinding,
    h.lineKey_eq, hbad]

/-- The installs of a group are judged by the line that judges the group. -/
theorem sameLine_of_groupKey {ins ins' : List AddOnInstall} {name name' : String} {line line' node : Bool}
    (hne : ins ≠ []) (hne' : ins' ≠ [])
    (hkey : ∀ i ∈ ins, ∀ j ∈ ins', groupKey a now i = groupKey a now j) :
    SameLine a now (newAddOnSubject name ins line node) (newAddOnSubject name' ins' line' node) := by
  -- Each group is judged at the version of one of its installs.
  obtain ⟨i, hi, hiv⟩ := exists_oldest hne
  obtain ⟨j, hj, hjv⟩ := exists_oldest hne'
  obtain ⟨hcycle, hpredates⟩ := line_eq_of_groupKey (hkey i hi j hj)
  rw [hiv, hjv] at hcycle hpredates
  exact ⟨hcycle, hpredates, rfl⟩

/-- The installs of a group that cannot run the target are those that cannot by themselves. -/
theorem badInstalls_ne_nil {name : String} {line node : Bool} :
    badInstalls X a (newAddOnSubject name ins line node) target ≠ [] ↔
      ∃ i ∈ ins, badInstalls X a (newAddOnSubject name [i] line node) target ≠ [] := by
  simp [badInstalls, newAddOnSubject, List.filter_eq_nil_iff]

/-- The grades of the findings about a group are those of its installs judged one by one. -/
theorem grades_groupFindings (hne : ins ≠ []) (hkey : ∀ i ∈ ins, ∀ j ∈ ins, groupKey a now i = groupKey a now j)
    {name : String} {line node : Bool} :
    p ∈ gradesOf (groupFindings X a target now labelsConsulted (newAddOnSubject name ins line node)) ↔
      ∃ i ∈ ins, p ∈ gradesOf (groupFindings X a target now labelsConsulted
        (newAddOnSubject name [i] line node)) := by
  have hsame : ∀ i ∈ ins, SameLine a now (newAddOnSubject name ins line node)
      (newAddOnSubject name [i] line node) := by
    intro i hi
    refine sameLine_of_groupKey hne (by simp) fun j hj k hk => ?_
    rw [List.mem_singleton.mp hk]
    exact hkey j hj i hi
  obtain ⟨i₀, hi₀⟩ := List.exists_mem_of_ne_nil ins hne
  simp only [mem_gradesOf_groupFindings]
  constructor
  · rintro (hline | ⟨hbad, hp⟩ | hnodata)
    · rw [(hsame i₀ hi₀).grade_lineFinding] at hline
      exact ⟨i₀, hi₀, .inl hline⟩
    · -- The install that cannot run the target brings the finding by itself, at the group's key.
      obtain ⟨i, hi, hbadi⟩ := badInstalls_ne_nil.mp hbad
      rw [(hsame i hi).lineKey_eq] at hp
      exact ⟨i, hi, .inr (.inl ⟨hbadi, hp⟩)⟩
    · rw [(hsame i₀ hi₀).grade_noDataFinding] at hnodata
      exact ⟨i₀, hi₀, .inr (.inr hnodata)⟩
  · rintro ⟨i, hi, hline | ⟨hbad, hp⟩ | hnodata⟩
    · rw [← (hsame i hi).grade_lineFinding] at hline
      exact .inl hline
    · rw [← (hsame i hi).lineKey_eq] at hp
      exact .inr (.inl ⟨badInstalls_ne_nil.mpr ⟨i, hi, hbad⟩, hp⟩)
    · rw [← (hsame i hi).grade_noDataFinding] at hnodata
      exact .inr (.inr hnodata)

end Group

/-! ## All installs -/

section All

variable (X : External) (a : AddOn) (target : Version) (now : Time) (labelsConsulted : Bool)

/-- The grade of the product's finding. -/
def productGrade : Option (String × Severity) :=
  (productEOL a now).map fun (cat, sev, _, _) => (cat.name ++ "/" ++ a.id, sev)

/-- The grades of an install's findings when it is the only one of its group. -/
def installGrades (node : Bool) (i : AddOnInstall) : Set (String × Severity) :=
  gradesOf (groupFindings X a target now labelsConsulted (newAddOnSubject a.displayName [i] false node))

/-- Whether a group is one release line changes only its text. -/
theorem gradesOf_groupFindings_line (i : AddOnInstall) (line node : Bool) :
    gradesOf (groupFindings X a target now labelsConsulted (newAddOnSubject a.displayName [i] line node)) =
      installGrades X a target now labelsConsulted node i := by
  have hsame : SameLine a now (newAddOnSubject a.displayName [i] line node)
      (newAddOnSubject a.displayName [i] false node) :=
    sameLine_of_groupKey (by simp) (by simp) fun j hj k hk => by
      rw [List.mem_singleton.mp hj, List.mem_singleton.mp hk]
  unfold installGrades gradesOf
  rw [hsame.map_grade_groupFindings Iff.rfl]

/-- The grades of the findings about an add-on: the product's, and those of each install. -/
theorem mem_gradesOf_addOnFindings {ins : List AddOnInstall} {node : Bool} {p : String × Severity} :
    p ∈ gradesOf (addOnFindings X a target now labelsConsulted ins node) ↔
      productGrade a now = some p ∨ ∃ i ∈ ins, p ∈ installGrades X a target now labelsConsulted node i := by
  have hproduct : ∀ all : AddOnSubject,
      (productFinding a now all).map Finding.grade = productGrade a now := by
    intro all
    unfold productFinding productGrade
    cases productEOL a now <;> rfl
  rw [addOnFindings_eq_append, mem_gradesOf_append, mem_gradesOf_toList, hproduct, groupInstalls_snd, List.flatMap_map,
    mem_gradesOf_flatMap]
  refine or_congr_right ?_
  -- The installs of a group are on one line, so each is graded as the group is.
  have hgroup : ∀ g ∈ groupOn (groupKey a now) ins,
      (p ∈ gradesOf (groupFindings X a target now labelsConsulted
        (newAddOnSubject a.displayName g.2 (g.1 ≠ "" && !hasPrefix g.1 belowPrefix) node)) ↔
      ∃ i ∈ g.2, p ∈ installGrades X a target now labelsConsulted node i) := by
    intro g hg
    obtain ⟨⟨i, hi, hkey⟩, hm⟩ := mem_groupOn.mp hg
    have hne : g.2 ≠ [] := by
      rw [hm]
      exact List.ne_nil_of_mem (List.mem_filter.mpr ⟨hi, by simpa using hkey⟩)
    have hkeys : ∀ j ∈ g.2, groupKey a now j = g.1 := fun j hj => by
      rw [hm] at hj
      exact of_decide_eq_true (List.mem_filter.mp hj).2
    rw [grades_groupFindings hne fun j hj k hk => (hkeys j hj).trans (hkeys k hk).symm]
    simp only [gradesOf_groupFindings_line]
  constructor
  · rintro ⟨g, hg, hp⟩
    obtain ⟨i, hi, hpi⟩ := (hgroup g hg).mp hp
    rw [(mem_groupOn.mp hg).2] at hi
    exact ⟨i, (List.mem_filter.mp hi).1, hpi⟩
  · rintro ⟨i, hi, hpi⟩
    have hg : (groupKey a now i, ins.filter fun j => groupKey a now j = groupKey a now i) ∈
        groupOn (groupKey a now) ins := mem_groupOn.mpr ⟨⟨i, hi, rfl⟩, rfl⟩
    exact ⟨_, hg, (hgroup _ hg).mpr ⟨i, List.mem_filter.mpr ⟨hi, by simp⟩, hpi⟩⟩

/-- Grouping the installs of an add-on changes nothing but the wording: the keys and severities found for
some installs are those found for each of them alone, and so more installs neither hide, add nor re-grade
what is found about the others. -/
theorem gradesOf_addOnFindings (i : AddOnInstall) (ins : List AddOnInstall) (node : Bool) :
    gradesOf (addOnFindings X a target now labelsConsulted (i :: ins) node) =
      (⋃ j ∈ i :: ins, gradesOf (addOnFindings X a target now labelsConsulted [j] node)) ∧
    ∀ (j : AddOnInstall) (more : List AddOnInstall),
      gradesOf (addOnFindings X a target now labelsConsulted ((i :: ins) ++ (j :: more)) node) =
        gradesOf (addOnFindings X a target now labelsConsulted (i :: ins) node) ∪
          gradesOf (addOnFindings X a target now labelsConsulted (j :: more) node) := by
  constructor
  · ext p
    simp only [Set.mem_iUnion, mem_gradesOf_addOnFindings, exists_prop, List.mem_singleton, exists_eq_left]
    constructor
    · rintro (hp | ⟨j, hj, hp⟩)
      · exact ⟨i, List.mem_cons_self, .inl hp⟩
      · exact ⟨j, hj, .inr hp⟩
    · rintro ⟨j, hj, hp | hp⟩
      · exact .inl hp
      · exact .inr ⟨j, hj, hp⟩
  · intro j more
    ext p
    simp only [Set.mem_union, mem_gradesOf_addOnFindings, List.mem_append]
    constructor
    · rintro (hp | ⟨k, hk | hk, hp⟩)
      · exact .inl (.inl hp)
      · exact .inl (.inr ⟨k, hk, hp⟩)
      · exact .inr (.inr ⟨k, hk, hp⟩)
    · rintro ((hp | ⟨k, hk, hp⟩) | (hp | ⟨k, hk, hp⟩))
      · exact .inl hp
      · exact .inr ⟨k, .inl hk, hp⟩
      · exact .inl hp
      · exact .inr ⟨k, .inr hk, hp⟩

end All

end UpgradeScope
