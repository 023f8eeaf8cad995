import UpgradeScope.Engine.Helm
import UpgradeScope.Engine.Volumes

/-!
# How severe a finding is

The category and the severity of what the API checks find, without the texts: `usageGrade` of a usage row is what
`usageJudgement` decides, `removalGrade` of the release that removes an API or a plugin is what callers and volume
plugins are judged by.
-/

namespace UpgradeScope

open Go Sorting Kb

/-- The category and severity of a usage row's finding, from the API's lifecycle and whether the target does not serve
the API yet. -/
def usageGrade (target : Version) (e? : Option APILifecycleEntry) (unserved : Bool) : Option (Category × Severity) :=
  match e? with
  | none => some (.unknownAPI, .info)
  | some e =>
    if unserved || removedAt target e then some (.removedAPI, .blocker)
    else if removedNext target e then some (.removedAPI, .warning)
    else if e.deprecated.isSome then some (.deprecatedAPI, .info)
    else none

/-- The severity of using what a release removes. -/
def removalGrade (target removed : Version) : Severity :=
  if removed.le target then .blocker else if removed = target.next then .warning else .info

section Grades

variable {X : External} {k : KB} {target : Version}

/-- What is judged of a usage row, without the text. -/
theorem usageJudgement_grade (e? : Option APILifecycleEntry) (u : APIUsage) (unserved : Bool) :
    (usageJudgement k target e? u unserved).map (fun j => (j.1, j.2.1)) = usageGrade target e? unserved := by
  cases e? with
  | none => rfl
  | some e =>
    unfold usageJudgement usageGrade
    dsimp only
    by_cases hunserved : unserved = true
    · simp [hunserved]
    · rw [if_neg hunserved]
      by_cases hat : removedAt target e = true
      · simp [hat]
      · rw [if_neg hat]
        by_cases hnext : removedNext target e = true
        · simp [hunserved, hat, hnext]
        · rw [if_neg hnext]
          cases hdep : e.deprecated with
          | none => simp [hunserved, hat, hnext]
          | some d =>
            dsimp only
            by_cases hd : d.gt target = true <;> simp [hunserved, hat, hnext, hd]

variable {src : Source} {u : APIUsage} {f : Finding} {nsInfo : List NamespaceInfo}

/-- The category and the severity of a usage finding. -/
theorem usageFinding_grade (h : usageFinding k target src nsInfo u = some f) :
    usageGrade target (lookup k.apiLifecycle ⟨u.group, u.version, u.kind⟩) (unservedUse k target src u) =
      some (f.category, f.severity) := by
  obtain ⟨hj, -⟩ := usageFinding_eq_some k target h
  rw [← usageJudgement_grade, hj]
  rfl

/-- A row that is graded has its finding. -/
theorem exists_usageFinding (nsInfo : List NamespaceInfo) {cat : Category} {sev : Severity}
    (hknown : ¬ (lookup k.apiLifecycle ⟨u.group, u.version, u.kind⟩ = none ∧ ¬ builtinGroup k u.group = true))
    (hgrade : usageGrade target (lookup k.apiLifecycle ⟨u.group, u.version, u.kind⟩) (unservedUse k target src u) =
      some (cat, sev)) :
    ∃ f, usageFinding k target src nsInfo u = some f ∧ f.category = cat ∧ f.severity = sev := by
  cases hf : usageFinding k target src nsInfo u with
  | none =>
    rw [← usageJudgement_grade (k := k) _ u] at hgrade
    obtain ⟨j, hj, -⟩ := Option.map_eq_some_iff.mp hgrade
    simp only [usageFinding, if_neg hknown, hj, Option.map_some] at hf
    cases hf
  | some f =>
    have hgrade' := usageFinding_grade hf
    rw [hgrade] at hgrade'
    obtain ⟨hcat, hsev⟩ := Prod.mk.inj (Option.some.inj hgrade')
    exact ⟨f, rfl, hcat.symm, hsev.symm⟩

/-- A usage finding is of one of three categories. -/
theorem usageFinding_category (h : usageFinding k target src nsInfo u = some f) :
    f.category ∈ [Category.removedAPI, .deprecatedAPI, .unknownAPI] := by
  have hgrade := usageFinding_grade h
  unfold usageGrade at hgrade
  split at hgrade
  · obtain ⟨hcat, -⟩ := Prod.mk.inj (Option.some.inj hgrade)
    simp [← hcat]
  · split_ifs at hgrade <;> (obtain ⟨hcat, -⟩ := Prod.mk.inj (Option.some.inj hgrade); simp [← hcat])

/-- The severity of a caller's finding is the grade of the removal that it calls. -/
theorem callFinding_severity (c : DeprecatedCall) :
    (callFinding X k target c).severity = ((callRemoval X k c).map fun r => removalGrade target r.1).getD .info := by
  show (callJudgement X k target c).1 = _
  unfold callJudgement
  cases callRemoval X k c with
  | none => rfl
  | some r =>
    obtain ⟨removed, sentence⟩ := r
    rfl

end Grades

end UpgradeScope
