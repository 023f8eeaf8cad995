import UpgradeScope.Engine.Evaluate
import UpgradeScope.Engine.Installs

/-!
# Blockers

When some finding of a list blocks (`Blocks`), and what the steps of an evaluation do to that: a caller
folds only into a finding at least as severe (`blocks_foldDeprecatedCalls`), and the installs of an
add-on block exactly when one of them does by itself, however they are grouped
(`blocks_addOnFindings`).
-/

namespace UpgradeScope

open Go Sorting Kb Registry

/-- Some finding blocks. -/
def Blocks (fs : List Finding) : Prop := ∃ f ∈ fs, f.severity = .blocker

namespace Blocks

/-- The blockers of two lists are those of the one and of the other. -/
@[simp] theorem append {fs gs : List Finding} : Blocks (fs ++ gs) ↔ Blocks fs ∨ Blocks gs := by
  simp only [Blocks, List.mem_append, or_and_right, exists_or]

/-- More findings have the blockers of fewer. -/
theorem mono {fs gs : List Finding} (h : fs ⊆ gs) : Blocks fs → Blocks gs := by
  rintro ⟨f, hf, hb⟩
  exact ⟨f, h hf, hb⟩

/-- A change to findings that keeps their severities keeps whether some block. -/
theorem map {fs : List Finding} {g : Finding → Finding} (hg : ∀ f, (g f).severity = f.severity) :
    Blocks (fs.map g) ↔ Blocks fs := by
  simp only [Blocks, List.mem_map]
  constructor
  · rintro ⟨_, ⟨f, hf, rfl⟩, hb⟩
    exact ⟨f, hf, by rwa [hg] at hb⟩
  · rintro ⟨f, hf, hb⟩
    exact ⟨g f, ⟨f, hf, rfl⟩, by rwa [hg]⟩

/-- The blockers of a loop are those of its turns. -/
theorem flatMap {α : Type} {l : List α} {g : α → List Finding} :
    Blocks (l.flatMap g) ↔ ∃ a ∈ l, Blocks (g a) := by
  simp only [Blocks, List.mem_flatMap]
  constructor
  · rintro ⟨f, ⟨a, ha, hf⟩, hb⟩
    exact ⟨a, ha, f, hf, hb⟩
  · rintro ⟨a, ha, f, hf, hb⟩
    exact ⟨f, ⟨a, ha, hf⟩, hb⟩

/-- Findings of lower severities do not block. -/
theorem not_of_forall {fs : List Finding} (h : ∀ f ∈ fs, f.severity ≠ .blocker) : ¬ Blocks fs :=
  fun ⟨f, hf, hb⟩ => h f hf hb

end Blocks

/-- A usage finding keeps its severity when callers fold into it. -/
theorem withCallers_severity (f : Finding) (rows : List (DeprecatedCall × Finding)) :
    (withCallers f rows).severity = f.severity := by
  unfold withCallers
  split_ifs <;> rfl

/-- A caller that folds does so into a usage finding at least as severe. -/
theorem foldIndex_eq_some {X : External} {rows : List APIUsage} {usage : List Finding}
    {c : DeprecatedCall} {call : Finding} {j : ℕ} (h : foldIndex X rows usage c call = some j) :
    ∃ f, usage[j]? = some f ∧ f.severity.rank ≤ call.severity.rank := by
  obtain ⟨-, hj⟩ := Option.filter_eq_some_iff.mp h
  obtain ⟨f, hf, hrank⟩ := (Option.any_eq_true _ _).mp hj
  exact ⟨f, hf, by simpa using hrank⟩

/-- The fold of the callers keeps whether some finding blocks: a caller it takes in was no more
severe than the finding that takes it. -/
theorem blocks_foldDeprecatedCalls (X : External) (inv : Inventory) (usage : List Finding)
    (calls : List (DeprecatedCall × Finding)) :
    Blocks (foldDeprecatedCalls X inv usage calls) ↔ Blocks usage ∨ Blocks (calls.map (·.2)) := by
  simp only [foldDeprecatedCalls, Blocks.append]
  generalize hplaced : placedCalls X inv usage calls = placed
  have husage : Blocks (usage.mapIdx fun j f => withCallers f (foldedInto placed j)) ↔ Blocks usage := by
    simp only [Blocks, List.mem_mapIdx]
    constructor
    · rintro ⟨_, ⟨j, hj, rfl⟩, hb⟩
      exact ⟨usage[j], List.getElem_mem hj, by rwa [withCallers_severity] at hb⟩
    · rintro ⟨f, hf, hb⟩
      obtain ⟨j, hj, rfl⟩ := List.getElem_of_mem hf
      exact ⟨_, ⟨j, hj, rfl⟩, by rwa [withCallers_severity]⟩
  rw [husage]
  constructor
  · rintro (hb | ⟨f, hf, hb⟩)
    · exact .inl hb
    · right
      obtain ⟨r, hr, rfl⟩ := List.mem_map.mp hf
      have hr' : r ∈ placedCalls X inv usage calls := hplaced ▸ (List.mem_filter.mp hr).1
      obtain ⟨row, hrow, rfl⟩ := List.mem_map.mp hr'
      exact ⟨row.2, List.mem_map_of_mem hrow, hb⟩
  · rintro (hb | ⟨f, hf, hb⟩)
    · exact .inl hb
    · obtain ⟨row, hrow, rfl⟩ := List.mem_map.mp hf
      have hin : (row, foldIndex X inv.apiUsage usage row.1 row.2) ∈ placed := by
        rw [← hplaced]
        exact List.mem_map.mpr ⟨row, hrow, rfl⟩
      cases hidx : foldIndex X inv.apiUsage usage row.1 row.2 with
      | none =>
        -- The caller stands alone.
        refine .inr ⟨row.2, List.mem_map.mpr ⟨_, List.mem_filter.mpr ⟨hin, ?_⟩, rfl⟩, hb⟩
        simp [hidx]
      | some j =>
        obtain ⟨g, hg, hrank⟩ := foldIndex_eq_some hidx
        refine .inl ⟨g, List.mem_of_getElem? hg, ?_⟩
        rw [hb] at hrank
        cases hs : g.severity <;> simp_all [Severity.rank]

/-! ## The installs of an add-on -/

/-- The release line of a version has ended, or the version is older than every line and the oldest
has: what the line's finding blocks on. -/
def lineBlocks (a : AddOn) (now : Time) (version : String) : Bool :=
  match cycleFor version a.cycles with
  | some c => (cycleEOL a c now).any (·.2.1 = .blocker)
  | none => (predatesCycles version a.cycles now).isSome

/-- The line an install blocks by follows from the key of its group. -/
theorem lineBlocks_of_groupKey {a : AddOn} {now : Time} {i j : AddOnInstall}
    (h : groupKey a now i = groupKey a now j) :
    lineBlocks a now i.version = lineBlocks a now j.version := by
  obtain ⟨hcycle, hpredates⟩ := line_eq_of_groupKey h
  unfold lineBlocks
  rw [← hcycle]
  cases hc : cycleFor i.version a.cycles with
  | some c => rfl
  | none => rw [hpredates hc]

/-- The finding about a group's line blocks when the line of its version does, and the installs are
not node runtimes. -/
theorem blocks_lineFinding (a : AddOn) (now : Time) (s : AddOnSubject) :
    Blocks (lineFinding a now s).toList ↔
      productDated a = false ∧ s.node = false ∧ lineBlocks a now s.version = true := by
  unfold lineFinding lineBlocks
  cases hdated : productDated a with
  | true => simp [Blocks]
  | false =>
    cases hc : cycleFor s.version a.cycles with
    | some c =>
      cases he : cycleEOL a c now with
      | none => simp [Blocks, he]
      | some r =>
        obtain ⟨cat, sev, title, more⟩ := r
        cases hn : s.node <;> cases sev <;> simp [Blocks, he, subjectFinding]
    | none =>
      cases hp : predatesCycles s.version a.cycles now with
      | none => simp [Blocks]
      | some o => cases hn : s.node <;> simp [Blocks, subjectFinding, predatesEOL]

/-- An install's own version cannot run the target. -/
def compatBlocks (X : External) (a : AddOn) (target : Version) (version : String) : Bool :=
  version ≠ "" ∧ (compatFor X a version target).isSome

/-- The compatibility finding of a group blocks when one of its installs cannot run the target. -/
theorem blocks_evalAddOnCompat (X : External) (a : AddOn) (s : AddOnSubject) (target : Version)
    (key : String) :
    Blocks (evalAddOnCompat X a s target key).toList ↔
      ∃ i ∈ s.installs, compatBlocks X a target i.version = true := by
  have hbad : ∀ i, i ∈ badInstalls X a s target ↔
      i ∈ s.installs ∧ compatBlocks X a target i.version = true := by
    intro i
    simp [badInstalls, compatBlocks]
  unfold evalAddOnCompat
  dsimp only
  constructor
  · rintro ⟨f, hf, -⟩
    have hne : badInstalls X a s target ≠ [] := by
      rintro hnil
      rw [hnil] at hf
      split at hf <;> simp at hf
    obtain ⟨i, hi⟩ := List.exists_mem_of_ne_nil _ hne
    exact ⟨i, (hbad i).mp hi⟩
  · rintro ⟨i, hi, hb⟩
    have hmem : i ∈ badInstalls X a s target := (hbad i).mpr ⟨hi, hb⟩
    -- The oldest of the installs that cannot run the target is one of them.
    obtain ⟨j, hj, hjv⟩ := exists_oldest (List.ne_nil_of_mem hmem)
    have hcompat : (compatFor X a j.version target).isSome :=
      (of_decide_eq_true ((hbad j).mp hj).2).2
    rw [← hjv]
    obtain ⟨⟨title, detail, citations⟩, hr⟩ := Option.isSome_iff_exists.mp hcompat
    rw [hr]
    dsimp only
    rw [if_neg (List.ne_nil_of_mem hmem)]
    exact ⟨_, List.mem_singleton_self _, rfl⟩

/-- The findings of a group block when its line or the compatibility of an install does. -/
theorem blocks_groupFindings (X : External) (a : AddOn) (target : Version) (now : Time)
    (labelsConsulted : Bool) (s : AddOnSubject) :
    Blocks (groupFindings X a target now labelsConsulted s) ↔
      (productDated a = false ∧ s.node = false ∧ lineBlocks a now s.version = true) ∨
        ∃ i ∈ s.installs, compatBlocks X a target i.version = true := by
  have hnodata : ¬ Blocks (noDataFinding a now labelsConsulted s).toList := by
    apply Blocks.not_of_forall
    intro f hf
    obtain ⟨-, -, -, title, detail, rfl⟩ := noDataFinding_eq_some (Option.mem_toList.mp hf)
    simp [subjectFinding]
  unfold groupFindings
  rw [Blocks.append, Blocks.append, blocks_lineFinding, blocks_evalAddOnCompat]
  simp [hnodata]

/-- An install blocks by itself: its release line has ended, or it cannot run the target. -/
def installBlocks (X : External) (a : AddOn) (target : Version) (now : Time) (node : Bool)
    (version : String) : Bool :=
  !productDated a && !node && lineBlocks a now version || compatBlocks X a target version

/-- The findings of an add-on's installs block exactly when the product's end does or one install
does by itself: which of them are judged together does not matter. -/
theorem blocks_addOnFindings (X : External) (a : AddOn) (target : Version) (now : Time)
    (labelsConsulted : Bool) (ins : List AddOnInstall) (node : Bool) :
    Blocks (addOnFindings X a target now labelsConsulted ins node) ↔
      (productEOL a now).any (·.2.1 = .blocker) = true ∨
        ∃ i ∈ ins, installBlocks X a target now node i.version = true := by
  have hproduct : ∀ all : AddOnSubject,
      Blocks (productFinding a now all).toList ↔ (productEOL a now).any (·.2.1 = .blocker) = true := by
    intro all
    unfold productFinding
    cases productEOL a now <;> simp [Blocks, subjectFinding]
  have hgroups : Blocks ((groupInstalls a ins node now).2.flatMap
      (groupFindings X a target now labelsConsulted)) ↔
        ∃ i ∈ ins, installBlocks X a target now node i.version = true := by
    rw [groupInstalls_snd, Blocks.flatMap]
    constructor
    · rintro ⟨_, hs, hb⟩
      obtain ⟨g, hg, rfl⟩ := List.mem_map.mp hs
      obtain ⟨⟨i, hi, hkey⟩, hm⟩ := mem_groupOn.mp hg
      have hne : g.2 ≠ [] := by
        rw [hm]
        exact List.ne_nil_of_mem (List.mem_filter.mpr ⟨hi, by simpa using hkey⟩)
      have hsub : ∀ i ∈ g.2, i ∈ ins := fun i hi => by
        rw [hm] at hi
        exact (List.mem_filter.mp hi).1
      rw [blocks_groupFindings] at hb
      rcases hb with ⟨hdated, hnode, hline⟩ | ⟨i, hi, hcompat⟩
      · change lineBlocks a now (oldestVersion (g.2.map AddOnInstall.version)) = true at hline
        change node = false at hnode
        obtain ⟨i, hi, hv⟩ := exists_oldest hne
        rw [← hv] at hline
        exact ⟨i, hsub i hi, by simp [installBlocks, hdated, hnode, hline]⟩
      · exact ⟨i, hsub i hi, by simp [installBlocks, hcompat]⟩
    · rintro ⟨i, hi, hb⟩
      have hg : (groupKey a now i, ins.filter fun j => groupKey a now j = groupKey a now i) ∈
          groupOn (groupKey a now) ins := mem_groupOn.mpr ⟨⟨i, hi, rfl⟩, rfl⟩
      have himem : i ∈ ins.filter fun j => groupKey a now j = groupKey a now i :=
        List.mem_filter.mpr ⟨hi, by simp⟩
      refine ⟨_, List.mem_map.mpr ⟨_, hg, rfl⟩, (blocks_groupFindings ..).mpr ?_⟩
      unfold installBlocks at hb
      rw [Bool.or_eq_true, Bool.and_eq_true, Bool.and_eq_true] at hb
      rcases hb with ⟨⟨hdated, hnode⟩, hline⟩ | hcompat
      · refine .inl ⟨by simpa using hdated, by simpa [newAddOnSubject] using hnode, ?_⟩
        -- The group's version is of an install with the same key, so of the same line.
        obtain ⟨j, hj, hv⟩ := exists_oldest (List.ne_nil_of_mem himem)
        have hkey : groupKey a now j = groupKey a now i := by
          simpa using (List.mem_filter.mp hj).2
        change lineBlocks a now (oldestVersion _) = true
        rw [← hv, lineBlocks_of_groupKey hkey]
        exact hline
      · exact .inr ⟨i, himem, hcompat⟩
  rw [addOnFindings_eq_append, Blocks.append, hproduct, hgroups]

end UpgradeScope
