import UpgradeScope.Engine.Evaluate
import UpgradeScope.Kb.Replacements

/-!
# Upgrade plans

`internal/engine/plan.go`: a plan takes the control plane from one minor to another over hops (`hopTargets`), judges the
cluster as it is at each of them, and lists each finding in full at its first hop only (`planReports`). A map of the
findings listed so far tells the hops apart: what is in it is referenced, as changed when the severity differs from the
hop before that had it, else as carried.

The map is a fact about the reports before a hop: a key's entry is the target of the first report that has it and the
severity in the last that has it (`listedAfter_eq`). `plan_faithful` puts this together with the loop over the hops.
-/

namespace UpgradeScope

open Go Sorting Kb

/-! ## The plan -/

/-- `FindingRef`: a finding listed in full at an earlier hop. -/
structure FindingRef where
  /-- The finding's key. -/
  key : String
  /-- Its severity at this hop. -/
  severity : Severity
  /-- Its severity at the last earlier hop that had it, in `Hop.changed` only. -/
  was : Option Severity := none
  /-- Its title at this hop. -/
  title : String
  /-- The target of the hop that lists it in full. -/
  since : Version
  deriving DecidableEq

/-- `Hop`: one upgrade of the control plane. -/
structure Hop where
  /-- Where it starts. -/
  «from» : Version
  /-- Where it leads. -/
  «to» : Version
  /-- The score there. -/
  score : ℤ
  /-- The verdict there. -/
  verdict : Verdict
  /-- The findings first seen at this hop. -/
  findings : List Finding := []
  /-- Those listed before at another severity than the hop before had. -/
  changed : List FindingRef := []
  /-- Those listed before at the same severity. -/
  carried : List FindingRef := []
  /-- What was not assessed there. -/
  notAssessed : List CapabilityGap

/-- `findingKey`: the key of a finding, and the category and the title of one without a key. -/
def findingKey (f : Finding) : String := if f.key ≠ "" then f.key else f.category.name ++ "\x00" ++ f.title

/-- `upgradePathKey`: the key of `evalUpgradePath`'s finding. -/
def upgradePathKey : String := Category.versionSkew.name ++ "/upgrade-path"

/-- The findings of a hop, new or referenced, with their severities, in the order `severities` reads them. -/
def Hop.entries (h : Hop) : List (String × Severity) :=
  h.findings.map (fun f => (findingKey f, f.severity)) ++ h.changed.map (fun r => (r.key, r.severity)) ++
    h.carried.map fun r => (r.key, r.severity)

/-- The map of entries, a later one in place of an earlier of the same key. -/
def severityMap (entries : List (String × Severity)) : String → Option Severity :=
  entries.foldl (fun out e => Function.update out e.1 (some e.2)) fun _ => none

/-- `Hop.severities`: the severity of each finding of the hop. -/
def Hop.severities (h : Hop) : String → Option Severity := severityMap h.entries

/-- The version is older than the other: `v.Compare(o) < 0`. -/
def Version.lt (v o : Version) : Bool := (v.compare o).isLT

/-- The target of the next hop: the next minor, or the farthest listed step that does not pass the plan's target. -/
def nextHop (steps : List UpgradeStep) (v dest : Version) : Version :=
  steps.foldl (fun next s => if s.from = v ∧ s.to.gt next ∧ s.to.le dest then s.to else next) v.next

/-- The loop over the hops, at most `fuel` turns; `none` when it has not ended by then. -/
def hopLoop (steps : List UpgradeStep) (dest : Version) : ℕ → Version → Option (List Version)
  | 0, v => if v.lt dest then none else some []
  | n + 1, v =>
    if v.lt dest then (hopLoop steps dest n (nextHop steps v dest)).map (nextHop steps v dest :: ·) else some []

/-- `HopTargets`: the minor the control plane reaches at each hop. -/
def hopTargets (fuel : ℕ) (k : KB) (start dest : Version) : Option (List Version) :=
  if start.major ≠ dest.major then some [] else hopLoop k.upgradeSteps dest fuel start

/-- What a plan remembers of a finding: the target of the hop that lists it, and the severity of the last hop that had
it. -/
structure Seen where
  /-- The target. -/
  since : Version
  /-- The severity. -/
  sev : Severity
  deriving DecidableEq

/-- The findings listed so far, by key, and the hop under way. -/
structure Planning where
  /-- The findings listed. -/
  listed : String → Option Seen
  /-- The hop. -/
  hop : Hop

/-- The reference to a listed finding. -/
def refTo (prev : Seen) (f : Finding) : FindingRef where
  key := findingKey f
  severity := f.severity
  was := if prev.sev ≠ f.severity then some prev.sev else none
  title := f.title
  since := prev.since

/-- One turn of the loop over a report's findings. -/
def planFinding (target : Version) (st : Planning) (f : Finding) : Planning :=
  if findingKey f = upgradePathKey then st
  else match st.listed (findingKey f) with
    | none =>
      { listed := Function.update st.listed (findingKey f) (some ⟨target, f.severity⟩)
        hop := { st.hop with findings := st.hop.findings ++ [f] } }
    | some prev =>
      { listed := Function.update st.listed (findingKey f) (some ⟨prev.since, f.severity⟩)
        hop :=
          if prev.sev ≠ f.severity then { st.hop with changed := st.hop.changed ++ [refTo prev f] }
          else { st.hop with carried := st.hop.carried ++ [refTo prev f] } }

/-- The hop before its findings. -/
def hopOf (start : Version) (r : Report) : Hop where
  «from» := start
  «to» := r.target
  score := r.score
  verdict := r.verdict
  notAssessed := r.notAssessed

/-- One turn of the loop over the reports. -/
def planReport (listed : String → Option Seen) (start : Version) (r : Report) : Planning :=
  r.findings.foldl (planFinding r.target) ⟨listed, hopOf start r⟩

/-- The loop over the reports. -/
def planLoop : (String → Option Seen) → Version → List Report → List Hop
  | _, _, [] => []
  | listed, start, r :: rs =>
    (planReport listed start r).hop :: planLoop (planReport listed start r).listed r.target rs

/-- `PlanReports`: the hops of a plan out of the reports judged at each hop's target. -/
def planReports (start : Version) (reports : List Report) : List Hop := planLoop (fun _ => none) start reports

/-- `Plan`: the cluster judged at each hop. -/
def plan (fuel : ℕ) (X : External) (inv : Inventory) (k : KB) (start dest : Version) (now : Time) : Option (List Hop) :=
  (hopTargets fuel k start dest).bind fun targets =>
    (targets.mapM fun t => evaluate fuel X inv k t now).map (planReports start)

/-! ## The hops -/

/-- A version is older in numbers. -/
theorem Version.lt_iff {v o : Version} :
    v.lt o = true ↔ v.major < o.major ∨ v.major = o.major ∧ v.minor < o.minor := by
  obtain ⟨a, b⟩ := v
  obtain ⟨c, d⟩ := o
  simp only [Version.lt, Version.compare]
  rcases lt_trichotomy a c with h | rfl | h
  · simp [compare_lt_iff_lt.mpr h, h]
  · simp [Ordering.isLT_iff_eq_lt, compare_lt_iff_lt]
  · simp only [compare_gt_iff_gt.mpr h, Ordering.gt_then]
    constructor
    · intro hlt
      simp at hlt
    · rintro (hlt | ⟨rfl, -⟩) <;> omega

/-- A hop goes to the next minor, or is a listed step. -/
def IsHop (k : KB) (v o : Version) : Prop := o = v.next ∨ ∃ s ∈ k.upgradeSteps, s.from = v ∧ s.to = o

variable {pre : List Report} {dest v : Version} {fs : List Finding} (k : KB) {r : Report}

/-- A hop leads on, and not past the plan's target. -/
theorem nextHop_spec (hmajor : v.major = dest.major) (hlt : v.minor < dest.minor) (hlo : -2 ^ 63 ≤ v.minor)
    (hhi : dest.minor ≤ maxInt) :
    (nextHop k.upgradeSteps v dest).major = dest.major ∧ v.minor < (nextHop k.upgradeSteps v dest).minor ∧
      (nextHop k.upgradeSteps v dest).minor ≤ dest.minor ∧ IsHop k v (nextHop k.upgradeSteps v dest) := by
  have hnext : v.next = ⟨v.major, v.minor + 1⟩ := by
    unfold Version.next
    rw [wrap64_of_range (by omega) (by omega)]
  unfold nextHop
  -- What holds of the best step so far holds of the farther step that takes its place.
  have hfold : ∀ (steps : List UpgradeStep) (o : Version), (∀ s ∈ steps, s ∈ k.upgradeSteps) →
      (o.major = dest.major ∧ v.minor < o.minor ∧ o.minor ≤ dest.minor ∧ IsHop k v o) →
      let o' := steps.foldl (fun next s => if s.from = v ∧ s.to.gt next ∧ s.to.le dest then s.to else next) o
      o'.major = dest.major ∧ v.minor < o'.minor ∧ o'.minor ≤ dest.minor ∧ IsHop k v o' := by
    intro steps
    induction steps with
    | nil => exact fun o _ ho => ho
    | cons s steps ih =>
      intro o hsteps ho
      have hrest : ∀ s' ∈ steps, s' ∈ k.upgradeSteps := fun s' hs' => hsteps s' (List.mem_cons_of_mem _ hs')
      rw [List.foldl_cons]
      by_cases hs : s.from = v ∧ s.to.gt o = true ∧ s.to.le dest = true
      · rw [if_pos hs]
        obtain ⟨hfrom, hgt, hle⟩ := hs
        rw [Version.gt_iff] at hgt
        rw [Version.le_iff] at hle
        exact ih s.to hrest ⟨by omega, by omega, by omega, .inr ⟨s, hsteps s List.mem_cons_self, hfrom, rfl⟩⟩
      · rw [if_neg hs]
        exact ih o hrest ho
  refine hfold k.upgradeSteps v.next (fun s hs => hs) ⟨?_, ?_, ?_, .inl rfl⟩
  · rw [hnext]
    exact hmajor
  · rw [hnext]
    exact lt_add_one _
  · rw [hnext]
    exact hlt

/-- A loop with nothing ahead ends at once, at the plan's target. -/
theorem hopLoop_of_not_lt (steps : List UpgradeStep) (n : ℕ) (hmajor : v.major = dest.major)
    (hle : v.minor ≤ dest.minor) (hend : ¬ v.lt dest = true) : hopLoop steps dest n v = some [] ∧ v = dest := by
  constructor
  · cases n <;> simp [hopLoop, hend]
  · rw [Version.lt_iff] at hend
    obtain ⟨a, b⟩ := v
    obtain ⟨c, d⟩ := dest
    simp only [Version.mk.injEq] at *
    omega

/-- The loop ends within as many turns as minors lie ahead, at the plan's target, and each hop leads on. -/
theorem hopLoop_spec (hhi : dest.minor ≤ maxInt) (n : ℕ) (hmajor : v.major = dest.major) (hlo : -2 ^ 63 ≤ v.minor)
    (hle : v.minor ≤ dest.minor) (hn : dest.minor ≤ v.minor + n) :
    ∃ targets, hopLoop k.upgradeSteps dest n v = some targets ∧ (v :: targets).Pairwise (fun a b => a.lt b = true) ∧
      (v :: targets).getLast? = some dest ∧ (v :: targets).IsChain (IsHop k) := by
  induction n generalizing v with
  | zero =>
    have hend : ¬ v.lt dest = true := by
      rw [Version.lt_iff]
      omega
    obtain ⟨hloop, heq⟩ := hopLoop_of_not_lt k.upgradeSteps 0 hmajor hle hend
    exact ⟨[], hloop, by simp, by simp [heq], by simp⟩
  | succ n ih =>
    by_cases hlt : v.lt dest = true
    · rw [Version.lt_iff] at hlt
      obtain ⟨hmajor', hminor, hle', hhop⟩ := nextHop_spec k hmajor (by omega) hlo hhi
      set next := nextHop k.upgradeSteps v dest
      obtain ⟨targets, hloop, hsorted, hlast, hchain⟩ := ih hmajor' (by omega) hle' (by push_cast at hn; omega)
      have hfirst : v.lt next = true := by
        rw [Version.lt_iff]
        omega
      refine ⟨next :: targets, ?_, ?_, ?_, ?_⟩
      · rw [hopLoop, if_pos (by rw [Version.lt_iff]; exact hlt), hloop]
        rfl
      · refine List.pairwise_cons.mpr ⟨fun o ho => ?_, hsorted⟩
        rcases List.mem_cons.mp ho with rfl | ho
        · exact hfirst
        · have hnext := (List.pairwise_cons.mp hsorted).1 o ho
          rw [Version.lt_iff] at hfirst hnext ⊢
          omega
      · rw [List.getLast?_cons_cons]
        exact hlast
      · exact List.isChain_cons_cons.mpr ⟨hhop, hchain⟩
    · obtain ⟨hloop, heq⟩ := hopLoop_of_not_lt k.upgradeSteps (n + 1) hmajor hle hlt
      exact ⟨[], hloop, by simp, by simp [heq], by simp⟩

/-- More turns do not change a loop that has ended. -/
theorem hopLoop_mono {steps : List UpgradeStep} {n m : ℕ} (hnm : n ≤ m) {targets : List Version}
    (h : hopLoop steps dest n v = some targets) : hopLoop steps dest m v = some targets := by
  induction n generalizing m v targets with
  | zero =>
    unfold hopLoop at h
    split_ifs at h with hlt
    cases m <;> simpa [hopLoop, hlt] using h
  | succ n ih =>
    obtain ⟨m, rfl⟩ : ∃ m', m = m' + 1 := ⟨m - 1, by omega⟩
    unfold hopLoop at h ⊢
    split_ifs at h ⊢ with hlt
    · obtain ⟨rest, hrest, rfl⟩ := Option.map_eq_some_iff.mp h
      rw [ih (by omega) hrest]
      rfl
    · exact h

/-! ## One report -/

/-- The keys of a report's findings. -/
def Report.keys (r : Report) : List String := r.findings.map findingKey

/-- The severity of a key in a list of findings. -/
def severityIn (fs : List Finding) (key : String) : Option Severity :=
  (fs.find? fun f => findingKey f = key).map (·.severity)

/-- What is remembered of a key after a hop's findings. -/
def listedWith (listed : String → Option Seen) (target : Version) (fs : List Finding) (key : String) : Option Seen :=
  if key = upgradePathKey then listed key
  else match severityIn fs key with
    | none => listed key
    | some sev => some ⟨((listed key).map (·.since)).getD target, sev⟩

/-- A finding that is not the upgrade path's and is not listed yet. -/
def isNew (listed : String → Option Seen) (f : Finding) : Bool :=
  findingKey f ≠ upgradePathKey ∧ listed (findingKey f) = none

/-- The reference to a finding that is listed at another severity. -/
def changedRef (listed : String → Option Seen) (f : Finding) : Option FindingRef :=
  if findingKey f = upgradePathKey then none
  else (listed (findingKey f)).bind fun prev => if prev.sev ≠ f.severity then some (refTo prev f) else none

/-- The reference to a finding that is listed at the same severity. -/
def carriedRef (listed : String → Option Seen) (f : Finding) : Option FindingRef :=
  if findingKey f = upgradePathKey then none
  else (listed (findingKey f)).bind fun prev => if prev.sev ≠ f.severity then none else some (refTo prev f)

/-- No finding of a list has a key that its keys lack. -/
theorem severityIn_eq_none_iff {key : String} :
    severityIn fs key = none ↔ key ∉ fs.map findingKey := by
  simp [severityIn]

/-- The severity of a key in a longer list. -/
theorem severityIn_append (fs gs : List Finding) (key : String) :
    severityIn (fs ++ gs) key = (severityIn fs key).or (severityIn gs key) := by
  simp only [severityIn, List.find?_append]
  cases fs.find? fun f => findingKey f = key <;> rfl

/-- Where keys stand once, a key has the severity of its finding. -/
theorem severityIn_of_mem (hnodup : (fs.map findingKey).Nodup) {f : Finding} (hf : f ∈ fs) :
    severityIn fs (findingKey f) = some f.severity := by
  induction fs with
  | nil => simp at hf
  | cons g gs ih =>
    obtain ⟨hnot, hrest⟩ := List.nodup_cons.mp hnodup
    rcases List.mem_cons.mp hf with rfl | hf
    · simp [severityIn]
    · have hne : findingKey g ≠ findingKey f := fun heq => hnot (heq ▸ List.mem_map_of_mem hf)
      have hcons : severityIn (g :: gs) (findingKey f) = severityIn gs (findingKey f) := by
        simp [severityIn, hne]
      rw [hcons]
      exact ih hrest hf

/-- The loop over a report's findings: each is new, changed or carried by what was listed before the report. -/
theorem foldl_planFinding (listed : String → Option Seen) (h : Hop) (target : Version) (fs : List Finding)
    (hnodup : (fs.map findingKey).Nodup) :
    fs.foldl (planFinding target) ⟨listed, h⟩ =
      { listed := listedWith listed target fs
        hop := { h with
          findings := h.findings ++ fs.filter (isNew listed)
          changed := h.changed ++ fs.filterMap (changedRef listed)
          carried := h.carried ++ fs.filterMap (carriedRef listed) } } := by
  -- By induction from the end: the last finding's key is not among the others, so they did not change its entry.
  induction fs using List.reverseRecOn with
  | nil =>
    have hnone : listedWith listed target [] = listed := by
      funext key
      simp [listedWith, severityIn]
    simp [hnone]
  | append_singleton fs f ih =>
    rw [List.map_append, List.nodup_append] at hnodup
    obtain ⟨hnodup, -, hapart⟩ := hnodup
    have hnot : findingKey f ∉ fs.map findingKey := fun hmem => hapart _ hmem _ (by simp) rfl
    have hsev : severityIn [f] (findingKey f) = some f.severity := by simp [severityIn]
    have hkept : listedWith listed target fs (findingKey f) = listed (findingKey f) := by
      unfold listedWith
      rw [severityIn_eq_none_iff.mpr hnot]
      split_ifs <;> rfl
    -- The entries after the last finding are those before it, but for its own.
    have hafter : findingKey f ≠ upgradePathKey → ∀ since, since = ((listed (findingKey f)).map (·.since)).getD target →
        Function.update (listedWith listed target fs) (findingKey f) (some ⟨since, f.severity⟩) =
          listedWith listed target (fs ++ [f]) := by
      rintro hpath since rfl
      funext key
      by_cases hkey : key = findingKey f
      · subst hkey
        unfold listedWith
        rw [Function.update_self, if_neg hpath, severityIn_append, severityIn_eq_none_iff.mpr hnot, hsev]
        rfl
      · have hno : severityIn [f] key = none := by simp [severityIn, Ne.symm hkey]
        unfold listedWith
        rw [Function.update_of_ne hkey, severityIn_append, hno, Option.or_none]
    rw [List.foldl_append, ih hnodup, List.filter_append, List.filterMap_append, List.filterMap_append]
    show planFinding target _ f = _
    unfold planFinding
    dsimp only
    rw [hkept]
    by_cases hpath : findingKey f = upgradePathKey
    · have hsame : listedWith listed target (fs ++ [f]) = listedWith listed target fs := by
        funext key
        unfold listedWith
        by_cases hkey : key = upgradePathKey
        · rw [if_pos hkey, if_pos hkey]
        · have hno : severityIn [f] key = none := by simp [severityIn, hpath, Ne.symm hkey]
          rw [severityIn_append, hno, Option.or_none]
      rw [if_pos hpath, hsame]
      simp [isNew, changedRef, carriedRef, hpath]
    · rw [if_neg hpath]
      cases hprev : listed (findingKey f) with
      | none =>
        dsimp only
        rw [hafter hpath target (by rw [hprev]; rfl)]
        simp [isNew, changedRef, carriedRef, hpath, hprev]
      | some prev =>
        dsimp only
        rw [hafter hpath prev.since (by rw [hprev]; rfl)]
        by_cases hsame : prev.sev = f.severity
        · simp [isNew, changedRef, carriedRef, hpath, hprev, hsame]
        · simp [isNew, changedRef, carriedRef, hpath, hprev, hsame]

/-- The three kinds of entries of a hop are the report's findings, but for the upgrade path's. -/
theorem entries_perm (listed : String → Option Seen) (fs : List Finding) :
    ((fs.filter (isNew listed)).map (fun f => (findingKey f, f.severity)) ++
        (fs.filterMap (changedRef listed)).map (fun r => (r.key, r.severity)) ++
        (fs.filterMap (carriedRef listed)).map fun r => (r.key, r.severity)).Perm
      ((fs.filter fun f => findingKey f ≠ upgradePathKey).map fun f => (findingKey f, f.severity)) := by
  induction fs with
  | nil => exact .refl _
  | cons f fs ih =>
    by_cases hpath : findingKey f = upgradePathKey
    · have hnew : isNew listed f = false := by simp [isNew, hpath]
      have hchanged : changedRef listed f = none := by simp [changedRef, hpath]
      have hcarried : carriedRef listed f = none := by simp [carriedRef, hpath]
      simpa [List.filter_cons, List.filterMap_cons, hnew, hchanged, hcarried, hpath] using ih
    · have hall : ((f :: fs).filter fun f => findingKey f ≠ upgradePathKey) =
          f :: fs.filter fun f => findingKey f ≠ upgradePathKey := by simp [hpath]
      rw [hall, List.map_cons]
      -- Not listed before is new; listed, it is carried at the same severity and changed at another.
      cases hprev : listed (findingKey f) with
      | none =>
        have hnew : isNew listed f = true := by simp [isNew, hpath, hprev]
        have hchanged : changedRef listed f = none := by simp [changedRef, hprev]
        have hcarried : carriedRef listed f = none := by simp [carriedRef, hprev]
        rw [List.filter_cons, if_pos hnew, List.filterMap_cons_none hchanged, List.filterMap_cons_none hcarried]
        exact ih.cons _
      | some prev =>
        have hnew : isNew listed f = false := by simp [isNew, hprev]
        rw [List.filter_cons, if_neg (by simp [hnew])]
        by_cases hsame : prev.sev = f.severity
        · have hchanged : changedRef listed f = none := by simp [changedRef, hprev, hsame]
          have hcarried : carriedRef listed f = some (refTo prev f) := by simp [carriedRef, hpath, hprev, hsame]
          rw [List.filterMap_cons_none hchanged, List.filterMap_cons_some hcarried, List.map_cons]
          exact List.perm_middle.trans (ih.cons _)
        · have hchanged : changedRef listed f = some (refTo prev f) := by simp [changedRef, hpath, hprev, hsame]
          have hcarried : carriedRef listed f = none := by simp [carriedRef, hprev, hsame]
          rw [List.filterMap_cons_some hchanged, List.filterMap_cons_none hcarried, List.map_cons, List.append_assoc,
            List.cons_append]
          refine List.perm_middle.trans (List.Perm.cons _ ?_)
          rw [← List.append_assoc]
          exact ih

/-- A map of entries whose keys stand once holds the entries. -/
theorem severityMap_eq_some_iff {l : List (String × Severity)} (hnodup : (l.map (·.1)).Nodup) (key : String)
    (sev : Severity) : severityMap l key = some sev ↔ (key, sev) ∈ l := by
  unfold severityMap
  induction l using List.reverseRecOn with
  | nil => simp
  | append_singleton l e ih =>
    rw [List.map_append, List.nodup_append] at hnodup
    obtain ⟨hnodup, -, hapart⟩ := hnodup
    rw [List.foldl_append, List.foldl_cons, List.foldl_nil, List.mem_append, List.mem_singleton]
    by_cases hkey : key = e.1
    · subst hkey
      rw [Function.update_self]
      constructor
      · intro h
        exact .inr (Prod.ext rfl (Option.some.inj h).symm)
      · rintro (h | h)
        · exact absurd rfl (hapart e.1 (List.mem_map.mpr ⟨_, h, rfl⟩) e.1 (by simp))
        · rw [← h]
    · rw [Function.update_of_ne hkey, ih hnodup]
      constructor
      · exact .inl
      · rintro (h | h)
        · exact h
        · exact absurd (congrArg Prod.fst h) hkey

/-! ## The reports before a hop -/

/-- The target of the first report that has a key. -/
def firstHop (pre : List Report) (key : String) : Option Version := (pre.find? fun r => key ∈ r.keys).map (·.target)

/-- The severity of a key in the last report that has it. -/
def lastSeverity (pre : List Report) (key : String) : Option Severity :=
  pre.reverse.findSome? fun r => severityIn r.findings key

/-- What is remembered after reports. -/
def listedAfter (listed : String → Option Seen) (pre : List Report) : String → Option Seen :=
  pre.foldl (fun listed r => listedWith listed r.target r.findings) listed

/-- Every report has each key once. -/
def DistinctKeys (reports : List Report) : Prop := ∀ r ∈ reports, r.keys.Nodup

theorem lastSeverity_eq_none_iff {key : String} :
    lastSeverity pre key = none ↔ ∀ r ∈ pre, key ∉ r.keys := by
  simp only [lastSeverity, List.findSome?_eq_none_iff, List.mem_reverse, severityIn_eq_none_iff]
  rfl

theorem firstHop_eq_none_iff {key : String} :
    firstHop pre key = none ↔ ∀ r ∈ pre, key ∉ r.keys := by
  simp [firstHop]

/-- What is remembered of a key: the target of the first report that has it, and its severity in the last. -/
theorem listedAfter_eq (pre : List Report) {key : String} (hkey : key ≠ upgradePathKey) :
    listedAfter (fun _ => none) pre key =
      (lastSeverity pre key).bind fun sev => (firstHop pre key).map fun v => ⟨v, sev⟩ := by
  induction pre using List.reverseRecOn with
  | nil => rfl
  | append_singleton pre r ih =>
    have hstep : listedAfter (fun _ => none) (pre ++ [r]) key =
        listedWith (listedAfter (fun _ => none) pre) r.target r.findings key := by
      unfold listedAfter
      rw [List.foldl_append]
      rfl
    have hlast : lastSeverity (pre ++ [r]) key = (severityIn r.findings key).or (lastSeverity pre key) := by
      unfold lastSeverity
      rw [List.reverse_append, List.findSome?_append]
      cases hsev : severityIn r.findings key <;> simp [hsev]
    have hfirst : firstHop (pre ++ [r]) key = (firstHop pre key).or (if key ∈ r.keys then some r.target else none) := by
      unfold firstHop
      rw [List.find?_append]
      cases pre.find? fun r => decide (key ∈ r.keys) with
      | some r' => rfl
      | none => by_cases hmem : key ∈ r.keys <;> simp [hmem]
    rw [hstep, hlast, hfirst]
    unfold listedWith
    rw [if_neg hkey, ih]
    cases hsev : severityIn r.findings key with
    | none =>
      have hnot : key ∉ r.keys := severityIn_eq_none_iff.mp hsev
      rw [if_neg hnot, Option.or_none, Option.none_or]
    | some sev =>
      have hmem : key ∈ r.keys := by
        by_contra hnot
        rw [severityIn_eq_none_iff.mpr hnot] at hsev
        simp at hsev
      rw [if_pos hmem]
      -- The key is new exactly when neither the first nor the last report before has it.
      cases hfirst : firstHop pre key with
      | none =>
        rw [lastSeverity_eq_none_iff.mpr (firstHop_eq_none_iff.mp hfirst)]
        rfl
      | some v =>
        cases hlast : lastSeverity pre key with
        | none =>
          rw [firstHop_eq_none_iff.mpr (lastSeverity_eq_none_iff.mp hlast)] at hfirst
          simp at hfirst
        | some sev' => rfl

/-- A key is new at a hop exactly when no report before has it. -/
theorem listedAfter_eq_none_iff {key : String} (hkey : key ≠ upgradePathKey) :
    listedAfter (fun _ => none) pre key = none ↔ ∀ r ∈ pre, key ∉ r.keys := by
  rw [listedAfter_eq pre hkey]
  constructor
  · intro h
    cases hlast : lastSeverity pre key with
    | none => exact lastSeverity_eq_none_iff.mp hlast
    | some sev =>
      rw [hlast, Option.bind_some, Option.map_eq_none_iff] at h
      exact firstHop_eq_none_iff.mp h
  · intro h
    rw [lastSeverity_eq_none_iff.mpr h]
    rfl

/-- Where the hop after reports starts. -/
def startAfter (start : Version) (pre : List Report) : Version := (pre.getLast?.map (·.target)).getD start

/-- The hop of a report, by the reports before it. -/
theorem getElem?_planLoop (listed : String → Option Seen) (start : Version) (pre : List Report) (r : Report)
    (post : List Report) (hdistinct : DistinctKeys pre) :
    (planLoop listed start (pre ++ r :: post))[pre.length]? =
      some (planReport (listedAfter listed pre) (startAfter start pre) r).hop := by
  induction pre generalizing listed start with
  | nil => rfl
  | cons r₀ pre ih =>
    have hlisted : (planReport listed start r₀).listed = listedWith listed r₀.target r₀.findings := by
      unfold planReport
      rw [foldl_planFinding _ _ _ _ (hdistinct r₀ List.mem_cons_self)]
    have hstart : startAfter r₀.target pre = startAfter start (r₀ :: pre) := by
      unfold startAfter
      rw [List.getLast?_cons]
      cases pre.getLast? <;> rfl
    rw [List.cons_append, planLoop, List.length_cons, List.getElem?_cons_succ,
      ih _ _ fun r hr => hdistinct r (List.mem_cons_of_mem _ hr), hlisted, hstart]
    rfl

theorem length_planLoop (listed : String → Option Seen) (start : Version) (reports : List Report) :
    (planLoop listed start reports).length = reports.length := by
  induction reports generalizing listed start with
  | nil => rfl
  | cons r rs ih => rw [planLoop, List.length_cons, List.length_cons, ih]

/-! ## A hop says what its report says -/

/-- What a hop of a plan says, by its report and the reports before it. -/
structure FaithfulHop (start : Version) (pre : List Report) (r : Report) (hops : List Hop) (h : Hop) : Prop where
  /-- It starts where the hop before leads. -/
  starts : h.from = startAfter start pre
  /-- It leads to the report's target. -/
  leads : h.to = r.target
  /-- It has the report's score, verdict and gaps. -/
  judged : h.score = r.score ∧ h.verdict = r.verdict ∧ h.notAssessed = r.notAssessed
  /-- It lists in full exactly the findings whose keys no report before has. -/
  listed : h.findings = r.findings.filter fun f => findingKey f ≠ upgradePathKey ∧ ∀ r' ∈ pre, findingKey f ∉ r'.keys
  /-- Its entries are the report's keys with their severities. -/
  entries : h.entries.Perm
    ((r.findings.filter fun f => findingKey f ≠ upgradePathKey).map fun f => (findingKey f, f.severity))
  /-- Its severities are the report's. -/
  severities : ∀ key, h.severities key = if key = upgradePathKey then none else severityIn r.findings key
  /-- A changed finding had another severity at the last hop before that had it. -/
  changed : ∀ ref ∈ h.changed, ∃ was, ref.was = some was ∧ was ≠ ref.severity ∧ lastSeverity pre ref.key = some was
  /-- A carried finding had the same. -/
  carried : ∀ ref ∈ h.carried, ref.was = none ∧ lastSeverity pre ref.key = some ref.severity
  /-- A reference names the hop that lists the finding in full. -/
  since : ∀ ref ∈ h.changed ++ h.carried, ∃ i h', i < pre.length ∧ hops[i]? = some h' ∧
    ref.key ∈ h'.findings.map findingKey ∧ ref.since = h'.to

/-- The plan says what its reports say. -/
def FaithfulPlan (start : Version) (reports : List Report) (hops : List Hop) : Prop :=
  hops.length = reports.length ∧ ∀ pre r post, reports = pre ++ r :: post →
    ∃ h, hops[pre.length]? = some h ∧ FaithfulHop start pre r hops h

/-- What is remembered of a key, taken apart. -/
theorem listedAfter_eq_some {key : String} (hkey : key ≠ upgradePathKey) {prev : Seen}
    (h : listedAfter (fun _ => none) pre key = some prev) :
    lastSeverity pre key = some prev.sev ∧ firstHop pre key = some prev.since := by
  rw [listedAfter_eq pre hkey] at h
  obtain ⟨sev, hsev, h⟩ := Option.bind_eq_some_iff.mp h
  obtain ⟨since, hsince, rfl⟩ := Option.map_eq_some_iff.mp h
  exact ⟨hsev, hsince⟩

/-- A changed finding was listed at another severity. -/
theorem mem_changed {listed : String → Option Seen} {ref : FindingRef} (h : ref ∈ fs.filterMap (changedRef listed)) :
    ∃ f ∈ fs, findingKey f ≠ upgradePathKey ∧
      ∃ prev, listed (findingKey f) = some prev ∧ prev.sev ≠ f.severity ∧ ref = refTo prev f := by
  obtain ⟨f, hf, href⟩ := List.mem_filterMap.mp h
  unfold changedRef at href
  split_ifs at href with hpath
  obtain ⟨prev, hprev, href⟩ := Option.bind_eq_some_iff.mp href
  split_ifs at href with hsame
  exact ⟨f, hf, hpath, prev, hprev, hsame, (Option.some.inj href).symm⟩

/-- A carried finding was listed at the same severity. -/
theorem mem_carried {listed : String → Option Seen} {ref : FindingRef} (h : ref ∈ fs.filterMap (carriedRef listed)) :
    ∃ f ∈ fs, findingKey f ≠ upgradePathKey ∧
      ∃ prev, listed (findingKey f) = some prev ∧ prev.sev = f.severity ∧ ref = refTo prev f := by
  obtain ⟨f, hf, href⟩ := List.mem_filterMap.mp h
  unfold carriedRef at href
  split_ifs at href with hpath
  obtain ⟨prev, hprev, href⟩ := Option.bind_eq_some_iff.mp href
  split_ifs at href with hsame
  exact ⟨f, hf, hpath, prev, hprev, not_not.mp hsame, (Option.some.inj href).symm⟩

/-- The hop of a report among distinct keys. -/
theorem hop_planReport (start : Version) (hdistinct : r.keys.Nodup) :
    (planReport (listedAfter (fun _ => none) pre) start r).hop =
      { hopOf start r with
        findings := r.findings.filter (isNew (listedAfter (fun _ => none) pre))
        changed := r.findings.filterMap (changedRef (listedAfter (fun _ => none) pre))
        carried := r.findings.filterMap (carriedRef (listedAfter (fun _ => none) pre)) } := by
  unfold planReport
  rw [foldl_planFinding _ _ _ _ hdistinct]
  rfl

/-- The hop lists in full what no report before has. -/
theorem filter_isNew (pre : List Report) (fs : List Finding) :
    fs.filter (isNew (listedAfter (fun _ => none) pre)) =
      fs.filter fun f => findingKey f ≠ upgradePathKey ∧ ∀ r' ∈ pre, findingKey f ∉ r'.keys := by
  refine List.filter_congr fun f _ => ?_
  unfold isNew
  refine decide_eq_decide.mpr (and_congr_right fun hpath => ?_)
  exact listedAfter_eq_none_iff hpath

/-- The severities of a hop are its report's. -/
theorem severities_of_entries {h : Hop} (hdistinct : r.keys.Nodup) (hentries : h.entries.Perm
      ((r.findings.filter fun f => findingKey f ≠ upgradePathKey).map fun f => (findingKey f, f.severity)))
    (key : String) : h.severities key = if key = upgradePathKey then none else severityIn r.findings key := by
  have hkeys : (h.entries.map (·.1)).Nodup := by
    rw [(hentries.map _).nodup_iff, List.map_map]
    exact hdistinct.sublist (List.Sublist.map _ List.filter_sublist)
  refine Option.ext fun sev => ?_
  unfold Hop.severities
  rw [severityMap_eq_some_iff hkeys, hentries.mem_iff, List.mem_map]
  constructor
  · rintro ⟨f, hf, heq⟩
    obtain ⟨hf, hpath⟩ := List.mem_filter.mp hf
    obtain ⟨rfl, rfl⟩ := Prod.mk.inj heq
    rw [if_neg (of_decide_eq_true hpath)]
    exact severityIn_of_mem hdistinct hf
  · intro hsev
    split_ifs at hsev with hpath
    obtain ⟨f, hf, rfl⟩ := Option.map_eq_some_iff.mp hsev
    have hkey : findingKey f = key := by simpa using List.find?_some hf
    exact ⟨f, List.mem_filter.mpr ⟨List.mem_of_find?_eq_some hf, by simpa [hkey] using hpath⟩, by rw [hkey]⟩

/-- Every hop of a plan says what its report says. -/
theorem planReports_faithful (start : Version) {reports : List Report} (hdistinct : DistinctKeys reports) :
    FaithfulPlan start reports (planReports start reports) := by
  refine ⟨length_planLoop _ _ _, ?_⟩
  have hhop : ∀ pre r post, reports = pre ++ r :: post → (planReports start reports)[pre.length]? =
      some (planReport (listedAfter (fun _ => none) pre) (startAfter start pre) r).hop := by
    rintro pre r post rfl
    exact getElem?_planLoop _ _ _ _ _ fun r' hr' => hdistinct r' (List.mem_append_left _ hr')
  intro pre r post hreports
  have hr : r.keys.Nodup := hdistinct r (by rw [hreports]; simp)
  have hentries := entries_perm (listedAfter (fun _ => none) pre) r.findings
  refine ⟨_, hhop pre r post hreports, ?_⟩
  rw [hop_planReport (startAfter start pre) hr]
  refine ⟨rfl, rfl, ⟨rfl, rfl, rfl⟩, filter_isNew pre r.findings, hentries,
    severities_of_entries hr hentries, ?_, ?_, ?_⟩
  · intro ref href
    obtain ⟨f, -, hpath, prev, hprev, hother, rfl⟩ := mem_changed href
    exact ⟨prev.sev, if_pos hother, hother, (listedAfter_eq_some hpath hprev).1⟩
  · intro ref href
    obtain ⟨f, -, hpath, prev, hprev, hsame, rfl⟩ := mem_carried href
    refine ⟨if_neg (not_not.mpr hsame), ?_⟩
    rw [show (refTo prev f).severity = prev.sev from hsame.symm]
    exact (listedAfter_eq_some hpath hprev).1
  · intro ref href
    have href : ∃ f, findingKey f ≠ upgradePathKey ∧
        ∃ prev, listedAfter (fun _ => none) pre (findingKey f) = some prev ∧ ref = refTo prev f := by
      rcases List.mem_append.mp href with href | href
      · obtain ⟨f, -, hpath, prev, hprev, -, heq⟩ := mem_changed href
        exact ⟨f, hpath, prev, hprev, heq⟩
      · obtain ⟨f, -, hpath, prev, hprev, -, heq⟩ := mem_carried href
        exact ⟨f, hpath, prev, hprev, heq⟩
    obtain ⟨f, hpath, prev, hprev, rfl⟩ := href
    obtain ⟨r₀, hfind, hsince⟩ := Option.map_eq_some_iff.mp (listedAfter_eq_some hpath hprev).2
    -- The first report that has the key splits the reports, and its hop lists the finding.
    obtain ⟨hmem, pre₀, post₀, rfl, hnot⟩ := List.find?_eq_some_iff_append.mp hfind
    obtain ⟨g, hg, hkey⟩ := List.mem_map.mp (of_decide_eq_true hmem)
    refine ⟨pre₀.length, _, by simp, hhop pre₀ r₀ (post₀ ++ r :: post) (by simp [hreports]), ?_⟩
    rw [hop_planReport (startAfter start pre₀) (hdistinct r₀ (by rw [hreports]; simp))]
    refine ⟨?_, hsince.symm⟩
    dsimp only
    rw [filter_isNew]
    refine List.mem_map.mpr ⟨g, List.mem_filter.mpr ⟨hg, decide_eq_true ⟨?_, fun r' hr' => ?_⟩⟩, hkey⟩
    · rw [hkey]
      exact hpath
    · rw [hkey]
      simpa using hnot r' hr'

/-! ## The plan of a cluster -/

/-- The last of the reports is the one judged at the last target. -/
theorem getLast?_mapM {α β : Type} {g : α → Option β} {l : List α} {bs : List β} (h : l.mapM g = some bs) {a : α}
    (ha : l.getLast? = some a) : ∃ pre b, bs = pre ++ [b] ∧ g a = some b := by
  obtain ⟨init, rfl⟩ : ∃ init, l = init ++ [a] := ⟨l.dropLast, (List.dropLast_append_getLast? a ha).symm⟩
  rw [List.mapM_append] at h
  obtain ⟨pre, -, h⟩ := Option.bind_eq_some_iff.mp h
  obtain ⟨rest, hrest, h⟩ := Option.bind_eq_some_iff.mp h
  rw [List.mapM_cons] at hrest
  obtain ⟨b, hb, hrest⟩ := Option.bind_eq_some_iff.mp hrest
  obtain rfl : [b] = rest := by simpa using hrest
  obtain rfl : pre ++ [b] = bs := by simpa using h
  exact ⟨pre, b, rfl, hb⟩

/-- The findings of a report do not change what its hop takes over from it. -/
theorem judged_planReport (listed : String → Option Seen) (start : Version) (r : Report) :
    (planReport listed start r).hop.score = r.score ∧ (planReport listed start r).hop.verdict = r.verdict := by
  unfold planReport
  have hfold : ∀ (fs : List Finding) (st : Planning),
      (fs.foldl (planFinding r.target) st).hop.score = st.hop.score ∧
        (fs.foldl (planFinding r.target) st).hop.verdict = st.hop.verdict := by
    intro fs
    induction fs with
    | nil => exact fun st => ⟨rfl, rfl⟩
    | cons f fs ih =>
      intro st
      have hone : (planFinding r.target st f).hop.score = st.hop.score ∧
          (planFinding r.target st f).hop.verdict = st.hop.verdict := by
        unfold planFinding
        split_ifs
        · exact ⟨rfl, rfl⟩
        · split
          · exact ⟨rfl, rfl⟩
          · dsimp only
            split_ifs <;> exact ⟨rfl, rfl⟩
      rw [List.foldl_cons, (ih _).1, (ih _).2, hone.1, hone.2]
      exact ⟨rfl, rfl⟩
  exact hfold r.findings _

/-- The last hop has the score and the verdict of the last report. -/
theorem judged_getLast?_planLoop (listed : String → Option Seen) (start : Version) (pre : List Report) (r : Report) :
    ∃ h, (planLoop listed start (pre ++ [r])).getLast? = some h ∧ h.score = r.score ∧ h.verdict = r.verdict := by
  induction pre generalizing listed start with
  | nil => exact ⟨_, rfl, judged_planReport listed start r⟩
  | cons r₀ pre ih =>
    obtain ⟨h, hlast, hjudged⟩ := ih (planReport listed start r₀).listed r₀.target
    refine ⟨h, ?_, hjudged⟩
    rw [List.cons_append, planLoop, List.getLast?_cons, hlast]
    rfl

/-- A plan takes the control plane over ever newer minors to exactly its target, each hop the next minor or a listed
step; every hop says what the report at its target says, and which hop listed a finding before; and the last hop has the
verdict, the score and the severities of the evaluation at the plan's target. -/
theorem plan_faithful (k : KB) {start dest : Version} (hmajor : start.major = dest.major) (hlt : start.lt dest = true)
    (hlo : -2 ^ 63 ≤ start.minor) (hhi : dest.minor ≤ maxInt) :
    ∃ targets, (∃ n, ∀ fuel ≥ n, hopTargets fuel k start dest = some targets) ∧
      (start :: targets).Pairwise (fun a b => a.lt b = true) ∧ targets.getLast? = some dest ∧
      (start :: targets).IsChain (IsHop k) ∧
      (∀ reports, DistinctKeys reports → FaithfulPlan start reports (planReports start reports)) ∧
      ∀ fuel X inv now hops, plan fuel X inv k start dest now = some hops →
        ∃ reports rep h, targets.mapM (fun t => evaluate fuel X inv k t now) = some reports ∧
          hops = planReports start reports ∧ evaluate fuel X inv k dest now = some rep ∧ hops.getLast? = some h ∧
          h.verdict = rep.verdict ∧ h.score = rep.score ∧
          (DistinctKeys reports →
            ∀ key, h.severities key = if key = upgradePathKey then none else severityIn rep.findings key) := by
  rw [Version.lt_iff] at hlt
  have htargets : ∀ fuel, hopTargets fuel k start dest = hopLoop k.upgradeSteps dest fuel start := by
    intro fuel
    unfold hopTargets
    rw [if_neg (not_not.mpr hmajor)]
  obtain ⟨targets, hloop, hsorted, hlast, hchain⟩ := hopLoop_spec k hhi (dest.minor - start.minor).toNat hmajor hlo
    (by omega) (by omega)
  have hends : targets.getLast? = some dest := by
    cases targets with
    | nil =>
      obtain rfl : start = dest := by simpa using hlast
      omega
    | cons t ts =>
      rw [List.getLast?_cons_cons] at hlast
      exact hlast
  refine ⟨targets, ⟨(dest.minor - start.minor).toNat, fun fuel hfuel => ?_⟩, hsorted, hends, hchain,
    fun reports h => planReports_faithful start h, ?_⟩
  · rw [htargets]
    exact hopLoop_mono hfuel hloop
  · intro fuel X inv now hops hplan
    obtain ⟨targets', htargets', hplan⟩ := Option.bind_eq_some_iff.mp hplan
    obtain ⟨reports, hreports, rfl⟩ := Option.map_eq_some_iff.mp hplan
    -- A loop that has ended by then has found the same targets.
    obtain rfl : targets' = targets := by
      rw [htargets] at htargets'
      have hmore := hopLoop_mono (le_max_left fuel (dest.minor - start.minor).toNat) htargets'
      rw [hopLoop_mono (le_max_right fuel _) hloop] at hmore
      exact (Option.some.inj hmore).symm
    obtain ⟨pre, rep, rfl, hrep⟩ := getLast?_mapM hreports hends
    obtain ⟨h, hlast', hscore, hverdict⟩ := judged_getLast?_planLoop (fun _ => none) start pre rep
    refine ⟨pre ++ [rep], rep, h, hreports, rfl, hrep, hlast', hverdict, hscore, fun hdistinct => ?_⟩
    obtain ⟨hlen, hfaithful⟩ := planReports_faithful start hdistinct
    obtain ⟨h', hh', hhop⟩ := hfaithful pre rep [] rfl
    have hsame : h' = h := by
      rw [List.getLast?_eq_getElem?, show planLoop (fun _ => none) start (pre ++ [rep]) =
        planReports start (pre ++ [rep]) from rfl, hlen, List.length_append, List.length_singleton,
        Nat.add_sub_cancel, hh'] at hlast'
      exact Option.some.inj hlast'
    rw [← hsame]
    exact hhop.severities

/-- A knowledge base with a removed API and a step over a minor. -/
def skippingKB : KB where
  apiLifecycle :=
    [{ group := "extensions", version := "v1beta1", kind := "Ingress", introduced := ⟨1, 1⟩, deprecated := some ⟨1, 14⟩
       removed := some ⟨1, 22⟩ }]
  maxKnownK8s := ⟨1, 34⟩
  upgradeSteps := [⟨⟨1, 20⟩, ⟨1, 22⟩, "long-term support"⟩]

/-- A cluster of 1.19 with an Ingress of the removed API. -/
def oldIngressCluster : Inventory where
  serverVersion := "v1.19.0"
  apiUsage := [{ group := "extensions", version := "v1beta1", kind := "Ingress", count := 1 }]

/-- The plan skips 1.21. Its last hop carries the removal of the Ingress' API, which the hop to 1.22 lists, and has the
verdict of the evaluation at 1.23. -/
theorem plan_faithful_ingress :
    hopTargets 4 skippingKB ⟨1, 19⟩ ⟨1, 23⟩ = some [⟨1, 20⟩, ⟨1, 22⟩, ⟨1, 23⟩] ∧
      ∃ hops rep h, plan 4 .ascii oldIngressCluster skippingKB ⟨1, 19⟩ ⟨1, 23⟩ 0 = some hops ∧
        evaluate 4 .ascii oldIngressCluster skippingKB ⟨1, 23⟩ 0 = some rep ∧ hops.getLast? = some h ∧
        h.verdict = rep.verdict ∧ h.score = rep.score ∧ h.carried.map (·.since) = [⟨1, 22⟩] := by
  have hany : (plan 4 .ascii oldIngressCluster skippingKB ⟨1, 19⟩ ⟨1, 23⟩ 0).any (fun hops =>
      (hops.getLast?.map fun h => h.carried.map (·.since)) = some [⟨1, 22⟩]) = true := by decide +kernel
  obtain ⟨hops, hplan, hcarried⟩ := (Option.any_eq_true _ _).mp hany
  obtain ⟨targets, -, -, -, -, -, hlast⟩ := @plan_faithful skippingKB ⟨1, 19⟩ ⟨1, 23⟩ rfl (by decide)
    (by decide) (by decide)
  obtain ⟨reports, rep, h, -, -, hrep, hh, hverdict, hscore, -⟩ := hlast 4 .ascii oldIngressCluster 0 hops hplan
  refine ⟨by decide +kernel, hops, rep, h, hplan, hrep, hh, hverdict, hscore, ?_⟩
  rw [hh] at hcarried
  simpa using hcarried

end UpgradeScope
