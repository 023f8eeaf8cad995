import UpgradeScope.Engine.AddOns

/-!
# The release lines of installs

What the installs that `groupInstalls` puts together have in common: the key of their group says which
release line judges them (`line_eq_of_groupKey`), and the version a group is judged at is the version of
one of its installs (`oldestVersion_mem`), so the line is the group's.
-/

namespace UpgradeScope

open Go Sorting Kb Registry

/-! ## Versions and lines -/

/-- The oldest version of a loop is one of the versions and known, or none of them is known. -/
theorem oldestVersion_cases (vs : List String) :
    (oldestVersion vs ∈ vs ∧ oldestVersion vs ≠ "") ∨ (oldestVersion vs = "" ∧ ∀ v ∈ vs, v = "") := by
  -- The loop's invariant: the oldest so far is unknown only while no version was known.
  suffices h : ∀ (vs : List String) (o : String),
      let r := vs.foldl (fun oldest v =>
        if v ≠ "" ∧ (oldest = "" ∨ versionBefore v oldest) then v else oldest) o
      (r = o ∨ r ∈ vs) ∧ (r = "" → o = "" ∧ ∀ v ∈ vs, v = "") by
    obtain ⟨hmem, hempty⟩ := h vs ""
    by_cases hr : oldestVersion vs = ""
    · exact .inr ⟨hr, (hempty hr).2⟩
    · exact .inl ⟨hmem.resolve_left hr, hr⟩
  intro vs
  induction vs with
  | nil => simp
  | cons w vs ih =>
    intro o
    rw [List.foldl_cons]
    split_ifs with hw
    · obtain ⟨hmem, hempty⟩ := ih w
      refine ⟨.inr ?_, fun he => absurd (hempty he).1 hw.1⟩
      rcases hmem with h | h
      · rw [h]
        exact List.mem_cons_self
      · exact List.mem_cons_of_mem _ h
    · obtain ⟨hmem, hempty⟩ := ih o
      refine ⟨hmem.imp_right (List.mem_cons_of_mem _), fun he => ?_⟩
      obtain ⟨ho, hvs⟩ := hempty he
      refine ⟨ho, fun u hu => ?_⟩
      rcases List.mem_cons.mp hu with rfl | hu
      · by_contra hne
        exact hw ⟨hne, .inl ho⟩
      · exact hvs u hu

/-- The oldest version of a loop over some versions is one of them. -/
theorem oldestVersion_mem {vs : List String} (h : vs ≠ []) : oldestVersion vs ∈ vs := by
  rcases oldestVersion_cases vs with ⟨hmem, -⟩ | ⟨hempty, hall⟩
  · exact hmem
  · obtain ⟨v, hv⟩ := List.exists_mem_of_ne_nil vs h
    rw [hempty, ← hall v hv]
    exact hv

/-- The unknown version has no components. -/
theorem versionParts_empty : versionParts "" = none := by decide

/-- The key of the versions below the oldest release line is no version. -/
theorem versionParts_below (s : String) : versionParts (belowPrefix ++ s) = none := by
  have hcore : (cutSuffixMark (belowPrefix ++ s)).1 = "below" := by
    simp [cutSuffixMark, belowPrefix, String.toList_append]
  unfold versionParts
  rw [hcore]
  decide

/-- One pass of the loop of `cycleFor`: the best line so far and its length, after one more line. -/
def longerLine (v : List ℤ) (best : Option Cycle × ℕ) (c : Cycle) : Option Cycle × ℕ :=
  match versionParts c.cycle with
  | some p => if p.length ≤ v.length ∧ best.2 < p.length ∧ v.take p.length = p then (some c, p.length) else best
  | none => best

variable {cycles : List Cycle} {now : Time} (a : AddOn) {c : Cycle}

/-- The release line of a version is the first one listed with its components. -/
theorem cycleFor_find {version : String} (h : cycleFor version cycles = some c) :
    versionParts c.cycle ≠ none ∧
      cycles.find? (fun d => versionParts d.cycle = versionParts c.cycle) = some c := by
  unfold cycleFor at h
  cases hv : versionParts version with
  | none => simp [hv] at h
  | some v =>
    simp only [hv] at h
    -- The loop's invariant: the best line so far is the first of its components, and no line that
    -- leads the version is longer.
    suffices hinv : ∀ l : List Cycle,
        let r := l.foldl (longerLine v) (none, 0)
        (∀ c, r.1 = some c → ∃ p, versionParts c.cycle = some p ∧ p.length = r.2 ∧
          l.find? (fun d => versionParts d.cycle = some p) = some c) ∧
        ∀ d ∈ l, ∀ p, versionParts d.cycle = some p → p.length ≤ v.length → v.take p.length = p →
          p.length ≤ r.2 by
      obtain ⟨p, hp, -, hfind⟩ := (hinv cycles).1 c h
      rw [hp]
      exact ⟨by simp, by simpa using hfind⟩
    intro l
    induction l using List.reverseRecOn with
    | nil => simp
    | append_singleton l x ih =>
      simp only [List.foldl_append, List.foldl_cons, List.foldl_nil]
      generalize l.foldl _ _ = r at ih ⊢
      obtain ⟨hbest, hmax⟩ := ih
      have hkeep : ∀ c, r.1 = some c → ∃ p, versionParts c.cycle = some p ∧ p.length = r.2 ∧
          (l ++ [x]).find? (fun d => versionParts d.cycle = some p) = some c := by
        intro c hc
        obtain ⟨p, hp, hlen, hfind⟩ := hbest c hc
        exact ⟨p, hp, hlen, by rw [List.find?_append, hfind]; rfl⟩
      unfold longerLine
      cases hx : versionParts x.cycle with
      | none =>
        refine ⟨hkeep, fun d hd p hp => ?_⟩
        rcases List.mem_append.mp hd with hd | hd
        · exact hmax d hd p hp
        · rw [List.mem_singleton.mp hd, hx] at hp
          simp at hp
      | some q =>
        dsimp only
        split_ifs with hq
        · obtain ⟨hqlen, hlt, htake⟩ := hq
          refine ⟨fun c hc => ?_, fun d hd p hp hpl hpt => ?_⟩
          · obtain rfl := Option.some.inj hc
            refine ⟨q, hx, rfl, ?_⟩
            have hnone : l.find? (fun d => versionParts d.cycle = some q) = none := by
              rw [List.find?_eq_none]
              intro d hd hdq
              have := hmax d hd q (by simpa using hdq) hqlen htake
              omega
            rw [List.find?_append, hnone]
            simp [hx]
          · rcases List.mem_append.mp hd with hd | hd
            · exact (hmax d hd p hp hpl hpt).trans hlt.le
            · rw [List.mem_singleton.mp hd, hx] at hp
              exact (congrArg List.length (Option.some.inj hp)).ge
        · refine ⟨hkeep, fun d hd p hp hpl hpt => ?_⟩
          rcases List.mem_append.mp hd with hd | hd
          · exact hmax d hd p hp hpl hpt
          · rw [List.mem_singleton.mp hd, hx] at hp
            obtain rfl := Option.some.inj hp
            by_contra hlt
            exact hq ⟨hpl, by omega, hpt⟩

/-- The line that a version predates is the oldest one. -/
theorem predatesCycles_eq_some {v : String} (h : predatesCycles v cycles now = some c) :
    ∃ p, oldestCycle cycles = some (c, p) := by
  unfold predatesCycles at h
  split at h
  · rename_i v c' p hv hc
    split_ifs at h
    obtain rfl := Option.some.inj h
    exact ⟨p, hc⟩
  · simp at h

/-- Versions that predate the lines predate one line. -/
theorem predatesCycles_unique {v w : String} {o o' : Cycle} (h : predatesCycles v cycles now = some o)
    (h' : predatesCycles w cycles now = some o') : o = o' := by
  obtain ⟨p, hp⟩ := predatesCycles_eq_some h
  obtain ⟨p', hp'⟩ := predatesCycles_eq_some h'
  rw [hp] at hp'
  exact (Prod.mk.inj (Option.some.inj hp')).1

/-- What the key of an install's group says: its release line, that it is older than every line, or
that it has no line. -/
theorem groupKey_cases (now : Time) (i : AddOnInstall) :
    (∃ c, cycleFor i.version a.cycles = some c ∧ groupKey a now i = c.cycle) ∨
    (∃ o, cycleFor i.version a.cycles = none ∧ predatesCycles i.version a.cycles now = some o ∧
      groupKey a now i = belowPrefix ++ o.cycle) ∨
    (cycleFor i.version a.cycles = none ∧ predatesCycles i.version a.cycles now = none ∧
      groupKey a now i = "") := by
  unfold groupKey
  cases hc : cycleFor i.version a.cycles with
  | some c => exact .inl ⟨c, rfl, rfl⟩
  | none =>
    cases hp : predatesCycles i.version a.cycles now with
    | some o => exact .inr (.inl ⟨o, rfl, rfl, rfl⟩)
    | none => exact .inr (.inr ⟨rfl, rfl, rfl⟩)

/-- The line that judges an install follows from the key of its group. -/
theorem line_eq_of_groupKey {a : AddOn} {i j : AddOnInstall} (h : groupKey a now i = groupKey a now j) :
    cycleFor i.version a.cycles = cycleFor j.version a.cycles ∧
      (cycleFor i.version a.cycles = none →
        predatesCycles i.version a.cycles now = predatesCycles j.version a.cycles now) := by
  obtain ⟨c, hci, hki⟩ | ⟨o, hci, hpi, hki⟩ | ⟨hci, hpi, hki⟩ := groupKey_cases a now i <;>
    obtain ⟨d, hcj, hkj⟩ | ⟨o', hcj, hpj, hkj⟩ | ⟨hcj, hpj, hkj⟩ := groupKey_cases a now j <;>
    rw [hki, hkj] at h
  · -- Two lines of one text: the first listed with its components is both.
    obtain ⟨-, hfind⟩ := cycleFor_find hci
    obtain ⟨-, hfind'⟩ := cycleFor_find hcj
    rw [← h, hfind] at hfind'
    rw [hci, hcj, hfind']
    exact ⟨rfl, by simp⟩
  · exact absurd (h ▸ versionParts_below o'.cycle) (cycleFor_find hci).1
  · exact absurd (h ▸ versionParts_empty) (cycleFor_find hci).1
  · exact absurd (h ▸ versionParts_below o.cycle) (cycleFor_find hcj).1
  · -- Only the oldest line is predated.
    rw [hci, hcj, hpi, hpj]
    exact ⟨rfl, fun _ => congrArg some (predatesCycles_unique hpi hpj)⟩
  · exact absurd (congrArg String.toList h) (by simp [belowPrefix])
  · exact absurd (h ▸ versionParts_empty) (cycleFor_find hcj).1
  · exact absurd (congrArg String.toList h) (by simp [belowPrefix])
  · rw [hci, hcj, hpi, hpj]
    exact ⟨rfl, fun _ => rfl⟩

/-- The version a group is judged at is of an install of the group. -/
theorem exists_oldest {ins : List AddOnInstall} (h : ins ≠ []) :
    ∃ i ∈ ins, i.version = oldestVersion (ins.map (·.version)) := by
  have hne : ins.map (·.version) ≠ [] := by simpa using h
  obtain ⟨i, hi, hv⟩ := List.mem_map.mp (oldestVersion_mem hne)
  exact ⟨i, hi, hv⟩

/-- The groups of an add-on's installs are those of one key, each as a subject. -/
theorem groupInstalls_snd (ins : List AddOnInstall) (node : Bool) (now : Time) :
    (groupInstalls a ins node now).2 = (groupOn (groupKey a now) ins).map fun g =>
      newAddOnSubject a.displayName g.2 (g.1 ≠ "" && !hasPrefix g.1 belowPrefix) node := by
  unfold groupInstalls
  dsimp only
  split
  · rename_i g hg
    rw [hg]
  · rfl

end UpgradeScope
