import UpgradeScope.Server.Folds
import UpgradeScope.Lib.Merging

/-!
# Notifications over whole runs

What a run of passes over one cluster and target announces, said from the reports alone. A blocker
stands after a pass when the pass reports it, or when it stood before, is absent from the report and
the report could not have seen it (`stands`); a became-ready is owed while a blocker stands, and after
that through unknown passes (`owed`). The stored baseline tracks both (`Tracks`, `tracks_after`), so a
pass announces a blocker exactly when it did not stand before, and readiness exactly when it is owed.
A run is the list of its passes, the latest first.
-/

namespace UpgradeScope.Notify

open Go Sorting

/-! ## What stands and what is owed, from the reports -/

/-- The report has a finding of that key, at any severity. -/
def Pass.Present (p : Pass) (k : String) : Prop := k ∈ p.report.findings.map (·.key)

instance (p : Pass) (k : String) : Decidable (p.Present k) :=
  inferInstanceAs (Decidable (k ∈ p.report.findings.map (·.key)))

/-- The report has a blocker of that key. -/
def Pass.BlockerIn (p : Pass) (k : String) : Prop :=
  ∃ f ∈ p.report.findings, f.key = k ∧ f.severity = .blocker

/-- The finding of a key in the latest report that has one, and the gaps of that report. -/
def lastSeen : List Pass → String → Option (Finding × List CapabilityGap)
  | [], _ => none
  | p :: ps, k =>
    match p.report.findings.find? (·.key = k) with
    | some f => some (f, p.report.notAssessed)
    | none => lastSeen ps k

/-- A key as a pass judges whether it is held: with its category when last present and the end of
the hold on it so far. -/
def heldHead (f : Finding) (k : String) (holdUntil : Time) : FindingHead :=
  ⟨f.category, .blocker, k, "", [], holdUntil, false, 0⟩

/-- When the restart hold on a key ends after a run: none for a key the last report has, else what
the last pass makes of the end so far. -/
def holdEnd : List Pass → String → Time
  | [], _ => 0
  | p :: ps, k =>
    if p.Present k then 0
    else match lastSeen ps k with
      | some (f, _) => p.hold.until (heldHead f k (holdEnd ps k))
      | none => 0

/-- A pass could not have seen a key that was present before: the key is a deprecated caller under a
restart hold, or a gap of its report hides it other than a capability already missing when the key
was last present. -/
def CouldNotSee (p : Pass) (ps : List Pass) (k : String) : Prop :=
  ∃ f gaps, lastSeen ps k = some (f, gaps) ∧
    (p.hold.until (heldHead f k (holdEnd ps k)) ≠ 0 ∨
      ∃ c ∈ hiddenBy p.report.notAssessed f.category k, c ∉ hiddenBy gaps f.category k)

/-- A key is carried over a pass: absent from its report, which could not have seen it. -/
def CarriedOver (p : Pass) (ps : List Pass) (k : String) : Prop :=
  ¬ p.Present k ∧ CouldNotSee p ps k

/-- A key stands after a run. -/
def stands : List Pass → String → Prop
  | [], _ => False
  | p :: ps, k => p.BlockerIn k ∨ stands ps k ∧ CarriedOver p ps k

/-- A became-ready is owed after a run. -/
def owed : List Pass → Prop
  | [] => False
  | p :: ps =>
    (∃ k, stands (p :: ps) k) ∨
      owed ps ∧ p.report.verdict = .unknown ∧ ¬ ∃ k, stands (p :: ps) k

/-- A key is a category, or the category, a slash and a discriminator. -/
def StartsWith (key : String) (c : Category) : Prop := key = c.name ∨ hasPrefix key (c.name ++ "/")

/-- A pass as the server makes them: a notification baseline whose findings have distinct keys that
are not empty and start with their category. -/
structure Pass.WellFormed (p : Pass) : Prop where
  /-- It is a notification baseline. -/
  baseline : notificationBaseline p.report = true
  /-- No two findings share a key. -/
  distinct : (p.report.findings.map (·.key)).Nodup
  /-- No key is empty. -/
  named : ∀ f ∈ p.report.findings, f.key ≠ ""
  /-- Every key starts with its category. -/
  category : ∀ f ∈ p.report.findings, StartsWith f.key f.category

/-- The changes and the carried heads of a pass after a run. -/
def delta (X : External) (S : Store) (p : Pass) (ps : List Pass) : List Change × List FindingHead :=
  match after X S ps with
  | none => ([], [])
  | some stored => computeDelta X stored.baseline p.report (unassessedIn p.report p.hold)

/-- Every report of a run, with the heads it carries, is within the report size limit. -/
def Fits (X : External) (S : Store) : List Pass → Prop
  | [] => True
  | p :: ps =>
    S.encodedLen p.report (p.hold.stamp (delta X S p ps).2) ≤ S.maxReportBytes ∧ Fits X S ps

/-- The heads of the baseline after a run, none before the first pass. -/
def baselineAfter (X : External) (S : Store) (ps : List Pass) : List FindingHead :=
  ((after X S ps).map StoredHeads.baseline).getD []

/-- A pass can write the holds on what it takes over of a baseline. -/
structure Pass.WritesHolds (p : Pass) (ps : List Pass) (b : List FindingHead) : Prop where
  /-- The hold on a blocker its report lacks is none, or ends in a year of four digits. -/
  carried : ∀ h ∈ b, h.blocker = true → ¬ p.Present h.key → (p.hold.stamped h).marshals = true
  /-- So is the hold on a blocker that an unknown pass with nothing standing keeps as resolved. -/
  resolved : p.report.verdict = .unknown → (¬ ∃ k, stands (p :: ps) k) →
    ∀ h ∈ b, h.severity = .blocker → (p.hold.stamped h.asResolved).marshals = true

/-- Every pass of a run can write the holds on what it takes over of the baseline before it. -/
def HoldsWritten (X : External) (S : Store) : List Pass → Prop
  | [] => True
  | p :: ps => p.WritesHolds ps (baselineAfter X S ps) ∧ HoldsWritten X S ps

/-- What a pass carries is stored. -/
def Kept (X : External) (S : Store) (p : Pass) (ps : List Pass) : Prop :=
  keepCarried S p.report (p.hold.stamp (delta X S p ps).2) = p.hold.stamp (delta X S p ps).2

/-! ## The invariant -/

/-- The baseline stored after a run tracks what stands and what is owed. -/
structure Tracks (ps : List Pass) (b : List FindingHead) : Prop where
  /-- The blockers of the baseline are the keys that stand. -/
  stands_iff : ∀ k, (∃ h ∈ b, h.blocker = true ∧ h.key = k) ↔ stands ps k
  /-- A blocker of the baseline knows the finding it was last seen as, what it was seen without and
  the end of its hold. -/
  head : ∀ h ∈ b, h.blocker = true → ∃ f gaps, lastSeen ps h.key = some (f, gaps) ∧
    h.category = f.category ∧ h.seenWithout = hiddenBy gaps f.category h.key ∧
    h.holdUntil = holdEnd ps h.key
  /-- Every head has a key that starts with its category. -/
  named : ∀ h ∈ b, h.key ≠ "" ∧ StartsWith h.key h.category
  /-- A resolved head was a blocker. -/
  resolved : ∀ h ∈ b, h.resolved = true → h.severity = .blocker
  /-- A became-ready is owed while the baseline has a blocker, resolved or not. -/
  owed_iff : (∃ h ∈ b, h.severity = .blocker) ↔ owed ps

variable {p : Pass} {ps : List Pass} {b : List FindingHead} (c : CallsHold) {h : FindingHead}

/-- The end of a hold reads only the category, the key and the end so far. -/
theorem until_congr {h h' : FindingHead} (hc : h.category = h'.category) (hk : h.key = h'.key)
    (hu : h.holdUntil = h'.holdUntil) : c.until h = c.until h' := by
  unfold CallsHold.until
  rw [hc, hk, hu]

/-- The end of the hold on a key reads the category it was last seen at, and nothing else of the finding. -/
theorem until_heldHead_congr {f f' : Finding} (h : f.category = f'.category) (k : String) (u : Time) :
    c.until (heldHead f k u) = c.until (heldHead f' k u) :=
  until_congr c h rfl rfl

/-- A report with distinct keys finds a finding under its own key. -/
theorem find?_key (hp : p.WellFormed) {f : Finding} (hf : f ∈ p.report.findings) :
    p.report.findings.find? (·.key = f.key) = some f :=
  Merging.find?_key_of_mem hp.distinct hf

/-- A key the report does not have was last seen before. -/
theorem lastSeen_cons_of_not_present {k : String} (h : ¬ p.Present k) :
    lastSeen (p :: ps) k = lastSeen ps k := by
  have hnone : p.report.findings.find? (·.key = k) = none := by
    rw [List.find?_eq_none]
    intro f hf hk
    exact h (List.mem_map.mpr ⟨f, hf, by simpa using hk⟩)
  rw [lastSeen, hnone]

/-- A pass does not see a tracked blocker exactly when it could not have. -/
theorem unassessedIn_iff (hb : Tracks ps b) (hh : h ∈ b) (hbl : h.blocker = true) :
    unassessedIn p.report p.hold h = true ↔ CouldNotSee p ps h.key := by
  obtain ⟨f, gaps, hseen, hcat, hwithout, hhold⟩ := hb.head h hh hbl
  have huntil : p.hold.until h = p.hold.until (heldHead f h.key (holdEnd ps h.key)) :=
    until_congr _ hcat rfl hhold
  unfold unassessedIn CouldNotSee
  rw [ident_of_key (hb.named h hh).1, huntil, hcat, hwithout]
  simp only [Bool.or_eq_true, decide_eq_true_eq, List.any_eq_true]
  constructor
  · intro hor
    exact ⟨f, gaps, hseen, hor⟩
  · rintro ⟨f', gaps', hseen', hor⟩
    rw [hseen] at hseen'
    obtain ⟨rfl, rfl⟩ := Prod.mk.inj (Option.some.inj hseen')
    exact hor

/-- The keys of a report with named findings, as the delta reads them. -/
theorem idents_eq (hp : p.WellFormed) :
    p.report.findings.map (fun f => (headOf f).ident) = p.report.findings.map (·.key) := by
  refine List.map_congr_left fun f hf => ?_
  exact ident_of_key (h := headOf f) (hp.named f hf)

/-- The heads a pass carries, of a tracked baseline: a head of the baseline, gone from the report. -/
theorem mem_carriedOf (hb : Tracks ps b) (hp : p.WellFormed)
    (hh : h ∈ carriedOf b p.report (unassessedIn p.report p.hold)) :
    h ∈ b ∧ (h.blocker = true ∨ h.eolApproaching = true) ∧ ¬ p.Present h.key ∧
      unassessedIn p.report p.hold h = true := by
  have hmem := mem_of_mem_distinctOn hh
  rw [List.mem_filter] at hmem
  obtain ⟨hin, hcond⟩ := hmem
  rw [idents_eq hp, ident_of_key (hb.named h hin).1] at hcond
  simp only [Bool.and_eq_true, Bool.or_eq_true, decide_eq_true_eq] at hcond
  exact ⟨hin, hcond.1.1, hcond.1.2, hcond.2⟩

/-- A key has a carried blocker exactly when it stood and is carried over the pass. -/
theorem exists_carried_iff (hb : Tracks ps b) (hp : p.WellFormed) (k : String) :
    (∃ h ∈ carriedOf b p.report (unassessedIn p.report p.hold), h.blocker = true ∧ h.key = k) ↔
      stands ps k ∧ CarriedOver p ps k := by
  constructor
  · rintro ⟨h, hh, hbl, rfl⟩
    obtain ⟨hin, -, hgone, hun⟩ := mem_carriedOf hb hp hh
    exact ⟨(hb.stands_iff _).mp ⟨h, hin, hbl, rfl⟩, hgone, (unassessedIn_iff hb hin hbl).mp hun⟩
  · rintro ⟨hstood, hgone, hnot⟩
    obtain ⟨h, hin, hbl, rfl⟩ := (hb.stands_iff k).mpr hstood
    have hun := (unassessedIn_iff hb hin hbl).mpr hnot
    have hfil : h ∈ b.filter fun h => (h.blocker || h.eolApproaching) &&
        h.ident ∉ p.report.findings.map (fun f => (headOf f).ident) &&
          unassessedIn p.report p.hold h := by
      refine List.mem_filter.mpr ⟨hin, ?_⟩
      rw [idents_eq hp, ident_of_key (hb.named h hin).1]
      simp only [Bool.and_eq_true, Bool.or_eq_true, decide_eq_true_eq]
      exact ⟨⟨.inl hbl, hgone⟩, hun⟩
    obtain ⟨h', hh', hsig⟩ := exists_mem_distinctOn FindingHead.signature hfil
    obtain ⟨hin', hor, -, -⟩ := mem_carriedOf hb hp hh'
    obtain ⟨hsev, hid⟩ := Prod.mk.inj hsig
    rw [ident_of_key (hb.named h' hin').1, ident_of_key (hb.named h hin).1] at hid
    refine ⟨h', hh', ?_, hid⟩
    -- The head kept for the signature has the blocker's severity, so it is no approaching end of life.
    rcases hor with hbl' | heol
    · exact hbl'
    · rw [blocker_iff] at hbl
      simp [FindingHead.eolApproaching, hsev, hbl.1] at heol

/-! ## One pass -/

section Step

variable {X : External} {S : Store}

/-- A pass carries forward what `computeDelta` says of the baseline's heads, the first one included,
whose baseline has none. -/
theorem delta_snd (p : Pass) (ps : List Pass) :
    (delta X S p ps).2 =
      (computeDelta X (baselineAfter X S ps) p.report (unassessedIn p.report p.hold)).2 := by
  unfold delta baselineAfter
  cases after X S ps with
  | none => simp [computeDelta, carriedOf, resolvedHeads, distinctOn, distinctFrom]
  | some stored => rfl

/-- The head of a report's own finding in the baseline of its pass. -/
def ownHead (p : Pass) (f : Finding) : FindingHead :=
  ⟨f.category, f.severity, f.key, "", hiddenBy p.report.notAssessed f.category f.key, 0, false, 0⟩

/-- A head carried over a pass, in the baseline of that pass. -/
def carriedHead (p : Pass) (h : FindingHead) : FindingHead :=
  { p.hold.stamped h with title := "" }

variable {p : Pass} {ps : List Pass} {h : FindingHead} {b : List FindingHead}

/-- What a pass carries: the heads it could not see and, when it is unknown and nothing is left, the
blockers it resolved. -/
theorem mem_delta_snd (hh : h ∈ (delta X S p ps).2) :
    h ∈ carriedOf (baselineAfter X S ps) p.report (unassessedIn p.report p.hold) ∨
      (((p.report.findings.filter fun f => (headOf f).blocker).isEmpty &&
        !(carriedOf (baselineAfter X S ps) p.report (unassessedIn p.report p.hold)).any
          FindingHead.blocker) = true ∧ p.report.verdict = .unknown) ∧
        h ∈ resolvedHeads (baselineAfter X S ps) := by
  rw [delta_snd] at hh
  rcases List.mem_append.mp hh with hh | hh
  · exact .inl hh
  · split_ifs at hh with hcond
    · rw [Bool.and_eq_true, decide_eq_true_eq] at hcond
      exact .inr ⟨hcond, hh⟩
    · simp at hh

/-- A resolved head is a blocker of the baseline, marked. -/
theorem mem_resolvedHeads (hh : h ∈ resolvedHeads b) :
    ∃ g ∈ b, g.severity = .blocker ∧ h = g.asResolved := by
  obtain ⟨g, hg, rfl⟩ := List.mem_map.mp hh
  obtain ⟨hin, hsev⟩ := List.mem_filter.mp (mem_of_mem_distinctOn hg)
  exact ⟨g, hin, by simpa using hsev, rfl⟩

/-- The heads carried by a pass have a key. -/
theorem key_ne_of_mem_delta (hb : Tracks ps (baselineAfter X S ps)) (hp : p.WellFormed) (hh : h ∈ (delta X S p ps).2) :
    h.key ≠ "" := by
  rcases mem_delta_snd hh with hh | ⟨-, hh⟩
  · exact (hb.named h (mem_carriedOf hb hp hh).1).1
  · obtain ⟨g, hg, -, rfl⟩ := mem_resolvedHeads hh
    exact (hb.named g hg).1

/-- The heads of the baseline after a pass: its own findings' and the ones it carries. -/
theorem mem_baselineAfter_cons (hb : Tracks ps (baselineAfter X S ps)) (hp : p.WellFormed) (hkept : Kept X S p ps) :
    h ∈ baselineAfter X S (p :: ps) ↔
      (∃ f ∈ p.report.findings, h = ownHead p f) ∨ ∃ g ∈ (delta X S p ps).2, h = carriedHead p g := by
  have hafter : baselineAfter X S (p :: ps) =
      ((p.report.findings.map fun f => readHead (headOf f)).map fun f =>
        { f with seenWithout := hiddenBy p.report.notAssessed f.category f.ident }) ++
        (p.hold.stamp (delta X S p ps).2).map readHead := by
    unfold baselineAfter after step
    rw [if_neg (by simp [hp.baseline])]
    simp only [Option.map_some, Option.getD_some, StoredHeads.baseline]
    congr 2
  rw [hafter, List.mem_append]
  refine or_congr ?_ ?_
  · simp only [List.mem_map, exists_exists_and_eq_and]
    refine exists_congr fun f => and_congr_right fun hf => ?_
    have hk := hp.named f hf
    simp only [readHead, headOf, hk, ne_eq, not_false_eq_true, if_true, FindingHead.ident, ownHead,
      eq_comm]
  · simp only [CallsHold.stamp, List.mem_map, exists_exists_and_eq_and]
    refine exists_congr fun g => and_congr_right fun hg => ?_
    have hk := key_ne_of_mem_delta hb hp hg
    simp only [CallsHold.stamped, readHead, hk, ne_eq, not_false_eq_true, if_true, carriedHead, eq_comm]

/-- A blocker stands after a pass exactly when the report has one, or a carried head is one. -/
theorem noneLeft_iff (hb : Tracks ps b) (hp : p.WellFormed) :
    ((p.report.findings.filter fun f => (headOf f).blocker).isEmpty &&
      !(carriedOf b p.report (unassessedIn p.report p.hold)).any FindingHead.blocker) = true ↔
      ¬ ∃ k, stands (p :: ps) k := by
  simp only [Bool.and_eq_true, List.isEmpty_iff, List.filter_eq_nil_iff, Bool.not_eq_true',
    List.any_eq_false]
  constructor
  · rintro ⟨hown, hcar⟩ ⟨k, hk⟩
    rcases hk with ⟨f, hf, -, hsev⟩ | hk
    · exact hown f hf (by simp [FindingHead.blocker, headOf, hsev])
    · obtain ⟨h, hh, hbl, -⟩ := (exists_carried_iff hb hp k).mpr hk
      exact hcar h hh hbl
  · intro hnone
    refine ⟨fun f hf hbl => ?_, fun h hh hbl => ?_⟩
    · exact hnone ⟨f.key, .inl ⟨f, hf, rfl, (blocker_iff.mp hbl).1⟩⟩
    · exact hnone ⟨h.key, .inr ((exists_carried_iff hb hp h.key).mp ⟨h, hh, hbl, rfl⟩)⟩

/-- A head that is no deprecated caller is not held, so it is written. -/
theorem stamped_marshals_of_category {c : CallsHold} (hcat : h.category ≠ .deprecatedAPIInUse) :
    (c.stamped h).marshals = true := by
  have huntil : c.until h = 0 := by
    unfold CallsHold.until
    rw [if_pos (.inl hcat)]
  simp [FindingHead.marshals, CallsHold.stamped, huntil]

/-- A pass that can write the holds on what it takes over, and whose report stays within the limit, stores what it
carries. -/
theorem kept_of_writesHolds (hb : Tracks ps (baselineAfter X S ps)) (hp : p.WellFormed)
    (hwrites : p.WritesHolds ps (baselineAfter X S ps)) (hfit : Fits X S (p :: ps)) :
    Kept X S p ps := by
  have hall : (p.hold.stamp (delta X S p ps).2).all FindingHead.marshals = true := by
    rw [List.all_eq_true]
    intro x hx
    obtain ⟨g, hg, rfl⟩ := List.mem_map.mp hx
    rcases mem_delta_snd hg with hg | ⟨⟨hnone, hunk⟩, hg⟩
    · obtain ⟨hin, hor, hgone, -⟩ := mem_carriedOf hb hp hg
      rcases hor with hbl | heol
      · exact hwrites.carried g hin hbl hgone
      · exact stamped_marshals_of_category (by rw [(eolApproaching_iff.mp heol).1]; decide)
    · obtain ⟨g', hin, hsev, rfl⟩ := mem_resolvedHeads hg
      exact hwrites.resolved hunk ((noneLeft_iff hb hp).mp hnone) g' hin hsev
  unfold Kept keepCarried
  rw [if_neg (not_not.mpr hall), if_neg (not_lt.mpr hfit.1)]

/-- A blocker's own head, and a blocker carried, in the baseline after a pass. -/
theorem blocker_cases (hb : Tracks ps (baselineAfter X S ps)) (hp : p.WellFormed) (hkept : Kept X S p ps)
    (hh : h ∈ baselineAfter X S (p :: ps)) (hbl : h.blocker = true) :
    (∃ f ∈ p.report.findings, f.severity = .blocker ∧ h = ownHead p f) ∨
      ∃ g ∈ carriedOf (baselineAfter X S ps) p.report (unassessedIn p.report p.hold),
        g.blocker = true ∧ h = carriedHead p g := by
  rcases (mem_baselineAfter_cons hb hp hkept).mp hh with ⟨f, hf, rfl⟩ | ⟨g, hg, rfl⟩
  · exact .inl ⟨f, hf, (blocker_iff.mp hbl).1, rfl⟩
  · rcases mem_delta_snd hg with hg | ⟨-, hg⟩
    · exact .inr ⟨g, hg, blocker_iff.mpr (blocker_iff.mp hbl), rfl⟩
    · obtain ⟨g', -, -, rfl⟩ := mem_resolvedHeads hg
      simp [FindingHead.blocker, carriedHead, CallsHold.stamped, FindingHead.asResolved] at hbl

/-- The blockers of the baseline after a pass are the keys that stand after it. -/
theorem stands_iff_cons (hb : Tracks ps (baselineAfter X S ps)) (hp : p.WellFormed) (hkept : Kept X S p ps) (k : String) :
    (∃ h ∈ baselineAfter X S (p :: ps), h.blocker = true ∧ h.key = k) ↔ stands (p :: ps) k := by
  constructor
  · rintro ⟨h, hh, hbl, rfl⟩
    rcases blocker_cases hb hp hkept hh hbl with ⟨f, hf, hsev, rfl⟩ | ⟨g, hg, hgbl, rfl⟩
    · exact .inl ⟨f, hf, rfl, hsev⟩
    · exact .inr ((exists_carried_iff hb hp g.key).mp ⟨g, hg, hgbl, rfl⟩)
  · rintro (⟨f, hf, rfl, hsev⟩ | hk)
    · refine ⟨ownHead p f, (mem_baselineAfter_cons hb hp hkept).mpr (.inl ⟨f, hf, rfl⟩), ?_, rfl⟩
      exact blocker_iff.mpr ⟨hsev, rfl⟩
    · obtain ⟨g, hg, hbl, rfl⟩ := (exists_carried_iff hb hp k).mpr hk
      refine ⟨carriedHead p g, (mem_baselineAfter_cons hb hp hkept).mpr (.inr ⟨g, ?_, rfl⟩),
        blocker_iff.mpr (blocker_iff.mp hbl), rfl⟩
      rw [delta_snd]
      exact List.mem_append_left _ hg

/-- A blocker of the baseline after a pass knows the finding it was last seen as. -/
theorem head_cons (hb : Tracks ps (baselineAfter X S ps)) (hp : p.WellFormed) (hkept : Kept X S p ps)
    (hh : h ∈ baselineAfter X S (p :: ps)) (hbl : h.blocker = true) :
    ∃ f gaps, lastSeen (p :: ps) h.key = some (f, gaps) ∧ h.category = f.category ∧
      h.seenWithout = hiddenBy gaps f.category h.key ∧ h.holdUntil = holdEnd (p :: ps) h.key := by
  rcases blocker_cases hb hp hkept hh hbl with ⟨f, hf, -, rfl⟩ | ⟨g, hg, hgbl, rfl⟩
  · -- The report has the key, so it was last seen there and no hold is on it.
    have hpres : p.Present f.key := List.mem_map.mpr ⟨f, hf, rfl⟩
    refine ⟨f, p.report.notAssessed, ?_, rfl, rfl, ?_⟩
    · show lastSeen (p :: ps) f.key = _
      rw [lastSeen, find?_key hp hf]
    · show (0 : Time) = holdEnd (p :: ps) f.key
      rw [holdEnd, if_pos hpres]
  · obtain ⟨hin, -, hgone, -⟩ := mem_carriedOf hb hp hg
    obtain ⟨f, gaps, hseen, hcat, hwithout, hhold⟩ := hb.head g hin hgbl
    refine ⟨f, gaps, ?_, hcat, hwithout, ?_⟩
    · show lastSeen (p :: ps) g.key = _
      rw [lastSeen_cons_of_not_present hgone, hseen]
    · show p.hold.until g = holdEnd (p :: ps) g.key
      rw [holdEnd, if_neg hgone, hseen]
      exact until_congr _ hcat rfl hhold

/-- The baseline has a blocker after a pass, resolved or not, exactly when a became-ready is owed. -/
theorem owed_iff_cons (hb : Tracks ps (baselineAfter X S ps)) (hp : p.WellFormed) (hkept : Kept X S p ps) :
    (∃ h ∈ baselineAfter X S (p :: ps), h.severity = .blocker) ↔ owed (p :: ps) := by
  constructor
  · rintro ⟨h, hh, hsev⟩
    by_cases hstands : ∃ k, stands (p :: ps) k
    · exact .inl hstands
    -- Nothing stands, so the head is one the unknown pass saw resolved.
    refine .inr ?_
    have hres : h.resolved = true := by
      by_contra hres
      exact hstands ⟨h.key, (stands_iff_cons hb hp hkept _).mp
        ⟨h, hh, blocker_iff.mpr ⟨hsev, by simpa using hres⟩, rfl⟩⟩
    rcases (mem_baselineAfter_cons hb hp hkept).mp hh with ⟨f, hf, rfl⟩ | ⟨g, hg, rfl⟩
    · simp [ownHead] at hres
    · rcases mem_delta_snd hg with hg | ⟨⟨-, hunk⟩, hg⟩
      · obtain ⟨-, hor, -, -⟩ := mem_carriedOf hb hp hg
        have hgsev : g.severity = .blocker := hsev
        have hgres : g.resolved = true := hres
        simp [FindingHead.blocker, FindingHead.eolApproaching, hgsev, hgres] at hor
      · obtain ⟨g', hg', hsev', -⟩ := mem_resolvedHeads hg
        exact ⟨hb.owed_iff.mp ⟨g', hg', hsev'⟩, hunk, hstands⟩
  · rintro (⟨k, hk⟩ | ⟨howed, hunk, hnone⟩)
    · obtain ⟨h, hh, hbl, -⟩ := (stands_iff_cons hb hp hkept k).mpr hk
      exact ⟨h, hh, (blocker_iff.mp hbl).1⟩
    · obtain ⟨g, hg, hsev⟩ := hb.owed_iff.mpr howed
      have hfil : g ∈ (baselineAfter X S ps).filter (·.severity = .blocker) :=
        List.mem_filter.mpr ⟨hg, by simpa using hsev⟩
      obtain ⟨g', hg', -⟩ := exists_mem_distinctOn FindingHead.ident hfil
      have hg'sev : g'.severity = .blocker := by
        simpa using (List.mem_filter.mp (mem_of_mem_distinctOn hg')).2
      refine ⟨carriedHead p g'.asResolved,
        (mem_baselineAfter_cons hb hp hkept).mpr (.inr ⟨_, ?_, rfl⟩), hg'sev⟩
      rw [delta_snd]
      refine List.mem_append_right _ ?_
      rw [if_pos]
      · exact List.mem_map.mpr ⟨g', hg', rfl⟩
      · rw [Bool.and_eq_true]
        exact ⟨(noneLeft_iff hb hp).mpr hnone, by simpa using hunk⟩

/-- A pass keeps the invariant of the notifications. -/
theorem tracks_cons (hb : Tracks ps (baselineAfter X S ps)) (hp : p.WellFormed) (hkept : Kept X S p ps) :
    Tracks (p :: ps) (baselineAfter X S (p :: ps)) where
  stands_iff := stands_iff_cons hb hp hkept
  head := fun _ hh hbl => head_cons hb hp hkept hh hbl
  owed_iff := owed_iff_cons hb hp hkept
  named := by
    intro h hh
    rcases (mem_baselineAfter_cons hb hp hkept).mp hh with ⟨f, hf, rfl⟩ | ⟨g, hg, rfl⟩
    · exact ⟨hp.named f hf, hp.category f hf⟩
    · rcases mem_delta_snd hg with hg | ⟨-, hg⟩
      · exact hb.named g (mem_carriedOf hb hp hg).1
      · obtain ⟨g', hg', -, rfl⟩ := mem_resolvedHeads hg
        exact hb.named g' hg'
  resolved := by
    intro h hh hres
    rcases (mem_baselineAfter_cons hb hp hkept).mp hh with ⟨f, hf, rfl⟩ | ⟨g, hg, rfl⟩
    · simp [ownHead] at hres
    · rcases mem_delta_snd hg with hg | ⟨-, hg⟩
      · exact hb.resolved g (mem_carriedOf hb hp hg).1 hres
      · obtain ⟨g', -, hsev, rfl⟩ := mem_resolvedHeads hg
        exact hsev

/-- Before the first pass nothing stands and nothing is owed. -/
theorem tracks_nil : Tracks [] (baselineAfter X S []) := by
  constructor <;> simp [baselineAfter, after, stands, owed]

/-- A key that stands was a blocker in a report of the run. -/
theorem blockerIn_of_stands : ∀ {ps : List Pass} {k : String}, stands ps k → ∃ p ∈ ps, p.BlockerIn k
  | [], _, h => absurd h id
  | p :: _, _, .inl h => ⟨p, List.mem_cons_self, h⟩
  | _ :: _, _, .inr h => by
    obtain ⟨q, hq, hk⟩ := blockerIn_of_stands h.1
    exact ⟨q, List.mem_cons_of_mem _ hq, hk⟩

/-- The stored baseline tracks what stands and what is owed after every run. -/
theorem tracks_after : ∀ ps : List Pass, (∀ p ∈ ps, p.WellFormed) → Fits X S ps → HoldsWritten X S ps →
    Tracks ps (baselineAfter X S ps)
  | [], _, _, _ => tracks_nil
  | p :: ps, hwf, hfit, hwritten => by
    have hp := hwf p List.mem_cons_self
    have hb := tracks_after ps (fun q hq => hwf q (List.mem_cons_of_mem _ hq)) hfit.2 hwritten.2
    exact tracks_cons hb hp (kept_of_writesHolds hb hp hwritten.1 hfit)

/-! ## What a pass announces -/

/-- A pass that is not the first announces what `computeDelta` says. -/
theorem announced_eq (hp : p.WellFormed) (hps : ∀ q ∈ ps, q.WellFormed) (hne : ps ≠ []) :
    announced X S p ps =
      (computeDelta X (baselineAfter X S ps) p.report (unassessedIn p.report p.hold)).1 := by
  obtain ⟨q, qs, rfl⟩ := List.exists_cons_of_ne_nil hne
  have hq := (hps q List.mem_cons_self).baseline
  unfold announced step
  rw [if_neg (by simp [hp.baseline])]
  simp [baselineAfter, after, step, hq]

/-- The delta's changes: new blockers, readiness, and approaching ends of life. -/
theorem computeDelta_fst (prev : List FindingHead) (curr : Report) (un : FindingHead → Bool) :
    ∃ ready eol, (∀ c ∈ ready, c.kind = .becameReady) ∧ (∀ c ∈ eol, c.kind = .eolApproaching) ∧
      (computeDelta X prev curr un).1 =
        ((distinctOn (fun f => (headOf f).ident)
          (curr.findings.filter fun f => (headOf f).blocker)).filter fun f =>
            (headOf f).ident ∉ (prev.filter FindingHead.blocker).map FindingHead.ident &&
              !folds X (newCarriedFolds X (carriedOf prev curr un)) (headOf f).ident).map
          (change .newBlocker · [curr.target.string]) ++ ready ++ eol := by
  refine ⟨_, _, ?_, ?_, rfl⟩
  · intro c hc
    split_ifs at hc
    · rw [List.mem_singleton] at hc
      rw [hc]
    · simp at hc
  · intro c hc
    obtain ⟨f, -, rfl⟩ := List.mem_map.mp hc
    rfl

/-- How many new-blocker changes for a key a pass announces. -/
def newBlockerCount (X : External) (S : Store) (p : Pass) (ps : List Pass) (k : String) : ℕ :=
  (announced X S p ps).countP fun c => c.kind = .newBlocker ∧ c.key = k

/-- A key is news in a pass: a blocker of its report that did not stand before, and no deprecated
caller that folds into a key that stood and is carried over the pass. -/
def News (X : External) (p : Pass) (ps : List Pass) (k : String) : Prop :=
  p.BlockerIn k ∧ ¬ stands ps k ∧
    ¬ ∃ u, stands ps u ∧ CarriedOver p ps u ∧ foldsInto X k u = true

/-- The category an approaching end of life's key starts with. -/
theorem cut_of_eol (hs : StartsWith h.key h.category) (heol : h.eolApproaching = true) :
    (cut h.key '/').1 = Category.eolApproaching.name := by
  have hcat : h.category = .eolApproaching := by
    simp only [FindingHead.eolApproaching, decide_eq_true_eq] at heol
    exact heol.1
  rw [hcat] at hs
  rcases hs with hs | hs
  · rw [hs]
    decide
  · obtain ⟨t, ht⟩ := hasPrefix_iff.mp hs
    have := cut_append '/' Category.eolApproaching.name t (by decide)
    rw [show String.singleton '/' = "/" from rfl, ← ht] at this
    rw [this]

/-- The key of an approaching end of life is no usage key. -/
theorem not_foldsInto_eol {call : String} (hs : StartsWith h.key h.category) (heol : h.eolApproaching = true) :
    foldsInto X call h.key = false := by
  unfold foldsInto
  rw [cut_of_eol hs heol, if_pos (by decide)]

/-- The key of an approaching end of life is plain. -/
theorem plain_of_eol (hs : StartsWith h.key h.category) (heol : h.eolApproaching = true) : Plain h.key := by
  intro base hbase
  have h1 := cut_of_eol hs heol
  rw [cut_base hbase, cut_of_hasPrefix_removed (baseOfUnservedKey_some hbase).2] at h1
  exact absurd h1 (by decide)

/-- Whether a caller folds into what a pass carries, from the reports. -/
theorem folds_carried_iff (hb : Tracks ps b) (hp : p.WellFormed) (hplain : ∀ q ∈ ps, ∀ k, q.BlockerIn k → Plain k)
    (call : String) :
    folds X (newCarriedFolds X (carriedOf b p.report (unassessedIn p.report p.hold))) call = true ↔
      ∃ u, stands ps u ∧ CarriedOver p ps u ∧ foldsInto X call u = true := by
  have hident : ∀ h ∈ carriedOf b p.report (unassessedIn p.report p.hold), h.ident = h.key :=
    fun h hh => ident_of_key (hb.named h (mem_carriedOf hb hp hh).1).1
  rw [folds_iff]
  · constructor
    · rintro ⟨h, hh, hfold⟩
      rw [hident h hh] at hfold
      obtain ⟨hin, hor, -, -⟩ := mem_carriedOf hb hp hh
      rcases hor with hbl | heol
      · obtain ⟨hstood, hover⟩ := (exists_carried_iff hb hp h.key).mp ⟨h, hh, hbl, rfl⟩
        exact ⟨h.key, hstood, hover, hfold⟩
      · rw [not_foldsInto_eol (hb.named h hin).2 heol] at hfold
        simp at hfold
    · rintro ⟨u, hstood, hover, hfold⟩
      obtain ⟨h, hh, -, rfl⟩ := (exists_carried_iff hb hp u).mpr ⟨hstood, hover⟩
      exact ⟨h, hh, by rw [hident h hh]; exact hfold⟩
  · intro h hh
    rw [hident h hh]
    obtain ⟨hin, hor, -, -⟩ := mem_carriedOf hb hp hh
    rcases hor with hbl | heol
    · obtain ⟨q, hq, hk⟩ := blockerIn_of_stands ((hb.stands_iff h.key).mp ⟨h, hin, hbl, rfl⟩)
      exact hplain q hq h.key hk
    · exact plain_of_eol (hb.named h hin).2 heol

/-- A finding is not among the blockers of the baseline, and folds into nothing that a pass carries over. -/
def isNews (X : External) (S : Store) (p : Pass) (ps : List Pass) (f : Finding) : Bool :=
  (headOf f).ident ∉ ((baselineAfter X S ps).filter FindingHead.blocker).map FindingHead.ident &&
    !folds X (newCarriedFolds X (carriedOf (baselineAfter X S ps) p.report (unassessedIn p.report p.hold)))
      (headOf f).ident

/-- The blockers a pass announces, by key. -/
theorem newBlockerCount_eq (hp : p.WellFormed) (hps : ∀ q ∈ ps, q.WellFormed) (hne : ps ≠ []) (k : String) :
    newBlockerCount X S p ps k =
      ((distinctOn (fun f => (headOf f).ident)
        (p.report.findings.filter fun f => (headOf f).blocker)).filter (isNews X S p ps)).countP fun f => f.key = k := by
  obtain ⟨ready, eol, hready, heol, heq⟩ :=
    computeDelta_fst (X := X) (baselineAfter X S ps) p.report (unassessedIn p.report p.hold)
  unfold newBlockerCount
  rw [announced_eq hp hps hne, heq, List.countP_append, List.countP_append, List.countP_map]
  have h1 : ready.countP (fun c => c.kind = .newBlocker ∧ c.key = k) = 0 := by
    rw [List.countP_eq_zero]
    intro c hc
    simp [hready c hc]
  have h2 : eol.countP (fun c => c.kind = .newBlocker ∧ c.key = k) = 0 := by
    rw [List.countP_eq_zero]
    intro c hc
    simp [heol c hc]
  rw [h1, h2]
  unfold isNews
  simp [Function.comp_def, change]

/-- A list with distinct keys has at most one element of a key, and one when it has any. -/
theorem countP_key_eq_one {l : List Finding} (hnd : (l.map (·.key)).Nodup) {f : Finding} (hf : f ∈ l) :
    (l.countP fun g => g.key = f.key) = 1 := by
  have hcount : (l.map (·.key)).count f.key = 1 :=
    List.count_eq_one_of_mem hnd (List.mem_map.mpr ⟨f, hf, rfl⟩)
  rw [← hcount, List.count, List.countP_map]
  rfl

end Step

section Runs

variable (X : External) (S : Store) (p : Pass) (ps : List Pass)

/-- How many became-ready changes a pass announces. -/
def becameReadyCount (X : External) (S : Store) (p : Pass) (ps : List Pass) : ℕ :=
  (announced X S p ps).countP (·.kind = .becameReady)

/-- How many became-ready changes the passes of a list announce, after a run. -/
def becameReadyTotal (X : External) (S : Store) : List Pass → List Pass → ℕ
  | [], _ => 0
  | q :: qs, ps => becameReadyCount X S q (qs ++ ps) + becameReadyTotal X S qs ps

/-- The passes of a list are unknown, and nothing stands after any of them. -/
def Undecided : List Pass → List Pass → Prop
  | [], _ => True
  | q :: qs, ps =>
    (q.report.verdict = .unknown ∧ ¬ ∃ k, stands (q :: (qs ++ ps)) k) ∧ Undecided qs ps

/-- Changes about findings of one kind are of no other. -/
theorem countP_change {k k' : ChangeKind} (h : k' ≠ k) (fs : List Finding) (targets : List String) :
    (fs.map (change k' · targets)).countP (·.kind = k) = 0 := by
  rw [List.countP_eq_zero]
  intro c hc
  obtain ⟨f, -, rfl⟩ := List.mem_map.mp hc
  simp [change, h]

variable {X S} in
/-- A pass that is not the first announces readiness by the baseline's blockers, resolved ones
included, when none is left. -/
theorem becameReadyCount_eq {p : Pass} {ps : List Pass} (hp : p.WellFormed)
    (hps : ∀ q ∈ ps, q.WellFormed) (hne : ps ≠ []) (hb : Tracks ps (baselineAfter X S ps)) :
    (p.report.verdict = .ready ∧ (¬ ∃ k, stands (p :: ps) k) ∧ owed ps →
      becameReadyCount X S p ps = 1) ∧
    (¬ (p.report.verdict = .ready ∧ (¬ ∃ k, stands (p :: ps) k) ∧ owed ps) →
      becameReadyCount X S p ps = 0) := by
  have howed : (!(((baselineAfter X S ps).filter FindingHead.blocker).map FindingHead.ident).isEmpty ||
      (baselineAfter X S ps).any (·.resolved)) = true ↔ owed ps := by
    rw [← hb.owed_iff]
    simp only [Bool.or_eq_true, Bool.not_eq_true', List.isEmpty_map, List.isEmpty_eq_false_iff,
      ne_eq, List.filter_eq_nil_iff, not_forall, not_not, List.any_eq_true]
    constructor
    · rintro (⟨h, hh, hbl⟩ | ⟨h, hh, hres⟩)
      · exact ⟨h, hh, (blocker_iff.mp hbl).1⟩
      · exact ⟨h, hh, hb.resolved h hh hres⟩
    · rintro ⟨h, hh, hsev⟩
      by_cases hres : h.resolved = true
      · exact .inr ⟨h, hh, hres⟩
      · exact .inl ⟨h, hh, blocker_iff.mpr ⟨hsev, by simpa using hres⟩⟩
  have hnone := noneLeft_iff hb hp
  -- Of the changes only the readiness one is of that kind.
  have hcount : becameReadyCount X S p ps =
      if (!(((baselineAfter X S ps).filter FindingHead.blocker).map FindingHead.ident).isEmpty ||
          (baselineAfter X S ps).any (·.resolved)) &&
        ((p.report.findings.filter fun f => (headOf f).blocker).isEmpty &&
          !(carriedOf (baselineAfter X S ps) p.report (unassessedIn p.report p.hold)).any
            FindingHead.blocker) && p.report.verdict = .ready then 1 else 0 := by
    unfold becameReadyCount
    rw [announced_eq hp hps hne]
    simp only [computeDelta, List.countP_append]
    rw [countP_change (by decide), countP_change (by decide)]
    split_ifs <;> simp
  rw [hcount]
  constructor
  · rintro ⟨hready, hns, ho⟩
    rw [howed.mpr ho, hnone.mpr hns, hready]
    rfl
  · intro hnot
    rw [if_neg]
    intro hcond
    rw [Bool.and_eq_true, Bool.and_eq_true, howed, hnone, decide_eq_true_eq] at hcond
    exact hnot ⟨hcond.2, hcond.1.2, hcond.1.1⟩

/-- Unknown passes with nothing standing keep a became-ready owed. -/
theorem owed_of_undecided {ps : List Pass} (h : ∃ k, stands ps k) :
    ∀ {mid : List Pass}, Undecided mid ps → owed (mid ++ ps)
  | [], _ => by
    obtain ⟨k, hk⟩ := h
    cases ps with
    | nil => exact absurd hk id
    | cons p ps => exact .inl ⟨k, hk⟩
  | _ :: _, ⟨⟨hunk, hnone⟩, hmid⟩ => .inr ⟨owed_of_undecided h hmid, hunk, hnone⟩

end Runs

/-! ### A key that is an unserved key twice over -/

/-- A store that no report of the examples comes near the limit of. -/
def roomyStore : Store := ⟨fun r carried => 1000 * (r.findings.length + carried.length + 1), 20971520⟩

/-- A blocker of a category. -/
def blockerOf (c : Category) (key : String) : Finding := ⟨c, .blocker, key, "t", "d", [], [], 0, false, "", [], [], 0, []⟩

/-- A report at a target with one blocker. -/
def oneBlocker (c : Category) (key : String) (gaps : List CapabilityGap) : Report where
  clusterID := "c"
  target := ⟨1, 34⟩
  serverVersion := "v1.33.0"
  kbVersion := "kb"
  score := 75
  ready := false
  verdict := .blocked
  findings := [blockerOf c key]
  notAssessed := gaps

/-- A pass whose inventory says nothing about holds. -/
def plainPass (r : Report) : Pass := ⟨r, ⟨1, 0, true, fun _ => false, 0⟩⟩

/-- An object of kind `unserved` at an API the target does not serve yet. -/
def unservedPass : Pass :=
  plainPass (oneBlocker .removedAPI "removed-api/g.io/v1/unserved/unserved" [])

/-- The next pass does not read API usage, and sees a client of the same API. -/
def callerPass : Pass :=
  plainPass (oneBlocker .deprecatedAPIInUse "deprecated-api-in-use/g.io/v1/unserveds"
    [⟨capAPIUsage, "forbidden", false, [], true⟩])

instance (key : String) (c : Category) : Decidable (StartsWith key c) :=
  inferInstanceAs (Decidable (_ ∨ _))

variable {gaps : List CapabilityGap} {scraped young : Time} {v : Verdict}

/-- A pass with one finding is well formed when its finding is named after its category. -/
theorem wellFormed_oneBlocker {c : Category} {key : String} {hold : CallsHold} (hk : key ≠ "") (hs : StartsWith key c) :
    (⟨oneBlocker c key gaps, hold⟩ : Pass).WellFormed where
  baseline := rfl
  distinct := List.nodup_singleton _
  named := by
    intro f hf
    rw [List.mem_singleton.mp hf]
    exact hk
  category := by
    intro f hf
    rw [List.mem_singleton.mp hf]
    exact hs

/-- The next pass reads everything and sees the client of another API. -/
def newCallerPass : Pass :=
  plainPass (oneBlocker .deprecatedAPIInUse "deprecated-api-in-use/g.io/v1/widgets" [])

/-- A pass with a removed API. -/
def gadgetPass : Pass := plainPass (oneBlocker .removedAPI "removed-api/g.io/v1/Gadget" [])

/-! ### A caller under a hold -/

/-- A report that finds nothing, at a verdict. -/
def cleanReport (v : Verdict) : Report := ⟨"c", ⟨1, 34⟩, "v1.33.0", "kb", 100, v = .ready, v, [], [], none, [], [], 0, 0⟩

/-- The pass of a push whose inventory was collected at a time, from an apiserver whose hold ends at another. -/
def passAt (r : Report) (scraped young : Time) : Pass := ⟨r, ⟨scraped, young, true, fun _ => false, 0⟩⟩

/-- A push that sees the client of an API. -/
def calledPass : Pass :=
  passAt (oneBlocker .deprecatedAPIInUse "deprecated-api-in-use/g.io/v1/widgets" []) (dayNumber 2026 6 10 * day) 0

/-- The apiserver restarted an hour before the next push, and nothing has called it since. -/
def restartedPass : Pass :=
  passAt (cleanReport .ready) (dayNumber 2026 6 11 * day) (dayNumber 2026 6 11 * day - hour + deprecatedCallsHold)

/-- The node's clock is ahead: its apiserver started on the last day of the year 9999, an hour before the push, and
nothing has called it since. -/
def aheadPass : Pass :=
  passAt (cleanReport .ready) (dayNumber 9999 12 31 * day + 22 * hour)
    (dayNumber 9999 12 31 * day + 21 * hour + deprecatedCallsHold)

/-- A push days later that finds nothing, from an apiserver that has been up for long. -/
def laterPass (v : Verdict) : Pass := passAt (cleanReport v) (dayNumber 2026 6 14 * day) 0

/-- A pass that finds nothing is well formed. -/
theorem wellFormed_clean : (passAt (cleanReport v) scraped young).WellFormed := by
  constructor <;> simp [cleanReport, passAt, notificationBaseline]

/-- The push that sees the client is well formed. -/
theorem wellFormed_called : calledPass.WellFormed := by
  apply wellFormed_oneBlocker
  · decide
  · decide

/-- After passes that find nothing only the caller was seen. -/
theorem lastSeen_called {k : String} {f : Finding} : ∀ {mid : List Pass},
    (∀ q ∈ mid, q.report.findings = []) → lastSeen (mid ++ [calledPass]) k = some (f, gaps) →
      k = "deprecated-api-in-use/g.io/v1/widgets" ∧ f.category = .deprecatedAPIInUse
  | [], _, h => by
    rw [List.nil_append, lastSeen] at h
    split at h
    · rename_i g hg
      obtain ⟨rfl, -⟩ := Prod.mk.inj (Option.some.inj h)
      have hk := List.find?_some hg
      rw [List.mem_singleton.mp (List.mem_of_find?_eq_some hg)] at hk ⊢
      exact ⟨(of_decide_eq_true hk).symm, rfl⟩
    · simp [lastSeen] at h
  | q :: mid, hmid, h => by
    have hq : q.report.findings = [] := hmid q List.mem_cons_self
    rw [List.cons_append, lastSeen, hq, List.find?_nil] at h
    exact lastSeen_called (fun r hr => hmid r (List.mem_cons_of_mem _ hr)) h

/-- Nothing stands after a pass that finds nothing and holds nothing. -/
theorem not_stands_clean (mid : List Pass) (hmid : ∀ q ∈ mid, q.report.findings = [])
    (huntil : (passAt (cleanReport v) scraped young).hold.until
      (heldHead (blockerOf .deprecatedAPIInUse "") "deprecated-api-in-use/g.io/v1/widgets"
        (holdEnd (mid ++ [calledPass]) "deprecated-api-in-use/g.io/v1/widgets")) = 0) :
    ¬ ∃ k, stands (passAt (cleanReport v) scraped young :: (mid ++ [calledPass])) k := by
  rintro ⟨k, ⟨f, hf, -⟩ | ⟨-, -, f, gaps, hseen, h⟩⟩
  · simp [cleanReport, passAt] at hf
  · obtain ⟨rfl, hcat⟩ := lastSeen_called hmid hseen
    rcases h with h | ⟨c, hc, -⟩
    · have hsame : f.category = (blockerOf .deprecatedAPIInUse "").category := hcat
      exact h ((until_heldHead_congr _ hsame _ _).trans huntil)
    · simp [cleanReport, passAt, hiddenBy, appendNew] at hc

/-- The caller stands after the restart: the report could not have seen it. -/
theorem stands_restarted : stands [restartedPass, calledPass] "deprecated-api-in-use/g.io/v1/widgets" :=
  .inr ⟨.inl ⟨_, List.mem_singleton_self _, rfl, rfl⟩, by decide, _, _, rfl, .inl (by decide)⟩

/-- The hold of the restart is written. -/
theorem holdsWritten_restarted : HoldsWritten .ascii roomyStore [restartedPass, calledPass] :=
  ⟨⟨by decide, fun h => nomatch h⟩, ⟨by decide, fun h => nomatch h⟩, trivial⟩

end UpgradeScope.Notify
