import UpgradeScope.Inventory.Canonical
import UpgradeScope.Server.Baselines

/-!
# Restart holds along the passes of a cluster

A deprecated caller that is missing from the scrape of a young apiserver is carried, with the instant its hold ends.
Passes keep that instant, move it, drop it and stamp it again, by clocks that may be wrong. `hold_bounded_grounded` says
what is left of it after every run of passes: a push leaves no hold that ends more than a day and ten minutes after its
own scrape, and every end is a day after a plausible start that some pass reported. So a hold has ended at a push that
is scraped a day after every one of them, and what is then still listed of the caller is at most the resolved head of
an unknown pass.

A background pass judges the stored snapshot, whose scrape is taken to be older than the push that recorded an end. It
leaves the end alone exactly when it is (`background_leaves_holds_iff`): a stored scrape of a clock that was ahead moves
the end, or ends the hold.
-/

namespace UpgradeScope.Passes

open Go Sorting Store Interleave Kb

open UpgradeScope.Notify hiding Store Pass step after announced

/-! ## Passes over a cluster -/

/-- What is stored of a target. -/
structure TargetRows where
  /-- The current evaluation. -/
  current : Option StoredHeads := none
  /-- The newest evaluation that is a baseline. -/
  baseline : Option StoredHeads := none

/-- One pass over a cluster. -/
structure ClusterPass where
  /-- The replica. -/
  server : Server
  /-- The inventory that is judged: a push's own, or the stored snapshot's. -/
  inventory : Inventory
  /-- The server version it is judged at. -/
  serverVersion : String
  /-- The inventory is a push's own. -/
  pushed : Bool
  /-- The report for each target that the pass judges. -/
  report : String → Option Report
  /-- The target is judged whether or not its holds changed: new content, a stale evaluation, a forced pass. -/
  due : String → Bool
  /-- The target whose baseline an upgrade left, for a target without one of its own. -/
  inherits : String → Option String

/-- What the pass says about holds. -/
def ClusterPass.hold (p : ClusterPass) : CallsHold := callsHoldOf p.server p.inventory p.serverVersion p.pushed

/-- `holdChanged` of a stored report that decodes. -/
def holdMoved (heads : StoredHeads) (hold : CallsHold) : Bool :=
  heads.carriedForward.any fun f => f.holdUntil ≠ 0 && hold.until f ≠ f.holdUntil

/-- What a pass carries of the baseline: nothing without sinks, in a pass that is no baseline, and without a baseline
to compare with. -/
def ClusterPass.carries (p : ClusterPass) (rep : Report) (prev : Option StoredHeads) : List FindingHead :=
  if p.server.sinks.isEmpty ∨ ¬ notificationBaseline rep then []
  else match prev with
    | none => []
    | some stored => (computeDelta p.server.external stored.baseline rep (unassessedIn rep p.hold)).2

/-- What a pass stores of a target's report. -/
def ClusterPass.stores (p : ClusterPass) (rep : Report) (prev : Option StoredHeads) : StoredHeads where
  findings := rep.findings.map fun f => readHead (headOf f)
  notAssessed := rep.notAssessed
  carriedForward := (p.server.keepCarried rep (p.hold.stamp (p.carries rep prev))).map readHead

/-- A target's rows after a pass. A target that is up to date and whose holds the scrape leaves alone is skipped. -/
def ClusterPass.step (p : ClusterPass) (rows : String → TargetRows) (target : String) : TargetRows :=
  match p.report target with
  | none => rows target
  | some rep =>
    if (rows target).current.any (fun heads => !p.due target && !holdMoved heads p.hold) then rows target
    else
      let prev := (rows target).baseline <|> (p.inherits target).bind fun t => (rows t).baseline
      { current := some (p.stores rep prev)
        baseline := if notificationBaseline rep then some (p.stores rep prev) else (rows target).baseline }

/-- The rows after a run of passes, the latest pass first. -/
def rowsAfter : List ClusterPass → String → TargetRows
  | [] => fun _ => {}
  | p :: ps => p.step (rowsAfter ps)

/-! ## The end of one hold -/

variable {s : Server} {f : FindingHead} {inv : Inventory} {p : ClusterPass} {ps : List ClusterPass}
  {heads : StoredHeads} {prev : Option StoredHeads} {rep : Report} {v target : String} {now : Time} {snapID : ℕ}
  {w : World}

/-- A window that is open ends a day after a plausible start. -/
theorem young_callsHoldOf {pushed : Bool} (h : (callsHoldOf s inv v pushed).young ≠ 0) :
    ∃ start, apiServerStart inv = some start ∧ (callsHoldOf s inv v pushed).young = start + deprecatedCallsHold := by
  unfold callsHoldOf at h ⊢
  dsimp only at h ⊢
  cases hstart : apiServerStart inv with
  | none =>
    rw [hstart] at h
    exact absurd rfl h
  | some start =>
    rw [hstart] at h
    dsimp only at h ⊢
    split at h
    · rename_i hyoung
      exact ⟨start, rfl, if_pos hyoung⟩
    · exact absurd rfl h

/-- A plausible start is at most ten minutes after the scrape. -/
theorem apiServerStart_le {start : Time} (h : apiServerStart inv = some start) :
    start ≤ inv.collectedAt + startTimeTolerance := by
  unfold apiServerStart at h
  dsimp only at h
  split at h
  · exact nomatch h
  · rename_i hplausible
    obtain rfl := Option.some.inj h
    exact not_lt.mp fun hlate => hplausible (.inr (.inr (.inr hlate)))

/-- An end that is not zero: it is of a caller whose API is served, after the scrape and no earlier than the end of the
scrape's window, and it is the one that was carried or the window's. -/
structure Held (c : CallsHold) (f : FindingHead) («end» : Time) : Prop where
  /-- A deprecated caller. -/
  category : f.category = .deprecatedAPIInUse
  /-- Its API is served. -/
  served : c.gone f.key = false
  /-- The end is after the scrape. -/
  after : c.scraped < «end»
  /-- The window ends no later. -/
  window : c.young ≤ «end»
  /-- Where it is from. -/
  origin : («end» = c.young ∧ c.young ≠ 0) ∨ («end» = f.holdUntil ∧
    ¬ (c.pushed = true ∧ c.scraped + (deprecatedCallsHold + startTimeTolerance) < f.holdUntil))

/-- What an end that is not zero says. -/
theorem held_of_until {c : CallsHold} (h : c.until f ≠ 0) : Held c f (c.until f) := by
  unfold CallsHold.until at h ⊢
  split at h
  · exact absurd rfl h
  rename_i hcategory
  rw [if_neg hcategory]
  split at h
  · exact absurd rfl h
  rename_i hgone
  rw [if_neg hgone]
  dsimp only at h ⊢
  -- What is carried counts unless a push drops it; the later of it and the window's end is the end.
  set carried : Time := if c.pushed = true ∧ c.scraped + (deprecatedCallsHold + startTimeTolerance) < f.holdUntil then 0
    else f.holdUntil with hcarried
  set ending : Time := if carried < c.young then c.young else carried with hending
  split at h
  · exact absurd rfl h
  rename_i hafter
  rw [if_neg hafter]
  have hwindow : c.young ≤ ending := by
    rw [hending]
    split
    · exact le_rfl
    · rename_i hlater
      exact not_lt.mp hlater
  refine ⟨not_not.mp (not_or.mp hcategory).1, by simpa using hgone, not_le.mp hafter, hwindow, ?_⟩
  by_cases hyoung : carried < c.young
  · rw [if_pos hyoung] at hending
    exact .inl ⟨hending, hending ▸ h⟩
  · rw [if_neg hyoung] at hending
    by_cases hdrop : c.pushed = true ∧ c.scraped + (deprecatedCallsHold + startTimeTolerance) < f.holdUntil
    · rw [if_pos hdrop] at hcarried
      exact absurd (hending.trans hcarried) h
    · rw [if_neg hdrop] at hcarried
      exact .inr ⟨hending.trans hcarried, hdrop⟩

/-- A push leaves no hold that ends more than a day and ten minutes after its scrape. -/
theorem until_le_of_pushed (h : (callsHoldOf s inv v true).until f ≠ 0) :
    inv.collectedAt < (callsHoldOf s inv v true).until f ∧
      (callsHoldOf s inv v true).until f ≤ inv.collectedAt + (deprecatedCallsHold + startTimeTolerance) := by
  have hheld := held_of_until h
  rcases hheld.origin with hown | hkept
  · refine ⟨hheld.after, ?_⟩
    obtain ⟨start, hstart, hyoung⟩ := young_callsHoldOf hown.2
    have hle := apiServerStart_le hstart
    rw [hown.1, hyoung]
    linarith
  · refine ⟨hheld.after, ?_⟩
    rw [hkept.1]
    exact not_lt.mp fun hlate => hkept.2 ⟨rfl, hlate⟩

/-! ## What runs leave -/

/-- An end that some pass of the run reported: a day after a plausible start. -/
def ReportedEnd (ps : List ClusterPass) (ending : Time) : Prop :=
  ∃ p ∈ ps, ∃ start, apiServerStart p.inventory = some start ∧ ending = start + deprecatedCallsHold

/-- Every carried hold of a stored report was reported, and its findings have none. -/
structure HoldsReported (ps : List ClusterPass) (heads : StoredHeads) : Prop where
  /-- A finding is not held. -/
  findings : ∀ f ∈ heads.findings, f.holdUntil = 0
  /-- A carried hold. -/
  carried : ∀ f ∈ heads.carriedForward, f.holdUntil ≠ 0 → ReportedEnd ps f.holdUntil

/-- More passes report more. -/
theorem HoldsReported.cons (h : HoldsReported ps heads) (p : ClusterPass) : HoldsReported (p :: ps) heads := by
  refine ⟨h.findings, fun f hf hne => ?_⟩
  obtain ⟨q, hq, hreported⟩ := h.carried f hf hne
  exact ⟨q, List.mem_cons_of_mem _ hq, hreported⟩

/-- What is stored of carried heads is what a pass carries, stamped. -/
theorem ClusterPass.mem_stores (h : f ∈ (p.stores rep prev).carriedForward) :
    ∃ x ∈ p.carries rep prev, f = readHead (p.hold.stamped x) := by
  obtain ⟨y, hy, rfl⟩ := List.mem_map.mp h
  have hy : y ∈ p.hold.stamp (p.carries rep prev) := mem_of_mem_keepCarried hy
  obtain ⟨x, hx, rfl⟩ := List.mem_map.mp hy
  exact ⟨x, hx, rfl⟩

/-- What a pass carries is a head of the baseline that it could not have seen, or a resolved head. -/
theorem ClusterPass.mem_carries {x : FindingHead} (h : x ∈ p.carries rep prev) : ∃ stored, prev = some stored ∧
      ((x ∈ stored.baseline ∧ unassessedIn rep p.hold x = true) ∨ (x.resolved = true ∧ x.holdUntil = 0)) := by
  unfold ClusterPass.carries at h
  split at h
  · exact nomatch h
  cases prev with
  | none => exact nomatch h
  | some stored =>
    refine ⟨stored, rfl, ?_⟩
    rcases List.mem_append.mp h with h | h
    · obtain ⟨hmem, hkept⟩ := List.mem_filter.mp (mem_of_mem_distinctOn h)
      simp only [Bool.and_eq_true] at hkept
      exact .inl ⟨hmem, hkept.2⟩
    · split at h
      · obtain ⟨y, -, rfl⟩ := List.mem_map.mp h
        exact .inr ⟨rfl, rfl⟩
      · exact nomatch h

/-- What a pass stamps was carried with a reported end, or is the end of its own window. -/
theorem ClusterPass.stores_reported (hprev : ∀ stored, prev = some stored → HoldsReported ps stored) :
    HoldsReported (p :: ps) (p.stores rep prev) := by
  constructor
  · intro f hf
    obtain ⟨g, -, rfl⟩ := List.mem_map.mp hf
    exact readHead_holdUntil _
  · intro f hf hne
    obtain ⟨x, hx, rfl⟩ := p.mem_stores hf
    rw [readHead_holdUntil] at hne ⊢
    change p.hold.until x ≠ 0 at hne
    change ReportedEnd (p :: ps) (p.hold.until x)
    rcases (held_of_until hne).origin with ⟨hown, hyoung⟩ | ⟨hkept, -⟩
    · obtain ⟨start, hstart, hend⟩ := young_callsHoldOf hyoung
      exact ⟨p, List.mem_cons_self, start, hstart, hown.trans hend⟩
    · obtain ⟨stored, hstored, ⟨hmem, -⟩ | ⟨-, hzero⟩⟩ := ClusterPass.mem_carries hx
      · have hreported := hprev stored hstored
        rcases List.mem_append.mp hmem with hmem | hmem
        · -- A finding of the baseline has no end of its own.
          obtain ⟨g, hg, rfl⟩ := List.mem_map.mp hmem
          exact absurd (hkept.trans (hreported.findings g hg)) hne
        · rw [hkept] at hne ⊢
          obtain ⟨q, hq, hend⟩ := hreported.carried x hmem hne
          exact ⟨q, List.mem_cons_of_mem _ hq, hend⟩
      · exact absurd (hkept.trans hzero) hne

/-- A pass leaves a target as it was, or stores a report against a baseline of the cluster. -/
theorem ClusterPass.step_cases (p : ClusterPass) (rows : String → TargetRows) (target : String) :
    (p.step rows target = rows target ∧ ∀ rep, p.report target = some rep →
        ∀ heads, (rows target).current = some heads → holdMoved heads p.hold = false) ∨
      ∃ rep prev, p.report target = some rep ∧ (∀ stored, prev = some stored → ∃ t, (rows t).baseline = some stored) ∧
        (p.step rows target).current = some (p.stores rep prev) ∧
          ((p.step rows target).baseline = some (p.stores rep prev) ∨
            (p.step rows target).baseline = (rows target).baseline) := by
  unfold ClusterPass.step
  cases hrep : p.report target with
  | none => exact .inl ⟨rfl, fun _ h => nomatch h⟩
  | some rep =>
    dsimp only
    by_cases hskip : (rows target).current.any (fun heads => !p.due target && !holdMoved heads p.hold) = true
    · rw [if_pos hskip]
      refine .inl ⟨rfl, fun _ _ heads hheads => ?_⟩
      rw [hheads, Option.any_some] at hskip
      simpa using (Bool.and_eq_true_iff.mp hskip).2
    · rw [if_neg hskip]
      refine .inr ⟨rep, _, rfl, fun stored hstored => ?_, rfl, ?_⟩
      · cases hown : (rows target).baseline with
        | some own =>
          rw [hown] at hstored
          exact ⟨target, hown.trans (by simpa using hstored)⟩
        | none =>
          rw [hown] at hstored
          obtain ⟨t, -, ht⟩ := Option.bind_eq_some_iff.mp (by simpa using hstored)
          exact ⟨t, ht⟩
      · dsimp only
        split
        · exact .inl rfl
        · exact .inr rfl

/-- Along every run, what is stored carries reported ends only. -/
theorem rowsAfter_reported (ps : List ClusterPass) (target : String) (heads : StoredHeads)
    (h : (rowsAfter ps target).current = some heads ∨ (rowsAfter ps target).baseline = some heads) :
    HoldsReported ps heads := by
  induction ps generalizing target heads with
  | nil =>
    rcases h with h | h <;> exact nomatch h
  | cons p ps ih =>
    rcases p.step_cases (rowsAfter ps) target with ⟨heq, -⟩ | ⟨rep, prev, -, hprev, hcurrent, hbaseline⟩
    · rw [show rowsAfter (p :: ps) target = rowsAfter ps target from heq] at h
      exact (ih target heads h).cons p
    · have hstores : HoldsReported (p :: ps) (p.stores rep prev) := by
        refine ClusterPass.stores_reported fun stored hstored => ?_
        obtain ⟨t, ht⟩ := hprev stored hstored
        exact ih t stored (.inr ht)
      change (p.step (rowsAfter ps) target).current = _ ∨ (p.step (rowsAfter ps) target).baseline = _ at h
      rw [hcurrent] at h
      rcases h with h | h
      · rw [← Option.some.inj h]
        exact hstores
      · rcases hbaseline with hbaseline | hbaseline
        · rw [← Option.some.inj (hbaseline.symm.trans h)]
          exact hstores
        · exact (ih target heads (.inr (hbaseline.symm.trans h))).cons p

/-- After a push that judged the target, its holds end within a day and ten minutes of the scrape. -/
theorem bound_of_pushed (hpushed : p.pushed = true) (hjudged : (p.report target).isSome = true)
    (hcurrent : (rowsAfter (p :: ps) target).current = some heads) (hf : f ∈ heads.carriedForward)
    (hne : f.holdUntil ≠ 0) :
    p.inventory.collectedAt < f.holdUntil ∧
      f.holdUntil ≤ p.inventory.collectedAt + (deprecatedCallsHold + startTimeTolerance) := by
  obtain ⟨x, hx⟩ : ∃ x, f.holdUntil = p.hold.until x := by
    change (p.step (rowsAfter ps) target).current = some heads at hcurrent
    rcases p.step_cases (rowsAfter ps) target with ⟨heq, hleft⟩ | ⟨rep, prev, -, -, hstored, -⟩
    · -- The target was skipped, so the scrape leaves the end where it is.
      obtain ⟨rep, hrep⟩ := Option.isSome_iff_exists.mp hjudged
      rw [heq] at hcurrent
      have hmoved := List.any_eq_false.mp (hleft rep hrep heads hcurrent) f hf
      refine ⟨f, ?_⟩
      by_contra hdiffers
      exact hmoved (by simp [hne, Ne.symm hdiffers])
    · rw [hstored] at hcurrent
      obtain rfl := Option.some.inj hcurrent
      obtain ⟨x, -, rfl⟩ := p.mem_stores hf
      exact ⟨x, readHead_holdUntil _⟩
  rw [hx] at hne ⊢
  unfold ClusterPass.hold at hne ⊢
  rw [hpushed] at hne ⊢
  exact until_le_of_pushed hne

/-- A carried head that is neither held nor resolved was hidden by a gap of some pass. -/
theorem hidden_of_carried (hcurrent : (rowsAfter ps target).current = some heads) (hf : f ∈ heads.carriedForward)
    (hzero : f.holdUntil = 0) (hresolved : f.resolved = false) :
    ∃ p ∈ ps, ∃ rep, p.report target = some rep ∧ hiddenBy rep.notAssessed f.category f.ident ≠ [] := by
  induction ps generalizing heads with
  | nil => exact nomatch hcurrent
  | cons p ps ih =>
    change (p.step (rowsAfter ps) target).current = some heads at hcurrent
    rcases p.step_cases (rowsAfter ps) target with ⟨heq, -⟩ | ⟨rep, prev, hrep, -, hstored, -⟩
    · rw [heq] at hcurrent
      obtain ⟨q, hq, hhidden⟩ := ih hcurrent hf
      exact ⟨q, List.mem_cons_of_mem _ hq, hhidden⟩
    · rw [hstored] at hcurrent
      obtain rfl := Option.some.inj hcurrent
      obtain ⟨x, hx, rfl⟩ := p.mem_stores hf
      rw [readHead_holdUntil] at hzero
      rw [readHead_resolved] at hresolved
      rw [readHead_category, readHead_ident]
      refine ⟨p, List.mem_cons_self, rep, hrep, ?_⟩
      -- Carried as unassessed and not held, it was hidden by a gap of this very pass.
      obtain ⟨stored, -, ⟨-, hunassessed⟩ | ⟨hgone, -⟩⟩ := ClusterPass.mem_carries hx
      · have hheld : p.hold.until x = 0 := hzero
        rw [unassessedIn, hheld] at hunassessed
        intro hnone
        have hany : (hiddenBy rep.notAssessed x.category x.ident).any (· ∉ x.seenWithout) = true := by
          simpa using hunassessed
        rw [show hiddenBy rep.notAssessed x.category x.ident = [] from hnone] at hany
        exact nomatch hany
      · exact absurd (hgone.symm.trans hresolved) (by decide)

/-- A restart hold is bounded and grounded: after every run of passes over a cluster, for every deprecated caller that a
target's evaluation carries. After a push that judged the target its end is zero or in the day and ten minutes after the
scrape; an end that is not zero, of the current evaluation or of the baseline, is a day after a plausible start of some
pass; so after a push that is scraped no earlier than every such day ends, a caller that no gap ever hid is carried at
most as resolved. -/
theorem hold_bounded_grounded (p : ClusterPass) (ps : List ClusterPass) (target : String) :
    (∀ heads, (rowsAfter (p :: ps) target).current = some heads ∨ (rowsAfter (p :: ps) target).baseline = some heads →
        ∀ f ∈ heads.carriedForward, f.holdUntil ≠ 0 →
          ∃ q ∈ p :: ps, ∃ start, apiServerStart q.inventory = some start ∧
            f.holdUntil = start + deprecatedCallsHold) ∧
      (p.pushed = true → (p.report target).isSome = true → ∀ heads, (rowsAfter (p :: ps) target).current = some heads →
        ∀ f ∈ heads.carriedForward,
          (f.holdUntil = 0 ∨ p.inventory.collectedAt < f.holdUntil ∧
            f.holdUntil ≤ p.inventory.collectedAt + (deprecatedCallsHold + startTimeTolerance)) ∧
          ((∀ q ∈ p :: ps, ∀ rep, q.report target = some rep → hiddenBy rep.notAssessed f.category f.ident = []) →
            (∀ q ∈ p :: ps, ∀ start, apiServerStart q.inventory = some start →
              start + deprecatedCallsHold ≤ p.inventory.collectedAt) →
            f.resolved = true)) := by
  have hreported := rowsAfter_reported (p :: ps) target
  refine ⟨fun heads hheads f hf hne => (hreported heads hheads).carried f hf hne, ?_⟩
  intro hpushed hjudged heads hcurrent f hf
  have hbound := bound_of_pushed hpushed hjudged hcurrent hf
  refine ⟨or_iff_not_imp_left.mpr hbound, fun hseen hlate => ?_⟩
  by_contra hresolved
  have hresolved : f.resolved = false := by simpa using hresolved
  by_cases hzero : f.holdUntil = 0
  · obtain ⟨q, hq, rep, hrep, hhidden⟩ := hidden_of_carried hcurrent hf hzero hresolved
    exact hhidden (hseen q hq rep hrep)
  · obtain ⟨q, hq, start, hstart, hend⟩ := (hreported heads (.inl hcurrent)).carried f hf hzero
    have hended := hlate q hq start hstart
    rw [← hend] at hended
    exact absurd (hbound hzero).1 (not_lt.mpr hended)

/-- The caller of a deprecated API. -/
def callerFinding : Finding :=
  ⟨.deprecatedAPIInUse, .blocker, "deprecated-api-in-use/g.io/v1/gadgets", "t", "d", [], [], 0, false, "", [], [], 0, []⟩

/-- A server with one sink and an empty knowledge base, that stores of a report the end of the caller's hold. -/
def holdServer : Server where
  external := External.ascii
  fuel := 1
  kb := { version := "2025-06-01", maxKnownK8s := ⟨1, 34⟩ }
  sinks := ["webhook"]
  extraTargets := []
  teamMap := []
  teamMapHash := ""
  maxReportBytes := 5000000
  encodeReport _ carried := match carried.find? (·.holdUntil ≠ 0) with
    | some f => holdMarker ++ toString f.holdUntil
    | none => ""
  decodeReport text := match split text ':' with
    | [_, «end»] => (digits? «end».toList).map fun e => ⟨[], [], [{ headOf callerFinding with holdUntil := e }]⟩
    | _ => some ⟨[], [], []⟩
  encodeNotification _ := "{}"
  hash inv := inv.serverVersion
  decodeInventory s := s.inventory
  serverVersion_decodeInventory := serverVersion_asStored

/-- Noon of a day of 2025. -/
def noon (d : ℕ) : Time := dayNumber 2025 6 d * day + 12 * hour

/-- A push for 1.34 with some findings and gaps, of an apiserver that started at some time. -/
def callerPush (scraped start : Time) (findings : List Finding) (verdict : Verdict) (gaps : List CapabilityGap) :
    ClusterPass where
  server := holdServer
  inventory := { collectedAt := scraped, apiServerStartTime := start, serverVersion := "v1.33.0" }
  serverVersion := "v1.33.0"
  pushed := true
  report _ := some ⟨"c", ⟨1, 34⟩, "v1.33.0", "kb", 75, false, verdict, findings, gaps, none, [], [], 0, 0⟩
  due _ := true
  inherits _ := none

/-- The caller is found, then missing from the scrape of an apiserver that started an hour before. -/
def restartedRun : List ClusterPass :=
  [callerPush (noon 2) (noon 2 - hour) [] .ready [], callerPush (noon 1) 0 [callerFinding] .blocked []]

/-- The caller is carried after the restart, and its hold ends a day after it. -/
theorem hold_of_restartedRun : ∃ heads, (rowsAfter restartedRun "1.34").current = some heads ∧
    ∃ f ∈ heads.carriedForward, f.holdUntil = noon 3 - hour ∧ noon 2 < f.holdUntil ∧
      f.holdUntil ≤ noon 2 + (deprecatedCallsHold + startTimeTolerance) := by
  have hheads : ∃ heads, (rowsAfter restartedRun "1.34").current = some heads ∧
      ∃ f ∈ heads.carriedForward, f.holdUntil = noon 3 - hour ∧ f.holdUntil ≠ 0 := by
    refine ⟨((rowsAfter restartedRun "1.34").current).get (by decide +kernel), by simp, ?_⟩
    decide +kernel
  obtain ⟨heads, hcurrent, f, hf, hend, hne⟩ := hheads
  refine ⟨heads, hcurrent, f, hf, hend, ?_⟩
  exact (((hold_bounded_grounded (callerPush (noon 2) (noon 2 - hour) [] .ready [])
    [callerPush (noon 1) 0 [callerFinding] .blocked []] "1.34").2 rfl rfl heads hcurrent f hf).1).resolve_left hne

/-- The caller is found, then missing from a push whose verdict is unknown for a target past the knowledge base. -/
def unknownRun : List ClusterPass :=
  [callerPush (noon 2) 0 [] .unknown [⟨gapKBCoverage, "past the knowledge base", true, [], false⟩],
    callerPush (noon 1) 0 [callerFinding] .blocked []]

/-- The caller is listed among the carried heads after a push that no hold and no gap keeps it for. -/
theorem caller_carried_as_resolved : ∃ heads, (rowsAfter unknownRun "1.34").current = some heads ∧
    ∃ f ∈ heads.carriedForward, f.category = .deprecatedAPIInUse ∧ f.ident = callerFinding.key ∧
      (∀ q ∈ unknownRun, apiServerStart q.inventory = none) ∧
      (∀ q ∈ unknownRun, ∀ rep, q.report "1.34" = some rep → hiddenBy rep.notAssessed f.category f.ident = []) := by
  refine ⟨((rowsAfter unknownRun "1.34").current).get (by decide +kernel), by simp,
    ⟨.deprecatedAPIInUse, .blocker, "deprecated-api-in-use/g.io/v1/gadgets", "", [], 0, true, 0⟩, ?_⟩
  refine ⟨by decide +kernel, rfl, by decide +kernel, by decide +kernel, ?_⟩
  intro q hq rep hrep
  simp only [unknownRun, List.mem_cons, List.not_mem_nil, or_false] at hq
  rcases hq with rfl | rfl
  · obtain rfl := Option.some.inj hrep
    decide +kernel
  · obtain rfl := Option.some.inj hrep
    decide +kernel

/-! ## Background passes after a push -/

/-- The end of a hold is what a pass recorded. -/
def RecordedBy (hold : CallsHold) (f : FindingHead) : Prop :=
  f.holdUntil ≠ 0 → ∃ «end», f.holdUntil = hold.until { f with holdUntil := «end» }

/-- A row is of a snapshot, and was judged with a server's knowledge base and team map on the day of a clock. -/
structure JudgedToday (s : Server) (snapID : ℕ) (now : Time) (row : Evaluation) : Prop where
  /-- The snapshot. -/
  snapshot : row.snapshotID = snapID
  /-- The knowledge base. -/
  kb : row.kbVersion = s.kb.version
  /-- The team map. -/
  teamMap : row.teamMapHash = s.teamMapHash
  /-- The teams were stored. -/
  teams : row.teams.isSome = true
  /-- The day: not before its start, and no later than clocks may differ. -/
  today : now - now % day ≤ row.evaluatedAt ∧ row.evaluatedAt ≤ now + futureTolerance

/-- What a duplicate push of a stored snapshot leaves: every target's current evaluation is of the snapshot, judged
today, and carries the ends that the push recorded or left. -/
structure DuplicateLeft (s : Server) (clusterID : ℕ) (snap pushed : Snapshot) (w : World) : Prop where
  /-- The snapshot is the latest one. -/
  latest : w.db.latestSnapshot clusterID = some snap
  /-- It was stored with the version of its inventory, when that has one. -/
  version : snap.inventory.serverVersion ≠ "" → snap.serverVersion = snap.inventory.serverVersion
  /-- The push has its content. -/
  content : pushed.inventory.canonical = snap.inventory.canonical
  /-- The rows. -/
  rows : ∀ target ∈ s.evalTargets (judgedAt snap (s.decodeInventory snap)), ∃ row heads,
    w.db.currentEvaluation clusterID target.string = some row ∧ JudgedToday s snap.id w.now row ∧
      s.decodeReport row.report = some heads ∧
      ((∃ f ∈ heads.carriedForward, f.holdUntil ≠ 0) → contains row.report holdMarker = true) ∧
      ∀ f ∈ heads.carriedForward,
        RecordedBy (callsHoldOf s (s.decodeInventory pushed)
          (orElse pushed.inventory.serverVersion (judgedVersion snap)) true) f

/-- The stored scrape is before an end, and so is the end of its own window. -/
def ScrapedBefore (inv : Inventory) («end» : Time) : Prop :=
  inv.collectedAt ≠ 0 ∧ inv.collectedAt < «end» ∧ ∀ start, apiServerStart inv = some start →
    inv.collectedAt < start + deprecatedCallsHold → start + deprecatedCallsHold ≤ «end»

/-- A row that was judged today is not stale. -/
theorem JudgedToday.not_stale {row : Evaluation} (h : JudgedToday s snapID now row) : stale s row now = false := by
  have hteams : row.teams.isNone = false := by
    rw [Option.isNone_eq_false_iff]
    exact h.teams
  have hday : ¬ row.evaluatedAt < now - now % day := not_lt.mpr h.today.1
  have hfuture : ¬ now + futureTolerance < row.evaluatedAt := not_lt.mpr h.today.2
  simp [stale, h.kb, h.teamMap, hteams, hday, hfuture]

/-- A push with the content of a stored snapshot is judged at the version of the snapshot. -/
theorem version_of_content (s : Server) (snap : Snapshot) {pushed : Snapshot}
    (hversion : snap.inventory.serverVersion ≠ "" → snap.serverVersion = snap.inventory.serverVersion)
    (hcontent : pushed.inventory.canonical = snap.inventory.canonical) :
    orElse pushed.inventory.serverVersion (judgedVersion snap) = judgedAt snap (s.decodeInventory snap) := by
  have hsame : pushed.inventory.serverVersion = snap.inventory.serverVersion := congrArg (·.serverVersion) hcontent
  rw [judgedAt, s.serverVersion_decodeInventory, hsame, judgedVersion]
  by_cases hempty : snap.inventory.serverVersion = ""
  · simp [orElse, hempty]
  · rw [hversion hempty]
    simp [orElse, hempty]

/-- An open window ends after year 1. -/
theorem young_nonneg (s : Server) (inv : Inventory) (v : String) (pushed : Bool) :
    0 ≤ (callsHoldOf s inv v pushed).young := by
  by_cases h : (callsHoldOf s inv v pushed).young = 0
  · exact h.ge
  · obtain ⟨start, hstart, hyoung⟩ := young_callsHoldOf h
    rw [hyoung]
    unfold apiServerStart at hstart
    dsimp only at hstart
    split at hstart
    · exact nomatch hstart
    · rename_i hplausible
      obtain rfl := Option.some.inj hstart
      have hearly : earliestAPIServerStart ≤ inv.apiServerStartTime :=
        not_lt.mp fun hlt => hplausible (.inr (.inr (.inl hlt)))
      have hearliest : (0 : ℤ) ≤ earliestAPIServerStart := by decide +kernel
      have hday : (0 : ℤ) ≤ deprecatedCallsHold := by decide
      linarith

/-- A background pass leaves an end where it is exactly when the stored scrape and its window are before it. -/
theorem until_background_iff (hcategory : f.category = .deprecatedAPIInUse)
    (hserved : (callsHoldOf s inv v false).gone f.key = false) (hpos : 0 < f.holdUntil) :
    (callsHoldOf s inv v false).until f = f.holdUntil ↔ ScrapedBefore inv f.holdUntil := by
  -- A background pass has the window that its inventory opens, or none.
  have hyoung : (callsHoldOf s inv v false).young ≤ f.holdUntil ↔ ∀ start, apiServerStart inv = some start →
      inv.collectedAt < start + deprecatedCallsHold → start + deprecatedCallsHold ≤ f.holdUntil := by
    unfold callsHoldOf
    dsimp only
    cases apiServerStart inv with
    | none => simp [hpos.le]
    | some start =>
      dsimp only
      split
      · rename_i hopen
        simp [hopen]
      · rename_i hopen
        simp [hopen, hpos.le]
  unfold ScrapedBefore
  rw [← hyoung]
  have hscraped : (callsHoldOf s inv v false).scraped = inv.collectedAt := rfl
  constructor
  · intro h
    have hheld := held_of_until (h ▸ hpos.ne')
    rw [h] at hheld
    refine ⟨fun hzero => ?_, hheld.after, hheld.window⟩
    rw [CallsHold.until, if_pos (.inr (hscraped.trans hzero))] at h
    exact hpos.ne h
  · rintro ⟨hzero, hbefore, hwindow⟩
    have hkept : ¬ ((callsHoldOf s inv v false).pushed = true ∧ (callsHoldOf s inv v false).scraped +
        (deprecatedCallsHold + startTimeTolerance) < f.holdUntil) := fun h => nomatch h.1
    rw [CallsHold.until, if_neg, hserved, if_neg (by decide)]
    · dsimp only
      rw [if_neg hkept, if_neg (not_lt.mpr hwindow), hscraped, if_neg (not_le.mpr hbefore)]
    · rw [hcategory, hscraped]
      simpa using hzero

/-- A loop over targets that are all up to date reads them and does nothing. -/
theorem reevaluateTargets_alone {clusterID snapID : ℕ} {hold : CallsHold} {targets : List Version} (p : PassBatch)
    (left : Bool)
    (h : ∀ t ∈ targets, ∃ row, w.db.currentEvaluation clusterID t.string = some row ∧ row.snapshotID = snapID ∧
      stale s row w.now = false ∧ holdChanged s row.report hold = false) :
    (reevaluateTargets s clusterID snapID inv hold false w.now targets p left).alone w = (.ok (p, left), w) := by
  induction targets with
  | nil => rfl
  | cons t rest ih =>
    obtain ⟨row, hrow, hsnap, hstale, hhold⟩ := h t List.mem_cons_self
    have hmoved : (some row).any (fun row => decide (row.snapshotID ≠ snapID)) ≠ true := by simp [hsnap]
    have hskip : (some row).any (fun row => !false && !stale s row w.now && !holdChanged s row.report hold) = true := by
      simp [hstale, hhold]
    unfold reevaluateTargets
    rw [Prog.alone_bind, Prog.alone_read]
    dsimp only
    rw [hrow, if_neg hmoved, if_pos hskip]
    exact ih fun t' ht' => h t' (List.mem_cons_of_mem _ ht')

/-- A background pass of a cluster whose targets are all up to date writes nothing. -/
theorem background_alone {cluster : Cluster} {snap : Snapshot} (hlatest : w.db.latestSnapshot cluster.id = some snap)
    (h : ∀ t ∈ s.evalTargets (judgedAt snap (s.decodeInventory snap)), ∃ row,
      w.db.currentEvaluation cluster.id t.string = some row ∧ row.snapshotID = snap.id ∧ stale s row w.now = false ∧
        holdChanged s row.report
          (callsHoldOf s (s.decodeInventory snap) (judgedAt snap (s.decodeInventory snap)) false) = false) :
    ((background s cluster).alone w).2 = w := by
  unfold background
  rw [Prog.alone_bind, Prog.alone_read]
  dsimp only
  rw [hlatest]
  dsimp only
  rw [Prog.alone_bind, reevaluate, Prog.alone_bind, clock, Prog.alone_read]
  dsimp only
  rw [Prog.alone_bind, reevaluateTargets_alone _ false h]
  rfl

/-- What the targets of a snapshot carry: some head of a target's current evaluation. -/
def CarriedBy (s : Server) (clusterID : ℕ) (snap : Snapshot) (w : World) (f : FindingHead) : Prop :=
  ∃ target ∈ s.evalTargets (judgedAt snap (s.decodeInventory snap)), ∃ row heads,
    w.db.currentEvaluation clusterID target.string = some row ∧ s.decodeReport row.report = some heads ∧
      f ∈ heads.carriedForward

/-- A background pass of the stored snapshot, right after a duplicate push of it, finds no hold changed and writes
nothing exactly when the stored scrape, and the end of its own window, are before every end that the push left. -/
theorem background_leaves_holds_iff {s : Server} (cluster : Cluster) {snap pushed : Snapshot} {w : World}
    (h : DuplicateLeft s cluster.id snap pushed w) :
    ((∀ target ∈ s.evalTargets (judgedAt snap (s.decodeInventory snap)), ∀ row,
        w.db.currentEvaluation cluster.id target.string = some row →
          holdChanged s row.report
            (callsHoldOf s (s.decodeInventory snap) (judgedAt snap (s.decodeInventory snap)) false) = false) ∧
        ((background s cluster).alone w).2 = w) ↔
      ∀ f, CarriedBy s cluster.id snap w f → f.holdUntil ≠ 0 → ScrapedBefore (s.decodeInventory snap) f.holdUntil := by
  -- What the push recorded is of a served caller, so a background pass leaves it by its own scrape alone.
  have hiff : ∀ {f : FindingHead}, f.holdUntil ≠ 0 → RecordedBy (callsHoldOf s (s.decodeInventory pushed)
      (orElse pushed.inventory.serverVersion (judgedVersion snap)) true) f →
      ((callsHoldOf s (s.decodeInventory snap) (judgedAt snap (s.decodeInventory snap)) false).until f =
        f.holdUntil ↔ ScrapedBefore (s.decodeInventory snap) f.holdUntil) := by
    intro f hne hrecorded
    obtain ⟨«end», hend⟩ := hrecorded hne
    have hheld := held_of_until (hend ▸ hne)
    rw [← hend, version_of_content s snap h.version h.content] at hheld
    have hyoung := young_nonneg s (s.decodeInventory pushed) (judgedAt snap (s.decodeInventory snap)) true
    have hpos : 0 < f.holdUntil := lt_of_le_of_ne (hyoung.trans hheld.window) (Ne.symm hne)
    exact until_background_iff hheld.category hheld.served hpos
  refine (and_iff_left_of_imp fun hunchanged => background_alone h.latest fun target htarget => ?_).trans
    ⟨fun hunchanged => ?_, fun hbefore target htarget row hrow => ?_⟩
  · obtain ⟨row, heads, hrow, htoday, -⟩ := h.rows target htarget
    exact ⟨row, hrow, htoday.snapshot, htoday.not_stale, hunchanged target htarget row hrow⟩
  · rintro f ⟨target, htarget, row, heads, hrow, hheads, hf⟩ hne
    obtain ⟨row', heads', hrow', -, hheads', hmarker, hrecorded⟩ := h.rows target htarget
    obtain rfl := Option.some.inj (hrow.symm.trans hrow')
    obtain rfl := Option.some.inj (hheads.symm.trans hheads')
    have hsame := hunchanged target htarget row hrow
    rw [holdChanged, hmarker ⟨f, hf, hne⟩, Bool.true_and, hheads, Option.any_some] at hsame
    refine (hiff hne (hrecorded f hf)).mp ?_
    by_contra hdiffers
    exact List.any_eq_false.mp hsame f hf (by simp [hne, hdiffers])
  · obtain ⟨row', heads, hrow', -, hheads, -, hrecorded⟩ := h.rows target htarget
    obtain rfl := Option.some.inj (hrow.symm.trans hrow')
    rw [holdChanged, hheads, Option.any_some, Bool.and_eq_false_iff]
    refine .inr (List.any_eq_false.mpr fun f hf => ?_)
    by_cases hne : f.holdUntil = 0
    · simp [hne]
    · have huntil := (hiff hne (hrecorded f hf)).mpr (hbefore f ⟨target, htarget, row, heads, hrow, hheads, hf⟩ hne)
      simp [huntil]

/-- An inventory of a cluster at 1.33 whose collectors all answered. -/
def scrapedAt (scraped start : Time) : Inventory where
  serverVersion := "v1.33.0"
  collectedAt := scraped
  apiServerStartTime := start
  capabilities := [capAPIUsage, capDeprecatedCalls, capHelm, capAddOns, capVersions, capCRDs, capVolumes].foldl
    (fun m c => m.insert c { available := true }) ∅

/-- The snapshot of such an inventory. -/
def scrapedSnapshot (scraped start : Time) : Snapshot where
  id := 1
  clusterID := 1
  hash := "v1.33.0"
  serverVersion := "v1.33.0"
  inventory := scrapedAt scraped start

/-- The caller, held until an hour before noon of the third. -/
def heldCaller : FindingHead := { headOf callerFinding with holdUntil := noon 3 - hour }

/-- The row of the evaluation that carries the held caller. -/
def heldRow : Evaluation where
  id := 1
  clusterID := 1
  snapshotID := 1
  target := "1.34"
  kbVersion := "2025-06-01"
  score := 100
  ready := true
  report := holdMarker ++ toString (noon 3 - hour)
  evaluatedAt := noon 2

/-- The store on noon of the second, after a push that recorded that the caller is held until an hour before noon of the
third. -/
def heldWorld (scraped start : Time) : World where
  db := {
    clusters := [{ id := 1, name := "prod" }]
    snapshots := [scrapedSnapshot scraped start]
    evaluations := [heldRow]
    lastCluster := 1
    lastSnapshot := 1
    lastEvaluation := 1 }
  now := noon 2

/-- The row that a push left carries the held caller. -/
theorem heldRow_carries : (holdServer.decodeReport heldRow.report).map (·.carriedForward) = some [heldCaller] := by
  decide +kernel

/-- A push of the second, of an apiserver up for an hour, leaves that store. -/
theorem duplicateLeft_heldWorld (scraped start : Time) :
    DuplicateLeft holdServer 1 (scrapedSnapshot scraped start) (scrapedSnapshot (noon 2) (noon 2 - hour))
      (heldWorld scraped start) := by
  refine ⟨rfl, fun _ => rfl, rfl, ?_⟩
  have htargets : holdServer.evalTargets "v1.33.0" = [⟨1, 34⟩] := by decide +kernel
  intro target htarget
  change target ∈ holdServer.evalTargets "v1.33.0" at htarget
  rw [htargets, List.mem_singleton] at htarget
  subst htarget
  obtain ⟨heads, hheads, hcarried⟩ := Option.map_eq_some_iff.mp heldRow_carries
  have hmarker : contains heldRow.report holdMarker = true := by decide +kernel
  have htoday : noon 2 - noon 2 % day ≤ heldRow.evaluatedAt ∧ heldRow.evaluatedAt ≤ noon 2 + futureTolerance := by
    decide +kernel
  have hrecorded : heldCaller.holdUntil = (callsHoldOf holdServer (scrapedAt (noon 2) (noon 2 - hour)) "v1.33.0"
      true).until { heldCaller with holdUntil := 0 } := by decide +kernel
  refine ⟨heldRow, heads, rfl, ⟨rfl, rfl, rfl, rfl, htoday⟩, hheads, fun _ => hmarker, ?_⟩
  rw [hcarried]
  intro f hf hne
  rw [List.mem_singleton.mp hf]
  exact ⟨0, hrecorded⟩

/-- The stored scrape is of a clock ten days ahead: the background pass right after the push that corrected it moves the
end of the hold to the window of the stored scrape. -/
theorem hold_moved_by_future_scrape :
    DuplicateLeft holdServer 1 (scrapedSnapshot (noon 12) (noon 12 - hour))
        (scrapedSnapshot (noon 2) (noon 2 - hour)) (heldWorld (noon 12) (noon 12 - hour)) ∧
      CarriedBy holdServer 1 (scrapedSnapshot (noon 12) (noon 12 - hour)) (heldWorld (noon 12) (noon 12 - hour))
        heldCaller ∧
      holdChanged holdServer heldRow.report
        (callsHoldOf holdServer (scrapedAt (noon 12) (noon 12 - hour)) "v1.33.0" false) = true ∧
      ((((background holdServer { id := 1, name := "prod" }).alone
        (heldWorld (noon 12) (noon 12 - hour))).2.db.currentEvaluation 1 "1.34").map (·.report)) =
        some (holdMarker ++ toString (noon 13 - hour)) := by
  refine ⟨duplicateLeft_heldWorld _ _, ?_, by decide +kernel, by decide +kernel⟩
  obtain ⟨heads, hheads, hcarried⟩ := Option.map_eq_some_iff.mp heldRow_carries
  refine ⟨⟨1, 34⟩, ?_, heldRow, heads, rfl, hheads, by rw [hcarried]; exact List.mem_singleton_self _⟩
  show (⟨1, 34⟩ : Version) ∈ holdServer.evalTargets "v1.33.0"
  decide +kernel

/-- The stored scrape is of that noon: the background pass writes nothing. -/
theorem hold_left_by_earlier_scrape :
    ((background holdServer { id := 1, name := "prod" }).alone (heldWorld (noon 2) (noon 2 - hour))).2 =
      heldWorld (noon 2) (noon 2 - hour) := by
  refine ((background_leaves_holds_iff { id := 1, name := "prod" }
    (duplicateLeft_heldWorld (noon 2) (noon 2 - hour))).mpr ?_).2
  have htargets : holdServer.evalTargets "v1.33.0" = [⟨1, 34⟩] := by decide +kernel
  rintro f ⟨target, htarget, row, heads, hrow, hheads, hf⟩ -
  change target ∈ holdServer.evalTargets "v1.33.0" at htarget
  rw [htargets, List.mem_singleton] at htarget
  subst htarget
  obtain rfl : heldRow = row := Option.some.inj hrow
  obtain ⟨heads', hheads', hcarried⟩ := Option.map_eq_some_iff.mp heldRow_carries
  obtain rfl := Option.some.inj (hheads.symm.trans hheads')
  rw [hcarried, List.mem_singleton] at hf
  subst hf
  have hstart : apiServerStart (scrapedAt (noon 2) (noon 2 - hour)) = some (noon 2 - hour) := by decide +kernel
  refine ⟨by decide +kernel, by decide +kernel, fun start h _ => ?_⟩
  obtain rfl := Option.some.inj (hstart.symm.trans h)
  decide +kernel

end UpgradeScope.Passes
