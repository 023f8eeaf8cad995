import UpgradeScope.Engine.Finding
import UpgradeScope.Lib.Rollup

/-!
# What the agent says of its ticks

`internal/agent/observe.go`. The observer keeps the last successful tick and how many failed since (`record`), and answers
`/readyz` (`readiness`) and a scrape of `/metrics` (`collect`) from that. A run is a list of events from a new observer, and
`Kept` says what the observer holds after one. `scrapes_tell_the_last_good_tick` is about every run and every moment: which
verdicts are exported, when they are withdrawn, and that they never outlive the agent's readiness.
-/

namespace UpgradeScope.Observe

open Go Rollup

/-! ## Ticks -/

/-- `tickReport`: what the observer reads of a tick. -/
structure TickReport where
  /-- Why the tick failed. -/
  err : Option String := none
  /-- Why its push failed. -/
  pushErr : Option String := none
  /-- The capabilities. -/
  caps : AList fun _ : Capability => CapabilityStatus := ∅
  /-- One report for each target. -/
  reports : List Report := []

/-- `observer`: its state. -/
structure Observer where
  /-- The ticks that completed. -/
  ticks : ℕ := 0
  /-- Failed ticks in a row. -/
  failures : ℕ := 0
  /-- Failed pushes in a row. -/
  pushFailures : ℕ := 0
  /-- The error of the latest failed tick. -/
  lastErr : Option String := none
  /-- When a tick last succeeded, zero before the first. -/
  lastSuccess : Time := 0
  /-- That tick. -/
  good : TickReport := {}
  /-- `upgradescope_agent_tick_errors_total`. -/
  tickErrors : ℕ := 0
  /-- `upgradescope_agent_push_errors_total`. -/
  pushErrors : ℕ := 0

/-- `record`: one tick, which ends now. -/
def Observer.record (o : Observer) (rep : TickReport) (now : Time) : Observer :=
  let o := { o with
    ticks := o.ticks + 1
    pushErrors := o.pushErrors + if rep.pushErr.isSome then 1 else 0
    pushFailures := if rep.pushErr.isSome then o.pushFailures + 1 else 0 }
  if rep.err.isSome then { o with failures := o.failures + 1, lastErr := rep.err, tickErrors := o.tickErrors + 1 }
  else { o with failures := 0, lastSuccess := now, good := rep }

/-- `recordRetry`: one retry of a buffered snapshot between ticks. -/
def Observer.recordRetry (o : Observer) (err : Option String) : Observer :=
  if err.isSome then { o with pushErrors := o.pushErrors + 1 } else { o with pushFailures := 0 }

/-- What happens to an observer. -/
inductive Event where
  /-- A tick ends. -/
  | tick (rep : TickReport) (now : Time)
  /-- A buffered snapshot is pushed again. -/
  | retry (err : Option String)

/-- The observer after an event. -/
def Observer.step (o : Observer) : Event → Observer
  | .tick rep now => o.record rep now
  | .retry err => o.recordRetry err

/-- The observer after a run. -/
def after (events : List Event) : Observer := events.foldl Observer.step {}

/-! ## Readiness -/

/-- `tickTimeout`. -/
def tickTimeout (interval : ℤ) : ℤ := min (interval / 2) (5 * minute)

/-- `readyWindow`. -/
def readyWindow (interval : ℤ) : ℤ := 2 * interval + tickTimeout interval

/-- `staleAfterFailedTicks`. -/
def staleAfterFailedTicks : ℕ := 3

/-- `staleGrace`. -/
def staleGrace : ℤ := 12 * minute

/-- `verdictStale`: the last good verdict is too old to export. -/
def Observer.verdictStale (o : Observer) (interval : ℤ) (now : Time) : Bool :=
  staleAfterFailedTicks ≤ o.failures && 2 * interval + staleGrace < now - o.lastSuccess

/-- Why an agent is ready or not. -/
inductive Readiness where
  /-- "no tick has completed yet". -/
  | noTick
  /-- "no successful tick yet". -/
  | noSuccess (err : Option String)
  /-- "last successful tick was … ago (allowed …)". -/
  | old (age allowed : ℤ) (err : Option String)
  /-- "ok". -/
  | ok
  deriving DecidableEq

/-- `readiness`. -/
def Observer.readiness (o : Observer) (interval : ℤ) (now : Time) : Readiness :=
  if o.ticks = 0 then .noTick
  else if o.lastSuccess = 0 then .noSuccess o.lastErr
  else if readyWindow interval < now - o.lastSuccess then .old (now - o.lastSuccess) (readyWindow interval) o.lastErr
  else .ok

/-! ## A scrape -/

/-- The families of series. -/
inductive Desc where
  /-- `upgradescope_agent_last_success_timestamp_seconds`. -/
  | lastSuccess
  /-- `upgradescope_agent_interval_seconds`. -/
  | interval
  /-- `upgradescope_kb_info`. -/
  | kbInfo
  /-- `upgradescope_capability_available`. -/
  | capability
  /-- `upgradescope_capability_partial`. -/
  | capabilityPartial
  /-- `upgradescope_addon_evidence_age_seconds`. -/
  | evidenceAge
  /-- `upgradescope_readiness_score`. -/
  | score
  /-- `upgradescope_readiness_verdict`. -/
  | verdict
  /-- `upgradescope_findings`. -/
  | findings
  deriving DecidableEq

/-- A series of a scrape; times are in nanoseconds. -/
structure Series where
  /-- Its family. -/
  desc : Desc
  /-- Its labels. -/
  labels : List String
  /-- Its value. -/
  value : ℤ
  deriving DecidableEq

/-- What no two series of a scrape may share. -/
def Series.key (s : Series) : Desc × List String := (s.desc, s.labels)

/-- `boolValue`. -/
def boolValue (b : Bool) : ℤ := if b then 1 else 0

/-- The text of a verdict. -/
def verdictName : Verdict → String
  | .ready => "ready"
  | .blocked => "blocked"
  | .unknown => "unknown"

/-- `verdicts`. -/
def verdicts : List Verdict := [.ready, .blocked, .unknown]

/-- The findings of a report by severity and category. -/
def findingCounts (r : Report) : AList fun _ : String × String => ℤ :=
  rollup (fun n _ => n.getD 0 + 1) ∅ (r.findings.map fun f => ((f.severity.name, f.category.name), ()))

/-- The series of a capability. -/
def capSeries (e : Sigma fun _ : Capability => CapabilityStatus) : List Series :=
  [⟨.capability, [e.1], boolValue e.2.available⟩, ⟨.capabilityPartial, [e.1], boolValue e.2.partly⟩]

/-- The series of the age of the pods' evidence. -/
def ageSeries (rs : List Report) : List Series :=
  (rs.head?.map fun r => (⟨.evidenceAge, [], r.addOnEvidenceAgeSeconds⟩ : Series)).toList

/-- The series of a target. -/
def targetSeries (r : Report) : List Series :=
  ⟨.score, [r.target.string], r.score⟩ ::
    (verdicts.map (fun v => ⟨.verdict, [r.target.string, verdictName v], boolValue (r.verdict = v)⟩) ++
      (findingCounts r).entries.map fun e => ⟨.findings, [r.target.string, e.1.1, e.1.2], e.2⟩)

/-- The first report of each target. -/
def firstReports (seen : List String) : List Report → List Report
  | [] => []
  | r :: rs => if r.target.string ∈ seen then firstReports seen rs else r :: firstReports (r.target.string :: seen) rs

/-- `Collect`. -/
def Observer.collect (o : Observer) (interval : ℤ) (kbVersion maxKnown : String) (now : Time) : List Series :=
  [⟨.lastSuccess, [], o.lastSuccess⟩, ⟨.interval, [], interval⟩, ⟨.kbInfo, [kbVersion, maxKnown], 1⟩] ++
    if o.verdictStale interval now then []
    else
      o.good.caps.entries.flatMap capSeries ++ ageSeries o.good.reports ++
        (firstReports [] o.good.reports).flatMap targetSeries

/-! ## What an observer holds after a run -/

/-- A tick that succeeded. -/
def Event.good : Event → Option (TickReport × Time)
  | .tick rep now => if rep.err.isSome then none else some (rep, now)
  | .retry _ => none

/-- A tick that failed. -/
def Event.failed : Event → Bool
  | .tick rep _ => rep.err.isSome
  | .retry _ => false

/-- The last tick of a run that succeeded. -/
def lastGood (events : List Event) : Option (TickReport × Time) := events.reverse.findSome? Event.good

/-- The ticks that failed since the last good one. -/
def failedSince (events : List Event) : ℕ := (events.reverse.takeWhile fun e => e.good.isNone).countP Event.failed

/-- What the observer holds. -/
structure Kept (events : List Event) (o : Observer) : Prop where
  /-- It counts the failures since the last good tick. -/
  failures : o.failures = failedSince events
  /-- It keeps that tick, or nothing. -/
  good : o.good = ((lastGood events).map Prod.fst).getD {} ∧ o.lastSuccess = ((lastGood events).map Prod.snd).getD 0
  /-- A failure is a tick. -/
  ticks : o.failures ≤ o.ticks

variable {s : Series} (events : List Event) {r : Report} {rs : List Report}

/-- The last good tick, one event later. -/
theorem lastGood_concat (e : Event) : lastGood (events ++ [e]) = e.good.or (lastGood events) := by
  unfold lastGood
  rw [List.reverse_concat, List.findSome?_cons]
  cases e.good <;> rfl

/-- The observer's state after every run of ticks is what the run leaves. -/
theorem kept_after : Kept events (after events) := by
  induction events using List.reverseRecOn with
  | nil => exact ⟨rfl, ⟨rfl, rfl⟩, le_rfl⟩
  | append_singleton events e ih =>
    have hstep : after (events ++ [e]) = (after events).step e := by
      rw [after, List.foldl_append]
      rfl
    rw [hstep]
    cases e with
    | retry err =>
      have hrest : (after events).step (.retry err) = (after events).recordRetry err := rfl
      have hgood : lastGood (events ++ [.retry err]) = lastGood events := lastGood_concat events _
      have hfailed : failedSince (events ++ [.retry err]) = failedSince events := by
        simp [failedSince, Event.good, Event.failed]
      rw [hrest, Observer.recordRetry]
      split_ifs
      · exact ⟨by rw [hfailed]; exact ih.failures, by rw [hgood]; exact ih.good, ih.ticks⟩
      · exact ⟨by rw [hfailed]; exact ih.failures, by rw [hgood]; exact ih.good, ih.ticks⟩
    | tick rep now =>
      by_cases herr : rep.err.isSome = true
      · -- A failed tick is counted, and the good one stays.
        have hgood : lastGood (events ++ [.tick rep now]) = lastGood events := by
          rw [lastGood_concat, Event.good, if_pos herr, Option.none_or]
        have hfailed : failedSince (events ++ [.tick rep now]) = failedSince events + 1 := by
          simp [failedSince, Event.good, Event.failed, herr]
        have hticks := ih.ticks
        refine ⟨?_, ?_, ?_⟩
        · rw [hfailed, ← ih.failures]
          simp [Observer.step, Observer.record, herr]
        · rw [hgood]
          simpa [Observer.step, Observer.record, herr] using ih.good
        · simpa [Observer.step, Observer.record, herr] using hticks
      · have hgood : lastGood (events ++ [.tick rep now]) = some (rep, now) := by
          rw [lastGood_concat, Event.good, if_neg herr, Option.some_or]
        have hfailed : failedSince (events ++ [.tick rep now]) = 0 := by simp [failedSince, Event.good, herr]
        refine ⟨?_, ?_, ?_⟩
        · rw [hfailed]
          simp [Observer.step, Observer.record, herr]
        · rw [hgood]
          simp [Observer.step, Observer.record, herr]
        · simp [Observer.step, Observer.record, herr]

/-! ## No series twice -/

/-- A target that was seen is not seen again, and the first reports are of different targets. -/
theorem firstReports_targets (seen : List String) (rs : List Report) :
    ((firstReports seen rs).map fun r => r.target.string).Nodup ∧ ∀ r ∈ firstReports seen rs, r.target.string ∉ seen := by
  induction rs generalizing seen with
  | nil => simp [firstReports]
  | cons r rs ih =>
    unfold firstReports
    split_ifs with hseen
    · exact ih seen
    · obtain ⟨hnodup, hunseen⟩ := ih (r.target.string :: seen)
      refine ⟨?_, List.forall_mem_cons.mpr ⟨hseen, fun r' hr' hmem => hunseen r' hr' (List.mem_cons_of_mem _ hmem)⟩⟩
      rw [List.map_cons, List.nodup_cons]
      refine ⟨fun hmem => ?_, hnodup⟩
      obtain ⟨r', hr', heq⟩ := List.mem_map.mp hmem
      exact hunseen r' hr' (by rw [heq]; exact List.mem_cons_self)

/-- The first report of a target is the one that is found first. -/
theorem mem_firstReports {seen : List String} :
    r ∈ firstReports seen rs ↔ r.target.string ∉ seen ∧ rs.find? (fun r' => r'.target.string = r.target.string) = some r := by
  induction rs generalizing seen with
  | nil => simp [firstReports]
  | cons r' rs ih =>
    unfold firstReports
    by_cases htarget : r'.target.string = r.target.string
    · rw [List.find?_cons_of_pos (by simpa using htarget), Option.some_inj]
      split_ifs with hseen
      · rw [ih]
        constructor
        · rintro ⟨hnot, -⟩
          exact absurd (htarget ▸ hseen) hnot
        · rintro ⟨hnot, -⟩
          exact absurd (htarget ▸ hseen) hnot
      · rw [List.mem_cons, ih]
        constructor
        · rintro (rfl | ⟨hnot, -⟩)
          · exact ⟨hseen, rfl⟩
          · exact absurd (by rw [htarget]; exact List.mem_cons_self) hnot
        · rintro ⟨-, rfl⟩
          exact .inl rfl
    · have hne : r ≠ r' := fun heq => htarget (by rw [heq])
      rw [List.find?_cons_of_neg (by simpa using htarget)]
      split_ifs with hseen
      · exact ih
      · rw [List.mem_cons, ih, List.mem_cons, not_or]
        constructor
        · rintro (heq | ⟨⟨-, hnot⟩, hfind⟩)
          · exact absurd heq hne
          · exact ⟨hnot, hfind⟩
        · rintro ⟨hnot, hfind⟩
          exact .inr ⟨⟨fun heq => htarget heq.symm, hnot⟩, hfind⟩

/-- The series of a target are of three families, and name the target first. -/
theorem mem_targetSeries (h : s ∈ targetSeries r) :
    s.desc ∈ [Desc.score, .verdict, .findings] ∧ s.labels.head? = some r.target.string := by
  simp only [targetSeries, List.mem_cons, List.mem_append, List.mem_map] at h
  obtain rfl | ⟨v, -, rfl⟩ | ⟨e, -, rfl⟩ := h
  · exact ⟨by simp, rfl⟩
  · exact ⟨by simp, rfl⟩
  · exact ⟨by simp, rfl⟩

/-- No two series of one target are the same. -/
theorem nodup_targetSeries (r : Report) : ((targetSeries r).map Series.key).Nodup := by
  have hfindings : ((findingCounts r).entries.map fun e => (Desc.findings, [r.target.string, e.1.1, e.1.2])).Nodup := by
    have hkeys : (findingCounts r).entries.keys.Nodup := (findingCounts r).nodupKeys
    have hmap := hkeys.map (f := fun k : String × String => (Desc.findings, [r.target.string, k.1, k.2])) fun a b hab => by
      simp only [Prod.mk.injEq, List.cons.injEq, true_and, and_true] at hab
      exact Prod.ext hab.1 hab.2
    rw [List.keys, List.map_map] at hmap
    exact hmap
  have hkeys : (targetSeries r).map Series.key = (Desc.score, [r.target.string]) ::
      ((verdicts.map fun v => (Desc.verdict, [r.target.string, verdictName v])) ++
        (findingCounts r).entries.map fun e => (Desc.findings, [r.target.string, e.1.1, e.1.2])) := by
    simp [targetSeries, Series.key, List.map_map, Function.comp_def]
  rw [hkeys, List.nodup_cons, List.nodup_append]
  refine ⟨by simp, by simp [verdicts, verdictName], hfindings, ?_⟩
  intro a ha b hb
  obtain ⟨v, -, rfl⟩ := List.mem_map.mp ha
  obtain ⟨e, -, rfl⟩ := List.mem_map.mp hb
  simp

/-- The series of capabilities are of two families. -/
theorem desc_of_mem_capSeries {caps : AList fun _ : Capability => CapabilityStatus}
    (h : s ∈ caps.entries.flatMap capSeries) : s.desc = .capability ∨ s.desc = .capabilityPartial := by
  obtain ⟨e, -, h⟩ := List.mem_flatMap.mp h
  simp only [capSeries, List.mem_cons, List.not_mem_nil, or_false] at h
  obtain rfl | rfl := h <;> simp

/-- A series of the evidence's age has the description of one. -/
theorem desc_of_mem_ageSeries (h : s ∈ ageSeries rs) : s.desc = .evidenceAge := by
  rw [ageSeries, Option.mem_toList, Option.map_eq_some_iff] at h
  obtain ⟨r, -, rfl⟩ := h
  rfl

/-- Series of different families are not one. -/
theorem nodup_append_of_desc {l l' : List Series} (hl : (l.map Series.key).Nodup) (hl' : (l'.map Series.key).Nodup)
    (h : ∀ s ∈ l, ∀ s' ∈ l', s.desc ≠ s'.desc) : ((l ++ l').map Series.key).Nodup := by
  rw [List.map_append, List.nodup_append]
  refine ⟨hl, hl', fun a ha b hb heq => ?_⟩
  obtain ⟨s, hs, rfl⟩ := List.mem_map.mp ha
  obtain ⟨s', hs', rfl⟩ := List.mem_map.mp hb
  exact h s hs s' hs' (congrArg Prod.fst heq)

/-- No two series of the capabilities are the same. -/
theorem nodup_capSeries (caps : AList fun _ : Capability => CapabilityStatus) :
    ((caps.entries.flatMap capSeries).map Series.key).Nodup := by
  rw [List.map_flatMap, List.nodup_flatMap]
  refine ⟨fun e _ => by simp [capSeries, Series.key], ?_⟩
  have hkeys : caps.entries.Pairwise fun e e' => e.1 ≠ e'.1 := List.nodupKeys_iff_pairwise.mp caps.nodupKeys
  refine hkeys.imp fun {e e'} hne => ?_
  intro k hk hk'
  simp only [capSeries, Series.key, List.map_cons, List.map_nil, List.mem_cons, List.not_mem_nil, or_false] at hk hk'
  obtain rfl | rfl := hk <;> simp [hne] at hk'

/-- No two series of the targets are the same. -/
theorem nodup_reportSeries (rs : List Report) : (((firstReports [] rs).flatMap targetSeries).map Series.key).Nodup := by
  rw [List.map_flatMap, List.nodup_flatMap]
  refine ⟨fun r _ => nodup_targetSeries r, ?_⟩
  have htargets := (firstReports_targets [] rs).1
  rw [List.Nodup, List.pairwise_map] at htargets
  refine htargets.imp fun {r r'} hne => ?_
  intro k hk hk'
  obtain ⟨s, hs, rfl⟩ := List.mem_map.mp hk
  obtain ⟨s', hs', heq⟩ := List.mem_map.mp hk'
  have hlabels : s'.labels = s.labels := congrArg Prod.snd heq
  have hhead := (mem_targetSeries hs').2
  rw [hlabels, (mem_targetSeries hs).2] at hhead
  exact hne (Option.some.inj hhead)

/-- No two series of a scrape are one, whatever the reports and their targets. -/
theorem nodup_collect (o : Observer) (interval : ℤ) (kbVersion maxKnown : String) (now : Time) :
    ((o.collect interval kbVersion maxKnown now).map Series.key).Nodup := by
  have htargets : ∀ s ∈ (firstReports [] o.good.reports).flatMap targetSeries, s.desc ∈ [Desc.score, .verdict, .findings] := by
    intro s hs
    obtain ⟨r, -, hs⟩ := List.mem_flatMap.mp hs
    exact (mem_targetSeries hs).1
  have hone : ((ageSeries o.good.reports).map Series.key).Nodup := by
    unfold ageSeries
    cases o.good.reports.head? <;> simp
  have hall := nodup_append_of_desc (nodup_append_of_desc (nodup_capSeries o.good.caps) hone fun s hs s' hs' => ?_)
    (nodup_reportSeries o.good.reports) fun s hs s' hs' => ?_
  · unfold Observer.collect
    refine nodup_append_of_desc (by simp [Series.key]) ?_ fun s hs s' hs' => ?_
    · split_ifs
      · simp
      · exact hall
    · split_ifs at hs'
      · simp at hs'
      · simp only [List.mem_cons, List.not_mem_nil, or_false] at hs
        rw [List.mem_append, List.mem_append] at hs'
        obtain (hs' | hs') | hs' := hs'
        · obtain h | h := desc_of_mem_capSeries hs' <;> obtain rfl | rfl | rfl := hs <;> simp [h]
        · have h := desc_of_mem_ageSeries hs'
          obtain rfl | rfl | rfl := hs <;> simp [h]
        · have h := htargets s' hs'
          intro heq
          rw [← heq] at h
          obtain rfl | rfl | rfl := hs <;> simp at h
  · rw [desc_of_mem_ageSeries hs']
    obtain h | h := desc_of_mem_capSeries hs <;> simp [h]
  · have h := htargets s' hs'
    intro heq
    rw [← heq] at h
    rw [List.mem_append] at hs
    obtain hs | hs := hs
    · obtain h' | h' := desc_of_mem_capSeries hs <;> simp [h'] at h
    · simp [desc_of_mem_ageSeries hs] at h

/-! ## What is told -/

/-- The findings of one severity and category. -/
def countOf (r : Report) (severity category : String) : ℕ :=
  r.findings.countP fun f => (f.severity.name, f.category.name) = (severity, category)

/-- The findings of a severity and a category are counted if there are some. -/
theorem lookup_findingCounts (r : Report) (severity category : String) :
    (findingCounts r).lookup (severity, category) =
      if countOf r severity category = 0 then none else some (countOf r severity category : ℤ) := by
  have hunits : (((r.findings.map fun f => ((f.severity.name, f.category.name), ())).filter
      (·.1 = (severity, category))).map Prod.snd).length = countOf r severity category := by
    rw [List.length_map, ← List.countP_eq_length_filter, List.countP_map]
    rfl
  rw [findingCounts, lookup_rollup, AList.lookup_empty, ← hunits]
  generalize ((r.findings.map fun f => ((f.severity.name, f.category.name), ())).filter
    (·.1 = (severity, category))).map Prod.snd = units
  split_ifs with hnone
  · rw [List.eq_nil_of_length_eq_zero hnone]
    rfl
  · obtain ⟨n, hn⟩ := Option.isSome_iff_exists.mp
      ((row_isSome (fun (n : Option ℤ) (_ : Unit) => n.getD 0 + 1) units).mpr (List.ne_nil_of_length_pos (by omega)))
    rw [hn]
    congr 1
    refine row_induction (P := fun l (b : ℤ) => b = l.length) (fun a => rfl) (fun l a b hb => ?_) hn
    rw [hb, List.length_append, List.length_singleton]
    push_cast
    rfl

/-- The series of a family of targets are those of the first report of each target of the last good tick. -/
theorem mem_collect_of_target {events : List Event} {interval : ℤ} {kbVersion maxKnown : String} {now : Time}
    (hdesc : s.desc = .verdict ∨ s.desc = .findings) :
    s ∈ (after events).collect interval kbVersion maxKnown now ↔ (after events).verdictStale interval now = false ∧
      ∃ rep t r, lastGood events = some (rep, t) ∧
        rep.reports.find? (fun r' => r'.target.string = r.target.string) = some r ∧ s ∈ targetSeries r := by
  obtain ⟨hgood, -⟩ := (kept_after events).good
  have hother : s ∉ [(⟨.lastSuccess, [], (after events).lastSuccess⟩ : Series), ⟨.interval, [], interval⟩,
      ⟨.kbInfo, [kbVersion, maxKnown], 1⟩] := by
    simp only [List.mem_cons, List.not_mem_nil, or_false]
    rintro (rfl | rfl | rfl) <;> simp at hdesc
  have hcaps : s ∉ (after events).good.caps.entries.flatMap capSeries := by
    intro hs
    obtain h | h := desc_of_mem_capSeries hs <;> simp [h] at hdesc
  have hage : s ∉ ageSeries (after events).good.reports := by
    intro hs
    simp [desc_of_mem_ageSeries hs] at hdesc
  unfold Observer.collect
  rw [List.mem_append, or_iff_right hother]
  by_cases hstale : (after events).verdictStale interval now = true
  · simp [hstale]
  · rw [if_neg hstale, List.mem_append, List.mem_append, or_iff_right hcaps, or_iff_right hage, List.mem_flatMap]
    simp only [Bool.not_eq_true] at hstale
    simp only [hstale, true_and, mem_firstReports, List.not_mem_nil, not_false_eq_true, true_and]
    rw [hgood]
    cases hlast : lastGood events with
    | none => simp
    | some p =>
      obtain ⟨rep, t⟩ := p
      simp only [Option.map_some, Option.getD_some, Option.some_inj, Prod.mk.injEq]
      constructor
      · rintro ⟨r, hr, hs⟩
        exact ⟨rep, t, r, ⟨rfl, rfl⟩, hr, hs⟩
      · rintro ⟨rep', t', r, ⟨rfl, rfl⟩, hr, hs⟩
        exact ⟨r, hr, hs⟩

/-- The texts of verdicts differ. -/
theorem verdictName_injective {v v' : Verdict} (h : verdictName v = verdictName v') : v = v' := by
  cases v <;> cases v' <;> simp [verdictName] at h ⊢

/-- After any run and at any moment, no two series of a scrape are one, so it never fails as a whole. The verdict and the
findings of a target are exported just as the last good tick's first report of the target has them, unless they are withdrawn;
they are withdrawn when three ticks in a row failed and the last good one is older than two intervals and a grace; and while
they are withdrawn the agent is not ready. -/
theorem scrapes_tell_the_last_good_tick (events : List Event) (interval : ℤ) (kbVersion maxKnown : String) (now : Time) :
    (((after events).collect interval kbVersion maxKnown now).map Series.key).Nodup ∧
    (∀ target v, (⟨.verdict, [target, verdictName v], 1⟩ : Series) ∈ (after events).collect interval kbVersion maxKnown now ↔
      (after events).verdictStale interval now = false ∧ ∃ rep t r, lastGood events = some (rep, t) ∧
        rep.reports.find? (fun r => r.target.string = target) = some r ∧ r.verdict = v) ∧
    (∀ target severity category n,
      (⟨.findings, [target, severity, category], n⟩ : Series) ∈ (after events).collect interval kbVersion maxKnown now ↔
      (after events).verdictStale interval now = false ∧ ∃ rep t r, lastGood events = some (rep, t) ∧
        rep.reports.find? (fun r => r.target.string = target) = some r ∧ 0 < countOf r severity category ∧
        n = countOf r severity category) ∧
    ((after events).verdictStale interval now = true ↔ 3 ≤ failedSince events ∧
      2 * interval + staleGrace < now - ((lastGood events).map Prod.snd).getD 0) ∧
    ((after events).verdictStale interval now = true → (after events).readiness interval now ≠ .ok) := by
  have hkept := kept_after events
  have htarget : ∀ {rs : List Report} {r : Report} {target : String},
      rs.find? (fun r => decide (r.target.string = target)) = some r → r.target.string = target :=
    fun h => by simpa using List.find?_some h
  refine ⟨nodup_collect .., fun target v => ?_, fun target severity category n => ?_, ?_, fun hstale => ?_⟩
  · rw [mem_collect_of_target (.inl rfl)]
    refine and_congr_right fun _ => ⟨?_, ?_⟩
    · rintro ⟨rep, t, r, hlast, hfind, hs⟩
      simp only [targetSeries, List.mem_cons, List.mem_append, List.mem_map, Series.mk.injEq, reduceCtorEq, false_and,
        and_false, exists_false, or_false, false_or] at hs
      obtain ⟨v', -, -, hlabels, hvalue⟩ := hs
      simp only [List.cons.injEq, and_true] at hlabels
      obtain ⟨rfl, hname⟩ := hlabels
      obtain rfl := verdictName_injective hname
      refine ⟨rep, t, r, hlast, hfind, ?_⟩
      simpa [boolValue] using hvalue
    · rintro ⟨rep, t, r, hlast, hfind, rfl⟩
      obtain rfl := htarget hfind
      refine ⟨rep, t, r, hlast, hfind, ?_⟩
      refine List.mem_cons_of_mem _ (List.mem_append_left _ (List.mem_map.mpr ⟨r.verdict, ?_, by simp [boolValue]⟩))
      cases r.verdict <;> simp [verdicts]
  · rw [mem_collect_of_target (.inr rfl)]
    refine and_congr_right fun _ => ⟨?_, ?_⟩
    · rintro ⟨rep, t, r, hlast, hfind, hs⟩
      simp only [targetSeries, List.mem_cons, List.mem_append, List.mem_map, Series.mk.injEq, reduceCtorEq, false_and,
        and_false, exists_false, false_or] at hs
      obtain ⟨e, he, -, hlabels, rfl⟩ := hs
      simp only [List.cons.injEq, and_true] at hlabels
      obtain ⟨rfl, rfl, rfl⟩ := hlabels
      have hlookup : (findingCounts r).lookup e.1 = some e.2 := AList.mem_lookup_iff.mpr he
      rw [lookup_findingCounts] at hlookup
      split_ifs at hlookup with hzero
      exact ⟨rep, t, r, hlast, hfind, Nat.pos_of_ne_zero hzero, (Option.some.inj hlookup).symm⟩
    · rintro ⟨rep, t, r, hlast, hfind, hpos, rfl⟩
      obtain rfl := htarget hfind
      refine ⟨rep, t, r, hlast, hfind, ?_⟩
      have hlookup := lookup_findingCounts r severity category
      rw [if_neg hpos.ne'] at hlookup
      refine List.mem_cons_of_mem _ (List.mem_append_right _ (List.mem_map.mpr ⟨⟨(severity, category), _⟩, ?_, rfl⟩))
      exact AList.mem_lookup_iff.mp hlookup
  · rw [Observer.verdictStale, Bool.and_eq_true, decide_eq_true_eq, decide_eq_true_eq, hkept.failures, hkept.good.2]
    rfl
  · rw [Observer.verdictStale, Bool.and_eq_true, decide_eq_true_eq, decide_eq_true_eq] at hstale
    have hthree : staleAfterFailedTicks = 3 := rfl
    have hticks := hkept.ticks
    have htimeout : tickTimeout interval ≤ 5 * minute := min_le_right ..
    have hwindow : readyWindow interval < now - (after events).lastSuccess := by
      have hminute : (0 : ℤ) < minute := by decide
      unfold readyWindow
      unfold staleGrace at hstale
      omega
    unfold Observer.readiness
    rw [if_neg (by omega), if_pos hwindow]
    split_ifs <;> simp

end UpgradeScope.Observe
