import UpgradeScope.Engine.UniqueKeys
import UpgradeScope.Server.PassRuns
import UpgradeScope.Suppress.Conserve

/-!
# Refreshing a row in place

A re-evaluation whose result is the stored one rewrites the row and drops the delta it computed. What it compares are
texts: the severities and keys of the findings (`sameResult`), those of the carried heads (`sameHeads`), and whether the
row is a baseline. `refresh_drops_no_change` says that this is enough: where they agree the delta has no change.
-/

namespace UpgradeScope.Passes

open Go Sorting Store Interleave Kb

open UpgradeScope.Notify hiding Store Pass step after announced

/-! ## Stored heads -/

/-- What passes store of a report: its findings are not resolved, have keys of their own that start with their
category, and only blockers are carried as resolved. -/
structure StoredHeads.Sound (heads : StoredHeads) : Prop where
  /-- A finding is not resolved. -/
  found : ∀ h ∈ heads.findings, h.resolved = false
  /-- No two findings share a key. -/
  distinct : (heads.findings.map (·.key)).Nodup
  /-- A key starts with its category. -/
  category : ∀ h ∈ heads.findings, h.key ≠ "" ∧ (cut h.key '/').1 = h.category.name
  /-- A resolved head was a blocker. -/
  resolved : ∀ h ∈ heads.carriedForward, h.resolved = true → h.severity = .blocker

variable {X : External} {rep : Report} {heads : StoredHeads} {s : Server} {unassessed : FindingHead → Bool}
  {x : FindingHead}

/-- The carried heads of a delta: a resolved one was a blocker when those of the baseline were. -/
theorem resolved_computeDelta {prev : List FindingHead} {curr : Report}
    (h : ∀ x ∈ prev, x.resolved = true → x.severity = .blocker) :
    ∀ x ∈ (computeDelta X prev curr unassessed).2, x.resolved = true → x.severity = .blocker := by
  intro x hx hresolved
  rcases List.mem_append.mp hx with hx | hx
  · exact h x (List.mem_filter.mp (mem_of_mem_distinctOn hx)).1 hresolved
  · split_ifs at hx
    · obtain ⟨y, hy, rfl⟩ := List.mem_map.mp hx
      simpa [FindingHead.asResolved] using (List.mem_filter.mp (mem_of_mem_distinctOn hy)).2
    · simp at hx

/-- A pass stores sound heads: from a baseline with sound heads or none, a report whose findings have keys of their own
that start with their category. -/
theorem StoredHeads.Sound.step {S : Notify.Store} {prev : Option StoredHeads}
    (hprev : ∀ heads, prev = some heads → StoredHeads.Sound heads) {p : Notify.Pass}
    (hdistinct : (p.report.findings.map (·.key)).Nodup)
    (hcategory : ∀ f ∈ p.report.findings, f.key ≠ "" ∧ (cut f.key '/').1 = f.category.name) :
    ∀ heads, (Notify.step X S prev p).2 = some heads → StoredHeads.Sound heads := by
  intro heads hstep
  unfold Notify.step at hstep
  -- A pass that is no baseline leaves the stored heads as they are.
  split at hstep
  · exact hprev heads hstep
  obtain rfl := Option.some.inj hstep
  constructor
  · intro h hh
    obtain ⟨f, -, rfl⟩ := List.mem_map.mp hh
    exact readHead_resolved _
  · rw [List.map_map]
    have hkeys : ((fun x : FindingHead => x.key) ∘ fun f => readHead (headOf f)) = (·.key) := by
      funext f
      exact readHead_key (headOf f)
    rw [hkeys]
    exact hdistinct
  · intro h hh
    obtain ⟨f, hf, rfl⟩ := List.mem_map.mp hh
    rw [readHead_key, readHead_category]
    exact hcategory f hf
  · intro h hh hres
    obtain ⟨x, hx, rfl⟩ := List.mem_map.mp hh
    rw [readHead_resolved] at hres
    rw [readHead_severity]
    obtain ⟨y, hy, rfl⟩ := List.mem_map.mp (mem_of_mem_keepCarried hx)
    cases prev with
    | none => simp at hy
    | some stored =>
      -- The baseline is the findings, none of them resolved, and the heads carried before.
      refine resolved_computeDelta (fun z hz hzres => ?_) y hy hres
      rcases List.mem_append.mp hz with hz | hz
      · obtain ⟨w, hw, rfl⟩ := List.mem_map.mp hz
        have := (hprev stored rfl).found w hw
        simp [this] at hzres
      · exact (hprev stored rfl).resolved z hz hzres

/-! ## What the comparisons say -/

/-- A severity's name tells it, and has no separator. -/
theorem severity_name {a b : Severity} : '\x00' ∉ a.name.toList ∧ (a.name = b.name → a = b) := by
  cases a <;> cases b <;> decide

/-- A text that starts with a finding's signature tells the severity and what follows. -/
theorem findingSignature_append_inj {h h' : FindingHead} {t t' : String}
    (heq : findingSignature h ++ t = findingSignature h' ++ t') :
    h.severity = h'.severity ∧ h.ident ++ t = h'.ident ++ t' := by
  have hchars : ∀ (x : FindingHead) (u : String),
      (findingSignature x ++ u).toList = x.severity.name.toList ++ '\x00' :: (x.ident ++ u).toList := by
    intro x u
    simp [findingSignature]
  have hlists := congrArg String.toList heq
  rw [hchars, hchars] at hlists
  obtain ⟨hsev, hrest⟩ := append_sep_inj (@severity_name h.severity h.severity).1
    (@severity_name h'.severity h'.severity).1 hlists
  exact ⟨severity_name.2 (String.toList_injective hsev), String.toList_injective hrest⟩

/-- The same result: the findings of the report have the severities and keys of the stored ones. -/
theorem sameResult_mem {row : Evaluation} {stored : List FindingHead} (h : sameResult row stored rep = true) :
    (∀ f ∈ rep.findings, ∃ x ∈ stored, x.severity = f.severity ∧ x.ident = (headOf f).ident) ∧
      ∀ x ∈ stored, ∃ f ∈ rep.findings, f.severity = x.severity := by
  unfold sameResult at h
  simp only [Bool.and_eq_true, decide_eq_true_eq] at h
  have hmem : ∀ sig, sig ∈ stored.map findingSignature ↔ sig ∈ rep.findings.map fun f => findingSignature (headOf f) := by
    intro sig
    rw [← mem_sorted, h.2, mem_sorted]
  have hsame : ∀ {x y : FindingHead}, findingSignature x = findingSignature y →
      x.severity = y.severity ∧ x.ident = y.ident := by
    intro x y heq
    obtain ⟨hsev, hident⟩ := findingSignature_append_inj (congrArg (· ++ "") heq)
    exact ⟨hsev, by simpa using hident⟩
  constructor
  · intro f hf
    obtain ⟨x, hx, heq⟩ := List.mem_map.mp ((hmem _).mpr (List.mem_map_of_mem hf))
    exact ⟨x, hx, hsame heq⟩
  · intro x hx
    obtain ⟨f, hf, heq⟩ := List.mem_map.mp ((hmem _).mp (List.mem_map_of_mem hx))
    exact ⟨f, hf, (hsame heq).1⟩

/-- The same heads: each one has a head of its severity in the other list. -/
theorem sameHeads_mem {a b : List FindingHead} (h : sameHeads a b = true) : ∀ x ∈ a, ∃ y ∈ b, y.severity = x.severity := by
  intro x hx
  unfold sameHeads at h
  simp only [decide_eq_true_eq] at h
  have hsig := mem_sortedSet.mpr (List.mem_map_of_mem
    (f := fun h : FindingHead => findingSignature h ++ if h.resolved then "\x00resolved" else "") hx)
  rw [h, mem_sortedSet] at hsig
  obtain ⟨y, hy, heq⟩ := List.mem_map.mp hsig
  exact ⟨y, hy, (findingSignature_append_inj heq).1⟩

/-! ## The new report -/

/-- What stays of a finding is the finding, but for its objects and detail. -/
theorem applyFinding_kept {opts : Suppress.Options} {rules : List Suppress.Rule} {f g : Finding}
    (h : (Suppress.applyFinding X opts rules f).kept = some g) : g.category = f.category ∧ g.key = f.key := by
  unfold Suppress.applyFinding at h
  dsimp only at h
  split_ifs at h
  · obtain rfl := Option.some.inj h
    exact ⟨rfl, rfl⟩
  · obtain rfl := Option.some.inj h
    exact ⟨rfl, rfl⟩

/-- The key of an approaching end of life starts with that category. -/
theorem evaluation_eol_key {clusterID : ℕ} {inv : Inventory} {target : Version} {now : Time} {e : Evaluation}
    (h : s.evaluation clusterID inv target now = some (.ok (e, rep))) :
    ∀ f ∈ rep.findings, f.category = .eolApproaching → f.key ≠ "" ∧ (cut f.key '/').1 = "eol-approaching" := by
  intro f hf hcat
  obtain ⟨judged, hrun, rfl, -⟩ := evaluation_inv h
  obtain ⟨found, hfound, rfl⟩ := foundFindings_of_within hrun
  -- What is not the evaluation's own is a caller.
  obtain ⟨g, hg, hkept⟩ := List.mem_flatMap.mp ((Suppress.apply_eq _ _ _ _).1.mem_iff.mp hf)
  obtain ⟨hgcat, hgkey⟩ := applyFinding_kept (Option.mem_toList.mp hkept)
  rcases List.mem_append.mp hg with hg | hg
  · have hkeyed := keyed_of_mem_foundFindings hfound g ((sortOn_perm findingOrder found).mem_iff.mp hg)
    have hcat' : g.category = .eolApproaching := hgcat.symm.trans hcat
    unfold Finding.Keyed at hkeyed
    rw [hcat', if_neg (by simp)] at hkeyed
    obtain ⟨tail, htail⟩ := hasPrefix_iff.mp hkeyed
    have hcut := cut_append '/' Category.eolApproaching.name tail (by decide)
    rw [show String.singleton '/' = "/" from rfl, ← htail, ← hgkey] at hcut
    refine ⟨fun hempty => ?_, by rw [hcut]; rfl⟩
    have hfirst : (cut "" '/').1 = Category.eolApproaching.name := by rw [← hempty, hcut]
    exact absurd hfirst (by decide)
  · obtain ⟨x, -, hx⟩ := List.mem_flatMap.mp hg
    obtain ⟨c, -, rfl⟩ := List.mem_map.mp hx
    rw [hgcat] at hcat
    exact absurd hcat (by simp [Caller.finding])

/-- A stored head of an approaching end of life's severity and key is one. -/
theorem eol_of_key (hsound : StoredHeads.Sound heads) (hx : x ∈ heads.findings) {f : Finding}
    (hsev : x.severity = f.severity) (hident : x.ident = (headOf f).ident) (heol : (headOf f).eolApproaching = true)
    (hkey : f.key ≠ "" ∧ (cut f.key '/').1 = "eol-approaching") :
    x.eolApproaching = true := by
  obtain ⟨hxkey, hxcat⟩ := hsound.category x hx
  have hsame : x.key = f.key := by
    unfold FindingHead.ident headOf at hident
    simpa [hxkey, hkey.1] using hident
  rw [hsame, hkey.2] at hxcat
  have hcat : x.category = .eolApproaching := by
    cases hc : x.category with
    | eolApproaching => rfl
    | unknown name hname =>
      rw [hc] at hxcat
      exact absurd (show "eol-approaching" = name from hxcat) fun heq => hname (by rw [← heq]; decide)
    | _ =>
      rw [hc] at hxcat
      exact absurd hxcat (by decide)
  exact eolApproaching_iff.mpr ⟨hcat, hsev.trans (eolApproaching_iff.mp heol).2⟩

/-- The changes of a delta against a row's own heads: none, when the report has the row's result and what the delta
carries has the row's carried heads. -/
theorem computeDelta_of_same {row : Evaluation} (hsound : StoredHeads.Sound heads)
    (hkeys : ∀ f ∈ rep.findings, f.category = .eolApproaching → f.key ≠ "" ∧ (cut f.key '/').1 = "eol-approaching")
    (hresult : sameResult row heads.findings rep = true)
    (hcarried : ∀ x ∈ heads.carriedForward, ∃ y ∈ (computeDelta X heads.baseline rep unassessed).2,
      y.severity = x.severity) :
    (computeDelta X heads.baseline rep unassessed).1 = [] := by
  obtain ⟨hstored, hreported⟩ := sameResult_mem hresult
  -- A finding of the report is a finding of the row, with what the row found it without.
  have hprev : ∀ f ∈ rep.findings, ∃ x ∈ heads.findings, ∃ b ∈ heads.baseline, x.severity = f.severity ∧
      x.ident = (headOf f).ident ∧ b.ident = x.ident ∧ b.blocker = x.blocker ∧ b.eolApproaching = x.eolApproaching := by
    intro f hf
    obtain ⟨x, hx, hsev, hident⟩ := hstored f hf
    exact ⟨x, hx, _, List.mem_append_left _ (List.mem_map_of_mem hx), hsev, hident, rfl, rfl, rfl⟩
  -- A blocker of the row, resolved or not, is one of the report or carried.
  have hblocks : ∀ b ∈ heads.baseline, b.severity = .blocker →
      (∃ f ∈ rep.findings, f.severity = .blocker) ∨
        ∃ y ∈ (computeDelta X heads.baseline rep unassessed).2, y.severity = .blocker := by
    intro b hb hsev
    rcases List.mem_append.mp hb with hb | hb
    · obtain ⟨x, hx, rfl⟩ := List.mem_map.mp hb
      obtain ⟨f, hf, hfsev⟩ := hreported x hx
      exact .inl ⟨f, hf, hfsev.trans hsev⟩
    · obtain ⟨y, hy, hysev⟩ := hcarried b hb
      exact .inr ⟨y, hy, hysev.trans hsev⟩
  have hnew : ∀ f ∈ rep.findings, (headOf f).blocker = true →
      (headOf f).ident ∈ (heads.baseline.filter FindingHead.blocker).map FindingHead.ident := by
    intro f hf hblocker
    obtain ⟨x, hx, b, hb, hsev, hident, hbident, hbblocker, -⟩ := hprev f hf
    refine List.mem_map.mpr ⟨b, List.mem_filter.mpr ⟨hb, ?_⟩, hbident.trans hident⟩
    rw [hbblocker, blocker_iff, hsev]
    exact ⟨(blocker_iff.mp hblocker).1, hsound.found x hx⟩
  have heol : ∀ f ∈ rep.findings, (headOf f).eolApproaching = true →
      (headOf f).ident ∈ (heads.baseline.filter FindingHead.eolApproaching).map FindingHead.ident := by
    intro f hf heol
    obtain ⟨x, hx, b, hb, hsev, hident, hbident, -, hbeol⟩ := hprev f hf
    refine List.mem_map.mpr ⟨b, List.mem_filter.mpr ⟨hb, ?_⟩, hbident.trans hident⟩
    rw [hbeol]
    exact eol_of_key hsound hx hsev hident heol (hkeys f hf (eolApproaching_iff.mp heol).1)
  unfold computeDelta
  dsimp only
  rw [List.append_eq_nil_iff, List.append_eq_nil_iff, List.map_eq_nil_iff, List.map_eq_nil_iff]
  refine ⟨⟨?_, ?_⟩, ?_⟩
  · rw [List.filter_eq_nil_iff]
    intro f hf
    obtain ⟨hmem, hblocker⟩ := List.mem_filter.mp (mem_of_mem_distinctOn hf)
    simp [hnew f hmem hblocker]
  · -- A row with a blocker, resolved or not, has one in the report or carried, so some are left.
    rw [if_neg]
    simp only [Bool.and_eq_true, decide_eq_true_eq]
    rintro ⟨⟨hpending, hnone⟩, hready⟩
    obtain ⟨b, hb, hsev⟩ : ∃ b ∈ heads.baseline, b.severity = .blocker := by
      rw [Bool.or_eq_true] at hpending
      rcases hpending with hpending | hpending
      · obtain ⟨k, hk⟩ := List.exists_mem_of_ne_nil _ (by simpa using hpending :
          (heads.baseline.filter FindingHead.blocker).map FindingHead.ident ≠ [])
        obtain ⟨b, hb, -⟩ := List.mem_map.mp hk
        obtain ⟨hmem, hblocker⟩ := List.mem_filter.mp hb
        exact ⟨b, hmem, (blocker_iff.mp hblocker).1⟩
      · obtain ⟨b, hb, hresolved⟩ := List.any_eq_true.mp hpending
        refine ⟨b, hb, ?_⟩
        rcases List.mem_append.mp hb with hb | hb
        · obtain ⟨x, hx, rfl⟩ := List.mem_map.mp hb
          exact absurd hresolved (by simp [hsound.found x hx])
        · exact hsound.resolved b hb hresolved
    obtain ⟨hblockers, hleft⟩ := hnone
    rcases hblocks b hb hsev with ⟨f, hf, hfsev⟩ | ⟨y, hy, hysev⟩
    · have hmem : f ∈ rep.findings.filter fun f => (headOf f).blocker :=
        List.mem_filter.mpr ⟨hf, blocker_iff.mpr ⟨hfsev, rfl⟩⟩
      rw [List.isEmpty_iff.mp hblockers] at hmem
      simp at hmem
    · have hy : y ∈ carriedOf heads.baseline rep unassessed := by
        rcases List.mem_append.mp hy with hy | hy
        · exact hy
        · simp [hready] at hy
      have hkind := (List.mem_filter.mp (mem_of_mem_distinctOn hy)).2
      simp only [Bool.and_eq_true, Bool.or_eq_true] at hkind
      rcases hkind.1.1 with hblocker | heol
      · have hany : (carriedOf heads.baseline rep unassessed).any FindingHead.blocker = true :=
          List.any_eq_true.mpr ⟨y, hy, hblocker⟩
        simp [hany] at hleft
      · rw [(eolApproaching_iff.mp heol).2] at hysev
        simp at hysev
  · rw [List.filter_eq_nil_iff]
    intro f hf
    obtain ⟨hmem, heolf⟩ := List.mem_filter.mp (mem_of_mem_distinctOn hf)
    simp [heol f hmem heolf]

/-! ## The refresh -/

/-- What is kept of stamped heads are heads of the delta, with their severities. -/
theorem severity_of_mem_keepCarried {hold : CallsHold} {carried : List FindingHead}
    (h : x ∈ s.keepCarried rep (hold.stamp carried)) : ∃ y ∈ carried, y.severity = x.severity := by
  obtain ⟨y, hy, rfl⟩ := List.mem_map.mp (mem_of_mem_keepCarried h)
  exact ⟨y, hy, rfl⟩

/-- A refresh in place swallows no change: for every stored row whose report decodes to sound heads, every new report of
an evaluation and every hold, whatever the delta's reads return, a re-evaluation that takes the refresh branch, where
the deltas stay as they were, has computed a delta without changes. -/
theorem refresh_drops_no_change {s : Server} {clusterID : ℕ} {inv : Inventory} {target : Version} {now : Time}
    {e : Evaluation} {rep : Report} (heval : s.evaluation clusterID inv target now = some (.ok (e, rep)))
    {row : Evaluation} {heads : StoredHeads} (hdecode : s.decodeReport row.report = some heads)
    (hsound : StoredHeads.Sound heads) (hold : CallsHold) (p : PassBatch) (moment : ℕ) :
    Looks (deltaFor s clusterID e rep ((s.decodeReport row.report).bind fun heads =>
        if isBaseline row then some (row, heads.baseline) else none) (unassessedIn rep hold)) fun d =>
      let carried := s.keepCarried rep (hold.stamp d.carried)
      (p.reevaluated s target (some row) moment (s.decodeReport row.report)
          { e with report := s.encodeReport rep carried } rep { d with carried := carried }).deltas = p.deltas →
        d.changes = [] := by
  rw [hdecode]
  -- The branch that keeps the deltas is the refresh, so its comparisons agree.
  have hbranch : ∀ (e' : Evaluation) (d : TargetDelta), (p.reevaluated s target (some row) moment (some heads) e' rep
      d).deltas = p.deltas → sameResult row heads.findings rep = true ∧ isBaseline row = e'.baseline ∧
        (s.sinks.isEmpty = true ∨ sameHeads heads.carriedForward d.carried = true) := by
    intro e' d hdeltas
    unfold PassBatch.reevaluated at hdeltas
    dsimp only at hdeltas
    by_contra hnot
    rw [if_neg hnot] at hdeltas
    simp at hdeltas
  unfold deltaFor
  dsimp only [Option.bind_some]
  by_cases hsilent : s.sinks.isEmpty = true ∨ ¬ e.baseline = true ∨ clusterID = 0
  · rw [if_pos hsilent]
    exact fun _ => rfl
  rw [if_neg hsilent]
  rw [not_or, not_or, not_not] at hsilent
  by_cases hbase : isBaseline row = true
  · rw [if_pos hbase]
    intro hdeltas
    obtain ⟨hresult, -, hsinks | hheads⟩ := hbranch _ _ hdeltas
    · exact absurd hsinks hsilent.1
    refine computeDelta_of_same hsound (evaluation_eol_key heval) hresult fun x hx => ?_
    obtain ⟨y, hy, hsev⟩ := sameHeads_mem hheads x hx
    obtain ⟨z, hz, hzsev⟩ := severity_of_mem_keepCarried hy
    exact ⟨z, hz, hzsev.trans hsev⟩
  · -- A row that is no baseline is refreshed by a result that is none.
    rw [if_neg hbase]
    have hnever : ∀ d : TargetDelta, (p.reevaluated s target (some row) moment (some heads)
        { e with report := s.encodeReport rep (s.keepCarried rep (hold.stamp d.carried)) } rep
        { d with carried := s.keepCarried rep (hold.stamp d.carried) }).deltas = p.deltas → d.changes = [] := by
      intro d hdeltas
      have hsame : isBaseline row = e.baseline := (hbranch _ _ hdeltas).2.1
      exact absurd (hsame.trans hsilent.2.1) hbase
    refine Looks.bind ((loadBaseline_looks s clusterID rep).imp fun res _ => ?_)
    obtain ⟨prev, baselines⟩ := res
    cases prev with
    | none => exact hnever _
    | some prev =>
      dsimp only
      cases s.decodeReport prev.report with
      | none => exact hnever _
      | some heads => exact hnever _

/-- A use of the API that 1.31 removes. -/
def cronJobs : List APIUsage := [cronJobUse]

/-- The evaluation for 1.31 of the cluster with CronJobs, and its report. -/
def cronJobResult : Option (Evaluation × Report) :=
  (oneAPIServer.evaluation 1 (clusterWith cronJobs) ⟨1, 31⟩ 1).bind Except.toOption

/-- The evaluation of the cluster with CronJobs ends with a report. -/
theorem cronJobResult_isSome : cronJobResult.isSome = true := by decide +kernel

/-- The row of an earlier pass with the same result. -/
def cronJobRow : Evaluation :=
  { id := 1, clusterID := 1, snapshotID := 1, target := "1.31", score := 75, blockers := 1
    report := "removed-api/batch/v1beta1/CronJob" }

/-- A hold on nothing. -/
def noHold : CallsHold := ⟨1, 0, true, fun _ => false, 0⟩

/-- The row is refreshed, and the delta that is dropped has no change. -/
theorem refresh_of_cronJobRow : ∃ e rep, oneAPIServer.evaluation 1 (clusterWith cronJobs) ⟨1, 31⟩ 1 = some (.ok (e, rep)) ∧
    Looks (deltaFor oneAPIServer 1 e rep ((oneAPIServer.decodeReport cronJobRow.report).bind fun heads =>
        if isBaseline cronJobRow then some (cronJobRow, heads.baseline) else none) (unassessedIn rep noHold)) fun d =>
      let carried := oneAPIServer.keepCarried rep (noHold.stamp d.carried)
      (PassBatch.reevaluated { batch := {} } oneAPIServer ⟨1, 31⟩ (some cronJobRow) 0
        (oneAPIServer.decodeReport cronJobRow.report) { e with report := oneAPIServer.encodeReport rep carried } rep
        { d with carried := carried }).deltas = [] ∧ d.changes = [] := by
  have heval : oneAPIServer.evaluation 1 (clusterWith cronJobs) ⟨1, 31⟩ 1 =
      some (.ok ((cronJobResult.get cronJobResult_isSome).1, (cronJobResult.get cronJobResult_isSome).2)) := by
    have hget : cronJobResult = some (cronJobResult.get cronJobResult_isSome) := by simp
    obtain ⟨result, hresult, hok⟩ := Option.bind_eq_some_iff.mp hget
    rw [hresult]
    cases result with
    | error err => exact nomatch hok
    | ok r => rw [Option.some.inj hok]
  have hsound : StoredHeads.Sound ⟨[⟨.removedAPI, .blocker, cronJobRow.report, "", [], 0, false, 0⟩], [], []⟩ := by
    constructor <;> decide
  have hdecode : oneAPIServer.decodeReport cronJobRow.report =
      some ⟨[⟨.removedAPI, .blocker, cronJobRow.report, "", [], 0, false, 0⟩], [], []⟩ := rfl
  refine ⟨_, _, heval, ?_⟩
  have hdropped := refresh_drops_no_change heval hdecode hsound noHold { batch := {} } 0
  -- The branch is decided by evaluation; that the delta is empty is the theorem.
  have hrefresh : Looks (deltaFor oneAPIServer 1 (cronJobResult.get cronJobResult_isSome).1 (cronJobResult.get cronJobResult_isSome).2
      ((oneAPIServer.decodeReport cronJobRow.report).bind fun heads =>
        if isBaseline cronJobRow then some (cronJobRow, heads.baseline) else none)
      (unassessedIn (cronJobResult.get cronJobResult_isSome).2 noHold)) fun d =>
        let carried := oneAPIServer.keepCarried (cronJobResult.get cronJobResult_isSome).2 (noHold.stamp d.carried)
        (PassBatch.reevaluated { batch := {} } oneAPIServer ⟨1, 31⟩ (some cronJobRow) 0
          (oneAPIServer.decodeReport cronJobRow.report)
          { (cronJobResult.get cronJobResult_isSome).1 with report := oneAPIServer.encodeReport (cronJobResult.get cronJobResult_isSome).2 carried }
          (cronJobResult.get cronJobResult_isSome).2 { d with carried := carried }).deltas = [] := by
    unfold deltaFor
    dsimp only
    rw [if_neg (by decide +kernel)]
    have hknown : ((oneAPIServer.decodeReport cronJobRow.report).bind fun heads =>
        if isBaseline cronJobRow then some (cronJobRow, heads.baseline) else none) =
          some (cronJobRow, [⟨.removedAPI, .blocker, cronJobRow.report, "", [], 0, false, 0⟩]) := by
      decide
    rw [hknown]
    show (_ : List TargetDelta) = []
    exact List.isEmpty_iff.mp (by decide +kernel)
  exact (hrefresh.and hdropped).imp fun d ⟨hdeltas, hnone⟩ => ⟨hdeltas, hnone hdeltas⟩

end UpgradeScope.Passes
