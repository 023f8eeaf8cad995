import UpgradeScope.Engine.Budget
import UpgradeScope.Server.Passes
import Mathlib.Data.List.TakeWhile

/-!
# Baselines at the commit

Passes read baselines at any moment and commit later, while others commit in between. A push names in its batch
every baseline it read, and the commit compares them; a re-evaluation that compares with a current evaluation
names that row only, and the commit checks that it is still the newest of the latest snapshot. Since rows are only
ever added to a cluster's latest snapshot, and a rewrite never changes whether a row is a baseline, that row is then
the target's newest baseline. Here is what a batch must rest on (`Grounded`) for its commit to find that, what a
pass may rely on of the others (`Later`), and what stays true of the world (`Sane`).
-/

namespace UpgradeScope.Passes

open Go Sorting Store Interleave Table Kb

open UpgradeScope.Notify hiding Store Pass step after announced

/-! ## Targets -/

variable {db : DB} {target : String} {now : Time} {r e : Evaluation} {s : Server} {X : External} {b : EvaluationBatch}
  {server : Version} {inv : Inventory} {rep : Report}

/-- A target is the default one or above the server, and no target comes twice. -/
theorem mem_evalTargets {serverVersion : String} {t : Version} (h : t ∈ s.evalTargets serverVersion) :
    ∀ server, version? s.external serverVersion = some server → t = server.next ∨ t.le server = false := by
  intro server hserver
  unfold Server.evalTargets at h
  rw [hserver] at h
  dsimp only at h
  -- Every target that the loop adds is above the server.
  suffices hfold : ∀ (extra targets : List Version), (∀ t ∈ targets, t = server.next ∨ t.le server = false) →
      ∀ t ∈ extra.foldl (fun targets t =>
        if (some server).any (t.le ·) ∨ t ∈ targets then targets else targets ++ [t]) targets,
        t = server.next ∨ t.le server = false by
    exact hfold _ _ (by simp) t h
  intro extra
  induction extra with
  | nil => exact fun targets hall => hall
  | cons u extra ih =>
    intro targets hall
    rw [List.foldl_cons]
    refine ih _ fun v hv => ?_
    split_ifs at hv with hskip
    · exact hall v hv
    · rcases List.mem_append.mp hv with hv | hv
      · exact hall v hv
      · right
        rw [List.mem_singleton.mp hv]
        rw [not_or] at hskip
        simpa using hskip.1

/-- No target is evaluated twice in a pass. -/
theorem nodup_evalTargets (s : Server) (serverVersion : String) : (s.evalTargets serverVersion).Nodup := by
  unfold Server.evalTargets
  dsimp only
  suffices hfold : ∀ (extra targets : List Version), targets.Nodup →
      (extra.foldl (fun targets t =>
        if (version? s.external serverVersion).any (t.le ·) ∨ t ∈ targets then targets
        else targets ++ [t]) targets).Nodup by
    refine hfold _ _ ?_
    cases version? s.external serverVersion <;> simp
  intro extra
  induction extra with
  | nil => exact fun targets hnodup => hnodup
  | cons u extra ih =>
    intro targets hnodup
    rw [List.foldl_cons]
    refine ih _ ?_
    split_ifs with hskip
    · exact hnodup
    · rw [not_or] at hskip
      refine List.nodup_append.mpr ⟨hnodup, by simp, fun a ha b hb => ?_⟩
      rw [List.mem_singleton.mp hb]
      exact fun heq => hskip.2 (heq ▸ ha)

/-- The minors below a default target, in 64-bit arithmetic. -/
theorem lookback_minor {minor : ℤ} (h0 : 0 ≤ minor) (hmax : minor ≤ maxInt) {i : ℕ} (hi : i < upgradeLookback) :
    wrap64 (wrap64 (minor + 1) - 1 - i) = minor - i := by
  unfold upgradeLookback at hi
  unfold maxInt at hmax
  unfold wrap64
  rw [Int.bmod_def, Int.bmod_def]
  split_ifs <;> omega

/-- The minor of a parsed version is within 64 bits and not negative. -/
theorem minor_range {text : String} (h : version? X text = some server) :
    0 ≤ server.minor ∧ server.minor ≤ maxInt := by
  unfold version? at h
  cases hparse : parseVersion X text with
  | error e => simp [hparse, Except.toOption] at h
  | ok v =>
    obtain rfl : v = server := by simpa [hparse, Except.toOption] using h
    exact (parseVersion_range hparse).2

/-- The targets an upgrade looks back at are different, and at or below the server. -/
theorem lookbackTargets_next {text : String} (h : version? X text = some server) :
    (lookbackTargets server.next).Nodup ∧ ∀ v ∈ lookbackTargets server.next, v.le server = true ∧ 0 ≤ v.minor := by
  obtain ⟨h0, hmax⟩ := minor_range h
  have heq : (List.range upgradeLookback).map (fun i : ℕ =>
      (⟨server.next.major, wrap64 (server.next.minor - 1 - i)⟩ : Version)) =
      (List.range upgradeLookback).map fun i : ℕ => (⟨server.major, server.minor - i⟩ : Version) := by
    refine List.map_congr_left fun i hi => ?_
    show (⟨server.major, wrap64 (wrap64 (server.minor + 1) - 1 - i)⟩ : Version) = _
    rw [lookback_minor h0 hmax (List.mem_range.mp hi)]
  unfold lookbackTargets
  rw [heq]
  constructor
  · refine List.Nodup.sublist (List.takeWhile_sublist _) (List.Nodup.map ?_ List.nodup_range)
    intro i j hij
    have := congrArg Version.minor hij
    dsimp only at this
    omega
  · intro v hv
    have hminor := List.mem_takeWhile_imp hv
    obtain ⟨i, -, rfl⟩ := List.mem_map.mp ((List.takeWhile_sublist _).subset hv)
    rw [decide_eq_true_eq] at hminor
    refine ⟨Version.le_iff.mpr (.inr ⟨rfl, ?_⟩), (le_max_right _ _).trans hminor⟩
    show server.minor - i ≤ server.minor
    omega

/-- The next minor is not at or below the server, or it wrapped around. -/
theorem next_notMem_lookback {text : String} (h : version? X text = some server) :
    server.next ∉ lookbackTargets server.next := by
  intro hmem
  obtain ⟨hle, hminor⟩ := (lookbackTargets_next h).2 _ hmem
  obtain ⟨h0, hmax⟩ := minor_range h
  have hnext : server.next.minor = wrap64 (server.minor + 1) := rfl
  rw [Version.le_iff] at hle
  rcases hle with hlt | ⟨-, hle⟩
  · exact absurd hlt (lt_irrefl _)
  · rw [hnext] at hle hminor
    unfold maxInt at hmax
    unfold wrap64 at hle hminor
    rw [Int.bmod_def] at hle hminor
    split_ifs at hle hminor <;> omega

/-- The targets whose baselines the delta of a target may read: its own, and those an upgrade looks back at. -/
def lookups (s : Server) (serverVersion : String) (t : Version) : List Version :=
  t :: if (version? s.external serverVersion).any (·.next = t) then lookbackTargets t else []

/-- The targets a delta may read are different. -/
theorem nodup_lookups (s : Server) (serverVersion : String) (t : Version) :
    (lookups s serverVersion t).Nodup := by
  unfold lookups
  split_ifs with hany
  · obtain ⟨server, hserver, hnext⟩ := (Option.any_eq_true _ _).mp hany
    obtain rfl : server.next = t := of_decide_eq_true hnext
    exact List.nodup_cons.mpr ⟨next_notMem_lookback hserver, (lookbackTargets_next hserver).1⟩
  · simp

/-- The deltas of two targets of a pass read no baseline of one target: other targets are above the server, and an
upgrade looks back at or below it. -/
theorem lookups_disjoint {judged reported : String} (hagree : reported = "" ∨ judged = reported) {t t' : Version}
    (ht : t ∈ s.evalTargets judged) (ht' : t' ∈ s.evalTargets judged) (hne : t ≠ t') :
    ∀ v ∈ lookups s reported t, v ∉ lookups s reported t' := by
  -- The server version of a report that has one is the judged one.
  have hserver : ∀ server, version? s.external reported = some server →
      version? s.external judged = some server := by
    intro server hsome
    rcases hagree with rfl | rfl
    · have hnone : version? s.external "" = none := rfl
      rw [hnone] at hsome
      simp at hsome
    · exact hsome
  have hback : ∀ {u w : Version}, u ∈ s.evalTargets judged → u ≠ w → u ∈ lookups s reported w → False := by
    intro u w hu huw hmem
    unfold lookups at hmem
    rcases List.mem_cons.mp hmem with rfl | hmem
    · exact huw rfl
    · split_ifs at hmem with hany
      · obtain ⟨server, hsome, hnext⟩ := (Option.any_eq_true _ _).mp hany
        obtain rfl : server.next = w := of_decide_eq_true hnext
        have hle := ((lookbackTargets_next hsome).2 u hmem).1
        rcases mem_evalTargets hu server (hserver server hsome) with heq | habove
        · exact huw heq
        · rw [hle] at habove
          simp at habove
      · simp at hmem
  intro v hv hv'
  rcases List.mem_cons.mp hv with rfl | hvback
  · exact hback ht hne hv'
  · rcases List.mem_cons.mp hv' with rfl | hvback'
    · exact hback ht' hne.symm hv
    · -- Only one target is the default one.
      split_ifs at hvback with h1
      · split_ifs at hvback' with h2
        · obtain ⟨server, hsome, hnext⟩ := (Option.any_eq_true _ _).mp h1
          obtain ⟨server', hsome', hnext'⟩ := (Option.any_eq_true _ _).mp h2
          rw [hsome] at hsome'
          obtain rfl := Option.some.inj hsome'
          exact hne ((of_decide_eq_true hnext).symm.trans (of_decide_eq_true hnext'))
        · simp at hvback'
      · simp at hvback

/-! ## New rows -/

/-- An evaluation that gives a row judges the inventory within the limit; the row is of its report, after the rules. -/
theorem evaluation_inv {clusterID : ℕ} {target : Version}
    (h : s.evaluation clusterID inv target now = some (.ok (e, rep))) :
    ∃ judged, evaluateWithin s.fuel s.external inv s.kb target now s.maxReportBytes = some (.ok judged) ∧
      rep = (Suppress.apply s.external { now := now } judged []).1 ∧ e.target = target.string ∧ e.evaluatedAt = now ∧
      e.baseline = notificationBaseline rep ∧ e.blockers = (rep.findings.filter (·.severity = .blocker)).length := by
  unfold Server.evaluation at h
  obtain ⟨result, hrun, hmap⟩ := Option.map_eq_some_iff.mp h
  cases result with
  | error err => simp at hmap
  | ok judged =>
    dsimp only at hmap
    split_ifs at hmap
    simp only [Except.ok.injEq, Prod.mk.injEq] at hmap
    obtain ⟨rfl, rfl⟩ := hmap
    exact ⟨judged, hrun, rfl, rfl, rfl, rfl, rfl⟩

/-- The report of an evaluation is about the inventory and the target. -/
theorem evaluation_report {clusterID : ℕ} {target : Version}
    (h : s.evaluation clusterID inv target now = some (.ok (e, rep))) :
    rep.target = target ∧ rep.serverVersion = inv.serverVersion ∧ e.target = target.string ∧
      e.baseline = notificationBaseline rep ∧ (e.baseline = false → e.blockers = 0) := by
  obtain ⟨judged, hrun, hrep, htarget, -, hbase, hblockers⟩ := evaluation_inv h
  -- The report of the engine is `reportOf` its findings.
  obtain ⟨found, -, rfl⟩ := foundFindings_of_within hrun
  have hverdict : rep.verdict = verdictFor rep.findings rep.notAssessed ∧ rep.target = target ∧
      rep.serverVersion = inv.serverVersion := by
    rw [hrep]
    unfold Suppress.apply
    dsimp only
    split_ifs <;> exact ⟨rfl, rfl, rfl⟩
  refine ⟨hverdict.2.1, hverdict.2.2, htarget, hbase, fun hundecided => ?_⟩
  -- A report that is no baseline is undecided, so nothing blocks.
  have hunknown : rep.verdict = .unknown := by
    by_contra hne
    simp [hbase, notificationBaseline, hne] at hundecided
  rw [hblockers, List.length_eq_zero_iff, List.filter_eq_nil_iff]
  intro f hf hsev
  have hblocked : verdictFor rep.findings rep.notAssessed = .blocked :=
    verdictFor_eq_blocked.mpr ⟨f, hf, of_decide_eq_true hsev⟩
  rw [← hverdict.1, hunknown] at hblocked
  simp at hblocked

/-- The loop over the targets that an upgrade looks back at only looks. -/
theorem lookback_looks (clusterID : ℕ) (vs : List Version) (read : AList fun _ : String => ℕ) :
    Looks (lookback clusterID vs read) fun _ => True := by
  induction vs generalizing read with
  | nil => exact trivial
  | cons v vs ih =>
    refine Looks.bind (Looks.read fun w => ?_)
    cases w.db.latestKnownEvaluation clusterID v.string with
    | none => exact ih _
    | some prev => exact trivial

/-- Loading a baseline only looks. -/
theorem loadBaseline_looks (s : Server) (clusterID : ℕ) (cur : Report) :
    Looks (loadBaseline s clusterID cur) fun _ => True := by
  refine Looks.bind (Looks.read fun w => ?_)
  cases w.db.latestKnownEvaluation clusterID cur.target.string with
  | some prev => exact trivial
  | none =>
    show Looks (upgradeBaseline s clusterID cur _) _
    unfold upgradeBaseline
    cases version? s.external cur.serverVersion with
    | none => exact trivial
    | some server =>
      dsimp only
      split_ifs
      · exact lookback_looks clusterID _ _
      · exact trivial

/-- The store's condition of a baseline is the server's. -/
theorem known_eq_isBaseline (e : Evaluation) : e.known = isBaseline e := by
  unfold Evaluation.known isBaseline verdictOf storedVerdict
  cases e.ready <;> by_cases hb : 0 < e.blockers <;> simp [hb]

/-! ## What is true of every commit -/

/-- The cluster of a batch. -/
def CommitRecord.clusterID (c : CommitRecord) : ℕ := (c.batch.cluster.map (·.id)).getD c.batch.clusterID

/-- A commit wrote its batch. -/
def CommitRecord.Wrote (c : CommitRecord) : Prop := ∃ db snapID, c.result = .ok (db, snapID, false)

/-- A commit rewrote a row. -/
def CommitRecord.Rewrites (c : CommitRecord) (id : ℕ) : Prop := c.Wrote ∧ ∃ e ∈ c.batch.refresh, e.id = id

/-- A row is the newest baseline of a cluster and target, or, when the target has none, of the nearest target below
it that an upgrade looks back at. -/
def NewestBaseline (db : DB) (clusterID : ℕ) (target : Version) (id : ℕ) : Prop :=
  (∃ r, db.latestKnownEvaluation clusterID target.string = some r ∧ r.id = id) ∨
    (db.latestKnownEvaluation clusterID target.string = none ∧
      ∃ nearer lower farther, lookbackTargets target = nearer ++ lower :: farther ∧
        (∀ t ∈ nearer, db.latestKnownEvaluation clusterID t.string = none) ∧
        ∃ r, db.latestKnownEvaluation clusterID lower.string = some r ∧ r.id = id)

/-- Every delta with changes that a commit writes was computed against the baseline that is newest at the commit. -/
def CommitRecord.AgainstNewest (c : CommitRecord) : Prop :=
  c.Wrote → ∀ d ∈ c.deltas, d.changes ≠ [] →
    ∃ row, d.against = some row ∧ NewestBaseline c.before c.clusterID d.version row.id

/-- No commit rewrote a row from one moment to another. -/
def Untouched (history : List CommitRecord) (id since moment : ℕ) : Prop :=
  ∀ k c, since ≤ k → k < moment → history[k]? = some c → ¬ c.Rewrites id

/-- Every row that a commit rewrites was read with the content it has before the commit, if nothing rewrote it in
between. -/
def CommitRecord.ReadsStored (c : CommitRecord) (history : List CommitRecord) (moment : ℕ) : Prop :=
  c.Wrote → ∀ e ∈ c.batch.refresh, ∃ r ∈ c.reads, r.row.id = e.id ∧
    (Untouched history e.id r.moment moment → r.row ∈ c.before.evaluations)

/-! ## What passes rely on -/

/-- What a pass may rely on after it looked: rows stay about the same and stay baselines or not, and what changes of
a row was rewritten by a commit. -/
structure Later (w w' : World) : Prop where
  /-- The commits tried before were tried. -/
  history : w.history <+: w'.history
  /-- The rows stay. -/
  rows : ∀ r ∈ w.db.evaluations, ∃ r' ∈ w'.db.evaluations, Keeps r r' ∧ r'.known = r.known ∧
    (r' = r ∨ ∃ k c, w.history.length ≤ k ∧ w'.history[k]? = some c ∧ c.Rewrites r.id)

/-- A world is later than itself. -/
theorem Later.refl (w : World) : Later w w :=
  ⟨List.prefix_rfl, fun r hr => ⟨r, hr, ⟨rfl, rfl, rfl, rfl, rfl, rfl, rfl⟩, rfl, .inl rfl⟩⟩

/-- A commit that was tried stays at its place. -/
theorem getElem?_later {h h' : List CommitRecord} (hpre : h <+: h') {k : ℕ} {c : CommitRecord}
    (hk : h[k]? = some c) : h'[k]? = some c := by
  obtain ⟨rest, rfl⟩ := hpre
  rw [List.getElem?_append_left (List.getElem?_eq_some_iff.mp hk).1]
  exact hk

/-- A world later than a later one is later. -/
theorem Later.trans {a b c : World} (hab : Later a b) (hbc : Later b c) : Later a c := by
  refine ⟨hab.history.trans hbc.history, fun r hr => ?_⟩
  obtain ⟨r₁, hr₁, hkeep₁, hknown₁, hsame₁⟩ := hab.rows r hr
  obtain ⟨r₂, hr₂, hkeep₂, hknown₂, hsame₂⟩ := hbc.rows r₁ hr₁
  refine ⟨r₂, hr₂, ?_, hknown₂.trans hknown₁, ?_⟩
  · constructor
    · exact hkeep₂.id.trans hkeep₁.id
    · exact hkeep₂.clusterID.trans hkeep₁.clusterID
    · exact hkeep₂.snapshotID.trans hkeep₁.snapshotID
    · exact hkeep₂.target.trans hkeep₁.target
    · exact hkeep₂.ready.trans hkeep₁.ready
    · exact hkeep₂.score.trans hkeep₁.score
    · exact hkeep₂.createdAt.trans hkeep₁.createdAt
  · rcases hsame₁ with rfl | ⟨k, d, hk, hd, hrewrites⟩
    · rcases hsame₂ with rfl | ⟨k, d, hk, hd, hrewrites⟩
      · exact .inl rfl
      · exact .inr ⟨k, d, hab.history.length_le.trans hk, hd, hrewrites⟩
    · exact .inr ⟨k, d, hk, getElem?_later hbc.history hd, hrewrites⟩

/-- What is true of the world in every run. -/
structure Sane (w : World) : Prop where
  /-- The tables are keyed. -/
  keyed : w.db.Keyed
  /-- The evaluations are in the order of their snapshots. -/
  ordered : w.db.Ordered
  /-- A snapshot is judged at the version its inventory reports, when it reports one. -/
  versions : ∀ s ∈ w.db.snapshots,
    s.inventory.serverVersion = "" ∨ s.serverVersion = s.inventory.serverVersion
  /-- Every commit that was tried answered as `CommitEvaluations` does. -/
  answers : ∀ c ∈ w.history, ∃ now, c.result = commitEvaluations now c.batch c.before
  /-- Deltas were computed against the newest baselines. -/
  against : ∀ c ∈ w.history, c.AgainstNewest
  /-- Rewritten rows were read as they are stored. -/
  reads : ∀ (k : ℕ) (c : CommitRecord), w.history[k]? = some c → c.ReadsStored w.history k

/-- What happens around passes touches neither the store nor the commits. -/
theorem env_sane (e : Env) {w : World} (h : Sane w) : Sane (env e w) ∧ Later w (env e w) := by
  cases e with
  | clock now =>
    exact ⟨{ h with }, (Later.refl w).history, (Later.refl w).rows⟩
  | random id =>
    exact ⟨{ h with }, (Later.refl w).history, (Later.refl w).rows⟩

/-! ## What a batch rests on -/

/-- A map of baselines read says that an id was the newest baseline of a target, or of the nearest one an upgrade
looks back at. -/
def Loaded (read : AList fun _ : String => ℕ) (target : Version) (id : ℕ) : Prop :=
  0 < id ∧ (read.lookup target.string = some id ∨
    read.lookup target.string = some 0 ∧
      ∃ nearer lower farther, lookbackTargets target = nearer ++ lower :: farther ∧
        (∀ t ∈ nearer, read.lookup t.string = some 0) ∧ read.lookup lower.string = some id)

/-- The commit of a batch checks the baseline of a delta: it is the current row the pass compared with, or a
baseline the batch expects. -/
def Checked (past : List World) (b : EvaluationBatch) (d : TargetDelta) (row : Evaluation) : Prop :=
  (b.cluster = none ∧ b.snapshot = none ∧ b.current.lookup d.version.string = some row.id ∧
    isBaseline row = true ∧ ∃ w ∈ past, row ∈ w.db.evaluations) ∨
  ((∀ c, b.cluster = some c → c.id ≠ 0) ∧ ∃ x, b.expect = some x ∧ Loaded x.baselines d.version row.id)

/-- What a batch rests on of what the pass saw. -/
structure Grounded (past : List World) (p : PassBatch) : Prop where
  /-- A rewritten row was read, and its status as a baseline stays. -/
  refresh : ∀ e ∈ p.batch.refresh, ∃ r ∈ p.reads, r.row.id = e.id ∧ isBaseline r.row = e.baseline ∧
    (e.baseline = false → e.blockers = 0) ∧ ∃ w ∈ past, r.row ∈ w.db.evaluations ∧ r.moment = w.history.length
  /-- The commit checks the baselines of the deltas. -/
  deltas : ∀ d ∈ p.deltas, d.changes ≠ [] → ∃ row, d.against = some row ∧ Checked past p.batch d row
  /-- A pushed snapshot is judged at the version it reports. -/
  snapshot : ∀ snap, p.batch.snapshot = some snap →
    snap.inventory.serverVersion = "" ∨ snap.serverVersion = snap.inventory.serverVersion

/-! ## The checks of a commit -/

/-- A commit passed the check of the baselines it expects. -/
theorem latestKnownID_of_checkExpectation {clusterID latestID : ℕ} {x : Expectation} (hx : b.expect = some x)
    (h : checkExpectation b clusterID latestID db = .ok ()) {id : ℕ} (hread : x.baselines.lookup target = some id) :
    db.latestKnownID clusterID target = id := by
  unfold checkExpectation at h
  rw [hx] at h
  dsimp only at h
  split_ifs at h
  cases hfind : (sortOn (·.1) x.baselines.entries).find? fun e => db.latestKnownID clusterID e.1 ≠ e.2 with
  | some e =>
    rw [hfind] at h
    simp at h
  | none =>
    have hmem : (⟨target, id⟩ : Sigma fun _ : String => ℕ) ∈ sortOn (·.1) x.baselines.entries :=
      mem_sortOn.mpr (AList.mem_lookup_iff.mp hread)
    have := List.find?_eq_none.mp hfind _ hmem
    simpa using this

/-- A commit passed the check of the current rows. -/
theorem snapshotEvaluationID_of_checkCurrent (h : checkCurrent b db = .ok ()) {id : ℕ}
    (hread : b.current.lookup target = some id) :
    db.snapshotEvaluationID b.snapshotID target = id := by
  unfold checkCurrent at h
  cases hfind : b.current.entries.find? fun e => db.snapshotEvaluationID b.snapshotID e.1 ≠ e.2 with
  | some e =>
    rw [hfind] at h
    simp at h
  | none =>
    have := List.find?_eq_none.mp hfind _ (AList.mem_lookup_iff.mp hread)
    simpa using this

/-- A row's id is not 0. -/
theorem id_pos_of_latestKnown (h : db.Keyed) {clusterID : ℕ} (hr : db.latestKnownEvaluation clusterID target = some r) :
    0 < r.id :=
  (h.evaluationsLe r (List.mem_filter.mp (newest_mem hr)).1).1

/-- The id of the newest baseline is 0 when there is none. -/
theorem latestKnown_of_id (h : db.Keyed) {clusterID : ℕ} {id : ℕ} (hid : db.latestKnownID clusterID target = id) :
    (id = 0 → db.latestKnownEvaluation clusterID target = none) ∧
      (0 < id → ∃ r, db.latestKnownEvaluation clusterID target = some r ∧ r.id = id) := by
  unfold DB.latestKnownID at hid
  cases hr : db.latestKnownEvaluation clusterID target with
  | none =>
    rw [hr] at hid
    refine ⟨fun _ => rfl, fun hpos => ?_⟩
    exact absurd hid (Nat.ne_of_lt hpos)
  | some r =>
    rw [hr] at hid
    have hid : r.id = id := hid
    have hpos := id_pos_of_latestKnown h hr
    refine ⟨fun hzero => ?_, fun _ => ⟨r, rfl, hid⟩⟩
    omega

/-- Baselines that a commit expects and finds are the newest. -/
theorem Loaded.newest (h : db.Keyed) {clusterID : ℕ} {read : AList fun _ : String => ℕ} {target : Version} {id : ℕ}
    (hloaded : Loaded read target id) (hcheck : ∀ t v, read.lookup t = some v → db.latestKnownID clusterID t = v) :
    NewestBaseline db clusterID target id := by
  obtain ⟨hpos, hown | ⟨hown, nearer, lower, farther, hsplit, hnearer, hlower⟩⟩ := hloaded
  · exact .inl ((latestKnown_of_id h (hcheck _ _ hown)).2 hpos)
  · refine .inr ⟨(latestKnown_of_id h (hcheck _ _ hown)).1 rfl, nearer, lower, farther, hsplit, ?_, ?_⟩
    · exact fun t ht => (latestKnown_of_id h (hcheck _ _ (hnearer t ht))).1 rfl
    · exact (latestKnown_of_id h (hcheck _ _ hlower)).2 hpos

/-- The newest evaluation of the latest snapshot is its target's newest baseline, if it is one: no row is newer,
since rows of earlier snapshots have lower ids. -/
theorem latestKnown_of_current (hkeyed : db.Keyed) (hordered : db.Ordered) {clusterID : ℕ} {latest : Snapshot}
    (hlatest : db.latestSnapshot clusterID = some latest) (hr : db.snapshotEvaluation latest.id target = some r)
    (hknown : r.known = true) :
    db.latestKnownEvaluation clusterID target = some r := by
  obtain ⟨hmem, hcluster, hmax⟩ := DB.latestSnapshot_spec hlatest
  obtain ⟨hrmem, hrcond⟩ := List.mem_filter.mp (newest_mem hr)
  obtain ⟨hrsnap, hrtarget⟩ := of_decide_eq_true hrcond
  have hrcluster : r.clusterID = clusterID := by
    obtain ⟨s, hs, hid, hc⟩ := hkeyed.judged r hrmem
    have : s = latest := List.inj_on_of_nodup_map hkeyed.snapshotIDs hs hmem (hid.trans hrsnap)
    rw [← hc, this, hcluster]
  unfold DB.latestKnownEvaluation
  refine (newest_eq_some_iff (nodup_filter hkeyed.evaluationIDs _)).mpr ⟨?_, fun e he => ?_⟩
  · exact List.mem_filter.mpr ⟨hrmem, by simp [hrcluster, hrtarget, hknown]⟩
  · obtain ⟨hemem, hecond⟩ := List.mem_filter.mp he
    obtain ⟨hec, het, -⟩ : e.clusterID = clusterID ∧ e.target = target ∧ e.known = true := by
      simpa using hecond
    obtain ⟨s, hs, hid, hsc⟩ := hkeyed.judged e hemem
    have hle : e.snapshotID ≤ latest.id := by
      rw [← hid]
      exact hmax s hs (hsc.trans hec)
    by_contra hlt
    rw [not_le] at hlt
    have hge := hordered r hrmem e hemem (hrcluster.trans hec.symm) hlt.le
    have hsame : e.snapshotID = latest.id := le_antisymm hle (hrsnap ▸ hge)
    have := le_newest hr (List.mem_filter.mpr ⟨hemem, by simp [hsame, het]⟩)
    exact absurd hlt (not_lt.mpr this)

/-! ## A commit -/

/-- What a commit does to the rows there are: it leaves a row or rewrites it by a row of the batch. -/
theorem rows_after_commit {db db' : DB} {snapID : ℕ} {dup : Bool}
    (h : commitEvaluations now b db = .ok (db', snapID, dup)) (hr : r ∈ db.evaluations) :
    ∃ r' ∈ db'.evaluations, r' = r ∨ dup = false ∧ ∃ e ∈ b.refresh, e.id = r.id ∧ r' = refreshRow now e r := by
  obtain ⟨mid, clusterID, hreg, hcases⟩ := commitEvaluations_cases h
  obtain ⟨hsame, -, -⟩ := registerCluster_rows hreg
  have hwritten : ∀ (snapshotID : ℕ) (start : DB), start.evaluations = db.evaluations →
      writeBatch now b clusterID snapshotID start = .ok db' →
      ∃ r' ∈ db'.evaluations, r' = r ∨ ∃ e ∈ b.refresh, e.id = r.id ∧ r' = refreshRow now e r := by
    intro snapshotID start hevals hw
    obtain ⟨g, hg, hafter, -⟩ := writeBatch_spec hw
    refine ⟨g r, ?_, (hg r).imp_right fun ⟨e, he, hid, _, heq⟩ => ⟨e, he, hid, heq⟩⟩
    rw [hafter, hevals]
    exact List.mem_map_of_mem (List.mem_append_left _ hr)
  rcases hcases with ⟨snap, latest, -, -, -, -, rfl⟩ | ⟨snap, -, rfl, -, -, hw⟩ |
    ⟨latest, -, -, -, rfl, -, -, -, hw⟩
  · refine ⟨r, ?_, .inl rfl⟩
    show r ∈ mid.evaluations
    rw [hsame.evaluations]
    exact hr
  · obtain ⟨r', hr', heq⟩ := hwritten _ (insertSnapshot now clusterID snap mid) hsame.evaluations hw
    exact ⟨r', hr', heq.imp_right fun hrow => ⟨rfl, hrow⟩⟩
  · obtain ⟨r', hr', heq⟩ := hwritten _ mid hsame.evaluations hw
    exact ⟨r', hr', heq.imp_right fun hrow => ⟨rfl, hrow⟩⟩

/-- A rewrite that agrees with the row on being a baseline keeps it one, or none. -/
theorem known_refreshRow (hbase : r.known = e.baseline) (hblockers : e.baseline = false → e.blockers = 0) :
    (refreshRow now e r).known = r.known := by
  rw [hbase]
  cases hb : e.baseline with
  | true => simp [refreshRow, Evaluation.known, hb]
  | false =>
    rw [hb] at hbase
    have hready : r.ready = false := by
      by_contra hne
      simp [Evaluation.known, hne] at hbase
    simp [refreshRow, Evaluation.known, hb, hready, hblockers hb]

/-- A row that was read is still there, about the same. -/
theorem row_of_past {w₀ w : World} (hlater : Later w₀ w) (hkeyed : w.db.Keyed) {row r : Evaluation}
    (hrow : row ∈ w₀.db.evaluations) (hr : r ∈ w.db.evaluations) (hid : r.id = row.id) :
    r.known = row.known ∧ (r = row ∨ ∃ k c, w₀.history.length ≤ k ∧ w.history[k]? = some c ∧ c.Rewrites row.id) := by
  obtain ⟨r', hr', hkeep, hknown, hsame⟩ := hlater.rows row hrow
  obtain rfl : r' = r :=
    List.inj_on_of_nodup_map hkeyed.evaluationIDs hr' hr (hkeep.id.trans hid.symm)
  exact ⟨hknown, hsame⟩

section Commit

variable {past : List World} {p : PassBatch} {w : World} (hw : Sane w) (hpast : ∀ d ∈ past, Later d w)
  (hp : Grounded past p)

include hw hpast hp

/-- The world after a commit was tried is later than the one before it. -/
theorem later_committed : Later w (committed p w) := by
  refine ⟨List.prefix_append _ _, fun r hr => ?_⟩
  have hstay : ∃ r' ∈ w.db.evaluations, Keeps r r' ∧ r'.known = r.known ∧
      (r' = r ∨ ∃ k c, w.history.length ≤ k ∧ (committed p w).history[k]? = some c ∧ c.Rewrites r.id) :=
    ⟨r, hr, ⟨rfl, rfl, rfl, rfl, rfl, rfl, rfl⟩, rfl, .inl rfl⟩
  show ∃ r' ∈ (afterCommit (commitEvaluations w.now p.batch w.db) w.db).evaluations, _
  cases hres : commitEvaluations w.now p.batch w.db with
  | error err => exact hstay
  | ok answer =>
    obtain ⟨db', snapID, dup⟩ := answer
    show ∃ r' ∈ db'.evaluations, _
    obtain ⟨r', hr', rfl | ⟨rfl, e, he, hid, rfl⟩⟩ := rows_after_commit hres hr
    · exact ⟨r', hr', ⟨rfl, rfl, rfl, rfl, rfl, rfl, rfl⟩, rfl, .inl rfl⟩
    · -- The pass read this row, and whether it is a baseline has not changed since.
      obtain ⟨read, -, hreadid, hbase, hblockers, w₀, hw₀, hrow, -⟩ := hp.refresh e he
      obtain ⟨hknown, -⟩ := row_of_past (hpast w₀ hw₀) hw.keyed hrow hr (hid.symm.trans hreadid.symm)
      have hagree : r.known = e.baseline := by
        rw [hknown, known_eq_isBaseline, hbase]
      refine ⟨_, hr', ⟨rfl, rfl, rfl, rfl, rfl, rfl, rfl⟩, known_refreshRow hagree hblockers, .inr ?_⟩
      refine ⟨w.history.length, _, le_rfl, List.getElem?_concat_length, ⟨⟨db', snapID, ?_⟩, e, he, hid⟩⟩
      exact hres

omit hpast in
/-- A snapshot's version is its inventory's after a commit too. -/
theorem versions_committed : ∀ s ∈ (committed p w).db.snapshots,
    s.inventory.serverVersion = "" ∨ s.serverVersion = s.inventory.serverVersion := by
  show ∀ s ∈ (afterCommit (commitEvaluations w.now p.batch w.db) w.db).snapshots, _
  cases hres : commitEvaluations w.now p.batch w.db with
  | error err => exact hw.versions
  | ok answer =>
    obtain ⟨db', snapID, dup⟩ := answer
    obtain ⟨mid, clusterID, hreg, hcases⟩ := commitEvaluations_cases hres
    obtain ⟨hsame, -, -⟩ := registerCluster_rows hreg
    intro s hs
    rcases hcases with ⟨snap, latest, -, -, -, -, rfl⟩ | ⟨snap, hsnap, -, -, -, hwrite⟩ |
      ⟨latest, -, -, -, -, -, -, -, hwrite⟩
    · -- A duplicate's envelope sets a version only where there was none.
      obtain ⟨t, ht, rfl⟩ := List.mem_map.mp hs
      rw [hsame.snapshots] at ht
      have := hw.versions t ht
      split_ifs
      · show t.inventory.serverVersion = "" ∨ orElse t.serverVersion snap.serverVersion = t.inventory.serverVersion
        unfold orElse
        split_ifs with hempty
        · rw [hempty] at this
          exact .inl (this.elim id Eq.symm)
        · exact this
      · exact this
    · obtain ⟨g, -, -, hsnaps, -⟩ := writeBatch_spec hwrite
      have hs : s ∈ db'.snapshots := hs
      rw [hsnaps] at hs
      rcases List.mem_append.mp hs with hs | hs
      · rw [hsame.snapshots] at hs
        exact hw.versions s hs
      · rw [List.mem_singleton.mp hs]
        exact hp.snapshot snap hsnap
    · obtain ⟨g, -, -, hsnaps, -⟩ := writeBatch_spec hwrite
      have hs : s ∈ db'.snapshots := hs
      rw [hsnaps, hsame.snapshots] at hs
      exact hw.versions s hs

/-- The deltas of a batch that is written were computed against the newest baselines. -/
theorem against_committed :
    CommitRecord.AgainstNewest ⟨p.batch, p.deltas, p.reads, w.db, commitEvaluations w.now p.batch w.db⟩ := by
  rintro ⟨db', snapID, hres⟩ d hd hchanges
  have hres : commitEvaluations w.now p.batch w.db = .ok (db', snapID, false) := hres
  obtain ⟨row, hagainst, hchecked⟩ := hp.deltas d hd hchanges
  refine ⟨row, hagainst, ?_⟩
  obtain ⟨mid, clusterID, hreg, hcases⟩ := commitEvaluations_cases hres
  obtain ⟨hsame, hnone, hsome⟩ := registerCluster_rows hreg
  have hmid : mid.Keyed := hw.keyed.of_same hsame
  show NewestBaseline w.db ((p.batch.cluster.map (·.id)).getD p.batch.clusterID) d.version row.id
  rcases hchecked with ⟨hcluster, hsnapshot, hcurrent, hbase, w₀, hw₀, hrow⟩ | ⟨hregistered, x, hx, hloaded⟩
  · -- The pass compared with the current row, and the commit found that one.
    have hid := hnone hcluster
    rw [hcluster, Option.map_none, Option.getD_none, ← hid]
    rcases hcases with ⟨snap, -, hsnap, -⟩ | ⟨snap, hsnap, -⟩ | ⟨latest, -, hlatest, hlatestID, -, -, hcheck, -, -⟩
    · simp [hsnapshot] at hsnap
    · simp [hsnapshot] at hsnap
    · have hcur := snapshotEvaluationID_of_checkCurrent hcheck hcurrent
      unfold DB.snapshotEvaluationID at hcur
      rw [hsame.snapshotEvaluation, ← hlatestID] at hcur
      cases hr : w.db.snapshotEvaluation latest.id d.version.string with
      | none =>
        rw [hr] at hcur
        obtain ⟨r, hr', hkeep, -⟩ := (hpast w₀ hw₀).rows row hrow
        have := (hw.keyed.evaluationsLe r hr').1
        rw [hkeep.id, ← show (0 : ℕ) = row.id from hcur] at this
        exact absurd this (lt_irrefl _)
      | some r =>
        rw [hr] at hcur
        have hcur : r.id = row.id := hcur
        have hrmem := (List.mem_filter.mp (newest_mem hr)).1
        obtain ⟨hknown, -⟩ := row_of_past (hpast w₀ hw₀) hw.keyed hrow hrmem hcur
        rw [known_eq_isBaseline row, hbase] at hknown
        exact .inl ⟨r, latestKnown_of_current hw.keyed hw.ordered hlatest hr hknown, hcur⟩
  · -- The pass loaded the baseline, and the commit found it again.
    have hid : (p.batch.cluster.map (·.id)).getD p.batch.clusterID = clusterID := by
      cases hc : p.batch.cluster with
      | none => exact (hnone hc).symm
      | some c =>
        rcases hsome c hc with hzero | heq
        · exact absurd hzero (hregistered c hc)
        · exact heq
    rw [hid]
    refine hloaded.newest hw.keyed fun t v hread => ?_
    have hfound : mid.latestKnownID clusterID t = v := by
      rcases hcases with ⟨snap, latest, -, -, hdup, -⟩ | ⟨snap, -, -, -, hcheck, -⟩ | ⟨latest, -, -, -, -, -, -, hcheck, -⟩
      · simp at hdup
      · exact latestKnownID_of_checkExpectation hx hcheck hread
      · exact latestKnownID_of_checkExpectation hx hcheck hread
    unfold DB.latestKnownID at hfound ⊢
    rwa [hsame.latestKnownEvaluation] at hfound

omit hw in
/-- The rows a batch rewrites were read as they are stored, unless something rewrote them since. -/
theorem reads_committed {history : List CommitRecord} (hhistory : w.history <+: history) :
    CommitRecord.ReadsStored ⟨p.batch, p.deltas, p.reads, w.db, commitEvaluations w.now p.batch w.db⟩ history
      w.history.length := by
  rintro ⟨db', snapID, hres⟩ e he
  have hres : commitEvaluations w.now p.batch w.db = .ok (db', snapID, false) := hres
  obtain ⟨read, hread, hid, -, -, w₀, hw₀, hrow, hmoment⟩ := hp.refresh e he
  refine ⟨read, hread, hid, fun huntouched => ?_⟩
  obtain ⟨r, hr, hkeep, -, rfl | ⟨k, c, hk, hc, hrewrites⟩⟩ := (hpast w₀ hw₀).rows read.row hrow
  · exact hr
  · -- Something rewrote the row since.
    refine absurd hrewrites ?_
    rw [hid]
    rw [← hmoment] at hk
    exact huntouched k c hk (List.getElem?_eq_some_iff.mp hc).1 (getElem?_later hhistory hc)

/-- A commit keeps the world sane. -/
theorem sane_committed : Sane (committed p w) := by
  have hdb : (committed p w).db.Keyed ∧ (committed p w).db.Ordered := by
    show (afterCommit (commitEvaluations w.now p.batch w.db) w.db).Keyed ∧
      (afterCommit (commitEvaluations w.now p.batch w.db) w.db).Ordered
    cases hres : commitEvaluations w.now p.batch w.db with
    | error err => exact ⟨hw.keyed, hw.ordered⟩
    | ok answer =>
      obtain ⟨db', snapID, dup⟩ := answer
      exact ⟨hw.keyed.commit hres, hw.ordered.commit hw.keyed hres⟩
  refine ⟨hdb.1, hdb.2, versions_committed hw hp, fun c hc => ?_, fun c hc => ?_, fun k c hk => ?_⟩
  · rcases List.mem_append.mp hc with hc | hc
    · exact hw.answers c hc
    · rw [List.mem_singleton.mp hc]
      exact ⟨w.now, rfl⟩
  · rcases List.mem_append.mp hc with hc | hc
    · exact hw.against c hc
    · rw [List.mem_singleton.mp hc]
      exact against_committed hw hpast hp
  · have hprefix : w.history <+: (committed p w).history := List.prefix_append _ _
    -- The entry asked for is an earlier one or the one this commit adds.
    rcases Nat.lt_trichotomy k w.history.length with hlt | rfl | hgt
    · have hk' : w.history[k]? = some c := by
        rwa [show (committed p w).history[k]? = w.history[k]? from List.getElem?_append_left hlt] at hk
      intro hwrote e he
      obtain ⟨r, hr, hid, hstored⟩ := hw.reads k c hk' hwrote e he
      refine ⟨r, hr, hid, fun huntouched => hstored fun j c' hsince hj hc' => ?_⟩
      exact huntouched j c' hsince hj (getElem?_later hprefix hc')
    · rw [show (committed p w).history[w.history.length]? = some _ from List.getElem?_concat_length] at hk
      obtain rfl := Option.some.inj hk
      exact reads_committed hpast hp hprefix
    · have hlen := (List.getElem?_eq_some_iff.mp hk).1
      rw [show (committed p w).history.length = w.history.length + 1 from List.length_append ..] at hlen
      omega

end Commit

end UpgradeScope.Passes
