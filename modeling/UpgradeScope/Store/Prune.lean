import UpgradeScope.Store.Commits
import UpgradeScope.Lib.Runs

/-!
# Retention

`internal/server/store/prune.go`: a prune deletes what is older than a cutoff in statements that are each a
transaction of their own, of at most a batch of rows: evaluations first, then the baselines of targets no
longer in use, then the snapshots no evaluation refers to. Commits of passes land between any two statements.
`prune_spares` says that whatever lands in between, no statement changes what the server reads: the latest
snapshots, the current evaluations, and the baselines of the targets that are spared.
-/

namespace UpgradeScope.Store

open Go Sorting Table

/-- `PruneBaselines`: for each cluster, the targets whose baselines are spared; a cluster without an entry keeps
every target's. -/
abbrev PruneBaselines := AList fun _ : ℕ => List String

/-- The set spares the baseline of a cluster and target. -/
def PruneBaselines.Spares (b : PruneBaselines) (clusterID : ℕ) (target : String) : Prop :=
  ∀ targets, b.lookup clusterID = some targets → target ∈ targets

/-- `baselinePair`: a cluster and target and its newest baseline. -/
structure BaselinePair where
  /-- The cluster. -/
  clusterID : ℕ
  /-- The target. -/
  target : String
  /-- The evaluation. -/
  id : ℕ

/-- `PruneBaselines.unspared`: the baselines that the set does not spare. -/
def PruneBaselines.unspared (b : PruneBaselines) (pairs : List BaselinePair) : List ℕ :=
  (pairs.filter fun p => (b.lookup p.clusterID).any fun targets => p.target ∉ targets).map (·.id)

/-- `pruneChunk`: the ids one delete of baselines names. -/
def pruneChunk : ℕ := 500

/-- `pruneBatchRows`: the rows one retention transaction deletes. -/
def pruneBatchRows : ℕ := 5000

/-! ## The statements -/

section Statements

variable (cutoff : Time) (batch : ℕ) (db : DB)

/-- The latest snapshot of every cluster, by id. -/
def DB.latestIDs : List ℕ := maxIDs (·.clusterID) (·.id) db.snapshots

/-- The newest baseline of every cluster and target, by id. -/
def DB.baselineIDs : List ℕ := maxIDs (fun e => (e.clusterID, e.target)) (·.id) (db.evaluations.filter (·.known))

/-- The evaluations a prune may delete. -/
def agedOut (e : Evaluation) : Bool :=
  e.createdAt < cutoff ∧ e.snapshotID ∉ db.latestIDs ∧ e.id ∉ db.baselineIDs

/-- `evaluationDrain`: deletes the oldest evaluations that aged out, at most a batch. -/
def drainEvaluations : DB × ℕ :=
  let ids := ((sortOn (fun e => toLex (e.createdAt, e.id)) (db.evaluations.filter (agedOut cutoff db))).take
    batch).map (·.id)
  ({ db with evaluations := db.evaluations.filter (·.id ∉ ids) },
    (db.evaluations.filter (·.id ∈ ids)).length)

/-- The newest baseline of every cluster and target. -/
def baselinePairs : List BaselinePair :=
  let known := db.evaluations.filter (·.known)
  (known.map fun e => (e.clusterID, e.target)).dedup.filterMap fun g =>
    (newest (·.id) (known.filter fun e => (e.clusterID, e.target) = g)).map fun e =>
      ⟨e.clusterID, e.target, e.id⟩

/-- One delete of `pruneBaselines`: of the named evaluations, those that aged out. -/
def deleteBaselines (ids : List ℕ) : DB × ℕ :=
  let gone : Evaluation → Bool := fun e =>
    e.createdAt < cutoff ∧ e.snapshotID ∉ db.latestIDs ∧ e.id ∈ ids
  ({ db with evaluations := db.evaluations.filter (! gone ·) }, (db.evaluations.filter gone).length)

/-- The snapshots a prune may delete. -/
def unreferred (s : Snapshot) : Bool :=
  s.receivedAt < cutoff ∧ s.id ∉ db.latestIDs ∧ ∀ e ∈ db.evaluations, e.snapshotID ≠ s.id

/-- The batched delete of the snapshots no evaluation refers to. -/
def drainSnapshots : DB × ℕ :=
  let ids := ((sortOn (·.id) (db.snapshots.filter (unreferred cutoff db))).take batch).map (·.id)
  ({ db with snapshots := db.snapshots.filter (·.id ∉ ids) }, (db.snapshots.filter (·.id ∈ ids)).length)

end Statements

/-! ## The program -/

/-- Where a prune is between two statements. -/
inductive PrunePhase where
  /-- Deleting evaluations. -/
  | evaluations
  /-- About to look for baselines. -/
  | pairs
  /-- Deleting baselines by id. -/
  | baselines (ids : List ℕ)
  /-- Deleting snapshots. -/
  | snapshots
  /-- Done. -/
  | done

/-- `PruneResult` so far, and what comes next. -/
structure PruneRun where
  /-- The next statement. -/
  phase : PrunePhase := .evaluations
  /-- The snapshots deleted. -/
  snapshots : ℕ := 0
  /-- The evaluations deleted. -/
  evaluations : ℕ := 0

/-- `prune`, one statement at a time. -/
def pruneStep (cutoff : Time) (batch : ℕ) (baselines : PruneBaselines) (run : PruneRun) (db : DB) :
    PruneRun × DB :=
  match run.phase with
  | .evaluations =>
    let (db', n) := drainEvaluations cutoff batch db
    -- A short batch means that nothing is left.
    let next := if n < batch then (if baselines.entries = [] then .snapshots else .pairs) else .evaluations
    ({ run with phase := next, evaluations := run.evaluations + n }, db')
  | .pairs => ({ run with phase := .baselines (baselines.unspared (baselinePairs db)) }, db)
  | .baselines [] => ({ run with phase := .snapshots }, db)
  | .baselines ids =>
    let (db', n) := deleteBaselines cutoff db (ids.take pruneChunk)
    ({ run with phase := .baselines (ids.drop pruneChunk), evaluations := run.evaluations + n }, db')
  | .snapshots =>
    let (db', n) := drainSnapshots cutoff batch db
    ({ run with phase := if n < batch then .done else .snapshots, snapshots := run.snapshots + n }, db')
  | .done => (run, db)

/-- One step of a prune among commits: its next statement, or the commit of a pass. -/
inductive PruneAmongCommits (cutoff : Time) (batch : ℕ) (baselines : PruneBaselines) :
    PruneRun × DB → PruneRun × DB → Prop
  /-- The next statement. -/
  | statement (run : PruneRun) (db : DB) :
    PruneAmongCommits cutoff batch baselines (run, db) (pruneStep cutoff batch baselines run db)
  /-- A commit. -/
  | commit (run : PruneRun) {now : Time} {b : EvaluationBatch} {db db' : DB} {snapID : ℕ} {dup : Bool}
    (h : commitEvaluations now b db = .ok (db', snapID, dup)) :
    PruneAmongCommits cutoff batch baselines (run, db) (run, db')

/-! ## What each statement leaves -/

/-- What the server reads is the same in two databases, but for the baselines of targets that are not
spared. -/
structure ReadsSame (baselines : PruneBaselines) (db db' : DB) : Prop where
  /-- The latest snapshots. -/
  latestSnapshot : ∀ c, db'.latestSnapshot c = db.latestSnapshot c
  /-- The current evaluations. -/
  currentEvaluation : ∀ c t, db'.currentEvaluation c t = db.currentEvaluation c t
  /-- The baselines that are spared. -/
  latestKnownEvaluation : ∀ c t, baselines.Spares c t →
    db'.latestKnownEvaluation c t = db.latestKnownEvaluation c t

/-- The latest snapshot of a cluster is one of the latest. -/
theorem mem_latestIDs {db : DB} {c : ℕ} {s : Snapshot} (h : db.latestSnapshot c = some s) :
    s.id ∈ db.latestIDs := by
  have hc : s.clusterID = c := (DB.latestSnapshot_spec h).2.1
  subst hc
  exact mem_maxIDs.mpr ⟨s, h, rfl⟩

/-- The newest baseline of a cluster and target is one of the newest. -/
theorem mem_baselineIDs {db : DB} {c : ℕ} {t : String} {e : Evaluation}
    (h : db.latestKnownEvaluation c t = some e) : e.id ∈ db.baselineIDs := by
  have hmem := of_decide_eq_true (List.mem_filter.mp (newest_mem h)).2
  obtain ⟨rfl, rfl, -⟩ := hmem
  refine mem_maxIDs.mpr ⟨e, ?_, rfl⟩
  rw [List.filter_filter]
  unfold DB.latestKnownEvaluation at h
  convert h using 3
  funext f
  simp [Prod.ext_iff, Bool.decide_and, Bool.and_assoc]

/-- Deleting evaluations that are not of a latest snapshot leaves the snapshots and current evaluations. -/
theorem currentEvaluation_delete {db : DB} (h : db.Keyed) {keep : Evaluation → Bool}
    (hkeep : ∀ e ∈ db.evaluations, e.snapshotID ∈ db.latestIDs → keep e = true) (c : ℕ) (t : String) :
    ({ db with evaluations := db.evaluations.filter keep } : DB).currentEvaluation c t =
      db.currentEvaluation c t := by
  unfold DB.currentEvaluation
  show (db.latestSnapshot c).bind _ = (db.latestSnapshot c).bind _
  cases hs : db.latestSnapshot c with
  | none => rfl
  | some s =>
    refine newest_filter_filter h.evaluationIDs fun e he => ?_
    have hmem := List.mem_filter.mp (newest_mem he)
    refine hkeep e hmem.1 ?_
    rw [(of_decide_eq_true hmem.2).1]
    exact mem_latestIDs hs

section Deletes

variable {cutoff : Time} {batch : ℕ} {baselines : PruneBaselines} {db : DB} (h : db.Keyed)

include h

/-- The ids an evaluation drain deletes are of evaluations that aged out. -/
theorem agedOut_of_drained {e : Evaluation} (he : e ∈ db.evaluations)
    (hid : e.id ∈ ((sortOn (fun e => toLex (e.createdAt, e.id))
      (db.evaluations.filter (agedOut cutoff db))).take batch).map (·.id)) : agedOut cutoff db e = true := by
  obtain ⟨f, hf, hfe⟩ := List.mem_map.mp hid
  have hmem := List.mem_filter.mp (mem_sortOn.mp (List.mem_of_mem_take hf))
  rw [← List.inj_on_of_nodup_map h.evaluationIDs hmem.1 he hfe]
  exact hmem.2

/-- Draining evaluations changes nothing the server reads. -/
theorem readsSame_drainEvaluations : ReadsSame baselines db (drainEvaluations cutoff batch db).1 := by
  unfold drainEvaluations
  dsimp only
  constructor
  · intro c
    rfl
  · intro c t
    refine currentEvaluation_delete h (fun e he hlatest => ?_) c t
    rw [decide_eq_true_eq]
    intro hid
    exact (of_decide_eq_true (agedOut_of_drained h he hid)).2.1 hlatest
  · intro c t _
    refine newest_filter_filter h.evaluationIDs fun e he => ?_
    rw [decide_eq_true_eq]
    intro hid
    have hmem := (List.mem_filter.mp (newest_mem he)).1
    exact (of_decide_eq_true (agedOut_of_drained h hmem hid)).2.2 (mem_baselineIDs he)

/-- Deleting baselines that are not spared changes nothing else the server reads. -/
theorem readsSame_deleteBaselines {ids : List ℕ}
    (hids : ∀ e ∈ db.evaluations, e.id ∈ ids → ¬ baselines.Spares e.clusterID e.target) :
    ReadsSame baselines db (deleteBaselines cutoff db ids).1 := by
  unfold deleteBaselines
  dsimp only
  constructor
  · intro c
    rfl
  · intro c t
    refine currentEvaluation_delete h (fun e he hlatest => ?_) c t
    simp [hlatest]
  · intro c t hspares
    refine newest_filter_filter h.evaluationIDs fun e he => ?_
    have hmem := List.mem_filter.mp (newest_mem he)
    obtain ⟨hc, ht, -⟩ := of_decide_eq_true hmem.2
    have hnot : e.id ∉ ids := fun hid => hids e hmem.1 hid (by rw [hc, ht]; exact hspares)
    simp [hnot]

/-- The ids a snapshot drain deletes are of snapshots that nothing refers to. -/
theorem unreferred_of_drained {s : Snapshot} (hs : s ∈ db.snapshots)
    (hid : s.id ∈ ((sortOn (·.id) (db.snapshots.filter (unreferred cutoff db))).take batch).map (·.id)) :
    unreferred cutoff db s = true := by
  obtain ⟨r, hr, hrs⟩ := List.mem_map.mp hid
  have hmem := List.mem_filter.mp (mem_sortOn.mp (List.mem_of_mem_take hr))
  rw [← List.inj_on_of_nodup_map h.snapshotIDs hmem.1 hs hrs]
  exact hmem.2

/-- Draining snapshots changes nothing the server reads. -/
theorem readsSame_drainSnapshots : ReadsSame baselines db (drainSnapshots cutoff batch db).1 := by
  have hlatest : ∀ c, (drainSnapshots cutoff batch db).1.latestSnapshot c = db.latestSnapshot c := by
    intro c
    refine newest_filter_filter h.snapshotIDs fun s hs => ?_
    rw [decide_eq_true_eq]
    intro hid
    have hmem := (List.mem_filter.mp (newest_mem hs)).1
    exact (of_decide_eq_true (unreferred_of_drained h hmem hid)).2.1 (mem_latestIDs hs)
  refine ⟨hlatest, fun c t => ?_, fun c t _ => rfl⟩
  unfold DB.currentEvaluation
  rw [hlatest]
  rfl

/-- Deleting evaluations keeps the tables keyed. -/
theorem DB.Keyed.deleteEvaluations (keep : Evaluation → Bool) :
    ({ db with evaluations := db.evaluations.filter keep } : DB).Keyed where
  snapshotIDs := h.snapshotIDs
  snapshotsLe := h.snapshotsLe
  evaluationIDs := nodup_filter h.evaluationIDs keep
  evaluationsLe e he := h.evaluationsLe e (List.mem_filter.mp he).1
  judged e he := h.judged e (List.mem_filter.mp he).1

/-- Draining snapshots keeps the tables keyed: no evaluation loses its snapshot. -/
theorem DB.Keyed.drainSnapshots : (drainSnapshots cutoff batch db).1.Keyed where
  snapshotIDs := nodup_filter h.snapshotIDs _
  snapshotsLe s hs := h.snapshotsLe s (List.mem_filter.mp hs).1
  evaluationIDs := h.evaluationIDs
  evaluationsLe := h.evaluationsLe
  judged e he := by
    obtain ⟨s, hs, hid, hc⟩ := h.judged e he
    refine ⟨s, List.mem_filter.mpr ⟨hs, ?_⟩, hid, hc⟩
    rw [decide_eq_true_eq]
    intro hdrained
    exact (of_decide_eq_true (unreferred_of_drained h hs hdrained)).2.2 e he hid.symm

end Deletes

/-! ## Whole runs -/

/-- What holds between any two statements: the tables are keyed, and the baselines named for deletion are of
targets that are not spared. -/
structure PruneInv (baselines : PruneBaselines) (run : PruneRun) (db : DB) : Prop where
  /-- The tables are keyed. -/
  keyed : db.Keyed
  /-- The ids named were given. -/
  given : ∀ ids, run.phase = .baselines ids → ∀ id ∈ ids, id ≤ db.lastEvaluation
  /-- The evaluations named are not spared. -/
  named : ∀ ids, run.phase = .baselines ids → ∀ e ∈ db.evaluations, e.id ∈ ids →
    ¬ baselines.Spares e.clusterID e.target

/-- A baseline that the set does not spare, of a pair the query returned, is of an evaluation the set does not
spare. -/
theorem unspared_baselinePairs {baselines : PruneBaselines} {db : DB} {id : ℕ}
    (hid : id ∈ baselines.unspared (baselinePairs db)) :
    ∃ e ∈ db.evaluations, e.id = id ∧ ¬ baselines.Spares e.clusterID e.target := by
  obtain ⟨p, hp, rfl⟩ := List.mem_map.mp hid
  obtain ⟨hpair, hnot⟩ := List.mem_filter.mp hp
  obtain ⟨g, -, hg⟩ := List.mem_filterMap.mp hpair
  obtain ⟨e, he, rfl⟩ := Option.map_eq_some_iff.mp hg
  have hmem := (List.mem_filter.mp (List.mem_filter.mp (newest_mem he)).1).1
  refine ⟨e, hmem, rfl, fun hspares => ?_⟩
  obtain ⟨targets, hlookup, hnin⟩ := (Option.any_eq_true _ _).mp hnot
  exact of_decide_eq_true hnin (hspares targets hlookup)

section Runs

variable {cutoff : Time} {batch : ℕ} {baselines : PruneBaselines}

/-- A statement keeps the invariant and changes nothing the server reads. -/
theorem PruneInv.statement {run : PruneRun} {db : DB} (h : PruneInv baselines run db) :
    PruneInv baselines (pruneStep cutoff batch baselines run db).1 (pruneStep cutoff batch baselines run db).2 ∧
      ReadsSame baselines db (pruneStep cutoff batch baselines run db).2 := by
  have hsame : ReadsSame baselines db db := ⟨fun _ => rfl, fun _ _ => rfl, fun _ _ _ => rfl⟩
  unfold pruneStep
  -- One case for each statement of the run. Naming the pairs only reads, and no delete takes a row that is read.
  cases hphase : run.phase with
  | evaluations =>
    refine ⟨⟨h.keyed.deleteEvaluations _, ?_, ?_⟩, readsSame_drainEvaluations h.keyed⟩
    all_goals
      intro ids hids
      dsimp only at hids
      split_ifs at hids
  | pairs =>
    refine ⟨⟨h.keyed, fun ids hids id hid => ?_, fun ids hids e he hid => ?_⟩, hsame⟩
    all_goals
      obtain rfl := PrunePhase.baselines.inj hids
    · obtain ⟨e, he, rfl, -⟩ := unspared_baselinePairs hid
      exact (h.keyed.evaluationsLe e he).2
    · obtain ⟨f, hf, hfe, hnot⟩ := unspared_baselinePairs hid
      rwa [← List.inj_on_of_nodup_map h.keyed.evaluationIDs hf he hfe]
  | baselines ids =>
    cases ids with
    | nil => exact ⟨⟨h.keyed, by simp, by simp⟩, hsame⟩
    | cons id ids =>
      refine ⟨⟨h.keyed.deleteEvaluations _, fun ids' hids i hi => ?_, fun ids' hids e he hi => ?_⟩,
        readsSame_deleteBaselines h.keyed fun e he hi => ?_⟩
      · obtain rfl := PrunePhase.baselines.inj hids
        exact h.given _ hphase i (List.mem_of_mem_drop hi)
      · obtain rfl := PrunePhase.baselines.inj hids
        exact h.named _ hphase e (List.mem_filter.mp he).1 (List.mem_of_mem_drop hi)
      · exact h.named _ hphase e he (List.mem_of_mem_take hi)
  | snapshots =>
    refine ⟨⟨h.keyed.drainSnapshots, ?_, ?_⟩, readsSame_drainSnapshots h.keyed⟩
    all_goals
      intro ids hids
      dsimp only at hids
      split_ifs at hids
  | done => exact ⟨⟨h.keyed, by simp [hphase], by simp [hphase]⟩, hsame⟩

/-- A commit keeps the invariant: it names no row for deletion, and rewrites none into another's. -/
theorem PruneInv.commit {run : PruneRun} {now : Time} {b : EvaluationBatch} {db db' : DB} {snapID : ℕ}
    {dup : Bool} (h : PruneInv baselines run db)
    (hcommit : commitEvaluations now b db = .ok (db', snapID, dup)) : PruneInv baselines run db' := by
  obtain ⟨mid, snap, latestID, hsame, rfl⟩ | ⟨mid, clusterID, hmid, hevals, hlast, -, -, hw⟩ :=
    commit_writes h.keyed hcommit
  · have hkeyed := h.keyed.commit hcommit
    refine ⟨hkeyed, fun ids hids id hid => ?_, fun ids hids e he hid => ?_⟩
    · rw [show (recordEnvelope snap latestID mid).lastEvaluation = db.lastEvaluation from hsame.lastEvaluation]
      exact h.given ids hids id hid
    · rw [show (recordEnvelope snap latestID mid).evaluations = db.evaluations from hsame.evaluations] at he
      exact h.named ids hids e he hid
  · obtain ⟨-, -, -, -, -, hlastE⟩ := writeBatch_spec hw
    refine ⟨h.keyed.commit hcommit, fun ids hids id hid => ?_, fun ids hids e he hid => ?_⟩
    · have := h.given ids hids id hid
      omega
    · obtain ⟨r, hk, hr | ⟨f, -, i, hlt, -, rfl⟩⟩ := mem_writeBatch hw he
      · rw [hk.keeps.id] at hid
        rw [hk.keeps.clusterID, hk.keeps.target]
        rw [hevals] at hr
        exact h.named ids hids r hr hid
      · -- A new row has an id that no statement names.
        have := h.given ids hids e.id hid
        rw [hk.keeps.id] at this
        have hid' : i ≤ db.lastEvaluation := this
        omega

/-- Among commits, the invariant holds wherever a prune is. -/
theorem PruneInv.reach {start : DB} (hstart : start.Keyed) {cfg : PruneRun × DB}
    (hreach : Relation.ReflTransGen (PruneAmongCommits cutoff batch baselines) ({}, start) cfg) :
    PruneInv baselines cfg.1 cfg.2 := by
  refine Runs.of_run (I := fun cfg => PruneInv baselines cfg.1 cfg.2) hreach ⟨hstart, by simp, by simp⟩ ?_
  intro cfg cfg' h hstep
  cases hstep with
  | statement run db => exact h.statement.1
  | commit run hcommit => exact h.commit hcommit

/-- Wherever a prune among commits has come, every evaluation has its snapshot, and the next statement
changes neither the latest snapshots nor the current evaluations nor the baselines the set spares. -/
theorem prune_spares {start : DB} (hstart : start.Keyed) {cfg : PruneRun × DB}
    (hreach : Relation.ReflTransGen (PruneAmongCommits cutoff batch baselines) ({}, start) cfg) :
    (∀ e ∈ cfg.2.evaluations, ∃ s ∈ cfg.2.snapshots, s.id = e.snapshotID) ∧
      (∀ c, (pruneStep cutoff batch baselines cfg.1 cfg.2).2.latestSnapshot c = cfg.2.latestSnapshot c) ∧
      (∀ c t, (pruneStep cutoff batch baselines cfg.1 cfg.2).2.currentEvaluation c t =
        cfg.2.currentEvaluation c t) ∧
      ∀ c t, baselines.Spares c t →
        (pruneStep cutoff batch baselines cfg.1 cfg.2).2.latestKnownEvaluation c t =
          cfg.2.latestKnownEvaluation c t := by
  have hinv := PruneInv.reach hstart hreach
  have hreads : ReadsSame baselines cfg.2 (pruneStep cutoff batch baselines cfg.1 cfg.2).2 :=
    hinv.statement.2
  refine ⟨fun e he => ?_, hreads.latestSnapshot, hreads.currentEvaluation, hreads.latestKnownEvaluation⟩
  obtain ⟨s, hs, hid, -⟩ := hinv.keyed.judged e he
  exact ⟨s, hs, hid⟩

end Runs

/-- A cluster with an old snapshot and the latest one, each with an evaluation for 1.31. -/
def twoSnapshots : DB where
  snapshots := [{ id := 1, clusterID := 1, hash := "a", inventory := {} },
    { id := 2, clusterID := 1, hash := "b", inventory := {} }]
  evaluations := [{ id := 1, clusterID := 1, snapshotID := 1, target := "1.31" },
    { id := 2, clusterID := 1, snapshotID := 2, target := "1.31" }]
  lastSnapshot := 2
  lastEvaluation := 2

/-- A prune deletes the old evaluation, and the current one stays. -/
theorem prune_spares_twoSnapshots :
    (pruneStep 10 pruneBatchRows ∅ {} twoSnapshots).2.evaluations.map (·.id) = [2] ∧
      (pruneStep 10 pruneBatchRows ∅ {} twoSnapshots).2.currentEvaluation 1 "1.31" =
        twoSnapshots.currentEvaluation 1 "1.31" := by
  have hkeyed : twoSnapshots.Keyed := by
    constructor <;> simp [twoSnapshots]
  exact ⟨by decide +kernel, (prune_spares hkeyed .refl).2.2.1 1 "1.31"⟩

end UpgradeScope.Store
