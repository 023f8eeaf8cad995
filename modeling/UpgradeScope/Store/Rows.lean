import UpgradeScope.Inventory.Types
import UpgradeScope.Lib.Table
import UpgradeScope.Lib.Sorting

/-!
# The server's store

`internal/server/store`: the tables of clusters, snapshots, evaluations, queued notifications and
ingest tokens, the queries the server reads them with, and `CommitEvaluations`, the one transaction a pass
ends in. Ids are given in the order of insertion and never again (`AUTOINCREMENT`), so "latest" is the
greatest id. The columns a write derives from a report's bytes (`not_assessed`, `carries_hold`) are left
out.
-/

namespace UpgradeScope.Store

open Go Sorting Table

/-! ## Rows -/

/-- `Cluster`: a registered cluster. -/
structure Cluster where
  /-- Its id, 0 while it is not registered. -/
  id : ℕ := 0
  /-- Its name, unique. -/
  name : String
  /-- The cluster's own id, "" when it reports none. -/
  clusterUID : String := ""
  /-- When it was registered. -/
  firstSeen : Time := 0
  /-- When it last pushed. -/
  lastSeen : Time := 0
  deriving DecidableEq

/-- `Snapshot`: one pushed inventory. -/
structure Snapshot where
  /-- Its id. -/
  id : ℕ := 0
  /-- Its cluster. -/
  clusterID : ℕ := 0
  /-- The hash of the canonical inventory. -/
  hash : String
  /-- The agent's knowledge base. -/
  kbVersion : String := ""
  /-- The agent's version. -/
  agentVersion : String := ""
  /-- When it was pushed. -/
  receivedAt : Time := 0
  /-- The Kubernetes version it is judged at. -/
  serverVersion : String := ""
  /-- The inventory as pushed. -/
  inventory : Inventory

/-- `Evaluation`: one verdict on a snapshot for a target. -/
structure Evaluation where
  /-- Its id. -/
  id : ℕ := 0
  /-- Its cluster. -/
  clusterID : ℕ := 0
  /-- The snapshot it judges. -/
  snapshotID : ℕ := 0
  /-- The target. -/
  target : String
  /-- The server's knowledge base. -/
  kbVersion : String := ""
  /-- The score. -/
  score : ℤ := 0
  /-- Whether the verdict is ready. -/
  ready : Bool := false
  /-- The blockers. -/
  blockers : ℕ := 0
  /-- The warnings. -/
  warnings : ℕ := 0
  /-- The encoded report. -/
  report : String := ""
  /-- When the row was inserted. -/
  createdAt : Time := 0
  /-- When the result was last confirmed. -/
  evaluatedAt : Time := 0
  /-- The team map it was judged with. -/
  teamMapHash : String := ""
  /-- The teams of the inventory, `none` on a row written before teams were. -/
  teams : Option (List String) := some []
  /-- Whether an unknown verdict is a notification baseline. -/
  baseline : Bool := false
  deriving DecidableEq

/-- `OutboxMessage`: one notification waiting for one sink. -/
structure OutboxMessage where
  /-- Its id. -/
  id : ℕ := 0
  /-- The cluster it is about. -/
  clusterID : ℕ := 0
  /-- The sink that delivers it. -/
  sink : String
  /-- The encoded notification. -/
  payload : String
  /-- How often it was claimed. -/
  attempts : ℕ := 0
  /-- When it was queued. -/
  createdAt : Time := 0
  /-- When it is due, or its lease ends. -/
  nextAttemptAt : Time := 0
  /-- The last delivery error. -/
  lastError : String := ""
  deriving DecidableEq

/-- An ingest token of a cluster. -/
structure Token where
  /-- The cluster's name. -/
  clusterName : String
  /-- The hash of the secret. -/
  tokenHash : String
  /-- Whether it was revoked. -/
  revoked : Bool := false
  deriving DecidableEq

/-- The database: its tables, and the last id given in each. -/
structure DB where
  /-- The clusters. -/
  clusters : List Cluster := []
  /-- The snapshots. -/
  snapshots : List Snapshot := []
  /-- The evaluations. -/
  evaluations : List Evaluation := []
  /-- The queued notifications. -/
  outbox : List OutboxMessage := []
  /-- The ingest tokens. -/
  tokens : List Token := []
  /-- The last cluster id. -/
  lastCluster : ℕ := 0
  /-- The last snapshot id. -/
  lastSnapshot : ℕ := 0
  /-- The last evaluation id. -/
  lastEvaluation : ℕ := 0
  /-- The last message id. -/
  lastMessage : ℕ := 0

/-! ## Queries -/

/-- The condition of a notification baseline: ready, blocked, or marked one. -/
def Evaluation.known (e : Evaluation) : Bool := e.ready || decide (0 < e.blockers) || e.baseline

namespace DB

variable (db : DB)

/-- `LatestSnapshot`. -/
def latestSnapshot (clusterID : ℕ) : Option Snapshot :=
  newest (·.id) (db.snapshots.filter (·.clusterID = clusterID))

/-- The newest evaluation of a snapshot for a target. -/
def snapshotEvaluation (snapshotID : ℕ) (target : String) : Option Evaluation :=
  newest (·.id) (db.evaluations.filter fun e => e.snapshotID = snapshotID ∧ e.target = target)

/-- `CurrentEvaluation`: the newest evaluation of the latest snapshot. -/
def currentEvaluation (clusterID : ℕ) (target : String) : Option Evaluation :=
  (db.latestSnapshot clusterID).bind fun s => db.snapshotEvaluation s.id target

/-- `LatestKnownEvaluation`: the newest notification baseline. -/
def latestKnownEvaluation (clusterID : ℕ) (target : String) : Option Evaluation :=
  newest (·.id) (db.evaluations.filter fun e => e.clusterID = clusterID ∧ e.target = target ∧ e.known)

/-- The id of the newest notification baseline, 0 for none. -/
def latestKnownID (clusterID : ℕ) (target : String) : ℕ :=
  ((db.latestKnownEvaluation clusterID target).map (·.id)).getD 0

/-- The id of the newest evaluation of a snapshot for a target, 0 for none. -/
def snapshotEvaluationID (snapshotID : ℕ) (target : String) : ℕ :=
  ((db.snapshotEvaluation snapshotID target).map (·.id)).getD 0

/-- `ClusterByName`. -/
def clusterByName (name : String) : Option Cluster := db.clusters.find? (·.name = name)

end DB

/-! ## Committing a pass -/

/-- `Expectation`: what a pass read before it computed its deltas. -/
structure Expectation where
  /-- The latest snapshot when the pass began, 0 for none. -/
  latestSnapshotID : ℕ := 0
  /-- The newest baseline of each target it read, 0 for none. -/
  baselines : AList fun _ : String => ℕ := ∅

/-- `EvaluationBatch`: one pass over one cluster's snapshot. -/
structure EvaluationBatch where
  /-- The cluster of a push, registered or touched first. -/
  cluster : Option Cluster := none
  /-- The cluster of a re-evaluation. -/
  clusterID : ℕ := 0
  /-- The hash of the push's ingest token, `none` for the shared one. -/
  ingestToken : Option String := none
  /-- The pushed snapshot. -/
  snapshot : Option Snapshot := none
  /-- The stored snapshot a re-evaluation judged. -/
  snapshotID : ℕ := 0
  /-- The current evaluation of each target the pass compared with, 0 for none. -/
  current : AList fun _ : String => ℕ := ∅
  /-- The rows to add. -/
  insert : List Evaluation := []
  /-- The rows to rewrite under their ids. -/
  refresh : List Evaluation := []
  /-- The notifications to queue. -/
  outbox : List OutboxMessage := []
  /-- What the deltas were computed from. -/
  expect : Option Expectation := none

/-- Why a commit wrote nothing. -/
inductive CommitError where
  /-- `ErrConflict`. -/
  | conflict (why : String)
  /-- `ErrTokenRevoked`. -/
  | tokenRevoked (cluster : String)
  /-- `ErrClusterChanged`. -/
  | clusterChanged (cluster : String) (id now : ℕ)
  /-- `ClusterUIDConflictError`. -/
  | uidConflict (cluster storedUID pushedUID : String)
  /-- `ErrNotFound`, of a row to rewrite. -/
  | notFound (evaluation : ℕ)
  deriving DecidableEq

/-- A time, or another when it is zero. -/
def timeOr (t other : Time) : Time := if t = 0 then other else t

/-- `upsertClusterSQLite`: registers a cluster or touches it; a bound cluster refuses another UID. -/
def upsertCluster (now : Time) (c : Cluster) (db : DB) : Except CommitError (DB × ℕ) :=
  let last := timeOr c.lastSeen now
  match db.clusterByName c.name with
  | none =>
    let id := db.lastCluster + 1
    .ok ({ db with
      clusters := db.clusters ++ [⟨id, c.name, c.clusterUID, timeOr c.firstSeen last, last⟩]
      lastCluster := id }, id)
  | some stored =>
    if stored.clusterUID = "" ∨ stored.clusterUID = c.clusterUID then
      .ok ({ db with
        clusters := db.clusters.map fun s =>
          if s.name = c.name then
            { s with clusterUID := orElse c.clusterUID s.clusterUID, lastSeen := last }
          else s }, stored.id)
    else .error (.uidConflict c.name stored.clusterUID c.clusterUID)

/-- `recheckPush`: the cluster is still the one the push looked up, and its token still active. -/
def recheckPush (b : EvaluationBatch) (c : Cluster) (clusterID : ℕ) (db : DB) :
    Except CommitError Unit :=
  if c.id ≠ 0 ∧ c.id ≠ clusterID then .error (.clusterChanged c.name c.id clusterID)
  else match b.ingestToken with
    | none => .ok ()
    | some hash =>
      if db.tokens.any fun t => t.tokenHash = hash ∧ t.clusterName = c.name ∧ ¬ t.revoked then .ok ()
      else .error (.tokenRevoked c.name)

/-- The cluster of a batch, registered first for a push. -/
def registerCluster (now : Time) (b : EvaluationBatch) (db : DB) : Except CommitError (DB × ℕ) :=
  match b.cluster with
  | none => .ok (db, b.clusterID)
  | some c => do
    let (db, id) ← upsertCluster now c db
    recheckPush b c id db
    return (db, id)

/-- `checkExpectation`: the baselines are still those the pass read, and so is a push's latest
snapshot. -/
def checkExpectation (b : EvaluationBatch) (clusterID latestID : ℕ) (db : DB) :
    Except CommitError Unit :=
  match b.expect with
  | none => .ok ()
  | some x =>
    if b.snapshot.isSome ∧ latestID ≠ x.latestSnapshotID then
      .error (.conflict s!"cluster {clusterID}'s latest snapshot is {latestID}, not {x.latestSnapshotID}")
    else match (sortOn (·.1) x.baselines.entries).find? fun e =>
        db.latestKnownID clusterID e.1 ≠ e.2 with
      | some e => .error (.conflict s!"target {e.1}'s notification baseline changed (evaluation {db.latestKnownID clusterID e.1}, expected {e.2})")
      | none => .ok ()

/-- The check of the rows a re-evaluation compared with. -/
def checkCurrent (b : EvaluationBatch) (db : DB) : Except CommitError Unit :=
  match b.current.entries.find? fun e => db.snapshotEvaluationID b.snapshotID e.1 ≠ e.2 with
  | some e => .error (.conflict s!"target {e.1} changed (evaluation {db.snapshotEvaluationID b.snapshotID e.1}, expected {e.2})")
  | none => .ok ()

/-- A duplicate's envelope, recorded on the latest snapshot. -/
def recordEnvelope (snap : Snapshot) (latestID : ℕ) (db : DB) : DB :=
  { db with
    snapshots := db.snapshots.map fun s =>
      if s.id = latestID then
        { s with
          kbVersion := snap.kbVersion, agentVersion := snap.agentVersion
          serverVersion := orElse s.serverVersion snap.serverVersion }
      else s }

/-- Stores a pushed snapshot. -/
def insertSnapshot (now : Time) (clusterID : ℕ) (snap : Snapshot) (db : DB) : DB :=
  { db with
    snapshots := db.snapshots ++ [{ snap with
      id := db.lastSnapshot + 1, clusterID := clusterID, receivedAt := timeOr snap.receivedAt now }]
    lastSnapshot := db.lastSnapshot + 1 }

/-- `insertEvaluationSQLite`: a new row of a snapshot. -/
def insertEvaluation (now : Time) (clusterID snapshotID : ℕ) (db : DB) (e : Evaluation) : DB :=
  let created := timeOr e.createdAt now
  { db with
    evaluations := db.evaluations ++ [{ e with
      id := db.lastEvaluation + 1, clusterID := clusterID, snapshotID := snapshotID
      createdAt := created, evaluatedAt := timeOr e.evaluatedAt created }]
    lastEvaluation := db.lastEvaluation + 1 }

/-- What a refresh keeps of a row: its id, cluster, snapshot and target, and the history point. -/
def refreshRow (now : Time) (e row : Evaluation) : Evaluation :=
  { row with
    report := e.report, kbVersion := e.kbVersion, teamMapHash := e.teamMapHash, teams := e.teams
    blockers := e.blockers, warnings := e.warnings, evaluatedAt := timeOr e.evaluatedAt now
    baseline := e.baseline }

/-- Rewrites a row of the cluster under its id. -/
def refreshEvaluation (now : Time) (clusterID : ℕ) (db : DB) (e : Evaluation) : Except CommitError DB :=
  if db.evaluations.any fun row => row.id = e.id ∧ row.clusterID = clusterID then
    .ok { db with
      evaluations := db.evaluations.map fun row =>
        if row.id = e.id ∧ row.clusterID = clusterID then refreshRow now e row else row }
  else .error (.notFound e.id)

/-- Queues a notification. -/
def insertMessage (now : Time) (clusterID : ℕ) (db : DB) (m : OutboxMessage) : DB :=
  let created := timeOr m.createdAt now
  { db with
    outbox := db.outbox ++ [{ m with
      id := db.lastMessage + 1, clusterID := clusterID, attempts := 0, createdAt := created
      nextAttemptAt := timeOr m.nextAttemptAt created, lastError := "" }]
    lastMessage := db.lastMessage + 1 }

/-- The writes of a commit after its checks: new rows, rewritten rows, notifications. -/
def writeBatch (now : Time) (b : EvaluationBatch) (clusterID snapshotID : ℕ) (db : DB) :
    Except CommitError DB :=
  (b.refresh.foldlM (refreshEvaluation now clusterID)
    (b.insert.foldl (insertEvaluation now clusterID snapshotID) db)).map fun db =>
      b.outbox.foldl (insertMessage now clusterID) db

/-- The commit of a registered cluster's batch. -/
def commitBatch (now : Time) (b : EvaluationBatch) (clusterID : ℕ) (db : DB) :
    Except CommitError (DB × ℕ × Bool) :=
  let latest := db.latestSnapshot clusterID
  let latestID := (latest.map (·.id)).getD 0
  match b.snapshot with
  | some snap =>
    if latest.any (·.hash = snap.hash) then
      -- The same inventory: only the envelope is recorded, and nothing of the batch is written.
      .ok (recordEnvelope snap latestID db, latestID, true)
    else do
      checkExpectation b clusterID latestID db
      let stored := insertSnapshot now clusterID snap db
      let db ← writeBatch now b clusterID stored.lastSnapshot stored
      return (db, stored.lastSnapshot, false)
  | none =>
    if latest.isNone ∨ latestID ≠ b.snapshotID then
      .error (.conflict s!"snapshot {b.snapshotID} is no longer cluster {clusterID}'s latest")
    else do
      checkCurrent b db
      checkExpectation b clusterID latestID db
      let db ← writeBatch now b clusterID b.snapshotID db
      return (db, b.snapshotID, false)

/-- `CommitEvaluations`: the database after the batch, the snapshot's id and whether the push was a
duplicate; an error writes nothing. -/
def commitEvaluations (now : Time) (b : EvaluationBatch) (db : DB) :
    Except CommitError (DB × ℕ × Bool) := do
  let (db, clusterID) ← registerCluster now b db
  commitBatch now b clusterID db

end UpgradeScope.Store
