import UpgradeScope.Lib.Interleave
import UpgradeScope.Store.Commits
import UpgradeScope.Server.Notify
import UpgradeScope.Engine.Evaluate
import UpgradeScope.Suppress.Apply

/-!
# Evaluation passes

`internal/server/evaluate.go`: a push and a re-evaluation as programs over the store they share with every other
pass of every replica. Each query and each `CommitEvaluations` is one atomic step; between two of them other
passes may commit and the clock may move. What a pass computes from its reads (`evaluation`, `deltaFor`, what is
refreshed and what is inserted) follows the source. The world also records every commit that was tried, with the
database before it and what the batch was computed from, so that a statement can be about them.
-/

namespace UpgradeScope.Passes

open Go Sorting Store Interleave Kb

open UpgradeScope.Notify hiding Store Pass step after announced

/-! ## A server -/

/-- `TeamMapRule`: the team of the namespaces a glob matches. -/
structure TeamMapRule where
  /-- The glob. -/
  pattern : String
  /-- The team. -/
  team : String

/-- What one replica is configured with, and the encodings it stores with. -/
structure Server where
  /-- The packages it calls. -/
  external : External
  /-- The turns the evaluation's loops may take. -/
  fuel : ℕ
  /-- Its knowledge base. -/
  kb : KB
  /-- The names of its notification sinks. -/
  sinks : List String
  /-- `--targets`. -/
  extraTargets : List Version
  /-- `--team-map`. -/
  teamMap : List TeamMapRule
  /-- The fingerprint of the team map. -/
  teamMapHash : String
  /-- `--max-snapshot-bytes`. -/
  maxReportBytes : ℕ
  /-- A report with the heads its baseline carries, encoded (`marshalJSON`, `withCarried`). -/
  encodeReport : Report → List FindingHead → String
  /-- `storedFindingHeads`; `none` when the bytes do not decode. -/
  decodeReport : String → Option StoredHeads
  /-- A notification, encoded. -/
  encodeNotification : Notification → String
  /-- The hash of an inventory's canonical form. -/
  hash : Inventory → String
  /-- `decodeInventory`: a snapshot's inventory as this server judges it. -/
  decodeInventory : Snapshot → Inventory
  /-- The view keeps the server version. -/
  serverVersion_decodeInventory : ∀ s, (decodeInventory s).serverVersion = s.inventory.serverVersion

/-- Judging an inventory as it was stored keeps its version. -/
theorem serverVersion_asStored (s : Snapshot) : s.inventory.serverVersion = s.inventory.serverVersion := rfl

namespace Server

variable (s : Server)

/-- `evalTargets`: the default target and the configured ones above the server, each once. -/
def evalTargets (serverVersion : String) : List Version :=
  let server := version? s.external serverVersion
  s.extraTargets.foldl (fun targets t =>
    if server.any (t.le ·) ∨ t ∈ targets then targets else targets ++ [t]) (server.map Version.next).toList

/-- `TeamMap.Apply`: the first rule whose glob matches a namespace sets its team. -/
def applyTeamMap (ns : List NamespaceInfo) : List NamespaceInfo :=
  ns.map fun n => match s.teamMap.find? fun r => s.external.globMatch r.pattern n.name with
    | some r => { n with team := r.team }
    | none => n

/-- The inventory that is evaluated. -/
def evalInventory (inv : Inventory) : Inventory := { inv with namespaces := s.applyTeamMap inv.namespaces }

/-- `storedTeams`: the teams of the namespaces and of the findings, suppressed ones too. -/
def storedTeams (inv : Inventory) (rep : Report) : List String :=
  sortedSet (((inv.namespaces.map (·.team)).filter (· ≠ "")) ++ rep.findings.flatMap (·.teams) ++
    rep.suppressed.flatMap (·.finding.teams))

/-- `evaluation`: the row to store for a target and its report, or that the report would be over the limit. -/
def evaluation (clusterID : ℕ) (inv : Inventory) (target : Version) (now : Time) :
    Option (Except TooLarge (Evaluation × Report)) :=
  (evaluateWithin s.fuel s.external inv s.kb target now s.maxReportBytes).map fun
    | .error e => .error e
    | .ok judged =>
      let rep := (Suppress.apply s.external { now := now } judged []).1
      if s.maxReportBytes < byteLen (s.encodeReport rep []) then .error .tooLarge
      else .ok
        ({ clusterID := clusterID
           target := target.string
           kbVersion := s.kb.version
           score := rep.score
           ready := rep.ready
           blockers := (rep.findings.filter (·.severity = .blocker)).length
           warnings := (rep.findings.filter (·.severity = .warning)).length
           report := s.encodeReport rep []
           createdAt := now
           evaluatedAt := now
           teamMapHash := s.teamMapHash
           teams := some (storedTeams inv rep)
           baseline := notificationBaseline rep }, rep)

/-- `keepCarried`: what the stored report keeps of the carried heads. -/
def keepCarried (rep : Report) (carried : List FindingHead) : List FindingHead :=
  Notify.keepCarried ⟨fun rep carried => byteLen (s.encodeReport rep carried), s.maxReportBytes⟩ rep carried

end Server

/-! ## Stored rows -/

/-- `StoredVerdict`. -/
def storedVerdict (ready : Bool) (blockers : ℕ) : Verdict :=
  if ready then .ready else if 0 < blockers then .blocked else .unknown

/-- `verdictOf`. -/
def verdictOf (e : Evaluation) : Verdict := storedVerdict e.ready e.blockers

/-- `isBaseline`: decided, or marked a notification baseline. -/
def isBaseline (e : Evaluation) : Bool := verdictOf e ≠ .unknown || e.baseline

/-- `futureTolerance`. -/
def futureTolerance : ℤ := 5 * minute

/-- `stale`: a stored evaluation must be recomputed. -/
def stale (s : Server) (e : Evaluation) (now : Time) : Bool :=
  e.kbVersion ≠ s.kb.version || e.teamMapHash ≠ s.teamMapHash || e.teams.isNone ||
    decide (e.evaluatedAt < now - now % day) || decide (now + futureTolerance < e.evaluatedAt)

/-- `findingSignature` as the text that is compared. -/
def findingSignature (h : FindingHead) : String := h.severity.name ++ "\x00" ++ h.ident

/-- `sameResult`: verdict, score and the findings' severities and keys are the stored ones. -/
def sameResult (row : Evaluation) (stored : List FindingHead) (rep : Report) : Bool :=
  verdictOf row = rep.verdict && row.score = rep.score && stored.length = rep.findings.length &&
    sorted (stored.map findingSignature) = sorted (rep.findings.map fun f => findingSignature (headOf f))

/-- `sameHeads`: the same severities, keys and marks of resolved heads. -/
def sameHeads (a b : List FindingHead) : Bool :=
  let sig := fun h : FindingHead => findingSignature h ++ if h.resolved then "\x00resolved" else ""
  sortedSet (a.map sig) = sortedSet (b.map sig)

/-! ## Holds -/

/-- `earliestAPIServerStart`: 1 January 2014. -/
def earliestAPIServerStart : Time := dayNumber 2014 1 1 * day

/-- `apiServerStart`: the start time of the scraped apiserver, when it is plausible. -/
def apiServerStart (inv : Inventory) : Option Time :=
  let start := inv.apiServerStartTime
  if start = 0 ∨ inv.collectedAt = 0 ∨ start < earliestAPIServerStart ∨
      inv.collectedAt + startTimeTolerance < start then none
  else some start

/-- `callsHoldOf`: the hold on deprecated callers for an inventory. -/
def callsHoldOf (s : Server) (inv : Inventory) (serverVersion : String) (pushed : Bool) : CallsHold where
  scraped := inv.collectedAt
  young := match apiServerStart inv with
    | some start =>
      if inv.collectedAt < start + deprecatedCallsHold then start + deprecatedCallsHold else 0
    | none => 0
  zone := inv.apiServerStartZone
  pushed := pushed
  gone key := match version? s.external serverVersion with
    | some running => (removalOfCall s.external s.kb key).any (·.le running)
    | none => false

/-- `holdMarker`. -/
def holdMarker : String := "\"holdUntil\":"

/-- `holdChanged`: a stored report carries a held caller whose hold the scrape ends or moves. -/
def holdChanged (s : Server) (report : String) (hold : CallsHold) : Bool :=
  contains report holdMarker && (s.decodeReport report).any fun heads =>
    heads.carriedForward.any fun f => f.holdUntil ≠ 0 && hold.until f ≠ f.holdUntil

/-! ## The world the passes share -/

/-- `targetDelta`: a target's verdict after a pass, its changes and what its baseline carries. -/
structure TargetDelta where
  /-- The target. -/
  version : Version
  /-- Its verdict. -/
  target : NotifyTarget
  /-- The changes. -/
  changes : List Change := []
  /-- What the baseline carries. -/
  carried : List FindingHead := []
  /-- The baselines read from the store, 0 for none. -/
  baselines : AList fun _ : String => ℕ := ∅
  /-- The row the changes were computed against. -/
  against : Option Evaluation := none

/-- A row a pass read, and how many commits had been tried then. -/
structure RowRead where
  /-- The row. -/
  row : Evaluation
  /-- When it was read. -/
  moment : ℕ

/-- A commit that was tried: the batch, the deltas of the rows it inserts, the rows it rewrites as they were read,
the database before it and what it answered. -/
structure CommitRecord where
  /-- The batch. -/
  batch : EvaluationBatch
  /-- The deltas of the inserted rows. -/
  deltas : List TargetDelta
  /-- The rewritten rows as the pass read them. -/
  reads : List RowRead
  /-- The database before it. -/
  before : DB
  /-- The answer. -/
  result : Except CommitError (DB × ℕ × Bool)

/-- The world: the store, the clock, what a random source gives next, and the commits tried so far. -/
structure World where
  /-- The store. -/
  db : DB := {}
  /-- The clock. -/
  now : Time := 1
  /-- The next delivery id. -/
  random : String := ""
  /-- The commits tried, the first first. -/
  history : List CommitRecord := []

/-- What happens around the passes. -/
inductive Env where
  /-- The clock moves, either way. -/
  | clock (now : Time)
  /-- Another random id comes next. -/
  | random (id : String)

/-- The world after something happened around the passes. -/
def env : Env → World → World
  | .clock now, w => { w with now := now }
  | .random id, w => { w with random := id }

/-- `s.now()`. -/
def clock : Prog World Time := .read (·.now)

/-- A batch and what it was computed from. -/
structure PassBatch where
  /-- The batch. -/
  batch : EvaluationBatch
  /-- The deltas of the rows to insert. -/
  deltas : List TargetDelta := []
  /-- The rows to rewrite, as they were read. -/
  reads : List RowRead := []

/-- The database after a commit that was tried. -/
def afterCommit (result : Except CommitError (DB × ℕ × Bool)) (db : DB) : DB :=
  match result with
  | .ok (db', _) => db'
  | .error _ => db

/-- The world after a commit was tried. -/
def committed (p : PassBatch) (w : World) : World :=
  let result := commitEvaluations w.now p.batch w.db
  { w with
    db := afterCommit result w.db
    history := w.history ++ [⟨p.batch, p.deltas, p.reads, w.db, result⟩] }

/-- `CommitEvaluations` as one step of a pass. -/
def commit (p : PassBatch) : Prog World (Except CommitError (ℕ × Bool)) :=
  .update (committed p) fun w => (commitEvaluations w.now p.batch w.db).map (·.2)

/-! ## Deltas -/

/-- `upgradeLookback`. -/
def upgradeLookback : ℕ := 3

/-- `lookbackTargets`: the targets below a default target, nearest first. -/
def lookbackTargets (default : Version) : List Version :=
  ((List.range upgradeLookback).map fun i : ℕ =>
    (⟨default.major, wrap64 (default.minor - 1 - i)⟩ : Version)).takeWhile fun v =>
      max (wrap64 (default.minor - upgradeLookback)) 0 ≤ v.minor

/-- The loop of `upgradeBaseline`: the newest baseline of the nearest target that has one, and what was read. -/
def lookback (clusterID : ℕ) : List Version → (AList fun _ : String => ℕ) →
    Prog World (Option Evaluation × AList fun _ : String => ℕ)
  | [], read => pure (none, read)
  | v :: vs, read => do
    match ← Prog.read fun w : World => w.db.latestKnownEvaluation clusterID v.string with
    | none => lookback clusterID vs (read.insert v.string 0)
    | some prev => pure (some prev, read.insert v.string prev.id)

/-- `upgradeBaseline`: the baseline of a default target that has none of its own. -/
def upgradeBaseline (s : Server) (clusterID : ℕ) (cur : Report) (read : AList fun _ : String => ℕ) :
    Prog World (Option Evaluation × AList fun _ : String => ℕ) :=
  match version? s.external cur.serverVersion with
  | none => pure (none, read)
  | some server =>
    if server.next = cur.target then lookback clusterID (lookbackTargets cur.target) read
    else pure (none, read)

/-- The baseline `deltaFor` loads: the target's own, or the one an upgrade left. -/
def loadBaseline (s : Server) (clusterID : ℕ) (cur : Report) :
    Prog World (Option Evaluation × AList fun _ : String => ℕ) := do
  match ← Prog.read fun w : World => w.db.latestKnownEvaluation clusterID cur.target.string with
  | some prev => pure (some prev, AList.insert cur.target.string prev.id ∅)
  | none => upgradeBaseline s clusterID cur (AList.insert cur.target.string 0 ∅)

/-- `deltaFor`: the notification delta of a new evaluation, against the baseline the caller holds or the one it
loads. -/
def deltaFor (s : Server) (clusterID : ℕ) (e : Evaluation) (cur : Report)
    (known : Option (Evaluation × List FindingHead)) (unassessed : FindingHead → Bool) :
    Prog World TargetDelta :=
  let d : TargetDelta :=
    { version := cur.target, target := ⟨cur.target.string, cur.verdict, cur.score, e.blockers⟩ }
  let against := fun (row : Evaluation) (findings : List FindingHead)
      (baselines : AList fun _ : String => ℕ) =>
    let delta := computeDelta s.external findings cur unassessed
    { d with changes := delta.1, carried := delta.2, baselines := baselines, against := some row }
  if s.sinks.isEmpty ∨ ¬ e.baseline ∨ clusterID = 0 then pure d
  else match known with
    | some (row, findings) => pure (against row findings ∅)
    | none => do
      let (prev, baselines) ← loadBaseline s clusterID cur
      match prev with
      | none => pure { d with baselines := baselines }
      | some row =>
        match s.decodeReport row.report with
        | none => pure { d with baselines := baselines }
        | some heads => pure (against row heads.baseline baselines)

/-- `expectBaselines`: the baselines of a delta, expected at the commit. -/
def expectBaselines (x : Expectation) (d : TargetDelta) : Expectation :=
  { x with baselines := d.baselines.entries.foldl (fun m e => m.insert e.1 e.2) x.baselines }

/-- `outboxFor`: one notification for the pass, queued for every sink. -/
def outboxFor (s : Server) (cluster : Cluster) (deltas : List TargetDelta) (now : Time) (deliveryID : String) :
    List OutboxMessage :=
  match (deltas.foldl (fun m d => m.add d.target d.changes) ({} : ChangeMerger)).notification
      cluster.id cluster.name now deliveryID with
  | none => []
  | some n => s.sinks.map fun sink => { sink := sink, payload := s.encodeNotification n, createdAt := now }

/-! ## Re-evaluation -/

/-- Why a pass ended without a commit. -/
inductive PassStop where
  /-- A newer snapshot arrived meanwhile. -/
  | movedOn
  /-- The evaluation failed. -/
  | evaluation
  /-- A row or cluster the pass had found is gone. -/
  | notFound
  /-- The commit was refused. -/
  | store (err : CommitError)
  deriving DecidableEq

/-- What a re-evaluation does with one target's new row: it rewrites the current one when the result is the
same, else it adds a row with its delta. -/
def PassBatch.reevaluated (p : PassBatch) (s : Server) (target : Version) (cur : Option Evaluation) (moment : ℕ)
    (stored : Option StoredHeads) (e : Evaluation) (rep : Report) (d : TargetDelta) : PassBatch :=
  let current := p.batch.current.insert target.string ((cur.map (·.id)).getD 0)
  let expect :=
    if d.baselines.entries.isEmpty then p.batch.expect
    else some (expectBaselines (p.batch.expect.getD {}) d)
  let inserted : PassBatch :=
    { p with
      batch := { p.batch with current := current, expect := expect, insert := p.batch.insert ++ [e] }
      deltas := p.deltas ++ [d] }
  match cur, stored with
  | some row, some heads =>
    if sameResult row heads.findings rep ∧ isBaseline row = e.baseline ∧
        (s.sinks.isEmpty ∨ sameHeads heads.carriedForward d.carried) then
      { p with
        batch := { p.batch with
          current := current, expect := expect, refresh := p.batch.refresh ++ [{ e with id := row.id }] }
        reads := p.reads ++ [⟨row, moment⟩] }
    else inserted
  | _, _ => inserted

/-- The loop of `reevaluate` over the targets; the flag says that a report was over the limit. -/
def reevaluateTargets (s : Server) (clusterID snapID : ℕ) (inv : Inventory) (hold : CallsHold) (force : Bool)
    (now : Time) : List Version → PassBatch → Bool → Prog World (Except PassStop (PassBatch × Bool))
  | [], p, left => pure (.ok (p, left))
  | target :: rest, p, left => do
    let (cur, moment) ← Prog.read fun w : World =>
      (w.db.currentEvaluation clusterID target.string, w.history.length)
    if cur.any (·.snapshotID ≠ snapID) then pure (.error .movedOn)
    else if cur.any (fun row => !force && !stale s row now && !holdChanged s row.report hold) then
      reevaluateTargets s clusterID snapID inv hold force now rest p left
    else
      let stored := cur.bind fun row => s.decodeReport row.report
      match s.evaluation clusterID inv target now with
      | none => pure (.error .evaluation)
      | some (.error _) => reevaluateTargets s clusterID snapID inv hold force now rest p true
      | some (.ok (e, rep)) => do
        -- A current evaluation that is a baseline is the target's newest one.
        let known := cur.bind fun row => stored.bind fun heads =>
          if isBaseline row then some (row, heads.baseline) else none
        let d ← deltaFor s clusterID e rep known (unassessedIn rep hold)
        let carried := s.keepCarried rep (hold.stamp d.carried)
        reevaluateTargets s clusterID snapID inv hold force now rest
          (p.reevaluated s target cur moment stored { e with report := s.encodeReport rep carried } rep
            { d with carried := carried }) left

/-- `reevaluate`: brings a stored snapshot's evaluations up to date. A conflict means that another writer has
done so. -/
def reevaluate (s : Server) (cluster : Cluster) (snapID : ℕ) (serverVersion : String) (inv : Inventory)
    (pushed force : Bool) : Prog World (Except PassStop Bool) := do
  let now ← clock
  let hold := callsHoldOf s inv serverVersion pushed
  match ← reevaluateTargets s cluster.id snapID (s.evalInventory inv) hold force now (s.evalTargets serverVersion)
      { batch := { clusterID := cluster.id, snapshotID := snapID } } false with
  | .error .movedOn => pure (.ok false)
  | .error stop => pure (.error stop)
  | .ok (p, left) =>
    if p.batch.current.entries.isEmpty then pure (.ok left)
    else do
      let random ← Prog.read fun w : World => w.random
      match ← commit { p with batch := { p.batch with outbox := outboxFor s cluster p.deltas now random } } with
      | .error (.conflict _) => pure (.ok false)
      | .error err => pure (.error (.store err))
      | .ok _ => pure (.ok left)

/-- `judgedAt`: the server version a snapshot is judged at. -/
def judgedAt (snap : Snapshot) (inv : Inventory) : String := orElse snap.serverVersion inv.serverVersion

/-- The turn of `reevaluateAll` for one cluster. -/
def background (s : Server) (cluster : Cluster) : Prog World Unit := do
  match ← Prog.read fun w : World => w.db.latestSnapshot cluster.id with
  | none => pure ()
  | some snap => do
    let inv := s.decodeInventory snap
    let _ ← reevaluate s cluster snap.id (judgedAt snap inv) inv false false
    pure ()

/-! ## Pushes -/

/-- The loop of `ingestOnce` over the targets. -/
def ingestTargets (s : Server) (clusterID : ℕ) (inv : Inventory) (hold : CallsHold) (adopting : Bool) (now : Time) :
    List Version → PassBatch → Prog World (Option PassBatch)
  | [], p => pure (some p)
  | target :: rest, p =>
    match s.evaluation clusterID inv target now with
    | some (.ok (e, rep)) => do
      let d ← deltaFor s clusterID e rep none (unassessedIn rep hold)
      let changes := if adopting then d.changes.filter (·.kind ≠ .becameReady) else d.changes
      let carried := s.keepCarried rep (hold.stamp d.carried)
      ingestTargets s clusterID inv hold adopting now rest
        { p with
          batch := { p.batch with
            insert := p.batch.insert ++ [{ e with report := s.encodeReport rep carried }]
            expect := p.batch.expect.map (expectBaselines · d) }
          deltas := p.deltas ++ [{ d with changes := changes, carried := carried }] }
    | _ => pure none

/-- The re-evaluation of a push that turned out to be a duplicate. -/
def reevaluateDuplicate (s : Server) (cluster : Cluster) (snapID : ℕ) (serverVersion : String) (inv : Inventory)
    (dup force : Bool) : Prog World (Except PassStop (ℕ × Bool)) := do
  match ← reevaluate s cluster snapID serverVersion inv true force with
  | .error stop => pure (.error stop)
  | .ok _ => pure (.ok (snapID, dup))

/-- `ingestOnce` past the check for a duplicate: every target is evaluated, and all is committed. -/
def ingestFull (s : Server) (cluster : Cluster) (snap : Snapshot) (inv : Inventory) (token : Option String)
    (adopting : Bool) (latestID : ℕ) : Prog World (Except PassStop (ℕ × Bool)) := do
  let now ← clock
  let hold := callsHoldOf s inv snap.serverVersion true
  let expect : Option Expectation :=
    if ¬ s.sinks.isEmpty ∨ adopting then some { latestSnapshotID := latestID } else none
  match ← ingestTargets s cluster.id (s.evalInventory inv) hold adopting now (s.evalTargets snap.serverVersion)
      { batch := { cluster := some cluster, snapshot := some snap, ingestToken := token, expect := expect } } with
  | none => pure (.error .evaluation)
  | some p => do
    let random ← Prog.read fun w : World => w.random
    match ← commit { p with batch := { p.batch with outbox := outboxFor s cluster p.deltas now random } } with
    | .error err => pure (.error (.store err))
    | .ok (snapID, false) => pure (.ok (snapID, false))
    | .ok (snapID, true) =>
      if cluster.id ≠ 0 then reevaluateDuplicate s cluster snapID snap.serverVersion inv true true
      else do
        -- Registered by a push racing this one.
        match ← Prog.read fun w : World => w.db.clusterByName cluster.name with
        | none => pure (.error .notFound)
        | some c =>
          reevaluateDuplicate s { cluster with id := c.id } snapID snap.serverVersion inv true true

/-- `judgedVersion`. -/
def judgedVersion (snap : Snapshot) : String := orElse snap.serverVersion snap.inventory.serverVersion

/-- The latest snapshot as a push compares with it: the head, or the whole row when the push needs a version and
the head has none. -/
def latestFor (cluster : Cluster) (snap : Snapshot) (head : Snapshot) : Prog World (Option Snapshot) :=
  if snap.serverVersion = "" ∧ head.serverVersion = "" then
    Prog.read fun w : World => w.db.latestSnapshot cluster.id
  else pure (some head)

/-- `ingestOnce`: one attempt of a push. -/
def ingestOnce (s : Server) (cluster : Cluster) (snap : Snapshot) (inv : Inventory) (token : Option String)
    (adopting : Bool) : Prog World (Except PassStop (ℕ × Bool)) :=
  if cluster.id = 0 then ingestFull s cluster snap inv token adopting 0
  else do
    match ← Prog.read fun w : World => w.db.latestSnapshot cluster.id with
    | none => ingestFull s cluster snap inv token adopting 0
    | some head => do
      match ← latestFor cluster snap head with
      | none => pure (.error .notFound)
      | some latest => do
        -- A degraded push is judged at the previous snapshot's version.
        let snap := { snap with serverVersion := orElse snap.serverVersion (judgedVersion latest) }
        if latest.hash = snap.hash then do
          match ← commit { batch := {
              cluster := some cluster, snapshot := some snap, ingestToken := token
              expect := some { latestSnapshotID := head.id } } } with
          | .error err => pure (.error (.store err))
          | .ok (snapID, dup) =>
            reevaluateDuplicate s cluster snapID snap.serverVersion inv dup
              (latest.kbVersion ≠ snap.kbVersion || latest.agentVersion ≠ snap.agentVersion)
        else ingestFull s cluster snap inv token adopting head.id

/-- `maxIngestAttempts`. -/
def maxIngestAttempts : ℕ := 3

/-- The loop of `ingestSnapshot`, with the attempts that are left after this one: a push whose commit met a
conflict is evaluated again. -/
def ingestAttempts (s : Server) (snap : Snapshot) (inv : Inventory) (token : Option String) :
    ℕ → Cluster → Bool → Prog World (Except PassStop (ℕ × Bool))
  | 0, cluster, adopting => ingestOnce s cluster snap inv token adopting
  | n + 1, cluster, adopting => do
    match ← ingestOnce s cluster snap inv token adopting with
    | .error (.store (.conflict _)) =>
      if cluster.id ≠ 0 ∧ ¬ adopting then ingestAttempts s snap inv token n cluster adopting
      else do
        -- Registered, or bound, by the push that raced this one.
        let c ← Prog.read fun w : World => w.db.clusterByName cluster.name
        let id := if cluster.id = 0 then (c.map (·.id)).getD 0 else cluster.id
        ingestAttempts s snap inv token n { cluster with id := id }
          (adopting && (c.map (·.id)).getD 0 = id && (c.map (·.clusterUID)).getD "" = "")
    | .error stop => pure (.error stop)
    | .ok answer => pure (.ok answer)

/-- A push as its handler has read it. -/
structure Push where
  /-- The cluster's name. -/
  clusterName : String
  /-- The inventory, admitted. -/
  inventory : Inventory
  /-- The agent's knowledge base. -/
  kbVersion : String
  /-- The agent's version. -/
  agentVersion : String
  /-- The hash of the per-cluster ingest token, `none` for the shared one. -/
  token : Option String
  /-- The cluster the token was resolved to at authentication, 0 for the shared one. -/
  boundID : ℕ

/-- The pushed snapshot. -/
def Push.snapshot (req : Push) (s : Server) (clusterID : ℕ) (now : Time) : Snapshot where
  clusterID := clusterID
  hash := s.hash req.inventory
  kbVersion := req.kbVersion
  agentVersion := req.agentVersion
  receivedAt := now
  serverVersion := req.inventory.serverVersion
  inventory := req.inventory

/-- The ingest handler from the lookup of the cluster on: a push is refused when its name now stands for another
cluster, else it is ingested. -/
def push (s : Server) (req : Push) : Prog World Unit := do
  let now ← clock
  let ingest := fun (clusterID : ℕ) (adopting : Bool) => do
    let snap := req.snapshot s clusterID now
    let cluster : Cluster := ⟨clusterID, req.clusterName, req.inventory.clusterID, 0, now⟩
    let _ ← ingestAttempts s snap (s.decodeInventory snap) req.token (maxIngestAttempts - 1) cluster adopting
    pure ()
  match ← Prog.read fun w : World => w.db.clusterByName req.clusterName with
  | some existing =>
    if req.boundID ≠ 0 ∧ existing.id ≠ req.boundID then pure ()
    else if existing.clusterUID ≠ "" ∧ existing.clusterUID ≠ req.inventory.clusterID then pure ()
    else ingest existing.id (existing.clusterUID = "" ∧ req.inventory.clusterID ≠ "")
  | none => if req.boundID ≠ 0 then pure () else ingest 0 false

/-- A pass of some replica: a push, or a re-evaluation in the background. -/
inductive IsPass : Prog World Unit → Prop
  /-- A push. -/
  | push (s : Server) (req : Push) : IsPass (push s req)
  /-- A background pass over a cluster. -/
  | background (s : Server) (cluster : Cluster) : IsPass (background s cluster)

end UpgradeScope.Passes
