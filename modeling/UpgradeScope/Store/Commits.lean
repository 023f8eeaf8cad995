import UpgradeScope.Store.Rows

/-!
# What a commit does to the tables

`commitEvaluations_cases` says once what a commit that succeeds was and did: a duplicate that only records
its envelope, a push that stores its snapshot and rows of it, or a re-evaluation that adds and rewrites rows
of the latest snapshot. New rows are always rows of their cluster's latest snapshot, and a rewrite keeps what a
row is about (`Keeps`), so the ids of a cluster's evaluations grow with their snapshots' (`DB.Grown`) in every
database that commits reach.
-/

namespace UpgradeScope.Store

open Go Sorting Table

/-! ## Rows written by a batch -/

/-- A row of a batch as it is inserted. -/
def stampRow (now : Time) (clusterID snapshotID id : ℕ) (e : Evaluation) : Evaluation :=
  { e with
    id := id, clusterID := clusterID, snapshotID := snapshotID, createdAt := timeOr e.createdAt now
    evaluatedAt := timeOr e.evaluatedAt (timeOr e.createdAt now) }

/-- The rows of a batch with the ids that follow the last one given. -/
def stampRows (now : Time) (clusterID snapshotID : ℕ) : ℕ → List Evaluation → List Evaluation
  | _, [] => []
  | last, e :: es =>
    stampRow now clusterID snapshotID (last + 1) e :: stampRows now clusterID snapshotID (last + 1) es

variable {now : Time} {db db' : DB} {es : List Evaluation} {b : EvaluationBatch}

/-- A stamped row is a row of the batch with an id after the last one. -/
theorem mem_stampRows {clusterID snapshotID : ℕ} {last : ℕ} {r : Evaluation}
    (h : r ∈ stampRows now clusterID snapshotID last es) :
    ∃ e ∈ es, ∃ id, last < id ∧ id ≤ last + es.length ∧ r = stampRow now clusterID snapshotID id e := by
  induction es generalizing last with
  | nil => simp [stampRows] at h
  | cons e es ih =>
    rcases List.mem_cons.mp h with rfl | h
    · refine ⟨e, List.mem_cons_self, last + 1, by omega, ?_, rfl⟩
      rw [List.length_cons]
      omega
    · obtain ⟨e', he', id, hlt, hle, rfl⟩ := ih h
      refine ⟨e', List.mem_cons_of_mem _ he', id, by omega, ?_, rfl⟩
      rw [List.length_cons]
      omega

/-- The ids of stamped rows increase. -/
theorem pairwise_stampRows (now : Time) (clusterID snapshotID : ℕ) (es : List Evaluation) (last : ℕ) :
    (stampRows now clusterID snapshotID last es).Pairwise fun a b => a.id < b.id := by
  induction es generalizing last with
  | nil => exact .nil
  | cons e es ih =>
    refine .cons (fun r hr => ?_) (ih _)
    obtain ⟨-, -, id, hlt, -, rfl⟩ := mem_stampRows hr
    exact hlt

/-- Inserting the rows of a batch appends them, and touches no other table. -/
theorem foldl_insertEvaluation (now : Time) (clusterID snapshotID : ℕ) (es : List Evaluation) (db : DB) :
    es.foldl (insertEvaluation now clusterID snapshotID) db =
      { db with
        evaluations := db.evaluations ++ stampRows now clusterID snapshotID db.lastEvaluation es
        lastEvaluation := db.lastEvaluation + es.length } := by
  induction es generalizing db with
  | nil => simp [stampRows]
  | cons e es ih =>
    rw [List.foldl_cons, ih]
    have hlast : db.lastEvaluation + 1 + es.length = db.lastEvaluation + (e :: es).length := by
      rw [List.length_cons]
      omega
    simp [insertEvaluation, stampRows, stampRow, hlast]

/-- What a rewrite keeps of a row. -/
structure Keeps (r r' : Evaluation) : Prop where
  /-- Its id. -/
  id : r'.id = r.id
  /-- Its cluster. -/
  clusterID : r'.clusterID = r.clusterID
  /-- Its snapshot. -/
  snapshotID : r'.snapshotID = r.snapshotID
  /-- Its target. -/
  target : r'.target = r.target
  /-- Whether it is ready. -/
  ready : r'.ready = r.ready
  /-- Its score. -/
  score : r'.score = r.score
  /-- When it was inserted. -/
  createdAt : r'.createdAt = r.createdAt

/-- A row stays, or is rewritten by a row of the batch with its id. -/
def Refreshed (now : Time) (clusterID : ℕ) (es : List Evaluation) (r r' : Evaluation) : Prop :=
  r' = r ∨ ∃ e ∈ es, e.id = r.id ∧ r.clusterID = clusterID ∧ r' = refreshRow now e r

/-- A rewritten row is about the same. -/
theorem Refreshed.keeps {clusterID : ℕ} {r r' : Evaluation} (h : Refreshed now clusterID es r r') : Keeps r r' := by
  rcases h with rfl | ⟨e, -, -, -, rfl⟩
  · exact ⟨rfl, rfl, rfl, rfl, rfl, rfl, rfl⟩
  · exact ⟨rfl, rfl, rfl, rfl, rfl, rfl, rfl⟩

/-- A row after the rewrites of a batch: a later rewrite of the same row replaces an earlier one. -/
def rewritten (now : Time) (clusterID : ℕ) (es : List Evaluation) (r : Evaluation) : Evaluation :=
  es.foldl (fun r e => if r.id = e.id ∧ r.clusterID = clusterID then refreshRow now e r else r) r

/-- A row after the rewrites stays, or is rewritten by one of them. -/
theorem refreshed_rewritten (now : Time) (clusterID : ℕ) (es : List Evaluation) (r : Evaluation) :
    Refreshed now clusterID es r (rewritten now clusterID es r) := by
  induction es generalizing r with
  | nil => exact .inl rfl
  | cons e es ih =>
    rw [rewritten, List.foldl_cons]
    split_ifs with hr
    · -- A later rewrite of the same row replaces this one.
      rcases ih (refreshRow now e r) with heq | ⟨f, hf, hid, hcluster, heq⟩
      · exact .inr ⟨e, List.mem_cons_self, hr.1.symm, hr.2, heq⟩
      · exact .inr ⟨f, List.mem_cons_of_mem _ hf, hid, hcluster, heq⟩
    · rcases ih r with heq | ⟨f, hf, hrest⟩
      · exact .inl heq
      · exact .inr ⟨f, List.mem_cons_of_mem _ hf, hrest⟩

/-- The rewrites of a batch: the rows stay in their places, and the other tables as they are. -/
theorem foldlM_refreshEvaluation {clusterID : ℕ} (h : es.foldlM (refreshEvaluation now clusterID) db = .ok db') :
    db' = { db with evaluations := db.evaluations.map (rewritten now clusterID es) } := by
  induction es generalizing db with
  | nil =>
    obtain rfl := Except.ok.inj h
    show db = { db with evaluations := db.evaluations.map id }
    rw [List.map_id]
  | cons e es ih =>
    rw [List.foldlM_cons] at h
    unfold refreshEvaluation at h
    split_ifs at h with hany
    · rw [ih h, List.map_map]
      rfl
    · simp [bind, Except.bind] at h

/-- Queueing notifications appends messages of the cluster to the outbox, and touches no other table. -/
theorem foldl_insertMessage (now : Time) (clusterID : ℕ) (ms : List OutboxMessage) (db : DB) :
    ∃ new last, ms.foldl (insertMessage now clusterID) db = { db with outbox := db.outbox ++ new, lastMessage := last } ∧
      ∀ m ∈ new, m.clusterID = clusterID := by
  induction ms generalizing db with
  | nil => exact ⟨[], db.lastMessage, by simp, by simp⟩
  | cons m ms ih =>
    obtain ⟨new, last, h, hnew⟩ := ih (insertMessage now clusterID db m)
    refine ⟨{ m with
      id := db.lastMessage + 1, clusterID := clusterID, attempts := 0, createdAt := timeOr m.createdAt now
      nextAttemptAt := timeOr m.nextAttemptAt (timeOr m.createdAt now), lastError := "" } :: new, last, ?_, fun m' hm' => ?_⟩
    · rw [List.foldl_cons, h]
      simp [insertMessage]
    rcases List.mem_cons.mp hm' with rfl | hm'
    · rfl
    · exact hnew m' hm'

/-- What the writes of a batch do: its new rows are appended, then its rows are rewritten, and its messages are queued. -/
theorem writeBatch_eq {clusterID snapshotID : ℕ} (h : writeBatch now b clusterID snapshotID db = .ok db') :
    ∃ (new : List OutboxMessage) (last : ℕ), (∀ m ∈ new, m.clusterID = clusterID) ∧
      db' = { db with
        evaluations := (db.evaluations ++ stampRows now clusterID snapshotID db.lastEvaluation b.insert).map
          (rewritten now clusterID b.refresh)
        lastEvaluation := db.lastEvaluation + b.insert.length
        outbox := db.outbox ++ new
        lastMessage := last } := by
  unfold writeBatch at h
  rw [foldl_insertEvaluation] at h
  cases hrefresh : b.refresh.foldlM (refreshEvaluation now clusterID)
      { db with
        evaluations := db.evaluations ++ stampRows now clusterID snapshotID db.lastEvaluation b.insert
        lastEvaluation := db.lastEvaluation + b.insert.length } with
  | error err =>
    rw [hrefresh] at h
    simp [Except.map] at h
  | ok mid =>
    rw [hrefresh] at h
    obtain ⟨new, last, hout, hnew⟩ := foldl_insertMessage now clusterID b.outbox mid
    simp only [Except.map, Except.ok.injEq] at h
    rw [hout] at h
    obtain rfl := foldlM_refreshEvaluation hrefresh
    exact ⟨new, last, hnew, h.symm⟩

/-- What the writes of a batch leave of the evaluations and the snapshots. -/
theorem writeBatch_spec {clusterID snapshotID : ℕ} (h : writeBatch now b clusterID snapshotID db = .ok db') :
    ∃ g : Evaluation → Evaluation, (∀ r, Refreshed now clusterID b.refresh r (g r)) ∧
      db'.evaluations =
        (db.evaluations ++ stampRows now clusterID snapshotID db.lastEvaluation b.insert).map g ∧
      db'.snapshots = db.snapshots ∧ db'.lastSnapshot = db.lastSnapshot ∧
      db'.lastEvaluation = db.lastEvaluation + b.insert.length := by
  obtain ⟨new, last, -, rfl⟩ := writeBatch_eq h
  exact ⟨_, refreshed_rewritten now clusterID b.refresh, rfl, rfl, rfl, rfl⟩

/-! ## The commit -/

/-- Two databases have the same snapshots and evaluations. -/
structure SameRows (db db' : DB) : Prop where
  /-- The snapshots. -/
  snapshots : db'.snapshots = db.snapshots
  /-- The evaluations. -/
  evaluations : db'.evaluations = db.evaluations
  /-- The last snapshot id. -/
  lastSnapshot : db'.lastSnapshot = db.lastSnapshot
  /-- The last evaluation id. -/
  lastEvaluation : db'.lastEvaluation = db.lastEvaluation

namespace SameRows

variable {db db' : DB} (h : SameRows db db')

include h

/-- Databases with the same rows have the same latest snapshots. -/
theorem latestSnapshot (clusterID : ℕ) : db'.latestSnapshot clusterID = db.latestSnapshot clusterID := by
  unfold DB.latestSnapshot
  rw [h.snapshots]

/-- Databases with the same rows have the same newest baselines. -/
theorem latestKnownEvaluation (clusterID : ℕ) (target : String) :
    db'.latestKnownEvaluation clusterID target = db.latestKnownEvaluation clusterID target := by
  unfold DB.latestKnownEvaluation
  rw [h.evaluations]

/-- The newest evaluations of a snapshot are the same. -/
theorem snapshotEvaluation (snapshotID : ℕ) (target : String) :
    db'.snapshotEvaluation snapshotID target = db.snapshotEvaluation snapshotID target := by
  unfold DB.snapshotEvaluation
  rw [h.evaluations]

end SameRows

/-- A row as the upsert of a cluster leaves it. -/
def touched (now : Time) (c s : Cluster) : Cluster :=
  if s.name = c.name then
    { s with clusterUID := orElse c.clusterUID s.clusterUID, lastSeen := timeOr c.lastSeen now }
  else s

/-- The row that the first push of a cluster registers. -/
def registered (now : Time) (c : Cluster) (id : ℕ) : Cluster :=
  ⟨id, c.name, c.clusterUID, timeOr c.firstSeen (timeOr c.lastSeen now), timeOr c.lastSeen now⟩

variable {db db' : DB} {now : Time} {b : EvaluationBatch} {c : Cluster}

/-- What an upsert that succeeds did: it registered a name that was free, or it touched the cluster of the name, which was
bound to no other cluster id. -/
theorem upsertCluster_cases {id : ℕ} (h : upsertCluster now c db = .ok (db', id)) :
    (db.clusterByName c.name = none ∧ id = db.lastCluster + 1 ∧
      db' = { db with clusters := db.clusters ++ [registered now c id], lastCluster := id }) ∨
    ∃ stored, db.clusterByName c.name = some stored ∧ id = stored.id ∧
      (stored.clusterUID = "" ∨ stored.clusterUID = c.clusterUID) ∧
      db' = { db with clusters := db.clusters.map (touched now c) } := by
  unfold upsertCluster at h
  dsimp only at h
  cases hstored : db.clusterByName c.name with
  | none =>
    rw [hstored] at h
    obtain ⟨rfl, rfl⟩ := Prod.mk.inj (Except.ok.inj h)
    exact .inl ⟨rfl, rfl, rfl⟩
  | some stored =>
    rw [hstored] at h
    dsimp only at h
    split_ifs at h with huid
    obtain ⟨rfl, rfl⟩ := Prod.mk.inj (Except.ok.inj h)
    exact .inr ⟨stored, rfl, rfl, huid, rfl⟩

/-- A touched row keeps its id and its name. -/
theorem touched_keeps (now : Time) (c s : Cluster) : (touched now c s).id = s.id ∧ (touched now c s).name = s.name := by
  unfold touched
  split_ifs <;> exact ⟨rfl, rfl⟩

/-- A row that is bound keeps its cluster id, where the upsert may touch it. -/
theorem touched_bound {c s : Cluster} (h : s.name = c.name → s.clusterUID = "" ∨ s.clusterUID = c.clusterUID)
    (hne : s.clusterUID ≠ "") : (touched now c s).clusterUID = s.clusterUID := by
  unfold touched
  split_ifs with hname
  · show orElse c.clusterUID s.clusterUID = s.clusterUID
    rw [← (h hname).resolve_left hne, orElse, if_neg hne]
  · rfl

/-- What the first step of a commit that goes on did: nothing for a re-evaluation; for a push an upsert, after which its
lookup and its token still stand. -/
theorem registerCluster_cases {id : ℕ} (h : registerCluster now b db = .ok (db', id)) :
    (b.cluster = none ∧ db' = db ∧ id = b.clusterID) ∨
    ∃ c, b.cluster = some c ∧ upsertCluster now c db = .ok (db', id) ∧ (c.id = 0 ∨ c.id = id) ∧
      ∀ hash, b.ingestToken = some hash →
        ∃ t ∈ db'.tokens, t.tokenHash = hash ∧ t.clusterName = c.name ∧ t.revoked = false := by
  unfold registerCluster at h
  cases hc : b.cluster with
  | none =>
    rw [hc] at h
    obtain ⟨rfl, rfl⟩ := Prod.mk.inj (Except.ok.inj h)
    exact .inl ⟨rfl, rfl, rfl⟩
  | some c =>
    rw [hc] at h
    dsimp only at h
    cases hup : upsertCluster now c db with
    | error err => simp [hup, bind, Except.bind] at h
    | ok p =>
      obtain ⟨mid, cid⟩ := p
      cases hre : recheckPush b c cid mid with
      | error err => simp [hup, hre, bind, Except.bind] at h
      | ok u =>
        simp only [hup, hre, bind, Except.bind, pure, Except.pure, Except.ok.injEq, Prod.mk.injEq] at h
        obtain ⟨rfl, rfl⟩ := h
        unfold recheckPush at hre
        split_ifs at hre with hid
        refine .inr ⟨c, rfl, hup, ?_, fun hash hhash => ?_⟩
        · by_contra hne
          exact hid ⟨fun h0 => hne (.inl h0), fun h1 => hne (.inr h1)⟩
        · rw [hhash] at hre
          dsimp only at hre
          split_ifs at hre with htoken
          obtain ⟨t, ht, hactive⟩ := List.any_eq_true.mp htoken
          simp only [decide_eq_true_eq, Bool.not_eq_true] at hactive
          exact ⟨t, ht, hactive⟩

/-- Registering a cluster touches the clusters only. -/
theorem upsertCluster_rows {id : ℕ} (h : upsertCluster now c db = .ok (db', id)) : SameRows db db' := by
  obtain ⟨-, -, rfl⟩ | ⟨stored, -, -, -, rfl⟩ := upsertCluster_cases h <;> exact ⟨rfl, rfl, rfl, rfl⟩

/-- The first step of a commit touches the clusters only, and gives a batch without a cluster its own. -/
theorem registerCluster_rows {id : ℕ} (h : registerCluster now b db = .ok (db', id)) :
    SameRows db db' ∧ (b.cluster = none → id = b.clusterID) ∧
      (∀ c, b.cluster = some c → c.id = 0 ∨ c.id = id) := by
  obtain ⟨hc, rfl, rfl⟩ | ⟨c, hc, hup, hid, -⟩ := registerCluster_cases h
  · exact ⟨⟨rfl, rfl, rfl, rfl⟩, fun _ => rfl, by simp [hc]⟩
  · refine ⟨upsertCluster_rows hup, by simp [hc], fun d hd => ?_⟩
    obtain rfl : c = d := Option.some.inj (hc.symm.trans hd)
    exact hid

/-- The first step of a commit queues nothing. -/
theorem registerCluster_outbox {id : ℕ} (h : registerCluster now b db = .ok (db', id)) : db'.outbox = db.outbox := by
  obtain ⟨-, rfl, -⟩ | ⟨c, -, hup, -, -⟩ := registerCluster_cases h
  · rfl
  · obtain ⟨-, -, rfl⟩ | ⟨stored, -, -, -, rfl⟩ := upsertCluster_cases hup <;> rfl

/-- What a commit that succeeds was and did: a duplicate, a push or a re-evaluation. -/
theorem commitEvaluations_cases {snapID : ℕ} {dup : Bool} (h : commitEvaluations now b db = .ok (db', snapID, dup)) :
    ∃ mid clusterID, registerCluster now b db = .ok (mid, clusterID) ∧
      ((∃ snap latest, b.snapshot = some snap ∧ db.latestSnapshot clusterID = some latest ∧
          dup = true ∧ snapID = latest.id ∧ db' = recordEnvelope snap latest.id mid) ∨
        (∃ snap, b.snapshot = some snap ∧ dup = false ∧ snapID = db.lastSnapshot + 1 ∧
          checkExpectation b clusterID (((db.latestSnapshot clusterID).map (·.id)).getD 0) mid = .ok () ∧
          writeBatch now b clusterID (db.lastSnapshot + 1) (insertSnapshot now clusterID snap mid) = .ok db') ∨
        (∃ latest, b.snapshot = none ∧ db.latestSnapshot clusterID = some latest ∧
          latest.id = b.snapshotID ∧ dup = false ∧ snapID = b.snapshotID ∧ checkCurrent b mid = .ok () ∧
          checkExpectation b clusterID b.snapshotID mid = .ok () ∧
          writeBatch now b clusterID b.snapshotID mid = .ok db')) := by
  unfold commitEvaluations at h
  cases hreg : registerCluster now b db with
  | error err => simp [hreg, bind, Except.bind] at h
  | ok p =>
    obtain ⟨mid, clusterID⟩ := p
    obtain ⟨hsame, -, -⟩ := registerCluster_rows hreg
    refine ⟨mid, clusterID, rfl, ?_⟩
    simp only [hreg, bind, Except.bind] at h
    unfold commitBatch at h
    rw [hsame.latestSnapshot] at h
    dsimp only at h
    cases hsnap : b.snapshot with
    | some snap =>
      rw [hsnap] at h
      dsimp only at h
      split_ifs at h with hdup
      · -- A duplicate: its latest snapshot has the pushed hash.
        obtain ⟨latest, hlatest, -⟩ := (Option.any_eq_true _ _).mp hdup
        rw [hlatest] at h
        obtain ⟨rfl, hrest⟩ := Prod.mk.inj (Except.ok.inj h)
        obtain ⟨rfl, rfl⟩ := Prod.mk.inj hrest
        exact .inl ⟨snap, latest, rfl, hlatest, rfl, rfl, rfl⟩
      · cases hx : checkExpectation b clusterID (((db.latestSnapshot clusterID).map (·.id)).getD 0) mid with
        | error err => simp [hx, bind, Except.bind] at h
        | ok u =>
          cases hw : writeBatch now b clusterID (insertSnapshot now clusterID snap mid).lastSnapshot
              (insertSnapshot now clusterID snap mid) with
          | error err => simp [hx, hw, bind, Except.bind] at h
          | ok written =>
            simp only [hx, hw, bind, Except.bind, pure, Except.pure, Except.ok.injEq, Prod.mk.injEq] at h
            obtain ⟨rfl, rfl, rfl⟩ := h
            have hlast : (insertSnapshot now clusterID snap mid).lastSnapshot = db.lastSnapshot + 1 := by
              rw [← hsame.lastSnapshot]
              rfl
            rw [hlast] at hw ⊢
            exact .inr (.inl ⟨snap, rfl, rfl, rfl, rfl, hw⟩)
    | none =>
      rw [hsnap] at h
      dsimp only at h
      split_ifs at h with hstale
      rw [not_or, not_not] at hstale
      obtain ⟨hsome, hid⟩ := hstale
      obtain ⟨latest, hlatest⟩ : ∃ latest, db.latestSnapshot clusterID = some latest := by
        rwa [Option.isNone_iff_eq_none, ← ne_eq, Option.ne_none_iff_exists'] at hsome
      rw [hlatest] at h hid
      simp only [Option.map_some, Option.getD_some] at h hid
      cases hcur : checkCurrent b mid with
      | error err => simp [hcur, bind, Except.bind] at h
      | ok u =>
        cases hx : checkExpectation b clusterID latest.id mid with
        | error err => simp [hcur, hx, bind, Except.bind] at h
        | ok u =>
          cases hw : writeBatch now b clusterID b.snapshotID mid with
          | error err => simp [hcur, hx, hw, bind, Except.bind] at h
          | ok written =>
            simp only [hcur, hx, hw, bind, Except.bind, pure, Except.pure, Except.ok.injEq,
              Prod.mk.injEq] at h
            obtain ⟨rfl, rfl, rfl⟩ := h
            rw [hid] at hx
            exact .inr (.inr ⟨latest, rfl, hlatest, hid, rfl, rfl, rfl, hx, rfl⟩)

/-! ## Databases that commits reach -/

/-- The ids of the tables grew with insertion, and every evaluation has its snapshot. -/
structure DB.Keyed (db : DB) : Prop where
  /-- No two snapshots share an id. -/
  snapshotIDs : (db.snapshots.map (·.id)).Nodup
  /-- Snapshot ids are positive and at most the last one given. -/
  snapshotsLe : ∀ s ∈ db.snapshots, 0 < s.id ∧ s.id ≤ db.lastSnapshot
  /-- No two evaluations share an id. -/
  evaluationIDs : (db.evaluations.map (·.id)).Nodup
  /-- Evaluation ids are positive and at most the last one given. -/
  evaluationsLe : ∀ e ∈ db.evaluations, 0 < e.id ∧ e.id ≤ db.lastEvaluation
  /-- Every evaluation has its snapshot. -/
  judged : ∀ e ∈ db.evaluations, ∃ s ∈ db.snapshots, s.id = e.snapshotID ∧ s.clusterID = e.clusterID

/-- Later evaluations of a cluster are of no earlier snapshot. -/
def DB.Ordered (db : DB) : Prop :=
  ∀ e ∈ db.evaluations, ∀ e' ∈ db.evaluations, e.clusterID = e'.clusterID → e.id ≤ e'.id →
    e.snapshotID ≤ e'.snapshotID

/-- The latest snapshot of a cluster is one of its snapshots, and no later one of them. -/
theorem DB.latestSnapshot_spec {clusterID : ℕ} {s : Snapshot} (h : db.latestSnapshot clusterID = some s) :
    s ∈ db.snapshots ∧ s.clusterID = clusterID ∧
      ∀ t ∈ db.snapshots, t.clusterID = clusterID → t.id ≤ s.id := by
  have hmem := List.mem_filter.mp (newest_mem h)
  refine ⟨hmem.1, of_decide_eq_true hmem.2, fun t ht hc => ?_⟩
  exact le_newest h (List.mem_filter.mpr ⟨ht, by simpa using hc⟩)

/-- A row after the writes of a batch is an old one or a new one of the batch's snapshot, but for what a
rewrite changes. -/
theorem mem_writeBatch {clusterID snapshotID : ℕ} (hw : writeBatch now b clusterID snapshotID db = .ok db')
    {e : Evaluation} (he : e ∈ db'.evaluations) :
    ∃ r, Refreshed now clusterID b.refresh r e ∧
      (r ∈ db.evaluations ∨ ∃ f ∈ b.insert, ∃ id, db.lastEvaluation < id ∧
        id ≤ db.lastEvaluation + b.insert.length ∧ r = stampRow now clusterID snapshotID id f) := by
  obtain ⟨g, hg, hevals, -⟩ := writeBatch_spec hw
  rw [hevals] at he
  obtain ⟨r, hr, rfl⟩ := List.mem_map.mp he
  exact ⟨r, hg r, (List.mem_append.mp hr).imp_right mem_stampRows⟩

namespace DB.Keyed

variable {db db' : DB} (h : db.Keyed)

/-- The empty database is keyed. -/
theorem empty : ({} : DB).Keyed := by
  constructor <;> simp

include h

/-- A database with the rows of a keyed one is keyed. -/
theorem of_same (hsame : SameRows db db') : db'.Keyed := by
  obtain ⟨hs, he, hls, hle⟩ := hsame
  constructor
  · rw [hs]; exact h.snapshotIDs
  · rw [hs, hls]; exact h.snapshotsLe
  · rw [he]; exact h.evaluationIDs
  · rw [he, hle]; exact h.evaluationsLe
  · rw [he, hs]; exact h.judged

/-- Recording an envelope keeps the snapshots' ids and clusters. -/
theorem recordEnvelope (snap : Snapshot) (latestID : ℕ) : (recordEnvelope snap latestID db).Keyed := by
  have hids : (Store.recordEnvelope snap latestID db).snapshots.map (·.id) =
      db.snapshots.map (·.id) := by
    simp only [Store.recordEnvelope, List.map_map]
    refine List.map_congr_left fun s _ => ?_
    rw [Function.comp_apply]
    split_ifs <;> rfl
  constructor
  · rw [hids]; exact h.snapshotIDs
  · intro s hs
    have hmem : s.id ∈ db.snapshots.map (·.id) := by
      rw [← hids]
      exact List.mem_map_of_mem hs
    obtain ⟨t, ht, hid⟩ := List.mem_map.mp hmem
    rw [← hid]
    exact h.snapshotsLe t ht
  · exact h.evaluationIDs
  · exact h.evaluationsLe
  · intro e he
    obtain ⟨s, hs, hid, hc⟩ := h.judged e he
    refine ⟨_, List.mem_map_of_mem hs, ?_, ?_⟩ <;> split_ifs <;> assumption

/-- A push's snapshot gets an id after every other. -/
theorem insertSnapshot (now : Time) (clusterID : ℕ) (snap : Snapshot) :
    (insertSnapshot now clusterID snap db).Keyed := by
  constructor
  · simp only [Store.insertSnapshot, List.map_append, List.map_cons, List.map_nil]
    rw [List.nodup_append]
    refine ⟨h.snapshotIDs, by simp, fun a ha b hb => ?_⟩
    obtain ⟨s, hs, rfl⟩ := List.mem_map.mp ha
    have := (h.snapshotsLe s hs).2
    rw [List.mem_singleton.mp hb]
    omega
  · intro s hs
    rcases List.mem_append.mp hs with hs | hs
    · have := h.snapshotsLe s hs
      exact ⟨this.1, Nat.le_succ_of_le this.2⟩
    · rw [List.mem_singleton.mp hs]
      exact ⟨Nat.succ_pos _, le_rfl⟩
  · exact h.evaluationIDs
  · exact h.evaluationsLe
  · intro e he
    obtain ⟨s, hs, hrest⟩ := h.judged e he
    exact ⟨s, List.mem_append_left _ hs, hrest⟩

/-- The writes of a batch on a snapshot of its cluster. -/
theorem writeBatch {now : Time} {b : EvaluationBatch} {clusterID snapshotID : ℕ}
    (hw : writeBatch now b clusterID snapshotID db = .ok db')
    (hsnap : ∃ s ∈ db.snapshots, s.id = snapshotID ∧ s.clusterID = clusterID) : db'.Keyed := by
  obtain ⟨g, hg, hevals, hsnaps, hlastS, hlastE⟩ := writeBatch_spec hw
  have hids : db'.evaluations.map (·.id) =
      (db.evaluations ++ stampRows now clusterID snapshotID db.lastEvaluation b.insert).map (·.id) := by
    rw [hevals, List.map_map]
    exact List.map_congr_left fun r _ => (hg r).keeps.id
  constructor
  · rw [hsnaps]; exact h.snapshotIDs
  · rw [hsnaps, hlastS]; exact h.snapshotsLe
  -- The new ids are above the last one given, so they are none of the stored ones.
  · rw [hids, List.map_append, List.nodup_append]
    refine ⟨h.evaluationIDs, ?_, fun a ha c hc => ?_⟩
    · exact (List.pairwise_map.mpr (pairwise_stampRows ..)).imp fun {a b} hab => Nat.ne_of_lt hab
    · obtain ⟨e, he, rfl⟩ := List.mem_map.mp ha
      obtain ⟨r, hr, rfl⟩ := List.mem_map.mp hc
      obtain ⟨-, -, id, hlt, -, rfl⟩ := mem_stampRows hr
      have := (h.evaluationsLe e he).2
      exact Nat.ne_of_lt (Nat.lt_of_le_of_lt this hlt)
  · intro e he
    obtain ⟨r, hk, hr | ⟨f, -, id, hlt, hle, rfl⟩⟩ := mem_writeBatch hw he
    · have := h.evaluationsLe r hr
      rw [hk.keeps.id, hlastE]
      omega
    · rw [hk.keeps.id, hlastE]
      exact ⟨Nat.zero_lt_of_lt hlt, hle⟩
  · intro e he
    rw [hsnaps]
    obtain ⟨r, hk, hr | ⟨f, -, id, -, -, rfl⟩⟩ := mem_writeBatch hw he
    · rw [hk.keeps.snapshotID, hk.keeps.clusterID]
      exact h.judged r hr
    · rw [hk.keeps.snapshotID, hk.keeps.clusterID]
      exact hsnap

end DB.Keyed

variable {b : EvaluationBatch} {db db' : DB} {dup : Bool} {now : Time} {snapID : ℕ}

/-- A commit writes to a database on a snapshot that is its cluster's latest, stored by the commit itself for
a push, or it only records an envelope. -/
theorem commit_writes (h : db.Keyed) (hcommit : commitEvaluations now b db = .ok (db', snapID, dup)) :
    (∃ mid snap latestID, SameRows db mid ∧ db' = recordEnvelope snap latestID mid) ∨
      ∃ mid clusterID, mid.Keyed ∧ mid.evaluations = db.evaluations ∧
        mid.lastEvaluation = db.lastEvaluation ∧
        (∃ s ∈ mid.snapshots, s.id = snapID ∧ s.clusterID = clusterID) ∧
        (∀ s ∈ mid.snapshots, s.clusterID = clusterID → s.id ≤ snapID) ∧
        writeBatch now b clusterID snapID mid = .ok db' := by
  obtain ⟨mid, clusterID, hreg, hcases⟩ := commitEvaluations_cases hcommit
  obtain ⟨hsame, -, -⟩ := registerCluster_rows hreg
  have hmid : mid.Keyed := h.of_same hsame
  -- A duplicate records an envelope. A push stores its snapshot, and a re-evaluation is of the latest.
  rcases hcases with ⟨snap, latest, -, -, -, -, rfl⟩ | ⟨snap, -, -, rfl, -, hw⟩ |
    ⟨latest, -, hlatest, hid, -, rfl, -, -, hw⟩
  · exact .inl ⟨mid, snap, latest.id, hsame, rfl⟩
  · refine .inr ⟨insertSnapshot now clusterID snap mid, clusterID,
      hmid.insertSnapshot now clusterID snap, hsame.evaluations, hsame.lastEvaluation, ?_, ?_, hw⟩
    · exact ⟨_, List.mem_append_right _ (List.mem_singleton.mpr rfl),
        congrArg Nat.succ hsame.lastSnapshot, rfl⟩
    · intro s hs _
      rw [← hsame.lastSnapshot]
      rcases List.mem_append.mp hs with hs | hs
      · exact Nat.le_succ_of_le (hmid.snapshotsLe s hs).2
      · rw [List.mem_singleton.mp hs]
  · obtain ⟨hmem, hc, hmax⟩ := DB.latestSnapshot_spec hlatest
    rw [← hsame.snapshots] at hmem hmax
    rw [← hid] at hw ⊢
    exact .inr ⟨mid, clusterID, hmid, hsame.evaluations, hsame.lastEvaluation, ⟨latest, hmem, rfl, hc⟩,
      hmax, hw⟩

/-- Commits keep the tables keyed. -/
theorem DB.Keyed.commit (h : db.Keyed) (hcommit : commitEvaluations now b db = .ok (db', snapID, dup)) : db'.Keyed := by
  obtain ⟨mid, snap, latestID, hsame, rfl⟩ | ⟨mid, clusterID, hmid, -, -, hsnap, -, hw⟩ :=
    commit_writes h hcommit
  · exact (h.of_same hsame).recordEnvelope snap latestID
  · exact hmid.writeBatch hw hsnap

/-- Commits keep the order of a cluster's evaluations. -/
theorem DB.Ordered.commit (hkeyed : db.Keyed) (h : db.Ordered)
    (hcommit : commitEvaluations now b db = .ok (db', snapID, dup)) :
    db'.Ordered := by
  obtain ⟨mid, snap, latestID, hsame, rfl⟩ | ⟨mid, clusterID, hmid, hevals, -, -, hmax, hw⟩ :=
    commit_writes hkeyed hcommit
  · intro e he e' he'
    rw [show (recordEnvelope snap latestID mid).evaluations = db.evaluations from hsame.evaluations] at he he'
    exact h e he e' he'
  · intro e he e' he' hcluster hle
    obtain ⟨r, hk, hr⟩ := mem_writeBatch hw he
    obtain ⟨r', hk', hr'⟩ := mem_writeBatch hw he'
    rw [hk.keeps.clusterID, hk'.keeps.clusterID] at hcluster
    rw [hk.keeps.id, hk'.keeps.id] at hle
    rw [hk.keeps.snapshotID, hk'.keeps.snapshotID]
    rcases hr with hr | ⟨f, -, id, hlt, -, rfl⟩ <;> rcases hr' with hr' | ⟨f', -, id', -, -, rfl⟩
    · rw [hevals] at hr hr'
      exact h r hr r' hr' hcluster hle
    · -- An old row against a new one, which is of the latest snapshot.
      obtain ⟨s, hmem, hid, hsc⟩ := hmid.judged r hr
      rw [← hid]
      exact hmax s hmem (hsc.trans hcluster)
    · have := (hmid.evaluationsLe r' hr').2
      exact absurd (Nat.lt_of_lt_of_le hlt hle) (Nat.not_lt.mpr this)
    · exact le_rfl

end UpgradeScope.Store
