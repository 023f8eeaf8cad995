import UpgradeScope.Store.Commits
import UpgradeScope.Lib.Runs

/-!
# The identity of clusters

A cluster is registered by its first push, under a name and with the `clusterId` its agent reports, if any. Its id is never
given again; its name can be changed by `RenameCluster`, which takes the ingest tokens along, and is free once
`DeleteCluster` removes it. `upsertCluster_cases` says once what registering or touching a cluster does. From it follow what
holds of the clusters table in every database (`Registered`), what one state of it says of a later one (`Succeeds`), and that
a commit writes to one cluster only (`commit_holdings`).
-/

namespace UpgradeScope.Store

open Go Sorting Table Relation

/-! ## Deleting and renaming -/

/-- Why a cluster was not deleted or renamed. -/
inductive ClusterError where
  /-- `ErrNotFound`. -/
  | notFound (name : String)
  /-- `ErrClusterNameTaken`. -/
  | nameTaken (name newName : String)
  /-- The new name is empty. -/
  | emptyName (name : String)
  deriving DecidableEq

/-- `DeleteCluster`. -/
def deleteCluster (name : String) (db : DB) : Except ClusterError DB :=
  match db.clusterByName name with
  | none => .error (.notFound name)
  | some c => .ok { db with
      evaluations := db.evaluations.filter (·.clusterID ≠ c.id)
      snapshots := db.snapshots.filter (·.clusterID ≠ c.id)
      outbox := db.outbox.filter (·.clusterID ≠ c.id)
      clusters := db.clusters.filter (·.id ≠ c.id)
      tokens := db.tokens.filter (·.clusterName ≠ name) }

/-- `RenameCluster`. -/
def renameCluster (name newName : String) (db : DB) : Except ClusterError DB :=
  if newName = "" then .error (.emptyName name)
  else match db.clusterByName name with
    | none => .error (.notFound name)
    | some c =>
      if db.clusters.any fun s => s.name = newName ∧ s.id ≠ c.id then .error (.nameTaken name newName)
      else .ok { db with
        clusters := db.clusters.map fun s => if s.id = c.id then { s with name := newName } else s
        tokens := db.tokens.map fun t => if t.clusterName = name then { t with clusterName := newName } else t }

/-- A call that writes, each a transaction of its own; a call that fails writes nothing. -/
inductive ClusterStep : DB → DB → Prop
  /-- `UpsertCluster`. -/
  | upsert {now : Time} {c : Cluster} {db db' : DB} {id : ℕ} (h : upsertCluster now c db = .ok (db', id)) :
    ClusterStep db db'
  /-- `CommitEvaluations`. -/
  | commit {now : Time} {b : EvaluationBatch} {db db' : DB} {snapID : ℕ} {dup : Bool}
    (h : commitEvaluations now b db = .ok (db', snapID, dup)) : ClusterStep db db'
  /-- `RenameCluster`. -/
  | rename {name newName : String} {db db' : DB} (h : renameCluster name newName db = .ok db') : ClusterStep db db'
  /-- `DeleteCluster`. -/
  | delete {name : String} {db db' : DB} (h : deleteCluster name db = .ok db') : ClusterStep db db'
  /-- Tokens are created and revoked in any way. -/
  | tokens {db : DB} (tokens : List Token) : ClusterStep db { db with tokens := tokens }

/-- The databases that calls reach. -/
def Reached (db : DB) : Prop := ReflTransGen ClusterStep {} db

/-! ## What a call does to the clusters -/

variable {c : Cluster} {db : DB} {f : Cluster → Cluster}

/-- The cluster of a name is in the table, with the name. -/
theorem mem_of_clusterByName {name : String} (h : db.clusterByName name = some c) :
    c ∈ db.clusters ∧ c.name = name :=
  ⟨List.mem_of_find?_eq_some h, by simpa using List.find?_some h⟩

/-- No cluster has a name that is free. -/
theorem name_ne_of_clusterByName {name : String} (h : db.clusterByName name = none) (hc : c ∈ db.clusters) :
    c.name ≠ name := by
  simpa using List.find?_eq_none.mp h c hc

/-- What holds of the clusters in every database: names and ids are told apart, and ids were given in order. -/
structure Registered (clusters : List Cluster) (last : ℕ) : Prop where
  /-- No two clusters have one name. -/
  names : (clusters.map (·.name)).Nodup
  /-- No two clusters have one id. -/
  ids : (clusters.map (·.id)).Nodup
  /-- Ids are positive and at most the last one given. -/
  idsLe : ∀ c ∈ clusters, 0 < c.id ∧ c.id ≤ last

/-- What a later clusters table is to an earlier one: a cluster whose id was given before was there before, and keeps the
`clusterId` that it had. -/
structure Succeeds (clusters clusters' : List Cluster) (last last' : ℕ) : Prop where
  /-- Ids go on from the last one. -/
  lastLe : last ≤ last'
  /-- Clusters with an earlier id are the earlier ones. -/
  kept : ∀ c' ∈ clusters', c'.id ≤ last → ∃ c ∈ clusters, c.id = c'.id ∧ (c.clusterUID ≠ "" → c'.clusterUID = c.clusterUID)

/-- The clusters before a call succeed themselves. -/
theorem Succeeds.refl (clusters : List Cluster) (last : ℕ) : Succeeds clusters clusters last last :=
  ⟨le_rfl, fun c hc _ => ⟨c, hc, rfl, fun _ => rfl⟩⟩

/-- The clusters after two calls succeed those before the first. -/
theorem Succeeds.trans {a b c : List Cluster} {l m n : ℕ} (hab : Succeeds a b l m) (hbc : Succeeds b c m n) :
    Succeeds a c l n := by
  refine ⟨hab.lastLe.trans hbc.lastLe, fun z hz hle => ?_⟩
  obtain ⟨y, hy, hyz, huid⟩ := hbc.kept z hz (hle.trans hab.lastLe)
  obtain ⟨x, hx, hxy, huid'⟩ := hab.kept y hy (hyz ▸ hle)
  refine ⟨x, hx, hxy.trans hyz, fun hne => ?_⟩
  have hxyUID := huid' hne
  rw [huid (by rw [hxyUID]; exact hne), hxyUID]

/-- Rows that keep their ids, and whose names are told apart. -/
theorem Registered.map {clusters : List Cluster} {last : ℕ} (h : Registered clusters last) (hid : ∀ s, (f s).id = s.id)
    (hname : (clusters.map fun s => (f s).name).Nodup) : Registered (clusters.map f) last := by
  refine ⟨by rwa [List.map_map], ?_, fun s hs => ?_⟩
  · rw [List.map_map]
    exact (List.map_congr_left fun s _ => hid s) ▸ h.ids
  · obtain ⟨s, hmem, rfl⟩ := List.mem_map.mp hs
    rw [hid]
    exact h.idsLe s hmem

/-- Rows that keep their ids and what they are bound to. -/
theorem Succeeds.map {clusters : List Cluster} (last : ℕ) (hid : ∀ s, (f s).id = s.id)
    (huid : ∀ s ∈ clusters, s.clusterUID ≠ "" → (f s).clusterUID = s.clusterUID) :
    Succeeds clusters (clusters.map f) last last := by
  refine ⟨le_rfl, fun s' hs' _ => ?_⟩
  obtain ⟨s, hs, rfl⟩ := List.mem_map.mp hs'
  exact ⟨s, hs, (hid s).symm, huid s hs⟩

/-! ## Upserts -/

section Upsert

variable {now : Time} {c : Cluster} {db db' : DB} {id : ℕ} (hreg : Registered db.clusters db.lastCluster)
  (h : upsertCluster now c db = .ok (db', id))

include hreg

/-- Clusters with one name are one. -/
theorem Registered.eq_of_name {s s' : Cluster} (hs : s ∈ db.clusters) (hs' : s' ∈ db.clusters) (heq : s.name = s'.name) :
    s = s' :=
  List.inj_on_of_nodup_map hreg.names hs hs' heq

/-- Clusters with one id are one. -/
theorem Registered.eq_of_id {s s' : Cluster} (hs : s ∈ db.clusters) (hs' : s' ∈ db.clusters) (heq : s.id = s'.id) :
    s = s' :=
  List.inj_on_of_nodup_map hreg.ids hs hs' heq

include h

/-- An upsert keeps names and ids apart. -/
theorem Registered.upsert : Registered db'.clusters db'.lastCluster := by
  obtain ⟨hfree, rfl, rfl⟩ | ⟨stored, -, -, -, rfl⟩ := upsertCluster_cases h
  · refine ⟨?_, ?_, fun s hs => ?_⟩
    · rw [List.map_append, List.nodup_append]
      refine ⟨hreg.names, by simp, fun name hname name' hname' => ?_⟩
      obtain ⟨s, hs, rfl⟩ := List.mem_map.mp hname
      rw [List.mem_singleton.mp hname']
      exact name_ne_of_clusterByName hfree hs
    · rw [List.map_append, List.nodup_append]
      refine ⟨hreg.ids, by simp, fun i hi i' hi' => ?_⟩
      obtain ⟨s, hs, rfl⟩ := List.mem_map.mp hi
      rw [List.mem_singleton.mp hi']
      exact Nat.ne_of_lt (Nat.lt_succ_of_le (hreg.idsLe s hs).2)
    · rcases List.mem_append.mp hs with hs | hs
      · exact ⟨(hreg.idsLe s hs).1, Nat.le_succ_of_le (hreg.idsLe s hs).2⟩
      · rw [List.mem_singleton.mp hs]
        exact ⟨Nat.succ_pos _, le_rfl⟩
  · refine hreg.map (fun s => (touched_keeps now c s).1) ?_
    rw [List.map_congr_left fun s _ => (touched_keeps now c s).2]
    exact hreg.names

/-- An upsert keeps the clusters that were there. -/
theorem Succeeds.upsert : Succeeds db.clusters db'.clusters db.lastCluster db'.lastCluster := by
  obtain ⟨-, rfl, rfl⟩ | ⟨stored, hstored, -, huid, rfl⟩ := upsertCluster_cases h
  · refine ⟨Nat.le_succ _, fun s hs hle => ?_⟩
    rcases List.mem_append.mp hs with hs | hs
    · exact ⟨s, hs, rfl, fun _ => rfl⟩
    · rw [List.mem_singleton.mp hs] at hle
      exact absurd hle (Nat.not_succ_le_self _)
  · refine Succeeds.map _ (fun s => (touched_keeps now c s).1) fun s hs => touched_bound fun hname => ?_
    -- The row that is touched is the one the upsert found.
    obtain ⟨hmem, hstoredName⟩ := mem_of_clusterByName hstored
    rw [hreg.eq_of_name hs hmem (hname.trans hstoredName.symm)]
    exact huid

end Upsert

/-! ## Renames and deletes -/

/-- What a rename that succeeds did. -/
theorem renameCluster_cases {name newName : String} {db db' : DB} (h : renameCluster name newName db = .ok db') :
    ∃ c, db.clusterByName name = some c ∧ (∀ s ∈ db.clusters, s.name = newName → s.id = c.id) ∧
      db' = { db with
        clusters := db.clusters.map fun s => if s.id = c.id then { s with name := newName } else s
        tokens := db.tokens.map fun t => if t.clusterName = name then { t with clusterName := newName } else t } := by
  unfold renameCluster at h
  split_ifs at h
  cases hc : db.clusterByName name with
  | none => simp [hc] at h
  | some c =>
    rw [hc] at h
    dsimp only at h
    split_ifs at h with htaken
    refine ⟨c, rfl, fun s hs hname => ?_, (Except.ok.inj h).symm⟩
    by_contra hne
    exact htaken (List.any_eq_true.mpr ⟨s, hs, by simp [hname, hne]⟩)

/-- What a delete that succeeds did. -/
theorem deleteCluster_cases {name : String} {db db' : DB} (h : deleteCluster name db = .ok db') :
    ∃ c, db.clusterByName name = some c ∧ db' = { db with
      evaluations := db.evaluations.filter (·.clusterID ≠ c.id)
      snapshots := db.snapshots.filter (·.clusterID ≠ c.id)
      outbox := db.outbox.filter (·.clusterID ≠ c.id)
      clusters := db.clusters.filter (·.id ≠ c.id)
      tokens := db.tokens.filter (·.clusterName ≠ name) } := by
  unfold deleteCluster at h
  cases hc : db.clusterByName name with
  | none => simp [hc] at h
  | some c =>
    rw [hc] at h
    exact ⟨c, rfl, (Except.ok.inj h).symm⟩

section Renames

variable {name newName : String} {db db' : DB} (hreg : Registered db.clusters db.lastCluster)

include hreg

/-- A rename keeps names and ids apart. -/
theorem Registered.rename (h : renameCluster name newName db = .ok db') : Registered db'.clusters db'.lastCluster := by
  obtain ⟨c, -, hfree, rfl⟩ := renameCluster_cases h
  have hid : ∀ s : Cluster, (if s.id = c.id then { s with name := newName } else s).id = s.id := by
    intro s
    split_ifs <;> rfl
  refine hreg.map hid ?_
  refine List.Nodup.map_on (fun s hs s' hs' heq => ?_) hreg.ids.of_map
  split_ifs at heq with hs₁ hs₂ hs₂
  · exact hreg.eq_of_id hs hs' (hs₁.trans hs₂.symm)
  · exact absurd (hfree s' hs' heq.symm) hs₂
  · exact absurd (hfree s hs heq) hs₁
  · exact hreg.eq_of_name hs hs' heq

omit hreg in
/-- A rename keeps the clusters that were there. -/
theorem Succeeds.rename (h : renameCluster name newName db = .ok db') :
    Succeeds db.clusters db'.clusters db.lastCluster db'.lastCluster := by
  obtain ⟨c, -, -, rfl⟩ := renameCluster_cases h
  refine Succeeds.map _ (fun s => ?_) fun s _ _ => ?_ <;> split_ifs <;> rfl

/-- A delete keeps names and ids apart. -/
theorem Registered.delete (h : deleteCluster name db = .ok db') : Registered db'.clusters db'.lastCluster := by
  obtain ⟨c, -, rfl⟩ := deleteCluster_cases h
  refine ⟨?_, ?_, fun s hs => hreg.idsLe s (List.mem_of_mem_filter hs)⟩
  · exact hreg.names.sublist (List.filter_sublist.map _)
  · exact hreg.ids.sublist (List.filter_sublist.map _)

omit hreg in
/-- A delete keeps the clusters that are left. -/
theorem Succeeds.delete (h : deleteCluster name db = .ok db') :
    Succeeds db.clusters db'.clusters db.lastCluster db'.lastCluster := by
  obtain ⟨c, -, rfl⟩ := deleteCluster_cases h
  exact ⟨le_rfl, fun s hs _ => ⟨s, List.mem_of_mem_filter hs, rfl, fun _ => rfl⟩⟩

end Renames

/-! ## Commits -/

variable {db db' : DB} {now : Time} {b : EvaluationBatch} {dup : Bool} {snapID i : ℕ} {c s : Cluster}

/-- The clusters after a commit are those after its first step. -/
theorem commit_clusters (h : commitEvaluations now b db = .ok (db', snapID, dup)) :
    ∃ mid clusterID, registerCluster now b db = .ok (mid, clusterID) ∧ db'.clusters = mid.clusters ∧
      db'.lastCluster = mid.lastCluster := by
  obtain ⟨mid, clusterID, hreg, hcases⟩ := commitEvaluations_cases h
  refine ⟨mid, clusterID, hreg, ?_⟩
  obtain ⟨snap, latest, -, -, -, -, rfl⟩ | ⟨snap, -, -, -, -, hw⟩ | ⟨latest, -, -, -, -, -, -, -, hw⟩ := hcases
  · exact ⟨rfl, rfl⟩
  · obtain ⟨new, last, -, rfl⟩ := writeBatch_eq hw
    exact ⟨rfl, rfl⟩
  · obtain ⟨new, last, -, rfl⟩ := writeBatch_eq hw
    exact ⟨rfl, rfl⟩

/-- A commit keeps names and ids apart, and the clusters that were there. -/
theorem commit_registered (hreg : Registered db.clusters db.lastCluster)
    (h : commitEvaluations now b db = .ok (db', snapID, dup)) :
    Registered db'.clusters db'.lastCluster ∧ Succeeds db.clusters db'.clusters db.lastCluster db'.lastCluster := by
  obtain ⟨mid, clusterID, hmid, hclusters, hlast⟩ := commit_clusters h
  rw [hclusters, hlast]
  obtain ⟨-, rfl, -⟩ | ⟨c, -, hup, -, -⟩ := registerCluster_cases hmid
  · exact ⟨hreg, Succeeds.refl _ _⟩
  · exact ⟨hreg.upsert hup, Succeeds.upsert hreg hup⟩

/-! ## Runs -/

/-- What holds in every database that calls reach. -/
structure Sound (db : DB) : Prop where
  /-- Names and ids of clusters are told apart. -/
  clusters : Registered db.clusters db.lastCluster
  /-- Snapshots and evaluations are told apart by their ids. -/
  keyed : db.Keyed

/-- Deleting a cluster's rows leaves the others with theirs. -/
theorem DB.Keyed.delete {name : String} (hkeyed : db.Keyed) (h : deleteCluster name db = .ok db') :
    db'.Keyed := by
  obtain ⟨c, -, rfl⟩ := deleteCluster_cases h
  constructor
  · exact hkeyed.snapshotIDs.sublist (List.filter_sublist.map _)
  · exact fun s hs => hkeyed.snapshotsLe s (List.mem_of_mem_filter hs)
  · exact hkeyed.evaluationIDs.sublist (List.filter_sublist.map _)
  · exact fun e he => hkeyed.evaluationsLe e (List.mem_of_mem_filter he)
  · intro e he
    obtain ⟨hmem, hne⟩ := List.mem_filter.mp he
    obtain ⟨s, hs, hid, hcluster⟩ := hkeyed.judged e hmem
    exact ⟨s, List.mem_filter.mpr ⟨hs, by simpa [hcluster] using hne⟩, hid, hcluster⟩

/-- What a call keeps, and what it leaves of the clusters. -/
theorem Sound.step (h : Sound db) (hstep : ClusterStep db db') :
    Sound db' ∧ Succeeds db.clusters db'.clusters db.lastCluster db'.lastCluster := by
  cases hstep with
  | upsert hup =>
    exact ⟨⟨h.clusters.upsert hup, h.keyed.of_same (upsertCluster_rows hup)⟩, Succeeds.upsert h.clusters hup⟩
  | commit hcommit =>
    obtain ⟨hreg, hsucc⟩ := commit_registered h.clusters hcommit
    exact ⟨⟨hreg, h.keyed.commit hcommit⟩, hsucc⟩
  | rename hren =>
    refine ⟨⟨h.clusters.rename hren, h.keyed.of_same ?_⟩, Succeeds.rename hren⟩
    obtain ⟨c, -, -, rfl⟩ := renameCluster_cases hren
    exact ⟨rfl, rfl, rfl, rfl⟩
  | delete hdel => exact ⟨⟨h.clusters.delete hdel, h.keyed.delete hdel⟩, Succeeds.delete hdel⟩
  | tokens ts => exact ⟨⟨h.clusters, h.keyed.of_same ⟨rfl, rfl, rfl, rfl⟩⟩, Succeeds.refl _ _⟩

/-- What a run keeps, and what it leaves of the clusters. -/
theorem Sound.run (h : Sound db) (hrun : ReflTransGen ClusterStep db db') :
    Sound db' ∧ Succeeds db.clusters db'.clusters db.lastCluster db'.lastCluster := by
  induction hrun with
  | refl => exact ⟨h, Succeeds.refl _ _⟩
  | tail _ hstep ih =>
    obtain ⟨hsound, hsucc⟩ := ih.1.step hstep
    exact ⟨hsound, ih.2.trans hsucc⟩

/-- Every database that calls reach is sound. -/
theorem Reached.sound (h : Reached db) : Sound db := by
  have hstart : Sound {} := ⟨⟨by simp, by simp, by simp⟩, DB.Keyed.empty⟩
  exact (hstart.run h).1

/-! ## Where a commit writes -/

/-- What a database holds of a cluster. -/
def DB.holdings (db : DB) (i : ℕ) : List Cluster × List Snapshot × List Evaluation × List OutboxMessage :=
  (db.clusters.filter (·.id = i), db.snapshots.filter (·.clusterID = i), db.evaluations.filter (·.clusterID = i),
    db.outbox.filter (·.clusterID = i))

/-- Rewriting rows, of which those with a property stay as they are and no other gets it. -/
theorem filter_map_of_fixed {α : Type} {f : α → α} {p : α → Bool} {l : List α} (hp : ∀ a ∈ l, p (f a) = p a)
    (hf : ∀ a ∈ l, p a = true → f a = a) : (l.map f).filter p = l.filter p := by
  induction l with
  | nil => rfl
  | cons a l ih =>
    have htail := ih (fun b hb => hp b (List.mem_cons_of_mem a hb)) fun b hb => hf b (List.mem_cons_of_mem a hb)
    rw [List.map_cons, List.filter_cons, List.filter_cons, hp a List.mem_cons_self, htail]
    split_ifs with ha
    · rw [hf a List.mem_cons_self ha]
    · rfl

/-- An upsert touches the row of one cluster. -/
theorem upsertCluster_holdings {id : ℕ} (hreg : Registered db.clusters db.lastCluster)
    (h : upsertCluster now c db = .ok (db', id)) (hi : i ≠ id) :
    db'.holdings i = db.holdings i := by
  have hclusters : db'.clusters.filter (·.id = i) = db.clusters.filter (·.id = i) := by
    obtain ⟨-, rfl, rfl⟩ | ⟨stored, hstored, rfl, -, rfl⟩ := upsertCluster_cases h
    · rw [List.filter_append]
      simp [registered, hi.symm]
    · refine filter_map_of_fixed (fun s _ => by rw [(touched_keeps now c s).1]) fun s hs hsi => ?_
      have hne : s.name ≠ c.name := by
        intro hname
        obtain ⟨hmem, hstoredName⟩ := mem_of_clusterByName hstored
        have hsame := hreg.eq_of_name hs hmem (hname.trans hstoredName.symm)
        exact hi (by rw [← hsame, of_decide_eq_true hsi])
      rw [touched, if_neg hne]
  have hrows := upsertCluster_rows h
  have houtbox : db'.outbox = db.outbox := by
    obtain ⟨-, -, rfl⟩ | ⟨stored, -, -, -, rfl⟩ := upsertCluster_cases h <;> rfl
  unfold DB.holdings
  rw [hclusters, hrows.snapshots, hrows.evaluations, houtbox]

/-- The writes of a batch add and rewrite rows of its cluster only. -/
theorem writeBatch_holdings {clusterID snapshotID : ℕ} (h : writeBatch now b clusterID snapshotID db = .ok db')
    (hi : i ≠ clusterID) :
    db'.holdings i = db.holdings i := by
  obtain ⟨new, last, hnew, rfl⟩ := writeBatch_eq h
  set g := rewritten now clusterID b.refresh
  have hg : ∀ r, Refreshed now clusterID b.refresh r (g r) := refreshed_rewritten now clusterID b.refresh
  have hevals : ((db.evaluations ++ stampRows now clusterID snapshotID db.lastEvaluation b.insert).map g).filter
      (·.clusterID = i) = db.evaluations.filter (·.clusterID = i) := by
    rw [filter_map_of_fixed (fun r _ => by rw [(hg r).keeps.clusterID]) fun r _ hr => ?_, List.filter_append]
    · have hnone : (stampRows now clusterID snapshotID db.lastEvaluation b.insert).filter (·.clusterID = i) = [] := by
        refine List.filter_eq_nil_iff.mpr fun r hr => ?_
        obtain ⟨e, -, id, -, -, rfl⟩ := mem_stampRows hr
        simp [stampRow, hi.symm]
      rw [hnone, List.append_nil]
    · rcases hg r with heq | ⟨e, -, -, hcluster, -⟩
      · exact heq
      · exact absurd ((of_decide_eq_true hr).symm.trans hcluster) hi
  have hout : (db.outbox ++ new).filter (·.clusterID = i) = db.outbox.filter (·.clusterID = i) := by
    have hnone : new.filter (·.clusterID = i) = [] :=
      List.filter_eq_nil_iff.mpr fun m hm => by simpa [hnew m hm] using hi.symm
    rw [List.filter_append, hnone, List.append_nil]
  unfold DB.holdings
  rw [hevals, hout]

/-- A commit writes to the cluster of its batch only. -/
theorem commit_holdings (h : Sound db) (hcommit : commitEvaluations now b db = .ok (db', snapID, dup)) :
    ∃ mid clusterID, registerCluster now b db = .ok (mid, clusterID) ∧
      ∀ i, i ≠ clusterID → db'.holdings i = db.holdings i := by
  obtain ⟨mid, clusterID, hmid, hcases⟩ := commitEvaluations_cases hcommit
  refine ⟨mid, clusterID, hmid, fun i hi => ?_⟩
  have hfirst : mid.holdings i = db.holdings i := by
    obtain ⟨-, rfl, -⟩ | ⟨c, -, hup, -, -⟩ := registerCluster_cases hmid
    · rfl
    · exact upsertCluster_holdings h.clusters hup hi
  have hsame := (registerCluster_rows hmid).1
  rw [← hfirst]
  obtain ⟨snap, latest, -, hlatest, -, -, rfl⟩ | ⟨snap, -, -, -, -, hw⟩ | ⟨latest, -, -, -, -, -, -, -, hw⟩ := hcases
  · -- The envelope is recorded on the cluster's latest snapshot.
    obtain ⟨hmem, hcluster, -⟩ := DB.latestSnapshot_spec hlatest
    have hsnaps : (recordEnvelope snap latest.id mid).snapshots.filter (·.clusterID = i) =
        mid.snapshots.filter (·.clusterID = i) := by
      refine filter_map_of_fixed (fun s _ => by split_ifs <;> rfl) fun s hs hsi => ?_
      rw [if_neg fun hid => ?_]
      rw [hsame.snapshots] at hs
      have hlast := List.inj_on_of_nodup_map h.keyed.snapshotIDs hs hmem hid
      exact hi (by rw [← of_decide_eq_true hsi, hlast, hcluster])
    unfold DB.holdings
    rw [hsnaps]
    rfl
  · rw [writeBatch_holdings hw hi]
    have hsnaps : (insertSnapshot now clusterID snap mid).snapshots.filter (·.clusterID = i) =
        mid.snapshots.filter (·.clusterID = i) := by
      simp [insertSnapshot, List.filter_append, hi.symm]
    unfold DB.holdings
    rw [hsnaps]
    rfl
  · exact writeBatch_holdings hw hi

/-- The cluster that an upsert registers or touches: it is bound to no other cluster id, and its id is the one the name
had, or was never given. -/
theorem upsertCluster_target {id : ℕ} (hreg : Registered db.clusters db.lastCluster)
    (h : upsertCluster now c db = .ok (db', id)) (hs : s ∈ db.clusters) (hbound : s.clusterUID ≠ "")
    (hne : c.clusterUID ≠ s.clusterUID) :
    s.id ≠ id ∧ s.name ≠ c.name := by
  obtain ⟨hfree, rfl, -⟩ | ⟨stored, hstored, rfl, huid, -⟩ := upsertCluster_cases h
  · exact ⟨Nat.ne_of_lt (Nat.lt_succ_of_le (hreg.idsLe s hs).2), name_ne_of_clusterByName hfree hs⟩
  · obtain ⟨hmem, hname⟩ := mem_of_clusterByName hstored
    have hother : s ≠ stored := by
      rintro rfl
      exact hne (huid.resolve_left hbound).symm
    exact ⟨fun hid => hother (hreg.eq_of_id hs hmem hid),
      fun hsname => hother (hreg.eq_of_name hs hmem (hsname.trans hname.symm))⟩

/-! ## Identity -/

/-- A push that commits leaves the clusters that are bound to another cluster id as they are, and is under none of their
names. -/
theorem push_spares_bound {push : Cluster} (h : Sound db) (hpush : b.cluster = some push)
    (hcommit : commitEvaluations now b db = .ok (db', snapID, dup)) (hs : s ∈ db.clusters) (hbound : s.clusterUID ≠ "")
    (hne : push.clusterUID ≠ s.clusterUID) :
    db'.holdings s.id = db.holdings s.id ∧ s.name ≠ push.name := by
  obtain ⟨mid, clusterID, hmid, hwrites⟩ := commit_holdings h hcommit
  obtain ⟨hnone, -, -⟩ | ⟨c, hc, hup, -, -⟩ := registerCluster_cases hmid
  · rw [hnone] at hpush
    exact absurd hpush.symm (Option.some_ne_none push)
  · obtain rfl : c = push := Option.some.inj (hc.symm.trans hpush)
    obtain ⟨hid, hname⟩ := upsertCluster_target h.clusters hup hs hbound hne
    exact ⟨hwrites s.id hid, hname⟩

/-- A push that looked its cluster up earlier in the run commits only where the name is still that cluster's. -/
theorem push_keeps_lookup {earlier db db' : DB} {push found : Cluster} (h : Sound earlier)
    (hrun : ReflTransGen ClusterStep earlier db) (hpush : b.cluster = some push)
    (hcommit : commitEvaluations now b db = .ok (db', snapID, dup))
    (hfound : earlier.clusterByName push.name = some found) (hid : push.id = found.id) :
    ∃ c, db.clusterByName push.name = some c ∧ c.id = push.id := by
  obtain ⟨hpos, hle⟩ := h.clusters.idsLe found (mem_of_clusterByName hfound).1
  have hlast := (h.run hrun).2.lastLe
  obtain ⟨mid, clusterID, hmid, -⟩ := commitEvaluations_cases hcommit
  obtain ⟨hnone, -, -⟩ | ⟨c, hc, hup, hsame, -⟩ := registerCluster_cases hmid
  · rw [hnone] at hpush
    exact absurd hpush.symm (Option.some_ne_none push)
  · obtain rfl : c = push := Option.some.inj (hc.symm.trans hpush)
    have hcid : c.id = clusterID := hsame.resolve_left (by omega)
    obtain ⟨-, hnew, -⟩ | ⟨stored, hstored, hstoredID, -, -⟩ := upsertCluster_cases hup
    · -- An id that was given is not the next one.
      omega
    · exact ⟨stored, hstored, by rw [hcid, hstoredID]⟩

/-- A push with an ingest token commits only where the token is active for its name. -/
theorem push_keeps_token {push : Cluster} {hash : String} (hpush : b.cluster = some push)
    (hcommit : commitEvaluations now b db = .ok (db', snapID, dup)) (htoken : b.ingestToken = some hash) :
    ∃ t ∈ db.tokens, t.tokenHash = hash ∧ t.clusterName = push.name ∧ t.revoked = false := by
  obtain ⟨mid, clusterID, hmid, -⟩ := commitEvaluations_cases hcommit
  obtain ⟨hnone, -, -⟩ | ⟨c, hc, hup, -, hactive⟩ := registerCluster_cases hmid
  · rw [hnone] at hpush
    exact absurd hpush.symm (Option.some_ne_none push)
  · obtain rfl : c = push := Option.some.inj (hc.symm.trans hpush)
    have htokens : mid.tokens = db.tokens := by
      obtain ⟨-, -, rfl⟩ | ⟨stored, -, -, -, rfl⟩ := upsertCluster_cases hup <;> rfl
    rw [← htokens]
    exact hactive hash htoken

/-- Cluster identity is write-once, for every sequence of calls: no two clusters have one name; a cluster that is bound to a
cluster id is bound to it as long as it exists; once it is, an upsert or a push with another cluster id or none writes nothing
of it and does not succeed under its name; a push that looked a cluster up commits only where the name is still that
cluster's; and one with an ingest token only where the token is active for the name. -/
theorem cluster_identity_write_once {db : DB} (hdb : Reached db) :
    (db.clusters.map (·.name)).Nodup ∧
    (∀ db', ReflTransGen ClusterStep db db' → ∀ c ∈ db.clusters, ∀ c' ∈ db'.clusters, c'.id = c.id → c.clusterUID ≠ "" →
      c'.clusterUID = c.clusterUID) ∧
    (∀ now push db' id, upsertCluster now push db = .ok (db', id) → ∀ c ∈ db.clusters, c.clusterUID ≠ "" →
      push.clusterUID ≠ c.clusterUID → db'.holdings c.id = db.holdings c.id ∧ c.name ≠ push.name) ∧
    ∀ now b push db' snapID dup, b.cluster = some push → commitEvaluations now b db = .ok (db', snapID, dup) →
      (∀ c ∈ db.clusters, c.clusterUID ≠ "" → push.clusterUID ≠ c.clusterUID →
        db'.holdings c.id = db.holdings c.id ∧ c.name ≠ push.name) ∧
      (∀ earlier found, Reached earlier → ReflTransGen ClusterStep earlier db →
        earlier.clusterByName push.name = some found → push.id = found.id →
        ∃ c, db.clusterByName push.name = some c ∧ c.id = push.id) ∧
      ∀ hash, b.ingestToken = some hash →
        ∃ t ∈ db.tokens, t.tokenHash = hash ∧ t.clusterName = push.name ∧ t.revoked = false := by
  have hsound := hdb.sound
  refine ⟨hsound.clusters.names, fun db' hrun c hc c' hc' hid hbound => ?_, fun now push db' id hup c hc hbound hne => ?_,
    fun now b push db' snapID dup hpush hcommit => ⟨?_, ?_, ?_⟩⟩
  · obtain ⟨s, hs, hsid, huid⟩ := (hsound.run hrun).2.kept c' hc' (hid ▸ (hsound.clusters.idsLe c hc).2)
    obtain rfl := hsound.clusters.eq_of_id hs hc (hsid.trans hid)
    exact huid hbound
  · obtain ⟨hid, hname⟩ := upsertCluster_target hsound.clusters hup hc hbound hne
    exact ⟨upsertCluster_holdings hsound.clusters hup hid, hname⟩
  · exact fun c hc hbound hne => push_spares_bound hsound hpush hcommit hc hbound hne
  · exact fun earlier found hearlier hrun hfound hid =>
      push_keeps_lookup hearlier.sound hrun hpush hcommit hfound hid
  · exact fun hash htoken => push_keeps_token hpush hcommit htoken

/-- A push of a cluster that was looked up, under an ingest token of its name. -/
def tokenPush (id : ℕ) (uid hash : String) : EvaluationBatch where
  cluster := some { id := id, name := "prod", clusterUID := uid }
  ingestToken := some "token"
  snapshot := some { hash := hash, inventory := {} }
  insert := [{ target := "1.31" }]

/-- A database with an ingest token of a cluster. -/
def tokenDB : DB := { tokens := [{ clusterName := "prod", tokenHash := "token" }] }

/-- The database after the first push. -/
def pushedDB : DB :=
  { tokenDB with
    clusters := [⟨1, "prod", "uid-1", 5, 5⟩], lastCluster := 1
    snapshots := [{ id := 1, clusterID := 1, hash := "a", receivedAt := 5, inventory := {} }], lastSnapshot := 1
    evaluations := [{ id := 1, clusterID := 1, snapshotID := 1, target := "1.31", createdAt := 5, evaluatedAt := 5 }]
    lastEvaluation := 1 }

/-- A cluster that a push registered with a cluster id, and that pushes again and is renamed after: the second push finds its
cluster and an active token, one with another id is refused, and the id stays with the cluster under its new name. -/
theorem cluster_identity_write_once_rename : ∃ db₂ db₃, Reached pushedDB ∧
    commitEvaluations 7 (tokenPush 1 "uid-1" "b") pushedDB = .ok (db₂, 2, false) ∧ renameCluster "prod" "live" db₂ = .ok db₃ ∧
    db₃.clusters.map (·.name) = ["live"] ∧ (pushedDB.clusters.map (·.name)).Nodup ∧
    (∀ c ∈ pushedDB.clusters, ∀ c' ∈ db₃.clusters, c'.id = c.id → c.clusterUID ≠ "" → c'.clusterUID = c.clusterUID) ∧
    (∃ c, pushedDB.clusterByName "prod" = some c ∧ c.id = 1) ∧
    (∃ t ∈ pushedDB.tokens, t.tokenHash = "token" ∧ t.clusterName = "prod" ∧ t.revoked = false) ∧
    (commitEvaluations 7 (tokenPush 1 "uid-2" "b") pushedDB).toOption.isNone = true := by
  have hpush : commitEvaluations 5 (tokenPush 0 "uid-1" "a") tokenDB = .ok (pushedDB, 1, false) := rfl
  have hdb : Reached pushedDB := (ReflTransGen.single (.tokens tokenDB.tokens)).tail (.commit hpush)
  obtain ⟨db₂, db₃, hcommit, hrename, hlive⟩ : ∃ db₂ db₃,
      commitEvaluations 7 (tokenPush 1 "uid-1" "b") pushedDB = .ok (db₂, 2, false) ∧
        renameCluster "prod" "live" db₂ = .ok db₃ ∧ db₃.clusters.map (·.name) = ["live"] := ⟨_, _, rfl, rfl, rfl⟩
  obtain ⟨hnames, hkept, -, hpushes⟩ := cluster_identity_write_once hdb
  obtain ⟨-, hlookup, htoken⟩ := hpushes 7 _ _ _ _ _ rfl hcommit
  exact ⟨db₂, db₃, hdb, hcommit, hrename, hlive, hnames,
    hkept _ ((ReflTransGen.single (.commit hcommit)).tail (.rename hrename)),
    hlookup pushedDB _ hdb .refl rfl rfl, htoken "token" rfl, rfl⟩

end UpgradeScope.Store
