import UpgradeScope.Server.PassRuns

/-!
# Names that adopt their first cluster id

A name registered by pushes without a `clusterId` is bound by the first id pushed. The history that such a push
continues may be another cluster's, so `ingestOnce` drops the became-ready changes of an adopting push. Whether a push
adopts is decided at its lookup and only narrowed when it is retried, so a push that found its name unregistered and is
retried once another push has registered it binds the name as an ordinary push would (`bound_by_retry`). Where the
commit is for the cluster that the lookup found, a binding commit announces no became-ready (`bind_is_quiet`).
-/

namespace UpgradeScope.Passes

open Go Sorting Store Interleave Kb

open UpgradeScope.Notify hiding Store Pass step after announced

/-! ## Commits that bind a name -/

/-- The commit gives a registered name its first cluster id. -/
def CommitRecord.Binds (c : CommitRecord) (name : String) : Prop :=
  (c.before.clusterByName name).any (·.clusterUID = "") = true ∧
    ((afterCommit c.result c.before).clusterByName name).any (·.clusterUID ≠ "") = true

instance (c : CommitRecord) (name : String) : Decidable (c.Binds name) := by
  unfold CommitRecord.Binds
  infer_instance

/-- The commit is for the cluster that its push's lookup found: the push was not retried because another one had
registered the name meanwhile. -/
def CommitRecord.AsLookedUp (c : CommitRecord) : Prop :=
  ∀ cluster snap, c.batch.cluster = some cluster → c.batch.snapshot = some snap → snap.clusterID = cluster.id

/-- No change of a list of deltas is a became-ready. -/
def Quiet (ds : List TargetDelta) : Prop := ∀ d ∈ ds, ∀ ch ∈ d.changes, ch.kind ≠ .becameReady

/-- What a commit queues is the notification of its deltas. -/
def CommitRecord.QueuesDeltas (c : CommitRecord) : Prop :=
  ∃ s cluster now id, c.batch.outbox = outboxFor s cluster c.deltas now id

/-! ## What commits do to names -/

/-- A name that is registered stays so, with its id and with the cluster id it is bound to. -/
def NamesStay (db db' : DB) : Prop :=
  ∀ name c, db.clusterByName name = some c → ∃ c', db'.clusterByName name = some c' ∧ c'.id = c.id ∧
    (c.clusterUID ≠ "" → c'.clusterUID = c.clusterUID)

/-- A database keeps its own names. -/
theorem NamesStay.refl (db : DB) : NamesStay db db := fun _ c h => ⟨c, h, rfl, fun _ => rfl⟩

/-- Names that two changes keep are kept by both in turn. -/
theorem NamesStay.trans {a b c : DB} (hab : NamesStay a b) (hbc : NamesStay b c) : NamesStay a c := by
  intro name x hx
  obtain ⟨y, hy, hid, huid⟩ := hab name x hx
  obtain ⟨z, hz, hid', huid'⟩ := hbc name y hy
  refine ⟨z, hz, hid'.trans hid, fun hne => ?_⟩
  have hbound := huid hne
  rw [huid' (by rw [hbound]; exact hne), hbound]

variable (s : Server) {past : List World} {db db' : DB} {adopting : Bool} {cluster c : Cluster} {now : Time}
  {snap : Snapshot} {b : EvaluationBatch}

/-- The cluster of a name has it. -/
theorem name_of_clusterByName {name : String} (h : db.clusterByName name = some c) :
    c.name = name := by
  simpa using List.find?_some h

/-- Registering or touching a cluster: names stay, and only the cluster's name may get a cluster id, its own. -/
theorem upsertCluster_names {id : ℕ} (h : upsertCluster now c db = .ok (db', id)) :
    NamesStay db db' ∧ ∀ name old new, db.clusterByName name = some old → db'.clusterByName name = some new →
      old.clusterUID = "" → new.clusterUID ≠ "" → name = c.name ∧ c.clusterUID ≠ "" := by
  obtain ⟨-, -, rfl⟩ | ⟨stored, hstored, -, hsame, rfl⟩ := upsertCluster_cases h
  · have hkeep : ∀ name old, db.clusterByName name = some old → DB.clusterByName
        { db with clusters := db.clusters ++ [registered now c id], lastCluster := id } name = some old := by
      intro name old hold
      show (db.clusters ++ _).find? _ = _
      rw [List.find?_append, show db.clusters.find? _ = some old from hold]
      rfl
    refine ⟨fun name old hold => ⟨old, hkeep name old hold, rfl, fun _ => rfl⟩, fun name old new hold hnew hempty hne => ?_⟩
    rw [hkeep name old hold] at hnew
    obtain rfl := Option.some.inj hnew
    exact absurd hempty hne
  · have hkeep : ∀ name, DB.clusterByName { db with clusters := db.clusters.map (touched now c) } name =
        (db.clusterByName name).map (touched now c) := by
      intro name
      show (db.clusters.map (touched now c)).find? _ = _
      rw [List.find?_map]
      unfold DB.clusterByName
      congr 2
      funext s
      simp [(touched_keeps now c s).2]
    constructor
    · intro name old hold
      refine ⟨touched now c old, by rw [hkeep, hold]; rfl, (touched_keeps now c old).1, touched_bound fun hn => ?_⟩
      -- The touched cluster is the stored one.
      have hfound : name = c.name := (name_of_clusterByName hold).symm.trans hn
      rw [hfound, hstored] at hold
      obtain rfl := Option.some.inj hold
      exact hsame
    · intro name old new hold hnew hempty hne
      rw [hkeep, hold] at hnew
      obtain rfl := Option.some.inj hnew
      unfold touched at hne
      split_ifs at hne with hn
      · refine ⟨(name_of_clusterByName hold).symm.trans hn, fun huid => hne ?_⟩
        show orElse c.clusterUID old.clusterUID = ""
        rw [huid, hempty]
        rfl
      · exact absurd hempty hne

/-- The writes of a batch leave the clusters. -/
theorem writeBatch_clusters {clusterID snapshotID : ℕ} (h : writeBatch now b clusterID snapshotID db = .ok db') :
    db'.clusters = db.clusters := by
  obtain ⟨new, last, -, rfl⟩ := writeBatch_eq h
  rfl

/-- The first step of a commit, name by name. -/
theorem registerCluster_names {id : ℕ} (h : registerCluster now b db = .ok (db', id)) :
    NamesStay db db' ∧ ∀ name old new, db.clusterByName name = some old → db'.clusterByName name = some new →
      old.clusterUID = "" → new.clusterUID ≠ "" → ∃ c, b.cluster = some c ∧ c.name = name ∧ c.clusterUID ≠ "" := by
  obtain ⟨-, rfl, -⟩ | ⟨c, hc, hup, -, -⟩ := registerCluster_cases h
  · refine ⟨NamesStay.refl db', fun name old new hold hnew hempty hne => ?_⟩
    rw [hold] at hnew
    exact absurd (Option.some.inj hnew ▸ hempty) hne
  · obtain ⟨hstay, hbinds⟩ := upsertCluster_names hup
    refine ⟨hstay, fun name old new hold hnew hempty hne => ⟨c, hc, ?_⟩⟩
    obtain ⟨hname, huid⟩ := hbinds name old new hold hnew hempty hne
    exact ⟨hname.symm, huid⟩

/-- A commit keeps the names, and binds one to a cluster id only for the cluster of its push. -/
theorem commit_names :
    NamesStay db (afterCommit (commitEvaluations now b db) db) ∧
      ∀ name old new, db.clusterByName name = some old →
        (afterCommit (commitEvaluations now b db) db).clusterByName name = some new →
        old.clusterUID = "" → new.clusterUID ≠ "" → ∃ c, b.cluster = some c ∧ c.name = name ∧ c.clusterUID ≠ "" := by
  cases hcommit : commitEvaluations now b db with
  | error err =>
    refine ⟨NamesStay.refl db, fun name old new hold hnew hempty hne => ?_⟩
    rw [show db.clusterByName name = some new from hnew] at hold
    exact absurd (Option.some.inj hold ▸ hempty) hne
  | ok answer =>
    obtain ⟨db', snapID, dup⟩ := answer
    obtain ⟨mid, clusterID, hreg, hcases⟩ := commitEvaluations_cases hcommit
    have hclusters : db'.clusters = mid.clusters := by
      obtain ⟨snap, latest, -, -, -, -, rfl⟩ | ⟨snap, -, -, -, -, hwrite⟩ | ⟨latest, -, -, -, -, -, -, -, hwrite⟩ := hcases
      · rfl
      · exact (writeBatch_clusters hwrite).trans rfl
      · exact writeBatch_clusters hwrite
    have hnames : ∀ name, db'.clusterByName name = mid.clusterByName name := by
      intro name
      unfold DB.clusterByName
      rw [hclusters]
    obtain ⟨hstay, hbinds⟩ := registerCluster_names hreg
    constructor
    · intro name c hname
      obtain ⟨c', hc', hrest⟩ := hstay name c hname
      exact ⟨c', (hnames name).trans hc', hrest⟩
    · intro name old new hold hnew
      exact hbinds name old new hold ((hnames name).symm.trans hnew)

/-! ## What passes commit -/

/-- What the passes rely on of each other. -/
def NamesKept (w w' : World) : Prop := NamesStay w.db w'.db

/-- Every commit so far queues the notification of its deltas, and is quiet when it binds the name that it looked
up. -/
def Adoptions (w : World) : Prop :=
  ∀ c ∈ w.history, c.QueuesDeltas ∧ ∀ name, c.Binds name → c.AsLookedUp → Quiet c.deltas

/-- A commit of a batch that is quiet whenever it binds a name it was looked up for. -/
theorem commit_adopts {p : PassBatch}
    (hqueues : ∃ s cluster now id, p.batch.outbox = outboxFor s cluster p.deltas now id)
    (hquiet : ∀ cluster, p.batch.cluster = some cluster → cluster.clusterUID ≠ "" →
      (∀ snap, p.batch.snapshot = some snap → snap.clusterID = cluster.id) →
      Quiet p.deltas ∨ ∃ d ∈ past, (d.db.clusterByName cluster.name).any (·.clusterUID ≠ "") = true) :
    Safe Adoptions NamesKept past (commit p) fun _ _ => True := by
  refine Safe.update fun w hw hpast => ?_
  obtain ⟨hstay, hbinds⟩ := @commit_names w.db w.now p.batch
  refine ⟨fun c hc => ?_, hstay, trivial⟩
  rcases List.mem_append.mp hc with hc | hc
  · exact hw c hc
  obtain rfl := List.mem_singleton.mp hc
  refine ⟨hqueues, fun name hbind hlooked => ?_⟩
  obtain ⟨old, hold, hempty⟩ := (Option.any_eq_true _ _).mp hbind.1
  obtain ⟨new, hnew, hne⟩ := (Option.any_eq_true _ _).mp hbind.2
  obtain ⟨cluster, hcluster, rfl, huid⟩ := hbinds name old new hold hnew (by simpa using hempty) (by simpa using hne)
  refine (hquiet cluster hcluster huid fun snap hsnap => hlooked cluster snap hcluster hsnap).resolve_right ?_
  -- A name that was seen bound is not bound again.
  rintro ⟨d, hd, hbound⟩
  obtain ⟨c, hc, hne⟩ := (Option.any_eq_true _ _).mp hbound
  have hne : c.clusterUID ≠ "" := by simpa using hne
  obtain ⟨c', hc', -, huid'⟩ := hpast d hd cluster.name c hc
  rw [show w.db.clusterByName cluster.name = some old from hold] at hc'
  obtain rfl := Option.some.inj hc'
  rw [huid' hne] at hempty
  simp [hne] at hempty

/-! ## The programs -/

/-- The delta of a target only looks, and without a cluster there is none. -/
theorem deltaFor_looks (clusterID : ℕ) (e : Evaluation) (cur : Report) (known : Option (Evaluation × List FindingHead))
    (unassessed : FindingHead → Bool) :
    Looks (deltaFor s clusterID e cur known unassessed) fun d => clusterID = 0 → d.changes = [] := by
  unfold deltaFor
  dsimp only
  by_cases hsilent : s.sinks.isEmpty = true ∨ ¬ e.baseline = true ∨ clusterID = 0
  · rw [if_pos hsilent]
    exact fun _ => rfl
  rw [if_neg hsilent]
  have hcluster : clusterID ≠ 0 := fun h => hsilent (.inr (.inr h))
  cases known with
  | some k => exact fun h => absurd h hcluster
  | none =>
    refine Looks.bind ((loadBaseline_looks s clusterID cur).imp fun res _ => ?_)
    obtain ⟨prev, baselines⟩ := res
    cases prev with
    | none => exact fun _ => rfl
    | some row =>
      dsimp only
      cases s.decodeReport row.report with
      | none => exact fun _ => rfl
      | some heads => exact fun h => absurd h hcluster

/-- The loop of a push over its targets: a push that adopts, or has no cluster yet, stays quiet. -/
theorem ingestTargets_looks (clusterID : ℕ) (inv : Inventory) (hold : CallsHold) (adopting : Bool) (now : Time)
    (targets : List Version) (p : PassBatch) (hp : adopting = true ∨ clusterID = 0 → Quiet p.deltas) :
    Looks (ingestTargets s clusterID inv hold adopting now targets p) fun res =>
      ∀ p', res = some p' → (adopting = true ∨ clusterID = 0 → Quiet p'.deltas) ∧
        p'.batch.cluster = p.batch.cluster ∧ p'.batch.snapshot = p.batch.snapshot := by
  induction targets generalizing p with
  | nil =>
    intro p' hp'
    obtain rfl := Option.some.inj hp'
    exact ⟨hp, rfl, rfl⟩
  | cons target rest ih =>
    unfold ingestTargets
    cases s.evaluation clusterID inv target now with
    | none => exact fun p' hp' => by simp at hp'
    | some result =>
      cases result with
      | error err => exact fun p' hp' => by simp at hp'
      | ok pair =>
        obtain ⟨e, rep⟩ := pair
        dsimp only
        refine Looks.bind ((deltaFor_looks s clusterID e rep none _).imp fun d hd => ?_)
        refine ih _ fun hquiet x hx => ?_
        rcases List.mem_append.mp hx with hx | hx
        · exact hp hquiet x hx
        rw [List.mem_singleton.mp hx]
        intro ch hch
        change ch ∈ (if adopting = true then d.changes.filter (·.kind ≠ .becameReady) else d.changes) at hch
        -- An adopting push drops the announcement; without a cluster there is nothing to compare with.
        by_cases hadopting : adopting = true
        · rw [if_pos hadopting] at hch
          simpa using (List.mem_filter.mp hch).2
        · rw [if_neg hadopting, hd (hquiet.resolve_left hadopting)] at hch
          simp at hch

/-- The loop of a re-evaluation over its targets registers no cluster. -/
theorem reevaluateTargets_looks (clusterID snapID : ℕ) (inv : Inventory) (hold : CallsHold) (force : Bool) (now : Time)
    (targets : List Version) (p : PassBatch) (left : Bool) (hp : p.batch.cluster = none) :
    Looks (reevaluateTargets s clusterID snapID inv hold force now targets p left) fun res =>
      ∀ p' left', res = .ok (p', left') → p'.batch.cluster = none := by
  induction targets generalizing p left with
  | nil =>
    intro p' left' hres
    obtain ⟨rfl, -⟩ := Prod.mk.inj (Except.ok.inj hres)
    exact hp
  | cons target rest ih =>
    unfold reevaluateTargets
    refine Looks.bind (Looks.read fun w => ?_)
    dsimp only
    split_ifs
    · exact fun p' left' hres => by simp at hres
    · exact ih p left hp
    · cases s.evaluation clusterID inv target now with
      | none => exact fun p' left' hres => by simp at hres
      | some result =>
        cases result with
        | error err => exact ih p true hp
        | ok pair =>
          obtain ⟨e, rep⟩ := pair
          dsimp only
          refine Looks.bind ((deltaFor_looks s clusterID e rep _ _).imp fun d _ => ih _ _ ?_)
          rw [(reevaluated_cases ..).1]
          exact hp

/-- A program whose commits are quiet where they bind a name they were looked up for. -/
def Adopts {α : Type} (past : List World) (p : Prog World α) : Prop := Safe Adoptions NamesKept past p fun _ _ => True

/-- A program that only looks, then another one. -/
theorem Adopts.look {α β : Type} {p : Prog World α} {g : α → Prog World β} {Q : α → Prop} (h : Looks p Q)
    (hg : ∀ past' a, past ⊆ past' → Q a → Adopts past' (g a)) : Adopts past (p >>= g) :=
  (h.safe (fun w => NamesStay.refl w.db) past).seq fun past' a _ ⟨hsub, hQ⟩ => hg past' a hsub hQ

/-- A query before a program that adopts only what it may. -/
theorem Adopts.read {α β : Type} {q : World → α} {g : α → Prog World β}
    (hg : ∀ w, (∀ d ∈ past, NamesKept d w) → Adopts (w :: past) (g (q w))) : Adopts past (Prog.read q >>= g) :=
  Safe.bind (Safe.read (fun w => NamesStay.refl w.db) fun w _ hpast => hg w hpast)

/-- A re-evaluation adopts nothing. -/
theorem reevaluate_adopts (cluster : Cluster) (snapID : ℕ) (serverVersion : String) (inv : Inventory)
    (pushed force : Bool) (past : List World) :
    Adopts past (reevaluate s cluster snapID serverVersion inv pushed force) := by
  refine Adopts.read fun w₁ _ => ?_
  refine Adopts.look (reevaluateTargets_looks s cluster.id snapID (s.evalInventory inv) _ force _ _ _ false rfl)
    fun past₂ res _ hres => ?_
  match res, hres with
  | .error .movedOn, _ => exact trivial
  | .error .evaluation, _ => exact trivial
  | .error .notFound, _ => exact trivial
  | .error (.store _), _ => exact trivial
  | .ok (p, left), hres =>
    have hcluster := hres p left rfl
    dsimp only
    split_ifs
    · exact trivial
    · refine Adopts.read fun w₃ _ => ?_
      refine (commit_adopts ⟨s, cluster, _, _, rfl⟩ fun c hc => ?_).seq fun past₄ answer _ _ => ?_
      · simp [hcluster] at hc
      · split <;> exact trivial

/-- The re-evaluation of a duplicate adopts nothing. -/
theorem reevaluateDuplicate_adopts (cluster : Cluster) (snapID : ℕ) (serverVersion : String) (inv : Inventory)
    (dup force : Bool) (past : List World) :
    Adopts past (reevaluateDuplicate s cluster snapID serverVersion inv dup force) := by
  refine (reevaluate_adopts s cluster snapID serverVersion inv true force past).seq fun past' res _ _ => ?_
  split <;> exact trivial

/-- A background pass over a cluster adopts nothing. -/
theorem background_adopts (cluster : Cluster) (past : List World) :
    Adopts past (background s cluster) := by
  refine Adopts.read fun w _ => ?_
  cases w.db.latestSnapshot cluster.id with
  | none => exact trivial
  | some snap => exact (reevaluate_adopts s cluster snap.id _ _ false false _).seq fun _ _ _ _ => trivial

/-! ## Pushes -/

/-- What a push knows at an attempt: the cluster it is for, and whether it adopts the name. -/
structure Attempt (past : List World) (snap : Snapshot) (cluster : Cluster) (adopting : Bool) : Prop where
  /-- Without a cluster, the lookup found none. -/
  unregistered : cluster.id = 0 → snap.clusterID = 0
  /-- A push that adopts has seen its cluster under the name. -/
  adopted : adopting = true → ∃ d ∈ past, ∃ stored, d.db.clusterByName cluster.name = some stored ∧
    stored.id = cluster.id
  /-- A push that does not adopt, for the cluster that was looked up, binds nothing. -/
  bound : snap.clusterID = cluster.id → adopting = true ∨ cluster.id = 0 ∨ cluster.clusterUID = "" ∨
    ∃ d ∈ past, (d.db.clusterByName cluster.name).any (·.clusterUID ≠ "") = true

/-- An attempt of a push that has seen more is one still. -/
theorem Attempt.of_subset {past past' : List World} (hsub : past ⊆ past') (h : Attempt past snap cluster adopting) :
    Attempt past' snap cluster adopting := by
  refine ⟨h.unregistered, fun hadopting => ?_, fun hid => ?_⟩
  · obtain ⟨d, hd, hrest⟩ := h.adopted hadopting
    exact ⟨d, hsub hd, hrest⟩
  · refine (h.bound hid).imp_right (Or.imp_right (Or.imp_right fun ⟨d, hd, hrest⟩ => ?_))
    exact ⟨d, hsub hd, hrest⟩

/-- A push past the check for a duplicate. -/
theorem ingestFull_adopts (inv : Inventory) (token : Option String) (latestID : ℕ)
    (h : Attempt past snap cluster adopting) :
    Adopts past (ingestFull s cluster snap inv token adopting latestID) := by
  refine Adopts.read fun w₁ _ => ?_
  refine Adopts.look (ingestTargets_looks s cluster.id (s.evalInventory inv) _ adopting _ _ _ (by simp [Quiet]))
    fun past₂ res hsub hres => ?_
  cases res with
  | none => exact trivial
  | some p =>
    obtain ⟨hquiet, hcluster, hsnapshot⟩ := hres p rfl
    refine Adopts.read fun w₃ _ => ?_
    refine (commit_adopts ⟨s, cluster, _, _, rfl⟩ fun c hc huid hlooked => ?_).seq fun past₄ answer _ _ => ?_
    · have hc : c = cluster := by simpa [hcluster] using hc.symm
      subst hc
      have hid : snap.clusterID = c.id := hlooked snap (by simp [hsnapshot])
      -- The commit binds the name it was looked up for, so one of the ways that an attempt is bound applies.
      obtain hadopting | hzero | hempty | ⟨d, hd, hbound⟩ := h.bound hid
      · exact .inl (hquiet (.inl hadopting))
      · exact .inl (hquiet (.inr hzero))
      · exact absurd hempty huid
      · exact .inr ⟨d, List.mem_cons_of_mem _ (hsub (List.mem_cons_of_mem _ hd)), hbound⟩
    · match answer with
      | .error _ => exact trivial
      | .ok (_, false) => exact trivial
      | .ok (snapID, true) =>
        dsimp only
        split_ifs
        · exact reevaluateDuplicate_adopts s cluster snapID _ inv true true past₄
        · refine Adopts.read fun w₅ _ => ?_
          cases w₅.db.clusterByName cluster.name with
          | none => exact trivial
          | some c => exact reevaluateDuplicate_adopts s _ snapID _ inv true true _

/-- One attempt of a push, of a snapshot and a cluster as the handler found them, adopts only what it may. -/
theorem ingestOnce_adopts (inv : Inventory) (token : Option String) (h : Attempt past snap cluster adopting) :
    Adopts past (ingestOnce s cluster snap inv token adopting) := by
  unfold ingestOnce
  split_ifs
  · exact ingestFull_adopts s inv token 0 h
  · refine Adopts.read fun w₁ _ => ?_
    have h₁ : Attempt (w₁ :: past) snap cluster adopting := h.of_subset (List.subset_cons_self _ _)
    cases w₁.db.latestSnapshot cluster.id with
    | none => exact ingestFull_adopts s inv token 0 h₁
    | some head =>
      have hlatest : Looks (latestFor cluster snap head) fun _ => True := by
        unfold latestFor
        split_ifs
        · exact Looks.read fun _ => trivial
        · exact trivial
      refine Adopts.look hlatest fun past₂ latest hsub _ => ?_
      cases latest with
      | none => exact trivial
      | some latest =>
        have h₂ : Attempt past₂ { snap with serverVersion := orElse snap.serverVersion (judgedVersion latest) } cluster
            adopting := ⟨h.unregistered, (h₁.of_subset hsub).adopted, (h₁.of_subset hsub).bound⟩
        dsimp only
        split_ifs
        · refine (commit_adopts ⟨s, cluster, 0, "", rfl⟩ fun c _ _ _ => .inl (by simp [Quiet])).seq
            fun past₃ answer _ _ => ?_
          match answer with
          | .error _ => exact trivial
          | .ok (snapID, dup) => exact reevaluateDuplicate_adopts s cluster snapID _ inv dup _ past₃
        · exact ingestFull_adopts s inv token head.id h₂

/-- Every attempt of a push adopts only what it may. -/
theorem ingestAttempts_adopts (inv : Inventory) (token : Option String) (n : ℕ) (h : Attempt past snap cluster adopting) :
    Adopts past (ingestAttempts s snap inv token n cluster adopting) := by
  induction n generalizing cluster adopting past with
  | zero => exact ingestOnce_adopts s inv token h
  | succ n ih =>
    refine (ingestOnce_adopts s inv token h).seq fun past₁ answer hsub _ => ?_
    split
    · by_cases hagain : cluster.id ≠ 0 ∧ ¬ adopting = true
      · rw [if_pos hagain]
        exact ih (h.of_subset hsub)
      rw [if_neg hagain]
      refine Adopts.read fun w₂ hpast => ih ?_
      by_cases hzero : cluster.id = 0
      · -- The lookup found no cluster, so the commit is for it only while there is none.
        have hsnap := h.unregistered hzero
        have hadopting : adopting = true → (w₂.db.clusterByName cluster.name).isSome = true := by
          intro hadopting
          obtain ⟨d, hd, stored, hstored, -⟩ := h.adopted hadopting
          obtain ⟨c, hc, -⟩ := hpast d (hsub hd) _ stored hstored
          rw [hc]
          rfl
        rw [if_pos hzero]
        refine ⟨fun _ => hsnap, fun hadopts => ?_, fun hid => .inr (.inl (hid.symm.trans hsnap))⟩
        simp only [Bool.and_eq_true, decide_eq_true_eq] at hadopts
        obtain ⟨c, hc⟩ := Option.isSome_iff_exists.mp (hadopting hadopts.1.1)
        exact ⟨w₂, List.mem_cons_self, c, hc, by simp [hc]⟩
      · -- The push adopts: the cluster it has seen under the name is still there.
        have hadopting : adopting = true := by
          by_contra hne
          exact hagain ⟨hzero, hne⟩
        obtain ⟨d, hd, stored, hstored, hid⟩ := h.adopted hadopting
        obtain ⟨c, hc, hcid, -⟩ := hpast d (hsub hd) _ stored hstored
        rw [if_neg hzero]
        refine ⟨fun hid => absurd hid hzero, fun _ => ⟨w₂, List.mem_cons_self, c, hc, hcid.trans hid⟩, fun _ => ?_⟩
        by_cases huid : c.clusterUID = ""
        · left
          simp [hadopting, hc, hcid, hid, huid]
        · exact .inr (.inr (.inr ⟨w₂, List.mem_cons_self, by simp [hc, huid]⟩))
    · exact trivial
    · exact trivial

/-- A push adopts only what it may. -/
theorem push_adopts (req : Push) (past : List World) : Adopts past (push s req) := by
  refine Adopts.read fun w₁ _ => Adopts.read fun w₂ _ => ?_
  cases hexisting : w₂.db.clusterByName req.clusterName with
  | some existing =>
    dsimp only
    split_ifs with hother hbound
    · exact trivial
    · exact trivial
    · refine (ingestAttempts_adopts s _ req.token _ ⟨fun hid => hid, fun _ => ?_, fun _ => ?_⟩).seq
        fun _ _ _ _ => trivial
      · exact ⟨w₂, List.mem_cons_self, existing, hexisting, rfl⟩
      · by_cases huid : existing.clusterUID = ""
        · by_cases hpushed : req.inventory.clusterID = ""
          · exact .inr (.inr (.inl hpushed))
          · exact .inl (by simp [huid, hpushed])
        · exact .inr (.inr (.inr ⟨w₂, List.mem_cons_self, by simp [hexisting, huid]⟩))
  | none =>
    dsimp only
    split_ifs
    · exact trivial
    · refine (ingestAttempts_adopts s _ req.token _ ⟨fun _ => rfl, by simp, fun _ => .inr (.inl rfl)⟩).seq
        fun _ _ _ _ => trivial

/-! ## Every run -/

/-- In every run of any number of pushes and re-evaluation passes of any replicas, from any store: a commit that gives a
registered name its first cluster id, and is for the cluster its push's lookup found, queues the notification of its
deltas, and none of them is a became-ready. -/
theorem bind_is_quiet {start : World} (hhistory : start.history = []) {ms : List (Move World Env)}
    (hpasses : ∀ p, Move.start p ∈ ms → IsPass p) {st : System World}
    (hrun : System.run env ⟨start, []⟩ ms = some st) :
    ∀ c ∈ st.state.history, ∀ name, c.Binds name → c.AsLookedUp → Quiet c.deltas ∧ c.QueuesDeltas := by
  intro c hc name hbinds hlooked
  have hstart : Sound Adoptions NamesKept ⟨start, []⟩ := ⟨by simp [Adoptions, hhistory], by simp⟩
  have henv : ∀ e w, Adoptions w → Adoptions (env e w) ∧ NamesKept w (env e w) := by
    intro e w hw
    cases e with
    | clock now => exact ⟨hw, NamesStay.refl w.db⟩
    | random id => exact ⟨hw, NamesStay.refl w.db⟩
  have hends : ∀ p, Move.start p ∈ ms → Adopts [] p := by
    intro p hp
    cases hpasses p hp with
    | push s req => exact push_adopts s req []
    | background s cluster => exact background_adopts s cluster []
  have hrefl : ∀ w, NamesKept w w := fun w => NamesStay.refl w.db
  have htrans : ∀ a b c, NamesKept a b → NamesKept b c → NamesKept a c := fun _ _ _ => NamesStay.trans
  have hsound := run_invariant hrefl htrans henv hends hstart hrun
  obtain ⟨hqueues, hquiet⟩ := hsound.state c hc
  exact ⟨hquiet name hbinds hlooked, hqueues⟩

/-- A push without a cluster id, of a cluster that uses the removed API. -/
def namelessPush : Push :=
  let req := pushOf [cronJobUse]
  { req with inventory := { req.inventory with clusterID := "" } }

/-- The name is registered without a cluster id, then pushed with one. -/
def adoptingRun : List (Move World Env) :=
  [.start (push oneAPIServer namelessPush)] ++ List.replicate 5 (.step 0) ++
    [.start (push oneAPIServer (pushOf []))] ++ List.replicate 7 (.step 1)

instance (c : CommitRecord) : Decidable c.AsLookedUp :=
  decidable_of_iff (∀ cluster ∈ c.batch.cluster, ∀ snap ∈ c.batch.snapshot, snap.clusterID = cluster.id)
    ⟨fun h cluster snap hc hs => h cluster hc snap hs, fun h cluster hc snap hs => h cluster snap hc hs⟩

instance (ds : List TargetDelta) : Decidable (Quiet ds) := by
  unfold Quiet
  infer_instance

/-- The second push binds the name, and stays quiet. -/
theorem bind_of_adoptingRun : ∃ st, System.run env ⟨{}, []⟩ adoptingRun = some st ∧
    ∃ c ∈ st.state.history, c.Wrote ∧ c.Binds "prod" ∧ Quiet c.deltas := by
  have hrun : ∃ st, System.run env ⟨{}, []⟩ adoptingRun = some st ∧
      ∃ c ∈ st.state.history, c.Wrote ∧ c.Binds "prod" ∧ c.AsLookedUp := by
    refine ⟨(System.run env ⟨{}, []⟩ adoptingRun).get (by decide +kernel), by simp, ?_⟩
    decide +kernel
  obtain ⟨st, hst, c, hc, hwrote, hbinds, hlooked⟩ := hrun
  have hpasses : ∀ p, Move.start p ∈ adoptingRun → IsPass p := by
    intro p hp
    simp only [adoptingRun, List.mem_append, List.mem_cons, List.mem_replicate, List.not_mem_nil, or_false,
      Move.start.injEq, reduceCtorEq, and_false] at hp
    rcases hp with rfl | rfl
    · exact .push _ _
    · exact .push _ _
  exact ⟨st, hst, c, hc, hwrote, hbinds, (bind_is_quiet rfl hpasses hst c hc "prod" hbinds hlooked).1⟩

/-- The push with a cluster id finds the name unregistered; the one without registers it before the other commits. -/
def registeredMeanwhile : List (Move World Env) :=
  [.start (push oneAPIServer (pushOf []))] ++ List.replicate 4 (.step 0) ++
    [.start (push oneAPIServer namelessPush)] ++ List.replicate 5 (.step 1) ++ List.replicate 7 (.step 0)

/-- The retried push binds the name and announces that the other cluster's blockers are resolved. -/
theorem bound_by_retry : (∀ p, Move.start p ∈ registeredMeanwhile → IsPass p) ∧
    ∃ st, System.run env ⟨{}, []⟩ registeredMeanwhile = some st ∧
      ∃ c ∈ st.state.history, c.Wrote ∧ c.Binds "prod" ∧
        ∃ d ∈ c.deltas, ∃ ch ∈ d.changes, ch.kind = .becameReady := by
  refine ⟨fun p hp => ?_, (System.run env ⟨{}, []⟩ registeredMeanwhile).get (by decide +kernel), by simp, ?_⟩
  · simp only [registeredMeanwhile, List.mem_append, List.mem_cons, List.mem_replicate, List.not_mem_nil, or_false,
      Move.start.injEq, reduceCtorEq, and_false] at hp
    rcases hp with rfl | rfl
    · exact .push _ _
    · exact .push _ _
  · decide +kernel

end UpgradeScope.Passes
