import UpgradeScope.Server.Baselines
import UpgradeScope.Server.Views

/-!
# Runs of passes

Every pass commits batches that rest on what it saw, so every run of any number of pushes and re-evaluations keeps
the world sane. `deltas_against_newest` says what that means for notifications, and `refresh_reads_stored` for the
rows that passes rewrite: the commit compares row ids only, so a rewrite is of the row as it was read only when no
other pass rewrote it in between (`refresh_overwrites_newer`).
-/

namespace UpgradeScope.Passes

open Go Sorting Store Interleave Table Kb

open UpgradeScope.Notify hiding Store Pass step after announced

/-! ## Maps of what was read -/

/-- A map answers what another one does. -/
def Extends (m' m : AList fun _ : String => ℕ) : Prop := ∀ k v, m.lookup k = some v → m'.lookup k = some v

/-- What a map of baselines says, a larger one says. -/
theorem Loaded.extend {m m' : AList fun _ : String => ℕ} (hext : Extends m' m) {target : Version} {id : ℕ}
    (h : Loaded m target id) : Loaded m' target id := by
  obtain ⟨hpos, hown | ⟨hown, nearer, lower, farther, hsplit, hnearer, hlower⟩⟩ := h
  · exact ⟨hpos, .inl (hext _ _ hown)⟩
  · exact ⟨hpos, .inr ⟨hext _ _ hown, nearer, lower, farther, hsplit,
      fun t ht => hext _ _ (hnearer t ht), hext _ _ hlower⟩⟩

/-- Inserting the entries of a map leaves the other keys. -/
theorem lookup_foldl_insert (l : List (Sigma fun _ : String => ℕ)) (m : AList fun _ : String => ℕ) {k : String}
    (hk : k ∉ l.map (·.1)) : (l.foldl (fun m e => m.insert e.1 e.2) m).lookup k = m.lookup k := by
  induction l generalizing m with
  | nil => rfl
  | cons e l ih =>
    rw [List.map_cons, List.mem_cons, not_or] at hk
    rw [List.foldl_cons, ih _ hk.2, AList.lookup_insert_ne hk.1]

/-- Inserting the entries of a map gives its answers. -/
theorem lookup_foldl_insert_of_mem {l : List (Sigma fun _ : String => ℕ)} (hnodup : (l.map (·.1)).Nodup)
    (m : AList fun _ : String => ℕ) {e : Sigma fun _ : String => ℕ} (he : e ∈ l) :
    (l.foldl (fun m e => m.insert e.1 e.2) m).lookup e.1 = some e.2 := by
  induction l generalizing m with
  | nil => simp at he
  | cons a l ih =>
    rw [List.map_cons, List.nodup_cons] at hnodup
    rw [List.foldl_cons]
    rcases List.mem_cons.mp he with rfl | he
    · rw [lookup_foldl_insert l _ hnodup.1, AList.lookup_insert]
    · exact ih hnodup.2 _ he

/-- The baselines a commit expects after a delta's were added: those of the delta, and of other keys those
before. -/
theorem expectBaselines_extends (x : Expectation) (d : TargetDelta) :
    Extends (expectBaselines x d).baselines d.baselines ∧
      ∀ k, d.baselines.lookup k = none → (expectBaselines x d).baselines.lookup k = x.baselines.lookup k := by
  constructor
  · intro k v hlookup
    exact lookup_foldl_insert_of_mem d.baselines.nodupKeys x.baselines (AList.mem_lookup_iff.mp hlookup)
  · intro k hnone
    refine lookup_foldl_insert _ _ fun hmem => ?_
    exact absurd (AList.mem_keys.mpr hmem) (AList.lookup_eq_none.mp hnone)

/-! ## The delta of a target -/

/-- The keys of a map are texts of targets. -/
def KeysIn (m : AList fun _ : String => ℕ) (targets : List Version) : Prop :=
  ∀ k v, m.lookup k = some v → ∃ t ∈ targets, t.string = k

/-- What a delta says it was computed against. -/
structure Sourced (s : Server) (serverVersion : String) (clusterID : ℕ) (known : Option Evaluation)
    (target : Version) (d : TargetDelta) : Prop where
  /-- Its target. -/
  version : d.version = target
  /-- The baselines it read are of targets it looks up. -/
  keys : KeysIn d.baselines (lookups s serverVersion target)
  /-- It reads baselines for the sinks only. -/
  read : ∀ k v, d.baselines.lookup k = some v → s.sinks.isEmpty = false
  /-- Its changes are against a row. -/
  against : d.changes ≠ [] → s.sinks.isEmpty = false ∧ clusterID ≠ 0 ∧ ∃ row, d.against = some row ∧
    (known = some row ∨ Loaded d.baselines target row.id)

variable {past : List World} {cur : Report} (s : Server)

/-- The loop over the targets that an upgrade looks back at. -/
theorem lookback_safe {clusterID : ℕ} {vs : List Version} (hnodup : vs.Nodup) {read : AList fun _ : String => ℕ} :
    Safe Sane Later past (lookback clusterID vs read) fun _ res =>
      (∀ k v, res.2.lookup k = some v → read.lookup k = some v ∨ ∃ t ∈ vs, t.string = k) ∧
      (∀ k, (∀ t ∈ vs, t.string ≠ k) → res.2.lookup k = read.lookup k) ∧
      ∀ row, res.1 = some row → 0 < row.id ∧ ∃ nearer lower farther, vs = nearer ++ lower :: farther ∧
        (∀ t ∈ nearer, res.2.lookup t.string = some 0) ∧ res.2.lookup lower.string = some row.id := by
  induction vs generalizing past read with
  | nil => exact ⟨fun k v h => .inl h, fun k _ => rfl, by simp⟩
  | cons v vs ih =>
    rw [List.nodup_cons] at hnodup
    -- The keys are texts of versions, so other targets have other keys and leave this one's answer alone.
    have hne : ∀ t ∈ vs, t.string ≠ v.string := fun t ht heq =>
      hnodup.1 (Version.string_injective heq ▸ ht)
    refine Safe.bind (Safe.read Later.refl fun w hw hpast => ?_)
    cases hown : w.db.latestKnownEvaluation clusterID v.string with
    -- A row ends the loop: it is the nearest, and nothing was read behind it.
    | some prev =>
      refine ⟨fun k id hk => ?_, fun k hk => ?_, fun row hrow => ?_⟩
      · by_cases hkey : k = v.string
        · exact .inr ⟨v, List.mem_cons_self, hkey.symm⟩
        · rw [AList.lookup_insert_ne hkey] at hk
          exact .inl hk
      · exact AList.lookup_insert_ne (hk v List.mem_cons_self).symm
      · obtain rfl := Option.some.inj hrow
        exact ⟨id_pos_of_latestKnown hw.keyed hown, [], v, vs, rfl, by simp, AList.lookup_insert _⟩
    -- The zero recorded for this target stays while the loop goes on.
    | none =>
      refine (ih hnodup.2).imp fun past' res ⟨hkeys, hothers, hrow⟩ => ⟨fun k id hk => ?_, fun k hk => ?_, fun row hr => ?_⟩
      · rcases hkeys k id hk with hk | ⟨t, ht, htk⟩
        · by_cases hkey : k = v.string
          · exact .inr ⟨v, List.mem_cons_self, hkey.symm⟩
          · rw [AList.lookup_insert_ne hkey] at hk
            exact .inl hk
        · exact .inr ⟨t, List.mem_cons_of_mem _ ht, htk⟩
      · rw [hothers k fun t ht => hk t (List.mem_cons_of_mem _ ht)]
        exact AList.lookup_insert_ne (hk v List.mem_cons_self).symm
      · obtain ⟨hpos, nearer, lower, farther, rfl, hnearer, hlower⟩ := hrow row hr
        refine ⟨hpos, v :: nearer, lower, farther, rfl, fun t ht => ?_, hlower⟩
        rcases List.mem_cons.mp ht with rfl | ht
        · rw [hothers _ hne]
          exact AList.lookup_insert _
        · exact hnearer t ht

/-- Loading the baseline of a delta is safe. -/
theorem loadBaseline_safe {clusterID : ℕ} :
    Safe Sane Later past (loadBaseline s clusterID cur) fun _ res =>
      KeysIn res.2 (lookups s cur.serverVersion cur.target) ∧
        ∀ row, res.1 = some row → Loaded res.2 cur.target row.id := by
  -- Whatever was found, the target's own key is recorded first.
  have hself : ∀ id : ℕ, KeysIn (AList.insert cur.target.string id ∅) (lookups s cur.serverVersion cur.target) := by
    intro id k v hk
    by_cases hkey : k = cur.target.string
    · exact ⟨cur.target, List.mem_cons_self, hkey.symm⟩
    · rw [AList.lookup_insert_ne hkey] at hk
      simp at hk
  refine Safe.bind (Safe.read Later.refl fun w hw hpast => ?_)
  cases hown : w.db.latestKnownEvaluation clusterID cur.target.string with
  | some prev =>
    refine ⟨hself prev.id, fun row hrow => ?_⟩
    obtain rfl := Option.some.inj hrow
    exact ⟨id_pos_of_latestKnown hw.keyed hown, .inl (AList.lookup_insert _)⟩
  | none =>
    show Safe Sane Later _ (upgradeBaseline s clusterID cur (AList.insert cur.target.string 0 ∅)) _
    unfold upgradeBaseline
    cases hserver : version? s.external cur.serverVersion with
    | none => exact ⟨hself 0, by simp⟩
    | some server =>
      dsimp only
      -- Only the target right after the server's version looks back at lower ones.
      split_ifs with hnext
      · have hlookups : lookups s cur.serverVersion cur.target = cur.target :: lookbackTargets cur.target := by
          simp [lookups, hserver, hnext]
        have hnodup := nodup_lookups s cur.serverVersion cur.target
        rw [hlookups] at hnodup hself ⊢
        rw [List.nodup_cons] at hnodup
        refine (lookback_safe hnodup.2).imp fun past' res ⟨hkeys, hothers, hrow⟩ => ⟨fun k v hk => ?_, fun row hr => ?_⟩
        · rcases hkeys k v hk with hk | ⟨t, ht, htk⟩
          · exact hself 0 k v hk
          · exact ⟨t, List.mem_cons_of_mem _ ht, htk⟩
        · obtain ⟨hpos, hback⟩ := hrow row hr
          refine ⟨hpos, .inr ⟨?_, hback⟩⟩
          have hne : ∀ t ∈ lookbackTargets cur.target, t.string ≠ cur.target.string := fun t ht heq =>
            hnodup.1 (Version.string_injective heq ▸ ht)
          rw [hothers _ hne]
          exact AList.lookup_insert _
      · exact ⟨hself 0, by simp⟩

/-- Computing the delta of a new evaluation is safe. -/
theorem deltaFor_safe {clusterID : ℕ} {e : Evaluation} {known : Option (Evaluation × List FindingHead)}
    {unassessed : FindingHead → Bool} :
    Safe Sane Later past (deltaFor s clusterID e cur known unassessed) fun _ d =>
      Sourced s cur.serverVersion clusterID (known.map (·.1)) cur.target d := by
  have hempty : ∀ targets, KeysIn ∅ targets := by
    intro targets k v hk
    simp at hk
  unfold deltaFor
  dsimp only
  -- With no sink, no cluster, or a row that is no baseline, nothing is compared.
  split_ifs with hsilent
  · exact ⟨rfl, hempty _, by simp, fun hchanges => absurd rfl hchanges⟩
  · rw [not_or, not_or] at hsilent
    obtain ⟨hsinks, -, hcluster⟩ := hsilent
    have hsinks : s.sinks.isEmpty = false := by simpa using hsinks
    cases known with
    | some k => exact ⟨rfl, hempty _, fun _ _ _ => hsinks, fun _ => ⟨hsinks, hcluster, k.1, rfl, .inl rfl⟩⟩
    | none =>
      refine Safe.bind ((loadBaseline_safe s).imp fun past' res ⟨hkeys, hloaded⟩ => ?_)
      obtain ⟨prev, baselines⟩ := res
      cases prev with
      | none => exact ⟨rfl, hkeys, fun _ _ _ => hsinks, fun hchanges => absurd rfl hchanges⟩
      | some row =>
        dsimp only
        cases s.decodeReport row.report with
        | none => exact ⟨rfl, hkeys, fun _ _ _ => hsinks, fun hchanges => absurd rfl hchanges⟩
        | some heads =>
          exact ⟨rfl, hkeys, fun _ _ _ => hsinks,
            fun _ => ⟨hsinks, hcluster, row, rfl, .inr (hloaded row rfl)⟩⟩

/-! ## The loops over the targets -/

/-- What a pass has of the targets it is done with: their deltas, and what the commit expects. -/
structure Done (s : Server) (serverVersion : String) (targets : List Version) (p : PassBatch) : Prop where
  /-- The deltas are of these targets. -/
  version : ∀ d ∈ p.deltas, d.version ∈ targets
  /-- The baselines a delta read are of targets it looks up. -/
  keys : ∀ d ∈ p.deltas, KeysIn d.baselines (lookups s serverVersion d.version)
  /-- The commit expects the baselines of every delta. -/
  expected : ∀ d ∈ p.deltas, ∀ k v, d.baselines.lookup k = some v →
    ∃ x, p.batch.expect = some x ∧ x.baselines.lookup k = some v

/-- What a delta loaded, the commit expects. -/
theorem Done.loaded {s : Server} {serverVersion : String} {targets : List Version} {p : PassBatch}
    (h : Done s serverVersion targets p) {d : TargetDelta} (hd : d ∈ p.deltas) {id : ℕ}
    (hloaded : Loaded d.baselines d.version id) :
    ∃ x, p.batch.expect = some x ∧ Loaded x.baselines d.version id := by
  obtain ⟨v, hv⟩ : ∃ v, d.baselines.lookup d.version.string = some v := by
    rcases hloaded.2 with hown | ⟨hown, -⟩ <;> exact ⟨_, hown⟩
  obtain ⟨x, hx, -⟩ := h.expected d hd _ v hv
  refine ⟨x, hx, hloaded.extend fun k id hk => ?_⟩
  obtain ⟨x', hx', hlookup⟩ := h.expected d hd k id hk
  rw [hx] at hx'
  obtain rfl := Option.some.inj hx'
  exact hlookup

section Targets

variable {s : Server} {judged reported : String} (hagree : reported = "" ∨ judged = reported)
  {done : List Version} {target : Version} (hdone : ∀ t ∈ done, t ∈ s.evalTargets judged)
  (htarget : target ∈ s.evalTargets judged) (hnew : target ∉ done)

include hagree hdone htarget hnew in
/-- The targets of a pass read different baselines, so what the commit expects of one stays when another is
done. -/
theorem expected_extend {d new : TargetDelta}
    (hd : d.version ∈ done) (hkeys : KeysIn d.baselines (lookups s reported d.version))
    (hnewKeys : KeysIn new.baselines (lookups s reported target)) {x : Expectation} {k : String} {v : ℕ}
    (hk : d.baselines.lookup k = some v) (hx : x.baselines.lookup k = some v) :
    (expectBaselines x new).baselines.lookup k = some v := by
  rw [(expectBaselines_extends x new).2 k ?_]
  · exact hx
  · by_contra hsome
    obtain ⟨v', hv'⟩ := Option.ne_none_iff_exists'.mp hsome
    obtain ⟨t, ht, htk⟩ := hkeys k v hk
    obtain ⟨t', ht', htk'⟩ := hnewKeys k v' hv'
    obtain rfl : t = t' := Version.string_injective (htk.trans htk'.symm)
    have hne : d.version ≠ target := fun heq => hnew (heq ▸ hd)
    exact lookups_disjoint hagree (hdone _ hd) htarget hne t ht ht'

variable {p : PassBatch} {past : List World} {d : TargetDelta}

include hagree hdone htarget hnew in
/-- A target more is done: its delta is added, and the commit expects the baselines it read with those of the targets
before. -/
theorem Done.step {p p' : PassBatch} (hp : Done s reported done p) {clusterID : ℕ} {known : Option Evaluation}
    (hd : Sourced s reported clusterID known target d) (hdeltas : ∀ x ∈ p'.deltas, x ∈ p.deltas ∨ x = d)
    (hkept : ∀ y, p.batch.expect = some y → ∃ y', p'.batch.expect = some y' ∧ (y' = y ∨ y' = expectBaselines y d))
    (hown : ∀ k v, d.baselines.lookup k = some v → ∃ y, p'.batch.expect = some (expectBaselines y d)) :
    Done s reported (done ++ [target]) p' := by
  constructor
  · intro x hx
    rcases hdeltas x hx with hx | rfl
    · exact List.mem_append_left _ (hp.version x hx)
    · exact List.mem_append_right _ (List.mem_singleton.mpr hd.version)
  · intro x hx
    rcases hdeltas x hx with hx | rfl
    · exact hp.keys x hx
    · rw [hd.version]
      exact hd.keys
  · intro x hx k v hk
    rcases hdeltas x hx with hx | rfl
    · obtain ⟨y, hy, hlookup⟩ := hp.expected x hx k v hk
      obtain ⟨y', hy', rfl | rfl⟩ := hkept y hy
      · exact ⟨_, hy', hlookup⟩
      · -- What the commit expects of an earlier target is not overwritten by this one's baselines.
        exact ⟨_, hy', expected_extend hagree hdone htarget hnew (hp.version x hx) (hp.keys x hx) hd.keys hk hlookup⟩
    · obtain ⟨y, hy⟩ := hown k v hk
      exact ⟨_, hy, (expectBaselines_extends y x).1 k v hk⟩

/-- The loop of a push over its targets. -/
theorem ingestTargets_safe (s : Server) {clusterID : ℕ} {inv : Inventory} {hold : CallsHold} {adopting : Bool}
    {now : Time} {judged : String} (hagree : inv.serverVersion = "" ∨ judged = inv.serverVersion)
    {rest done : List Version} (hdone : ∀ t ∈ done ++ rest, t ∈ s.evalTargets judged) (hnodup : (done ++ rest).Nodup)
    (hp : Done s inv.serverVersion done p) (hexpect : s.sinks.isEmpty = false → p.batch.expect.isSome = true)
    (hagainst : ∀ d ∈ p.deltas, d.changes ≠ [] → clusterID ≠ 0 ∧ ∃ row, d.against = some row ∧
      Loaded d.baselines d.version row.id) :
    Safe Sane Later past (ingestTargets s clusterID inv hold adopting now rest p) fun _ res =>
      ∀ p', res = some p' → (∀ d ∈ p'.deltas, d.changes ≠ [] → clusterID ≠ 0 ∧ ∃ row, d.against = some row ∧
          ∃ x, p'.batch.expect = some x ∧ Loaded x.baselines d.version row.id) ∧
        p'.batch.refresh = p.batch.refresh ∧ p'.batch.cluster = p.batch.cluster ∧
        p'.batch.snapshot = p.batch.snapshot := by
  -- The targets that are done grow by one at each step, and the rest shrinks.
  induction rest generalizing past p done with
  | nil =>
    intro p' hp'
    obtain rfl := Option.some.inj hp'
    refine ⟨fun d hd hchanges => ?_, rfl, rfl, rfl⟩
    obtain ⟨hcluster, row, hrow, hloaded⟩ := hagainst d hd hchanges
    exact ⟨hcluster, row, hrow, hp.loaded hd hloaded⟩
  | cons target rest ih =>
    unfold ingestTargets
    have htarget : target ∈ s.evalTargets judged := hdone target (List.mem_append_right _ List.mem_cons_self)
    have hnew : target ∉ done := by
      rw [List.nodup_append] at hnodup
      exact fun hmem => hnodup.2.2 target hmem target List.mem_cons_self rfl
    cases heval : s.evaluation clusterID inv target now with
    | none => exact fun p' hp' => by simp at hp'
    | some result =>
      cases result with
      | error err => exact fun p' hp' => by simp at hp'
      | ok pair =>
        obtain ⟨e, rep⟩ := pair
        obtain ⟨hrt, hrs, -⟩ := evaluation_report heval
        dsimp only
        refine Safe.bind ((deltaFor_safe s).imp fun past' d hd => ?_)
        rw [hrt, hrs] at hd
        -- The delta as it is kept: while adopting, a cluster is not announced as ready.
        set new : TargetDelta := { d with
          changes := if adopting then d.changes.filter (·.kind ≠ .becameReady) else d.changes
          carried := s.keepCarried rep (hold.stamp d.carried) } with hnewdef
        have hchanged : new.changes ≠ [] → d.changes ≠ [] := by
          intro hne hempty
          apply hne
          simp [hnewdef, hempty]
        have hsourced : Sourced s inv.serverVersion clusterID none target new :=
          ⟨hd.version, hd.keys, hd.read, fun hchanges => hd.against (hchanged hchanges)⟩
        have hbefore : ∀ t ∈ done, t ∈ s.evalTargets judged := fun t ht => hdone t (List.mem_append_left _ ht)
        have happend : (done ++ [target]) ++ rest = done ++ target :: rest := by simp
        rw [← happend] at hdone hnodup
        refine ih hdone hnodup (hp.step hagree hbefore htarget hnew hsourced ?_ ?_ ?_) ?_ ?_
        · intro x hx
          exact (List.mem_append.mp hx).imp_right List.mem_singleton.mp
        · intro y hy
          exact ⟨expectBaselines y new, by simp [hy, expectBaselines, hnewdef], .inr rfl⟩
        · intro k v hk
          obtain ⟨y, hy⟩ := Option.isSome_iff_exists.mp (hexpect (hd.read k v hk))
          exact ⟨y, by simp [hy, expectBaselines, hnewdef]⟩
        · intro hsinks
          simpa using hexpect hsinks
        · intro x hx hchanges
          rcases List.mem_append.mp hx with hx | hx
          · exact hagainst x hx hchanges
          · rw [List.mem_singleton.mp hx] at hchanges ⊢
            obtain ⟨-, hcluster, row, hrow, hfrom⟩ := hsourced.against hchanges
            refine ⟨hcluster, row, hrow, ?_⟩
            rw [hsourced.version]
            -- A push knows no row beforehand, so the row was loaded.
            exact hfrom.resolve_left (by simp)

/-- What a re-evaluation has of the targets it is done with. -/
structure Reevaluated (past : List World) (p : PassBatch) : Prop where
  /-- It registers no cluster. -/
  cluster : p.batch.cluster = none
  /-- It stores no snapshot. -/
  snapshot : p.batch.snapshot = none
  /-- A rewritten row was read, and its status as a baseline stays. -/
  refresh : ∀ e ∈ p.batch.refresh, ∃ r ∈ p.reads, r.row.id = e.id ∧ isBaseline r.row = e.baseline ∧
    (e.baseline = false → e.blockers = 0) ∧ ∃ w ∈ past, r.row ∈ w.db.evaluations ∧ r.moment = w.history.length
  /-- A delta was computed against the current row, or a baseline it loaded. -/
  against : ∀ d ∈ p.deltas, d.changes ≠ [] → ∃ row, d.against = some row ∧
    ((p.batch.current.lookup d.version.string = some row.id ∧ isBaseline row = true ∧
      ∃ w ∈ past, row ∈ w.db.evaluations) ∨ Loaded d.baselines d.version row.id)

/-- What is re-evaluated from the worlds a pass saw is re-evaluated from more of them. -/
theorem Reevaluated.of_subset {past past' : List World} (hsub : past ⊆ past') (h : Reevaluated past p) :
    Reevaluated past' p := by
  refine ⟨h.cluster, h.snapshot, fun e he => ?_, fun d hd hchanges => ?_⟩
  · obtain ⟨r, hr, hid, hbase, hblockers, w, hw, hrest⟩ := h.refresh e he
    exact ⟨r, hr, hid, hbase, hblockers, w, hsub hw, hrest⟩
  · obtain ⟨row, hrow, hfrom⟩ := h.against d hd hchanges
    refine ⟨row, hrow, hfrom.imp_left fun ⟨hcurrent, hbase, w, hw, hmem⟩ => ?_⟩
    exact ⟨hcurrent, hbase, w, hsub hw, hmem⟩

/-- The commit checks what a re-evaluation compared with. -/
theorem Reevaluated.grounded {s : Server} {serverVersion : String} {targets : List Version} (h : Reevaluated past p)
    (hdone : Done s serverVersion targets p) : Grounded past p := by
  refine ⟨h.refresh, fun d hd hchanges => ?_, by simp [h.snapshot]⟩
  obtain ⟨row, hrow, hcurrent | hloaded⟩ := h.against d hd hchanges
  · exact ⟨row, hrow, .inl ⟨h.cluster, h.snapshot, hcurrent⟩⟩
  · refine ⟨row, hrow, .inr ⟨by simp [h.cluster], hdone.loaded hd hloaded⟩⟩

/-- What a re-evaluation does with a target's new row, in one place: the current row is recorded and the
baselines read are expected; the row is rewritten, as it was read and with its status as a baseline, or added. -/
theorem reevaluated_cases (p : PassBatch) (s : Server) (target : Version) (cur : Option Evaluation) (moment : ℕ)
    (stored : Option StoredHeads) (e : Evaluation) (rep : Report) (d : TargetDelta) :
    let p' := p.reevaluated s target cur moment stored e rep d
    p'.batch.cluster = p.batch.cluster ∧ p'.batch.snapshot = p.batch.snapshot ∧
      p'.batch.current = p.batch.current.insert target.string ((cur.map (·.id)).getD 0) ∧
      p'.batch.expect = (if d.baselines.entries.isEmpty then p.batch.expect
        else some (expectBaselines (p.batch.expect.getD {}) d)) ∧
      ((p'.deltas = p.deltas ∧ p'.batch.insert = p.batch.insert ∧ ∃ row, cur = some row ∧ isBaseline row = e.baseline ∧
          p'.batch.refresh = p.batch.refresh ++ [{ e with id := row.id }] ∧
          p'.reads = p.reads ++ [⟨row, moment⟩]) ∨
        (p'.deltas = p.deltas ++ [d] ∧ p'.batch.insert = p.batch.insert ++ [e] ∧ p'.batch.refresh = p.batch.refresh ∧
          p'.reads = p.reads)) := by
  unfold PassBatch.reevaluated
  dsimp only
  cases cur with
  | none => exact ⟨rfl, rfl, rfl, rfl, .inr ⟨rfl, rfl, rfl, rfl⟩⟩
  | some row =>
    cases stored with
    | none => exact ⟨rfl, rfl, rfl, rfl, .inr ⟨rfl, rfl, rfl, rfl⟩⟩
    | some heads =>
      dsimp only
      by_cases hsame : sameResult row heads.findings rep = true ∧ isBaseline row = e.baseline ∧
          (s.sinks.isEmpty = true ∨ sameHeads heads.carriedForward d.carried = true)
      · rw [if_pos hsame]
        exact ⟨rfl, rfl, rfl, rfl, .inl ⟨rfl, rfl, row, rfl, hsame.2.1, rfl, rfl⟩⟩
      · rw [if_neg hsame]
        exact ⟨rfl, rfl, rfl, rfl, .inr ⟨rfl, rfl, rfl, rfl⟩⟩

include hagree hdone htarget hnew in
/-- One more target of a re-evaluation is done. -/
theorem reevaluated_step (hp : Done s reported done p) (hre : Reevaluated past p) {clusterID : ℕ}
    {cur : Option Evaluation} {moment : ℕ}
    (hcur : ∀ row, cur = some row → ∃ w ∈ past, row ∈ w.db.evaluations ∧ moment = w.history.length)
    {known : Option Evaluation} (hknown : ∀ row, known = some row → cur = some row ∧ isBaseline row = true)
    {e : Evaluation} (he : e.baseline = false → e.blockers = 0) (hd : Sourced s reported clusterID known target d)
    (stored : Option StoredHeads) (rep : Report) :
    Done s reported (done ++ [target]) (p.reevaluated s target cur moment stored e rep d) ∧
      Reevaluated past (p.reevaluated s target cur moment stored e rep d) := by
  obtain ⟨hcluster, hsnapshot, hcurrent, hexpect, hcases⟩ :=
    reevaluated_cases p s target cur moment stored e rep d
  set p' := p.reevaluated s target cur moment stored e rep d
  have hdeltas : ∀ x ∈ p'.deltas, x ∈ p.deltas ∨ x = d := by
    intro x hx
    rcases hcases with ⟨heq, -⟩ | ⟨heq, -⟩
    · exact .inl (heq ▸ hx)
    · rw [heq] at hx
      exact (List.mem_append.mp hx).imp_right List.mem_singleton.mp
  refine ⟨hp.step hagree hdone htarget hnew hd hdeltas ?_ ?_, ?_⟩
  · intro y hy
    rw [hexpect, hy]
    split_ifs
    · exact ⟨y, rfl, .inl rfl⟩
    · exact ⟨_, rfl, .inr rfl⟩
  · intro k v hk
    have hentries : d.baselines.entries.isEmpty = false := by
      rw [List.isEmpty_eq_false_iff_exists_mem]
      exact ⟨_, AList.mem_lookup_iff.mp hk⟩
    rw [hexpect, hentries, if_neg (by simp)]
    exact ⟨_, rfl⟩
  · constructor
    · exact hcluster.trans hre.cluster
    · exact hsnapshot.trans hre.snapshot
    · intro f hf
      rcases hcases with ⟨-, -, row, hrow, hbase, hrefresh, hreads⟩ | ⟨-, -, hrefresh, hreads⟩
      · rw [hrefresh] at hf
        rw [hreads]
        rcases List.mem_append.mp hf with hf | hf
        · obtain ⟨r, hr, hrest⟩ := hre.refresh f hf
          exact ⟨r, List.mem_append_left _ hr, hrest⟩
        · rw [List.mem_singleton.mp hf]
          obtain ⟨w, hw, hmem, hmoment⟩ := hcur row hrow
          exact ⟨⟨row, moment⟩, List.mem_append_right _ (List.mem_singleton.mpr rfl), rfl, hbase, he, w, hw, hmem,
            hmoment⟩
      · rw [hrefresh] at hf
        rw [hreads]
        exact hre.refresh f hf
    · intro x hx hchanges
      rw [hcurrent]
      rcases hdeltas x hx with hx | rfl
      · obtain ⟨row, hrow, hfrom⟩ := hre.against x hx hchanges
        refine ⟨row, hrow, hfrom.imp_left fun ⟨hlookup, hrest⟩ => ⟨?_, hrest⟩⟩
        -- The current row of another target was recorded.
        have hne : x.version ≠ target := fun heq => hnew (heq ▸ hp.version x hx)
        rw [AList.lookup_insert_ne fun heq => hne (Version.string_injective heq)]
        exact hlookup
      · obtain ⟨-, -, row, hrow, hfrom⟩ := hd.against hchanges
        refine ⟨row, hrow, ?_⟩
        rcases hfrom with hfrom | hloaded
        · obtain ⟨hcurrow, hbase⟩ := hknown row hfrom
          obtain ⟨w, hw, hmem, -⟩ := hcur row hcurrow
          left
          rw [hd.version, AList.lookup_insert, hcurrow]
          exact ⟨rfl, hbase, w, hw, hmem⟩
        · right
          rw [hd.version]
          exact hloaded

end Targets

variable (s : Server) {inv : Inventory} {p : PassBatch} {past : List World} {snap : Snapshot} {now : Time}

/-- The loop of a re-evaluation over its targets. -/
theorem reevaluateTargets_safe {clusterID snapID : ℕ} {hold : CallsHold} {force : Bool} {judged : String}
    (hagree : inv.serverVersion = "" ∨ judged = inv.serverVersion) {rest done : List Version}
    (hdone : ∀ t ∈ done ++ rest, t ∈ s.evalTargets judged) (hnodup : (done ++ rest).Nodup) {left : Bool}
    (hp : Done s inv.serverVersion done p) (hre : Reevaluated past p) :
    Safe Sane Later past (reevaluateTargets s clusterID snapID inv hold force now rest p left) fun past' res =>
      ∀ p' left', res = .ok (p', left') → Grounded past' p' := by
  induction rest generalizing past p done left with
  | nil =>
    intro p' left' hres
    obtain ⟨rfl, -⟩ := Prod.mk.inj (Except.ok.inj hres)
    exact hre.grounded hp
  | cons target rest ih =>
    unfold reevaluateTargets
    have htarget : target ∈ s.evalTargets judged := hdone target (List.mem_append_right _ List.mem_cons_self)
    have hbefore : ∀ t ∈ done, t ∈ s.evalTargets judged := fun t ht => hdone t (List.mem_append_left _ ht)
    have hnew : target ∉ done := by
      rw [List.nodup_append] at hnodup
      exact fun hmem => hnodup.2.2 target hmem target List.mem_cons_self rfl
    have happend : (done ++ [target]) ++ rest = done ++ target :: rest := by simp
    rw [← happend] at hdone hnodup
    -- A target that is left alone is done too.
    have hskip : Done s inv.serverVersion (done ++ [target]) p :=
      ⟨fun d hd => List.mem_append_left _ (hp.version d hd), hp.keys, hp.expected⟩
    refine Safe.bind (Safe.read Later.refl fun w hw hpast => ?_)
    have hre' : Reevaluated (w :: past) p := hre.of_subset (List.subset_cons_self _ _)
    dsimp only
    set cur := w.db.currentEvaluation clusterID target.string with hcurdef
    have hcurmem : ∀ row, cur = some row → row ∈ w.db.evaluations := by
      intro row hrow
      rw [hcurdef] at hrow
      obtain ⟨snap, -, hnewest⟩ := Option.bind_eq_some_iff.mp hrow
      exact (List.mem_filter.mp (newest_mem hnewest)).1
    split_ifs with hmoved hfresh
    · intro p' left' hres
      simp at hres
    · exact ih hdone hnodup hskip hre'
    · cases heval : s.evaluation clusterID inv target now with
      | none => exact fun p' left' hres => by simp at hres
      | some result =>
        cases result with
        | error err => exact ih hdone hnodup hskip hre'
        | ok pair =>
          obtain ⟨e, rep⟩ := pair
          obtain ⟨hrt, hrs, -, -, hblockers⟩ := evaluation_report heval
          dsimp only
          refine Safe.bind ((deltaFor_safe s).subset.imp fun past' d ⟨hsub, hd⟩ => ?_)
          rw [hrt, hrs] at hd
          set known := cur.bind fun row => (cur.bind fun row => s.decodeReport row.report).bind fun heads =>
            if isBaseline row then some (row, heads.baseline) else none with hknowndef
          have hcur : ∀ row, cur = some row →
              ∃ w₀ ∈ past', row ∈ w₀.db.evaluations ∧ w.history.length = w₀.history.length :=
            fun row hrow => ⟨w, hsub List.mem_cons_self, hcurmem row hrow, rfl⟩
          -- The baseline the pass holds is the current row's.
          have hknown : ∀ row, known.map (·.1) = some row → cur = some row ∧ isBaseline row = true := by
            intro row hrow
            obtain ⟨k, hk, rfl⟩ := Option.map_eq_some_iff.mp hrow
            obtain ⟨row, hcurrow, hrest⟩ := Option.bind_eq_some_iff.mp hk
            obtain ⟨heads, -, hif⟩ := Option.bind_eq_some_iff.mp hrest
            split_ifs at hif with hbase
            obtain rfl := Option.some.inj hif
            exact ⟨hcurrow, hbase⟩
          have hsourced : Sourced s inv.serverVersion clusterID (known.map (·.1)) target
              { d with carried := s.keepCarried rep (hold.stamp d.carried) } :=
            ⟨hd.version, hd.keys, hd.read, hd.against⟩
          set carried := s.keepCarried rep (hold.stamp d.carried)
          set row : Evaluation := { e with report := s.encodeReport rep carried }
          have hrow : row.baseline = false → row.blockers = 0 := hblockers
          obtain ⟨hdone', hre''⟩ := reevaluated_step hagree hbefore htarget hnew hp (hre'.of_subset hsub) hcur hknown
            hrow hsourced (cur.bind fun row => s.decodeReport row.report) rep
          exact ih hdone hnodup hdone' hre''

/-! ## The programs -/

/-- A pass that ends, whatever it saw. -/
def Ends {α : Type} (past : List World) (p : Prog World α) : Prop := Safe Sane Later past p fun _ _ => True

/-- A commit of a batch that rests on what the pass saw. -/
theorem commit_ends (hp : Grounded past p) : Ends past (commit p) :=
  Safe.update fun _ hw hpast => ⟨sane_committed hw hpast hp, later_committed hw hpast hp, trivial⟩

/-- A program after one that ends, ends. -/
theorem Ends.bind {α β : Type} {p : Prog World α} {g : α → Prog World β} (h : Ends past p)
    (hg : ∀ past' a, past ⊆ past' → Ends past' (g a)) : Ends past (p >>= g) :=
  h.seq fun past' a hsub _ => hg past' a hsub

/-- A query ends. -/
theorem read_ends {α : Type} (past : List World) (q : World → α) : Ends past (Prog.read q) :=
  Safe.read Later.refl fun _ _ _ => trivial

/-- A batch that rests on what the pass saw still does when it saw more, and whatever it queues. -/
theorem Grounded.queue {past past' : List World} (hsub : past ⊆ past') (h : Grounded past p)
    (outbox : List OutboxMessage) : Grounded past' { p with batch := { p.batch with outbox := outbox } } := by
  refine ⟨fun e he => ?_, fun d hd hchanges => ?_, h.snapshot⟩
  · obtain ⟨r, hr, hid, hbase, hblockers, w, hw, hrest⟩ := h.refresh e he
    exact ⟨r, hr, hid, hbase, hblockers, w, hsub hw, hrest⟩
  · obtain ⟨row, hrow, hchecked⟩ := h.deltas d hd hchanges
    refine ⟨row, hrow, hchecked.imp_left fun ⟨hc, hs, hcurrent, hbase, w, hw, hmem⟩ => ?_⟩
    exact ⟨hc, hs, hcurrent, hbase, w, hsub hw, hmem⟩

/-- A re-evaluation ends. -/
theorem reevaluate_ends (cluster : Cluster) (snapID : ℕ) {serverVersion : String}
    (hagree : inv.serverVersion = "" ∨ serverVersion = inv.serverVersion) (pushed force : Bool) (past : List World) :
    Ends past (reevaluate s cluster snapID serverVersion inv pushed force) := by
  refine (read_ends past _).bind fun past₁ now _ => ?_
  have hp : Done s (s.evalInventory inv).serverVersion []
      { batch := { clusterID := cluster.id, snapshotID := snapID } } := by
    constructor <;> simp
  have hre : Reevaluated past₁ { batch := { clusterID := cluster.id, snapshotID := snapID } } := by
    constructor <;> simp
  have hagree' : (s.evalInventory inv).serverVersion = "" ∨ serverVersion = (s.evalInventory inv).serverVersion :=
    hagree
  have htargets : ∀ t ∈ [] ++ s.evalTargets serverVersion, t ∈ s.evalTargets serverVersion := fun t ht => ht
  have hnodup : ([] ++ s.evalTargets serverVersion).Nodup := nodup_evalTargets s serverVersion
  have hloop : Safe Sane Later past₁ (reevaluateTargets s cluster.id snapID (s.evalInventory inv)
      (callsHoldOf s inv serverVersion pushed) force now (s.evalTargets serverVersion)
      { batch := { clusterID := cluster.id, snapshotID := snapID } } false) fun past' res =>
        ∀ p' left', res = .ok (p', left') → Grounded past' p' :=
    reevaluateTargets_safe s hagree' htargets hnodup hp hre
  refine Safe.bind (hloop.imp fun past₂ res hres => ?_)
  match res, hres with
  | .error .movedOn, _ => exact trivial
  | .error .evaluation, _ => exact trivial
  | .error .notFound, _ => exact trivial
  | .error (.store _), _ => exact trivial
  | .ok (p, left), hres =>
    have hgrounded := hres p left rfl
    dsimp only
    -- Nothing to store, or all of it in one commit.
    split_ifs
    · exact trivial
    · refine (read_ends past₂ _).bind fun past₃ random hsub => ?_
      refine (commit_ends (hgrounded.queue hsub _)).bind fun past₄ answer _ => ?_
      split <;> exact trivial

/-- The re-evaluation of a duplicate ends. -/
theorem reevaluateDuplicate_ends (cluster : Cluster) (snapID : ℕ) {serverVersion : String}
    (hagree : inv.serverVersion = "" ∨ serverVersion = inv.serverVersion) (dup force : Bool) (past : List World) :
    Ends past (reevaluateDuplicate s cluster snapID serverVersion inv dup force) := by
  refine (reevaluate_ends s cluster snapID hagree true force past).bind fun past' res _ => ?_
  split <;> exact trivial

/-- A background pass over a cluster ends. -/
theorem background_ends (cluster : Cluster) (past : List World) : Ends past (background s cluster) := by
  refine Safe.bind (Safe.read Later.refl fun w hw _ => ?_)
  cases hsnap : w.db.latestSnapshot cluster.id with
  | none => exact trivial
  | some snap =>
    have hversion := hw.versions snap (DB.latestSnapshot_spec hsnap).1
    -- The snapshot is judged at the version of its inventory, when that has one.
    have hagree : (s.decodeInventory snap).serverVersion = "" ∨
        judgedAt snap (s.decodeInventory snap) = (s.decodeInventory snap).serverVersion := by
      rw [judgedAt, s.serverVersion_decodeInventory]
      refine hversion.imp_right fun heq => ?_
      rw [heq, orElse]
      split_ifs <;> rfl
    exact (reevaluate_ends s cluster snap.id hagree false false _).bind fun _ _ _ => trivial

/-- A push past the check for a duplicate. -/
theorem ingestFull_ends (cluster : Cluster) (hinv : inv.serverVersion = snap.inventory.serverVersion)
    (hsnap : snap.inventory.serverVersion = "" ∨ snap.serverVersion = snap.inventory.serverVersion)
    (token : Option String) (adopting : Bool) (latestID : ℕ) (past : List World) :
    Ends past (ingestFull s cluster snap inv token adopting latestID) := by
  have hagree : inv.serverVersion = "" ∨ snap.serverVersion = inv.serverVersion := by
    rw [hinv]
    exact hsnap
  refine (read_ends past _).bind fun past₁ now _ => ?_
  -- A push with sinks, or one that adopts a cluster, commits only if what it read still stands.
  set expect : Option Expectation :=
    if ¬ s.sinks.isEmpty = true ∨ adopting = true then some { latestSnapshotID := latestID } else none with hexpect
  set start : PassBatch :=
    { batch := { cluster := some cluster, snapshot := some snap, ingestToken := token, expect := expect } } with hstart
  have hp : Done s (s.evalInventory inv).serverVersion [] start := by
    constructor <;> simp [hstart]
  have hsome : s.sinks.isEmpty = false → start.batch.expect.isSome = true := by
    intro hsinks
    simp [hstart, hexpect, hsinks]
  have hagree' : (s.evalInventory inv).serverVersion = "" ∨
      snap.serverVersion = (s.evalInventory inv).serverVersion := hagree
  have htargets : ∀ t ∈ [] ++ s.evalTargets snap.serverVersion, t ∈ s.evalTargets snap.serverVersion :=
    fun t ht => ht
  have hnodup : ([] ++ s.evalTargets snap.serverVersion).Nodup := nodup_evalTargets s snap.serverVersion
  refine Safe.bind ((ingestTargets_safe s hagree' htargets hnodup hp hsome (by simp [hstart])).imp
    fun past₂ res hres => ?_)
  cases res with
  | none => exact trivial
  | some p =>
    obtain ⟨hdeltas, hrefresh, hcluster, hsnapshot⟩ := hres p rfl
    have hgrounded : Grounded past₂ p := by
      refine ⟨?_, fun d hd hchanges => ?_, fun sn hsn => ?_⟩
      · rw [hrefresh]
        simp [hstart]
      · obtain ⟨hid, row, hrow, hloaded⟩ := hdeltas d hd hchanges
        refine ⟨row, hrow, .inr ⟨fun c hc => ?_, hloaded⟩⟩
        rw [hcluster] at hc
        obtain rfl := Option.some.inj hc
        exact hid
      · rw [hsnapshot] at hsn
        obtain rfl := Option.some.inj hsn
        exact hsnap
    refine (read_ends past₂ _).bind fun past₃ random hsub => ?_
    refine (commit_ends (hgrounded.queue hsub _)).bind fun past₄ answer _ => ?_
    match answer with
    | .error _ => exact trivial
    | .ok (_, false) => exact trivial
    -- The commit found the same inventory stored meanwhile: it is re-evaluated as a duplicate.
    | .ok (snapID, true) =>
      dsimp only
      split_ifs
      · exact reevaluateDuplicate_ends s cluster snapID hagree true true past₄
      · refine (read_ends past₄ _).bind fun past₅ c _ => ?_
        cases c with
        | none => exact trivial
        | some c => exact reevaluateDuplicate_ends s _ snapID hagree true true past₅

/-- One attempt of a push is a pass that ends, whatever it saw. -/
theorem ingestOnce_ends (cluster : Cluster) (hinv : inv.serverVersion = snap.inventory.serverVersion)
    (hsnap : snap.serverVersion = snap.inventory.serverVersion) (token : Option String) (adopting : Bool)
    (past : List World) : Ends past (ingestOnce s cluster snap inv token adopting) := by
  unfold ingestOnce
  split_ifs
  · exact ingestFull_ends s cluster hinv (.inr hsnap) token adopting 0 past
  · refine (read_ends past _).bind fun past₁ head _ => ?_
    cases head with
    | none => exact ingestFull_ends s cluster hinv (.inr hsnap) token adopting 0 past₁
    | some head =>
      have hlatest : Ends past₁ (latestFor cluster snap head) := by
        unfold latestFor
        split_ifs
        · exact read_ends past₁ _
        · exact trivial
      refine hlatest.bind fun past₂ latest _ => ?_
      cases latest with
      | none => exact trivial
      | some latest =>
        dsimp only
        set snap' : Snapshot := { snap with serverVersion := orElse snap.serverVersion (judgedVersion latest) } with hdef
        -- The push inherits a version only when its inventory reports none.
        have hsnap' : snap'.inventory.serverVersion = "" ∨ snap'.serverVersion = snap'.inventory.serverVersion := by
          show snap.inventory.serverVersion = "" ∨
            orElse snap.serverVersion (judgedVersion latest) = snap.inventory.serverVersion
          rw [← hsnap, orElse]
          split_ifs with hempty
          · exact .inl hempty
          · exact .inr rfl
        have hinv' : inv.serverVersion = snap'.inventory.serverVersion := hinv
        split_ifs
        · have hgrounded : Grounded past₂ { batch := {
              cluster := some cluster, snapshot := some snap', ingestToken := token
              expect := some { latestSnapshotID := head.id } } } := by
            refine ⟨by simp, by simp, fun sn hsn => ?_⟩
            obtain rfl := Option.some.inj hsn
            exact hsnap'
          refine (commit_ends hgrounded).bind fun past₃ answer _ => ?_
          rcases answer with _ | ⟨snapID, dup⟩
          · exact trivial
          · refine reevaluateDuplicate_ends s cluster snapID ?_ dup _ past₃
            rw [hinv']
            exact hsnap'
        · exact ingestFull_ends s cluster hinv' hsnap' token adopting head.id past₂

/-- Every attempt of a push ends. -/
theorem ingestAttempts_ends (hinv : inv.serverVersion = snap.inventory.serverVersion)
    (hsnap : snap.serverVersion = snap.inventory.serverVersion) (token : Option String) (n : ℕ) (cluster : Cluster)
    (adopting : Bool) (past : List World) : Ends past (ingestAttempts s snap inv token n cluster adopting) := by
  induction n generalizing cluster adopting past with
  | zero => exact ingestOnce_ends s cluster hinv hsnap token adopting past
  | succ n ih =>
    refine (ingestOnce_ends s cluster hinv hsnap token adopting past).bind fun past₁ answer _ => ?_
    split
    · by_cases hagain : cluster.id ≠ 0 ∧ ¬ adopting = true
      · rw [if_pos hagain]
        exact ih cluster adopting past₁
      · rw [if_neg hagain]
        exact (read_ends past₁ _).bind fun past₂ c _ => ih _ _ past₂
    · exact trivial
    · exact trivial

/-- A push ends. -/
theorem push_ends (req : Push) (past : List World) : Ends past (push s req) := by
  refine (read_ends past _).bind fun past₁ now _ => ?_
  have hingest : ∀ (clusterID : ℕ) (cluster : Cluster) (adopting : Bool) (past' : List World),
      Ends past' (ingestAttempts s (req.snapshot s clusterID now) (s.decodeInventory (req.snapshot s clusterID now))
        req.token (maxIngestAttempts - 1) cluster adopting) := fun clusterID cluster adopting past' =>
    ingestAttempts_ends s (s.serverVersion_decodeInventory _) rfl req.token _ cluster adopting past'
  refine (read_ends past₁ _).bind fun past₂ existing _ => ?_
  cases existing with
  | some existing =>
    dsimp only
    split_ifs
    · exact trivial
    · exact trivial
    · exact (hingest existing.id _ _ past₂).bind fun _ _ _ => trivial
  | none =>
    dsimp only
    split_ifs
    · exact trivial
    · exact (hingest 0 _ _ past₂).bind fun _ _ _ => trivial

/-- Every pass ends. -/
theorem IsPass.ends {p : Prog World Unit} (h : IsPass p) : Ends [] p := by
  cases h with
  | push s req => exact push_ends s req []
  | background s cluster => exact background_ends s cluster []

/-! ## Every run -/

/-- A store that passes may start from: the ids grew with insertion, the evaluations of a cluster are in the order
of their snapshots, and a snapshot is judged at the version its inventory reports. -/
structure Consistent (db : DB) : Prop where
  /-- The tables are keyed. -/
  keyed : db.Keyed
  /-- The evaluations are in the order of their snapshots. -/
  ordered : db.Ordered
  /-- The versions of the snapshots. -/
  versions : ∀ s ∈ db.snapshots, s.inventory.serverVersion = "" ∨ s.serverVersion = s.inventory.serverVersion

/-- Every run of passes keeps the world sane. -/
theorem sane_of_run {start : World} (hdb : Consistent start.db) (hhistory : start.history = [])
    {ms : List (Move World Env)} (hpasses : ∀ p, Move.start p ∈ ms → IsPass p) {st : System World}
    (hrun : System.run env ⟨start, []⟩ ms = some st) : Sane st.state := by
  have hstart : Sound Sane Later ⟨start, []⟩ := by
    refine ⟨⟨hdb.keyed, hdb.ordered, hdb.versions, ?_, ?_, ?_⟩, by simp⟩
    · simp [hhistory]
    · simp [hhistory]
    · simp [hhistory]
  have henv : ∀ e w, Sane w → Sane (env e w) ∧ Later w (env e w) := fun e _ hw => env_sane e hw
  exact (run_invariant Later.refl (fun _ _ _ => Later.trans) henv (fun p hp => (hpasses p hp).ends) hstart hrun).state

/-- A commit that does not write its batch leaves the evaluations and the queued notifications. -/
theorem unwritten {c : CommitRecord} (hresult : c.result = commitEvaluations now c.batch c.before) (h : ¬ c.Wrote) :
    (afterCommit c.result c.before).evaluations = c.before.evaluations ∧
      (afterCommit c.result c.before).outbox = c.before.outbox := by
  cases hres : c.result with
  | error err => exact ⟨rfl, rfl⟩
  | ok answer =>
    obtain ⟨db', snapID, dup⟩ := answer
    cases dup with
    | false => exact absurd ⟨db', snapID, hres⟩ h
    | true =>
      obtain ⟨mid, clusterID, hreg, hcases⟩ := commitEvaluations_cases (hresult.symm.trans hres)
      rcases hcases with ⟨snap, latest, -, -, -, -, rfl⟩ | ⟨snap, -, hdup, -⟩ | ⟨latest, -, -, -, hdup, -⟩
      · show mid.evaluations = c.before.evaluations ∧ mid.outbox = c.before.outbox
        exact ⟨(registerCluster_rows hreg).1.evaluations, registerCluster_outbox hreg⟩
      · simp at hdup
      · simp at hdup

/-- A knowledge base of one API, which 1.31 removes. -/
def oneAPI : KB where
  version := "2025-06-01"
  maxKnownK8s := ⟨1, 33⟩
  apiLifecycle := [{ group := "batch", version := "v1beta1", kind := "CronJob", introduced := ⟨1, 8⟩
                     removed := some ⟨1, 31⟩ }]

/-- A replica with that knowledge base, whose agents are all of 0.2.0 or later. Of a report it stores the key of the
first finding, so that its reports have a blocker or nothing. -/
def oneAPIServer : Server where
  external := External.ascii
  fuel := 1
  kb := oneAPI
  sinks := ["webhook"]
  extraTargets := []
  teamMap := []
  teamMapHash := ""
  maxReportBytes := 5000000
  encodeReport rep _ := (rep.findings.head?.map (·.key)).getD ""
  decodeReport text := some ⟨if text = "" then [] else [⟨.removedAPI, .blocker, text, "", [], 0, false, 0⟩], [], []⟩
  encodeNotification _ := "{}"
  hash inv := toString inv.apiUsage.length
  decodeInventory s := KbSkew.judgedView (fun _ => some false) External.ascii s.inventory s.agentVersion s.kbVersion oneAPI
  serverVersion_decodeInventory _ := KbSkew.serverVersion_judgedView _ _ _ _ _ _

/-- A use of the API, with the object that is written through it. -/
def cronJobUse : APIUsage where
  group := "batch"
  version := "v1beta1"
  kind := "CronJob"
  count := 1
  namespaces := AList.insert "shop" 1 ∅
  objects := [{ «namespace» := "shop", name := "nightly" }]

/-- A cluster at 1.30 whose collectors all answered. -/
def clusterWith (usage : List APIUsage) : Inventory where
  clusterID := "uid"
  serverVersion := "v1.30.0"
  apiUsage := usage
  capabilities := [capAPIUsage, capDeprecatedCalls, capHelm, capAddOns, capVersions, capCRDs, capVolumes].foldl
    (fun m c => m.insert c { available := true }) ∅

/-- A push of such a cluster. -/
def pushOf (usage : List APIUsage) : Push := ⟨"prod", clusterWith usage, "2025-06-01", "v1.0.0", none, 0⟩

/-- The cluster is pushed with a use of the removed API, then without. -/
def fixedRun : List (Move World Env) :=
  [.start (push oneAPIServer (pushOf [cronJobUse]))] ++ List.replicate 5 (.step 0) ++
    [.start (push oneAPIServer (pushOf []))] ++ List.replicate 7 (.step 1)

/-- An empty store is consistent. -/
theorem Consistent.empty : Consistent {} :=
  ⟨⟨by simp, by simp, by simp, by simp, by simp⟩, by simp [DB.Ordered], by simp⟩

/-- A commit that wrote answered so. -/
theorem CommitRecord.wrote_iff (c : CommitRecord) :
    c.Wrote ↔ (match c.result with | .ok (_, _, false) => true | _ => false) = true := by
  unfold CommitRecord.Wrote
  rcases c.result with e | ⟨db, snapID, _ | _⟩ <;> simp

instance (c : CommitRecord) : Decidable c.Wrote := decidable_of_iff _ c.wrote_iff.symm

/-- In every run in which no commit rewrites a row between the moment another pass read it and that pass's own
commit, a commit that rewrites a row was computed from the content the row has just before the commit. -/
theorem refresh_reads_stored {start : World} (hdb : Consistent start.db) (hhistory : start.history = [])
    {ms : List (Move World Env)} (hpasses : ∀ p, Move.start p ∈ ms → IsPass p) {st : System World}
    (hrun : System.run env ⟨start, []⟩ ms = some st)
    (halone : ∀ (k : ℕ) (c : CommitRecord), st.state.history[k]? = some c → c.Wrote → ∀ r ∈ c.reads,
      Untouched st.state.history r.row.id r.moment k) :
    ∀ c ∈ st.state.history, c.Wrote → ∀ e ∈ c.batch.refresh,
      ∃ r ∈ c.reads, r.row.id = e.id ∧ r.row ∈ c.before.evaluations := by
  intro c hc hwrote e he
  have hsane := sane_of_run hdb hhistory hpasses hrun
  obtain ⟨k, hk⟩ := List.mem_iff_getElem?.mp hc
  obtain ⟨r, hr, hid, hstored⟩ := hsane.reads k c hk hwrote e he
  refine ⟨r, hr, hid, hstored ?_⟩
  rw [← hid]
  exact halone k c hk hwrote r hr

/-- A background pass over the pushed cluster. -/
def backgroundPass : Prog World Unit := background oneAPIServer { id := 1, name := "prod" }

/-- The cluster is pushed and evaluated again two days later. -/
def refreshRun : List (Move World Env) :=
  [.start (push oneAPIServer (pushOf []))] ++ List.replicate 5 (.step 0) ++
    [.env (.clock (2 * day)), .start backgroundPass] ++ List.replicate 5 (.step 1)

/-- A background pass rewrites the row as it is stored. -/
theorem refresh_of_refreshRun : ∃ st, System.run env ⟨{}, []⟩ refreshRun = some st ∧
    ∃ c ∈ st.state.history, c.Wrote ∧ ∃ e ∈ c.batch.refresh,
      ∃ r ∈ c.reads, r.row.id = e.id ∧ r.row ∈ c.before.evaluations := by
  have hrun : ∃ st, System.run env ⟨{}, []⟩ refreshRun = some st ∧
      (∃ c ∈ st.state.history, c.Wrote ∧ c.batch.refresh ≠ []) ∧
      ∀ k < st.state.history.length, ∀ c ∈ st.state.history[k]?, ∀ r ∈ c.reads, k ≤ r.moment := by
    refine ⟨(System.run env ⟨{}, []⟩ refreshRun).get (by decide +kernel), by simp, ?_, ?_⟩
    · decide +kernel
    · decide +kernel
  obtain ⟨st, hst, ⟨c, hc, hwrote, hrefresh⟩, hmoments⟩ := hrun
  have hpasses : ∀ p, Move.start p ∈ refreshRun → IsPass p := by
    intro p hp
    simp only [refreshRun, List.mem_append, List.mem_cons, List.mem_replicate, List.not_mem_nil, or_false,
      Move.start.injEq, reduceCtorEq, and_false, false_or] at hp
    rcases hp with rfl | rfl
    · exact .push _ _
    · exact .background _ _
  obtain ⟨e, he⟩ := List.exists_mem_of_ne_nil _ hrefresh
  refine ⟨st, hst, c, hc, hwrote, e, he, ?_⟩
  refine refresh_reads_stored Consistent.empty rfl hpasses hst (fun k c hk _ r hr => ?_) c hc hwrote e he
  -- Nothing was committed between the pass's read and its commit.
  intro i _ hsince hlt
  have := hmoments k (List.getElem?_eq_some_iff.mp hk).1 c hk r hr
  omega

/-- Two background passes read the row of the pushed cluster, and the one with the earlier clock commits last. -/
def racingRun : List (Move World Env) :=
  [.start (push oneAPIServer (pushOf []))] ++ List.replicate 5 (.step 0) ++
    [.env (.clock (2 * day)), .start backgroundPass] ++ List.replicate 4 (.step 1) ++
    [.env (.clock (3 * day)), .start backgroundPass] ++ List.replicate 5 (.step 2) ++ [.step 1]

/-- Two passes that refresh one row both commit: the second one finds the row id it read, and takes the time of
evaluation back to that of the pass that had read the row before the first one rewrote it. -/
theorem refresh_overwrites_newer : ∃ st, System.run env ⟨{}, []⟩ racingRun = some st ∧
    ∃ c ∈ st.state.history, c.Wrote ∧ ∃ e ∈ c.batch.refresh,
      (∀ r ∈ c.reads, r.row.id = e.id → r.row ∉ c.before.evaluations) ∧
      ∃ row ∈ c.before.evaluations, row.id = e.id ∧ row.evaluatedAt = 3 * day ∧ e.evaluatedAt = 2 * day := by
  refine ⟨(System.run env ⟨{}, []⟩ racingRun).get (by decide +kernel), by simp, ?_⟩
  decide +kernel

end UpgradeScope.Passes
