import UpgradeScope.Server.TeamsCache
import UpgradeScope.Server.Shares
import UpgradeScope.Lib.Rollup

/-!
# The teams of the fleet

`internal/engine/teamscore.go`, `internal/server/teams.go` and the rollup of `internal/server/fleet.go`. A report is divided by
team (`teamScores`), and `GET /fleet/teams` adds up what every cluster contributes at one target: the stored evaluation, or
else a what-if, or what an earlier request left in the cache (`fleetTeamsContribution`). What the store, the read slot and the
evaluation answer while a cluster is visited is a `TeamsWorld`; a rollup is `rollClusters` over the clusters and their worlds.

The rows of a rollup are a `Rollup.rollup` of what the evaluated clusters contribute (`RolledOf`), so a team's row is made of
that team's scores and of nothing else. `fleet_teams_hide_nothing` reads off what a row says.
-/

namespace UpgradeScope.FleetTeams

open Go Rollup

/-! ## The teams of a report -/

/-- `UnattributedTeam`: the name of the findings that no team owns. -/
def unattributedTeam : String := "(unattributed)"

/-- The teams that a finding counts for. -/
def teamsOf (f : Finding) : List String := if f.teams = [] then [""] else f.teams

/-- `byTeam`: the findings of each team. -/
def byTeam (r : Report) : AList fun _ : String => List Finding :=
  rollup (fun fs f => fs.getD [] ++ [f]) ∅ (r.findings.flatMap fun f => (teamsOf f).map fun team => (team, f))

/-- `unattributedBlocker`: a finding of no team blocks. -/
def unattributedBlocker (r : Report) : Bool := r.findings.any fun f => f.teams = [] && f.severity = .blocker

/-- One team's score, from its findings. -/
def teamScore (r : Report) (fs : List Finding) : TeamScore :=
  let verdict := if unattributedBlocker r then .blocked else verdictFor fs r.notAssessed
  { score := score fs
    ready := verdict = .ready
    verdict := verdict
    blockers := fs.countP (·.severity = .blocker)
    warnings := fs.countP (·.severity = .warning) }

/-- `TeamScores`. -/
def teamScores (r : Report) : AList fun _ : String => TeamScore := mapRows (teamScore r) (byTeam r)

/-! ## The teams of an answer -/

/-- The rank of `worseVerdict`. -/
def verdictRank : Verdict → ℕ
  | .blocked => 3
  | .unknown => 2
  | .ready => 1

/-- `worseVerdict`: blocked over unknown over ready. -/
def worseVerdict (a b : Verdict) : Verdict := if verdictRank b > verdictRank a then b else a

/-- `mergeTeamScores`: two rows that must share one name. -/
def mergeTeamScores (a b : TeamScore) : TeamScore where
  score := min a.score b.score
  verdict := worseVerdict a.verdict b.verdict
  ready := worseVerdict a.verdict b.verdict = .ready
  blockers := a.blockers + b.blockers
  warnings := a.warnings + b.warnings

/-- `renderTeamScores`: the findings of no team under their name. -/
def renderTeamScores (m : AList fun _ : String => TeamScore) : AList fun _ : String => TeamScore :=
  match m.lookup "" with
  | none => m
  | some ts =>
    let out := m.erase ""
    out.insert unattributedTeam (((out.lookup unattributedTeam).map fun real => mergeTeamScores real ts).getD ts)

/-- Whether a scope reads a team. -/
def reads (sc : ReadScope) (team : String) : Bool := sc.teams.all fun teams => team ∈ teams

/-- `readScope.teamScores`: the scores of the scope's teams. -/
def scopedScores (sc : ReadScope) (m : AList fun _ : String => TeamScore) : AList fun _ : String => TeamScore :=
  keepRows (reads sc) m

/-! ## One cluster's contribution -/

/-- `clusterState`: a cluster and its latest snapshot's head. -/
structure ClusterState where
  /-- The cluster. -/
  id : ℕ
  /-- Its name. -/
  name : String
  /-- Whether an agent pushed. -/
  hasSnapshot : Bool
  /-- The snapshot. -/
  snapshotID : ℕ
  /-- The version it is judged at. -/
  version : String

/-- Why a contribution fails. -/
inductive TeamsErr where
  /-- `errFleetTeamsBudget`. -/
  | budget
  /-- `errReadSlotBusy`. -/
  | slotBusy
  /-- `store.ErrNotFound`. -/
  | notFound
  /-- Any other error. -/
  | other (text : String)
  deriving DecidableEq

/-- A stored evaluation. -/
structure StoredReport where
  /-- The evaluation. -/
  id : ℕ
  /-- When it was last written. -/
  evaluatedAt : Time
  /-- Its snapshot. -/
  snapshotID : ℕ
  /-- Its report, unless it does not decode. -/
  report : Option Report

/-- What is answered while a cluster is visited. -/
structure TeamsWorld where
  /-- The deadline is not past. -/
  inTime : Bool
  /-- `s.now()`, read for each cluster. -/
  now : Time
  /-- `CurrentEvaluationSummary`: the evaluation and when it was last written. -/
  summary : Except TeamsErr (ℕ × Time)
  /-- Why the read slot is not given, if it is not. -/
  slot : Option TeamsErr
  /-- `CurrentEvaluation`. -/
  evaluation : Except TeamsErr StoredReport
  /-- `latestInventory`: the latest snapshot, or `none` where its inventory does not decode. -/
  latest : Except TeamsErr (Option ℕ)
  /-- `evaluateWhatIf`: the report, or `none` where it is too large. -/
  whatIf : Except TeamsErr (Option Report)

/-- `utcDay`. -/
def utcDay (t : Time) : Time := t - t % day

/-- What the server judges with. -/
structure TeamsEnv where
  /-- The knowledge base. -/
  kbVersion : String
  /-- The team map. -/
  teamMapHash : String

/-- The key of a what-if. -/
def whatIfKey (env : TeamsEnv) (now : Time) (snapshotID : ℕ) (target : Version) : FleetTeamsKey :=
  { snapshotID := snapshotID, target := target, day := utcDay now, kbVersion := env.kbVersion, teamMapHash := env.teamMapHash }

/-- The key of a stored evaluation. -/
def storedKey (stored : ℕ × Time) : FleetTeamsKey :=
  { evaluationID := stored.1, evaluatedAt := stored.2, target := ⟨0, 0⟩ }

/-- `excludedNoSnapshot`. -/
def excludedNoSnapshot : String := "no-snapshot"

/-- `excludedTooLarge`. -/
def excludedTooLarge : String := "too-large"

/-- `excludedUnreadable`. -/
def excludedUnreadable : String := "unreadable"

/-- A what-if of the latest snapshot. -/
def computeWhatIf (env : TeamsEnv) (c : ClusterState) (target : Version) (w : TeamsWorld) :
    Except TeamsErr (FleetTeamsKey × FleetTeamsEntry) :=
  match w.latest with
  | .error e => .error e
  | .ok none => .ok (whatIfKey env w.now c.snapshotID target, { excluded := excludedUnreadable })
  | .ok (some snapshotID) =>
    match w.whatIf with
    | .error e => .error e
    | .ok none => .ok (whatIfKey env w.now snapshotID target, { excluded := excludedTooLarge })
    | .ok (some rep) =>
      .ok (whatIfKey env w.now snapshotID target,
        { scores := teamScores rep, src := { source := "what-if", evaluatedAt := w.now, snapshotID := snapshotID } })

/-- A what-if where the stored evaluation was replaced, is gone or is corrupt: a cached one, or a new one. -/
def insteadOfStored (env : TeamsEnv) (c : ClusterState) (target : Version) (w : TeamsWorld) (cache : FleetTeamsCache) :
    Except TeamsErr (FleetTeamsKey × FleetTeamsEntry) :=
  match cache.get (whatIfKey env w.now c.snapshotID target) with
  | some entry => .ok (whatIfKey env w.now c.snapshotID target, entry)
  | none => computeWhatIf env c target w

/-- What is computed in the read slot. -/
def computeEntry (env : TeamsEnv) (c : ClusterState) (target : Version) (w : TeamsWorld) (cache : FleetTeamsCache) :
    Option (ℕ × Time) → Except TeamsErr (FleetTeamsKey × FleetTeamsEntry)
  | none => computeWhatIf env c target w
  | some stored =>
    match w.evaluation with
    | .error .notFound => insteadOfStored env c target w cache
    | .error e => .error e
    | .ok e =>
      if e.id = stored.1 then
        match e.report with
        | some rep =>
          .ok (storedKey stored,
            { scores := teamScores rep, src := { source := "stored", evaluatedAt := e.evaluatedAt, snapshotID := e.snapshotID } })
        | none => insteadOfStored env c target w cache
      else insteadOfStored env c target w cache

/-- A contribution that is not cached is computed in the read slot, and cached. -/
def computeContribution (env : TeamsEnv) (c : ClusterState) (target : Version) (w : TeamsWorld) (cache : FleetTeamsCache)
    (stored : Option (ℕ × Time)) : Except TeamsErr FleetTeamsEntry × FleetTeamsCache :=
  match cache.get ((stored.map storedKey).getD (whatIfKey env w.now c.snapshotID target)) with
  | some entry => (.ok entry, cache)
  | none =>
    match w.slot with
    | some e => (.error e, cache)
    | none =>
      match computeEntry env c target w cache stored with
      | .error e => (.error e, cache)
      | .ok (key, entry) => (.ok entry, (cache.put key entry).getD cache)

/-- `fleetTeamsContribution`. -/
def fleetTeamsContribution (env : TeamsEnv) (c : ClusterState) (target : Version) (w : TeamsWorld) (cache : FleetTeamsCache) :
    Except TeamsErr FleetTeamsEntry × FleetTeamsCache :=
  match w.summary with
  | .ok stored => computeContribution env c target w cache (some stored)
  | .error .notFound => computeContribution env c target w cache none
  | .error e => (.error e, cache)

/-! ## The rollup -/

/-- `fleetTeam`: one team across the fleet. -/
structure FleetTeam where
  /-- The lowest score. -/
  worstScore : ℤ
  /-- The blockers of all clusters. -/
  blockers : ℕ
  /-- The worst verdict. -/
  verdict : Verdict
  /-- The clusters with findings of the team. -/
  clusters : List String

/-- One cluster's score of a team added to the team's row. -/
def addTeam : Option FleetTeam → String × TeamScore → FleetTeam
  | none, (cluster, ts) => { worstScore := ts.score, blockers := ts.blockers, verdict := ts.verdict, clusters := [cluster] }
  | some agg, (cluster, ts) =>
    { worstScore := min agg.worstScore ts.score
      blockers := agg.blockers + ts.blockers
      verdict := worseVerdict agg.verdict ts.verdict
      clusters := agg.clusters ++ [cluster] }

/-- What a rollup has so far, and its answer. -/
structure Rolled where
  /-- The rows. -/
  teams : AList fun _ : String => FleetTeam := ∅
  /-- The clusters that contribute. -/
  evaluated : List FleetTeamsSource := []
  /-- The names of those that are left out. -/
  missing : List String := []
  /-- Why they are left out. -/
  excluded : List (String × ℕ × String) := []
  /-- The names of those that run the target already. -/
  notApplicable : List String := []

/-- `exclude`. -/
def Rolled.exclude (r : Rolled) (c : ClusterState) (reason : String) : Rolled :=
  { r with missing := r.missing ++ [c.name], excluded := r.excluded ++ [(c.name, c.id, reason)] }

/-- A cluster's scores added, as a scope sees them. -/
def Rolled.include (r : Rolled) (sc : ReadScope) (c : ClusterState) (entry : FleetTeamsEntry) : Rolled :=
  { r with
    teams := (renderTeamScores (scopedScores sc entry.scores)).entries.foldl (fun m e => put addTeam m (e.1, c.name, e.2)) r.teams
    evaluated := r.evaluated ++ [{ entry.src with name := c.name, clusterID := c.id }] }

/-- `notApplicable`: the cluster runs the target or a later version. -/
def notApplicable (X : External) (version : String) (target : Version) : Bool :=
  match parseVersion X version with
  | .ok server => target.le server
  | .error _ => false

/-- One turn of the loop of `handleFleetTeams`. -/
def visit (X : External) (env : TeamsEnv) (sc : ReadScope) (target : Version) (r : Rolled) (cache : FleetTeamsCache)
    (c : ClusterState) (w : TeamsWorld) : Except TeamsErr Rolled × FleetTeamsCache :=
  if !c.hasSnapshot then (.ok (r.exclude c excludedNoSnapshot), cache)
  else if notApplicable X c.version target then (.ok { r with notApplicable := r.notApplicable ++ [c.name] }, cache)
  else if !w.inTime then (.error .budget, cache)
  else
    match fleetTeamsContribution env c target w cache with
    | (.error .notFound, cache) => (.ok (r.exclude c excludedUnreadable), cache)
    | (.error e, cache) => (.error e, cache)
    | (.ok entry, cache) =>
      if entry.excluded ≠ "" then (.ok (r.exclude c entry.excluded), cache) else (.ok (r.include sc c entry), cache)

/-- The loop of `handleFleetTeams`: an error ends it, and what was cached stays. -/
def rollClusters (X : External) (env : TeamsEnv) (sc : ReadScope) (target : Version) :
    Rolled → FleetTeamsCache → List (ClusterState × TeamsWorld) → Except TeamsErr Rolled × FleetTeamsCache
  | r, cache, [] => (.ok r, cache)
  | r, cache, (c, w) :: rest =>
    match visit X env sc target r cache c w with
    | (.error e, cache) => (.error e, cache)
    | (.ok r, cache) => rollClusters X env sc target r cache rest

/-- A request, with what is answered while it runs. -/
structure TeamsRequest where
  /-- What the server judges with. -/
  env : TeamsEnv
  /-- The caller's scope. -/
  scope : ReadScope
  /-- The target. -/
  target : Version
  /-- The clusters of the scope. -/
  clusters : List (ClusterState × TeamsWorld)

/-- `handleFleetTeams`: the rows with their clusters sorted. -/
def handleFleetTeams (X : External) (cache : FleetTeamsCache) (req : TeamsRequest) : Except TeamsErr Rolled × FleetTeamsCache :=
  match rollClusters X req.env req.scope req.target {} cache req.clusters with
  | (.error e, cache) => (.error e, cache)
  | (.ok r, cache) =>
    (.ok { r with teams := mapRows (fun t : FleetTeam => { t with clusters := Sorting.sorted t.clusters }) r.teams }, cache)

/-- The cache after some requests. -/
def cacheAfter (X : External) (reqs : List TeamsRequest) : FleetTeamsCache :=
  reqs.foldl (fun cache req => (handleFleetTeams X cache req).2) {}

/-! ## The scores of a team -/

/-- The findings that count for a team, in their order. -/
def teamFindings (r : Report) (team : String) : List Finding :=
  r.findings.flatMap fun f => ((teamsOf f).filter (· = team)).map fun _ => f

variable {team : String} {r : Report} {a b : Verdict} {m : AList fun _ : String => TeamScore}

/-- The findings that count for a team are those of the report that name it. -/
theorem mem_teamFindings {f : Finding} :
    f ∈ teamFindings r team ↔ f ∈ r.findings ∧ team ∈ teamsOf f := by
  simp only [teamFindings, List.mem_flatMap, List.mem_map, List.mem_filter, decide_eq_true_eq]
  constructor
  · rintro ⟨g, hg, t, ⟨ht, rfl⟩, rfl⟩
    exact ⟨hg, ht⟩
  · rintro ⟨hf, ht⟩
    exact ⟨f, hf, team, ⟨ht, rfl⟩, rfl⟩

/-- `TeamScores` has a team if a finding counts for it, and scores those findings. -/
theorem lookup_teamScores (r : Report) (team : String) :
    (teamScores r).lookup team = if teamFindings r team = [] then none else some (teamScore r (teamFindings r team)) := by
  have hpairs : (((r.findings.flatMap fun f => (teamsOf f).map fun team => (team, f)).filter (·.1 = team)).map Prod.snd) =
      teamFindings r team := by
    rw [teamFindings, List.filter_flatMap, List.map_flatMap]
    simp only [List.filter_map, List.map_map]
    rfl
  have hrow : ∀ (fs : List Finding), row (fun fs f => fs.getD [] ++ [f]) none fs = if fs = [] then none else some fs := by
    intro fs
    split_ifs with h
    · rw [h]
      rfl
    · obtain ⟨b, hb⟩ := Option.isSome_iff_exists.mp ((row_isSome _ fs).mpr h)
      rw [hb]
      congr 1
      refine row_induction (P := fun l b => b = l) (fun a => rfl) (fun l a b hb => ?_) hb
      rw [hb, Option.getD_some]
  rw [teamScores, lookup_mapRows, byTeam, lookup_rollup, hpairs, AList.lookup_empty, hrow]
  split_ifs <;> rfl

/-- A blocker that concerns a team: its own, or one of no team. -/
def Concerns (team : String) (r : Report) : Prop :=
  ∃ f ∈ r.findings, f.severity = .blocker ∧ (team ∈ teamsOf f ∨ f.teams = [])

/-- A finding of no team that blocks. -/
theorem unattributedBlocker_iff :
    unattributedBlocker r = true ↔ ∃ f ∈ r.findings, f.teams = [] ∧ f.severity = .blocker := by
  simp [unattributedBlocker]

/-- A team is blocked by a blocker that concerns it. -/
theorem teamScore_blocked :
    (teamScore r (teamFindings r team)).verdict = .blocked ↔ Concerns team r := by
  have hverdict : (teamScore r (teamFindings r team)).verdict =
      if unattributedBlocker r then .blocked else verdictFor (teamFindings r team) r.notAssessed := rfl
  rw [hverdict, Concerns]
  split_ifs with h
  · obtain ⟨f, hf, hteams, hblocker⟩ := unattributedBlocker_iff.mp h
    exact iff_of_true rfl ⟨f, hf, hblocker, .inr hteams⟩
  · rw [verdictFor_eq_blocked]
    constructor
    · rintro ⟨f, hf, hblocker⟩
      obtain ⟨hf, hteam⟩ := mem_teamFindings.mp hf
      exact ⟨f, hf, hblocker, .inl hteam⟩
    · rintro ⟨f, hf, hblocker, hteam | hnone⟩
      · exact ⟨f, mem_teamFindings.mpr ⟨hf, hteam⟩, hblocker⟩
      · exact absurd (unattributedBlocker_iff.mpr ⟨f, hf, hnone, hblocker⟩) h

/-- A team's verdict is ready if no blocker concerns the team and no required check is missing. -/
theorem teamScore_ready :
    (teamScore r (teamFindings r team)).verdict = .ready ↔ ¬ Concerns team r ∧ ∀ g ∈ r.notAssessed, g.required = false := by
  rw [← teamScore_blocked]
  have hverdict : (teamScore r (teamFindings r team)).verdict =
      if unattributedBlocker r then .blocked else verdictFor (teamFindings r team) r.notAssessed := rfl
  rw [hverdict, verdictFor]
  split_ifs with h hblocker hgap
  · simp
  · simp
  · simp only [not_false_eq_true, true_and, false_iff, not_forall]
    obtain ⟨g, hg, hrequired⟩ := List.any_eq_true.mp hgap
    exact ⟨g, hg, by simp [hrequired]⟩
  · simp only [not_false_eq_true, true_and, true_iff]
    intro g hg
    by_contra hrequired
    exact hgap (List.any_eq_true.mpr ⟨g, hg, by simpa using hrequired⟩)

/-! ## Verdicts -/

/-- The worse of two verdicts is blocked if one of them is. -/
theorem worseVerdict_blocked : worseVerdict a b = .blocked ↔ a = .blocked ∨ b = .blocked := by
  cases a <;> cases b <;> decide

/-- The worse of two verdicts is ready if both are. -/
theorem worseVerdict_ready : worseVerdict a b = .ready ↔ a = .ready ∧ b = .ready := by
  cases a <;> cases b <;> decide

/-- What a team's row says of its clusters' scores. -/
structure RowOf (l : List (String × TeamScore)) (t : FleetTeam) : Prop where
  /-- It is blocked if it is in one of them. -/
  blocked : t.verdict = .blocked ↔ ∃ p ∈ l, p.2.verdict = .blocked
  /-- It is ready if it is in all of them. -/
  ready : t.verdict = .ready ↔ ∀ p ∈ l, p.2.verdict = .ready
  /-- No score is lower, -/
  worst : ∀ p ∈ l, t.worstScore ≤ p.2.score
  /-- and one is as low. -/
  attained : ∃ p ∈ l, p.2.score = t.worstScore
  /-- The blockers of all of them. -/
  blockers : t.blockers = (l.map fun p => p.2.blockers).sum
  /-- The clusters. -/
  clusters : t.clusters = l.map Prod.fst

/-- A row is made so, score by score. -/
theorem rowOf_row {l : List (String × TeamScore)} {t : FleetTeam} (h : row addTeam none l = some t) : RowOf l t := by
  refine row_induction (P := RowOf) (fun p => ?_) (fun l p t ht => ?_) h
  · exact ⟨by simp [addTeam], by simp [addTeam], by simp [addTeam], by simp [addTeam], by simp [addTeam], by simp [addTeam]⟩
  · obtain ⟨cluster, ts⟩ := p
    have hadd : addTeam (some t) (cluster, ts) =
        ⟨min t.worstScore ts.score, t.blockers + ts.blockers, worseVerdict t.verdict ts.verdict, t.clusters ++ [cluster]⟩ := rfl
    rw [hadd]
    refine ⟨?_, ?_, ?_, ?_, ?_, ?_⟩
    · simp only [worseVerdict_blocked, ht.blocked, List.mem_append, List.mem_singleton, or_and_right, exists_or, exists_eq_left]
    · simp only [worseVerdict_ready, ht.ready, List.forall_mem_append, List.forall_mem_singleton]
    · intro p hp
      rw [List.mem_append, List.mem_singleton] at hp
      obtain hp | rfl := hp
      · exact (min_le_left ..).trans (ht.worst p hp)
      · exact min_le_right ..
    · obtain ⟨p, hp, hscore⟩ := ht.attained
      dsimp only
      obtain hle | hle := le_total t.worstScore ts.score
      · exact ⟨p, List.mem_append_left _ hp, by rw [hscore, min_eq_left hle]⟩
      · exact ⟨(cluster, ts), by simp, (min_eq_right hle).symm⟩
    · simp [ht.blockers]
    · simp [ht.clusters]

/-! ## What a cluster shows of a team -/

/-- A name that is a team's own. -/
def IsTeam (team : String) : Prop := team ≠ "" ∧ team ≠ unattributedTeam

/-- A team's scores are shown under its name. -/
theorem lookup_renderTeamScores (h : IsTeam team) :
    (renderTeamScores m).lookup team = m.lookup team := by
  unfold renderTeamScores
  split
  · rfl
  · rw [AList.lookup_insert_ne h.2, AList.lookup_erase_ne h.1]

/-- The name that a team is shown under. -/
def shownAs (team : String) : String := if team = "" then unattributedTeam else team

/-- A blocked team is shown blocked, whatever else is under the name. -/
theorem blocked_renderTeamScores {ts : TeamScore} (hlookup : m.lookup team = some ts) (hblocked : ts.verdict = .blocked) :
    ∃ shown, (renderTeamScores m).lookup (shownAs team) = some shown ∧ shown.verdict = .blocked := by
  unfold renderTeamScores shownAs
  cases hnone : m.lookup "" with
  | none =>
    have hteam : team ≠ "" := by
      rintro rfl
      rw [hnone] at hlookup
      simp at hlookup
    rw [if_neg hteam]
    exact ⟨ts, hlookup, hblocked⟩
  | some none' =>
    dsimp only
    by_cases hteam : team = ""
    · subst hteam
      obtain rfl : none' = ts := Option.some.inj (hnone.symm.trans hlookup)
      rw [if_pos rfl, AList.lookup_insert]
      refine ⟨_, rfl, ?_⟩
      cases (m.erase "").lookup unattributedTeam with
      | none => exact hblocked
      | some real => exact worseVerdict_blocked.mpr (.inr hblocked)
    · rw [if_neg hteam]
      by_cases hname : team = unattributedTeam
      · subst hname
        rw [AList.lookup_insert, AList.lookup_erase_ne hteam, hlookup]
        exact ⟨_, rfl, worseVerdict_blocked.mpr (.inl hblocked)⟩
      · rw [AList.lookup_insert_ne hname, AList.lookup_erase_ne hteam]
        exact ⟨ts, hlookup, hblocked⟩

/-- What a cluster's report shows to a scope. -/
def shown (sc : ReadScope) (r : Report) : AList fun _ : String => TeamScore := renderTeamScores (scopedScores sc (teamScores r))

/-- A scope sees a team of its own that the report has findings of. -/
theorem lookup_shown {sc : ReadScope} (h : IsTeam team) :
    (shown sc r).lookup team =
      if reads sc team ∧ teamFindings r team ≠ [] then some (teamScore r (teamFindings r team)) else none := by
  rw [shown, lookup_renderTeamScores h, scopedScores, lookup_keepRows, lookup_teamScores]
  by_cases hreads : reads sc team = true <;> by_cases hnone : teamFindings r team = [] <;> simp [hreads, hnone]

/-! ## The cache -/

/-- A report that is answered while a cluster is visited. -/
def TeamsWorld.Gives (w : TeamsWorld) (r : Report) : Prop :=
  (∃ e, w.evaluation = .ok e ∧ e.report = some r) ∨ w.whatIf = .ok (some r)

section Sound

variable {A : Report → Prop}

/-- An entry that leaves its cluster out, or has the team scores of a report of some kind. -/
def Sound (A : Report → Prop) (e : FleetTeamsEntry) : Prop := e.excluded = "" → ∃ r, A r ∧ e.scores = teamScores r

/-- A cache that such entries were put into. -/
def SoundCache (A : Report → Prop) (c : FleetTeamsCache) : Prop :=
  ∃ calls, Kept calls c ∧ ∀ k e, Call.put k e ∈ calls → Sound A e

/-- The empty cache is sound. -/
theorem SoundCache.empty : SoundCache A {} := by
  refine ⟨[], ⟨.empty, Books.empty.not_over_of_nil rfl, fun k => .inl rfl⟩, ?_⟩
  simp

variable {entry e : FleetTeamsEntry}

/-- An entry that a sound cache has is sound. -/
theorem SoundCache.get {c : FleetTeamsCache} (h : SoundCache A c) {k : FleetTeamsKey} (hget : c.get k = some e) :
    Sound A e := by
  obtain ⟨calls, hkept, hcalls⟩ := h
  obtain hnone | hlast := hkept.last k
  · rw [hget] at hnone
    simp at hnone
  · rw [hget, lastPut, eq_comm, List.findSome?_eq_some_iff] at hlast
    obtain ⟨before, call, after', hsplit, hputs, -⟩ := hlast
    have hmem : call ∈ calls := by
      have hmem : call ∈ (calls.filter (·.Fits)).reverse := by
        rw [hsplit]
        simp
      exact List.mem_of_mem_filter (List.mem_reverse.mp hmem)
    cases call with
    | get k' => simp [Call.puts] at hputs
    | put k' e' =>
      simp only [Call.puts] at hputs
      split_ifs at hputs
      rw [← Option.some.inj hputs]
      exact hcalls k' e' hmem

/-- A sound cache with one more sound entry is sound. -/
theorem SoundCache.put {c : FleetTeamsCache} (h : SoundCache A c) (k : FleetTeamsKey) (he : Sound A e) :
    SoundCache A ((c.put k e).getD c) := by
  obtain ⟨calls, hkept, hcalls⟩ := h
  obtain ⟨c', hrun, hkept'⟩ := hkept.call (.put k e)
  have hput : c.put k e = some c' := hrun
  rw [hput, Option.getD_some]
  refine ⟨calls ++ [.put k e], hkept', fun k' e' hmem => ?_⟩
  rw [List.mem_append, List.mem_singleton] at hmem
  obtain hmem | heq := hmem
  · exact hcalls k' e' hmem
  · cases heq
    exact he

variable {env : TeamsEnv} {c : ClusterState} {target : Version} {w : TeamsWorld} {cache : FleetTeamsCache}

/-- A what-if is sound. -/
theorem sound_computeWhatIf (hw : ∀ r, w.Gives r → A r) {key : FleetTeamsKey}
    (h : computeWhatIf env c target w = .ok (key, entry)) : Sound A entry := by
  unfold computeWhatIf at h
  split at h
  · simp at h
  · cases h
    exact fun hnot => absurd hnot (by decide)
  · split at h
    · simp at h
    · cases h
      exact fun hnot => absurd hnot (by decide)
    · rename_i r hr
      cases h
      exact fun _ => ⟨r, hw r (.inr hr), rfl⟩

/-- The what-if that stands in for a stored evaluation is sound. -/
theorem sound_insteadOfStored (hw : ∀ r, w.Gives r → A r) (hcache : SoundCache A cache) {key : FleetTeamsKey}
    (h : insteadOfStored env c target w cache = .ok (key, entry)) : Sound A entry := by
  unfold insteadOfStored at h
  split at h
  · rename_i e hget
    cases h
    exact hcache.get hget
  · exact sound_computeWhatIf hw h

/-- What is computed in the read slot is sound. -/
theorem sound_computeEntry (hw : ∀ r, w.Gives r → A r) (hcache : SoundCache A cache) {stored : Option (ℕ × Time)}
    {key : FleetTeamsKey} (h : computeEntry env c target w cache stored = .ok (key, entry)) :
    Sound A entry := by
  cases stored with
  | none => exact sound_computeWhatIf hw h
  | some stored =>
    simp only [computeEntry] at h
    split at h
    · exact sound_insteadOfStored hw hcache h
    · simp at h
    · rename_i e he
      split_ifs at h with hid
      · split at h
        · rename_i r hr
          cases h
          exact fun _ => ⟨r, hw r (.inl ⟨e, he, hr⟩), rfl⟩
        · exact sound_insteadOfStored hw hcache h
      · exact sound_insteadOfStored hw hcache h

/-- A contribution is sound, and so is the cache after it. -/
theorem sound_computeContribution (hw : ∀ r, w.Gives r → A r) (hcache : SoundCache A cache) (stored : Option (ℕ × Time)) :
    SoundCache A (computeContribution env c target w cache stored).2 ∧
      ∀ entry, (computeContribution env c target w cache stored).1 = .ok entry → Sound A entry := by
  unfold computeContribution
  split
  · rename_i e hget
    refine ⟨hcache, fun entry h => ?_⟩
    cases h
    exact hcache.get hget
  · split
    · exact ⟨hcache, fun entry h => by simp at h⟩
    · split
      · exact ⟨hcache, fun entry h => by simp at h⟩
      · rename_i key e he
        have hsound := sound_computeEntry hw hcache he
        refine ⟨hcache.put key hsound, fun entry h => ?_⟩
        cases h
        exact hsound

/-- Whether an evaluation is stored or not. -/
theorem sound_fleetTeamsContribution (hw : ∀ r, w.Gives r → A r) (hcache : SoundCache A cache) :
    SoundCache A (fleetTeamsContribution env c target w cache).2 ∧
      ∀ entry, (fleetTeamsContribution env c target w cache).1 = .ok entry → Sound A entry := by
  unfold fleetTeamsContribution
  split
  · exact sound_computeContribution hw hcache _
  · exact sound_computeContribution hw hcache none
  · exact ⟨hcache, fun entry h => by simp at h⟩

end Sound

/-! ## The clusters of a rollup -/

/-- What some clusters' reports contribute, in their order. -/
def contributed (sc : ReadScope) (reports : List (String × Report)) : List (String × String × TeamScore) :=
  reports.flatMap fun p => (shown sc p.2).entries.map fun e => (e.1, p.1, e.2)

/-- The contributions of some clusters' reports to one team. -/
theorem contributed_team (sc : ReadScope) (reports : List (String × Report)) (team : String) :
    ((contributed sc reports).filter (·.1 = team)).map Prod.snd =
      reports.flatMap fun p => ((shown sc p.2).lookup team).toList.map fun ts => (p.1, ts) := by
  rw [contributed, List.filter_flatMap, List.map_flatMap]
  refine List.flatMap_congr fun p _ => ?_
  rw [← filter_entries, List.filter_map, List.map_map, List.map_map]
  rfl

/-- How far a rollup is: some clusters are visited, some of them contribute, and the rest are named elsewhere. -/
structure RolledOf (A : Report → Prop) (sc : ReadScope) (visited : List ClusterState) (reports : List (String × Report))
    (r : Rolled) : Prop where
  /-- The rows are what the reports contribute. -/
  teams : r.teams = rollup addTeam ∅ (contributed sc reports)
  /-- The reports are those of the clusters that are said to be evaluated. -/
  evaluated : r.evaluated.map (·.name) = reports.map Prod.fst
  /-- They are reports of that kind. -/
  given : ∀ p ∈ reports, A p.2
  /-- Every cluster is in one of the lists. -/
  placed : (r.evaluated.map (·.name) ++ r.missing ++ r.notApplicable).Perm (visited.map (·.name))

section Visits

variable {A : Report → Prop} {sc : ReadScope} {visited : List ClusterState} {reports : List (String × Report)} {r : Rolled}

/-- A rollup that leaves one more cluster out is of the same reports. -/
theorem RolledOf.exclude (h : RolledOf A sc visited reports r) (c : ClusterState) (reason : String) :
    RolledOf A sc (visited ++ [c]) reports (r.exclude c reason) := by
  refine ⟨h.teams, h.evaluated, h.given, ?_⟩
  have hplaced := h.placed.append_right [c.name]
  rw [List.map_append, List.map_singleton]
  refine List.Perm.trans ?_ hplaced
  simp only [Rolled.exclude, List.append_assoc]
  exact (List.perm_append_comm.append_left _).append_left _

/-- A rollup with one more cluster that runs the target is of the same reports. -/
theorem RolledOf.notApplicable (h : RolledOf A sc visited reports r) (c : ClusterState) :
    RolledOf A sc (visited ++ [c]) reports { r with notApplicable := r.notApplicable ++ [c.name] } := by
  refine ⟨h.teams, h.evaluated, h.given, ?_⟩
  rw [List.map_append, List.map_singleton, ← List.append_assoc]
  exact h.placed.append_right [c.name]

/-- A rollup with the scores of one more cluster is of one more report. -/
theorem RolledOf.include (h : RolledOf A sc visited reports r) (c : ClusterState) {entry : FleetTeamsEntry} {rep : Report}
    (hrep : A rep) (hscores : entry.scores = teamScores rep) :
    RolledOf A sc (visited ++ [c]) (reports ++ [(c.name, rep)]) (r.include sc c entry) := by
  refine ⟨?_, ?_, ?_, ?_⟩
  · have hsplit : contributed sc (reports ++ [(c.name, rep)]) =
        contributed sc reports ++ (shown sc rep).entries.map fun e => (e.1, c.name, e.2) := by
      simp [contributed]
    rw [hsplit, rollup, List.foldl_append, List.foldl_map]
    change ((renderTeamScores (scopedScores sc entry.scores)).entries.foldl _ r.teams) = _
    rw [hscores, h.teams]
    rfl
  · simp [Rolled.include, h.evaluated]
  · exact List.forall_mem_append.mpr ⟨h.given, List.forall_mem_singleton.mpr hrep⟩
  · have hplaced := h.placed.append_right [c.name]
    rw [List.map_append, List.map_singleton]
    refine List.Perm.trans ?_ hplaced
    simp only [Rolled.include, List.map_append, List.map_singleton, List.append_assoc]
    exact (List.perm_append_comm.trans (by rw [List.append_assoc])).append_left _

variable {X : External} {env : TeamsEnv} {target : Version} {cache : FleetTeamsCache}

/-- One turn of the loop places its cluster. -/
theorem RolledOf.visit (h : RolledOf A sc visited reports r) (hcache : SoundCache A cache) (c : ClusterState) {w : TeamsWorld}
    (hw : ∀ rep, w.Gives rep → A rep) :
    SoundCache A (visit X env sc target r cache c w).2 ∧
      ∀ r', (visit X env sc target r cache c w).1 = .ok r' → ∃ reports', RolledOf A sc (visited ++ [c]) reports' r' := by
  unfold FleetTeams.visit
  split_ifs with hsnapshot hruns htime
  · refine ⟨hcache, fun r' hr' => ?_⟩
    cases hr'
    exact ⟨reports, h.exclude c _⟩
  · refine ⟨hcache, fun r' hr' => ?_⟩
    cases hr'
    exact ⟨reports, h.notApplicable c⟩
  · exact ⟨hcache, fun r' hr' => by simp at hr'⟩
  · obtain ⟨hcache', hentry⟩ := @sound_fleetTeamsContribution A env c target w cache hw hcache
    split
    · rename_i cache' heq
      rw [heq] at hcache'
      refine ⟨hcache', fun r' hr' => ?_⟩
      cases hr'
      exact ⟨reports, h.exclude c _⟩
    · rename_i e cache' _ heq
      rw [heq] at hcache'
      exact ⟨hcache', fun r' hr' => by simp at hr'⟩
    · rename_i entry cache' heq
      rw [heq] at hcache' hentry
      split_ifs with hexcluded
      · refine ⟨hcache', fun r' hr' => ?_⟩
        cases hr'
        exact ⟨reports, h.exclude c _⟩
      · refine ⟨hcache', fun r' hr' => ?_⟩
        cases hr'
        obtain ⟨rep, hrep, hscores⟩ := hentry entry rfl (not_not.mp hexcluded)
        exact ⟨_, h.include c hrep hscores⟩

/-- The loop places every cluster. -/
theorem RolledOf.clusters (h : RolledOf A sc visited reports r) (hcache : SoundCache A cache)
    (l : List (ClusterState × TeamsWorld)) (hl : ∀ p ∈ l, ∀ rep, p.2.Gives rep → A rep) :
    SoundCache A (rollClusters X env sc target r cache l).2 ∧
      ∀ r', (rollClusters X env sc target r cache l).1 = .ok r' →
        ∃ reports', RolledOf A sc (visited ++ l.map Prod.fst) reports' r' := by
  induction l generalizing r cache visited reports with
  | nil =>
    refine ⟨hcache, fun r' hr' => ?_⟩
    cases hr'
    exact ⟨reports, by simpa using h⟩
  | cons p l ih =>
    obtain ⟨c, w⟩ := p
    rw [List.forall_mem_cons] at hl
    obtain ⟨hcache', hvisit⟩ := @RolledOf.visit A sc visited reports r X env target cache h hcache c w hl.1
    unfold rollClusters
    split
    · rename_i e cache' heq
      rw [heq] at hcache'
      exact ⟨hcache', fun r' hr' => by simp at hr'⟩
    · rename_i r₁ cache' heq
      rw [heq] at hcache' hvisit
      obtain ⟨reports₁, h₁⟩ := hvisit r₁ rfl
      obtain ⟨hcache₂, hrest⟩ := ih h₁ hcache' hl.2
      refine ⟨hcache₂, fun r' hr' => ?_⟩
      obtain ⟨reports', h'⟩ := hrest r' hr'
      exact ⟨reports', by simpa using h'⟩

end Visits

/-! ## Requests -/

/-- The reports that are answered during some requests. -/
def Answered (reqs : List TeamsRequest) (rep : Report) : Prop := ∃ req ∈ reqs, ∃ p ∈ req.clusters, p.2.Gives rep

/-- The cache after some requests has their reports' scores. -/
theorem soundCache_cacheAfter (X : External) (reqs more : List TeamsRequest) :
    SoundCache (Answered (reqs ++ more)) (cacheAfter X reqs) := by
  induction reqs using List.reverseRecOn generalizing more with
  | nil => exact .empty
  | append_singleton reqs req ih =>
    have hcache := ih ([req] ++ more)
    rw [← List.append_assoc] at hcache
    have hstart : RolledOf (Answered (reqs ++ [req] ++ more)) req.scope [] [] {} := ⟨rfl, rfl, by simp, .nil⟩
    have hgives : ∀ p ∈ req.clusters, ∀ rep, p.2.Gives rep → Answered (reqs ++ [req] ++ more) rep :=
      fun p hp rep hrep => ⟨req, by simp, p, hp, hrep⟩
    have hroll := (@RolledOf.clusters _ _ _ _ _ X req.env req.target _ hstart hcache req.clusters hgives).1
    rw [cacheAfter, List.foldl_append]
    change SoundCache _ (handleFleetTeams X (cacheAfter X reqs) req).2
    unfold handleFleetTeams
    split <;> rename_i heq <;> rw [heq] at hroll <;> exact hroll

/-- What a team's row says of the reports that have findings of the team. -/
structure SaysOf (team : String) (own : List (String × Report)) (t : FleetTeam) : Prop where
  /-- It is blocked if a blocker concerns the team in one of them. -/
  blocked : t.verdict = .blocked ↔ ∃ p ∈ own, Concerns team p.2
  /-- It is ready if none does, and no required check is missing. -/
  ready : t.verdict = .ready ↔ ∀ p ∈ own, ¬ Concerns team p.2 ∧ ∀ g ∈ p.2.notAssessed, g.required = false
  /-- The score is the lowest of the team's. -/
  worst : (∀ p ∈ own, t.worstScore ≤ score (teamFindings p.2 team)) ∧ ∃ p ∈ own, score (teamFindings p.2 team) = t.worstScore
  /-- The blockers are all of the team's. -/
  blockers : t.blockers = (own.map fun p => (teamFindings p.2 team).countP (·.severity = .blocker)).sum
  /-- The clusters are named in order. -/
  clusters : t.clusters = Sorting.sorted (own.map Prod.fst)

/-- The clusters of a team with what they say of it, where the scope reads the team. -/
theorem shown_of_team {sc : ReadScope} {team : String} (hteam : IsTeam team) (hreads : reads sc team = true)
    (reports : List (String × Report)) :
    (reports.flatMap fun p => ((shown sc p.2).lookup team).toList.map fun ts => (p.1, ts)) =
      (reports.filter fun p => teamFindings p.2 team ≠ []).map fun p => (p.1, teamScore p.2 (teamFindings p.2 team)) := by
  induction reports with
  | nil => rfl
  | cons p reports ih =>
    rw [List.flatMap_cons, ih, lookup_shown hteam]
    by_cases hnone : teamFindings p.2 team = []
    · rw [if_neg (by simp [hnone]), List.filter_cons_of_neg (by simp [hnone])]
      rfl
    · rw [if_pos ⟨hreads, hnone⟩, List.filter_cons_of_pos (by simp [hnone])]
      rfl

/-- Nothing is shown of a team that the scope does not read. -/
theorem not_shown_of_team {sc : ReadScope} {team : String} (hteam : IsTeam team) (hreads : ¬ reads sc team = true)
    (reports : List (String × Report)) :
    (reports.flatMap fun p => ((shown sc p.2).lookup team).toList.map fun ts => (p.1, ts)) = [] := by
  rw [List.flatMap_eq_nil_iff]
  intro p _
  rw [lookup_shown hteam, if_neg fun hand => hreads hand.1]
  rfl

/-- The rows of an answer are those of the rollup, their clusters sorted. -/
theorem lookup_sortedRows (teams : AList fun _ : String => FleetTeam) (team : String) :
    (mapRows (fun t : FleetTeam => { t with clusters := Sorting.sorted t.clusters }) teams).lookup team =
      (teams.lookup team).map fun t => { t with clusters := Sorting.sorted t.clusters } := lookup_mapRows _ teams team

/-- A row over the clusters of a team says what their reports say. -/
theorem RowOf.saysOf {team : String} {own : List (String × Report)} {t : FleetTeam}
    (h : RowOf (own.map fun p => (p.1, teamScore p.2 (teamFindings p.2 team))) t) :
    SaysOf team own { t with clusters := Sorting.sorted t.clusters } := by
  refine ⟨?_, ?_, ⟨fun p hp => ?_, ?_⟩, ?_, ?_⟩
  · rw [h.blocked]
    simp only [List.mem_map, exists_exists_and_eq_and, teamScore_blocked]
  · rw [h.ready]
    simp only [List.forall_mem_map, teamScore_ready]
  · exact h.worst _ (List.mem_map_of_mem hp)
  · obtain ⟨q, hq, hscore⟩ := h.attained
    obtain ⟨p, hp, rfl⟩ := List.mem_map.mp hq
    exact ⟨p, hp, hscore⟩
  · rw [h.blockers, List.map_map]
    rfl
  · dsimp only
    rw [h.clusters, List.map_map]
    rfl

/-- The rollup of the fleet's teams hides nothing. After any requests, whatever the store answered and the cache kept, an
answer places every cluster in one of its lists; the clusters it calls evaluated contribute a report that was answered; a
team that the caller reads has a row if one of those reports has a finding of it, and the row says what those reports say;
and a caller who reads the whole fleet sees a blocked row, with the cluster's name, for every cluster that a finding blocks. -/
theorem fleet_teams_hide_nothing (X : External) (reqs : List TeamsRequest) (req : TeamsRequest) (r : Rolled)
    (h : (handleFleetTeams X (cacheAfter X reqs) req).1 = .ok r) :
    (r.evaluated.map (·.name) ++ r.missing ++ r.notApplicable).Perm (req.clusters.map fun p => p.1.name) ∧
    ∃ reports : List (String × Report), r.evaluated.map (·.name) = reports.map Prod.fst ∧
      (∀ p ∈ reports, Answered (reqs ++ [req]) p.2) ∧
      (∀ team, IsTeam team →
        ((r.teams.lookup team).isSome ↔ reads req.scope team = true ∧ ∃ p ∈ reports, teamFindings p.2 team ≠ []) ∧
        ∀ t, r.teams.lookup team = some t → SaysOf team (reports.filter fun p => teamFindings p.2 team ≠ []) t) ∧
      (req.scope.teams = none → ∀ p ∈ reports, (∃ f ∈ p.2.findings, f.severity = .blocker) →
        ∃ team t, r.teams.lookup team = some t ∧ t.verdict = .blocked ∧ p.1 ∈ t.clusters) := by
  have hcache := soundCache_cacheAfter X reqs [req]
  have hstart : RolledOf (Answered (reqs ++ [req])) req.scope [] [] {} := ⟨rfl, rfl, by simp, .nil⟩
  have hgives : ∀ p ∈ req.clusters, ∀ rep, p.2.Gives rep → Answered (reqs ++ [req]) rep :=
    fun p hp rep hrep => ⟨req, by simp, p, hp, hrep⟩
  have hroll := (@RolledOf.clusters _ _ _ _ _ X req.env req.target _ hstart hcache req.clusters hgives).2
  unfold handleFleetTeams at h
  split at h
  · simp at h
  rename_i r₀ cache' heq
  cases h
  rw [heq] at hroll
  obtain ⟨reports, hof⟩ := hroll r₀ rfl
  have hrow : ∀ team, r₀.teams.lookup team =
      row addTeam none (reports.flatMap fun p => ((shown req.scope p.2).lookup team).toList.map fun ts => (p.1, ts)) := by
    intro team
    rw [hof.teams, lookup_rollup, AList.lookup_empty, contributed_team]
  refine ⟨?_, reports, hof.evaluated, hof.given, fun team hteam => ⟨?_, fun t ht => ?_⟩, fun hfleet p hp hblocker => ?_⟩
  · have hplaced := hof.placed
    rwa [List.nil_append, List.map_map] at hplaced
  · rw [lookup_sortedRows, Option.isSome_map, hrow]
    by_cases hreads : reads req.scope team = true
    · rw [shown_of_team hteam hreads, row_isSome]
      simp [hreads, List.filter_eq_nil_iff]
    · rw [not_shown_of_team hteam hreads]
      simp [row, hreads]
  · rw [lookup_sortedRows, hrow, Option.map_eq_some_iff] at ht
    obtain ⟨t₀, ht₀, rfl⟩ := ht
    by_cases hreads : reads req.scope team = true
    · rw [shown_of_team hteam hreads] at ht₀
      exact (rowOf_row ht₀).saysOf
    · rw [not_shown_of_team hteam hreads] at ht₀
      simp [row] at ht₀
  · -- The blocker's team, or its first one, is blocked in the cluster, and shown so.
    obtain ⟨f, hf, hsev⟩ := hblocker
    obtain ⟨team, hteam⟩ : ∃ team, team ∈ teamsOf f := by
      unfold teamsOf
      split_ifs with hnone
      · exact ⟨"", by simp⟩
      · exact List.exists_mem_of_ne_nil _ hnone
    have hfindings : teamFindings p.2 team ≠ [] := List.ne_nil_of_mem (mem_teamFindings.mpr ⟨hf, hteam⟩)
    have hscores : (scopedScores req.scope (teamScores p.2)).lookup team =
        some (teamScore p.2 (teamFindings p.2 team)) := by
      rw [scopedScores, lookup_keepRows, if_pos (by simp [reads, hfleet]), lookup_teamScores, if_neg hfindings]
    obtain ⟨ts, hshown, hblocked⟩ :=
      blocked_renderTeamScores hscores (teamScore_blocked.mpr ⟨f, hf, hsev, .inl hteam⟩)
    have hmem : (p.1, ts) ∈ reports.flatMap fun p => ((shown req.scope p.2).lookup (shownAs team)).toList.map fun ts => (p.1, ts) := by
      refine List.mem_flatMap.mpr ⟨p, hp, List.mem_map.mpr ⟨ts, ?_, rfl⟩⟩
      rw [shown, hshown]
      simp
    obtain ⟨t, ht⟩ := Option.isSome_iff_exists.mp ((row_isSome addTeam _).mpr (List.ne_nil_of_mem hmem))
    have hrowOf := rowOf_row ht
    refine ⟨shownAs team, { t with clusters := Sorting.sorted t.clusters }, ?_, ?_, ?_⟩
    · rw [lookup_sortedRows, hrow, ht]
      rfl
    · exact hrowOf.blocked.mpr ⟨_, hmem, hblocked⟩
    · have hcluster : p.1 ∈ t.clusters := by
        rw [hrowOf.clusters]
        exact List.mem_map.mpr ⟨_, hmem, rfl⟩
      exact (Sorting.sortOn_perm _ _).mem_iff.mpr hcluster

/-- Two clusters of the fleet: one that a finding of the payments team blocks, and one without a snapshot. -/
def twoClusters : TeamsRequest where
  env := { kbVersion := "kb", teamMapHash := "" }
  scope := ⟨none⟩
  target := ⟨1, 31⟩
  clusters :=
    let world : TeamsWorld :=
      { inTime := true
        now := 0
        summary := .error .notFound
        slot := none
        evaluation := .error .notFound
        latest := .ok (some 7)
        whatIf := .ok (some
          { clusterID := "a", target := ⟨1, 31⟩, serverVersion := "v1.30.0", kbVersion := "kb", score := 75, ready := false,
            verdict := .blocked, notAssessed := [],
            findings := [{ category := .removedAPI, severity := .blocker, key := "k", title := "t", detail := "", teams := ["payments"] }] }) }
    [(⟨1, "a", true, 7, "v1.30.0"⟩, world), (⟨2, "b", false, 0, ""⟩, world)]

/-- The second of two requests for two clusters, which the cache may answer: the one is evaluated and the other missing, the
payments team has a row, which says what the reports say of the team, and the blocked cluster is named in a blocked row. -/
theorem fleet_teams_hide_nothing_twoClusters :
    ∃ r, (handleFleetTeams External.ascii (cacheAfter External.ascii [twoClusters]) twoClusters).1 = .ok r ∧
    (r.evaluated.map (·.name) ++ r.missing ++ r.notApplicable).Perm ["a", "b"] ∧ r.missing = ["b"] ∧
    ∃ reports : List (String × Report), r.evaluated.map (·.name) = reports.map Prod.fst ∧
      (∀ p ∈ reports, Answered [twoClusters, twoClusters] p.2) ∧
      (∃ t, r.teams.lookup "payments" = some t ∧
        SaysOf "payments" (reports.filter fun p => teamFindings p.2 "payments" ≠ []) t) ∧
      ∀ p ∈ reports, (∃ f ∈ p.2.findings, f.severity = .blocker) →
        ∃ team t, r.teams.lookup team = some t ∧ t.verdict = .blocked ∧ p.1 ∈ t.clusters := by
  obtain ⟨r, hr, hmissing, hrow⟩ : ∃ r, (handleFleetTeams External.ascii (cacheAfter External.ascii [twoClusters]) twoClusters).1 = .ok r ∧
      r.missing = ["b"] ∧ (r.teams.lookup "payments").isSome = true := ⟨_, rfl, rfl, rfl⟩
  obtain ⟨hplaced, reports, hevaluated, hanswered, hteams, hblocked⟩ :=
    fleet_teams_hide_nothing External.ascii [twoClusters] twoClusters r hr
  obtain ⟨t, ht⟩ := Option.isSome_iff_exists.mp hrow
  exact ⟨r, hr, hplaced, hmissing, reports, hevaluated, hanswered,
    ⟨t, ht, (hteams "payments" ⟨by decide, by decide⟩).2 t ht⟩, hblocked rfl⟩

end UpgradeScope.FleetTeams
