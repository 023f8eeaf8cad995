import UpgradeScope.Server.Holds
import UpgradeScope.Server.PassRuns

/-!
# What the programs collect of a pass

`ClusterPass.step` says in one step what a pass does to the rows of a target. The programs look up baselines, evaluate, and
collect the rows of one commit. Where the server reads back what it stores the two are one: alone, a re-evaluation commits
just the rows that the step stores (`reevaluate_commits`), and a push collects them (`Judged.commits`). What is collected
carries the ends of holds that the pass recorded, and a row that is left carries no other (`Judged.records`), as
`DuplicateLeft` says of the rows after a duplicate push.
-/

namespace UpgradeScope.Passes

open Go Sorting Store Interleave Kb Table

open UpgradeScope.Notify hiding Store Pass step after announced

/-! ## Baselines -/

/-- What is read of the baseline that a report is compared with: the newest one of its target, or the one that an upgrade
left. -/
def previous (s : Server) (db : DB) (clusterID : ℕ) (cur : Report) : Option StoredHeads :=
  ((lookups s cur.serverVersion cur.target).findSome? fun v => db.latestKnownEvaluation clusterID v.string).bind
    fun row => s.decodeReport row.report

/-- `lookback`, alone, gives the newest baseline of the first target that has one. -/
theorem lookback_alone {clusterID : ℕ} {w : World} (vs : List Version) (read : AList fun _ : String => ℕ) :
    Alone (lookback clusterID vs read) w fun res w' =>
      w' = w ∧ res.1 = vs.findSome? fun v => w.db.latestKnownEvaluation clusterID v.string := by
  induction vs generalizing read with
  | nil => exact ⟨rfl, rfl⟩
  | cons v vs ih =>
    refine Alone.bind (Alone.read ?_)
    rw [List.findSome?_cons]
    cases w.db.latestKnownEvaluation clusterID v.string with
    | none => exact ih _
    | some prev => exact ⟨rfl, rfl⟩

/-- `loadBaseline`, alone, gives the baseline that the report is compared with. -/
theorem loadBaseline_alone (s : Server) (clusterID : ℕ) (cur : Report) (w : World) :
    Alone (loadBaseline s clusterID cur) w fun res w' =>
      w' = w ∧ (res.1.bind fun row => s.decodeReport row.report) = previous s w.db clusterID cur := by
  refine Alone.bind (Alone.read ?_)
  unfold previous lookups
  rw [List.findSome?_cons]
  cases w.db.latestKnownEvaluation clusterID cur.target.string with
  | some prev => exact ⟨rfl, rfl⟩
  | none =>
    show Alone (upgradeBaseline s clusterID cur _) w _
    unfold upgradeBaseline
    cases version? s.external cur.serverVersion with
    | none => exact ⟨rfl, rfl⟩
    | some server =>
      dsimp only
      by_cases hnext : server.next = cur.target
      · rw [if_pos hnext, Option.any_some, if_pos (by simpa using hnext)]
        refine (lookback_alone _ _).imp ?_
        rintro res w' ⟨rfl, hres⟩
        exact ⟨rfl, by rw [hres]⟩
      · rw [if_neg hnext, Option.any_some, if_neg (by simpa using hnext)]
        exact ⟨rfl, rfl⟩

/-- `deltaFor`, alone, carries what the pass carries of the baseline that the report is compared with. -/
theorem deltaFor_alone (p : ClusterPass) {clusterID : ℕ} (hcluster : clusterID ≠ 0) {e : Evaluation} {cur : Report}
    {known : Option (Evaluation × List FindingHead)} {w : World} (he : e.baseline = notificationBaseline cur)
    (hknown : ∀ k, known = some k → ∃ heads, k.2 = heads.baseline ∧
      previous p.server w.db clusterID cur = some heads) :
    Alone (deltaFor p.server clusterID e cur known (unassessedIn cur p.hold)) w fun d w' =>
      w' = w ∧ d.carried = p.carries cur (previous p.server w.db clusterID cur) := by
  unfold deltaFor ClusterPass.carries
  dsimp only
  by_cases hsilent : p.server.sinks.isEmpty = true ∨ ¬ e.baseline = true
  · rw [if_pos (hsilent.imp_right .inl), if_pos (he ▸ hsilent)]
    exact ⟨rfl, rfl⟩
  · rw [if_neg (by tauto), if_neg (he ▸ hsilent)]
    cases known with
    | some k =>
      obtain ⟨row, findings⟩ := k
      obtain ⟨heads, rfl, hprevious⟩ := hknown _ rfl
      rw [hprevious]
      exact ⟨rfl, rfl⟩
    | none =>
      refine Alone.bind ((loadBaseline_alone p.server clusterID cur w).imp ?_)
      rintro ⟨prev, baselines⟩ w' ⟨rfl, hprev⟩
      rw [← hprev]
      cases prev with
      | none => exact ⟨rfl, rfl⟩
      | some row =>
        dsimp only [Option.bind_some]
        cases p.server.decodeReport row.report <;> exact ⟨rfl, rfl⟩

/-! ## The loops over the targets -/

/-- The rows of a batch. -/
def PassBatch.rows (b : PassBatch) : List Evaluation := b.batch.insert ++ b.batch.refresh

/-- A re-evaluation adds a target's row to the batch, or rewrites the current one with it. -/
theorem rows_reevaluated (b : PassBatch) (s : Server) (target : Version) (cur : Option Evaluation) (moment : ℕ)
    (stored : Option StoredHeads) (e : Evaluation) (rep : Report) (d : TargetDelta) :
    ∃ id, ∀ x, x ∈ (b.reevaluated s target cur moment stored e rep d).rows ↔ x ∈ b.rows ∨ x = { e with id := id } := by
  obtain ⟨-, -, -, -, ⟨-, hinsert, row, -, -, hrefresh, -⟩ | ⟨-, hinsert, hrefresh, -⟩⟩ :=
    reevaluated_cases b s target cur moment stored e rep d
  · exact ⟨row.id, fun x => by simp [PassBatch.rows, hinsert, hrefresh, or_assoc]⟩
  · refine ⟨e.id, fun x => ?_⟩
    simp only [PassBatch.rows, hinsert, hrefresh, List.mem_append, List.mem_singleton]
    tauto

/-- The text that a pass stores of a report. -/
def ClusterPass.textOf (p : ClusterPass) (db : DB) (clusterID : ℕ) (rep : Report) : String :=
  p.server.encodeReport rep
    (p.server.keepCarried rep (p.hold.stamp (p.carries rep (previous p.server db clusterID rep))))

/-- A row is the one that a pass makes of a target. -/
def ClusterPass.Makes (p : ClusterPass) (db : DB) (clusterID : ℕ) (now : Time) (target : Version) (row : Evaluation) :
    Prop :=
  ∃ e rep id, p.server.evaluation clusterID (p.server.evalInventory p.inventory) target now = some (.ok (e, rep)) ∧
    row = { e with id := id, report := p.textOf db clusterID rep }

/-- The report of a target, when its evaluation has one. -/
def reportFor (s : Server) (clusterID : ℕ) (inv : Inventory) (now : Time) (target : Version) : Option Report :=
  match s.evaluation clusterID (s.evalInventory inv) target now with
  | some (.ok (_, rep)) => some rep
  | _ => none

/-- A target is up to date: no pass is forced, and its current row is not stale and holds no end that the pass would
move. -/
def UpToDate (p : ClusterPass) (db : DB) (clusterID : ℕ) (now : Time) (force : Bool) (target : Version) : Prop :=
  (db.currentEvaluation clusterID target.string).any fun row =>
    !force && !stale p.server row now && !holdChanged p.server row.report p.hold

/-- Rows are those that a pass makes of some targets: each is of one that is not up to date, and every such target that
has a report has a row. -/
structure Judged (p : ClusterPass) (db : DB) (clusterID : ℕ) (now : Time) (force : Bool) (targets : List Version)
    (rows : Evaluation → Prop) : Prop where
  /-- A row is made of a target that is not up to date. -/
  made : ∀ row, rows row → ∃ t ∈ targets, ¬ UpToDate p db clusterID now force t ∧ p.Makes db clusterID now t row
  /-- A target that is not up to date and has a report has a row. -/
  all : ∀ t ∈ targets, UpToDate p db clusterID now force t ∨ reportFor p.server clusterID p.inventory now t = none ∨
    ∃ row, rows row ∧ p.Makes db clusterID now t row

section Loops

variable {p : ClusterPass} {db : DB} {clusterID : ℕ} {now : Time} {force : Bool} {t : Version} {targets : List Version}
  {rows : Evaluation → Prop}

/-- A target more that is up to date, or has no report. -/
theorem Judged.skip (h : Judged p db clusterID now force targets rows)
    (hskip : UpToDate p db clusterID now force t ∨ reportFor p.server clusterID p.inventory now t = none) :
    Judged p db clusterID now force (t :: targets) rows := by
  refine ⟨fun row hrow => ?_, fun t' ht' => ?_⟩
  · obtain ⟨t', ht', hmade⟩ := h.made row hrow
    exact ⟨t', List.mem_cons_of_mem _ ht', hmade⟩
  · rcases List.mem_cons.mp ht' with rfl | ht'
    · exact hskip.imp_right .inl
    · exact h.all t' ht'

/-- A target more, with its row. -/
theorem Judged.add (h : Judged p db clusterID now force targets rows) (hdue : ¬ UpToDate p db clusterID now force t)
    {row : Evaluation} (hrow : p.Makes db clusterID now t row) :
    Judged p db clusterID now force (t :: targets) fun x => x = row ∨ rows x := by
  refine ⟨?_, fun t' ht' => ?_⟩
  · rintro x (rfl | hx)
    · exact ⟨t, List.mem_cons_self, hdue, hrow⟩
    · obtain ⟨t', ht', hmade⟩ := h.made x hx
      exact ⟨t', List.mem_cons_of_mem _ ht', hmade⟩
  · rcases List.mem_cons.mp ht' with rfl | ht'
    · exact .inr (.inr ⟨row, .inl rfl, hrow⟩)
    · exact (h.all t' ht').imp_right fun h => h.imp_right fun ⟨x, hx, hmade⟩ => ⟨x, .inr hx, hmade⟩

end Loops

/-- The loop of a re-evaluation, alone, collects the rows that the pass makes of its targets. -/
theorem reevaluateTargets_judged (p : ClusterPass) {clusterID snapID : ℕ} (hcluster : clusterID ≠ 0) {force : Bool}
    {now : Time} {w : World} (hkeyed : w.db.Keyed) (hordered : w.db.Ordered) (targets : List Version) (b : PassBatch)
    (left : Bool) :
    Alone (reevaluateTargets p.server clusterID snapID (p.server.evalInventory p.inventory) p.hold force now targets b
      left) w fun res w' => w' = w ∧ ∀ b' left', res = .ok (b', left') → ∃ rows : Evaluation → Prop,
        (∀ x, x ∈ b'.rows ↔ x ∈ b.rows ∨ rows x) ∧ Judged p w.db clusterID now force targets rows := by
  induction targets generalizing b left with
  | nil =>
    refine ⟨rfl, fun b' left' hres => ⟨fun _ => False, ?_, by simp, by simp⟩⟩
    obtain ⟨rfl, -⟩ := Prod.mk.inj (Except.ok.inj hres)
    simp
  | cons target rest ih =>
    unfold reevaluateTargets
    refine Alone.bind (Alone.read ?_)
    dsimp only
    split_ifs with hmoved hskip
    · exact ⟨rfl, fun b' left' hres => by cases hres⟩
    · refine (ih b left).imp ?_
      rintro res w' ⟨rfl, hdone⟩
      refine ⟨rfl, fun b' left' hres => ?_⟩
      obtain ⟨rows, hrows, hjudged⟩ := hdone b' left' hres
      exact ⟨rows, hrows, hjudged.skip (.inl hskip)⟩
    · cases heval : p.server.evaluation clusterID (p.server.evalInventory p.inventory) target now with
      | none => exact ⟨rfl, fun b' left' hres => by cases hres⟩
      | some result =>
        cases result with
        | error err =>
          refine (ih b true).imp ?_
          rintro res w' ⟨rfl, hdone⟩
          refine ⟨rfl, fun b' left' hres => ?_⟩
          obtain ⟨rows, hrows, hjudged⟩ := hdone b' left' hres
          exact ⟨rows, hrows, hjudged.skip (.inr (by rw [reportFor, heval]))⟩
        | ok pair =>
          obtain ⟨e, rep⟩ := pair
          obtain ⟨hrt, -, -, hbase, -⟩ := evaluation_report heval
          refine Alone.bind ((deltaFor_alone p hcluster hbase ?_).imp ?_)
          · -- The current row, where it is a baseline, is the newest one.
            intro k hk
            obtain ⟨row, hrow, hk⟩ := Option.bind_eq_some_iff.mp hk
            obtain ⟨heads, hheads, hk⟩ := Option.bind_eq_some_iff.mp hk
            split_ifs at hk with hknown
            obtain rfl := Option.some.inj hk
            obtain ⟨latest, hlatest, hcurrent⟩ := Option.bind_eq_some_iff.mp hrow
            have hnewest := latestKnown_of_current hkeyed hordered hlatest hcurrent
              ((known_eq_isBaseline row).trans hknown)
            rw [hrow] at hheads
            refine ⟨heads, rfl, ?_⟩
            unfold previous lookups
            rw [List.findSome?_cons, hrt, hnewest]
            exact hheads
          · rintro d w' ⟨rfl, hcarried⟩
            rw [hcarried]
            refine (ih _ left).imp ?_
            rintro res w'' ⟨rfl, hdone⟩
            refine ⟨rfl, fun b' left' hres => ?_⟩
            obtain ⟨rows, hrows, hjudged⟩ := hdone b' left' hres
            obtain ⟨id, hid⟩ := rows_reevaluated b p.server target (w''.db.currentEvaluation clusterID target.string)
              w''.history.length ((w''.db.currentEvaluation clusterID target.string).bind fun row =>
                p.server.decodeReport row.report) { e with report := p.textOf w''.db clusterID rep } rep _
            refine ⟨_, fun x => ?_, hjudged.add hskip ⟨e, rep, id, heval, rfl⟩⟩
            rw [hrows, ← or_assoc]
            exact or_congr_left (hid x)

/-- The loop of a push of a registered cluster, alone, collects the rows that the pass makes of its targets, all of which
are due. -/
theorem ingestTargets_judged (p : ClusterPass) {clusterID : ℕ} (hcluster : clusterID ≠ 0) {adopting : Bool} {now : Time}
    {w : World} (targets : List Version) (b : PassBatch) :
    Alone (ingestTargets p.server clusterID (p.server.evalInventory p.inventory) p.hold adopting now targets b) w
      fun res w' => w' = w ∧ ∀ b', res = some b' → ∃ rows : Evaluation → Prop,
        (∀ x, x ∈ b'.rows ↔ x ∈ b.rows ∨ rows x) ∧ Judged p w.db clusterID now true targets rows := by
  induction targets generalizing b with
  | nil =>
    refine ⟨rfl, fun b' hres => ⟨fun _ => False, ?_, by simp, by simp⟩⟩
    obtain rfl := Option.some.inj hres
    simp
  | cons target rest ih =>
    unfold ingestTargets
    cases heval : p.server.evaluation clusterID (p.server.evalInventory p.inventory) target now with
    | none => exact ⟨rfl, fun b' hres => by cases hres⟩
    | some result =>
      cases result with
      | error err => exact ⟨rfl, fun b' hres => by cases hres⟩
      | ok pair =>
        obtain ⟨e, rep⟩ := pair
        obtain ⟨-, -, -, hbase, -⟩ := evaluation_report heval
        refine Alone.bind ((deltaFor_alone p hcluster hbase fun k hk => by cases hk).imp ?_)
        rintro d w' ⟨rfl, hcarried⟩
        rw [hcarried]
        refine (ih _).imp ?_
        rintro res w'' ⟨rfl, hdone⟩
        refine ⟨rfl, fun b' hres => ?_⟩
        obtain ⟨rows, hrows, hjudged⟩ := hdone b' hres
        have hdue : ¬ UpToDate p w''.db clusterID now true target := by simp [UpToDate]
        refine ⟨_, fun x => ?_, hjudged.add hdue ⟨e, rep, e.id, heval, rfl⟩⟩
        rw [hrows]
        simp only [PassBatch.rows, List.mem_append, List.mem_singleton, ClusterPass.textOf]
        tauto

/-! ## The step of a pass -/

/-- What is stored of a cluster's targets, as reports are read. -/
def rowsOf (decode : String → Option StoredHeads) (db : DB) (clusterID : ℕ) (target : String) : TargetRows where
  current := (db.currentEvaluation clusterID target).bind fun row => decode row.report
  baseline := (db.latestKnownEvaluation clusterID target).bind fun row => decode row.report

/-- A server reads back what it stores: the findings and gaps of a report, and the heads that it kept. -/
structure Server.ReadsBack (s : Server) : Prop where
  /-- A stored text is read. -/
  reads : ∀ rep carried, s.decodeReport (s.encodeReport rep (s.keepCarried rep carried)) = some
    ⟨rep.findings.map fun f => readHead (headOf f), rep.notAssessed, (s.keepCarried rep carried).map readHead⟩
  /-- A held caller leaves its mark in the text. -/
  marks : ∀ rep carried, (∃ f ∈ s.keepCarried rep carried, f.holdUntil ≠ 0) →
    contains (s.encodeReport rep (s.keepCarried rep carried)) holdMarker = true

/-- A stored text is read, and has its mark where a caller is held. -/
def Readable (s : Server) (report : String) : Prop :=
  ∃ heads, s.decodeReport report = some heads ∧
    ((∃ f ∈ heads.carriedForward, f.holdUntil ≠ 0) → contains report holdMarker = true)

/-- The pass that a program makes over a cluster at a time, on what it finds stored. -/
def passOf (s : Server) (inv : Inventory) (v : String) (pushed force : Bool) (db : DB) (clusterID : ℕ) (now : Time) :
    ClusterPass where
  server := s
  inventory := inv
  serverVersion := v
  pushed := pushed
  report t := ((s.evalTargets v).find? (·.string = t)).bind (reportFor s clusterID inv now)
  due t := (db.currentEvaluation clusterID t).any fun row => force || stale s row now
  inherits t := ((s.evalTargets v).find? (·.string = t)).bind fun target =>
    ((lookups s inv.serverVersion target).tail.find? fun u =>
      (db.latestKnownEvaluation clusterID u.string).isSome).map (·.string)

section Steps

variable {s : Server} {inv : Inventory} {v : String} {pushed force : Bool} {db : DB} {clusterID : ℕ} {now : Time}
  {target : Version} {p : ClusterPass} (hp : p = passOf s inv v pushed force db clusterID now)

/-- A target is found by its text. -/
theorem find?_evalTargets (h : target ∈ s.evalTargets v) :
    (s.evalTargets v).find? (·.string = target.string) = some target := by
  cases hfound : (s.evalTargets v).find? (·.string = target.string) with
  | none => exact absurd (List.find?_eq_none.mp hfound target h) (by simp)
  | some t =>
    have htext := List.find?_some hfound
    exact congrArg some (Version.string_injective (by simpa using htext))

include hp

/-- What a program's pass compares a report with is what the program reads. -/
theorem previous_passOf (hreadable : ∀ e ∈ db.evaluations, Readable s e.report) (htarget : target ∈ s.evalTargets v)
    {rep : Report} (hrt : rep.target = target) (hrv : rep.serverVersion = inv.serverVersion) :
    ((rowsOf s.decodeReport db clusterID target.string).baseline <|>
      (p.inherits target.string).bind fun t => (rowsOf s.decodeReport db clusterID t).baseline) = previous s db clusterID rep := by
  have hinherits : p.inherits target.string =
      ((lookups s inv.serverVersion target).tail.find? fun u =>
        (db.latestKnownEvaluation clusterID u.string).isSome).map (·.string) := by
    rw [hp]
    show ((s.evalTargets v).find? (·.string = target.string)).bind _ = _
    rw [find?_evalTargets htarget]
    rfl
  have hsearch : ∀ vs : List Version, (vs.find? fun u => (db.latestKnownEvaluation clusterID u.string).isSome).bind
      (fun u => db.latestKnownEvaluation clusterID u.string) =
        vs.findSome? fun u => db.latestKnownEvaluation clusterID u.string := by
    intro vs
    induction vs with
    | nil => rfl
    | cons u vs ih =>
      rw [List.find?_cons, List.findSome?_cons]
      cases hu : db.latestKnownEvaluation clusterID u.string with
      | none => simpa [hu] using ih
      | some row => simp [hu]
  unfold previous
  rw [hrt, hrv, hinherits]
  show _ = ((target :: (lookups s inv.serverVersion target).tail).findSome? _).bind _
  rw [List.findSome?_cons]
  unfold rowsOf
  cases hown : db.latestKnownEvaluation clusterID target.string with
  | some row =>
    obtain ⟨heads, hheads, -⟩ := hreadable row (List.mem_filter.mp (newest_mem hown)).1
    simp [hheads]
  | none =>
    rw [← hsearch, Option.bind_assoc]
    simp [Option.bind_map]

/-- A target is up to date for the program exactly when its pass skips it. -/
theorem upToDate_iff (hreadable : ∀ e ∈ db.evaluations, Readable s e.report) (target : Version) :
    UpToDate p db clusterID now force target ↔
      (rowsOf s.decodeReport db clusterID target.string).current.any (fun heads =>
        !p.due target.string && !holdMoved heads p.hold) = true := by
  subst hp
  unfold UpToDate rowsOf passOf
  cases hrow : db.currentEvaluation clusterID target.string with
  | none => simp
  | some row =>
    obtain ⟨latest, -, hcurrent⟩ := Option.bind_eq_some_iff.mp hrow
    obtain ⟨heads, hheads, hmark⟩ := hreadable row (List.mem_filter.mp (newest_mem hcurrent)).1
    -- A text without the mark holds nothing.
    have hmoved : ∀ hold, holdChanged s row.report hold = holdMoved heads hold := by
      intro hold
      unfold holdChanged holdMoved
      rw [hheads, Option.any_some]
      cases hany : heads.carriedForward.any fun f => f.holdUntil ≠ 0 && hold.until f ≠ f.holdUntil with
      | false => rw [Bool.and_false]
      | true =>
        obtain ⟨f, hf, hne⟩ := List.any_eq_true.mp hany
        rw [hmark ⟨f, hf, by simpa using (Bool.and_eq_true_iff.mp hne).1⟩, Bool.and_true]
    simp [hheads, hmoved, hrow, ClusterPass.hold]

/-- The rows of a commit are what a pass makes of stored rows: each has the report that the step stores for its target,
also as the baseline when it is one, and the step leaves the targets that have none. -/
def ClusterPass.Commits (p : ClusterPass) (stored : String → TargetRows) (rows : List Evaluation) : Prop :=
  (∀ row ∈ rows, p.step stored row.target =
    { current := p.server.decodeReport row.report
      baseline := if row.baseline then p.server.decodeReport row.report else (stored row.target).baseline }) ∧
    ∀ t, (∀ row ∈ rows, row.target ≠ t) → p.step stored t = stored t

/-- The rows that a program collects are what the step of its pass makes. -/
theorem Judged.commits (hs : s.ReadsBack) (hreadable : ∀ e ∈ db.evaluations, Readable s e.report) {b : PassBatch}
    (h : Judged p db clusterID now force (s.evalTargets v) (· ∈ b.rows)) :
    p.Commits (rowsOf s.decodeReport db clusterID) b.rows := by
  constructor
  · intro row hrow
    obtain ⟨target, htarget, hdue, e, rep, id, heval, rfl⟩ := h.made row hrow
    obtain ⟨hrt, hrv, het, hbase, -⟩ := evaluation_report heval
    have hreport : p.report target.string = some rep := by
      subst hp
      show ((s.evalTargets v).find? (·.string = target.string)).bind _ = _
      rw [find?_evalTargets htarget, Option.bind_some, reportFor,
        show s.evaluation clusterID (s.evalInventory inv) target now = some (.ok (e, rep)) from heval]
    have hread : p.server.decodeReport (p.textOf db clusterID rep) =
        some (p.stores rep (previous s db clusterID rep)) := by
      subst hp
      exact hs.reads rep _
    dsimp only
    rw [het]
    unfold ClusterPass.step
    rw [hreport]
    dsimp only
    rw [if_neg fun hup => hdue ((upToDate_iff hp hreadable target).mpr hup),
      previous_passOf hp hreadable htarget hrt (hrv.trans (by rw [hp]; rfl)), hbase, hread]
  · intro t hnone
    unfold ClusterPass.step
    cases hreport : p.report t with
    | none => rfl
    | some rep =>
      subst hp
      obtain ⟨target, hfind, hrep⟩ := Option.bind_eq_some_iff.mp hreport
      obtain rfl : target.string = t := by simpa using List.find?_some hfind
      dsimp only
      rw [if_pos]
      rcases h.all target (List.mem_of_find?_eq_some hfind) with hup | hunreported | ⟨row, hrow, e, rep', id, heval, rfl⟩
      · exact (upToDate_iff rfl hreadable target).mp hup
      · exact absurd (hunreported.symm.trans hrep) (by simp)
      · exact absurd (evaluation_report heval).2.2.1 (hnone _ hrow :)

/-- What a program collects carries the ends of holds that its pass recorded; a target that it leaves, and that has a
report, has a current row that is not stale and carries the ends that the pass would record. -/
theorem Judged.records (hs : s.ReadsBack) (hreadable : ∀ e ∈ db.evaluations, Readable s e.report) {b : PassBatch}
    (h : Judged p db clusterID now force (s.evalTargets v) (· ∈ b.rows))
    (htarget : target ∈ s.evalTargets v) (hreport : (reportFor s clusterID inv now target).isSome = true) :
    ∃ row heads, (row ∈ b.rows ∧ row.target = target.string ∧ row.evaluatedAt = now ∨
        db.currentEvaluation clusterID target.string = some row ∧ stale s row now = false) ∧
      s.decodeReport row.report = some heads ∧
      ((∃ f ∈ heads.carriedForward, f.holdUntil ≠ 0) → contains row.report holdMarker = true) ∧
      ∀ f ∈ heads.carriedForward, RecordedBy (callsHoldOf s inv v pushed) f := by
  subst hp
  rcases h.all target htarget with hup | hnone | ⟨row, hrow, e, rep, id, heval, rfl⟩
  · obtain ⟨row, hrow, hcond⟩ := (Option.any_eq_true _ _).mp hup
    simp only [Bool.and_eq_true, Bool.not_eq_true'] at hcond
    obtain ⟨latest, -, hcurrent⟩ := Option.bind_eq_some_iff.mp hrow
    obtain ⟨heads, hheads, hmark⟩ := hreadable row (List.mem_filter.mp (newest_mem hcurrent)).1
    refine ⟨row, heads, .inr ⟨hrow, hcond.1.2⟩, hheads, hmark, fun f hf hne => ⟨f.holdUntil, ?_⟩⟩
    have hleft := hcond.2
    rw [holdChanged, hmark ⟨f, hf, hne⟩, Bool.true_and, show (passOf s inv v pushed force db clusterID now).server = s
      from rfl, hheads, Option.any_some] at hleft
    by_contra hmoved
    exact List.any_eq_false.mp hleft f hf (Bool.and_eq_true_iff.mpr
      ⟨decide_eq_true hne, decide_eq_true fun heq => hmoved heq.symm⟩)
  · exact absurd hreport (by rw [show reportFor s clusterID inv now target = none from hnone]; simp)
  · obtain ⟨-, -, -, het, hevaluated, -⟩ := evaluation_inv heval
    refine ⟨_, _, .inl ⟨hrow, het, hevaluated⟩, hs.reads rep _, fun hheld => hs.marks rep _ ?_, fun f hf _ => ?_⟩
    · obtain ⟨f, hf, hne⟩ := hheld
      obtain ⟨x, hx, rfl⟩ := List.mem_map.mp hf
      exact ⟨x, hx, by simpa using hne⟩
    · obtain ⟨x, hx, rfl⟩ := List.mem_map.mp hf
      obtain ⟨y, -, rfl⟩ := List.mem_map.mp (mem_of_mem_keepCarried hx)
      refine ⟨y.holdUntil, ?_⟩
      unfold readHead
      split_ifs <;> rfl

end Steps

/-! ## Programs -/

/-- A re-evaluation, alone, commits what the step of its pass makes. -/
theorem reevaluate_commits {s : Server} (hs : s.ReadsBack) {cluster : Cluster} (hcluster : cluster.id ≠ 0) (snapID : ℕ)
    (v : String) (inv : Inventory) (pushed force : Bool) {w : World} (hkeyed : w.db.Keyed) (hordered : w.db.Ordered)
    (hreadable : ∀ e ∈ w.db.evaluations, Readable s e.report) :
    Alone (reevaluate s cluster snapID v inv pushed force) w fun _ w' => ∀ record, w'.history = w.history ++ [record] →
      (passOf s inv v pushed force w.db cluster.id w.now).Commits (rowsOf s.decodeReport w.db cluster.id)
        (record.batch.insert ++ record.batch.refresh) := by
  have hidle : ∀ record, w.history ≠ w.history ++ [record] := fun record h => by simpa using congrArg List.length h
  unfold reevaluate clock
  refine Alone.bind (Alone.read ?_)
  dsimp only
  refine Alone.bind ((reevaluateTargets_judged (passOf s inv v pushed force w.db cluster.id w.now) hcluster hkeyed
    hordered (s.evalTargets v) { batch := { clusterID := cluster.id, snapshotID := snapID } } false).imp ?_)
  rintro res w' ⟨rfl, hres⟩
  cases res with
  | error stop => cases stop <;> exact fun record h => absurd h (hidle record)
  | ok pair =>
    obtain ⟨b, left⟩ := pair
    obtain ⟨rows, hrows, hjudged⟩ := hres b left rfl
    obtain rfl : rows = (· ∈ b.rows) := funext fun x => propext (by
      rw [hrows x]
      simp [PassBatch.rows])
    dsimp only
    split_ifs
    · exact fun record h => absurd h (hidle record)
    · refine Alone.bind (Alone.read (Alone.bind (Alone.imp (Q := fun _ w'' => w'' = committed _ w') rfl ?_)))
      rintro answer w'' rfl
      split <;> exact fun record h => by
        obtain rfl := List.singleton_inj.mp (List.append_cancel_left h)
        exact hjudged.commits rfl hs hreadable

end UpgradeScope.Passes
