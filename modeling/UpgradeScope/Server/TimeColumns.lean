import UpgradeScope.Store.Prune
import UpgradeScope.Store.StoredTimes
import UpgradeScope.Server.Outbox

/-!
# Times compared as they are stored

SQLite keeps a time as a text and compares texts: the statements of a prune take the cutoff "in the store's time
representation", and a claim of due messages takes now in it. Here are the statements over any representation of times; over
one that keeps the order of the times at hand (`Keeps`), each of them selects the rows that comparing times would.
-/

namespace UpgradeScope.Store

open Go Sorting Table

/-! ## The statements over a representation -/

section Statements

variable {τ : Type} [LinearOrder τ] (rep : Time → τ)

/-- `evaluationDrain`'s condition. -/
def agedOutIn (cutoff : Time) (db : DB) (e : Evaluation) : Bool :=
  rep e.createdAt < rep cutoff ∧ e.snapshotID ∉ db.latestIDs ∧ e.id ∉ db.baselineIDs

/-- `evaluationDrain`. -/
def drainEvaluationsIn (cutoff : Time) (batch : ℕ) (db : DB) : DB × ℕ :=
  let ids := ((sortOn (fun e => toLex (rep e.createdAt, e.id)) (db.evaluations.filter (agedOutIn rep cutoff db))).take
    batch).map (·.id)
  ({ db with evaluations := db.evaluations.filter (·.id ∉ ids) }, (db.evaluations.filter (·.id ∈ ids)).length)

/-- One delete of `pruneBaselines`. -/
def deleteBaselinesIn (cutoff : Time) (db : DB) (ids : List ℕ) : DB × ℕ :=
  let gone : Evaluation → Bool := fun e => rep e.createdAt < rep cutoff ∧ e.snapshotID ∉ db.latestIDs ∧ e.id ∈ ids
  ({ db with evaluations := db.evaluations.filter (! gone ·) }, (db.evaluations.filter gone).length)

/-- The condition of the delete of snapshots. -/
def unreferredIn (cutoff : Time) (db : DB) (s : Snapshot) : Bool :=
  rep s.receivedAt < rep cutoff ∧ s.id ∉ db.latestIDs ∧ ∀ e ∈ db.evaluations, e.snapshotID ≠ s.id

/-- The batched delete of snapshots. -/
def drainSnapshotsIn (cutoff : Time) (batch : ℕ) (db : DB) : DB × ℕ :=
  let ids := ((sortOn (·.id) (db.snapshots.filter (unreferredIn rep cutoff db))).take batch).map (·.id)
  ({ db with snapshots := db.snapshots.filter (·.id ∉ ids) }, (db.snapshots.filter (·.id ∈ ids)).length)

/-- `ClaimOutbox`. -/
def DB.claimOutboxIn (db : DB) (now : Time) (lease : ℤ) (limit : ℕ) : DB × List OutboxMessage :=
  let due := (sortOn (·.id) (db.outbox.filter fun m => rep m.nextAttemptAt ≤ rep now)).take limit
  ({ db with outbox := db.outbox.map fun m => if m.id ∈ due.map (·.id) then DB.claimed now lease m else m },
    due.map (DB.claimed now lease))

end Statements

/-! ## Representations that keep the order -/

/-- The representation keeps the order of the times that have a property. -/
def KeepsOrder {τ : Type} [LinearOrder τ] (rep : Time → τ) (P : Time → Prop) : Prop :=
  ∀ t t', P t → P t' → (rep t < rep t' ↔ t < t')

section Keeps

variable {τ : Type} [LinearOrder τ] {rep : Time → τ} {P : Time → Prop} (hrep : KeepsOrder rep P)

include hrep

/-- A representation that keeps the order compares `≤` as the times do. -/
theorem KeepsOrder.le_iff {t t' : Time} (h : P t) (h' : P t') : rep t ≤ rep t' ↔ t ≤ t' := by
  rw [← not_lt, ← not_lt, hrep t' t h' h]

/-- Equal representations are of equal times. -/
theorem KeepsOrder.eq_iff {t t' : Time} (h : P t) (h' : P t') : rep t = rep t' ↔ t = t' := by
  rw [le_antisymm_iff, le_antisymm_iff, hrep.le_iff h h', hrep.le_iff h' h]

end Keeps

/-! ## What the statements select -/

/-- The times a prune compares have the property. -/
structure PruneTimes (P : Time → Prop) (cutoff : Time) (db : DB) : Prop where
  /-- The cutoff. -/
  cutoff : P cutoff
  /-- When evaluations were inserted. -/
  created : ∀ e ∈ db.evaluations, P e.createdAt
  /-- When snapshots were received. -/
  received : ∀ s ∈ db.snapshots, P s.receivedAt

section Selects

variable {τ : Type} [LinearOrder τ] {rep : Time → τ} {P : Time → Prop} (hrep : KeepsOrder rep P) {cutoff : Time} {db : DB}

include hrep

/-- A batch that compares texts deletes the evaluations that one comparing times deletes. -/
theorem drainEvaluationsIn_eq (h : PruneTimes P cutoff db) (batch : ℕ) :
    drainEvaluationsIn rep cutoff batch db = drainEvaluations cutoff batch db := by
  have hfilter : db.evaluations.filter (agedOutIn rep cutoff db) = db.evaluations.filter (agedOut cutoff db) := by
    refine List.filter_congr fun e he => ?_
    unfold agedOutIn agedOut
    rw [decide_eq_decide, hrep _ _ (h.created e he) h.cutoff]
  have hsort : sortOn (fun e => toLex (rep e.createdAt, e.id)) (db.evaluations.filter (agedOut cutoff db)) =
      sortOn (fun e => toLex (e.createdAt, e.id)) (db.evaluations.filter (agedOut cutoff db)) := by
    refine sortOn_congr_key fun a ha b hb => ?_
    have hPa := h.created a (List.mem_of_mem_filter ha)
    have hPb := h.created b (List.mem_of_mem_filter hb)
    rw [Prod.Lex.toLex_le_toLex, Prod.Lex.toLex_le_toLex, hrep _ _ hPa hPb, hrep.eq_iff hPa hPb]
  unfold drainEvaluationsIn drainEvaluations
  rw [hfilter, hsort]

/-- A delete that compares texts takes the baselines that one comparing times takes. -/
theorem deleteBaselinesIn_eq (h : PruneTimes P cutoff db) (ids : List ℕ) :
    deleteBaselinesIn rep cutoff db ids = deleteBaselines cutoff db ids := by
  have hgone : ∀ e ∈ db.evaluations,
      (decide (rep e.createdAt < rep cutoff ∧ e.snapshotID ∉ db.latestIDs ∧ e.id ∈ ids)) =
        decide (e.createdAt < cutoff ∧ e.snapshotID ∉ db.latestIDs ∧ e.id ∈ ids) := by
    intro e he
    rw [decide_eq_decide, hrep _ _ (h.created e he) h.cutoff]
  unfold deleteBaselinesIn deleteBaselines
  dsimp only
  rw [List.filter_congr hgone, List.filter_congr fun e he => by rw [hgone e he]]

/-- A batch that compares texts deletes the snapshots that one comparing times deletes. -/
theorem drainSnapshotsIn_eq (h : PruneTimes P cutoff db) (batch : ℕ) :
    drainSnapshotsIn rep cutoff batch db = drainSnapshots cutoff batch db := by
  have hfilter : db.snapshots.filter (unreferredIn rep cutoff db) = db.snapshots.filter (unreferred cutoff db) := by
    refine List.filter_congr fun s hs => ?_
    unfold unreferredIn unreferred
    rw [decide_eq_decide, hrep _ _ (h.received s hs) h.cutoff]
  unfold drainSnapshotsIn drainSnapshots
  rw [hfilter]

/-- A claim that compares texts leases the messages that one comparing times leases. -/
theorem claimOutboxIn_eq {now : Time} (hnow : P now) (h : ∀ m ∈ db.outbox, P m.nextAttemptAt) (lease : ℤ) (limit : ℕ) :
    db.claimOutboxIn rep now lease limit = db.claimOutbox now lease limit := by
  have hfilter : (db.outbox.filter fun m => rep m.nextAttemptAt ≤ rep now) =
      db.outbox.filter fun m => m.nextAttemptAt ≤ now := by
    refine List.filter_congr fun m hm => ?_
    rw [decide_eq_decide, hrep.le_iff (h m hm) hnow]
  unfold DB.claimOutboxIn DB.claimOutbox DB.dueMessages
  rw [hfilter]

end Selects

/-! ## Texts -/

/-- A time as SQLite stores it. -/
def columnText (t : Time) : String := formatTime { instant := t }

/-- The UTC year of an instant has four digits. -/
def FourDigits (t : Time) : Prop := ZonedTime.FourDigitYear { instant := t }

/-- Stored texts keep the order of instants of four-digit years. -/
theorem keepsOrder_columnText : KeepsOrder columnText FourDigits := fun _ _ h h' => formatTime_lt_iff h h'

/-- Stored time strings sort as instants: for instants whose UTC year is between 0 and 9999, in any zones, the text of one is
less than that of another exactly when it is earlier, and equal exactly when they are the same instant; the stored text is
read back as the instant; and the statements of a prune and a claim of due messages, comparing texts, select what comparing
times selects. -/
theorem stored_times_sort (X : External) (parse : String → Except String ZonedTime) :
    (∀ t t' : ZonedTime, t.FourDigitYear → t'.FourDigitYear →
      (formatTime t < formatTime t' ↔ t.instant < t'.instant) ∧ (formatTime t = formatTime t' ↔ t.instant = t'.instant)) ∧
    (∀ t : ZonedTime, t.FourDigitYear → parseStoredTime X parse (formatTime t) = .ok t.utc) ∧
    (∀ cutoff db batch ids, PruneTimes FourDigits cutoff db →
      drainEvaluationsIn columnText cutoff batch db = drainEvaluations cutoff batch db ∧
      deleteBaselinesIn columnText cutoff db ids = deleteBaselines cutoff db ids ∧
      drainSnapshotsIn columnText cutoff batch db = drainSnapshots cutoff batch db) ∧
    ∀ (db : DB) now lease limit, FourDigits now → (∀ m ∈ db.outbox, FourDigits m.nextAttemptAt) →
      db.claimOutboxIn columnText now lease limit = db.claimOutbox now lease limit := by
  refine ⟨fun t t' h h' => ⟨formatTime_lt_iff h h', formatTime_eq_iff h h'⟩,
    fun t h => parseStoredTime_formatTime X parse h, fun cutoff db batch ids h => ⟨?_, ?_, ?_⟩, ?_⟩
  · exact drainEvaluationsIn_eq keepsOrder_columnText h batch
  · exact deleteBaselinesIn_eq keepsOrder_columnText h ids
  · exact drainSnapshotsIn_eq keepsOrder_columnText h batch
  · exact fun db now lease limit hnow h => claimOutboxIn_eq keepsOrder_columnText hnow h lease limit

/-- A database with an evaluation of an older snapshot, the latest snapshot, and a message that is due. -/
def agedDB : DB where
  snapshots := [{ id := 1, clusterID := 1, hash := "a", receivedAt := 1, inventory := {} },
    { id := 2, clusterID := 1, hash := "b", receivedAt := 3, inventory := {} }]
  evaluations := [{ id := 1, clusterID := 1, snapshotID := 1, target := "1.31", createdAt := 1, evaluatedAt := 1 }]
  outbox := [{ id := 1, clusterID := 1, sink := "slack", payload := "", nextAttemptAt := 2 }]

/-- The zero time in UTC and a nanosecond later in a zone an hour east sort as they should, and a prune and a claim that
compare the texts of a database's times take its old evaluation and its due message. -/
theorem stored_times_sort_zero : formatTime ⟨0, 0⟩ < formatTime ⟨1, 3600⟩ ∧ formatTime ⟨0, 0⟩ ≠ formatTime ⟨1, 3600⟩ ∧
    parseStoredTime External.ascii (fun _ => .error "") (formatTime ⟨1, 3600⟩) = .ok ⟨1, 0⟩ ∧
    (drainEvaluationsIn columnText 2 10 agedDB).2 = 1 ∧ (deleteBaselinesIn columnText 2 agedDB [1]).2 = 1 ∧
    (drainSnapshotsIn columnText 2 10 agedDB).2 = 0 ∧ (agedDB.claimOutboxIn columnText 2 60 10).2.length = 1 := by
  obtain ⟨horder, hread, hprune, hclaim⟩ := stored_times_sort External.ascii fun _ => .error ""
  obtain ⟨hlt, heq⟩ := horder ⟨0, 0⟩ ⟨1, 3600⟩ (by decide) (by decide)
  have hone : FourDigits 1 := show ZonedTime.FourDigitYear _ by decide
  have htwo : FourDigits 2 := show ZonedTime.FourDigitYear _ by decide
  have hthree : FourDigits 3 := show ZonedTime.FourDigitYear _ by decide
  have htimes : PruneTimes FourDigits 2 agedDB := ⟨htwo, by simp [agedDB, hone], by simp [agedDB, hone, hthree]⟩
  obtain ⟨hevaluations, hbaselines, hsnapshots⟩ := hprune 2 agedDB 10 [1] htimes
  refine ⟨hlt.mpr (by decide), fun h => absurd (heq.mp h) (by decide), hread ⟨1, 3600⟩ (by decide), ?_, ?_, ?_, ?_⟩
  · rw [hevaluations]
    decide
  · rw [hbaselines]
    decide
  · rw [hsnapshots]
    decide
  · rw [hclaim agedDB 2 60 10 htwo (by simp [agedDB, htwo])]
    decide

end UpgradeScope.Store
