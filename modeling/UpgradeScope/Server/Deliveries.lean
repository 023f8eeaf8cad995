import UpgradeScope.Server.Leases

/-!
# The order of deliveries

One worker takes a sink's messages in the order they were queued, but a message whose delivery failed waits out a
backoff, or a hold the sink asked for, while later messages of the sink stay due. So the messages of a sink are
received in queue order in the runs of one worker in which no delivery that fails is tried again or holds its sink
(`delivered_increasing`), and a retried message is received after a later one otherwise
(`delivered_after_retry`). Messages put back for want of lease keep their order: the rest of the batch is put back
with them, because its lease is the same.
-/

namespace UpgradeScope.Outbox

open Go Sorting Store

/-! ## The invariant -/

/-- What one worker without retries keeps: its queues are of different sinks, in queue order and under one lease;
whatever of a sink stands before a waiting message waits too, or the lease has become too short; and what was
delivered stands before what is left. -/
structure InOrder (st : System) : Prop where
  /-- The clock is past zero. -/
  time : 0 ≤ st.now
  /-- No sink is held. -/
  noHolds : ∀ sink, st.holds 0 sink = 0
  /-- There is one worker. -/
  worker : ∀ q ∈ st.queues, q.worker = 0
  /-- The outbox is in queue order. -/
  rows : st.db.outbox.Pairwise fun r s => r.id < s.id
  /-- The ids in the outbox were given. -/
  rowsGiven : ∀ r ∈ st.db.outbox, r.id ≤ st.db.lastMessage
  /-- The ids of deliveries were given. -/
  deliveredGiven : ∀ d ∈ st.delivered, d.id ≤ st.db.lastMessage
  /-- A message that is not claimed is due. -/
  due : ∀ r ∈ st.db.outbox, r.nextAttemptAt ≤ st.now ∨ ∃ m ∈ st.claims, m.id = r.id
  /-- A claimed message is in the outbox. -/
  claimed : ∀ m ∈ st.claims, ∃ r ∈ st.db.outbox, r.id = m.id ∧ r.sink = m.sink
  /-- Different queues are of different sinks. -/
  sinks : st.queues.Pairwise fun q q' => ∀ m ∈ q.claims, ∀ m' ∈ q'.claims, m.sink ≠ m'.sink
  /-- A queue is of one sink, under one lease. -/
  together : ∀ q ∈ st.queues, ∀ m ∈ q.claims, ∀ m' ∈ q.claims,
    m.sink = m'.sink ∧ m.nextAttemptAt = m'.nextAttemptAt
  /-- A queue is in queue order. -/
  increasing : ∀ q ∈ st.queues, q.claims.Pairwise fun m m' => m.id < m'.id
  /-- What stands before a waiting message is in its queue, or the lease is too short for an attempt. -/
  ahead : ∀ q ∈ st.queues, ∀ m ∈ q.waiting, ∀ r ∈ st.db.outbox, r.sink = m.sink → r.id < m.id →
    (∃ m' ∈ q.claims, m'.id = r.id) ∨ m.nextAttemptAt < st.now + attemptNeeds
  /-- A call is for the first message of its sink. -/
  first : ∀ q ∈ st.queues, ∀ c, q.call = some c → ∀ r ∈ st.db.outbox, r.sink = c.message.sink →
    c.message.id ≤ r.id
  /-- A failed call was the last attempt, and holds nothing. -/
  quiet : ∀ q ∈ st.queues, ∀ m started err retryAfter,
    q.call = some ⟨m, started, some (.failed err retryAfter)⟩ →
      outboxMaxAttempts ≤ m.attempts ∧ retryAfterHold retryAfter ≤ 0
  /-- What was delivered stands before what is left, but for a delivery not settled yet. -/
  behind : ∀ d ∈ st.delivered, ∀ r ∈ st.db.outbox, r.sink = d.sink → d.id < r.id ∨
    ∃ q ∈ st.queues, ∃ m started, q.call = some ⟨m, started, some .delivered⟩ ∧ m.id = r.id
  /-- The messages of a sink were delivered in queue order. -/
  order : st.delivered.Pairwise fun a b => a.sink = b.sink → a.id < b.id

namespace InOrder

variable {st : System} (h : InOrder st)

/-- The queues of an empty outbox are in order, at any time. -/
theorem start {now : Time} (hnow : 0 ≤ now) : InOrder { now := now } := by
  constructor <;> simp [hnow, System.claims]

include h

/-- Two messages of the outbox with one id are one. -/
theorem row_unique {r s : OutboxMessage} (hr : r ∈ st.db.outbox) (hs : s ∈ st.db.outbox) (hid : r.id = s.id) :
    r = s := by
  have hnodup : (st.db.outbox.map (·.id)).Nodup :=
    (List.pairwise_map.mpr h.rows).imp fun {a b} hab => Nat.ne_of_lt hab
  exact List.inj_on_of_nodup_map hnodup hr hs hid

/-- Two claims with one id are of one sink. -/
theorem sink_of_id {m m' : OutboxMessage} (hm : m ∈ st.claims) (hm' : m' ∈ st.claims) (hid : m.id = m'.id) :
    m.sink = m'.sink := by
  obtain ⟨r, hr, hrid, hrs⟩ := h.claimed m hm
  obtain ⟨r', hr', hrid', hrs'⟩ := h.claimed m' hm'
  rw [← hrs, ← hrs', h.row_unique hr hr' (by rw [hrid, hrid', hid])]

/-- The queues stay in order as time passes. -/
theorem tick (d : ℕ) : InOrder { st with now := st.now + d } :=
  { h with
    time := add_nonneg h.time (Int.natCast_nonneg d)
    due := fun r hr => (h.due r hr).imp_left fun hle => hle.trans (le_add_of_nonneg_right (Int.natCast_nonneg d))
    ahead := fun q hq m hm r hr hsink hid =>
      (h.ahead q hq m hm r hr hsink hid).imp_right fun hlt => by
        show m.nextAttemptAt < st.now + d + attemptNeeds
        linarith [Int.natCast_nonneg d] }

/-- A message is queued behind the others. -/
theorem insertMessage (clusterID : ℕ) {sink payload : String} {createdAt : Time} (hcreated : createdAt ≤ st.now) :
    InOrder { st with
      db := insertMessage st.now clusterID st.db { sink := sink, payload := payload, createdAt := createdAt } } := by
  have hclaimsGiven : ∀ m ∈ st.claims, m.id ≤ st.db.lastMessage := by
    intro m hm
    obtain ⟨r, hr, hid, -⟩ := h.claimed m hm
    rw [← hid]
    exact h.rowsGiven r hr
  constructor
  case time => exact h.time
  case noHolds => exact h.noHolds
  case worker => exact h.worker
  case sinks => exact h.sinks
  case together => exact h.together
  case increasing => exact h.increasing
  case quiet => exact h.quiet
  case order => exact h.order
  -- The new id is above every id given so far, which is what `rowsGiven` is kept for.
  case rows =>
    refine List.pairwise_append.mpr ⟨h.rows, List.pairwise_singleton _ _, fun r hr s hs => ?_⟩
    rw [List.mem_singleton.mp hs]
    exact Nat.lt_succ_of_le (h.rowsGiven r hr)
  case rowsGiven =>
    intro r hr
    rcases List.mem_append.mp hr with hr | hr
    · exact Nat.le_succ_of_le (h.rowsGiven r hr)
    · rw [List.mem_singleton.mp hr]
      rfl
  case deliveredGiven => exact fun d hd => Nat.le_succ_of_le (h.deliveredGiven d hd)
  -- It is due at its creation, or at once when it has no time.
  case due =>
    intro r hr
    rcases List.mem_append.mp hr with hr | hr
    · exact h.due r hr
    · left
      rw [List.mem_singleton.mp hr]
      show timeOr 0 (timeOr createdAt st.now) ≤ st.now
      rw [timeOr, if_pos rfl, timeOr]
      split_ifs
      · exact le_rfl
      · exact hcreated
  case claimed =>
    intro m hm
    obtain ⟨r, hr, hrest⟩ := h.claimed m hm
    exact ⟨r, List.mem_append_left _ hr, hrest⟩
  -- No claim stands behind the new message, because its id is the largest.
  case ahead =>
    intro q hq m hm r hr hsink hid
    rcases List.mem_append.mp hr with hr | hr
    · exact h.ahead q hq m hm r hr hsink hid
    · have hmem : m ∈ st.claims := List.mem_flatMap.mpr ⟨q, hq, List.mem_append_right _ hm⟩
      rw [List.mem_singleton.mp hr] at hid
      have hlt : st.db.lastMessage + 1 < m.id := hid
      have := hclaimsGiven m hmem
      omega
  case first =>
    intro q hq c hc r hr hsink
    rcases List.mem_append.mp hr with hr | hr
    · exact h.first q hq c hc r hr hsink
    · have hmem : c.message ∈ st.claims :=
        List.mem_flatMap.mpr ⟨q, hq, List.mem_append_left _ (by simp [hc])⟩
      rw [List.mem_singleton.mp hr]
      exact Nat.le_succ_of_le (hclaimsGiven _ hmem)
  case behind =>
    intro d hd r hr hsink
    rcases List.mem_append.mp hr with hr | hr
    · exact h.behind d hd r hr hsink
    · left
      rw [List.mem_singleton.mp hr]
      exact Nat.lt_succ_of_le (h.deliveredGiven d hd)

/-- A worker whose batch is settled claims the first messages of the outbox. -/
theorem claim (hdone : ∀ q ∈ st.queues, q.worker = 0 → q.claims = []) :
    InOrder { st with
      db := (st.db.claimOutbox st.now outboxLease outboxBatch).1
      queues := st.queues.filter (·.worker ≠ 0) ++
        batchQueues 0 (st.db.claimOutbox st.now outboxLease outboxBatch).2 } := by
  have hnone : st.claims = [] := by
    unfold System.claims
    rw [List.flatMap_eq_nil_iff]
    exact fun q hq => hdone q hq (h.worker q hq)
  have hqueues : st.queues.filter (·.worker ≠ 0) = [] := by
    rw [List.filter_eq_nil_iff]
    intro q hq
    simp [h.worker q hq]
  -- With nothing claimed every message is due, so the batch is the front of the outbox.
  have hdue : st.db.dueMessages st.now outboxBatch = st.db.outbox.take outboxBatch := by
    unfold DB.dueMessages
    rw [List.filter_eq_self.mpr, sortOn_of_pairwise (h.rows.imp fun {a b} hab => Nat.le_of_lt hab)]
    intro r hr
    rcases h.due r hr with hle | ⟨m, hm, -⟩
    · exact decide_eq_true hle
    · simp [hnone] at hm
  set front := st.db.outbox.take outboxBatch with hfront
  have hfrontmem : ∀ r ∈ front, r ∈ st.db.outbox := fun r hr => List.mem_of_mem_take hr
  have hmsgs : (st.db.claimOutbox st.now outboxLease outboxBatch).2 =
      front.map (DB.claimed st.now outboxLease) := by
    unfold DB.claimOutbox
    rw [hdue]
  have hrows : (st.db.claimOutbox st.now outboxLease outboxBatch).1.outbox = st.db.outbox.map fun m =>
      if m.id ∈ front.map (·.id) then DB.claimed st.now outboxLease m else m := by
    unfold DB.claimOutbox
    rw [hdue]
  rw [hqueues, List.nil_append, hmsgs]
  set msgs := front.map (DB.claimed st.now outboxLease) with hmsgsdef
  have hmsgmem : ∀ m ∈ msgs, ∃ r ∈ front, m = DB.claimed st.now outboxLease r := by
    intro m hm
    obtain ⟨r, hr, rfl⟩ := List.mem_map.mp hm
    exact ⟨r, hr, rfl⟩
  have hmsginc : msgs.Pairwise fun m m' => m.id < m'.id :=
    List.pairwise_map.mpr (h.rows.sublist (List.take_sublist _ _))
  have hclaims : ∀ q ∈ batchQueues 0 msgs, ∃ sink, q.call = none ∧ q.claims = msgs.filter (·.sink = sink) := by
    intro q hq
    obtain ⟨-, hcall, sink, hwait⟩ := mem_batchQueues hq
    exact ⟨sink, hcall, by simp [Queue.claims, hcall, hwait]⟩
  -- A row after the claim is a row before it, but for its lease.
  have hrow : ∀ r' ∈ (st.db.claimOutbox st.now outboxLease outboxBatch).1.outbox, ∃ r ∈ st.db.outbox,
      r'.id = r.id ∧ r'.sink = r.sink ∧ (r.id ∉ front.map (·.id) → r' = r) := by
    intro r' hr'
    rw [hrows] at hr'
    obtain ⟨r, hr, rfl⟩ := List.mem_map.mp hr'
    refine ⟨r, hr, ?_⟩
    split_ifs with hin
    · exact ⟨rfl, rfl, fun hnot => absurd hin hnot⟩
    · exact ⟨rfl, rfl, fun _ => rfl⟩
  constructor
  case time => exact h.time
  case noHolds => exact h.noHolds
  case order => exact h.order
  case worker => exact fun q hq => (mem_batchQueues hq).1
  case rows =>
    show List.Pairwise _ (st.db.claimOutbox st.now outboxLease outboxBatch).1.outbox
    rw [hrows, List.pairwise_map]
    refine h.rows.imp fun {a b} hab => ?_
    split_ifs <;> exact hab
  case rowsGiven =>
    intro r' hr'
    obtain ⟨r, hr, hid, -⟩ := hrow r' hr'
    rw [hid]
    exact h.rowsGiven r hr
  case deliveredGiven => exact h.deliveredGiven
  case due =>
    intro r' hr'
    obtain ⟨r, hr, hid, -, hsame⟩ := hrow r' hr'
    by_cases hin : r.id ∈ front.map (·.id)
    · right
      obtain ⟨f, hf, hfid⟩ := List.mem_map.mp hin
      refine ⟨DB.claimed st.now outboxLease f, ?_, ?_⟩
      · exact (claims_batchQueues 0 msgs).mem_iff.mpr (List.mem_map_of_mem hf)
      · rw [hid]
        exact hfid
    · left
      rw [hsame hin]
      rcases h.due r hr with hle | ⟨m, hm, -⟩
      · exact hle
      · simp [hnone] at hm
  case claimed =>
    intro m hm
    obtain ⟨r, hr, rfl⟩ := hmsgmem m ((claims_batchQueues 0 msgs).mem_iff.mp hm)
    refine ⟨DB.claimed st.now outboxLease r, ?_, rfl, rfl⟩
    show _ ∈ (st.db.claimOutbox st.now outboxLease outboxBatch).1.outbox
    rw [hrows]
    refine List.mem_map.mpr ⟨r, hfrontmem r hr, ?_⟩
    rw [if_pos (List.mem_map_of_mem hr)]
  case sinks =>
    show List.Pairwise _ (batchQueues 0 msgs)
    unfold batchQueues
    rw [List.pairwise_map]
    have hnodup : (distinctOn id (msgs.map (·.sink))).Nodup := by
      simpa using nodup_distinctOn id (msgs.map (·.sink))
    refine hnodup.imp fun {s s'} hne m hm m' hm' => ?_
    simp only [Queue.claims, Option.map_none, Option.toList_none, List.nil_append, List.mem_filter,
      decide_eq_true_eq] at hm hm'
    rw [hm.2, hm'.2]
    exact hne
  case together =>
    intro q hq m hm m' hm'
    obtain ⟨sink, -, hcl⟩ := hclaims q hq
    rw [hcl] at hm hm'
    obtain ⟨hm, hs⟩ := List.mem_filter.mp hm
    obtain ⟨hm', hs'⟩ := List.mem_filter.mp hm'
    obtain ⟨r, -, rfl⟩ := hmsgmem m hm
    obtain ⟨r', -, rfl⟩ := hmsgmem m' hm'
    exact ⟨(of_decide_eq_true hs).trans (of_decide_eq_true hs').symm, rfl⟩
  case increasing =>
    intro q hq
    obtain ⟨sink, -, hcl⟩ := hclaims q hq
    rw [hcl]
    exact hmsginc.sublist List.filter_sublist
  case ahead =>
    intro q hq m hm r' hr' hsink hlt
    left
    obtain ⟨sink, hcall, hcl⟩ := hclaims q hq
    have hmcl : m ∈ q.claims := List.mem_append_right _ hm
    obtain ⟨r, hr, hid, hrs, -⟩ := hrow r' hr'
    rw [hcl] at hmcl ⊢
    obtain ⟨hmm, hms⟩ := List.mem_filter.mp hmcl
    obtain ⟨f, hf, rfl⟩ := hmsgmem m hmm
    -- The outbox is in queue order, so what stands before a message of its front is in the front.
    have hrfront : r ∈ front := by
      by_contra hnot
      have hdrop : r ∈ st.db.outbox.drop outboxBatch := by
        rcases List.mem_append.mp (List.take_append_drop outboxBatch st.db.outbox ▸ hr) with hr | hr
        · exact absurd hr hnot
        · exact hr
      have hsplit := h.rows
      rw [← List.take_append_drop outboxBatch st.db.outbox] at hsplit
      have hfr := (List.pairwise_append.mp hsplit).2.2 f hf r hdrop
      have hltr : r.id < f.id := hid ▸ hlt
      omega
    refine ⟨DB.claimed st.now outboxLease r, List.mem_filter.mpr ⟨List.mem_map_of_mem hrfront, ?_⟩, hid.symm⟩
    rw [decide_eq_true_eq] at hms ⊢
    exact (hrs.symm.trans hsink).trans hms
  case first =>
    intro q hq c hc
    obtain ⟨-, hcall, -⟩ := hclaims q hq
    rw [hcall] at hc
    simp at hc
  case quiet =>
    intro q hq m started err retryAfter hc
    obtain ⟨-, hcall, -⟩ := hclaims q hq
    rw [hcall] at hc
    simp at hc
  case behind =>
    intro d hd r' hr' hsink
    obtain ⟨r, hr, hid, hrs, -⟩ := hrow r' hr'
    left
    rw [hid]
    rcases h.behind d hd r hr (hrs.symm.trans hsink) with hlt | ⟨q, hq, m, started, hc, -⟩
    · exact hlt
    · have hempty := hdone q hq (h.worker q hq)
      simp [Queue.claims, hc] at hempty

variable {l₁ l₂ : List Queue} {q q' : Queue} {m : OutboxMessage}

/-- A queue opens a call, or its call returns: its claims stay. -/
theorem reopen (hq : st.queues = l₁ ++ q :: l₂) (hclaims : q'.claims = q.claims) (hworker : q'.worker = q.worker)
    (hwait : ∀ x ∈ q'.waiting, x ∈ q.waiting)
    (hfirst : ∀ c, q'.call = some c → ∀ r ∈ st.db.outbox, r.sink = c.message.sink → c.message.id ≤ r.id)
    (hquiet : ∀ m started err retryAfter, q'.call = some ⟨m, started, some (.failed err retryAfter)⟩ →
      outboxMaxAttempts ≤ m.attempts ∧ retryAfterHold retryAfter ≤ 0)
    (hopen : ∀ m started, q.call ≠ some ⟨m, started, some .delivered⟩) :
    InOrder { st with queues := l₁ ++ q' :: l₂ } := by
  have hqmem : q ∈ st.queues := by rw [hq]; exact List.mem_append_right _ List.mem_cons_self
  have hmem : ∀ p ∈ l₁ ++ q' :: l₂, p = q' ∨ p ∈ st.queues := by
    intro p hp
    rw [hq]
    rcases List.mem_append.mp hp with hp | hp
    · exact .inr (List.mem_append_left _ hp)
    · rcases List.mem_cons.mp hp with rfl | hp
      · exact .inl rfl
      · exact .inr (List.mem_append_right _ (List.mem_cons_of_mem _ hp))
  -- The claims of the whole system are the same, so the fields about them carry over.
  have hsame : (l₁ ++ q' :: l₂).flatMap Queue.claims = st.claims := by
    unfold System.claims
    rw [hq, List.flatMap_append, List.flatMap_append, List.flatMap_cons, List.flatMap_cons, hclaims]
  constructor
  case time => exact h.time
  case noHolds => exact h.noHolds
  case order => exact h.order
  case rows => exact h.rows
  case rowsGiven => exact h.rowsGiven
  case deliveredGiven => exact h.deliveredGiven
  case worker =>
    intro p hp
    rcases hmem p hp with rfl | hp
    · rw [hworker]
      exact h.worker q hqmem
    · exact h.worker p hp
  case due =>
    unfold System.claims
    rw [hsame]
    exact h.due
  case claimed =>
    unfold System.claims
    rw [hsame]
    exact h.claimed
  case sinks =>
    have hpair := h.sinks
    rw [hq, List.pairwise_append, List.pairwise_cons] at hpair
    show List.Pairwise _ (l₁ ++ q' :: l₂)
    rw [List.pairwise_append, List.pairwise_cons]
    refine ⟨hpair.1, ⟨fun p hp => hclaims ▸ hpair.2.1.1 p hp, hpair.2.1.2⟩, fun p hp p' hp' => ?_⟩
    rcases List.mem_cons.mp hp' with rfl | hp'
    · rw [hclaims]
      exact hpair.2.2 p hp q List.mem_cons_self
    · exact hpair.2.2 p hp p' (List.mem_cons_of_mem _ hp')
  case together =>
    intro p hp
    rcases hmem p hp with rfl | hp
    · rw [hclaims]
      exact h.together q hqmem
    · exact h.together p hp
  case increasing =>
    intro p hp
    rcases hmem p hp with rfl | hp
    · rw [hclaims]
      exact h.increasing q hqmem
    · exact h.increasing p hp
  case ahead =>
    intro p hp x hx
    rcases hmem p hp with rfl | hp
    · rw [hclaims]
      exact h.ahead q hqmem x (hwait x hx)
    · exact h.ahead p hp x hx
  case first =>
    intro p hp
    rcases hmem p hp with rfl | hp
    · exact hfirst
    · exact h.first p hp
  case quiet =>
    intro p hp
    rcases hmem p hp with rfl | hp
    · exact hquiet
    · exact h.quiet p hp
  -- A delivery that is still to be settled is in another queue: `q` has none.
  case behind =>
    intro d hd r hr hsink
    refine (h.behind d hd r hr hsink).imp_right fun ⟨p, hp, m, started, hc, hid⟩ => ⟨p, ?_, m, started, hc, hid⟩
    rw [hq] at hp
    rcases List.mem_append.mp hp with hp | hp
    · exact List.mem_append_left _ hp
    · rcases List.mem_cons.mp hp with rfl | hp
      · exact absurd hc (hopen m started)
      · exact List.mem_append_right _ (List.mem_cons_of_mem _ hp)

/-- A queue lets go of its first claim, whose message is deleted, or put back because the lease is too short for
an attempt. -/
theorem letGo (hq : st.queues = l₁ ++ q :: l₂) (hclaims : q.claims = m :: q'.waiting) (hnocall : q'.call = none)
    (hworker : q'.worker = q.worker) {db : DB} (hrows : db.outbox.Pairwise fun r s => r.id < s.id)
    (hrow : ∀ r' ∈ db.outbox, ∃ r ∈ st.db.outbox, r'.id = r.id ∧ r'.sink = r.sink ∧ (r.id ≠ m.id → r' = r) ∧
      (r.id = m.id → q.call = none ∧ r'.nextAttemptAt ≤ st.now ∧ m.nextAttemptAt < st.now + attemptNeeds))
    (hkeep : ∀ r ∈ st.db.outbox, r.id ≠ m.id → r ∈ db.outbox) (hlast : db.lastMessage = st.db.lastMessage) :
    InOrder { st with db := db, queues := l₁ ++ q' :: l₂ } := by
  have hqmem : q ∈ st.queues := by rw [hq]; exact List.mem_append_right _ List.mem_cons_self
  have hq'claims : q'.claims = q'.waiting := by simp [Queue.claims, hnocall]
  have hmq : m ∈ q.claims := by rw [hclaims]; exact List.mem_cons_self
  have hpair := h.sinks
  rw [hq, List.pairwise_append, List.pairwise_cons] at hpair
  -- A queue after the step is the new one, or an old one of another sink.
  have hmem : ∀ p ∈ l₁ ++ q' :: l₂, p = q' ∨ (p ∈ st.queues ∧ ∀ x ∈ p.claims, x.sink ≠ m.sink) := by
    intro p hp
    rw [hq]
    rcases List.mem_append.mp hp with hp | hp
    · exact .inr ⟨List.mem_append_left _ hp, fun x hx => hpair.2.2 p hp q List.mem_cons_self x hx m hmq⟩
    · rcases List.mem_cons.mp hp with rfl | hp
      · exact .inl rfl
      · exact .inr ⟨List.mem_append_right _ (List.mem_cons_of_mem _ hp),
          fun x hx => (hpair.2.1.1 p hp m hmq x hx).symm⟩
  have hother : ∀ p ∈ st.queues, p ≠ q → p ∈ l₁ ++ q' :: l₂ := by
    intro p hp hne
    rw [hq] at hp
    rcases List.mem_append.mp hp with hp | hp
    · exact List.mem_append_left _ hp
    · exact List.mem_append_right _ (List.mem_cons_of_mem _ ((List.mem_cons.mp hp).resolve_left hne))
  have hsubset : ∀ x ∈ q'.claims, x ∈ q.claims := by
    intro x hx
    rw [hclaims]
    exact List.mem_cons_of_mem _ (hq'claims ▸ hx)
  have hclaimsub : ∀ x ∈ (l₁ ++ q' :: l₂).flatMap Queue.claims, x ∈ st.claims := by
    intro x hx
    obtain ⟨p, hp, hxp⟩ := List.mem_flatMap.mp hx
    rcases hmem p hp with rfl | ⟨hp, -⟩
    · exact List.mem_flatMap.mpr ⟨q, hqmem, hsubset x hxp⟩
    · exact List.mem_flatMap.mpr ⟨p, hp, hxp⟩
  have hmclaim : m ∈ st.claims := List.mem_flatMap.mpr ⟨q, hqmem, hmq⟩
  -- The claims that are left are of other messages.
  have hinc := h.increasing q hqmem
  rw [hclaims, List.pairwise_cons] at hinc
  have hne : ∀ x ∈ (l₁ ++ q' :: l₂).flatMap Queue.claims, x.id ≠ m.id := by
    intro x hx hid
    obtain ⟨p, hp, hxp⟩ := List.mem_flatMap.mp hx
    rcases hmem p hp with rfl | ⟨-, hsinks⟩
    · have := hinc.1 x (hq'claims ▸ hxp)
      omega
    · exact hsinks x hxp (h.sink_of_id (hclaimsub x hx) hmclaim hid)
  constructor
  case time => exact h.time
  case noHolds => exact h.noHolds
  case order => exact h.order
  case rows => exact hrows
  case worker =>
    intro p hp
    rcases hmem p hp with rfl | ⟨hp, -⟩
    · rw [hworker]
      exact h.worker q hqmem
    · exact h.worker p hp
  case rowsGiven =>
    intro r' hr'
    obtain ⟨r, hr, hid, -⟩ := hrow r' hr'
    show r'.id ≤ db.lastMessage
    rw [hid, hlast]
    exact h.rowsGiven r hr
  case deliveredGiven =>
    intro d hd
    show d.id ≤ db.lastMessage
    rw [hlast]
    exact h.deliveredGiven d hd
  case due =>
    intro r' hr'
    obtain ⟨r, hr, hid, -, hsame, hback⟩ := hrow r' hr'
    by_cases hrm : r.id = m.id
    · exact .inl (hback hrm).2.1
    · rw [hsame hrm]
      refine (h.due r hr).imp_right ?_
      rintro ⟨x, hx, hxid⟩
      refine ⟨x, ?_, hxid⟩
      obtain ⟨p, hp, hxp⟩ := List.mem_flatMap.mp hx
      by_cases hpq : p = q
      · subst hpq
        rw [hclaims] at hxp
        rcases List.mem_cons.mp hxp with rfl | hxp
        · exact absurd hxid.symm hrm
        · exact List.mem_flatMap.mpr ⟨q', List.mem_append_right _ List.mem_cons_self, hq'claims ▸ hxp⟩
      · exact List.mem_flatMap.mpr ⟨p, hother p hp hpq, hxp⟩
  case claimed =>
    intro x hx
    obtain ⟨r, hr, hid, hs⟩ := h.claimed x (hclaimsub x hx)
    exact ⟨r, hkeep r hr (by rw [hid]; exact hne x hx), hid, hs⟩
  case sinks =>
    show List.Pairwise _ (l₁ ++ q' :: l₂)
    rw [List.pairwise_append, List.pairwise_cons]
    refine ⟨hpair.1, ⟨fun p hp x hx y hy => hpair.2.1.1 p hp x (hsubset x hx) y hy, hpair.2.1.2⟩,
      fun p hp p' hp' => ?_⟩
    rcases List.mem_cons.mp hp' with rfl | hp'
    · exact fun x hx y hy => hpair.2.2 p hp q List.mem_cons_self x hx y (hsubset y hy)
    · exact hpair.2.2 p hp p' (List.mem_cons_of_mem _ hp')
  case together =>
    intro p hp x hx y hy
    rcases hmem p hp with rfl | ⟨hp, -⟩
    · exact h.together q hqmem x (hsubset x hx) y (hsubset y hy)
    · exact h.together p hp x hx y hy
  case increasing =>
    intro p hp
    rcases hmem p hp with rfl | ⟨hp, -⟩
    · rw [hq'claims]
      exact hinc.2
    · exact h.increasing p hp
  case ahead =>
    intro p hp x hx r' hr' hsink hlt
    obtain ⟨r, hr, hid, hrs, hsame, hback⟩ := hrow r' hr'
    rcases hmem p hp with rfl | ⟨hpst, hsinks⟩
    · have hxq : x ∈ q.claims := hsubset x (hq'claims ▸ hx)
      have hlease := (h.together q hqmem x hxq m hmq).2
      by_cases hrm : r.id = m.id
      · -- The message put back stands before the rest of its queue, whose lease is the same.
        right
        rw [hlease]
        exact (hback hrm).2.2
      · have hahead : (∃ y ∈ q.claims, y.id = r.id) ∨ x.nextAttemptAt < st.now + attemptNeeds := by
          by_cases hxw : x ∈ q.waiting
          · exact h.ahead q hqmem x hxw r hr (hrs.symm.trans hsink) (hid ▸ hlt)
          · -- `x` is behind `m`, so it is no open call.
            have hcall : q.call = none ∨ ∃ c, q.call = some c := by
              cases q.call <;> simp
            rcases hcall with hcall | ⟨c, hcall⟩
            · simp [Queue.claims, hcall] at hxq
              exact absurd hxq hxw
            · have hcons : c.message :: q.waiting = m :: p.waiting := by
                rw [← hclaims]
                simp [Queue.claims, hcall]
              exact absurd ((List.cons.inj hcons).2 ▸ hx) hxw
        rcases hahead with ⟨y, hy, hyid⟩ | hlate
        · refine .inl ⟨y, ?_, hyid.trans hid.symm⟩
          rw [hclaims] at hy
          rcases List.mem_cons.mp hy with rfl | hy
          · exact absurd hyid.symm hrm
          · exact hq'claims ▸ hy
        · exact .inr hlate
    · by_cases hrm : r.id = m.id
      · -- A message of another queue is of another sink.
        obtain ⟨s, hs, hsid, hss⟩ := h.claimed m hmclaim
        have hrow' : r = s := h.row_unique hr hs (hrm.trans hsid.symm)
        refine absurd ?_ (hsinks x (List.mem_append_right _ hx))
        rw [← hsink, hrs, hrow', hss]
      · refine (h.ahead p hpst x hx r hr (hrs.symm.trans hsink) (hid ▸ hlt)).imp_left ?_
        rintro ⟨y, hy, hyid⟩
        exact ⟨y, hy, hyid.trans hid.symm⟩
  case first =>
    intro p hp c hc r' hr' hsink
    rcases hmem p hp with rfl | ⟨hp, -⟩
    · rw [hnocall] at hc
      simp at hc
    · obtain ⟨r, hr, hid, hrs, -⟩ := hrow r' hr'
      rw [hid]
      exact h.first p hp c hc r hr (hrs.symm.trans hsink)
  case quiet =>
    intro p hp x started err retryAfter hc
    rcases hmem p hp with rfl | ⟨hp, -⟩
    · rw [hnocall] at hc
      simp at hc
    · exact h.quiet p hp x started err retryAfter hc
  case behind =>
    intro d hd r' hr' hsink
    obtain ⟨r, hr, hid, hrs, -, hback⟩ := hrow r' hr'
    rw [hid]
    rcases h.behind d hd r hr (hrs.symm.trans hsink) with hlt | ⟨p, hp, x, started, hc, hxid⟩
    · exact .inl hlt
    · by_cases hpq : p = q
      · -- The delivery that is settled is of `m`, whose message is gone.
        subst hpq
        have hcons : x :: p.waiting = m :: q'.waiting := by
          rw [← hclaims]
          simp [Queue.claims, hc]
        have hrm : r.id = m.id := by
          rw [← hxid, (List.cons.inj hcons).1]
        rw [(hback hrm).1] at hc
        simp at hc
      · exact .inr ⟨p, hother p hp hpq, x, started, hc, hxid⟩

/-- The sink of a queue's first message is called. -/
theorem call (hq : st.queues = l₁ ++ q :: l₂) {rest : List OutboxMessage} (hcall : q.call = none)
    (hwait : q.waiting = m :: rest) (hlease : st.now + attemptNeeds ≤ m.nextAttemptAt) :
    InOrder { st with
      queues := l₁ ++ { q with waiting := rest, call := some ⟨m, st.now, none⟩ } :: l₂ } := by
  have hqmem : q ∈ st.queues := by rw [hq]; exact List.mem_append_right _ List.mem_cons_self
  have hclaims : q.claims = m :: rest := by simp [Queue.claims, hcall, hwait]
  have hinc := h.increasing q hqmem
  rw [hclaims, List.pairwise_cons] at hinc
  refine h.reopen hq (by simp [Queue.claims, hcall, hwait]) rfl ?_ ?_ ?_ ?_
  · intro x hx
    rw [hwait]
    exact List.mem_cons_of_mem _ hx
  · intro c hc r hr hsink
    obtain rfl := Option.some.inj hc
    -- Whatever stood before the message would be in its queue, and before it there.
    by_contra hlt
    rw [not_le] at hlt
    rcases h.ahead q hqmem m (by rw [hwait]; exact List.mem_cons_self) r hr hsink hlt with
      ⟨x, hx, hid⟩ | hshort
    · rw [hclaims] at hx
      rcases List.mem_cons.mp hx with rfl | hx
      · exact absurd hid (Nat.ne_of_gt hlt)
      · have := hinc.1 x hx
        have hltr : r.id < m.id := hlt
        omega
    · exact absurd (hshort.trans_le hlease) (lt_irrefl _)
  · simp
  · simp [hcall]

/-- An open call fails, for the last time and asking for nothing. -/
theorem failed (hq : st.queues = l₁ ++ q :: l₂) {started : Time} (hcall : q.call = some ⟨m, started, none⟩)
    {err : String} {retryAfter : Option ℤ} (hmax : outboxMaxAttempts ≤ m.attempts)
    (hhold : retryAfterHold retryAfter ≤ 0) :
    InOrder { st with
      queues := l₁ ++ { q with call := some ⟨m, started, some (.failed err retryAfter)⟩ } :: l₂ } := by
  have hqmem : q ∈ st.queues := by rw [hq]; exact List.mem_append_right _ List.mem_cons_self
  refine h.reopen hq (by simp [Queue.claims, hcall]) rfl (fun x hx => hx) ?_ ?_ ?_
  · intro c hc r hr hsink
    obtain rfl := Option.some.inj hc
    exact h.first q hqmem _ hcall r hr hsink
  · intro x started' err' retryAfter' hc
    simp only [Option.some.injEq, Call.mk.injEq, Outcome.failed.injEq] at hc
    obtain ⟨rfl, -, -, rfl⟩ := hc
    exact ⟨hmax, hhold⟩
  · simp [hcall]

/-- An open call delivers its message. -/
theorem deliver (hq : st.queues = l₁ ++ q :: l₂) {started : Time} (hcall : q.call = some ⟨m, started, none⟩) :
    InOrder { st with
      queues := l₁ ++ { q with call := some ⟨m, started, some .delivered⟩ } :: l₂
      delivered := st.delivered ++ [m] } := by
  have hqmem : q ∈ st.queues := by rw [hq]; exact List.mem_append_right _ List.mem_cons_self
  have hmclaim : m ∈ st.claims :=
    List.mem_flatMap.mpr ⟨q, hqmem, List.mem_append_left _ (by simp [hcall])⟩
  obtain ⟨s, hs, hsid, hss⟩ := h.claimed m hmclaim
  set q' : Queue := { q with call := some ⟨m, started, some .delivered⟩ } with hq'
  have hopen : InOrder { st with queues := l₁ ++ q' :: l₂ } := by
    refine h.reopen hq (by simp [hq', Queue.claims, hcall]) rfl (fun x hx => hx) ?_ ?_ ?_
    · intro c hc r hr hsink
      obtain rfl := Option.some.inj hc
      exact h.first q hqmem _ hcall r hr hsink
    · simp [hq']
    · simp [hcall]
  refine { hopen with deliveredGiven := ?_, behind := ?_, order := ?_ }
  · intro d hd
    rcases List.mem_append.mp hd with hd | hd
    · exact h.deliveredGiven d hd
    · rw [List.mem_singleton.mp hd, ← hsid]
      exact h.rowsGiven s hs
  · intro d hd r hr hsink
    rcases List.mem_append.mp hd with hd | hd
    · exact hopen.behind d hd r hr hsink
    · rw [List.mem_singleton.mp hd] at hsink ⊢
      -- The call was for the first message of the sink: what is left is behind it, or is the message itself.
      rcases Nat.lt_or_eq_of_le (h.first q hqmem _ hcall r hr hsink) with hlt | heq
      · exact .inl hlt
      · exact .inr ⟨q', List.mem_append_right _ List.mem_cons_self, m, started, rfl, heq⟩
  · refine List.pairwise_append.mpr ⟨h.order, List.pairwise_singleton _ _, fun d hd e he hsink => ?_⟩
    rw [List.mem_singleton.mp he] at hsink ⊢
    rcases h.behind d hd s hs (hss.trans hsink.symm) with hlt | ⟨p, hp, x, started', hc, hxid⟩
    · rwa [hsid] at hlt
    · -- A delivery of the same message that is not settled yet would be in this queue, whose call is open.
      have hxp : x ∈ p.claims := List.mem_append_left _ (by simp [hc])
      have hxclaim : x ∈ st.claims := List.mem_flatMap.mpr ⟨p, hp, hxp⟩
      have hxsink : x.sink = m.sink := h.sink_of_id hxclaim hmclaim (hxid.trans hsid)
      have hmq : m ∈ q.claims := List.mem_append_left _ (by simp [hcall])
      have hpair := h.sinks
      rw [hq, List.pairwise_append, List.pairwise_cons] at hpair
      rw [hq] at hp
      rcases List.mem_append.mp hp with hp | hp
      · exact absurd hxsink (hpair.2.2 p hp q List.mem_cons_self x hxp m hmq)
      · rcases List.mem_cons.mp hp with rfl | hp
        · simp [hcall] at hc
        · exact absurd hxsink.symm (hpair.2.1.1 p hp m hmq x hxp)

/-- A queue lets go of its first claim, and its message is deleted. -/
theorem delete (hq : st.queues = l₁ ++ q :: l₂) (hclaims : q.claims = m :: q'.waiting) (hnocall : q'.call = none)
    (hworker : q'.worker = q.worker) :
    InOrder { st with db := st.db.deleteOutbox m.id, queues := l₁ ++ q' :: l₂ } := by
  refine h.letGo hq hclaims hnocall hworker (h.rows.sublist List.filter_sublist) ?_ ?_ rfl
  · intro r hr
    obtain ⟨hr, hne⟩ := List.mem_filter.mp hr
    exact ⟨r, hr, rfl, rfl, fun _ => rfl, fun heq => absurd heq (of_decide_eq_true hne)⟩
  · exact fun r hr hne => List.mem_filter.mpr ⟨hr, decide_eq_true hne⟩

/-- A queue puts its first message back, because the lease is too short for an attempt. -/
theorem putBack (hq : st.queues = l₁ ++ q :: l₂) (hcall : q.call = none) (hclaims : q.claims = m :: q'.waiting)
    (hnocall : q'.call = none) (hworker : q'.worker = q.worker) (hshort : m.nextAttemptAt < st.now + attemptNeeds) :
    InOrder { st with db := st.db.deferOutbox m.id st.now, queues := l₁ ++ q' :: l₂ } := by
  refine h.letGo hq hclaims hnocall hworker ?_ ?_ ?_ rfl
  · show List.Pairwise _ (List.map _ st.db.outbox)
    rw [List.pairwise_map]
    refine h.rows.imp fun {a b} hab => ?_
    split_ifs <;> exact hab
  · intro r' hr'
    obtain ⟨r, hr, rfl⟩ := List.mem_map.mp hr'
    refine ⟨r, hr, ?_⟩
    split_ifs with hid
    · exact ⟨rfl, rfl, fun hne => absurd hid hne, fun _ => ⟨hcall, le_rfl, hshort⟩⟩
    · exact ⟨rfl, rfl, fun _ => rfl, fun heq => absurd heq hid⟩
  · intro r hr hne
    exact List.mem_map.mpr ⟨r, hr, if_neg hne⟩

end InOrder

/-! ## Runs without retries -/

/-- An event of one worker, in which a failed delivery is the message's last attempt and asks for no hold. -/
def withoutRetry (st : System) : Event → Bool
  | .claim worker => worker = 0
  | .answer i (.failed _ retryAfter) =>
    (st.queues[i]?.bind (·.call)).all fun c =>
      outboxMaxAttempts ≤ c.message.attempts ∧ retryAfterHold retryAfter ≤ 0
  | _ => true

/-- Every event of a run is one of one worker, without a retry or a hold. -/
def runsWithoutRetry (cfg : Config) : System → List Event → Bool
  | _, [] => true
  | st, e :: es => withoutRetry st e && (step cfg st e).all fun st' => runsWithoutRetry cfg st' es

namespace InOrder

variable {cfg : Config} {st st' : System} (h : InOrder st)

include h

/-- No message is held. -/
theorem handling_ne_held (worker : ℕ) (hworker : worker = 0) (m : OutboxMessage) (next : Time) :
    handling cfg (st.holds worker) st.now m ≠ .held next := by
  have hnone : heldUntil (st.holds worker) m.sink st.now = none := by
    unfold heldUntil
    rw [hworker, h.noHolds, if_neg (not_lt.mpr h.time)]
  unfold handling
  rw [hnone]
  split_ifs <;> simp

/-- The queues stay in order when a message has its turn. -/
theorem handle {i : ℕ} (hstep : step cfg st (.handle i) = some st') : InOrder st' := by
  obtain ⟨q, m, rest, hqi, hcall, hwait, rfl⟩ := step_handle hstep
  obtain ⟨l₁, l₂, hq, hset⟩ := split_queue hqi
  have hqmem : q ∈ st.queues := by rw [hq]; exact List.mem_append_right _ List.mem_cons_self
  have hclaims : q.claims = m :: ({ q with waiting := rest } : Queue).waiting := by
    simp [Queue.claims, hcall, hwait]
  unfold System.handled
  cases hhandling : handling cfg (st.holds q.worker) st.now m with
  | dropped =>
    dsimp only
    rw [hset]
    exact h.delete hq hclaims hcall rfl
  | held next => exact absurd hhandling (h.handling_ne_held q.worker (h.worker q hqmem) m next)
  | putBack =>
    dsimp only
    rw [hset]
    exact h.putBack hq hcall hclaims hcall rfl (handling_putBack hhandling)
  | call =>
    dsimp only
    rw [hset]
    exact h.call hq hcall hwait (handling_call hhandling)

/-- The queues stay in order when a call returns. -/
theorem answer {i : ℕ} {outcome : Outcome} (hretry : withoutRetry st (.answer i outcome) = true)
    (hstep : step cfg st (.answer i outcome) = some st') : InOrder st' := by
  obtain ⟨q, m, started, hqi, hcall, rfl⟩ := step_answer hstep
  obtain ⟨l₁, l₂, hq, hset⟩ := split_queue hqi
  rw [hset]
  cases outcome with
  | delivered =>
    rw [if_pos rfl]
    exact h.deliver hq hcall
  | failed err retryAfter =>
    rw [if_neg (by simp)]
    simp only [withoutRetry, hqi, hcall, Option.bind_some, Option.all_some, decide_eq_true_eq] at hretry
    exact h.failed hq hcall hretry.1 hretry.2

/-- The queues stay in order when a call is settled. -/
theorem settle {i : ℕ} (hstep : step cfg st (.settle i) = some st') : InOrder st' := by
  obtain ⟨q, m, started, outcome, hqi, hcall, rfl⟩ := step_settle hstep
  obtain ⟨l₁, l₂, hq, hset⟩ := split_queue hqi
  rw [hset]
  have hqmem : q ∈ st.queues := by rw [hq]; exact List.mem_append_right _ List.mem_cons_self
  have hclaims : q.claims = m :: ({ q with call := none } : Queue).waiting := by simp [Queue.claims, hcall]
  have hdelete := h.delete hq hclaims rfl rfl
  cases outcome with
  | delivered =>
    have hholds : Function.update st.holds q.worker (holdAfter st.now m .delivered (st.holds q.worker)) = st.holds :=
      Function.update_eq_self _ _
    rw [hholds]
    exact hdelete
  | failed err retryAfter =>
    obtain ⟨hmax, hhold⟩ := h.quiet q hqmem m started err retryAfter hcall
    have hholds : Function.update st.holds q.worker
        (holdAfter st.now m (.failed err retryAfter) (st.holds q.worker)) = st.holds := by
      unfold holdAfter
      dsimp only
      rw [if_neg (not_lt.mpr hhold), Function.update_eq_self]
    have hsettled : settled st.now m (.failed err retryAfter) st.db = st.db.deleteOutbox m.id := by
      unfold settled
      dsimp only
      rw [if_pos hmax]
    rw [hholds, hsettled]
    exact hdelete

/-- Every event without a retry keeps the order. -/
theorem step {e : Event} (hretry : withoutRetry st e = true) (hstep : Outbox.step cfg st e = some st') :
    InOrder st' := by
  cases e with
  | tick d =>
    simp only [Outbox.step] at hstep
    split_ifs at hstep
    obtain rfl := Option.some.inj hstep
    exact h.tick d
  | queue clusterID sink payload createdAt =>
    simp only [Outbox.step] at hstep
    split_ifs at hstep with hcreated
    obtain rfl := Option.some.inj hstep
    exact h.insertMessage clusterID hcreated
  | claim worker =>
    obtain rfl : worker = 0 := of_decide_eq_true hretry
    simp only [Outbox.step] at hstep
    split_ifs at hstep with hdone
    obtain rfl := Option.some.inj hstep
    exact h.claim hdone
  | handle i => exact h.handle hstep
  | answer i outcome => exact h.answer hretry hstep
  | settle i => exact h.settle hstep

/-- A run without retries keeps the order. -/
theorem run {es : List Event} (hretry : runsWithoutRetry cfg st es = true)
    (hrun : Outbox.run cfg st es = some st') : InOrder st' := by
  induction es generalizing st with
  | nil =>
    obtain rfl := Option.some.inj hrun
    exact h
  | cons e es ih =>
    obtain ⟨mid, hstep, hrest⟩ := Option.bind_eq_some_iff.mp hrun
    unfold runsWithoutRetry at hretry
    rw [Bool.and_eq_true, hstep] at hretry
    exact ih (h.step hretry.1 hstep) hretry.2 hrest

end InOrder

/-- In every run of one worker in which no delivery that fails is tried again or holds its sink, whatever is put
back for want of lease, the messages of a sink are delivered in increasing id. -/
theorem delivered_increasing {cfg : Config} {now : Time} (hnow : 0 ≤ now) {es : List Event} {st : System}
    (hretry : runsWithoutRetry cfg { now := now } es = true) (hrun : run cfg { now := now } es = some st) :
    st.delivered.Pairwise fun a b => a.sink = b.sink → a.id < b.id :=
  ((InOrder.start hnow).run hretry hrun).order

/-- Two messages are claimed; the second is put back because the first took too long, and delivered after a third
one was queued. -/
def putBackRun : List Event :=
  [.queue 1 "webhook" "{}" 1, .queue 1 "webhook" "{}" 1, .claim 0, tickSeconds 70, .handle 0, tickSeconds 30,
    .answer 0 .delivered, .settle 0, .handle 0, .queue 1 "webhook" "{}" 1, .claim 0, .handle 0,
    .answer 0 .delivered, .settle 0, .handle 0, .answer 0 .delivered]

/-- The three messages arrive in queue order. -/
theorem delivered_of_putBackRun :
    ∃ st, run oneSink { now := 1 } putBackRun = some st ∧ st.delivered.map (·.id) = [1, 2, 3] ∧
      st.delivered.Pairwise fun a b => a.sink = b.sink → a.id < b.id := by
  have hsome : (run oneSink { now := 1 } putBackRun).any (fun st => st.delivered.map (·.id) = [1, 2, 3]) = true := by
    decide +kernel
  obtain ⟨st, hst, hdelivered⟩ := (Option.any_eq_true _ _).mp hsome
  refine ⟨st, hst, of_decide_eq_true hdelivered, ?_⟩
  exact delivered_increasing (by decide) (by decide +kernel) hst

/-- The first of two messages fails once, and is tried again half a minute later. -/
def retryRun : List Event :=
  [.queue 1 "webhook" "{}" 1, .queue 1 "webhook" "{}" 1, .claim 0, .handle 0, .answer 0 (.failed "timeout" none),
    .settle 0, .handle 0, .answer 0 .delivered, .settle 0, tickSeconds 30, .claim 0, .handle 0,
    .answer 0 .delivered]

/-- One worker delivers message 2 of a sink before message 1. -/
theorem delivered_after_retry :
    (run oneSink { now := 1 } retryRun).any (fun st => st.delivered.map (fun m => (m.sink, m.id)) =
      [("webhook", 2), ("webhook", 1)]) = true := by
  decide +kernel

end UpgradeScope.Outbox
