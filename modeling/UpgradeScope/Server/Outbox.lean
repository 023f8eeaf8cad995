import UpgradeScope.Store.Commits

/-!
# Delivering notifications

`internal/server/outbox.go` and `notify_retry.go`: workers claim due messages of the outbox under a lease,
hand them to their sinks one after the other, and settle each one by deleting it, rescheduling it or putting it
back. A system is the outbox, the clock all workers share and the queues of claimed messages (one for each sink
of a worker's batch, as `deliverBatch` makes them); an event is one thing that happens to it, and `step` what it
does. Between a claim and a message's turn any time may pass; a call lasts at most `notifyTimeout` and is settled
within a fifth of that more.
-/

namespace UpgradeScope.Store

open Go Sorting

namespace DB

variable (db : DB)

/-- The oldest due messages, at most `limit` of them. -/
def dueMessages (now : Time) (limit : ℕ) : List OutboxMessage :=
  (sortOn (·.id) (db.outbox.filter fun m => m.nextAttemptAt ≤ now)).take limit

/-- A message as a claim returns it. -/
def claimed (now : Time) (lease : ℤ) (m : OutboxMessage) : OutboxMessage :=
  { m with attempts := m.attempts + 1, nextAttemptAt := now + lease }

/-- `ClaimOutbox`: leases the oldest due messages in one statement. -/
def claimOutbox (now : Time) (lease : ℤ) (limit : ℕ) : DB × List OutboxMessage :=
  let due := db.dueMessages now limit
  ({ db with outbox := db.outbox.map fun m => if m.id ∈ due.map (·.id) then claimed now lease m else m },
    due.map (claimed now lease))

/-- `DeleteOutbox`. -/
def deleteOutbox (id : ℕ) : DB := { db with outbox := db.outbox.filter (·.id ≠ id) }

/-- `RescheduleOutbox`: by id, whoever holds its lease. -/
def rescheduleOutbox (id : ℕ) (next : Time) (lastErr : String) : DB :=
  { db with
    outbox := db.outbox.map fun m =>
      if m.id = id then { m with nextAttemptAt := next, lastError := lastErr } else m }

/-- `DeferOutbox`: by id, whoever holds its lease; the claim is not counted. -/
def deferOutbox (id : ℕ) (next : Time) : DB :=
  { db with
    outbox := db.outbox.map fun m =>
      if m.id = id then { m with nextAttemptAt := next, attempts := m.attempts - 1 } else m }

end DB

end UpgradeScope.Store

namespace UpgradeScope.Outbox

open Go Sorting Store

/-! ## Limits -/

/-- One second. -/
def second : ℤ := 10 ^ 9

/-- `outboxBatch`. -/
def outboxBatch : ℕ := 50

/-- `outboxLease`. -/
def outboxLease : ℤ := 2 * minute

/-- `outboxMaxAttempts`. -/
def outboxMaxAttempts : ℕ := 8

/-- `outboxBaseBackoff`. -/
def outboxBaseBackoff : ℤ := 30 * second

/-- `outboxMaxBackoff`. -/
def outboxMaxBackoff : ℤ := hour

/-- `outboxMaxRetryAfter`. -/
def outboxMaxRetryAfter : ℤ := outboxMaxBackoff

/-- `outboxMaxAge`. -/
def outboxMaxAge : ℤ := outboxMaxAttempts * outboxMaxRetryAfter

/-- `notifyTimeout`. -/
def notifyTimeout : ℤ := 30 * second

/-- What an attempt needs of its lease: the timeout, and a fifth of it to settle. -/
def attemptNeeds : ℤ := notifyTimeout + notifyTimeout / 5

/-- The delay doubled for each further attempt, below the longest backoff. -/
def backoffFrom : ℕ → ℤ → ℤ
  | 0, d => d
  | n + 1, d => if d < outboxMaxBackoff then backoffFrom n (d * 2) else d

/-- `outboxBackoff`: the delay after a failed attempt. -/
def outboxBackoff (attempts : ℕ) : ℤ := min (backoffFrom (attempts - 1) outboxBaseBackoff) outboxMaxBackoff

/-- How a call ends: the sink took the message, or failed and may have asked for a delay. -/
inductive Outcome where
  /-- Delivered. -/
  | delivered
  /-- Failed. -/
  | failed (err : String) (retryAfter : Option ℤ)
  deriving DecidableEq

/-- `retryAfterHold`: how long a sink is held after a failure, 0 when it asked for nothing. -/
def retryAfterHold (retryAfter : Option ℤ) : ℤ := (retryAfter.map fun after => min after outboxMaxRetryAfter).getD 0

/-- `retryDelay`: the backoff, or what the sink asked for if that is longer. -/
def retryDelay (attempts : ℕ) (retryAfter : Option ℤ) : ℤ :=
  match retryAfter with
  | some after => max (outboxBackoff attempts) (min after outboxMaxRetryAfter)
  | none => outboxBackoff attempts

/-- `expiryCap`: a time, or the end of the message's lifetime if that comes first. -/
def expiryCap (m : OutboxMessage) (t : Time) : Time :=
  if m.createdAt = 0 then t else if m.createdAt + outboxMaxAge < t then m.createdAt + outboxMaxAge else t

/-! ## One message's turn -/

/-- What the server is configured with: the names of its sinks, and which payloads decode. -/
structure Config where
  /-- The sinks. -/
  sinks : List String
  /-- Whether a payload is a notification (`notificationOf`). -/
  decodes : String → Bool

/-- What `deliver` does with a claimed message before it calls the sink. -/
inductive Handling where
  /-- Deleted: it has no sink, does not decode or outlived its lifetime. -/
  | dropped
  /-- Deferred to the end of the sink's hold. -/
  | held (next : Time)
  /-- Put back, for want of lease. -/
  | putBack
  /-- The sink is called. -/
  | call
  deriving DecidableEq

/-- `sinkHolds.heldUntil`: until when a sink is held; `none` when it is not. -/
def heldUntil (holds : String → Time) (sink : String) (now : Time) : Option Time :=
  if now < holds sink then some (holds sink) else none

/-- `deliver`, up to the call. -/
def handling (cfg : Config) (holds : String → Time) (now : Time) (m : OutboxMessage) : Handling :=
  if m.sink ∉ cfg.sinks then .dropped
  else if ¬ cfg.decodes m.payload then .dropped
  else if m.createdAt ≠ 0 ∧ outboxMaxAge ≤ now - m.createdAt then .dropped
  else match heldUntil holds m.sink now with
    | some t => .held (expiryCap m t)
    | none =>
      -- The lease would end before this attempt could.
      if attemptNeeds < outboxLease ∧ m.nextAttemptAt < now + attemptNeeds then .putBack else .call

/-- `deliver`, after the call: the message is deleted, or rescheduled when an attempt is left. -/
def settled (now : Time) (m : OutboxMessage) (outcome : Outcome) (db : DB) : DB :=
  match outcome with
  | .delivered => db.deleteOutbox m.id
  | .failed err retryAfter =>
    if outboxMaxAttempts ≤ m.attempts then db.deleteOutbox m.id
    else db.rescheduleOutbox m.id (expiryCap m (now + retryDelay m.attempts retryAfter)) err

/-- `sinkHolds.hold`: a sink is held after a failure that asked for it; a shorter hold replaces no longer
one. -/
def holdAfter (now : Time) (m : OutboxMessage) (outcome : Outcome) (holds : String → Time) :
    String → Time :=
  match outcome with
  | .delivered => holds
  | .failed _ retryAfter =>
    if 0 < retryAfterHold retryAfter then
      Function.update holds m.sink (max (holds m.sink) (now + retryAfterHold retryAfter))
    else holds

/-! ## Workers -/

/-- A call to a sink. -/
structure Call where
  /-- The message. -/
  message : OutboxMessage
  /-- When it started. -/
  started : Time
  /-- How it ended, `none` while it runs. -/
  outcome : Option Outcome := none
  deriving DecidableEq

/-- When a call must have ended, or have been settled. -/
def Call.deadline (c : Call) : Time :=
  match c.outcome with
  | none => c.started + notifyTimeout
  | some _ => c.started + attemptNeeds

/-- The claimed messages of one sink of a worker's batch, in queue order, and the call that is open. -/
structure Queue where
  /-- The worker. -/
  worker : ℕ
  /-- The messages whose turn has not come. -/
  waiting : List OutboxMessage := []
  /-- The open call. -/
  call : Option Call := none
  deriving DecidableEq

/-- The messages of a queue that are not settled. -/
def Queue.claims (q : Queue) : List OutboxMessage := (q.call.map (·.message)).toList ++ q.waiting

/-- The system: the clock, the store, the workers' queues and holds, and what was delivered, the first
first. -/
structure System where
  /-- The clock. -/
  now : Time := 1
  /-- The store. -/
  db : DB := {}
  /-- The queues of all workers. -/
  queues : List Queue := []
  /-- Each worker's holds, 0 for none. -/
  holds : ℕ → String → Time := fun _ _ => 0
  /-- The messages delivered. -/
  delivered : List OutboxMessage := []

/-- What happens to the system. -/
inductive Event where
  /-- Time passes. -/
  | tick (d : ℕ)
  /-- A commit queues a message. -/
  | queue (clusterID : ℕ) (sink payload : String) (createdAt : Time)
  /-- A worker claims a batch. -/
  | claim (worker : ℕ)
  /-- The first message of a queue has its turn. -/
  | handle (i : ℕ)
  /-- The call of a queue returns. -/
  | answer (i : ℕ) (outcome : Outcome)
  /-- The call of a queue is settled. -/
  | settle (i : ℕ)
  deriving DecidableEq

/-- `deliverBatch`: a batch as one queue for each sink, in queue order. -/
def batchQueues (worker : ℕ) (msgs : List OutboxMessage) : List Queue :=
  (distinctOn id (msgs.map (·.sink))).map fun sink => ⟨worker, msgs.filter (·.sink = sink), none⟩

/-- The system after the first message of a queue had its turn. -/
def System.handled (st : System) (cfg : Config) (i : ℕ) (q : Queue) (m : OutboxMessage)
    (rest : List OutboxMessage) : System :=
  match handling cfg (st.holds q.worker) st.now m with
  | .dropped =>
    { st with db := st.db.deleteOutbox m.id, queues := st.queues.set i { q with waiting := rest } }
  | .held next =>
    { st with db := st.db.deferOutbox m.id next, queues := st.queues.set i { q with waiting := rest } }
  | .putBack =>
    { st with db := st.db.deferOutbox m.id st.now, queues := st.queues.set i { q with waiting := rest } }
  | .call => { st with queues := st.queues.set i { q with waiting := rest, call := some ⟨m, st.now, none⟩ } }

/-- What an event does, `none` where it cannot happen. -/
def step (cfg : Config) (st : System) : Event → Option System
  | .tick d =>
    if ∀ q ∈ st.queues, ∀ c ∈ q.call, st.now + d ≤ c.deadline then some { st with now := st.now + d }
    else none
  | .queue clusterID sink payload createdAt =>
    if createdAt ≤ st.now then
      some { st with
        db := insertMessage st.now clusterID st.db { sink := sink, payload := payload, createdAt := createdAt } }
    else none
  | .claim worker =>
    -- A worker waits for its batch before it claims the next one.
    if ∀ q ∈ st.queues, q.worker = worker → q.claims = [] then
      let (db, msgs) := st.db.claimOutbox st.now outboxLease outboxBatch
      some { st with db := db, queues := st.queues.filter (·.worker ≠ worker) ++ batchQueues worker msgs }
    else none
  | .handle i =>
    match st.queues[i]? with
    | some q =>
      match q.call, q.waiting with
      | none, m :: rest => some (st.handled cfg i q m rest)
      | _, _ => none
    | none => none
  | .answer i outcome =>
    match st.queues[i]? with
    | some q =>
      match q.call with
      | some ⟨m, started, none⟩ =>
        some { st with
          queues := st.queues.set i { q with call := some ⟨m, started, some outcome⟩ }
          delivered := if outcome = .delivered then st.delivered ++ [m] else st.delivered }
      | _ => none
    | none => none
  | .settle i =>
    match st.queues[i]? with
    | some q =>
      match q.call with
      | some ⟨m, _, some outcome⟩ =>
        some { st with
          db := settled st.now m outcome st.db
          queues := st.queues.set i { q with call := none }
          holds := Function.update st.holds q.worker (holdAfter st.now m outcome (st.holds q.worker)) }
      | _ => none
    | none => none

/-- The system after a list of events. -/
def run (cfg : Config) (st : System) : List Event → Option System
  | [] => some st
  | e :: es => (step cfg st e).bind fun st' => run cfg st' es

/-! ## What an event does -/

/-- A queue of the system stands somewhere among the others, and is replaced there. -/
theorem split_queue {l : List Queue} {i : ℕ} {q : Queue} (h : l[i]? = some q) :
    ∃ l₁ l₂, l = l₁ ++ q :: l₂ ∧ ∀ q', l.set i q' = l₁ ++ q' :: l₂ := by
  obtain ⟨hi, rfl⟩ := List.getElem?_eq_some_iff.mp h
  refine ⟨l.take i, l.drop (i + 1), ?_, fun q' => ?_⟩
  · rw [List.getElem_cons_drop, List.take_append_drop]
  · rw [List.set_eq_take_append_cons_drop, if_pos hi]

/-- A sink is called only when it is not held and the lease outlasts the attempt. -/
theorem handling_call {cfg : Config} {holds : String → Time} {now : Time} {m : OutboxMessage}
    (h : handling cfg holds now m = .call) : now + attemptNeeds ≤ m.nextAttemptAt := by
  by_contra hlate
  have hlease : attemptNeeds < outboxLease ∧ m.nextAttemptAt < now + attemptNeeds :=
    ⟨by decide, not_le.mp hlate⟩
  unfold handling at h
  simp only [hlease, and_self, if_true] at h
  split_ifs at h
  split at h <;> simp at h

/-- A message is put back only when its lease ends before an attempt could. -/
theorem handling_putBack {cfg : Config} {holds : String → Time} {now : Time} {m : OutboxMessage}
    (h : handling cfg holds now m = .putBack) : m.nextAttemptAt < now + attemptNeeds := by
  by_contra hlate
  have hlease : ¬ (attemptNeeds < outboxLease ∧ m.nextAttemptAt < now + attemptNeeds) := fun hand =>
    hlate hand.2
  unfold handling at h
  rw [if_neg hlease] at h
  split_ifs at h
  split at h <;> simp at h

section Inversion

variable {cfg : Config} {st st' : System}

/-- A turn is that of the first message of a queue with no call open. -/
theorem step_handle {i : ℕ} (h : step cfg st (.handle i) = some st') :
    ∃ q m rest, st.queues[i]? = some q ∧ q.call = none ∧ q.waiting = m :: rest ∧
      st' = st.handled cfg i q m rest := by
  simp only [step] at h
  cases hqi : st.queues[i]? with
  | none => simp [hqi] at h
  | some q =>
    rw [hqi] at h
    dsimp only at h
    cases hcall : q.call with
    | some c => simp [hcall] at h
    | none =>
      cases hwait : q.waiting with
      | nil => simp [hcall, hwait] at h
      | cons m rest =>
        simp only [hcall, hwait, Option.some.injEq] at h
        exact ⟨q, m, rest, rfl, hcall, hwait, h.symm⟩

/-- A call that returns was open. -/
theorem step_answer {i : ℕ} {outcome : Outcome} (h : step cfg st (.answer i outcome) = some st') :
    ∃ q m started, st.queues[i]? = some q ∧ q.call = some ⟨m, started, none⟩ ∧
      st' = { st with
        queues := st.queues.set i { q with call := some ⟨m, started, some outcome⟩ }
        delivered := if outcome = .delivered then st.delivered ++ [m] else st.delivered } := by
  simp only [step] at h
  cases hqi : st.queues[i]? with
  | none => simp [hqi] at h
  | some q =>
    rw [hqi] at h
    dsimp only at h
    cases hcall : q.call with
    | none => simp [hcall] at h
    | some c =>
      obtain ⟨m, started, result⟩ := c
      cases result with
      | some o => simp [hcall] at h
      | none =>
        simp only [hcall, Option.some.injEq] at h
        exact ⟨q, m, started, rfl, hcall, h.symm⟩

/-- A call that is settled had returned. -/
theorem step_settle {i : ℕ} (h : step cfg st (.settle i) = some st') :
    ∃ q m started outcome, st.queues[i]? = some q ∧ q.call = some ⟨m, started, some outcome⟩ ∧
      st' = { st with
        db := settled st.now m outcome st.db
        queues := st.queues.set i { q with call := none }
        holds := Function.update st.holds q.worker (holdAfter st.now m outcome (st.holds q.worker)) } := by
  simp only [step] at h
  cases hqi : st.queues[i]? with
  | none => simp [hqi] at h
  | some q =>
    rw [hqi] at h
    dsimp only at h
    cases hcall : q.call with
    | none => simp [hcall] at h
    | some c =>
      obtain ⟨m, started, result⟩ := c
      cases result with
      | none => simp [hcall] at h
      | some outcome =>
        simp only [hcall, Option.some.injEq] at h
        exact ⟨q, m, started, outcome, rfl, hcall, h.symm⟩

end Inversion

end UpgradeScope.Outbox
