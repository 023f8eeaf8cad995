import UpgradeScope.Server.Outbox

/-!
# Leases and overlapping calls

A message is called only under a lease that outlasts the call, but a deferral or a reschedule is by the message's
id alone and does not ask whether the lease is still the writer's. So the calls for one message never overlap in
the runs in which every message that goes back to the outbox does so before the lease it was claimed under ends
(`running_nodup`), and they do in a run where a slow worker puts one back after that
(`overlap_after_late_putBack`). The invariant is `Leased`: of the claims of one message, at most one has a lease
that has not ended, and the outbox does not offer the message before that lease ends.
-/

namespace UpgradeScope.Outbox

open Go Sorting Store

/-! ## Queues -/

/-- The claimed messages that are not settled. -/
def System.claims (st : System) : List OutboxMessage := st.queues.flatMap Queue.claims

/-- The messages of the calls that run. -/
def System.running (st : System) : List ℕ :=
  st.queues.filterMap fun q => q.call.bind fun c => if c.outcome.isNone then some c.message.id else none

/-- A queue that keeps only some of its claims leaves some of the system's. -/
theorem claims_sublist {l₁ l₂ : List Queue} {q q' : Queue} (h : q'.claims.Sublist q.claims) :
    ((l₁ ++ q' :: l₂).flatMap Queue.claims).Sublist ((l₁ ++ q :: l₂).flatMap Queue.claims) := by
  rw [List.flatMap_append, List.flatMap_append, List.flatMap_cons, List.flatMap_cons]
  exact (List.Sublist.refl _).append (h.append (List.Sublist.refl _))

/-- The queues of a batch hold its messages, each with no call open. -/
theorem mem_batchQueues {worker : ℕ} {msgs : List OutboxMessage} {q : Queue}
    (h : q ∈ batchQueues worker msgs) :
    q.worker = worker ∧ q.call = none ∧ ∃ sink, q.waiting = msgs.filter (·.sink = sink) := by
  obtain ⟨sink, -, rfl⟩ := List.mem_map.mp h
  exact ⟨rfl, rfl, sink, rfl⟩

/-- The claims of a batch's queues are its messages. -/
theorem claims_batchQueues (worker : ℕ) (msgs : List OutboxMessage) :
    ((batchQueues worker msgs).flatMap Queue.claims).Perm msgs := by
  unfold batchQueues
  rw [List.flatMap_map]
  exact perm_flatMap_distinctOn (·.sink) msgs

/-! ## The invariant -/

/-- The lease of a message has not ended. -/
def leased (now : Time) (m : OutboxMessage) : Bool := now < m.nextAttemptAt

/-- At most one claim of a message has a lease that has not ended, and the outbox does not offer the message
before that. -/
structure Leased (st : System) : Prop where
  /-- No two messages share an id. -/
  ids : (st.db.outbox.map (·.id)).Nodup
  /-- The ids in the outbox were given. -/
  outboxGiven : ∀ r ∈ st.db.outbox, r.id ≤ st.db.lastMessage
  /-- The ids of claims were given. -/
  claimsGiven : ∀ m ∈ st.claims, m.id ≤ st.db.lastMessage
  /-- A message is not due again before its lease ends. -/
  offered : ∀ m ∈ st.claims, leased st.now m = true → ∀ r ∈ st.db.outbox, r.id = m.id →
    m.nextAttemptAt ≤ r.nextAttemptAt
  /-- One claim of a message at most has a lease that has not ended. -/
  unique : ((st.claims.filter (leased st.now)).map (·.id)).Nodup
  /-- A call ends and is settled within its lease. -/
  calls : ∀ q ∈ st.queues, ∀ c, q.call = some c →
    c.started + attemptNeeds ≤ c.message.nextAttemptAt ∧ st.now ≤ c.deadline

/-- The timeout is shorter than what an attempt needs, and that shorter than a lease. -/
theorem attemptNeeds_bounds : notifyTimeout < attemptNeeds ∧ attemptNeeds < outboxLease := by
  constructor <;> decide

namespace Leased

variable {st : System} (h : Leased st)

include h

/-- The messages of running calls are different. -/
theorem running_nodup : st.running.Nodup := by
  refine h.unique.sublist ?_
  -- Queue by queue: a running call's claim is in its lease.
  have hsub : ∀ l : List Queue, (∀ q ∈ l, q ∈ st.queues) →
      (l.filterMap fun q => q.call.bind fun c =>
        if c.outcome.isNone then some c.message.id else none).Sublist
        (((l.flatMap Queue.claims).filter (leased st.now)).map (·.id)) := by
    intro l hl
    induction l with
    | nil => exact .slnil
    | cons q l ih =>
      have ih' := ih fun q' hq' => hl q' (List.mem_cons_of_mem _ hq')
      rw [List.flatMap_cons, List.filter_append, List.map_append, List.filterMap_cons]
      cases hc : q.call with
      | none => exact ih'.trans (List.sublist_append_right _ _)
      | some c =>
        by_cases hout : c.outcome = none
        · have hlive : leased st.now c.message = true := by
            obtain ⟨hneeds, hdeadline⟩ := h.calls q (hl q List.mem_cons_self) c hc
            have hbounds := attemptNeeds_bounds
            simp only [Call.deadline, hout] at hdeadline
            refine decide_eq_true ?_
            linarith [hbounds.1]
          have hclaims : c.message.id ∈ (q.claims.filter (leased st.now)).map (·.id) :=
            List.mem_map_of_mem (List.mem_filter.mpr ⟨by simp [Queue.claims, hc], hlive⟩)
          simp only [Option.bind_some, hout, Option.isNone_none, if_true]
          exact (List.singleton_sublist.mpr hclaims).append ih'
        · have hsome : c.outcome.isNone = false := by
            rw [← Bool.not_eq_true, Option.isNone_iff_eq_none]
            exact hout
          simp only [Option.bind_some, hsome, Bool.false_eq_true, if_false]
          exact ih'.trans (List.sublist_append_right _ _)
  exact hsub st.queues fun _ hq => hq

/-- The leases' invariant holds as time passes: leases end. -/
theorem tick {d : ℕ} (hdeadline : ∀ q ∈ st.queues, ∀ c ∈ q.call, st.now + d ≤ c.deadline) :
    Leased { st with now := st.now + d } where
  ids := h.ids
  outboxGiven := h.outboxGiven
  claimsGiven := h.claimsGiven
  offered m hm hlive := h.offered m hm (by
    have hlt : st.now + d < m.nextAttemptAt := of_decide_eq_true hlive
    exact decide_eq_true (by linarith [Int.natCast_nonneg d]))
  unique := by
    refine h.unique.sublist (List.Sublist.map _ ?_)
    refine List.monotone_filter_right _ fun m hlive => ?_
    have hlt : st.now + d < m.nextAttemptAt := of_decide_eq_true hlive
    exact decide_eq_true (by linarith [Int.natCast_nonneg d])
  calls q hq c hc := ⟨(h.calls q hq c hc).1, hdeadline q hq c hc⟩

/-- A message is queued: it is nobody's claim. -/
theorem insertMessage (clusterID : ℕ) (m : OutboxMessage) :
    Leased { st with db := insertMessage st.now clusterID st.db m } where
  ids := by
    simp only [Store.insertMessage, List.map_append, List.map_cons, List.map_nil]
    rw [List.nodup_append]
    refine ⟨h.ids, by simp, fun a ha b hb => ?_⟩
    obtain ⟨r, hr, rfl⟩ := List.mem_map.mp ha
    rw [List.mem_singleton.mp hb]
    exact Nat.ne_of_lt (Nat.lt_succ_of_le (h.outboxGiven r hr))
  outboxGiven r hr := by
    rcases List.mem_append.mp hr with hr | hr
    · exact Nat.le_succ_of_le (h.outboxGiven r hr)
    · rw [List.mem_singleton.mp hr]
      rfl
  claimsGiven c hc := Nat.le_succ_of_le (h.claimsGiven c hc)
  offered c hc hlive r hr hid := by
    rcases List.mem_append.mp hr with hr | hr
    · exact h.offered c hc hlive r hr hid
    · rw [List.mem_singleton.mp hr] at hid
      have hgiven := h.claimsGiven c hc
      have hnew : st.db.lastMessage + 1 = c.id := hid
      omega
  unique := h.unique
  calls := h.calls

/-- A worker claims a batch: nobody has a lease on the messages that are due. -/
theorem claim {worker : ℕ} (hdone : ∀ q ∈ st.queues, q.worker = worker → q.claims = []) :
    Leased { st with
      db := (st.db.claimOutbox st.now outboxLease outboxBatch).1
      queues := st.queues.filter (·.worker ≠ worker) ++
        batchQueues worker (st.db.claimOutbox st.now outboxLease outboxBatch).2 } := by
  set due := st.db.dueMessages st.now outboxBatch with hdue
  have hmemdue : ∀ r ∈ due, r ∈ st.db.outbox ∧ r.nextAttemptAt ≤ st.now := by
    intro r hr
    have hmem := List.mem_filter.mp (mem_sortOn.mp (List.mem_of_mem_take hr))
    exact ⟨hmem.1, of_decide_eq_true hmem.2⟩
  have hids : ((st.db.claimOutbox st.now outboxLease outboxBatch).1.outbox.map (·.id)) =
      st.db.outbox.map (·.id) := by
    simp only [DB.claimOutbox, List.map_map]
    refine List.map_congr_left fun r _ => ?_
    rw [Function.comp_apply]
    split_ifs <;> rfl
  -- What the worker had is settled, so the claims are the others' and the batch's.
  have hkeep : (st.queues.filter (·.worker ≠ worker)).flatMap Queue.claims = st.claims := by
    unfold System.claims
    generalize hl : st.queues = l at hdone
    clear hl
    induction l with
    | nil => rfl
    | cons q l ih =>
      have ih' := ih fun q' hq' => hdone q' (List.mem_cons_of_mem _ hq')
      by_cases hw : q.worker = worker
      · rw [List.filter_cons_of_neg (by simpa using hw), ih', List.flatMap_cons,
          hdone q List.mem_cons_self hw, List.nil_append]
      · rw [List.filter_cons_of_pos (by simpa using hw), List.flatMap_cons, List.flatMap_cons, ih']
  have hperm : ((st.queues.filter (·.worker ≠ worker) ++
      batchQueues worker (st.db.claimOutbox st.now outboxLease outboxBatch).2).flatMap Queue.claims).Perm
        (st.claims ++ due.map (DB.claimed st.now outboxLease)) := by
    rw [List.flatMap_append, hkeep]
    exact (claims_batchQueues worker _).append_left _
  have hclaim : ∀ m, m ∈ (st.queues.filter (·.worker ≠ worker) ++
      batchQueues worker (st.db.claimOutbox st.now outboxLease outboxBatch).2).flatMap Queue.claims →
        m ∈ st.claims ∨ ∃ r ∈ due, m = DB.claimed st.now outboxLease r := by
    intro m hm
    rcases List.mem_append.mp (hperm.mem_iff.mp hm) with hm | hm
    · exact .inl hm
    · obtain ⟨r, hr, rfl⟩ := List.mem_map.mp hm
      exact .inr ⟨r, hr, rfl⟩
  constructor
  · rw [hids]
    exact h.ids
  · intro r hr
    have hmem : r.id ∈ st.db.outbox.map (·.id) := by
      rw [← hids]
      exact List.mem_map_of_mem hr
    obtain ⟨s, hs, hid⟩ := List.mem_map.mp hmem
    rw [← hid]
    exact h.outboxGiven s hs
  · intro m hm
    rcases hclaim m hm with hm | ⟨r, hr, rfl⟩
    · exact h.claimsGiven m hm
    · exact h.outboxGiven r (hmemdue r hr).1
  · intro m hm hlive r hr hid
    obtain ⟨s, hs, rfl⟩ := List.mem_map.mp hr
    rcases hclaim m hm with hm | ⟨r', hr', rfl⟩
    · -- A claim in its lease: its message was not due.
      have hoffered := h.offered m hm hlive s hs (by split_ifs at hid <;> exact hid)
      split_ifs with hin
      · obtain ⟨s', hs', hid'⟩ := List.mem_map.mp hin
        have hsame := List.inj_on_of_nodup_map h.ids (hmemdue s' hs').1 hs hid'
        have hnow := (hmemdue s' hs').2
        have hlt : st.now < m.nextAttemptAt := of_decide_eq_true hlive
        rw [hsame] at hnow
        exact absurd (hlt.trans_le (hoffered.trans hnow)) (lt_irrefl _)
      · exact hoffered
    · have hsid : s.id = r'.id := by split_ifs at hid <;> exact hid
      rw [if_pos (by rw [hsid]; exact List.mem_map_of_mem hr')]
      exact le_rfl
  · refine ((hperm.filter _).map _).nodup_iff.mpr ?_
    rw [List.filter_append, List.map_append, List.nodup_append]
    refine ⟨h.unique, ?_, fun a ha b hb => ?_⟩
    · refine List.Nodup.sublist (List.filter_sublist.map _) ?_
      rw [List.map_map]
      have hdueids : ((sortOn (·.id) (st.db.outbox.filter fun m => m.nextAttemptAt ≤ st.now)).map
          (·.id)).Nodup :=
        ((sortOn_perm _ _).map _).nodup_iff.mpr (h.ids.sublist (List.filter_sublist.map _))
      exact hdueids.sublist ((List.take_sublist _ _).map _)
    · obtain ⟨m, hm, rfl⟩ := List.mem_map.mp ha
      obtain ⟨m', hm', rfl⟩ := List.mem_map.mp hb
      obtain ⟨hmem, hlive⟩ := List.mem_filter.mp hm
      obtain ⟨r, hr, rfl⟩ := List.mem_map.mp (List.mem_filter.mp hm').1
      intro heq
      have hoffered := h.offered m hmem hlive r (hmemdue r hr).1 heq.symm
      have hnow := (hmemdue r hr).2
      have hlt : st.now < m.nextAttemptAt := of_decide_eq_true hlive
      exact absurd (hlt.trans_le (hoffered.trans hnow)) (lt_irrefl _)
  · intro q hq c hc
    rcases List.mem_append.mp hq with hq | hq
    · exact h.calls q (List.mem_filter.mp hq).1 c hc
    · rw [(mem_batchQueues hq).2.1] at hc
      simp at hc

variable {l₁ l₂ : List Queue} {q q' : Queue} {f : OutboxMessage → OutboxMessage}

/-- A queue is replaced by one with some of its claims, and the outbox rewritten so that what is leased stays
so. -/
theorem replace (hq : st.queues = l₁ ++ q :: l₂) (hclaims : q'.claims.Sublist q.claims)
    (hcalls : ∀ c, q'.call = some c → c.started + attemptNeeds ≤ c.message.nextAttemptAt ∧ st.now ≤ c.deadline)
    (db : DB) (hids : (db.outbox.map (·.id)).Sublist (st.db.outbox.map (·.id)))
    (hlast : db.lastMessage = st.db.lastMessage)
    (hoffered : ∀ m ∈ (l₁ ++ q' :: l₂).flatMap Queue.claims, leased st.now m = true →
      ∀ r ∈ db.outbox, r.id = m.id → m.nextAttemptAt ≤ r.nextAttemptAt) (holds : ℕ → String → Time)
    (delivered : List OutboxMessage) :
    Leased ⟨st.now, db, l₁ ++ q' :: l₂, holds, delivered⟩ := by
  -- No claim is new, so what was unique stays so.
  have hsub : ((l₁ ++ q' :: l₂).flatMap Queue.claims).Sublist st.claims := by
    unfold System.claims
    rw [hq]
    exact claims_sublist hclaims
  constructor
  · exact h.ids.sublist hids
  · intro r hr
    obtain ⟨s, hs, hid⟩ := List.mem_map.mp (hids.subset (List.mem_map_of_mem hr))
    show r.id ≤ db.lastMessage
    rw [hlast, ← hid]
    exact h.outboxGiven s hs
  · intro m hm
    show m.id ≤ db.lastMessage
    rw [hlast]
    exact h.claimsGiven m (hsub.subset hm)
  · exact hoffered
  · exact h.unique.sublist ((hsub.filter _).map _)
  · intro p hp c hc
    rcases List.mem_append.mp hp with hp | hp
    · exact h.calls p (by rw [hq]; exact List.mem_append_left _ hp) c hc
    · rcases List.mem_cons.mp hp with rfl | hp
      · exact hcalls c hc
      · exact h.calls p (by rw [hq]; exact List.mem_append_right _ (List.mem_cons_of_mem _ hp)) c hc

/-- What is leased stays offered no earlier, when rows keep their due time or go. -/
theorem offered_of_subset (hq : st.queues = l₁ ++ q :: l₂) (hclaims : q'.claims.Sublist q.claims) {db : DB}
    (hrows : ∀ r ∈ db.outbox, r ∈ st.db.outbox) :
    ∀ m ∈ (l₁ ++ q' :: l₂).flatMap Queue.claims, leased st.now m = true →
      ∀ r ∈ db.outbox, r.id = m.id → m.nextAttemptAt ≤ r.nextAttemptAt := by
  intro m hm hlive r hr
  have hmem : m ∈ st.claims := by
    unfold System.claims
    rw [hq]
    exact (claims_sublist hclaims).subset hm
  exact h.offered m hmem hlive r (hrows r hr)

/-- A message that goes back to the outbox within its lease is nobody else's. -/
theorem offered_of_putBack (hq : st.queues = l₁ ++ q :: l₂) {m₀ : OutboxMessage} (hclaims : q.claims = m₀ :: q'.claims)
    (hlive₀ : leased st.now m₀ = true) (hf : ∀ r, (f r).id = r.id) :
    ∀ m ∈ (l₁ ++ q' :: l₂).flatMap Queue.claims, leased st.now m = true →
      ∀ r ∈ st.db.outbox.map (fun r => if r.id = m₀.id then f r else r), r.id = m.id →
        m.nextAttemptAt ≤ r.nextAttemptAt := by
  have hsplit : st.claims = l₁.flatMap Queue.claims ++ m₀ :: (q'.claims ++ l₂.flatMap Queue.claims) := by
    unfold System.claims
    rw [hq, List.flatMap_append, List.flatMap_cons, hclaims, List.cons_append]
  have hunique := h.unique
  rw [hsplit, List.filter_append, List.filter_cons_of_pos hlive₀, List.map_append, List.map_cons,
    List.nodup_middle, List.nodup_cons, ← List.map_append, ← List.filter_append] at hunique
  intro m hm hlive r hr hid
  have hmem : m ∈ l₁.flatMap Queue.claims ++ (q'.claims ++ l₂.flatMap Queue.claims) := by
    rwa [List.flatMap_append, List.flatMap_cons] at hm
  have hne : m.id ≠ m₀.id := fun heq =>
    hunique.1 (heq ▸ List.mem_map_of_mem (List.mem_filter.mpr ⟨hmem, hlive⟩))
  have hmem' : m ∈ st.claims := by
    rw [hsplit]
    rcases List.mem_append.mp hmem with hm | hm
    · exact List.mem_append_left _ hm
    · exact List.mem_append_right _ (List.mem_cons_of_mem _ hm)
  obtain ⟨s, hs, rfl⟩ := List.mem_map.mp hr
  split_ifs at hid ⊢ with hsid
  · exact absurd ((hf s).symm.trans hid ▸ hsid) hne
  · exact h.offered m hmem' hlive s hs hid

/-- A queue lets go of a claim, and its message is deleted. -/
theorem delete (hq : st.queues = l₁ ++ q :: l₂) (hclaims : q'.claims.Sublist q.claims) (hnocall : q'.call = none)
    (id : ℕ) (holds : ℕ → String → Time) (delivered : List OutboxMessage) :
    Leased ⟨st.now, st.db.deleteOutbox id, l₁ ++ q' :: l₂, holds, delivered⟩ := by
  have hrows : ∀ r ∈ (st.db.deleteOutbox id).outbox, r ∈ st.db.outbox := fun r hr =>
    (List.mem_filter.mp hr).1
  exact h.replace hq hclaims (by simp [hnocall]) (st.db.deleteOutbox id) (List.filter_sublist.map _) rfl
    (h.offered_of_subset hq hclaims hrows) _ _

/-- A queue lets go of a claim in its lease, and its message goes back to the outbox. -/
theorem putBack (hq : st.queues = l₁ ++ q :: l₂) {m : OutboxMessage} (hclaims : q.claims = m :: q'.claims)
    (hlive : leased st.now m = true) (hnocall : q'.call = none) (db : DB)
    (hrows : db.outbox = st.db.outbox.map fun r => if r.id = m.id then f r else r) (hf : ∀ r, (f r).id = r.id)
    (hlast : db.lastMessage = st.db.lastMessage) (holds : ℕ → String → Time) (delivered : List OutboxMessage) :
    Leased ⟨st.now, db, l₁ ++ q' :: l₂, holds, delivered⟩ := by
  have hsub : q'.claims.Sublist q.claims := by
    rw [hclaims]
    exact List.sublist_cons_self _ _
  have hids : db.outbox.map (·.id) = st.db.outbox.map (·.id) := by
    rw [hrows, List.map_map]
    refine List.map_congr_left fun r _ => ?_
    rw [Function.comp_apply]
    split_ifs
    · exact hf r
    · rfl
  refine h.replace hq hsub (by simp [hnocall]) db ?_ hlast ?_ _ _
  · rw [hids]
  · rw [hrows]
    exact h.offered_of_putBack hq hclaims hlive hf

end Leased

/-! ## Runs within leases -/

/-- The message that an event puts back into the outbox, by a deferral or a reschedule. -/
def putsBack (cfg : Config) (st : System) : Event → Option OutboxMessage
  | .handle i => st.queues[i]?.bind fun q =>
    match q.call, q.waiting with
    | none, m :: _ =>
      match handling cfg (st.holds q.worker) st.now m with
      | .held _ => some m
      | .putBack => some m
      | _ => none
    | _, _ => none
  | .settle i => st.queues[i]?.bind fun q =>
    match q.call with
    | some ⟨m, _, some (.failed _ _)⟩ => if outboxMaxAttempts ≤ m.attempts then none else some m
    | _ => none
  | _ => none

/-- Whatever an event puts back goes back before the lease it was claimed under ends. -/
def inLease (cfg : Config) (st : System) (e : Event) : Bool :=
  (putsBack cfg st e).all fun m => st.now < m.nextAttemptAt

/-- Every event of a run that puts a message back does so within its lease. -/
def runsInLease (cfg : Config) : System → List Event → Bool
  | _, [] => true
  | st, e :: es => inLease cfg st e && (step cfg st e).all fun st' => runsInLease cfg st' es

/-- A message put back within its lease. -/
theorem leased_of_inLease {cfg : Config} {st : System} {e : Event} {m : OutboxMessage}
    (h : inLease cfg st e = true) (hm : putsBack cfg st e = some m) : leased st.now m = true := by
  unfold inLease at h
  rw [hm] at h
  exact h

namespace Leased

variable {cfg : Config} {st st' : System}

/-- The leases' invariant holds when a message has its turn. -/
theorem handle (h : Leased st) {i : ℕ} (hlease : inLease cfg st (.handle i) = true)
    (hstep : step cfg st (.handle i) = some st') : Leased st' := by
  obtain ⟨q, m, rest, hqi, hcall, hwait, rfl⟩ := step_handle hstep
  obtain ⟨l₁, l₂, hq, hset⟩ := split_queue hqi
  have hclaims : q.claims = m :: rest := by simp [Queue.claims, hcall, hwait]
  have hrest : ({ q with waiting := rest } : Queue).claims = rest := by simp [Queue.claims, hcall]
  have hcons : q.claims = m :: ({ q with waiting := rest } : Queue).claims := by rw [hclaims, hrest]
  have hsub : ({ q with waiting := rest } : Queue).claims.Sublist q.claims := by
    rw [hcons]
    exact List.sublist_cons_self _ _
  unfold System.handled
  cases hhandling : handling cfg (st.holds q.worker) st.now m with
  | dropped =>
    dsimp only
    rw [hset]
    exact h.delete hq hsub hcall m.id _ _
  | held _ | putBack =>
    have hlive : leased st.now m = true :=
      leased_of_inLease hlease (by simp [putsBack, hqi, hcall, hwait, hhandling])
    dsimp only
    rw [hset]
    exact h.putBack hq hcons hlive hcall (st.db.deferOutbox m.id _) rfl (fun _ => rfl) rfl _ _
  | call =>
    dsimp only
    rw [hset]
    have hsame : ({ q with waiting := rest, call := some ⟨m, st.now, none⟩ } : Queue).claims.Sublist
        q.claims := by
      rw [hclaims]
      simp [Queue.claims]
    refine h.replace hq hsame (fun c hc => ?_) st.db (List.Sublist.refl _) rfl
      (h.offered_of_subset hq hsame fun r hr => hr) _ _
    obtain rfl := Option.some.inj hc
    -- The call was let start because its lease lasts long enough.
    refine ⟨handling_call hhandling, ?_⟩
    show st.now ≤ st.now + notifyTimeout
    exact le_add_of_nonneg_right (by decide)

/-- The leases' invariant holds when a call returns. -/
theorem answer (h : Leased st) {i : ℕ} {outcome : Outcome}
    (hstep : step cfg st (.answer i outcome) = some st') : Leased st' := by
  obtain ⟨q, m, started, hqi, hcall, rfl⟩ := step_answer hstep
  obtain ⟨l₁, l₂, hq, hset⟩ := split_queue hqi
  rw [hset]
  have hsame : ({ q with call := some ⟨m, started, some outcome⟩ } : Queue).claims.Sublist q.claims := by
    simp [Queue.claims, hcall]
  refine h.replace hq hsame (fun c hc => ?_) st.db (List.Sublist.refl _) rfl
    (h.offered_of_subset hq hsame fun r hr => hr) _ _
  obtain rfl := Option.some.inj hc
  obtain ⟨hneeds, hdeadline⟩ :=
    h.calls q (by rw [hq]; exact List.mem_append_right _ List.mem_cons_self) _ hcall
  refine ⟨hneeds, ?_⟩
  have hle : st.now ≤ started + notifyTimeout := hdeadline
  show st.now ≤ started + attemptNeeds
  linarith [attemptNeeds_bounds.1]

/-- The leases' invariant holds when a call is settled. -/
theorem settle (h : Leased st) {i : ℕ} (hlease : inLease cfg st (.settle i) = true)
    (hstep : step cfg st (.settle i) = some st') : Leased st' := by
  obtain ⟨q, m, started, outcome, hqi, hcall, rfl⟩ := step_settle hstep
  obtain ⟨l₁, l₂, hq, hset⟩ := split_queue hqi
  rw [hset]
  have hcons : q.claims = m :: ({ q with call := none } : Queue).claims := by simp [Queue.claims, hcall]
  have hsub : ({ q with call := none } : Queue).claims.Sublist q.claims := by
    rw [hcons]
    exact List.sublist_cons_self _ _
  cases outcome with
  | delivered => exact h.delete hq hsub rfl m.id _ _
  | failed err retryAfter =>
    unfold settled
    dsimp only
    split_ifs with hmax
    · exact h.delete hq hsub rfl m.id _ _
    · have hlive : leased st.now m = true :=
        leased_of_inLease hlease (by simp [putsBack, hqi, hcall, hmax])
      exact h.putBack hq hcons hlive rfl (st.db.rescheduleOutbox m.id _ err) rfl (fun _ => rfl) rfl _ _

/-- Every event keeps the leases' invariant. -/
theorem step (h : Leased st) {e : Event} (hlease : inLease cfg st e = true)
    (hstep : Outbox.step cfg st e = some st') : Leased st' := by
  cases e with
  | tick d =>
    unfold Outbox.step at hstep
    dsimp only at hstep
    split_ifs at hstep with hdeadline
    obtain rfl := Option.some.inj hstep
    exact h.tick hdeadline
  | queue clusterID sink payload createdAt =>
    unfold Outbox.step at hstep
    dsimp only at hstep
    split_ifs at hstep
    obtain rfl := Option.some.inj hstep
    exact h.insertMessage clusterID _
  | claim worker =>
    unfold Outbox.step at hstep
    dsimp only at hstep
    split_ifs at hstep with hdone
    obtain rfl := Option.some.inj hstep
    exact h.claim hdone
  | handle i => exact h.handle hlease hstep
  | answer i outcome => exact h.answer hstep
  | settle i => exact h.settle hlease hstep

/-- A run within leases keeps the invariant. -/
theorem run {es : List Event} (h : Leased st) (hlease : runsInLease cfg st es = true)
    (hrun : Outbox.run cfg st es = some st') : Leased st' := by
  induction es generalizing st with
  | nil =>
    obtain rfl := Option.some.inj hrun
    exact h
  | cons e es ih =>
    obtain ⟨mid, hstep, hrest⟩ := Option.bind_eq_some_iff.mp hrun
    unfold runsInLease at hlease
    rw [Bool.and_eq_true, hstep] at hlease
    exact ih (h.step hlease.1 hstep) hlease.2 hrest

end Leased

/-- In every run of any number of workers, from any outbox nobody has claimed from, in which a message goes back
to the outbox only before the lease it was claimed under ends, no two calls for one message run at once. -/
theorem running_nodup_of_inLease {cfg : Config} {start st : System} {es : List Event}
    (hids : (start.db.outbox.map (·.id)).Nodup) (hgiven : ∀ r ∈ start.db.outbox, r.id ≤ start.db.lastMessage)
    (hqueues : start.queues = []) (hlease : runsInLease cfg start es = true) (hrun : run cfg start es = some st) :
    st.running.Nodup := by
  have hstart : Leased start := by
    have hclaims : start.claims = [] := by simp [System.claims, hqueues]
    constructor
    · exact hids
    · exact hgiven
    · simp [hclaims]
    · simp [hclaims]
    · simp [hclaims]
    · simp [hqueues]
  exact (hstart.run hlease hrun).running_nodup

/-- A server with one sink, whose payloads all decode. -/
def oneSink : Config := ⟨["webhook"], fun _ => true⟩

/-- A second in events. -/
def tickSeconds (n : ℕ) : Event := .tick (n * 10 ^ 9)

/-- Two messages are queued and claimed by a worker that is slow but puts each of them back within its lease; a second
worker claims and calls the first message, and a third one the other while that call runs. -/
def takenOverRun : List Event :=
  [.queue 1 "webhook" "{}" 1, .queue 1 "webhook" "{}" 1, .claim 0, tickSeconds 100, .handle 0, .claim 1, .handle 1,
    .handle 0, .claim 2, .handle 2]

/-- The first message goes back within its lease, and at the end one call for each message runs. -/
theorem running_of_takenOverRun :
    (run oneSink {} (takenOverRun.take 4)).any (fun st =>
        (putsBack oneSink st (.handle 0)).any (·.id = 1) && inLease oneSink st (.handle 0)) = true ∧
      ∃ st, run oneSink {} takenOverRun = some st ∧ st.running = [1, 2] ∧ st.running.Nodup := by
  have hsome : (run oneSink {} takenOverRun).any (fun st => st.running = [1, 2]) = true := by decide +kernel
  obtain ⟨st, hst, hrunning⟩ := (Option.any_eq_true _ _).mp hsome
  refine ⟨by decide +kernel, st, hst, of_decide_eq_true hrunning, ?_⟩
  exact running_nodup_of_inLease (by simp) (by simp) rfl (by decide +kernel) hst

/-- Two workers, the first of them slow: it puts a message back a second after its lease ended, while the second
has claimed it, and a third worker claims it too. -/
def lateRun : List Event :=
  [.queue 1 "webhook" "{}" 1, .claim 0, tickSeconds 120, .claim 1, tickSeconds 1, .handle 1, .handle 0, .claim 2,
    .handle 2]

/-- Two calls for message 1 run at once. -/
theorem overlap_after_late_putBack :
    (run oneSink {} lateRun).any (fun st => st.running = [1, 1]) = true := by
  decide +kernel

end UpgradeScope.Outbox
