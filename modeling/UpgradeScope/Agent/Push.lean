import UpgradeScope.Inventory.Canonical
import UpgradeScope.Inventory.Conform
import UpgradeScope.Inventory.Cut

/-!
# The agent's pushes

A tick pushes its inventory unless its hash is that of the last acknowledged push and `ForceSyncEvery` has not passed
(`maybePush`), and what a tick could not deliver is retried until the next one is due (`retryBuffered`). A push whose
answer is lost is stored by the server and not acknowledged, so the gate compares with content that the server may have
left. Each tick that reports its inventory as delivered or unchanged leaves the server on that content exactly when it
does not find the gate closed after such a push of other content (`tick_leaves_content_iff`).
-/

namespace UpgradeScope.Agent

open Go

/-! ## Hashes and snapshots -/

/-- What snapshots are hashed with. -/
structure Hashing where
  /-- `json.Marshal` of an inventory; `none` is its error. -/
  marshal : Inventory → Option String
  /-- The digest of SHA-256 in hexadecimal. -/
  sha256 : String → String

/-- `snapshotHash`: the digest of the canonical inventory, when both forms marshal. -/
def snapshotHash (H : Hashing) (inv : Inventory) : Option String := do
  let _ ← H.marshal inv
  let canon ← H.marshal inv.canonical
  pure (H.sha256 canon)

/-- The server's `canonicalHash` of what it admits of a push. -/
def canonicalHash (H : Hashing) (inv : Inventory) : Option String :=
  (H.marshal (cutFreeText inv).canonical).map H.sha256

/-- A stored snapshot: the inventory as it was pushed, and the hash that later pushes are compared with. -/
structure Stored where
  /-- The hash of what was admitted. -/
  hash : String
  /-- The inventory. -/
  inventory : Inventory

/-- The latest snapshot of a cluster after a push: a push of the latest one's hash stores nothing. -/
def ingest (H : Hashing) (latest : Option Stored) (inv : Inventory) : Option Stored :=
  match canonicalHash H inv with
  | none => latest
  | some hash => if latest.any (·.hash = hash) then latest else some ⟨hash, inv⟩

/-! ## The agent -/

/-- What the agent is configured with. -/
structure Config where
  /-- The name to push under; the cluster's id when it is unset. -/
  clusterName : String := ""
  /-- How long an unchanged inventory is not pushed. -/
  forceSyncEvery : ℤ := hour

/-- The part of a push that the server stores by. -/
structure PushPayload where
  /-- The name of the cluster. -/
  clusterName : String
  /-- The inventory. -/
  inventory : Inventory

/-- What becomes of one attempt to send a payload. -/
inductive Fate where
  /-- The server stored it, or found it a duplicate, and its answer came. -/
  | accepted
  /-- The server refused it for good. -/
  | refused
  /-- It failed and nothing was stored: a network error, a 5xx, 408 or 429. -/
  | failed
  /-- The server took it and its answer was lost. -/
  | lost
  deriving DecidableEq

/-- The server took the payload. -/
def Fate.stores (f : Fate) : Bool := f = .accepted || f = .lost

/-- One attempt of a flush, with whether its context ends while it waits for the next one. -/
structure Attempt where
  /-- What becomes of it. -/
  fate : Fate
  /-- The context ends in the wait after it. -/
  cut : Bool := false

/-- An attempt that was made. -/
structure Sent where
  /-- What was sent. -/
  payload : PushPayload
  /-- What became of it. -/
  fate : Fate

/-- The fields of the runner and of its pusher that pushes use. -/
structure Runner where
  /-- The hash of the last acknowledged push. -/
  lastHash : String := ""
  /-- When it was acknowledged. -/
  lastPush : Time := 0
  /-- The buffered payload is retried until the next tick. -/
  retryPending : Bool := false
  /-- The hash of the buffered payload. -/
  pendingHash : String := ""
  /-- The pusher's buffered payload. -/
  pending : Option PushPayload := none

/-- The agent and the server it pushes to. -/
structure Link where
  /-- The agent. -/
  runner : Runner := {}
  /-- The latest snapshot that the server has of each name. -/
  latest : String → Option Stored := fun _ => none
  /-- The attempts that this agent process made, latest first. -/
  sent : List Sent := []

/-- `pushRetries`: the attempts of a flush after its first one. -/
def pushRetries : ℕ := 3

/-- How a flush ends. -/
inductive FlushEnd where
  /-- The payload was delivered. -/
  | delivered
  /-- The server refused it, and it was dropped. -/
  | dropped
  /-- It is kept buffered. -/
  | kept
  deriving DecidableEq

/-- How the push of a tick fails. -/
inductive PushError where
  /-- The inventory does not marshal. -/
  | marshal
  /-- The server would refuse it. -/
  | inadmissible (problem : AdmitError)
  /-- There is no name to push under. -/
  | noName
  /-- The flush did not deliver it. -/
  | undelivered
  deriving DecidableEq

/-- The outcome of a tick's push. -/
inductive PushOutcome where
  /-- `pushUnchanged`. -/
  | unchanged
  /-- `pushOK`. -/
  | ok
  /-- `pushFailed`. -/
  | failed (err : PushError)
  deriving DecidableEq

/-- What a tick meets: what is collected, the clock at the gate and after the push, and what becomes of the attempts. -/
structure Tick where
  /-- What the collector returns before it is conformed. -/
  collected : Inventory
  /-- The clock at the gate. -/
  now : Time
  /-- The clock after the push. -/
  done : Time
  /-- The attempts. -/
  attempts : ℕ → Attempt

/-- What a retry between ticks meets. -/
structure Retry where
  /-- The attempts. -/
  attempts : ℕ → Attempt
  /-- The next tick is due, or the agent stops, before the flush returns. -/
  ended : Bool
  /-- The clock after it. -/
  done : Time

section

variable (X : External) (H : Hashing) (cfg : Config)

/-- The inventory of a tick. -/
def Tick.inventory (t : Tick) : Inventory := (conform X t.collected).1

/-- The name that an inventory is pushed under. -/
def Config.nameOf (inv : Inventory) : String := if cfg.clusterName = "" then inv.clusterID else cfg.clusterName

/-- `send`. -/
def send (pl : PushPayload) (fate : Fate) (w : Link) : Link :=
  { w with
    latest :=
      if fate.stores then
        Function.update w.latest pl.clusterName (ingest H (w.latest pl.clusterName) pl.inventory)
      else w.latest
    sent := ⟨pl, fate⟩ :: w.sent }

/-- `clear`. -/
def Link.clear (w : Link) : Link := { w with runner := { w.runner with pending := none } }

/-- The loop of `flush` from attempt `n`, with `retries` more after it. -/
def flushFrom (pl : PushPayload) (attempts : ℕ → Attempt) : ℕ → ℕ → Link → Link × FlushEnd
  | retries, n, w =>
    let w := send H pl (attempts n).fate w
    match (attempts n).fate with
    | .accepted => (w.clear, .delivered)
    | .refused => (w.clear, .dropped)
    | .failed | .lost =>
      match retries with
      | 0 => (w, .kept)
      | left + 1 => if (attempts n).cut then (w, .kept) else flushFrom pl attempts left (n + 1) w

/-- `flush`: sends the buffered payload, if any. -/
def flush (attempts : ℕ → Attempt) (w : Link) : Link × FlushEnd :=
  match w.runner.pending with
  | none => (w, .delivered)
  | some pl => flushFrom H pl attempts pushRetries 0 w

/-- An acknowledged push moves the gate. -/
def Link.acknowledge (w : Link) (hash : String) (done : Time) : Link :=
  { w with runner := { w.runner with lastHash := hash, lastPush := done } }

/-- The gate is closed: the inventory has the hash of the last acknowledged push, which is recent. -/
def GateClosed (inv : Inventory) (now : Time) (w : Link) : Prop :=
  snapshotHash H inv = some w.runner.lastHash ∧ now - w.runner.lastPush < cfg.forceSyncEvery

instance (inv : Inventory) (now : Time) (w : Link) : Decidable (GateClosed H cfg inv now w) := by
  unfold GateClosed
  infer_instance

/-- `offer`: the payload replaces what is buffered. -/
def Link.offer (w : Link) (pl : PushPayload) : Link :=
  { w with runner := { w.runner with pending := some pl } }

/-- The end of `maybePush`: the payload is offered and flushed, and what is kept is retried between ticks. -/
def deliver (t : Tick) (pl : PushPayload) (hash : String) (w : Link) : Link × PushOutcome :=
  let flushed := flush H t.attempts (w.offer pl)
  if flushed.2 = .delivered then (flushed.1.acknowledge hash t.done, .ok)
  else
    ({ flushed.1 with runner := { flushed.1.runner with
        retryPending := flushed.1.runner.pending.isSome
        pendingHash := hash } },
      .failed .undelivered)

/-- `maybePush`, the push of a tick. -/
def maybePush (t : Tick) (w : Link) : Link × PushOutcome :=
  let inv := t.inventory X
  -- This tick's snapshot, or none, supersedes a buffered one.
  let w := { w with runner := { w.runner with retryPending := false } }
  match snapshotHash H inv with
  | none => (w, .failed .marshal)
  | some hash =>
    if hash = w.runner.lastHash ∧ t.now - w.runner.lastPush < cfg.forceSyncEvery then (w, .unchanged)
    else match admitProblem X inv with
      | some problem => (w, .failed (.inadmissible problem))
      | none =>
        if cfg.nameOf inv = "" then (w, .failed .noName) else deliver H t ⟨cfg.nameOf inv, inv⟩ hash w

/-- `retryBuffered`: the list ends when the context does. -/
def retryBuffered : List Retry → Link → Link
  | [], w => w
  | r :: rest, w =>
    if w.runner.retryPending then
      match flush H r.attempts w with
      | (w, .delivered) =>
        let w := w.acknowledge w.runner.pendingHash r.done
        { w with runner := { w.runner with retryPending := false } }
      | (w, _) =>
        if r.ended then w
        else if w.runner.pending.isNone then { w with runner := { w.runner with retryPending := false } }
        else retryBuffered rest w
    else w

/-- What happens to an agent. -/
inductive Event where
  /-- A turn of its loop: a tick, and the retries until the next one is due. -/
  | turn (tick : Tick) (retries : List Retry)
  /-- The agent is started again. -/
  | restart

/-- The agent and the server after an event. -/
def Event.step : Event → Link → Link
  | .turn t retries, w => retryBuffered H retries (maybePush X H cfg t w).1
  | .restart, w => { w with runner := {}, sent := [] }

/-- The agent and the server after a run. -/
def run : List Event → Link → Link
  | [], w => w
  | e :: rest, w => run rest (e.step X H cfg w)

/-! ## What holds along a run -/

/-- The digests of some inventories: no two of their texts collide, each text is of one canonical form, and no digest is
the empty text that a runner starts with. -/
structure Hashing.Faithful (S : Set Inventory) : Prop where
  /-- A digest has 64 characters. -/
  nonempty : ∀ text, H.sha256 text ≠ ""
  /-- The texts have no collision. -/
  sha256 : ∀ a ∈ S, ∀ b ∈ S, ∀ s t, H.marshal a.canonical = some s → H.marshal b.canonical = some t →
    H.sha256 s = H.sha256 t → s = t
  /-- A text is of one canonical form. -/
  marshal : ∀ a ∈ S, ∀ b ∈ S, ∀ s, H.marshal a.canonical = some s → H.marshal b.canonical = some s →
    a.canonical = b.canonical

/-- A payload that a tick offered. -/
structure Offered (S : Set Inventory) (pl : PushPayload) : Prop where
  /-- Its inventory is one of those. -/
  mem : pl.inventory ∈ S
  /-- It was cut. -/
  cut : cutFreeText pl.inventory = pl.inventory
  /-- It is named as the agent names it. -/
  name : pl.clusterName = cfg.nameOf pl.inventory
  /-- It was hashed. -/
  hash : ∃ hash, snapshotHash H pl.inventory = some hash

/-- The last attempt under a name that the server took. -/
def Link.taken (w : Link) (name : String) : Option Sent :=
  w.sent.find? fun a => a.fate.stores && a.payload.clusterName = name

/-- What the server has is what it last took, and only ticks' payloads are buffered and sent. -/
structure Link.Sound (S : Set Inventory) (w : Link) : Prop where
  /-- What was sent. -/
  sent : ∀ a ∈ w.sent, Offered H cfg S a.payload
  /-- What is buffered. -/
  pending : ∀ pl, w.runner.pending = some pl → Offered H cfg S pl
  /-- What is stored, with the agent's hash. -/
  stored : ∀ name st, w.latest name = some st → st.inventory ∈ S ∧ snapshotHash H st.inventory = some st.hash
  /-- What is stored is what was taken last. -/
  latest : ∀ name a, w.taken name = some a →
    (w.latest name).map (·.inventory.canonical) = some a.payload.inventory.canonical

/-- The gate is at the last acknowledged attempt. -/
def Link.Acknowledged (w : Link) : Prop :=
  match w.sent.find? (·.fate = .accepted) with
  | none => w.runner.lastHash = ""
  | some a => snapshotHash H a.payload.inventory = some w.runner.lastHash

/-- A retry is of the payload that was buffered, by its hash. -/
def Link.Retries (w : Link) : Prop :=
  w.runner.retryPending = true →
    ∃ pl, w.runner.pending = some pl ∧ snapshotHash H pl.inventory = some w.runner.pendingHash

variable {X H cfg} {S : Set Inventory}

variable {w : Link} {pl : PushPayload} {hash : String} {r : Link × FlushEnd} {fate : Fate} {inv : Inventory}
  {now : Time} (t : Tick)

/-- A digest is that of a text. -/
theorem snapshotHash_eq_some (h : snapshotHash H inv = some hash) :
    ∃ text, H.marshal inv.canonical = some text ∧ H.sha256 text = hash := by
  simp only [snapshotHash, Option.bind_eq_bind, Option.pure_def, Option.bind_eq_some_iff] at h
  obtain ⟨-, -, text, htext, hsha⟩ := h
  exact ⟨text, htext, Option.some.inj hsha⟩

/-- One digest is of one content. -/
theorem Hashing.Faithful.canonical_eq (hH : H.Faithful S) {a b : Inventory} (ha : a ∈ S) (hb : b ∈ S)
    (hha : snapshotHash H a = some hash) (hhb : snapshotHash H b = some hash) : a.canonical = b.canonical := by
  obtain ⟨s, hs, rfl⟩ := snapshotHash_eq_some hha
  obtain ⟨t, ht, hsha⟩ := snapshotHash_eq_some hhb
  have hst : t = s := hH.sha256 b hb a ha t s ht hs hsha
  exact hH.marshal a ha b hb s hs (hst ▸ ht)

/-- The server hashes what a tick offered as the tick did. -/
theorem Offered.canonicalHash (h : Offered H cfg S pl) :
    canonicalHash H pl.inventory = snapshotHash H pl.inventory := by
  obtain ⟨hash, hhash⟩ := h.hash
  obtain ⟨text, htext, hsha⟩ := snapshotHash_eq_some hhash
  rw [hhash, UpgradeScope.Agent.canonicalHash, h.cut, htext, Option.map_some, hsha]

/-- After a push of an offered payload the server has its content. -/
theorem ingest_content (hH : H.Faithful S) {latest : Option Stored} (hpl : Offered H cfg S pl)
    (hstored : ∀ st, latest = some st → st.inventory ∈ S ∧ snapshotHash H st.inventory = some st.hash) :
    ∃ st, ingest H latest pl.inventory = some st ∧ st.inventory ∈ S ∧
      snapshotHash H st.inventory = some st.hash ∧ st.inventory.canonical = pl.inventory.canonical := by
  obtain ⟨hash, hhash⟩ := hpl.hash
  rw [ingest, hpl.canonicalHash, hhash]
  dsimp only
  split
  · -- A duplicate: the latest snapshot has this hash, so this content.
    rename_i hdup
    obtain ⟨st, hst, heq⟩ := (Option.any_eq_true _ _).mp hdup
    have heq : st.hash = hash := by simpa using heq
    obtain ⟨hmem, hsame⟩ := hstored st hst
    exact ⟨st, hst, hmem, hsame, hH.canonical_eq hmem hpl.mem hsame (heq ▸ hhash)⟩
  · exact ⟨⟨hash, pl.inventory⟩, rfl, hpl.mem, hhash, rfl⟩

/-- An attempt keeps the server on what it took last. -/
theorem Link.Sound.send (hH : H.Faithful S) (hw : w.Sound H cfg S) (hpl : Offered H cfg S pl) (fate : Fate) :
    (Agent.send H pl fate w).Sound H cfg S := by
  obtain ⟨st, hst, hmem, hhash, hcanonical⟩ := ingest_content hH hpl (hw.stored pl.clusterName)
  -- Only the cluster of the payload moves on, and only if the attempt was stored.
  have hlatest (name : String) : (Agent.send H pl fate w).latest name =
      if fate.stores = true ∧ name = pl.clusterName then some st else w.latest name := by
    by_cases hstores : fate.stores = true
    · by_cases hname : name = pl.clusterName
      · subst hname
        simp [Agent.send, hstores, hst]
      · simp [Agent.send, hstores, hname, Function.update_of_ne]
    · simp [Agent.send, hstores]
  refine ⟨?_, hw.pending, ?_, ?_⟩
  · intro a ha
    rcases List.mem_cons.mp ha with rfl | ha
    · exact hpl
    · exact hw.sent a ha
  · intro name st' h
    rw [hlatest] at h
    split at h
    · cases h
      exact ⟨hmem, hhash⟩
    · exact hw.stored name st' h
  · intro name a ha
    rw [hlatest]
    by_cases hhere : fate.stores = true ∧ name = pl.clusterName
    · have hthis : (Agent.send H pl fate w).taken name = some ⟨pl, fate⟩ := by
        simp [Link.taken, Agent.send, hhere.1, hhere.2]
      rw [hthis] at ha
      cases ha
      rw [if_pos hhere, Option.map_some, hcanonical]
    · have hbefore : w.taken name = some a := by
        rw [Link.taken, Agent.send, List.find?_cons_of_neg] at ha
        · exact ha
        · intro h
          simp only [Bool.and_eq_true, decide_eq_true_eq] at h
          exact hhere ⟨h.1, h.2.symm⟩
      rw [if_neg hhere]
      exact hw.latest name a hbefore

variable (H cfg) in
/-- What a flush of a payload does: every attempt but a last one that delivers it goes without an answer. -/
structure Flushed (S : Set Inventory) (pl : PushPayload) (w : Link) (r : Link × FlushEnd) : Prop where
  /-- The server is on what it took last. -/
  sound : r.1.Sound H cfg S
  /-- The payload stays buffered when it is kept. -/
  runner : r.1.runner = { w.runner with pending := if r.2 = .kept then w.runner.pending else none }
  /-- The attempts. -/
  sent : ∃ unanswered : List Sent, (∀ a ∈ unanswered, a.fate ≠ .accepted) ∧
    r.1.sent = (if r.2 = .delivered then [⟨pl, .accepted⟩] else []) ++ (unanswered ++ w.sent)

/-- Clearing the buffer keeps the link sound. -/
theorem Link.Sound.clear (hw : w.Sound H cfg S) : w.clear.Sound H cfg S :=
  ⟨hw.sent, (fun _ h => nomatch h), hw.stored, hw.latest⟩

/-- A flush that ends with its first attempt. -/
theorem Flushed.dropped (hH : H.Faithful S) (hpl : Offered H cfg S pl) (hw : w.Sound H cfg S) (hfate : fate ≠ .accepted) :
    Flushed H cfg S pl w ((Agent.send H pl fate w).clear, .dropped) := by
  refine ⟨(hw.send hH hpl fate).clear, rfl, [⟨pl, fate⟩], ?_, rfl⟩
  intro a ha
  rw [List.mem_singleton.mp ha]
  exact hfate

/-- A flush that ends with an answer. -/
theorem Flushed.delivered (hH : H.Faithful S) (hpl : Offered H cfg S pl) (hw : w.Sound H cfg S) :
    Flushed H cfg S pl w ((Agent.send H pl .accepted w).clear, .delivered) :=
  ⟨(hw.send hH hpl .accepted).clear, rfl, [], (fun _ h => nomatch h), rfl⟩

/-- A flush that keeps its payload after an attempt. -/
theorem Flushed.kept (hH : H.Faithful S) (hpl : Offered H cfg S pl) (hw : w.Sound H cfg S) (hfate : fate ≠ .accepted) :
    Flushed H cfg S pl w (Agent.send H pl fate w, .kept) := by
  refine ⟨hw.send hH hpl fate, rfl, [⟨pl, fate⟩], ?_, rfl⟩
  intro a ha
  rw [List.mem_singleton.mp ha]
  exact hfate

/-- A flush that goes on after an attempt. -/
theorem Flushed.again (hfate : fate ≠ .accepted) (h : Flushed H cfg S pl (Agent.send H pl fate w) r) :
    Flushed H cfg S pl w r := by
  obtain ⟨hsound, hrunner, unanswered, hfates, hsent⟩ := h
  refine ⟨hsound, hrunner, unanswered ++ [⟨pl, fate⟩], ?_, ?_⟩
  · intro a ha
    rcases List.mem_append.mp ha with ha | ha
    · exact hfates a ha
    · rw [List.mem_singleton.mp ha]
      exact hfate
  · rw [hsent, List.append_assoc unanswered]
    rfl

/-- The loop of a flush, from any of its attempts on, ends as a flush may. -/
theorem flushFrom_flushed (hH : H.Faithful S) (hpl : Offered H cfg S pl) (attempts : ℕ → Attempt) (retries n : ℕ)
    (hw : w.Sound H cfg S) :
    Flushed H cfg S pl w (flushFrom H pl attempts retries n w) := by
  induction retries generalizing n w with
  | zero =>
    unfold flushFrom
    cases (attempts n).fate with
    | accepted => exact .delivered hH hpl hw
    | refused => exact .dropped hH hpl hw (by decide)
    | failed => exact .kept hH hpl hw (by decide)
    | lost => exact .kept hH hpl hw (by decide)
  | succ left ih =>
    unfold flushFrom
    cases hfate : (attempts n).fate with
    | accepted => exact .delivered hH hpl hw
    | refused => exact .dropped hH hpl hw (by decide)
    | failed =>
      dsimp only
      split
      · exact .kept hH hpl hw (by decide)
      · exact .again (by decide) (ih (n + 1) (hw.send hH hpl .failed))
    | lost =>
      dsimp only
      split
      · exact .kept hH hpl hw (by decide)
      · exact .again (by decide) (ih (n + 1) (hw.send hH hpl .lost))

/-- A flush of a buffered payload ends as a flush may. -/
theorem flush_flushed (hH : H.Faithful S) (hw : w.Sound H cfg S) (hpending : w.runner.pending = some pl)
    (attempts : ℕ → Attempt) :
    Flushed H cfg S pl w (flush H attempts w) := by
  rw [flush, hpending]
  exact flushFrom_flushed hH (hw.pending pl hpending) attempts pushRetries 0 hw

/-! ## Ticks and retries -/

variable (H cfg) in
/-- What holds between the turns of a run. -/
structure Link.Kept (S : Set Inventory) (w : Link) : Prop where
  /-- The server is on what it took last. -/
  sound : w.Sound H cfg S
  /-- The gate is at the last acknowledged attempt. -/
  acknowledged : w.Acknowledged H

/-- A flush that delivers nothing leaves the gate where it was. -/
theorem Flushed.acknowledged (h : Flushed H cfg S pl w r) (hw : w.Acknowledged H) (hend : r.2 ≠ .delivered) :
    r.1.Acknowledged H := by
  obtain ⟨unanswered, hfates, hsent⟩ := h.sent
  rw [if_neg hend, List.nil_append] at hsent
  have hfind : r.1.sent.find? (·.fate = .accepted) = w.sent.find? (·.fate = .accepted) := by
    rw [hsent, List.find?_append, List.find?_eq_none.mpr fun a ha => by simpa using hfates a ha, Option.none_or]
  have hlast : r.1.runner.lastHash = w.runner.lastHash := by rw [h.runner]
  rw [Link.Acknowledged, hfind, hlast]
  exact hw

/-- A delivered payload moves the gate to it. -/
theorem Flushed.acknowledge (h : Flushed H cfg S pl w r) (hend : r.2 = .delivered)
    (hhash : snapshotHash H pl.inventory = some hash) (done : Time) :
    (r.1.acknowledge hash done).Acknowledged H := by
  obtain ⟨unanswered, -, hsent⟩ := h.sent
  rw [if_pos hend, List.singleton_append] at hsent
  have hfind : (r.1.acknowledge hash done).sent.find? (·.fate = .accepted) = some ⟨pl, .accepted⟩ := by
    show r.1.sent.find? _ = _
    rw [hsent, List.find?_cons_of_pos (by rfl)]
  rw [Link.Acknowledged, hfind]
  exact hhash

/-- Changes of the gate's fields alone keep the server on what it took last. -/
theorem Link.Sound.of_runner (hw : w.Sound H cfg S) {runner : Runner}
    (hpending : ∀ pl, runner.pending = some pl → Offered H cfg S pl) :
    ({ w with runner := runner } : Link).Sound H cfg S :=
  ⟨hw.sent, hpending, hw.stored, hw.latest⟩

/-- The agent stops retrying. -/
def Link.supersede (w : Link) : Link := { w with runner := { w.runner with retryPending := false } }

variable (X H cfg) in
/-- What a tick can do: fail before it sends anything, find the gate closed, or deliver its payload. -/
theorem maybePush_cases (w : Link) :
    (¬ GateClosed H cfg (t.inventory X) t.now w ∧ ∃ err, maybePush X H cfg t w = (w.supersede, .failed err)) ∨
      (GateClosed H cfg (t.inventory X) t.now w ∧ maybePush X H cfg t w = (w.supersede, .unchanged)) ∨
      (¬ GateClosed H cfg (t.inventory X) t.now w ∧ ∃ hash, snapshotHash H (t.inventory X) = some hash ∧
        maybePush X H cfg t w = deliver H t ⟨cfg.nameOf (t.inventory X), t.inventory X⟩ hash w.supersede) := by
  cases hhash : snapshotHash H (t.inventory X) with
  | none =>
    refine .inl ⟨fun h => ?_, .marshal, by simp only [maybePush, hhash, Link.supersede]⟩
    rw [GateClosed, hhash] at h
    exact nomatch h.1
  | some hash =>
    -- The checks of a tick, in their order: the hash, the gate, the inventory, the name.
    by_cases hgate : hash = w.runner.lastHash ∧ t.now - w.runner.lastPush < cfg.forceSyncEvery
    · refine .inr (.inl ⟨⟨hhash.trans (congrArg some hgate.1), hgate.2⟩, ?_⟩)
      simp only [maybePush, hhash, Link.supersede, if_pos hgate]
    have hopen : ¬ GateClosed H cfg (t.inventory X) t.now w := by
      intro h
      rw [GateClosed, hhash] at h
      exact hgate ⟨Option.some.inj h.1, h.2⟩
    cases hadmit : admitProblem X (t.inventory X) with
    | some problem =>
      refine .inl ⟨hopen, .inadmissible problem, ?_⟩
      simp only [maybePush, hhash, if_neg hgate, hadmit, Link.supersede]
    | none =>
      by_cases hname : cfg.nameOf (t.inventory X) = ""
      · refine .inl ⟨hopen, .noName, ?_⟩
        simp only [maybePush, hhash, if_neg hgate, hadmit, if_pos hname, Link.supersede]
      · refine .inr (.inr ⟨hopen, hash, rfl, ?_⟩)
        simp only [maybePush, hhash, if_neg hgate, hadmit, if_neg hname, Link.supersede]

/-- A tick that sends nothing keeps the invariant of the link. -/
theorem Link.Kept.supersede (hw : w.Kept H cfg S) : w.supersede.Kept H cfg S :=
  ⟨hw.sound.of_runner hw.sound.pending, hw.acknowledged⟩

/-- An agent that is started again keeps the invariant of its link. -/
theorem Link.Kept.restart (hw : w.Kept H cfg S) :
    ({ w with runner := {}, sent := [] } : Link).Kept H cfg S := by
  refine ⟨⟨?_, ?_, hw.sound.stored, ?_⟩, rfl⟩
  · intro a ha
    exact nomatch ha
  · intro pl hpl
    exact nomatch hpl
  · intro name a ha
    exact nomatch ha

/-- A payload that was delivered is what the server has. -/
theorem Flushed.latest (h : Flushed H cfg S pl w r) (hend : r.2 = .delivered) :
    (r.1.latest pl.clusterName).map (·.inventory.canonical) = some pl.inventory.canonical := by
  obtain ⟨unanswered, -, hsent⟩ := h.sent
  rw [if_pos hend, List.singleton_append] at hsent
  have htaken : r.1.taken pl.clusterName = some ⟨pl, .accepted⟩ := by
    rw [Link.taken, hsent, List.find?_cons_of_pos (by simp [Fate.stores])]
  exact h.sound.latest pl.clusterName _ htaken

/-- Offering a payload and flushing it keeps the invariant of the link. -/
theorem deliver_kept (hH : H.Faithful S) (hw : w.Kept H cfg S) (hquiet : w.runner.retryPending = false)
    (hpl : Offered H cfg S pl) (hhash : snapshotHash H pl.inventory = some hash) (t : Tick) :
    (deliver H t pl hash w).1.Kept H cfg S ∧ (deliver H t pl hash w).1.Retries H ∧ ((deliver H t pl hash w).2 = .ok →
      ((deliver H t pl hash w).1.latest pl.clusterName).map (·.inventory.canonical) =
        some pl.inventory.canonical) := by
  have hoffer : (w.offer pl).Sound H cfg S := hw.sound.of_runner fun p hp => Option.some.inj hp ▸ hpl
  have hflushed := flush_flushed hH hoffer rfl t.attempts
  have hpending := hflushed.sound.pending
  unfold deliver
  dsimp only
  -- Delivered, the payload is acknowledged. Otherwise it waits for a retry if it was kept.
  by_cases hend : (flush H t.attempts (w.offer pl)).2 = .delivered
  · rw [if_pos hend]
    refine ⟨⟨hflushed.sound.of_runner hpending, hflushed.acknowledge hend hhash t.done⟩, ?_, fun _ =>
      hflushed.latest hend⟩
    intro hretry
    have hstill : (flush H t.attempts (w.offer pl)).1.runner.retryPending = false := by
      rw [hflushed.runner]
      exact hquiet
    exact absurd (hstill.symm.trans hretry) (by decide)
  · rw [if_neg hend]
    refine ⟨⟨hflushed.sound.of_runner hpending, hflushed.acknowledged hw.acknowledged hend⟩, ?_, fun h => nomatch h⟩
    intro hretry
    have hrunner : (flush H t.attempts (w.offer pl)).1.runner.pending =
        if (flush H t.attempts (w.offer pl)).2 = .kept then some pl else none := by
      rw [hflushed.runner]
      rfl
    have hsome : (flush H t.attempts (w.offer pl)).1.runner.pending.isSome = true := hretry
    rw [hrunner] at hsome
    split at hsome
    · rename_i hkept
      exact ⟨pl, by rw [hrunner, if_pos hkept], hhash⟩
    · exact nomatch hsome

/-- What a tick offers is a payload of its inventory. -/
theorem Tick.offered {t : Tick} (ht : t.inventory X ∈ S) (hhash : snapshotHash H (t.inventory X) = some hash) :
    Offered H cfg S ⟨cfg.nameOf (t.inventory X), t.inventory X⟩ :=
  ⟨ht, cutFreeText_cutFreeText _, rfl, hash, hhash⟩

/-- A tick keeps what holds between steps, and a push that it reports leaves the server on its content. -/
theorem maybePush_kept (hH : H.Faithful S) (hw : w.Kept H cfg S) {t : Tick} (ht : t.inventory X ∈ S) :
    (maybePush X H cfg t w).1.Kept H cfg S ∧ (maybePush X H cfg t w).1.Retries H ∧ ((maybePush X H cfg t w).2 = .ok →
      ((maybePush X H cfg t w).1.latest (cfg.nameOf (t.inventory X))).map (·.inventory.canonical) =
        some (t.inventory X).canonical) := by
  rcases maybePush_cases X H cfg t w with ⟨-, err, heq⟩ | ⟨-, heq⟩ | ⟨-, hash, hhash, heq⟩
  · rw [heq]
    exact ⟨hw.supersede, (fun h => nomatch h), fun h => nomatch h⟩
  · rw [heq]
    exact ⟨hw.supersede, (fun h => nomatch h), fun h => nomatch h⟩
  · rw [heq]
    exact deliver_kept hH hw.supersede rfl (Tick.offered ht hhash) hhash t

/-- The retries between two ticks keep the invariant of the link. -/
theorem retryBuffered_kept (hH : H.Faithful S) (retries : List Retry) (hw : w.Kept H cfg S) (hretries : w.Retries H) :
    (retryBuffered H retries w).Kept H cfg S := by
  induction retries generalizing w with
  | nil => exact hw
  | cons r rest ih =>
    unfold retryBuffered
    split
    · rename_i hretry
      obtain ⟨pl, hpending, hhash⟩ := hretries hretry
      have hflushed := flush_flushed hH hw.sound hpending r.attempts
      rcases hflush : flush H r.attempts w with ⟨w', ending⟩
      rw [hflush] at hflushed
      have hrunner : w'.runner = { w.runner with pending := if ending = .kept then w.runner.pending else none } :=
        hflushed.runner
      have hsame : w'.runner.pendingHash = w.runner.pendingHash := by rw [hrunner]
      -- A retry ends the loop by delivering or dropping the payload, and goes on while it is kept.
      cases ending with
      | delivered => exact ⟨hflushed.sound.of_runner hflushed.sound.pending, hflushed.acknowledge rfl (hsame ▸ hhash) r.done⟩
      | dropped =>
        have hkept : w'.Kept H cfg S := ⟨hflushed.sound, hflushed.acknowledged hw.acknowledged (by simp)⟩
        have hnone : w'.runner.pending = none := by rw [hrunner, if_neg (by decide)]
        dsimp only
        split
        · exact hkept
        · rw [if_pos (by rw [hnone]; rfl)]
          exact hkept.supersede
      | kept =>
        have hkept : w'.Kept H cfg S := ⟨hflushed.sound, hflushed.acknowledged hw.acknowledged (by simp)⟩
        have hsome : w'.runner.pending = some pl := by rw [hrunner, if_pos rfl, hpending]
        dsimp only
        split
        · exact hkept
        · rw [if_neg (by simp [hsome])]
          exact ih hkept fun _ => ⟨pl, hsome, hsame ▸ hhash⟩
    · exact hw

/-! ## Runs -/

variable (X) in
/-- The inventories of a run's ticks. -/
def Event.inventories : Event → List Inventory
  | .turn t _ => [t.inventory X]
  | .restart => []

/-- One event of an agent keeps the invariant of its link to the server. -/
theorem Event.step_kept (hH : H.Faithful S) {e : Event} (he : ∀ inv ∈ e.inventories X, inv ∈ S) (hw : w.Kept H cfg S) :
    (e.step X H cfg w).Kept H cfg S := by
  cases e with
  | turn t retries =>
    obtain ⟨hkept, hretries, -⟩ := maybePush_kept hH hw (he (t.inventory X) (List.mem_singleton_self _))
    exact retryBuffered_kept hH retries hkept hretries
  | restart => exact hw.restart

/-- The invariant of the link holds after every run from the start. -/
theorem run_kept (hH : H.Faithful S) {events : List Event} (hevents : ∀ e ∈ events, ∀ inv ∈ e.inventories X, inv ∈ S)
    (hw : w.Kept H cfg S) : (run X H cfg events w).Kept H cfg S := by
  induction events generalizing w with
  | nil => exact hw
  | cons e rest ih =>
    exact ih (fun e' he' => hevents e' (List.mem_cons_of_mem _ he'))
      (Event.step_kept hH (hevents e List.mem_cons_self) hw)

/-- The start: nothing was sent and nothing is stored. -/
theorem start_kept : (({} : Link).Kept H cfg S) :=
  ⟨⟨(fun _ h => nomatch h), (fun _ h => nomatch h), (fun _ _ h => nomatch h), fun _ _ h => nomatch h⟩, rfl⟩

/-- The last attempt under a name since the last acknowledged one that the server took and did not get to answer. -/
def Link.unacknowledged (w : Link) (name : String) : Option Sent :=
  (w.sent.takeWhile (·.fate ≠ .accepted)).find? fun a => a.fate = .lost && a.payload.clusterName = name

/-- What the server took last under the name of the last acknowledged attempt is what was lost since, or that attempt. -/
theorem taken_of_accepted {sent : List Sent} {a : Sent} (ha : sent.find? (·.fate = .accepted) = some a) :
    sent.find? (fun b => b.fate.stores && b.payload.clusterName = a.payload.clusterName) =
      some (((sent.takeWhile (·.fate ≠ .accepted)).find? fun b =>
        b.fate = .lost && b.payload.clusterName = a.payload.clusterName).getD a) := by
  induction sent with
  | nil => exact nomatch ha
  | cons b rest ih =>
    by_cases hb : b.fate = .accepted
    · have hba : b = a := by simpa [List.find?_cons, hb] using ha
      subst hba
      simp [hb, Fate.stores]
    · have hrest : rest.find? (·.fate = .accepted) = some a := by simpa [List.find?_cons, hb] using ha
      have hstores : b.fate.stores = decide (b.fate = .lost) := by simp [Fate.stores, hb]
      rw [List.takeWhile_cons_of_pos (by simpa using hb), List.find?_cons, List.find?_cons, hstores]
      cases decide (b.fate = .lost) && decide (b.payload.clusterName = a.payload.clusterName) with
      | true => rfl
      | false => exact ih hrest

/-- The gate is closed at the content of the last acknowledged attempt. -/
theorem accepted_of_gateClosed (hH : H.Faithful S) (hw : w.Kept H cfg S) (hinv : inv ∈ S)
    (hgate : GateClosed H cfg inv now w) :
    ∃ a, w.sent.find? (·.fate = .accepted) = some a ∧ a.payload.inventory.canonical = inv.canonical ∧
      a.payload.clusterName = cfg.nameOf inv := by
  have hack := hw.acknowledged
  rw [Link.Acknowledged] at hack
  cases hfind : w.sent.find? (·.fate = .accepted) with
  | none =>
    rw [hfind] at hack
    obtain ⟨text, -, hsha⟩ := snapshotHash_eq_some hgate.1
    exact absurd (hsha.trans hack) (hH.nonempty text)
  | some a =>
    rw [hfind] at hack
    have hoffered := hw.sound.sent a (List.mem_of_find?_eq_some hfind)
    have hcanonical := hH.canonical_eq hoffered.mem hinv hack hgate.1
    have hid : a.payload.inventory.clusterID = inv.clusterID := congrArg (·.clusterID) hcanonical
    refine ⟨a, rfl, hcanonical, ?_⟩
    rw [hoffered.name, Config.nameOf, Config.nameOf, hid]

/-- What the server has of a name when a tick finds the gate closed. -/
theorem latest_of_gateClosed (hH : H.Faithful S) (hw : w.Kept H cfg S) (hinv : inv ∈ S)
    (hgate : GateClosed H cfg inv now w) :
    (w.latest (cfg.nameOf inv)).map (·.inventory.canonical) =
      some (((w.unacknowledged (cfg.nameOf inv)).map (·.payload.inventory.canonical)).getD inv.canonical) := by
  obtain ⟨a, hfind, hcanonical, hname⟩ := accepted_of_gateClosed hH hw hinv hgate
  have htaken := taken_of_accepted hfind
  rw [hname] at htaken
  rw [hw.sound.latest _ _ htaken, Link.unacknowledged]
  cases (w.sent.takeWhile (·.fate ≠ .accepted)).find? _ with
  | none => exact congrArg some hcanonical
  | some b => rfl

/-- A flush is reported as a push or as a failure. -/
theorem deliver_ne_unchanged (pl : PushPayload) (hash : String) (w : Link) :
    (deliver H t pl hash w).2 ≠ .unchanged := by
  unfold deliver
  dsimp only
  split <;> exact fun h => nomatch h

variable (X H cfg) in
/-- A tick of a run leaves the server on its content, when it reports its inventory as unchanged or as pushed, exactly
when it does not find the gate closed after an attempt of other content whose answer was lost, with no attempt
acknowledged since. -/
theorem tick_leaves_content_iff (events : List Event) (t : Tick)
    (hH : H.Faithful { inv | inv ∈ events.flatMap (Event.inventories X) ++ [t.inventory X] }) :
    ((maybePush X H cfg t (run X H cfg events {})).2 = .unchanged ∨
          (maybePush X H cfg t (run X H cfg events {})).2 = .ok →
        ((maybePush X H cfg t (run X H cfg events {})).1.latest (cfg.nameOf (t.inventory X))).map
          (·.inventory.canonical) = some (t.inventory X).canonical) ↔
      (GateClosed H cfg (t.inventory X) t.now (run X H cfg events {}) →
        ∀ a, (run X H cfg events {}).unacknowledged (cfg.nameOf (t.inventory X)) = some a →
          a.payload.inventory.canonical = (t.inventory X).canonical) := by
  set w := run X H cfg events {} with hrun
  have ht : t.inventory X ∈ { inv | inv ∈ events.flatMap (Event.inventories X) ++ [t.inventory X] } := by simp
  have hw : w.Kept H cfg { inv | inv ∈ events.flatMap (Event.inventories X) ++ [t.inventory X] } := by
    refine run_kept hH (fun e he inv hinv => ?_) start_kept
    exact List.mem_append_left _ (List.mem_flatMap.mpr ⟨e, he, hinv⟩)
  obtain ⟨-, -, hpushed⟩ := maybePush_kept hH hw ht
  -- With the gate closed nothing is sent, and the server has the content of the last attempt whose answer was lost,
  -- if there is one.
  by_cases hgate : GateClosed H cfg (t.inventory X) t.now w
  · have heq : maybePush X H cfg t w = (w.supersede, .unchanged) := by
      rcases maybePush_cases X H cfg t w with ⟨hopen, -⟩ | ⟨-, heq⟩ | ⟨hopen, -⟩
      · exact absurd hgate hopen
      · exact heq
      · exact absurd hgate hopen
    have hlatest := latest_of_gateClosed hH hw ht hgate
    rw [heq]
    show (_ → (w.latest _).map _ = _) ↔ _
    rw [hlatest]
    cases w.unacknowledged (cfg.nameOf (t.inventory X)) with
    | none => simp
    | some a => simp [hgate]
  · refine ⟨fun _ h => absurd h hgate, fun _ hend => ?_⟩
    rcases maybePush_cases X H cfg t w with ⟨-, err, heq⟩ | ⟨hclosed, -⟩ | ⟨-, hash, -, heq⟩
    · rw [heq] at hend
      rcases hend with h | h <;> exact nomatch h
    · exact absurd hclosed hgate
    · rcases hend with hend | hend
      · rw [heq] at hend
        exact absurd hend (deliver_ne_unchanged t _ hash _)
      · exact hpushed hend

end

/-! ## A content that comes back after a lost answer -/

/-- A text for each server version, and a digest for each text. -/
def byVersion : Hashing where
  marshal inv := some inv.serverVersion
  sha256 text := "sha256:" ++ text

/-- The text of a content is its version. -/
theorem byVersion_marshal (inv : Inventory) : byVersion.marshal inv.canonical = some inv.serverVersion := rfl

/-- A tick's inventory of a server version. -/
def conformedAt (serverVersion : String) : Inventory :=
  (conform .ascii { clusterID := "u1", serverVersion := serverVersion }).1

/-- Digests by server version serve a run whose inventories are told apart by it. -/
theorem byVersion_faithful {versions : List String} (h : ∀ v ∈ versions, (conformedAt v).serverVersion = v) :
    byVersion.Faithful { inv | inv ∈ versions.map conformedAt } := by
  refine ⟨?_, ?_, ?_⟩
  · intro text hempty
    have hlength := congrArg String.length hempty
    simp [byVersion] at hlength
  · intro a _ b _ s t _ _ hst
    exact (String.append_right_inj _).mp hst
  · intro a ha b hb s hs ht
    obtain ⟨v, hv, rfl⟩ := List.mem_map.mp ha
    obtain ⟨v', hv', rfl⟩ := List.mem_map.mp hb
    rw [byVersion_marshal, h v hv] at hs
    rw [byVersion_marshal, h v' hv'] at ht
    rw [Option.some.inj (hs.trans ht.symm)]

/-- A tick whose every attempt ends one way, and whose waits are cut. -/
def tickAt (serverVersion : String) (now : Time) (fate : Fate) : Tick where
  collected := { clusterID := "u1", serverVersion := serverVersion }
  now := now
  done := now
  attempts := fun _ => { fate := fate, cut := true }

/-- A push that is acknowledged, and one whose answer is lost. -/
def lostAnswer : List Event :=
  [.turn (tickAt "v1.31.0" 0 .accepted) [], .turn (tickAt "v1.32.0" (10 * minute) .lost) []]

/-- The versions of those turns, and of a third one, are those of their inventories. -/
theorem conformedAt_serverVersion :
    ∀ v ∈ ["v1.31.0", "v1.32.0", "v1.31.0"], (conformedAt v).serverVersion = v := by decide +kernel

/-- The content of the acknowledged push comes back: the tick judges it unchanged, and the server stays on the other. -/
theorem unchanged_behind_lost_answer :
    byVersion.Faithful { inv | inv ∈ lostAnswer.flatMap (Event.inventories .ascii) ++
        [(tickAt "v1.31.0" (20 * minute) .accepted).inventory .ascii] } ∧
      ¬ ((maybePush .ascii byVersion {} (tickAt "v1.31.0" (20 * minute) .accepted)
              (run .ascii byVersion {} lostAnswer {})).2 = .unchanged ∨
            (maybePush .ascii byVersion {} (tickAt "v1.31.0" (20 * minute) .accepted)
              (run .ascii byVersion {} lostAnswer {})).2 = .ok →
          ((maybePush .ascii byVersion {} (tickAt "v1.31.0" (20 * minute) .accepted)
              (run .ascii byVersion {} lostAnswer {})).1.latest
              (({} : Config).nameOf ((tickAt "v1.31.0" (20 * minute) .accepted).inventory .ascii))).map
            (·.inventory.canonical) = some ((tickAt "v1.31.0" (20 * minute) .accepted).inventory .ascii).canonical) := by
  refine ⟨byVersion_faithful conformedAt_serverVersion, fun h => ?_⟩
  have hversion := congrArg (Option.map (·.serverVersion)) (h (.inl (by decide +kernel)))
  revert hversion
  rw [Option.map_map]
  decide +kernel

/-- A push that is acknowledged, and one that a retry delivers after its answer was lost. -/
def retriedAnswer : List Event :=
  [.turn (tickAt "v1.31.0" 0 .accepted) [],
    .turn (tickAt "v1.32.0" (10 * minute) .lost)
      [{ attempts := fun _ => { fate := .accepted }, ended := false, done := 11 * minute }]]

/-- The versions of those turns, and of a third one. -/
theorem conformedAt_serverVersion_retried :
    ∀ v ∈ ["v1.31.0", "v1.32.0", "v1.32.0"], (conformedAt v).serverVersion = v := by decide +kernel

/-- The content that the retry delivered is judged unchanged at the next tick, and is what the server has. -/
theorem unchanged_after_retry :
    (maybePush .ascii byVersion {} (tickAt "v1.32.0" (20 * minute) .failed)
        (run .ascii byVersion {} retriedAnswer {})).2 = .unchanged ∧
      ((maybePush .ascii byVersion {} (tickAt "v1.32.0" (20 * minute) .failed)
          (run .ascii byVersion {} retriedAnswer {})).1.latest
          (({} : Config).nameOf ((tickAt "v1.32.0" (20 * minute) .failed).inventory .ascii))).map
        (·.inventory.canonical) = some ((tickAt "v1.32.0" (20 * minute) .failed).inventory .ascii).canonical := by
  have hunchanged : (maybePush .ascii byVersion {} (tickAt "v1.32.0" (20 * minute) .failed)
      (run .ascii byVersion {} retriedAnswer {})).2 = .unchanged := by decide +kernel
  have hnone : ((run .ascii byVersion {} retriedAnswer {}).unacknowledged
      (({} : Config).nameOf ((tickAt "v1.32.0" (20 * minute) .failed).inventory .ascii))).isNone = true := by
    decide +kernel
  refine ⟨hunchanged, ?_⟩
  refine (tick_leaves_content_iff .ascii byVersion {} retriedAnswer (tickAt "v1.32.0" (20 * minute) .failed)
    (byVersion_faithful conformedAt_serverVersion_retried)).mpr ?_ (.inl hunchanged)
  intro _ a ha
  rw [ha] at hnone
  exact nomatch hnone

end UpgradeScope.Agent
