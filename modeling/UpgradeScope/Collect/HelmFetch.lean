import UpgradeScope.Lib.Runs

/-!
# Fetching ahead

`startFetching` of `internal/collect/helm_fetch.go`: a dispatcher hands out indexes in order, workers fetch them, and
the caller takes the results in order with `next`. The goroutines meet on an unbuffered channel of jobs, a channel of
tokens with room for one payload each, and one buffered channel for each result. `Step` has one constructor for each
thing a goroutine can do, so a run is any schedule; what a run has fetched and returned is recorded beside the state.

`Inv` ties the token count, the channels and the goroutines to two numbers, how many indexes were handed out and how
many results were taken. The order, the bound and the progress of `next` and `stop` follow from it; that a run ends
is the measure of `Pool.left`.
-/

namespace UpgradeScope.HelmFetch

open Runs

variable {R : Type}

/-! ## The goroutines -/

/-- The dispatcher. -/
inductive Dispatcher where
  /-- It waits for room for a payload. -/
  | room (i : ℕ)
  /-- It holds a token and waits for a worker that takes the index. -/
  | job (i : ℕ)
  /-- It left the loop and closes `jobs`. -/
  | leaving
  /-- It has ended, with `jobs` closed. -/
  | ended
  deriving DecidableEq

/-- A worker. -/
inductive Worker (R : Type) where
  /-- It waits for a job. -/
  | idle
  /-- It is in `fetch`. -/
  | fetching (i : ℕ)
  /-- It has a result to send. -/
  | sending (i : ℕ) (r : R)
  /-- It has ended. -/
  | ended
  deriving DecidableEq

/-- The index a worker has in flight. -/
def Worker.index : Worker R → Option ℕ
  | .idle => none
  | .fetching i => some i
  | .sending i _ => some i
  | .ended => none

/-- The caller's goroutine. -/
inductive Caller where
  /-- Between two calls. -/
  | between
  /-- In `next`, giving back the token of the payload handed over last. -/
  | releasing
  /-- In `next`, waiting for the result that is due. -/
  | receiving
  /-- In `stop`, waiting for the goroutines. -/
  | stopping
  /-- `stop` returned. -/
  | stopped
  deriving DecidableEq

/-- `results[i]`: a channel with room for one result, nil once the result was taken. -/
inductive Slot (R : Type) where
  /-- Nothing was sent. -/
  | empty
  /-- The result waits. -/
  | full (r : R)
  /-- The channel was replaced by nil. -/
  | taken
  deriving DecidableEq

/-- The fetcher with workers, and what its run has done. -/
structure Pool (R : Type) where
  /-- The tokens in `room`. -/
  room : ℕ := 0
  /-- The dispatcher. -/
  dispatcher : Dispatcher := .room 0
  /-- The workers. -/
  workers : List (Worker R)
  /-- The results' channels. -/
  results : ℕ → Slot R := fun _ => .empty
  /-- The result due. -/
  next : ℕ := 0
  /-- Whether `next` has handed over a payload. -/
  held : Bool := false
  /-- Whether `quit` is closed. -/
  quit : Bool := false
  /-- The caller. -/
  caller : Caller := .between
  /-- The indexes whose fetch was begun, in order. -/
  begun : List ℕ := []
  /-- What the calls of `next` returned, in order. -/
  returned : List R := []

/-- The dispatcher after index `i` was taken. -/
def Dispatcher.after (n i : ℕ) : Dispatcher := if i + 1 < n then .room (i + 1) else .leaving

/-- One step of one goroutine; a job is taken by the dispatcher and a worker together. -/
inductive Pool.Step (n w : ℕ) (fetch : ℕ → R) : Pool R → Pool R → Prop where
  /-- `room <- struct{}{}`. -/
  | takeRoom {s i} : s.dispatcher = .room i → s.room < w →
      Step n w fetch s { s with room := s.room + 1, dispatcher := .job i }
  /-- `<-quit` while it waits for room. -/
  | quitRoom {s i} : s.dispatcher = .room i → s.quit = true → Step n w fetch s { s with dispatcher := .leaving }
  /-- `jobs <- i`, received by a worker. -/
  | takeJob {s i l₁ l₂} : s.dispatcher = .job i → s.workers = l₁ ++ .idle :: l₂ →
      Step n w fetch s
        { s with dispatcher := .after n i, workers := l₁ ++ .fetching i :: l₂, begun := s.begun ++ [i] }
  /-- `<-quit` while it waits for a worker. -/
  | quitJob {s i} : s.dispatcher = .job i → s.quit = true → Step n w fetch s { s with dispatcher := .leaving }
  /-- `close(jobs)`. -/
  | closeJobs {s} : s.dispatcher = .leaving → Step n w fetch s { s with dispatcher := .ended }
  /-- `fetch` returns. -/
  | fetched {s i l₁ l₂} : s.workers = l₁ ++ .fetching i :: l₂ →
      Step n w fetch s { s with workers := l₁ ++ .sending i (fetch i) :: l₂ }
  /-- `results[i] <- result{data, err}`. -/
  | send {s i r l₁ l₂} : s.workers = l₁ ++ .sending i r :: l₂ → s.results i = .empty →
      Step n w fetch s { s with workers := l₁ ++ .idle :: l₂, results := Function.update s.results i (.full r) }
  /-- The range over the closed `jobs` ends. -/
  | leave {s l₁ l₂} : s.workers = l₁ ++ .idle :: l₂ → s.dispatcher = .ended →
      Step n w fetch s { s with workers := l₁ ++ .ended :: l₂ }
  /-- The caller calls `next`, of at most `n` times. -/
  | call {s} : s.caller = .between → s.next < n →
      Step n w fetch s { s with caller := if s.held then .releasing else .receiving }
  /-- `<-room`. -/
  | release {s} : s.caller = .releasing → 0 < s.room →
      Step n w fetch s { s with room := s.room - 1, caller := .receiving }
  /-- `<-results[next]`, and `next` returns. -/
  | receive {s r} : s.caller = .receiving → s.results s.next = .full r →
      Step n w fetch s
        { s with
          results := Function.update s.results s.next .taken
          next := s.next + 1
          held := true
          caller := .between
          returned := s.returned ++ [r] }
  /-- The caller calls `stop`: `close(quit)`. -/
  | stop {s} : s.caller = .between → Step n w fetch s { s with quit := true, caller := .stopping }
  /-- `wg.Wait()` returns. -/
  | wait {s} : s.caller = .stopping → s.dispatcher = .ended → (∀ k ∈ s.workers, k = .ended) →
      Step n w fetch s { s with caller := .stopped }

/-! ## Without workers -/

/-- The fetcher that fetches on the caller's goroutine, and what its run has done. -/
structure Inline (R : Type) where
  /-- The index due. -/
  i : ℕ := 0
  /-- The caller: in `fetch` when it is `receiving`. -/
  caller : Caller := .between
  /-- The indexes whose fetch was begun, in order. -/
  begun : List ℕ := []
  /-- What the calls of `next` returned, in order. -/
  returned : List R := []

/-- One step of the caller. -/
inductive Inline.Step (n : ℕ) (fetch : ℕ → R) : Inline R → Inline R → Prop where
  /-- The caller calls `next`, of at most `n` times, which calls `fetch`. -/
  | call {s} : s.caller = .between → s.i < n →
      Step n fetch s { s with caller := .receiving, begun := s.begun ++ [s.i] }
  /-- `fetch` returns, and so does `next`. -/
  | fetched {s} : s.caller = .receiving →
      Step n fetch s { s with i := s.i + 1, caller := .between, returned := s.returned ++ [fetch s.i] }
  /-- The caller calls `stop`, which does nothing. -/
  | stop {s} : s.caller = .between → Step n fetch s { s with caller := .stopped }

/-! ## The fetcher -/

/-- What `startFetching` returns, in a run. -/
inductive Fetcher (R : Type) where
  /-- Without workers. -/
  | inline (s : Inline R)
  /-- With workers. -/
  | pool (s : Pool R)

/-- How many workers there are: `min(workers, n)`. -/
def poolSize (n : ℕ) (workers : ℤ) : ℕ := min workers.toNat n

/-- `startFetching`. -/
def startFetching (n : ℕ) (workers : ℤ) : Fetcher R :=
  if workers ≤ 1 ∨ n ≤ 1 then .inline {}
  else .pool { workers := List.replicate (poolSize n workers) .idle }

namespace Fetcher

/-- One step of a run. -/
inductive Step (n : ℕ) (workers : ℤ) (fetch : ℕ → R) : Fetcher R → Fetcher R → Prop where
  /-- Without workers. -/
  | inline {s s'} : Inline.Step n fetch s s' → Step n workers fetch (.inline s) (.inline s')
  /-- With workers. -/
  | pool {s s'} : Pool.Step n (poolSize n workers) fetch s s' → Step n workers fetch (.pool s) (.pool s')

/-- The states of every run of `startFetching`, in any schedule. -/
def Reaches (n : ℕ) (workers : ℤ) (fetch : ℕ → R) (s : Fetcher R) : Prop :=
  Relation.ReflTransGen (Step n workers fetch) (startFetching n workers) s

/-- The caller's goroutine. -/
def caller : Fetcher R → Caller
  | .inline s => s.caller
  | .pool s => s.caller

/-- The indexes whose fetch was begun, in order. -/
def begun : Fetcher R → List ℕ
  | .inline s => s.begun
  | .pool s => s.begun

/-- What the calls of `next` returned, in order. -/
def returned : Fetcher R → List R
  | .inline s => s.returned
  | .pool s => s.returned

/-- The payloads held: in flight, waiting, and handed over and not released by the following call. -/
def payloads (n : ℕ) : Fetcher R → ℕ
  | .inline s => if s.caller = .receiving ∨ 0 < s.i then 1 else 0
  | .pool s => (s.workers.filterMap Worker.index).length +
      ((List.range n).filter fun i => match s.results i with | .full _ => true | _ => false).length +
        if s.held ∧ s.caller ≠ .receiving then 1 else 0

/-- A call of `next` is outstanding. -/
def Outstanding (s : Fetcher R) : Prop := s.caller = .releasing ∨ s.caller = .receiving

/-- Every goroutine of the fetcher has ended. -/
def Ended : Fetcher R → Prop
  | .inline _ => True
  | .pool s => s.dispatcher = .ended ∧ ∀ k ∈ s.workers, k = .ended

end Fetcher

/-! ## The invariant of a run with workers -/

/-- The token the dispatcher holds for its next job. -/
def Dispatcher.token : Dispatcher → ℕ
  | .job _ => 1
  | _ => 0

/-- The token of the last job is the worker's. -/
theorem Dispatcher.token_after (n i : ℕ) : (Dispatcher.after n i).token = 0 := by
  unfold Dispatcher.after
  split_ifs <;> rfl

namespace Pool

/-- The indexes in flight. -/
def inFlight (s : Pool R) : List ℕ := s.workers.filterMap Worker.index

/-- The token of a payload handed over and not released. -/
def unreleased (s : Pool R) : ℕ := if s.held ∧ s.caller ≠ .receiving then 1 else 0

/-- What holds in every run: with `begun.length` indexes handed out and `next` results taken, the indexes between
them are in flight or wait in their channels, and each has a token. -/
structure Inv (n w : ℕ) (fetch : ℕ → R) (s : Pool R) : Prop where
  /-- Indexes are handed out in order. -/
  begun : s.begun = List.range s.begun.length
  /-- At most `n` of them. -/
  handed_le : s.begun.length ≤ n
  /-- The dispatcher waits with the next index. -/
  waiting : ∀ i, s.dispatcher = .room i ∨ s.dispatcher = .job i → i = s.begun.length ∧ i < n
  /-- It leaves when every index was handed out, or on `quit`. -/
  left : s.dispatcher = .leaving ∨ s.dispatcher = .ended → s.begun.length = n ∨ s.quit = true
  /-- `quit` is closed by `stop`. -/
  quit : s.quit = true ↔ s.caller = .stopping ∨ s.caller = .stopped
  /-- Only what was handed out is taken. -/
  next_le : s.next ≤ s.begun.length
  /-- The channels of what was not handed out are empty. -/
  unsent : ∀ i, s.begun.length ≤ i → s.results i = .empty
  /-- An index in flight is not sent yet. -/
  flying : ∀ i ∈ s.inFlight, s.next ≤ i ∧ i < s.begun.length ∧ s.results i = .empty
  /-- No index is in flight twice. -/
  nodup : s.inFlight.Nodup
  /-- What was handed out and not taken is in flight or waits. -/
  waits : ∀ i, s.next ≤ i → i < s.begun.length → i ∈ s.inFlight ∨ s.results i = .full (fetch i)
  /-- What was taken is gone. -/
  taken : ∀ i, i < s.next → s.results i = .taken
  /-- A worker sends what `fetch` returned. -/
  sending : ∀ i r, .sending i r ∈ s.workers → r = fetch i
  /-- The workers stay. -/
  workers : s.workers.length = w
  /-- They end after the dispatcher. -/
  ended : .ended ∈ s.workers → s.dispatcher = .ended
  /-- Every payload has a token. -/
  tokens : s.begun.length - s.next + s.unreleased + s.dispatcher.token ≤ s.room
  /-- There is no other token before `stop`. -/
  exact : s.quit = false → s.room = s.begun.length - s.next + s.unreleased + s.dispatcher.token
  /-- There is room for `w` tokens. -/
  room_le : s.room ≤ w
  /-- A payload was handed over once one was taken. -/
  held : s.held = true ↔ 0 < s.next
  /-- Only a held payload is released. -/
  releasing : s.caller = .releasing → s.held = true
  /-- At most `n` calls are made. -/
  calls : s.caller = .releasing ∨ s.caller = .receiving → s.next < n
  /-- The calls returned what `fetch` did, in order. -/
  returned : s.returned = (List.range s.next).map fetch

namespace Inv

variable {n w : ℕ} {fetch : ℕ → R} {s s' : Pool R}

/-- The invariant of the pool holds at the start of a run. -/
theorem start (hn : 0 < n) (w : ℕ) (fetch : ℕ → R) : Inv n w fetch { workers := List.replicate w .idle } := by
  have hflying : ({ workers := List.replicate w .idle } : Pool R).inFlight = [] := by
    simp [inFlight, List.filterMap_replicate, Worker.index]
  refine ⟨rfl, hn.le, ?_, ?_, ?_, le_rfl, fun _ _ => rfl, ?_, ?_, ?_, ?_, ?_, ?_, ?_, ?_, ?_, ?_, ?_, ?_, ?_, rfl⟩
  all_goals simp [hflying, unreleased, Dispatcher.token, hn]

/-- The invariant of the pool holds when the dispatcher takes a token. -/
theorem takeRoom (h : Inv n w fetch s) {i : ℕ} (hd : s.dispatcher = .room i) (hroom : s.room < w) :
    Inv n w fetch { s with room := s.room + 1, dispatcher := .job i } :=
  { h with
    waiting := by
      intro j hj
      obtain rfl : i = j := by simpa using hj
      exact h.waiting i (.inl hd)
    left := by simp
    ended := fun hk => by simpa [hd] using h.ended hk
    tokens := by
      have := h.tokens
      simp only [Dispatcher.token, hd, unreleased] at this ⊢
      omega
    exact := by
      intro hq
      have := h.exact hq
      simp only [Dispatcher.token, hd, unreleased] at this ⊢
      omega
    room_le := hroom }

/-- The invariant of the pool holds when the dispatcher leaves on `quit`. -/
theorem leaveLoop (h : Inv n w fetch s) {i : ℕ} (hd : s.dispatcher = .room i ∨ s.dispatcher = .job i)
    (hquit : s.quit = true) : Inv n w fetch { s with dispatcher := .leaving } :=
  { h with
    waiting := by simp
    left := fun _ => .inr hquit
    ended := fun hk => by
      have := h.ended hk
      rcases hd with hd | hd <;> simp [hd] at this
    tokens := by
      have := h.tokens
      simp only [Dispatcher.token, unreleased] at this ⊢
      omega
    exact := fun hq => absurd hquit (by simpa using hq) }

/-- The invariant of the pool holds when a worker takes the dispatcher's index. -/
theorem takeJob (h : Inv n w fetch s) {i : ℕ} {l₁ l₂ : List (Worker R)} (hd : s.dispatcher = .job i)
    (hw : s.workers = l₁ ++ .idle :: l₂) :
    Inv n w fetch
      { s with dispatcher := .after n i, workers := l₁ ++ .fetching i :: l₂, begun := s.begun ++ [i] } := by
  obtain ⟨rfl, hi⟩ := h.waiting i (.inr hd)
  have hflying : s.inFlight = l₁.filterMap Worker.index ++ l₂.filterMap Worker.index := by
    rw [inFlight, hw, List.filterMap_append, List.filterMap_cons_none rfl]
  have hperm : (l₁ ++ .fetching s.begun.length :: l₂).filterMap Worker.index =
      l₁.filterMap Worker.index ++ s.begun.length :: l₂.filterMap Worker.index := by
    simp [Worker.index]
  -- The index is the next to begin, so no worker can have it already.
  have hnot : s.begun.length ∉ s.inFlight := fun hmem => by
    have := (h.flying _ hmem).2.1
    omega
  have hunsent := h.unsent s.begun.length le_rfl
  have hnext := h.next_le
  exact
  { h with
    begun := by
      rw [List.length_append, List.length_singleton, List.range_succ, ← h.begun]
    handed_le := by
      rw [List.length_append, List.length_singleton]
      omega
    -- The dispatcher goes on to the index after this one, or leaves after the last.
    waiting := by
      intro j hj
      simp only [Dispatcher.after] at hj
      rw [List.length_append, List.length_singleton]
      split_ifs at hj with hlast
      · obtain rfl : s.begun.length + 1 = j := by simpa using hj
        exact ⟨rfl, hlast⟩
      · simp at hj
    left := by
      intro hleft
      simp only [Dispatcher.after] at hleft
      rw [List.length_append, List.length_singleton]
      split_ifs at hleft with hlast
      · simp at hleft
      · exact .inl (by omega)
    next_le := by
      rw [List.length_append, List.length_singleton]
      exact hnext.trans (Nat.le_succ _)
    unsent := by
      intro j hj
      rw [List.length_append, List.length_singleton] at hj
      exact h.unsent j (by omega)
    flying := by
      intro j hj
      rw [List.length_append, List.length_singleton]
      simp only [inFlight, hperm, List.mem_append, List.mem_cons] at hj
      have hj : j = s.begun.length ∨ j ∈ s.inFlight := by
        rw [hflying, List.mem_append]
        tauto
      rcases hj with rfl | hj
      · exact ⟨hnext, by omega, hunsent⟩
      · obtain ⟨h1, h2, h3⟩ := h.flying j hj
        exact ⟨h1, by omega, h3⟩
    nodup := by
      simp only [inFlight, hperm]
      rw [List.nodup_middle, List.nodup_cons, ← hflying]
      exact ⟨hnot, h.nodup⟩
    waits := by
      intro j hj hlt
      rw [List.length_append, List.length_singleton] at hlt
      simp only [inFlight, hperm, List.mem_append, List.mem_cons]
      by_cases hjl : j = s.begun.length
      · exact .inl (.inr (.inl hjl))
      · have := h.waits j hj (by omega)
        rw [hflying, List.mem_append] at this
        tauto
    sending := by
      intro j r hj
      refine h.sending j r ?_
      rw [hw]
      simpa using hj
    workers := by
      have := h.workers
      rw [hw] at this
      simpa using this
    ended := by
      intro hk
      have hk' : Worker.ended ∈ s.workers := by
        rw [hw]
        simpa using hk
      have := h.ended hk'
      simp [hd] at this
    -- The token the dispatcher held is now the begun index's.
    tokens := by
      have := h.tokens
      rw [hd] at this
      simp only [Dispatcher.token_after, unreleased, List.length_append, List.length_singleton] at this ⊢
      simp only [Dispatcher.token] at this
      omega
    exact := by
      intro hq
      have := h.exact hq
      rw [hd] at this
      simp only [Dispatcher.token_after, unreleased, List.length_append, List.length_singleton] at this ⊢
      simp only [Dispatcher.token] at this
      omega }

/-- The invariant of the pool holds when the dispatcher closes `jobs`. -/
theorem closeJobs (h : Inv n w fetch s) (hd : s.dispatcher = .leaving) :
    Inv n w fetch { s with dispatcher := .ended } :=
  { h with
    waiting := by simp
    left := fun _ => h.left (.inl hd)
    ended := fun _ => rfl
    tokens := by
      have := h.tokens
      simp only [Dispatcher.token, hd, unreleased] at this ⊢
      omega
    exact := by
      intro hq
      have := h.exact hq
      simp only [Dispatcher.token, hd, unreleased] at this ⊢
      omega }

/-- A worker goes on with the same index, or none. -/
theorem goOn (h : Inv n w fetch s) {k k' : Worker R} {l₁ l₂ : List (Worker R)} (hw : s.workers = l₁ ++ k :: l₂)
    (hk : k'.index = k.index) (hsending : ∀ i r, k' = .sending i r → r = fetch i)
    (hended : k' = .ended → s.dispatcher = .ended) : Inv n w fetch { s with workers := l₁ ++ k' :: l₂ } := by
  -- What is in flight is read off the workers' indexes, and these are the same.
  have hflying : (l₁ ++ k' :: l₂).filterMap Worker.index = s.inFlight := by
    rw [inFlight, hw]
    simp only [List.filterMap_append, List.filterMap_cons, hk]
  have hother : ∀ x, x ∈ l₁ ++ k' :: l₂ → x = k' ∨ x ∈ s.workers := by
    intro x hx
    rw [hw]
    simp only [List.mem_append, List.mem_cons] at hx ⊢
    tauto
  exact
  { h with
    flying := by
      simp only [inFlight, hflying]
      exact h.flying
    nodup := by
      simp only [inFlight, hflying]
      exact h.nodup
    waits := by
      simp only [inFlight, hflying]
      exact h.waits
    sending := by
      intro j r hj
      rcases hother _ hj with heq | hj
      · exact hsending j r heq.symm
      · exact h.sending j r hj
    workers := by
      have := h.workers
      rw [hw] at this
      simpa using this
    ended := by
      intro hmem
      rcases hother _ hmem with heq | hmem
      · exact hended heq.symm
      · exact h.ended hmem }

/-- A result is sent: it waits for the caller. -/
theorem send (h : Inv n w fetch s) {i : ℕ} {r : R} {l₁ l₂ : List (Worker R)} (hw : s.workers = l₁ ++ .sending i r :: l₂) :
    Inv n w fetch { s with workers := l₁ ++ .idle :: l₂, results := Function.update s.results i (.full r) } := by
  have hold : s.inFlight = l₁.filterMap Worker.index ++ i :: l₂.filterMap Worker.index := by
    simp [inFlight, hw, Worker.index]
  have hflying : (l₁ ++ .idle :: l₂).filterMap Worker.index = l₁.filterMap Worker.index ++ l₂.filterMap Worker.index := by
    rw [List.filterMap_append, List.filterMap_cons_none rfl]
  -- An index in flight has no result yet, so the slot written to is an empty one.
  obtain ⟨hnext, hlt, hempty⟩ := h.flying i (by simp [hold])
  have hnodup := h.nodup
  rw [hold, List.nodup_middle, List.nodup_cons] at hnodup
  have hr : r = fetch i := h.sending i r (by simp [hw])
  exact
  { h with
    unsent := by
      intro j hj
      dsimp only at hj ⊢
      rw [Function.update_of_ne (by omega)]
      exact h.unsent j hj
    flying := by
      intro j hj
      simp only [inFlight, hflying] at hj
      have hne : j ≠ i := fun heq => hnodup.1 (heq ▸ hj)
      dsimp only
      rw [Function.update_of_ne hne]
      exact h.flying j (by
        rw [hold]
        simp only [List.mem_append, List.mem_cons] at hj ⊢
        tauto)
    nodup := by
      simp only [inFlight, hflying]
      exact hnodup.2
    -- The index leaves the workers and enters the results at the same step.
    waits := by
      intro j hj hjlt
      simp only [inFlight, hflying]
      by_cases hne : j = i
      · subst hne
        rw [Function.update_self, hr]
        exact .inr rfl
      · rw [Function.update_of_ne hne]
        refine (h.waits j hj hjlt).imp_left fun hmem => ?_
        rw [hold] at hmem
        simp only [List.mem_append, List.mem_cons] at hmem ⊢
        tauto
    taken := by
      intro j hj
      dsimp only at hj ⊢
      rw [Function.update_of_ne (by omega)]
      exact h.taken j hj
    sending := by
      intro j r' hj
      refine h.sending j r' ?_
      rw [hw]
      simp only [List.mem_append, List.mem_cons] at hj ⊢
      rcases hj with hj | hj | hj
      · exact .inl hj
      · simp at hj
      · exact .inr (.inr hj)
    workers := by
      have := h.workers
      rw [hw] at this
      simpa using this
    ended := by
      intro hk
      refine h.ended ?_
      rw [hw]
      simpa using hk }

/-- The invariant of the pool holds when the caller calls `next`. -/
theorem call (h : Inv n w fetch s) (hc : s.caller = .between) (hnext : s.next < n) :
    Inv n w fetch { s with caller := if s.held then .releasing else .receiving } := by
  have hquit : s.quit = false := by
    rw [Bool.eq_false_iff]
    intro hq
    simpa [hc] using h.quit.mp hq
  -- A call gives nothing back yet: what is not released is the same before and after.
  have hun : (if s.held ∧ (if s.held then Caller.releasing else .receiving) ≠ .receiving then 1 else 0) = s.unreleased := by
    unfold unreleased
    by_cases hh : s.held = true <;> simp [hh, hc]
  exact
  { h with
    quit := by
      rw [hquit]
      by_cases hh : s.held = true <;> simp [hh]
    tokens := by
      have := h.tokens
      simp only [unreleased] at this hun ⊢
      rw [hun]
      exact this
    exact := by
      intro hq
      have := h.exact hq
      simp only [unreleased] at this hun ⊢
      rw [hun]
      exact this
    releasing := by
      by_cases hh : s.held = true <;> simp [hh]
    calls := fun _ => hnext }

/-- The token of the payload handed over last is given back. -/
theorem release (h : Inv n w fetch s) (hc : s.caller = .releasing) :
    Inv n w fetch { s with room := s.room - 1, caller := .receiving } := by
  have hheld := h.releasing hc
  exact
  { h with
    quit := by
      have := h.quit
      simp only [hc] at this
      simpa using this
    tokens := by
      have := h.tokens
      simp only [unreleased, hc, hheld, Dispatcher.token] at this ⊢
      simp at this ⊢
      omega
    exact := by
      intro hq
      have := h.exact hq
      simp only [unreleased, hc, hheld, Dispatcher.token] at this ⊢
      simp at this ⊢
      omega
    room_le := by
      have := h.room_le
      simp only
      omega
    releasing := by simp
    calls := fun _ => h.calls (.inl hc) }

/-- The result due is taken, and `next` returns. -/
theorem receive (h : Inv n w fetch s) {r : R} (hc : s.caller = .receiving) (hr : s.results s.next = .full r) :
    Inv n w fetch
      { s with
        results := Function.update s.results s.next .taken
        next := s.next + 1
        held := true
        caller := .between
        returned := s.returned ++ [r] } := by
  -- A slot is full only of an index that was begun and is with no worker any more.
  have hlt : s.next < s.begun.length := by
    by_contra hge
    have := h.unsent s.next (by omega)
    simp [hr] at this
  have hnot : s.next ∉ s.inFlight := fun hmem => by
    have := (h.flying _ hmem).2.2
    simp [hr] at this
  have hfetch : r = fetch s.next := by
    rcases h.waits s.next le_rfl hlt with hmem | hfull
    · exact absurd hmem hnot
    · simpa [hr] using hfull
  exact
  { h with
    quit := by
      have := h.quit
      simp only [hc] at this
      simpa using this
    next_le := hlt
    unsent := by
      intro j hj
      dsimp only at hj ⊢
      rw [Function.update_of_ne (by omega)]
      exact h.unsent j hj
    flying := by
      intro j hj
      obtain ⟨h1, h2, h3⟩ := h.flying j hj
      have hne : j ≠ s.next := fun heq => hnot (heq ▸ hj)
      dsimp only
      rw [Function.update_of_ne hne]
      exact ⟨by omega, h2, h3⟩
    waits := by
      intro j hj hjlt
      dsimp only at hj ⊢
      rw [Function.update_of_ne (by omega)]
      exact h.waits j (by omega) hjlt
    taken := by
      intro j hj
      dsimp only at hj ⊢
      by_cases hne : j = s.next
      · rw [hne, Function.update_self]
      · rw [Function.update_of_ne hne]
        exact h.taken j (by omega)
    -- The payload handed over keeps its token until the next call: `held` takes the place of the full slot.
    tokens := by
      have := h.tokens
      simp only [unreleased, hc, Dispatcher.token] at this ⊢
      simp at this ⊢
      omega
    exact := by
      intro hq
      have := h.exact hq
      simp only [unreleased, hc, Dispatcher.token] at this ⊢
      simp at this ⊢
      omega
    held := by simp
    releasing := by simp
    calls := by simp
    returned := by
      simp only
      rw [h.returned, List.range_succ, List.map_append, List.map_singleton, hfetch] }

/-- The caller calls `stop`, or `stop` returns. -/
theorem stop (h : Inv n w fetch s) {c : Caller} (hc : s.caller = .between ∨ s.caller = .stopping)
    (hstop : c = .stopping ∨ c = .stopped) : Inv n w fetch { s with quit := true, caller := c } := by
  have hne : s.caller ≠ .receiving ∧ c ≠ .receiving ∧ c ≠ .releasing := by
    rcases hc with hc | hc <;> rcases hstop with rfl | rfl <;> simp [hc]
  exact
  { h with
    left := fun _ => .inr rfl
    quit := by simpa using hstop
    tokens := by
      have := h.tokens
      simp only [unreleased, ne_eq, hne.1, hne.2.1, not_false_eq_true] at this ⊢
      exact this
    exact := by simp
    releasing := fun hr => absurd hr hne.2.2
    calls := fun hr => absurd hr (by simp [hne]) }

/-- Every step keeps the invariant. -/
theorem step (h : Inv n w fetch s) (hstep : Step n w fetch s s') : Inv n w fetch s' := by
  cases hstep with
  | takeRoom hd hroom => exact h.takeRoom hd hroom
  | quitRoom hd hquit => exact h.leaveLoop (.inl hd) hquit
  | takeJob hd hw => exact h.takeJob hd hw
  | quitJob hd hquit => exact h.leaveLoop (.inr hd) hquit
  | closeJobs hd => exact h.closeJobs hd
  | fetched hw => exact h.goOn hw rfl (fun i r heq => by cases heq; rfl) (by simp)
  | send hw _ => exact h.send hw
  | leave hw hd => exact h.goOn hw rfl (by simp) fun _ => hd
  | call hc hnext => exact h.call hc hnext
  | release hc _ => exact h.release hc
  | receive hc hr => exact h.receive hc hr
  | stop hc => exact h.stop (.inl hc) (.inl rfl)
  | wait hc _ _ =>
    have hquit : s.quit = true := h.quit.mpr (.inl hc)
    have := h.stop (.inr hc) (.inr rfl)
    rwa [← hquit] at this

end Inv

end Pool

/-! ## What follows for a run with workers -/

/-- What the dispatcher has left to do, each index with what a worker then does. -/
def Dispatcher.left (n : ℕ) : Dispatcher → ℕ
  | .room i => 4 * (n - i) + 3
  | .job i => 4 * (n - i) + 2
  | .leaving => 1
  | .ended => 0

/-- What a worker has left to do with its index. -/
def Worker.left : Worker R → ℕ
  | .idle => 1
  | .fetching _ => 3
  | .sending _ _ => 2
  | .ended => 0

/-- What the caller may still do. -/
def Caller.left (n next : ℕ) : Caller → ℕ
  | .between => 3 * (n - next) + 2
  | .releasing => 3 * (n - next) + 1
  | .receiving => 3 * (n - next)
  | .stopping => 1
  | .stopped => 0

namespace Pool

variable {n w : ℕ} {fetch : ℕ → R} {s : Pool R}

/-- The indexes whose results wait for the caller. -/
def waiting (n : ℕ) (s : Pool R) : List ℕ :=
  (List.range n).filter fun i => match s.results i with | .full _ => true | _ => false

/-- An index waits exactly when its result was sent and not taken. -/
theorem mem_waiting {i : ℕ} : i ∈ s.waiting n ↔ i < n ∧ ∃ r, s.results i = .full r := by
  rw [waiting, List.mem_filter, List.mem_range]
  refine and_congr_right fun _ => ?_
  cases s.results i <;> simp

/-- The payloads in flight and waiting are the indexes handed out and not taken. -/
theorem Inv.length_held (h : Inv n w fetch s) :
    s.inFlight.length + (s.waiting n).length = s.begun.length - s.next := by
  have hdisjoint : ∀ i ∈ s.inFlight, i ∉ s.waiting n := by
    intro i hi hwait
    obtain ⟨-, r, hr⟩ := mem_waiting.mp hwait
    simp [(h.flying i hi).2.2] at hr
  have hnodup : (s.inFlight ++ s.waiting n).Nodup :=
    List.nodup_append.mpr ⟨h.nodup, List.nodup_range.filter _, fun a ha b hb heq => hdisjoint a ha (heq ▸ hb)⟩
  have hperm : (s.inFlight ++ s.waiting n).Perm (List.range' s.next (s.begun.length - s.next)) := by
    refine (List.perm_ext_iff_of_nodup hnodup List.nodup_range').mpr fun i => ?_
    have hnext := h.next_le
    have hhanded := h.handed_le
    rw [List.mem_append, List.mem_range'_1, mem_waiting]
    constructor
    · rintro (hi | ⟨-, r, hr⟩)
      · obtain ⟨h1, h2, -⟩ := h.flying i hi
        omega
      · have h1 : ¬ i < s.next := fun hlt => by simp [h.taken i hlt] at hr
        have h2 : ¬ s.begun.length ≤ i := fun hge => by simp [h.unsent i hge] at hr
        omega
    · intro hi
      refine (h.waits i hi.1 (by omega)).imp_right fun hfull => ⟨by omega, _, hfull⟩
  have := hperm.length_eq
  rwa [List.length_append, List.length_range'] at this

/-- A worker with an index in flight can go on. -/
theorem Inv.worker_step (h : Inv n w fetch s) (hflying : s.inFlight ≠ []) : ∃ s', Step n w fetch s s' := by
  obtain ⟨i, hi⟩ := List.exists_mem_of_ne_nil _ hflying
  obtain ⟨k, hk, hindex⟩ := List.mem_filterMap.mp hi
  obtain ⟨l₁, l₂, hw⟩ := List.append_of_mem hk
  cases k with
  | idle => simp [Worker.index] at hindex
  | fetching j => exact ⟨_, .fetched hw⟩
  | sending j r =>
    obtain rfl : j = i := by simpa [Worker.index] using hindex
    exact ⟨_, .send hw (h.flying j hi).2.2⟩
  | ended => simp [Worker.index] at hindex

/-- Where not every worker has an index and `jobs` is open, one is idle. -/
theorem Inv.exists_idle (h : Inv n w fetch s) (hlt : s.inFlight.length < w) (hopen : s.dispatcher ≠ .ended) :
    ∃ l₁ l₂, s.workers = l₁ ++ .idle :: l₂ := by
  by_contra hnone
  have hall : ∀ k ∈ s.workers, (k.index).isSome := by
    intro k hk
    cases k with
    | idle =>
      obtain ⟨l₁, l₂, hw⟩ := List.append_of_mem hk
      exact absurd ⟨l₁, l₂, hw⟩ hnone
    | fetching i => rfl
    | sending i r => rfl
    | ended => exact absurd (h.ended hk) hopen
  have hlength : s.inFlight.length = s.workers.length := by
    rw [inFlight, List.length_filterMap_eq_countP, List.countP_eq_length]
    exact hall
  rw [hlength, h.workers] at hlt
  exact absurd hlt (lt_irrefl w)

/-- While a call of `next` is outstanding some goroutine can go on. -/
theorem Inv.next_step (h : Inv n w fetch s) (hw : 0 < w) (hcall : s.caller = .releasing ∨ s.caller = .receiving) :
    ∃ s', Step n w fetch s s' := by
  have hquit : s.quit = false := by
    rw [Bool.eq_false_iff]
    intro hq
    rcases hcall with hc | hc <;> simpa [hc] using h.quit.mp hq
  have htokens := h.tokens
  rcases hcall with hc | hc
  · -- The token of the payload handed over last is there to be taken.
    refine ⟨_, .release hc ?_⟩
    simp only [unreleased, h.releasing hc, hc] at htokens
    simp at htokens
    omega
  by_cases hflying : s.inFlight = []
  swap
  · exact h.worker_step hflying
  have hlength := h.length_held
  rw [hflying, List.length_nil, Nat.zero_add] at hlength
  have hnext := h.calls (.inr hc)
  by_cases hdue : s.next < s.begun.length
  · -- The result due was handed out and is not in flight: it waits.
    rcases h.waits s.next le_rfl hdue with hmem | hfull
    · simp [hflying] at hmem
    · exact ⟨_, .receive hc hfull⟩
  · -- It was not handed out yet: nothing is held, so the dispatcher can go on.
    have hheld : s.begun.length - s.next = 0 := by omega
    cases hd : s.dispatcher with
    | room i =>
      refine ⟨_, .takeRoom hd ?_⟩
      have hroom := h.exact hquit
      simp only [hheld, unreleased, hc, hd, Dispatcher.token] at hroom
      simp at hroom
      omega
    | job i =>
      obtain ⟨l₁, l₂, hidle⟩ := h.exists_idle (by simpa [hflying] using hw) (by simp [hd])
      exact ⟨_, .takeJob hd hidle⟩
    | leaving => exact ⟨_, .closeJobs hd⟩
    | ended =>
      rcases h.left (.inr hd) with hall | hq
      · omega
      · simp [hquit] at hq

/-- While `stop` waits some goroutine can go on, or all have ended and it returns. -/
theorem Inv.stop_step (h : Inv n w fetch s) (hc : s.caller = .stopping) : ∃ s', Step n w fetch s s' := by
  have hquit : s.quit = true := h.quit.mpr (.inl hc)
  cases hd : s.dispatcher with
  | room i => exact ⟨_, .quitRoom hd hquit⟩
  | job i => exact ⟨_, .quitJob hd hquit⟩
  | leaving => exact ⟨_, .closeJobs hd⟩
  | ended =>
    by_cases hall : ∀ k ∈ s.workers, k = .ended
    · exact ⟨_, .wait hc hd hall⟩
    · push Not at hall
      obtain ⟨k, hk, hne⟩ := hall
      obtain ⟨l₁, l₂, hw⟩ := List.append_of_mem hk
      cases k with
      | idle => exact ⟨_, .leave hw hd⟩
      | fetching i => exact ⟨_, .fetched hw⟩
      | sending i r =>
        refine ⟨_, .send hw (h.flying i ?_).2.2⟩
        exact List.mem_filterMap.mpr ⟨_, hk, rfl⟩
      | ended => exact absurd rfl hne

/-! ### Every run ends -/

/-- What is left of a run. -/
def left (n : ℕ) (s : Pool R) : ℕ :=
  Dispatcher.left n s.dispatcher + (s.workers.map Worker.left).sum + Caller.left n s.next s.caller

/-- Every step of the fetches leaves less to do. -/
theorem Inv.left_lt (h : Inv n w fetch s) {s' : Pool R} (hstep : Step n w fetch s s') : s'.left n < s.left n := by
  have hworkers : ∀ (l₁ l₂ : List (Worker R)) (k : Worker R), ((l₁ ++ k :: l₂).map Worker.left).sum =
      (l₁.map Worker.left).sum + (k.left + (l₂.map Worker.left).sum) := by simp
  cases hstep with
  | takeRoom hd _ => simp only [Pool.left, hd, Dispatcher.left]; omega
  | quitRoom hd _ => simp only [Pool.left, hd, Dispatcher.left]; omega
  | @takeJob i l₁ l₂ hd hw =>
    have hi := (h.waiting i (.inr hd)).2
    simp only [Pool.left, hd, hw, hworkers, Dispatcher.after, Worker.left]
    split_ifs with hlast <;> simp only [Dispatcher.left] <;> omega
  | quitJob hd _ => simp only [Pool.left, hd, Dispatcher.left]; omega
  | closeJobs hd => simp only [Pool.left, hd, Dispatcher.left]; omega
  | fetched hw => simp only [Pool.left, hw, hworkers, Worker.left]; omega
  | send hw _ => simp only [Pool.left, hw, hworkers, Worker.left]; omega
  | leave hw _ => simp only [Pool.left, hw, hworkers, Worker.left]; omega
  | call hc _ =>
    simp only [Pool.left, hc, Caller.left]
    split_ifs <;> simp only <;> omega
  | release hc _ => simp only [Pool.left, hc, Caller.left]; omega
  | receive hc _ =>
    have := h.calls (.inr hc)
    simp only [Pool.left, hc, Caller.left]
    omega
  | stop hc => simp only [Pool.left, hc, Caller.left]; omega
  | wait hc _ _ => simp only [Pool.left, hc, Caller.left]; omega

end Pool

/-! ## A run without workers -/

namespace Inline

variable {n : ℕ} {fetch : ℕ → R} {s s' : Inline R}

/-- What holds in every run. -/
structure Inv (n : ℕ) (fetch : ℕ → R) (s : Inline R) : Prop where
  /-- The fetches are begun in order, each by its call. -/
  begun : s.begun = List.range (s.i + if s.caller = .receiving then 1 else 0)
  /-- The calls returned what `fetch` did, in order. -/
  returned : s.returned = (List.range s.i).map fetch
  /-- At most `n` calls are made. -/
  calls : s.i + (if s.caller = .receiving then 1 else 0) ≤ n
  /-- The caller waits for nothing else. -/
  caller : s.caller = .between ∨ s.caller = .receiving ∨ s.caller = .stopped

/-- Every step of the fetches keeps the invariant. -/
theorem Inv.step (h : Inv n fetch s) (hstep : Step n fetch s s') : Inv n fetch s' := by
  cases hstep with
  | call hc hi =>
    refine ⟨?_, h.returned, by simpa using hi, by simp⟩
    simp [h.begun, hc, List.range_succ]
  | fetched hc =>
    refine ⟨?_, ?_, ?_, by simp⟩
    · simp [h.begun, hc]
    · simp [h.returned, List.range_succ]
    · simpa [hc] using h.calls
  | stop hc =>
    refine ⟨?_, h.returned, ?_, by simp⟩
    · simp [h.begun, hc]
    · simpa [hc] using h.calls

/-- What is left of a run. -/
def left (n : ℕ) (s : Inline R) : ℕ :=
  match s.caller with
  | .between => 2 * (n - s.i) + 1
  | .receiving => 2 * (n - s.i)
  | _ => 0

/-- Every step of the fetches leaves less to do. -/
theorem Inv.left_lt (h : Inv n fetch s) (hstep : Step n fetch s s') : s'.left n < s.left n := by
  cases hstep with
  | call hc _ => simp [Inline.left, hc]
  | fetched hc =>
    have := h.calls
    simp only [Inline.left, hc, if_true] at this ⊢
    omega
  | stop hc => simp [Inline.left, hc]

end Inline

/-! ## Every run -/

namespace Fetcher

variable {n : ℕ} {workers : ℤ} {fetch : ℕ → R} {s s' : Fetcher R}

/-- What holds in every run. -/
def Inv (n : ℕ) (workers : ℤ) (fetch : ℕ → R) : Fetcher R → Prop
  | .inline s => Inline.Inv n fetch s
  | .pool s => 0 < n ∧ 1 < workers ∧ Pool.Inv n (poolSize n workers) fetch s

/-- What is left of a run. -/
def left (n : ℕ) : Fetcher R → ℕ
  | .inline s => s.left n
  | .pool s => s.left n

/-- `stop`. -/
def stop : Fetcher R → Fetcher R
  | .inline s => .inline { s with caller := .stopped }
  | .pool s => .pool { s with quit := true, caller := .stopping }

/-- The invariant of the fetches holds at the start. -/
theorem inv_start : Inv n workers fetch (startFetching n workers) := by
  unfold startFetching
  split_ifs with h
  · exact ⟨rfl, rfl, Nat.zero_le n, by simp⟩
  · exact ⟨by omega, by omega, Pool.Inv.start (by omega) _ _⟩

/-- Every step of the fetches keeps the invariant. -/
theorem Inv.step (h : Inv n workers fetch s) (hstep : Step n workers fetch s s') : Inv n workers fetch s' := by
  cases hstep with
  | inline hstep => exact Inline.Inv.step h hstep
  | pool hstep => exact ⟨h.1, h.2.1, h.2.2.step hstep⟩

/-- The invariant of the fetches holds in every run. -/
theorem inv_of_reaches (h : Reaches n workers fetch s) : Inv n workers fetch s :=
  Runs.of_run h inv_start Inv.step

/-- Every step of the fetches leaves less to do. -/
theorem Inv.left_lt (h : Inv n workers fetch s) (hstep : Step n workers fetch s s') : s'.left n < s.left n := by
  cases hstep with
  | inline hstep => exact Inline.Inv.left_lt h hstep
  | pool hstep => exact h.2.2.left_lt hstep

/-- While a call of `next` is outstanding there is a step. -/
theorem Inv.next_step (h : Inv n workers fetch s) (hcall : s.Outstanding) : ∃ s', Step n workers fetch s s' := by
  cases s with
  | inline s =>
    have hc : s.caller = .receiving := by
      have := Inline.Inv.caller h
      rcases hcall with hc | hc <;> simp_all [Fetcher.caller]
    exact ⟨_, .inline (.fetched hc)⟩
  | pool s =>
    obtain ⟨hn, hworkers, h⟩ := h
    obtain ⟨s', hstep⟩ := h.next_step (by simp only [poolSize]; omega) hcall
    exact ⟨_, .pool hstep⟩

/-- A call of `next` that is outstanding stays so until it returns. -/
theorem outstanding_step (hcall : s.Outstanding) (hstep : Step n workers fetch s s') :
    s'.Outstanding ∧ s'.returned = s.returned ∨ ∃ r, s'.returned = s.returned ++ [r] := by
  have hcaller : s.caller ≠ .between ∧ s.caller ≠ .stopping := by
    rcases hcall with hc | hc <;> simp [hc]
  cases hstep with
  | inline hstep =>
    cases hstep with
    | call hc _ => exact absurd hc hcaller.1
    | fetched _ => exact .inr ⟨_, rfl⟩
    | stop hc => exact absurd hc hcaller.1
  | pool hstep =>
    cases hstep with
    | call hc _ => exact absurd hc hcaller.1
    | release _ _ => exact .inl ⟨.inr rfl, rfl⟩
    | receive _ _ => exact .inr ⟨_, rfl⟩
    | stop hc => exact absurd hc hcaller.1
    | wait hc _ _ => exact absurd hc hcaller.2
    | _ => exact .inl ⟨hcall, rfl⟩

/-- `stop` waits until it returns, with every goroutine ended. -/
theorem stopping_step (h : Inv n workers fetch s) (hc : s.caller = .stopping) (hstep : Step n workers fetch s s') :
    s'.caller = .stopping ∨ s'.caller = .stopped ∧ s'.Ended := by
  cases hstep with
  | inline hstep =>
    have := Inline.Inv.caller h
    simp_all [Fetcher.caller]
  | pool hstep =>
    cases hstep with
    | call hb _ => exact absurd (hb.symm.trans hc) (by simp)
    | release hb _ => exact absurd (hb.symm.trans hc) (by simp)
    | receive hb _ => exact absurd (hb.symm.trans hc) (by simp)
    | stop hb => exact absurd (hb.symm.trans hc) (by simp)
    | wait _ hd hall => exact .inr ⟨rfl, hd, hall⟩
    | _ => exact .inl hc

/-- Every outstanding call of `next` returns. -/
theorem Inv.next_returns (h : Inv n workers fetch s) (hcall : s.Outstanding) :
    Inevitable (Step n workers fetch) (fun t => ∃ r, t.returned = s.returned ++ [r]) s := by
  refine inevitable_of_measure (Fetcher.left n)
    (I := fun t => Inv n workers fetch t ∧
      (t.Outstanding ∧ t.returned = s.returned ∨ ∃ r, t.returned = s.returned ++ [r])) ?_ ?_ ?_ ⟨h, .inl ⟨hcall, rfl⟩⟩
  · rintro t t' ⟨ht, hstate⟩ hnot hstep
    obtain ⟨hout, hret⟩ := hstate.resolve_right hnot
    refine ⟨ht.step hstep, ?_⟩
    rw [← hret]
    exact outstanding_step hout hstep
  · exact fun t t' ht hstep => ht.1.left_lt hstep
  · exact fun t ht hnot => ht.1.next_step (ht.2.resolve_right hnot).1

/-- `stop` called between two calls returns, with every goroutine ended. -/
theorem Inv.stop_returns (h : Inv n workers fetch s) (hc : s.caller = .between) :
    Step n workers fetch s s.stop ∧
      Inevitable (Step n workers fetch) (fun t => t.caller = .stopped ∧ t.Ended) s.stop := by
  have hstop : Step n workers fetch s s.stop := by
    cases s with
    | inline s => exact .inline (.stop hc)
    | pool s => exact .pool (.stop hc)
  refine ⟨hstop, inevitable_of_measure (Fetcher.left n)
    (I := fun t => Inv n workers fetch t ∧ (t.caller = .stopping ∨ t.caller = .stopped ∧ t.Ended)) ?_ ?_ ?_
    ⟨h.step hstop, ?_⟩⟩
  · rintro t t' ⟨ht, hstate⟩ hnot hstep
    exact ⟨ht.step hstep, stopping_step ht (hstate.resolve_right hnot) hstep⟩
  · exact fun t t' ht hstep => ht.1.left_lt hstep
  · rintro t ⟨ht, hstate⟩ hnot
    have hstopping := hstate.resolve_right hnot
    cases t with
    | inline t =>
      have := Inline.Inv.caller ht
      simp_all [Fetcher.caller]
    | pool t =>
      obtain ⟨t', hstep⟩ := ht.2.2.stop_step hstopping
      exact ⟨_, .pool hstep⟩
  · cases s with
    | inline s => exact .inr ⟨rfl, trivial⟩
    | pool s => exact .inl rfl

/-- The payloads held are at most the workers, or one where there are none. -/
theorem Inv.payloads_le (h : Inv n workers fetch s) : (s.payloads n : ℤ) ≤ max workers 1 := by
  cases s with
  | inline s =>
    simp only [payloads]
    split_ifs <;> simp
  | pool s =>
    obtain ⟨hn, hworkers, h⟩ := h
    have hheld := h.length_held
    have htokens := h.tokens
    have hroom := h.room_le
    have hpayloads : (Fetcher.pool s).payloads n = s.inFlight.length + (s.waiting n).length + s.unreleased := rfl
    rw [hpayloads]
    simp only [poolSize] at hroom
    omega

/-- What the calls returned, and what was fetched for it. -/
theorem Inv.ordered (h : Inv n workers fetch s) :
    s.returned = (List.range s.returned.length).map fetch ∧ ∃ k ≤ n, s.returned.length ≤ k ∧ s.begun = List.range k := by
  cases s with
  | inline s =>
    have hreturned : (Fetcher.inline s).returned = (List.range s.i).map fetch := Inline.Inv.returned h
    refine ⟨by simp [hreturned], _, Inline.Inv.calls h, ?_, Inline.Inv.begun h⟩
    rw [hreturned, List.length_map, List.length_range]
    exact Nat.le_add_right _ _
  | pool s =>
    obtain ⟨hn, hworkers, h⟩ := h
    have hreturned : (Fetcher.pool s).returned = (List.range s.next).map fetch := h.returned
    refine ⟨by simp [hreturned], s.begun.length, h.handed_le, ?_, h.begun⟩
    rw [hreturned]
    simpa using h.next_le

/-- In every run of `startFetching`, whatever the schedule: the calls of `next` return what `fetch` does, in order;
no index is fetched twice, and every index whose result was returned was fetched; at most `workers` payloads are held,
or one where fetches are made by the caller; a call of `next` goes on until it returns; and `stop` returns with every
goroutine ended. -/
theorem startFetching_orderly (h : Reaches n workers fetch s) :
    s.returned = (List.range s.returned.length).map fetch ∧
      (∀ i, s.begun.count i ≤ 1) ∧ (∀ i ∈ s.begun, i < n) ∧ (∀ i < s.returned.length, s.begun.count i = 1) ∧
        (s.payloads n : ℤ) ≤ max workers 1 ∧
          (s.Outstanding → (∃ s', Step n workers fetch s s') ∧
            Inevitable (Step n workers fetch) (fun t => ∃ r, t.returned = s.returned ++ [r]) s) ∧
            (s.caller = .between → Step n workers fetch s s.stop ∧
              Inevitable (Step n workers fetch) (fun t => t.caller = .stopped ∧ t.Ended) s.stop) := by
  have hinv := inv_of_reaches h
  obtain ⟨hordered, k, hk, hlen, hbegun⟩ := hinv.ordered
  refine ⟨hordered, fun i => ?_, fun i hi => ?_, fun i hi => ?_, hinv.payloads_le,
    fun hcall => ⟨hinv.next_step hcall, hinv.next_returns hcall⟩, hinv.stop_returns⟩
  · rw [hbegun]
    exact List.nodup_iff_count_le_one.mp List.nodup_range i
  · rw [hbegun, List.mem_range] at hi
    omega
  · rw [hbegun]
    exact List.count_eq_one_of_mem List.nodup_range (List.mem_range.mpr (by omega))

/-- Two workers and two payloads, with the first call of `next` outstanding. -/
def twoCalled : Fetcher ℕ := .pool { workers := [.idle, .idle], caller := .receiving }

/-- A call of two jobs on two workers returns. -/
theorem startFetching_orderly_twoCalled :
    Inevitable (Step 2 2 (fun i => 10 * i)) (fun t => ∃ r, t.returned = [r]) twoCalled := by
  have hreach : Reaches 2 2 (fun i => 10 * i) twoCalled :=
    .single (.pool (.call (s := { workers := [.idle, .idle] }) rfl (by decide)))
  exact ((startFetching_orderly hreach).2.2.2.2.2.1 (.inr rfl)).2

/-- With no workers one payload is held: the caller fetches it itself. -/
theorem payload_without_workers :
    ¬ ∀ (n : ℕ) (workers : ℤ) (fetch : ℕ → ℕ) (s : Fetcher ℕ), Reaches n workers fetch s →
      (s.payloads n : ℤ) ≤ workers := by
  intro h
  have hreach : Reaches 1 0 id (.inline { caller := .receiving, begun := [0] }) :=
    .single (.inline (.call (s := {}) rfl (by decide)))
  exact absurd (h 1 0 id _ hreach) (by decide)

end Fetcher

end UpgradeScope.HelmFetch
