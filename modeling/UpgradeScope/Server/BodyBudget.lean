import UpgradeScope.Lib.Runs

/-!
# The body budget

`byteBudget` and `readBody` of `internal/server/api.go`: request bodies are read into chunks, each read charged to a
budget that every request shares. A charge that does not fit gives back what its request holds in the same critical
section; every other failure gives it back in one of its own; a body that was read is given back by the caller. The
budget's operations are the atomic steps, so a run is any interleaving of calls, each with a source that returns any
pieces and ends in any way. Beside each call stand what it was charged and what it gave back, which say what it holds
whatever its own counter says.
-/

namespace UpgradeScope.BodyBudget

/-! ## One call -/

/-- `bodyError`: why a body was refused. -/
structure BodyError where
  /-- The status to answer with. -/
  status : ℕ
  /-- The message to answer with. -/
  msg : String
  deriving DecidableEq

/-- How a read of the source ended. -/
inductive ReadEnd where
  /-- Without an error. -/
  | more
  /-- With `io.EOF`. -/
  | eof
  /-- With `*http.MaxBytesError` or `errBodyTooLarge`. -/
  | tooLarge
  /-- With another error, as `readError` words it. -/
  | failed (e : BodyError)
  deriving DecidableEq

/-- A chunk of a body: its bytes, and how many fit. -/
structure Chunk where
  /-- The bytes. -/
  bytes : List UInt8
  /-- The capacity. -/
  cap : ℕ
  deriving DecidableEq

/-- Where a call of `readBody` is, up to the caller's giving the body back. -/
inductive Phase where
  /-- At the top of the loop. -/
  | reading
  /-- A piece was read and is to be charged. -/
  | charging (piece : List UInt8) (stop : ReadEnd)
  /-- It was charged and is to be fed. -/
  | feeding (stop : ReadEnd)
  /-- The error of the read is to be looked at. -/
  | checking (stop : ReadEnd)
  /-- It failed and has its bytes to give back. -/
  | giving (e : BodyError)
  /-- It returned the body. -/
  | returned
  /-- The caller gave the body's bytes back. -/
  | released
  /-- It returned an error. -/
  | refused (e : BodyError)
  deriving DecidableEq

/-- A call of `readBody`, and what it has read, was charged and gave back. -/
structure Call where
  /-- The declared length, -1 for none. -/
  declared : ℤ
  /-- The body so far. -/
  body : List Chunk := []
  /-- `held`. -/
  held : ℕ := 0
  /-- Where it is. -/
  phase : Phase := .reading
  /-- The bytes the source returned, in order. -/
  received : List UInt8 := []
  /-- What the budget took for the call. -/
  charged : List ℕ := []
  /-- What the call gave back, and the caller after it. -/
  gaveBack : List ℕ := []

/-- `minBodyChunk`. -/
def minBodyChunk : ℕ := 512

/-- `maxBodyChunk`. -/
def maxBodyChunk : ℕ := 64 * 1024

/-- The room in the last chunk. -/
def lastRoom (body : List Chunk) : ℕ :=
  match body.getLast? with
  | none => 0
  | some ch => ch.cap - ch.bytes.length

namespace Call

variable (c : Call)

/-- The bytes of the body. -/
def bytes : List UInt8 := c.body.flatMap (·.bytes)

/-- What the call holds of the budget. -/
def holds : ℤ := c.charged.sum - c.gaveBack.sum

/-- Whether the loop needs another chunk: there is none, or the last one is full. -/
def needsChunk : Bool :=
  match c.body.getLast? with
  | none => true
  | some ch => ch.bytes.length = ch.cap

/-- How large the next chunk is: as large as what was received, within the bounds and the declared length. -/
def chunkSize : ℤ :=
  let size : ℤ := min (max c.held minBodyChunk) maxBodyChunk
  if c.declared ≥ 0 then min size (c.declared - c.held) else size

/-- The chunks with room for the next read. -/
def roomy : List Chunk := if c.needsChunk then c.body ++ [⟨[], c.chunkSize.toNat⟩] else c.body

/-- The room for the next read. -/
def room : ℕ := lastRoom c.roomy

/-- What follows a read. -/
def afterRead (tooLarge : String) (piece : List UInt8) : ReadEnd → Phase
  | .tooLarge => .giving ⟨413, tooLarge⟩
  | stop => if piece ≠ [] then .charging piece stop else .checking stop

end Call

/-- The last chunk with a piece appended. -/
def appendLast (piece : List UInt8) (body : List Chunk) : List Chunk :=
  match body.getLast? with
  | none => body
  | some ch => body.dropLast ++ [{ ch with bytes := ch.bytes ++ piece }]

/-- One step of a call and of the budget it shares: `used` bytes of at most `limit`. -/
inductive Call.Step (limit : ℕ) (busy tooLarge : String) : ℤ × Call → ℤ × Call → Prop where
  /-- The whole declared length is in. -/
  | complete {used : ℤ} {c : Call} : c.phase = .reading → c.needsChunk → c.chunkSize = 0 →
      Step limit busy tooLarge (used, c) (used, { c with phase := .returned })
  /-- `src.Read`, into the room of the last chunk. -/
  | read {used : ℤ} {c : Call} {piece : List UInt8} {stop : ReadEnd} :
      c.phase = .reading → ¬ (c.needsChunk ∧ c.chunkSize = 0) → piece.length ≤ c.room →
      Step limit busy tooLarge (used, c)
        (used, { c with
          body := c.roomy
          phase := Call.afterRead tooLarge piece stop
          received := c.received ++ piece })
  /-- `charge`: the piece does not fit, and what the call holds is given back. -/
  | refuse {used : ℤ} {c : Call} {piece : List UInt8} {stop : ReadEnd} :
      c.phase = .charging piece stop → used + piece.length > limit →
      Step limit busy tooLarge (used, c)
        (used - c.held, { c with phase := .refused ⟨503, busy⟩, gaveBack := c.gaveBack ++ [c.held] })
  /-- `charge`: the piece fits. -/
  | charge {used : ℤ} {c : Call} {piece : List UInt8} {stop : ReadEnd} :
      c.phase = .charging piece stop → used + piece.length ≤ limit →
      Step limit busy tooLarge (used, c)
        (used + piece.length, { c with
          body := appendLast piece c.body
          held := c.held + piece.length
          phase := .feeding stop
          charged := c.charged ++ [piece.length] })
  /-- `feed` takes the piece, or there is none. -/
  | feed {used : ℤ} {c : Call} {stop : ReadEnd} : c.phase = .feeding stop →
      Step limit busy tooLarge (used, c) (used, { c with phase := .checking stop })
  /-- `feed` refuses the body. -/
  | feedRefused {used : ℤ} {c : Call} {stop : ReadEnd} (e : BodyError) : c.phase = .feeding stop →
      Step limit busy tooLarge (used, c) (used, { c with phase := .giving e })
  /-- The source has ended. -/
  | eof {used : ℤ} {c : Call} : c.phase = .checking .eof →
      Step limit busy tooLarge (used, c) (used, { c with phase := .returned })
  /-- There is more to read. -/
  | more {used : ℤ} {c : Call} : c.phase = .checking .more →
      Step limit busy tooLarge (used, c) (used, { c with phase := .reading })
  /-- The source has failed. -/
  | failed {used : ℤ} {c : Call} {e : BodyError} : c.phase = .checking (.failed e) →
      Step limit busy tooLarge (used, c) (used, { c with phase := .giving e })
  /-- `give`, and the call returns its error. -/
  | give {used : ℤ} {c : Call} {e : BodyError} : c.phase = .giving e →
      Step limit busy tooLarge (used, c)
        (used - c.held, { c with phase := .refused e, gaveBack := c.gaveBack ++ [c.held] })
  /-- The caller gives the body back, once. -/
  | release {used : ℤ} {c : Call} : c.phase = .returned →
      Step limit busy tooLarge (used, c)
        (used - c.held, { c with phase := .released, gaveBack := c.gaveBack ++ [c.held] })

/-! ## Every call -/

/-- A budget and the calls that share it, the ones that returned included. -/
structure State where
  /-- `used`. -/
  used : ℤ := 0
  /-- The calls. -/
  calls : List Call := []

/-- One step: a call begins, or one goes on. -/
inductive Step (limit : ℕ) (busy tooLarge : String) : State → State → Prop where
  /-- `readBody` is called. -/
  | start {s} (declared : ℤ) : Step limit busy tooLarge s { s with calls := s.calls ++ [{ declared := declared }] }
  /-- A call goes on. -/
  | move {s : State} {used' : ℤ} {c c' : Call} {l₁ l₂ : List Call} :
      s.calls = l₁ ++ c :: l₂ → Call.Step limit busy tooLarge (s.used, c) (used', c') →
      Step limit busy tooLarge s { used := used', calls := l₁ ++ c' :: l₂ }

/-- The states of every interleaving. -/
def Reaches (limit : ℕ) (busy tooLarge : String) (s : State) : Prop :=
  Relation.ReflTransGen (Step limit busy tooLarge) {} s

/-! ## What a call holds -/

/-- The last chunk of a body with room in it. -/
theorem exists_last {body : List Chunk} (h : 0 < lastRoom body) : ∃ l ch, body = l ++ [ch] := by
  rcases List.eq_nil_or_concat body with rfl | ⟨l, ch, rfl⟩
  · simp [lastRoom] at h
  · exact ⟨l, ch, by simp⟩

@[simp] theorem lastRoom_concat (l : List Chunk) (ch : Chunk) : lastRoom (l ++ [ch]) = ch.cap - ch.bytes.length := by
  simp [lastRoom]

@[simp] theorem appendLast_concat (piece : List UInt8) (l : List Chunk) (ch : Chunk) :
    appendLast piece (l ++ [ch]) = l ++ [{ ch with bytes := ch.bytes ++ piece }] := by
  simp [appendLast]

/-- How many bytes fit the chunks of a body. -/
def capacity (body : List Chunk) : ℕ := (body.map (·.cap)).sum

/-- The chunks of a body are full, the last one apart. -/
structure Filled (body : List Chunk) : Prop where
  /-- All but the last are full. -/
  full : ∀ ch ∈ body.dropLast, ch.bytes.length = ch.cap
  /-- None holds more than fits. -/
  fits : ∀ ch ∈ body, ch.bytes.length ≤ ch.cap

/-- A piece that fits the last chunk leaves the others. -/
theorem Filled.appendLast {body : List Chunk} (h : Filled body) {piece : List UInt8} (hpiece : piece ≠ [])
    (hroom : piece.length ≤ lastRoom body) :
    Filled (BodyBudget.appendLast piece body) ∧
      (BodyBudget.appendLast piece body).flatMap (·.bytes) = body.flatMap (·.bytes) ++ piece ∧
        capacity (BodyBudget.appendLast piece body) = capacity body := by
  have hpos : 0 < lastRoom body := (List.length_pos_iff.mpr hpiece).trans_le hroom
  obtain ⟨l, ch, rfl⟩ := exists_last hpos
  rw [lastRoom_concat] at hroom hpos
  rw [appendLast_concat]
  refine ⟨⟨?_, ?_⟩, by simp, by simp [capacity]⟩
  · simpa using h.full
  · intro x hx
    rcases List.mem_append.mp hx with hx | hx
    · exact h.fits x (List.mem_append_left _ hx)
    · obtain rfl := List.mem_singleton.mp hx
      simp only [List.length_append]
      omega

/-- A full body has as many bytes as fit. -/
theorem Filled.length_bytes {body : List Chunk} (h : ∀ ch ∈ body, ch.bytes.length = ch.cap) :
    (body.flatMap (·.bytes)).length = capacity body := by
  rw [List.length_flatMap, List.map_congr_left h, capacity]

/-- Whether the bytes of a call were given back. -/
def Phase.over : Phase → Bool
  | .released => true
  | .refused _ => true
  | _ => false

/-- The bytes received that are in the body, or `none` where the call fails and drops them. -/
def Phase.kept (body : List UInt8) : Phase → Option (List UInt8)
  | .charging piece _ => some (body ++ piece)
  | .giving _ => none
  | .refused _ => none
  | _ => some body

namespace Call

variable {c c' : Call} {limit : ℕ} {busy tooLarge : String} {used used' : ℤ}

/-- What holds of a call at every moment. -/
structure Inv (c : Call) : Prop where
  /-- `held` is what was charged. -/
  charged : c.charged.sum = c.held
  /-- It is given back once, at the end. -/
  gaveBack : c.gaveBack = if c.phase.over then [c.held] else []
  /-- The body has as many bytes. -/
  length : c.bytes.length = c.held
  /-- They are the bytes received. -/
  received : ∀ kept, c.phase.kept c.bytes = some kept → c.received = kept
  /-- The chunks are filled in order. -/
  filled : Filled c.body
  /-- They have no more room than the declared length. -/
  declared : 0 ≤ c.declared → (capacity c.body : ℤ) ≤ c.declared
  /-- A piece to be charged fits the last chunk. -/
  charging : ∀ piece stop, c.phase = .charging piece stop → piece ≠ [] ∧ piece.length ≤ lastRoom c.body

/-- A call holds what it was charged until it is over, and then nothing. -/
theorem Inv.holds_eq (h : Inv c) : c.holds = if c.phase.over then 0 else (c.held : ℤ) := by
  rw [holds, h.charged, h.gaveBack]
  split_ifs <;> simp

/-- A call that starts keeps the invariant. -/
theorem Inv.start (declared : ℤ) : Inv { declared := declared } := by
  refine ⟨rfl, rfl, rfl, ?_, ⟨by simp, by simp⟩, by simp [capacity], by simp⟩
  intro kept hkept
  simpa [Phase.kept, bytes] using hkept

/-- Where another chunk is needed, all are full. -/
theorem Inv.full_of_needsChunk (h : Inv c) (hneeds : c.needsChunk = true) : ∀ ch ∈ c.body, ch.bytes.length = ch.cap := by
  have hfull := h.filled.full
  unfold needsChunk at hneeds
  rcases List.eq_nil_or_concat c.body with hnil | ⟨l, ch, hbody⟩
  · simp [hnil]
  · rw [hbody] at hfull hneeds ⊢
    simp only [List.concat_eq_append, List.dropLast_concat, List.getLast?_concat, decide_eq_true_eq] at hfull hneeds
    intro x hx
    rw [List.concat_eq_append, List.mem_append, List.mem_singleton] at hx
    rcases hx with hx | rfl
    · exact hfull x hx
    · exact hneeds

/-- The chunks with room for a read. -/
theorem Inv.roomy (h : Inv c) : Filled c.roomy ∧ c.roomy.flatMap (·.bytes) = c.bytes ∧
    (0 ≤ c.declared → (capacity c.roomy : ℤ) ≤ c.declared) := by
  unfold Call.roomy
  split_ifs with hneeds
  · have hfull := h.full_of_needsChunk hneeds
    have hcaps : capacity c.body = c.held := by
      rw [← Filled.length_bytes hfull, ← h.length]
      rfl
    refine ⟨⟨?_, ?_⟩, by simp [bytes], fun hdeclared => ?_⟩
    · simpa using hfull
    · intro ch hch
      rcases List.mem_append.mp hch with hch | hch
      · exact h.filled.fits ch hch
      · obtain rfl := List.mem_singleton.mp hch
        exact Nat.zero_le _
    · -- The new chunk is within what is left of the declared length.
      have hleft := h.declared hdeclared
      have hsize : c.chunkSize ≤ c.declared - c.held := by
        simp only [chunkSize, ge_iff_le, hdeclared, if_true]
        exact min_le_right _ _
      have hcapacity : capacity (c.body ++ [⟨[], c.chunkSize.toNat⟩]) = c.held + c.chunkSize.toNat := by
        rw [← hcaps]
        simp [capacity]
      rw [hcapacity]
      omega
  · exact ⟨h.filled, rfl, h.declared⟩

/-- The call goes on without the budget. -/
theorem Inv.goOn (h : Inv c) {p : Phase} (hold : c.phase.over = false) (hnew : p.over = false)
    (hkept : ∀ kept, p.kept c.bytes = some kept → c.phase.kept c.bytes = some kept)
    (hcharging : ∀ piece stop, p ≠ .charging piece stop) : Inv { c with phase := p } :=
  { h with
    gaveBack := by
      have := h.gaveBack
      simp only [hold, Bool.false_eq_true, if_false] at this
      simp only [hnew, Bool.false_eq_true, if_false, this]
    received := fun kept hk => h.received kept (hkept kept hk)
    charging := fun piece stop hp => absurd hp (hcharging piece stop) }

/-- The call gives back what it holds. -/
theorem Inv.giveBack (h : Inv c) {p : Phase} (hold : c.phase.over = false) (hnew : p.over = true)
    (hkept : ∀ kept, p.kept c.bytes = some kept → c.phase.kept c.bytes = some kept) :
    Inv { c with phase := p, gaveBack := c.gaveBack ++ [c.held] } ∧
      used - c.held - used = Call.holds { c with phase := p, gaveBack := c.gaveBack ++ [c.held] } - c.holds := by
  have hgave : c.gaveBack = [] := by simpa [hold] using h.gaveBack
  constructor
  · exact
    { h with
      gaveBack := by simp [hgave, hnew]
      received := fun kept hk => h.received kept (hkept kept hk)
      charging := fun piece stop hp => by
        have hp : p = .charging piece stop := hp
        simp [hp, Phase.over] at hnew }
  · simp only [holds, hgave]
    simp

/-- The call charges the piece it read. -/
theorem Inv.charge (h : Inv c) {piece : List UInt8} {stop : ReadEnd} (hp : c.phase = .charging piece stop) :
    Inv { c with
      body := appendLast piece c.body
      held := c.held + piece.length
      phase := .feeding stop
      charged := c.charged ++ [piece.length] } := by
  obtain ⟨hpiece, hroom⟩ := h.charging piece stop hp
  obtain ⟨hfilled, hbytes, hcapacity⟩ := h.filled.appendLast hpiece hroom
  refine ⟨?_, ?_, ?_, ?_, hfilled, ?_, by simp⟩
  · simp [h.charged]
  · simpa [hp, Phase.over] using h.gaveBack
  · have := h.length
    simp only [bytes, hbytes, List.length_append] at this ⊢
    rw [this]
  · intro kept hk
    refine h.received kept ?_
    simpa [hp, Phase.kept, bytes, hbytes] using hk
  · rw [hcapacity]
    exact h.declared

/-- The call reads a piece into the room there is. -/
theorem Inv.read (h : Inv c) {piece : List UInt8} {stop : ReadEnd} (hp : c.phase = .reading)
    (hroom : piece.length ≤ c.room) :
    Inv { c with
      body := c.roomy
      phase := afterRead tooLarge piece stop
      received := c.received ++ piece } := by
  obtain ⟨hfilled, hbytes, hdeclared⟩ := h.roomy
  have hreceived : c.received = c.bytes := h.received _ (by simp [hp, Phase.kept])
  have hgave : c.gaveBack = [] := by simpa [hp, Phase.over] using h.gaveBack
  have hphase : (afterRead tooLarge piece stop).over = false := by
    unfold afterRead
    cases stop <;> split_ifs <;> rfl
  refine ⟨h.charged, ?_, ?_, ?_, hfilled, hdeclared, ?_⟩
  · simp [hgave, hphase]
  · have := h.length
    simpa [bytes, hbytes] using this
  · -- The bytes of the piece are charged next, or it is empty.
    intro kept hk
    simp only [bytes, hbytes] at hk
    rw [hreceived]
    by_cases hpiece : piece = [] <;> cases stop <;>
      simp_all [afterRead, Phase.kept, bytes]
  · intro piece' stop' hp'
    have hp' : afterRead tooLarge piece stop = .charging piece' stop' := hp'
    have hpiece : piece = piece' ∧ piece ≠ [] := by
      cases stop with
      | tooLarge => simp [afterRead] at hp'
      | _ =>
        simp only [afterRead] at hp'
        split_ifs at hp' with hpiece
        exact ⟨(Phase.charging.inj hp').1, hpiece⟩
    rw [← hpiece.1]
    exact ⟨hpiece.2, hroom⟩

/-- One step of a call: it keeps the invariant, and the budget changes by what the call then holds more. -/
theorem Inv.step (h : Inv c) (hstep : Step limit busy tooLarge (used, c) (used', c')) :
    Inv c' ∧ used' - used = c'.holds - c.holds := by
  have hsame : ∀ (p : Phase), used - used = Call.holds { c with phase := p } - c.holds := fun p => by simp [holds]
  cases hstep with
  | complete hp _ _ =>
    exact ⟨h.goOn (by simp [hp, Phase.over]) rfl (by simp [hp, Phase.kept]) (by simp), hsame _⟩
  | read hp _ hroom => exact ⟨h.read hp hroom, by simp [holds]⟩
  | refuse hp _ => exact h.giveBack (by simp [hp, Phase.over]) rfl (by simp [Phase.kept])
  | charge hp _ => exact ⟨h.charge hp, by simp [holds]⟩
  | feed hp => exact ⟨h.goOn (by simp [hp, Phase.over]) rfl (by simp [hp, Phase.kept]) (by simp), hsame _⟩
  | feedRefused e hp => exact ⟨h.goOn (by simp [hp, Phase.over]) rfl (by simp [Phase.kept]) (by simp), hsame _⟩
  | eof hp => exact ⟨h.goOn (by simp [hp, Phase.over]) rfl (by simp [hp, Phase.kept]) (by simp), hsame _⟩
  | more hp => exact ⟨h.goOn (by simp [hp, Phase.over]) rfl (by simp [hp, Phase.kept]) (by simp), hsame _⟩
  | failed hp => exact ⟨h.goOn (by simp [hp, Phase.over]) rfl (by simp [Phase.kept]) (by simp), hsame _⟩
  | give hp => exact h.giveBack (by simp [hp, Phase.over]) rfl (by simp [Phase.kept])
  | release hp => exact h.giveBack (by simp [hp, Phase.over]) rfl (by simp [hp, Phase.kept])

/-- A step never takes the budget over its limit. -/
theorem Step.used_le (hstep : Step limit busy tooLarge (used, c) (used', c')) (hle : used ≤ limit) : used' ≤ limit := by
  cases hstep with
  | charge _ hfits => exact hfits
  | refuse _ _ => omega
  | give _ => omega
  | release _ => omega
  | _ => exact hle

end Call

/-! ## The budget balances -/

/-- What holds at every moment: each call's account, and the budget's. -/
structure Inv (limit : ℕ) (s : State) : Prop where
  /-- Every call is in order. -/
  calls : ∀ c ∈ s.calls, c.Inv
  /-- What is used is what the calls hold. -/
  used : s.used = (s.calls.map Call.holds).sum
  /-- It is within the limit. -/
  used_le : s.used ≤ limit

/-- Every step of the calls keeps the invariant. -/
theorem Inv.step {limit : ℕ} {busy tooLarge : String} {s s' : State} (h : Inv limit s)
    (hstep : Step limit busy tooLarge s s') : Inv limit s' := by
  cases hstep with
  | start declared =>
    refine ⟨fun c hc => ?_, ?_, h.used_le⟩
    · rcases List.mem_append.mp hc with hc | hc
      · exact h.calls c hc
      · obtain rfl := List.mem_singleton.mp hc
        exact Call.Inv.start declared
    · simp [h.used, Call.holds]
  | @move used' c c' l₁ l₂ hcalls hstep =>
    have hc : c.Inv := h.calls c (by simp [hcalls])
    obtain ⟨hc', hused⟩ := hc.step hstep
    refine ⟨fun x hx => ?_, ?_, hstep.used_le h.used_le⟩
    · rcases List.mem_append.mp hx with hx | hx
      · exact h.calls x (by simp [hcalls, hx])
      · rcases List.mem_cons.mp hx with rfl | hx
        · exact hc'
        · exact h.calls x (by simp [hcalls, hx])
    · have hbefore := h.used
      rw [hcalls] at hbefore
      simp only [List.map_append, List.map_cons, List.sum_append, List.sum_cons] at hbefore ⊢
      linarith

/-- The invariant of the budget holds in every state that an interleaving of calls reaches. -/
theorem inv_of_reaches {limit : ℕ} {busy tooLarge : String} {s : State} (h : Reaches limit busy tooLarge s) :
    Inv limit s :=
  Runs.of_run h ⟨by simp, rfl, Int.natCast_nonneg limit⟩ Inv.step

/-- At every moment of every interleaving the bytes used are what the calls and the bodies not given back hold,
between zero and the limit; a call that failed, or whose body was given back, gave back exactly what it was charged,
once, and one that goes on or returned its body nothing; and the body returned is the bytes received in order, as many
as `held`. -/
theorem budget_balances {limit : ℕ} {busy tooLarge : String} {s : State} (h : Reaches limit busy tooLarge s) :
    s.used = (s.calls.map Call.holds).sum ∧ 0 ≤ s.used ∧ s.used ≤ limit ∧
      ∀ c ∈ s.calls, c.charged.sum = c.held ∧ c.gaveBack = (if c.phase.over then [c.held] else []) ∧
        (c.phase = .returned ∨ c.phase = .released → c.held = c.bytes.length ∧ c.bytes = c.received) := by
  have hinv := inv_of_reaches h
  refine ⟨hinv.used, ?_, hinv.used_le, fun c hc => ?_⟩
  · rw [hinv.used]
    refine List.sum_nonneg fun n hn => ?_
    obtain ⟨c, hc, rfl⟩ := List.mem_map.mp hn
    rw [(hinv.calls c hc).holds_eq]
    split_ifs <;> simp
  · have hcall := hinv.calls c hc
    refine ⟨hcall.charged, hcall.gaveBack, fun hphase => ⟨hcall.length.symm, ?_⟩⟩
    refine (hcall.received c.bytes ?_).symm
    rcases hphase with hp | hp <;> simp [hp, Phase.kept]

/-- A call that returned a body of two bytes. -/
def twoBytes : Call :=
  { declared := -1, body := [⟨[1, 2], 512⟩], held := 2, phase := .returned, received := [1, 2], charged := [2] }

/-- A call that was refused at its second byte, and gave its first one back. -/
def refusedByte : Call :=
  { declared := -1, body := [⟨[3], 512⟩], held := 1, phase := .refused ⟨503, "busy"⟩, received := [3, 4], charged := [1], gaveBack := [1] }

/-- The two bytes of the one and the first byte of the other fill a budget of three. The other's second byte is refused and
its first one is given back, so that the budget uses the two bytes, and none when the body is given back. -/
theorem budget_balances_twoBytes :
    Reaches 3 "busy" "too large" ⟨2, [twoBytes, refusedByte]⟩ ∧ twoBytes.holds + refusedByte.holds = 2 ∧
      twoBytes.held = twoBytes.bytes.length ∧ refusedByte.gaveBack = [refusedByte.held] ∧
      ∃ released : Call, Reaches 3 "busy" "too large" ⟨0, [released, refusedByte]⟩ ∧ released.gaveBack = [2] := by
  have hfirst : ∀ {used used' : ℤ} {c c' d : Call}, Call.Step 3 "busy" "too large" (used, c) (used', c') →
      Reaches 3 "busy" "too large" ⟨used, [c, d]⟩ → Reaches 3 "busy" "too large" ⟨used', [c', d]⟩ :=
    fun {used used' c c' d} hstep h => h.tail (@Step.move _ _ _ ⟨used, [c, d]⟩ used' c c' [] [d] rfl hstep)
  have hsecond : ∀ {used used' : ℤ} {c d d' : Call}, Call.Step 3 "busy" "too large" (used, d) (used', d') →
      Reaches 3 "busy" "too large" ⟨used, [c, d]⟩ → Reaches 3 "busy" "too large" ⟨used', [c, d']⟩ :=
    fun {used used' c d d'} hstep h => h.tail (@Step.move _ _ _ ⟨used, [c, d]⟩ used' d d' [c] [] rfl hstep)
  have hstart : Reaches 3 "busy" "too large" ⟨0, [{ declared := -1 }, { declared := -1 }]⟩ :=
    (Relation.ReflTransGen.single (.start (-1))).tail (.start (-1))
  -- The first call is charged both of its bytes, the second one its first.
  have hread := hfirst (@Call.Step.read _ _ _ 0 { declared := -1 } [1, 2] .eof rfl (by decide) (by decide)) hstart
  have hcharged := hfirst (.charge rfl (by decide)) hread
  have hread' := hsecond (@Call.Step.read _ _ _ _ { declared := -1 } [3] .more rfl (by decide) (by decide)) hcharged
  have hcharged' := hsecond (.more rfl) (hsecond (.feed rfl) (hsecond (.charge rfl (by decide)) hread'))
  -- The next one does not fit, and the first call goes on.
  have hfull := hsecond (@Call.Step.read _ _ _ _ _ [4] .more rfl (by decide) (by decide)) hcharged'
  have hrefused := hsecond (.refuse rfl (by decide)) hfull
  have hreturned : Reaches 3 "busy" "too large" ⟨2, [twoBytes, refusedByte]⟩ := hfirst (.eof rfl) (hfirst (.feed rfl) hrefused)
  have hreleased : Reaches 3 "busy" "too large"
      ⟨0, [{ twoBytes with phase := .released, gaveBack := [2] }, refusedByte]⟩ := hfirst (.release rfl) hreturned
  obtain ⟨hused, -, -, hcalls⟩ := budget_balances hreturned
  obtain ⟨-, -, -, hcalls'⟩ := budget_balances hreleased
  refine ⟨hreturned, ?_, ((hcalls twoBytes (by simp)).2.2 (.inl rfl)).1, ?_, _, hreleased, ?_⟩
  · simpa using hused.symm
  · exact (hcalls refusedByte (by simp)).2.1
  · exact (hcalls' _ List.mem_cons_self).2.1

end UpgradeScope.BodyBudget
