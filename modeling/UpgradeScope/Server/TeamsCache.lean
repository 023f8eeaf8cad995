import UpgradeScope.Engine.Finding
import UpgradeScope.Inventory.Version
import UpgradeScope.Lib.Ledger

/-!
# The fleet teams cache

`internal/server/fleet_teams_cache.go`: what each cluster contributes to a fleet rollup, kept under the inputs it was
computed from. The cache is bounded in entries and in team scores; a `put` that goes over a bound evicts in the order of
first insertion, which may reach the very entry it wrote, since a `put` of a cached key leaves it at its old place.

`Books` is what the three fields say of each other. A `put` writes its entry and opens the books on what may be over the
bounds (`Books.write`); each turn of the eviction loop keeps them (`Books.evictOldest`), so the order runs out only with
the cache, and then nothing is over a bound.
-/

namespace UpgradeScope.FleetTeams

open Go

/-! ## The cache -/

/-- `maxFleetTeamsEntries`. -/
def maxFleetTeamsEntries : ℕ := 4096

/-- `maxFleetTeamsTeams`. -/
def maxFleetTeamsTeams : ℕ := 2 ^ 16

/-- `TeamScore`: a team's slice of a report. -/
structure TeamScore where
  /-- The score. -/
  score : ℤ
  /-- Whether the verdict is ready. -/
  ready : Bool
  /-- The team's verdict. -/
  verdict : Verdict
  /-- Its blockers. -/
  blockers : ℕ
  /-- Its warnings. -/
  warnings : ℕ

/-- `fleetTeamsKey`: the inputs of one cluster's contribution. -/
structure FleetTeamsKey where
  /-- A stored evaluation, 0 for a what-if. -/
  evaluationID : ℕ := 0
  /-- When the stored evaluation was last written. -/
  evaluatedAt : Time := 0
  /-- A what-if's snapshot. -/
  snapshotID : ℕ := 0
  /-- The target. -/
  target : Version
  /-- The UTC day. -/
  day : Time := 0
  /-- The server's knowledge base. -/
  kbVersion : String := ""
  /-- The team map. -/
  teamMapHash : String := ""
  deriving DecidableEq

/-- `fleetTeamsSource`: where a contribution came from. -/
structure FleetTeamsSource where
  /-- The cluster's name. -/
  name : String := ""
  /-- The cluster. -/
  clusterID : ℕ := 0
  /-- Stored or what-if. -/
  source : String := ""
  /-- When it was evaluated. -/
  evaluatedAt : Time := 0
  /-- The snapshot. -/
  snapshotID : ℕ := 0

/-- `fleetTeamsEntry`: one cluster's contribution. -/
structure FleetTeamsEntry where
  /-- Its team scores. -/
  scores : AList fun _ : String => TeamScore := ∅
  /-- Where they came from. -/
  src : FleetTeamsSource := {}
  /-- Why the cluster is left out, "" when it is not. -/
  excluded : String := ""

/-- The team scores of an entry: `len(e.scores)`. -/
def FleetTeamsEntry.size (e : FleetTeamsEntry) : ℕ := e.scores.entries.length

/-- `fleetTeamsCache`. -/
structure FleetTeamsCache where
  /-- The entries. -/
  m : AList fun _ : FleetTeamsKey => FleetTeamsEntry := ∅
  /-- The keys in the order of insertion. -/
  order : List FleetTeamsKey := []
  /-- The team scores of all entries. -/
  teams : ℤ := 0

namespace FleetTeamsCache

/-- `fleetTeamsCache.get`. -/
def get (c : FleetTeamsCache) (k : FleetTeamsKey) : Option FleetTeamsEntry := c.m.lookup k

/-- The condition of the eviction loop. -/
def Over (c : FleetTeamsCache) : Prop :=
  c.m.entries.length > maxFleetTeamsEntries ∨ c.teams > maxFleetTeamsTeams

instance (c : FleetTeamsCache) : Decidable c.Over := inferInstanceAs (Decidable (_ ∨ _))

/-- The team scores under a key, none where there is no entry. -/
def sizeAt (c : FleetTeamsCache) (k : FleetTeamsKey) : ℤ :=
  Ledger.weightAt (fun e : FleetTeamsEntry => (e.size : ℤ)) c.m k

/-- The body of the eviction loop, for the oldest key and those after it. -/
def evictOldest (c : FleetTeamsCache) (oldest : FleetTeamsKey) (rest : List FleetTeamsKey) : FleetTeamsCache :=
  { m := c.m.erase oldest, order := rest, teams := c.teams - c.sizeAt oldest }

/-- The eviction loop, which each turn takes a key off the order; `none` where it would index an empty one. -/
def evictFrom (c : FleetTeamsCache) : List FleetTeamsKey → Option FleetTeamsCache
  | [] => if c.Over then none else some c
  | oldest :: rest => if c.Over then (c.evictOldest oldest rest).evictFrom rest else some c

/-- The eviction loop. -/
def evict (c : FleetTeamsCache) : Option FleetTeamsCache := c.evictFrom c.order

/-- The cache before the eviction loop of a `put`. -/
def write (c : FleetTeamsCache) (k : FleetTeamsKey) (e : FleetTeamsEntry) : FleetTeamsCache :=
  let counted := match c.m.lookup k with
    | some old => { c with teams := c.teams - old.size }
    | none => { c with order := c.order ++ [k] }
  { counted with m := c.m.insert k e, teams := counted.teams + e.size }

/-- `fleetTeamsCache.put`; `none` where it would index an empty order. -/
def put (c : FleetTeamsCache) (k : FleetTeamsKey) (e : FleetTeamsEntry) : Option FleetTeamsCache :=
  if e.size > maxFleetTeamsTeams then some c else (c.write k e).evict

end FleetTeamsCache

/-- One call, under the cache's lock. -/
inductive Call where
  /-- `get`. -/
  | get (k : FleetTeamsKey)
  /-- `put`. -/
  | put (k : FleetTeamsKey) (e : FleetTeamsEntry)

/-- The cache after a call. -/
def Call.run (c : FleetTeamsCache) : Call → Option FleetTeamsCache
  | .get _ => some c
  | .put k e => c.put k e

/-- The cache after a sequence of calls from an empty cache, `none` where one of them indexed an empty order. -/
def after (calls : List Call) : Option FleetTeamsCache := calls.foldlM Call.run {}

/-- The entry a call puts under a key. -/
def Call.puts (k : FleetTeamsKey) : Call → Option FleetTeamsEntry
  | .get _ => none
  | .put k' e => if k' = k then some e else none

/-- The entry last put for a key. -/
def lastPut (calls : List Call) (k : FleetTeamsKey) : Option FleetTeamsEntry :=
  calls.reverse.findSome? (Call.puts k)

/-- The call does not put an entry with more team scores than the cache may hold. -/
def Call.Fits : Call → Prop
  | .get _ => True
  | .put _ e => e.size ≤ maxFleetTeamsTeams

instance (call : Call) : Decidable call.Fits := by
  cases call <;> unfold Call.Fits <;> infer_instance

/-! ## The books -/

/-- What the fields of a cache say of each other: the order lists exactly the cached keys, each once, and the team
scores are counted. -/
structure Books (c : FleetTeamsCache) : Prop where
  /-- No key is listed twice. -/
  nodup : c.order.Nodup
  /-- The listed keys are the cached ones. -/
  mem_order : ∀ k, k ∈ c.order ↔ k ∈ c.m
  /-- The team scores are those of the cached entries. -/
  teams : c.teams = Ledger.total (fun e : FleetTeamsEntry => (e.size : ℤ)) c.m

namespace Books

variable {c : FleetTeamsCache}

/-- The books of the empty cache balance. -/
theorem empty : Books {} := by
  refine ⟨.nil, fun k => ?_, rfl⟩
  simp

/-- Writing an entry keeps the books, whether its key is new or not. -/
theorem write (h : Books c) (k : FleetTeamsKey) (e : FleetTeamsEntry) : Books (c.write k e) := by
  have htotal := Ledger.total_insert (fun e : FleetTeamsEntry => (e.size : ℤ)) c.m k e
  unfold FleetTeamsCache.write
  -- A key that is there keeps its place in the order, and a new one goes last.
  cases hk : c.m.lookup k with
  | some old =>
    have hmem : k ∈ c.m := AList.lookup_isSome.mp (by rw [hk]; rfl)
    have hold : Ledger.weightAt (fun e : FleetTeamsEntry => (e.size : ℤ)) c.m k = old.size := by
      simp [Ledger.weightAt, hk]
    refine ⟨h.nodup, fun k' => ?_, ?_⟩
    · rw [AList.mem_insert]
      constructor
      · exact fun hk' => .inr ((h.mem_order k').mp hk')
      · rintro (rfl | hk')
        · exact (h.mem_order k').mpr hmem
        · exact (h.mem_order k').mpr hk'
    · show c.teams - old.size + e.size = _
      rw [htotal, hold, h.teams]
  | none =>
    have hnew : k ∉ c.m := AList.lookup_eq_none.mp hk
    have hold : Ledger.weightAt (fun e : FleetTeamsEntry => (e.size : ℤ)) c.m k = 0 := by
      simp [Ledger.weightAt, hk]
    refine ⟨?_, fun k' => ?_, ?_⟩
    · refine h.nodup.append (List.nodup_singleton k) fun k' hk' hsingle => ?_
      rw [List.mem_singleton.mp hsingle] at hk'
      exact hnew ((h.mem_order k).mp hk')
    · rw [AList.mem_insert, List.mem_append, List.mem_singleton, h.mem_order, or_comm]
    · show c.teams + e.size = _
      rw [htotal, hold, h.teams, sub_zero]

/-- A turn of the eviction loop keeps the books. -/
theorem evictOldest (h : Books c) {oldest : FleetTeamsKey} {rest : List FleetTeamsKey} (horder : c.order = oldest :: rest) :
    Books (c.evictOldest oldest rest) := by
  have hnodup := h.nodup
  rw [horder, List.nodup_cons] at hnodup
  refine ⟨hnodup.2, fun k => ?_, ?_⟩
  · show k ∈ rest ↔ k ∈ c.m.erase oldest
    rw [AList.mem_erase, ← h.mem_order, horder, List.mem_cons]
    constructor
    · intro hk
      refine ⟨?_, .inr hk⟩
      rintro rfl
      exact hnodup.1 hk
    · rintro ⟨hne, rfl | hk⟩
      · exact absurd rfl hne
      · exact hk
  · show c.teams - _ = Ledger.total _ (c.m.erase oldest)
    rw [Ledger.total_erase, h.teams]
    rfl

/-- Where the order is empty nothing is cached, and the cache is over neither bound. -/
theorem not_over_of_nil (h : Books c) (horder : c.order = []) : ¬ c.Over := by
  have hnone : c.m.entries = [] := Ledger.entries_eq_nil fun k hk => by
    have := (h.mem_order k).mpr hk
    rw [horder] at this
    exact List.not_mem_nil this
  have hteams : c.teams = 0 := by
    rw [h.teams, Ledger.total, hnone]
    rfl
  unfold FleetTeamsCache.Over
  rw [hnone, hteams]
  simp [maxFleetTeamsEntries, maxFleetTeamsTeams]

/-- The eviction loop ends within the bounds and without indexing an empty order, and keeps what it does not evict. -/
theorem evict (h : Books c) : ∃ c', c.evict = some c' ∧ Books c' ∧ ¬ c'.Over ∧
    ∀ k, c'.get k = none ∨ c'.get k = c.get k := by
  unfold FleetTeamsCache.evict
  -- The loop's keys are the order it started with, less a key a turn.
  induction horder : c.order generalizing c with
  | nil =>
    have hover := h.not_over_of_nil horder
    exact ⟨c, by simp [FleetTeamsCache.evictFrom, hover], h, hover, fun _ => .inr rfl⟩
  | cons oldest rest ih =>
    by_cases hover : c.Over
    · obtain ⟨c', heq, hbooks, hunder, hget⟩ := ih (h.evictOldest horder) rfl
      refine ⟨c', by simp [FleetTeamsCache.evictFrom, hover, heq], hbooks, hunder, fun k => ?_⟩
      rcases hget k with hnone | hsame
      · exact .inl hnone
      · rw [hsame]
        show (c.m.erase oldest).lookup k = none ∨ (c.m.erase oldest).lookup k = c.m.lookup k
        by_cases hk : k = oldest
        · subst hk
          exact .inl (AList.lookup_erase k c.m)
        · exact .inr (AList.lookup_erase_ne hk)
    · exact ⟨c, by simp [FleetTeamsCache.evictFrom, hover], h, hover, fun _ => .inr rfl⟩

end Books

/-! ## Sequences of calls -/

/-- What a cache holds once an entry is written. -/
theorem FleetTeamsCache.get_write (c : FleetTeamsCache) (k k' : FleetTeamsKey) (e : FleetTeamsEntry) :
    (c.write k e).get k' = if k' = k then some e else c.get k' := by
  have hm : (c.write k e).m = c.m.insert k e := by
    unfold FleetTeamsCache.write
    cases c.m.lookup k <;> rfl
  unfold FleetTeamsCache.get
  rw [hm]
  split_ifs with hk
  · rw [hk]
    exact AList.lookup_insert c.m
  · exact AList.lookup_insert_ne hk

/-- A cache after calls: its books are kept, it is within its bounds, and what it holds was put last among the entries
that fit. -/
structure Kept (calls : List Call) (c : FleetTeamsCache) : Prop where
  /-- The books. -/
  books : Books c
  /-- The bounds. -/
  within : ¬ c.Over
  /-- The entries. -/
  last : ∀ k, c.get k = none ∨ c.get k = lastPut (calls.filter (·.Fits)) k

/-- The entry last put, one call later. -/
theorem lastPut_concat (calls : List Call) (call : Call) (k : FleetTeamsKey) :
    lastPut (calls ++ [call]) k = (call.puts k).or (lastPut calls k) := by
  unfold lastPut
  rw [List.reverse_concat, List.findSome?_cons]
  cases call.puts k <;> rfl

/-- A call after others: it does not fail, and keeps what they kept. -/
theorem Kept.call {calls : List Call} {c : FleetTeamsCache} (h : Kept calls c) (call : Call) :
    ∃ c', call.run c = some c' ∧ Kept (calls ++ [call]) c' := by
  have hfilter : (calls ++ [call]).filter (·.Fits) = calls.filter (·.Fits) ++ if call.Fits then [call] else [] := by
    rw [List.filter_append, List.filter_singleton]
    by_cases hfits : call.Fits <;> simp [hfits]
  cases call with
  | get k =>
    refine ⟨c, rfl, h.books, h.within, fun k' => ?_⟩
    rw [hfilter, if_pos (show (Call.get k).Fits from trivial), lastPut_concat]
    exact h.last k'
  | put k e =>
    by_cases hfits : (Call.put k e).Fits
    · have hsize : ¬ e.size > maxFleetTeamsTeams := Nat.not_lt.mpr hfits
      obtain ⟨c', hput, hbooks, hwithin, hget⟩ := (h.books.write k e).evict
      refine ⟨c', ?_, hbooks, hwithin, fun k' => ?_⟩
      · show c.put k e = some c'
        rw [FleetTeamsCache.put, if_neg hsize, hput]
      · rw [hfilter, if_pos hfits, lastPut_concat]
        -- What eviction leaves at a key is nothing, or what was written there.
        rcases hget k' with hnone | hsame
        · exact .inl hnone
        · rw [hsame, FleetTeamsCache.get_write]
          by_cases hk : k' = k
          · right
            simp [Call.puts, hk]
          · rcases h.last k' with hnone | hlast
            · exact .inl (by rw [if_neg hk, hnone])
            · right
              rw [if_neg hk, hlast, Call.puts, if_neg (Ne.symm hk)]
              rfl
    · refine ⟨c, ?_, h.books, h.within, fun k' => ?_⟩
      · show c.put k e = some c
        rw [FleetTeamsCache.put, if_pos (Nat.not_le.mp hfits)]
      · rw [hfilter, if_neg hfits, List.append_nil]
        exact h.last k'

/-- Every sequence of calls from the empty cache keeps its books. -/
theorem kept_after (calls : List Call) : ∃ c, after calls = some c ∧ Kept calls c := by
  induction calls using List.reverseRecOn with
  | nil =>
    refine ⟨{}, rfl, .empty, ?_, fun k => .inl rfl⟩
    exact Books.empty.not_over_of_nil rfl
  | append_singleton calls call ih =>
    obtain ⟨c, hafter, hkept⟩ := ih
    obtain ⟨c', hrun, hkept'⟩ := hkept.call call
    refine ⟨c', ?_, hkept'⟩
    unfold after at hafter ⊢
    rw [List.foldlM_append, hafter]
    simpa using hrun

/-- For every sequence of calls from the empty cache the eviction loops end without indexing an empty order; the order
then lists exactly the cached keys, each once, the team count is the sum of the cached entries' team scores, the cache is
within both bounds, and a `get` returns the entry last put for its key among those that fit, or nothing. -/
theorem cache_keeps_books (calls : List Call) : ∃ c, after calls = some c ∧
    c.order.Nodup ∧ (∀ k, k ∈ c.order ↔ k ∈ c.m) ∧
    c.teams = (c.m.entries.map fun e => (e.2.size : ℤ)).sum ∧
    c.m.entries.length ≤ maxFleetTeamsEntries ∧ c.teams ≤ maxFleetTeamsTeams ∧
    ∀ k, c.get k = none ∨ c.get k = lastPut (calls.filter (·.Fits)) k := by
  obtain ⟨c, hafter, hkept⟩ := kept_after calls
  have hwithin := hkept.within
  unfold FleetTeamsCache.Over at hwithin
  exact ⟨c, hafter, hkept.books.nodup, hkept.books.mem_order, hkept.books.teams, by omega, by omega, hkept.last⟩

/-- An entry with a team score for each of the first `n` numbers. -/
def crowd (n : ℕ) : FleetTeamsEntry :=
  { scores :=
      { entries := (List.range n).map fun i => ⟨Nat.repr i, ⟨100, true, .ready, 0, 0⟩⟩
        nodupKeys := by
          unfold List.NodupKeys List.keys
          rw [List.map_map]
          exact List.nodup_range.map fun i j hij => natRepr_injective hij } }

/-- The size of such an entry. -/
theorem size_crowd (n : ℕ) : (crowd n).size = n := by
  simp [FleetTeamsEntry.size, crowd]

/-- A `put` of an entry with more team scores than the cache may hold leaves the entry its key had: here an empty one is
put, then one with a team score too many for the same key, and a `get` still returns the empty one. -/
theorem get_after_oversized_put : ∃ c,
    after [.put { target := ⟨1, 34⟩ } {}, .put { target := ⟨1, 34⟩ } (crowd (maxFleetTeamsTeams + 1))] = some c ∧
      c.get { target := ⟨1, 34⟩ } ≠ none ∧
      c.get { target := ⟨1, 34⟩ } ≠ lastPut [.put { target := ⟨1, 34⟩ } {},
        .put { target := ⟨1, 34⟩ } (crowd (maxFleetTeamsTeams + 1))] { target := ⟨1, 34⟩ } := by
  set k : FleetTeamsKey := { target := ⟨1, 34⟩ } with hk
  have hsize := size_crowd (maxFleetTeamsTeams + 1)
  generalize crowd (maxFleetTeamsTeams + 1) = big at hsize ⊢
  set c : FleetTeamsCache := { m := (∅ : AList _).insert k {}, order := [k], teams := 0 } with hc
  have hfirst : FleetTeamsCache.put {} k {} = some c := rfl
  have hsecond : c.put k big = some c := by
    rw [FleetTeamsCache.put, if_pos (by omega)]
  have hget : c.get k = some {} := AList.lookup_insert _
  refine ⟨c, ?_, by simp [hget], ?_⟩
  · show (FleetTeamsCache.put {} k {}).bind (fun c => (c.put k big).bind some) = some c
    rw [hfirst, Option.bind_some, hsecond]
    rfl
  · have hlast : lastPut [.put k {}, .put k big] k = some big := by
      simp [lastPut, Call.puts]
    rw [hget, hlast]
    intro heq
    rw [← Option.some.inj heq] at hsize
    exact absurd hsize (Nat.succ_ne_zero _).symm

end UpgradeScope.FleetTeams
