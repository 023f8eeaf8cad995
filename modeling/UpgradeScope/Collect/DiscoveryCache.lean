import UpgradeScope.Inventory.Types

/-!
# The discovery cache

`internal/collect/discovery_cache.go`: one complete answer of API discovery kept between the agent's ticks. A tick
begins (`begin`), reads the server version (`observeVersion`), makes any discovery calls, whose answers come in any
order, and ends with the CRDs it read (`end`). Five fields decide whether the answer may be served, and each is set
in a step of its own; `Sound` says what they mean together between two ticks and `Serving` what they mean within one.
From these `served_fresh` follows: what is served is less than an hour older than the tick, of the version the tick
saw, and every tick completed since it was filled read the CRDs of the tick it was filled in.
-/

namespace UpgradeScope.DiscoveryCache

open Go

/-! ## The cache -/

/-- An answer of `ServerGroupsAndResources`; a pointer of either list may be nil. -/
structure Answer (G L : Type) where
  /-- The groups. -/
  groups : List (Option G) := []
  /-- The resource lists. -/
  lists : List (Option L) := []
  deriving DecidableEq

/-- `DiscoveryCache`. -/
structure Cache (G L : Type) where
  /-- Whether it holds an answer. -/
  valid : Bool := false
  /-- When the answer came. -/
  filled : Time := 0
  /-- The answer. -/
  held : Answer G L := {}
  /-- The server version seen in the tick it was filled in. -/
  version : String := ""
  /-- The fingerprint of the CRDs of the tick it was filled in, "" until that tick's crds step ran. -/
  crds : String := ""
  /-- Whether to drop it before the next tick. -/
  stale : Bool := false

/-- `DiscoveryMaxAge`. -/
def maxAge : ℤ := hour

namespace Cache

variable {G L : Type} (c : Cache G L)

/-- `dropLocked`. -/
def drop : Cache G L := { c with valid := false, held := {}, crds := "" }

/-- `DiscoveryCache.begin`: an answer too old, or marked stale by the tick before, is dropped. -/
def begin (now : Time) : Cache G L :=
  let c := if c.valid ∧ (c.stale ∨ now - c.filled ≥ maxAge) then c.drop else c
  { c with stale := false }

/-- `DiscoveryCache.observeVersion`: an answer filled at another version is dropped. -/
def observeVersion (v : String) : Cache G L :=
  let c := if c.valid ∧ (v = "" ∨ v ≠ c.version) then c.drop else c
  { c with version := v }

/-- `DiscoveryCache.end`, with the fingerprint of the CRDs the tick read, "" when it could not. -/
def «end» (fp : String) : Cache G L :=
  if ¬ c.valid then c
  else if fp = "" then { c with stale := true }
  else if c.crds = "" then { c with crds := fp }
  else if fp ≠ c.crds then { c with stale := true }
  else c

/-- A complete answer is kept. -/
def fill (now : Time) (a : Answer G L) : Cache G L :=
  { c with valid := true, filled := now, held := a, crds := "" }

end Cache

/-! ## Fingerprints of CRDs -/

/-- `%v` of a version of a CRD. -/
def versionText (v : CRDVersion) : String :=
  "\x7b" ++ v.name ++ " " ++ toString v.served ++ " " ++ toString v.storage ++ " " ++ toString v.deprecated ++ " " ++
    v.deprecationWarning ++ "\x7d"

/-- The line of a CRD that is digested. -/
def crdLine (c : CRD) : String :=
  c.group ++ "\x00" ++ c.kind ++ "\x00" ++ c.plural ++ "\x00" ++
    "[" ++ " ".intercalate (c.versions.map versionText) ++ "]" ++ "\n"

/-- `%x` of a byte. -/
def hexByte (b : UInt8) : List Char := [Nat.digitChar (b.toNat / 16), Nat.digitChar (b.toNat % 16)]

/-- `crdFingerprint`: the CRDs' groups, kinds and versions, digested. -/
def crdFingerprint (sha256 : String → Vector UInt8 32) (crds : List CRD) : String :=
  String.ofList ((sha256 (String.join (crds.map crdLine))).toList.flatMap hexByte)

/-- A fingerprint has 64 digits: it is not the text of CRDs that could not be read. -/
theorem crdFingerprint_ne_empty (sha256 : String → Vector UInt8 32) (crds : List CRD) :
    crdFingerprint sha256 crds ≠ "" := by
  intro h
  have hlength := congrArg (fun s => s.toList.length) h
  simp [crdFingerprint, hexByte, List.length_flatMap] at hlength

/-! ## Calls and ticks -/

section Calls

variable {G L : Type}

/-- The calls of `cachedDiscovery` that read the cache. -/
inductive Call where
  /-- `ServerGroupsAndResources`. -/
  | groupsAndResources
  /-- `ServerGroups`. -/
  | groups
  /-- `ServerResourcesForGroupVersion`. -/
  | resources (groupVersion : String)

/-- What a call is answered with from the cache. -/
inductive Served (G L : Type) where
  /-- The groups and the resource lists. -/
  | groupsAndResources (a : Answer G L)
  /-- The groups that are not nil. -/
  | groups (groups : List G)
  /-- The resource list of a group version. -/
  | resources (list : L)
  deriving DecidableEq

/-- What a held answer answers a call with, where it can. -/
def Answer.serve (groupVersion : L → String) (a : Answer G L) : Call → Option (Served G L)
  | .groupsAndResources => some (.groupsAndResources a)
  | .groups => some (.groups (a.groups.filterMap id))
  | .resources gv => (a.lists.filterMap id).find? (groupVersion · = gv) |>.map .resources

/-- What happens to the cache between the version and the end of a tick. -/
inductive Event (G L : Type) where
  /-- A call looks at the cache. -/
  | call (c : Call)
  /-- The apiserver answers a `ServerGroupsAndResources` that is under way, at a time and with an error or not. -/
  | answer (time : Time) (a : Answer G L) (failed : Bool)

/-- A tick in its discovery steps. -/
structure State (G L : Type) where
  /-- The cache. -/
  cache : Cache G L
  /-- The `ServerGroupsAndResources` calls the apiserver has not answered yet. -/
  underWay : ℕ := 0
  /-- What calls were answered with from the cache. -/
  served : List (Served G L) := []

/-- One event: a call is served from the cache or goes to the apiserver, and a complete answer is kept. -/
def State.step (groupVersion : L → String) (s : State G L) : Event G L → State G L
  | .call c =>
    match (if s.cache.valid then s.cache.held.serve groupVersion c else none), c with
    | some r, _ => { s with served := s.served ++ [r] }
    | none, .groupsAndResources => { s with underWay := s.underWay + 1 }
    | none, _ => s
  | .answer time a failed =>
    if s.underWay = 0 then s
    else
      { s with
        underWay := s.underWay - 1
        cache := if failed then s.cache else s.cache.fill time a }

/-- One collection with the cache. -/
structure Tick (G L : Type) where
  /-- The clock when it began. -/
  began : Time
  /-- The server version it read, "" when it could not. -/
  version : String
  /-- Its discovery calls and their answers. -/
  events : List (Event G L)
  /-- The CRDs it read, `none` when it could not. -/
  crds : Option (List CRD)

namespace Tick

variable (sha256 : String → Vector UInt8 32) (groupVersion : L → String)

/-- The fingerprint of the CRDs that a tick read. -/
def fingerprint (t : Tick G L) : Option String := t.crds.map (crdFingerprint sha256)

/-- The cache when the tick has read the version. -/
def start (t : Tick G L) (c : Cache G L) : Cache G L := (c.begin t.began).observeVersion t.version

/-- The tick up to its end. -/
def discover (t : Tick G L) (c : Cache G L) : State G L :=
  t.events.foldl (State.step groupVersion) { cache := t.start c }

/-- The cache after the tick. -/
def run (c : Cache G L) (t : Tick G L) : Cache G L :=
  (t.discover groupVersion c).cache.«end» ((t.fingerprint sha256).getD "")

/-- What the tick reads of the clock, in order. -/
def readings (t : Tick G L) : List Time :=
  t.began :: t.events.filterMap fun
    | .call _ => none
    | .answer time _ _ => some time

end Tick

/-- The cache after some ticks, from an empty one. -/
def after (sha256 : String → Vector UInt8 32) (groupVersion : L → String) (ticks : List (Tick G L)) : Cache G L :=
  ticks.foldl (Tick.run sha256 groupVersion) {}

/-! ## What is served is fresh -/

/-- The answer came complete in tick `f`, at this time. -/
def CameIn (f : Tick G L) (time : Time) (a : Answer G L) : Prop := Event.answer time a false ∈ f.events

/-- What a tick was served from the cache after the ticks `before`: a part of an answer that came complete, less
than an hour before the tick began, in a tick that saw the same server version, and every tick completed since then
read CRDs, the ones of the tick it came in. -/
def Fresh (sha256 : String → Vector UInt8 32) (groupVersion : L → String) (before : List (Tick G L)) (t : Tick G L)
    (r : Served G L) : Prop :=
  ∃ older f since, before ++ [t] = older ++ f :: since ∧
    (∃ time a, CameIn f time a ∧ (∃ c, a.serve groupVersion c = some r) ∧ t.began - time < maxAge) ∧
      f.version = t.version ∧
        ∀ k ∈ (f :: since).dropLast, k.fingerprint sha256 = f.fingerprint sha256 ∧ k.crds.isSome

/-! ### Between two ticks -/

section Invariants

variable {sha256 : String → Vector UInt8 32} {groupVersion : L → String} {before : List (Tick G L)} {t : Tick G L}
  {c : Cache G L}

/-- What the cache holds came in one of the ticks, at the version of the cache, and the ticks since then read the
CRDs of that tick, whose fingerprint the cache has. -/
def HeldSince (sha256 : String → Vector UInt8 32) (before : List (Tick G L)) (c : Cache G L) : Prop :=
  ∃ older f since, before = older ++ f :: since ∧ CameIn f c.filled c.held ∧ f.version = c.version ∧
    ∀ k ∈ f :: since, k.fingerprint sha256 = some c.crds

/-- The cache after the ticks `before`: an answer it would keep is one of theirs. -/
def Sound (sha256 : String → Vector UInt8 32) (before : List (Tick G L)) (c : Cache G L) : Prop :=
  c.valid → c.stale = false → HeldSince sha256 before c

/-- The cache in the discovery steps of tick `t`, after the ticks `before`. -/
structure Serving (sha256 : String → Vector UInt8 32) (before : List (Tick G L)) (t : Tick G L) (c : Cache G L) :
    Prop where
  /-- The version is the tick's. -/
  version : c.version = t.version
  /-- What was stale was dropped. -/
  stale : c.stale = false
  /-- An answer came in this tick, or was kept and is not too old. -/
  held : c.valid → CameIn t c.filled c.held ∧ t.began ≤ c.filled ∧ c.crds = "" ∨
    HeldSince sha256 before c ∧ t.began - c.filled < maxAge

/-- A fingerprint of CRDs that were read is not empty. -/
theorem Tick.fingerprint_ne_empty {fp : String} (h : t.fingerprint sha256 = some fp) : fp ≠ "" := by
  obtain ⟨crds, -, rfl⟩ := Option.map_eq_some_iff.mp h
  exact crdFingerprint_ne_empty sha256 crds

/-- The tick drops what is stale, too old, or of another version. -/
theorem Sound.start (h : Sound sha256 before c) : Serving sha256 before t (t.start c) := by
  unfold Tick.start Cache.observeVersion Cache.begin
  split_ifs with hold hother hother
  · simp [Cache.drop] at hother
  · exact ⟨rfl, rfl, fun hvalid => by simp [Cache.drop] at hvalid⟩
  · exact ⟨rfl, rfl, fun hvalid => by simp [Cache.drop] at hvalid⟩
  · refine ⟨rfl, rfl, fun hvalid => .inr ?_⟩
    have hkeep : c.stale = false ∧ t.began - c.filled < maxAge := by
      by_contra hnot
      refine hold ⟨hvalid, ?_⟩
      by_cases hstale : c.stale = true
      · exact .inl hstale
      · exact .inr (not_lt.mp fun hlt => hnot ⟨Bool.eq_false_iff.mpr hstale, hlt⟩)
    obtain ⟨older, f, since, hbefore, hcame, hversion, hcrds⟩ := h hvalid hkeep.1
    have hsame : t.version = c.version := by
      by_contra hne
      exact hother ⟨hvalid, .inr hne⟩
    exact ⟨⟨older, f, since, hbefore, hcame, hversion.trans hsame.symm, hcrds⟩, hkeep.2⟩

/-- A complete answer is the tick's own. -/
theorem Serving.fill (h : Serving sha256 before t c) {time : Time} {a : Answer G L} (hcame : CameIn t time a)
    (htime : t.began ≤ time) : Serving sha256 before t (c.fill time a) :=
  ⟨h.version, h.stale, fun _ => .inl ⟨hcame, htime, rfl⟩⟩

/-- What the cache serves in the tick is fresh. -/
theorem Serving.fresh (h : Serving sha256 before t c) (hvalid : c.valid) {call : Call} {r : Served G L}
    (hr : c.held.serve groupVersion call = some r) : Fresh sha256 groupVersion before t r := by
  have hage : (0 : ℤ) < maxAge := by decide
  rcases h.held hvalid with ⟨hcame, htime, -⟩ | ⟨⟨older, f, since, hbefore, hcame, hversion, hcrds⟩, hyoung⟩
  · refine ⟨before, t, [], rfl, ⟨c.filled, c.held, hcame, ⟨call, hr⟩, ?_⟩, rfl, by simp⟩
    exact lt_of_le_of_lt (sub_nonpos.mpr htime) hage
  · refine ⟨older, f, since ++ [t], by simp [hbefore], ⟨c.filled, c.held, hcame, ⟨call, hr⟩, hyoung⟩,
      hversion.trans h.version, fun k hk => ?_⟩
    rw [← List.cons_append, List.dropLast_concat] at hk
    have hk' := hcrds k hk
    refine ⟨hk'.trans (hcrds f List.mem_cons_self).symm, ?_⟩
    unfold Tick.fingerprint at hk'
    cases hc : k.crds with
    | none => simp [hc] at hk'
    | some _ => rfl

/-- The end of the tick leaves a sound cache. -/
theorem Serving.sound (h : Serving sha256 before t c) :
    Sound sha256 (before ++ [t]) (c.«end» ((t.fingerprint sha256).getD "")) := by
  unfold Sound Cache.«end»
  split_ifs with hvalid hnone hfirst hother
  · exact fun _ hstale => absurd hstale (by simp)
  · -- The tick the answer came in: its CRDs are recorded.
    intro hv hstale
    have hv : c.valid = true := hv
    have hfp : t.fingerprint sha256 = some ((t.fingerprint sha256).getD "") := by
      cases hfp : t.fingerprint sha256 with
      | none => simp [hfp] at hnone
      | some fp => rfl
    rcases h.held hv with ⟨hcame, -, -⟩ | ⟨⟨older, f, since, -, -, -, hcrds⟩, -⟩
    · exact ⟨before, t, [], rfl, hcame, h.version.symm, by simpa using hfp⟩
    · exact absurd hfirst (Tick.fingerprint_ne_empty (hcrds f List.mem_cons_self))
  · exact fun _ hstale => absurd hstale (by simp)
  · -- A later tick with the same CRDs.
    intro hv hstale
    have hfp : t.fingerprint sha256 = some c.crds := by
      cases hfp : t.fingerprint sha256 with
      | none => simp [hfp] at hnone
      | some fp => simpa [hfp] using hother
    rcases h.held hv with ⟨-, -, hempty⟩ | ⟨⟨older, f, since, hbefore, hcame, hversion, hcrds⟩, -⟩
    · exact absurd hempty hfirst
    · refine ⟨older, f, since ++ [t], by simp [hbefore], hcame, hversion, fun k hk => ?_⟩
      rw [← List.cons_append, List.mem_append, List.mem_singleton] at hk
      rcases hk with hk | rfl
      · exact hcrds k hk
      · exact hfp
  · exact fun hv => absurd hv hvalid

/-! ### Within a tick -/

/-- One event of a tick keeps what the cache serves fresh. -/
theorem Serving.step {s : State G L} {e : Event G L} (h : Serving sha256 before t s.cache)
    (hserved : ∀ r ∈ s.served, Fresh sha256 groupVersion before t r) (he : e ∈ t.events)
    (hclock : ∀ time ∈ t.readings, t.began ≤ time) :
    Serving sha256 before t (s.step groupVersion e).cache ∧
      ∀ r ∈ (s.step groupVersion e).served, Fresh sha256 groupVersion before t r := by
  cases e with
  | call call =>
    cases hr : (if s.cache.valid then s.cache.held.serve groupVersion call else none) with
    | some r =>
      have hstep : s.step groupVersion (.call call) = { s with served := s.served ++ [r] } := by
        simp only [State.step, hr]
      rw [hstep]
      refine ⟨h, fun r' hr' => ?_⟩
      rcases List.mem_append.mp hr' with hr' | hr'
      · exact hserved r' hr'
      · obtain rfl := List.mem_singleton.mp hr'
        split_ifs at hr with hvalid
        exact h.fresh hvalid hr
    | none =>
      cases call <;> simp only [State.step, hr] <;> exact ⟨h, hserved⟩
  | answer time a failed =>
    unfold State.step
    dsimp only
    split_ifs with hnone hfailed
    · exact ⟨h, hserved⟩
    · exact ⟨h, hserved⟩
    · obtain rfl : failed = false := Bool.eq_false_iff.mpr hfailed
      refine ⟨h.fill he (hclock time ?_), hserved⟩
      exact List.mem_cons_of_mem _ (List.mem_filterMap.mpr ⟨_, he, rfl⟩)

/-- The discovery steps of a tick keep what the cache serves fresh. -/
theorem Serving.discover (h : Serving sha256 before t (t.start c)) (hclock : ∀ time ∈ t.readings, t.began ≤ time) :
    Serving sha256 before t (t.discover groupVersion c).cache ∧
      ∀ r ∈ (t.discover groupVersion c).served, Fresh sha256 groupVersion before t r := by
  have hrun : ∀ (events : List (Event G L)) (s : State G L), (∀ e ∈ events, e ∈ t.events) →
      Serving sha256 before t s.cache → (∀ r ∈ s.served, Fresh sha256 groupVersion before t r) →
        Serving sha256 before t (events.foldl (State.step groupVersion) s).cache ∧
          ∀ r ∈ (events.foldl (State.step groupVersion) s).served, Fresh sha256 groupVersion before t r := by
    intro events
    induction events with
    | nil => exact fun s _ hs hserved => ⟨hs, hserved⟩
    | cons e events ih =>
      intro s hsub hs hserved
      obtain ⟨hs', hserved'⟩ := hs.step hserved (hsub e List.mem_cons_self) hclock
      exact ih _ (fun e he => hsub e (List.mem_cons_of_mem _ he)) hs' hserved'
  exact hrun t.events _ (fun e he => he) h (by simp)

/-- A clock that does not go back reads nothing before the beginning of a tick in it. -/
theorem began_le_readings {ticks : List (Tick G L)} (hclock : (ticks.flatMap Tick.readings).Pairwise (· ≤ ·))
    (ht : t ∈ ticks) : ∀ time ∈ t.readings, t.began ≤ time := by
  have hsub : t.readings.Sublist (ticks.flatMap Tick.readings) := by
    rw [List.flatMap_def]
    exact List.sublist_flatten_of_mem (List.mem_map_of_mem ht)
  have htick := List.pairwise_cons.mp (hclock.sublist hsub)
  intro time htime
  rcases List.mem_cons.mp htime with rfl | htime
  · exact le_rfl
  · exact htick.1 time htime

/-- Every run of ticks leaves a sound cache. -/
theorem sound_after {ticks : List (Tick G L)} (hclock : (ticks.flatMap Tick.readings).Pairwise (· ≤ ·)) :
    Sound sha256 ticks (after sha256 groupVersion ticks) := by
  induction ticks using List.reverseRecOn with
  | nil => exact fun hvalid => absurd hvalid (by simp [after])
  | append_singleton ticks t ih =>
    have hbefore : (ticks.flatMap Tick.readings).Pairwise (· ≤ ·) := by
      rw [List.flatMap_append] at hclock
      exact (List.pairwise_append.mp hclock).1
    have hstep : after sha256 groupVersion (ticks ++ [t]) =
        Tick.run sha256 groupVersion (after sha256 groupVersion ticks) t := by
      simp [after]
    rw [hstep]
    exact ((ih hbefore).start.discover (began_le_readings hclock (by simp))).1.sound

/-- In every run of ticks with a clock that does not go back, whatever a tick is served from the cache is fresh. -/
theorem served_fresh {ticks later : List (Tick G L)} (hclock : (ticks.flatMap Tick.readings).Pairwise (· ≤ ·))
    (hticks : ticks = before ++ t :: later) {r : Served G L}
    (hr : r ∈ (t.discover groupVersion (after sha256 groupVersion before)).served) :
    Fresh sha256 groupVersion before t r := by
  subst hticks
  have hbefore : (before.flatMap Tick.readings).Pairwise (· ≤ ·) := by
    rw [List.flatMap_append] at hclock
    exact (List.pairwise_append.mp hclock).1
  exact ((sound_after hbefore).start.discover (began_le_readings hclock (by simp))).2 r hr

end Invariants

end Calls

/-- A tick that asks for discovery, and one ten minutes later that is served from its answer. -/
def steadyTicks : List (Tick ℕ ℕ) :=
  [{ began := 0, version := "v1.31.0"
     events := [.call .groupsAndResources, .answer 1 ⟨[some 7, none], [some 3]⟩ false], crds := some [] },
   { began := 600 * 10 ^ 9, version := "v1.31.0", events := [.call .groups], crds := some [] }]

/-- The second tick is served the groups of the first one's answer. -/
theorem served_fresh_steadyTicks : ∃ t ∈ steadyTicks,
    Fresh (fun _ => Vector.replicate 32 0) (fun _ => "v1") (steadyTicks.take 1) t (.groups [7]) := by
  refine ⟨_, List.mem_cons_of_mem _ List.mem_cons_self, ?_⟩
  exact served_fresh (show (steadyTicks.flatMap Tick.readings).Pairwise (· ≤ ·) by decide)
    (show steadyTicks = steadyTicks.take 1 ++ steadyTicks.drop 1 from rfl) (by decide)

end UpgradeScope.DiscoveryCache
