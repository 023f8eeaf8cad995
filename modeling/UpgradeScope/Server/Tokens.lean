import UpgradeScope.Server.SecretFile
import UpgradeScope.Lib.Runs
import Mathlib.Logic.Function.Basic

/-!
# The server's three tokens

`internal/server/tokens.go`: the ingest, the read and the admin token are each a fixed string or a file that is
followed. A reload compares its candidate with the two other tokens, one after the other and without their locks, and
stores it later; what keeps two tokens from becoming equal is the lock that all reloads share, which one takes or
leaves its value alone.

A run is any interleaving of `Value` calls, one atomic operation at a time, with whatever their looks at the files find.
-/

namespace UpgradeScope.Tokens

open SecretFile Utf8

/-! ## The tokens -/

/-- Which of a server's three tokens is meant. -/
inductive Slot where
  | ingest
  | read
  | admin
  deriving DecidableEq

/-- The name of a token in an error. -/
def Slot.name : Slot → String
  | .ingest => "ingest"
  | .read => "read"
  | .admin => "admin"

/-- `errReadIsIngest`. -/
def errReadIsIngest : String :=
  "Config.ReadToken must differ from Config.IngestToken: every agent's push token would read the whole fleet, " ++
    "and every reader could push as any cluster"

/-- `errAdminIsRead`. -/
def errAdminIsRead : String :=
  "Config.AdminToken must differ from Config.ReadToken: whoever reads must not be able to delete or rename clusters"

/-- `errAdminIsIngest`. -/
def errAdminIsIngest : String :=
  "Config.AdminToken must differ from Config.IngestToken: whoever pushes must not be able to delete or rename clusters"

/-- What a token's validator compares a candidate with, in order, and what it says where they are equal. -/
def others : Slot → List (Slot × String)
  | .ingest => [(.read, errReadIsIngest), (.admin, errAdminIsIngest)]
  | .read => [(.ingest, errReadIsIngest), (.admin, errAdminIsRead)]
  | .admin => [(.ingest, errAdminIsIngest), (.read, errAdminIsRead)]

/-- `tokenSource`. -/
structure TokenSource where
  /-- The fixed string. -/
  fixed : Bytes
  /-- The file that replaces it. -/
  file : Option File := none

/-- `tokenSource.current`. -/
def TokenSource.current (t : TokenSource) : Bytes :=
  match t.file with
  | some f => f.value
  | none => t.fixed

/-- `tokenSources`. -/
abbrev TokenSources := Slot → TokenSource

/-- A token's validator, where nothing changes meanwhile. -/
def validate (ts : TokenSources) (a : Slot) (v : Bytes) : Option String :=
  ((others a).find? fun o => v = (ts o.1).current).map (·.2)

/-- `Config`, as far as the tokens go. -/
structure Config where
  /-- `IngestToken`, `ReadToken` and `AdminToken`. -/
  token : Slot → Bytes
  /-- `IngestTokenFile`, `ReadTokenFile` and `AdminTokenFile`, "" for none. -/
  tokenFile : Slot → String
  /-- `IngestTokenFileOptional`. -/
  ingestTokenFileOptional : Bool := false

/-- What a stat of a file and a read of it find. -/
structure Look where
  /-- The stat. -/
  stat : Stat
  /-- The read. -/
  contents : Contents

/-- The options a token's file is opened with. -/
def Config.file (cfg : Config) (a : Slot) : File :=
  { path := cfg.tokenFile a
    optional := a = .ingest ∧ cfg.ingestTokenFileOptional
    removalClears := a = .ingest ∧ cfg.ingestTokenFileOptional }

/-- One token of `newTokenSources`: its file, if it has one, is opened. -/
def openToken (cfg : Config) (look : Look) (a : Slot) (ts : TokenSources) : Except String TokenSources :=
  if cfg.tokenFile a = "" then .ok ts
  else match (cfg.file a).opened (validate ts a) look.stat look.contents with
    | .error msg => .error ("server: " ++ a.name ++ " token file: " ++ msg)
    | .ok f => .ok (Function.update ts a { ts a with file := some f })

/-- `newTokenSources`. -/
def newTokenSources (cfg : Config) (looks : Slot → Look) : Except String TokenSources := do
  let ts : TokenSources := fun a => { fixed := cfg.token a }
  let ts ← openToken cfg (looks .ingest) .ingest ts
  let ts ← openToken cfg (looks .read) .read ts
  let ts ← openToken cfg (looks .admin) .admin ts
  let i := (ts .ingest).current
  let r := (ts .read).current
  let a := (ts .admin).current
  if r ≠ [] ∧ r = i then .error errReadIsIngest
  else if a ≠ [] ∧ a = r then .error errAdminIsRead
  else if a ≠ [] ∧ a = i then .error errAdminIsIngest
  else .ok ts

/-! ## The calls -/

/-- Where a call of `Value` is. -/
inductive Phase where
  /-- It is to load `next`. -/
  | arrived
  /-- It is to try the file's lock. -/
  | locking
  /-- It is to load `next` again. -/
  | locked
  /-- It is to try the group's lock. -/
  | grouping
  /-- It is to store `next`. -/
  | marking
  /-- It is to stat the file. -/
  | statting
  /-- It is to read the file. -/
  | reading (st : Stamp)
  /-- It is to compare `v` with the tokens that are left, and then to store it. -/
  | comparing (st : Stamp) (v : Bytes) (left : List (Slot × String))
  /-- It is to load the value, with the group's lock or without, and with the file's or without. -/
  | loading (grouped checked : Bool)
  /-- It is to unlock the group, and returns `v`. -/
  | unlockGroup (v : Bytes)
  /-- It is to unlock the file, and returns `v`. -/
  | unlockCheck (v : Bytes)
  /-- It returned. -/
  | returned (v : Bytes)

/-- A call of `Value`. -/
structure Call where
  /-- Of which token's file. -/
  slot : Slot
  /-- What the clock said. -/
  now : ℤ
  /-- Where it is. -/
  phase : Phase := .arrived

/-- The tokens and the calls. -/
structure State where
  /-- The tokens. -/
  tokens : TokenSources
  /-- The check interval. -/
  interval : ℤ
  /-- `File.next` of each token. -/
  next : Slot → ℤ
  /-- Whether `File.check` of each token is locked. -/
  check : Slot → Bool := fun _ => false
  /-- Whether the group's lock is. -/
  group : Bool := false
  /-- The calls made so far. -/
  calls : ℕ → Option Call := fun _ => none

namespace State

variable (s : State)

/-- The token in service. -/
def current (a : Slot) : Bytes := (s.tokens a).current

/-- Call `i` goes on to a phase. -/
def enter (i : ℕ) (c : Call) (p : Phase) : State :=
  { s with calls := Function.update s.calls i (some { c with phase := p }) }

/-- The file of a token becomes `g` of itself. -/
def update (a : Slot) (g : File → File) : State :=
  { s with tokens := Function.update s.tokens a { s.tokens a with file := (s.tokens a).file.map g } }

/-- What a stat by a call finds: it has nothing to do, or it is to read. -/
def onStat (i : ℕ) (c : Call) (stat : Stat) : State :=
  let after := (s.tokens c.slot).file.bind fun f => (f.onStat stat).2
  (s.update c.slot fun f => (f.onStat stat).1).enter i c (after.elim (.loading true true) .reading)

/-- What a read by a call finds: it fails, or there is a value to compare. -/
def onRead (i : ℕ) (c : Call) (st : Stamp) (contents : Contents) : State :=
  match read (fun _ => none) contents with
  | .error e => (s.update c.slot fun f => f.onRead st (.error e)).enter i c (.loading true true)
  | .ok v => s.enter i c (.comparing st v (others c.slot))

/-- The next operation of a call, whose look at the file finds `look`. The value is loaded before the deferred unlocks. -/
def move (i : ℕ) (c : Call) (look : Look) : State :=
  match c.phase with
  | .arrived => s.enter i c (if c.now ≥ s.next c.slot then .locking else .loading false false)
  | .locking =>
    if s.check c.slot then s.enter i c (.loading false false)
    else { s.enter i c .locked with check := Function.update s.check c.slot true }
  | .locked => s.enter i c (if c.now ≥ s.next c.slot then .grouping else .loading false true)
  | .grouping => if s.group then s.enter i c (.loading false true) else { s.enter i c .marking with group := true }
  | .marking => { s.enter i c .statting with next := Function.update s.next c.slot (c.now + s.interval) }
  | .statting => s.onStat i c look.stat
  | .reading st => s.onRead i c st look.contents
  | .comparing st v [] => (s.update c.slot fun f => f.onRead st (.ok v)).enter i c (.loading true true)
  | .comparing st v ((a, msg) :: left) =>
    if v = s.current a then
      (s.update c.slot fun f => f.onRead st (.error (.refused msg))).enter i c (.loading true true)
    else s.enter i c (.comparing st v left)
  | .loading grouped checked =>
    let v := s.current c.slot
    s.enter i c (if grouped then .unlockGroup v else if checked then .unlockCheck v else .returned v)
  | .unlockGroup v => { s.enter i c (.unlockCheck v) with group := false }
  | .unlockCheck v => { s.enter i c (.returned v) with check := Function.update s.check c.slot false }
  | .returned _ => s

end State

/-- One step of a run. -/
inductive Step : State → State → Prop where
  /-- A call of a file's `Value`. -/
  | arrive {s : State} (i : ℕ) (a : Slot) (now : ℤ) : s.calls i = none → (s.tokens a).file ≠ none →
      Step s { s with calls := Function.update s.calls i (some { slot := a, now := now }) }
  /-- A call goes on. -/
  | move {s : State} {i : ℕ} {c : Call} (look : Look) : s.calls i = some c → Step s (s.move i c look)

/-! ## The tokens stay different -/

/-- Whether a call holds the group's lock. -/
def Phase.holds : Phase → Bool
  | .marking | .statting | .reading _ | .comparing _ _ _ | .unlockGroup _ => true
  | .loading grouped _ => grouped
  | _ => false

/-- Call `i` holds the group's lock. -/
def State.Holds (s : State) (i : ℕ) : Prop := ∃ c, s.calls i = some c ∧ c.phase.holds = true

/-- What holds in every state of a run. -/
structure Apart (s : State) : Prop where
  /-- Two tokens are equal only when both are empty. -/
  differ : ∀ a b, a ≠ b → s.current a ≠ [] → s.current a ≠ s.current b
  /-- One call at a time holds the group's lock. -/
  exclusive : Runs.Exclusive s.Holds (s.group = true)
  /-- A candidate is not empty, and differs from every other token that is not left to compare it with. -/
  compared : ∀ i c st v left, s.calls i = some c → c.phase = .comparing st v left →
    v ≠ [] ∧ ∀ a, a ≠ c.slot → v = s.current a → a ∈ left.map Prod.fst

/-! ### What an operation does -/

variable (s : State) {c : Call}

/-- A change of a file is a change of its token, or of nothing. -/
theorem State.current_update (a : Slot) (g : File → File) :
    (s.update a g).current = s.current ∨
      ∃ f, (s.tokens a).file = some f ∧ s.current a = f.value ∧
        (s.update a g).current = Function.update s.current a (g f).value := by
  cases hfile : (s.tokens a).file with
  | none =>
    left
    funext b
    by_cases hb : b = a
    · subst hb
      simp [State.current, State.update, TokenSource.current, hfile]
    · simp [State.current, State.update, hb]
  | some f =>
    right
    refine ⟨f, rfl, by simp [State.current, TokenSource.current, hfile], ?_⟩
    funext b
    by_cases hb : b = a
    · subst hb
      simp [State.current, State.update, TokenSource.current, hfile]
    · simp [State.current, State.update, hb]

/-- A change that leaves the value of the file leaves every token. -/
theorem State.current_update_of_value (a : Slot) {g : File → File} (hg : ∀ f, (g f).value = f.value) :
    (s.update a g).current = s.current := by
  rcases s.current_update a g with h | ⟨f, hfile, hcur, h⟩
  · exact h
  · rw [h, hg f, ← hcur, Function.update_eq_self]

/-- What one operation of a call does, in each of the ways it can matter to the tokens. -/
inductive Effect (s s' : State) (c : Call) : Phase → Prop where
  /-- Neither the lock nor a candidate changes hands, and at most the call's own token is cleared, under the lock. -/
  | quiet {p : Phase} : s'.group = s.group → p.holds = c.phase.holds → (∀ st v left, p ≠ .comparing st v left) →
      s'.current = s.current ∨ c.phase.holds = true ∧ s'.current = Function.update s.current c.slot [] → Effect s s' c p
  /-- The lock is taken. -/
  | take : s.group = false → s'.group = true → s'.current = s.current → Effect s s' c .marking
  /-- The lock is given back. -/
  | release {v : Bytes} : c.phase.holds = true → s'.current = s.current → Effect s s' c (.unlockCheck v)
  /-- A candidate is to be compared. -/
  | candidate {st : Stamp} {v : Bytes} : s'.group = s.group → c.phase.holds = true → s'.current = s.current → v ≠ [] →
      Effect s s' c (.comparing st v (others c.slot))
  /-- A candidate differs from the next token. -/
  | next {st : Stamp} {v : Bytes} {a : Slot} {msg : String} {left : List (Slot × String)} : s'.group = s.group →
      c.phase = .comparing st v ((a, msg) :: left) → v ≠ s.current a → s'.current = s.current →
      Effect s s' c (.comparing st v left)
  /-- A candidate goes into service. -/
  | store {st : Stamp} {v : Bytes} : s'.group = s.group → c.phase = .comparing st v [] →
      s'.current = s.current ∨ s'.current = Function.update s.current c.slot v →
      Effect s s' c (.loading true true)

/-- What a stat by a call does. -/
theorem State.onStat_effect (i : ℕ) (stat : Stat) (hphase : c.phase = .statting) :
    ∃ p, (s.onStat i c stat).calls = Function.update s.calls i (some { c with phase := p }) ∧
      Effect s (s.onStat i c stat) c p := by
  refine ⟨_, rfl, .quiet rfl ?_ ?_ ?_⟩
  · rw [hphase]
    cases (s.tokens c.slot).file.bind fun f => (f.onStat stat).2 <;> rfl
  · intro st v left
    cases (s.tokens c.slot).file.bind fun f => (f.onStat stat).2 <;> simp
  · rcases s.current_update c.slot fun f => (f.onStat stat).1 with h | ⟨f, -, hcur, h⟩
    · exact .inl h
    · rcases f.onStat_cases stat with ⟨hvalue, -⟩ | ⟨-, -, hvalue, -⟩
      · left
        refine h.trans ?_
        rw [hvalue, ← hcur, Function.update_eq_self]
      · right
        refine ⟨by rw [hphase]; rfl, h.trans ?_⟩
        rw [hvalue]

/-- What a read by a call does. -/
theorem State.onRead_effect (i : ℕ) {st : Stamp} (contents : Contents) (hphase : c.phase = .reading st) :
    ∃ p, (s.onRead i c st contents).calls = Function.update s.calls i (some { c with phase := p }) ∧
      Effect s (s.onRead i c st contents) c p := by
  unfold State.onRead
  cases hread : SecretFile.read (fun _ => none) contents with
  | error e =>
    refine ⟨_, rfl, .quiet rfl (by rw [hphase]; rfl) (by simp) (.inl ?_)⟩
    exact s.current_update_of_value c.slot fun f => File.fail_value _ _
  | ok v =>
    obtain ⟨-, -, -, -, hne, -⟩ := read_eq_ok.mp hread
    exact ⟨_, rfl, .candidate rfl (by rw [hphase]; rfl) rfl hne⟩

/-- What an operation of a call does. -/
theorem State.move_effect {i : ℕ} (look : Look) (hc : s.calls i = some c) :
    ∃ p, (s.move i c look).calls = Function.update s.calls i (some { c with phase := p }) ∧
      Effect s (s.move i c look) c p := by
  have hquiet {s' : State} {p : Phase} (hgroup : s'.group = s.group) (hcurrent : s'.current = s.current)
      (hholds : p.holds = c.phase.holds) (hp : ∀ st v left, p ≠ .comparing st v left) : Effect s s' c p :=
    .quiet hgroup hholds hp (.inl hcurrent)
  -- One case a phase. All but the lock of the group, the file and the comparisons leave both the group and the values
  -- alone.
  cases hphase : c.phase with
  | arrived =>
    simp only [State.move, hphase]
    split_ifs
    · exact ⟨_, rfl, hquiet rfl rfl (by rw [hphase]; rfl) (by simp)⟩
    · exact ⟨_, rfl, hquiet rfl rfl (by rw [hphase]; rfl) (by simp)⟩
  | locking =>
    simp only [State.move, hphase]
    split_ifs
    · exact ⟨_, rfl, hquiet rfl rfl (by rw [hphase]; rfl) (by simp)⟩
    · exact ⟨_, rfl, hquiet rfl rfl (by rw [hphase]; rfl) (by simp)⟩
  | locked =>
    simp only [State.move, hphase]
    split_ifs
    · exact ⟨_, rfl, hquiet rfl rfl (by rw [hphase]; rfl) (by simp)⟩
    · exact ⟨_, rfl, hquiet rfl rfl (by rw [hphase]; rfl) (by simp)⟩
  | grouping =>
    simp only [State.move, hphase]
    by_cases hgroup : s.group = true
    · rw [if_pos hgroup]
      exact ⟨_, rfl, hquiet rfl rfl (by rw [hphase]; rfl) (by simp)⟩
    · rw [if_neg hgroup]
      exact ⟨_, rfl, .take (by simpa using hgroup) rfl rfl⟩
  | marking =>
    simp only [State.move, hphase]
    exact ⟨_, rfl, hquiet rfl rfl (by rw [hphase]; rfl) (by simp)⟩
  | statting =>
    simp only [State.move, hphase]
    exact s.onStat_effect i look.stat hphase
  | reading st =>
    simp only [State.move, hphase]
    exact s.onRead_effect i look.contents hphase
  | comparing st v left =>
    cases left with
    | nil =>
      simp only [State.move, hphase]
      refine ⟨_, rfl, .store rfl hphase ?_⟩
      rcases s.current_update c.slot fun f => f.onRead st (.ok v) with h | ⟨f, -, -, h⟩
      · exact .inl h
      · exact .inr h
    | cons o left =>
      obtain ⟨a, msg⟩ := o
      simp only [State.move, hphase]
      -- A candidate equal to another slot's value is refused, and its own slot keeps what it had.
      by_cases hv : v = s.current a
      · rw [if_pos hv]
        refine ⟨_, rfl, hquiet rfl ?_ (by rw [hphase]; rfl) (by simp)⟩
        exact s.current_update_of_value c.slot fun f => File.fail_value _ _
      · rw [if_neg hv]
        exact ⟨_, rfl, .next rfl hphase hv rfl⟩
  | loading grouped checked =>
    simp only [State.move, hphase]
    cases grouped with
    | true => exact ⟨_, rfl, hquiet rfl rfl (by rw [hphase]; rfl) (by simp)⟩
    | false =>
      cases checked with
      | true => exact ⟨_, rfl, hquiet rfl rfl (by rw [hphase]; rfl) (by simp)⟩
      | false => exact ⟨_, rfl, hquiet rfl rfl (by rw [hphase]; rfl) (by simp)⟩
  | unlockGroup v =>
    simp only [State.move, hphase]
    exact ⟨_, rfl, .release (by rw [hphase]; rfl) rfl⟩
  | unlockCheck v =>
    simp only [State.move, hphase]
    exact ⟨_, rfl, hquiet rfl rfl (by rw [hphase]; rfl) (by simp)⟩
  | returned v =>
    simp only [State.move, hphase]
    refine ⟨c.phase, ?_, hquiet rfl rfl rfl (by simp [hphase])⟩
    rw [← hc, Function.update_eq_self]

/-! ### Every step keeps them apart -/

section Move

variable {s s' : State} {i : ℕ} {c : Call} {p : Phase}

/-- The other calls hold the lock as they did. -/
theorem holds_of_ne (hcalls : s'.calls = Function.update s.calls i (some { c with phase := p })) {j : ℕ} (hj : j ≠ i)
    (h : s'.Holds j) : s.Holds j := by
  obtain ⟨d, hd, hholds⟩ := h
  rw [hcalls, Function.update_of_ne hj] at hd
  exact ⟨d, hd, hholds⟩

/-- A call that moves holds the group's lock where its new phase says so. -/
theorem holds_self (hcalls : s'.calls = Function.update s.calls i (some { c with phase := p })) :
    s'.Holds i ↔ p.holds = true := by
  simp [State.Holds, hcalls]

/-- The lock stays with whoever has it. -/
theorem exclusive_keep (h : Apart s) (hc : s.calls i = some c)
    (hcalls : s'.calls = Function.update s.calls i (some { c with phase := p })) (hgroup : s'.group = s.group)
    (hholds : p.holds = c.phase.holds) : Runs.Exclusive s'.Holds (s'.group = true) := by
  refine h.exclusive.keep (fun j hj => ?_) (hgroup ▸ id)
  by_cases hji : j = i
  · subst hji
    exact ⟨c, hc, hholds ▸ (holds_self hcalls).mp hj⟩
  · exact holds_of_ne hcalls hji hj

/-- The candidates of the other calls stay compared: whoever holds the lock is the only one to change a token. -/
theorem compared_other (h : Apart s) (hc : s.calls i = some c)
    (hcalls : s'.calls = Function.update s.calls i (some { c with phase := p }))
    (hcurrent : s'.current = s.current ∨ c.phase.holds = true) {j : ℕ} (hj : j ≠ i) {d : Call} {st : Stamp} {v : Bytes}
    {left : List (Slot × String)} (hd : s'.calls j = some d) (hphase : d.phase = .comparing st v left) :
    v ≠ [] ∧ ∀ a, a ≠ d.slot → v = s'.current a → a ∈ left.map Prod.fst := by
  rw [hcalls, Function.update_of_ne hj] at hd
  have hcompared := h.compared j d st v left hd hphase
  rcases hcurrent with hcurrent | hholds
  · rw [hcurrent]
    exact hcompared
  · exact absurd (h.exclusive.alone j i ⟨d, hd, by rw [hphase]; rfl⟩ ⟨c, hc, hholds⟩) hj

/-- Every token but one is as it was, and that one is empty or differs from the others. -/
theorem differ_update (h : Apart s) {a : Slot} {v : Bytes} (hv : v ≠ [] → ∀ b, b ≠ a → v ≠ s.current b)
    (hcurrent : s'.current = Function.update s.current a v) (x y : Slot) (hxy : x ≠ y) (hx : s'.current x ≠ []) :
    s'.current x ≠ s'.current y := by
  rw [hcurrent] at hx ⊢
  by_cases hxa : x = a
  · subst hxa
    rw [Function.update_self] at hx ⊢
    rw [Function.update_of_ne hxy.symm]
    exact hv hx y hxy.symm
  · rw [Function.update_of_ne hxa] at hx ⊢
    by_cases hya : y = a
    · subst hya
      rw [Function.update_self]
      intro heq
      exact hv (heq ▸ hx) x hxa heq.symm
    · rw [Function.update_of_ne hya]
      exact h.differ x y hxy hx

/-- The other tokens are those a candidate is compared with. -/
theorem mem_others {a b : Slot} (h : b ≠ a) : b ∈ (others a).map Prod.fst := by
  cases a <;> cases b <;> simp_all [others]

/-- An operation keeps the tokens apart. -/
theorem Apart.of_effect (h : Apart s) (hc : s.calls i = some c)
    (hcalls : s'.calls = Function.update s.calls i (some { c with phase := p })) (heffect : Effect s s' c p) :
    Apart s' := by
  -- A candidate of the call itself is in its new phase, one of another call where it was.
  have hcompared (hcurrent : s'.current = s.current ∨ c.phase.holds = true)
      (hown : ∀ st v left, p = .comparing st v left →
        v ≠ [] ∧ ∀ a, a ≠ c.slot → v = s'.current a → a ∈ left.map Prod.fst) :
      ∀ j d st v left, s'.calls j = some d → d.phase = .comparing st v left →
        v ≠ [] ∧ ∀ a, a ≠ d.slot → v = s'.current a → a ∈ left.map Prod.fst := by
    intro j d st v left hd hphase
    by_cases hji : j = i
    · subst hji
      rw [hcalls, Function.update_self] at hd
      obtain rfl : { c with phase := p } = d := by simpa using hd
      exact hown st v left hphase
    · exact compared_other h hc hcalls hcurrent hji hd hphase
  have hsame (hcurrent : s'.current = s.current) :
      ∀ a b, a ≠ b → s'.current a ≠ [] → s'.current a ≠ s'.current b := by
    rw [hcurrent]
    exact h.differ
  cases heffect with
  | quiet hgroup hholds hp hcurrent =>
    refine ⟨?_, exclusive_keep h hc hcalls hgroup hholds, ?_⟩
    · rcases hcurrent with hcurrent | ⟨-, hcurrent⟩
      · exact hsame hcurrent
      · exact differ_update h (by simp) hcurrent
    · exact hcompared (hcurrent.imp_right And.left) fun st v left heq => absurd heq (hp st v left)
  | take hfree hgroup hcurrent =>
    refine ⟨hsame hcurrent, ?_, hcompared (.inl hcurrent) (by simp)⟩
    exact h.exclusive.take (by simp [hfree]) hgroup fun j hj => holds_of_ne hcalls hj
  | release hholds hcurrent =>
    refine ⟨hsame hcurrent, ?_, hcompared (.inl hcurrent) (by simp)⟩
    refine h.exclusive.release ⟨c, hc, hholds⟩ ?_ fun j hj => holds_of_ne hcalls hj
    rw [holds_self hcalls]
    simp [Phase.holds]
  | @candidate st v hgroup hholds hcurrent hne =>
    refine ⟨hsame hcurrent, exclusive_keep h hc hcalls hgroup (by rw [hholds]; rfl), hcompared (.inl hcurrent) ?_⟩
    rintro _ _ _ ⟨⟩
    exact ⟨hne, fun a ha _ => mem_others ha⟩
  | @next st v a msg left hgroup hphase hv hcurrent =>
    refine ⟨hsame hcurrent, exclusive_keep h hc hcalls hgroup (by rw [hphase]; rfl), hcompared (.inl hcurrent) ?_⟩
    rintro _ _ _ ⟨⟩
    obtain ⟨hne, hleft⟩ := h.compared i c st v _ hc hphase
    refine ⟨hne, fun b hb heq => ?_⟩
    rw [hcurrent] at heq
    rcases List.mem_cons.mp (hleft b hb heq) with rfl | hmem
    · exact absurd heq hv
    · exact hmem
  | @store st v hgroup hphase hcurrent =>
    have hholds : c.phase.holds = true := by rw [hphase]; rfl
    refine ⟨?_, exclusive_keep h hc hcalls hgroup hholds.symm, hcompared (.inr hholds) (by simp)⟩
    rcases hcurrent with hcurrent | hcurrent
    · exact hsame hcurrent
    · -- Nothing is left to compare the candidate with.
      refine differ_update h (fun _ b hb heq => ?_) hcurrent
      simpa using (h.compared i c st v [] hc hphase).2 b hb heq

end Move

variable {s s' : State} {cfg : Config} {looks : Slot → Look} {ts : TokenSources}

/-- Every step keeps the tokens apart. -/
theorem Apart.step (h : Apart s) (hstep : Step s s') : Apart s' := by
  cases hstep with
  | arrive i a now hnone hfile =>
    refine ⟨h.differ, h.exclusive.keep (fun j hj => ?_) id, fun j d st v left hd hphase => ?_⟩
    · obtain ⟨d, hd, hholds⟩ := hj
      by_cases hji : j = i
      · subst hji
        obtain rfl : { slot := a, now := now } = d := by simpa using hd
        simp [Phase.holds] at hholds
      · exact ⟨d, by simpa [hji] using hd, hholds⟩
    · by_cases hji : j = i
      · subst hji
        obtain rfl : { slot := a, now := now } = d := by simpa using hd
        simp at hphase
      · exact h.compared j d st v left (by simpa [hji] using hd) hphase
  | move look hc =>
    obtain ⟨p, hcalls, heffect⟩ := s.move_effect look hc
    exact h.of_effect hc hcalls heffect

/-- What `newTokenSources` accepts differs. -/
theorem differ_of_newTokenSources (h : newTokenSources cfg looks = .ok ts) {a b : Slot} (hab : a ≠ b)
    (ha : (ts a).current ≠ []) :
    (ts a).current ≠ (ts b).current := by
  simp only [newTokenSources, bind, Except.bind] at h
  split at h
  · simp at h
  split at h
  · simp at h
  split at h
  · simp at h
  split_ifs at h with hri har hai
  obtain rfl := Except.ok.inj h
  intro heq
  cases a <;> cases b <;> simp_all

/-- Every run from accepted tokens keeps them apart. -/
theorem Apart.of_run (hnew : newTokenSources cfg looks = .ok ts) {interval : ℤ} {next : Slot → ℤ}
    (hrun : Relation.ReflTransGen Step { tokens := ts, interval := interval, next := next } s) : Apart s := by
  refine Runs.of_run hrun ⟨fun a b hab ha => differ_of_newTokenSources hnew hab ha, ⟨?_, ?_⟩, ?_⟩ Apart.step
  all_goals simp [State.Holds]

/-- The server's tokens stay different: from every configuration that is accepted, in every interleaving of calls and
whatever their looks at the files find, a token in service that is not empty differs from both others. -/
theorem tokens_stay_different {cfg : Config} {looks : Slot → Look} {ts : TokenSources}
    (hnew : newTokenSources cfg looks = .ok ts) {interval : ℤ} {next : Slot → ℤ} {s : State}
    (hrun : Relation.ReflTransGen Step { tokens := ts, interval := interval, next := next } s) {a b : Slot} (hab : a ≠ b)
    (ha : s.current a ≠ []) : s.current a ≠ s.current b :=
  (Apart.of_run hnew hrun).differ a b hab ha

/-- An ingest token "a" and a read token "b" from a file. -/
def readFromFile : Config where
  token
    | .ingest => [97]
    | _ => []
  tokenFile
    | .read => "read"
    | _ => ""

/-- The tokens in service of the server whose read token is in a file. -/
def servedFromFile : TokenSources :=
  Function.update (fun a => { fixed := readFromFile.token a }) .read
    { fixed := [], file := some { path := "read", value := [98], stamp := some ⟨1, 1, 1⟩ } }

theorem newTokenSources_readFromFile :
    newTokenSources readFromFile (fun _ => ⟨.info ⟨1, 1, 1⟩, .raw [98]⟩) = .ok servedFromFile := by
  simp [newTokenSources, openToken, readFromFile, Config.file, File.opened, File.onOpenStat, File.onOpenRead,
    SecretFile.read, trimSpace_b, maxSize, validate, others, TokenSource.current, bind, Except.bind, servedFromFile]

/-- What a run of calls is made of. -/
inductive Act where
  /-- A call of a token's file arrives. -/
  | arrive (i : ℕ) (a : Slot) (now : ℤ)
  /-- A call goes on, and finds `look`. -/
  | move (i : ℕ) (look : Look)

/-- What an act does, `none` where it cannot happen. -/
def State.act (s : State) : Act → Option State
  | .arrive i a now =>
    if (s.calls i).isNone ∧ (s.tokens a).file.isSome then
      some { s with calls := Function.update s.calls i (some { slot := a, now := now }) }
    else none
  | .move i look => (s.calls i).map fun c => s.move i c look

/-- The state after some acts. -/
def State.play (s : State) : List Act → Option State
  | [] => some s
  | e :: es => (s.act e).bind fun s' => s'.play es

/-- An act is a step. -/
theorem State.step_of_act {e : Act} (h : s.act e = some s') : Step s s' := by
  cases e with
  | arrive i a now =>
    simp only [State.act] at h
    split_ifs at h with hnew
    obtain rfl := Option.some.inj h
    exact .arrive i a now (Option.isNone_iff_eq_none.mp hnew.1) (Option.isSome_iff_ne_none.mp hnew.2)
  | move i look =>
    obtain ⟨c, hc, rfl⟩ := Option.map_eq_some_iff.mp h
    exact .move look hc

/-- Acts are a run. -/
theorem State.run_of_play {es : List Act} (h : s.play es = some s') :
    Relation.ReflTransGen Step s s' := by
  induction es generalizing s with
  | nil =>
    obtain rfl := Option.some.inj h
    exact .refl
  | cons e es ih =>
    obtain ⟨mid, hact, hrest⟩ := Option.bind_eq_some_iff.mp h
    exact .head (State.step_of_act hact) (ih hrest)

/-- A call of the read token's file that finds other contents under another stamp, in all its operations. -/
def reload (i : ℕ) (now : ℤ) (st : Stamp) (bytes : Bytes) : List Act :=
  .arrive i .read now :: List.replicate 13 (.move i ⟨.info st, .raw bytes⟩)

/-- The read token's file is rewritten to "c" and then to "a", the ingest token; each time a call reloads it, and while the
second one compares another call finds the file's lock taken and returns. -/
def rewritten : List Act :=
  reload 0 6 ⟨2, 2, 1⟩ [99] ++ (reload 1 12 ⟨3, 3, 1⟩ [97]).take 8 ++ [.arrive 2 .read 17] ++
    List.replicate 3 (.move 2 ⟨.notExist, .failed ""⟩) ++ List.replicate 4 (.move 1 ⟨.notExist, .failed ""⟩)

/-- The start of a server whose read token is in a file. -/
def startFromFile : State := { tokens := servedFromFile, interval := 5, next := fun _ => 5 }

/-- The first reload puts "c" in service; the second one is refused for being the ingest token, which the log says, and the
tokens still differ. -/
theorem tokens_stay_different_readFromFile :
    (startFromFile.play (reload 0 6 ⟨2, 2, 1⟩ [99])).any (fun s => s.current .read = [99]) = true ∧
      ∃ s, startFromFile.play rewritten = some s ∧ s.current .read = [99] ∧
        ((s.tokens .read).file.map (·.failure)) = some ("read: " ++ errReadIsIngest) ∧
        s.current .read ≠ s.current .ingest := by
  have hplay : (startFromFile.play rewritten).any (fun s => s.current .read = [99] ∧
      ((s.tokens .read).file.map (·.failure)) = some ("read: " ++ errReadIsIngest)) = true := by decide +kernel
  obtain ⟨s, hs, hfound⟩ := (Option.any_eq_true _ _).mp hplay
  obtain ⟨hread, hfailure⟩ := of_decide_eq_true hfound
  refine ⟨by decide +kernel, s, hs, hread, hfailure, ?_⟩
  exact tokens_stay_different newTokenSources_readFromFile (State.run_of_play hs) (show Slot.read ≠ .ingest by decide)
    (by rw [hread]; simp)

end UpgradeScope.Tokens
