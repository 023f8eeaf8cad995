import UpgradeScope.Server.ReadAccess

/-!
# Anonymous reads over whole runs

What `ReadAccess` models keeps three things in every interleaving. A closed API stays closed (`Closed`): the
configuration does not change, a read token that is set stays set because its file does not clear it, and a minted
token is remembered. A call of `readOpen` that says open knows that no token was minted a window before its request
arrived (`Asking.Knows`). And a request that passed the check of its host because the API is closed finds it closed
when it asks again (`Asking.Shut`).
-/

namespace UpgradeScope.ReadAccess

open Utf8 HostCheck

/-! ## A read token that is set stays set -/

section Tokens

open Tokens SecretFile

/-- The file of the read token does not clear its value when it is removed. -/
def Lasting (t : Tokens.State) : Prop := ∀ f, (t.tokens .read).file = some f → f.removalClears = false

variable {t : Tokens.State} {cfg : Tokens.Config}

/-- A change of a file that keeps its options and does not empty it. -/
theorem Lasting.update (h : Lasting t) (a : Slot) {g : File → File}
    (hclears : ∀ f, (g f).removalClears = f.removalClears)
    (hvalue : ∀ f, f.removalClears = false → f.value ≠ [] → (g f).value ≠ []) :
    Lasting (t.update a g) ∧ (t.current .read ≠ [] → (t.update a g).current .read ≠ []) := by
  by_cases ha : a = .read
  · subst ha
    cases hfile : (t.tokens .read).file with
    | none => simp [Lasting, Tokens.State.update, Tokens.State.current, TokenSource.current, hfile]
    | some f =>
      have hf := h f hfile
      constructor
      · intro f' hf'
        obtain rfl : g f = f' := by simpa [Tokens.State.update, hfile] using hf'
        rw [hclears, hf]
      · intro hset
        have hset' : f.value ≠ [] := by simpa [Tokens.State.current, TokenSource.current, hfile] using hset
        simpa [Tokens.State.update, Tokens.State.current, TokenSource.current, hfile] using hvalue f hf hset'
  · have hsame : (t.update a g).tokens .read = t.tokens .read := by
      simp [Tokens.State.update, Function.update_of_ne (Ne.symm ha)]
    refine ⟨fun f hf => h f (hsame ▸ hf), fun hset => ?_⟩
    simpa [Tokens.State.current, hsame] using hset

/-- A failure keeps the value and the options of a file. -/
theorem Lasting.fail (h : Lasting t) (a : Slot) (msg : File → String) :
    Lasting (t.update a fun f => f.fail (msg f)) ∧
      (t.current .read ≠ [] → (t.update a fun f => f.fail (msg f)).current .read ≠ []) :=
  h.update a (fun f => File.fail_removalClears f _) fun f _ hf => by rwa [File.fail_value]

/-- An operation of a call that follows a file. -/
theorem Lasting.move (h : Lasting t) (hapart : Apart t) {i : ℕ} {c : Tokens.Call} (hc : t.calls i = some c)
    (look : Look) :
    Lasting (t.move i c look) ∧ (t.current .read ≠ [] → (t.move i c look).current .read ≠ []) := by
  -- Only the stat, the read and the last comparison touch a file.
  have hsame : ∀ {t' : Tokens.State}, t'.tokens = t.tokens → Lasting t' ∧ (t.current .read ≠ [] → t'.current .read ≠ []) := by
    intro t' htokens
    exact ⟨fun f hf => h f (by rwa [← htokens]), fun hset => by rwa [Tokens.State.current, htokens]⟩
  cases hphase : c.phase with
  | arrived => simp only [Tokens.State.move, hphase]; exact hsame rfl
  | locking =>
    simp only [Tokens.State.move, hphase]
    split_ifs
    · exact hsame rfl
    · exact hsame rfl
  | locked => simp only [Tokens.State.move, hphase]; exact hsame rfl
  | grouping =>
    simp only [Tokens.State.move, hphase]
    split_ifs
    · exact hsame rfl
    · exact hsame rfl
  | marking => simp only [Tokens.State.move, hphase]; exact hsame rfl
  | statting =>
    simp only [Tokens.State.move, hphase]
    refine h.update c.slot (fun f => f.onStat_removalClears look.stat) fun f hf hset => ?_
    rcases f.onStat_cases look.stat with ⟨hvalue, -⟩ | ⟨-, hclears, -⟩
    · rwa [hvalue]
    · simp [hf] at hclears
  | reading st =>
    simp only [Tokens.State.move, hphase, Tokens.State.onRead]
    cases SecretFile.read (fun _ => none) look.contents with
    | error e => exact h.fail c.slot fun f => e.text f.path
    | ok v => exact hsame rfl
  | comparing st v left =>
    cases left with
    | nil =>
      simp only [Tokens.State.move, hphase]
      exact h.update c.slot (fun _ => rfl) fun _ _ _ => (hapart.compared i c st v [] hc hphase).1
    | cons o left =>
      obtain ⟨a, msg⟩ := o
      simp only [Tokens.State.move, hphase]
      split_ifs
      · exact h.fail c.slot fun f => (ReadError.refused msg).text f.path
      · exact hsame rfl
  | unlockGroup => simp only [Tokens.State.move, hphase]; exact hsame rfl
  | unlockCheck => simp only [Tokens.State.move, hphase]; exact hsame rfl
  | loading => simp only [Tokens.State.move, hphase]; exact hsame rfl
  | returned v => simp only [Tokens.State.move, hphase]; exact hsame rfl

/-- Every step keeps a read token that is set. -/
theorem Lasting.step {t t' : Tokens.State} (h : Lasting t) (hapart : Apart t) (hstep : Tokens.Step t t') :
    Lasting t' ∧ (t.current .read ≠ [] → t'.current .read ≠ []) := by
  cases hstep with
  | arrive i a now => exact ⟨h, id⟩
  | move look hc => exact h.move hapart hc look

/-- Opening a file keeps its options. -/
theorem opened_removalClears {f f' : File} {validate : Bytes → Option String} {stat : Stat} {contents : Contents}
    (h : f.opened validate stat contents = .ok f') : f'.removalClears = f.removalClears := by
  unfold File.opened at h
  split at h
  · simp at h
  · cases h
    rfl
  · exact File.onOpenRead_removalClears h

/-- The file the read token is opened from is such a file. -/
theorem lasting_openToken {look : Look} {a : Slot} {ts ts' : TokenSources} (h : openToken cfg look a ts = .ok ts')
    (hlast : ∀ f, (ts .read).file = some f → f.removalClears = false) :
    ∀ f, (ts' .read).file = some f → f.removalClears = false := by
  unfold openToken at h
  split_ifs at h with hpath
  · cases h
    exact hlast
  · split at h
    · simp at h
    · rename_i f hopened
      cases h
      intro f' hf'
      by_cases ha : a = .read
      · subst ha
        obtain rfl : f = f' := by simpa using hf'
        rw [opened_removalClears hopened]
        rfl
      · exact hlast f' (by simpa [Function.update_of_ne (Ne.symm ha)] using hf')

/-- The tokens that a server starts with last. -/
theorem Lasting.of_newTokenSources {looks : Slot → Look} {ts : TokenSources} (hnew : newTokenSources cfg looks = .ok ts)
    (interval : ℤ) (next : Slot → ℤ) :
    Lasting { tokens := ts, interval := interval, next := next } := by
  simp only [newTokenSources, bind, Except.bind] at hnew
  split at hnew
  · simp at hnew
  rename_i ts₁ h₁
  split at hnew
  · simp at hnew
  rename_i ts₂ h₂
  split at hnew
  · simp at hnew
  rename_i ts₃ h₃
  split_ifs at hnew
  obtain rfl := Except.ok.inj hnew
  exact lasting_openToken h₃ (lasting_openToken h₂ (lasting_openToken h₁ (by simp)))

end Tokens

/-! ## What holds in every state -/

/-- The API needs a credential, for good. -/
def Closed (sv : Server) (s : State) : Prop :=
  sv.requireReadCredential = true ∨ sv.trustTeamHeader ≠ "" ∨ s.tokens.current .read ≠ [] ∨ s.readTokensMinted = true

/-- What a call of `readOpen` knows, by a request that arrived when the clock read `arrived`. -/
def Asking.Knows (sv : Server) (s : State) (arrived : ℤ) : Asking → Prop
  | .listing now => arrived ≤ now ∧ now ≤ s.clock
  | .listed now found =>
    arrived ≤ now ∧ now ≤ s.clock ∧ if found then s.rows ≠ [] else ∀ row ∈ s.rows, now ≤ row.mintedAt
  | .unlocking .open | .returned .open => ∀ row ∈ s.rows, arrived < row.mintedAt + readOpenWindow
  | .unlocking .closed | .returned .closed => Closed sv s
  | _ => True

/-- A call of `readOpen` that finds the API closed, whatever it does next. -/
def Asking.Shut (sv : Server) (s : State) : Asking → Prop
  | .arrived => Closed sv s
  | .loading => s.readTokensMinted = true
  | .returned .closed => True
  | _ => False

/-- What a state that follows another keeps of it. -/
structure Later (sv : Server) (s s' : State) : Prop where
  /-- The clock does not go back. -/
  clock : s.clock ≤ s'.clock
  /-- A closed API stays closed. -/
  closed : Closed sv s → Closed sv s'
  /-- A minted token is remembered. -/
  minted : s.readTokensMinted = true → s'.readTokensMinted = true
  /-- Rows stay, ... -/
  rows : s.rows ≠ [] → s'.rows ≠ []
  /-- ... and new ones are minted now. -/
  fresh : ∀ row' ∈ s'.rows, (∃ row ∈ s.rows, row.mintedAt = row'.mintedAt) ∨ s.clock ≤ row'.mintedAt

variable {s s' : State} {sv : Server} {a : Asking}

/-- What is true of all minted tokens stays true, if it is true of the ones minted now. -/
theorem Later.forall_rows (h : Later sv s s') {p : ℤ → Prop} (hp : ∀ row ∈ s.rows, p row.mintedAt)
    (hnow : ∀ m, s.clock ≤ m → p m) : ∀ row ∈ s'.rows, p row.mintedAt := by
  intro row' hrow'
  rcases h.fresh row' hrow' with ⟨row, hrow, heq⟩ | hlater
  · rw [← heq]
    exact hp row hrow
  · exact hnow _ hlater

/-- What a call knows it knows later. -/
theorem Asking.Knows.later {arrived : ℤ} (h : a.Knows sv s arrived) (hlater : Later sv s s')
    (harrived : arrived ≤ s.clock) : a.Knows sv s' arrived := by
  have hwindow : (0 : ℤ) < readOpenWindow := by decide
  have hopen (hknown : ∀ row ∈ s.rows, arrived < row.mintedAt + readOpenWindow) :
      ∀ row ∈ s'.rows, arrived < row.mintedAt + readOpenWindow :=
    hlater.forall_rows (p := fun m => arrived < m + readOpenWindow) hknown fun m hm => by omega
  cases a with
  | listing now => exact ⟨h.1, h.2.trans hlater.clock⟩
  | listed now found =>
    obtain ⟨hlo, hhi, hfound⟩ := h
    refine ⟨hlo, hhi.trans hlater.clock, ?_⟩
    cases found with
    | true => exact hlater.rows hfound
    | false => exact hlater.forall_rows (p := fun m => now ≤ m) hfound fun m hm => hhi.trans hm
  | unlocking v =>
    cases v with
    | «open» => exact hopen h
    | closed => exact hlater.closed h
    | failed => trivial
  | returned v =>
    cases v with
    | «open» => exact hopen h
    | closed => exact hlater.closed h
    | failed => trivial
  | arrived => trivial
  | loading => trivial
  | locking => trivial
  | locked => trivial

/-- A call that finds the API closed does so later. -/
theorem Asking.Shut.later (h : a.Shut sv s) (hlater : Later sv s s') :
    a.Shut sv s' := by
  cases a with
  | arrived => exact hlater.closed h
  | loading => exact hlater.minted h
  | returned v =>
    cases v with
    | closed => trivial
    | «open» => exact h
    | failed => exact h
  | locking => exact h
  | locked => exact h
  | listing now => exact h
  | listed now found => exact h
  | unlocking v => exact h

/-- The last answer that is kept was asked for before any token was minted. -/
def Remembered (s : State) : Prop :=
  ∀ openAt, s.openSeen = some openAt → openAt ≤ s.clock ∧ ∀ row ∈ s.rows, openAt ≤ row.mintedAt

/-- What an operation of `readOpen` leaves alone. -/
structure Asked (s s' : State) : Prop where
  /-- The configured tokens. -/
  tokens : s'.tokens = s.tokens
  /-- The clock. -/
  clock : s'.clock = s.clock
  /-- The table. -/
  rows : s'.rows = s.rows
  /-- The requests. -/
  calls : s'.calls = s.calls
  /-- What is remembered of the table. -/
  minted : s.readTokensMinted = true → s'.readTokensMinted = true

/-- A state after a question to the store is later than the one before it. -/
theorem Asked.later (h : Asked s s') : Later sv s s' where
  clock := h.clock.ge
  closed hclosed := by
    unfold Closed at *
    rw [h.tokens]
    exact hclosed.imp_right fun hclosed => hclosed.imp_right fun hclosed => hclosed.imp_right h.minted
  minted := h.minted
  rows hrows := by rwa [h.rows]
  fresh row' hrow' := .inl ⟨row', by rwa [h.rows] at hrow', rfl⟩

section Ask

variable {sv : Server} {s : State} {a : Asking} {arrived : ℤ} (fails : Bool)

/-- An operation of `readOpen` changes what it is for only. -/
theorem ask_asked : Asked s (ask sv fails s a).1 := by
  have hrefl : Asked s s := ⟨rfl, rfl, rfl, rfl, id⟩
  cases a with
  | arrived => simp only [ask]; split_ifs <;> exact hrefl
  | loading => simp only [ask]; split_ifs <;> exact hrefl
  | locking =>
    simp only [ask]
    split_ifs
    · exact hrefl
    · exact ⟨rfl, rfl, rfl, rfl, id⟩
  | locked =>
    simp only [ask]
    split
    · split_ifs <;> exact hrefl
    · exact hrefl
  | listing now => simp only [ask]; split_ifs <;> exact hrefl
  | listed now found =>
    cases found with
    | true => exact ⟨rfl, rfl, rfl, rfl, fun _ => rfl⟩
    | false => exact ⟨rfl, rfl, rfl, rfl, id⟩
  | unlocking v => exact ⟨rfl, rfl, rfl, rfl, id⟩
  | returned v => exact hrefl

/-- A question to the store keeps what is remembered of the last answer right. -/
theorem ask_remembered (h : Remembered s) (hknows : a.Knows sv s arrived) : Remembered (ask sv fails s a).1 := by
  cases a with
  | arrived => simp only [ask]; split_ifs <;> exact h
  | loading => simp only [ask]; split_ifs <;> exact h
  | locking => simp only [ask]; split_ifs <;> exact h
  | locked =>
    simp only [ask]
    split
    · split_ifs <;> exact h
    · exact h
  | listing now => simp only [ask]; split_ifs <;> exact h
  | listed now found =>
    obtain ⟨-, hnow, hfound⟩ := hknows
    cases found with
    | true =>
      intro openAt hseen
      simp [ask] at hseen
    | false =>
      intro openAt hseen
      obtain rfl : now = openAt := by simpa [ask] using hseen
      exact ⟨hnow, hfound⟩
  | unlocking v => exact h
  | returned v => exact h

/-- A call that asks the store knows what it then says. -/
theorem ask_knows (h : Remembered s) (hknows : a.Knows sv s arrived) (harrived : arrived ≤ s.clock) :
    (ask sv fails s a).2.Knows sv (ask sv fails s a).1 arrived := by
  cases a with
  | arrived =>
    simp only [ask]
    split_ifs with hclosed
    · rcases hclosed with hrequire | htoken | htrust
      · exact .inl hrequire
      · exact .inr (.inr (.inl htoken))
      · exact .inr (.inl htrust)
    · trivial
  | loading =>
    simp only [ask]
    split_ifs with hminted
    · exact .inr (.inr (.inr hminted))
    · trivial
  | locking => simp only [ask]; split_ifs <;> trivial
  | locked =>
    simp only [ask]
    split
    · rename_i openAt hseen
      split_ifs with hfresh
      · -- A remembered answer is younger than the window, and no token was minted before it was asked for.
        intro row hrow
        have := (h openAt hseen).2 row hrow
        omega
      · exact ⟨harrived, le_rfl⟩
    · exact ⟨harrived, le_rfl⟩
  | listing now =>
    simp only [ask]
    split_ifs
    · trivial
    · refine ⟨hknows.1, hknows.2, ?_⟩
      by_cases hrows : s.rows = []
      · simp [hrows]
      · simp [hrows]
  | listed now found =>
    obtain ⟨hlo, hhi, hfound⟩ := hknows
    cases found with
    | true => exact .inr (.inr (.inr rfl))
    | false =>
      intro row hrow
      have hwindow : (0 : ℤ) < readOpenWindow := by decide
      have hminted : now ≤ row.mintedAt := hfound row hrow
      omega
  | unlocking v =>
    cases v with
    | «open» => exact hknows
    | closed => exact hknows
    | failed => trivial
  | returned v => exact hknows

/-- The read API stays closed to a call that finds it closed. -/
theorem ask_shut (h : a.Shut sv s) : (ask sv fails s a).2.Shut sv (ask sv fails s a).1 := by
  cases a with
  | arrived =>
    simp only [ask]
    split_ifs with hclosed
    · trivial
    · push Not at hclosed
      rcases h with h | h | h | h
      · exact absurd h (by simpa using hclosed.1)
      · exact absurd hclosed.2.2 h
      · exact absurd hclosed.2.1 h
      · exact h
  | loading =>
    have hminted : s.readTokensMinted = true := h
    simp only [ask, hminted, if_true]
    trivial
  | returned v => exact h
  | locking => exact h.elim
  | locked => exact h.elim
  | listing now => exact h.elim
  | listed now found => exact h.elim
  | unlocking v => exact h.elim

end Ask

/-- Whether a request has passed the check of its host. -/
def Phase.Past : Phase → Prop
  | .arrived | .guarding _ | .done .misdirected => False
  | _ => True

/-- The API is closed, and an anonymous request is not answered. -/
structure Call.Barred (sv : Server) (s : State) (c : Call) : Prop where
  /-- The API is closed, ... -/
  closed : Closed sv s
  /-- ... which the request finds when it asks, ... -/
  shut : ∀ a, c.phase = .opening a → a.Shut sv s
  /-- ... or it found it before. -/
  refused : c.req.bearerToken = [] → c.phase ≠ .done (.answered none)

/-- What is true of every request. -/
structure Call.Sound (sv : Server) (s : State) (c : Call) : Prop where
  /-- It has arrived. -/
  arrived : c.arrived ≤ s.clock
  /-- What it knows where it asks whether the API is open; it does so without a bearer only. -/
  asking : ∀ a, c.phase = .guarding a ∨ c.phase = .opening a → a.Knows sv s c.arrived ∧ c.req.bearerToken = []
  /-- It asks for its host where the guard is not on anyway. -/
  guarded : ∀ a, c.phase = .guarding a → sv.hostGuard = false
  /-- It is compared and looked up with a bearer only. -/
  bearing : c.phase = .validating ∨ (∃ read, c.phase = .comparing read) → c.req.bearerToken ≠ []
  /-- Past the check, an anonymous request for any other host is barred. -/
  barred : c.phase.Past → sv.hostAllowed c.req = false → c.req.bearerToken = [] → sv.hostGuard = false ∧ c.Barred sv s
  /-- An anonymous request gets a 401 where the API is closed. -/
  refused : c.phase = .done .unauthorized → c.req.bearerToken = [] → Closed sv s
  /-- An anonymous request that is answered names a host the server answers for, and where it is answered for the whole
  fleet, no token was minted a window before it arrived. -/
  answered : ∀ sc, c.phase = .done (.answered sc) → c.req.bearerToken = [] → sv.hostAllowed c.req = true ∧
    (sc = none → ∀ row ∈ s.rows, c.arrived < row.mintedAt + readOpenWindow)

variable {c : Call} {s s' : State} {sv : Server}

/-- A request that does not move stays barred. -/
theorem Call.Barred.later (h : c.Barred sv s) (hlater : Later sv s s') :
    c.Barred sv s' :=
  ⟨hlater.closed h.closed, fun a ha => (h.shut a ha).later hlater, h.refused⟩

/-- What is true of a request that does not move stays true. -/
theorem Call.Sound.later (h : c.Sound sv s) (hlater : Later sv s s') :
    c.Sound sv s' where
  arrived := h.arrived.trans hlater.clock
  asking a ha := ⟨(h.asking a ha).1.later hlater h.arrived, (h.asking a ha).2⟩
  guarded := h.guarded
  bearing := h.bearing
  barred hpast hhost hbearer :=
    ⟨(h.barred hpast hhost hbearer).1, (h.barred hpast hhost hbearer).2.later hlater⟩
  refused hphase hbearer := hlater.closed (h.refused hphase hbearer)
  answered sc hsc hbearer := by
    refine ⟨(h.answered sc hsc hbearer).1, fun hnone => ?_⟩
    have hwindow : (0 : ℤ) < readOpenWindow := by decide
    have harrived := h.arrived
    exact hlater.forall_rows (p := fun m => c.arrived < m + readOpenWindow) ((h.answered sc hsc hbearer).2 hnone)
      fun m hm => by omega

/-- A proxy's header is read where the guard is on only. -/
theorem Server.hostGuard_of_proxyScope {r : Request} {teams : List Bytes} (h : sv.proxyScope r = some teams) :
    sv.hostGuard = true := by
  unfold Server.proxyScope at h
  split_ifs at h with htrust
  push Not at htrust
  simp [Server.hostGuard, htrust.1]

/-- Where a request goes on to, and what the operation leaves the rest of the state as. -/
inductive Goes (sv : Server) (s : State) (fails : Bool) (c : Call) : State → Phase → Prop where
  /-- The server answers for its host. -/
  | allowed : c.phase = .arrived → sv.hostAllowed c.req = true → Goes sv s fails c s .authorizing
  /-- It does not, and the guard is on. -/
  | misdirected : c.phase = .arrived → Goes sv s fails c s (.done .misdirected)
  /-- The credential decides. -/
  | presented : c.phase = .arrived → c.req.bearerToken ≠ [] → Goes sv s fails c s .authorizing
  /-- An anonymous request for a host the server does not answer for. -/
  | guard : c.phase = .arrived → sv.hostGuard = false → c.req.bearerToken = [] → Goes sv s fails c s (.guarding .arrived)
  /-- It asks whether the API is open. -/
  | guarding {a : Asking} : c.phase = .guarding a → Goes sv s fails c (ask sv fails s a).1 (afterGuard (ask sv fails s a).2)
  /-- It presents no bearer. -/
  | anonymous : c.phase = .authorizing → c.req.bearerToken = [] → Goes sv s fails c s .proxying
  /-- It presents one, which is to be compared with the read token. -/
  | load : c.phase = .authorizing → c.req.bearerToken ≠ [] → Goes sv s fails c s (.comparing (s.tokens.current .read))
  /-- The bearer is the read token or the admin token. -/
  | equal {read : Bytes} : c.phase = .comparing read → c.req.bearerToken ≠ [] →
      c.req.bearerToken = read ∨ c.req.bearerToken = s.tokens.current .admin → Goes sv s fails c s (.done (.answered none))
  /-- It is neither. -/
  | differ {read : Bytes} : c.phase = .comparing read → Goes sv s fails c s .validating
  /-- The store fails. -/
  | invalid : c.phase = .validating → Goes sv s fails c s (.done .failed)
  /-- The bearer is a read token. -/
  | valid {row : TokenRow} : c.phase = .validating → s.validReadToken sv c.req.bearerToken = some row →
      Goes sv s fails c s (.done (.answered (scopeOfTeams row.teams)))
  /-- It is none. -/
  | unknown : c.phase = .validating → Goes sv s fails c s .proxying
  /-- A trusted proxy names its teams. -/
  | proxied {teams : List Bytes} : c.phase = .proxying → sv.proxyScope c.req = some teams →
      Goes sv s fails c s (.done (.answered (some teams)))
  /-- An unknown bearer. -/
  | unauthorized : c.phase = .proxying → c.req.bearerToken ≠ [] → Goes sv s fails c s (.done .unauthorized)
  /-- Nothing says who it is. -/
  | ask : c.phase = .proxying → c.req.bearerToken = [] → Goes sv s fails c s (.opening .arrived)
  /-- It asks whether the API is open. -/
  | opening {a : Asking} : c.phase = .opening a → Goes sv s fails c (ask sv fails s a).1 (afterOpening (ask sv fails s a).2)
  /-- It is decided. -/
  | done {o : Outcome} : c.phase = .done o → Goes sv s fails c s (.done o)

/-- Every operation of a request is one of these. -/
theorem State.move_goes (sv : Server) {i : ℕ} (fails : Bool) (hc : s.calls i = some c) :
    ∃ s₁ p, s.move sv i c fails = s₁.enter i c p ∧ Goes sv s fails c s₁ p := by
  cases hphase : c.phase with
  | arrived =>
    simp only [State.move, hphase]
    split_ifs with hhost hguard hbearer
    · exact ⟨s, _, rfl, .allowed hphase hhost⟩
    · exact ⟨s, _, rfl, .misdirected hphase⟩
    · exact ⟨s, _, rfl, .presented hphase hbearer⟩
    · exact ⟨s, _, rfl, .guard hphase (by simpa using hguard) (by simpa using hbearer)⟩
  | guarding a =>
    simp only [State.move, hphase]
    exact ⟨_, _, rfl, .guarding hphase⟩
  | authorizing =>
    simp only [State.move, hphase]
    split_ifs with hbearer
    · exact ⟨s, _, rfl, .anonymous hphase hbearer⟩
    · exact ⟨s, _, rfl, .load hphase hbearer⟩
  | comparing read =>
    simp only [State.move, hphase]
    split_ifs with hequal
    · simp only [equalToken, Bool.and_eq_true, decide_eq_true_eq] at hequal
      rcases hequal with ⟨hne, heq⟩ | ⟨hne, heq⟩
      · exact ⟨s, _, rfl, .equal hphase (heq ▸ hne) (.inl heq)⟩
      · exact ⟨s, _, rfl, .equal hphase (heq ▸ hne) (.inr heq)⟩
    · exact ⟨s, _, rfl, .differ hphase⟩
  | validating =>
    simp only [State.move, hphase]
    split_ifs
    · exact ⟨s, _, rfl, .invalid hphase⟩
    · split
      · rename_i row hrow
        exact ⟨s, _, rfl, .valid hphase hrow⟩
      · exact ⟨s, _, rfl, .unknown hphase⟩
  | proxying =>
    simp only [State.move, hphase]
    split
    · rename_i teams hteams
      exact ⟨s, _, rfl, .proxied hphase hteams⟩
    · split_ifs with hbearer
      · exact ⟨s, _, rfl, .unauthorized hphase hbearer⟩
      · exact ⟨s, _, rfl, .ask hphase (by simpa using hbearer)⟩
  | opening a =>
    simp only [State.move, hphase]
    exact ⟨_, _, rfl, .opening hphase⟩
  | done o =>
    have hsame : s.enter i c (.done o) = s := by
      unfold State.enter
      rw [← hphase, ← hc, Function.update_eq_self]
    refine ⟨s, .done o, ?_, .done hphase⟩
    rw [hsame]
    simp only [State.move, hphase]

section Moves

variable {sv : Server} {s s₁ : State} {c : Call} {fails : Bool} {p : Phase}

/-- The rest of the state is as it was but for what `readOpen` is for. -/
theorem Goes.asked (h : Goes sv s fails c s₁ p) : Asked s s₁ := by
  have hrefl : Asked s s := ⟨rfl, rfl, rfl, rfl, id⟩
  cases h with
  | guarding => exact ask_asked fails
  | opening => exact ask_asked fails
  | _ => exact hrefl

/-- A request that was refused or that the API is shut to is not answered anonymously. -/
theorem Call.Barred.goes (h : c.Barred sv s) (hsound : c.Sound sv s) (hgoes : Goes sv s fails c s₁ p) :
    Call.Barred sv s₁ { c with phase := p } where
  closed := hgoes.asked.later.closed h.closed
  shut a ha := by
    dsimp only at ha
    cases hgoes with
    | guarding hphase =>
      exfalso
      revert ha
      unfold afterGuard
      split <;> simp
    | opening hphase =>
      have hshut := ask_shut fails (h.shut _ hphase)
      revert ha hshut
      unfold afterOpening
      split
      · simp
      · simp
      · simp
      · intro ha hshut
        obtain rfl := Phase.opening.inj ha
        exact hshut
    | ask hphase hbearer =>
      obtain rfl := Phase.opening.inj ha
      exact h.closed
    | _ => simp at ha
  refused hbearer := by
    dsimp only at hbearer ⊢
    cases hgoes with
    | guarding hphase =>
      unfold afterGuard
      split <;> simp
    | opening hphase =>
      have hshut := ask_shut fails (h.shut _ hphase)
      revert hshut
      unfold afterOpening
      split
      · intro hshut
        simp_all [Asking.Shut]
      · simp
      · simp
      · simp
    | equal hphase hne => exact absurd hbearer hne
    | valid hphase hrow => exact absurd hbearer (hsound.bearing (.inl hphase))
    | done hphase => exact hphase ▸ h.refused hbearer
    | _ => simp

/-- What is true of a request stays true where it goes on. -/
theorem Call.Sound.goes (h : c.Sound sv s) (hmemory : Remembered s) (hgoes : Goes sv s fails c s₁ p) :
    Call.Sound sv s₁ { c with phase := p } where
  arrived := h.arrived.trans hgoes.asked.clock.ge
  asking a ha := by
    dsimp only at ha ⊢
    cases hgoes with
    | guard hphase hguard hbearer =>
      obtain rfl : Asking.arrived = a := by simpa using ha
      exact ⟨trivial, hbearer⟩
    | guarding hphase =>
      obtain ⟨hknows, hbearer⟩ := h.asking _ (.inl hphase)
      have hnext := ask_knows fails hmemory hknows h.arrived
      refine ⟨?_, hbearer⟩
      revert ha hnext
      unfold afterGuard
      split
      · simp
      · simp
      · intro ha hnext
        obtain rfl := by simpa using ha
        exact hnext
    | ask hphase hbearer =>
      obtain rfl : Asking.arrived = a := by simpa using ha
      exact ⟨trivial, hbearer⟩
    | opening hphase =>
      obtain ⟨hknows, hbearer⟩ := h.asking _ (.inr hphase)
      have hnext := ask_knows fails hmemory hknows h.arrived
      refine ⟨?_, hbearer⟩
      revert ha hnext
      unfold afterOpening
      split
      · simp
      · simp
      · simp
      · intro ha hnext
        obtain rfl := by simpa using ha
        exact hnext
    | _ => simp at ha
  guarded a ha := by
    dsimp only at ha
    cases hgoes with
    | guard hphase hguard hbearer => exact hguard
    | guarding hphase => exact h.guarded _ hphase
    | opening hphase =>
      revert ha
      unfold afterOpening
      split <;> simp
    | _ => simp at ha
  bearing hp := by
    dsimp only at hp ⊢
    cases hgoes with
    | load hphase hbearer => exact hbearer
    | differ hphase => exact h.bearing (.inr ⟨_, hphase⟩)
    | guarding hphase =>
      revert hp
      unfold afterGuard
      split <;> simp
    | opening hphase =>
      revert hp
      unfold afterOpening
      split <;> simp
    | _ => simp at hp
  barred hpast hhost hbearer := by
    dsimp only at hpast hhost hbearer
    by_cases hwas : c.phase.Past
    · obtain ⟨hguard, hbarred⟩ := h.barred hwas hhost hbearer
      exact ⟨hguard, hbarred.goes h hgoes⟩
    · cases hgoes with
      | allowed hphase hallowed => simp [hallowed] at hhost
      | misdirected hphase => exact hpast.elim
      | presented hphase hpresented => exact absurd hbearer hpresented
      | guard hphase hguard => exact hpast.elim
      | guarding hphase =>
        have hnext := ask_knows fails hmemory (h.asking _ (.inl hphase)).1 h.arrived
        refine ⟨h.guarded _ hphase, ?_⟩
        revert hpast hnext
        unfold afterGuard
        split
        · rename_i hreturned
          intro _ hnext
          rw [hreturned] at hnext
          exact ⟨hnext, by simp, by simp⟩
        · exact fun hpast => hpast.elim
        · exact fun hpast => hpast.elim
      | done hphase => exact absurd (hphase ▸ hpast) hwas
      | anonymous hphase => simp [hphase, Phase.Past] at hwas
      | load hphase => simp [hphase, Phase.Past] at hwas
      | equal hphase => simp [hphase, Phase.Past] at hwas
      | differ hphase => simp [hphase, Phase.Past] at hwas
      | invalid hphase => simp [hphase, Phase.Past] at hwas
      | valid hphase => simp [hphase, Phase.Past] at hwas
      | unknown hphase => simp [hphase, Phase.Past] at hwas
      | proxied hphase => simp [hphase, Phase.Past] at hwas
      | unauthorized hphase => simp [hphase, Phase.Past] at hwas
      | ask hphase => simp [hphase, Phase.Past] at hwas
      | opening hphase => simp [hphase, Phase.Past] at hwas
  refused hp hbearer := by
    dsimp only at hp hbearer
    cases hgoes with
    | unauthorized hphase hne => exact absurd hbearer hne
    | @opening a hphase =>
      have hnext := ask_knows fails hmemory (h.asking _ (.inr hphase)).1 h.arrived
      revert hp hnext
      unfold afterOpening
      split
      · simp
      · rename_i hreturned
        intro _ hnext
        rw [hreturned] at hnext
        exact hnext
      · simp
      · simp
    | done hphase => exact h.refused (hphase.trans hp) hbearer
    | guarding hphase =>
      revert hp
      unfold afterGuard
      split <;> simp
    | _ => simp at hp
  answered sc hsc hbearer := by
    dsimp only at hsc hbearer ⊢
    have hwhere (hpast : c.phase.Past) (hanswer : sv.hostGuard = true ∨ p = .done (.answered none)) :
        sv.hostAllowed c.req = true := by
      by_contra hhost
      obtain ⟨hguard, hbarred⟩ := h.barred hpast (by simpa using hhost) hbearer
      rcases hanswer with hon | hp
      · simp [hguard] at hon
      · exact (hbarred.goes h hgoes).refused hbearer hp
    cases hgoes with
    | equal hphase hne => exact absurd hbearer hne
    | valid hphase => exact absurd hbearer (h.bearing (.inl hphase))
    | proxied hphase hteams =>
      refine ⟨hwhere (hphase ▸ trivial) (.inl (Server.hostGuard_of_proxyScope hteams)), fun hnone => ?_⟩
      subst hnone
      simp at hsc
    | @opening a hphase =>
      have hnext := ask_knows fails hmemory (h.asking _ (.inr hphase)).1 h.arrived
      have hopen : sc = none ∧ ∀ row ∈ (ask sv fails s a).1.rows, c.arrived < row.mintedAt + readOpenWindow := by
        revert hsc hnext
        unfold afterOpening
        split
        · rename_i hreturned
          intro hsc hnext
          rw [hreturned] at hnext
          exact ⟨by simpa using hsc.symm, hnext⟩
        · simp
        · simp
        · simp
      obtain ⟨rfl, hrows⟩ := hopen
      exact ⟨hwhere (hphase ▸ trivial) (.inr hsc), fun _ => hrows⟩
    | done hphase => exact h.answered sc (hphase.trans hsc) hbearer
    | guarding hphase =>
      revert hsc
      unfold afterGuard
      split <;> simp
    | _ => simp at hsc

end Moves

/-- What holds in every state of a run. -/
structure Sound (sv : Server) (s : State) : Prop where
  /-- The configured tokens stay apart, ... -/
  apart : Tokens.Apart s.tokens
  /-- ... and the read token stays set. -/
  lasting : Lasting s.tokens
  /-- The last answer is right. -/
  remembered : Remembered s
  /-- So is every request. -/
  calls : ∀ i c, s.calls i = some c → c.Sound sv s

/-- A revocation leaves every row when it was minted. -/
theorem mem_modify_revoke {rows : List TokenRow} {k : ℕ} {now : ℤ} {row' : TokenRow}
    (h : row' ∈ rows.modify k (TokenRow.revoke now)) : ∃ row ∈ rows, row' = row ∨ row' = row.revoke now := by
  induction rows generalizing k with
  | nil => simp at h
  | cons row rows ih =>
    cases k with
    | zero =>
      rw [List.modify_zero_cons, List.mem_cons] at h
      rcases h with h | h
      · exact ⟨row, List.mem_cons_self, .inr h⟩
      · exact ⟨row', List.mem_cons_of_mem _ h, .inl rfl⟩
    | succ k =>
      rw [List.modify_succ_cons, List.mem_cons] at h
      rcases h with h | h
      · exact ⟨row, List.mem_cons_self, .inl h⟩
      · obtain ⟨row₀, hrow₀, hor⟩ := ih h
        exact ⟨row₀, List.mem_cons_of_mem _ hrow₀, hor⟩

@[simp] theorem TokenRow.revoke_mintedAt (now : ℤ) (row : TokenRow) : (row.revoke now).mintedAt = row.mintedAt := by
  unfold TokenRow.revoke
  split_ifs <;> rfl

/-- Every step is followed by a later state. -/
theorem Step.later {sv : Server} {s s' : State} (h : Sound sv s) (hstep : Step sv s s') : Later sv s s' := by
  cases hstep with
  | @tokens t ht =>
    refine ⟨le_rfl, fun hclosed => ?_, id, id, fun row hrow => .inl ⟨row, hrow, rfl⟩⟩
    exact hclosed.imp_right fun hclosed => hclosed.imp_right fun hclosed =>
      hclosed.imp_left (h.lasting.step h.apart ht).2
  | tick d => exact ⟨by simp, id, id, id, fun row hrow => .inl ⟨row, hrow, rfl⟩⟩
  | mint tokenHash teams =>
    refine ⟨le_rfl, id, id, fun _ => by simp, fun row hrow => ?_⟩
    rcases List.mem_append.mp hrow with hrow | hrow
    · exact .inl ⟨row, hrow, rfl⟩
    · obtain rfl := List.mem_singleton.mp hrow
      exact .inr le_rfl
  | revoke k =>
    refine ⟨le_rfl, id, id, fun hrows => ?_, fun row hrow => ?_⟩
    · simpa [← List.length_pos_iff] using hrows
    · obtain ⟨row₀, hrow₀, rfl | rfl⟩ := mem_modify_revoke hrow
      · exact .inl ⟨row, hrow₀, rfl⟩
      · exact .inl ⟨row₀, hrow₀, by simp⟩
  | arrive i r hnone => exact ⟨le_rfl, id, id, id, fun row hrow => .inl ⟨row, hrow, rfl⟩⟩
  | move fails hc =>
    obtain ⟨s₁, p, heq, hgoes⟩ := s.move_goes sv fails hc
    rw [heq]
    have hlater : Later sv s s₁ := hgoes.asked.later
    exact ⟨hlater.clock, hlater.closed, hlater.minted, hlater.rows, hlater.fresh⟩

/-- Every step keeps a sound state sound. -/
theorem Sound.step {sv : Server} {s s' : State} (h : Sound sv s) (hstep : Step sv s s') : Sound sv s' := by
  have hlater := Step.later h hstep
  have hcalls (hsame : s'.calls = s.calls) : ∀ i c, s'.calls i = some c → c.Sound sv s' :=
    fun i c hc => (h.calls i c (hsame ▸ hc)).later hlater
  have hremembered (hseen : s'.openSeen = s.openSeen) : Remembered s' := by
    intro openAt hopen
    obtain ⟨hclock, hrows⟩ := h.remembered openAt (hseen ▸ hopen)
    exact ⟨hclock.trans hlater.clock, hlater.forall_rows (p := fun m => openAt ≤ m) hrows fun m hm => hclock.trans hm⟩
  cases hstep with
  | tokens ht => exact ⟨h.apart.step ht, (h.lasting.step h.apart ht).1, hremembered rfl, hcalls rfl⟩
  | tick d => exact ⟨h.apart, h.lasting, hremembered rfl, hcalls rfl⟩
  | mint tokenHash teams => exact ⟨h.apart, h.lasting, hremembered rfl, hcalls rfl⟩
  | revoke k => exact ⟨h.apart, h.lasting, hremembered rfl, hcalls rfl⟩
  | arrive i r hnone =>
    refine ⟨h.apart, h.lasting, hremembered rfl, fun j c hc => ?_⟩
    by_cases hji : j = i
    · subst hji
      obtain rfl : { req := r, arrived := s.clock } = c := by simpa using hc
      exact ⟨le_rfl, by simp, by simp, by simp, fun hpast => hpast.elim, by simp, by simp⟩
    · exact (h.calls j c (by simpa [hji] using hc)).later hlater
  | @move i c fails hc =>
    obtain ⟨s₁, p, heq, hgoes⟩ := s.move_goes sv fails hc
    have hasked := hgoes.asked
    have hmemory : Remembered s₁ := by
      cases hgoes with
      | guarding hphase => exact ask_remembered fails h.remembered ((h.calls i c hc).asking _ (.inl hphase)).1
      | opening hphase => exact ask_remembered fails h.remembered ((h.calls i c hc).asking _ (.inr hphase)).1
      | _ => exact h.remembered
    have hown := (h.calls i c hc).goes h.remembered hgoes
    rw [heq]
    refine ⟨?_, ?_, hmemory, fun j d hd => ?_⟩
    · simpa [State.enter, hasked.tokens] using h.apart
    · simpa [State.enter, hasked.tokens] using h.lasting
    · have hsame : Later sv s₁ (s₁.enter i c p) := ⟨le_rfl, id, id, id, fun row hrow => .inl ⟨row, hrow, rfl⟩⟩
      by_cases hji : j = i
      · subst hji
        obtain rfl : { c with phase := p } = d := by simpa [State.enter] using hd
        exact hown.later hsame
      · have hd' : s.calls j = some d := by simpa [State.enter, hji, hasked.calls] using hd
        exact ((h.calls j d hd').later hasked.later).later hsame

/-! ## Runs -/

/-- The server that `New` makes of its tokens, with the database as it finds it. -/
def new (ts : Tokens.TokenSources) (interval : ℤ) (next : Tokens.Slot → ℤ) (clock : ℤ) (rows : List TokenRow) : State :=
  { tokens := { tokens := ts, interval := interval, next := next }, clock := clock, rows := rows }

/-- The states of a server that `Start` lets serve. -/
def Serves (sv : Server) (s₀ s : State) : Prop :=
  ∃ fails s₁, start sv fails s₀ = some s₁ ∧ Relation.ReflTransGen (Step sv) s₁ s

section Start

variable {sv : Server} {s s' : State} {fails : Bool}

/-- What `readOpen` leaves when it is alone. -/
theorem readOpen_spec (h : Sound sv s) (fails : Bool) :
    Asked s (readOpen sv fails s).1 ∧ Sound sv (readOpen sv fails s).1 ∧
      (readOpen sv fails s).2.Knows sv (readOpen sv fails s).1 s.clock := by
  have hstep : ∀ p : State × Asking, (Asked s p.1 ∧ Sound sv p.1 ∧ p.2.Knows sv p.1 s.clock) →
      Asked s (ask sv fails p.1 p.2).1 ∧ Sound sv (ask sv fails p.1 p.2).1 ∧
        (ask sv fails p.1 p.2).2.Knows sv (ask sv fails p.1 p.2).1 s.clock := by
    rintro ⟨s₁, a⟩ ⟨hasked, hsound, hknows⟩
    have hnext : Asked s₁ (ask sv fails s₁ a).1 := ask_asked fails
    refine ⟨⟨hnext.tokens.trans hasked.tokens, hnext.clock.trans hasked.clock, hnext.rows.trans hasked.rows,
      hnext.calls.trans hasked.calls, fun hminted => hnext.minted (hasked.minted hminted)⟩, ?_,
      ask_knows fails hsound.remembered hknows hasked.clock.ge⟩
    refine ⟨by simpa [hnext.tokens] using hsound.apart, by simpa [hnext.tokens] using hsound.lasting,
      ask_remembered fails hsound.remembered hknows, fun i c hc => ?_⟩
    exact (hsound.calls i c (by simpa [hnext.calls] using hc)).later hnext.later
  have hfirst : Asked s (s, Asking.arrived).1 ∧ Sound sv (s, Asking.arrived).1 ∧
      (s, Asking.arrived).2.Knows sv (s, Asking.arrived).1 s.clock :=
    ⟨⟨rfl, rfl, rfl, rfl, id⟩, h, trivial⟩
  exact Function.Iterate.rec (fun p : State × Asking => Asked s p.1 ∧ Sound sv p.1 ∧ p.2.Knows sv p.1 s.clock)
    hfirst hstep 7

/-- `Start` serves an open API on loopback only, unless that was asked for. -/
theorem start_spec (h : Sound sv s) (hstart : start sv fails s = some s') :
    Asked s s' ∧ Sound sv s' ∧ (sv.allowAnonymousRead = false → sv.loopback = false → Closed sv s') := by
  unfold start at hstart
  split_ifs at hstart with hexposed
  · obtain ⟨hasked, hsound, hknows⟩ := readOpen_spec h fails
    split at hstart
    · rename_i s₁ heq
      rw [heq] at hasked hsound hknows
      cases hstart
      exact ⟨hasked, hsound, fun _ _ => hknows⟩
    · simp at hstart
  · cases hstart
    exact ⟨⟨rfl, rfl, rfl, rfl, id⟩, h, fun hallow hloop => absurd ⟨hallow, hloop⟩ hexposed⟩

end Start

/-! ## Runs that are executed -/

/-- Some operations of one request, none of which fails. -/
def State.moves (sv : Server) (i : ℕ) : ℕ → State → State
  | 0, s => s
  | n + 1, s =>
    match s.calls i with
    | none => s
    | some c => State.moves sv i n (s.move sv i c false)

/-- The operations of one request, none of which fails, are a run. -/
theorem run_moves (sv : Server) (i n : ℕ) (s : State) : Relation.ReflTransGen (Step sv) s (s.moves sv i n) := by
  induction n generalizing s with
  | zero => exact .refl
  | succ n ih =>
    unfold State.moves
    cases hc : s.calls i with
    | none => exact .refl
    | some c => exact .head (.move false hc) (ih _)

/-- A request arrives and goes on. -/
def State.serve (sv : Server) (i n : ℕ) (r : Request) (s : State) : State :=
  State.moves sv i n { s with calls := Function.update s.calls i (some { req := r, arrived := s.clock }) }

/-- Serving a request is a run. -/
theorem run_serve (sv : Server) (i n : ℕ) (r : Request) {s : State} (h : s.calls i = none) :
    Relation.ReflTransGen (Step sv) s (s.serve sv i n r) :=
  .head (.arrive i r h) (run_moves sv i n _)

/-- A server without a configured token. -/
def noTokens : Tokens.Config where
  token _ := []
  tokenFile _ := ""

/-- The tokens in service of a server that is configured with none. -/
def unset : Tokens.TokenSources := fun _ => { fixed := [] }

theorem newTokenSources_noTokens : Tokens.newTokenSources noTokens (fun _ => ⟨.notExist, .raw []⟩) = .ok unset := rfl

/-- A server on loopback. -/
def onLoopback : Server where
  net := noAddrs
  hashToken := id
  loopback := true

/-- A server on another address. -/
def onNetwork : Server := { onLoopback with loopback := false }

/-- A database with a token "b" of team "a" that was minted when the clock read 0. -/
def minted : State :=
  new unset 0 (fun _ => 0) (2 * readOpenWindow) [{ tokenHash := [98], teams := [[97]], mintedAt := 0 }]

/-- A database without a token. -/
def unminted : State := new unset 0 (fun _ => 0) 0 []

/-- An anonymous request for localhost. -/
def atLocalhost : Request := { host := localhost }

/-- An anonymous request that was refused for want of a credential. -/
def refused : Call := { req := atLocalhost, arrived := 2 * readOpenWindow, phase := .done .unauthorized }

section Runs

variable {cfg : Tokens.Config} {looks : Tokens.Slot → Tokens.Look} {ts : Tokens.TokenSources} {interval : ℤ}
  {next : Tokens.Slot → ℤ} {clock : ℤ} {rows : List TokenRow} {sv : Server} {s s' : State} {i : ℕ} {c : Call}

/-- A new server is sound. -/
theorem sound_new (hnew : Tokens.newTokenSources cfg looks = .ok ts) : Sound sv (new ts interval next clock rows) where
  apart := Tokens.Apart.of_run hnew .refl
  lasting := Lasting.of_newTokenSources hnew interval next
  remembered := by simp [Remembered, new]
  calls := by simp [new]

/-- Every state that a run of a server reaches is sound. -/
theorem sound_of_serves (hnew : Tokens.newTokenSources cfg looks = .ok ts)
    (hrun : Serves sv (new ts interval next clock rows) s) : Sound sv s := by
  obtain ⟨fails, s₁, hstart, hrun⟩ := hrun
  exact Runs.of_run hrun (start_spec (sound_new hnew) hstart).2.1 Sound.step

/-- A request that is barred stays barred, and one that arrives at a closed API is. -/
theorem barred_step (hsound : Sound sv s) (hclosed : Closed sv s) (hbarred : ∀ c, s.calls i = some c → c.Barred sv s)
    (hstep : Step sv s s') : ∀ c, s'.calls i = some c → c.Barred sv s' := by
  have hlater := Step.later hsound hstep
  have hcalls (hsame : s'.calls = s.calls) : ∀ c, s'.calls i = some c → c.Barred sv s' :=
    fun c hc => (hbarred c (hsame ▸ hc)).later hlater
  cases hstep with
  | tokens ht => exact hcalls rfl
  | tick d => exact hcalls rfl
  | mint tokenHash teams => exact hcalls rfl
  | revoke k => exact hcalls rfl
  | arrive j r hnone =>
    intro c hc
    by_cases hij : i = j
    · subst hij
      obtain rfl : { req := r, arrived := s.clock } = c := by simpa using hc
      exact ⟨hlater.closed hclosed, by simp, by simp⟩
    · exact (hbarred c (by simpa [hij] using hc)).later hlater
  | @move j d fails hd =>
    obtain ⟨s₁, p, heq, hgoes⟩ := s.move_goes sv fails hd
    rw [heq]
    intro c hc
    have hsame : Later sv s₁ (s₁.enter j d p) := ⟨le_rfl, id, id, id, fun row hrow => .inl ⟨row, hrow, rfl⟩⟩
    by_cases hij : i = j
    · subst hij
      obtain rfl : { d with phase := p } = c := by simpa [State.enter] using hc
      exact ((hbarred d hd).goes (hsound.calls i d hd) hgoes).later hsame
    · have hc' : s.calls i = some c := by simpa [State.enter, hij, hgoes.asked.calls] using hc
      exact ((hbarred c hc').later hgoes.asked.later).later hsame

/-- A request that arrives after the API was closed is barred. -/
theorem barred_of_run (hsound : Sound sv s) (hclosed : Closed sv s) (hnone : s.calls i = none)
    (hrun : Relation.ReflTransGen (Step sv) s s') (hc : s'.calls i = some c) : c.Barred sv s' := by
  have hinv : Sound sv s' ∧ Closed sv s' ∧ ∀ c, s'.calls i = some c → c.Barred sv s' := by
    refine Runs.of_run (I := fun s' => Sound sv s' ∧ Closed sv s' ∧ ∀ c, s'.calls i = some c → c.Barred sv s') hrun
      ⟨hsound, hclosed, by simp [hnone]⟩ ?_
    rintro s₁ s₂ ⟨hsound, hclosed, hbarred⟩ hstep
    exact ⟨hsound.step hstep, (Step.later hsound hstep).closed hclosed, barred_step hsound hclosed hbarred hstep⟩
  exact hinv.2.2 c hc

/-- The anonymous reads end with the first read token: whatever the requests, the reloads of the tokens, the mints and
the failures of the store interleave to, a request without a bearer that arrives a second after a read token was minted
is not answered for the whole fleet, also when the token was revoked meanwhile. -/
theorem anonymous_reads_end_within_the_window (hnew : Tokens.newTokenSources cfg looks = .ok ts)
    (hrun : Serves sv (new ts interval next clock rows) s) (hc : s.calls i = some c) (hbearer : c.req.bearerToken = [])
    {row : TokenRow} (hrow : row ∈ s.rows) (hlate : row.mintedAt + readOpenWindow ≤ c.arrived) :
    c.phase ≠ .done (.answered none) := by
  intro hphase
  have hbefore := (((sound_of_serves hnew hrun).calls i c hc).answered none hphase hbearer).2 rfl row hrow
  omega

/-- No request changes the table. -/
theorem minted_mem : { tokenHash := [98], teams := [[97]], mintedAt := 0 } ∈
    (minted.serve onLoopback 0 10 atLocalhost).rows :=
  List.mem_cons_self

/-- Two windows after a token was minted. -/
theorem anonymous_reads_end_within_the_window_minted :
    (minted.serve onLoopback 0 10 atLocalhost).calls 0 = some refused ∧ refused.phase ≠ .done (.answered none) :=
  ⟨rfl, anonymous_reads_end_within_the_window newTokenSources_noTokens
    ⟨false, minted, rfl, run_serve onLoopback 0 10 atLocalhost rfl⟩ (i := 0) (c := refused) rfl rfl
    minted_mem (by decide)⟩

/-- No anonymous request is answered with data under a name the server does not answer for: neither for the whole fleet
nor for a proxy's teams, although the host and the scope ask separately whether the API is open, and it may close, the
tokens may be reloaded and the store may fail between the two. -/
theorem rebound_requests_are_never_answered (hnew : Tokens.newTokenSources cfg looks = .ok ts)
    (hrun : Serves sv (new ts interval next clock rows) s) (hc : s.calls i = some c) (hbearer : c.req.bearerToken = [])
    (hhost : sv.hostAllowed c.req = false) (sc : Scope) : c.phase ≠ .done (.answered sc) := by
  intro hphase
  have hallowed := (((sound_of_serves hnew hrun).calls i c hc).answered sc hphase hbearer).1
  simp [hhost] at hallowed

/-- A server with an open API. -/
def openToAll : Server := { onNetwork with allowAnonymousRead := true }

/-- A request for the host "x" that was refused with 421. -/
def misdirected : Call := { req := { host := [0x78] }, arrived := 0, phase := .done .misdirected }

/-- A request for the host "x" is refused by a server that is open to all. -/
theorem rebound_requests_are_never_answered_x :
    (unminted.serve openToAll 0 10 { host := [0x78] }).calls 0 = some misdirected ∧
      ∀ sc, misdirected.phase ≠ .done (.answered sc) :=
  ⟨rfl, rebound_requests_are_never_answered newTokenSources_noTokens
    ⟨false, unminted, rfl, run_serve openToAll 0 10 { host := [0x78] } rfl⟩ (i := 0) (c := misdirected) rfl rfl (by decide)⟩

/-- Once an anonymous request is refused for want of a credential, every later one is: no run reopens the API, whether
tokens are revoked, reloaded or their files removed, and whatever was remembered of it. -/
theorem refused_reads_stay_refused (hnew : Tokens.newTokenSources cfg looks = .ok ts)
    (hrun : Serves sv (new ts interval next clock rows) s) {j : ℕ} {d : Call} (hd : s.calls j = some d)
    (hrefused : d.phase = .done .unauthorized) (hd' : d.req.bearerToken = []) (hnone : s.calls i = none)
    (hlater : Relation.ReflTransGen (Step sv) s s') (hc : s'.calls i = some c) (hbearer : c.req.bearerToken = []) :
    c.phase ≠ .done (.answered none) := by
  have hsound := sound_of_serves hnew hrun
  have hclosed := (hsound.calls j d hd).refused hrefused hd'
  exact (barred_of_run hsound hclosed hnone hlater hc).refused hbearer

/-- Two anonymous requests, one after the other, are refused. -/
theorem refused_reads_stay_refused_minted :
    ((minted.serve onLoopback 0 10 atLocalhost).serve onLoopback 1 10 atLocalhost).calls 1 = some refused ∧
      refused.phase ≠ .done (.answered none) :=
  ⟨rfl, refused_reads_stay_refused newTokenSources_noTokens
    ⟨false, minted, rfl, run_serve onLoopback 0 10 atLocalhost rfl⟩ (j := 0) (d := refused) rfl rfl rfl (i := 1) rfl
    (run_serve onLoopback 1 10 atLocalhost rfl) (c := refused) rfl rfl⟩

/-- A server that is reachable from elsewhere never answers an anonymous request for the whole fleet, unless that was
asked for: `Start` checks the address it bound and the table once, and that is enough for the whole run. -/
theorem exposed_reads_need_a_credential (hnew : Tokens.newTokenSources cfg looks = .ok ts)
    (hrun : Serves sv (new ts interval next clock rows) s) (hallow : sv.allowAnonymousRead = false)
    (hloopback : sv.loopback = false) (hc : s.calls i = some c) (hbearer : c.req.bearerToken = []) :
    c.phase ≠ .done (.answered none) := by
  obtain ⟨fails, s₁, hstart, hrun⟩ := hrun
  obtain ⟨hasked, hsound, hclosed⟩ := start_spec (sound_new hnew) hstart
  have hnone : s₁.calls i = none := by rw [hasked.calls]; rfl
  exact (barred_of_run hsound (hclosed hallow hloopback) hnone hrun hc).refused hbearer

/-- The state in which a server starts whose store has a minted token. -/
def started : State := { minted with readTokensMinted := true }

theorem start_minted : start onNetwork false minted = some started := rfl

/-- A server on the network whose store has a minted token refuses an anonymous request. -/
theorem exposed_reads_need_a_credential_minted :
    (started.serve onNetwork 0 10 atLocalhost).calls 0 = some refused ∧ refused.phase ≠ .done (.answered none) :=
  ⟨rfl, exposed_reads_need_a_credential newTokenSources_noTokens
    ⟨false, started, start_minted, run_serve onNetwork 0 10 atLocalhost rfl⟩ rfl rfl (i := 0) (c := refused) rfl rfl⟩

end Runs

end UpgradeScope.ReadAccess
