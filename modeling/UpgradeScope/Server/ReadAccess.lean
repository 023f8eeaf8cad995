import UpgradeScope.Server.Tokens
import UpgradeScope.Server.HostCheck
import UpgradeScope.Server.TeamLists

/-!
# Who may read

`internal/server/scope.go` and `hostcheck.go`: a read is answered for the whole fleet or for some teams, by the
credential it presents, by the team header of a trusted proxy, or because the read API is open. The API is open while no
read token was ever minted, which the server remembers for a second at a time; a request for a host the server does not
answer for is refused before, when no credential protects the answer.

None of this is one atomic step. The check of the host and the scope each ask whether the API is open, the tokens are
followed while requests are decided, and other processes mint and revoke read tokens in the same database. A run is any
interleaving of all of these, one operation at a time, with whatever queries fail.
-/

namespace UpgradeScope.ReadAccess

open Utf8 HostCheck

/-! ## Scopes and credentials -/

/-- `readScope`: the teams of a read, `none` for the whole fleet. -/
abbrev Scope := Option (List Bytes)

/-- `store.ReadScopeFleet`. -/
def readScopeFleet : Bytes := [0x2a]

/-- `scopeOfTeams`. -/
def scopeOfTeams (teams : List Bytes) : Scope :=
  if teams.contains readScopeFleet then none else some (teams.filter fun t => t ≠ []).dedup

/-- A row of the `read_tokens` table. -/
structure TokenRow where
  /-- The hash of the token. -/
  tokenHash : Bytes
  /-- Its teams. -/
  teams : List Bytes
  /-- When it was minted, by the server's clock. -/
  mintedAt : ℤ
  /-- When it was revoked, by the same clock. -/
  revokedAt : Option ℤ := none

/-- What of the configuration and of the listener the reads depend on. -/
structure Server where
  /-- `netip`. -/
  net : Net
  /-- `store.HashToken`. -/
  hashToken : Bytes → Bytes
  /-- `Config.RequireReadCredential`. -/
  requireReadCredential : Bool := false
  /-- `Config.AllowAnonymousRead`. -/
  allowAnonymousRead : Bool := false
  /-- `Config.TrustTeamHeader`, "" for none. -/
  trustTeamHeader : String := ""
  /-- `Config.TrustedProxies`. -/
  trustedProxies : List Subnet := []
  /-- The hosts the server answers for besides loopback. -/
  allowedHosts : List Bytes := []
  /-- Whether the address it is bound to is loopback. -/
  loopback : Bool

/-- `hostGuardActive`, as `New` and `Start` set it. -/
def Server.hostGuard (sv : Server) : Bool := sv.trustTeamHeader ≠ "" || sv.loopback

/-- A read request. -/
structure Request where
  /-- The Authorization header. -/
  authorization : Bytes := []
  /-- The Host. -/
  host : Bytes
  /-- The address of the peer, if it can be read. -/
  remoteAddr : Option Addr := none
  /-- The address the request arrived on. -/
  localAddr : Option Addr := none
  /-- The values of the team header. -/
  teamHeader : List Bytes := []

/-- "bearer " in lower case. -/
def bearerPrefix : Bytes := [0x62, 0x65, 0x61, 0x72, 0x65, 0x72, 0x20]

/-- `bearerToken`. -/
def Request.bearerToken (r : Request) : Bytes :=
  if r.authorization.length ≤ bearerPrefix.length ∨ (r.authorization.take bearerPrefix.length).map HostCheck.lowerByte ≠ bearerPrefix
  then [] else r.authorization.drop bearerPrefix.length

/-- `equalToken`. -/
def equalToken (presented configured : Bytes) : Bool := configured ≠ [] && presented = configured

/-- `trustedPeer`. -/
def Server.trustedPeer (sv : Server) (r : Request) : Bool :=
  match r.remoteAddr with
  | none => false
  | some a => sv.trustedProxies.any fun p => p.contains a.unmap

/-- `proxyScope`: the teams of the header, never the whole fleet. -/
def Server.proxyScope (sv : Server) (r : Request) : Option (List Bytes) :=
  if sv.trustTeamHeader = "" ∨ sv.trustedPeer r = false then none
  else
    let teams := r.teamHeader.flatMap TeamLists.decodeTeams
    if teams = [] then none else some teams.dedup

/-- `hostAllowed`. -/
def Server.hostAllowed (sv : Server) (r : Request) : Bool :=
  HostCheck.hostAllowed sv.net sv.allowedHosts r.host r.localAddr

/-- `readOpenWindow`, a second in nanoseconds. -/
def readOpenWindow : ℤ := 1000000000

/-! ## The operations -/

/-- What `readOpen` returns. -/
inductive Verdict where
  /-- The API is open. -/
  | «open»
  /-- It needs a credential. -/
  | closed
  /-- The store could not say. -/
  | failed
  deriving DecidableEq

/-- Where a call of `readOpen` is. -/
inductive Asking where
  /-- It is to look at the configuration and the read token. -/
  | arrived
  /-- It is to load `readTokensMinted`. -/
  | loading
  /-- It is to lock. -/
  | locking
  /-- It is to read the clock and look at the last answer. -/
  | locked
  /-- It is to list the read tokens. -/
  | listing (now : ℤ)
  /-- It is to keep what the list said. -/
  | listed (now : ℤ) (found : Bool)
  /-- It is to unlock. -/
  | unlocking (v : Verdict)
  /-- It returned. -/
  | returned (v : Verdict)

/-- What a request is answered with. -/
inductive Outcome where
  /-- 421. -/
  | misdirected
  /-- 401. -/
  | unauthorized
  /-- 500. -/
  | failed
  /-- The handler runs, for a scope. -/
  | answered (sc : Scope)

/-- Where a request is. -/
inductive Phase where
  /-- `checkHost` is to look at its Host. -/
  | arrived
  /-- `hostRefused` asks whether the API is open. -/
  | guarding (a : Asking)
  /-- `readScope` is to load the read token. -/
  | authorizing
  /-- It is to load the admin token and to compare both. -/
  | comparing (read : Bytes)
  /-- It is to look the bearer up in the store. -/
  | validating
  /-- It is to look at the proxy's header. -/
  | proxying
  /-- It asks whether the API is open. -/
  | opening (a : Asking)
  /-- It is decided. -/
  | done (o : Outcome)

/-- A request that is being served. -/
structure Call where
  /-- The request. -/
  req : Request
  /-- When it arrived. -/
  arrived : ℤ
  /-- Where it is. -/
  phase : Phase := .arrived

/-- The server and the database. -/
structure State where
  /-- The configured tokens, and the calls that follow their files. -/
  tokens : Tokens.State
  /-- `openClock`. -/
  clock : ℤ
  /-- The `read_tokens` table. -/
  rows : List TokenRow
  /-- `readTokensMinted`. -/
  readTokensMinted : Bool := false
  /-- Whether `openMu` is locked. -/
  openMu : Bool := false
  /-- `openAt`, where `openSeen`. -/
  openSeen : Option ℤ := none
  /-- The readings of the clock at which a list without any token was kept, newest first. -/
  kept : List ℤ := []
  /-- The requests so far. -/
  calls : ℕ → Option Call := fun _ => none

/-- One operation of `readOpen`, where a query of the store may fail. -/
def ask (sv : Server) (fails : Bool) (s : State) : Asking → State × Asking
  | .arrived =>
    if sv.requireReadCredential ∨ s.tokens.current .read ≠ [] ∨ sv.trustTeamHeader ≠ "" then (s, .returned .closed)
    else (s, .loading)
  | .loading => if s.readTokensMinted then (s, .returned .closed) else (s, .locking)
  | .locking => if s.openMu then (s, .locking) else ({ s with openMu := true }, .locked)
  | .locked =>
    match s.openSeen with
    | some openAt =>
      if 0 ≤ s.clock - openAt ∧ s.clock - openAt < readOpenWindow then (s, .unlocking .open) else (s, .listing s.clock)
    | none => (s, .listing s.clock)
  | .listing now => if fails then (s, .unlocking .failed) else (s, .listed now (s.rows ≠ []))
  | .listed _ true => ({ s with readTokensMinted := true, openSeen := none }, .unlocking .closed)
  | .listed now false => ({ s with openSeen := some now, kept := now :: s.kept }, .unlocking .open)
  | .unlocking v => ({ s with openMu := false }, .returned v)
  | .returned v => (s, .returned v)

/-- Call `i` goes on to a phase. -/
def State.enter (s : State) (i : ℕ) (c : Call) (p : Phase) : State :=
  { s with calls := Function.update s.calls i (some { c with phase := p }) }

/-- What a request that asked for the host is to do next. -/
def afterGuard : Asking → Phase
  | .returned .closed => .authorizing
  | .returned _ => .done .misdirected
  | a => .guarding a

/-- What a request that asked for its scope is to do next. -/
def afterOpening : Asking → Phase
  | .returned .open => .done (.answered none)
  | .returned .closed => .done .unauthorized
  | .returned .failed => .done .failed
  | a => .opening a

/-- The row of a bearer that was not revoked. -/
def State.validReadToken (s : State) (sv : Server) (token : Bytes) : Option TokenRow :=
  s.rows.find? fun row => row.tokenHash = sv.hashToken token ∧ row.revokedAt = none

/-- The next operation of a request. -/
def State.move (sv : Server) (s : State) (i : ℕ) (c : Call) (fails : Bool) : State :=
  let token := c.req.bearerToken
  match c.phase with
  | .arrived =>
    s.enter i c
      (if sv.hostAllowed c.req then .authorizing
      else if sv.hostGuard then .done .misdirected
      else if token ≠ [] then .authorizing
      else .guarding .arrived)
  | .guarding a => (ask sv fails s a).1.enter i c (afterGuard (ask sv fails s a).2)
  | .authorizing => s.enter i c (if token = [] then .proxying else .comparing (s.tokens.current .read))
  | .comparing read =>
    s.enter i c
      (if equalToken token read ∨ equalToken token (s.tokens.current .admin) then .done (.answered none) else .validating)
  | .validating =>
    s.enter i c
      (if fails then .done .failed
      else match s.validReadToken sv token with
        | some row => .done (.answered (scopeOfTeams row.teams))
        | none => .proxying)
  | .proxying =>
    s.enter i c
      (match sv.proxyScope c.req with
      | some teams => .done (.answered (some teams))
      | none => if token ≠ [] then .done .unauthorized else .opening .arrived)
  | .opening a => (ask sv fails s a).1.enter i c (afterOpening (ask sv fails s a).2)
  | .done _ => s

/-- A row is revoked, unless it already is. -/
def TokenRow.revoke (now : ℤ) (row : TokenRow) : TokenRow :=
  if row.revokedAt = none then { row with revokedAt := some now } else row

/-- One step of a run. -/
inductive Step (sv : Server) : State → State → Prop where
  /-- A call that follows a token's file goes on. -/
  | tokens {s : State} {t : Tokens.State} : Tokens.Step s.tokens t → Step sv s { s with tokens := t }
  /-- Time passes: the clock's readings are monotonic. -/
  | tick {s : State} (d : ℕ) : Step sv s { s with clock := s.clock + d }
  /-- A read token is minted. -/
  | mint {s : State} (tokenHash : Bytes) (teams : List Bytes) :
      Step sv s { s with rows := s.rows ++ [{ tokenHash := tokenHash, teams := teams, mintedAt := s.clock }] }
  /-- The read token in place `k` is revoked. -/
  | revoke {s : State} (k : ℕ) : Step sv s { s with rows := s.rows.modify k (TokenRow.revoke s.clock) }
  /-- A request arrives. -/
  | arrive {s : State} (i : ℕ) (r : Request) : s.calls i = none →
      Step sv s { s with calls := Function.update s.calls i (some { req := r, arrived := s.clock }) }
  /-- A request goes on. -/
  | move {s : State} {i : ℕ} {c : Call} (fails : Bool) : s.calls i = some c → Step sv s (s.move sv i c fails)

/-- `readOpen` alone, from its first operation to its last. -/
def readOpen (sv : Server) (fails : Bool) (s : State) : State × Asking :=
  (fun p : State × Asking => ask sv fails p.1 p.2)^[7] (s, .arrived)

/-- `Start`: it does not serve an open API on an address that is not loopback, unless that was asked for. -/
def start (sv : Server) (fails : Bool) (s : State) : Option State :=
  if sv.allowAnonymousRead = false ∧ sv.loopback = false then
    match readOpen sv fails s with
    | (s', .returned .closed) => some s'
    | _ => none
  else some s

end UpgradeScope.ReadAccess
