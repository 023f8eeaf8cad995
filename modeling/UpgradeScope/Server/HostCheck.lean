import UpgradeScope.Lib.Utf8
import Mathlib.Tactic

/-!
# The hosts a server answers for

`internal/server/hostcheck.go`: a request's Host is compared, without its port, brackets, case and trailing dot, with
the names of `--allowed-host` and `--listen`, which are normalized once, at startup. Both normalizations have to agree,
or a name the operator listed would be refused.

Texts are bytes. `netip`'s reader of an IP literal and its writer, and the Unicode case mapping of a text that is not
ASCII, are parameters.
-/

namespace UpgradeScope.HostCheck

open Utf8

/-! ## Addresses -/

/-- `netip.Addr`. -/
inductive Addr where
  /-- An IPv4 address. -/
  | v4 (a : BitVec 32)
  /-- An IPv6 address and its zone. -/
  | v6 (a : BitVec 128) (zone : Bytes)
  deriving DecidableEq

/-- `Addr.Unmap`: an IPv4 address that is mapped to IPv6 as itself. -/
def Addr.unmap : Addr → Addr
  | .v4 a => .v4 a
  | .v6 a zone => if a.toNat / 2 ^ 32 = 0xffff then .v4 (BitVec.ofNat 32 a.toNat) else .v6 a zone

/-- `Addr.WithZone("")`. -/
def Addr.withoutZone : Addr → Addr
  | .v4 a => .v4 a
  | .v6 a _ => .v6 a []

/-- `Addr.IsLoopback`. -/
def Addr.isLoopback : Addr → Bool
  | .v4 a => a.toNat / 2 ^ 24 = 127
  | .v6 a _ => a.toNat = 1

/-- `Addr.IsUnspecified`. -/
def Addr.isUnspecified : Addr → Bool
  | .v4 a => a.toNat = 0
  | .v6 a zone => a.toNat = 0 ∧ zone = []

/-- `netip.Prefix`: an address and how many of its bits are compared. -/
structure Subnet where
  /-- The address. -/
  addr : Addr
  /-- How many bits. -/
  bits : ℕ

/-- `Prefix.Contains`. -/
def Subnet.contains (p : Subnet) (ip : Addr) : Bool :=
  match p.addr, ip with
  | .v4 a, .v4 b => p.bits ≤ 32 ∧ a.toNat / 2 ^ (32 - p.bits) = b.toNat / 2 ^ (32 - p.bits)
  | .v6 a _, .v6 b zone => zone = [] ∧ p.bits ≤ 128 ∧ a.toNat / 2 ^ (128 - p.bits) = b.toNat / 2 ^ (128 - p.bits)
  | _, _ => false

/-- What is not in this repository. -/
structure Net where
  /-- `netip.ParseAddr`. -/
  parseAddr : Bytes → Option Addr
  /-- `Addr.String`. -/
  addrString : Addr → Bytes
  /-- `strings.ToLower` of a text that is not ASCII. -/
  toLowerUnicode : Bytes → Bytes
  /-- `strconv.Quote`, as which `%q` writes a text. -/
  quote : Bytes → String

/-! ## Texts -/

/-- The lower case of an ASCII byte. -/
def lowerByte (b : UInt8) : UInt8 := if 0x41 ≤ b ∧ b ≤ 0x5a then b + 0x20 else b

/-- `strings.ToLower`. -/
def Net.toLower (net : Net) (s : Bytes) : Bytes :=
  if s.all (· < 0x80) then s.map lowerByte else net.toLowerUnicode s

/-- `strings.TrimSuffix(s, ".")`. -/
def trimDot (s : Bytes) : Bytes := if s.getLast? = some 0x2e then s.dropLast else s

/-- Brackets around a text are taken off. -/
def unbracket (s : Bytes) : Option Bytes :=
  if s.head? = some 0x5b ∧ s.getLast? = some 0x5d ∧ 2 ≤ s.length then some (s.drop 1).dropLast else none

/-- `net.SplitHostPort`, the host of it; `none` where it fails. -/
def splitHostPort (hostport : Bytes) : Option Bytes :=
  if 0x3a ∉ hostport then none
  else
    -- Where the last colon is.
    let i := hostport.length - 1 - hostport.reverse.idxOf 0x3a
    if hostport.head? = some 0x5b then
      let close := hostport.idxOf 0x5d
      if close = hostport.length then none
      else if close + 1 ≠ i then none
      else if 0x5b ∈ hostport.drop 1 then none
      else if 0x5d ∈ hostport.drop (close + 1) then none
      else some ((hostport.take close).drop 1)
    else if 0x3a ∈ hostport.take i then none
    else if 0x5b ∈ hostport then none
    else if 0x5d ∈ hostport then none
    else some (hostport.take i)

/-- `hostName`. -/
def hostName (net : Net) (host : Bytes) : Bytes :=
  let host := match splitHostPort host with
    | some h => h
    | none => (unbracket host).getD host
  trimDot (net.toLower host)

/-- A byte of a DNS label. -/
def isLabelByte (b : UInt8) : Bool := 0x61 ≤ b && b ≤ 0x7a || 0x30 ≤ b && b ≤ 0x39 || b = 0x2d || b = 0x5f

/-- A DNS label. -/
def isLabel (label : Bytes) : Bool :=
  label ≠ [] && label.length ≤ 63 && label.head? ≠ some 0x2d && label.getLast? ≠ some 0x2d && label.all isLabelByte

/-- `ParseAllowedHost`, with the text of its error. -/
def parseAllowedHost (net : Net) (raw : Bytes) : Except String Bytes :=
  let h := trimDot (net.toLower (trimSpace raw))
  let h := (unbracket h).getD h
  if h = [] then .error "empty host name"
  else match net.parseAddr h with
    | some a => .ok (net.addrString a.unmap.withoutZone)
    | none =>
      if h.length > 253 then .error s!"{net.quote raw} is longer than a DNS name may be"
      else if (h.splitOn 0x2e).all isLabel then .ok h
      else .error s!"{net.quote raw} is not a host name: want a DNS name or an IP address without a port (any port matches)"

/-- `loopbackOrUnspecified`. -/
def loopbackOrUnspecified (net : Net) (h : Bytes) : Bool :=
  match net.parseAddr h with
  | none => false
  | some a => a.unmap.isLoopback || a.unmap.isUnspecified

/-- The name `localhost`. -/
def localhost : Bytes := [0x6c, 0x6f, 0x63, 0x61, 0x6c, 0x68, 0x6f, 0x73, 0x74]

/-- The loop of `allowedHostsOf` over `Config.AllowedHosts`. -/
def addHosts (net : Net) : List Bytes → List Bytes → Except String (List Bytes)
  | out, [] => .ok out
  | out, raw :: rest =>
    match parseAllowedHost net raw with
    | .error err => .error s!"server: invalid allowed host: {err}"
    | .ok h => addHosts net (if h ∈ out then out else out ++ [h]) rest

/-- `allowedHostsOf`, of `Config.AllowedHosts` and `Config.Listen`. -/
def allowedHostsOf (net : Net) (allowedHosts : List Bytes) (listen : Bytes) : Except String (List Bytes) := do
  let out ← addHosts net [] allowedHosts
  match splitHostPort listen with
  | none => .ok out
  | some lh =>
    if lh = [] then .ok out
    else match parseAllowedHost net lh with
      | .error _ => .ok out
      | .ok h =>
        if h ≠ localhost ∧ loopbackOrUnspecified net h = false ∧ h ∉ out then .ok (out ++ [h]) else .ok out

/-- `hostAllowed`: `host` is the request's Host and `local` the address it arrived on. -/
def hostAllowed (net : Net) (allowedHosts : List Bytes) (host : Bytes) (localAddr : Option Addr) : Bool :=
  let h := hostName net host
  if h = [] then false
  else if h = localhost ∨ h ∈ allowedHosts then true
  else match net.parseAddr h with
    | none => false
    | some a =>
      let ip := a.unmap.withoutZone
      if ip.isLoopback then true
      else match localAddr with
        | none => false
        | some l => l.unmap.withoutZone = ip

/-! ## Every spelling of a name -/

/-- A DNS name as `ParseAllowedHost` returns it. -/
def isName (h : Bytes) : Bool := (h.splitOn 0x2e).all isLabel

/-- A Host that names `h`: its letters in any case, a trailing dot or none, a port or none. -/
structure Spelling (h : Bytes) where
  /-- The name in any case. -/
  name : Bytes
  /-- It is the name. -/
  lower : name.map lowerByte = h
  /-- Whether it ends with a dot. -/
  dot : Bool
  /-- The port. -/
  port : Option Bytes
  /-- No colon or bracket is in it. -/
  plain : ∀ p ∈ port, 0x3a ∉ p ∧ 0x5b ∉ p ∧ 0x5d ∉ p

/-- The name with its dot. -/
def Spelling.dotted {h : Bytes} (v : Spelling h) : Bytes := v.name ++ if v.dot then [0x2e] else []

/-- The Host. -/
def Spelling.host {h : Bytes} (v : Spelling h) : Bytes :=
  v.dotted ++ match v.port with
    | none => []
    | some p => 0x3a :: p

variable {h listen : Bytes} {b : UInt8} {net : Net} {allowed : List Bytes}

/-- The bytes that are written for a byte of a name are ASCII, and no colon or bracket. -/
theorem plain_of_lowerByte (h : isLabelByte (lowerByte b) = true ∨ lowerByte b = 0x2e) :
    b < 0x80 ∧ b ≠ 0x3a ∧ b ≠ 0x5b ∧ b ≠ 0x5d := by
  have hall : ∀ n < 256, (isLabelByte (lowerByte (UInt8.ofNat n)) = true ∨ lowerByte (UInt8.ofNat n) = 0x2e) →
      UInt8.ofNat n < 0x80 ∧ UInt8.ofNat n ≠ 0x3a ∧ UInt8.ofNat n ≠ 0x5b ∧ UInt8.ofNat n ≠ 0x5d := by
    decide +kernel
  simpa only [UInt8.ofNat_toNat] using hall b.toNat b.toNat_lt (by simpa only [UInt8.ofNat_toNat] using h)

/-- The bytes of a name are label bytes and dots. -/
theorem mem_of_isName (hname : isName h = true) (hb : b ∈ h) : isLabelByte b = true ∨ b = 0x2e := by
  have hjoin : [0x2e].intercalate (h.splitOn 0x2e) = h := List.intercalate_splitOn 0x2e
  rw [← hjoin] at hb
  unfold isName at hname
  generalize h.splitOn 0x2e = labels at hb hname
  induction labels with
  | nil => simp [List.intercalate] at hb
  | cons l labels ih =>
    rw [List.all_cons, Bool.and_eq_true] at hname
    have hlabel : b ∈ l → isLabelByte b = true := by
      intro hbl
      have hall : l.all isLabelByte = true := by
        have := hname.1
        unfold isLabel at this
        simp only [Bool.and_eq_true] at this
        exact this.2
      exact List.all_eq_true.mp hall b hbl
    cases labels with
    | nil => exact .inl (hlabel (by simpa using hb))
    | cons l' labels =>
      have hcons : [0x2e].intercalate (l :: l' :: labels) = l ++ 0x2e :: [0x2e].intercalate (l' :: labels) := by
        simp [List.intercalate]
      rw [hcons, List.mem_append, List.mem_cons] at hb
      rcases hb with hb | hb | hb
      · exact .inl (hlabel hb)
      · exact .inr hb
      · exact ih hb hname.2

/-- A name does not end with a dot, and is not empty. -/
theorem getLast?_of_isName (hname : isName h = true) : h ≠ [] ∧ h.getLast? ≠ some 0x2e := by
  have hlabel : isLabel [] = false := by decide
  constructor
  · rintro rfl
    simp [isName, hlabel] at hname
  · intro hlast
    obtain ⟨init, rfl⟩ := List.getLast?_eq_some_iff.mp hlast
    unfold isName at hname
    rw [List.splitOn_append_cons_self, List.splitOn_nil, List.all_append] at hname
    simp [hlabel] at hname

/-- The bytes of a name in any case, with its dot or without. -/
theorem Spelling.plain_of_mem (hname : isName h = true) (v : Spelling h) (hb : b ∈ v.dotted) :
    b < 0x80 ∧ b ≠ 0x3a ∧ b ≠ 0x5b ∧ b ≠ 0x5d := by
  rcases List.mem_append.mp hb with hb | hb
  · apply plain_of_lowerByte
    apply mem_of_isName hname
    rw [← v.lower]
    exact List.mem_map_of_mem hb
  · have hdot : b = 0x2e := by
      split_ifs at hb
      · exact List.mem_singleton.mp hb
      · simp at hb
    subst hdot
    decide

/-- The name of a text without a colon or a bracket is read as it is. -/
theorem splitHostPort_plain {s : Bytes} (h : ∀ b ∈ s, b ≠ 0x3a ∧ b ≠ 0x5b ∧ b ≠ 0x5d) :
    splitHostPort s = none ∧ unbracket s = none := by
  refine ⟨if_pos fun hmem => (h _ hmem).1 rfl, if_neg ?_⟩
  rintro ⟨hhead, -⟩
  exact (h _ (List.mem_of_mem_head? hhead)).2.1 rfl

/-- A port after a host is cut off. -/
theorem splitHostPort_port {s p : Bytes} (h : ∀ b ∈ s, b ≠ 0x3a ∧ b ≠ 0x5b ∧ b ≠ 0x5d)
    (hp : 0x3a ∉ p ∧ 0x5b ∉ p ∧ 0x5d ∉ p) : splitHostPort (s ++ 0x3a :: p) = some s := by
  have hcolon : (0x3a : UInt8) ∈ s ++ 0x3a :: p := by simp
  have hopen : (0x5b : UInt8) ∉ s ++ 0x3a :: p := by
    intro hmem
    rcases List.mem_append.mp hmem with hmem | hmem
    · exact (h _ hmem).2.1 rfl
    · exact hp.2.1 ((List.mem_cons.mp hmem).resolve_left (by decide))
  have hclose : (0x5d : UInt8) ∉ s ++ 0x3a :: p := by
    intro hmem
    rcases List.mem_append.mp hmem with hmem | hmem
    · exact (h _ hmem).2.2 rfl
    · exact hp.2.2 ((List.mem_cons.mp hmem).resolve_left (by decide))
  have hlast : (s ++ 0x3a :: p).length - 1 - (s ++ 0x3a :: p).reverse.idxOf 0x3a = s.length := by
    have hidx : (s ++ 0x3a :: p).reverse.idxOf 0x3a = p.length := by
      rw [List.reverse_append, List.reverse_cons, List.append_assoc, List.idxOf_append_of_notMem (by simpa using hp.1)]
      simp
    rw [hidx]
    simp only [List.length_append, List.length_cons]
    omega
  have hhead : ¬ (s ++ 0x3a :: p).head? = some 0x5b := fun hhead => hopen (List.mem_of_mem_head? hhead)
  have hfirst : (0x3a : UInt8) ∉ s := fun hmem => (h _ hmem).1 rfl
  simp only [splitHostPort, hcolon, not_true_eq_false, if_false, hlast, hhead, hopen, hclose, List.take_left', hfirst]

/-- The lower case of a spelling is the name with its dot. -/
theorem Spelling.toLower_dotted (net : Net) (hname : isName h = true) (v : Spelling h) :
    net.toLower v.dotted = h ++ if v.dot then [0x2e] else [] := by
  have hascii : v.dotted.all (· < 0x80) = true := by
    rw [List.all_eq_true]
    intro b hb
    simpa using (v.plain_of_mem hname hb).1
  unfold Net.toLower
  rw [if_pos hascii]
  unfold Spelling.dotted
  rw [List.map_append, v.lower]
  cases v.dot <;> rfl

/-- Every spelling of a name is read as the name. -/
theorem hostName_spelling (net : Net) (hname : isName h = true) (v : Spelling h) :
    hostName net v.host = h := by
  have hplain : ∀ b ∈ v.dotted, b ≠ 0x3a ∧ b ≠ 0x5b ∧ b ≠ 0x5d := fun b hb => (v.plain_of_mem hname hb).2
  have htrim : trimDot (net.toLower v.dotted) = h := by
    rw [v.toLower_dotted net hname]
    unfold trimDot
    cases v.dot with
    | true => simp
    | false => simp [(getLast?_of_isName hname).2]
  unfold hostName Spelling.host
  cases hport : v.port with
  | none =>
    obtain ⟨hsplit, hbracket⟩ := splitHostPort_plain hplain
    simp only [List.append_nil, hsplit, hbracket, Option.getD_none]
    exact htrim
  | some p =>
    simp only [splitHostPort_port hplain (v.plain p hport)]
    exact htrim

/-- What the loop collects stays, and has every entry it read. -/
theorem mem_addHosts {raws out hosts : List Bytes} (h : addHosts net out raws = .ok hosts) :
    (∀ x ∈ out, x ∈ hosts) ∧ ∀ raw ∈ raws, ∃ x ∈ hosts, parseAllowedHost net raw = .ok x := by
  induction raws generalizing out with
  | nil =>
    obtain rfl : out = hosts := by simpa [addHosts] using h
    exact ⟨fun _ hx => hx, by simp⟩
  | cons raw raws ih =>
    unfold addHosts at h
    cases hparse : parseAllowedHost net raw with
    | error err => simp [hparse] at h
    | ok x =>
      simp only [hparse] at h
      obtain ⟨hkept, hread⟩ := ih h
      have hx : x ∈ if x ∈ out then out else out ++ [x] := by
        split_ifs with hmem
        · exact hmem
        · simp
      refine ⟨fun y hy => hkept y ?_, fun raw' hraw' => ?_⟩
      · split_ifs
        · exact hy
        · exact List.mem_append_left _ hy
      · rcases List.mem_cons.mp hraw' with rfl | hrest
        · exact ⟨x, hkept x hx, hparse⟩
        · exact hread raw' hrest

/-- The hosts of the configuration are among those the server answers for. -/
theorem mem_allowedHostsOf {allowed hosts : List Bytes} (h : allowedHostsOf net allowed listen = .ok hosts)
    {raw : Bytes} (hraw : raw ∈ allowed) :
    ∃ x ∈ hosts, parseAllowedHost net raw = .ok x := by
  unfold allowedHostsOf at h
  cases hadd : addHosts net [] allowed with
  | error e => simp [hadd, bind, Except.bind] at h
  | ok out =>
    obtain ⟨x, hx, hparse⟩ := (mem_addHosts hadd).2 raw hraw
    refine ⟨x, ?_, hparse⟩
    simp only [hadd, bind, Except.bind] at h
    split at h
    · cases h
      exact hx
    · split_ifs at h
      · cases h
        exact hx
      · split at h
        · cases h
          exact hx
        · split_ifs at h
          · cases h
            exact List.mem_append_left _ hx
          · cases h
            exact hx

/-- A list of hosts is refused for one of its entries, with the text of that entry's error: the address to listen on is
never a reason. -/
theorem allowedHostsOf_error {text : String} (h : allowedHostsOf net allowed listen = .error text) :
    ∃ raw ∈ allowed, ∃ err, parseAllowedHost net raw = .error err ∧ text = s!"server: invalid allowed host: {err}" := by
  have hadd : addHosts net [] allowed = .error text := by
    unfold allowedHostsOf at h
    cases hadd : addHosts net [] allowed with
    | error err => simpa [hadd, bind, Except.bind] using h
    | ok out =>
      simp only [hadd, bind, Except.bind] at h
      split at h
      · cases h
      · split_ifs at h
        split at h
        · cases h
        · split_ifs at h
  clear h
  generalize ([] : List Bytes) = out at hadd
  induction allowed generalizing out with
  | nil => simp [addHosts] at hadd
  | cons raw rest ih =>
    unfold addHosts at hadd
    cases hparse : parseAllowedHost net raw with
    | error err =>
      refine ⟨raw, List.mem_cons_self, err, hparse, ?_⟩
      rw [hparse] at hadd
      exact (Except.error.inj hadd).symm
    | ok x =>
      rw [hparse] at hadd
      obtain ⟨raw', hraw', hrefused⟩ := ih _ hadd
      exact ⟨raw', List.mem_cons_of_mem _ hraw', hrefused⟩

/-- An `--allowed-host` admits the requests for it, however they spell it: of every list of hosts that is accepted,
every entry that names a DNS name is answered for under that name in any case, with a trailing dot or without and with
any port or none. -/
theorem allowed_host_admits_every_spelling {net : Net} {allowed hosts : List Bytes} {listen : Bytes}
    (haccepted : allowedHostsOf net allowed listen = .ok hosts) {raw h : Bytes} (hraw : raw ∈ allowed)
    (hparse : parseAllowedHost net raw = .ok h) (hname : isName h = true) (v : Spelling h) (localAddr : Option Addr) :
    hostAllowed net hosts v.host localAddr = true := by
  obtain ⟨x, hx, hparse'⟩ := mem_allowedHostsOf haccepted hraw
  obtain rfl : h = x := by simpa using hparse.symm.trans hparse'
  unfold hostAllowed
  rw [hostName_spelling net hname v]
  simp only [(getLast?_of_isName hname).1, hx, if_false, or_true, if_true]

/-- No text is an address. -/
def noAddrs : Net where
  parseAddr _ := none
  addrString _ := []
  toLowerUnicode s := s
  quote _ := ""

/-- The entry "a" is read as it is. -/
theorem parseAllowedHost_a : parseAllowedHost noAddrs [0x61] = .ok [0x61] := by
  have htrim : trimSpace [0x61] = [0x61] := by
    rw [trimSpace, trimLeftSpace, dif_neg (by decide), trimRightSpace, dif_neg (by decide)]
  unfold parseAllowedHost
  rw [htrim]
  decide

/-- The entry "a" is the only host of a list with it alone. -/
theorem allowedHostsOf_a : allowedHostsOf noAddrs [[0x61]] [] = .ok [[0x61]] := by
  unfold allowedHostsOf addHosts
  rw [parseAllowedHost_a]
  rfl

/-- The Host "A.:80" is answered for where "a" is an allowed host. -/
theorem allowed_host_admits_every_spelling_a : hostAllowed noAddrs [[0x61]] [0x41, 0x2e, 0x3a, 0x38, 0x30] none = true :=
  allowed_host_admits_every_spelling allowedHostsOf_a List.mem_cons_self parseAllowedHost_a (by decide)
    { name := [0x41], lower := by decide, dot := true, port := some [0x38, 0x30], plain := by decide } none

end UpgradeScope.HostCheck
