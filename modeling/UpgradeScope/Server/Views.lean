import UpgradeScope.Inventory.Admit
import UpgradeScope.Engine.Finding

/-!
# The view of a snapshot

`internal/server/legacy.go` and `kbskew.go`. An agent collects by its own knowledge base: it lists only the API versions that
its lifecycle data flags, and matches add-ons against its own registry. The server judges with another copy, and cannot collect
again: what the agent's data did not flag was never listed. So a snapshot is judged through a view of it (`judgedView`), in
which what the agent's data or release cannot have covered is a gap.

Whether an agent's version is a semantic version before 0.2.0-0 is what `semver` of another package answers (`before`).
-/

namespace UpgradeScope

open Go Kb Sorting

namespace KbSkew

/-! ## The labels of an agent -/

/-- `printableASCII`. -/
def printableASCII (s : String) : Bool := s.toList.all fun c => 0x20 ≤ c.toNat && c.toNat ≤ 0x7e

/-- `maxAgentVersionBytes`. -/
def maxAgentVersionBytes : ℕ := 128

/-- `quoteLabel`. -/
def quoteLabel (X : External) (s : String) : String :=
  if byteLen s > maxAgentVersionBytes || !printableASCII s then "(a version label that is not a plain, short one)" else X.quote s

/-- Eight lower-case hexadecimal digits. -/
def isDigest (cs : List Char) : Bool :=
  cs.length = 8 && cs.all fun c => ('0' ≤ c && c ≤ '9') || ('a' ≤ c && c ≤ 'f')

/-- `kbDigests`: the digests at the end of a label, "; lifecycle 0123abcd; registry 4567ef89". -/
def kbDigests (version : String) : Option (String × String) :=
  let cs := version.toList
  let tail := cs.drop (cs.length - 39)
  let lifecycle := (tail.drop 12).take 8
  let registry := tail.drop 31
  if tail.take 12 = "; lifecycle ".toList && isDigest lifecycle && (tail.drop 20).take 11 = "; registry ".toList && isDigest registry then
    some (String.ofList lifecycle, String.ofList registry)
  else none

/-- `AppendReason`: the addition is whole, and what was there is cut to make room. -/
def appendReason (reason addition : String) : String :=
  let addition := cutText addition maxReasonBytes
  let room : ℤ := maxReasonBytes - byteLen addition - 2
  if reason = "" then addition
  else if byteLen reason > room then
    if room < byteLen cutMark then addition
    else utf8Prefix reason (room - byteLen cutMark).toNat ++ cutMark ++ "; " ++ addition
  else reason ++ "; " ++ addition

/-! ## The view of a legacy agent's snapshot -/

section View

variable (before : String → Option Bool) (X : External)

/-- `legacyInventory`: unstamped, and not of a release from 0.2.0-0 on. -/
def legacyInventory (inv : Inventory) (agentVersion : String) : Bool :=
  inv.collectorSchema ≤ 0 && (before (trimPrefix agentVersion "v")).getD true

/-- A row that counts objects and names none. -/
def unattributed (u : APIUsage) : Bool := 0 < u.count && u.objects.length = 0 && u.objectsOmitted = 0

/-- `unattributedUsageView`. -/
def unattributedUsageView (inv : Inventory) : Inventory :=
  match inv.capabilities.lookup capAPIUsage with
  | none => inv
  | some st =>
    let names := (inv.apiUsage.filter unattributed).map fun u => gvString u.group u.version ++ " " ++ u.kind
    if st.available = false ∨ names = [] then inv
    else
      let reason := s!"{names.length} API usage count(s) name no object, as a v0.1.x collector's did, so who writes through the deprecated version is unknown; they were not judged"
      { inv with
        capabilities := inv.capabilities.insert capAPIUsage
          { st with
            reason := appendReason st.reason reason
            partly := true
            skipped := sortedSet (st.skipped ++ names) }
        apiUsage := inv.apiUsage.filter fun u => !unattributed u }

/-- What a legacy agent is not believed. -/
def notAssessed (why : String) : CapabilityStatus := { available := false, reason := why }

/-- The version of a chart that a legacy agent took for the add-on's. -/
def chartVersioned (a : AddOnInstance) : AddOnInstance :=
  if a.source = "chart" then
    { a with chartVersion := if a.chartVersion = "" then a.version else a.chartVersion, version := "" }
  else a

/-- `legacyView`. -/
def legacyView (inv : Inventory) (agentVersion : String) : Inventory :=
  let inv := { inv with source := .cluster }
  if ¬ legacyInventory before inv agentVersion then
    if inv.collectorSchema = 0 then unattributedUsageView inv else inv
  else
    let agent := quoteLabel X agentVersion
    { inv with
      capabilities :=
        (inv.capabilities.insert capAPIUsage (notAssessed s!"collected by agent {agent}, which predates v0.2.0 and counted every object of a kind the apiserver serves at a deprecated version, not the objects written through it; upgrade the agent to assess API usage")).insert
          capDeprecatedCalls (notAssessed s!"collected by agent {agent}, which predates v0.2.0 and whose own requests to deprecated APIs are counted in the apiserver's deprecated-request metric; upgrade the agent to assess deprecated API callers")
      apiUsage := []
      deprecatedCalls := []
      addOns := inv.addOns.map chartVersioned }

/-! ## The view of another knowledge base's snapshot -/

/-- What an agent's label says of a digest. -/
def whatCollected (known : Bool) (digest server : String) : String :=
  if ¬ known then "the agent's knowledge base label names no dataset digests"
  else s!"the agent collected with {digest}, this server judges with {server}"

/-- `mark`: an available capability is partial over what the server's data would have collected. -/
def mark (caps : AList fun _ : Capability => CapabilityStatus) (c : Capability) (reason : String) :
    AList fun _ : Capability => CapabilityStatus :=
  match caps.lookup c with
  | none => caps
  | some st =>
    if st.available = false then caps
    else caps.insert c
      { st with reason := appendReason st.reason reason, partly := true, skipped := sortedSet (st.skipped ++ [skippedNewerKB]) }

/-- Whether the lifecycle data and the registry of a label differ from the server's. -/
def skews (server : String × String) (agent : Option (String × String)) : Bool × Bool :=
  match agent with
  | none => (true, true)
  | some a => (a.1 ≠ server.1, a.2 ≠ server.2)

/-- `kbSkewView`. -/
def kbSkewView (inv : Inventory) (agentKB : String) (k : KB) : Inventory :=
  match kbDigests k.version with
  | none => inv
  | some server =>
    let agent := kbDigests agentKB
    let what := fun (digest : String × String → String) => whatCollected agent.isSome ((agent.map digest).getD "") (digest server)
    let lifecycle := what Prod.fst
    let registry := what Prod.snd
    let skew := skews server agent
    let caps :=
      if skew.1 then
        mark (mark inv.capabilities capAPIUsage s!"knowledge base skew: lifecycle data differs ({lifecycle}), so APIs this server flags that the agent's did not were never listed; upgrade the agent to the server's version to assess them")
          capHelm s!"knowledge base skew: lifecycle data differs ({lifecycle}), so a release's stored manifest was read only for the APIs the agent's flagged; upgrade the agent to the server's version"
      else inv.capabilities
    { inv with
      capabilities :=
        if skew.2 then
          mark caps capAddOns s!"knowledge base skew: add-on registry differs ({registry}), so add-ons this server's registry knows that the agent's did not were never matched, and an image no entry of the agent's claimed is listed untagged only; upgrade the agent to the server's version to assess them. The two can also run different --registry-dir entries (agent.extraRegistry in the chart), which change the registry digest: give the server the same entries as the agent"
        else caps }

/-- `judgedView`. -/
def judgedView (inv : Inventory) (agentVersion kbVersion : String) (k : KB) : Inventory :=
  kbSkewView (legacyView before X inv agentVersion) kbVersion k

end View

/-- The view of a snapshot whose counts name no object keeps the server version. -/
theorem serverVersion_unattributedUsageView (inv : Inventory) :
    (unattributedUsageView inv).serverVersion = inv.serverVersion := by
  unfold unattributedUsageView
  split
  · rfl
  · dsimp only
    split_ifs
    · rfl
    · rfl

/-- A judged snapshot keeps its server version. -/
theorem serverVersion_judgedView (before : String → Option Bool) (X : External) (inv : Inventory)
    (agentVersion kbVersion : String) (k : KB) :
    (judgedView before X inv agentVersion kbVersion k).serverVersion = inv.serverVersion := by
  have hskew : ∀ i : Inventory, (kbSkewView i kbVersion k).serverVersion = i.serverVersion := by
    intro i
    unfold kbSkewView
    split
    · rfl
    · rfl
  unfold judgedView
  rw [hskew]
  unfold legacyView
  dsimp only
  split_ifs
  · rfl
  · rw [serverVersion_unattributedUsageView]
  · rfl

end KbSkew

end UpgradeScope
