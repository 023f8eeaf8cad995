import Mathlib.Data.List.DropRight
import UpgradeScope.Server.Gate
import UpgradeScope.Server.Notify

/-!
# The answer of the gate and the reads of a scope

`gateResult` of `internal/server/gate.go` tags each finding of a proposed state with where it comes
from, the posted manifests or the cluster, and its verdict judges what the manifests introduce.
`suppressSide` says what that is. A caller with a team scope gets the answer over its share of the
cluster, cut to its teams once more (`gateResponse.scope`), and a report cut the same way
(`readScope.report` of `scope.go`).

Left out are the team scores beside a report and the limit on the bytes of an answer.
-/

namespace UpgradeScope

open Go Sorting Kb Suppress

/-! ## Reads of a scope -/

/-- `keep`: what of a finding a scoped read may see. -/
structure Keep where
  /-- Which of its teams. -/
  team : String → Bool
  /-- Which of its namespaces. -/
  «namespace» : String → Bool
  /-- Which of its objects. -/
  object : ObjectRef → Bool

/-- `clusterKeep`: the teams of a scope, their namespaces and the objects in those. -/
def clusterKeep (teams : List String) (nsInfo : List NamespaceInfo) : Keep :=
  let inScope := fun ns => teamOf nsInfo ns ≠ "" && teamOf nsInfo ns ∈ teams
  { team := (· ∈ teams), «namespace» := inScope, object := fun o => inScope o.namespace }

/-- `titleCount`: what stands before the count of objects at the end of a title, and the count. No
line break is in either. -/
def titleCount (title : String) : Option (String × String) :=
  (cutSuffix? title " objects)" <|> cutSuffix? title " object)").bind fun s =>
    let digits := s.toList.rtakeWhile Char.isDigit
    if digits = [] then none
    else (cutSuffix? (String.ofList (s.toList.rdropWhile Char.isDigit)) " (").bind fun base =>
      if '\n' ∈ base.toList then none else some (base, String.ofList digits)

/-- `cutTitle`. -/
def cutTitle (title : String) (listed : Bool) (all kept : ℕ) : String :=
  match titleCount title with
  | none => title
  | some (base, digits) =>
    if (atoi digits).any fun n => listed && n = (all : ℤ) then
      base ++ s!" ({kept} " ++ (if kept = 1 then "object" else "objects") ++ " in scope)"
    else base

/-- `cutDetail`. -/
def cutDetail (namespaces : List String) (objects : ℕ) (capped : Bool) : String :=
  let place :=
    if namespaces = [] then "none of its namespaces is listed"
    else "its namespaces in scope are " ++ join namespaces ", "
  "Cut to this read's teams: the finding also covers namespaces or objects outside them, which a team-scoped read does not show, so its evidence is not repeated; " ++
    place ++ s!", with {objects} object(s) listed." ++
    if capped then " Its lists were capped before the cut, so more of this read's teams' may be affected than are listed." else ""

/-- `keep.cut`: the finding with what is kept of it, and whether anything was cut. -/
def Keep.cut (k : Keep) (f : Finding) : Finding × Bool :=
  let teams := f.teams.filter k.team
  let namespaces := f.namespaces.filter k.namespace
  let nsCut : Bool := namespaces.length < f.namespaces.length
  let objects := f.objects.filter fun o => k.object o || o.namespace = "" && !nsCut
  if teams.length = f.teams.length ∧ nsCut = false ∧ objects.length = f.objects.length ∧ f.namespacesOmitted = 0 then
    (f, false)
  else
    ({ f with
      title := cutTitle f.title (f.objectsOmitted = 0 && 0 < f.objects.length) f.objects.length objects.length
      detail := cutDetail namespaces objects.length (0 < f.namespacesOmitted || 0 < f.objectsOmitted)
      teams := teams
      namespaces := namespaces
      namespacesOmitted := 0
      objects := objects
      objectsOmitted := 0
      callers := [] }, true)

namespace ReadScope

variable (sc : ReadScope)

/-- `owns`: something attributed to the teams is in the scope. -/
def owns (teams : List String) : Bool := sc.teams.all fun own => teams.any (· ∈ own)

/-- `withholds`: the scope does not see a capability's own words. -/
def withholds (c : Capability) : Bool := sc.teams.isSome && c = capHelm

/-- `scopeGaps`: the gaps as the scope sees them. -/
def scopeGaps (gaps : List CapabilityGap) : List CapabilityGap :=
  gaps.map fun g =>
    if sc.withholds g.capability then
      { g with
        reason :=
          if g.reason = "" then ""
          else "withheld from a team-scoped read: the helm collector names the releases it could not read by namespace and name, which can be other teams'"
        skipped := [] }
    else g

/-- `suppressed`: the suppressed findings the scope sees. -/
def suppressed (fs : List SuppressedFinding) (k : Keep) (mine : Finding → Bool) : List SuppressedFinding :=
  fs.filterMap fun s =>
    if !mine s.finding && !sc.owns s.finding.teams then none
    else
      let cut := (k.cut s.finding).1
      if s.finding.objects ≠ [] ∧ cut.objects = [] then none else some { s with finding := cut }

/-- `report`: the report as the scope sees it. -/
def report (rep : Report) (nsInfo : List NamespaceInfo) : Report :=
  match sc.teams with
  | none => rep
  | some teams =>
    let k := clusterKeep teams nsInfo
    { rep with
      findings := (rep.findings.filter fun f => sc.owns f.teams).map fun f => (k.cut f).1
      suppressed := sc.suppressed rep.suppressed k fun _ => false
      unrecognizedImages := []
      unrecognizedImagesOmitted := 0
      notAssessed := sc.scopeGaps rep.notAssessed }

end ReadScope

/-! ## What the manifests introduce -/

/-- `findingKey`: the key of a finding, its title when it has none. -/
def Notify.findingKey (f : Finding) : String := (Notify.headOf f).ident

/-- The manifests' side of the merge introduces the finding: it is about what they hold. -/
def introduces (f : Finding) : Bool :=
  match f.category with
  | .removedAPI | .deprecatedAPI => true
  | .eolAddon | .eolApproaching | .chartIncompat | .addOnNoData => true
  | .volumePlugin => true
  | .crdVersion => 0 < wrap64 (f.objects.length + f.objectsOmitted)
  | _ => false

/-- `introducedKeys`. -/
def introducedKeys (rep : Report) : List String := (rep.findings.filter introduces).map Notify.findingKey

/-- `gateSide`: what the manifests introduce, after suppression. -/
structure GateSide where
  /-- The keys of the findings. -/
  keys : List String := []
  /-- The findings that were accepted. -/
  suppressed : List SuppressedFinding := []

/-- `suppressSide`. -/
def suppressSide (X : External) (now : Time) (side : Report) (rules : List Rule) : GateSide :=
  let produced := introducedKeys side
  let rep := suppressGate X now side rules
  { keys := introducedKeys rep, suppressed := rep.suppressed.filter fun s => Notify.findingKey s.finding ∈ produced }

/-! ## The answer -/

/-- Where a finding of a gate's answer comes from. -/
inductive GateSource where
  /-- `sourceManifest`. -/
  | manifest
  /-- `sourceCluster`. -/
  | cluster
  deriving DecidableEq

/-- `gateFinding`. -/
structure GateFinding where
  /-- The finding. -/
  finding : Finding
  /-- Where it comes from. -/
  source : GateSource
  deriving DecidableEq

/-- `gateResponse`. -/
structure GateResponse where
  /-- The report of the proposed state. -/
  report : Report
  /-- Its findings with their sources. -/
  findings : List GateFinding
  /-- The verdict on what the manifests introduce. -/
  verdict : Verdict
  /-- The verdict on the whole proposed state, with a cluster only. -/
  clusterVerdict : Option Verdict
  /-- The accepted findings of the manifests. -/
  introducedSuppressed : List SuppressedFinding
  deriving DecidableEq

/-- `Ready` of an answer. -/
def GateResponse.ready (resp : GateResponse) : Bool := resp.verdict = .ready

/-- The source of a finding: with a cluster, what it had before and the manifests do not produce is the
cluster's, as are the clients of its metrics. -/
def sourceOf (baseline : Option Report) (introduced : GateSide) (f : Finding) : GateSource :=
  match baseline with
  | none => .manifest
  | some base =>
    if Notify.findingKey f ∉ introduced.keys ∧
        (f.category = .deprecatedAPIInUse ∨ Notify.findingKey f ∈ base.findings.map Notify.findingKey) then .cluster
    else .manifest

/-- `gateResult`. -/
def gateResult (rep : Report) (baseline : Option Report) (introduced : GateSide) : GateResponse where
  report := rep
  findings := rep.findings.map fun f => ⟨f, sourceOf baseline introduced f⟩
  verdict :=
    if rep.findings.any fun f => sourceOf baseline introduced f = .manifest && f.severity = .blocker then .blocked
    else if rep.notAssessed.any (·.required) then .unknown
    else .ready
  clusterVerdict := baseline.map fun _ => rep.verdict
  introducedSuppressed := if baseline.isSome then introduced.suppressed else rep.suppressed

/-! ### The answer of a scope -/

/-- The namespaces of `manifestsOwn`: those the stream and its side of the merge name. -/
def ownNamespaces (invs : List Inventory) (ns : String) : Bool :=
  let counted := fun (m : NamespaceCounts) (os : List ObjectRef) => ns ∈ m.keys || os.any (·.namespace = ns)
  ns ≠ "" && invs.any fun inv =>
    inv.apiUsage.any (fun u => counted u.namespaces u.objects) ||
      inv.crds.any (fun c => c.usage.any fun u => counted u.namespaces u.objects) ||
      inv.volumePlugins.any (fun v => counted v.namespaces v.objects) ||
      inv.addOns.any (ns ∈ ·.namespaces) || inv.namespaces.any (·.name = ns)

/-- `gateResponse.scope`: the answer that a scope reads, with the namespaces of its share. -/
def GateResponse.scope (resp : GateResponse) (sc : ReadScope) (nsInfo : List NamespaceInfo) (invs : List Inventory) :
    GateResponse :=
  match sc.teams with
  | none => resp
  | some teams =>
    let cluster := clusterKeep teams nsInfo
    let k : Keep :=
      { team := cluster.team
        «namespace» := fun ns => cluster.namespace ns || ownNamespaces invs ns
        object := fun o => cluster.object o || manifestsOwn invs o }
    let introduced := resp.introducedSuppressed.map fun s => Notify.findingKey s.finding
    let findings := (resp.findings.filter fun f => !(f.source = .cluster && !sc.owns f.finding.teams)).map fun f =>
      { f with finding := (k.cut f.finding).1 }
    { resp with
      findings := findings
      introducedSuppressed := sc.suppressed resp.introducedSuppressed k fun _ => true
      report :=
        { resp.report with
          findings := findings.map (·.finding)
          suppressed := sc.suppressed resp.report.suppressed k fun f => Notify.findingKey f ∈ introduced
          unrecognizedImages := resp.report.unrecognizedImages.filter fun img => invs.any (img ∈ ·.unrecognizedImages)
          unrecognizedImagesOmitted := 0
          notAssessed := sc.scopeGaps resp.report.notAssessed } }

section Gate

variable (registered : String → Bool) (fuel : ℕ) (X : External) (k : KB) (now : Time) (limit : ℤ)
  (teamMap : List NamespaceInfo → List NamespaceInfo)

/-- The answer of `gateWithin` over a share of a cluster. -/
def answerWithin (req : GateRequest) (share : Inventory) (viewed : Bool) (manifests : Inventory) :
    Option (Except TooLarge GateResponse) :=
  andThen (gateWithin registered fuel X k now limit req.target share viewed manifests) fun ev =>
    let introduced := (ev.side.map fun side => suppressSide X now side req.rules).getD {}
    let rep := capObjects (suppressGate X now ev.full req.rules) ev.mine
    let side := (mergeManifests registered (withUsage share manifests viewed) manifests).2
    some (.ok ((gateResult rep ev.baseline introduced).scope req.scope share.namespaces [manifests, side]))

/-- The answer of a gate, with a cluster's inventory and whether the server's judgement of it changed its
API usage, or without. -/
def gateAnswer (req : GateRequest) (cluster : Option (Inventory × Bool)) (posted : Inventory) :
    Option (Except TooLarge GateResponse) :=
  let manifests := atPath req.artifact posted
  match cluster with
  | none =>
    andThen (evaluateWithin fuel X { manifests with namespaces := teamMap manifests.namespaces } k req.target now limit)
      fun full => some (.ok (gateResult (capObjects (suppressGate X now full req.rules) fun _ => false) none {}))
  | some (inv, viewed) =>
    answerWithin registered fuel X k now limit req (req.scope.clusterShare { inv with namespaces := teamMap inv.namespaces })
      viewed manifests

/-- For the whole fleet, the answer's report is the one that `evaluateGate` cuts. -/
theorem evaluateGate_of_gateAnswer {req : GateRequest} {cluster : Option (Inventory × Bool)} {posted : Inventory}
    {resp : GateResponse} (hfleet : req.scope.teams = none)
    (h : gateAnswer registered fuel X k now limit teamMap req cluster posted = some (.ok resp)) :
    evaluateGate registered fuel X k now limit teamMap req cluster posted = some (.ok resp.report) := by
  cases cluster with
  | none =>
    obtain ⟨full, hfull, hresp⟩ := andThen_eq_ok.mp h
    obtain rfl := Except.ok.inj (Option.some.inj hresp)
    unfold evaluateGate
    rw [andThen_eq_ok]
    exact ⟨{ full := full }, andThen_eq_ok.mpr ⟨full, hfull, rfl⟩, rfl⟩
  | some c =>
    obtain ⟨ev, hev, hresp⟩ := andThen_eq_ok.mp h
    obtain rfl := Except.ok.inj (Option.some.inj hresp)
    unfold evaluateGate
    rw [andThen_eq_ok]
    refine ⟨ev, hev, ?_⟩
    unfold GateResponse.scope
    rw [hfleet]
    rfl

end Gate

end UpgradeScope
