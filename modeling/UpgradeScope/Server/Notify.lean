import UpgradeScope.Engine.Finding
import UpgradeScope.Lib.Calendar

/-!
# Notification deltas

`internal/server/notify_delta.go` and the parts of `internal/server/evaluate.go` it works with: what
one pass over a cluster and target announces against the stored baseline (`computeDelta`), which
findings of the baseline the pass could not have seen (`unassessedIn`, `CallsHold.until`), and what
the pass stores for the next one (`keepCarried`). A stored report is modelled by what is read back of
it, the heads of its findings, its gaps and the heads it carries forward.
-/

namespace UpgradeScope.Notify

open Go Sorting

/-! ## Heads -/

/-- `findingHead`: what a delta reads of a stored finding. -/
structure FindingHead where
  /-- Its category. -/
  category : Category
  /-- Its severity. -/
  severity : Severity
  /-- Its key. -/
  key : String
  /-- Its title, the identity when the key is empty. -/
  title : String
  /-- The capabilities the pass that last saw it did not assess for it. -/
  seenWithout : List Capability := []
  /-- When the restart hold on it ends, zero for none. -/
  holdUntil : Time := 0
  /-- Whether it is a blocker an unknown pass saw resolved. -/
  resolved : Bool := false
  /-- The offset of the zone the end of the hold is written in, in seconds east of UTC. -/
  holdZone : ℤ := 0
  deriving DecidableEq

/-- `headOf`. -/
def headOf (f : Finding) : FindingHead := ⟨f.category, f.severity, f.key, f.title, [], 0, false, 0⟩

namespace FindingHead

variable (h : FindingHead)

/-- `findingHead.blocker`: a blocker that was not seen resolved. -/
def blocker : Bool := h.severity = .blocker ∧ ¬ h.resolved

/-- `findingHead.eolApproaching`. -/
def eolApproaching : Bool := h.category = .eolApproaching ∧ h.severity = .warning

/-- `findingHead.key`: the key when there is one, else the title. -/
def ident : String := if h.key ≠ "" then h.key else h.title

/-- `findingSignature`: the severity and the key. -/
def signature : Severity × String := (h.severity, h.ident)

/-- `json.Marshal` takes the head: the end of its hold is zero, which is left out, or its year on the wall clock of its
zone has four digits, as `Time.MarshalJSON` asks. -/
def marshals : Bool :=
  let year := yearOf ((h.holdUntil + h.holdZone * 10 ^ 9) / day)
  h.holdUntil = 0 ∨ 0 ≤ year ∧ year ≤ 9999

end FindingHead

/-- The identity of a head with a key is its key. -/
theorem ident_of_key {h : FindingHead} (hk : h.key ≠ "") : h.ident = h.key := by
  simp [FindingHead.ident, hk]

/-- A head whose severity is blocker is a blocker or was resolved. -/
theorem blocker_iff {h : FindingHead} :
    h.blocker = true ↔ h.severity = .blocker ∧ h.resolved = false := by
  simp [FindingHead.blocker]

/-- An approaching end of life is a warning of its category. -/
theorem eolApproaching_iff {h : FindingHead} :
    h.eolApproaching = true ↔ h.category = .eolApproaching ∧ h.severity = .warning := by
  simp [FindingHead.eolApproaching]

/-! ## The restart hold on deprecated callers -/

/-- `deprecatedCallsHold`: a day. -/
def deprecatedCallsHold : ℤ := 24 * hour

/-- `startTimeTolerance`: ten minutes. -/
def startTimeTolerance : ℤ := 10 * minute

/-- `callsHold`: what one pass says about holding deprecated callers it does not have. -/
structure CallsHold where
  /-- When the inventory was collected. -/
  scraped : Time
  /-- When the hold of its apiserver ends, zero when that one is not young. -/
  young : Time
  /-- Whether the pass is a push's own. -/
  pushed : Bool
  /-- Whether a caller's API is no longer served at the scraped version. -/
  gone : String → Bool
  /-- The offset of the zone the end of its apiserver's hold is in. -/
  zone : ℤ := 0

/-- `callsHold.until`: when the hold on a missing baseline finding ends, zero when it is not held. -/
def CallsHold.until (c : CallsHold) (f : FindingHead) : Time :=
  if f.category ≠ .deprecatedAPIInUse ∨ c.scraped = 0 then 0
  else if c.gone f.key then 0
  else
    let carried :=
      if c.pushed ∧ c.scraped + (deprecatedCallsHold + startTimeTolerance) < f.holdUntil then 0
      else f.holdUntil
    let «end» := if carried < c.young then c.young else carried
    if «end» ≤ c.scraped then 0 else «end»

/-- `unassessedIn`: the report could not have seen a finding of the baseline, because it is held or
because a gap hides it that the pass that last saw it did not have. -/
def unassessedIn (rep : Report) (hold : CallsHold) (h : FindingHead) : Bool :=
  hold.until h ≠ 0 || (hiddenBy rep.notAssessed h.category h.ident).any (· ∉ h.seenWithout)

/-- The zone of the end that `callsHold.until` gives: the apiserver's own when its hold ends after the one the finding
carries. -/
def CallsHold.untilZone (c : CallsHold) (f : FindingHead) : ℤ :=
  let carried :=
    if c.pushed ∧ c.scraped + (deprecatedCallsHold + startTimeTolerance) < f.holdUntil then 0
    else f.holdUntil
  if carried < c.young then c.zone else f.holdZone

/-- A finding with the end of its hold after a pass. -/
def CallsHold.stamped (c : CallsHold) (h : FindingHead) : FindingHead :=
  { h with holdUntil := c.until h, holdZone := c.untilZone h }

/-- `callsHold.stamp`: records on each carried finding the end of its hold. -/
def CallsHold.stamp (c : CallsHold) (carried : List FindingHead) : List FindingHead := carried.map c.stamped

/-! ## Callers that fold into a carried finding -/

section Folds

variable (X : External)

/-- `resourceNames` of the notification delta: the names a lower-case kind may go by. -/
def carriedResourceNames (kind : String) : List String :=
  [kind, kind ++ "s", kind ++ "es"] ++
    match cutSuffix? kind "y" with
    | some stem => [stem ++ "ies"]
    | none => []

/-- The API a carried finding's key is indexed under: its key without an unserved phase, and the
group, version and lower-case kind. -/
def indexedUsage (h : FindingHead) : Option (String × String × String × String) :=
  let usage := (baseOfUnservedKey h.ident).getD h.ident
  if ¬ isUsageCategory (cut usage '/').1 then none
  else match split (cut usage '/').2.1 '/' with
    | [group, version, kind] =>
      if group = "helm-release" ∨ kind = "" then none
      else some (usage, group, version, X.lower kind)
    | _ => none

/-- `newCarriedFolds`: the index from "group/version/resource" to the usage keys that may match, as
the list of its entries. One entry is kept for each group, version and lower-case kind. -/
def newCarriedFolds (carried : List FindingHead) : List (String × String) :=
  (distinctOn (fun u => u.2.1 ++ "/" ++ u.2.2.1 ++ "/" ++ u.2.2.2)
    (carried.filterMap (indexedUsage X))).flatMap fun u =>
      (carriedResourceNames u.2.2.2).map fun r => (u.2.1 ++ "/" ++ u.2.2.1 ++ "/" ++ r, u.1)

/-- `carriedFolds.folds`: a deprecated caller's key folds into a carried API usage finding. -/
def folds (idx : List (String × String)) (call : String) : Bool :=
  if (cut call '/').1 ≠ Category.deprecatedAPIInUse.name then false
  else match splitN '/' 4 (cut call '/').2.1.toList with
    | g :: v :: r :: _ =>
      (idx.filter (·.1 = String.ofList g ++ "/" ++ String.ofList v ++ "/" ++ String.ofList r)).any
        fun e => foldsInto X call e.2
    | _ => false

end Folds

/-! ## The delta -/

/-- The kinds of a notification's changes. -/
inductive ChangeKind where
  /-- `KindNewBlocker`. -/
  | newBlocker
  /-- `KindBecameReady`. -/
  | becameReady
  /-- `KindEOLApproaching`. -/
  | eolApproaching
  deriving DecidableEq, Repr

/-- One change of a notification. -/
structure Change where
  /-- Its kind. -/
  kind : ChangeKind
  /-- The finding's key. -/
  key : String := ""
  /-- The finding's severity. -/
  severity : String := ""
  /-- The title. -/
  title : String
  /-- The finding's detail. -/
  detail : String := ""
  /-- The targets it is about. -/
  targets : List String
  deriving DecidableEq

/-- `becameReadyTitle`. -/
def becameReadyTitle : String := "ready: all blockers resolved"

/-- `change`: a change about a finding. -/
def change (kind : ChangeKind) (f : Finding) (targets : List String) : Change :=
  ⟨kind, f.key, f.severity.name, f.title, f.detail, targets⟩

/-- A blocker as a head that an unknown pass saw resolved. -/
def FindingHead.asResolved (h : FindingHead) : FindingHead :=
  { h with seenWithout := [], holdUntil := 0, resolved := true, holdZone := 0 }

/-- `resolvedHeads`: the blockers of a baseline as resolved heads, one for each key. -/
def resolvedHeads (prev : List FindingHead) : List FindingHead :=
  (distinctOn FindingHead.ident (prev.filter (·.severity = .blocker))).map FindingHead.asResolved

/-- What a pass carries of its baseline: the blockers and approaching ends of life that are gone
from its report and that it could not have seen. -/
def carriedOf (prev : List FindingHead) (curr : Report) (unassessed : FindingHead → Bool) :
    List FindingHead :=
  distinctOn FindingHead.signature (prev.filter fun h =>
    (h.blocker || h.eolApproaching) && h.ident ∉ curr.findings.map (fun f => (headOf f).ident) &&
      unassessed h)

/-- `computeDelta`: the changes of one pass against its baseline, and what its own baseline
carries forward. -/
def computeDelta (X : External) (prev : List FindingHead) (curr : Report)
    (unassessed : FindingHead → Bool) : List Change × List FindingHead :=
  let target := [curr.target.string]
  let prevBlockers := (prev.filter FindingHead.blocker).map FindingHead.ident
  let prevEOL := (prev.filter FindingHead.eolApproaching).map FindingHead.ident
  let readyPending := prev.any (·.resolved)
  let carried := carriedOf prev curr unassessed
  let idx := newCarriedFolds X carried
  let blockers := curr.findings.filter fun f => (headOf f).blocker
  let newBlockers := (distinctOn (fun f => (headOf f).ident) blockers).filter fun f =>
    (headOf f).ident ∉ prevBlockers && !folds X idx (headOf f).ident
  let noneLeft := blockers.isEmpty && !carried.any FindingHead.blocker
  let ready :=
    if (!prevBlockers.isEmpty || readyPending) && noneLeft && curr.verdict = .ready then
      [{ kind := .becameReady, title := becameReadyTitle, targets := target : Change }]
    else []
  let eol := (distinctOn (fun f => (headOf f).ident)
    (curr.findings.filter fun f => (headOf f).eolApproaching)).filter fun f =>
      (headOf f).ident ∉ prevEOL
  (newBlockers.map (change .newBlocker · target) ++ ready ++ eol.map (change .eolApproaching · target),
    carried ++ if noneLeft && curr.verdict = .unknown then resolvedHeads prev else [])

/-! ## One notification for a pass -/

/-- `notify.Target`: a target's verdict after a pass. -/
structure NotifyTarget where
  /-- The target. -/
  target : String
  /-- Its verdict. -/
  verdict : Verdict
  /-- Its score. -/
  score : ℤ
  /-- Its blockers. -/
  blockers : ℕ
  deriving DecidableEq

/-- `Notification`: what a sink is sent for one pass over a cluster. -/
structure Notification where
  /-- Its identity across retries and sinks. -/
  deliveryID : String
  /-- When the pass ran. -/
  timestamp : Time
  /-- The cluster's id. -/
  clusterID : ℕ
  /-- The cluster's name. -/
  clusterName : String
  /-- The targets that changed. -/
  targets : List NotifyTarget
  /-- The changes. -/
  changes : List Change
  /-- How many changes of each kind are not listed. -/
  omitted : List (ChangeKind × ℕ)
  deriving DecidableEq

/-- The text of a kind. -/
def ChangeKind.name : ChangeKind → String
  | .newBlocker => "new-blocker"
  | .becameReady => "became-ready"
  | .eolApproaching => "eol-approaching"

/-- `kindRank`: blockers first. -/
def ChangeKind.rank : ChangeKind → ℕ
  | .newBlocker => 0
  | .becameReady => 1
  | .eolApproaching => 2

/-- `kindCap`: the most changes of a kind that a notification lists, 0 for no cap. -/
def ChangeKind.cap : ChangeKind → ℕ
  | .newBlocker => 5
  | .becameReady => 0
  | .eolApproaching => 5

/-- `changeIdentity`: what makes two targets' changes one, as the text that is digested. -/
def changeIdentity (c : Change) : String :=
  c.kind.name ++ "\x00" ++ c.key ++ "\x00" ++ c.title ++ "\x00" ++ c.detail ++ "\x00"

/-- `changeMerger`: the changes of a pass merged over its targets. The counts of the source are those of the
lists: every change counted is listed or past its kind's cap. -/
structure ChangeMerger where
  /-- The targets that changed. -/
  targets : List NotifyTarget := []
  /-- The changes that are listed. -/
  changes : List Change := []
  /-- The changes past their kind's cap. -/
  omitted : List Change := []

namespace ChangeMerger

variable (m : ChangeMerger)

/-- How many distinct changes of a kind there are. -/
def count (kind : ChangeKind) : ℕ := ((m.changes ++ m.omitted).filter (·.kind = kind)).length

/-- How many changes of a kind are not listed. -/
def counted (kind : ChangeKind) : ℕ := (m.omitted.filter (·.kind = kind)).length

/-- One change merged: it joins the one with its identity, or is listed, or is past its kind's cap. -/
def addChange (c : Change) : ChangeMerger :=
  if m.changes.any (changeIdentity · = changeIdentity c) then
    { m with
      changes := m.changes.map fun x =>
        if changeIdentity x = changeIdentity c then { x with targets := x.targets ++ c.targets } else x }
  else if m.omitted.any (changeIdentity · = changeIdentity c) then m
  else if 0 < c.kind.cap ∧ c.kind.cap < m.count c.kind + 1 then { m with omitted := m.omitted ++ [c] }
  else { m with changes := m.changes ++ [c] }

/-- `changeMerger.add`: one target's changes merged. -/
def add (target : NotifyTarget) (changes : List Change) : ChangeMerger :=
  if changes.isEmpty then m
  else changes.foldl addChange { m with targets := m.targets ++ [target] }

/-- `changeMerger.notification`: the merged changes, blockers first; `none` when no target changed. -/
def notification (clusterID : ℕ) (clusterName : String) (now : Time) (deliveryID : String) : Option Notification :=
  if m.changes.isEmpty then none
  else some
    { deliveryID := deliveryID
      timestamp := now
      clusterID := clusterID
      clusterName := clusterName
      targets := m.targets
      changes := sortOn (fun c => c.kind.rank) m.changes
      omitted := [ChangeKind.newBlocker, .becameReady, .eolApproaching].filterMap fun kind =>
        if m.counted kind = 0 then none else some (kind, m.counted kind) }

end ChangeMerger

/-! ## Passes over one cluster and target -/

/-- `hidesNoFinding`: the required gaps no finding comes from. -/
def hidesNoFinding (c : Capability) : Bool := c = gapKBCoverage ∨ c = gapTarget

/-- `notificationBaseline`: a decided verdict, or an unknown one whose required gaps all hide no
finding. -/
def notificationBaseline (rep : Report) : Bool :=
  rep.verdict ≠ .unknown || rep.notAssessed.all fun g => !g.required || hidesNoFinding g.capability

/-- `storedHeads`: what is read back of a stored report. -/
structure StoredHeads where
  /-- The heads of its findings. -/
  findings : List FindingHead
  /-- Its gaps. -/
  notAssessed : List CapabilityGap
  /-- The heads it carries forward. -/
  carriedForward : List FindingHead

/-- `storedHeads.baseline`: the findings with what their report found them without, and what it
carries forward. -/
def StoredHeads.baseline (h : StoredHeads) : List FindingHead :=
  (h.findings.map fun f => { f with seenWithout := hiddenBy h.notAssessed f.category f.ident }) ++
    h.carriedForward

/-- A title that is not the identity is let go when a stored report is read. -/
def readHead (h : FindingHead) : FindingHead := if h.key ≠ "" then { h with title := "" } else h

section ReadHead

variable (h : FindingHead)

@[simp] theorem readHead_category : (readHead h).category = h.category := by
  unfold readHead
  split_ifs <;> rfl

@[simp] theorem readHead_severity : (readHead h).severity = h.severity := by
  unfold readHead
  split_ifs <;> rfl

@[simp] theorem readHead_key : (readHead h).key = h.key := by
  unfold readHead
  split_ifs <;> rfl

@[simp] theorem readHead_holdUntil : (readHead h).holdUntil = h.holdUntil := by
  unfold readHead
  split_ifs <;> rfl

@[simp] theorem readHead_resolved : (readHead h).resolved = h.resolved := by
  unfold readHead
  split_ifs <;> rfl

/-- The title that is let go is not the identity. -/
@[simp] theorem readHead_ident : (readHead h).ident = h.ident := by
  by_cases hkey : h.key = ""
  · simp [readHead, hkey]
  · simp [readHead, hkey, FindingHead.ident]

end ReadHead

/-- What the server stores evaluations under: the length of a report's encoding with the heads it
carries (`withCarried`), and the limit of a report (`maxReportBytes`). -/
structure Store where
  /-- The bytes of a report encoded with carried heads. -/
  encodedLen : Report → List FindingHead → ℕ
  /-- The most bytes a report may take. -/
  maxReportBytes : ℕ

/-- `keepCarried`: what is stored of the carried heads, none when `withCarried` cannot encode one of them or when they
would take the report over its limit. -/
def keepCarried (S : Store) (rep : Report) (carried : List FindingHead) : List FindingHead :=
  if ¬ carried.all FindingHead.marshals then []
  else if S.encodedLen rep carried > S.maxReportBytes then [] else carried

/-- What is stored of carried heads is of them. -/
theorem mem_of_mem_keepCarried {S : Store} {rep : Report} {carried : List FindingHead} {x : FindingHead}
    (h : x ∈ keepCarried S rep carried) : x ∈ carried := by
  unfold keepCarried at h
  split_ifs at h
  · simp at h
  · exact h
  · simp at h

/-- One pass: its report and what it says about holds. -/
structure Pass where
  /-- The report. -/
  report : Report
  /-- What it says about holding deprecated callers. -/
  hold : CallsHold

/-- A pass against the latest stored baseline: its changes, and the baseline after it. A pass that
is no notification baseline announces nothing and leaves the stored baseline; the first baseline of
a target is silent (`deltaFor`). -/
def step (X : External) (S : Store) (prev : Option StoredHeads) (p : Pass) :
    List Change × Option StoredHeads :=
  if ¬ notificationBaseline p.report then ([], prev)
  else
    let delta := match prev with
      | none => ([], [])
      | some stored =>
        computeDelta X stored.baseline p.report (unassessedIn p.report p.hold)
    let carried := keepCarried S p.report (p.hold.stamp delta.2)
    (delta.1, some
      { findings := p.report.findings.map fun f => readHead (headOf f)
        notAssessed := p.report.notAssessed
        carriedForward := carried.map readHead })

/-- The baseline stored after a run of passes, the latest pass first. -/
def after (X : External) (S : Store) : List Pass → Option StoredHeads
  | [] => none
  | p :: ps => (step X S (after X S ps) p).2

/-- The changes a pass announces after a run of passes. -/
def announced (X : External) (S : Store) (p : Pass) (ps : List Pass) : List Change :=
  (step X S (after X S ps) p).1

end UpgradeScope.Notify
