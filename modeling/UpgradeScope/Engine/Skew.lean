import UpgradeScope.Engine.Usage

/-!
# Version skew, the upgrade path and the knowledge base's age

`internal/engine/engine.go`, the checks of the version-skew policy: kubelets (`evalSkew`),
control-plane components (`evalControlPlaneSkew`), a kube-proxy beside its node's kubelet
(`evalKubeProxyKubeletSkew`), the steps of an upgrade over several minors (`evalUpgradePath`) and a
target the knowledge base does not cover (`evalKBStale`).
-/

namespace UpgradeScope

open Go Sorting Kb

/-- `skewPolicyURL`. -/
def skewPolicyURL : String := "https://kubernetes.io/releases/version-skew-policy/"

/-- The order of versions, as a key to sort by. -/
def versionKey (v : Version) : ℤ ×ₗ ℤ := toLex (v.major, v.minor)

/-- The distinct versions of a list, ascending. -/
def sortedVersions (vs : List Version) : List Version := (sortOn versionKey vs).dedup

section Skew

variable (X : External)

/-- `apiserverVersions`: the distinct minors of the server version and the kube-apiserver pods. -/
def apiserverVersions (inv : Inventory) : List Version :=
  sortedVersions ((inv.serverVersion ::
    (inv.controlPlane.filter (·.component = "kube-apiserver")).map (·.version)).filterMap (version? X))

/-- `legacyMaxBehind`: components older than 1.25 may only be two minors behind. -/
def legacyMaxBehind (limit : ℤ) (v : Version) : ℤ :=
  if v.major = 1 ∧ v.minor < 25 then min limit 2 else limit

/-- `legacyNote`. -/
def legacyNote (components : String) (applied : Bool) : String :=
  if applied then s!" {components} older than 1.25 may be at most 2 minor versions behind." else ""

/-- `minorsBehind`, in 64-bit arithmetic. -/
def minorsBehind (ctrl kubelet : Version) : ℤ :=
  wrap64 ((ctrl.major * 1000 + ctrl.minor) - (kubelet.major * 1000 + kubelet.minor))

/-- `maxListedNodes`. -/
def maxListedNodes : ℕ := 100

/-- `listedNodes`: the first nodes, and how many more. -/
def listedNodes (entries : List String) : String :=
  if entries.length ≤ maxListedNodes then join entries ", "
  else join (entries.take maxListedNodes) ", " ++ s!", and {entries.length - maxListedNodes} more"

/-- A finding of the skew policy. -/
def skewFinding (sev : Severity) (key title detail : String) (citation : String) : Finding where
  category := .versionSkew
  severity := sev
  key := Category.versionSkew.name ++ "/" ++ key
  title := title
  detail := detail
  citations := [citation]

/-- An element of a list that holds at most one finding is that finding. -/
theorem eq_of_mem_unless {p : Prop} [Decidable p] {f g : Finding}
    (h : f ∈ if p then [] else [g]) : f = g := by
  split_ifs at h
  · simp at h
  · exact List.mem_singleton.mp h

/-- A node as the skew findings name it. -/
def nodeEntry (n : NodeInfo) : String := n.name ++ " (" ++ n.kubeletVersion ++ ")"

/-- The nodes whose kubelet satisfies a predicate. -/
def kubeletsWith (inv : Inventory) (p : Version → Bool) : List NodeInfo :=
  inv.nodes.filter fun n => (version? X n.kubeletVersion).any p

/-- `evalSkew`: the kubelet rules against the apiservers of today and the target. -/
def evalSkew (inv : Inventory) (k : KB) (target : Version) : List Finding :=
  match apiserverVersions X inv with
  | [] => []
  | oldest :: rest =>
    let newest := (oldest :: rest).getLast (by simp)
    let maxBehind := k.skew.kubeletMaxBehind
    let behind := fun (v : Version) (kv : Version) => decide (minorsBehind v kv > legacyMaxBehind maxBehind kv)
    let legacy := fun kv => decide (legacyMaxBehind maxBehind kv < maxBehind)
    let postBad := kubeletsWith X inv (behind target)
    let nowBad := kubeletsWith X inv (behind newest)
    let newer := kubeletsWith X inv (·.gt oldest)
    let unparseable := inv.nodes.filter fun n => (version? X n.kubeletVersion).isNone
    let entries := fun (ns : List NodeInfo) => sorted (ns.map nodeEntry)
    let anyLegacy := fun (ns : List NodeInfo) => ns.any fun n => (version? X n.kubeletVersion).any legacy
    (if postBad = [] then [] else
      [skewFinding .blocker "kubelet-post-upgrade"
        s!"{postBad.length} node(s) would exceed kubelet version skew after upgrading to {target}"
        (s!"After upgrading the control plane to {target} these nodes would be more than {maxBehind} minor versions behind: {listedNodes (entries postBad)}." ++
          legacyNote "Kubelets" (anyLegacy postBad)) skewPolicyURL]) ++
    (if nowBad = [] then [] else
      [skewFinding .warning "kubelet-current"
        s!"{nowBad.length} node(s) exceed kubelet version skew vs control plane {newest}"
        (s!"Nodes more than {maxBehind} minor versions behind: {listedNodes (entries nowBad)}." ++
          legacyNote "Kubelets" (anyLegacy nowBad)) skewPolicyURL]) ++
    (if newer = [] then [] else
      [skewFinding .warning "kubelet-newer-than-apiserver"
        s!"{newer.length} node(s) run a kubelet newer than kube-apiserver {oldest}"
        s!"kubelet must not be newer than kube-apiserver; when kube-apiserver versions differ, the oldest one ({oldest}) bounds the allowed kubelet versions. Newer nodes: {listedNodes (entries newer)}."
        skewPolicyURL]) ++
    (if unparseable = [] then [] else
      let named := sorted (unparseable.map fun n => n.name ++ " (" ++ X.quote n.kubeletVersion ++ ")")
      [skewFinding .info "kubelet-unparseable"
        s!"{unparseable.length} node(s) have unparseable kubelet versions"
        s!"These nodes could not be evaluated against the kubelet skew policy: {listedNodes named}."
        skewPolicyURL])

/-! ## Control-plane components -/

/-- The distinct minors of a component, ascending. -/
def componentVersions (inv : Inventory) (component : String) : List Version :=
  sortedVersions ((inv.controlPlane.filter (·.component = component)).filterMap fun cv => version? X cv.version)

/-- One rule of a component against the apiservers. -/
structure ComponentRule where
  /-- The component. -/
  component : String
  /-- The minors it may be behind. -/
  maxBehind : ℤ
  /-- Whether versions older than 1.25 may only be two minors behind. -/
  legacy : Bool
  /-- The severity of being newer. -/
  newerSev : Severity
  /-- Why it must not be newer. -/
  newerDetail : String

/-- The rules of the components. -/
def componentRules (k : KB) : List ComponentRule :=
  [⟨"kube-controller-manager", k.skew.ctrlMgrMaxBehind, false, .blocker,
      "control-plane components must not be newer than the apiservers they talk to"⟩,
    ⟨"kube-scheduler", k.skew.ctrlMgrMaxBehind, false, .blocker,
      "control-plane components must not be newer than the apiservers they talk to"⟩,
    ⟨"kube-proxy", k.skew.kubeProxyMaxBehind, true, .warning,
      "kube-proxy must not be newer than kube-apiserver"⟩]

/-- The versions of a list as text. -/
def versionsText (vs : List Version) : String := join (vs.map Version.string) ", "

/-- The findings of one component's rule. -/
def componentFindings (inv : Inventory) (oldest newest : Version) (rule : ComponentRule) : List Finding :=
  let vs := componentVersions X inv rule.component
  let limit := fun v => if rule.legacy then legacyMaxBehind rule.maxBehind v else rule.maxBehind
  let newer := vs.filter (·.gt oldest)
  let behind := vs.filter fun v => !v.gt oldest && minorsBehind newest v > limit v
  (if newer = [] then [] else
    [skewFinding rule.newerSev (rule.component ++ "-newer") s!"{rule.component} is newer than kube-apiserver"
      s!"{rule.component} {versionsText newer} is newer than the oldest kube-apiserver ({oldest}); {rule.newerDetail}."
      skewPolicyURL]) ++
  (if behind = [] then [] else
    [skewFinding .warning (rule.component ++ "-behind") s!"{rule.component} exceeds version skew vs kube-apiserver"
      (s!"{rule.component} {versionsText behind} is more than {rule.maxBehind} minor version(s) behind the newest kube-apiserver ({newest})." ++
        legacyNote "kube-proxy versions" (behind.any fun v => limit v < rule.maxBehind)) skewPolicyURL])

/-- The kube-proxies that the control-plane upgrade would put out of policy. -/
def proxyPostFinding (inv : Inventory) (k : KB) (target : Version) : List Finding :=
  let maxBehind := k.skew.kubeProxyMaxBehind
  let bad := (componentVersions X inv "kube-proxy").filter fun v =>
    minorsBehind target v > legacyMaxBehind maxBehind v
  if bad = [] then [] else
    [skewFinding .blocker "kube-proxy-post-upgrade"
      s!"kube-proxy would exceed version skew after upgrading to {target}"
      (s!"After upgrading the control plane to {target}, kube-proxy {versionsText bad} would be more than {maxBehind} minor versions behind kube-apiserver; upgrade kube-proxy first." ++
        legacyNote "kube-proxy versions" (bad.any fun v => legacyMaxBehind maxBehind v < maxBehind))
      skewPolicyURL]

/-- Apiservers further apart than the policy allows. -/
def haSpreadFinding (api : List Version) (k : KB) : List Finding :=
  match api with
  | oldest :: next :: rest =>
    let newest := (oldest :: next :: rest).getLast (by simp)
    let spread := minorsBehind newest oldest
    if spread > k.skew.apiServerHASpread then
      [skewFinding .warning "apiserver-ha-spread" s!"HA kube-apiserver replicas span {spread} minor versions"
        s!"Observed kube-apiserver versions: {versionsText (oldest :: next :: rest)}. The version-skew policy requires HA kube-apiserver instances to be within {k.skew.apiServerHASpread} minor version of each other."
        skewPolicyURL]
    else []
  | _ => []

/-- `evalControlPlaneSkew`: the component rules against the observed apiservers, the reported server
version standing in for none. -/
def evalControlPlaneSkew (inv : Inventory) (k : KB) (target : Version) : List Finding :=
  if inv.controlPlane = [] then []
  else
    let api := componentVersions X inv "kube-apiserver"
    let seen := if api = [] then (version? X inv.serverVersion).toList else api
    proxyPostFinding X inv k target ++ haSpreadFinding api k ++
      match seen with
      | [] => []
      | oldest :: rest =>
        (componentRules k).flatMap
          (componentFindings X inv oldest ((oldest :: rest).getLast (by simp)))

/-! ## A kube-proxy beside its kubelet -/

/-- The kubelet of a node, the last entry that parses counting. -/
def kubeletOf (inv : Inventory) (node : String) : Option (Version × String) :=
  (inv.nodes.filterMap fun n =>
    if n.name = node then (version? X n.kubeletVersion).map fun v => (v, n.kubeletVersion) else none).getLast?

/-- A kube-proxy out of policy with its node's kubelet: the node, and the raw versions. -/
def proxyMismatch (inv : Inventory) (k : KB) (cv : ComponentVersion) :
    Option (String × (String × String × Bool)) :=
  if cv.component ≠ "kube-proxy" ∨ cv.node = "" then none
  else match kubeletOf X inv cv.node, version? X cv.version with
    | some (kv, raw), some pv =>
      let limit := legacyMaxBehind k.skew.kubeProxyMaxBehind pv
      if minorsBehind kv pv ≤ limit ∧ minorsBehind pv kv ≤ limit then none
      else some (cv.node, raw, cv.version, limit < k.skew.kubeProxyMaxBehind)
    | _, _ => none

/-- `evalKubeProxyKubeletSkew`: one warning for each node, in the order of their names. -/
def evalKubeProxyKubeletSkew (inv : Inventory) (k : KB) : List Finding :=
  (groupOn (·.1) (inv.controlPlane.filterMap (proxyMismatch X inv k))).map fun (node, bad) =>
    let kubelet := ((bad.head?).map (·.2.1)).getD ""
    let proxies := join (sorted (bad.map (·.2.2.1))) ", "
    skewFinding .warning ("kube-proxy-kubelet/" ++ node)
      s!"kube-proxy on node {node} exceeds version skew vs its kubelet"
      (s!"kube-proxy {proxies} on node {node} is more than {k.skew.kubeProxyMaxBehind} minor version(s) older or newer than the kubelet on that node ({kubelet})." ++
        legacyNote "kube-proxy versions" (bad.any (·.2.2.2)))
      (skewPolicyURL ++ "#kube-proxy")

/-! ## The knowledge base and the upgrade path -/

/-- `evalKBStale`: the cluster or the target is newer than the knowledge base. -/
def evalKBStale (inv : Inventory) (k : KB) (target : Version) : List Finding :=
  let newest := match version? X inv.serverVersion with
    | some server => if server.gt target then server else target
    | none => target
  if newest.le k.maxKnownK8s then []
  else
    [{ category := .kbStale
       severity := .warning
       key := Category.kbStale.name
       title := s!"knowledge base does not cover Kubernetes {newest} (newest known: {k.maxKnownK8s})"
       detail := s!"Findings may be incomplete; regenerate the knowledge base (kb version {k.version})." }]

/-- `upgradeFrom`: the oldest observed apiserver of a cluster. -/
def upgradeFrom (inv : Inventory) : Option Version :=
  if inv.source = .files then none else (apiserverVersions X inv).head?

/-- `maxSpelledHops`. -/
def maxSpelledHops : ℤ := 3

/-- The loop that spells out the path: `for v := …; v.Compare(target) <= 0; v = v.Next()`, at most
`fuel` turns; `none` when it has not ended by then. -/
def pathLoop (target : Version) : ℕ → Version → Option (List Version)
  | 0, v => if v.le target then none else some []
  | n + 1, v => if v.le target then (pathLoop target n v.next).map (v :: ·) else some []

/-- `evalUpgradePath`: a target more than one minor ahead is several upgrades. The loop is given
`fuel` turns; `none` when it takes more. -/
def evalUpgradePath (fuel : ℕ) (inv : Inventory) (target : Version) : Option (List Finding) :=
  match upgradeFrom X inv with
  | none => some []
  | some running =>
    let hops := wrap64 (target.minor - running.minor)
    if target.major ≠ running.major ∨ hops < 2 then some []
    else
      let path :=
        if hops ≤ maxSpelledHops then
          (pathLoop target fuel running.next).map fun steps => ": " ++ versionsText steps
        else some s!" ({running} → {running.next} → … → {target})"
      path.map fun text =>
        [skewFinding .info "upgrade-path"
          s!"upgrading from {running} to {target} takes {hops} minor-version upgrades{text}"
          s!"The control plane is upgraded one minor version at a time. This report judges the cluster as it is against {target}; add-ons, charts and nodes may need upgrading at each step in between."
          skewPolicyURL]

variable {X} in
/-- The path of an upgrade is one finding, or none. -/
theorem evalUpgradePath_eq_some {fuel : ℕ} {inv : Inventory} {target : Version} {fs : List Finding}
    (h : evalUpgradePath X fuel inv target = some fs) :
    fs = [] ∨ ∃ title detail, fs = [skewFinding .info "upgrade-path" title detail skewPolicyURL] := by
  unfold evalUpgradePath at h
  split at h
  · exact .inl (Option.some.inj h).symm
  · dsimp only at h
    split at h
    · exact .inl (Option.some.inj h).symm
    · obtain ⟨text, -, rfl⟩ := Option.map_eq_some_iff.mp h
      exact .inr ⟨_, _, rfl⟩

end Skew

end UpgradeScope
