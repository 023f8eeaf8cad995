import UpgradeScope.Engine.Reorder
import UpgradeScope.Inventory.Cut
import UpgradeScope.Inventory.Repairs

/-!
# Judging a repaired inventory

What a collector's repair drops may be what blocks an upgrade, so the gap it leaves must keep the verdict from being
ready. It does for a node or an add-on install of a cluster, and for a usage row that the repair names by an API the
target removes (`NamesBlocker`). It does not for a control-plane component, which the repair does not name, nor for a
row past the twenty names that are told, or whose name was cut, or whose API the target does not serve yet.
-/

namespace UpgradeScope

open Go Sorting Kb Registry

/-- The APIs whose usage rows are gone, as repairs name them. -/
def droppedAPIs (inv inv' : Inventory) : List String :=
  sortedSet ((elementNames inv capAPIUsage).filter fun api =>
    (elementNames inv' capAPIUsage).count api < (elementNames inv capAPIUsage).count api)

/-- A repair names what the engine reads as required: a cluster's node or add-on install is gone, or one of the APIs
it names is removed at the target. -/
def NamesBlocker (k : KB) (target : Version) (inv inv' : Inventory) : Prop :=
  (inv.source ≠ .files ∧ (inv'.nodes.length < inv.nodes.length ∨ inv'.addOns.length < inv.addOns.length)) ∨
    ∃ api ∈ (droppedAPIs inv inv').take maxNamedSkips, api = skippedNewerKB ∨ removedBy k target api = true

/-! ## Names -/

/-- The names of the elements are short. -/
theorem byteLen_elementNames {inv : Inventory} {c : Capability} {x : String} (h : x ∈ elementNames inv c) :
    byteLen x ≤ maxStringBytes := by
  unfold elementNames at h
  split_ifs at h
  · obtain ⟨u, -, rfl⟩ := List.mem_map.mp h
    have hgv := byteLen_utf8Prefix_le (if u.group = "" then u.version else u.group ++ "/" ++ u.version) 96
    have hkind := byteLen_utf8Prefix_le u.kind 64
    have hlen : byteLen (usageLabel u) =
        byteLen (utf8Prefix (if u.group = "" then u.version else u.group ++ "/" ++ u.version) 96) + 1 +
          byteLen (utf8Prefix u.kind 64) := by
      unfold usageLabel byteLen
      rw [String.utf8ByteSize_append, String.utf8ByteSize_append]
      rfl
    unfold maxStringBytes
    omega
  · obtain ⟨-, -, rfl⟩ := List.mem_map.mp h
    decide
  · obtain ⟨-, -, rfl⟩ := List.mem_map.mp h
    decide
  · simp at h

section Names

variable {inv inv' : Inventory} {names : List String} {c : Capability}

/-- The names that repairs record are names of elements. -/
theorem Tracks.subset (h : Tracks (elementNames inv c) (elementNames inv' c) names) {x : String} (hx : x ∈ names) :
    x ∈ elementNames inv c :=
  List.count_pos_iff.mp (lt_of_le_of_lt (Nat.zero_le _) ((h.mem x).mp hx))

/-- The names of the dropped usage rows, sorted. -/
theorem Tracks.sorted_eq (h : Tracks (elementNames inv capAPIUsage) (elementNames inv' capAPIUsage) names) :
    sorted names = droppedAPIs inv inv' := by
  refine sorted_eq_sortedSet h.nodup fun x => ?_
  rw [List.mem_filter, decide_eq_true_eq, ← h.mem]
  exact ⟨fun hx => ⟨h.subset hx, hx⟩, fun hx => hx.2⟩

/-- A name that all elements share is named when one is gone. -/
theorem Tracks.mem_shared {α : Type} {l l' : List α} {s x : String}
    (h : Tracks (l.map fun _ => s) (l'.map fun _ => s) names) :
    x ∈ names ↔ x = s ∧ l'.length < l.length := by
  rw [h.mem]
  by_cases hx : x = s
  · subst hx
    simp [List.map_const']
  · simp [List.map_const', List.count_replicate, Ne.symm hx, hx]

/-- Repairs of elements that share one name tell that name when one of them is gone. -/
theorem mem_named_of_shared {α : Type} {l l' : List α} {s x : String} {cr : CapRepairs}
    (h : Tracks (l.map fun _ => s) (l'.map fun _ => s) cr.skipped) :
    x ∈ cr.named ↔ x = s ∧ l'.length < l.length := by
  have hlen : cr.skipped.length ≤ 1 := by
    have hsub : cr.skipped ⊆ [s] := fun x hx => List.mem_singleton.mpr (h.mem_shared.mp hx).1
    exact (List.subperm_of_subset h.nodup hsub).length_le
  unfold CapRepairs.named
  rw [List.take_of_length_le, mem_sorted, h.mem_shared]
  rw [sorted, length_sortOn]
  exact hlen.trans (by decide)

end Names

/-! ## The gaps -/

section Gaps

variable {fuel : ℕ} {X : External} {inv inv' : Inventory} {k : KB} {target : Version} {now : Time} {r : Report}

variable {c : Capability} {repairs : Repairs} {g : CapabilityGap} {st : CapabilityStatus}

/-- The gap of a reported capability is one of the report. -/
theorem mem_assessmentGaps_of_reported (hst : inv.capabilities.lookup c = some st)
    (hg : reportedGap inv k target c st = some g) : g ∈ assessmentGaps X inv k target := by
  have hentry : g ∈ inv.capabilities.entries.filterMap fun e => reportedGap inv k target e.1 e.2 :=
    List.mem_filterMap.mpr ⟨⟨c, st⟩, AList.mem_lookup_iff.mp hst, hg⟩
  rw [assessmentGaps, mem_sortOn]
  simp only [List.mem_append]
  exact .inl (.inl (.inl (.inl (.inr hentry))))

/-- A gap that is required keeps the verdict from being ready. -/
theorem not_ready_of_gap (hr : evaluate fuel X inv k target now = some r) (hst : inv.capabilities.lookup c = some st)
    (havailable : st.available = true) (hpartly : st.partly = true)
    (hrequired : partialRequired inv k target c st = true) : r.verdict ≠ .ready := by
  obtain ⟨_, -, -, -, hverdict, hgaps⟩ := evaluate_findings fuel X inv k target now hr
  have hreported : reportedGap inv k target c st = some
      { capability := c, reason := st.reason, partly := true, skipped := sorted st.skipped
        required := partialRequired inv k target c st } := by
    simp [reportedGap, havailable, hpartly]
  have hgap : r.notAssessed.any (·.required) = true := by
    rw [hgaps, List.any_eq_true]
    exact ⟨_, mem_assessmentGaps_of_reported hst hreported, hrequired⟩
  rw [hverdict]
  unfold verdictFor
  split_ifs <;> simp

/-- Repairs that name something are made. -/
theorem mem_keys_of_named {x : String} (h : x ∈ (repairs.of c).named) :
    c ∈ repairs.map (·.1) := by
  by_contra hc
  have hnone : repairs.find? (·.1 = c) = none := by
    rw [List.find?_eq_none]
    intro p hp hpc
    exact hc (List.mem_map.mpr ⟨p, hp, by simpa using hpc⟩)
  have hempty : (repairs.of c).named = [] := by
    simp [Repairs.of, hnone, CapRepairs.named, sorted, sortOn]
  rw [hempty] at h
  exact List.not_mem_nil h

/-- The status of a capability of a repaired inventory, when it was available. -/
theorem conformed_status (htracks : Tracks (elementNames inv c) (elementNames inv' c) (repairs.of c).skipped)
    (hlookup : inv'.capabilities.lookup c = (inv.capabilities.lookup c).map fun st =>
      (if st.available ∧ c ∈ repairs.map (·.1) then st.cut.repaired (repairs.of c) else st.cut).cut)
    (havailable : (inv.capability c).available = true) :
    ∃ st', inv'.capabilities.lookup c = some st' ∧ st'.available = true ∧
      (∀ x ∈ (repairs.of c).named, st'.partly = true ∧ x ∈ st'.skipped) ∧
      ((inv.capability c).skipped = [] → ∀ x ∈ st'.skipped, x ∈ (repairs.of c).named) := by
  obtain ⟨st, hst⟩ : ∃ st, inv.capabilities.lookup c = some st := by
    cases hcase : inv.capabilities.lookup c with
    | none => simp [Inventory.capability, hcase] at havailable
    | some st => exact ⟨st, rfl⟩
  have hcapability : inv.capability c = st := by simp [Inventory.capability, hst]
  rw [hcapability] at havailable ⊢
  rw [hst, Option.map_some] at hlookup
  -- A name of the inventory is short already, so cutting it again keeps it.
  have hshort : ∀ x ∈ (repairs.of c).named, byteLen x ≤ maxStringBytes := fun x hx =>
    byteLen_elementNames (htracks.subset (mem_sorted.mp (List.mem_of_mem_take hx)))
  refine ⟨_, hlookup, ?_, fun x hx => ?_, fun hempty x hx => ?_⟩
  · split_ifs <;> exact havailable
  · rw [if_pos ⟨havailable, mem_keys_of_named hx⟩]
    refine ⟨rfl, List.mem_map.mpr ⟨x, ?_, ?_⟩⟩
    · exact mem_sortedSet.mpr (List.mem_append_right _ hx)
    · rw [cutText, if_pos (hshort x hx)]
  · have hcut : st.cut.skipped = [] := by simp [CapabilityStatus.cut, hempty]
    split_ifs at hx with hmade
    · obtain ⟨y, hy, rfl⟩ := List.mem_map.mp hx
      have hnamed : y ∈ (repairs.of c).named := by
        have := mem_sortedSet.mp hy
        rwa [hcut, List.nil_append] at this
      rwa [cutText, if_pos (hshort y hnamed)]
    · obtain ⟨y, hy, rfl⟩ := List.mem_map.mp hx
      rw [hcut] at hy
      exact absurd hy List.not_mem_nil

/-- A partial gap is that of a reported capability. -/
theorem exists_status_of_partly (h : g ∈ assessmentGaps X inv k target) (hpartly : g.partly = true) :
    ∃ st, inv.capabilities.lookup g.capability = some st ∧ g.required = partialRequired inv k target g.capability st := by
  rw [assessmentGaps, mem_sortOn] at h
  simp only [List.mem_append, Option.mem_toList] at h
  obtain (((((h | h) | h) | h) | h) | h) := h
  · obtain ⟨c, -, rfl⟩ := List.mem_map.mp h
    simp at hpartly
  · obtain ⟨e, he, hgap⟩ := List.mem_filterMap.mp h
    unfold reportedGap at hgap
    split_ifs at hgap
    · obtain rfl := Option.some.inj hgap
      exact ⟨e.2, AList.mem_lookup_iff.mpr he, rfl⟩
    · rw [← Option.some.inj hgap] at hpartly
      simp at hpartly
  · unfold unreportedGaps at h
    aesop
  · unfold serverVersionGap at h
    aesop
  · unfold coverageGap at h
    aesop
  · obtain ⟨running, -, h⟩ := Option.bind_eq_some_iff.mp h
    aesop

/-- More skipped makes a gap no less required. -/
theorem partialRequired_mono (hc : c ∈ judgedCapabilities) {st st' : CapabilityStatus}
    (hsub : ∀ x ∈ st.skipped, x ∈ st'.skipped) (h : partialRequired inv k target c st = true) :
    partialRequired inv k target c st' = true := by
  have hversions : capVersions ≠ capAPIUsage := by decide
  have husage : capAddOns ≠ capAPIUsage := by decide
  have haddOns : capAddOns ≠ capVersions := by decide
  simp only [judgedCapabilities, List.mem_cons, List.not_mem_nil, or_false] at hc
  obtain rfl | rfl | rfl := hc
  · simp only [partialRequired, ↓reduceIte, Bool.or_eq_true, decide_eq_true_eq, List.any_eq_true] at h ⊢
    rcases h with hmore | ⟨api, hapi, hremoved⟩
    · exact .inl (hsub _ hmore)
    · exact .inr ⟨api, hsub api hapi, hremoved⟩
  · simp only [partialRequired, hversions, ↓reduceIte, Bool.and_eq_true, decide_eq_true_eq] at h ⊢
    obtain ⟨x, hx⟩ := List.exists_mem_of_ne_nil _ h.2
    exact ⟨h.1, List.ne_nil_of_mem (hsub x hx)⟩
  · simp only [partialRequired, husage, haddOns, ↓reduceIte, Bool.and_eq_true, Bool.or_eq_true,
      decide_eq_true_eq] at h ⊢
    exact ⟨h.1, h.2.imp (hsub _) (hsub _)⟩

/-- The names of the repairs make one of the three gaps required when they name a blocker, and only then. -/
theorem namesBlocker_iff
    (htracks : ∀ c ∈ judgedCapabilities, Tracks (elementNames inv c) (elementNames inv' c) (repairs.of c).skipped)
    (hsource : inv'.source = inv.source) (hkb : k.addOns ≠ []) :
    NamesBlocker k target inv inv' ↔ ∃ c ∈ judgedCapabilities,
      partialRequired inv' k target c { available := true, skipped := (repairs.of c).named } = true := by
  have hversions : capVersions ≠ capAPIUsage := by decide
  have husage : capAddOns ≠ capAPIUsage := by decide
  have haddOns : capAddOns ≠ capVersions := by decide
  have hnodes := htracks capVersions (by decide)
  have hinstalls := htracks capAddOns (by decide)
  rw [elementNames_nodes, elementNames_nodes] at hnodes
  rw [elementNames_addOns, elementNames_addOns] at hinstalls
  have hnodesRequired : partialRequired inv' k target capVersions
        { available := true, skipped := (repairs.of capVersions).named } = true ↔
      inv.source ≠ .files ∧ inv'.nodes.length < inv.nodes.length := by
    simp only [partialRequired, hversions, ↓reduceIte, requiredCapability, hsource]
    have hcoverage : capVersions ≠ gapKBCoverage := by decide
    simp [List.eq_nil_iff_forall_not_mem, mem_named_of_shared hnodes, hcoverage]
  have hinstallsRequired : partialRequired inv' k target capAddOns
        { available := true, skipped := (repairs.of capAddOns).named } = true ↔
      inv.source ≠ .files ∧ inv'.addOns.length < inv.addOns.length := by
    have hpods : skippedNewerKB ≠ skippedPods := by decide
    have hcoverage : capAddOns ≠ gapKBCoverage := by decide
    simp only [partialRequired, husage, haddOns, ↓reduceIte, requiredCapability, hsource]
    simp [mem_named_of_shared hinstalls, hkb, hpods, hcoverage]
  have husageRequired : partialRequired inv' k target capAPIUsage
        { available := true, skipped := (repairs.of capAPIUsage).named } = true ↔
      ∃ api ∈ (droppedAPIs inv inv').take maxNamedSkips, api = skippedNewerKB ∨ removedBy k target api = true := by
    simp only [partialRequired, ↓reduceIte, CapRepairs.named, (htracks capAPIUsage (by decide)).sorted_eq]
    simp only [Bool.or_eq_true, decide_eq_true_eq, List.any_eq_true]
    constructor
    · rintro (h | ⟨api, hapi, h⟩)
      · exact ⟨_, h, .inl rfl⟩
      · exact ⟨api, hapi, .inr h⟩
    · rintro ⟨api, hapi, rfl | h⟩
      · exact .inl hapi
      · exact .inr ⟨api, hapi, h⟩
  -- One equivalence for each of the three capabilities.
  simp only [judgedCapabilities, List.mem_cons, List.not_mem_nil, or_false, exists_eq_or_imp, exists_eq_left]
  rw [husageRequired, hnodesRequired, hinstallsRequired, ← and_or_left, or_comm]
  rfl

/-- A repaired inventory is not ready when the repair names a blocker. Where it does not, nothing that was dropped
keeps the inventory from being ready: it is, unless a blocker or another gap is left. -/
theorem conformed_judged {lines : List String} (hconform : conform X inv = (inv', lines, none))
    (havailable : ∀ c ∈ judgedCapabilities, (inv.capability c).available = true) (hkb : k.addOns ≠ [])
    (hr : evaluate fuel X inv' k target now = some r) :
    (NamesBlocker k target inv inv' → r.verdict ≠ .ready) ∧
      (¬ NamesBlocker k target inv inv' → (∀ c ∈ judgedCapabilities, (inv.capability c).skipped = []) →
        (∀ f ∈ r.findings, f.severity ≠ .blocker) →
        (∀ g ∈ r.notAssessed, g.required = true → g.partly = true ∧ g.capability ∈ judgedCapabilities) →
        r.verdict = .ready) := by
  obtain ⟨repairs, htracks, hsource, hlookup⟩ := conform_spec hconform
  have hstatus := fun c hc => conformed_status (htracks c hc) (hlookup c) (havailable c hc)
  rw [namesBlocker_iff htracks hsource hkb]
  constructor
  · rintro ⟨c, hc, hrequired⟩
    obtain ⟨st', hst', havail', hnamed, -⟩ := hstatus c hc
    -- A name makes the gap required, so there is one, and it makes the status partial.
    have hpartly : st'.partly = true := by
      by_contra hpartly
      have hempty : (repairs.of c).named = [] :=
        List.eq_nil_iff_forall_not_mem.mpr fun x hx => hpartly (hnamed x hx).1
      rw [hempty] at hrequired
      simp only [judgedCapabilities, List.mem_cons, List.not_mem_nil, or_false] at hc
      obtain rfl | rfl | rfl := hc <;> simp [partialRequired] at hrequired
    refine not_ready_of_gap hr hst' havail' hpartly (partialRequired_mono hc (fun x hx => ?_) hrequired)
    exact (hnamed x hx).2
  · intro hnone hcomplete hblockers hgaps
    obtain ⟨_, -, -, -, hverdict, hgapsEq⟩ := evaluate_findings fuel X inv' k target now hr
    have hblocker : r.findings.any (·.severity = .blocker) = false := by
      rw [List.any_eq_false]
      exact fun f hf => by simpa using hblockers f hf
    have hgap : r.notAssessed.any (·.required) = false := by
      rw [List.any_eq_false]
      intro g hg hrequired
      obtain ⟨hpartly, hc⟩ := hgaps g hg hrequired
      obtain ⟨st, hst, heq⟩ := exists_status_of_partly (hgapsEq ▸ hg) hpartly
      obtain ⟨st', hst', -, -, hskipped⟩ := hstatus g.capability hc
      obtain rfl : st = st' := Option.some.inj (hst.symm.trans hst')
      refine hnone ⟨g.capability, hc, ?_⟩
      exact partialRequired_mono hc (hskipped (hcomplete _ hc)) (heq ▸ hrequired)
    rw [hverdict]
    simp [verdictFor, hblocker, hgap]

end Gaps

/-! ## A component on a node with a bad name -/

/-- What the packages answer, but for a node's name that is no subdomain. -/
def badNode : External :=
  { External.ascii with
    subdomainProblems := fun s => if s = "Bad_Node" then ["a lowercase RFC 1123 subdomain must consist of lower case alphanumeric characters, '-' or '.', and must start and end with an alphanumeric character"] else [] }

/-- A cluster at 1.30 whose three capabilities are complete. -/
def completeCluster : Inventory where
  schemaVersion := 1
  clusterID := "uid"
  serverVersion := "v1.30.0"
  capabilities := judgedCapabilities.foldl (fun m c => m.insert c { available := true }) ∅

/-- The cluster with a kube-proxy of 1.20 on the node. -/
def proxyCluster : Inventory :=
  { completeCluster with controlPlane := [{ component := "kube-proxy", version := "v1.20.0", node := "Bad_Node" }] }

/-- The cluster with a kubelet of 1.20 on the node. -/
def kubeletCluster : Inventory :=
  { completeCluster with nodes := [{ name := "Bad_Node", kubeletVersion := "v1.20.0" }] }

/-- A knowledge base with an add-on. -/
def smallKB : KB :=
  { maxKnownK8s := ⟨1, 34⟩
    skew := { kubeletMaxBehind := 3, apiServerHASpread := 1, ctrlMgrMaxBehind := 1, kubeProxyMaxBehind := 3 }
    addOns := [{ id := "istio", displayName := "Istio", support := { status := .supported } }] }

/-- The verdict of an inventory for the upgrade to 1.31. -/
def verdictOf (inv : Inventory) : Option Verdict := (evaluate 0 badNode inv smallKB ⟨1, 31⟩ 0).map (·.verdict)

/-- A dropped node keeps the repaired cluster from being ready. -/
theorem conformed_judged_kubelet :
    verdictOf kubeletCluster = some .blocked ∧ (conform badNode kubeletCluster).1.nodes = [] ∧
      ∃ r, evaluate 0 badNode (conform badNode kubeletCluster).1 smallKB ⟨1, 31⟩ 0 = some r ∧ r.verdict ≠ .ready := by
  have hnodes : (conform badNode kubeletCluster).1.nodes = [] := by decide +kernel
  have hconform : conform badNode kubeletCluster =
      ((conform badNode kubeletCluster).1, (conform badNode kubeletCluster).2.1, none) :=
    Prod.ext rfl (Prod.ext rfl (by decide +kernel))
  have hsome : (evaluate 0 badNode (conform badNode kubeletCluster).1 smallKB ⟨1, 31⟩ 0).isSome = true := by
    decide +kernel
  obtain ⟨r, hr⟩ := Option.isSome_iff_exists.mp hsome
  refine ⟨by decide +kernel, hnodes, r, hr, (conformed_judged hconform (by decide +kernel) (by decide) hr).1 ?_⟩
  refine .inl ⟨by decide, .inl ?_⟩
  rw [hnodes]
  decide

/-- A cluster that a kube-proxy blocks is ready once the repair has dropped the kube-proxy. -/
theorem ready_without_proxy :
    (∀ c ∈ judgedCapabilities, (proxyCluster.capability c).available = true) ∧ smallKB.addOns ≠ [] ∧
      verdictOf proxyCluster = some .blocked ∧
      (evaluate 0 badNode proxyCluster smallKB ⟨1, 31⟩ 0).map
          (fun r => (r.findings.filter (·.severity = .blocker)).map (·.key)) =
        some ["version-skew/kube-proxy-post-upgrade"] ∧
      (conform badNode proxyCluster).2.2 = none ∧ (conform badNode proxyCluster).1.controlPlane = [] ∧
      verdictOf (conform badNode proxyCluster).1 = some .ready := by
  refine ⟨?_, ?_, ?_, ?_, ?_, ?_, ?_⟩ <;> decide +kernel

end UpgradeScope
