import UpgradeScope.Engine.Rising
import UpgradeScope.Server.Answer

/-!
# A scoped gate sees its share

A gate that a team's credential asks for is decided by the scope's share of the cluster. Two clusters
that differ only in what lies outside the scope's namespaces have one share (`clusterShare_eq`), so the
scope gets one answer to every stream and under every rule (`scoped_gate_agrees`).
-/

namespace UpgradeScope

open Go Merging Kb

/-! ## What two inventories agree on -/

/-- An inventory without its evidence: what describes the cluster as a whole. -/
def Inventory.frame (inv : Inventory) : Inventory :=
  { inv with
    apiUsage := []
    deprecatedCalls := []
    helmReleases := []
    gitopsCharts := []
    addOns := []
    unrecognizedImages := []
    unrecognizedImagesOmitted := 0
    crds := inv.crds.map fun c => { c with usage := [] }
    apiAuthorshipUnknown := []
    volumePlugins := [] }

section Parts

variable («in» : String → Bool)

/-- What a usage row has in the namespaces of a scope: its API, what it counts there and the objects it lists there. -/
def scopePart (u : APIUsage) : (String × String × String) × NamespaceCounts × List ObjectRef :=
  ((u.group, u.version, u.kind), keptCounts «in» u.namespaces, u.objects.filter fun o => «in» o.namespace)

/-- The rows with evidence in the scope come in one order and have the same there. -/
def AgreeIn (us us' : List APIUsage) : Prop :=
  (us.filter (hasEvidence «in»)).map (scopePart «in») = (us'.filter (hasEvidence «in»)).map (scopePart «in»)

end Parts

/-- Two inventories differ only in evidence outside the namespaces of a scope. -/
structure DifferOutside (teams : List String) (inv inv' : Inventory) : Prop where
  /-- They describe one cluster: its version, nodes, control plane, capabilities, definitions and namespaces. -/
  frame : inv.frame = inv'.frame
  /-- The objects at flagged APIs. -/
  apiUsage : AgreeIn (inScope teams inv.namespaces) inv.apiUsage inv'.apiUsage
  /-- The objects nothing can be attributed to. -/
  unknown : AgreeIn (inScope teams inv.namespaces) inv.apiAuthorshipUnknown inv'.apiAuthorshipUnknown
  /-- The custom resources of each definition. -/
  crds : List.Forall₂ (fun c c' => AgreeIn (inScope teams inv.namespaces) c.usage c'.usage) inv.crds inv'.crds
  /-- The Helm releases. -/
  releases : (inv.helmReleases.filter fun r => inScope teams inv.namespaces r.namespace) =
    inv'.helmReleases.filter fun r => inScope teams inv.namespaces r.namespace
  /-- The charts that GitOps tools deploy from and into the scope. -/
  charts : (inv.gitopsCharts.filter fun c => inScope teams inv.namespaces c.namespace &&
      (c.target = "" || inScope teams inv.namespaces c.target)) =
    inv'.gitopsCharts.filter fun c => inScope teams inv.namespaces c.namespace &&
      (c.target = "" || inScope teams inv.namespaces c.target)
  /-- The add-on installs. -/
  addOns : (inv.addOns.filter fun a => a.namespaces.any (inScope teams inv.namespaces)) =
    inv'.addOns.filter fun a => a.namespaces.any (inScope teams inv.namespaces)
  /-- The volume plugins. -/
  volumes : AgreeIn (inScope teams inv.namespaces) (inv.volumePlugins.map (·.asUsage)) (inv'.volumePlugins.map (·.asUsage))

/-! ## One share -/

section Share

variable {«in» : String → Bool} {us us' : List APIUsage}

/-- The share of a row is decided by what it has in the scope. -/
theorem shareOf_eq_of_part {add : ℤ → ℤ → ℤ} {u u' : APIUsage} (h : scopePart «in» u = scopePart «in» u') :
    shareOf «in» add u = shareOf «in» add u' := by
  simp only [scopePart, Prod.mk.injEq] at h
  obtain ⟨⟨hgroup, hversion, hkind⟩, hcounts, hobjects⟩ := h
  unfold shareOf rowShare
  dsimp only
  rw [hcounts, hobjects, hgroup, hversion, hkind]

/-- Rows that agree in the scope have one share. -/
theorem AgreeIn.shareOf (h : AgreeIn «in» us us') {add : ℤ → ℤ → ℤ} (hadd : add = plainAdd ∨ add = satAdd) :
    us.filterMap (shareOf «in» add) = us'.filterMap (shareOf «in» add) := by
  have hdrop : ∀ (us : List APIUsage), ∀ u ∈ us, hasEvidence «in» u = false → UpgradeScope.shareOf «in» add u = none :=
    fun _ _ _ hnone => shareOf_eq_none hadd hnone
  rw [← filterMap_filter_of_drop (hdrop us), ← filterMap_filter_of_drop (hdrop us')]
  have hparts := Sorting.forall₂_of_map_eq h
  generalize us.filter (hasEvidence «in») = l at hparts ⊢
  generalize us'.filter (hasEvidence «in») = l' at hparts ⊢
  induction hparts with
  | nil => rfl
  | cons hpart _ ih => rw [List.filterMap_cons, List.filterMap_cons, shareOf_eq_of_part hpart, ih]

/-- A volume plugin row is read back from its usage row. -/
theorem asUsage_injective : Function.Injective VolumePluginUse.asUsage := by
  intro v v' h
  cases v
  cases v'
  simp_all [VolumePluginUse.asUsage]

/-- A list of installs reduced to the scope is the installs in the scope, each reduced. -/
theorem reduced_addOns (addOns : List AddOnInstance) :
    ((addOns.map fun a => { a with namespaces := a.namespaces.filter «in» }).filter (·.namespaces ≠ [])) =
      (addOns.filter fun a => a.namespaces.any «in»).map fun a => { a with namespaces := a.namespaces.filter «in» } := by
  rw [List.filter_map]
  refine congrArg _ (List.filter_congr fun a _ => ?_)
  rw [Bool.eq_iff_iff]
  simp [List.filter_eq_nil_iff]

end Share

/-- Inventories that differ only outside a scope have one share. -/
theorem DifferOutside.clusterShare_eq {teams : List String} {inv inv' : Inventory} (h : DifferOutside teams inv inv') :
    (⟨some teams⟩ : ReadScope).clusterShare inv = (⟨some teams⟩ : ReadScope).clusterShare inv' := by
  have hns : inv'.namespaces = inv.namespaces := (congrArg Inventory.namespaces h.frame).symm
  have hdefs : List.Forall₂ (fun c c' : CRD => { c with usage := [] } = ({ c' with usage := [] } : CRD)) inv.crds inv'.crds :=
    Sorting.forall₂_of_map_eq (congrArg Inventory.crds h.frame)
  have hcrds : (inv.crds.map fun c => { c with usage := usageShare (inScope teams inv.namespaces) c.usage }) =
      inv'.crds.map fun c => { c with usage := usageShare (inScope teams inv.namespaces) c.usage } := by
    have hrows := h.crds
    generalize inv.crds = cs at hdefs hrows ⊢
    generalize inv'.crds = cs' at hdefs hrows ⊢
    induction hdefs with
    | nil => rfl
    | @cons c c' l l' hdef _ ih =>
      obtain ⟨hrow, hrest⟩ := List.forall₂_cons.mp hrows
      have hshare : usageShare (inScope teams inv.namespaces) c.usage = usageShare (inScope teams inv.namespaces) c'.usage :=
        hrow.shareOf (.inl rfl)
      have hhead := congrArg (fun d : CRD =>
        ({ d with usage := usageShare (inScope teams inv.namespaces) c'.usage } : CRD)) hdef
      rw [List.map_cons, List.map_cons, ih hrest, hshare]
      exact congrArg (· :: _) hhead
  have hvolumes : volumeShare (inScope teams inv.namespaces) inv.volumePlugins =
      volumeShare (inScope teams inv.namespaces) inv'.volumePlugins := by
    refine asUsage_injective.list_map ?_
    rw [map_asUsage_volumeShare, map_asUsage_volumeShare]
    exact h.volumes.shareOf (.inr rfl)
  -- Both shares are the common frame with the same lists put in.
  have hframe := congrArg (fun f : Inventory =>
    ({ f with
      namespaces := inv.namespaces.filter fun n => inScope teams inv.namespaces n.name
      apiUsage := usageShare (inScope teams inv.namespaces) inv'.apiUsage
      apiAuthorshipUnknown := usageShare (inScope teams inv.namespaces) inv'.apiAuthorshipUnknown
      crds := inv'.crds.map fun c => { c with usage := usageShare (inScope teams inv.namespaces) c.usage }
      helmReleases := inv'.helmReleases.filter fun r => inScope teams inv.namespaces r.namespace
      gitopsCharts := inv'.gitopsCharts.filter fun c => inScope teams inv.namespaces c.namespace &&
        (c.target = "" || inScope teams inv.namespaces c.target)
      addOns := (inv'.addOns.map fun a =>
        { a with namespaces := a.namespaces.filter (inScope teams inv.namespaces) }).filter (·.namespaces ≠ [])
      volumePlugins := volumeShare (inScope teams inv.namespaces) inv'.volumePlugins } : Inventory)) h.frame
  have husage : usageShare (inScope teams inv.namespaces) inv.apiUsage = usageShare (inScope teams inv.namespaces) inv'.apiUsage :=
    h.apiUsage.shareOf (.inl rfl)
  have hunknown : usageShare (inScope teams inv.namespaces) inv.apiAuthorshipUnknown =
      usageShare (inScope teams inv.namespaces) inv'.apiAuthorshipUnknown := h.unknown.shareOf (.inl rfl)
  unfold ReadScope.clusterShare
  dsimp only
  rw [hns, husage, hunknown, hcrds, h.releases, h.charts, reduced_addOns, h.addOns, ← reduced_addOns, hvolumes]
  exact hframe

/-! ## One answer -/

section Gate

variable (registered : String → Bool) (fuel : ℕ) (X : External) (k : KB) (now : Time) (limit : ℤ)
  (teamMap : List NamespaceInfo → List NamespaceInfo)

/-- An inventory with the teams that the team map gives its namespaces. -/
def attributed (inv : Inventory) : Inventory := { inv with namespaces := teamMap inv.namespaces }

variable {teams : List String} {inv inv' : Inventory}

/-- For every team scope and every two clusters that differ only in evidence outside its namespaces: they have one share, and
a gate of the scope gives one answer with either, its findings, verdicts, score and refusals, to every stream and under every
list of rules. -/
theorem scoped_gate_agrees (h : DifferOutside teams (attributed teamMap inv) (attributed teamMap inv')) :
    (⟨some teams⟩ : ReadScope).clusterShare (attributed teamMap inv) =
        (⟨some teams⟩ : ReadScope).clusterShare (attributed teamMap inv') ∧
      ∀ (req : GateRequest) (viewed : Bool) (posted : Inventory), req.scope = ⟨some teams⟩ →
        gateAnswer registered fuel X k now limit teamMap req (some (inv, viewed)) posted =
          gateAnswer registered fuel X k now limit teamMap req (some (inv', viewed)) posted := by
  refine ⟨h.clusterShare_eq, fun req viewed posted hscope => ?_⟩
  have hshare : req.scope.clusterShare (attributed teamMap inv) = req.scope.clusterShare (attributed teamMap inv') := by
    rw [hscope]
    exact h.clusterShare_eq
  exact congrArg (answerWithin registered fuel X k now limit req · viewed (atPath req.artifact posted)) hshare

end Gate

/-- A cluster of two teams, with an Ingress of the shop's and some of the other's. -/
def sharedCluster (others : ℤ) (refs : List ObjectRef) (calls : List DeprecatedCall) : Inventory where
  serverVersion := "v1.21.0"
  namespaces := [⟨"shop", "store"⟩, ⟨"web", "site"⟩]
  apiUsage :=
    [{ group := "extensions", version := "v1beta1", kind := "Ingress", count := 1 + others
       namespaces := ((∅ : NamespaceCounts).insert "web" others).insert "shop" 1
       objects := { «namespace» := "shop", name := "api" } :: refs }]
  deprecatedCalls := calls

/-- A stream with one more Ingress. -/
def postedIngresses : Inventory where
  source := .files
  apiUsage :=
    [{ group := "extensions", version := "v1beta1", kind := "Ingress", count := 1
       namespaces := (∅ : NamespaceCounts).insert "shop" 1
       objects := [{ «namespace» := "shop", name := "cart", line := 4 }] }]

/-- Two clusters whose second team has two Ingresses and a client of them, or one Ingress, give the first team one answer. -/
theorem scoped_gate_agrees_two_teams :
    let inv := sharedCluster 2 [{ «namespace» := "web", name := "a" }, { «namespace» := "web", name := "b" }]
      [{ group := "extensions", version := "v1beta1", resource := "ingresses" }]
    let inv' := sharedCluster 1 [{ «namespace» := "web", name := "c" }] []
    let req : GateRequest := { target := ⟨1, 22⟩, scope := ⟨some ["store"]⟩ }
    DifferOutside ["store"] (attributed id inv) (attributed id inv') ∧
      ∃ resp, gateAnswer (fun _ => false) 3 External.ascii removesIngress 0 (2 ^ 20) id req (some (inv, false)) postedIngresses =
          some (.ok resp) ∧
        gateAnswer (fun _ => false) 3 External.ascii removesIngress 0 (2 ^ 20) id req (some (inv', false)) postedIngresses =
          some (.ok resp) ∧
        resp.verdict = .blocked := by
  intro inv inv' req
  have hdiffer : DifferOutside ["store"] (attributed id inv) (attributed id inv') :=
    ⟨rfl, rfl, rfl, List.Forall₂.nil, rfl, rfl, rfl, rfl⟩
  have hanswer : (gateAnswer (fun _ => false) 3 External.ascii removesIngress 0 (2 ^ 20) id req (some (inv, false))
      postedIngresses).any (fun r => r.toOption.any fun resp => decide (resp.verdict = .blocked)) = true := by decide +kernel
  obtain ⟨resp, hresp, hblocked⟩ := exists_ok_of_any hanswer
  refine ⟨hdiffer, resp, hresp, ?_, hblocked⟩
  rw [← (scoped_gate_agrees _ _ _ _ _ _ _ hdiffer).2 req false postedIngresses rfl]
  exact hresp

end UpgradeScope
