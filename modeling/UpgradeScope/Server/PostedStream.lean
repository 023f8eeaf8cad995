import UpgradeScope.Collect.ManifestRuns
import UpgradeScope.Collect.PodPass
import UpgradeScope.Server.EmptyStream
import UpgradeScope.Server.GateOmitted

/-!
# The inventory of a posted stream

`CollectManifests` of `internal/collect/files.go` counts the objects of a stream by their API (`accumulate`), matches them
with the registry's add-ons, gives each definition among them the custom resources at a version it does not serve or
deprecates (`assessCRDs`), and counts the volume plugins they name. The merge of a gate relies on what such an inventory
looks like: `posted_collectManifests` has it of every stream of at most 2^40 objects, and of an empty one
`collectManifests_nil` says that it is the empty stream's.
-/

namespace UpgradeScope.Collect

open Go Sorting Merging

/-! ## `CollectManifests` -/

/-- `manifestObject`, with what else is read of an object. -/
structure StreamObject extends ManifestObject where
  /-- The definition, where the object is one; its custom resources are found later. -/
  crd : Option CRD := none
  /-- No custom resources are in it. -/
  crd_usage : ∀ c ∈ crd, c.usage = [] := by simp
  /-- `manifestVolumePlugins`: the in-tree volume plugins that it names. -/
  volumes : List String := []
  /-- Each is named once. -/
  volumes_nodup : volumes.Nodup := by simp

/-- `crdsOf`: the definitions among the objects, in order. -/
def crdsOf (objs : List StreamObject) : List CRD :=
  objs.filterMap fun o => o.crd.filter fun c => c.group ≠ "" ∧ c.kind ≠ ""

/-- `volumeTally.addObjects`. -/
def addObjects (objs : List StreamObject) : PodPass.VolumeTally :=
  objs.flatMap fun o => o.volumes.map fun p => ⟨p, o.ref.namespace, some o.ref⟩

/-- `manifestInventory`: the counts in the envelope of an offline inventory, in which only the API usage is read. -/
def manifestInventory (clusterID reason : String) (collectedAt : Time) (counts : List APIUsage) : Inventory where
  clusterID := clusterID
  collectorSchema := currentCollectorSchema
  source := .files
  collectedAt := collectedAt
  apiUsage := usageRows counts
  capabilities :=
    let unread : CapabilityStatus := { available := false, reason := reason }
    (((((∅ : AList fun _ : Capability => CapabilityStatus).insert capAPIUsage { available := true }).insert
      capDeprecatedCalls unread).insert capHelm unread).insert capAddOns unread).insert capVersions unread

/-- `setUnrecognized`. -/
def setUnrecognized (inv : Inventory) (repos : List String) : Inventory :=
  { inv with
    unrecognizedImages := repos.take maxUnrecognizedImages
    unrecognizedImagesOmitted := (repos.length - maxUnrecognizedImages : ℕ) }

/-- `assessAddOns`, with what `matchAddOns` answers: the installs and the images that no add-on claims. -/
def assessAddOns (inv : Inventory) (matched : List AddOnInstance × List String) : Inventory :=
  let inv := setUnrecognized { inv with addOns := matched.1 } matched.2
  { inv with capabilities := inv.capabilities.insert capAddOns { available := true } }

/-- `assessVolumes` of a stream all of which was decoded. -/
def assessVolumes (inv : Inventory) (t : PodPass.VolumeTally) : Inventory :=
  { inv with
    volumePlugins := PodPass.rows t
    capabilities := inv.capabilities.insert capVolumes { available := true } }

/-- `CollectManifests`, of the objects that the parser finds and of what `matchAddOns` answers for them. -/
def collectManifests (registered : String → Bool) (collectedAt : Time) (matched : List AddOnInstance × List String)
    (objs : List StreamObject) : Inventory :=
  let inv := manifestInventory "manifests" "manifests mode" collectedAt (accumulate [] (objs.map (·.toManifestObject)))
  assessVolumes (assessCRDs registered (assessAddOns inv matched) (crdsOf objs)) (addObjects objs)

/-! ## What the rows count -/

/-- The rows of at most `n` objects: each API has one, and none leaves out more than there are. -/
structure Counted (n : ℕ) (counts : List APIUsage) : Prop where
  /-- A group, version and kind has one row. -/
  once : (counts.map rowGVK).Nodup
  /-- The objects left out are some of them. -/
  omitted : ∀ u ∈ counts, 0 ≤ u.objectsOmitted ∧ u.objectsOmitted ≤ n

@[simp] theorem rowGVK_addObject (u : APIUsage) (ref : ObjectRef) : rowGVK (addObject u ref) = rowGVK u := by
  unfold addObject
  dsimp only
  split_ifs <;> rfl

/-- One object more leaves out one more at most. -/
theorem objectsOmitted_addObject (u : APIUsage) (ref : ObjectRef) :
    u.objectsOmitted ≤ (addObject u ref).objectsOmitted ∧ (addObject u ref).objectsOmitted ≤ u.objectsOmitted + 1 := by
  unfold addObject
  dsimp only
  split_ifs <;> simp

/-- One object more is counted in the row of its API. -/
theorem Counted.countObject {n : ℕ} {counts : List APIUsage} (h : Counted n counts) (o : ManifestObject) :
    Counted (n + 1) (countObject counts o) := by
  unfold Collect.countObject
  split_ifs with hany
  · have hkeys : (counts.map fun u => if rowGVK u = o.gvk then addObject u o.ref else u).map rowGVK = counts.map rowGVK := by
      rw [List.map_map]
      refine List.map_congr_left fun u _ => ?_
      rw [Function.comp_apply]
      split_ifs <;> simp
    refine ⟨hkeys ▸ h.once, fun r hr => ?_⟩
    obtain ⟨u, hu, rfl⟩ := List.mem_map.mp hr
    have hrow := h.omitted u hu
    have hadded := objectsOmitted_addObject u o.ref
    split_ifs <;> push_cast <;> omega
  · have hnew : o.gvk ∉ counts.map rowGVK := by
      intro hmem
      obtain ⟨u, hu, hkey⟩ := List.mem_map.mp hmem
      exact hany (List.any_eq_true.mpr ⟨u, hu, decide_eq_true hkey⟩)
    refine ⟨?_, fun r hr => ?_⟩
    · rw [List.map_append, List.map_singleton, rowGVK_addObject]
      exact List.nodup_append.mpr ⟨h.once, List.nodup_singleton _, fun a ha b hb => by
        rw [List.mem_singleton.mp hb]
        rintro rfl
        exact hnew ha⟩
    · rcases List.mem_append.mp hr with hr | hr
      · have hrow := h.omitted r hr
        push_cast
        omega
      · rw [List.mem_singleton.mp hr]
        have hadded := objectsOmitted_addObject
          { group := o.group, version := o.version, kind := o.kind, count := 0 } o.ref
        push_cast
        dsimp only at hadded
        omega

/-- The rows of a stream count its objects. -/
theorem counted_accumulate (objs : List ManifestObject) : Counted objs.length (accumulate [] objs) := by
  induction objs using List.reverseRecOn with
  | nil => exact ⟨List.nodup_nil, by simp [accumulate]⟩
  | append_singleton objs o ih =>
    rw [accumulate, List.foldl_append, List.length_append]
    exact ih.countObject o

/-! ## What the gate relies on -/

/-- The definitions that a later one of the group and kind does not replace are among those found. -/
theorem mem_of_mem_foldl_upsertOn {κ : Type} [DecidableEq κ] {key : CRD → κ} {crds out : List CRD} {c : CRD}
    (h : c ∈ crds.foldl (upsertOn key fun _ c => c) out) : c ∈ out ∨ c ∈ crds := by
  induction crds generalizing out with
  | nil => exact .inl h
  | cons d crds ih =>
    rcases ih h with hmem | hmem
    · rcases mem_upsertOn hmem with hout | rfl | ⟨_, -, rfl⟩
      · exact .inl hout
      · exact .inr List.mem_cons_self
      · exact .inr List.mem_cons_self
    · exact .inr (List.mem_cons_of_mem _ hmem)

/-- The users of a plugin in a stream are as many objects. -/
theorem length_users_le (objs : List StreamObject) (plugin : String) :
    ((addObjects objs).filter (·.plugin = plugin)).length ≤ objs.length := by
  induction objs with
  | nil => simp [addObjects]
  | cons o objs ih =>
    have hone : ((o.volumes.map fun p => (⟨p, o.ref.namespace, some o.ref⟩ : PodPass.VolumeUser)).filter (·.plugin = plugin)).length ≤ 1 :=
      length_filter_key_le_one (p := fun p => decide (p = plugin))
        (fun a b ha hb => (of_decide_eq_true ha).trans (of_decide_eq_true hb).symm)
        (by rw [List.map_map]; exact (List.map_id o.volumes).symm ▸ o.volumes_nodup)
    unfold addObjects at ih ⊢
    rw [List.flatMap_cons, List.filter_append, List.length_append, List.length_cons]
    omega

/-- What a stream is collected to is what the merge of a gate relies on. -/
theorem posted_collectManifests (registered : String → Bool) (collectedAt : Time)
    (matched : List AddOnInstance × List String) {objs : List StreamObject} (h : objs.length ≤ 2 ^ 40) :
    Posted (collectManifests registered collectedAt matched objs) := by
  have hcounted := counted_accumulate (objs.map (·.toManifestObject))
  rw [List.length_map] at hcounted
  have hbound : (objs.length : ℤ) ≤ 2 ^ 40 := by exact_mod_cast h
  refine ⟨rfl, rfl, fun u hu => ?_, fun c hc u hu => ?_, fun v hv => ?_, ?_⟩
  · have hrow := hcounted.omitted u (mem_sortOn.mp hu)
    omega
  · -- A definition comes without custom resources, and is given some of the stream's.
    obtain ⟨d, hd, rfl⟩ := List.mem_map.mp hc
    rcases List.mem_append.mp hu with hu | hu
    · have hfound := (mem_of_mem_foldl_upsertOn (mem_sortOn.mp hd)).resolve_left List.not_mem_nil
      obtain ⟨o, -, hcrd⟩ := List.mem_filterMap.mp hfound
      simp [o.crd_usage d (Option.filter_eq_some_iff.mp hcrd).1] at hu
    · exact List.mem_of_mem_filter hu
  · obtain ⟨plugin, -, rfl⟩ := List.mem_map.mp hv
    have husers := length_users_le objs plugin
    have hrefs := List.length_filterMap_le (·.ref) ((addObjects objs).filter (·.plugin = plugin))
    unfold PodPass.pluginRow
    dsimp only
    omega
  · exact ((sortOn_perm _ _).map _).nodup_iff.mpr hcounted.once

/-- A stream without objects is the empty one, its capabilities in whatever order. -/
theorem collectManifests_nil (registered : String → Bool) (collectedAt : Time) :
    let inv := collectManifests registered collectedAt ([], []) []
    inv = { emptyStream collectedAt with capabilities := inv.capabilities } ∧
      inv.capabilities.entries.Perm (emptyStream collectedAt).capabilities.entries := by
  refine ⟨rfl, ?_⟩
  have hcaps : (collectManifests registered collectedAt ([], []) []).capabilities.entries =
      [⟨capVolumes, { available := true }⟩, ⟨capCRDs, { available := true }⟩, ⟨capAddOns, { available := true }⟩,
        ⟨capVersions, { available := false, reason := "manifests mode" }⟩,
        ⟨capHelm, { available := false, reason := "manifests mode" }⟩,
        ⟨capDeprecatedCalls, { available := false, reason := "manifests mode" }⟩,
        ⟨capAPIUsage, { available := true }⟩] := rfl
  have hempty : (emptyStream collectedAt).capabilities = (emptyStream 0).capabilities := rfl
  rw [hcaps, hempty]
  decide

end UpgradeScope.Collect
