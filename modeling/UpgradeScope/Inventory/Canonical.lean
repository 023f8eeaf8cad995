import UpgradeScope.Lib.Sorting
import UpgradeScope.Inventory.Admit

/-!
# The canonical form of an inventory

`Inventory.Canonical`, over which snapshots are hashed: an inventory without what describes its collection, with
each CRD's versions and what each capability skipped in a fixed order. Two inventories have one canonical form exactly
when they differ in those alone (`Alike`).
-/

namespace UpgradeScope

open Go Sorting

/-- A CRD with its versions sorted by name. -/
def CRD.canonical (c : CRD) : CRD :=
  { c with
    versions :=
      if 1 < c.versions.length ∧ ¬ c.versions.Pairwise (fun a b => a.name ≤ b.name) then
        sortOn (·.name) c.versions
      else c.versions }

/-- A status with what was skipped sorted. -/
def CapabilityStatus.canonical (st : CapabilityStatus) : CapabilityStatus :=
  { st with
    skipped :=
      if 1 < st.skipped.length ∧ ¬ st.skipped.Pairwise (fun a b => id a ≤ id b) then sorted st.skipped
      else st.skipped }

/-- `Inventory.Canonical`. -/
def Inventory.canonical (inv : Inventory) : Inventory :=
  { inv with
    collectedAt := 0
    apiServerStartTime := 0
    apiServerStartZone := 0
    addOnEvidenceAgeSeconds := 0
    crds := inv.crds.map CRD.canonical
    capabilities := mapValues CapabilityStatus.canonical inv.capabilities }

/-! ## What a canonical form forgets -/

/-- A CRD with its versions in another order. -/
structure CRD.Reorders (c c' : CRD) : Prop where
  /-- The versions. -/
  versions : c.versions.Perm c'.versions
  /-- Nothing else differs. -/
  rest : c' = { c with versions := c'.versions }

/-- A capability's status with what it skipped in another order. -/
structure CapabilityStatus.Reorders (st st' : CapabilityStatus) : Prop where
  /-- What it skipped. -/
  skipped : st.skipped.Perm st'.skipped
  /-- Nothing else differs. -/
  rest : st' = { st with skipped := st'.skipped }

/-- Two inventories of one canonical form. -/
structure Alike (inv inv' : Inventory) : Prop where
  /-- The versions of each CRD are in another order. -/
  crds : List.Forall₂ CRD.Reorders inv.crds inv'.crds
  /-- What each capability skipped is in another order. -/
  capabilities : List.Forall₂ (fun e e' => e.1 = e'.1 ∧ CapabilityStatus.Reorders e.2 e'.2)
    inv.capabilities.entries inv'.capabilities.entries
  /-- Nothing else differs but what describes the collection. -/
  rest : inv' = { inv with
    collectedAt := inv'.collectedAt
    apiServerStartTime := inv'.apiServerStartTime
    apiServerStartZone := inv'.apiServerStartZone
    addOnEvidenceAgeSeconds := inv'.addOnEvidenceAgeSeconds
    crds := inv'.crds
    capabilities := inv'.capabilities }

/-- CRDs that differ in the order of their versions have one canonical form when no two versions share a name. -/
theorem CRD.Reorders.canonical {c c' : CRD} (h : c.Reorders c') (hnames : (c.versions.map (·.name)).Nodup) :
    c'.canonical = c.canonical := by
  have hsort : sortOn (·.name) c'.versions = sortOn (·.name) c.versions :=
    (sortOn_eq_of_perm (fun a ha b hb hab => List.inj_on_of_nodup_map hnames ha hb hab) h.versions).symm
  unfold CRD.canonical
  rw [ite_sortOn, ite_sortOn, hsort, h.rest]

/-- CRDs of one canonical form differ in the order of their versions. -/
theorem CRD.reorders_of_canonical {c c' : CRD} (h : c'.canonical = c.canonical) : c.Reorders c' := by
  unfold CRD.canonical at h
  rw [ite_sortOn, ite_sortOn] at h
  obtain ⟨group, kind, plural, versions, stored, usage⟩ := c
  obtain ⟨group', kind', plural', versions', stored', usage'⟩ := c'
  obtain ⟨rfl, rfl, rfl, hversions, rfl, rfl⟩ := CRD.mk.inj h
  dsimp only at hversions
  refine ⟨?_, rfl⟩
  exact ((sortOn_perm _ _).symm.trans (.of_eq hversions.symm)).trans (sortOn_perm _ _)

/-- Statuses of one canonical form differ in the order of what was skipped. -/
theorem CapabilityStatus.reorders_of_canonical {st st' : CapabilityStatus} (h : st'.canonical = st.canonical) :
    st.Reorders st' := by
  unfold CapabilityStatus.canonical at h
  rw [sorted, sorted, ite_sortOn, ite_sortOn] at h
  obtain ⟨available, reason, partly, skipped⟩ := st
  obtain ⟨available', reason', partly', skipped'⟩ := st'
  obtain ⟨rfl, rfl, rfl, hskipped⟩ := CapabilityStatus.mk.inj h
  exact ⟨((sortOn_perm _ _).symm.trans (.of_eq hskipped.symm)).trans (sortOn_perm _ _), rfl⟩

/-- Inventories of one canonical form are alike. -/
theorem alike_of_canonical {inv inv' : Inventory} (h : inv'.canonical = inv.canonical) : Alike inv inv' := by
  obtain ⟨schema, cluster, collector, source, at₁, server, provider, caps, usage, calls, releases, charts, addOns,
    nodes, plane, namespaces, images, omitted, crds, unknown, started, zone, age, volumes⟩ := inv
  obtain ⟨schema', cluster', collector', source', at₂, server', provider', caps', usage', calls', releases', charts',
    addOns', nodes', plane', namespaces', images', omitted', crds', unknown', started', zone', age', volumes'⟩ := inv'
  obtain ⟨rfl, rfl, rfl, rfl, -, rfl, rfl, hcaps, rfl, rfl, rfl, rfl, rfl, rfl, rfl, rfl, rfl, rfl, hcrds, rfl, -, -, -,
    rfl⟩ := Inventory.mk.inj h
  dsimp only at hcaps hcrds
  refine ⟨?_, ?_, rfl⟩
  · exact (forall₂_of_map_eq hcrds.symm).imp fun _ _ hc => CRD.reorders_of_canonical hc.symm
  · refine (forall₂_of_map_eq (congrArg AList.entries hcaps).symm).imp fun e e' he => ?_
    obtain ⟨hname, hstatus⟩ := Sigma.mk.inj he
    exact ⟨hname, CapabilityStatus.reorders_of_canonical (eq_of_heq hstatus).symm⟩

end UpgradeScope
