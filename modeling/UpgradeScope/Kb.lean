import UpgradeScope.Registry.Types

/-!
# The knowledge base

`internal/kb`: the lifecycle of the built-in APIs with the chains of their replacements, the
version-skew policy, the upgrade steps a skipping upgrade may take and the in-tree volume plugins.
-/

namespace UpgradeScope.Kb

open Go

/-- A group, version and kind. -/
structure GVK where
  /-- The API group, "" for core. -/
  group : String
  /-- The API version. -/
  version : String
  /-- The kind. -/
  kind : String
  deriving DecidableEq

/-- A hand-written note on leaving an API version. -/
structure Migration where
  /-- The note. -/
  note : String
  /-- Where it is published. -/
  citations : List String
  deriving DecidableEq

/-- One API kind's lifecycle at one version. -/
structure APILifecycleEntry where
  /-- The API group, "" for core. -/
  group : String
  /-- The API version. -/
  version : String
  /-- The kind. -/
  kind : String
  /-- The release that introduced it. -/
  introduced : Version
  /-- The release that deprecated it. -/
  deprecated : Option Version := none
  /-- The release that removed it. -/
  removed : Option Version := none
  /-- The API to move to. -/
  replacement : Option GVK := none
  /-- Whether the replacement is the generator's default. -/
  replacementDefaulted : Bool := false
  /-- A note on leaving this version. -/
  migration : Option Migration := none
  deriving DecidableEq

/-- The zero entry a failed lookup returns. -/
instance : Inhabited APILifecycleEntry := ⟨⟨"", "", "", default, none, none, none, false, none⟩⟩

/-- The entry's group, version and kind. -/
def APILifecycleEntry.gvk (e : APILifecycleEntry) : GVK := ⟨e.group, e.version, e.kind⟩

/-- The version-skew policy. -/
structure SkewPolicy where
  /-- Minors a kubelet may be behind the apiserver. -/
  kubeletMaxBehind : ℤ
  /-- Minors the apiservers of an HA cluster may be apart. -/
  apiServerHASpread : ℤ
  /-- Minors a kube-proxy may be behind the apiserver. -/
  kubeProxyMaxBehind : ℤ
  /-- Minors a controller-manager or scheduler may be behind the apiserver. -/
  ctrlMgrMaxBehind : ℤ
  deriving DecidableEq

/-- `DefaultSkewPolicy`. -/
def defaultSkewPolicy : SkewPolicy := ⟨3, 1, 3, 1⟩

/-- A direct upgrade a vendor supports over a skipped minor. -/
structure UpgradeStep where
  /-- The minor it starts from. -/
  «from» : Version
  /-- The minor it reaches. -/
  «to» : Version
  /-- Where it is published. -/
  citation : String
  deriving DecidableEq

/-- What the end of an in-tree volume plugin does to the workloads that name it, with the releases
the dataset's validation requires of each classification. -/
inductive VolumeLifecycle where
  /-- `removed`: removed in a release with no migration path, deprecated before when known. -/
  | removed («at» : Version) (deprecated : Option Version)
  /-- `csi-migration`: from a release on it works only through its CSI driver. -/
  | csiMigration («at» : Version) (driver : String)
  /-- `deprecated`: deprecated only. -/
  | deprecated (since : Version)
  deriving DecidableEq

/-- One in-tree volume plugin. -/
structure VolumePlugin where
  /-- Its field name. -/
  plugin : String
  /-- Its classification and releases. -/
  lifecycle : VolumeLifecycle
  /-- The in-tree provisioner a StorageClass names for it. -/
  provisioner : String := ""
  /-- A note. -/
  note : String := ""
  /-- What to use instead. -/
  replacement : String := ""
  /-- Where the releases are published. -/
  citations : List String := []
  deriving DecidableEq

/-- A knowledge base. -/
structure KB where
  /-- What it was built from. -/
  version : String := ""
  /-- The lifecycle of the built-in APIs. -/
  apiLifecycle : List APILifecycleEntry := []
  /-- The built-in API groups, those without an entry included. -/
  builtinGroups : List String := []
  /-- The add-on registry. -/
  addOns : List Registry.AddOn := []
  /-- The managed providers. -/
  providers : List Registry.ProviderSupport := []
  /-- The version-skew policy. -/
  skew : SkewPolicy := defaultSkewPolicy
  /-- The newest minor the lifecycle data covers. -/
  maxKnownK8s : Version
  /-- The direct upgrades over a skipped minor. -/
  upgradeSteps : List UpgradeStep := []
  /-- The in-tree volume plugins. -/
  volumePlugins : List VolumePlugin := []

/-- `KB.Provider`: the first provider of that id. -/
def KB.provider (k : KB) (id : String) : Option Registry.ProviderSupport :=
  k.providers.find? (·.id = id)

/-! ## The index of the lifecycle entries -/

section Index

variable (entries : List APILifecycleEntry)

/-- `Index.Lookup`: the last entry of that group, version and kind, as the map keeps it. -/
def lookup (g : GVK) : Option APILifecycleEntry := entries.reverse.find? (·.gvk = g)

/-- The entries of a group and kind, in entry order. -/
def byKind (group kind : String) : List APILifecycleEntry :=
  entries.filter fun e => e.group = group ∧ e.kind = kind

/-- `servedAt`: introduced at or before the target, and not removed by it. -/
def servedAt (e : APILifecycleEntry) (target : Version) : Bool :=
  e.introduced.le target && e.removed.all (·.gt target)

/-- `stability` of an API version name: 2 for GA, 1 for beta, 0 for alpha. -/
def stability (version : String) : ℕ :=
  if contains version "alpha" then 0 else if contains version "beta" then 1 else 2

/-- `PreGA`: alpha or beta. -/
def preGA (version : String) : Bool := stability version < 2

/-- `preferVersion`: the more stable, else the greater name. -/
def preferVersion (a b : String) : Bool :=
  if stability a ≠ stability b then stability a > stability b else a > b

/-- The loop of `chain`: the first replacement that is not removed by the target, with its entry
when there is one; `none` when the chain ends or comes back to an API it has `seen`. Each turn but
the last sees the API of one more entry, so as many turns as there are entries, and one, are
enough. -/
def chainLoop (target : Version) :
    ℕ → List GVK → Option GVK → Option (GVK × Option APILifecycleEntry)
  | 0, _, _ => none
  | _, _, none => none
  | n + 1, seen, some g =>
    if g ∈ seen then none
    else match lookup entries g with
      | none => some (g, none)
      | some r =>
        if r.removed.all (·.gt target) then some (g, some r)
        else chainLoop target n (g :: seen) r.replacement

/-- `Index.chain`. -/
def chain (e : APILifecycleEntry) (target : Version) : Option (GVK × Option APILifecycleEntry) :=
  chainLoop entries target (entries.length + 1) [e.gvk] e.replacement

/-- The entry a loop over candidates ends with, when `better c best` says a candidate replaces the
best so far. -/
def pickBest (better : APILifecycleEntry → APILifecycleEntry → Bool)
    (cs : List APILifecycleEntry) : Option APILifecycleEntry :=
  cs.foldl (fun best c =>
    match best with
    | none => some c
    | some b => if better c b then some c else some b) none

/-- A later introduction, and of the same release the preferred version. -/
def newerEntry (c b : APILifecycleEntry) : Bool :=
  (c.introduced.compare b.introduced).isGT ||
    (c.introduced.compare b.introduced).isEq && preferVersion c.version b.version

/-- `Index.ResolveReplacement`: the API to migrate to that the target is known to serve. -/
def resolveReplacement (e : APILifecycleEntry) (target : Version) : Option GVK :=
  match chain entries e target with
  | none => none
  | some (g, r) =>
    if r.all (servedAt · target) then
      if stability g.version < stability e.version then none else some g
    else
      -- The replacement is not introduced yet at the target.
      (pickBest (fun c b => c.introduced.gt b.introduced)
        ((byKind entries g.group g.kind).filter fun c =>
          ¬ ((c.version = e.version ∧ c.group = e.group) ∨ ¬ servedAt c target ∨
            c.introduced.le e.introduced ∨ stability c.version < stability e.version))).map (·.gvk)

/-- `Index.ServedAlternative`: the newest other version of the kind that the target serves. -/
def servedAlternative (e : APILifecycleEntry) (target : Version) : Option GVK :=
  (pickBest newerEntry ((byKind entries e.group e.kind).filter fun c =>
    ¬ (c.version = e.version ∨ ¬ servedAt c target ∨
      stability c.version < stability e.version))).map (·.gvk)

/-- `Index.ServedSuccessor`: the newest version of the kind that the target serves and that was
introduced after the entry. -/
def servedSuccessor (e : APILifecycleEntry) (target : Version) : Option APILifecycleEntry :=
  pickBest newerEntry ((byKind entries e.group e.kind).filter fun c =>
    ¬ (c.version = e.version ∨ ¬ servedAt c target ∨ c.introduced.le e.introduced ∨
      stability c.version < stability e.version))

/-- `Index.LaterReplacement`: the replacement a later release serves, and that release. -/
def laterReplacement (e : APILifecycleEntry) (target : Version) : Option (GVK × Version) :=
  if (resolveReplacement entries e target).isSome then none
  else match chain entries e target with
    | some (g, some r) => if r.introduced.le target then none else some (g, r.introduced)
    | _ => none

/-- `ChangelogURL`. -/
def changelogURL (v : Version) : String :=
  s!"https://github.com/kubernetes/kubernetes/blob/master/CHANGELOG/CHANGELOG-{v.major}.{v.minor}.md"

/-- An entry the index finds has the group, version and kind it was asked for. -/
theorem lookup_gvk {g : GVK} {e : APILifecycleEntry} (h : lookup entries g = some e) :
    e ∈ entries ∧ e.gvk = g := by
  unfold lookup at h
  exact ⟨List.mem_reverse.mp (List.mem_of_find?_eq_some h), by simpa using List.find?_some h⟩

/-- The APIs of the entries that a chain has not seen yet: what bounds its remaining turns. -/
def unseen (seen : List GVK) : ℕ := ((entries.map (·.gvk)).filter (· ∉ seen)).length

/-- Seeing the API of an entry leaves fewer to see. -/
theorem unseen_lt {seen : List GVK} {g : GVK} {e : APILifecycleEntry} (hg : g ∉ seen)
    (h : lookup entries g = some e) : unseen entries (g :: seen) < unseen entries seen := by
  obtain ⟨hmem, hgvk⟩ := lookup_gvk entries h
  unfold unseen
  rw [← List.countP_eq_length_filter, ← List.countP_eq_length_filter]
  have hin : g ∈ entries.map (·.gvk) := List.mem_map.mpr ⟨e, hmem, hgvk⟩
  generalize entries.map (·.gvk) = gs at hin
  induction gs with
  | nil => simp at hin
  | cons x xs ih =>
    rw [List.countP_cons, List.countP_cons]
    have hmono : xs.countP (fun y => decide (y ∉ g :: seen)) ≤ xs.countP fun y => decide (y ∉ seen) :=
      List.countP_mono_left fun y _ hy => by simp_all
    rcases List.mem_cons.mp hin with rfl | hin
    · rw [if_neg (by simp), if_pos (by simpa using hg)]
      omega
    · have := ih hin
      have hx : (if decide (x ∉ g :: seen) = true then 1 else 0) ≤
          if decide (x ∉ seen) = true then 1 else 0 := by
        split_ifs with h1 h2 <;> simp_all
      omega

/-- A chain with more turns than APIs left to see does not change with one more: the turns
`chain` gives it are enough. -/
theorem chainLoop_succ {target : Version} {n : ℕ} {seen : List GVK} {next : Option GVK}
    (h : unseen entries seen < n) :
    chainLoop entries target (n + 1) seen next = chainLoop entries target n seen next := by
  induction n generalizing seen next with
  | zero => omega
  | succ n ih =>
    cases next with
    | none => rfl
    | some g =>
      rw [chainLoop, chainLoop]
      by_cases hg : g ∈ seen
      · rw [if_pos hg, if_pos hg]
      · rw [if_neg hg, if_neg hg]
        cases hl : lookup entries g with
        | none => rfl
        | some r =>
          have hlt := unseen_lt entries hg hl
          have hrest : chainLoop entries target (n + 1) (g :: seen) r.replacement =
              chainLoop entries target n (g :: seen) r.replacement := ih (by omega)
          simp only [hrest]

/-- The turns `chain` gives its loop are more than the APIs it can see. -/
theorem unseen_lt_length (seen : List GVK) : unseen entries seen < entries.length + 1 := by
  have h := List.length_filter_le (fun g => decide (g ∉ seen)) (entries.map (·.gvk))
  simp only [List.length_map] at h
  unfold unseen
  omega

end Index

end UpgradeScope.Kb
