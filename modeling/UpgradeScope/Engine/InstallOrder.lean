import UpgradeScope.Engine.InstallTexts
import UpgradeScope.Engine.Ranges
import UpgradeScope.Engine.Sources
import UpgradeScope.Inventory.Admitted

/-!
# The order of add-ons and nodes

A report is to read the same whatever the order of the inventory's lists. For the lists of detected add-ons and of nodes
`addOnResults_orderFree_iff` says when the findings of `evalAddOns` and `evalUncoveredRuntimes` do: where the texts about
the installs of each entry show no order (`OneText`). The order of the entries does not show, as the report sorts by key
and different entries have different keys, and neither does the order of nodes whose runtime no entry covers.
-/

namespace UpgradeScope

open Go Sorting Kb Registry

/-- An inventory with its add-ons and its nodes in another order. -/
structure AddOnsReordered (inv inv' : Inventory) : Prop where
  /-- The add-ons. -/
  addOns : inv.addOns.Perm inv'.addOns
  /-- The nodes. -/
  nodes : inv.nodes.Perm inv'.nodes
  /-- Nothing else differs. -/
  rest : inv' = { inv with addOns := inv'.addOns, nodes := inv'.nodes }

/-! ## What is admitted -/

section Admitted

variable {X : External} {inv inv' : Inventory}

/-- A string is within its limit. -/
def Located.Fits (l : Located) : Prop := byteLen l.value ≤ l.max

/-- Only a string within its limit is no problem. -/
theorem overLimit_eq_none {l : Located} : overLimit X l = none ↔ l.Fits := by
  unfold overLimit Located.Fits
  split_ifs with h
  · simpa using h
  · simpa using h

/-- The strings of a list's elements are within their limits, at whatever index. -/
theorem fits_listField {α : Type} {name : String} {strings : α → List Located} {l : List α} :
    (∀ x ∈ listField name strings l, x.Fits) ↔ ∀ a ∈ l, ∀ x ∈ strings a, x.Fits := by
  have hunder : ∀ (step : PathStep) (ls : List Located), (∀ x ∈ under step ls, x.Fits) ↔ ∀ x ∈ ls, x.Fits := by
    intro step ls
    unfold under
    rw [List.forall_mem_map]
    exact Iff.rfl
  unfold listField
  rw [hunder]
  constructor
  · intro h a ha
    obtain ⟨n, hn⟩ := List.mem_iff_getElem?.mp ha
    refine (hunder (.index n) _).mp fun x hx => h x (List.mem_flatMap.mpr ⟨(a, n), ?_, hx⟩)
    exact List.mk_mem_zipIdx_iff_getElem?.mpr hn
  · intro h x hx
    obtain ⟨p, hp, hx⟩ := List.mem_flatMap.mp hx
    have ha : p.1 ∈ l := List.mem_of_getElem? (List.mk_mem_zipIdx_iff_getElem?.mp hp)
    exact (hunder (.index p.2) _).mpr (h p.1 ha) x hx

/-- The identifiers of an inventory in another order. -/
theorem AddOnsReordered.validateIdentifiers (h : AddOnsReordered inv inv') (hok : validateIdentifiers X inv = none) :
    validateIdentifiers X inv' = none := by
  obtain ⟨haddOns, hnodes, hrest⟩ := h
  generalize inv'.addOns = addOns at haddOns hrest
  generalize inv'.nodes = nodes at hnodes hrest
  subst hrest
  unfold UpgradeScope.validateIdentifiers at hok ⊢
  have hadd : ∀ (a : AddOnInstance) (i : ℕ), (firstProblem a.namespaces fun ns j =>
      checkIdentifier s!"addOns[{i}].namespaces[{j}]" ns ruleNamespace X.labelProblems) = none ↔
        ∀ ns ∈ a.namespaces, ns = "" ∨ X.labelProblems ns = [] := fun a i =>
    firstProblem_eq_none fun ns j => checkIdentifier_eq_none
  have hnode : ∀ (n : NodeInfo) (i : ℕ), checkIdentifier s!"nodes[{i}].name" n.name ruleSubdomain X.subdomainProblems = none ↔
      (n.name = "" ∨ X.subdomainProblems n.name = []) := fun n i => checkIdentifier_eq_none
  simp only [Option.orElse_eq_none, firstProblem_eq_none hadd, firstProblem_eq_none hnode] at hok ⊢
  obtain ⟨h1, h2, h3, h4, h5, h6, h7, hlast⟩ := hok
  exact ⟨h1, h2, h3, h4, h5, fun a ha => h6 a (haddOns.mem_iff.mpr ha), fun n hn => h7 n (hnodes.mem_iff.mpr hn), hlast⟩

/-- The limits of an inventory in another order. -/
theorem AddOnsReordered.validateLimits (h : AddOnsReordered inv inv') (hok : validateLimits X inv = none) :
    validateLimits X inv' = none := by
  obtain ⟨haddOns, hnodes, hrest⟩ := h
  generalize inv'.addOns = addOns at haddOns hrest
  generalize inv'.nodes = nodes at hnodes hrest
  subst hrest
  unfold UpgradeScope.validateLimits at hok ⊢
  simp only [Option.orElse_eq_none] at hok ⊢
  obtain ⟨h1, h2, h3, h4, h5, h6, h7, hstrings⟩ := hok
  refine ⟨h1, h2, h3, h4, h5, h6, h7, ?_⟩
  rw [List.findSome?_eq_none_iff] at hstrings ⊢
  simp only [overLimit_eq_none] at hstrings ⊢
  unfold Inventory.strings at hstrings ⊢
  simp only [List.forall_mem_append, fits_listField, haddOns.mem_iff, hnodes.mem_iff] at hstrings ⊢
  exact hstrings

/-- What is admitted is admitted in another order. -/
theorem AddOnsReordered.admitProblem (h : AddOnsReordered inv inv') (hok : admitProblem X inv = none) :
    admitProblem X inv' = none := by
  have hcut : AddOnsReordered (cutFreeText inv) (cutFreeText inv') := by
    refine ⟨h.addOns, h.nodes, ?_⟩
    rw [h.rest]
    rfl
  have hschema : inv'.schemaVersion = inv.schemaVersion := by rw [h.rest]
  have hcollector : inv'.collectorSchema = inv.collectorSchema := by rw [h.rest]
  have hserver : serverVersionProblem X inv' = serverVersionProblem X inv := by rw [h.rest]; rfl
  unfold UpgradeScope.admitProblem at hok ⊢
  rw [hschema, hcollector, hserver]
  simp only [Option.orElse_eq_none] at hok ⊢
  obtain ⟨h1, h2, h3, hidentifiers, hlimits⟩ := hok
  exact ⟨h1, h2, h3, h.validateIdentifiers hidentifiers, hcut.validateLimits hlimits⟩

end Admitted

section Blocks

variable (X : External) (k : KB) (target : Version) (now : Time) (inv : Inventory)

/-- What `evalAddOns` and `evalUncoveredRuntimes` find. -/
def addOnResults : List Finding := evalAddOns X k target now inv ++ evalUncoveredRuntimes k inv

/-- The findings about a detected add-on. -/
def detectedFindings (id : String) : List Finding :=
  match registryEntry k id with
  | none => []
  | some a => addOnFindings X a target now (labelVersionCollectorSchema ≤ inv.collectorSchema) (detectedInstalls inv id) false

/-- The findings about the node runtimes of an entry. -/
def runtimeFindings (a : AddOn) : List Finding :=
  if a.matchers.runtimes = [] ∨ runtimeInstalls inv a = [] then []
  else addOnFindings X a target now true (runtimeInstalls inv a) true

/-- The texts about an inventory's add-ons and node runtimes show no order. -/
structure ShowsNoOrder : Prop where
  /-- The detected add-ons. -/
  addOns : ∀ i ∈ inv.addOns, ∀ a, registryEntry k i.id = some a →
    OneText X a target now (labelVersionCollectorSchema ≤ inv.collectorSchema) false (detectedInstalls inv i.id)
  /-- The node runtimes. -/
  runtimes : ∀ a ∈ k.addOns, runtimeInstalls inv a ≠ [] → OneText X a target now true true (runtimeInstalls inv a)

end Blocks

section OrderFree

variable {X : External} {L : Library} {k : KB} {target : Version} {now : Time} {inv inv' : Inventory}

/-- The results are blocks: one of each detected add-on, one of each entry's runtimes, and the uncovered runtimes. -/
theorem addOnResults_eq : addOnResults X k target now inv =
    (distinctOn id (inv.addOns.map (·.id))).flatMap (detectedFindings X k target now inv) ++
      k.addOns.flatMap (runtimeFindings X target now inv) ++ evalUncoveredRuntimes k inv := rfl

variable {a : AddOn} {f : Finding} {i : AddOnInstance} {ins : List AddOnInstall}

/-- The findings about a detected add-on name it. -/
theorem keyEntry_detectedFindings (hreg : ∀ a ∈ k.addOns, Validated a) {id : String}
    (h : f ∈ detectedFindings X k target now inv id) : keyEntry f.key = id := by
  unfold detectedFindings at h
  split at h
  · simp at h
  · rename_i a ha
    obtain ⟨hmem, rfl⟩ := registryEntry_spec ha
    exact keyEntry_addOnFindings (hreg a hmem).plain h

/-- The findings about an entry's runtimes name the entry. -/
theorem keyEntry_runtimeFindings (hreg : ∀ a ∈ k.addOns, Validated a) (ha : a ∈ k.addOns)
    (h : f ∈ runtimeFindings X target now inv a) : keyEntry f.key = a.id := by
  unfold runtimeFindings at h
  split_ifs at h
  · simp at h
  · exact keyEntry_addOnFindings (hreg a ha).plain h

/-! ## Nothing shows -/

/-- Add-ons in another order have distinct ids still. -/
theorem distinctIds_perm (h : inv.addOns.Perm inv'.addOns) :
    (distinctOn id (inv.addOns.map (·.id))).Perm (distinctOn id (inv'.addOns.map (·.id))) := by
  have hnodup : ∀ l : List String, (distinctOn id l).Nodup := fun l => by simpa using nodup_distinctOn id l
  have hmem : ∀ (l : List String) (x : String), x ∈ distinctOn id l ↔ x ∈ l := by
    intro l x
    refine ⟨mem_of_mem_distinctOn, fun hx => ?_⟩
    obtain ⟨y, hy, hyx⟩ := exists_mem_distinctOn id hx
    exact (show y = x from hyx) ▸ hy
  refine (List.perm_ext_iff_of_nodup (hnodup _) (hnodup _)).mpr fun x => ?_
  rw [hmem, hmem, (h.map _).mem_iff]

/-- Installs are of one known version. -/
theorem oneVersion_iff {first : String} (hfirst : first = (ins.headD ⟨"", "", [], []⟩).version) :
    (decide (first ≠ "") && ins.all fun i => decide (i.version = first)) = true ↔
      ∃ v, v ≠ "" ∧ ins ≠ [] ∧ ∀ i ∈ ins, i.version = v := by
  rw [Bool.and_eq_true_iff, List.all_eq_true, decide_eq_true_eq]
  constructor
  · rintro ⟨hne, hall⟩
    refine ⟨first, hne, ?_, fun i hi => of_decide_eq_true (hall i hi)⟩
    rintro rfl
    exact hne hfirst
  · rintro ⟨v, hv, hne, hall⟩
    obtain ⟨i, rest, rfl⟩ := List.exists_cons_of_ne_nil hne
    have hi : first = v := hfirst.trans (hall i List.mem_cons_self)
    rw [hi]
    exact ⟨hv, fun j hj => decide_eq_true (hall j hj)⟩

/-- A runtime that no entry covers, whatever the order of its nodes. -/
theorem uncoveredFinding_of_perm (rt : String) {ins ins' : List AddOnInstall} (hperm : ins.Perm ins') :
    uncoveredFinding rt ins' = uncoveredFinding rt ins := by
  have hone : (∃ v, v ≠ "" ∧ ins' ≠ [] ∧ ∀ i ∈ ins', i.version = v) ↔ ∃ v, v ≠ "" ∧ ins ≠ [] ∧ ∀ i ∈ ins, i.version = v := by
    have hnil : ins' ≠ [] ↔ ins ≠ [] := by
      rw [← List.length_pos_iff, ← List.length_pos_iff, hperm.length_eq]
    simp only [hnil, hperm.mem_iff]
  unfold uncoveredFinding
  dsimp only
  generalize hfirst : (ins.headD ⟨"", "", [], []⟩).version = first
  generalize hfirst' : (ins'.headD ⟨"", "", [], []⟩).version = first'
  have hsame : (decide (first' ≠ "") && ins'.all fun i => decide (i.version = first')) =
      (decide (first ≠ "") && ins.all fun i => decide (i.version = first)) := by
    rw [Bool.eq_iff_iff, oneVersion_iff hfirst.symm, oneVersion_iff hfirst'.symm, hone]
  rw [hsame, locatedOnNodes_eq hperm]
  -- Nodes of one version have one oldest.
  intro hline
  obtain ⟨v, hv, hne, hall⟩ := (oneVersion_iff hfirst.symm).mp hline
  have holdest : OneOldest (ins.map (·.version)) := by
    obtain ⟨i, hi⟩ := List.exists_mem_of_ne_nil ins hne
    refine .inr ⟨v, List.mem_map.mpr ⟨i, hi, hall i hi⟩, hv, fun w hw _ hwv => ?_⟩
    obtain ⟨j, hj, rfl⟩ := List.mem_map.mp hw
    exact absurd (hall j hj) hwv
  exact holdest.oldestVersion_eq (hperm.map _)

/-- The runtimes that no entry covers, whatever the order of the nodes. -/
theorem evalUncoveredRuntimes_of_perm (h : inv.nodes.Perm inv'.nodes) :
    evalUncoveredRuntimes k inv' = evalUncoveredRuntimes k inv := by
  unfold evalUncoveredRuntimes
  split_ifs
  · rfl
  · refine map_groupOn_eq_of_perm (h.filterMap _).symm fun key m hm => ?_
    exact (uncoveredFinding_of_perm key (hm.map _)).symm

/-- The installs of a detected add-on in another order. -/
theorem AddOnsReordered.detectedInstalls (h : AddOnsReordered inv inv') (id : String) :
    (detectedInstalls inv id).Perm (detectedInstalls inv' id) := by
  have hns : inv'.namespaces = inv.namespaces := by rw [h.rest]
  unfold UpgradeScope.detectedInstalls
  rw [hns]
  exact (h.addOns.filter _).map _

/-- The installs of an entry's runtimes in another order. -/
theorem AddOnsReordered.runtimeInstalls (h : AddOnsReordered inv inv') (a : AddOn) :
    (runtimeInstalls inv a).Perm (runtimeInstalls inv' a) :=
  h.nodes.filterMap _

/-- Where no order shows, the results are sorted to one list. -/
theorem ShowsNoOrder.sortFindings_eq (h : ShowsNoOrder X k target now inv) (hreg : ∀ a ∈ k.addOns, Validated a)
    (hre : AddOnsReordered inv inv') :
    sortFindings (addOnResults X k target now inv') = sortFindings (addOnResults X k target now inv) := by
  have hschema : inv'.collectorSchema = inv.collectorSchema := by rw [hre.rest]
  have hdetected : (distinctOn id (inv'.addOns.map (·.id))).flatMap (detectedFindings X k target now inv') =
      (distinctOn id (inv'.addOns.map (·.id))).flatMap (detectedFindings X k target now inv) := by
    refine List.flatMap_congr fun id hid => ?_
    unfold detectedFindings
    rw [hschema]
    split
    · rfl
    · rename_i a ha
      have hmem : id ∈ inv.addOns.map (·.id) := (hre.addOns.map _).mem_iff.mpr (mem_of_mem_distinctOn hid)
      obtain ⟨i, hi, rfl⟩ := List.mem_map.mp hmem
      exact (h.addOns i hi a ha).addOnFindings_eq (hre.detectedInstalls i.id)
  have hruntimes : k.addOns.flatMap (runtimeFindings X target now inv') = k.addOns.flatMap (runtimeFindings X target now inv) := by
    refine List.flatMap_congr fun a ha => ?_
    have hperm := hre.runtimeInstalls a
    have hnil : (UpgradeScope.runtimeInstalls inv' a = []) = (UpgradeScope.runtimeInstalls inv a = []) := by
      rw [← List.length_eq_zero_iff, ← List.length_eq_zero_iff, hperm.length_eq]
    unfold runtimeFindings
    simp only [hnil]
    split_ifs with hnone
    · rfl
    · exact (h.runtimes a ha fun he => hnone (.inr he)).addOnFindings_eq hperm
  rw [addOnResults_eq, addOnResults_eq, hdetected, hruntimes, evalUncoveredRuntimes_of_perm hre.nodes]
  refine sortOn_eq_of_filter fun place => ?_
  rw [List.filter_append, List.filter_append, List.filter_append, List.filter_append]
  congr 2
  refine (filter_flatMap_eq_of_perm (distinctIds_perm hre.addOns) (by simpa using nodup_distinctOn id _) ?_).symm
  -- Findings of one place have one key, and so are about one add-on.
  intro x _ y _ f hf g hg hfplace hgplace
  have hkey : f.key = g.key := by
    have hplaces := (of_decide_eq_true hfplace).trans (of_decide_eq_true hgplace).symm
    unfold findingOrder at hplaces
    simpa using congrArg (fun p : ℕ ×ₗ String ×ₗ String ×ₗ String => (ofLex (ofLex (ofLex p).2).2).2) hplaces
  rw [← keyEntry_detectedFindings hreg hf, ← keyEntry_detectedFindings hreg hg, hkey]

/-! ## Nothing shows only there -/

/-- Findings about the installs of an accepted entry that read the same in every order. -/
theorem Fixed.of_perm (ha : PlainEntry a) {lc node : Bool} (h : ∀ ins', ins.Perm ins' →
      (addOnFindings X a target now lc ins' node).Perm (addOnFindings X a target now lc ins node)) :
    Fixed X a target now lc node ins := by
  intro ins' hperm f hf f' hf' hkey
  exact eq_of_key_eq (nodup_addOnFindings ha ins lc node) ((h ins' hperm).mem_iff.mp hf') hf hkey

/-- The findings about a detected add-on, among the results about all. -/
theorem filter_detectedFindings (hreg : ∀ a ∈ k.addOns, Validated a) (hi : i ∈ inv.addOns) :
    ((distinctOn id (inv.addOns.map (·.id))).flatMap (detectedFindings X k target now inv)).filter
      (fun f => keyEntry f.key = i.id) = detectedFindings X k target now inv i.id := by
  refine filter_flatMap_eq_block (by simpa using nodup_distinctOn id _) ?_ ?_ ?_
  · obtain ⟨y, hy, hyi⟩ := exists_mem_distinctOn id (List.mem_map_of_mem (f := (·.id)) hi)
    exact (show y = i.id from hyi) ▸ hy
  · exact fun f hf => decide_eq_true (keyEntry_detectedFindings hreg hf)
  · intro y _ hne f hf
    rw [keyEntry_detectedFindings hreg hf]
    exact decide_eq_false hne

/-- The findings about an entry's runtimes, among those about all. -/
theorem filter_runtimeFindings (hreg : ∀ a ∈ k.addOns, Validated a) (hids : (k.addOns.map (·.id)).Nodup)
    (ha : a ∈ k.addOns) :
    (k.addOns.flatMap (runtimeFindings X target now inv)).filter (fun f => keyEntry f.key = a.id) =
      runtimeFindings X target now inv a := by
  refine filter_flatMap_eq_block hids.of_map ha ?_ ?_
  · exact fun f hf => decide_eq_true (keyEntry_runtimeFindings hreg ha hf)
  · intro b hb hne f hf
    rw [keyEntry_runtimeFindings hreg hb hf]
    exact decide_eq_false fun heq => hne (eq_of_key_eq hids hb ha heq)

/-- Results that are sorted to one list are the same findings. -/
theorem perm_of_sortFindings {fs gs : List Finding} (h : sortFindings fs = sortFindings gs) : fs.Perm gs :=
  (sortOn_perm findingOrder fs).symm.trans ((List.Perm.of_eq h).trans (sortOn_perm findingOrder gs))

/-- The add-ons in another order change only the findings about them. -/
theorem perm_detectedFindings (hreg : ∀ a ∈ k.addOns, Validated a) {addOns : List AddOnInstance}
    (haddOns : inv.addOns.Perm addOns)
    (h : (addOnResults X k target now { inv with addOns := addOns }).Perm (addOnResults X k target now inv))
    (hi : i ∈ inv.addOns) :
    (detectedFindings X k target now { inv with addOns := addOns } i.id).Perm (detectedFindings X k target now inv i.id) := by
  have hi' : i ∈ ({ inv with addOns := addOns } : Inventory).addOns := haddOns.mem_iff.mp hi
  rw [addOnResults_eq, addOnResults_eq, List.append_assoc, List.append_assoc] at h
  have hblock := h.filter fun f => keyEntry f.key = i.id
  simp only [List.filter_append] at hblock
  rw [filter_detectedFindings hreg hi, filter_detectedFindings hreg hi'] at hblock
  exact (List.perm_append_right_iff _).mp hblock

/-- The nodes in another order change only the findings about runtimes. -/
theorem perm_runtimeFindings (hreg : ∀ a ∈ k.addOns, Validated a) (hids : (k.addOns.map (·.id)).Nodup)
    {nodes : List NodeInfo} (hnodes : inv.nodes.Perm nodes)
    (h : (addOnResults X k target now { inv with nodes := nodes }).Perm (addOnResults X k target now inv))
    (ha : a ∈ k.addOns) :
    (runtimeFindings X target now { inv with nodes := nodes } a).Perm (runtimeFindings X target now inv a) := by
  have huncovered : evalUncoveredRuntimes k { inv with nodes := nodes } = evalUncoveredRuntimes k inv :=
    evalUncoveredRuntimes_of_perm hnodes
  rw [addOnResults_eq, addOnResults_eq, huncovered] at h
  have hblock := ((List.perm_append_right_iff _).mp h).filter fun f => keyEntry f.key = a.id
  simp only [List.filter_append] at hblock
  rw [filter_runtimeFindings hreg hids ha, filter_runtimeFindings hreg hids ha] at hblock
  exact (List.perm_append_left_iff _).mp hblock

/-- Where the results are sorted to one list in every order, no order shows. -/
theorem ShowsNoOrder.of_sortFindings (hreg : ∀ a ∈ k.addOns, Validated a) (hids : (k.addOns.map (·.id)).Nodup)
    (h : ∀ inv', AddOnsReordered inv inv' →
      sortFindings (addOnResults X k target now inv') = sortFindings (addOnResults X k target now inv)) :
    ShowsNoOrder X k target now inv where
  addOns i hi a ha := by
    obtain ⟨hmem, -⟩ := registryEntry_spec ha
    refine OneText.of_fixed (hreg a hmem) (Fixed.of_perm (hreg a hmem).plain fun ins' hperm => ?_)
    -- The add-ons in an order that has the installs in this one.
    obtain ⟨rows, hrows, rfl⟩ := exists_perm_map_eq hperm
    obtain ⟨addOns, haddOns, rfl⟩ := exists_perm_filter_eq hrows
    have hall := perm_of_sortFindings (h { inv with addOns := addOns } ⟨haddOns, List.Perm.refl _, rfl⟩)
    have hblock := perm_detectedFindings hreg haddOns hall hi
    unfold detectedFindings at hblock
    rw [ha] at hblock
    exact hblock
  runtimes a ha hne := by
    refine OneText.of_fixed (hreg a ha) (Fixed.of_perm (hreg a ha).plain fun ins' hperm => ?_)
    obtain ⟨nodes, hnodes, rfl⟩ := exists_perm_filterMap_eq hperm
    have hre : AddOnsReordered inv { inv with nodes := nodes } := ⟨List.Perm.refl _, hnodes, rfl⟩
    have hblock := perm_runtimeFindings hreg hids hnodes (perm_of_sortFindings (h _ hre)) ha
    have hruntimes : a.matchers.runtimes ≠ [] := by
      intro hnil
      refine hne (List.filterMap_eq_nil_iff.mpr fun n _ => ?_)
      rw [hnil]
      cases nodeRuntime n <;> simp
    have hne' : runtimeInstalls { inv with nodes := nodes } a ≠ [] := fun he => hne (by
      have hlength := (hre.runtimeInstalls a).length_eq
      exact List.length_eq_zero_iff.mp (hlength.trans (List.length_eq_zero_iff.mpr he)))
    unfold runtimeFindings at hblock
    rw [if_neg (not_or.mpr ⟨hruntimes, hne'⟩), if_neg (not_or.mpr ⟨hruntimes, hne⟩)] at hblock
    exact hblock

/-- The findings about the add-ons and the node runtimes of an inventory, as the report sorts them, do not depend on the
order of its add-ons and nodes exactly where no text shows it: in each group of installs whose oldest version a finding
names, one version is before all others, and installs without a version have one reason. -/
theorem addOnResults_orderFree_iff (hreg : ∀ a ∈ k.addOns, validate X L a = []) (hids : (k.addOns.map (·.id)).Nodup)
    (haccept : admitProblem X inv = none) :
    (∀ inv', AddOnsReordered inv inv' → admitProblem X inv' = none →
      sortFindings (addOnResults X k target now inv') = sortFindings (addOnResults X k target now inv)) ↔
      ShowsNoOrder X k target now inv := by
  have hvalid : ∀ a ∈ k.addOns, Validated a := fun a ha => validated_of_validate (hreg a ha)
  constructor
  · intro h
    exact ShowsNoOrder.of_sortFindings hvalid hids fun inv' hre => h inv' hre (hre.admitProblem haccept)
  · intro h inv' hre _
    exact h.sortFindings_eq hvalid hre

end OrderFree

/-! ## Istio, installed twice -/

/-- A registry of one entry. -/
def istioKB : KB where
  maxKnownK8s := ⟨1, 34⟩
  addOns := [istioEntry]

/-- A cluster with installs of Istio. -/
def istioCluster (installs : List AddOnInstance) : Inventory where
  collectorSchema := 1
  serverVersion := "v1.33.2"
  addOns := installs

/-- An install of a version. -/
def meshInstall (version : String) : AddOnInstance where
  id := "istio"
  version := version
  namespaces := ["mesh"]
  source := "image"

/-- Two installs of different versions are found alike in both orders. -/
theorem addOnResults_orderFree_istio :
    sortFindings (addOnResults istioExternal istioKB ⟨1, 33⟩ 0 (istioCluster [meshInstall "1.26.0", meshInstall "1.27.1"])) =
      sortFindings (addOnResults istioExternal istioKB ⟨1, 33⟩ 0
        (istioCluster [meshInstall "1.27.1", meshInstall "1.26.0"])) ∧
      (addOnResults istioExternal istioKB ⟨1, 33⟩ 0 (istioCluster [meshInstall "1.27.1", meshInstall "1.26.0"])).length = 3 := by
  have hreg : ∀ a ∈ istioKB.addOns, validate istioExternal istioLibrary a = [] := by decide +kernel
  have hshows : ShowsNoOrder istioExternal istioKB ⟨1, 33⟩ 0 (istioCluster [meshInstall "1.27.1", meshInstall "1.26.0"]) := by
    refine ⟨fun i hi a ha => ?_, fun a _ hne => absurd rfl hne⟩
    have hentry : registryEntry istioKB "istio" = some istioEntry := by decide +kernel
    have hid : i.id = "istio" := by
      rcases List.mem_pair.mp hi with rfl | rfl <;> rfl
    rw [hid] at ha ⊢
    obtain rfl := Option.some.inj (hentry.symm.trans ha)
    exact ⟨by decide +kernel, by decide +kernel, by decide +kernel, by decide +kernel⟩
  refine ⟨(addOnResults_orderFree_iff (L := istioLibrary) hreg (by decide +kernel) (by decide +kernel)).mpr hshows _ ?_
    (by decide +kernel), by decide +kernel⟩
  exact ⟨List.Perm.swap .., List.Perm.refl _, rfl⟩

/-- An install of no known version, found by a chart or by an image. -/
def unversionedInstall («namespace» source : String) : AddOnInstance where
  id := "istio"
  namespaces := [«namespace»]
  source := source

/-- The reasons why two installs have no version stand in the order of the inventory. -/
theorem reasons_in_order :
    (∀ a ∈ istioKB.addOns, validate istioExternal istioLibrary a = []) ∧
      admitProblem istioExternal (istioCluster [unversionedInstall "edge" "chart", unversionedInstall "mesh" "image"]) = none ∧
      admitProblem istioExternal (istioCluster [unversionedInstall "mesh" "image", unversionedInstall "edge" "chart"]) = none ∧
      AddOnsReordered (istioCluster [unversionedInstall "edge" "chart", unversionedInstall "mesh" "image"])
        (istioCluster [unversionedInstall "mesh" "image", unversionedInstall "edge" "chart"]) ∧
      sortFindings (addOnResults istioExternal istioKB ⟨1, 33⟩ 0
          (istioCluster [unversionedInstall "edge" "chart", unversionedInstall "mesh" "image"])) ≠
        sortFindings (addOnResults istioExternal istioKB ⟨1, 33⟩ 0
          (istioCluster [unversionedInstall "mesh" "image", unversionedInstall "edge" "chart"])) := by
  refine ⟨by decide +kernel, by decide +kernel, by decide +kernel, ⟨List.Perm.swap .., List.Perm.refl _, rfl⟩, ?_⟩
  decide +kernel

end UpgradeScope
