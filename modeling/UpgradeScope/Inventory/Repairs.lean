import UpgradeScope.Inventory.Conform

/-!
# What a repair records

Everything a repair drops from the nodes, the add-on installs and the API usage rows of an inventory is named in the
repairs of its capability, and nothing else is (`Recorded`): the repairs of known shapes name the add-on installs they
drop, every turn of the loop that drops an element names it, and the others name nothing for these capabilities.
-/

namespace UpgradeScope

open Go Sorting

/-! ## Repairs of one capability -/

namespace Repairs

/-- Changing the repairs of a capability leaves those of the others. -/
theorem of_modify (r : Repairs) (c c' : Capability) (f : CapRepairs → CapRepairs) :
    (r.modify c f).of c' = if c' = c then f (r.of c) else r.of c' := by
  unfold modify
  -- The capability is recorded or not, and is the one asked for or not.
  split_ifs with hany heq heq
  · subst heq
    induction r with
    | nil => simp at hany
    | cons p r ih =>
      by_cases hp : p.1 = c'
      · simp [of, hp]
      · have hr : r.any (·.1 = c') = true := by simpa [hp] using hany
        have := ih hr
        simpa [of, hp] using this
  · have hfind : ∀ r : Repairs, of (r.map fun p => if p.1 = c then (p.1, f p.2) else p) c' = r.of c' := by
      intro r
      induction r with
      | nil => rfl
      | cons p r ih =>
        by_cases hp : p.1 = c'
        · have hc : p.1 ≠ c := fun h => heq (hp ▸ h)
          simp [of, hp, heq]
        · by_cases hc : p.1 = c
          · simpa [of, hp, hc, Ne.symm heq] using ih
          · simpa [of, hp, hc] using ih
    exact hfind r
  · subst heq
    have hnone : r.find? (·.1 = c') = none := by
      rw [List.find?_eq_none]
      intro p hp hpc
      exact hany (List.any_eq_true.mpr ⟨p, hp, hpc⟩)
    simp [of, List.find?_append, hnone]
  · unfold of
    rw [List.find?_append, List.find?_singleton, if_neg (by simpa using Ne.symm heq), Option.or_none]

/-- Repairs stay recorded once for each capability. -/
theorem nodup_modify {r : Repairs} (h : (r.map (·.1)).Nodup) (c : Capability) (f : CapRepairs → CapRepairs) :
    ((r.modify c f).map (·.1)).Nodup := by
  unfold modify
  split_ifs with hany
  · have hkeys : (r.map fun p => if p.1 = c then (p.1, f p.2) else p).map (·.1) = r.map (·.1) := by
      rw [List.map_map]
      refine List.map_congr_left fun p _ => ?_
      by_cases hp : p.1 = c <;> simp [hp]
    rw [hkeys]
    exact h
  · rw [List.map_append]
    refine List.nodup_append.mpr ⟨h, by simp, fun a ha b hb => ?_⟩
    obtain ⟨p, hp, rfl⟩ := List.mem_map.mp ha
    simp only [List.map_cons, List.map_nil, List.mem_singleton] at hb
    rw [hb]
    exact fun heq => hany (List.any_eq_true.mpr ⟨p, hp, by simpa using heq⟩)

/-- The names of a capability after a repair. -/
theorem skipped_add (r : Repairs) (c c' : Capability) (note s : String) :
    ((r.add c note s).of c').skipped =
      if c' = c ∧ s ≠ "" then (if s ∈ (r.of c).skipped then (r.of c).skipped else (r.of c).skipped ++ [s])
      else (r.of c').skipped := by
  unfold add
  rw [of_modify]
  by_cases hc : c' = c
  · subst hc
    by_cases hs : s = ""
    · simp [hs, CapRepairs.note]
    · by_cases hmem : s ∈ (r.of c').skipped <;> simp [hs, hmem, CapRepairs.note, CapRepairs.skip]
  · simp [hc]

end Repairs

/-! ## Repairs that name nothing -/

/-- The capabilities whose gaps a dropped node, add-on install or usage row must make required. -/
def judgedCapabilities : List Capability := [capAPIUsage, capVersions, capAddOns]

/-- Repairs that name nothing more for those capabilities. -/
structure Silent (r r' : Repairs) : Prop where
  /-- Repairs stay recorded once for each capability. -/
  keys : (r.map (·.1)).Nodup → (r'.map (·.1)).Nodup
  /-- The names stay. -/
  skipped : ∀ c ∈ judgedCapabilities, (r'.of c).skipped = (r.of c).skipped

namespace Silent

/-- No repair names nothing. -/
theorem refl (r : Repairs) : Silent r r := ⟨id, fun _ _ => rfl⟩

/-- Repairs that say nothing, one after the other, say nothing. -/
theorem trans {r r' r'' : Repairs} (h : Silent r r') (h' : Silent r' r'') : Silent r r'' :=
  ⟨fun hr => h'.keys (h.keys hr), fun c hc => (h'.skipped c hc).trans (h.skipped c hc)⟩

/-- A repair without a name, or of another capability. -/
theorem add (r : Repairs) {c : Capability} {s : String} (h : s = "" ∨ c ∉ judgedCapabilities) (note : String) :
    Silent r (r.add c note s) := by
  refine ⟨fun hr => Repairs.nodup_modify hr _ _, fun c' hc' => ?_⟩
  rw [Repairs.skipped_add, if_neg]
  rintro ⟨rfl, hs⟩
  exact h.elim hs fun hnot => hnot hc'

/-- A name recorded for a capability that is not judged says nothing. -/
theorem skip (r : Repairs) {c : Capability} (h : c ∉ judgedCapabilities) (what : String) :
    Silent r (r.skip c what) := by
  refine ⟨fun hr => Repairs.nodup_modify hr _ _, fun c' hc' => ?_⟩
  unfold Repairs.skip
  rw [Repairs.of_modify, if_neg]
  exact fun heq => h (heq ▸ hc')

/-- A loop of repairs that say nothing says nothing. -/
theorem foldl {α : Type} {f : Repairs → α → Repairs} (h : ∀ r a, Silent r (f r a)) (l : List α) (r : Repairs) :
    Silent r (l.foldl f r) := by
  induction l generalizing r with
  | nil => exact refl r
  | cons a l ih => exact (h r a).trans (ih _)

/-- A loop of repairs without a name. -/
theorem unnamed {α : Type} (l : List α) (c : Capability) (note : α → String) (r : Repairs) :
    Silent r (l.foldl (fun r a => r.add c (note a) "") r) :=
  foldl (fun r _ => add r (.inl rfl) _) l r

end Silent

section Known

variable (X : External)

/-- The repair of a row's objects and namespaces names nothing. -/
theorem conformRefs_silent (counts : NamespaceCounts) (objs : List ObjectRef) (omitted : ℤ) (c : Capability)
    (what : String) (r : Repairs) : Silent r (conformRefs X counts objs omitted c what r).2.2.2 := by
  unfold conformRefs
  dsimp only
  split_ifs
  · exact ((Silent.unnamed _ c _ r).trans (Silent.unnamed _ c _ _)).trans (Silent.add _ (.inl rfl) _)
  · exact (Silent.unnamed _ c _ r).trans (Silent.unnamed _ c _ _)

/-- The repair of usage rows names nothing, and keeps what the rows count. -/
theorem conformUsages_silent (c : Capability) (us : List APIUsage) (r : Repairs) :
    Silent r (conformUsages X c us r).2 ∧ (conformUsages X c us r).1.map usageLabel = us.map usageLabel := by
  induction us generalizing r with
  | nil => exact ⟨Silent.refl r, rfl⟩
  | cons u us ih =>
    obtain ⟨hsilent, hlabels⟩ := ih (conformRefs X u.namespaces u.objects u.objectsOmitted c "API usage" r).2.2.2
    refine ⟨(conformRefs_silent X u.namespaces u.objects u.objectsOmitted c "API usage" r).trans hsilent, ?_⟩
    show usageLabel u :: _ = usageLabel u :: _
    rw [← hlabels]
    rfl

/-- The repair of the releases names nothing for the other capabilities. -/
theorem conformHelm_silent (rels : List HelmRelease) (r : Repairs) : Silent r (conformHelm X rels r).2 := by
  have hhelm : capHelm ∉ judgedCapabilities := by decide
  induction rels generalizing r with
  | nil => exact Silent.refl r
  | cons rel rels ih =>
    unfold conformHelm
    split
    · exact (Silent.add r (.inr hhelm) _).trans (ih _)
    · refine ((conformUsages_silent X capHelm rel.manifestAPIs r).1.trans ?_).trans (ih _)
      split_ifs
      · exact Silent.skip _ hhelm _
      · exact Silent.refl _

/-- The repair of the CRDs names nothing. -/
theorem conformCRDs_silent (crds : List CRD) (r : Repairs) : Silent r (conformCRDs X crds r).2 := by
  induction crds generalizing r with
  | nil => exact Silent.refl r
  | cons crd crds ih => exact (conformUsages_silent X capCRDs crd.usage r).1.trans (ih _)

/-- The repair of the images names nothing. -/
theorem conformImages_silent (images : List String) (omitted : ℤ) (r : Repairs) :
    Silent r (conformImages images omitted r).2.2 := by
  unfold conformImages
  dsimp only
  split_ifs
  · exact (Silent.unnamed _ capAddOns _ r).trans (Silent.add _ (.inl rfl) _)
  · exact Silent.unnamed _ capAddOns _ r

/-- The repair of the volume plugins names nothing for the other capabilities. -/
theorem conformVolumes_silent (vs : List VolumePluginUse) (r : Repairs) : Silent r (conformVolumes X vs r).2 := by
  have hvolumes : capVolumes ∉ judgedCapabilities := by decide
  have hrows : ∀ (vs : List VolumePluginUse) (r : Repairs), Silent r (conformVolumeRows X vs r).2 := by
    intro vs
    induction vs with
    | nil => exact Silent.refl
    | cons v vs ih =>
      exact fun r => (conformRefs_silent X v.namespaces v.objects v.objectsOmitted capVolumes "volume plugin use"
        r).trans (ih _)
  exact (hrows vs r).trans (Silent.foldl (fun r v => Silent.add r (.inr hvolumes) _) _ _)

end Known

/-! ## Everything dropped is named -/

/-- The names that the elements of a capability's lists go by when they are dropped. -/
def elementNames (inv : Inventory) (c : Capability) : List String :=
  if c = capAPIUsage then (inv.apiUsage ++ inv.apiAuthorshipUnknown).map usageLabel
  else if c = capVersions then inv.nodes.map fun _ => "nodes"
  else if c = capAddOns then inv.addOns.map fun _ => skippedPods
  else []

/-- The names of the usage rows. -/
theorem elementNames_usage (inv : Inventory) :
    elementNames inv capAPIUsage = (inv.apiUsage ++ inv.apiAuthorshipUnknown).map usageLabel := if_pos rfl

/-- The names of the nodes. -/
theorem elementNames_nodes (inv : Inventory) : elementNames inv capVersions = inv.nodes.map fun _ => "nodes" := by
  unfold elementNames
  rw [if_neg (by decide), if_pos rfl]

/-- The names of the add-on installs. -/
theorem elementNames_addOns (inv : Inventory) :
    elementNames inv capAddOns = inv.addOns.map fun _ => skippedPods := by
  unfold elementNames
  rw [if_neg (by decide), if_neg (by decide), if_pos rfl]

/-- The names of a capability's elements are those of the lists it reads. -/
theorem elementNames_congr {inv inv' : Inventory} {c : Capability}
    (husage : c ≠ capAPIUsage ∨ (inv'.apiUsage ++ inv'.apiAuthorshipUnknown).map usageLabel =
      (inv.apiUsage ++ inv.apiAuthorshipUnknown).map usageLabel)
    (hnodes : c ≠ capVersions ∨ inv'.nodes = inv.nodes) (haddOns : c ≠ capAddOns ∨ inv'.addOns = inv.addOns) :
    elementNames inv' c = elementNames inv c := by
  unfold elementNames
  split_ifs with h₁ h₂ h₃
  · exact husage.resolve_left (not_not.mpr h₁)
  · rw [hnodes.resolve_left (not_not.mpr h₂)]
  · rw [haddOns.resolve_left (not_not.mpr h₃)]
  · rfl

/-- The names of what is gone from a list, each once. -/
structure Tracks (before after names : List String) : Prop where
  /-- Nothing comes to the list. -/
  le : ∀ x, after.count x ≤ before.count x
  /-- What is named is gone. -/
  mem : ∀ x, x ∈ names ↔ after.count x < before.count x
  /-- Each name comes once. -/
  nodup : names.Nodup

/-- More is gone, of one name. -/
theorem Tracks.drop {before l l' names : List String} (h : Tracks before l names) {s : String}
    (hother : ∀ x, x ≠ s → l'.count x = l.count x) (hlt : l'.count s < l.count s) :
    Tracks before l' (if s ∈ names then names else names ++ [s]) := by
  have hmem : ∀ x, x ∈ (if s ∈ names then names else names ++ [s]) ↔ x ∈ names ∨ x = s := by
    intro x
    split_ifs with hs
    · exact ⟨.inl, fun hx => hx.elim id fun hxs => hxs ▸ hs⟩
    · simp
  constructor
  · intro x
    by_cases hx : x = s
    · subst hx
      exact hlt.le.trans (h.le x)
    · rw [hother x hx]
      exact h.le x
  · intro x
    rw [hmem, h.mem]
    by_cases hx : x = s
    · subst hx
      exact ⟨fun _ => hlt.trans_le (h.le x), fun _ => .inr rfl⟩
    · rw [hother x hx]
      simp [hx]
  · split_ifs with hs
    · exact h.nodup
    · refine List.nodup_append.mpr ⟨h.nodup, by simp, fun a ha b hb heq => hs ?_⟩
      rwa [← List.mem_singleton.mp hb, ← heq]

/-- The repairs name everything that is gone from the lists of the judged capabilities, and nothing else. -/
structure Recorded (before after : Inventory) (r : Repairs) : Prop where
  /-- The repairs are recorded once for each capability. -/
  keys : (r.map (·.1)).Nodup
  /-- What is gone is named. -/
  tracks : ∀ c ∈ judgedCapabilities, Tracks (elementNames before c) (elementNames after c) (r.of c).skipped

namespace Recorded

variable {before inv inv' : Inventory} {r r' : Repairs}

/-- Nothing is gone from an inventory that nothing was done to. -/
theorem refl (inv : Inventory) : Recorded inv inv [] :=
  ⟨by simp, fun _ _ => ⟨fun _ => le_rfl, by simp [Repairs.of], by simp [Repairs.of]⟩⟩

/-- Repairs that name nothing, and leave the lists. -/
theorem silent (h : Recorded before inv r) (hsilent : Silent r r')
    (hnames : ∀ c ∈ judgedCapabilities, elementNames inv' c = elementNames inv c) : Recorded before inv' r' := by
  refine ⟨hsilent.keys h.keys, fun c hc => ?_⟩
  rw [hsilent.skipped c hc, hnames c hc]
  exact h.tracks c hc

/-- Elements of one name are dropped, and named. -/
theorem drop (h : Recorded before inv r) {c : Capability} {s : String} (hs : s ≠ "") (note : String)
    (hother : ∀ x, x ≠ s → (elementNames inv' c).count x = (elementNames inv c).count x)
    (hlt : (elementNames inv' c).count s < (elementNames inv c).count s)
    (hnames : ∀ c' ∈ judgedCapabilities, c' ≠ c → elementNames inv' c' = elementNames inv c') :
    Recorded before inv' (r.add c note s) := by
  refine ⟨Repairs.nodup_modify h.keys _ _, fun c' hc' => ?_⟩
  rw [Repairs.skipped_add]
  by_cases heq : c' = c
  · subst heq
    rw [if_pos ⟨rfl, hs⟩]
    exact (h.tracks c' hc').drop hother hlt
  · rw [if_neg (fun hcond => heq hcond.1), hnames c' hc' heq]
    exact h.tracks c' hc'

/-- One element of a list is dropped, and named. -/
theorem dropOne (h : Recorded before inv r) {c : Capability} {s : String} (hs : s ≠ "") (note : String)
    (hperm : (s :: elementNames inv' c).Perm (elementNames inv c))
    (hnames : ∀ c' ∈ judgedCapabilities, c' ≠ c → elementNames inv' c' = elementNames inv c') :
    Recorded before inv' (r.add c note s) := by
  refine h.drop hs note (fun x hx => ?_) ?_ hnames
  · rw [← hperm.count_eq, List.count_cons_of_ne (Ne.symm hx)]
  · rw [← hperm.count_eq, List.count_cons_self]
    exact Nat.lt_succ_self _

end Recorded

/-- The label of a usage row has the space between version and kind. -/
theorem usageLabel_ne_empty (u : APIUsage) : usageLabel u ≠ "" := by
  unfold usageLabel
  intro h
  simpa using congrArg String.toList h

/-- A list without an element, with the element in front. -/
theorem map_eraseIdx_perm {α : Type} (f : α → String) {l : List α} {i : ℕ} {a : α} (h : l[i]? = some a) :
    (f a :: (l.eraseIdx i).map f).Perm (l.map f) := by
  obtain ⟨hi, rfl⟩ := List.getElem?_eq_some_iff.mp h
  rw [← List.map_cons]
  exact (List.getElem_cons_eraseIdx_perm hi).map f

section Loop

variable {X : External} {before inv inv' : Inventory} {r r' : Repairs}

/-- The element of a list that is dropped. -/
theorem dropAt_eq_some {α : Type} {l : List α} {i : ℕ} {set : List α → Inventory} {add : α → Repairs}
    (h : dropAt l i set add = some (inv', r')) : ∃ a, l[i]? = some a ∧ inv' = set (l.eraseIdx i) ∧ r' = add a := by
  obtain ⟨a, ha, heq⟩ := Option.map_eq_some_iff.mp h
  obtain ⟨rfl, rfl⟩ := Prod.mk.inj heq
  exact ⟨a, ha, rfl, rfl⟩

/-- Dropping from the lists of other capabilities, or without a name, names nothing. -/
theorem dropAt_silent {α : Type} {l : List α} {i : ℕ} {set : List α → Inventory} {c : Capability} {note : String}
    {name : α → String} (h : Recorded before inv r)
    (hdrop : dropAt l i set (fun a => r.add c note (name a)) = some (inv', r'))
    (hname : (∀ a, name a = "") ∨ c ∉ judgedCapabilities)
    (hset : ∀ l, ∀ c ∈ judgedCapabilities, elementNames (set l) c = elementNames inv c) : Recorded before inv' r' := by
  obtain ⟨a, -, rfl, rfl⟩ := dropAt_eq_some hdrop
  exact h.silent (Silent.add r (hname.imp (fun hname => hname a) id) note) (hset _)

/-- One turn of the loop drops an element and names it. -/
theorem dropFrom_recorded {list : String} {i : ℕ} (h : Recorded before inv r)
    (hdrop : dropFrom X list i inv r = some (inv', r')) : Recorded before inv' r' := by
  have hhelm : capHelm ∉ judgedCapabilities := by decide
  have hvolumes : capVolumes ∉ judgedCapabilities := by decide
  unfold dropFrom at hdrop
  split at hdrop
  case h_1 => exact dropAt_silent h hdrop (.inr hhelm) fun _ _ _ => rfl
  case h_2 => exact dropAt_silent h hdrop (.inr hhelm) fun _ _ _ => rfl
  case h_3 =>
    -- An add-on install.
    obtain ⟨a, ha, rfl, rfl⟩ := dropAt_eq_some hdrop
    refine h.dropOne (by decide) _ ?_ fun c _ hc => elementNames_congr (.inr rfl) (.inr rfl) (.inl hc)
    rw [elementNames_addOns, elementNames_addOns]
    exact map_eraseIdx_perm (fun _ => skippedPods) ha
  case h_4 =>
    -- A usage row.
    obtain ⟨u, hu, rfl, rfl⟩ := dropAt_eq_some hdrop
    refine h.dropOne (usageLabel_ne_empty u) _ ?_ fun c _ hc => elementNames_congr (.inl hc) (.inr rfl) (.inr rfl)
    rw [elementNames_usage, elementNames_usage, List.map_append, List.map_append]
    exact (map_eraseIdx_perm usageLabel hu).append_right _
  case h_5 =>
    -- A row of objects nobody can be named for.
    obtain ⟨u, hu, rfl, rfl⟩ := dropAt_eq_some hdrop
    refine h.dropOne (usageLabel_ne_empty u) _ ?_ fun c _ hc => elementNames_congr (.inl hc) (.inr rfl) (.inr rfl)
    rw [elementNames_usage, elementNames_usage, List.map_append, List.map_append]
    exact List.perm_middle.symm.trans ((map_eraseIdx_perm usageLabel hu).append_left _)
  case h_6 => exact dropAt_silent h hdrop (.inl fun _ => rfl) fun _ _ _ => rfl
  case h_7 => exact dropAt_silent h hdrop (.inl fun _ => rfl) fun _ _ _ => rfl
  case h_8 =>
    -- A node.
    obtain ⟨n, hn, rfl, rfl⟩ := dropAt_eq_some hdrop
    refine h.dropOne (by decide) _ ?_ fun c _ hc => elementNames_congr (.inr rfl) (.inl hc) (.inr rfl)
    rw [elementNames_nodes, elementNames_nodes]
    exact map_eraseIdx_perm (fun _ => "nodes") hn
  case h_9 => exact dropAt_silent h hdrop (.inl fun _ => rfl) fun _ _ _ => rfl
  case h_10 => exact dropAt_silent h hdrop (.inl fun _ => rfl) fun _ _ _ => rfl
  case h_11 => exact dropAt_silent h hdrop (.inr hvolumes) fun _ _ _ => rfl
  case h_12 => exact dropAt_silent h hdrop (.inl fun _ => rfl) fun _ _ _ => rfl
  case h_13 => simp at hdrop

/-- What an error makes the loop drop is named. -/
theorem dropElement_recorded {err : AdmitError} (h : Recorded before inv r)
    (hdrop : dropElement X err inv r = some (inv', r')) : Recorded before inv' r' := by
  unfold dropElement at hdrop
  obtain ⟨field, -, hfield⟩ := Option.bind_eq_some_iff.mp hdrop
  split_ifs at hfield
  · obtain ⟨rfl, rfl⟩ := Prod.mk.inj (Option.some.inj hfield)
    exact h.silent (Silent.add r (.inl rfl) _) fun _ _ => rfl
  · obtain ⟨p, -, hfrom⟩ := Option.bind_eq_some_iff.mp hfield
    exact dropFrom_recorded h hfrom

/-- The loop names everything it drops. -/
theorem dropLoop_recorded (n : ℕ) (h : Recorded before inv r) :
    Recorded before (dropLoop X n inv r).1 (dropLoop X n inv r).2.1 := by
  induction n generalizing inv r with
  | zero =>
    unfold dropLoop
    cases checkAdmissible X inv with
    | none => exact h
    | some err => exact h
  | succ n ih =>
    unfold dropLoop
    cases checkAdmissible X inv with
    | none => exact h
    | some err =>
      dsimp only
      cases hdrop : dropElement X err inv r with
      | none => exact h
      | some p => exact ih (dropElement_recorded h hdrop)

/-- The repair of the add-on installs names what it drops. -/
theorem conformAddOns_recorded (h : Recorded before inv r) :
    Recorded before { inv with addOns := (conformAddOns inv.addOns r).1 } (conformAddOns inv.addOns r).2 := by
  -- The installs before the one that is looked at are those that are kept.
  suffices hloop : ∀ (l pre : List AddOnInstance) (r : Repairs), Recorded before { inv with addOns := pre ++ l } r →
      Recorded before { inv with addOns := pre ++ (conformAddOns l r).1 } (conformAddOns l r).2 by
    exact hloop inv.addOns [] r h
  intro l
  induction l with
  | nil => exact fun pre r h => h
  | cons a l ih =>
    intro pre r h
    unfold conformAddOns at ih ⊢
    cases hlong : a.long with
    | true =>
      rw [List.filter_cons_of_neg (by simp [hlong]), List.filter_cons_of_pos hlong, List.foldl_cons]
      refine ih pre _ (h.dropOne (by decide) _ ?_ fun c _ hc => elementNames_congr (.inr rfl) (.inr rfl) (.inl hc))
      rw [elementNames_addOns, elementNames_addOns]
      exact (List.perm_middle (a := a)).symm.map fun _ => skippedPods
    | false =>
      rw [List.filter_cons_of_pos (by simp [hlong]), List.filter_cons_of_neg (by simp [hlong])]
      have := ih (pre ++ [a]) r (by simpa using h)
      simpa using this

/-- The repairs of known shapes name what they drop. -/
theorem conformKnown_recorded (inv : Inventory) :
    Recorded inv (conformKnown X inv).1 (conformKnown X inv).2 := by
  unfold conformKnown
  dsimp only
  set helm := conformHelm X inv.helmReleases []
  set usage := conformUsages X capAPIUsage inv.apiUsage helm.2
  set unknown := conformUsages X capAPIUsage inv.apiAuthorshipUnknown usage.2
  set crds := conformCRDs X inv.crds unknown.2
  have hsilent : Silent [] crds.2 :=
    (((conformHelm_silent X _ _).trans (conformUsages_silent X _ _ _).1).trans
      (conformUsages_silent X _ _ _).1).trans (conformCRDs_silent X _ _)
  have hrows : Recorded inv { inv with
      helmReleases := helm.1, apiUsage := usage.1, apiAuthorshipUnknown := unknown.1, crds := crds.1 } crds.2 := by
    refine (Recorded.refl inv).silent hsilent fun c _ => elementNames_congr (.inr ?_) (.inr rfl) (.inr rfl)
    rw [List.map_append, List.map_append]
    exact congrArg₂ _ (conformUsages_silent X _ _ _).2 (conformUsages_silent X _ _ _).2
  exact (conformAddOns_recorded hrows).silent
    ((conformImages_silent _ _ _).trans (conformVolumes_silent X _ _)) fun _ _ => rfl

end Loop

/-! ## The statuses -/

section Statuses

variable {X : External} {inv inv' : Inventory} {r r' : Repairs}

/-- What a repair leaves: the statuses and the source. -/
def SameFrame (inv inv' : Inventory) : Prop := inv'.capabilities = inv.capabilities ∧ inv'.source = inv.source

/-- The loop leaves the statuses and the source. -/
theorem dropElement_frame {err : AdmitError} (hdrop : dropElement X err inv r = some (inv', r')) :
    SameFrame inv inv' := by
  unfold dropElement at hdrop
  obtain ⟨field, -, hfield⟩ := Option.bind_eq_some_iff.mp hdrop
  split_ifs at hfield
  · obtain ⟨rfl, -⟩ := Prod.mk.inj (Option.some.inj hfield)
    exact ⟨rfl, rfl⟩
  · obtain ⟨p, -, hfrom⟩ := Option.bind_eq_some_iff.mp hfield
    unfold dropFrom at hfrom
    split at hfrom
    case h_13 => simp at hfrom
    all_goals
      obtain ⟨a, -, rfl, -⟩ := dropAt_eq_some hfrom
      exact ⟨rfl, rfl⟩

/-- The whole loop leaves the statuses and the source. -/
theorem dropLoop_frame (n : ℕ) (inv : Inventory) (r : Repairs) : SameFrame inv (dropLoop X n inv r).1 := by
  induction n generalizing inv r with
  | zero =>
    unfold dropLoop
    cases checkAdmissible X inv <;> exact ⟨rfl, rfl⟩
  | succ n ih =>
    unfold dropLoop
    cases checkAdmissible X inv with
    | none => exact ⟨rfl, rfl⟩
    | some err =>
      dsimp only
      cases hdrop : dropElement X err inv r with
      | none => exact ⟨rfl, rfl⟩
      | some p =>
        obtain ⟨hcaps, hsource⟩ := dropElement_frame hdrop
        obtain ⟨hcaps', hsource'⟩ := ih p.1 p.2
        exact ⟨hcaps'.trans hcaps, hsource'.trans hsource⟩

/-- Writing the repairs changes the statuses only. -/
theorem apply_frame (r : Repairs) (inv : Inventory) :
    (r.apply inv).1 = { inv with capabilities := (r.apply inv).1.capabilities } := by
  unfold Repairs.apply
  dsimp only
  induction r generalizing inv with
  | nil => rfl
  | cons p r ih =>
    rw [List.foldl_cons, ih]
    unfold applyRepair
    cases inv.capabilities.lookup p.1 with
    | none => rfl
    | some st =>
      dsimp only
      split_ifs <;> rfl

/-- The status of a capability after the repairs are written. -/
theorem lookup_apply (hkeys : (r.map (·.1)).Nodup) (inv : Inventory) (c : Capability) :
    (r.apply inv).1.capabilities.lookup c = (inv.capabilities.lookup c).map fun st =>
      if st.available ∧ c ∈ r.map (·.1) then st.repaired (r.of c) else st := by
  unfold Repairs.apply
  dsimp only
  induction r generalizing inv with
  | nil => simp
  | cons p r ih =>
    rw [List.map_cons, List.nodup_cons] at hkeys
    rw [List.foldl_cons, ih hkeys.2]
    by_cases hp : p.1 = c
    · -- This is the capability's repair, and the only one.
      subst hp
      have hof : Repairs.of (p :: r) p.1 = p.2 := by simp [Repairs.of]
      rw [hof]
      unfold applyRepair
      cases hst : inv.capabilities.lookup p.1 with
      | none => simp [hst]
      | some st =>
        dsimp only
        by_cases havailable : st.available = true
        · rw [if_pos havailable, AList.lookup_insert]
          simp [havailable, hkeys.1]
        · rw [if_neg havailable, hst]
          simp [havailable]
    · have hof : Repairs.of (p :: r) c = Repairs.of r c := by simp [Repairs.of, hp]
      have hsame : (applyRepair inv p).capabilities.lookup c = inv.capabilities.lookup c := by
        unfold applyRepair
        cases inv.capabilities.lookup p.1 with
        | none => rfl
        | some st =>
          dsimp only
          split_ifs
          · exact AList.lookup_insert_ne (Ne.symm hp)
          · rfl
      rw [hsame, hof]
      have hmem : c ∈ (p :: r).map (·.1) ↔ c ∈ r.map (·.1) := by simp [Ne.symm hp]
      simp only [hmem]

/-- The status of a capability after the free text is cut. -/
theorem lookup_cutFreeText (inv : Inventory) (c : Capability) :
    (cutFreeText inv).capabilities.lookup c = (inv.capabilities.lookup c).map CapabilityStatus.cut :=
  List.dlookup_map₂ (f := fun _ : Capability => CapabilityStatus.cut) (l := inv.capabilities.entries) c

/-- Cutting the free text leaves the names of the elements. -/
theorem elementNames_cutFreeText (inv : Inventory) (c : Capability) :
    elementNames (cutFreeText inv) c = elementNames inv c := by
  refine elementNames_congr (.inr ?_) (.inr rfl) (.inr rfl)
  have hcut : usageLabel ∘ APIUsage.cut = usageLabel := rfl
  show ((inv.apiUsage.map APIUsage.cut) ++ inv.apiAuthorshipUnknown.map APIUsage.cut).map usageLabel = _
  rw [← List.map_append, List.map_map, hcut]

/-- A repaired inventory: what is gone from it is named, and the names are in the statuses of the capabilities that
are available. -/
theorem conform_spec {lines : List String} {err : Option AdmitError} (h : conform X inv = (inv', lines, err)) :
    ∃ r : Repairs, (∀ c ∈ judgedCapabilities, Tracks (elementNames inv c) (elementNames inv' c) (r.of c).skipped) ∧
      inv'.source = inv.source ∧ ∀ c, inv'.capabilities.lookup c = (inv.capabilities.lookup c).map fun st =>
        (if st.available ∧ c ∈ r.map (·.1) then st.cut.repaired (r.of c) else st.cut).cut := by
  unfold conform at h
  dsimp only at h
  set known := conformKnown X (cutFreeText inv)
  set dropped := dropLoop X maxFallbackDrops known.1 known.2
  obtain ⟨rfl, -, -⟩ : cutFreeText (dropped.2.1.apply dropped.1).1 = inv' ∧ _ ∧ _ := by
    simpa [Prod.ext_iff] using h
  have hknown : Recorded (cutFreeText inv) known.1 known.2 := conformKnown_recorded (cutFreeText inv)
  have hrecorded : Recorded (cutFreeText inv) dropped.1 dropped.2.1 := dropLoop_recorded maxFallbackDrops hknown
  obtain ⟨hcaps, hsource⟩ : SameFrame known.1 dropped.1 := dropLoop_frame maxFallbackDrops known.1 known.2
  have hframe := apply_frame dropped.2.1 dropped.1
  refine ⟨dropped.2.1, fun c hc => ?_, ?_, fun c => ?_⟩
  · have hnames : elementNames (dropped.2.1.apply dropped.1).1 c = elementNames dropped.1 c := by
      rw [hframe]
      rfl
    rw [elementNames_cutFreeText, hnames, ← elementNames_cutFreeText inv]
    exact hrecorded.tracks c hc
  · show (dropped.2.1.apply dropped.1).1.source = inv.source
    rw [hframe]
    exact hsource
  · rw [lookup_cutFreeText, lookup_apply hrecorded.keys, hcaps]
    show Option.map _ (Option.map _ ((cutFreeText inv).capabilities.lookup c)) = _
    rw [lookup_cutFreeText, Option.map_map, Option.map_map]
    rfl

end Statuses

end UpgradeScope
