import UpgradeScope.Engine.Grouping
import UpgradeScope.Engine.KeyFamilies
import UpgradeScope.Engine.Reorder
import UpgradeScope.Registry.Validate

/-!
# What the order of installs shows

The findings about add-ons and node runtimes sort most of what they print, but not all of it: the version that names a
group is the first of the oldest ones (`oldestVersion`), and the reasons for a missing version stand in the order of the
installs (`noVersionReason`). Here are the installs of one entry: the findings about them read the same in every order
where neither shows (`OneText.addOnFindings_eq`), and only there (`OneText.of_fixed`).

Whether one version is before another is not transitive, as versions that do not parse compare as texts, so the oldest
of a group is told apart from the others only when it is before each of them (`OneOldest`).
-/

namespace UpgradeScope

open Go Sorting Kb Registry

/-! ## The oldest version -/

/-- Of two versions at most one is before the other. -/
theorem versionBefore_asymm (v w : String) (h : versionBefore v w = true) : versionBefore w v = false := by
  unfold versionBefore at h ⊢
  cases hv : versionParts v with
  | none => simpa [hv] using lt_asymm (show v < w by simpa [hv] using h)
  | some pv =>
    cases hw : versionParts w with
    | none => simpa [hv, hw] using lt_asymm (show v < w by simpa [hv, hw] using h)
    | some pw => simpa [hv, hw] using lt_asymm (show pv < pw by simpa [hv, hw] using h)

/-- The loop over versions is the loop that keeps the older one, over the known versions. -/
theorem oldestVersion_eq_pick (vs : List String) :
    oldestVersion vs = pick "" versionBefore (vs.filter (· ≠ "")) :=
  foldl_known_eq_pick versionBefore vs

/-- The versions have one oldest text: none is known, or one is before every other. -/
def OneOldest (vs : List String) : Prop :=
  (∀ v ∈ vs, v = "") ∨ ∃ v ∈ vs, v ≠ "" ∧ ∀ w ∈ vs, w ≠ "" → w ≠ v → versionBefore v w = true

instance (vs : List String) : Decidable (OneOldest vs) := inferInstanceAs (Decidable (_ ∨ _))

/-- Versions with one oldest text have it in every order. -/
theorem OneOldest.oldestVersion_eq {vs vs' : List String} (h : OneOldest vs) (hperm : vs.Perm vs') :
    oldestVersion vs' = oldestVersion vs := by
  rw [oldestVersion_eq_pick, oldestVersion_eq_pick, eq_comm]
  refine pick_eq_of_perm (hperm.filter _) ?_
  rcases h with hnone | ⟨v, hv, hne, hbefore⟩
  · left
    rw [List.filter_eq_nil_iff.mpr fun v hv => by simp [hnone v hv]]
    simp
  · refine .inr ⟨v, hne, List.mem_filter.mpr ⟨hv, by simpa using hne⟩, fun w hw hwv => ?_⟩
    obtain ⟨hw, hwne⟩ := List.mem_filter.mp hw
    have hvw := hbefore w hw (of_decide_eq_true hwne) hwv
    exact ⟨hvw, versionBefore_asymm v w hvw⟩

/-- Installs whose oldest version is one text in every order have one oldest text. -/
theorem oneOldest_of_perm {ins : List AddOnInstall}
    (h : ∀ ins', ins.Perm ins' → oldestVersion (ins'.map (·.version)) = oldestVersion (ins.map (·.version))) :
    OneOldest (ins.map (·.version)) := by
  by_cases hnone : ∀ v ∈ ins.map (·.version), v = ""
  · exact .inl hnone
  -- The known versions of the installs, in any order, are those of the installs in some order.
  have hknown : ∀ vs', ((ins.map (·.version)).filter (· ≠ "")).Perm vs' →
      pick "" versionBefore vs' = pick "" versionBefore ((ins.map (·.version)).filter (· ≠ "")) := by
    intro vs' hvs'
    have hsplit := (List.filter_append_perm (fun v => decide (v ≠ "")) (ins.map (·.version))).symm.trans
      (hvs'.append_right _)
    obtain ⟨ins', hperm, hmap⟩ := exists_perm_map_eq hsplit
    have hold := h ins' hperm
    rw [oldestVersion_eq_pick, oldestVersion_eq_pick, hmap, List.filter_append] at hold
    have hvs : vs'.filter (· ≠ "") = vs' := by
      rw [List.filter_eq_self]
      intro v hv
      exact (List.mem_filter.mp (hvs'.mem_iff.mpr hv)).2
    have hrest : ((ins.map (·.version)).filter fun v => !decide (v ≠ "")).filter (· ≠ "") = [] := by
      rw [List.filter_eq_nil_iff]
      intro v hv
      have := (List.mem_filter.mp hv).2
      simpa using this
    rwa [hvs, hrest, List.append_nil] at hold
  have hne : (ins.map (·.version)).filter (· ≠ "") ≠ [] := by
    intro hnil
    rw [List.filter_eq_nil_iff] at hnil
    exact hnone fun v hv => by simpa using hnil v hv
  obtain ⟨hmem, hbeats⟩ := greatest_of_pick versionBefore_asymm hne (by simp) hknown
  generalize pick "" versionBefore ((ins.map (·.version)).filter (· ≠ "")) = v at hmem hbeats
  obtain ⟨hv, hvne⟩ := List.mem_filter.mp hmem
  refine .inr ⟨v, hv, of_decide_eq_true hvne, fun w hw hwne hwv => ?_⟩
  exact (hbeats w (List.mem_filter.mpr ⟨hw, by simpa using hwne⟩) hwv).1

/-! ## Subjects -/

section Subjects

variable {ins ins' : List AddOnInstall}

/-- The evidence sentence of node runtimes names them in order; a release line also by its oldest version. -/
theorem locatedOnNodes_eq (hperm : ins.Perm ins') (name : String) {line : Bool}
    (hold : line = true → oldestVersion (ins'.map (·.version)) = oldestVersion (ins.map (·.version))) :
    locatedOnNodes name ins' line = locatedOnNodes name ins line := by
  unfold locatedOnNodes
  dsimp only
  rw [sorted_eq_of_perm (hperm.symm.map _)]
  split_ifs with hline
  · rw [hold hline]
  · rfl

/-- The evidence sentence of installs of one version, found in one way. -/
def locatedOnce (name version via : String) (namespaces : List String) : String :=
  let version := orElse version "(unknown)"
  if namespaces = [] then s!"Detected {name} version {version} via {via} (cluster-scoped)."
  else s!"Detected {name} version {version} via {via} in namespace(s): {located (namespaces.map nsLabel)}."

/-- Installs of one version, found in one way. -/
theorem locatedInNamespaces_once {name version via : String} (hne : ins ≠ [])
    (h : ∀ i ∈ ins, i.version = version ∧ i.via = via) :
    locatedInNamespaces name ins = locatedOnce name version via (installNamespaces ins) := by
  obtain ⟨i, rest, rfl⟩ := List.exists_cons_of_ne_nil hne
  obtain ⟨rfl, rfl⟩ := h i List.mem_cons_self
  have hall : ((i :: rest).all fun x => decide (x.version = ((i :: rest).headD ⟨"", "", [], []⟩).version ∧
      x.via = ((i :: rest).headD ⟨"", "", [], []⟩).via)) = true :=
    List.all_eq_true.mpr fun x hx => decide_eq_true (h x hx)
  unfold locatedInNamespaces locatedOnce
  by_cases hns : installNamespaces (i :: rest) = []
  · rw [if_pos ⟨hall, hns⟩, if_pos hns]
    rfl
  · rw [if_neg fun h => hns h.2, if_pos hall, if_neg hns]
    rfl

/-- Installs that differ are named one by one. -/
theorem locatedInNamespaces_each {name : String}
    (h : ¬ ∃ version via, ∀ i ∈ ins, i.version = version ∧ i.via = via) :
    locatedInNamespaces name ins = s!"Detected {name} in namespace(s): {located (sorted (ins.flatMap installParts))}." := by
  have hnot : ¬ (ins.all fun i => decide (i.version = (ins.headD ⟨"", "", [], []⟩).version ∧
      i.via = (ins.headD ⟨"", "", [], []⟩).via)) = true := fun hall =>
    h ⟨_, _, fun i hi => of_decide_eq_true (List.all_eq_true.mp hall i hi)⟩
  unfold locatedInNamespaces
  rw [if_neg fun h => hnot h.1, if_neg hnot]

/-- The evidence sentence of installs in namespaces does not depend on their order. -/
theorem locatedInNamespaces_eq (hperm : ins.Perm ins') (name : String) :
    locatedInNamespaces name ins' = locatedInNamespaces name ins := by
  by_cases hnil : ins = []
  · rw [hnil] at hperm ⊢
    rw [hperm.nil_eq]
  have hnil' : ins' ≠ [] := fun h => hnil (h ▸ hperm).eq_nil
  by_cases hone : ∃ version via, ∀ i ∈ ins, i.version = version ∧ i.via = via
  · obtain ⟨version, via, h⟩ := hone
    rw [locatedInNamespaces_once hnil h, locatedInNamespaces_once hnil' fun i hi => h i (hperm.mem_iff.mpr hi)]
    unfold installNamespaces
    rw [sortedSet_eq_of_perm (hperm.flatMap_right _)]
  · have hone' : ¬ ∃ version via, ∀ i ∈ ins', i.version = version ∧ i.via = via := by
      rintro ⟨version, via, h⟩
      exact hone ⟨version, via, fun i hi => h i (hperm.mem_iff.mp hi)⟩
    rw [locatedInNamespaces_each hone, locatedInNamespaces_each hone',
      sorted_eq_of_perm (hperm.flatMap_right installParts)]

/-- What installs in another order change of a subject: the version it is judged at, the sentence of node runtimes of
one line, and the installs' order. -/
theorem newAddOnSubject_eq (hperm : ins.Perm ins') (name : String) (line node : Bool) :
    newAddOnSubject name ins' line node =
      { newAddOnSubject name ins line node with
        version := oldestVersion (ins'.map (·.version))
        located := if node then locatedOnNodes name ins' line else locatedInNamespaces name ins
        installs := ins' } := by
  unfold newAddOnSubject installNamespaces
  rw [locatedInNamespaces_eq hperm, sortedSet_eq_of_perm (hperm.flatMap_right _),
    sortedSet_eq_of_perm (hperm.flatMap_right fun i => i.teams), any_eq_of_perm hperm]

end Subjects

/-! ## One group -/

section Group

variable {X : External} {a : AddOn} {target : Version} {now : Time} {lc : Bool} {ins ins' : List AddOnInstall}

/-- Whether the findings about an install's group name the oldest version of the group: there is no release line to name
it by, or the line is at its end and the installs are node runtimes, which are named by version too. -/
def namesVersion (a : AddOn) (now : Time) (node : Bool) (i : AddOnInstall) : Bool :=
  !productDated a && match cycleFor i.version a.cycles with
    | none => true
    | some c => node && (cycleEOL a c now).isSome

/-- An install cannot run the target. -/
def cannotRun (X : External) (a : AddOn) (target : Version) (i : AddOnInstall) : Bool :=
  i.version ≠ "" ∧ (compatFor X a i.version target).isSome

/-- Installs of one oldest version are one subject. -/
theorem newAddOnSubject_of_oldest (hperm : ins.Perm ins') (name : String) (line node : Bool)
    (hold : oldestVersion (ins'.map (·.version)) = oldestVersion (ins.map (·.version))) :
    newAddOnSubject name ins' line node = { newAddOnSubject name ins line node with installs := ins' } := by
  rw [newAddOnSubject_eq hperm, hold, locatedOnNodes_eq hperm name fun _ => hold]
  rfl

/-- The end of a group's line, whatever the order of the installs. -/
theorem lineFinding_of_perm (hperm : ins.Perm ins') {name : String} {line node : Bool}
    (hsame : SameLine a now (newAddOnSubject name ins line node) (newAddOnSubject name ins' line node))
    (hold : productDated a = false → (∀ c, cycleFor (oldestVersion (ins.map (·.version))) a.cycles = some c →
        node = true ∧ (cycleEOL a c now).isSome = true) →
      oldestVersion (ins'.map (·.version)) = oldestVersion (ins.map (·.version))) :
    lineFinding a now (newAddOnSubject name ins' line node) = lineFinding a now (newAddOnSubject name ins line node) := by
  by_cases hdated : productDated a = true
  · simp [lineFinding, hdated]
  have hdated : productDated a = false := by simpa using hdated
  by_cases hnamed : ∀ c, cycleFor (oldestVersion (ins.map (·.version))) a.cycles = some c →
      node = true ∧ (cycleEOL a c now).isSome = true
  · rw [newAddOnSubject_of_oldest hperm name line node (hold hdated hnamed)]
    rfl
  · -- The group has a line, whose end is not due or is told without a version.
    push Not at hnamed
    obtain ⟨c, hc, hend⟩ := hnamed
    have hc' : cycleFor (newAddOnSubject name ins' line node).version a.cycles = some c := hsame.cycle ▸ hc
    have hkey := hsame.lineKey_eq
    unfold lineFinding
    rw [hc', show cycleFor (newAddOnSubject name ins line node).version a.cycles = some c from hc, ← hkey]
    dsimp only
    cases hnode : node with
    | false =>
      rw [newAddOnSubject_eq hperm]
      rfl
    | true =>
      have hnone : cycleEOL a c now = none := by simpa using hend hnode
      rw [hnone]
      simp

/-- The reasons of installs that all have one. -/
theorem noVersionReason_of_one {node : Bool} {sentence : String} (hne : ins ≠ [])
    (h : ∀ i ∈ ins, noVersionSentence node lc i = sentence) :
    noVersionReason ins node lc = " " ++ sentence ++ " Its end of life and Kubernetes compatibility were not assessed." := by
  have hmap : ins.map (noVersionSentence node lc) = List.replicate ins.length sentence :=
    List.eq_replicate_iff.mpr ⟨by simp, by simpa using h⟩
  have hkeep : ∀ n, (List.replicate n sentence).foldl
      (fun dst a => if a ∈ dst then dst else dst ++ [a]) [sentence] = [sentence] := by
    intro n
    induction n with
    | zero => rfl
    | succ n ih => simpa [List.replicate_succ] using ih
  obtain ⟨i, rest, rfl⟩ := List.exists_cons_of_ne_nil hne
  have hone : appendNew [] ((i :: rest).map (noVersionSentence node lc)) = [sentence] := by
    rw [hmap]
    exact hkeep rest.length
  unfold noVersionReason
  rw [hone]
  rfl

/-- The disclosure that a group has no line, whatever the order of the installs. -/
theorem noDataFinding_of_perm (lc : Bool) (hperm : ins.Perm ins') {name : String} {line node : Bool}
    (hsame : SameLine a now (newAddOnSubject name ins line node) (newAddOnSubject name ins' line node))
    (hold : productDated a = false → cycleFor (oldestVersion (ins.map (·.version))) a.cycles = none →
      oldestVersion (ins'.map (·.version)) = oldestVersion (ins.map (·.version)))
    (hreasons : productDated a = false → oldestVersion (ins.map (·.version)) = "" →
      noVersionReason ins' node lc = noVersionReason ins node lc) :
    noDataFinding a now lc (newAddOnSubject name ins' line node) =
      noDataFinding a now lc (newAddOnSubject name ins line node) := by
  by_cases hdated : productDated a = true
  · simp [noDataFinding, hdated]
  have hdated : productDated a = false := by simpa using hdated
  cases hc : cycleFor (newAddOnSubject name ins line node).version a.cycles with
  | some c => simp [noDataFinding, ← hsame.cycle, hc]
  | none =>
    rw [newAddOnSubject_of_oldest hperm name line node (hold hdated hc)]
    unfold noDataFinding
    by_cases hempty : (newAddOnSubject name ins line node).version = ""
    · have hr : noVersionReason ins' node lc = noVersionReason (newAddOnSubject name ins line node).installs node lc :=
        hreasons hdated hempty
      dsimp only
      rw [show (newAddOnSubject name ins line node).node = node from rfl, hr]
      rfl
    · dsimp only
      rw [if_neg hempty, if_neg hempty]
      rfl

/-- The installs that cannot run the target, whatever the order of the installs. -/
theorem evalAddOnCompat_of_perm (hperm : ins.Perm ins') {name : String} {line node : Bool} (key : String)
    (hold : OneOldest ((ins.filter (cannotRun X a target)).map (·.version))) :
    evalAddOnCompat X a (newAddOnSubject name ins' line node) target key =
      evalAddOnCompat X a (newAddOnSubject name ins line node) target key := by
  have hbad : badInstalls X a (newAddOnSubject name ins line node) target = ins.filter (cannotRun X a target) := rfl
  have hbad' : badInstalls X a (newAddOnSubject name ins' line node) target = ins'.filter (cannotRun X a target) := rfl
  have hp : (ins.filter (cannotRun X a target)).Perm (ins'.filter (cannotRun X a target)) := hperm.filter _
  unfold evalAddOnCompat
  rw [hbad, hbad']
  generalize ins.filter (cannotRun X a target) = bad at hold hp
  generalize ins'.filter (cannotRun X a target) = bad' at hp
  have hnil : (bad' = []) = (bad = []) := by
    rw [← List.length_eq_zero_iff, ← List.length_eq_zero_iff, hp.length_eq]
  have hnamed : sorted (bad'.flatMap fun i => i.where.map fun w => nsLabel w ++ " (" ++ i.version ++ ")") =
      sorted (bad.flatMap fun i => i.where.map fun w => nsLabel w ++ " (" ++ i.version ++ ")") :=
    sorted_eq_of_perm (hp.symm.flatMap_right _)
  have hversions : sortedSet (bad'.map (·.version)) = sortedSet (bad.map (·.version)) :=
    sortedSet_eq_of_perm (hp.symm.map _)
  have hteams : sortedSet (bad'.flatMap (·.teams)) = sortedSet (bad.flatMap (·.teams)) :=
    sortedSet_eq_of_perm (hp.symm.flatMap_right _)
  have hns : installNamespaces bad' = installNamespaces bad := sortedSet_eq_of_perm (hp.symm.flatMap_right _)
  dsimp only
  rw [hold.oldestVersion_eq (hp.map _)]
  simp only [hnil, hnamed, hversions, hteams, hns, any_eq_of_perm hp.symm]
  rfl

end Group

/-! ## The installs of one entry -/

section Entry

variable {X : External} {a : AddOn} {target : Version} {now : Time} {lc node : Bool} {ins ins' : List AddOnInstall}

/-- The installs of one group. -/
def groupOf (a : AddOn) (now : Time) (ins : List AddOnInstall) (key : String) : List AddOnInstall :=
  ins.filter fun i => groupKey a now i = key

/-- A group as it is judged. -/
def groupSubject (a : AddOn) (now : Time) (ins : List AddOnInstall) (node : Bool) (key : String) : AddOnSubject :=
  newAddOnSubject a.displayName (groupOf a now ins key) (key ≠ "" && !hasPrefix key belowPrefix) node

/-- The installs form one group, of a release line. -/
def oneLine (a : AddOn) (now : Time) (ins : List AddOnInstall) : Bool :=
  match sortedSet (ins.map (groupKey a now)) with
  | [key] => key ≠ "" && !hasPrefix key belowPrefix
  | _ => false

/-- Where the findings about installs read the same in every order: where a text names the oldest version of some
installs, one version is before the others, and where it names the reasons for their missing versions, they have one. -/
structure OneText (X : External) (a : AddOn) (target : Version) (now : Time) (lc node : Bool)
    (ins : List AddOnInstall) : Prop where
  /-- The version that names a group. -/
  line : ∀ i ∈ ins, namesVersion a now node i = true →
    OneOldest ((groupOf a now ins (groupKey a now i)).map (·.version))
  /-- The version that names the node runtimes of one line, where the product is judged as a whole. -/
  product : node = true → (productEOL a now).isSome = true → oneLine a now ins = true → OneOldest (ins.map (·.version))
  /-- The version that names the installs of a group that cannot run the target. -/
  compat : ∀ i ∈ ins,
    OneOldest (((groupOf a now ins (groupKey a now i)).filter (cannotRun X a target)).map (·.version))
  /-- The reasons of installs without a version. -/
  reasons : productDated a = false → (∀ i ∈ groupOf a now ins "", i.version = "") →
    ∀ i ∈ groupOf a now ins "", ∀ j ∈ groupOf a now ins "", noVersionSentence node lc i = noVersionSentence node lc j

variable {i : AddOnInstall}

/-- An install is in the group of its key. -/
theorem mem_groupOf {key : String} : i ∈ groupOf a now ins key ↔ i ∈ ins ∧ groupKey a now i = key := by
  simp [groupOf]

/-- The product is judged at all installs, named by their line where it is one. -/
theorem groupInstalls_fst (a : AddOn) (ins : List AddOnInstall) (node : Bool) (now : Time) :
    (groupInstalls a ins node now).1 = newAddOnSubject a.displayName ins (oneLine a now ins) node := by
  unfold groupInstalls oneLine groupOn
  match hkeys : sortedSet (ins.map (groupKey a now)) with
  | [] => rfl
  | [key] =>
    have hall : (ins.filter fun i => decide (groupKey a now i = key)) = ins := by
      rw [List.filter_eq_self]
      intro i hi
      have hmem : groupKey a now i ∈ sortedSet (ins.map (groupKey a now)) :=
        mem_sortedSet.mpr (List.mem_map_of_mem hi)
      rw [hkeys] at hmem
      simpa using hmem
    simp only [List.map_cons, List.map_nil, hall]
  | key :: key' :: keys => rfl

/-- The findings about an entry's installs: the product's and those of each group, in the order of the lines. -/
theorem addOnFindings_groups (X : External) (a : AddOn) (target : Version) (now : Time) (lc node : Bool)
    (ins : List AddOnInstall) :
    addOnFindings X a target now lc ins node =
      (productFinding a now (newAddOnSubject a.displayName ins (oneLine a now ins) node)).toList ++
        (sortedSet (ins.map (groupKey a now))).flatMap fun key =>
          groupFindings X a target now lc (groupSubject a now ins node key) := by
  rw [addOnFindings_eq, groupInstalls_fst]
  unfold groupOn
  rw [List.flatMap_map]
  rfl

/-- The keys of the groups do not depend on the order of the installs. -/
theorem groupKeys_eq (hperm : ins.Perm ins') :
    sortedSet (ins'.map (groupKey a now)) = sortedSet (ins.map (groupKey a now)) :=
  sortedSet_eq_of_perm (hperm.symm.map _)

/-- A group in another order is judged by the same line. -/
theorem sameLine_groupSubject (a : AddOn) (now : Time) (node : Bool) (hperm : ins.Perm ins') (hi : i ∈ ins) :
    SameLine a now (groupSubject a now ins node (groupKey a now i)) (groupSubject a now ins' node (groupKey a now i)) := by
  refine sameLine_of_groupKey ?_ ?_ fun j hj k hk => ?_
  · exact List.ne_nil_of_mem (mem_groupOf.mpr ⟨hi, rfl⟩)
  · exact List.ne_nil_of_mem (mem_groupOf.mpr ⟨hperm.mem_iff.mp hi, rfl⟩)
  · rw [(mem_groupOf.mp hj).2, (mem_groupOf.mp hk).2]

/-- The line of an install is the line its group is judged by. -/
theorem cycleFor_groupSubject (a : AddOn) (now : Time) (node : Bool) (hi : i ∈ ins) :
    cycleFor (groupSubject a now ins node (groupKey a now i)).version a.cycles = cycleFor i.version a.cycles := by
  obtain ⟨j, hj, hv⟩ := exists_oldest (List.ne_nil_of_mem (mem_groupOf.mpr ⟨hi, rfl⟩) :
    groupOf a now ins (groupKey a now i) ≠ [])
  show cycleFor (oldestVersion _) _ = _
  rw [← hv]
  exact (line_eq_of_groupKey (mem_groupOf.mp hj).2).1

/-- Installs without a version have no line. -/
theorem groupKey_of_empty (h : i.version = "") : groupKey a now i = "" := by
  unfold groupKey cycleFor predatesCycles
  rw [h, versionParts_empty]

/-- The findings about a group that reads the same in every order. -/
theorem OneText.groupFindings_eq (h : OneText X a target now lc node ins) (hperm : ins.Perm ins') (hi : i ∈ ins) :
    groupFindings X a target now lc (groupSubject a now ins' node (groupKey a now i)) =
      groupFindings X a target now lc (groupSubject a now ins node (groupKey a now i)) := by
  have hgroup : (groupOf a now ins (groupKey a now i)).Perm (groupOf a now ins' (groupKey a now i)) := hperm.filter _
  have hsame := sameLine_groupSubject a now node hperm hi
  have hline := cycleFor_groupSubject a now node hi
  have hold : namesVersion a now node i = true → oldestVersion ((groupOf a now ins' (groupKey a now i)).map (·.version)) =
      oldestVersion ((groupOf a now ins (groupKey a now i)).map (·.version)) := fun hnames =>
    (h.line i hi hnames).oldestVersion_eq (hgroup.map _)
  have hlineFinding := lineFinding_of_perm hgroup hsame fun hdated hnamed => hold (by
    unfold namesVersion
    rw [hdated]
    cases hc : cycleFor i.version a.cycles with
    | none => rfl
    | some c =>
      obtain ⟨hnode, hend⟩ := hnamed c (hline.trans hc)
      simp [hnode, hend])
  have hnoData := noDataFinding_of_perm lc hgroup hsame (fun hdated hnone => hold (by
      unfold namesVersion
      rw [hdated, show cycleFor i.version a.cycles = none from hline.symm.trans hnone]
      rfl))
    fun hdated hempty => by
      -- No version of the group is known, so it is the group without a line.
      have hall : ∀ j ∈ groupOf a now ins (groupKey a now i), j.version = "" := by
        rcases oldestVersion_cases ((groupOf a now ins (groupKey a now i)).map (·.version)) with ⟨-, hne⟩ | ⟨-, hall⟩
        · exact absurd hempty hne
        · exact fun j hj => hall _ (List.mem_map_of_mem hj)
      have hmem : i ∈ groupOf a now ins (groupKey a now i) := mem_groupOf.mpr ⟨hi, rfl⟩
      have hkey : groupKey a now i = "" := groupKey_of_empty (hall i hmem)
      rw [hkey] at hall hmem hgroup ⊢
      have hone : ∀ j ∈ groupOf a now ins "", noVersionSentence node lc j = noVersionSentence node lc i :=
        fun j hj => h.reasons hdated hall j hj i hmem
      rw [noVersionReason_of_one (List.ne_nil_of_mem hmem) hone,
        noVersionReason_of_one (List.ne_nil_of_mem (hgroup.mem_iff.mp hmem)) fun j hj => hone j (hgroup.mem_iff.mpr hj)]
  unfold groupFindings
  rw [← hsame.lineKey_eq]
  unfold groupSubject at hlineFinding hnoData ⊢
  rw [hlineFinding, hnoData, evalAddOnCompat_of_perm hgroup _ (h.compat i hi)]

/-- The finding about the product, whatever the order of the installs. -/
theorem OneText.productFinding_eq (h : OneText X a target now lc node ins) (hperm : ins.Perm ins') :
    productFinding a now (newAddOnSubject a.displayName ins' (oneLine a now ins) node) =
      productFinding a now (newAddOnSubject a.displayName ins (oneLine a now ins) node) := by
  unfold productFinding
  cases hproduct : productEOL a now with
  | none => rfl
  | some p =>
    have hlocated : node = true → locatedOnNodes a.displayName ins' (oneLine a now ins) =
        locatedOnNodes a.displayName ins (oneLine a now ins) := fun hnode =>
      locatedOnNodes_eq hperm _ fun hline =>
        (h.product hnode (by rw [hproduct]; rfl) hline).oldestVersion_eq (hperm.map _)
    rw [newAddOnSubject_eq hperm]
    cases hnode : node with
    | false => rfl
    | true =>
      rw [hlocated hnode]
      rfl

/-- The findings about installs that read the same in every order. -/
theorem OneText.addOnFindings_eq (h : OneText X a target now lc node ins) (hperm : ins.Perm ins') :
    addOnFindings X a target now lc ins' node = addOnFindings X a target now lc ins node := by
  have hone : oneLine a now ins' = oneLine a now ins := by
    unfold oneLine
    rw [groupKeys_eq hperm]
  have hgroups : ((sortedSet (ins.map (groupKey a now))).flatMap fun key =>
        groupFindings X a target now lc (groupSubject a now ins' node key)) =
      (sortedSet (ins.map (groupKey a now))).flatMap fun key =>
        groupFindings X a target now lc (groupSubject a now ins node key) := by
    refine List.flatMap_congr fun key hkey => ?_
    obtain ⟨i, hi, rfl⟩ := List.mem_map.mp (mem_sortedSet.mp hkey)
    exact h.groupFindings_eq hperm hi
  rw [addOnFindings_groups, addOnFindings_groups, groupKeys_eq hperm, hone, h.productFinding_eq hperm, hgroups]

end Entry

/-! ## What the registry's validation promises -/

section Validated

variable {X : External} {L : Library} {a : AddOn}

/-- What the validation promises of an entry: plain keys, and bounds that are versions. -/
structure Validated (a : AddOn) : Prop where
  /-- The id and the lines have no slash. -/
  plain : PlainEntry a
  /-- The bounds of the lines. -/
  cycles : ∀ c ∈ a.cycles, (c.k8sMin = "" ∨ k8sVerPattern c.k8sMin = true) ∧ (c.k8sMax = "" ∨ k8sVerPattern c.k8sMax = true)
  /-- The bounds of the rows. -/
  compat : ∀ c ∈ a.compat, (c.k8sMin = "" ∨ k8sVerPattern c.k8sMin = true) ∧ (c.k8sMax = "" ∨ k8sVerPattern c.k8sMax = true)

/-- An accepted entry is what the validation promises. -/
theorem validated_of_validate (h : validate X L a = []) : Validated a := by
  unfold validate at h
  simp only [List.append_eq_nil_iff, List.flatMap_eq_nil_iff] at h
  obtain ⟨⟨⟨⟨hid, -⟩, -⟩, hcycles⟩, hcompat⟩ := h
  have hidp : idPattern a.id = true := by
    unfold validateID at hid
    obtain ⟨-, hid⟩ := List.append_eq_nil_iff.mp hid
    by_contra hnot
    split_ifs at hid
  -- Every line was checked at its own place in the entry.
  have hcycle : ∀ c ∈ a.cycles, cyclePattern c.cycle = true ∧ ∃ loc, validateK8sBounds X loc c.k8sMin c.k8sMax = [] := by
    intro c hc
    obtain ⟨n, hn⟩ := List.mem_iff_getElem?.mp hc
    have hnil := hcycles (c, n) (List.mk_mem_zipIdx_iff_getElem?.mpr hn)
    unfold validateCycle at hnil
    simp only [List.append_eq_nil_iff] at hnil
    obtain ⟨⟨⟨hpattern, -⟩, hbounds⟩, -⟩ := hnil
    refine ⟨?_, _, hbounds⟩
    by_contra hnot
    rw [if_pos hnot] at hpattern
    simp at hpattern
  have hrow : ∀ c ∈ a.compat, ∃ loc, validateK8sBounds X loc c.k8sMin c.k8sMax = [] := by
    intro c hc
    obtain ⟨n, hn⟩ := List.mem_iff_getElem?.mp hc
    have hnil := hcompat (c, n) (List.mk_mem_zipIdx_iff_getElem?.mpr hn)
    unfold validateCompat at hnil
    simp only [List.append_eq_nil_iff] at hnil
    exact ⟨_, hnil.1.2⟩
  refine ⟨⟨fun hslash => ?_, fun c hc hslash => ?_⟩, fun c hc => ?_, fun c hc => ?_⟩
  · exact absurd (chars_of_idPattern hidp hslash) (by decide)
  · exact absurd (chars_of_cyclePattern (hcycle c hc).1 hslash) (by decide)
  · obtain ⟨-, loc, hbounds⟩ := hcycle c hc
    exact bounds_of_validateK8sBounds X hbounds
  · obtain ⟨loc, hbounds⟩ := hrow c hc
    exact bounds_of_validateK8sBounds X hbounds

end Validated

/-! ## Texts that show the order -/

section Shown

variable {X : External} {a : AddOn} {target : Version} {now : Time} {lc node : Bool} {ins ins' : List AddOnInstall}

/-- The installs of a group in another order are the group of the installs in some order. -/
theorem exists_perm_group {key : String} {g : List AddOnInstall} (h : (groupOf a now ins key).Perm g) :
    ∃ ins', ins.Perm ins' ∧ groupOf a now ins' key = g := by
  exact exists_perm_filter_eq h

variable {s : AddOnSubject} {c : Cycle} {i : AddOnInstall}

/-- A finding about a group is one of the entry's. -/
theorem mem_addOnFindings_of_group (hi : i ∈ ins) {f : Finding}
    (hf : f ∈ groupFindings X a target now lc (groupSubject a now ins node (groupKey a now i))) :
    f ∈ addOnFindings X a target now lc ins node := by
  rw [addOnFindings_groups]
  refine List.mem_append_right _ (List.mem_flatMap.mpr ⟨groupKey a now i, ?_, hf⟩)
  exact mem_sortedSet.mpr (List.mem_map_of_mem hi)

/-- An install that has a line is in a group that is one. -/
theorem isLine_groupKey (h : cycleFor i.version a.cycles = some c) :
    (decide (groupKey a now i ≠ "") && !hasPrefix (groupKey a now i) belowPrefix) = true := by
  have hkey : groupKey a now i = c.cycle := by
    unfold groupKey
    rw [h]
  have hparts := (cycleFor_find h).1
  have hne : c.cycle ≠ "" := fun he => hparts (he ▸ versionParts_empty)
  have hbelow : hasPrefix c.cycle belowPrefix = false := by
    rw [← Bool.not_eq_true, hasPrefix_iff]
    rintro ⟨t, ht⟩
    exact hparts (ht ▸ versionParts_below t)
  rw [hkey]
  simp [hne, hbelow]

/-- The finding about versions older than every line names the oldest. -/
theorem lineFinding_below {o : Cycle} (hdated : productDated a = false) (hc : cycleFor s.version a.cycles = none)
    (ho : predatesCycles s.version a.cycles now = some o) :
    ∃ f, lineFinding a now s = some f ∧ f.key = Category.eolAddon.name ++ "/" ++ lineKey a now s ∧
      f.title = s!"{a.displayName} {s.version} is end-of-life (older than the {o.cycle} release line)" := by
  unfold lineFinding
  rw [hc, ho, hdated]
  exact ⟨_, rfl, rfl, rfl⟩

/-- The finding about the end of a line locates the installs. -/
theorem lineFinding_end {e : Category × Severity × String × String} (hdated : productDated a = false)
    (hc : cycleFor s.version a.cycles = some c) (he : cycleEOL a c now = some e) :
    ∃ f, lineFinding a now s = some f ∧ f.key = e.1.name ++ "/" ++ lineKey a now s ∧
      f.detail = s.located ++ e.2.2.2 ++ if s.node && e.2.1 = .blocker then nodeRuntimeNote else "" := by
  unfold lineFinding
  rw [hc, hdated]
  dsimp only
  rw [he]
  exact ⟨_, rfl, rfl, rfl⟩

/-- The version that a group without a line is named by. -/
def shownVersion (s : AddOnSubject) : String := orElse s.version "(version unknown)"

/-- The disclosure that there is no line names the oldest version, locates the installs and gives the reasons of missing
versions. -/
theorem noDataFinding_named (lc : Bool) (hdated : productDated a = false) (hc : cycleFor s.version a.cycles = none)
    (ho : predatesCycles s.version a.cycles now = none) :
    ∃ f, noDataFinding a now lc s = some f ∧ f.key = Category.addOnNoData.name ++ "/" ++ a.id ∧
      f.title = s!"no lifecycle data for {a.displayName} {shownVersion s}" ∧
      (s.version = "" → f.detail = s.located ++ noVersionReason s.installs s.node lc) := by
  unfold noDataFinding
  rw [hc, ho, hdated]
  refine ⟨_, rfl, rfl, rfl, fun hempty => ?_⟩
  show _ ++ (if s.version = "" then _ else _) = _
  rw [if_pos hempty]

end Shown

/-! ## The version in a title -/

section Titles

variable {X : External} {a : AddOn} {target : Version}

/-- A bound of the registry: no spaces, and no word. -/
theorem bound_chars {s : String} (h : s = "" ∨ k8sVerPattern s = true) : ' ' ∉ s.toList ∧ 'n' ∉ s.toList := by
  rcases h with rfl | h
  · decide
  · exact ⟨fun hc => absurd (chars_of_k8sVerPattern h hc) (by decide), fun hc => absurd (chars_of_k8sVerPattern h hc) (by decide)⟩

/-- What stands before the target in the title of a target outside the bounds, as characters: the version, and the bound
as a word of its own. -/
theorem k8sOutOfRange_words {name version lo hi title : String} (h : k8sOutOfRange X name version lo hi target = some title) :
    ∃ words, title = name ++ " " ++ words ++ " (target " ++ toString target ++ ")" ∧
      (words = version ++ " supports Kubernetes up to " ++ hi ∨
        words = version ++ " requires Kubernetes " ++ lo ++ " or newer") := by
  unfold k8sOutOfRange at h
  split_ifs at h
  · refine ⟨version ++ " supports Kubernetes up to " ++ hi, ?_, .inl rfl⟩
    rw [← Option.some.inj h]
    simp only [String.append_assoc]
    rfl
  · refine ⟨version ++ " requires Kubernetes " ++ lo ++ " or newer", ?_, .inr rfl⟩
    rw [← Option.some.inj h]
    simp only [String.append_assoc]
    rfl

/-- The title of a target outside the bounds names one version. -/
theorem version_of_k8sOutOfRange {name v w lo hi lo' hi' title : String}
    (hlo : lo = "" ∨ k8sVerPattern lo = true) (hhi : hi = "" ∨ k8sVerPattern hi = true)
    (hlo' : lo' = "" ∨ k8sVerPattern lo' = true) (hhi' : hi' = "" ∨ k8sVerPattern hi' = true)
    (h : k8sOutOfRange X name v lo hi target = some title) (h' : k8sOutOfRange X name w lo' hi' target = some title) :
    v = w := by
  obtain ⟨words, htitle, hwords⟩ := k8sOutOfRange_words h
  obtain ⟨words', htitle', hwords'⟩ := k8sOutOfRange_words h'
  have heq : words = words' := by
    have htitles := htitle.symm.trans htitle'
    iterate 3 rw [String.append_left_inj] at htitles
    rwa [String.append_right_inj] at htitles
  -- The last word is the bound or "newer"; the bound before " or newer" is the last word there.
  have hupto : ∀ s m : String, (s ++ " supports Kubernetes up to " ++ m).toList =
      (s.toList ++ " supports Kubernetes up to".toList) ++ ' ' :: m.toList := by simp
  have hneeds : ∀ s m : String, (s ++ " requires Kubernetes " ++ m).toList =
      (s.toList ++ " requires Kubernetes".toList) ++ ' ' :: m.toList := by simp
  have hnewer : ∀ s m : String, (s ++ " requires Kubernetes " ++ m ++ " or newer").toList =
      ((s ++ " requires Kubernetes " ++ m).toList ++ " or".toList) ++ ' ' :: "newer".toList := by simp
  rcases hwords with rfl | rfl
  · rcases hwords' with rfl | rfl
    · have hchars := congrArg String.toList heq
      rw [hupto, hupto] at hchars
      exact String.toList_inj.mp (List.append_cancel_right
        (append_sep_inj_right (bound_chars hhi).1 (bound_chars hhi').1 hchars).1)
    · have hchars := congrArg String.toList heq
      rw [hupto, hnewer] at hchars
      have hlast := (append_sep_inj_right (bound_chars hhi).1 (by decide) hchars).2
      exact absurd (hlast ▸ by decide) (bound_chars hhi).2
  · rcases hwords' with rfl | rfl
    · have hchars := congrArg String.toList heq
      rw [hupto, hnewer] at hchars
      have hlast := (append_sep_inj_right (by decide) (bound_chars hhi').1 hchars).2
      exact absurd (hlast ▸ by decide) (bound_chars hhi').2
    · rw [String.append_left_inj] at heq
      have hchars := congrArg String.toList heq
      rw [hneeds, hneeds] at hchars
      exact String.toList_inj.mp (List.append_cancel_right
        (append_sep_inj_right (bound_chars hlo).1 (bound_chars hlo').1 hchars).1)

/-- A version outside a range is outside the bounds of a line or of a row. -/
theorem compatFor_title {v title detail : String} {citations : List String}
    (h : compatFor X a v target = some (title, detail, citations)) :
    ∃ lo hi, ((∃ c ∈ a.cycles, c.k8sMin = lo ∧ c.k8sMax = hi) ∨ ∃ c ∈ a.compat, c.k8sMin = lo ∧ c.k8sMax = hi) ∧
      k8sOutOfRange X a.displayName v lo hi target = some title := by
  unfold compatFor at h
  dsimp only at h
  split at h
  · rename_i r hline
    obtain rfl := Option.some.inj h
    obtain ⟨c, hc, hmap⟩ := Option.bind_eq_some_iff.mp hline
    obtain ⟨t, ht, heq⟩ := Option.map_eq_some_iff.mp hmap
    obtain ⟨rfl, -⟩ := Prod.mk.inj heq
    exact ⟨_, _, .inl ⟨c, List.mem_of_find?_eq_some (cycleFor_find hc).2, rfl, rfl⟩, ht⟩
  · obtain ⟨c, hc, hmap⟩ := Option.bind_eq_some_iff.mp h
    obtain ⟨t, ht, heq⟩ := Option.map_eq_some_iff.mp hmap
    obtain ⟨rfl, -⟩ := Prod.mk.inj heq
    exact ⟨_, _, .inr ⟨c, List.mem_of_find?_eq_some hc, rfl, rfl⟩, ht⟩

/-- The title of an accepted entry's incompatible version names the version. -/
theorem version_of_compatFor (ha : Validated a) {v w title detail detail' : String} {citations citations' : List String}
    (h : compatFor X a v target = some (title, detail, citations))
    (h' : compatFor X a w target = some (title, detail', citations')) : v = w := by
  have hbounds : ∀ lo hi, ((∃ c ∈ a.cycles, c.k8sMin = lo ∧ c.k8sMax = hi) ∨ ∃ c ∈ a.compat, c.k8sMin = lo ∧ c.k8sMax = hi) →
      (lo = "" ∨ k8sVerPattern lo = true) ∧ (hi = "" ∨ k8sVerPattern hi = true) := by
    rintro lo hi (⟨c, hc, rfl, rfl⟩ | ⟨c, hc, rfl, rfl⟩)
    · exact ha.cycles c hc
    · exact ha.compat c hc
  obtain ⟨lo, hi, hstated, ht⟩ := compatFor_title h
  obtain ⟨lo', hi', hstated', ht'⟩ := compatFor_title h'
  obtain ⟨hlo, hhi⟩ := hbounds lo hi hstated
  obtain ⟨hlo', hhi'⟩ := hbounds lo' hi' hstated'
  exact version_of_k8sOutOfRange hlo hhi hlo' hhi' ht ht'

end Titles

/-! ## Installs that read the same in every order -/

section Necessary

variable {X : External} {a : AddOn} {target : Version} {now : Time} {lc node : Bool} {ins ins' : List AddOnInstall}

/-- No version is known of versions whose oldest is unknown. -/
theorem oldestVersion_eq_empty {vs : List String} : oldestVersion vs = "" ↔ ∀ v ∈ vs, v = "" := by
  rcases oldestVersion_cases vs with ⟨hmem, hne⟩ | ⟨hempty, hall⟩
  · exact ⟨fun h => absurd h hne, fun h => h _ hmem⟩
  · exact ⟨fun _ => hall, fun _ => hempty⟩

/-- The evidence sentence of node runtimes of one line names their oldest version. -/
theorem oldest_of_locatedOnNodes (hperm : ins.Perm ins') {name : String}
    (h : locatedOnNodes name ins' true = locatedOnNodes name ins true) :
    oldestVersion (ins'.map (·.version)) = oldestVersion (ins.map (·.version)) := by
  have hnames : ∀ f : AddOnInstall → String, sorted (ins'.map f) = sorted (ins.map f) := fun f =>
    sorted_eq_of_perm (hperm.symm.map f)
  unfold locatedOnNodes at h
  dsimp only at h
  rw [if_pos rfl, if_pos rfl, hnames] at h
  iterate 3 rw [String.append_left_inj] at h
  rwa [String.append_right_inj] at h

/-- The finding about installs that cannot run the target is titled for the oldest of them. -/
theorem evalAddOnCompat_named {s : AddOnSubject} (key : String) (hne : s.installs.filter (cannotRun X a target) ≠ []) :
    ∃ f detail citations, evalAddOnCompat X a s target key = some f ∧ f.key = key ∧
      compatFor X a (oldestVersion ((s.installs.filter (cannotRun X a target)).map (·.version))) target =
        some (f.title, detail, citations) := by
  have hbad : badInstalls X a s target = s.installs.filter (cannotRun X a target) := rfl
  obtain ⟨i, hi, hv⟩ := exists_oldest hne
  have hcompat : (compatFor X a i.version target).isSome = true := (of_decide_eq_true (List.mem_filter.mp hi).2).2
  obtain ⟨⟨title, detail, citations⟩, hr⟩ := Option.isSome_iff_exists.mp hcompat
  rw [hv] at hr
  unfold evalAddOnCompat
  rw [hbad]
  dsimp only
  rw [hr]
  dsimp only
  rw [if_neg hne]
  exact ⟨_, detail, citations, rfl, rfl, rfl⟩

/-- The reasons there are, by what an install was found by. -/
def noVersionSentences (node lc : Bool) : List String :=
  ["image", "labels", "chart", "gitops", "ingressclass", ""].map fun via => noVersionSentence node lc ⟨"", via, [], []⟩

/-- The reason of an install is one of them. -/
theorem noVersionSentence_mem (node lc : Bool) (i : AddOnInstall) :
    noVersionSentence node lc i ∈ noVersionSentences node lc := by
  have hword : ∀ via ∈ ["image", "labels", "chart", "gitops", "ingressclass", ""], (cut (cut via ',').1 ' ').1 = via := by
    decide
  have hof : ∀ via ∈ ["image", "labels", "chart", "gitops", "ingressclass", ""],
      (cut (cut i.via ',').1 ' ').1 = via → noVersionSentence node lc i ∈ noVersionSentences node lc := by
    intro via hvia heq
    refine List.mem_map.mpr ⟨via, hvia, ?_⟩
    unfold noVersionSentence
    dsimp only
    rw [hword via hvia, heq]
  by_cases hknown : (cut (cut i.via ',').1 ' ').1 ∈ ["image", "labels", "chart", "gitops", "ingressclass", ""]
  · exact hof _ hknown rfl
  · -- Another source gets the neutral sentence, as no source does.
    refine List.mem_map.mpr ⟨"", by simp, ?_⟩
    simp only [List.mem_cons, List.not_mem_nil, or_false, not_or] at hknown
    obtain ⟨himage, hlabels, hchart, hgitops, hclass, -⟩ := hknown
    unfold noVersionSentence
    dsimp only
    rw [hword "" (by simp)]
    rw [if_neg himage, if_neg hlabels, if_neg hchart, if_neg hgitops, if_neg hclass]
    cases node <;> rfl

/-- The first twenty bytes of a text. -/
def firstBytes (s : String) : List UInt8 := s.toByteArray.data.toList.take 20

/-- The first bytes of a text that goes on. -/
theorem firstBytes_append {s : String} (h : (firstBytes s).length = 20) (t : String) : firstBytes (s ++ t) = firstBytes s := by
  have hle : 20 ≤ s.toByteArray.data.toList.length := by
    rw [firstBytes, List.length_take] at h
    omega
  unfold firstBytes
  rw [String.toByteArray_append, ByteArray.data_append, Array.toList_append, List.take_append_of_le_length hle]

/-- The reasons differ in their first bytes. -/
theorem nodup_firstBytes : ∀ lc : Bool, ((noVersionSentences false lc).map firstBytes).Nodup ∧
    ∀ s ∈ noVersionSentences false lc, (firstBytes s).length = 20 := by
  decide +kernel

/-- The reasons start with the first install's. -/
theorem noVersionReason_cons (node lc : Bool) (i : AddOnInstall) (ins : List AddOnInstall) :
    ∃ rest, noVersionReason (i :: ins) node lc = " " ++ (noVersionSentence node lc i ++ rest) ++
      " Its end of life and Kubernetes compatibility were not assessed." := by
  have hkeep : ∀ (add dst : List String) (s : String), ∃ more,
      add.foldl (fun dst a => if a ∈ dst then dst else dst ++ [a]) (s :: dst) = s :: more := by
    intro add
    induction add with
    | nil => exact fun dst s => ⟨dst, rfl⟩
    | cons x add ih =>
      intro dst s
      rw [List.foldl_cons]
      split_ifs
      · exact ih dst s
      · exact ih (dst ++ [x]) s
  obtain ⟨more, hmore⟩ := hkeep (ins.map (noVersionSentence node lc)) [] (noVersionSentence node lc i)
  have happend : appendNew [] ((i :: ins).map (noVersionSentence node lc)) = noVersionSentence node lc i :: more := hmore
  unfold noVersionReason
  rw [happend]
  unfold join
  cases more with
  | nil => exact ⟨"", by rw [String.intercalate_singleton, String.append_empty]⟩
  | cons m more => exact ⟨" " ++ " ".intercalate (m :: more), by simp only [String.intercalate_cons_cons, String.append_assoc]⟩

/-- Reasons that read the same start with the same one. -/
theorem sentence_of_noVersionReason {i j : AddOnInstall} {ins ins' : List AddOnInstall}
    (h : noVersionReason (i :: ins) node lc = noVersionReason (j :: ins') node lc) :
    noVersionSentence node lc i = noVersionSentence node lc j := by
  cases node with
  | true => rfl
  | false =>
    obtain ⟨rest, hi⟩ := noVersionReason_cons false lc i ins
    obtain ⟨rest', hj⟩ := noVersionReason_cons false lc j ins'
    rw [hi, hj, String.append_left_inj, String.append_right_inj] at h
    obtain ⟨hnodup, hlength⟩ := nodup_firstBytes lc
    have hmem := noVersionSentence_mem false lc i
    have hmem' := noVersionSentence_mem false lc j
    have hfirst := congrArg firstBytes h
    rw [firstBytes_append (hlength _ hmem), firstBytes_append (hlength _ hmem')] at hfirst
    exact eq_of_key_eq hnodup hmem hmem' hfirst

/-- Findings about the installs in any order that share a key are one finding. -/
def Fixed (X : External) (a : AddOn) (target : Version) (now : Time) (lc node : Bool) (ins : List AddOnInstall) : Prop :=
  ∀ ins', ins.Perm ins' → ∀ f ∈ addOnFindings X a target now lc ins node,
    ∀ f' ∈ addOnFindings X a target now lc ins' node, f'.key = f.key → f' = f

/-- The oldest version of a group that is named by it. -/
theorem Fixed.line (h : Fixed X a target now lc node ins) (hperm : ins.Perm ins') {i : AddOnInstall} (hi : i ∈ ins)
    (hnames : namesVersion a now node i = true) :
    (groupSubject a now ins' node (groupKey a now i)).version = (groupSubject a now ins node (groupKey a now i)).version := by
  have hi' : i ∈ ins' := hperm.mem_iff.mp hi
  have hgroup : (groupOf a now ins (groupKey a now i)).Perm (groupOf a now ins' (groupKey a now i)) := hperm.filter _
  have hsame := sameLine_groupSubject a now node hperm hi
  have hline := cycleFor_groupSubject a now node hi
  have hfix : ∀ f ∈ groupFindings X a target now lc (groupSubject a now ins node (groupKey a now i)),
      ∀ f' ∈ groupFindings X a target now lc (groupSubject a now ins' node (groupKey a now i)), f'.key = f.key → f' = f :=
    fun f hf f' hf' => h ins' hperm f (mem_addOnFindings_of_group hi hf) f' (mem_addOnFindings_of_group hi' hf')
  have hempty : (groupSubject a now ins' node (groupKey a now i)).version = "" ↔
      (groupSubject a now ins node (groupKey a now i)).version = "" := by
    show oldestVersion _ = "" ↔ oldestVersion _ = ""
    rw [oldestVersion_eq_empty, oldestVersion_eq_empty]
    exact ⟨fun h v hv => h v ((hgroup.map _).mem_iff.mp hv), fun h v hv => h v ((hgroup.map _).mem_iff.mpr hv)⟩
  unfold namesVersion at hnames
  rw [Bool.and_eq_true_iff, Bool.not_eq_true'] at hnames
  obtain ⟨hdated, hshown⟩ := hnames
  cases hc : cycleFor i.version a.cycles with
  | some c =>
    -- The line is at its end, and the sentence about its nodes names the version.
    rw [hc] at hshown
    obtain ⟨hnode, hend⟩ := Bool.and_eq_true_iff.mp hshown
    obtain ⟨e, he⟩ := Option.isSome_iff_exists.mp hend
    obtain ⟨f, hf, hkey, hdetail⟩ := lineFinding_end hdated (hline.trans hc) he
    obtain ⟨f', hf', hkey', hdetail'⟩ := lineFinding_end hdated (hsame.cycle ▸ hline.trans hc) he
    have heq : f' = f := hfix f (by simp [groupFindings, hf]) f' (by simp [groupFindings, hf'])
      (by rw [hkey, hkey', hsame.lineKey_eq])
    rw [heq, hdetail] at hdetail'
    rw [← hsame.node, String.append_left_inj, String.append_left_inj] at hdetail'
    have hlocated : ∀ l, (groupSubject a now l node (groupKey a now i)).located =
        locatedOnNodes a.displayName (groupOf a now l (groupKey a now i)) true := by
      intro l
      unfold groupSubject
      rw [isLine_groupKey hc, hnode]
      rfl
    rw [hlocated, hlocated] at hdetail'
    exact oldest_of_locatedOnNodes hgroup hdetail'.symm
  | none =>
    have hnone := hline.trans hc
    have hnone' : cycleFor (groupSubject a now ins' node (groupKey a now i)).version a.cycles = none := hsame.cycle ▸ hnone
    have hpredates := hsame.predates hnone
    cases ho : predatesCycles (groupSubject a now ins node (groupKey a now i)).version a.cycles now with
    | some o =>
      obtain ⟨f, hf, hkey, htitle⟩ := lineFinding_below hdated hnone ho
      obtain ⟨f', hf', hkey', htitle'⟩ := lineFinding_below hdated hnone' (hpredates ▸ ho)
      have heq : f' = f := hfix f (by simp [groupFindings, hf]) f' (by simp [groupFindings, hf'])
        (by rw [hkey, hkey', hsame.lineKey_eq])
      rw [heq, htitle] at htitle'
      iterate 3 rw [String.append_left_inj] at htitle'
      rw [String.append_right_inj] at htitle'
      exact htitle'.symm
    | none =>
      obtain ⟨f, hf, hkey, htitle, -⟩ := noDataFinding_named lc hdated hnone ho
      obtain ⟨f', hf', hkey', htitle', -⟩ := noDataFinding_named lc hdated hnone' (hpredates ▸ ho)
      have heq : f' = f := hfix f (by simp [groupFindings, hf]) f' (by simp [groupFindings, hf'])
        (by rw [hkey, hkey'])
      rw [heq, htitle, String.append_right_inj] at htitle'
      have hshow : shownVersion (groupSubject a now ins node (groupKey a now i)) =
          shownVersion (groupSubject a now ins' node (groupKey a now i)) := htitle'
      unfold shownVersion orElse at hshow
      by_cases hunknown : (groupSubject a now ins node (groupKey a now i)).version = ""
      · rw [hunknown, hempty.mpr hunknown]
      · rw [if_neg hunknown, if_neg (hempty.not.mpr hunknown)] at hshow
        exact hshow.symm

/-- The oldest version of node runtimes that a product's finding is named by. -/
theorem Fixed.product (h : Fixed X a target now lc node ins) (hperm : ins.Perm ins') (hnode : node = true)
    (hend : (productEOL a now).isSome = true) (hone : oneLine a now ins = true) :
    oldestVersion (ins'.map (·.version)) = oldestVersion (ins.map (·.version)) := by
  obtain ⟨p, hp⟩ := Option.isSome_iff_exists.mp hend
  have hone' : oneLine a now ins' = true := by
    unfold oneLine at hone ⊢
    rwa [groupKeys_eq hperm]
  have hmem : ∀ l, ∃ f ∈ addOnFindings X a target now lc l node, f.key = p.1.name ++ "/" ++ a.id ∧
      (oneLine a now l = true → f.detail = locatedOnNodes a.displayName l true ++ p.2.2.2) := by
    intro l
    rw [addOnFindings_groups]
    unfold productFinding
    rw [hp]
    refine ⟨_, List.mem_append_left _ (List.mem_singleton.mpr rfl), rfl, fun hl => ?_⟩
    rw [hl, hnode]
    rfl
  obtain ⟨f, hf, hkey, hdetail⟩ := hmem ins
  obtain ⟨f', hf', hkey', hdetail'⟩ := hmem ins'
  have heq := h ins' hperm f hf f' hf' (hkey'.trans hkey.symm)
  have hlocated := hdetail' hone'
  rw [heq, hdetail hone, String.append_left_inj] at hlocated
  exact oldest_of_locatedOnNodes hperm hlocated.symm

/-- The oldest version of the installs of a group that cannot run the target. -/
theorem Fixed.compat (h : Fixed X a target now lc node ins) (ha : Validated a) (hperm : ins.Perm ins') {i : AddOnInstall}
    (hi : i ∈ ins) :
    oldestVersion (((groupOf a now ins' (groupKey a now i)).filter (cannotRun X a target)).map (·.version)) =
      oldestVersion (((groupOf a now ins (groupKey a now i)).filter (cannotRun X a target)).map (·.version)) := by
  have hbad : ((groupOf a now ins (groupKey a now i)).filter (cannotRun X a target)).Perm
      ((groupOf a now ins' (groupKey a now i)).filter (cannotRun X a target)) := (hperm.filter _).filter _
  by_cases hnil : (groupOf a now ins (groupKey a now i)).filter (cannotRun X a target) = []
  · rw [hnil] at hbad ⊢
    rw [hbad.nil_eq]
  have hnil' : (groupOf a now ins' (groupKey a now i)).filter (cannotRun X a target) ≠ [] := fun he => by
    rw [he] at hbad
    exact hnil hbad.eq_nil
  have hsame := sameLine_groupSubject a now node hperm hi
  obtain ⟨f, detail, citations, hf, hkey, hcompat⟩ :=
    evalAddOnCompat_named (s := groupSubject a now ins node (groupKey a now i))
      (Category.chartIncompat.name ++ "/" ++ lineKey a now (groupSubject a now ins node (groupKey a now i))) hnil
  obtain ⟨f', detail', citations', hf', hkey', hcompat'⟩ :=
    evalAddOnCompat_named (s := groupSubject a now ins' node (groupKey a now i))
      (Category.chartIncompat.name ++ "/" ++ lineKey a now (groupSubject a now ins' node (groupKey a now i))) hnil'
  have heq : f' = f := h ins' hperm f (mem_addOnFindings_of_group hi (by simp [groupFindings, hf])) f'
    (mem_addOnFindings_of_group (hperm.mem_iff.mp hi) (by simp [groupFindings, hf'])) (by rw [hkey, hkey', hsame.lineKey_eq])
  rw [heq] at hcompat'
  exact version_of_compatFor ha hcompat' hcompat

/-- The reasons of installs without a version. -/
theorem Fixed.reasons (h : Fixed X a target now lc node ins) (hperm : ins.Perm ins') (hdated : productDated a = false)
    (hempty : ∀ i ∈ groupOf a now ins "", i.version = "") (hne : groupOf a now ins "" ≠ []) :
    noVersionReason (groupOf a now ins' "") node lc = noVersionReason (groupOf a now ins "") node lc := by
  obtain ⟨i, hi⟩ := List.exists_mem_of_ne_nil _ hne
  obtain ⟨hi, hkey⟩ := mem_groupOf.mp hi
  have hi' : i ∈ ins' := hperm.mem_iff.mp hi
  have hgroup : (groupOf a now ins "").Perm (groupOf a now ins' "") := hperm.filter _
  have hversion : ∀ l, (groupOf a now ins "").Perm (groupOf a now l "") → (groupSubject a now l node "").version = "" := by
    intro l hl
    refine oldestVersion_eq_empty.mpr fun v hv => ?_
    obtain ⟨j, hj, rfl⟩ := List.mem_map.mp hv
    exact hempty j (hl.mem_iff.mpr hj)
  have hnamed : ∀ l, (groupOf a now ins "").Perm (groupOf a now l "") →
      ∃ f, noDataFinding a now lc (groupSubject a now l node "") = some f ∧ f.key = Category.addOnNoData.name ++ "/" ++ a.id ∧
        f.detail = (groupSubject a now l node "").located ++ noVersionReason (groupOf a now l "") node lc := by
    intro l hl
    have hv := hversion l hl
    have hc : cycleFor (groupSubject a now l node "").version a.cycles = none := by
      rw [hv]
      unfold cycleFor
      rw [versionParts_empty]
    have ho : predatesCycles (groupSubject a now l node "").version a.cycles now = none := by
      rw [hv]
      unfold predatesCycles
      rw [versionParts_empty]
    obtain ⟨f, hf, hfkey, -, hdetail⟩ := noDataFinding_named lc hdated hc ho
    exact ⟨f, hf, hfkey, hdetail hv⟩
  obtain ⟨f, hf, hfkey, hdetail⟩ := hnamed ins (List.Perm.refl _)
  obtain ⟨f', hf', hfkey', hdetail'⟩ := hnamed ins' hgroup
  have heq : f' = f := h ins' hperm f (mem_addOnFindings_of_group hi (by rw [hkey]; simp [groupFindings, hf])) f'
    (mem_addOnFindings_of_group hi' (by rw [hkey]; simp [groupFindings, hf'])) (hfkey'.trans hfkey.symm)
  -- The sentence that locates the installs does not show their order, so the reasons do.
  have hlocated : (groupSubject a now ins' node "").located = (groupSubject a now ins node "").located := by
    unfold groupSubject
    rw [newAddOnSubject_eq hgroup]
    cases node with
    | false => rfl
    | true =>
      show locatedOnNodes _ _ (decide ("" ≠ "") && _) = locatedOnNodes _ _ (decide ("" ≠ "") && _)
      exact locatedOnNodes_eq hgroup _ fun hline => absurd hline (by simp)
  rw [heq, hdetail, hlocated, String.append_right_inj] at hdetail'
  exact hdetail'.symm

/-- Installs whose findings read the same in every order show no order. -/
theorem OneText.of_fixed (ha : Validated a) (h : Fixed X a target now lc node ins) : OneText X a target now lc node ins where
  line i hi hnames := oneOldest_of_perm fun g hg => by
    obtain ⟨ins', hperm, hgroup⟩ := exists_perm_group hg
    have hversion := h.line hperm hi hnames
    unfold groupSubject at hversion
    rw [hgroup] at hversion
    exact hversion
  product hnode hend hone := oneOldest_of_perm fun ins' hperm => h.product hperm hnode hend hone
  compat i hi := oneOldest_of_perm fun bad hbad => by
    obtain ⟨g, hg, hfilter⟩ := exists_perm_filter_eq hbad
    obtain ⟨ins', hperm, hgroup⟩ := exists_perm_group hg
    have hversion := h.compat ha hperm hi
    rwa [hgroup, hfilter] at hversion
  reasons hdated hempty i hi j hj := by
    obtain ⟨ins₁, hperm₁, hgroup₁⟩ := exists_perm_group (List.perm_cons_erase hi)
    obtain ⟨ins₂, hperm₂, hgroup₂⟩ := exists_perm_group (List.perm_cons_erase hj)
    have hreason₁ := h.reasons hperm₁ hdated hempty (List.ne_nil_of_mem hi)
    have hreason₂ := h.reasons hperm₂ hdated hempty (List.ne_nil_of_mem hi)
    rw [hgroup₁] at hreason₁
    rw [hgroup₂] at hreason₂
    exact sentence_of_noVersionReason (hreason₁.trans hreason₂.symm)

end Necessary

end UpgradeScope
