import UpgradeScope.Server.Adoption

/-!
# Merging the changes of a pass

`changeMerger` of `internal/server/notify_delta.go` takes the deltas of a pass one target at a time and keeps the
changes it lists, the digests of the ones past their kind's cap, and two counters for each kind (`DigestMerger`).
Where no two identities share a digest it does what `ChangeMerger` does with whole changes (`Tracks`), and that
keeps, of every run of changes, the first ones of each kind with the targets of all their repeats (`Accounts`).
Both are relations between a merger and the changes seen so far, with one lemma for a change and one for a run.
-/

namespace UpgradeScope.MergedChanges

open Sorting Passes

open UpgradeScope.Notify (Change ChangeKind NotifyTarget Notification ChangeMerger FindingHead changeIdentity change
  headOf computeDelta)

/-! ## The merger with digests -/

/-- `changeMerger`, with the digests of the identities in `D`. -/
structure DigestMerger (D : Type) where
  /-- The targets that changed. -/
  targets : List NotifyTarget := []
  /-- The changes that are listed. -/
  changes : List Change := []
  /-- The index in `changes` of an identity. -/
  listed : D → Option ℕ := fun _ => none
  /-- The identities past their kind's cap. -/
  omitted : D → Bool := fun _ => false
  /-- How many distinct changes of a kind there are. -/
  count : ChangeKind → ℕ := fun _ => 0
  /-- How many of those are past the cap. -/
  counted : ChangeKind → ℕ := fun _ => 0

namespace DigestMerger

variable {D : Type} [DecidableEq D] (digest : String → D)

/-- One turn of the loop of `changeMerger.add`. -/
def addChange (m : DigestMerger D) (c : Change) : DigestMerger D :=
  let id := digest (changeIdentity c)
  match m.listed id with
  | some i => { m with changes := m.changes.modify i fun x => { x with targets := x.targets ++ c.targets } }
  | none =>
    if m.omitted id then m
    else
      let n := m.count c.kind + 1
      if 0 < c.kind.cap ∧ c.kind.cap < n then
        { m with
          count := Function.update m.count c.kind n
          omitted := Function.update m.omitted id true
          counted := Function.update m.counted c.kind (m.counted c.kind + 1) }
      else
        { m with
          count := Function.update m.count c.kind n
          listed := Function.update m.listed id (some m.changes.length)
          changes := m.changes ++ [c] }

/-- `changeMerger.add`: one target's delta merged. -/
def add (m : DigestMerger D) (d : TargetDelta) : DigestMerger D :=
  if d.changes.isEmpty then m
  else d.changes.foldl (addChange digest) { m with targets := m.targets ++ [d.target] }

omit [DecidableEq D] in
/-- `changeMerger.notification`: the merged changes, blockers first; `none` when no target changed. -/
def notification (m : DigestMerger D) (cluster : Store.Cluster) (now : Go.Time) (deliveryID : String) :
    Option Notification :=
  if m.changes.isEmpty then none
  else some
    { deliveryID := deliveryID
      timestamp := now
      clusterID := cluster.id
      clusterName := cluster.name
      targets := m.targets
      changes := sortOn (fun c => c.kind.rank) m.changes
      omitted := [ChangeKind.newBlocker, .becameReady, .eolApproaching].filterMap fun kind =>
        if m.counted kind = 0 then none else some (kind, m.counted kind) }

end DigestMerger

/-- `buildNotification`: the deltas of a pass as one notification. -/
def buildNotification {D : Type} [DecidableEq D] (digest : String → D) (cluster : Store.Cluster)
    (deltas : List TargetDelta) (now : Go.Time) (deliveryID : String) : Option Notification :=
  (deltas.foldl (DigestMerger.add digest) {}).notification cluster now deliveryID

/-! ## What a notification is for -/

/-- What makes the changes of two targets one: the kind, the key, the title and the detail. -/
def identity (c : Change) : ChangeKind × String × String × String := (c.kind, c.key, c.title, c.detail)

/-- Every change of the deltas, in their order. -/
def changesOf (deltas : List TargetDelta) : List Change := deltas.flatMap (·.changes)

/-- The identities of a kind in the deltas, in the order of their first appearance. -/
def distinctIdentities (kind : ChangeKind) (deltas : List TargetDelta) :
    List (ChangeKind × String × String × String) :=
  (distinctOn id ((changesOf deltas).map identity)).filter (·.1 = kind)

/-- How many changes of a kind a notification says it does not list. -/
def omittedOf (n : Notification) (kind : ChangeKind) : ℕ := ((n.omitted.find? (·.1 = kind)).map (·.2)).getD 0

/-- A notification accounts for every change of the deltas. -/
structure Complete (deltas : List TargetDelta) (n : Notification) : Prop where
  /-- No change is listed twice. -/
  once : (n.changes.map identity).Nodup
  /-- New blockers come before became-ready ones, and those before approaching ends of life. -/
  kinds : n.changes.Pairwise fun a b => a.kind.rank ≤ b.kind.rank
  /-- The changes listed of a kind are the first ones, in order. -/
  first : ∀ kind, (n.changes.filter (·.kind = kind)).map identity <+: distinctIdentities kind deltas
  /-- The other ones are counted. -/
  counted : ∀ kind, (n.changes.filter (·.kind = kind)).length + omittedOf n kind =
    (distinctIdentities kind deltas).length
  /-- At most the cap is listed. -/
  capped : ∀ kind, kind.cap ≠ 0 → (n.changes.filter (·.kind = kind)).length ≤ kind.cap
  /-- A change is left out only when the cap is reached. -/
  full : ∀ kind, omittedOf n kind ≠ 0 → (n.changes.filter (·.kind = kind)).length = kind.cap
  /-- A change names the targets whose delta has it, in order. -/
  named : ∀ c ∈ n.changes,
    c.targets = (deltas.filter fun d => identity c ∈ d.changes.map identity).map (·.target.target)
  /-- The targets are the ones with a change. -/
  targets : n.targets = (deltas.filter (·.changes ≠ [])).map (·.target)

/-- The distinct changes of a kind, in the order of their first appearance. -/
def distinctOf (kind : ChangeKind) (seen : List Change) : List Change :=
  (distinctOn changeIdentity seen).filter (·.kind = kind)

/-- How many of `n` distinct changes of a kind a notification has room for. -/
def room (kind : ChangeKind) (n : ℕ) : ℕ := if kind.cap = 0 then n else kind.cap

/-- A change with the targets of every change seen that is the same. -/
def withTargets (seen : List Change) (c : Change) : Change :=
  { c with targets := (seen.filter (changeIdentity · = changeIdentity c)).flatMap (·.targets) }

/-! ### Identities -/

/-- A kind's name has no separator. -/
theorem notMem_kindName (kind : ChangeKind) : '\x00' ∉ kind.name.toList := by
  cases kind <;> decide

/-- A kind is known by its name. -/
theorem kindName_inj {kind kind' : ChangeKind} (h : kind.name = kind'.name) : kind = kind' := by
  cases kind <;> cases kind' <;> first | rfl | exact absurd h (by decide)

/-- The characters of an identity. -/
theorem changeIdentity_toList (c : Change) :
    (changeIdentity c).toList = c.kind.name.toList ++ '\x00' ::
      (c.key.toList ++ '\x00' :: (c.title.toList ++ '\x00' :: (c.detail.toList ++ '\x00' :: []))) := by
  simp [changeIdentity]

/-- Changes of one identity are of one kind. -/
theorem kind_of_changeIdentity {c c' : Change} (h : changeIdentity c = changeIdentity c') : c.kind = c'.kind := by
  have htext := congrArg String.toList h
  rw [changeIdentity_toList, changeIdentity_toList] at htext
  exact kindName_inj (String.ext (Go.append_sep_inj (notMem_kindName _) (notMem_kindName _) htext).1)

/-! ### Lists of distinct changes -/

/-- A change that was not seen is one more distinct change of its kind. -/
theorem distinctOf_new {seen : List Change} {c : Change} (h : changeIdentity c ∉ seen.map changeIdentity)
    (kind : ChangeKind) :
    distinctOf kind (seen ++ [c]) = distinctOf kind seen ++ if c.kind = kind then [c] else [] := by
  simp only [distinctOf, distinctOn_concat, if_neg h, List.filter_append, List.filter_cons, List.filter_nil,
    decide_eq_true_eq]

/-- A change that was seen adds no distinct change. -/
theorem distinctOf_seen {seen : List Change} {c : Change} (h : changeIdentity c ∈ seen.map changeIdentity)
    (kind : ChangeKind) : distinctOf kind (seen ++ [c]) = distinctOf kind seen := by
  simp only [distinctOf, distinctOn_concat, if_pos h, List.append_nil]

/-- Every change seen is one of the distinct changes of its kind. -/
theorem exists_mem_distinctOf {seen : List Change} {c : Change} :
    changeIdentity c ∈ seen.map changeIdentity ↔ ∃ x ∈ distinctOf c.kind seen, changeIdentity x = changeIdentity c := by
  constructor
  · intro h
    obtain ⟨y, hy, hyc⟩ := List.mem_map.mp h
    obtain ⟨x, hx, hxy⟩ := exists_mem_distinctOn changeIdentity hy
    refine ⟨x, List.mem_filter.mpr ⟨hx, ?_⟩, hxy.trans hyc⟩
    exact decide_eq_true (kind_of_changeIdentity (hxy.trans hyc))
  · rintro ⟨x, hx, hxc⟩
    exact hxc ▸ List.mem_map_of_mem (mem_of_mem_distinctOn (List.mem_of_mem_filter hx))

@[simp] theorem withTargets_kind (seen : List Change) (c : Change) : (withTargets seen c).kind = c.kind := rfl

@[simp] theorem changeIdentity_withTargets (seen : List Change) (c : Change) :
    changeIdentity (withTargets seen c) = changeIdentity c := rfl

/-- The targets of a change with another change seen. -/
theorem withTargets_concat (seen : List Change) (c x : Change) :
    withTargets (seen ++ [c]) x =
      if changeIdentity x = changeIdentity c then
        { withTargets seen x with targets := (withTargets seen x).targets ++ c.targets }
      else withTargets seen x := by
  simp only [withTargets, List.filter_append, List.flatMap_append, List.filter_cons, List.filter_nil, decide_eq_true_eq]
  by_cases h : changeIdentity x = changeIdentity c
  · simp [h]
  · simp [h, Ne.symm h]

/-- What `ChangeMerger.addChange` does to each listed change when the change is listed already. -/
def joinTargets (c x : Change) : Change :=
  if changeIdentity x = changeIdentity c then { x with targets := x.targets ++ c.targets } else x

@[simp] theorem joinTargets_kind (c x : Change) : (joinTargets c x).kind = x.kind := by
  unfold joinTargets
  split_ifs <;> rfl

@[simp] theorem changeIdentity_joinTargets (c x : Change) : changeIdentity (joinTargets c x) = changeIdentity x := by
  unfold joinTargets
  split_ifs <;> rfl

/-- Joining targets leaves the kinds. -/
theorem filter_joinTargets (c : Change) (l : List Change) (kind : ChangeKind) :
    (l.map (joinTargets c)).filter (·.kind = kind) = (l.filter (·.kind = kind)).map (joinTargets c) := by
  rw [List.filter_map]
  simp [Function.comp_def]

/-! ## The merger with whole changes -/

/-- A merger that has seen these changes lists the first ones of each kind, with the targets of all their repeats,
and has left out the others. -/
structure Accounts (seen : List Change) (M : ChangeMerger) : Prop where
  /-- The changes listed. -/
  listed : ∀ kind, M.changes.filter (·.kind = kind) =
    ((distinctOf kind seen).take (room kind (distinctOf kind seen).length)).map (withTargets seen)
  /-- The changes left out. -/
  omitted : ∀ kind, M.omitted.filter (·.kind = kind) =
    (distinctOf kind seen).drop (room kind (distinctOf kind seen).length)

namespace Accounts

variable {seen : List Change} {M : ChangeMerger} {c : Change}

/-- Nothing was seen. -/
theorem start : Accounts [] {} := ⟨fun _ => by simp [distinctOf, distinctOn, distinctFrom], fun _ => by
  simp [distinctOf, distinctOn, distinctFrom]⟩

/-- The distinct changes of a kind are counted. -/
theorem count_eq (h : Accounts seen M) (kind : ChangeKind) : M.count kind = (distinctOf kind seen).length := by
  have hsplit := congrArg List.length
    (List.take_append_drop (room kind (distinctOf kind seen).length) (distinctOf kind seen))
  rw [List.length_append] at hsplit
  rw [ChangeMerger.count, List.filter_append, List.length_append, h.listed, h.omitted, List.length_map, hsplit]

/-- A change is listed or left out exactly when it was seen. -/
theorem seen_iff (h : Accounts seen M) :
    changeIdentity c ∈ seen.map changeIdentity ↔
      (∃ x ∈ M.changes, changeIdentity x = changeIdentity c) ∨ ∃ x ∈ M.omitted, changeIdentity x = changeIdentity c := by
  have hof : ∀ l : List Change, (∃ x ∈ l, changeIdentity x = changeIdentity c) ↔
      ∃ x ∈ l.filter (·.kind = c.kind), changeIdentity x = changeIdentity c := by
    intro l
    refine exists_congr fun x => ?_
    rw [List.mem_filter, decide_eq_true_eq]
    constructor
    · rintro ⟨hx, hxc⟩
      exact ⟨⟨hx, kind_of_changeIdentity hxc⟩, hxc⟩
    · rintro ⟨⟨hx, -⟩, hxc⟩
      exact ⟨hx, hxc⟩
  rw [exists_mem_distinctOf, hof M.changes, hof M.omitted, h.listed, h.omitted]
  generalize room c.kind _ = n
  constructor
  · rintro ⟨x, hx, hxc⟩
    rw [← List.take_append_drop n (distinctOf c.kind seen), List.mem_append] at hx
    refine hx.imp (fun hx => ⟨withTargets seen x, List.mem_map_of_mem hx, hxc⟩) fun hx => ⟨x, hx, hxc⟩
  · rintro (⟨x, hx, hxc⟩ | ⟨x, hx, hxc⟩)
    · obtain ⟨y, hy, rfl⟩ := List.mem_map.mp hx
      exact ⟨y, List.mem_of_mem_take hy, hxc⟩
    · exact ⟨x, List.mem_of_mem_drop hx, hxc⟩

/-- Another change leaves the targets of the changes listed, where none is the same. -/
theorem targets_kept (h : Accounts seen M) (hnone : ¬ ∃ x ∈ M.changes, changeIdentity x = changeIdentity c)
    (kind : ChangeKind) :
    ((distinctOf kind seen).take (room kind (distinctOf kind seen).length)).map (withTargets (seen ++ [c])) =
      ((distinctOf kind seen).take (room kind (distinctOf kind seen).length)).map (withTargets seen) := by
  refine List.map_congr_left fun x hx => ?_
  rw [withTargets_concat, if_neg]
  intro hxc
  have hmem : withTargets seen x ∈ M.changes.filter (·.kind = kind) := by
    rw [h.listed]
    exact List.mem_map_of_mem hx
  exact hnone ⟨_, List.mem_of_mem_filter hmem, hxc⟩

/-- The change joins the listed one that is the same. -/
theorem join (h : Accounts seen M) (hlisted : ∃ x ∈ M.changes, changeIdentity x = changeIdentity c) :
    Accounts (seen ++ [c]) { M with changes := M.changes.map (joinTargets c) } where
  listed kind := by
    rw [distinctOf_seen (h.seen_iff.mpr (.inl hlisted)), filter_joinTargets, h.listed, List.map_map]
    refine List.map_congr_left fun x _ => ?_
    rw [withTargets_concat]
    rfl
  omitted kind := by
    rw [distinctOf_seen (h.seen_iff.mpr (.inl hlisted))]
    exact h.omitted kind

/-- The change is one that was left out before. -/
theorem skip (h : Accounts seen M) (hnone : ¬ ∃ x ∈ M.changes, changeIdentity x = changeIdentity c)
    (homitted : ∃ x ∈ M.omitted, changeIdentity x = changeIdentity c) : Accounts (seen ++ [c]) M where
  listed kind := by
    rw [distinctOf_seen (h.seen_iff.mpr (.inr homitted)), h.targets_kept hnone, h.listed]
  omitted kind := by
    rw [distinctOf_seen (h.seen_iff.mpr (.inr homitted)), h.omitted]

section New

variable (h : Accounts seen M) (hnone : ¬ ∃ x ∈ M.changes, changeIdentity x = changeIdentity c)
  (hnew : changeIdentity c ∉ seen.map changeIdentity)

include h hnone hnew

/-- A new change past its kind's cap is left out. -/
theorem leaveOut (hcap : 0 < c.kind.cap ∧ c.kind.cap < M.count c.kind + 1) :
    Accounts (seen ++ [c]) { M with omitted := M.omitted ++ [c] } := by
  rw [h.count_eq] at hcap
  refine ⟨fun kind => ?_, fun kind => ?_⟩ <;> rw [distinctOf_new hnew] <;> by_cases hkind : c.kind = kind
  · -- The cap was reached before: the same changes are listed.
    subst hkind
    have hroom : ∀ n, room c.kind n = c.kind.cap := fun n => if_neg hcap.1.ne'
    have hkept := h.targets_kept hnone c.kind
    rw [hroom] at hkept
    rw [if_pos rfl, hroom, List.take_append_of_le_length (by omega), hkept, ← hroom, h.listed]
  · rw [if_neg hkind, List.append_nil, h.targets_kept hnone, h.listed]
  · subst hkind
    have hroom : ∀ n, room c.kind n = c.kind.cap := fun n => if_neg hcap.1.ne'
    rw [if_pos rfl, hroom, List.drop_append_of_le_length (by omega), ← hroom (distinctOf c.kind seen).length,
      ← h.omitted, List.filter_append, List.filter_singleton]
    simp
  · rw [if_neg hkind, List.append_nil, List.filter_append, h.omitted, List.filter_singleton]
    simp [hkind]

/-- A new change within its kind's cap is listed last. -/
theorem list (hcap : ¬ (0 < c.kind.cap ∧ c.kind.cap < M.count c.kind + 1)) :
    Accounts (seen ++ [c]) { M with changes := M.changes ++ [c] } := by
  rw [h.count_eq] at hcap
  have htargets : withTargets (seen ++ [c]) c = c := by
    have hnil : seen.filter (changeIdentity · = changeIdentity c) = [] := by
      refine List.filter_eq_nil_iff.mpr fun x hx hxc => hnew ?_
      exact decide_eq_true_eq.mp hxc ▸ List.mem_map_of_mem hx
    simp [withTargets, List.filter_append, hnil]
  -- There was room for every change of the kind, and there still is.
  have hroom : ∀ n ≤ (distinctOf c.kind seen).length + 1, n ≤ room c.kind n := by
    intro n hn
    unfold room
    split_ifs with h0
    · exact le_rfl
    · omega
  refine ⟨fun kind => ?_, fun kind => ?_⟩ <;> rw [distinctOf_new hnew] <;> by_cases hkind : c.kind = kind
  · subst hkind
    have hkept := h.targets_kept hnone c.kind
    have hlisted := h.listed c.kind
    rw [List.take_of_length_le (hroom _ (by omega))] at hkept hlisted
    rw [if_pos rfl, List.take_of_length_le (hroom _ (by simp)), List.map_append, hkept, List.filter_append, hlisted,
      List.filter_singleton]
    simp [htargets]
  · rw [if_neg hkind, List.append_nil, h.targets_kept hnone, List.filter_append, h.listed, List.filter_singleton]
    simp [hkind]
  · subst hkind
    have homitted := h.omitted c.kind
    rw [List.drop_of_length_le (hroom _ (by omega))] at homitted
    rw [if_pos rfl, List.drop_of_length_le (hroom _ (by simp)), homitted]
  · rw [if_neg hkind, List.append_nil, h.omitted]

end New

/-- One change merged. -/
theorem addChange (h : Accounts seen M) (c : Change) : Accounts (seen ++ [c]) (M.addChange c) := by
  unfold ChangeMerger.addChange
  have hany : ∀ l : List Change, (l.any (changeIdentity · = changeIdentity c)) = true ↔
      ∃ x ∈ l, changeIdentity x = changeIdentity c := by simp
  split_ifs with hlisted homitted hcap
  · exact h.join ((hany _).mp hlisted)
  · exact h.skip (fun hx => hlisted ((hany _).mpr hx)) ((hany _).mp homitted)
  all_goals
    have hnone : ¬ ∃ x ∈ M.changes, changeIdentity x = changeIdentity c := fun hx => hlisted ((hany _).mpr hx)
    have hnew : changeIdentity c ∉ seen.map changeIdentity := fun hseen =>
      (h.seen_iff.mp hseen).elim hnone fun hx => homitted ((hany _).mpr hx)
  · exact h.leaveOut hnone hnew hcap
  · exact h.list hnone hnew hcap

/-- A run of changes merged keeps the account. -/
theorem foldl (h : Accounts seen M) (cs : List Change) : Accounts (seen ++ cs) (cs.foldl ChangeMerger.addChange M) := by
  induction cs generalizing seen M with
  | nil => simpa using h
  | cons c cs ih => simpa using ih (h.addChange c)

/-- The targets are not part of the account. -/
theorem of_targets (h : Accounts seen M) (targets : List NotifyTarget) : Accounts seen { M with targets := targets } :=
  ⟨h.listed, h.omitted⟩

/-- The deltas of a pass merged. -/
theorem deltas (h : Accounts seen M) (ds : List TargetDelta) :
    Accounts (seen ++ changesOf ds) (ds.foldl (fun m d => m.add d.target d.changes) M) := by
  induction ds generalizing seen M with
  | nil => simpa [changesOf] using h
  | cons d ds ih =>
    have hadd : Accounts (seen ++ d.changes) (M.add d.target d.changes) := by
      unfold ChangeMerger.add
      split_ifs with hnil
      · rw [List.isEmpty_iff.mp hnil, List.append_nil]
        exact h
      · exact (h.of_targets _).foldl d.changes
    have := ih hadd
    rwa [List.append_assoc] at this

end Accounts

/-! ## The digests stand for the changes -/

section Digests

variable {D : Type} {digest : String → D}

/-- The digest of a change's identity. -/
def digestOf (digest : String → D) (c : Change) : D := digest (changeIdentity c)

/-- A merger with digests holds what the merger with whole changes does, for identities in `T`. -/
structure Tracks (digest : String → D) (T : Set String) (m : DigestMerger D) (M : ChangeMerger) : Prop where
  /-- The same targets changed. -/
  targets : m.targets = M.targets
  /-- The same changes are listed. -/
  changes : m.changes = M.changes
  /-- The identities are the ones the digest is for. -/
  known : ∀ x ∈ M.changes ++ M.omitted, changeIdentity x ∈ T
  /-- The index of a listed change. -/
  listed : ∀ d i, m.listed d = some i ↔ (M.changes.map (digestOf digest))[i]? = some d
  /-- The digests of the changes left out. -/
  omitted : ∀ d, m.omitted d = true ↔ d ∈ M.omitted.map (digestOf digest)
  /-- The distinct changes are counted. -/
  count : ∀ kind, m.count kind = M.count kind
  /-- So are the ones left out. -/
  counted : ∀ kind, m.counted kind = M.counted kind

namespace Tracks

variable {T : Set String} {m : DigestMerger D} {M : ChangeMerger} {c : Change}

/-- Before the first change. -/
theorem start : Tracks digest T {} {} where
  targets := rfl
  changes := rfl
  known x hx := by simp at hx
  listed d i := by simp
  omitted d := by simp
  count _ := rfl
  counted _ := rfl

/-- A change that has an index has a listed change of its identity, at that index only. -/
theorem modify_eq (h : Tracks digest T m M) (hinj : T.InjOn digest) (hc : changeIdentity c ∈ T) {i : ℕ}
    (hi : m.listed (digestOf digest c) = some i) (f : Change → Change) :
    (∃ x ∈ M.changes, changeIdentity x = changeIdentity c) ∧
      M.changes.modify i f = M.changes.map fun x => if changeIdentity x = changeIdentity c then f x else x := by
  -- The index of a digest is the place of its one listed change, and digests of known changes do not collide.
  have hsame : ∀ j x, M.changes[j]? = some x → (changeIdentity x = changeIdentity c ↔ i = j) := by
    intro j x hx
    have hdigest : (M.changes.map (digestOf digest))[j]? = some (digestOf digest x) := by simp [hx]
    constructor
    · intro hid
      have hj : m.listed (digestOf digest c) = some j := by
        rw [h.listed, hdigest, digestOf, digestOf, hid]
      exact Option.some_injective _ (hi.symm.trans hj)
    · rintro rfl
      have hd : digestOf digest x = digestOf digest c := Option.some_injective _ (hdigest.symm.trans ((h.listed _ _).mp hi))
      exact hinj (h.known x (by simp [List.mem_of_getElem? hx])) hc hd
  constructor
  · have hat := (h.listed _ _).mp hi
    rw [List.getElem?_map, Option.map_eq_some_iff] at hat
    obtain ⟨x, hx, -⟩ := hat
    exact ⟨x, List.mem_of_getElem? hx, (hsame i x hx).mpr rfl⟩
  · refine List.ext_getElem? fun j => ?_
    rw [List.getElem?_modify, List.getElem?_map]
    cases hx : M.changes[j]? with
    | none => rfl
    | some x =>
      simp only [Option.map_some, hsame j x hx]
      split_ifs <;> rfl

/-- A change without an index has no listed change of its identity. -/
theorem not_listed (h : Tracks digest T m M) (hnone : m.listed (digestOf digest c) = none) :
    ¬ ∃ x ∈ M.changes, changeIdentity x = changeIdentity c := by
  rintro ⟨x, hx, hxc⟩
  obtain ⟨i, hi⟩ := List.getElem?_of_mem hx
  have hsome : m.listed (digestOf digest c) = some i := by
    rw [h.listed, List.getElem?_map, hi, Option.map_some, digestOf, digestOf, hxc]
  simp [hnone] at hsome

/-- The digest of a change is among the ones left out exactly when such a change is. -/
theorem leftOut_iff (h : Tracks digest T m M) (hinj : T.InjOn digest) (hc : changeIdentity c ∈ T) :
    m.omitted (digestOf digest c) = true ↔ ∃ x ∈ M.omitted, changeIdentity x = changeIdentity c := by
  rw [h.omitted, List.mem_map]
  refine exists_congr fun x => and_congr_right fun hx => ?_
  constructor
  · exact hinj (h.known x (by simp [hx])) hc
  · intro hxc
    rw [digestOf, digestOf, hxc]

/-- The change joins the listed one that is the same. -/
theorem join (h : Tracks digest T m M) (hinj : T.InjOn digest) (hc : changeIdentity c ∈ T) {i : ℕ}
    (hi : m.listed (digestOf digest c) = some i) :
    Tracks digest T
      { m with changes := m.changes.modify i fun x => { x with targets := x.targets ++ c.targets } }
      { M with changes := M.changes.map (joinTargets c) } where
  targets := h.targets
  changes := by
    rw [h.changes]
    exact (h.modify_eq hinj hc hi _).2
  known x hx := by
    rcases List.mem_append.mp hx with hx | hx
    · obtain ⟨y, hy, rfl⟩ := List.mem_map.mp hx
      rw [changeIdentity_joinTargets]
      exact h.known y (by simp [hy])
    · exact h.known x (by simp [hx])
  listed d j := by
    have hdigests : (M.changes.map (joinTargets c)).map (digestOf digest) = M.changes.map (digestOf digest) := by
      simp [digestOf]
    rw [hdigests]
    exact h.listed d j
  omitted := h.omitted
  count kind := by
    simp only [h.count, ChangeMerger.count, List.filter_append, filter_joinTargets, List.length_append, List.length_map]
  counted := h.counted

/-- No digest is listed twice. -/
theorem nodup (h : Tracks digest T m M) :
    (M.changes.map (digestOf digest)).Nodup := by
  rw [List.Nodup, List.pairwise_iff_getElem]
  intro i j hi hj hij heq
  have hat : ∀ k (hk : k < (M.changes.map (digestOf digest)).length),
      m.listed (M.changes.map (digestOf digest))[k] = some k := fun k hk =>
    (h.listed _ _).mpr (List.getElem?_eq_getElem hk)
  have hsome := (hat i hi).symm.trans (heq ▸ hat j hj)
  exact hij.ne (Option.some_injective _ hsome)

variable [DecidableEq D]

/-- A new change past its kind's cap is left out. -/
theorem leaveOut (h : Tracks digest T m M) (hc : changeIdentity c ∈ T) :
    Tracks digest T
      { m with
        count := Function.update m.count c.kind (m.count c.kind + 1)
        omitted := Function.update m.omitted (digestOf digest c) true
        counted := Function.update m.counted c.kind (m.counted c.kind + 1) }
      { M with omitted := M.omitted ++ [c] } where
  targets := h.targets
  changes := h.changes
  known x hx := by
    simp only [List.mem_append, List.mem_singleton] at hx
    rcases hx with hx | hx | rfl
    · exact h.known x (by simp [hx])
    · exact h.known x (by simp [hx])
    · exact hc
  listed := h.listed
  omitted d := by
    dsimp only
    rw [Function.update_apply, List.map_append, List.mem_append, ← h.omitted]
    by_cases hd : d = digestOf digest c <;> simp [hd]
  -- The change counts, listed or not.
  count kind := by
    dsimp only
    rw [Function.update_apply, h.count, h.count]
    by_cases hkind : kind = c.kind
    · subst hkind
      simp [ChangeMerger.count]
      omega
    · simp [ChangeMerger.count, hkind, Ne.symm hkind]
  counted kind := by
    dsimp only
    rw [Function.update_apply, h.counted, h.counted]
    by_cases hkind : kind = c.kind
    · subst hkind
      simp [ChangeMerger.counted]
    · simp [ChangeMerger.counted, hkind, Ne.symm hkind]

/-- A new change within its kind's cap is listed last. -/
theorem list (h : Tracks digest T m M) (hc : changeIdentity c ∈ T) (hnone : m.listed (digestOf digest c) = none) :
    Tracks digest T
      { m with
        count := Function.update m.count c.kind (m.count c.kind + 1)
        listed := Function.update m.listed (digestOf digest c) (some m.changes.length)
        changes := m.changes ++ [c] }
      { M with changes := M.changes ++ [c] } where
  targets := h.targets
  changes := by rw [h.changes]
  known x hx := by
    simp only [List.mem_append, List.mem_singleton] at hx
    rcases hx with (hx | rfl) | hx
    · exact h.known x (by simp [hx])
    · exact hc
    · exact h.known x (by simp [hx])
  listed d i := by
    have hlength : (M.changes.map (digestOf digest)).length = M.changes.length := List.length_map _
    dsimp only
    rw [Function.update_apply, List.map_append, List.map_singleton, h.changes]
    split_ifs with hd
    · subst hd
      -- The digest was not listed before: only the last index is its own.
      rcases Nat.lt_trichotomy i M.changes.length with hlt | rfl | hgt
      · rw [List.getElem?_append_left (by omega), ← h.listed, hnone]
        simp [Ne.symm hlt.ne]
      · rw [List.getElem?_append_right (by omega)]
        simp
      · rw [List.getElem?_append_right (by omega)]
        simp [hgt.ne, Nat.sub_ne_zero_of_lt hgt]
    · rw [h.listed]
      rcases Nat.lt_or_ge i M.changes.length with hlt | hge
      · rw [List.getElem?_append_left (by omega)]
      · rw [List.getElem?_append_right (by omega), List.getElem?_eq_none (by omega)]
        rcases hge.eq_or_lt with heq | hgt
        · simp [heq, Ne.symm hd]
        · simp [Nat.sub_ne_zero_of_lt hgt]
  omitted := h.omitted
  count kind := by
    dsimp only
    rw [Function.update_apply, h.count, h.count]
    by_cases hkind : kind = c.kind
    · subst hkind
      simp [ChangeMerger.count]
      omega
    · simp [ChangeMerger.count, hkind, Ne.symm hkind]
  counted := h.counted

/-- One change merged by both. -/
theorem addChange (h : Tracks digest T m M) (hinj : T.InjOn digest) (hc : changeIdentity c ∈ T) :
    Tracks digest T (m.addChange digest c) (M.addChange c) := by
  have hany : ∀ l : List Change, (l.any (changeIdentity · = changeIdentity c)) = true ↔
      ∃ x ∈ l, changeIdentity x = changeIdentity c := by simp
  unfold DigestMerger.addChange ChangeMerger.addChange
  simp only [hany]
  cases hi : m.listed (digest (changeIdentity c)) with
  | some i =>
    rw [if_pos (h.modify_eq hinj hc hi id).1]
    exact h.join hinj hc hi
  | none =>
    rw [if_neg (h.not_listed hi)]
    have homitted := h.leftOut_iff hinj hc
    by_cases ho : ∃ x ∈ M.omitted, changeIdentity x = changeIdentity c
    · rw [if_pos ho]
      simp only [if_pos (show m.omitted (digest (changeIdentity c)) = true from homitted.mpr ho)]
      exact h
    · rw [if_neg ho, ← h.count]
      simp only [if_neg (show ¬ m.omitted (digest (changeIdentity c)) = true from fun hd => ho (homitted.mp hd))]
      by_cases hcap : 0 < c.kind.cap ∧ c.kind.cap < m.count c.kind + 1
      · rw [if_pos hcap, if_pos hcap]
        exact h.leaveOut hc
      · rw [if_neg hcap, if_neg hcap]
        exact h.list hc hi

/-- The deltas of a pass merged by both. -/
theorem deltas (h : Tracks digest T m M) (hinj : T.InjOn digest) (ds : List TargetDelta)
    (hds : ∀ c ∈ changesOf ds, changeIdentity c ∈ T) :
    Tracks digest T (ds.foldl (DigestMerger.add digest) m) (ds.foldl (fun m d => m.add d.target d.changes) M) := by
  have hrun : ∀ (cs : List Change) {m : DigestMerger D} {M : ChangeMerger}, Tracks digest T m M →
      (∀ c ∈ cs, changeIdentity c ∈ T) →
        Tracks digest T (cs.foldl (DigestMerger.addChange digest) m) (cs.foldl ChangeMerger.addChange M) := by
    intro cs
    induction cs with
    | nil => exact fun h _ => h
    | cons c cs ih =>
      intro m M h hcs
      exact ih (h.addChange hinj (hcs c List.mem_cons_self)) fun x hx => hcs x (List.mem_cons_of_mem _ hx)
  induction ds generalizing m M with
  | nil => exact h
  | cons d ds ih =>
    refine ih ?_ fun c hc => hds c (List.mem_append_right _ hc)
    unfold DigestMerger.add
    dsimp only [ChangeMerger.add]
    split_ifs
    · exact h
    · refine hrun d.changes ?_ fun c hc => hds c (List.mem_append_left _ hc)
      exact ⟨by rw [h.targets], h.changes, h.known, h.listed, h.omitted, h.count, h.counted⟩

end Tracks

end Digests

/-! ## The notification -/

/-- The targets of the merged deltas are those of the deltas with changes, in order. -/
theorem targets_foldl (ds : List TargetDelta) (M : ChangeMerger) :
    (ds.foldl (fun m d => m.add d.target d.changes) M).targets =
      M.targets ++ (ds.filter (·.changes ≠ [])).map (·.target) := by
  have hrun : ∀ (cs : List Change) (M : ChangeMerger), (cs.foldl ChangeMerger.addChange M).targets = M.targets := by
    intro cs
    induction cs with
    | nil => exact fun _ => rfl
    | cons c cs ih =>
      intro M
      rw [List.foldl_cons, ih]
      unfold ChangeMerger.addChange
      split_ifs <;> rfl
  induction ds generalizing M with
  | nil => simp
  | cons d ds ih =>
    rw [List.foldl_cons, ih]
    unfold ChangeMerger.add
    by_cases hd : d.changes = []
    · simp [hd]
    · rw [if_neg (by simpa using hd), hrun]
      simp [hd]

section Notification

variable {D : Type} {digest : String → D} {deltas : List TargetDelta}

/-- The digest tells the changes of the deltas apart: no two that differ in their kind, key, title or detail have
the same digest. -/
def CollisionFree (digest : String → D) (deltas : List TargetDelta) : Prop :=
  ∀ c ∈ changesOf deltas, ∀ c' ∈ changesOf deltas, digestOf digest c = digestOf digest c' → identity c = identity c'

/-- A delta as `computeDelta` leaves it: its changes are distinct, and each names the delta's target. -/
structure OneTarget (d : TargetDelta) : Prop where
  /-- The changes are distinct. -/
  distinct : (d.changes.map identity).Nodup
  /-- Each names the target. -/
  named : ∀ c ∈ d.changes, c.targets = [d.target.target]

/-- The changes of different findings have different identities. -/
theorem nodup_change {fs : List Finding} (h : (fs.map fun f => (headOf f).ident).Nodup) (kind : ChangeKind)
    (targets : List String) : ((fs.map (change kind · targets)).map identity).Nodup := by
  rw [List.map_map, List.Nodup, List.pairwise_map]
  refine (List.pairwise_map.mp h).imp fun {f g} hne heq => hne ?_
  simp only [Function.comp_apply, identity, change, Prod.mk.injEq] at heq
  change (if f.key ≠ "" then f.key else f.title) = if g.key ≠ "" then g.key else g.title
  rw [heq.2.1, heq.2.2.1]

/-- The changes of `computeDelta` are distinct, and each names the report's target. -/
theorem computeDelta_changes (X : External) (prev : List FindingHead) (curr : Report) (unassessed : FindingHead → Bool) :
    ((computeDelta X prev curr unassessed).1.map identity).Nodup ∧
      ∀ c ∈ (computeDelta X prev curr unassessed).1, c.targets = [curr.target.string] := by
  have hfindings : ∀ (p q : Finding → Bool),
      (((distinctOn (fun f => (headOf f).ident) (curr.findings.filter p)).filter q).map fun f => (headOf f).ident).Nodup :=
    fun p q => (nodup_distinctOn _ _).sublist (List.filter_sublist.map _)
  simp only [computeDelta, List.map_append, List.nodup_append, List.mem_append]
  -- Within a kind the findings are distinct; between kinds the changes differ in the kind.
  refine ⟨⟨⟨nodup_change (hfindings _ _) _ _, ?_, ?_⟩, nodup_change (hfindings _ _) _ _, ?_⟩, ?_⟩
  · split_ifs <;> simp
  · intro a ha b hb
    obtain ⟨c, hc, rfl⟩ := List.mem_map.mp ha
    obtain ⟨f, -, rfl⟩ := List.mem_map.mp hc
    split_ifs at hb
    · obtain rfl : b = _ := by simpa using hb
      simp [identity, change]
    · simp at hb
  · rintro a (ha | ha) b hb
    all_goals
      obtain ⟨c, hc, rfl⟩ := List.mem_map.mp ha
      obtain ⟨c', hc', rfl⟩ := List.mem_map.mp hb
      obtain ⟨f', -, rfl⟩ := List.mem_map.mp hc'
    · obtain ⟨f, -, rfl⟩ := List.mem_map.mp hc
      simp [identity, change]
    · split_ifs at hc
      · obtain rfl : c = _ := by simpa using hc
        simp [identity, change]
      · simp at hc
  · rintro c ((hc | hc) | hc)
    · obtain ⟨f, -, rfl⟩ := List.mem_map.mp hc
      rfl
    · split_ifs at hc
      · obtain rfl : c = _ := by simpa using hc
        rfl
      · simp at hc
    · obtain ⟨f, -, rfl⟩ := List.mem_map.mp hc
      rfl

/-- The delta of a target is one. -/
theorem deltaFor_oneTarget (s : Server) (clusterID : ℕ) (e : Store.Evaluation) (cur : Report)
    (known : Option (Store.Evaluation × List FindingHead)) (unassessed : FindingHead → Bool) :
    Interleave.Looks (deltaFor s clusterID e cur known unassessed) OneTarget := by
  have hnone : ∀ d : TargetDelta, d.changes = [] → OneTarget d := fun d hd => by
    refine ⟨?_, ?_⟩ <;> simp [hd]
  unfold deltaFor
  dsimp only
  split_ifs
  · exact hnone _ rfl
  · cases known with
    | some k =>
      obtain ⟨hdistinct, hnamed⟩ := computeDelta_changes s.external k.2 cur unassessed
      exact ⟨hdistinct, hnamed⟩
    | none =>
      refine Interleave.Looks.bind ((loadBaseline_looks s clusterID cur).imp fun res _ => ?_)
      obtain ⟨prev, baselines⟩ := res
      cases prev with
      | none => exact hnone _ rfl
      | some row =>
        dsimp only
        cases s.decodeReport row.report with
        | none => exact hnone _ rfl
        | some heads =>
          obtain ⟨hdistinct, hnamed⟩ := computeDelta_changes s.external heads.baseline cur unassessed
          exact ⟨hdistinct, hnamed⟩

variable {M : ChangeMerger} {c c' x : Change}

/-- The text that is digested is made of the kind, the key, the title and the detail. -/
theorem changeIdentity_of_identity (h : identity c = identity c') :
    changeIdentity c = changeIdentity c' := by
  simp only [identity, Prod.mk.injEq] at h
  obtain ⟨hkind, hkey, htitle, hdetail⟩ := h
  rw [changeIdentity, changeIdentity, hkind, hkey, htitle, hdetail]

/-- Without a collision of digests, the texts of two changes tell them apart as their identities do. -/
theorem CollisionFree.identity_iff (h : CollisionFree digest deltas) (hc : c ∈ changesOf deltas)
    (hc' : c' ∈ changesOf deltas) : changeIdentity c = changeIdentity c' ↔ identity c = identity c' :=
  ⟨fun htext => h c hc c' hc' (congrArg digest htext), changeIdentity_of_identity⟩

/-- The distinct changes of a kind, as identities. -/
theorem CollisionFree.map_distinctOf (h : CollisionFree digest deltas) (kind : ChangeKind) :
    (distinctOf kind (changesOf deltas)).map identity = distinctIdentities kind deltas := by
  have hcongr : distinctOn changeIdentity (changesOf deltas) = distinctOn identity (changesOf deltas) :=
    distinctFrom_congr [] (changesOf deltas) fun a ha b hb => h.identity_iff ha hb
  have hmap : (distinctOn identity (changesOf deltas)).map identity = distinctOn id ((changesOf deltas).map identity) :=
    map_distinctFrom identity [] (changesOf deltas)
  rw [distinctIdentities, ← hmap, List.filter_map, distinctOf, hcongr]
  rfl

/-- The merger with digests tracks the merger with whole changes over the deltas. -/
theorem CollisionFree.tracks [DecidableEq D] (h : CollisionFree digest deltas) :
    Tracks digest {t | ∃ c ∈ changesOf deltas, changeIdentity c = t} (deltas.foldl (DigestMerger.add digest) {})
      (deltas.foldl (fun m d => m.add d.target d.changes) {}) := by
  refine Tracks.start.deltas ?_ deltas fun c hc => ⟨c, hc, rfl⟩
  rintro _ ⟨c, hc, rfl⟩ _ ⟨c', hc', rfl⟩ heq
  exact changeIdentity_of_identity (h c hc c' hc' heq)

/-- A digest without collisions tells changes apart whose key, title and detail have no separator. -/
theorem collisionFree_of_injective (hdigest : Function.Injective digest)
    (hplain : ∀ c ∈ changesOf deltas, '\x00' ∉ c.key.toList ∧ '\x00' ∉ c.title.toList ∧ '\x00' ∉ c.detail.toList) :
    CollisionFree digest deltas := by
  intro c hc c' hc' heq
  have htext := congrArg String.toList (hdigest heq)
  rw [changeIdentity_toList, changeIdentity_toList] at htext
  obtain ⟨hkey, htitle, hdetail⟩ := hplain c hc
  obtain ⟨hkey', htitle', hdetail'⟩ := hplain c' hc'
  obtain ⟨h1, htext⟩ := Go.append_sep_inj (notMem_kindName _) (notMem_kindName _) htext
  obtain ⟨h2, htext⟩ := Go.append_sep_inj hkey hkey' htext
  obtain ⟨h3, htext⟩ := Go.append_sep_inj htitle htitle' htext
  obtain ⟨h4, -⟩ := Go.append_sep_inj hdetail hdetail' htext
  rw [identity, identity, kindName_inj (String.ext h1), String.ext h2, String.ext h3, String.ext h4]

/-- The one change of a delta that is the same as a change of the deltas names the delta's target. -/
theorem targets_filter (hfree : CollisionFree digest deltas) {d : TargetDelta} (hd : d ∈ deltas) (hone : OneTarget d)
    (hx : x ∈ changesOf deltas) :
    (d.changes.filter (changeIdentity · = changeIdentity x)).flatMap (·.targets) =
      if identity x ∈ d.changes.map identity then [d.target.target] else [] := by
  have hiff : ∀ c ∈ d.changes, changeIdentity c = changeIdentity x ↔ identity c = identity x := fun c hc =>
    hfree.identity_iff (List.mem_flatMap.mpr ⟨d, hd, hc⟩) hx
  split_ifs with hmem
  · obtain ⟨c, hc, hcx⟩ := List.mem_map.mp hmem
    have hfilter : d.changes.filter (changeIdentity · = changeIdentity x) = d.changes.filter (· = c) := by
      refine List.filter_congr fun y hy => decide_eq_decide.mpr ((hiff y hy).trans ?_)
      rw [← hcx]
      exact ⟨fun h => List.inj_on_of_nodup_map hone.distinct hy hc h, fun h => h ▸ rfl⟩
    rw [hfilter, List.filter_eq, List.count_eq_one_of_mem hone.distinct.of_map hc]
    simp [hone.named c hc]
  · have hnil : d.changes.filter (changeIdentity · = changeIdentity x) = [] := by
      refine List.filter_eq_nil_iff.mpr fun c hc hcx => hmem ?_
      exact (hiff c hc).mp (decide_eq_true_eq.mp hcx) ▸ List.mem_map_of_mem hc
    rw [hnil, List.flatMap_nil]

/-- The targets of a change of the deltas. -/
theorem targets_withTargets (hone : ∀ d ∈ deltas, OneTarget d) (hfree : CollisionFree digest deltas)
    (hx : x ∈ changesOf deltas) :
    (withTargets (changesOf deltas) x).targets =
      (deltas.filter fun d => identity x ∈ d.changes.map identity).map (·.target.target) := by
  have hpick : ∀ ds : List TargetDelta,
      ds.flatMap (fun d => if identity x ∈ d.changes.map identity then [d.target.target] else []) =
        (ds.filter fun d => identity x ∈ d.changes.map identity).map (·.target.target) := by
    intro ds
    induction ds with
    | nil => rfl
    | cons d ds ih =>
      rw [List.flatMap_cons, List.filter_cons, ih]
      by_cases hd : identity x ∈ d.changes.map identity <;> simp [hd]
  calc (withTargets (changesOf deltas) x).targets
      = deltas.flatMap fun d => (d.changes.filter (changeIdentity · = changeIdentity x)).flatMap (·.targets) := by
        simp only [withTargets, changesOf, List.filter_flatMap, List.flatMap_assoc]
    _ = deltas.flatMap fun d => if identity x ∈ d.changes.map identity then [d.target.target] else [] :=
        List.flatMap_congr fun d hd => targets_filter hfree hd (hone d hd) hx
    _ = _ := hpick deltas

/-- A kind is known by its rank. -/
theorem rank_inj {kind kind' : ChangeKind} : kind.rank = kind'.rank ↔ kind = kind' := by
  cases kind <;> cases kind' <;> decide

/-- Sorting by kind leaves the order of the changes of a kind. -/
theorem filter_kind_sortOn (l : List Change) (kind : ChangeKind) :
    (sortOn (fun c : Change => c.kind.rank) l).filter (·.kind = kind) = l.filter (·.kind = kind) := by
  simpa only [rank_inj] using filter_sortOn (fun c : Change => c.kind.rank) kind.rank l

/-- The count of a kind read from the counts that are not zero. -/
theorem find?_counted (f : ChangeKind → ℕ) (kind : ChangeKind) :
    ((([ChangeKind.newBlocker, .becameReady, .eolApproaching].filterMap fun k =>
      if f k = 0 then none else some (k, f k)).find? (·.1 = kind)).map (·.2)).getD 0 = f kind := by
  by_cases h0 : f .newBlocker = 0 <;> by_cases h1 : f .becameReady = 0 <;> by_cases h2 : f .eolApproaching = 0 <;>
    cases kind <;> simp [h0, h1, h2]

/-- The merger with digests sends what the merger with whole changes does. -/
theorem buildNotification_eq [DecidableEq D] (hfree : CollisionFree digest deltas) (cluster : Store.Cluster) (now : Go.Time)
    (deliveryID : String) :
    buildNotification digest cluster deltas now deliveryID =
      (deltas.foldl (fun m d => m.add d.target d.changes) ({} : ChangeMerger)).notification cluster.id cluster.name now
        deliveryID := by
  have htracks := hfree.tracks
  unfold buildNotification DigestMerger.notification ChangeMerger.notification
  rw [htracks.changes, htracks.targets]
  simp only [htracks.counted]

/-- A merger that has seen the changes of the deltas. -/
theorem complete_of_accounts (hone : ∀ d ∈ deltas, OneTarget d) (hfree : CollisionFree digest deltas)
    (hM : Accounts (changesOf deltas) M) (hnodup : (M.changes.map (digestOf digest)).Nodup) {n : Notification}
    (hchanges : n.changes = sortOn (fun c : Change => c.kind.rank) M.changes)
    (homitted : ∀ kind, omittedOf n kind = M.counted kind)
    (htargets : n.targets = (deltas.filter (·.changes ≠ [])).map (·.target)) : Complete deltas n := by
  have hlisted : ∀ kind, n.changes.filter (·.kind = kind) =
      ((distinctOf kind (changesOf deltas)).take (room kind (distinctOf kind (changesOf deltas)).length)).map
        (withTargets (changesOf deltas)) := fun kind => by
    rw [hchanges, filter_kind_sortOn, hM.listed]
  have hlength : ∀ kind, (n.changes.filter (·.kind = kind)).length =
      min (room kind (distinctOf kind (changesOf deltas)).length) (distinctOf kind (changesOf deltas)).length := fun kind => by
    rw [hlisted, List.length_map, List.length_take]
  have hcounted : ∀ kind, omittedOf n kind = (distinctOf kind (changesOf deltas)).length -
      room kind (distinctOf kind (changesOf deltas)).length := fun kind => by
    rw [homitted, ChangeMerger.counted, hM.omitted, List.length_drop]
  -- What is listed and what is counted follow, kind by kind, from how much room the cap leaves.
  refine ⟨?_, ?_, fun kind => ?_, fun kind => ?_, fun kind hcap => ?_, fun kind hmore => ?_, fun c hc => ?_, htargets⟩
  · have hperm := (sortOn_perm (fun c : Change => c.kind.rank) M.changes).map identity
    rw [hchanges, hperm.nodup_iff, List.Nodup, List.pairwise_map]
    refine (List.pairwise_map.mp hnodup).imp fun {a b} hne heq => hne ?_
    exact congrArg digest (changeIdentity_of_identity heq)
  · rw [hchanges]
    exact sortOn_pairwise _ _
  · rw [hlisted, List.map_map, ← hfree.map_distinctOf]
    exact (List.take_prefix _ _).map identity
  · rw [← hfree.map_distinctOf, List.length_map, hlength, hcounted]
    omega
  · rw [hlength, room, if_neg hcap]
    exact min_le_left _ _
  · rw [hcounted] at hmore
    rw [hlength]
    by_cases hcap : kind.cap = 0
    · simp [room, hcap] at hmore
    · rw [room, if_neg hcap] at hmore ⊢
      omega
  · have hmem : c ∈ n.changes.filter (·.kind = c.kind) := List.mem_filter.mpr ⟨hc, decide_eq_true rfl⟩
    rw [hlisted] at hmem
    obtain ⟨x, hx, rfl⟩ := List.mem_map.mp hmem
    have hseen := mem_of_mem_distinctOn (List.mem_of_mem_filter (List.mem_of_mem_take hx))
    exact targets_withTargets hone hfree hseen

/-- A merger lists nothing exactly when it has seen nothing: the first change of a kind is within its cap. -/
theorem Accounts.changes_eq_nil_iff {seen : List Change} (h : Accounts seen M) :
    M.changes = [] ↔ seen = [] := by
  constructor
  · intro hnil
    cases seen with
    | nil => rfl
    | cons c seen =>
      have hlisted := h.listed c.kind
      obtain ⟨x, hx, -⟩ := exists_mem_distinctOf.mp (show changeIdentity c ∈ (c :: seen).map changeIdentity by simp)
      have hpos := List.length_pos_of_mem hx
      have hlength := congrArg List.length hlisted
      rw [hnil, List.filter_nil, List.length_nil, List.length_map, List.length_take, room] at hlength
      split_ifs at hlength <;> omega
  · rintro rfl
    rw [List.eq_nil_iff_forall_not_mem]
    intro c hc
    have hmem : c ∈ M.changes.filter (·.kind = c.kind) := List.mem_filter.mpr ⟨hc, decide_eq_true rfl⟩
    rw [h.listed] at hmem
    simp [distinctOf, distinctOn, distinctFrom] at hmem

/-- The notification of a pass accounts for every change of its deltas, and there is none exactly when every delta
is empty. -/
theorem buildNotification_complete [DecidableEq D] (cluster : Store.Cluster) (now : Go.Time) (deliveryID : String)
    (hone : ∀ d ∈ deltas, OneTarget d) (hfree : CollisionFree digest deltas) :
    (∀ n, buildNotification digest cluster deltas now deliveryID = some n → Complete deltas n) ∧
      (buildNotification digest cluster deltas now deliveryID = none ↔ ∀ d ∈ deltas, d.changes = []) := by
  have hM : Accounts (changesOf deltas) _ := Accounts.start.deltas deltas
  have htargets := targets_foldl deltas {}
  rw [buildNotification_eq hfree]
  unfold ChangeMerger.notification
  simp only [List.isEmpty_iff, hM.changes_eq_nil_iff]
  constructor
  · intro n hn
    split_ifs at hn
    obtain rfl := Option.some_injective _ hn
    exact complete_of_accounts hone hfree hM hfree.tracks.nodup rfl (fun kind => find?_counted _ kind) htargets
  · rw [ite_eq_left_iff]
    simp [changesOf]

/-- Two targets with seven and four blockers, three of them the same. -/
def blockerDeltas : List TargetDelta :=
  [("1.36", ["b-0", "b-1", "b-2", "b-3", "b-4", "b-5", "b-6"]), ("1.37", ["b-6", "b-5", "b-0", "b-7"])].map fun p =>
    { version := ⟨1, 36⟩, target := ⟨p.1, .blocked, 50, p.2.length⟩
      changes := p.2.map fun key => { kind := .newBlocker, key := key, severity := "blocker", title := "x", targets := [p.1] } }

/-- Of the eight blockers of two deltas, three are past the cap, each counted once. -/
theorem buildNotification_blockerDeltas :
    (∀ n, buildNotification id { id := 1, name := "prod" } blockerDeltas 0 "id" = some n → Complete blockerDeltas n) ∧
      (buildNotification id { id := 1, name := "prod" } blockerDeltas 0 "id").map (fun n => omittedOf n .newBlocker) = some 3 := by
  refine ⟨(buildNotification_complete _ _ _ ?_ (collisionFree_of_injective Function.injective_id ?_)).1, by decide +kernel⟩
  · intro d hd
    simp only [blockerDeltas, List.map_cons, List.map_nil, List.mem_cons, List.not_mem_nil, or_false] at hd
    rcases hd with rfl | rfl
    · exact ⟨by decide, by decide⟩
    · exact ⟨by decide, by decide⟩
  · exact by decide +kernel

end Notification

end UpgradeScope.MergedChanges
