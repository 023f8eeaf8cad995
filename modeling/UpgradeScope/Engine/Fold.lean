import UpgradeScope.Engine.Keys

/-!
# The fold of the callers, finding by finding

`foldDeprecatedCalls` places each caller by the index of a usage finding. Where the index says no more than the
finding, the fold is a map: each usage finding takes the callers it takes by itself, and the callers that no finding
takes stand alone (`foldDeprecatedCalls_eq_of_takes`). It does where no two usage findings have the same API in their
keys (`foldDeprecatedCalls_eq`, with `takesCall`), and for callers that have no second row or finding to fold by
(`TakenApart`, with `mayTake`), which does not depend on the order of either.
-/

namespace UpgradeScope

open Go Sorting Kb

section LastIdx

variable {α : Type} {p : α → Bool}

/-- The last index of a predicate holds an element that satisfies it. -/
theorem getElem?_of_lastIdx {l : List α} {j : ℕ} (h : lastIdx p l = some j) :
    ∃ a, l[j]? = some a ∧ p a = true := by
  induction l generalizing j with
  | nil => simp [lastIdx] at h
  | cons b l ih =>
    rw [lastIdx] at h
    cases hl : lastIdx p l with
    | some i =>
      rw [hl] at h
      obtain rfl := Option.some.inj h
      obtain ⟨a, ha, hpa⟩ := ih hl
      exact ⟨a, by simpa using ha, hpa⟩
    | none =>
      rw [hl] at h
      dsimp only at h
      split_ifs at h with hb
      obtain rfl := Option.some.inj h
      exact ⟨b, rfl, hb⟩

/-- A list with an element that satisfies a predicate has a last index of it. -/
theorem lastIdx_isSome {l : List α} {a : α} (ha : a ∈ l) (hpa : p a = true) :
    ∃ j, lastIdx p l = some j := by
  induction l with
  | nil => simp at ha
  | cons b l ih =>
    rw [lastIdx]
    cases hl : lastIdx p l with
    | some i => exact ⟨i + 1, rfl⟩
    | none =>
      rcases List.mem_cons.mp ha with rfl | ha
      · exact ⟨0, by simp [hpa]⟩
      · obtain ⟨j, hj⟩ := ih ha
        simp [hl] at hj

/-- Where no two elements have one key, the last index of a key is the only one. -/
theorem lastIdx_eq_some_iff {κ : Type} [DecidableEq κ] {key : α → κ} {l : List α}
    (hnodup : (l.map key).Nodup) (k : κ) (j : ℕ) :
    lastIdx (fun a => decide (key a = k)) l = some j ↔ ∃ a, l[j]? = some a ∧ key a = k := by
  constructor
  · intro h
    obtain ⟨a, ha, hk⟩ := getElem?_of_lastIdx h
    exact ⟨a, ha, of_decide_eq_true hk⟩
  · rintro ⟨a, ha, hk⟩
    obtain ⟨i, hi⟩ := lastIdx_isSome (p := fun a => decide (key a = k)) (List.mem_of_getElem? ha)
      (decide_eq_true hk)
    obtain ⟨b, hb, hbk⟩ := getElem?_of_lastIdx hi
    -- Both indexes hold the key, which stands once.
    have hik : (l.map key)[i]? = some k := by rw [List.getElem?_map, hb, ← of_decide_eq_true hbk]; rfl
    have hjk : (l.map key)[j]? = some k := by rw [List.getElem?_map, ha, ← hk]; rfl
    obtain ⟨hilt, hie⟩ := List.getElem?_eq_some_iff.mp hik
    obtain ⟨hjlt, hje⟩ := List.getElem?_eq_some_iff.mp hjk
    have hij : i = j := (List.Nodup.getElem_inj_iff hnodup).mp (hie.trans hje.symm)
    rw [hi, hij]

/-- Where at most one element of a list satisfies a predicate, it stands at one index. -/
theorem idx_unique {l : List α} (hone : (l.filter p).length ≤ 1) {i j : ℕ} {a b : α} (ha : l[i]? = some a)
    (hb : l[j]? = some b) (hpa : p a = true) (hpb : p b = true) : i = j := by
  have hfront : ∀ {c : α} {l : List α} {n : ℕ} {d : α}, ((c :: l).filter p).length ≤ 1 → p c = true → l[n]? = some d →
      p d = false := by
    intro c l n d hone hpc hd
    rw [List.filter_cons_of_pos hpc, List.length_cons] at hone
    have hnil : l.filter p = [] := List.length_eq_zero_iff.mp (by omega)
    simpa using List.filter_eq_nil_iff.mp hnil d (List.mem_of_getElem? hd)
  induction l generalizing i j with
  | nil => simp at ha
  | cons c l ih =>
    cases i with
    | zero =>
      obtain rfl : c = a := by simpa using ha
      cases j with
      | zero => rfl
      | succ j => simp [hfront hone hpa (by simpa using hb)] at hpb
    | succ i =>
      cases j with
      | zero =>
        obtain rfl : c = b := by simpa using hb
        simp [hfront hone hpb (by simpa using ha)] at hpa
      | succ j =>
        have hrest : (l.filter p).length ≤ 1 := ((List.sublist_cons_self c l).filter p).length_le.trans hone
        exact congrArg (· + 1) (ih hrest (by simpa using ha) (by simpa using hb))

end LastIdx

section Fold

variable (X : External)

/-- A usage finding takes a caller's row: it is of the API the row requests, and at least as severe. -/
def takesCall (rows : List APIUsage) (f : Finding) (r : DeprecatedCall × Finding) : Bool :=
  ((rows.find? fun u => keysResource X u.group u.version u.kind
      (resourceKey r.1.group r.1.version r.1.resource)).any fun u =>
    keyAPI f.key = apiKey u.group u.version u.kind) && f.severity.rank ≤ r.2.severity.rank

variable {X} {rows : List APIUsage} {usage : List Finding}

/-- A row folds to the index of the finding that takes it. -/
theorem foldIndex_eq_some_iff (hnodup : (usage.map fun f => keyAPI f.key).Nodup)
    (r : DeprecatedCall × Finding) (j : ℕ) :
    foldIndex X rows usage r.1 r.2 = some j ↔
      ∃ f, usage[j]? = some f ∧ takesCall X rows f r = true := by
  unfold foldIndex foldTarget takesCall
  cases rows.find? fun u => keysResource X u.group u.version u.kind
      (resourceKey r.1.group r.1.version r.1.resource) with
  | none => simp
  | some u =>
    rw [Option.bind_some, Option.filter_eq_some_iff, lastIdx_eq_some_iff hnodup]
    constructor
    · rintro ⟨⟨f, hf, hkey⟩, hany⟩
      rw [hf] at hany
      exact ⟨f, hf, by simpa [hkey] using hany⟩
    · rintro ⟨f, hf, htakes⟩
      rw [Bool.and_eq_true] at htakes
      refine ⟨⟨f, hf, by simpa using htakes.1⟩, ?_⟩
      rw [hf]
      simpa using htakes.2

/-- The fold of the callers, where a caller folds to the index of a finding exactly when the finding takes it. -/
theorem foldDeprecatedCalls_eq_of_takes (inv : Inventory) (calls : List (DeprecatedCall × Finding))
    {takes : Finding → DeprecatedCall × Finding → Bool}
    (h : ∀ r ∈ calls, ∀ j, foldIndex X inv.apiUsage usage r.1 r.2 = some j ↔ ∃ f, usage[j]? = some f ∧ takes f r = true) :
    foldDeprecatedCalls X inv usage calls =
      (usage.map fun f => withCallers f (calls.filter (takes f))) ++
        (calls.filter fun r => !usage.any fun f => takes f r).map (·.2) := by
  unfold foldDeprecatedCalls
  dsimp only
  have hinto : ∀ j f, usage[j]? = some f →
      foldedInto (placedCalls X inv usage calls) j = calls.filter (takes f) := by
    intro j f hf
    unfold foldedInto placedCalls
    rw [List.filter_map, List.map_map]
    have hid : ((fun r : (DeprecatedCall × Finding) × Option ℕ => r.1) ∘
        fun r : DeprecatedCall × Finding => (r, foldIndex X inv.apiUsage usage r.1 r.2)) = id := rfl
    rw [hid, List.map_id]
    refine List.filter_congr fun r hr => ?_
    rw [Bool.eq_iff_iff, Function.comp_apply, decide_eq_true_eq, h r hr, hf]
    simp
  have halone : (placedCalls X inv usage calls).filter (fun r => r.2 = none) =
      (calls.filter fun r => !usage.any fun f => takes f r).map fun r =>
        (r, foldIndex X inv.apiUsage usage r.1 r.2) := by
    unfold placedCalls
    rw [List.filter_map]
    congr 1
    refine List.filter_congr fun r hr => ?_
    rw [Bool.eq_iff_iff, Function.comp_apply, decide_eq_true_eq, Bool.not_eq_true', ← Bool.not_eq_true,
      List.any_eq_true, ← not_iff_not, not_not, ← ne_eq, Option.ne_none_iff_exists']
    constructor
    · rintro ⟨j, hj⟩
      obtain ⟨f, hf, ht⟩ := (h r hr j).mp hj
      exact ⟨f, List.mem_of_getElem? hf, ht⟩
    · rintro ⟨f, hf, ht⟩
      obtain ⟨j, hj, rfl⟩ := List.getElem_of_mem hf
      exact ⟨j, (h r hr j).mpr ⟨_, List.getElem?_eq_getElem hj, ht⟩⟩
  rw [halone, List.map_map]
  congr 1
  rw [List.mapIdx_eq_zipIdx_map]
  refine List.ext_getElem (by simp) fun j hj hj' => ?_
  have hlt : j < usage.length := by simpa using hj'
  simp [hinto j usage[j] (List.getElem?_eq_getElem hlt)]

/-- The fold of the callers, where no two usage findings have the same API in their keys. -/
theorem foldDeprecatedCalls_eq (inv : Inventory) (calls : List (DeprecatedCall × Finding))
    (hnodup : (usage.map fun f => keyAPI f.key).Nodup) :
    foldDeprecatedCalls X inv usage calls =
      (usage.map fun f => withCallers f (calls.filter (takesCall X inv.apiUsage f))) ++
        (calls.filter fun r => !usage.any fun f => takesCall X inv.apiUsage f r).map (·.2) :=
  foldDeprecatedCalls_eq_of_takes inv calls fun r _ j => foldIndex_eq_some_iff hnodup r j

end Fold

section Apart

variable (X : External)

/-- A usage row goes by the resource that a caller requests. -/
def APIUsage.goesBy (u : APIUsage) (c : DeprecatedCall) : Bool :=
  keysResource X u.group u.version u.kind (resourceKey c.group c.version c.resource)

/-- A usage finding is of the API of some row that goes by what a caller requests, and at least as severe. -/
def mayTake (rows : List APIUsage) (f : Finding) (r : DeprecatedCall × Finding) : Bool :=
  (rows.any fun u => u.goesBy X r.1 && decide (keyAPI f.key = apiKey u.group u.version u.kind)) &&
    f.severity.rank ≤ r.2.severity.rank

/-- Where a usage finding may take a caller's row, no other API goes by what the caller requests, and no other finding
is of that API. -/
def TakenApart (rows : List APIUsage) (usage : List Finding) (r : DeprecatedCall × Finding) : Prop :=
  ∀ f ∈ usage, mayTake X rows f r = true →
    (∀ u ∈ rows, u.goesBy X r.1 = true → apiKey u.group u.version u.kind = keyAPI f.key) ∧
      (usage.filter fun g => keyAPI g.key = keyAPI f.key).length ≤ 1

variable {X} {rows : List APIUsage} {usage : List Finding} {r : DeprecatedCall × Finding}

/-- A usage finding may take a caller by some row. -/
theorem mayTake_iff {f : Finding} : mayTake X rows f r = true ↔
    (∃ u ∈ rows, u.goesBy X r.1 = true ∧ keyAPI f.key = apiKey u.group u.version u.kind) ∧
      f.severity.rank ≤ r.2.severity.rank := by
  unfold mayTake
  simp only [Bool.and_eq_true, List.any_eq_true, decide_eq_true_eq]

/-- Whether a usage finding may take a caller does not depend on the order of the rows. -/
theorem mayTake_eq_of_perm {rows' : List APIUsage} (h : rows.Perm rows') (f : Finding) (r : DeprecatedCall × Finding) :
    mayTake X rows' f r = mayTake X rows f r := by
  rw [Bool.eq_iff_iff, mayTake_iff, mayTake_iff]
  simp only [h.mem_iff]

/-- That a caller has one row and one finding to fold by does not depend on the order of either. -/
theorem TakenApart.perm (h : TakenApart X rows usage r) {rows' : List APIUsage} {usage' : List Finding}
    (hrows : rows.Perm rows') (husage : usage.Perm usage') : TakenApart X rows' usage' r := by
  intro f hf htakes
  rw [mayTake_eq_of_perm hrows] at htakes
  obtain ⟨hapi, hone⟩ := h f (husage.mem_iff.mpr hf) htakes
  exact ⟨fun u hu => hapi u (hrows.mem_iff.mpr hu), (husage.filter _).length_eq ▸ hone⟩

/-- A caller with one row and one finding to fold by folds to the index of the finding that may take it. -/
theorem TakenApart.foldIndex_eq_some_iff (h : TakenApart X rows usage r) (j : ℕ) :
    foldIndex X rows usage r.1 r.2 = some j ↔ ∃ f, usage[j]? = some f ∧ mayTake X rows f r = true := by
  unfold foldIndex foldTarget
  rw [Option.filter_eq_some_iff, Option.bind_eq_some_iff]
  constructor
  · rintro ⟨⟨u, hu, hlast⟩, hsevere⟩
    obtain ⟨f, hf, hkey⟩ := getElem?_of_lastIdx hlast
    rw [hf, Option.any_some, decide_eq_true_eq] at hsevere
    refine ⟨f, hf, mayTake_iff.mpr ⟨⟨u, List.mem_of_find?_eq_some hu, ?_, of_decide_eq_true hkey⟩, hsevere⟩⟩
    exact List.find?_some (p := fun u : APIUsage => u.goesBy X r.1) hu
  · rintro ⟨f, hf, htakes⟩
    obtain ⟨⟨u, hu, hgoes, -⟩, hsevere⟩ := mayTake_iff.mp htakes
    obtain ⟨hapi, hone⟩ := h f (List.mem_of_getElem? hf) htakes
    -- The first row of the resource has the same API, and the last finding of the API is the only one.
    obtain ⟨v, hv⟩ : ∃ v, rows.find? (·.goesBy X r.1) = some v :=
      Option.isSome_iff_exists.mp (List.find?_isSome.mpr ⟨u, hu, hgoes⟩)
    have hvapi := hapi v (List.mem_of_find?_eq_some hv) (List.find?_some (p := fun u : APIUsage => u.goesBy X r.1) hv)
    obtain ⟨i, hi⟩ := lastIdx_isSome (p := fun g : Finding => decide (keyAPI g.key = keyAPI f.key)) (List.mem_of_getElem? hf)
      (decide_eq_true rfl)
    obtain ⟨g, hg, hgkey⟩ := getElem?_of_lastIdx hi
    have hij : i = j := idx_unique hone hg hf hgkey (decide_eq_true rfl)
    refine ⟨⟨v, hv, ?_⟩, ?_⟩
    · rw [hvapi, hi, hij]
    · rw [hf]
      simpa using hsevere

end Apart

end UpgradeScope
