import UpgradeScope.Lib.Sorting

/-!
# Lists in another order

What a program reads off a list that does not depend on the order of its elements: a search that at
most one element answers (`find?_eq_of_perm`), the greatest element of a loop
(`pick_eq_of_perm`), and
lists whose elements are themselves reordered inside (`Reordered`), as the records of a document are
when every list of it is shuffled.
-/

namespace Sorting

variable {α β γ : Type}

/-! ## Searches -/

/-- A search that at most one element answers does not depend on the order. -/
theorem find?_eq_of_perm {p : α → Bool} {l l' : List α} (h : l.Perm l')
    (huniq : ∀ a ∈ l, ∀ b ∈ l, p a = true → p b = true → a = b) : l.find? p = l'.find? p := by
  cases hl : l.find? p with
  | none =>
    rw [List.find?_eq_none] at hl
    exact (List.find?_eq_none.mpr fun a ha => hl a (h.mem_iff.mpr ha)).symm
  | some a =>
    have ha : a ∈ l := List.mem_of_find?_eq_some hl
    have hpa : p a = true := List.find?_some hl
    cases hl' : l'.find? p with
    | none =>
      rw [List.find?_eq_none] at hl'
      exact absurd hpa (hl' a (h.mem_iff.mp ha))
    | some b =>
      have hb : b ∈ l := h.mem_iff.mpr (List.mem_of_find?_eq_some hl')
      rw [huniq a ha b hb hpa (List.find?_some hl')]

/-- A search from the end of a list finds the same in any order of it, where one element at most has the property. -/
theorem find?_reverse_eq_of_perm {p : α → Bool} {l l' : List α} (h : l.Perm l')
    (huniq : ∀ a ∈ l, ∀ b ∈ l, p a = true → p b = true → a = b) :
    l.reverse.find? p = l'.reverse.find? p := by
  refine find?_eq_of_perm (((List.reverse_perm l).trans h).trans (List.reverse_perm l').symm) ?_
  intro a ha b hb
  exact huniq a (List.mem_reverse.mp ha) b (List.mem_reverse.mp hb)

/-- An element of a list without two elements of one key is the element of its key. -/
theorem eq_of_key_eq {κ : Type} {key : α → κ} {l : List α} (h : (l.map key).Nodup) {a b : α}
    (ha : a ∈ l) (hb : b ∈ l) (hk : key a = key b) : a = b :=
  List.inj_on_of_nodup_map h ha hb hk

/-- A predicate that some element of a list satisfies, in any order. -/
theorem any_eq_of_perm {p : α → Bool} {l l' : List α} (h : l.Perm l') : l.any p = l'.any p := by
  rw [Bool.eq_iff_iff, List.any_eq_true, List.any_eq_true]
  constructor
  · rintro ⟨a, ha, hp⟩
    exact ⟨a, h.mem_iff.mp ha, hp⟩
  · rintro ⟨a, ha, hp⟩
    exact ⟨a, h.mem_iff.mpr ha, hp⟩

/-- A list of at most one element has one order. -/
theorem eq_of_perm_of_length_le_one {l l' : List α} (h : l.Perm l') (hle : l.length ≤ 1) : l = l' := by
  match l with
  | [] => exact h.nil_eq
  | [a] => exact (List.singleton_perm.mp h)
  | a :: b :: l => simp at hle

/-- At most one element of a list without two elements of one key has the key that a predicate asks for. -/
theorem length_filter_key_le_one {κ : Type} {key : α → κ} {p : κ → Bool}
    (hp : ∀ a b, p a = true → p b = true → a = b) {l : List α} (h : (l.map key).Nodup) :
    (l.filter fun a => p (key a)).length ≤ 1 := by
  have hnodup : ((l.filter fun a => p (key a)).map key).Nodup := (List.filter_sublist.map key).nodup h
  have hall : ∀ a ∈ l.filter fun a => p (key a), p (key a) = true := fun a ha => (List.mem_filter.mp ha).2
  generalize (l.filter fun a => p (key a)) = m at hnodup hall ⊢
  match m with
  | [] => simp
  | [a] => simp
  | a :: b :: m =>
    have hab : key a = key b := hp _ _ (hall a (by simp)) (hall b (by simp))
    simp [hab] at hnodup

/-- The elements of one key of a list without two of them, in any order. -/
theorem filter_key_eq_of_perm {κ : Type} {key : α → κ} {p : κ → Bool}
    (hp : ∀ a b, p a = true → p b = true → a = b) {l l' : List α} (h : l.Perm l') (hnodup : (l.map key).Nodup) :
    (l.filter fun a => p (key a)) = l'.filter fun a => p (key a) :=
  eq_of_perm_of_length_le_one (h.filter _) (length_filter_key_le_one hp hnodup)

/-- The first element of a list, read by a function that is the same on all of them. -/
theorem head?_map_eq_of_perm {f : α → β} {l l' : List α} (h : l.Perm l')
    (hf : ∀ a ∈ l, ∀ b ∈ l, f a = f b) : l.head?.map f = l'.head?.map f := by
  cases l with
  | nil => rw [h.nil_eq]
  | cons a l =>
    cases l' with
    | nil => exact absurd h.length_eq (by simp)
    | cons b l' =>
      have hb : b ∈ a :: l := h.mem_iff.mpr List.mem_cons_self
      simp [hf a List.mem_cons_self b hb]

/-- A loop over the groups of a list, whose turns do not depend on the order within a group. -/
theorem map_groupOn_eq_of_perm [LinearOrder β] {key : α → β} {F : β × List α → γ} {l l' : List α}
    (h : l.Perm l') (hF : ∀ k m', (l.filter fun a => key a = k).Perm m' →
      F (k, l.filter fun a => key a = k) = F (k, m')) :
    (groupOn key l).map F = (groupOn key l').map F := by
  unfold groupOn
  rw [sortedSet_eq_of_perm (h.map key), List.map_map, List.map_map]
  exact List.map_congr_left fun k _ => hF k _ (h.filter _)

/-- What a loop keeps of the sorted list does not depend on the order, where it keeps the same of elements of one key. -/
theorem filterMap_sortOn_eq_of_perm [LinearOrder β] {key : α → β} {f : α → Option γ} {l l' : List α} (h : l.Perm l')
    (hf : ∀ a ∈ l, ∀ b ∈ l, key a = key b → (f a).isSome = true → (f b).isSome = true → f a = f b) :
    (sortOn key l).filterMap f = (sortOn key l').filterMap f := by
  -- Beside its key, what is kept of an element is all there is to compare.
  have hkeyed : ∀ m : List α, (sortOn key m).filterMap f =
      ((sortOn key m).filterMap fun a => (f a).map fun c => (key a, c)).map Prod.snd := by
    intro m
    rw [List.map_filterMap]
    congr 1
    funext a
    cases f a <;> rfl
  have hpairwise : ∀ m : List α,
      ((sortOn key m).filterMap fun a => (f a).map fun c => (key a, c)).Pairwise fun x y => x.1 ≤ y.1 := by
    intro m
    refine List.pairwise_filterMap.mpr ((sortOn_pairwise key m).imp fun {a b} hab x hx y hy => ?_)
    obtain ⟨_, -, rfl⟩ := Option.map_eq_some_iff.mp hx
    obtain ⟨_, -, rfl⟩ := Option.map_eq_some_iff.mp hy
    exact hab
  have hsame := ((sortOn_perm key l).trans h).trans (sortOn_perm key l').symm
  rw [hkeyed, hkeyed]
  congr 1
  refine List.Perm.eq_of_pairwise (fun x y hx hy hxy hyx => ?_) (hpairwise l) (hpairwise l') (hsame.filterMap _)
  obtain ⟨a, ha, hx⟩ := List.mem_filterMap.mp hx
  obtain ⟨b, hb, hy⟩ := List.mem_filterMap.mp hy
  obtain ⟨c, hc, rfl⟩ := Option.map_eq_some_iff.mp hx
  obtain ⟨d, hd, rfl⟩ := Option.map_eq_some_iff.mp hy
  have hkey : key a = key b := le_antisymm hxy hyx
  have heq := hf a (mem_sortOn.mp ha) b (h.mem_iff.mpr (mem_sortOn.mp hb)) hkey (by simp [hc]) (by simp [hd])
  rw [hkey, Option.some.inj (hc.symm.trans (heq.trans hd))]

/-- Sorting a list without duplicates gives the sorted set of any list of its elements. -/
theorem sorted_eq_sortedSet [LinearOrder β] {l l' : List β} (h : l.Nodup) (hmem : ∀ a, a ∈ l ↔ a ∈ l') :
    sorted l = sortedSet l' := by
  have hperm : (sorted l).Perm (sortedSet l') := by
    refine (List.perm_ext_iff_of_nodup ((sortOn_perm id l).nodup_iff.mpr h) (nodup_sortedSet l')).mpr fun a => ?_
    rw [mem_sortOn, mem_sortedSet, hmem]
  refine hperm.eq_of_pairwise (fun a b _ _ => le_antisymm) (sortOn_pairwise id l) ?_
  exact List.Pairwise.sublist (List.dedup_sublist _) (sortOn_pairwise id l')

/-- The elements taken by one of some predicates that exclude each other, and the others, are the elements
of a list. -/
theorem perm_flatMap_filter_append (p : β → α → Bool) (l : List α) {bs : List β}
    (h : bs.Pairwise fun b b' => ∀ a ∈ l, p b a = true → p b' a = false) :
    (bs.flatMap (fun b => l.filter (p b)) ++ l.filter fun a => !bs.any (p · a)).Perm l := by
  induction bs generalizing l with
  | nil => simp
  | cons b bs ih =>
    obtain ⟨hb, hbs⟩ := List.pairwise_cons.mp h
    -- The others choose from the elements that the first predicate does not take.
    have hothers : bs.flatMap (fun b' => (l.filter fun a => !p b a).filter (p b')) =
        bs.flatMap fun b' => l.filter (p b') := by
      refine List.flatMap_congr fun b' hb' => ?_
      rw [List.filter_filter]
      refine List.filter_congr fun a ha => ?_
      cases hpa : p b a with
      | true => simp [hb b' hb' a ha hpa]
      | false => simp
    have hleft : (l.filter fun a => !p b a).filter (fun a => !bs.any (p · a)) =
        l.filter fun a => !(b :: bs).any (p · a) := by
      rw [List.filter_filter]
      refine List.filter_congr fun a _ => ?_
      simp [Bool.and_comm]
    have hrest := ih (l.filter fun a => !p b a)
      (hbs.imp fun hbb a ha => hbb a (List.mem_filter.mp ha).1)
    rw [hothers, hleft] at hrest
    rw [List.flatMap_cons, List.append_assoc]
    exact (hrest.append_left _).trans (List.filter_append_perm _ _)

/-- A reordering of the chosen images of a list comes from a reordering of the list. -/
theorem exists_perm_filterMap_eq {f : α → Option β} {l : List α} {m : List β} (h : (l.filterMap f).Perm m) :
    ∃ l', l.Perm l' ∧ l'.filterMap f = m := by
  have hall : List.Forall₂ (fun b a => f a = some b) (l.filterMap f) (l.filter fun a => (f a).isSome) := by
    clear h
    induction l with
    | nil => exact .nil
    | cons a l ih =>
      cases hfa : f a with
      | none => simpa [hfa] using ih
      | some b => simpa [hfa] using ih
  obtain ⟨l', hm, hperm⟩ := List.perm_comp_forall₂ h.symm hall
  refine ⟨l' ++ l.filter fun a => !(f a).isSome, ?_, ?_⟩
  · exact (List.filter_append_perm _ l).symm.trans (hperm.symm.append_right _)
  · have hrest : (l.filter fun a => !(f a).isSome).filterMap f = [] := by
      rw [List.filterMap_eq_nil_iff]
      intro a ha
      simpa using (List.mem_filter.mp ha).2
    rw [List.filterMap_append, hrest, List.append_nil]
    clear h hall hperm hrest
    induction hm with
    | nil => rfl
    | cons hab _ ih => rw [List.filterMap_cons, hab, ih]

/-- A reordering of the images of a list is the image of a reordering. -/
theorem exists_perm_map_eq {f : α → β} {l : List α} {m : List β} (h : (l.map f).Perm m) :
    ∃ l', l.Perm l' ∧ l'.map f = m := by
  rw [← List.filterMap_eq_map] at h ⊢
  exact exists_perm_filterMap_eq h

/-- A reordering of the chosen elements of a list is chosen from a reordering. -/
theorem exists_perm_filter_eq {p : α → Bool} {l m : List α} (h : (l.filter p).Perm m) :
    ∃ l', l.Perm l' ∧ l'.filter p = m := by
  rw [← List.filterMap_eq_filter] at h ⊢
  exact exists_perm_filterMap_eq h

/-- The block of blocks of different names whose elements a predicate takes. -/
theorem filter_flatMap_eq_block {p : β → Bool} {f : α → List β} {l : List α} (hnodup : l.Nodup) {x : α} (hx : x ∈ l)
    (hin : ∀ b ∈ f x, p b = true) (hout : ∀ y ∈ l, y ≠ x → ∀ b ∈ f y, p b = false) : (l.flatMap f).filter p = f x := by
  induction l with
  | nil => simp at hx
  | cons y l ih =>
    obtain ⟨hy, hl⟩ := List.nodup_cons.mp hnodup
    rw [List.flatMap_cons, List.filter_append]
    by_cases hyx : y = x
    · subst hyx
      have hrest : (l.flatMap f).filter p = [] := by
        rw [List.filter_eq_nil_iff]
        intro b hb
        obtain ⟨z, hz, hbz⟩ := List.mem_flatMap.mp hb
        have hzy : z ≠ y := fun he => hy (he ▸ hz)
        simp [hout z (List.mem_cons_of_mem _ hz) hzy b hbz]
      rw [hrest, List.append_nil, List.filter_eq_self.mpr hin]
    · have hnone : (f y).filter p = [] := by
        rw [List.filter_eq_nil_iff]
        intro b hb
        simp [hout y List.mem_cons_self hyx b hb]
      rw [hnone, List.nil_append]
      exact ih hl ((List.mem_cons.mp hx).resolve_left (Ne.symm hyx)) fun z hz => hout z (List.mem_cons_of_mem _ hz)

/-- Blocks of elements in another order, of which at most one has elements that a predicate takes. -/
theorem filter_flatMap_eq_of_perm {p : β → Bool} {f : α → List β} {l l' : List α} (h : l.Perm l') (hnodup : l.Nodup)
    (hone : ∀ x ∈ l, ∀ y ∈ l, ∀ b ∈ f x, ∀ c ∈ f y, p b = true → p c = true → x = y) :
    (l.flatMap f).filter p = (l'.flatMap f).filter p := by
  have hsplit : ∀ m : List α, (m.flatMap f).filter p = (m.filter fun x => (f x).any p).flatMap fun x => (f x).filter p := by
    intro m
    induction m with
    | nil => rfl
    | cons x m ih =>
      rw [List.flatMap_cons, List.filter_append, ih, List.filter_cons]
      cases hx : (f x).any p with
      | true => rw [if_pos rfl, List.flatMap_cons]
      | false =>
        have hnil : (f x).filter p = [] := by
          rw [List.filter_eq_nil_iff]
          intro b hb hpb
          rw [List.any_eq_false] at hx
          exact hx b hb hpb
        rw [hnil, List.nil_append]
        rfl
  -- At most one block is left, and a list of one element has one order.
  have hle : (l.filter fun x => (f x).any p).length ≤ 1 := by
    have hsub : (l.filter fun x => (f x).any p).Nodup := hnodup.filter _
    have hall : ∀ x ∈ l.filter fun x => (f x).any p, x ∈ l ∧ ∃ b ∈ f x, p b = true := fun x hx => by
      obtain ⟨hxl, hany⟩ := List.mem_filter.mp hx
      exact ⟨hxl, List.any_eq_true.mp hany⟩
    generalize (l.filter fun x => (f x).any p) = m at hsub hall
    match m with
    | [] => simp
    | [x] => simp
    | x :: y :: m =>
      obtain ⟨hx, b, hb, hpb⟩ := hall x (by simp)
      obtain ⟨hy, c, hc, hpc⟩ := hall y (by simp)
      have hxy := hone x hx y hy b hb c hc hpb hpc
      simp [hxy] at hsub
  rw [hsplit, hsplit, eq_of_perm_of_length_le_one (h.filter _) hle]

/-! ## Filters of what is made of lists -/

/-- Where only one element's image passes a filter, it alone is left. -/
theorem filter_mapIdx_of_one {p : β → Bool} {l : List α} {f : ℕ → α → β} {j : ℕ} {a : α} (ha : l[j]? = some a)
    (hother : ∀ i b, l[i]? = some b → i ≠ j → p (f i b) = false) : (l.mapIdx f).filter p = [f j a].filter p := by
  induction l generalizing f j with
  | nil => simp at ha
  | cons x l ih =>
    rw [List.mapIdx_cons, List.filter_cons]
    cases j with
    | zero =>
      obtain rfl : x = a := by simpa using ha
      have hrest : (l.mapIdx fun i => f (i + 1)).filter p = [] := by
        refine List.filter_eq_nil_iff.mpr fun b hb => ?_
        obtain ⟨i, hi, rfl⟩ := List.mem_mapIdx.mp hb
        have hfalse := hother (i + 1) l[i] (by simp [hi]) (by omega)
        simp [hfalse]
      rw [hrest, List.filter_singleton]
      cases p (f 0 x) <;> rfl
    | succ j =>
      have hfirst := hother 0 x (by simp) (by omega)
      simp only [hfirst, Bool.false_eq_true, if_false]
      exact ih (by simpa using ha) fun i b hb hne => hother (i + 1) b (by simpa using hb) (by omega)

/-- What is made of the elements and their places, mapped. -/
theorem map_mapIdx (l : List α) (f : ℕ → α → β) (g : β → γ) :
    (l.mapIdx f).map g = l.mapIdx fun i a => g (f i a) :=
  List.ext_getElem (by simp) (by simp)

/-- What adds nothing may be left out. -/
theorem flatMap_filter_of_nil {p : α → Bool} {f : α → List β} (h : ∀ a, p a = false → f a = []) (l : List α) :
    (l.filter p).flatMap f = l.flatMap f := by
  induction l with
  | nil => rfl
  | cons a l ih =>
    cases hp : p a with
    | false => rw [List.filter_cons_of_neg (by simp [hp]), List.flatMap_cons, h a hp, List.nil_append, ih]
    | true => rw [List.filter_cons_of_pos hp, List.flatMap_cons, List.flatMap_cons, ih]

/-- What is of a kind among what elements make, where an element makes only of that kind or nothing of it. -/
theorem filter_flatMap_of_kind {f : α → List β} {p : β → Bool} {q : α → Bool}
    (h : ∀ a, ∀ b ∈ f a, p b = q a) (l : List α) : (l.flatMap f).filter p = (l.filter q).flatMap f := by
  induction l with
  | nil => rfl
  | cons a l ih =>
    rw [List.flatMap_cons, List.filter_append, ih, List.filter_cons]
    cases hq : q a with
    | true =>
      have hall : (f a).filter p = f a := List.filter_eq_self.mpr fun b hb => (h a b hb).trans hq
      rw [hall]
      rfl
    | false =>
      have hnone : (f a).filter p = [] := List.filter_eq_nil_iff.mpr fun b hb => by simp [h a b hb, hq]
      rw [hnone]
      rfl

/-! ## The greatest element of a loop -/

section Pick

variable [DecidableEq α] {unset : α} {beats : α → α → Bool}

/-- The loop that keeps an element that beats the one it has; `unset` is having none. -/
def pick (unset : α) (beats : α → α → Bool) (l : List α) : α :=
  l.foldl (fun best a => if best = unset ∨ beats a best then a else best) unset

/-- The element beats every other one of the list, and none beats it. -/
def Greatest (beats : α → α → Bool) (l : List α) (a : α) : Prop :=
  a ∈ l ∧ ∀ b ∈ l, b ≠ a → beats a b = true ∧ beats b a = false

omit [DecidableEq α] in
/-- The greatest element does not depend on the order of the list. -/
theorem Greatest.perm {l l' : List α} {a : α} (h : Greatest beats l a) (hperm : l.Perm l') : Greatest beats l' a :=
  ⟨hperm.mem_iff.mp h.1, fun b hb => h.2 b (hperm.mem_iff.mpr hb)⟩

/-- The loop ends with the greatest element, wherever it stands, unless it is the one that stands for having none. -/
theorem pick_eq_of_greatest {l : List α} {a : α} (hset : a ≠ unset) (h : Greatest beats l a) :
    pick unset beats l = a := by
  obtain ⟨ha, hbeats⟩ := h
  -- Before the loop meets `a` it has nothing or an element of the list; afterwards it has `a`.
  suffices hloop : ∀ (m : List α) (best : α), (∀ b ∈ m, b ∈ l) → (best = unset ∨ best ∈ l) →
      (best = a ∨ a ∈ m) →
      m.foldl (fun best a => if best = unset ∨ beats a best then a else best) best = a from
    hloop l unset (fun _ => id) (.inl rfl) (.inr ha)
  intro m
  induction m with
  | nil =>
    intro best _ _ hor
    simpa using hor
  | cons x m ih =>
    intro best hm hbest hor
    rw [List.foldl_cons]
    have hx : x ∈ l := hm x List.mem_cons_self
    have hnext : ∀ b ∈ m, b ∈ l := fun b hb => hm b (List.mem_cons_of_mem _ hb)
    split_ifs with hif
    · refine ih x hnext (.inr hx) ?_
      rcases hor with rfl | hor
      · -- `a` is beaten by nothing, so `x` is `a` itself.
        left
        by_contra hxa
        rcases hif with hunset | hif
        · exact hset hunset
        · rw [(hbeats x hx hxa).2] at hif
          simp at hif
      · rcases List.mem_cons.mp hor with rfl | hor
        · exact .inl rfl
        · exact .inr hor
    · rw [not_or, Bool.not_eq_true] at hif
      have hbest' : best ∈ l := hbest.resolve_left hif.1
      refine ih best hnext (.inr hbest') ?_
      rcases hor with rfl | hor
      · exact .inl rfl
      · rcases List.mem_cons.mp hor with rfl | hor
        · left
          by_contra hba
          rw [(hbeats best hbest' hba).1] at hif
          simp at hif
        · exact .inr hor

/-- Where a list has a greatest element that does not stand for having none, or at most one element, the loop does
not depend on its order. -/
theorem pick_eq_of_perm {l l' : List α} (h : l.Perm l')
    (hgreatest : l.length ≤ 1 ∨ ∃ a, a ≠ unset ∧ Greatest beats l a) :
    pick unset beats l = pick unset beats l' := by
  rcases hgreatest with hone | ⟨a, hset, ha⟩
  · rw [eq_of_perm_of_length_le_one h hone]
  · rw [pick_eq_of_greatest hset ha, pick_eq_of_greatest hset (ha.perm h)]

/-- What the loop ends with is nothing or an element. -/
theorem pick_mem (l : List α) : pick unset beats l = unset ∨ pick unset beats l ∈ l := by
  suffices hloop : ∀ (m : List α) (best : α), (∀ b ∈ m, b ∈ l) → (best = unset ∨ best ∈ l) →
      (m.foldl (fun best a => if best = unset ∨ beats a best then a else best) best = unset ∨
        m.foldl (fun best a => if best = unset ∨ beats a best then a else best) best ∈ l) from
    hloop l unset (fun _ => id) (.inl rfl)
  intro m
  induction m with
  | nil => exact fun best _ hbest => hbest
  | cons x m ih =>
    intro best hm hbest
    rw [List.foldl_cons]
    refine ih _ (fun b hb => hm b (List.mem_cons_of_mem _ hb)) ?_
    split_ifs
    · exact .inr (hm x List.mem_cons_self)
    · exact hbest

/-- The last turn of the loop. -/
theorem pick_concat (m : List α) (a : α) : pick unset beats (m ++ [a]) =
    if pick unset beats m = unset ∨ beats a (pick unset beats m) then a else pick unset beats m := by
  unfold pick
  rw [List.foldl_append]
  rfl

/-- A loop that ends at the element that stands for having none, which beats the others, has none. -/
theorem pick_concat_unset {m : List α} (h : Greatest beats (m ++ [unset]) unset) :
    pick unset beats (m ++ [unset]) = unset := by
  rw [pick_concat]
  split_ifs with hif
  · rfl
  · rw [not_or] at hif
    have hmem := (pick_mem m).resolve_left hif.1
    exact absurd (h.2 _ (List.mem_append_left _ hmem) hif.1).1 hif.2

/-- A loop that starts with an element ends with it or with one of the list. -/
theorem foldl_pick_mem (beats : α → α → Bool) (l : List α) {a : α} (ha : a ≠ unset) (hset : unset ∉ l) :
    l.foldl (fun best a => if best = unset ∨ beats a best then a else best) a ∈ a :: l := by
  induction l generalizing a with
  | nil => simp
  | cons x l ih =>
    obtain ⟨hx, hl⟩ := not_or.mp fun h => hset (List.mem_cons.mpr h)
    rw [List.foldl_cons]
    split_ifs
    · exact List.mem_cons_of_mem _ (ih (Ne.symm hx) hl)
    · rcases List.mem_cons.mp (ih ha hl) with h | h
      · rw [h]
        exact List.mem_cons_self
      · exact List.mem_cons_of_mem _ (List.mem_cons_of_mem _ h)

/-- A loop over some elements ends with one of them. -/
theorem pick_mem_of_ne_nil (beats : α → α → Bool) {l : List α} (hne : l ≠ []) (hset : unset ∉ l) : pick unset beats l ∈ l := by
  cases l with
  | nil => exact absurd rfl hne
  | cons a l =>
    obtain ⟨ha, hl⟩ := not_or.mp fun h => hset (List.mem_cons.mpr h)
    show l.foldl _ (if unset = unset ∨ _ then a else unset) ∈ _
    rw [if_pos (.inl rfl)]
    exact foldl_pick_mem beats l (Ne.symm ha) hl

/-- The loop passes over what does not beat the element it has. -/
theorem foldl_pick_of_not_beats {l : List α} {a : α} (ha : a ≠ unset) (h : ∀ b ∈ l, beats b a = false) :
    l.foldl (fun best a => if best = unset ∨ beats a best then a else best) a = a := by
  induction l with
  | nil => rfl
  | cons x l ih =>
    rw [List.foldl_cons, if_neg, ih fun b hb => h b (List.mem_cons_of_mem _ hb)]
    simp [ha, h x List.mem_cons_self]

/-- What the loop ends with in every order beats the others: an element that it does not beat, met first, would keep
it from ever being taken. -/
theorem greatest_of_pick (hasymm : ∀ a b, beats a b = true → beats b a = false) {l : List α} (hne : l ≠ [])
    (hset : unset ∉ l) (h : ∀ l', l.Perm l' → pick unset beats l' = pick unset beats l) :
    Greatest beats l (pick unset beats l) := by
  have hmem := pick_mem_of_ne_nil beats hne hset
  set v := pick unset beats l with hv
  refine ⟨hmem, fun w hw hwv => ?_⟩
  suffices hbeats : beats v w = true from ⟨hbeats, hasymm v w hbeats⟩
  by_contra hnot
  have hwset : w ≠ unset := fun he => hset (he ▸ hw)
  -- `w` first, then every `v`, then the others.
  have hperm : l.Perm (w :: ((l.erase w).filter (· = v) ++ (l.erase w).filter fun a => !decide (a = v))) :=
    (List.perm_cons_erase hw).trans ((List.filter_append_perm _ _).symm.cons w)
  have hrest : unset ∉ (l.erase w).filter fun a => !decide (a = v) := fun hu =>
    hset (List.mem_of_mem_erase (List.mem_filter.mp hu).1)
  have hpick : pick unset beats (w :: ((l.erase w).filter (· = v) ++ (l.erase w).filter fun a => !decide (a = v))) =
      ((l.erase w).filter fun a => !decide (a = v)).foldl
        (fun best a => if best = unset ∨ beats a best then a else best) w := by
    unfold pick
    rw [List.foldl_cons, if_pos (.inl rfl), List.foldl_append, foldl_pick_of_not_beats hwset]
    intro b hb
    rw [of_decide_eq_true (List.mem_filter.mp hb).2]
    simpa using hnot
  have hlast := foldl_pick_mem beats ((l.erase w).filter fun a => !decide (a = v)) hwset hrest
  rw [← hpick, h _ hperm] at hlast
  rcases List.mem_cons.mp hlast with hvw | hvrest
  · exact hwv hvw.symm
  · simpa using (List.mem_filter.mp hvrest).2

/-- A loop that passes over the element that stands for having none is the loop over the others. -/
theorem foldl_known_eq_pick (beats : α → α → Bool) (l : List α) :
    l.foldl (fun best a => if a ≠ unset ∧ (best = unset ∨ beats a best) then a else best) unset =
      pick unset beats (l.filter (· ≠ unset)) := by
  suffices hloop : ∀ (l : List α) (o : α),
      l.foldl (fun best a => if a ≠ unset ∧ (best = unset ∨ beats a best) then a else best) o =
        (l.filter (· ≠ unset)).foldl (fun best a => if best = unset ∨ beats a best then a else best) o from
    hloop l unset
  intro l
  induction l with
  | nil => exact fun _ => rfl
  | cons a l ih =>
    intro o
    rw [List.foldl_cons, ih, List.filter_cons]
    by_cases ha : a = unset
    · simp [ha]
    · simp [ha]

/-- The relation orders the elements of a list: of two of them one beats the other, and it is transitive. -/
structure TotalOn (beats : α → α → Bool) (l : List α) : Prop where
  /-- Of two elements exactly one beats the other. -/
  total : ∀ a ∈ l, ∀ b ∈ l, a ≠ b → beats a b = !beats b a
  /-- What beats an element beats what it beats. -/
  trans : ∀ a ∈ l, ∀ b ∈ l, ∀ c ∈ l, beats a b = true → beats b c = true → beats a c = true

omit [DecidableEq α] in
/-- A relation that orders a list orders its sublists. -/
theorem TotalOn.subset {l l' : List α} (h : TotalOn beats l) (hsub : l' ⊆ l) : TotalOn beats l' := by
  refine ⟨fun a ha b hb => ?_, fun a ha b hb c hc => ?_⟩
  · exact h.total a (hsub ha) b (hsub hb)
  · exact h.trans a (hsub ha) b (hsub hb) c (hsub hc)

/-- A list with an element has a greatest one. -/
theorem TotalOn.exists_greatest {l : List α} (h : TotalOn beats l) (hne : l ≠ []) : ∃ a, Greatest beats l a := by
  induction l with
  | nil => exact absurd rfl hne
  | cons x l ih =>
    have htail : TotalOn beats l := h.subset fun a => List.mem_cons_of_mem _
    by_cases hl : l = []
    · subst hl
      refine ⟨x, List.mem_cons_self, fun b hb hbx => ?_⟩
      exact absurd (List.mem_singleton.mp hb) hbx
    · obtain ⟨a, ha, hbeats⟩ := ih htail hl
      have ha' : a ∈ x :: l := List.mem_cons_of_mem _ ha
      by_cases hxa : x = a
      · subst hxa
        refine ⟨x, ha', fun b hb hbx => ?_⟩
        exact hbeats b ((List.mem_cons.mp hb).resolve_left hbx) hbx
      · have htotal := h.total a ha' x List.mem_cons_self (Ne.symm hxa)
        cases hax : beats a x with
        | true =>
          refine ⟨a, ha', fun b hb hba => ?_⟩
          rcases List.mem_cons.mp hb with rfl | hb
          · exact ⟨hax, by simpa [hax] using htotal⟩
          · exact hbeats b hb hba
        | false =>
          -- The new element beats the greatest of the others, so it beats all of them.
          have hbx : beats x a = true := by simpa [hax] using htotal
          refine ⟨x, List.mem_cons_self, fun b hb hne' => ?_⟩
          have hb' : b ∈ l := (List.mem_cons.mp hb).resolve_left hne'
          have hxb : beats x b = true := by
            by_cases hba : b = a
            · rw [hba, hbx]
            · exact h.trans x List.mem_cons_self a ha' b hb hbx (hbeats b hb' hba).1
          have htotal' := h.total x List.mem_cons_self b hb (Ne.symm hne')
          exact ⟨hxb, by simpa [hxb] using htotal'⟩

end Pick

/-! ## Records that are reordered inside -/

/-- Loops over a list and over its elements changed one by one are equal when their turns are. -/
theorem flatMap_eq_of_forall₂ {R : α → β → Prop} {l : List α} {l' : List β} (h : List.Forall₂ R l l')
    {f : α → List γ} {g : β → List γ} (hfg : ∀ a ∈ l, ∀ b, R a b → f a = g b) : l.flatMap f = l'.flatMap g := by
  induction h with
  | nil => rfl
  | cons hab _ ih =>
    rw [List.flatMap_cons, List.flatMap_cons, hfg _ List.mem_cons_self _ hab,
      ih fun a ha => hfg a (List.mem_cons_of_mem _ ha)]

/-- The second list is the first in another order, each element changed as `R` says. -/
def Reordered (R : α → β → Prop) (l : List α) (l' : List β) : Prop :=
  ∃ m, l.Perm m ∧ List.Forall₂ R m l'

namespace Reordered

/-- Loops over a list and over its reordering give the same elements when their turns do. -/
theorem flatMap {R : α → β → Prop} {l : List α} {l' : List β} (h : Reordered R l l') {f : α → List γ}
    {g : β → List γ} (hfg : ∀ a ∈ l, ∀ b, R a b → (f a).Perm (g b)) :
    (l.flatMap f).Perm (l'.flatMap g) := by
  obtain ⟨m, hperm, hall⟩ := h
  refine (hperm.flatMap_right f).trans ?_
  have hm : ∀ a ∈ m, ∀ b, R a b → (f a).Perm (g b) := fun a ha => hfg a (hperm.mem_iff.mpr ha)
  clear hperm
  induction hall with
  | nil => simp
  | cons hab _ ih =>
    rw [List.flatMap_cons, List.flatMap_cons]
    exact (hm _ List.mem_cons_self _ hab).append (ih fun c hc => hm c (List.mem_cons_of_mem _ hc))

end Reordered

end Sorting
