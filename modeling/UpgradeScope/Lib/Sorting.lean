import Mathlib.Data.List.Sort
import Mathlib.Data.List.Destutter
import Mathlib.Data.Prod.Lex
import Mathlib.Tactic

/-!
# Stable sorting by a key, and what it forgets

`sortOn key` sorts a list stably by a key in a linear order, as Go's `sort.SliceStable` and
`slices.SortStableFunc` do. A program's output is independent of the order of its input when every
list it reads passes through such a sort, so the results here say what the sort forgets: two lists
with the same elements sort to the same list when the key tells their elements apart
(`sortOn_eq_of_perm`), and in general exactly when they agree on each key's own sublist
(`sortOn_eq_of_filter`). `distinctOn` and `groupOn` are the other patterns: a loop that skips keys it
has seen, and a map built from a list and read in the order of its keys.
-/

namespace Sorting

variable {α β γ : Type} [LinearOrder β]

/-- The list sorted stably by a key. -/
def sortOn (key : α → β) (l : List α) : List α := l.insertionSort fun a b => key a ≤ key b

instance total_key (key : α → β) : Std.Total fun a b : α => key a ≤ key b := ⟨fun _ _ => le_total _ _⟩

instance isTrans_key (key : α → β) : IsTrans α fun a b : α => key a ≤ key b := ⟨fun _ _ _ => le_trans⟩

/-- Sorting keeps the elements. -/
theorem sortOn_perm (key : α → β) (l : List α) : (sortOn key l).Perm l :=
  List.perm_insertionSort _ l

/-- Sorting orders the keys. -/
theorem sortOn_pairwise (key : α → β) (l : List α) :
    (sortOn key l).Pairwise fun a b => key a ≤ key b :=
  List.pairwise_insertionSort _ l

/-- An element of the sorted list is an element of the list. -/
@[simp] theorem mem_sortOn {key : α → β} {l : List α} {a : α} : a ∈ sortOn key l ↔ a ∈ l :=
  (sortOn_perm key l).mem_iff

/-- Sorting keeps the number of elements. -/
@[simp] theorem length_sortOn (key : α → β) (l : List α) : (sortOn key l).length = l.length :=
  (sortOn_perm key l).length_eq

/-- The sorted empty list is empty. -/
@[simp] theorem sortOn_nil (key : α → β) : sortOn key ([] : List α) = [] := rfl

/-- A sorted list is left as it is. -/
theorem sortOn_of_pairwise {key : α → β} {l : List α} (h : l.Pairwise fun a b => key a ≤ key b) :
    sortOn key l = l :=
  List.Pairwise.insertionSort_eq h

/-- Inserting by keys that compare alike. -/
theorem orderedInsert_congr_key [LinearOrder γ] {key : α → β} {key' : α → γ} {a : α}
    {l : List α} (h : ∀ b ∈ l, (key a ≤ key b ↔ key' a ≤ key' b)) :
    l.orderedInsert (fun a b => key a ≤ key b) a = l.orderedInsert (fun a b => key' a ≤ key' b) a := by
  induction l with
  | nil => rfl
  | cons b l ih =>
    rw [List.orderedInsert_cons, List.orderedInsert_cons, ih fun c hc => h c (List.mem_cons_of_mem b hc)]
    exact if_congr (h b List.mem_cons_self) rfl rfl

/-- Sorting by keys that compare alike. -/
theorem sortOn_congr_key [LinearOrder γ] {key : α → β} {key' : α → γ} {l : List α}
    (h : ∀ a ∈ l, ∀ b ∈ l, (key a ≤ key b ↔ key' a ≤ key' b)) : sortOn key l = sortOn key' l := by
  induction l with
  | nil => rfl
  | cons a l ih =>
    have htail := ih fun b hb c hc => h b (List.mem_cons_of_mem a hb) c (List.mem_cons_of_mem a hc)
    show (sortOn key l).orderedInsert _ a = (sortOn key' l).orderedInsert _ a
    rw [htail]
    refine orderedInsert_congr_key fun b hb => ?_
    exact h a List.mem_cons_self b (List.mem_cons_of_mem a (mem_sortOn.mp hb))

/-- A list that is sorted only when it has to be. -/
theorem ite_sortOn (key : α → β) (l : List α) :
    (if 1 < l.length ∧ ¬ l.Pairwise (fun a b => key a ≤ key b) then sortOn key l else l) = sortOn key l := by
  split_ifs with h
  · rfl
  · refine (sortOn_of_pairwise ?_).symm
    by_contra hnot
    -- A list that is not in order has two elements.
    match l with
    | [] => simp at hnot
    | [a] => simp at hnot
    | a :: b :: l => exact h ⟨by simp, hnot⟩

omit [LinearOrder β] in
/-- Lists with equal images agree element by element. -/
theorem forall₂_of_map_eq {f : α → γ} {g : β → γ} {l : List α} {l' : List β} (h : l.map f = l'.map g) :
    List.Forall₂ (fun a b => f a = g b) l l' := by
  rw [← List.forall₂_eq_eq_eq, List.forall₂_map_left_iff, List.forall₂_map_right_iff] at h
  exact h

/-- Two lists with the same elements sort to the same list when no two different elements share a
key. -/
theorem sortOn_eq_of_perm {key : α → β} {l l' : List α}
    (hinj : ∀ a ∈ l, ∀ b ∈ l, key a = key b → a = b) (h : l.Perm l') :
    sortOn key l = sortOn key l' := by
  refine List.Perm.eq_of_pairwise ?_ (sortOn_pairwise key l) (sortOn_pairwise key l')
    (((sortOn_perm key l).trans h).trans (sortOn_perm key l').symm)
  intro a b ha hb hab hba
  have hb' : b ∈ l := h.mem_iff.mpr (mem_sortOn.mp hb)
  exact hinj a (mem_sortOn.mp ha) b hb' (le_antisymm hab hba)

/-- Inserting an element puts it before the elements of its own key. -/
theorem filter_orderedInsert (key : α → β) (k : β) (a : α) (l : List α)
    (hl : l.Pairwise fun a b => key a ≤ key b) :
    (l.orderedInsert (fun a b => key a ≤ key b) a).filter (fun x => key x = k) =
      (a :: l).filter fun x => key x = k := by
  induction l with
  | nil => rfl
  | cons b l ih =>
    rw [List.orderedInsert_cons]
    split_ifs with hab
    · rfl
    · -- `b` sorts strictly before `a`, so at most one of them has the key `k`.
      have hlt : key b < key a := not_le.mp hab
      rw [List.filter_cons, ih hl.of_cons]
      by_cases hb : key b = k
      · have ha : key a ≠ k := by rw [← hb]; exact hlt.ne'
        simp [hb, ha]
      · simp [List.filter_cons, hb]

/-- The sort is stable: the elements of one key keep their order. -/
theorem filter_sortOn (key : α → β) (k : β) (l : List α) :
    (sortOn key l).filter (fun x => key x = k) = l.filter fun x => key x = k := by
  induction l with
  | nil => rfl
  | cons a l ih =>
    show ((sortOn key l).orderedInsert _ a).filter _ = _
    rw [filter_orderedInsert key k a _ (sortOn_pairwise key l), List.filter_cons, ih]
    rw [List.filter_cons]

/-- Two lists sorted by a key are equal when they agree on the elements of each key. -/
theorem eq_of_pairwise_of_filter {key : α → β} : ∀ {l l' : List α},
    l.Pairwise (fun a b => key a ≤ key b) → l'.Pairwise (fun a b => key a ≤ key b) →
    (∀ k, l.filter (fun x => key x = k) = l'.filter fun x => key x = k) → l = l'
  | [], l', _, _, h => by
    rw [eq_comm, List.eq_nil_iff_forall_not_mem]
    intro a ha
    have hmem : a ∈ l'.filter fun x => key x = key a := List.mem_filter.mpr ⟨ha, by simp⟩
    simp [← h (key a)] at hmem
  | a :: l, l', hl, hl', h => by
    have hhead := h (key a)
    rw [List.filter_cons, if_pos (by simp)] at hhead
    cases l' with
    | nil => simp at hhead
    | cons b l' =>
      have hmemb : a ∈ b :: l' := by
        have : a ∈ (b :: l').filter fun x => key x = key a := by rw [← hhead]; simp
        exact (List.mem_filter.mp this).1
      have hmema : b ∈ a :: l := by
        have : b ∈ (a :: l).filter fun x => key x = key b := by
          rw [h (key b)]; simp
        exact (List.mem_filter.mp this).1
      -- The heads are both least, so they have one key, and then the first of its sublist.
      have hba : key b ≤ key a := by
        rcases List.mem_cons.mp hmemb with rfl | hm
        · exact le_rfl
        · exact List.rel_of_pairwise_cons hl' hm
      have hab : key a ≤ key b := by
        rcases List.mem_cons.mp hmema with rfl | hm
        · exact le_rfl
        · exact List.rel_of_pairwise_cons hl hm
      have hk : key b = key a := le_antisymm hba hab
      rw [List.filter_cons, if_pos (by simp [hk])] at hhead
      obtain ⟨rfl, -⟩ := List.cons.inj hhead
      congr 1
      refine eq_of_pairwise_of_filter hl.of_cons hl'.of_cons fun k => ?_
      have hkk := h k
      by_cases hak : key a = k
      · rw [List.filter_cons, if_pos (by simp [hak]), List.filter_cons, if_pos (by simp [hak])] at hkk
        exact (List.cons.inj hkk).2
      · rwa [List.filter_cons, if_neg (by simp [hak]), List.filter_cons, if_neg (by simp [hak])] at hkk

/-- Two lists that agree on the elements of each key sort to the same list. -/
theorem sortOn_eq_of_filter {key : α → β} {l l' : List α}
    (h : ∀ k, l.filter (fun x => key x = k) = l'.filter fun x => key x = k) :
    sortOn key l = sortOn key l' := by
  refine eq_of_pairwise_of_filter (sortOn_pairwise key l) (sortOn_pairwise key l') fun k => ?_
  rw [filter_sortOn, filter_sortOn, h]

/-- `sort.Strings`: the list sorted. -/
def sorted (l : List β) : List β := sortOn id l

/-- Sorting forgets the order of the list. -/
theorem sorted_eq_of_perm {l l' : List β} (h : l.Perm l') : sorted l = sorted l' :=
  sortOn_eq_of_perm (fun _ _ _ _ => id) h

/-- An element of the sorted list is an element of the list. -/
@[simp] theorem mem_sorted {l : List β} {a : β} : a ∈ sorted l ↔ a ∈ l := mem_sortOn

/-- The sorted list without its duplicates: `slices.Sort` and then `slices.Compact`. -/
def sortedSet (l : List β) : List β := (sorted l).dedup

/-- The sorted set forgets the order of the list. -/
theorem sortedSet_eq_of_perm {l l' : List β} (h : l.Perm l') : sortedSet l = sortedSet l' := by
  unfold sortedSet
  rw [sorted_eq_of_perm h]

/-- An element of the sorted set is an element of the list. -/
@[simp] theorem mem_sortedSet {l : List β} {a : β} : a ∈ sortedSet l ↔ a ∈ l := by
  simp [sortedSet]

/-- The sorted set has no duplicates. -/
theorem nodup_sortedSet (l : List β) : (sortedSet l).Nodup := List.nodup_dedup _

/-! ## The first element of each key -/

/-- The loop that keeps an element unless its key was kept before, with the keys kept so far. -/
def distinctFrom {κ : Type} [DecidableEq κ] (key : α → κ) : List κ → List α → List α
  | _, [] => []
  | kept, a :: l =>
    if key a ∈ kept then distinctFrom key kept l else a :: distinctFrom key (key a :: kept) l

/-- The first element of each key, in the list's order. -/
def distinctOn {κ : Type} [DecidableEq κ] (key : α → κ) (l : List α) : List α :=
  distinctFrom key [] l

section Distinct

variable {κ : Type} [DecidableEq κ] {key : α → κ}

/-- The elements kept are elements of the list whose key was not kept before. -/
theorem mem_distinctFrom {kept : List κ} {l : List α} {a : α} (h : a ∈ distinctFrom key kept l) :
    a ∈ l ∧ key a ∉ kept := by
  induction l generalizing kept with
  | nil => simp [distinctFrom] at h
  | cons b l ih =>
    rw [distinctFrom] at h
    split_ifs at h with hb
    · exact ⟨List.mem_cons_of_mem _ (ih h).1, (ih h).2⟩
    · rcases List.mem_cons.mp h with rfl | h
      · exact ⟨List.mem_cons_self, hb⟩
      · exact ⟨List.mem_cons_of_mem _ (ih h).1, fun hk => (ih h).2 (List.mem_cons_of_mem _ hk)⟩

/-- Every key of the list that was not kept before has an element that is. -/
theorem exists_mem_distinctFrom {kept : List κ} {l : List α} {a : α} (ha : a ∈ l)
    (hk : key a ∉ kept) : ∃ b ∈ distinctFrom key kept l, key b = key a := by
  induction l generalizing kept with
  | nil => simp at ha
  | cons b l ih =>
    rw [distinctFrom]
    rcases List.mem_cons.mp ha with rfl | ha
    · rw [if_neg hk]
      exact ⟨a, List.mem_cons_self, rfl⟩
    · split_ifs with hb
      · exact ih ha hk
      · by_cases hab : key a = key b
        · exact ⟨b, List.mem_cons_self, hab.symm⟩
        · have hnot : key a ∉ key b :: kept := by simp [hab, hk]
          obtain ⟨c, hc, hca⟩ := ih ha hnot
          exact ⟨c, List.mem_cons_of_mem _ hc, hca⟩

/-- The elements kept have different keys. -/
theorem nodup_distinctFrom (kept : List κ) (l : List α) : ((distinctFrom key kept l).map key).Nodup := by
  induction l generalizing kept with
  | nil => simp [distinctFrom]
  | cons a l ih =>
    rw [distinctFrom]
    split_ifs
    · exact ih kept
    · rw [List.map_cons, List.nodup_cons]
      refine ⟨fun h => ?_, ih _⟩
      obtain ⟨b, hb, hba⟩ := List.mem_map.mp h
      exact (mem_distinctFrom hb).2 (by simp [hba])

/-- An element of the list of first elements is an element of the list. -/
theorem mem_of_mem_distinctOn {l : List α} {a : α} (h : a ∈ distinctOn key l) : a ∈ l :=
  (mem_distinctFrom h).1

/-- Every key of the list has a first element. -/
theorem exists_mem_distinctOn (key : α → κ) {l : List α} {a : α} (ha : a ∈ l) :
    ∃ b ∈ distinctOn key l, key b = key a :=
  exists_mem_distinctFrom ha (by simp)

/-- The first elements have different keys. -/
theorem nodup_distinctOn (key : α → κ) (l : List α) : ((distinctOn key l).map key).Nodup :=
  nodup_distinctFrom [] l

/-- The first elements of a list with one more: that one is new or has a key of the list. -/
theorem distinctFrom_concat (key : α → κ) (kept : List κ) (l : List α) (a : α) :
    distinctFrom key kept (l ++ [a]) =
      distinctFrom key kept l ++ if key a ∈ kept ∨ key a ∈ l.map key then [] else [a] := by
  induction l generalizing kept with
  | nil => by_cases h : key a ∈ kept <;> simp [distinctFrom, h]
  | cons b l ih =>
    rw [List.cons_append, distinctFrom, distinctFrom, List.map_cons]
    by_cases hb : key b ∈ kept
    · have hiff : (key a ∈ kept ∨ key a ∈ l.map key) ↔ key a ∈ kept ∨ key a ∈ key b :: l.map key := by
        rw [List.mem_cons]
        constructor
        · tauto
        · rintro (h | h | h)
          · exact .inl h
          · exact .inl (h ▸ hb)
          · exact .inr h
      rw [if_pos hb, if_pos hb, ih, if_congr hiff rfl rfl]
    · have hiff : (key a ∈ key b :: kept ∨ key a ∈ l.map key) ↔ key a ∈ kept ∨ key a ∈ key b :: l.map key := by
        simp only [List.mem_cons]
        tauto
      rw [if_neg hb, if_neg hb, ih, if_congr hiff rfl rfl, List.cons_append]

/-- The first elements of a list with one more. -/
theorem distinctOn_concat (key : α → κ) (l : List α) (a : α) :
    distinctOn key (l ++ [a]) = distinctOn key l ++ if key a ∈ l.map key then [] else [a] := by
  simp [distinctOn, distinctFrom_concat]

/-- Two keys that tell the same elements apart have the same first elements. -/
theorem distinctFrom_congr {κ' : Type} [DecidableEq κ'] {key : α → κ} {key' : α → κ'} (seen l : List α)
    (h : ∀ a ∈ seen ++ l, ∀ b ∈ seen ++ l, key a = key b ↔ key' a = key' b) :
    distinctFrom key (seen.map key) l = distinctFrom key' (seen.map key') l := by
  induction l generalizing seen with
  | nil => rfl
  | cons a l ih =>
    have hmem : key a ∈ seen.map key ↔ key' a ∈ seen.map key' := by
      simp only [List.mem_map]
      refine exists_congr fun b => and_congr_right fun hb => ?_
      exact h b (by simp [hb]) a (by simp)
    rw [distinctFrom, distinctFrom]
    by_cases ha : key a ∈ seen.map key
    · rw [if_pos ha, if_pos (hmem.mp ha)]
      exact ih seen fun x hx y hy => h x (by aesop) y (by aesop)
    · rw [if_neg ha, if_neg fun ha' => ha (hmem.mpr ha')]
      exact congrArg _ (ih (a :: seen) fun x hx y hy => h x (by aesop) y (by aesop))

/-- The first of each key, as keys. -/
theorem map_distinctFrom (key : α → κ) (kept : List κ) (l : List α) :
    (distinctFrom key kept l).map key = distinctFrom id kept (l.map key) := by
  induction l generalizing kept with
  | nil => rfl
  | cons a l ih =>
    rw [List.map_cons, distinctFrom, distinctFrom]
    simp only [id_eq]
    split_ifs
    · exact ih kept
    · rw [List.map_cons, ih]

end Distinct

/-! ## Sums over indexes -/

/-- A sum over a list with its indexes splits into the sum of the elements' part and of the indexes'. -/
theorem sum_mapIdx_add (l : List α) (g : α → ℕ) (h : ℕ → ℕ) :
    (l.mapIdx fun i a => g a + h i).sum = (l.map g).sum + ((List.range l.length).map h).sum := by
  have hfst : (l.zipIdx.map fun p => g p.1).sum = (l.map g).sum := by
    rw [show (fun p : α × ℕ => g p.1) = g ∘ Prod.fst from rfl, ← List.map_map, List.zipIdx_map_fst]
  have hsnd : (l.zipIdx.map fun p => h p.2).sum = ((List.range l.length).map h).sum := by
    rw [show (fun p : α × ℕ => h p.2) = h ∘ Prod.snd from rfl, ← List.map_map, List.zipIdx_map_snd,
      List.range_eq_range']
  rw [List.mapIdx_eq_zipIdx_map, List.sum_map_add, hfst, hsnd]

/-- A sum splits by a predicate. -/
theorem sum_filter_add (w : α → ℕ) (p : α → Bool) (l : List α) :
    ((l.filter p).map w).sum + ((l.filter fun a => !p a).map w).sum = (l.map w).sum := by
  rw [← List.sum_append, ← List.map_append]
  exact ((List.filter_append_perm p l).map w).sum_eq

/-- Elements placed at indexes below `n`, or nowhere: summing index by index sums the placed ones. -/
theorem sum_range_filter {n : ℕ} (l : List (α × Option ℕ)) (w : α → ℕ)
    (hlt : ∀ r ∈ l, ∀ j, r.2 = some j → j < n) :
    ((List.range n).map fun j => ((l.filter fun r => r.2 = some j).map fun r => w r.1).sum).sum =
      ((l.filter fun r => r.2 ≠ none).map fun r => w r.1).sum := by
  induction l with
  | nil => simp
  | cons r l ih =>
    have ih' := ih fun x hx => hlt x (List.mem_cons_of_mem _ hx)
    cases hr : r.2 with
    | none => simpa [hr] using ih'
    | some i =>
      have hin : i ∈ List.range n := List.mem_range.mpr (hlt r List.mem_cons_self i hr)
      have hsplit : (fun j => (((r :: l).filter fun r => r.2 = some j).map fun r => w r.1).sum) =
          fun j => (if j = i then w r.1 else 0) +
            ((l.filter fun r => r.2 = some j).map fun r => w r.1).sum := by
        funext j
        by_cases hj : j = i
        · simp [hr, hj]
        · simp [hr, hj, Ne.symm hj]
      have hone : ((List.range n).map fun j => if j = i then w r.1 else 0).sum = w r.1 := by
        rw [← List.sum_toFinset _ List.nodup_range, Finset.sum_ite_eq', if_pos (by simpa using hin)]
      rw [hsplit, List.sum_map_add, ih', hone]
      simp [hr]

/-- A sum over all indexes below `n` of what is zero off a list is the sum over the list's distinct
elements. -/
theorem sum_distinctOn_id {n : ℕ} (idx : List ℕ) (s : ℕ → ℕ) (hlt : ∀ j ∈ idx, j < n)
    (hzero : ∀ j, j ∉ idx → s j = 0) :
    ((List.range n).map s).sum = ((distinctOn id idx).map s).sum := by
  have hperm : (distinctOn id idx).Perm ((List.range n).filter (· ∈ idx)) := by
    refine (List.perm_ext_iff_of_nodup ?_ (List.nodup_range.filter _)).mpr fun j => ?_
    · simpa using nodup_distinctOn id idx
    · simp only [List.mem_filter, List.mem_range, decide_eq_true_eq]
      constructor
      · intro hj
        exact ⟨hlt j (mem_of_mem_distinctOn hj), mem_of_mem_distinctOn hj⟩
      · rintro ⟨-, hj⟩
        obtain ⟨b, hb, hbj⟩ := exists_mem_distinctOn id hj
        exact (show b = j from hbj) ▸ hb
  rw [(hperm.map s).sum_eq]
  generalize List.range n = r
  induction r with
  | nil => rfl
  | cons j r ih =>
    by_cases hj : j ∈ idx
    · simp [hj, ih]
    · simp [hj, ih, hzero j hj]

/-! ## Groups -/

/-- A map from keys to the elements that have them, each in the list's order, read in the order of
the keys. -/
def groupOn (key : α → β) (l : List α) : List (β × List α) :=
  (sortedSet (l.map key)).map fun k => (k, l.filter fun a => key a = k)

/-- A group is the elements of its key, and has one. -/
theorem mem_groupOn {key : α → β} {l : List α} {g : β × List α} :
    g ∈ groupOn key l ↔ (∃ a ∈ l, key a = g.1) ∧ g.2 = l.filter fun a => key a = g.1 := by
  obtain ⟨k, m⟩ := g
  simp only [groupOn, List.mem_map, mem_sortedSet, Prod.mk.injEq]
  constructor
  · rintro ⟨k', ⟨a, ha, rfl⟩, rfl, rfl⟩
    exact ⟨⟨a, ha, rfl⟩, rfl⟩
  · rintro ⟨⟨a, ha, hk⟩, hm⟩
    exact ⟨k, ⟨a, ha, hk⟩, rfl, hm.symm⟩

/-- The groups of different keys are the elements whose key is one of them. -/
theorem perm_flatMap_filter {κ : Type} [DecidableEq κ] (key : α → κ) (l : List α) {ks : List κ}
    (h : ks.Nodup) :
    (ks.flatMap fun k => l.filter fun a => key a = k).Perm (l.filter fun a => key a ∈ ks) := by
  induction ks with
  | nil => simp
  | cons k ks ih =>
    obtain ⟨hk, hks⟩ := List.nodup_cons.mp h
    -- The elements with one of the keys, split by whether it is the first.
    have hsplit := List.filter_append_perm (fun a => decide (key a = k))
      (l.filter fun a => key a ∈ k :: ks)
    rw [List.filter_filter, List.filter_filter] at hsplit
    have hfirst : (l.filter fun a => decide (key a = k) && decide (key a ∈ k :: ks)) =
        l.filter fun a => key a = k := by
      refine List.filter_congr fun a _ => ?_
      by_cases ha : key a = k <;> simp [ha]
    have hrest : (l.filter fun a => !decide (key a = k) && decide (key a ∈ k :: ks)) =
        l.filter fun a => key a ∈ ks := by
      refine List.filter_congr fun a _ => ?_
      by_cases ha : key a = k
      · simp [ha, hk]
      · simp [ha]
    rw [hfirst, hrest] at hsplit
    rw [List.flatMap_cons]
    exact (List.Perm.append_left _ (ih hks)).trans hsplit

/-- The groups of a list by the distinct keys of its elements are its elements. -/
theorem perm_flatMap_distinctOn {κ : Type} [DecidableEq κ] (key : α → κ) (l : List α) :
    ((distinctOn id (l.map key)).flatMap fun k => l.filter fun a => key a = k).Perm l := by
  refine (perm_flatMap_filter key l (by simpa using nodup_distinctOn id (l.map key))).trans ?_
  rw [List.filter_eq_self.mpr]
  intro a ha
  obtain ⟨b, hb, hba⟩ := exists_mem_distinctOn id (List.mem_map_of_mem (f := key) ha)
  simpa using (show b = key a from hba) ▸ hb

end Sorting
