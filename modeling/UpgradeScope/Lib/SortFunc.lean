import Mathlib.Data.List.Sort
import Mathlib.Tactic

/-!
# Sorting by a comparison function

Go's `slices.SortFunc` sorts by a function that answers a negative number when its first argument is to
come first. Its documentation asks for a strict weak ordering of the elements and promises an ordered
permutation then (`Sorts`); of another function it promises nothing. A slice of at most 12 elements goes
through `insertionSortCmpFunc`, which is modelled as it runs, so that what a function that is no ordering
does to a short slice can be computed; a longer one goes through a sort known by that promise alone.
-/

namespace SortFunc

variable {α : Type}

/-- The comparison is a strict weak ordering of the elements of the list. -/
structure StrictWeak (cmp : α → α → ℤ) (l : List α) : Prop where
  /-- No two elements are before each other. -/
  asymm : ∀ a ∈ l, ∀ b ∈ l, cmp a b < 0 → ¬ cmp b a < 0
  /-- What is not before an element is not before what that is not before. -/
  trans : ∀ a ∈ l, ∀ b ∈ l, ∀ c ∈ l, ¬ cmp a b < 0 → ¬ cmp b c < 0 → ¬ cmp a c < 0

/-- No element of the list is before one that it follows. -/
def Ordered (cmp : α → α → ℤ) (l : List α) : Prop := l.Pairwise fun a b => ¬ cmp b a < 0

/-- What the documentation of `slices.SortFunc` promises. -/
structure Sorts (sort : (α → α → ℤ) → List α → List α) : Prop where
  /-- The elements stay. -/
  perm : ∀ cmp l, (sort cmp l).Perm l
  /-- They are put in order when the comparison orders them. -/
  ordered : ∀ cmp l, StrictWeak cmp l → Ordered cmp (sort cmp l)

/-- The inner loop of `insertionSortCmpFunc`: the element sinks towards the front of the sorted part,
which is held with its end first, past every element that it is before. -/
def sink (cmp : α → α → ℤ) (x : α) : List α → List α
  | [] => [x]
  | y :: ys => if cmp x y < 0 then y :: sink cmp x ys else x :: y :: ys

/-- `insertionSortCmpFunc` over the whole slice. -/
def insertionSortCmpFunc (cmp : α → α → ℤ) (l : List α) : List α :=
  (l.foldl (fun acc x => sink cmp x acc) []).reverse

/-- `slices.SortFunc`, with `rest` for what it does to more than 12 elements. -/
def sortFunc (rest : (α → α → ℤ) → List α → List α) (cmp : α → α → ℤ) (l : List α) : List α :=
  if l.length ≤ 12 then insertionSortCmpFunc cmp l else rest cmp l

section Insertion

variable {cmp : α → α → ℤ}

/-- Sinking keeps the elements. -/
theorem sink_perm (x : α) (acc : List α) : (sink cmp x acc).Perm (x :: acc) := by
  induction acc with
  | nil => rfl
  | cons y ys ih =>
    rw [sink]
    split_ifs
    · exact (ih.cons y).trans (List.Perm.swap x y ys)
    · rfl

/-- What an element sinks into is not empty then. -/
theorem sink_ne_nil (x : α) (acc : List α) : sink cmp x acc ≠ [] := by
  intro h
  have hlen := (sink_perm x acc : (sink cmp x acc).Perm _).length_eq
  simp [h] at hlen

/-- Sinking into an ordered part leaves it ordered. -/
theorem sink_ordered {x : α} {acc : List α} (hcmp : StrictWeak cmp (x :: acc))
    (h : acc.Pairwise fun a b => ¬ cmp a b < 0) : (sink cmp x acc).Pairwise fun a b => ¬ cmp a b < 0 := by
  induction acc with
  | nil => exact List.pairwise_singleton _ _
  | cons y ys ih =>
    obtain ⟨hy, hys⟩ := List.pairwise_cons.mp h
    rw [sink]
    split_ifs with hxy
    · have hsub : ∀ a ∈ x :: ys, a ∈ x :: y :: ys := by
        intro a ha
        rcases List.mem_cons.mp ha with rfl | ha
        · exact List.mem_cons_self
        · exact List.mem_cons_of_mem _ (List.mem_cons_of_mem _ ha)
      have hcmp' : StrictWeak cmp (x :: ys) :=
        ⟨fun a ha b hb => hcmp.asymm a (hsub a ha) b (hsub b hb),
          fun a ha b hb c hc => hcmp.trans a (hsub a ha) b (hsub b hb) c (hsub c hc)⟩
      refine List.pairwise_cons.mpr ⟨?_, ih hcmp' hys⟩
      intro b hb
      rcases List.mem_cons.mp ((sink_perm x ys).mem_iff.mp hb) with rfl | hb
      · exact hcmp.asymm _ (by simp) _ (by simp) hxy
      · exact hy b hb
    · -- `x` stops behind `y`, and `y` is not before what is in front of it.
      refine List.pairwise_cons.mpr ⟨?_, h⟩
      intro b hb
      rcases List.mem_cons.mp hb with rfl | hb
      · exact hxy
      · exact hcmp.trans x (by simp) y (by simp) b (by simp [hb]) hxy (hy b hb)

/-- The element at the front of the sorted part stays there or gives way to the one that sinks. -/
theorem getLast?_sink (x : α) {acc : List α} (hne : acc ≠ []) :
    (sink cmp x acc).getLast? = acc.getLast? ∨ (sink cmp x acc).getLast? = some x := by
  induction acc with
  | nil => exact absurd rfl hne
  | cons y ys ih =>
    rw [sink]
    split_ifs
    · cases ys with
      | nil => exact .inr rfl
      | cons z zs =>
        rw [List.getLast?_cons_of_ne_nil (sink_ne_nil x _), List.getLast?_cons_cons]
        exact ih (by simp)
    · exact .inl (List.getLast?_cons_cons ..)

/-- The insertions keep the elements. -/
theorem foldl_sink_perm (l acc : List α) :
    (l.foldl (fun acc x => sink cmp x acc) acc).Perm (l.reverse ++ acc) := by
  induction l generalizing acc with
  | nil => rfl
  | cons x xs ih =>
    rw [List.foldl_cons, List.reverse_cons, List.append_assoc]
    exact (ih (sink cmp x acc)).trans ((sink_perm x acc).append_left _)

/-- The insertions keep the sorted part ordered. -/
theorem foldl_sink_ordered {whole : List α} (hcmp : StrictWeak cmp whole) (l acc : List α) (hl : ∀ a ∈ l, a ∈ whole)
    (hacc : ∀ a ∈ acc, a ∈ whole) (h : acc.Pairwise fun a b => ¬ cmp a b < 0) :
    (l.foldl (fun acc x => sink cmp x acc) acc).Pairwise fun a b => ¬ cmp a b < 0 := by
  induction l generalizing acc with
  | nil => exact h
  | cons x xs ih =>
    have hcons : ∀ a ∈ x :: acc, a ∈ whole := by
      intro a ha
      rcases List.mem_cons.mp ha with rfl | ha
      · exact hl _ List.mem_cons_self
      · exact hacc a ha
    have hx : StrictWeak cmp (x :: acc) :=
      ⟨fun a ha b hb => hcmp.asymm a (hcons a ha) b (hcons b hb),
        fun a ha b hb c hc => hcmp.trans a (hcons a ha) b (hcons b hb) c (hcons c hc)⟩
    refine ih (sink cmp x acc) (fun a ha => hl a (List.mem_cons_of_mem _ ha)) ?_ (sink_ordered hx h)
    intro a ha
    exact hcons a ((sink_perm x acc).mem_iff.mp ha)

/-- Once an element is not at the front, no later insertion brings it there. -/
theorem foldl_sink_front {g : α} (l acc : List α) (hg : g ∉ l) (hne : acc ≠ []) (h : acc.getLast? ≠ some g) :
    (l.foldl (fun acc x => sink cmp x acc) acc).getLast? ≠ some g := by
  induction l generalizing acc with
  | nil => exact h
  | cons x xs ih =>
    rw [List.mem_cons, not_or] at hg
    refine ih _ hg.2 (sink_ne_nil x acc) ?_
    rcases (getLast?_sink x hne : (sink cmp x acc).getLast? = _ ∨ _) with heq | heq
    · rwa [heq]
    · rw [heq]
      intro h
      exact hg.1 (Option.some.inj h).symm

/-- Insertion sort keeps what `SortFunc` promises. -/
theorem sorts_insertionSortCmpFunc : Sorts (insertionSortCmpFunc : (α → α → ℤ) → List α → List α) where
  perm cmp l := by
    have h : (l.foldl (fun acc x => sink cmp x acc) []).Perm (l.reverse ++ []) := foldl_sink_perm l []
    rw [List.append_nil] at h
    exact ((List.reverse_perm _).trans h).trans (List.reverse_perm l)
  ordered cmp l hcmp := by
    have h := foldl_sink_ordered hcmp l [] (fun _ ha => ha) (by simp) List.Pairwise.nil
    exact List.pairwise_reverse.mpr h

/-- An element that the next one is before does not come first. -/
theorem head?_insertionSortCmpFunc {g x : α} {l : List α} (hx : cmp x g < 0) (hne : x ≠ g) (hg : g ∉ l) :
    (insertionSortCmpFunc cmp (g :: x :: l)).head? ≠ some g := by
  rw [insertionSortCmpFunc, List.head?_reverse, List.foldl_cons, List.foldl_cons]
  have hacc : sink cmp x (sink cmp g []) = [g, x] := by simp [sink, hx]
  rw [hacc]
  refine foldl_sink_front l _ hg (by simp) ?_
  simpa using hne

end Insertion

/-- `slices.SortFunc` keeps its promise when the sort of the longer slices does. -/
theorem sorts_sortFunc {rest : (α → α → ℤ) → List α → List α} (h : Sorts rest) : Sorts (sortFunc rest) where
  perm cmp l := by
    rw [sortFunc]
    split_ifs
    · exact sorts_insertionSortCmpFunc.perm cmp l
    · exact h.perm cmp l
  ordered cmp l hcmp := by
    rw [sortFunc]
    split_ifs
    · exact sorts_insertionSortCmpFunc.ordered cmp l hcmp
    · exact h.ordered cmp l hcmp

end SortFunc
