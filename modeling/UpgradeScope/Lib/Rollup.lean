import Mathlib.Data.List.AList
import Mathlib.Tactic

/-!
# Rows under keys, value by value

A map built from pairs of a key and a value, in the order they come: `rollup add` puts each value into the row of its key, which
`add` makes from the row that was there, if any. The row of a key depends on that key's values only (`lookup_rollup`). What is
folded into a map from the entries of other maps is, for each key, what those maps have there (`filter_entries`).
-/

namespace Rollup

variable {κ α β γ : Type} [DecidableEq κ]

/-- One value put into the row of its key. -/
def put (add : Option β → α → β) (m : AList fun _ : κ => β) (p : κ × α) : AList fun _ : κ => β :=
  m.insert p.1 (add (m.lookup p.1) p.2)

/-- The values put into their rows, one by one. -/
def rollup (add : Option β → α → β) (m : AList fun _ : κ => β) (l : List (κ × α)) : AList fun _ : κ => β := l.foldl (put add) m

/-- The row that some values make. -/
def row (add : Option β → α → β) (start : Option β) (l : List α) : Option β := l.foldl (fun acc a => some (add acc a)) start

/-- The row of a key is made of the values of that key. -/
theorem lookup_rollup (add : Option β → α → β) (m : AList fun _ : κ => β) (l : List (κ × α)) (k : κ) :
    (rollup add m l).lookup k = row add (m.lookup k) ((l.filter (·.1 = k)).map Prod.snd) := by
  induction l generalizing m with
  | nil => rfl
  | cons p l ih =>
    change (rollup add (put add m p) l).lookup k = _
    rw [ih]
    by_cases hk : p.1 = k
    · rw [List.filter_cons_of_pos (by simpa using hk), List.map_cons, put, hk, AList.lookup_insert]
      rfl
    · rw [List.filter_cons_of_neg (by simpa using hk), put, AList.lookup_insert_ne fun h => hk h.symm]

/-- One value or more make a row, also from none. -/
theorem row_isSome (add : Option β → α → β) (l : List α) : (row add none l).isSome ↔ l ≠ [] := by
  have hstep : ∀ (start : Option β) (a : α) (l : List α), (row add start (a :: l)).isSome := by
    intro start a l
    induction l generalizing start a with
    | nil => rfl
    | cons b l ih => exact ih (some (add start a)) b
  cases l with
  | nil => simp [row]
  | cons a l => simpa using hstep none a l

/-- What holds of the row of the first value and is kept by each value after it holds of the row. -/
theorem row_induction {add : Option β → α → β} {P : List α → β → Prop} (first : ∀ a, P [a] (add none a))
    (step : ∀ l a b, P l b → P (l ++ [a]) (add (some b) a)) {l : List α} {b : β} (h : row add none l = some b) : P l b := by
  induction l using List.reverseRecOn generalizing b with
  | nil => simp [row] at h
  | append_singleton l a ih =>
    have hlast : row add none (l ++ [a]) = some (add (row add none l) a) := by
      unfold row
      rw [List.foldl_append]
      rfl
    rw [hlast, Option.some_inj] at h
    subst h
    cases hrow : row add none l with
    | none =>
      obtain rfl : l = [] := by
        by_contra hne
        have := (row_isSome add l).mpr hne
        rw [hrow] at this
        simp at this
      exact first a
    | some b => exact step l a b (ih hrow)

/-- A map with its rows changed. -/
def mapRows (f : β → γ) (m : AList fun _ : κ => β) : AList fun _ : κ => γ where
  entries := m.entries.map fun e => ⟨e.1, f e.2⟩
  nodupKeys := by
    unfold List.NodupKeys List.keys
    rw [List.map_map]
    exact m.nodupKeys

/-- The rows of a table that was mapped are the images of its rows. -/
theorem lookup_mapRows (f : β → γ) (m : AList fun _ : κ => β) (k : κ) : (mapRows f m).lookup k = (m.lookup k).map f :=
  @List.dlookup_map₂ κ _ (fun _ => β) (fun _ => γ) m.entries (fun _ => f) k

/-- A map without the rows of some keys. -/
def keepRows (p : κ → Bool) (m : AList fun _ : κ => β) : AList fun _ : κ => β where
  entries := m.entries.filter fun e => p e.1
  nodupKeys := m.nodupKeys.sublist List.filter_sublist

/-- The rows that are kept of a table are those of the kept keys. -/
theorem lookup_keepRows (p : κ → Bool) (m : AList fun _ : κ => β) (k : κ) :
    (keepRows p m).lookup k = if p k then m.lookup k else none := by
  refine Option.ext fun b => ?_
  have hmem : (b ∈ (keepRows p m).lookup k) ↔ p k = true ∧ b ∈ m.lookup k := by
    rw [AList.mem_lookup_iff, AList.mem_lookup_iff]
    unfold keepRows
    rw [List.mem_filter, and_comm]
  split_ifs with hp
  · simpa [hp] using hmem
  · simpa [hp] using hmem

/-- The entries of a map under a key: its row, or none. -/
theorem filter_entries (m : AList fun _ : κ => β) (k : κ) :
    (m.entries.filter (·.1 = k)).map Sigma.snd = (m.lookup k).toList := by
  obtain ⟨entries, hnodup⟩ := m
  change (entries.filter (·.1 = k)).map Sigma.snd = (entries.dlookup k).toList
  induction entries with
  | nil => rfl
  | cons e l ih =>
    obtain ⟨hnew, hrest⟩ := List.nodupKeys_cons.mp hnodup
    by_cases hk : e.1 = k
    · subst hk
      -- No other entry has the key.
      have hnone : l.filter (fun e' => decide (e'.1 = e.1)) = [] := by
        rw [List.filter_eq_nil_iff]
        intro e' he' heq
        exact hnew (of_decide_eq_true heq ▸ List.mem_map_of_mem he')
      rw [List.filter_cons_of_pos (by simp), hnone, List.dlookup_cons_eq]
      rfl
    · rw [List.filter_cons_of_neg (by simpa using hk), List.dlookup_cons_ne _ _ fun h => hk h.symm]
      exact ih hrest

end Rollup
