import Mathlib.Data.List.MinMax
import Mathlib.Tactic

/-!
# Tables with growing ids

A table is a list of rows, each with an id that no other row has. `newest` is the row a query with
`ORDER BY id DESC LIMIT 1` returns, and `maxIDs` the ids of `SELECT MAX(id) ... GROUP BY`. The lemmas say
when such a query does not see a change: rows deleted that it does not return
(`newest_filter_filter`), and rows rewritten in place (`newest_map`).
-/

namespace Table

variable {α γ : Type} {id : α → ℕ}

/-- The row with the greatest id. -/
def newest (id : α → ℕ) (l : List α) : Option α := l.argmax id

/-- The empty table has no newest row. -/
@[simp] theorem newest_nil : newest id ([] : List α) = none := rfl

/-- A row a query returns is a row of the table. -/
theorem newest_mem {l : List α} {a : α} (h : newest id l = some a) : a ∈ l := List.argmax_mem h

/-- No row of a table has a greater id than the newest. -/
theorem le_newest {l : List α} {a b : α} (h : newest id l = some a) (hb : b ∈ l) : id b ≤ id a :=
  List.le_of_mem_argmax hb h

/-- A query returns nothing exactly from an empty table. -/
@[simp] theorem newest_eq_none {l : List α} : newest id l = none ↔ l = [] := List.argmax_eq_none

/-- With different ids, the newest row is the row with the greatest id. -/
theorem newest_eq_some_iff {l : List α} (hids : (l.map id).Nodup) {a : α} :
    newest id l = some a ↔ a ∈ l ∧ ∀ b ∈ l, id b ≤ id a := by
  constructor
  · intro h
    exact ⟨newest_mem h, fun b hb => le_newest h hb⟩
  · rintro ⟨ha, hmax⟩
    cases hl : newest id l with
    | none =>
      rw [newest_eq_none] at hl
      subst hl
      simp at ha
    | some b =>
      have hb : b ∈ l := newest_mem hl
      have heq : id b = id a := le_antisymm (hmax b hb) (le_newest hl ha)
      rw [List.inj_on_of_nodup_map hids hb ha heq]

/-- Some rows of a table have different ids too. -/
theorem nodup_filter {l : List α} (hids : (l.map id).Nodup) (p : α → Bool) :
    ((l.filter p).map id).Nodup :=
  hids.sublist (List.filter_sublist.map id)

/-- Deleting rows that a query does not return leaves its answer. -/
theorem newest_filter_filter {l : List α} (hids : (l.map id).Nodup) {p keep : α → Bool}
    (hkeep : ∀ a, newest id (l.filter p) = some a → keep a = true) :
    newest id ((l.filter keep).filter p) = newest id (l.filter p) := by
  cases hl : newest id (l.filter p) with
  | none =>
    rw [newest_eq_none, List.filter_eq_nil_iff] at hl ⊢
    intro a ha
    exact hl a (List.mem_filter.mp ha).1
  | some a =>
    rw [newest_eq_some_iff (nodup_filter (nodup_filter hids keep) p)]
    have ha := List.mem_filter.mp (newest_mem hl)
    refine ⟨List.mem_filter.mpr ⟨List.mem_filter.mpr ⟨ha.1, hkeep a hl⟩, ha.2⟩, fun b hb => ?_⟩
    have hb' := List.mem_filter.mp hb
    exact le_newest hl (List.mem_filter.mpr ⟨(List.mem_filter.mp hb'.1).1, hb'.2⟩)

/-- Rewriting rows under their ids, so that a query selects the same ones, rewrites its answer. -/
theorem newest_map {l : List α} (hids : (l.map id).Nodup) {f : α → α} (hid : ∀ a ∈ l, id (f a) = id a) :
    newest id (l.map f) = (newest id l).map f := by
  have hids' : ((l.map f).map id).Nodup := by
    rw [List.map_map]
    rwa [List.map_congr_left (show ∀ a ∈ l, (id ∘ f) a = id a from hid)]
  cases hl : newest id l with
  | none =>
    rw [newest_eq_none] at hl
    subst hl
    rfl
  | some a =>
    rw [Option.map_some, newest_eq_some_iff hids']
    refine ⟨List.mem_map_of_mem (newest_mem hl), fun b hb => ?_⟩
    obtain ⟨c, hc, rfl⟩ := List.mem_map.mp hb
    rw [hid c hc, hid a (newest_mem hl)]
    exact le_newest hl hc

/-- The greatest id of each group. -/
def maxIDs [DecidableEq γ] (group : α → γ) (id : α → ℕ) (l : List α) : List ℕ :=
  (l.map group).dedup.filterMap fun g => (newest id (l.filter fun a => group a = g)).map id

/-- The greatest ids are those of the newest rows of their groups. -/
theorem mem_maxIDs [DecidableEq γ] {group : α → γ} {l : List α} {n : ℕ} :
    n ∈ maxIDs group id l ↔ ∃ a, newest id (l.filter fun b => group b = group a) = some a ∧ id a = n := by
  unfold maxIDs
  simp only [List.mem_filterMap, List.mem_dedup, List.mem_map, Option.map_eq_some_iff]
  constructor
  · rintro ⟨g, -, a, ha, rfl⟩
    have hg : group a = g := of_decide_eq_true (List.mem_filter.mp (newest_mem ha)).2
    subst hg
    exact ⟨a, ha, rfl⟩
  · rintro ⟨a, ha, rfl⟩
    exact ⟨group a, ⟨a, (List.mem_filter.mp (newest_mem ha)).1, rfl⟩, a, ha, rfl⟩

end Table
