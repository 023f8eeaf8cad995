import Mathlib.Data.List.Count
import Mathlib.Tactic

/-!
# Numbering repeats

A writer that has to name its entries uniquely counts, for each key, the entries it has written under it, and gives the count
with the name of every entry after the first. `numbered` is that loop. When a name tells the key and the number apart, no two
names are the same (`nodup_names`), whatever the entries are.
-/

namespace Numbering

variable {α κ γ : Type} [DecidableEq κ]

/-- The loop: the counts so far, and each entry with the count of its key. -/
def numbered (key : α → κ) : (κ → ℕ) → List α → List (α × ℕ)
  | _, [] => []
  | seen, a :: l => (a, seen (key a)) :: numbered key (Function.update seen (key a) (seen (key a) + 1)) l

variable (key : α → κ)

/-- The entries are those of the list, in order. -/
theorem map_fst_numbered (seen : κ → ℕ) (l : List α) : (numbered key seen l).map Prod.fst = l := by
  induction l generalizing seen with
  | nil => rfl
  | cons a l ih => rw [numbered, List.map_cons, ih]

variable {key}

/-- Where the key is read off something else of the entry, so are the numbers. -/
theorem numbered_map {β : Type} (key : β → κ) (g : α → β) (seen : κ → ℕ) (l : List α) :
    numbered key seen (l.map g) = (numbered (fun a => key (g a)) seen l).map fun x => (g x.1, x.2) := by
  induction l generalizing seen with
  | nil => rfl
  | cons a l ih => rw [List.map_cons, numbered, numbered, List.map_cons, ih]

/-- An entry is numbered from the count of its key on. -/
theorem le_of_mem_numbered {seen : κ → ℕ} {l : List α} {x : α × ℕ} (h : x ∈ numbered key seen l) : seen (key x.1) ≤ x.2 := by
  induction l generalizing seen with
  | nil => cases h
  | cons a l ih =>
    rcases List.mem_cons.mp h with rfl | h
    · exact le_rfl
    · have hle := ih h
      by_cases hkey : key x.1 = key a
      · rw [hkey, Function.update_self] at hle
        rw [hkey]
        omega
      · rwa [Function.update_of_ne hkey] at hle

/-- An entry's number is less than the count with all entries. -/
theorem lt_of_mem_numbered {seen : κ → ℕ} {l : List α} {x : α × ℕ} (h : x ∈ numbered key seen l) :
    x.2 < seen (key x.1) + l.length := by
  induction l generalizing seen with
  | nil => cases h
  | cons a l ih =>
    rcases List.mem_cons.mp h with rfl | h
    · simp
    · have hlt := ih h
      rw [List.length_cons]
      by_cases hkey : key x.1 = key a
      · rw [hkey, Function.update_self] at hlt
        rw [hkey]
        omega
      · rw [Function.update_of_ne hkey] at hlt
        omega

/-- No key has a number twice. -/
theorem nodup_numbered (key : α → κ) (seen : κ → ℕ) (l : List α) : ((numbered key seen l).map fun x => (key x.1, x.2)).Nodup := by
  induction l generalizing seen with
  | nil => exact List.nodup_nil
  | cons a l ih =>
    refine List.nodup_cons.mpr ⟨fun hmem => ?_, ih _⟩
    -- A later entry of the key is numbered past this one.
    obtain ⟨x, hx, heq⟩ := List.mem_map.mp hmem
    have hkey : key x.1 = key a := congrArg Prod.fst heq
    have hnumber : x.2 = seen (key a) := congrArg Prod.snd heq
    have hle := le_of_mem_numbered hx
    rw [hkey, Function.update_self] at hle
    omega

/-- Names that tell the key and the number apart are all different. Only numbers less than the number of entries are given. -/
theorem nodup_names {name : α → ℕ → γ} {l : List α}
    (h : ∀ a ∈ l, ∀ b ∈ l, ∀ m < l.length, ∀ n < l.length, name a m = name b n → key a = key b ∧ m = n) :
    ((numbered key (fun _ => 0) l).map fun x => name x.1 x.2).Nodup := by
  have hmem : ∀ x ∈ numbered key (fun _ => 0) l, x.1 ∈ l ∧ x.2 < l.length := by
    intro x hx
    have hlt := lt_of_mem_numbered hx
    refine ⟨?_, by omega⟩
    rw [← map_fst_numbered key (fun _ => 0) l]
    exact List.mem_map_of_mem hx
  have hnodup := nodup_numbered key (fun _ => 0) l
  have hself : (numbered key (fun _ => 0) l).Nodup := List.Nodup.of_map _ hnodup
  rw [List.nodup_map_iff_inj_on hself] at hnodup ⊢
  intro x hx y hy hname
  obtain ⟨hxl, hxn⟩ := hmem x hx
  obtain ⟨hyl, hyn⟩ := hmem y hy
  obtain ⟨hkey, hnumber⟩ := h x.1 hxl y.1 hyl x.2 hxn y.2 hyn hname
  exact hnodup x hx y hy (Prod.ext hkey hnumber)

end Numbering
