import Mathlib.Data.List.Lex
import Mathlib.Tactic

/-!
# Texts of fixed width

Numbers written with a fixed count of decimal digits sort as numbers. So does a record of such numbers: where two records
are rendered by one layout, a width for each number and a mark behind it, the texts sort as the lists of the numbers do
(`render_lt_iff`).
-/

namespace FixedWidth

/-! ## Digits -/

/-- The last `w` decimal digits of a number. -/
def digits : ℕ → ℕ → List Char
  | 0, _ => []
  | w + 1, n => Nat.digitChar (n / 10 ^ w % 10) :: digits w n

@[simp] theorem length_digits (w n : ℕ) : (digits w n).length = w := by
  induction w with
  | zero => rfl
  | succ w ih => rw [digits, List.length_cons, ih]

variable {n m w k : ℕ}

/-- The digits of a number are those of its remainder. -/
theorem digits_mod (h : w ≤ k) (n : ℕ) : digits w (n % 10 ^ k) = digits w n := by
  induction w with
  | zero => rfl
  | succ w ih =>
    obtain ⟨j, rfl⟩ := Nat.exists_eq_add_of_le h
    have hdigit : n % 10 ^ (w + 1 + j) / 10 ^ w % 10 = n / 10 ^ w % 10 := by
      rw [add_assoc, pow_add, Nat.mod_mul_right_div_self, add_comm 1 j, pow_succ, Nat.mod_mul_left_mod]
    rw [digits, digits, ih (by omega), hdigit]

/-- Decimal digits sort as their values. -/
theorem digitChar_lt_iff (hm : m < 10) (hn : n < 10) : Nat.digitChar m < Nat.digitChar n ↔ m < n := by
  interval_cases m <;> interval_cases n <;> decide

/-- A decimal digit is one of its value only. -/
theorem digitChar_inj (hm : m < 10) (hn : n < 10) : Nat.digitChar m = Nat.digitChar n ↔ m = n := by
  interval_cases m <;> interval_cases n <;> decide

/-- Numbers compare by what is before their last digits, and then by these. -/
theorem lt_iff_div_mod (hk : 0 < k) : m < n ↔ m / k < n / k ∨ m / k = n / k ∧ m % k < n % k := by
  have hm := Nat.div_add_mod m k
  have hn := Nat.div_add_mod n k
  have hmk := Nat.mod_lt m hk
  have hnk := Nat.mod_lt n hk
  constructor
  · intro hlt
    rcases lt_trichotomy (m / k) (n / k) with h | h | h
    · exact .inl h
    · exact .inr ⟨h, by rw [h] at hm; omega⟩
    · have := Nat.div_le_div_right (c := k) hlt.le
      omega
  · rintro (h | ⟨h, hmod⟩)
    · by_contra hge
      have := Nat.div_le_div_right (c := k) (Nat.not_lt.mp hge)
      omega
    · rw [h] at hm
      omega

/-- Digits of one width sort as the numbers. -/
theorem digits_lt_iff (hm : m < 10 ^ w) (hn : n < 10 ^ w) : digits w m < digits w n ↔ m < n := by
  induction w generalizing m n with
  | zero => simp at hm hn; simp [hm, hn]
  | succ w ih =>
    have hpos : 0 < 10 ^ w := by positivity
    have hlead : ∀ {x : ℕ}, x < 10 ^ (w + 1) → x / 10 ^ w < 10 := fun hx => by
      rwa [Nat.div_lt_iff_lt_mul hpos, ← pow_succ']
    have hrest := ih (Nat.mod_lt m hpos) (Nat.mod_lt n hpos)
    rw [digits_mod le_rfl, digits_mod le_rfl] at hrest
    rw [digits, digits, Nat.mod_eq_of_lt (hlead hm), Nat.mod_eq_of_lt (hlead hn), List.cons_lt_cons_iff,
      digitChar_lt_iff (hlead hm) (hlead hn), digitChar_inj (hlead hm) (hlead hn), hrest, ← lt_iff_div_mod hpos]

/-- Digits of one width are those of one number only. -/
theorem digits_inj (hm : m < 10 ^ w) (hn : n < 10 ^ w) (h : digits w m = digits w n) : m = n := by
  rcases lt_trichotomy m n with hlt | heq | hgt
  · exact absurd ((digits_lt_iff hm hn).mpr hlt) (by rw [h]; exact List.lt_irrefl _)
  · exact heq
  · exact absurd ((digits_lt_iff hn hm).mpr hgt) (by rw [h]; exact List.lt_irrefl _)

/-- The value of a number's digits is the number. -/
theorem ofDigitChars_digits (w n : ℕ) : Nat.ofDigitChars 10 (digits w n) 0 = n % 10 ^ w := by
  induction w with
  | zero => simp [digits, Nat.mod_one]
  | succ w ih =>
    rw [digits, Nat.ofDigitChars_cons_digitChar_of_lt_ten (Nat.mod_lt _ (by norm_num)),
      Nat.ofDigitChars_eq_ofDigitChars_zero, ih, length_digits, mul_zero, zero_add, pow_succ, Nat.mod_mul]
    ring

/-- The characters of a number of fixed width are decimal digits. -/
theorem mem_digits {c : Char} (h : c ∈ digits w n) : '0' ≤ c ∧ c ≤ '9' := by
  induction w with
  | zero => simp [digits] at h
  | succ w ih =>
    rcases List.mem_cons.mp h with rfl | h
    · have := Nat.mod_lt (n / 10 ^ w) (show 0 < 10 by norm_num)
      interval_cases n / 10 ^ w % 10 <;> decide
    · exact ih h

/-! ## Records -/

/-- Texts that begin with texts of one length sort by these first. -/
theorem append_lt_append_iff {a a' b b' : List Char} (h : a.length = a'.length) :
    a ++ b < a' ++ b' ↔ a < a' ∨ a = a' ∧ b < b' := by
  induction a generalizing a' with
  | nil =>
    obtain rfl : a' = [] := List.eq_nil_of_length_eq_zero h.symm
    simp
  | cons c a ih =>
    cases a' with
    | nil => simp at h
    | cons c' a' =>
      have hlen : a.length = a'.length := by simpa using h
      simp only [List.cons_append, List.cons_lt_cons_iff, ih hlen, List.cons.injEq]
      tauto

/-- A record's numbers, each with as many digits as its width and followed by its mark. -/
def render : List (ℕ × Char) → List ℕ → List Char
  | (w, mark) :: layout, n :: ns => digits w n ++ mark :: render layout ns
  | _, _ => []

/-- Every number has at most as many digits as its width. -/
def Fits (layout : List (ℕ × Char)) (ns : List ℕ) : Prop := List.Forall₂ (fun f n => n < 10 ^ f.1) layout ns

/-- Records of one layout sort as their numbers. -/
theorem render_lt_iff {layout : List (ℕ × Char)} {ms ns : List ℕ} (hm : Fits layout ms) (hn : Fits layout ns) :
    render layout ms < render layout ns ↔ ms < ns := by
  induction hm generalizing ns with
  | nil =>
    obtain rfl := List.forall₂_nil_left_iff.mp hn
    simp [render]
  | @cons f m layout ms hlt _ ih =>
    obtain ⟨w, mark⟩ := f
    obtain _ | @⟨_, n, _, ns, hlt', hn⟩ := hn
    rw [render, render, append_lt_append_iff (by simp), digits_lt_iff hlt hlt', List.cons_lt_cons_iff, ih hn,
      List.cons_lt_cons_iff]
    have hinj : digits w m = digits w n ↔ m = n := ⟨digits_inj hlt hlt', fun h => by rw [h]⟩
    simp [hinj]

end FixedWidth
