import Mathlib.Tactic

/-!
# Spending a budget

A computation that must not produce more than a limit charges each thing it produces to a budget and
stops once the budget is over. `Budget` is what is left and whether a charge went past it, `none` is no
limit. The rules here say what such a computation amounts to: `Spent limit n b` holds of a budget that
started at `limit` and was charged `n` in all, every way of charging adds to `n`, and a loop that stops
early (`addEach`) has produced everything whenever its budget is not over.
-/

namespace Meter

/-- What is left of a limit. -/
structure Budget where
  /-- What is left, negative once it is over. -/
  left : ℤ
  /-- Whether a charge went past the limit; it stays set. -/
  isOver : Bool
  deriving DecidableEq

/-- The budget of a limit before the first charge. -/
def Budget.start (limit : ℤ) : Budget := ⟨limit, false⟩

/-- Takes a charge from the budget. -/
def Budget.charge (b : Budget) (n : ℕ) : Budget := ⟨b.left - n, b.isOver || b.left - n < 0⟩

/-- A charge to an optional budget, `none` being no limit. -/
def charge (b : Option Budget) (n : ℕ) : Option Budget := b.map (·.charge n)

/-- The budget ran out. -/
def exceeded (b : Option Budget) : Bool := b.any (·.isOver)

/-- Charges one after the other. -/
def chargeAll (b : Option Budget) (ns : List ℕ) : Option Budget := ns.foldl charge b

variable {α : Type}

/-- The loop that charges each element and keeps it, and stops at the first one that is over the
budget. -/
def addEach (size : α → ℕ) : Option Budget → List α → List α × Option Budget
  | b, [] => ([], b)
  | b, a :: l =>
    if exceeded (charge b (size a)) then ([], charge b (size a))
    else
      let rest := addEach size (charge b (size a)) l
      (a :: rest.1, rest.2)

/-! ## No limit -/

@[simp] theorem exceeded_none : exceeded none = false := rfl

@[simp] theorem charge_none (n : ℕ) : charge none n = none := rfl

/-- Without a limit nothing is spent. -/
@[simp] theorem chargeAll_none (ns : List ℕ) : chargeAll none ns = none := by
  induction ns with
  | nil => rfl
  | cons n ns ih => exact ih

/-- Without a limit every element is kept. -/
@[simp] theorem addEach_none (size : α → ℕ) (l : List α) : addEach size none l = (l, none) := by
  induction l with
  | nil => rfl
  | cons a l ih => simp [addEach, ih]

/-- The loop keeps a budget a budget. -/
theorem isSome_addEach (size : α → ℕ) (b : Budget) (l : List α) :
    (addEach size (some b) l).2.isSome = true := by
  induction l generalizing b with
  | nil => rfl
  | cons a l ih =>
    rw [addEach]
    split_ifs
    · rfl
    · exact ih _

/-! ## A limit -/

/-- The budget started at `limit` and was charged `n`: it is over exactly when that is more than the
limit, and otherwise holds the rest. -/
structure Spent (limit : ℤ) (n : ℕ) (b : Budget) : Prop where
  /-- Over exactly when more than the limit was charged. -/
  isOver_iff : b.isOver = true ↔ limit < n
  /-- What is left otherwise. -/
  left_eq : b.isOver = false → b.left = limit - n

/-- The first charge to a budget is what was spent. -/
theorem Spent.start (limit : ℤ) (n : ℕ) : Spent limit n ((Budget.start limit).charge n) where
  isOver_iff := by simp [Budget.start, Budget.charge]
  left_eq _ := rfl

variable {b : Budget} {limit : ℤ} {n : ℕ}

/-- A charge adds to what was spent. -/
theorem Spent.charge (h : Spent limit n b) (m : ℕ) :
    Spent limit (n + m) (b.charge m) := by
  cases hb : b.isOver with
  | true =>
    have hlt : limit < n := h.isOver_iff.mp hb
    refine ⟨?_, ?_⟩
    · simp only [Budget.charge, hb, Bool.true_or, true_iff]
      push_cast
      omega
    · simp [Budget.charge, hb]
  | false =>
    have hleft := h.left_eq hb
    refine ⟨?_, ?_⟩
    · simp only [Budget.charge, hb, Bool.false_or, decide_eq_true_eq, hleft]
      push_cast
      omega
    · intro _
      simp only [Budget.charge, hleft]
      push_cast
      ring

/-- A budget that is not over was charged at most its limit. -/
theorem Spent.exceeded_iff (h : Spent limit n b) :
    exceeded (some b) = true ↔ limit < n := by
  simpa [exceeded] using h.isOver_iff

/-- Once over, a budget that is charged no more stands for any further charge. -/
theorem Spent.of_isOver (h : Spent limit n b) (hb : b.isOver = true) (m : ℕ) : Spent limit (n + m) b := by
  have hlt := h.isOver_iff.mp hb
  refine ⟨?_, ?_⟩
  · simp only [hb, true_iff]
    omega
  · simp [hb]

/-- Charges one after the other add up. -/
theorem Spent.chargeAll (h : Spent limit n b) (ns : List ℕ) :
    ∃ b', Meter.chargeAll (some b) ns = some b' ∧ Spent limit (n + ns.sum) b' := by
  induction ns generalizing n b with
  | nil => exact ⟨b, rfl, by simpa using h⟩
  | cons m ns ih =>
    obtain ⟨b', hb', hs⟩ := ih (h.charge m)
    refine ⟨b', hb', ?_⟩
    rw [List.sum_cons, ← Nat.add_assoc]
    exact hs

/-- The loop that stops early spends the size of the whole list, as far as being over goes, and has
kept the whole list when it is not over. -/
theorem Spent.addEach (h : Spent limit n b) (size : α → ℕ) (l : List α) :
    ∃ b', (Meter.addEach size (some b) l).2 = some b' ∧ Spent limit (n + (l.map size).sum) b' ∧
      (b'.isOver = false → (Meter.addEach size (some b) l).1 = l) := by
  induction l generalizing n b with
  | nil => exact ⟨b, rfl, by simpa using h, fun _ => rfl⟩
  | cons a l ih =>
    have ha := h.charge (size a)
    have hsum : n + ((a :: l).map size).sum = n + size a + (l.map size).sum := by
      rw [List.map_cons, List.sum_cons, Nat.add_assoc]
    rw [hsum]
    by_cases hover : (b.charge (size a)).isOver = true
    · -- The loop stops here; what follows could only be over by more.
      have hstop : Meter.addEach size (some b) (a :: l) = ([], some (b.charge (size a))) := by
        simp [Meter.addEach, Meter.charge, exceeded, hover]
      rw [hstop]
      have hlt := ha.isOver_iff.mp hover
      refine ⟨b.charge (size a), rfl, ⟨?_, ?_⟩, ?_⟩
      · simp only [hover, true_iff]
        omega
      · simp [hover]
      · simp [hover]
    · have hgo : Meter.addEach size (some b) (a :: l) =
          (a :: (Meter.addEach size (some (b.charge (size a))) l).1,
            (Meter.addEach size (some (b.charge (size a))) l).2) := by
        simp [Meter.addEach, Meter.charge, exceeded, hover]
      obtain ⟨b', hb', hs, hall⟩ := ih ha
      rw [hgo]
      exact ⟨b', hb', hs, fun hno => by rw [hall hno]⟩

/-! ## Machine integers -/

/-- Takes a charge as a machine does, whose integers `norm` brings into their range. -/
def Budget.chargeIn (norm : ℤ → ℤ) (b : Budget) (n : ℕ) : Budget :=
  ⟨norm (b.left - n), b.isOver || norm (b.left - n) < 0⟩

/-- A machine's budget goes over where the unbounded one does: as long as a limit is not over, what a charge of at most `m`
leaves is from `-m` to the limit, which the machine represents, and a budget that is over stays over. -/
theorem isOver_foldl_chargeIn {norm : ℤ → ℤ} {m : ℕ} (hleft : b.isOver = false → 0 ≤ b.left)
    (hnorm : ∀ z : ℤ, -(m : ℤ) ≤ z → z ≤ b.left → norm z = z) {ns : List ℕ} (hns : ∀ n ∈ ns, n ≤ m) {machine : Budget}
    (hmachine : if b.isOver then machine.isOver = true else machine = b) :
    (ns.foldl (Budget.chargeIn norm) machine).isOver = (ns.foldl Budget.charge b).isOver := by
  induction ns generalizing b machine with
  | nil =>
    cases hb : b.isOver <;> simp_all
  | cons n ns ih =>
    rw [List.forall_mem_cons] at hns
    have hsmaller : (b.charge n).left ≤ b.left := by
      simp [Budget.charge]
    refine ih (fun hnot => ?_) (fun z hlow hle => hnorm z hlow (hle.trans hsmaller)) hns.2 ?_
    · simp only [Budget.charge, Bool.or_eq_false_iff, decide_eq_false_iff_not, not_lt] at hnot
      exact hnot.2
    · cases hb : b.isOver with
      | true =>
        simp only [hb, if_true] at hmachine
        simp [Budget.charge, Budget.chargeIn, hb, hmachine]
      | false =>
        simp only [hb, Bool.false_eq_true, if_false] at hmachine
        subst hmachine
        have hnonneg := hleft hb
        have hsame : norm (machine.left - n) = machine.left - n := hnorm _ (by have := hns.1; omega) (by omega)
        simp only [Budget.charge, Budget.chargeIn, hsame, hb, Bool.false_or]
        split_ifs with hover
        exact hover

end Meter
