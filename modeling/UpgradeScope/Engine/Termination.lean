import UpgradeScope.Engine.Evaluate
import UpgradeScope.Inventory.Admit

/-!
# Whether an evaluation ends

Every loop of the evaluation runs over a list but one: `evalUpgradePath` spells out the path with a loop
that advances a version by one minor until it is past the target, on 64-bit integers whose size no
check bounds. Below the largest minor the loop takes as many turns as the target is ahead
(`pathLoop_eq_range`); at the largest minor no version is past the target and it never ends
(`pathLoop_of_maxInt`); and past it the target has wrapped to the least minor, and the loop takes no
turn at all.
-/

namespace UpgradeScope

open Go Sorting Kb

/-! ## The loop -/

/-- A wrapped integer is at most the largest. -/
theorem wrap64_le_maxInt (z : ℤ) : wrap64 z ≤ maxInt := by
  have h := Int.bmod_lt (x := z) (m := 2 ^ 64) (by norm_num)
  unfold wrap64 maxInt
  norm_num at h ⊢
  omega

variable {v target : Version} {X : External} {inv : Inventory}

/-- Below the largest minor, the loop takes the minors up to the target one by one. -/
theorem pathLoop_eq_range (n : ℕ) (hmajor : v.major = target.major) (hminor : v.minor + n = target.minor + 1)
    (hlo : 0 ≤ v.minor) (hhi : target.minor < maxInt) :
    pathLoop target n v = some ((List.range n).map fun i : ℕ => ⟨v.major, v.minor + i⟩) := by
  induction n generalizing v with
  | zero =>
    have hpast : ¬ v.le target = true := by
      rw [Version.le_iff]
      push_cast at hminor
      omega
    simp [pathLoop, hpast]
  | succ n ih =>
    have hle : v.le target = true := by
      rw [Version.le_iff]
      push_cast at hminor
      omega
    -- The increment stays in range, as the target is below the largest minor.
    have hnext : v.next = ⟨v.major, v.minor + 1⟩ := by
      unfold Version.next
      push_cast at hminor
      rw [wrap64_of_range (by omega) (by omega)]
    have hrest := ih (v := v.next) (by rw [hnext]; exact hmajor)
      (by rw [hnext]; push_cast at hminor ⊢; omega) (by rw [hnext]; dsimp only; omega)
    rw [pathLoop, if_pos hle, hrest, hnext, Option.map_some, List.range_succ_eq_map, List.map_cons,
      List.map_map]
    congr 2
    · simp
    · refine List.map_congr_left fun i _ => ?_
      simp only [Function.comp_apply, Nat.cast_succ]
      congr 1
      ring

/-- At the largest minor no version is past the target, and the loop does not end. -/
theorem pathLoop_of_maxInt (target : Version) (htarget : target.minor = maxInt) (fuel : ℕ)
    (hmajor : v.major = target.major) (hv : v.minor ≤ maxInt) : pathLoop target fuel v = none := by
  have hle : ∀ w : Version, w.major = target.major → w.minor ≤ maxInt → w.le target = true :=
    fun w hw hwm => Version.le_iff.mpr (Or.inr ⟨hw, by rw [htarget]; exact hwm⟩)
  induction fuel generalizing v with
  | zero => simp [pathLoop, hle v hmajor hv]
  | succ n ih =>
    rw [pathLoop, if_pos (hle v hmajor hv), ih (v := v.next) hmajor (wrap64_le_maxInt _)]
    rfl

/-- Past the largest minor the target has wrapped, and the loop takes no turn. -/
theorem pathLoop_of_neg (htarget : target.minor < 0) (fuel : ℕ) (hmajor : v.major = target.major) (hv : 0 ≤ v.minor) :
    pathLoop target fuel v = some [] := by
  have hpast : ¬ v.le target = true := by
    rw [Version.le_iff]
    omega
  cases fuel <;> simp [pathLoop, hpast]

/-! ## What the target and the start of the path are -/

/-- A parsed version has its components in the range of an `int`, none negative. -/
theorem version?_range {s : String} (h : version? X s = some v) :
    0 ≤ v.minor ∧ v.minor ≤ maxInt := by
  unfold version? at h
  cases hp : parseVersion X s with
  | error e => simp [hp, Except.toOption] at h
  | ok w =>
    obtain rfl : w = v := by simpa [hp, Except.toOption] using h
    exact (parseVersion_range hp).2

/-- The start of the path has its minor in the range of an `int`. -/
theorem upgradeFrom_range (h : upgradeFrom X inv = some v) :
    0 ≤ v.minor ∧ v.minor ≤ maxInt := by
  unfold upgradeFrom at h
  split_ifs at h
  have hmem : v ∈ apiserverVersions X inv := List.mem_of_head? h
  simp only [apiserverVersions, sortedVersions, List.mem_dedup, mem_sortOn] at hmem
  obtain ⟨s, -, hs⟩ := List.mem_filterMap.mp hmem
  exact version?_range hs

/-- A target the server uses: the next minor after the inventory's server version, or one that
`ParseTarget` accepts. -/
def ServerTarget (X : External) (inv : Inventory) (target : Version) : Prop :=
  (∃ v, version? X inv.serverVersion = some v ∧ target = v.next) ∨ ∃ s, parseTarget X s = .ok target

/-- The minor of a server's target is not negative, unless it wrapped to the least one. -/
theorem ServerTarget.range (h : ServerTarget X inv target) :
    0 ≤ target.minor ∧ target.minor ≤ maxInt ∨ target.minor = -2 ^ 63 := by
  rcases h with ⟨v, hv, rfl⟩ | ⟨s, hs⟩
  · obtain ⟨h0, h1⟩ := version?_range hv
    show 0 ≤ wrap64 (v.minor + 1) ∧ wrap64 (v.minor + 1) ≤ maxInt ∨ wrap64 (v.minor + 1) = -2 ^ 63
    by_cases hmax : v.minor = maxInt
    · right
      rw [hmax]
      decide
    · left
      rw [wrap64_of_range (by omega) (by omega)]
      omega
  · left
    unfold parseTarget parseMajorOne at hs
    cases hp : parseVersion X s with
    | error e => simp [hp] at hs
    | ok w =>
      rw [hp] at hs
      dsimp only at hs
      split_ifs at hs with hmajor
      dsimp only at hs
      split_ifs at hs with hold
      obtain rfl : w = target := by simpa using hs
      exact (parseVersion_range hp).2

/-! ## Termination -/

section Ends

variable (X : External) (inv : Inventory) (k : KB) (target : Version) (now : Time)

/-- `Evaluate` ends: some number of turns is enough for its loop. -/
def Terminates : Prop := ∃ fuel, (evaluate fuel X inv k target now).isSome = true

/-- The loop that spells out the path is reached, from this version. -/
def SpellsFrom (running : Version) : Prop :=
  upgradeFrom X inv = some running ∧ target.major = running.major ∧
    2 ≤ wrap64 (target.minor - running.minor) ∧ wrap64 (target.minor - running.minor) ≤ maxSpelledHops

/-- The loop takes exactly as many turns as the target is minors ahead, none of them past the
target. -/
def TakesHops : Prop :=
  ∀ running, SpellsFrom X inv target running → ∃ fuel steps, pathLoop target fuel running.next = some steps ∧
    (steps.length : ℤ) = wrap64 (target.minor - running.minor) ∧ ∀ v ∈ steps, v.le target = true

/-- The path is not spelled out to the largest minor, nor to a minor that wrapped past it. -/
def BelowLargestMinor : Prop :=
  ∀ running, SpellsFrom X inv target running → 0 ≤ target.minor ∧ target.minor < maxInt

end Ends

variable {X : External} {inv : Inventory} {k : KB} {target : Version} {now : Time}

/-- An evaluation ends within the turns that its upgrade path does. -/
theorem isSome_evaluate {fuel : ℕ} :
    (evaluate fuel X inv k target now).isSome = (evalUpgradePath X fuel inv target).isSome := by
  rw [evaluate_eq, foundFindings]
  cases hpath : evalUpgradePath X fuel inv target with
  | none => simp [checks, collect, hpath]
  | some fs => simp [checks, collect, hpath]

/-- The turns of the loop, when the path is below the largest minor. -/
theorem pathLoop_of_spellsFrom {running : Version} (h : SpellsFrom X inv target running)
    (hlo : 0 ≤ target.minor) (hhi : target.minor < maxInt) :
    ∃ steps, pathLoop target (target.minor - running.minor).toNat running.next = some steps ∧
      (steps.length : ℤ) = wrap64 (target.minor - running.minor) ∧ ∀ v ∈ steps, v.le target = true := by
  obtain ⟨hfrom, hmajor, h2, h3⟩ := h
  obtain ⟨hr0, hr1⟩ := upgradeFrom_range hfrom
  have hhops : wrap64 (target.minor - running.minor) = target.minor - running.minor :=
    wrap64_of_range (by unfold maxInt at *; omega) (by omega)
  rw [hhops] at h2 h3 ⊢
  have hnext : running.next = ⟨running.major, running.minor + 1⟩ := by
    unfold Version.next
    rw [wrap64_of_range (by omega) (by omega)]
  have hn : (((target.minor - running.minor).toNat : ℕ) : ℤ) = target.minor - running.minor :=
    Int.toNat_of_nonneg (by omega)
  -- Below the largest minor nothing wraps around, so the loop counts up to the target.
  refine ⟨_, pathLoop_eq_range _ (by rw [hnext]; exact hmajor.symm) ?_ ?_ hhi, ?_, ?_⟩
  · rw [hnext, hn]
    dsimp only
    omega
  · rw [hnext]
    dsimp only
    omega
  · rw [List.length_map, List.length_range, hn]
  · intro v hv
    obtain ⟨i, hi, rfl⟩ := List.mem_map.mp hv
    have hlt : (i : ℤ) < target.minor - running.minor := by
      rw [← hn]
      exact_mod_cast List.mem_range.mp hi
    refine Version.le_iff.mpr (Or.inr ⟨?_, ?_⟩)
    · rw [hnext]
      exact hmajor.symm
    · rw [hnext]
      dsimp only
      omega

/-- The upgrade path does not depend on the turns when the loop is not reached. -/
theorem isSome_evalUpgradePath {fuel : ℕ}
    (h : ∀ running, SpellsFrom X inv target running → (pathLoop target fuel running.next).isSome = true) :
    (evalUpgradePath X fuel inv target).isSome = true := by
  unfold evalUpgradePath
  cases hfrom : upgradeFrom X inv with
  | none => rfl
  | some running =>
    dsimp only
    split_ifs with hfar hhops
    · rfl
    · rw [not_or, not_not, not_lt] at hfar
      have hloop := h running ⟨hfrom, hfar.1, hfar.2, hhops⟩
      simpa using hloop
    · rfl

/-- Below the largest minor, the evaluation ends and its path takes a hop for each minor. -/
theorem BelowLargestMinor.terminates (hbelow : BelowLargestMinor X inv target) :
    Terminates X inv k target now ∧ TakesHops X inv target := by
  have hturns : ∀ running, SpellsFrom X inv target running →
      ∃ steps, pathLoop target (target.minor - running.minor).toNat running.next = some steps ∧
        (steps.length : ℤ) = wrap64 (target.minor - running.minor) ∧
          ∀ v ∈ steps, v.le target = true :=
    fun running h => pathLoop_of_spellsFrom h (hbelow running h).1 (hbelow running h).2
  refine ⟨?_, fun running h => ⟨_, hturns running h⟩⟩
  cases hfrom : upgradeFrom X inv with
  | none =>
    refine ⟨0, ?_⟩
    rw [isSome_evaluate]
    exact isSome_evalUpgradePath fun running h => by simp [SpellsFrom, hfrom] at h
  | some running =>
    refine ⟨(target.minor - running.minor).toNat, ?_⟩
    rw [isSome_evaluate]
    refine isSome_evalUpgradePath fun r hr => ?_
    obtain rfl : running = r := by simpa [hfrom] using hr.1
    obtain ⟨steps, hsteps, -⟩ := hturns running hr
    rw [hsteps]
    rfl

/-- `Evaluate` ends, and spells out exactly the minors between the cluster and the target, if and
only if the path it spells out does not lead to the largest minor or past it. This holds of every
inventory, admitted or not. -/
theorem evaluate_terminates_iff (X : External) (inv : Inventory) (k : KB) (target : Version) (now : Time)
    (htarget : ServerTarget X inv target) :
    Terminates X inv k target now ∧ TakesHops X inv target ↔ BelowLargestMinor X inv target := by
  constructor
  · rintro ⟨⟨fuel, hfuel⟩, hhops⟩ running hspells
    have hrunning := upgradeFrom_range hspells.1
    rcases htarget.range with ⟨hlo, hhi⟩ | hleast
    · refine ⟨hlo, lt_of_le_of_ne hhi fun hmax => ?_⟩
      obtain ⟨fuel', steps, hloop, -⟩ := hhops running hspells
      have hnone := pathLoop_of_maxInt target hmax fuel' (v := running.next) hspells.2.1.symm
        (wrap64_le_maxInt _)
      rw [hnone] at hloop
      cases hloop
    · -- The target wrapped: the loop takes no turn, and two or three were due.
      obtain ⟨fuel', steps, hloop, hlen, -⟩ := hhops running hspells
      obtain ⟨-, hmajor, h2, h3⟩ := hspells
      have hnotmax : running.minor ≠ maxInt := by
        intro hmax
        rw [hleast, hmax] at h2
        exact absurd h2 (by decide)
      have hnext : 0 ≤ running.next.minor := by
        show 0 ≤ wrap64 (running.minor + 1)
        rw [wrap64_of_range (by omega) (by omega)]
        omega
      rw [pathLoop_of_neg (by omega) fuel' (v := running.next) hmajor.symm hnext] at hloop
      obtain rfl := Option.some.inj hloop
      simp only [List.length_nil, Nat.cast_zero] at hlen
      omega
  · exact fun hbelow => hbelow.terminates

/-- Two minors below the target: the loop takes two turns. -/
theorem evaluate_terminates_two_hops :
    let inv : Inventory := { serverVersion := "v1.28.3" }
    let k : KB := { maxKnownK8s := ⟨1, 34⟩ }
    Terminates External.ascii inv k ⟨1, 30⟩ 0 ∧ TakesHops External.ascii inv ⟨1, 30⟩ := by
  intro inv k
  refine (evaluate_terminates_iff External.ascii inv k ⟨1, 30⟩ 0 (Or.inr ⟨"1.30", by decide +kernel⟩)).mpr ?_
  intro running _
  decide

/-- An admitted inventory and an accepted target for which `Evaluate` never ends: the largest minor,
from two minors below it. -/
theorem evaluate_diverges_at_largest_minor :
    let inv : Inventory := { serverVersion := "v1.9223372036854775805" }
    let k : KB := { maxKnownK8s := ⟨1, 34⟩ }
    admitInventory External.ascii inv = .ok inv ∧
      parseTarget External.ascii "1.9223372036854775807" = .ok ⟨1, maxInt⟩ ∧
      ¬ Terminates External.ascii inv k ⟨1, maxInt⟩ 0 := by
  intro inv k
  have hfrom : upgradeFrom External.ascii inv = some ⟨1, maxInt - 2⟩ := by decide +kernel
  refine ⟨(admitInventory_eq_ok _).mpr ⟨by decide +kernel, rfl⟩, by decide +kernel, ?_⟩
  rintro ⟨fuel, hfuel⟩
  rw [isSome_evaluate, evalUpgradePath, hfrom] at hfuel
  have hloop := pathLoop_of_maxInt ⟨1, maxInt⟩ rfl fuel (v := ⟨1, maxInt - 1⟩) rfl (by decide)
  have hnext : (⟨1, maxInt - 2⟩ : Version).next = ⟨1, maxInt - 1⟩ := by decide
  have hhops : wrap64 2 = 2 := by decide
  simp [hnext, hloop, hhops, maxSpelledHops] at hfuel

end UpgradeScope
