import Mathlib.Data.Nat.Choose.Basic
import Mathlib.Tactic.Linarith
import Mathlib.Tactic.Ring
import UpgradeScope.Suppress.Apply

/-!
# What a file glob means, and what matching it costs

`matchSegments` of `internal/suppress/suppress.go` answers whether the segments of a path can be divided into
consecutive runs that the segments of the glob stand for, a `**` for any run and every other one for a single segment
(`matchFile_iff`). The recursion at a `**` is on the rest of the glob, so the answer comes within as many nested calls as
the glob has segments.

The same function with its calls and segment comparisons counted: at a `**` it tries
every suffix of the path, and at each of them the segments after it, so a `**` behind another one is tried again from
every place that leads to it (`globCost_nested`). Only a `**` that nothing but `**` follows ends the search where it is
reached. Where no other `**` is tried a second time (`TriedOnce`) the match takes at most the product of the two lengths.
-/

namespace UpgradeScope.Suppress

open Go

/-- The first of a list for which a test succeeds: whether there is one, and what the tests that were run cost. -/
def firstOf {α : Type} (test : α → Bool × ℕ) : List α → Bool × ℕ
  | [] => (false, 0)
  | a :: as =>
    if (test a).1 then (true, (test a).2) else ((firstOf test as).1, (test a).2 + (firstOf test as).2)

section Match

variable (X : External)

/-- `matchSegments` with what it does counted: every call it makes of itself and every segment it compares. -/
def matchCounted : List String → List String → Bool × ℕ
  | [], segs => (segs = [], 0)
  | p :: pattern, segs =>
    if p = "**" then
      firstOf (fun rest => ((matchCounted pattern rest).1, 1 + (matchCounted pattern rest).2)) segs.tails
    else match segs with
      | [] => (false, 0)
      | s :: rest =>
        if X.globMatch p s then ((matchCounted pattern rest).1, 1 + (matchCounted pattern rest).2) else (false, 1)

/-- The segments of a cleaned path. -/
def cleanPath (p : String) : List String := split (pathClean p) '/'

/-- The calls of `matchSegments` and the comparisons of segments that `matchFile` makes. -/
def matchFileCost (pattern name : String) : ℕ := 1 + (matchCounted X (cleanPath pattern) (cleanPath name)).2

/-- The places of a path, as what is left of it there, at which the segments after `pattern` are tried, in the order in
which they are while none of them matches. -/
def places : List String → List String → List (List String)
  | [], segs => [segs]
  | p :: pattern, segs =>
    if p = "**" then segs.tails.flatMap (places pattern)
    else match segs with
      | [] => []
      | s :: rest => if X.globMatch p s then places pattern rest else []

/-! ## What a glob means -/

/-- A segment of a glob stands for a run of path segments: `**` for any, another one for a single segment that
`path.Match` matches with it. -/
def StandsFor (p : String) (run : List String) : Prop := p = "**" ∨ p ≠ "**" ∧ ∃ s, run = [s] ∧ X.globMatch p s = true

/-- The segments of a path are the runs that the segments of a glob stand for, one after the other. -/
def Spells (pattern segs : List String) : Prop := ∃ runs : List (List String), runs.flatten = segs ∧
  List.Forall₂ (StandsFor X) pattern runs

variable {p : String} {l : List (List String)} {n : ℕ} {segs : List String}

/-- An empty glob spells the empty path. -/
theorem spells_nil : Spells X [] segs ↔ segs = [] := by
  constructor
  · rintro ⟨runs, rfl, hruns⟩
    rw [List.forall₂_nil_left_iff.mp hruns]
    rfl
  · rintro rfl
    exact ⟨[], rfl, .nil⟩

/-- The first segment of a glob stands for a first run, and the others spell what is left. -/
theorem spells_cons {pattern segs : List String} :
    Spells X (p :: pattern) segs ↔ ∃ run rest, run ++ rest = segs ∧ StandsFor X p run ∧ Spells X pattern rest := by
  constructor
  · rintro ⟨runs, rfl, hruns⟩
    obtain ⟨run, rest, hrun, hrest, rfl⟩ := List.forall₂_cons_left_iff.mp hruns
    exact ⟨run, rest.flatten, rfl, hrun, rest, rfl, hrest⟩
  · rintro ⟨run, _, rfl, hrun, runs, rfl, hrest⟩
    exact ⟨run :: runs, rfl, .cons hrun hrest⟩

/-- A glob that starts with `**` spells a path when the others spell a suffix. -/
theorem spells_span {pattern segs : List String} :
    Spells X ("**" :: pattern) segs ↔ ∃ rest ∈ segs.tails, Spells X pattern rest := by
  rw [spells_cons]
  constructor
  · rintro ⟨run, rest, rfl, -, hrest⟩
    exact ⟨rest, (List.mem_tails _ _).mpr (List.suffix_append run rest), hrest⟩
  · rintro ⟨rest, htail, hrest⟩
    obtain ⟨run, rfl⟩ := (List.mem_tails _ _).mp htail
    exact ⟨run, rest, rfl, .inl rfl, hrest⟩

/-- A glob that starts with another segment spells a path whose first segment that one matches. -/
theorem spells_segment (hp : p ≠ "**") {pattern segs : List String} :
    Spells X (p :: pattern) segs ↔ ∃ s rest, segs = s :: rest ∧ X.globMatch p s = true ∧ Spells X pattern rest := by
  rw [spells_cons]
  constructor
  · rintro ⟨run, rest, rfl, hspan | ⟨-, s, rfl, hs⟩, hrest⟩
    · exact absurd hspan hp
    · exact ⟨s, rest, rfl, hs, hrest⟩
  · rintro ⟨s, rest, rfl, hs, hrest⟩
    exact ⟨[s], rest, rfl, .inr ⟨hp, s, rfl, hs⟩, hrest⟩

/-- `matchSegments` decides whether a glob spells a path. -/
theorem matchSegments_iff (pattern segs : List String) : matchSegments X pattern segs = true ↔ Spells X pattern segs := by
  induction pattern generalizing segs with
  | nil => rw [spells_nil, matchSegments, decide_eq_true_eq]
  | cons p pattern ih =>
    unfold matchSegments
    by_cases hp : p = "**"
    · rw [if_pos hp, hp, spells_span, List.any_eq_true]
      simp only [ih]
    · rw [if_neg hp, spells_segment X hp]
      cases segs with
      | nil => simp
      | cons s rest => simp [ih]

instance (pattern segs : List String) : Decidable (Spells X pattern segs) := decidable_of_iff _ (matchSegments_iff X pattern segs)

/-- No `**` with a segment other than `**` after it is tried from a second place: the segments before it lead to one place
at most, or what starts with it spells what is left of the path at the first. -/
def TriedOnce (pattern segs : List String) : Prop := ∀ i < pattern.length, pattern[i]? = some "**" →
  (∃ p ∈ pattern.drop (i + 1), p ≠ "**") →
    (places X (pattern.take i) segs).length ≤ 1 ∨
      ∀ rest ∈ (places X (pattern.take i) segs).head?, Spells X (pattern.drop i) rest

instance (pattern segs : List String) : Decidable (TriedOnce X pattern segs) := by
  unfold TriedOnce
  infer_instance

/-- The loop at a `**`: the first suffix that a test accepts ends it, and a test that has not answered leaves it without
an answer. -/
def anyWithin (test : List String → Option Bool) : List (List String) → Option Bool
  | [] => some false
  | rest :: more => (test rest).bind fun found => if found then some true else anyWithin test more

/-- `matchSegments` with at most so many nested calls and turns of its loop; `none` when it has not answered by then. -/
def matchWithin : ℕ → List String → List String → Option Bool
  | 0, _, _ => none
  | _ + 1, [], segs => some (segs = [])
  | n + 1, p :: pattern, segs =>
    if p = "**" then anyWithin (matchWithin n pattern) segs.tails
    else match segs with
      | [] => some false
      | s :: rest => if X.globMatch p s then matchWithin n pattern rest else some false

/-- Tests that answer make a loop that answers. -/
theorem anyWithin_eq {test : List String → Option Bool} {answer : List String → Bool} (h : ∀ rest, test rest = some (answer rest))
    (l : List (List String)) : anyWithin test l = some (l.any answer) := by
  induction l with
  | nil => rfl
  | cons rest l ih =>
    rw [anyWithin, h, Option.bind_some, ih, List.any_cons]
    cases answer rest <;> rfl

/-- More nested calls than the glob has segments are enough. -/
theorem matchWithin_eq {pattern : List String} (h : pattern.length < n) (segs : List String) :
    matchWithin X n pattern segs = some (matchSegments X pattern segs) := by
  induction pattern generalizing n segs with
  | nil =>
    obtain ⟨m, rfl⟩ := Nat.exists_eq_succ_of_ne_zero (Nat.ne_of_gt h)
    rfl
  | cons p pattern ih =>
    obtain ⟨m, rfl⟩ := Nat.exists_eq_succ_of_ne_zero (Nat.ne_of_gt (Nat.zero_lt_of_lt h))
    have hm : pattern.length < m := by
      rw [List.length_cons] at h
      omega
    unfold matchWithin matchSegments
    by_cases hp : p = "**"
    · rw [if_pos hp, if_pos hp]
      exact anyWithin_eq (fun rest => ih hm rest) _
    · rw [if_neg hp, if_neg hp]
      cases segs with
      | nil => rfl
      | cons s rest =>
        dsimp only
        rw [ih hm]
        cases X.globMatch p s <;> rfl

/-- A file glob matches a path exactly when its segments can be matched with the path's in order, and the matcher
answers within one nested call more than the glob has segments. -/
theorem matchFile_iff (pattern name : String) :
    (matchFile X pattern name = true ↔ Spells X (cleanPath pattern) (cleanPath name)) ∧
      ∀ more, matchWithin X ((cleanPath pattern).length + 1 + more) (cleanPath pattern) (cleanPath name) =
        some (matchFile X pattern name) :=
  ⟨matchSegments_iff X _ _, fun _ => matchWithin_eq X (by omega) _⟩

/-! ## The counted matcher is the matcher -/

/-- A `**` tries every suffix of the path. -/
theorem matchCounted_span (pattern segs : List String) :
    matchCounted X ("**" :: pattern) segs =
      firstOf (fun rest => ((matchCounted X pattern rest).1, 1 + (matchCounted X pattern rest).2)) segs.tails := rfl

/-- A pattern whose first segment is no `**` does not match the empty path, and compares nothing. -/
theorem matchCounted_nil (hp : p ≠ "**") (pattern : List String) :
    matchCounted X (p :: pattern) [] = (false, 0) := by
  unfold matchCounted
  rw [if_neg hp]

/-- A pattern whose first segment is no `**` compares it with the first segment of the path. -/
theorem matchCounted_cons (hp : p ≠ "**") (pattern : List String) (s : String) (rest : List String) :
    matchCounted X (p :: pattern) (s :: rest) =
      if X.globMatch p s then ((matchCounted X pattern rest).1, 1 + (matchCounted X pattern rest).2)
      else (false, 1) := by
  conv_lhs => unfold matchCounted
  rw [if_neg hp]

/-- The first that succeeds is there when one is. -/
theorem firstOf_fst {α : Type} (test : α → Bool × ℕ) (l : List α) : (firstOf test l).1 = l.any fun a => (test a).1 := by
  induction l with
  | nil => rfl
  | cons a l ih =>
    rw [firstOf, List.any_cons]
    split_ifs with ha
    · simp [ha]
    · simp [ha, ih]

/-- Counting does not change the answer. -/
theorem matchCounted_fst (pattern segs : List String) :
    (matchCounted X pattern segs).1 = matchSegments X pattern segs := by
  induction pattern generalizing segs with
  | nil => rfl
  | cons p pattern ih =>
    conv_rhs => unfold matchSegments
    by_cases hp : p = "**"
    · rw [if_pos hp, hp, matchCounted_span, firstOf_fst]
      simp only [ih]
    · rw [if_neg hp]
      cases segs with
      | nil => rw [matchCounted_nil X hp]
      | cons s rest =>
        rw [matchCounted_cons X hp]
        split_ifs with hs
        · simp [hs, ih]
        · simp [hs]

/-! ## Costs -/

/-- What one test costs more, all of them cost more. -/
theorem firstOf_succ_le {α : Type} (test : α → Bool × ℕ) (l : List α) :
    (firstOf (fun a => ((test a).1, 1 + (test a).2)) l).2 ≤ l.length + (firstOf test l).2 := by
  induction l with
  | nil => simp [firstOf]
  | cons a l ih =>
    rw [firstOf, firstOf, List.length_cons]
    split_ifs with ha
    · dsimp only
      omega
    · dsimp only
      omega

/-- Where the first test succeeds or is the only one, it is what there is to pay for. -/
theorem firstOf_head {α : Type} {test : α → Bool × ℕ} {a : α} {l : List α} (h : (test a).1 = true ∨ l = []) :
    (firstOf test (a :: l)).2 = (test a).2 := by
  rw [firstOf]
  rcases h with h | rfl
  · rw [if_pos h]
  · split_ifs <;> simp [firstOf]

/-- Where no segment of the glob is left, nothing is compared. -/
theorem firstOf_nil (l : List (List String)) : (firstOf (matchCounted X []) l).2 = 0 := by
  induction l with
  | nil => rfl
  | cons segs l ih =>
    rw [firstOf, ih]
    split_ifs <;> rfl

/-- `**` and nothing else matches, and is done with a call for each and one for each suffix. -/
theorem matchCounted_spans (k : ℕ) (segs : List String) :
    (matchCounted X (List.replicate (k + 1) "**") segs).1 = true ∧
      (matchCounted X (List.replicate (k + 1) "**") segs).2 = k + 1 + segs.length := by
  induction k with
  | zero =>
    rw [List.replicate_one, matchCounted_span]
    induction segs with
    | nil => simp [firstOf, matchCounted]
    | cons s segs ih =>
      obtain ⟨hfst, hsnd⟩ := ih
      rw [List.tails_cons, firstOf, if_neg (by simp [matchCounted])]
      refine ⟨hfst, ?_⟩
      dsimp only
      rw [hsnd, matchCounted, List.length_cons]
      omega
  | succ k ih =>
    -- The first suffix tried is the whole path, and what is left of the glob matches it.
    have htails : segs.tails = segs :: segs.tails.tail := by cases segs <;> simp
    rw [List.replicate_succ, matchCounted_span, htails, firstOf, if_pos ih.1]
    refine ⟨rfl, ?_⟩
    dsimp only
    rw [ih.2]
    omega

/-- The places after a segment that is no `**`. -/
def after (p : String) (l : List (List String)) : List (List String) :=
  l.filterMap fun segs => segs.head?.bind fun s => if X.globMatch p s then some segs.tail else none

/-- A segment that is no `**` leads from a place to the one after it. -/
theorem flatMap_places_cons (hp : p ≠ "**") (pattern : List String) (l : List (List String)) :
    l.flatMap (places X (p :: pattern)) = (after X p l).flatMap (places X pattern) := by
  induction l with
  | nil => rfl
  | cons segs l ih =>
    rw [List.flatMap_cons, ih]
    cases segs with
    | nil =>
      have hafter : after X p ([] :: l) = after X p l := rfl
      simp [places, hp, hafter]
    | cons s rest =>
      by_cases hs : X.globMatch p s = true
      · simp [places, after, hp, hs]
      · simp [places, after, hp, hs]

/-- A segment that is no `**` is compared once at each place. -/
theorem firstOf_cons_le (hp : p ≠ "**") (pattern : List String) (l : List (List String)) :
    (firstOf (matchCounted X (p :: pattern)) l).2 ≤ l.length + (firstOf (matchCounted X pattern) (after X p l)).2 := by
  induction l with
  | nil => simp [firstOf]
  | cons segs l ih =>
    have hlen : (segs :: l).length = l.length + 1 := List.length_cons
    rw [firstOf]
    cases segs with
    | nil =>
      rw [matchCounted_nil X hp, if_neg (by decide)]
      have hafter : after X p ([] :: l) = after X p l := rfl
      rw [hafter]
      dsimp only
      omega
    | cons s rest =>
      rw [matchCounted_cons X hp]
      by_cases hs : X.globMatch p s = true
      · have hafter : after X p ((s :: rest) :: l) = rest :: after X p l := by simp [after, hs]
        rw [hafter, if_pos hs, firstOf]
        split_ifs with hrest
        · dsimp only
          omega
        · dsimp only
          omega
      · have hafter : after X p ((s :: rest) :: l) = after X p l := by simp [after, hs]
        rw [hafter, if_neg hs, if_neg (by decide)]
        dsimp only
        omega

/-- No `**` with a segment other than `**` after it is tried from a second place, when the search starts from several. -/
def TriedOnceFrom (pattern : List String) (l : List (List String)) : Prop := ∀ front back, pattern = front ++ "**" :: back →
  (∃ p ∈ back, p ≠ "**") →
    ∀ x y rest, l.flatMap (places X front) = x :: y :: rest → Spells X ("**" :: back) x

variable {X}

/-- What is said of every position is said of every split. -/
theorem TriedOnce.from {pattern segs : List String} (h : TriedOnce X pattern segs) : TriedOnceFrom X pattern [segs] := by
  rintro front back rfl hback x y rest hplaces
  rw [List.flatMap_singleton] at hplaces
  have hspan := h front.length (by simp) (by simp) (by simpa using hback)
  rw [List.take_left, List.drop_left, hplaces] at hspan
  rcases hspan with hlen | hspells
  · simp at hlen
  · exact hspells x rfl

/-- Past a segment that is no `**`. -/
theorem TriedOnceFrom.cons (hp : p ≠ "**") {pattern : List String} (h : TriedOnceFrom X (p :: pattern) l) :
    TriedOnceFrom X pattern (after X p l) := by
  rintro front back rfl hback x y rest hplaces
  rw [← flatMap_places_cons X hp] at hplaces
  exact h (p :: front) back rfl hback x y rest hplaces

/-- Past a `**`, of which only the first place is tried. -/
theorem TriedOnceFrom.span {pattern segs : List String} (h : TriedOnceFrom X ("**" :: pattern) (segs :: l)) :
    TriedOnceFrom X pattern segs.tails := by
  rintro front back rfl hback x y rest hplaces
  refine h ("**" :: front) back rfl hback x y (rest ++ l.flatMap (places X ("**" :: front))) ?_
  have hspan : places X ("**" :: front) segs = segs.tails.flatMap (places X front) := rfl
  rw [List.flatMap_cons, hspan, hplaces]
  rfl

/-- A search from at most `n + 1` places, none with more than `n` segments left, takes at most `n + 1` steps for each
segment of the glob. -/
theorem TriedOnceFrom.cost_le {pattern : List String} (h : TriedOnceFrom X pattern l) (hl : l.length ≤ n + 1)
    (hsegs : ∀ segs ∈ l, segs.length ≤ n) :
    (firstOf (matchCounted X pattern) l).2 ≤ pattern.length * (n + 1) := by
  induction pattern generalizing l with
  | nil => simp [firstOf_nil]
  | cons p pattern ih =>
    have hlen : (p :: pattern).length * (n + 1) = (n + 1) + pattern.length * (n + 1) := by
      rw [List.length_cons]
      ring
    rw [hlen]
    by_cases hp : p = "**"
    · subst hp
      cases l with
      | nil => simp [firstOf]
      | cons segs l =>
        have hn := hsegs segs List.mem_cons_self
        by_cases hback : ∃ p ∈ pattern, p ≠ "**"
        · -- The first place is the only one that is tried, and every suffix of what is left there.
          have hhead : (matchCounted X ("**" :: pattern) segs).1 = true ∨ l = [] := by
            cases l with
            | nil => exact .inr rfl
            | cons segs' l =>
              rw [matchCounted_fst, matchSegments_iff]
              exact .inl (h [] pattern rfl hback segs segs' l (by simp [places]))
          rw [firstOf_head hhead, matchCounted_span]
          have hcost := firstOf_succ_le (matchCounted X pattern) segs.tails
          have hrest := ih h.span (by rw [List.length_tails]; omega) fun rest hrest =>
            ((List.mem_tails rest segs).mp hrest).length_le.trans hn
          rw [List.length_tails] at hcost
          omega
        · -- Nothing but `**` is left, which matches at the first place.
          obtain ⟨k, rfl⟩ : ∃ k, pattern = List.replicate k "**" :=
            ⟨pattern.length, List.eq_replicate_of_mem fun p hp => not_not.mp fun hne => hback ⟨p, hp, hne⟩⟩
          obtain ⟨hfst, hsnd⟩ := matchCounted_spans X k segs
          rw [List.replicate_succ] at hfst hsnd
          rw [firstOf_head (.inl hfst), hsnd, List.length_replicate]
          nlinarith
    · have hcost := firstOf_cons_le X hp pattern l
      have hafter : (after X p l).length ≤ l.length := List.length_filterMap_le _ _
      have hrest := ih (h.cons hp) (hafter.trans hl) fun rest hrest => by
        obtain ⟨segs, hmem, hstep⟩ := List.mem_filterMap.mp hrest
        obtain ⟨s, -, hs⟩ := Option.bind_eq_some_iff.mp hstep
        split_ifs at hs
        obtain rfl := Option.some.inj hs
        exact (by simp : segs.tail.length ≤ segs.length).trans (hsegs segs hmem)
      omega

variable (X)

/-- A glob none of whose `**` is tried a second time, but for those that nothing else follows, is matched within the
product of the lengths. -/
theorem matchFileCost_le (pattern name : String) (h : TriedOnce X (cleanPath pattern) (cleanPath name)) :
    matchFileCost X pattern name ≤ ((cleanPath pattern).length + 1) * ((cleanPath name).length + 1) := by
  have hcost := h.from.cost_le (n := (cleanPath name).length) (by simp) (by simp)
  rw [firstOf_head (.inr rfl)] at hcost
  unfold matchFileCost
  rw [Nat.add_mul, Nat.one_mul]
  omega

/-- Before a segment that the path does not have, every `**` is tried from every place the ones before it were: the
cost is at least the number of ways to place them. -/
theorem choose_le_cost (hp : p ≠ "**") (k : ℕ) (h : ∀ s ∈ segs, X.globMatch p s = false) :
    (matchCounted X (List.replicate k "**" ++ [p]) segs).1 = false ∧
      (segs.length + k).choose k ≤ 1 + (matchCounted X (List.replicate k "**" ++ [p]) segs).2 := by
  induction k generalizing segs with
  | zero =>
    rw [List.replicate_zero, List.nil_append, Nat.choose_zero_right]
    refine ⟨?_, Nat.le_add_right 1 _⟩
    cases segs with
    | nil => rw [matchCounted_nil X hp]
    | cons s rest => rw [matchCounted_cons X hp, if_neg (by simp [h s List.mem_cons_self])]
  | succ k ih =>
    rw [List.replicate_succ, List.cons_append, matchCounted_span]
    induction segs with
    | nil =>
      simp [firstOf, (ih h).1]
    | cons s segs ihsegs =>
      -- Pascal's rule: the first suffix fails, and the others are those of the rest.
      obtain ⟨hfst, hsnd⟩ := ih h
      obtain ⟨hfst', hsnd'⟩ := ihsegs fun t ht => h t (List.mem_cons_of_mem _ ht)
      rw [List.tails_cons, firstOf, if_neg (by simp [hfst])]
      refine ⟨hfst', ?_⟩
      have hlen : (s :: segs).length + (k + 1) = (segs.length + (k + 1)) + 1 := by
        rw [List.length_cons]
        omega
      have hlen' : (s :: segs).length + k = segs.length + (k + 1) := by
        rw [List.length_cons]
        omega
      rw [hlen'] at hsnd
      rw [hlen, Nat.choose_succ_succ']
      dsimp only
      omega

end Match

/-! ## Globs that take longer -/

/-- A rule that ignores removed APIs under a file glob. -/
def fileRule (glob : String) : Rule := { category := "removed-api", file := glob, reason := "accepted" }

/-- Two `**`, each tried once: the second from the one place that a `prod` leads to. -/
theorem matchFileCost_le_twoSpans :
    (fileRule "apps/**/prod/**/x").validate External.ascii = none ∧
      matchFileCost External.ascii "apps/**/prod/**/x" "apps/a/prod/b/c" ≤ 36 := by
  refine ⟨by decide +kernel, ?_⟩
  have h := matchFileCost_le External.ascii "apps/**/prod/**/x" "apps/a/prod/b/c" (by decide +kernel)
  have hpattern : (cleanPath "apps/**/prod/**/x").length = 5 := by decide +kernel
  have hname : (cleanPath "apps/a/prod/b/c").length = 5 := by decide +kernel
  rw [hpattern, hname] at h
  exact h.trans (by decide)

/-- Two `**` before a name that no segment has, on a path of eight segments. -/
theorem globCost_nested :
    (fileRule "**/**/x").validate External.ascii = none ∧
      ((cleanPath "**/**/x").length + 1) * ((cleanPath "a/a/a/a/a/a/a/a").length + 1) = 36 ∧
      matchFileCost External.ascii "**/**/x" "a/a/a/a/a/a/a/a" = 91 := by
  refine ⟨?_, ?_, ?_⟩ <;> decide +kernel

end UpgradeScope.Suppress
