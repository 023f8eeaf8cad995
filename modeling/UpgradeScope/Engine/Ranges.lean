import UpgradeScope.Engine.Grouping
import UpgradeScope.Registry.Validate

/-!
# Which range judges a version

An entry can state the Kubernetes versions it supports twice: for a release line, and in compatibility rows. One of them
is to judge an installed version, the range of its line when the line states one (`judgedOutside`). `compatFor` asks the
line first but goes on to the rows whenever the line does not exclude the target, so a row can exclude a target that the
line's own range allows. `oneRange_iff` says that this is the only way the two differ.

A bound is read as `k8sOutOfRange` reads it: a missing one is open, and so is one that is no Kubernetes version.
-/

namespace UpgradeScope

open Go Registry

variable (X : External)

/-- The target is outside the bounds. -/
def outside (k8sMin k8sMax : String) (target : Version) : Bool :=
  (k8sMax ≠ "" && (version? X k8sMax).any fun kmax => (kmax.compare target).isLT) ||
    (k8sMin ≠ "" && (version? X k8sMin).any fun kmin => (target.compare kmin).isLT)

/-- The release line states a Kubernetes range. -/
def Registry.Cycle.statesRange (c : Cycle) : Bool := c.k8sMin ≠ "" || c.k8sMax ≠ ""

/-- The first compatibility row that matches the version excludes the target. -/
def rowExcludes (a : AddOn) (version : String) (target : Version) : Bool :=
  (a.compat.find? fun c => matchesRange X version c.range).any fun c => outside X c.k8sMin c.k8sMax target

/-- The one range that is to judge the version excludes the target: the range of its line when the line states one, else
the first row that matches. -/
def judgedOutside (a : AddOn) (version : String) (target : Version) : Bool :=
  match (cycleFor version a.cycles).filter (·.statesRange) with
  | some c => outside X c.k8sMin c.k8sMax target
  | none => rowExcludes X a version target

variable {X} {a : AddOn} {s : AddOnSubject} {target : Version} {i : AddOnInstall}

/-- `k8sOutOfRange` titles exactly the targets outside the bounds. -/
theorem k8sOutOfRange_isSome (name version k8sMin k8sMax : String) :
    (k8sOutOfRange X name version k8sMin k8sMax target).isSome = outside X k8sMin k8sMax target := by
  unfold k8sOutOfRange outside
  split_ifs with hmax hmin
  · simp [hmax.1, hmax.2]
  · simp [hmin.1, hmin.2]
  · rw [eq_comm, Option.isSome_none, Bool.or_eq_false_iff]
    constructor
    · simpa using hmax
    · simpa using hmin

/-- A line without a stated range excludes nothing. -/
theorem outside_of_not_statesRange {c : Cycle} (h : c.statesRange = false) : outside X c.k8sMin c.k8sMax target = false := by
  simp only [Cycle.statesRange, Bool.or_eq_false_iff, decide_eq_false_iff_not, not_not] at h
  simp [outside, h.1, h.2]

/-- `compatFor` asks the line, and then the rows. -/
theorem compatFor_isSome (version : String) :
    (compatFor X a version target).isSome =
      ((cycleFor version a.cycles).any (fun c => outside X c.k8sMin c.k8sMax target) || rowExcludes X a version target) := by
  have hrow : ((a.compat.find? fun c => matchesRange X version c.range).bind fun c =>
      (k8sOutOfRange X a.displayName version c.k8sMin c.k8sMax target).map fun title =>
        (title, s!"Installed version {version} matches compatibility range {X.quote c.range}, which supports Kubernetes {k8sRangeText c.k8sMin c.k8sMax}.",
          c.citations)).isSome = rowExcludes X a version target := by
    unfold rowExcludes
    cases a.compat.find? fun c => matchesRange X version c.range with
    | none => rfl
    | some c => rw [Option.bind_some, Option.isSome_map, k8sOutOfRange_isSome, Option.any_some]
  unfold compatFor
  dsimp only
  cases hline : cycleFor version a.cycles with
  | none =>
    rw [Option.bind_none, hrow]
    rfl
  | some c =>
    rw [Option.bind_some, Option.any_some, ← k8sOutOfRange_isSome a.displayName version]
    cases k8sOutOfRange X a.displayName version c.k8sMin c.k8sMax target with
    | none =>
      rw [Option.map_none, hrow]
      rfl
    | some title => rfl

/-- An install is a `chart-incompat` blocker: the finding of its group is one, and the install is among those it names. -/
def IncompatBlocker (X : External) (a : AddOn) (s : AddOnSubject) (target : Version) (i : AddOnInstall) : Prop :=
  i ∈ badInstalls X a s target ∧ ∀ key, ∃ f, evalAddOnCompat X a s target key = some f ∧ f.grade = (key, .blocker)

/-- An install with a version is one exactly when `compatFor` says so. -/
theorem incompatBlocker_iff (hi : i ∈ s.installs) (hv : i.version ≠ "") :
    IncompatBlocker X a s target i ↔ (compatFor X a i.version target).isSome = true := by
  constructor
  · rintro ⟨hbad, -⟩
    exact (of_decide_eq_true (List.mem_filter.mp hbad).2).2
  · intro hcompat
    have hbad : i ∈ badInstalls X a s target := List.mem_filter.mpr ⟨hi, decide_eq_true ⟨hv, hcompat⟩⟩
    refine ⟨hbad, fun key => ?_⟩
    have hgrade : (evalAddOnCompat X a s target key).map Finding.grade = some (key, .blocker) := by
      rw [grade_evalAddOnCompat, if_neg (List.ne_nil_of_mem hbad)]
    exact Option.map_eq_some_iff.mp hgrade

/-- One range judges the install's version. -/
def OneRange (X : External) (a : AddOn) (s : AddOnSubject) (target : Version) (i : AddOnInstall) : Prop :=
  IncompatBlocker X a s target i ↔ judgedOutside X a i.version target = true

/-- One range judges the version of an install, unless its line states a range that allows the target and the first row
that matches the version excludes it. -/
theorem oneRange_iff (X : External) (a : AddOn) (s : AddOnSubject) (target : Version) (hi : i ∈ s.installs)
    (hv : i.version ≠ "") :
    OneRange X a s target i ↔
      ¬ ∃ c, cycleFor i.version a.cycles = some c ∧ c.statesRange = true ∧ outside X c.k8sMin c.k8sMax target = false ∧
        rowExcludes X a i.version target = true := by
  unfold OneRange
  rw [incompatBlocker_iff hi hv, compatFor_isSome]
  unfold judgedOutside
  cases hline : cycleFor i.version a.cycles with
  | none => simp
  | some c =>
    cases hstates : c.statesRange with
    | false =>
      -- The line says nothing, so the rows judge, in the code too.
      simp [Option.filter, hstates, outside_of_not_statesRange hstates]
    | true =>
      cases hout : outside X c.k8sMin c.k8sMax target with
      | true => simp [Option.filter, hstates, hout]
      | false => simp [Option.filter, hstates, hout]

/-- What the packages answer about one constraint and two pages. -/
def istioExternal : External :=
  { External.ascii with
    constraint := fun s => if s = ">=1.26.0 <1.28.0" then some fun v => v.major = 1 && 26 ≤ v.minor && v.minor < 28 else none }

/-- URLs of the pages cited, and no addresses. -/
def istioLibrary : Library where
  parseURL s :=
    if s = "https://endoflife.date/istio" then .ok ⟨"https", "endoflife.date", "endoflife.date"⟩
    else if s = "https://istio.io/latest/docs/releases/supported-releases/" then .ok ⟨"https", "istio.io", "istio.io"⟩
    else .error "unexpected"
  isAddr _ := false
  constraintError _ := ""

/-- Istio with one release line, and a row over two lines that was read from another page. -/
def istioEntry : AddOn where
  id := "istio"
  displayName := "Istio"
  matchers := { images := ["istio/pilot"] }
  support := { status := .supported, citations := ["https://endoflife.date/istio"] }
  cycles :=
    [{ cycle := "1.27", eol := some (.date "2026-04-07"), k8sMin := "1.29", k8sMax := "1.33"
       citations := ["https://endoflife.date/istio"] }]
  compat :=
    [{ range := ">=1.26.0 <1.28.0", k8sMin := "1.29", k8sMax := "1.32"
       citations := ["https://istio.io/latest/docs/releases/supported-releases/"] }]

/-- An install of Istio 1.27.1, judged alone. -/
def istioInstall : AddOnInstall := ⟨"1.27.1", "image", ["istio-system"], []⟩

/-- The group of that install. -/
def istioSubject : AddOnSubject := newAddOnSubject "Istio" [istioInstall] true false

/-- At 1.32 the line and the row agree, and the install is no blocker. -/
theorem oneRange_iff_istio : OneRange istioExternal istioEntry istioSubject ⟨1, 32⟩ istioInstall := by
  refine (oneRange_iff istioExternal istioEntry istioSubject ⟨1, 32⟩ (i := istioInstall) (by decide +kernel)
    (by decide +kernel)).mpr ?_
  rintro ⟨c, -, -, -, hrow⟩
  have hno : rowExcludes istioExternal istioEntry istioInstall.version ⟨1, 32⟩ = false := by decide +kernel
  rw [hno] at hrow
  simp at hrow

/-- At 1.33 the line of an accepted entry allows the target and the row does not: the install is a blocker. -/
theorem not_oneRange_istio :
    validate istioExternal istioLibrary istioEntry = [] ∧ istioInstall ∈ istioSubject.installs ∧
      judgedOutside istioExternal istioEntry istioInstall.version ⟨1, 33⟩ = false ∧
      IncompatBlocker istioExternal istioEntry istioSubject ⟨1, 33⟩ istioInstall ∧
      ¬ OneRange istioExternal istioEntry istioSubject ⟨1, 33⟩ istioInstall := by
  have hi : istioInstall ∈ istioSubject.installs := by decide +kernel
  have hjudged : judgedOutside istioExternal istioEntry istioInstall.version ⟨1, 33⟩ = false := by decide +kernel
  have hblocker : IncompatBlocker istioExternal istioEntry istioSubject ⟨1, 33⟩ istioInstall :=
    (incompatBlocker_iff hi (by decide +kernel)).mpr (by decide +kernel)
  refine ⟨by decide +kernel, hi, hjudged, hblocker, fun h => ?_⟩
  rw [h.mp hblocker] at hjudged
  simp at hjudged

end UpgradeScope
