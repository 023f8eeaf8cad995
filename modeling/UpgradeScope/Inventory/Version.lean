import UpgradeScope.External

/-!
# Kubernetes versions

`internal/inventory/version.go`: a version is a major and a minor in 64-bit integers, read from the
forms clusters report (`parseVersion`), compared numerically and advanced by one minor (`next`).
-/

namespace UpgradeScope

open Go

/-- A Kubernetes minor version such as 1.34. -/
structure Version where
  /-- The major component. -/
  major : ℤ
  /-- The minor component. -/
  minor : ℤ
  deriving DecidableEq, Repr

namespace Version

instance : Inhabited Version := ⟨⟨0, 0⟩⟩

/-- `Version.String`: "1.34". -/
def string (v : Version) : String := s!"{v.major}.{v.minor}"

instance : ToString Version := ⟨string⟩

/-- `Version.Compare`: by major, then by minor. -/
def compare (v o : Version) : Ordering :=
  (Ord.compare v.major o.major).then (Ord.compare v.minor o.minor)

/-- `Version.Next`: the following minor, in 64-bit arithmetic. -/
def next (v : Version) : Version := ⟨v.major, wrap64 (v.minor + 1)⟩

/-- The version is at most the other: `v.Compare(o) <= 0`. -/
def le (v o : Version) : Bool := (v.compare o).isLE

/-- The version is newer than the other: `v.Compare(o) > 0`. -/
def gt (v o : Version) : Bool := (v.compare o).isGT

/-- A version compares equal only to itself. -/
theorem compare_eq_iff {v o : Version} : v.compare o = .eq ↔ v = o := by
  obtain ⟨a, b⟩ := v
  obtain ⟨c, d⟩ := o
  simp [compare, Ordering.then_eq_eq]

/-- The order of versions in numbers. -/
theorem le_iff {v o : Version} :
    v.le o = true ↔ v.major < o.major ∨ v.major = o.major ∧ v.minor ≤ o.minor := by
  obtain ⟨a, b⟩ := v
  obtain ⟨c, d⟩ := o
  simp only [le, compare]
  rcases lt_trichotomy a c with h | rfl | h
  · simp [compare_lt_iff_lt.mpr h, h]
  · simp only [compare_eq_iff_eq.mpr rfl, Ordering.eq_then, lt_irrefl, true_and, false_or]
    rw [Ordering.isLE_iff_ne_gt, Ordering.ne_gt_iff_isLE]
    exact Std.isLE_compare
  · simp only [compare_gt_iff_gt.mpr h, Ordering.gt_then]
    constructor
    · intro hg
      simp at hg
    · rintro (hlt | ⟨rfl, -⟩) <;> omega

/-- The text of a version is its own. -/
theorem string_injective {v o : Version} (h : v.string = o.string) : v = o := by
  obtain ⟨a, b⟩ := v
  obtain ⟨c, d⟩ := o
  have hdot : (toString ".").toList = ['.'] := rfl
  have hlist : a.repr.toList ++ '.' :: b.repr.toList = c.repr.toList ++ '.' :: d.repr.toList := by
    have := congrArg String.toList h
    simpa [string, hdot] using this
  obtain ⟨hac, hbd⟩ := append_sep_inj (dot_notMem_intRepr a) (dot_notMem_intRepr c) hlist
  rw [intRepr_injective (String.toList_inj.mp hac), intRepr_injective (String.toList_inj.mp hbd)]

end Version

/-- `parseComponent`: a non-negative decimal integer within 64 bits. -/
def parseComponent (X : External) (p : String) : Except String ℤ :=
  if p = "" then .error "empty component"
  else if p.toList.any fun c => c < '0' || c > '9' then
    .error s!"component {X.quote p} is not a non-negative integer"
  else match atoi p with
    | some n => .ok n
    | none => .error s!"component {X.quote p} out of range"

/-- `validIdentifiers`: a non-empty dot-separated list of non-empty identifiers. -/
def validIdentifiers (s : String) : Bool :=
  s ≠ "" ∧ (split s '.').all fun id => id ≠ "" ∧ id.toList.all fun c =>
    ('0' ≤ c ∧ c ≤ '9') ∨ ('a' ≤ c ∧ c ≤ 'z') ∨ ('A' ≤ c ∧ c ≤ 'Z') ∨ c = '-'

/-- `validSuffix`: an optional pre-release and an optional build. -/
def validSuffix (s : String) : Bool :=
  match cutPrefix? s "-" with
  | some rest =>
    let (pre, build, hasBuild) := cut rest '+'
    validIdentifiers pre && (!hasBuild || validIdentifiers build)
  | none => validIdentifiers (trimPrefix s "+")

/-- `ParseVersion`: MAJOR.MINOR, or MAJOR.MINOR.PATCH with an optional suffix, after an optional
`v`. -/
def parseVersion (X : External) (s : String) : Except String Version :=
  let trimmed := trimPrefix s "v"
  let bad := fun why => s!"invalid kubernetes version {X.quote s}: {why}"
  if trimmed = "" then .error (bad "empty")
  else
    let (core, suffix) := cutSuffixMark trimmed
    let parts := split core '.'
    if parts.length ≠ 2 ∧ parts.length ≠ 3 then
      .error (bad "want MAJOR.MINOR or MAJOR.MINOR.PATCH")
    else match parts.mapM (parseComponent X) with
      | .error e => .error (bad e)
      | .ok nums =>
        if suffix ≠ "" ∧ parts.length ≠ 3 then
          .error (bad "a pre-release or build suffix needs MAJOR.MINOR.PATCH")
        else if suffix ≠ "" ∧ ¬ validSuffix suffix then
          .error (bad s!"malformed pre-release or build suffix {X.quote suffix}")
        else match nums with
          | major :: minor :: _ => .ok ⟨major, minor⟩
          | _ => .error (bad "want MAJOR.MINOR or MAJOR.MINOR.PATCH")

/-- The version a text parses to, when it does. -/
def version? (X : External) (s : String) : Option Version := (parseVersion X s).toOption

/-- `oldestCoveredMinor`: the oldest minor the knowledge base covers. -/
def oldestCoveredMinor : ℤ := 16

/-- `OldestCovered`, the floor of every target a user gives. -/
def oldestCovered : Version := ⟨1, oldestCoveredMinor⟩

/-- `parseMajorOne`: a Kubernetes 1.x version. -/
def parseMajorOne (X : External) (s : String) : Except String Version :=
  match parseVersion X s with
  | .error e => .error e
  | .ok v =>
    if v.major ≠ 1 then
      .error s!"invalid kubernetes version {X.quote s}: major version must be 1"
    else .ok v

/-- `ParseTarget`: a 1.x version that is not below the oldest covered minor. -/
def parseTarget (X : External) (s : String) : Except String Version :=
  match parseMajorOne X s with
  | .error e => .error e
  | .ok v =>
    if (v.compare oldestCovered).isLT then
      let hint :=
        if 1 ≤ v.minor ∧ v.minor < 10 then
          s!"is this {v.major}.{v.minor}0 written as a YAML number? quote it (\"{v.major}.{v.minor}0\"); "
        else ""
      .error s!"invalid kubernetes version {X.quote s}: {hint}the oldest minor the knowledge base covers is {oldestCovered}, and a target below it would judge nothing"
    else .ok v

/-! ## The range of a parsed version -/

/-- The digits of a number that `atoi` accepts without a sign give a value within 64 bits. -/
theorem parseComponent_range {X : External} {p : String} {n : ℤ} (h : parseComponent X p = .ok n) :
    0 ≤ n ∧ n ≤ maxInt := by
  unfold parseComponent at h
  split_ifs at h with h1 h2
  cases hat : atoi p with
  | none => simp [hat] at h
  | some m =>
    rw [hat] at h
    obtain rfl : m = n := by simpa using h
    unfold atoi at hat
    -- A sign is not a digit, so only the last branch is left.
    have hdig : ∀ c ∈ p.toList, '0' ≤ c := by
      intro c hc
      by_contra hlt
      exact h2 (List.any_eq_true.mpr ⟨c, hc, by simp [not_le.mp hlt]⟩)
    split at hat
    · rename_i cs hcs
      exact absurd (hdig '-' (by rw [hcs]; simp)) (by decide)
    · rename_i cs hcs
      exact absurd (hdig '+' (by rw [hcs]; simp)) (by decide)
    · cases hd : digits? p.toList with
      | none => simp [hd] at hat
      | some k =>
        simp only [hd, Option.bind_some] at hat
        split_ifs at hat with hk
        obtain rfl := Option.some.inj hat
        unfold maxInt
        omega

/-- Every number of a list of parsed components is within 64 bits and not negative. -/
theorem mapM_parseComponent_range {X : External} (ps : List String) (ns : List ℤ)
    (h : ps.mapM (parseComponent X) = .ok ns) : ∀ n ∈ ns, 0 ≤ n ∧ n ≤ maxInt := by
  induction ps generalizing ns with
  | nil =>
    obtain rfl : [] = ns := by simpa [pure, Except.pure] using h
    simp
  | cons p ps ih =>
    intro n hn
    rw [List.mapM_cons] at h
    cases hp : parseComponent X p with
    | error e => simp [hp, bind, Except.bind] at h
    | ok m =>
      cases hps : ps.mapM (parseComponent X) with
      | error e => simp [hp, hps, bind, Except.bind] at h
      | ok ms =>
        obtain rfl : m :: ms = ns := by
          simpa [hp, hps, bind, Except.bind, pure, Except.pure] using h
        rcases List.mem_cons.mp hn with rfl | hn
        · exact parseComponent_range hp
        · exact ih ms hps n hn

/-- The components of a parsed version are within 64 bits and not negative. -/
theorem parseVersion_range {X : External} {s : String} {v : Version} (h : parseVersion X s = .ok v) :
    (0 ≤ v.major ∧ v.major ≤ maxInt) ∧ 0 ≤ v.minor ∧ v.minor ≤ maxInt := by
  simp only [parseVersion] at h
  cases hnums : (split (cutSuffixMark (trimPrefix s "v")).1 '.').mapM (parseComponent X) with
  | error e =>
    rw [hnums] at h
    split_ifs at h
  | ok nums =>
    have hall := mapM_parseComponent_range _ _ hnums
    rw [hnums] at h
    split_ifs at h
    cases nums with
    | nil => simp at h
    | cons major rest =>
      cases rest with
      | nil => simp at h
      | cons minor rest =>
        obtain rfl : Version.mk major minor = v := by simpa using h
        exact ⟨hall major (by simp), hall minor (by simp)⟩

end UpgradeScope
