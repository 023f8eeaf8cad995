import UpgradeScope.Lib.Strings

/-!
# What the program calls outside the repository

The packages the evaluation calls that are not part of the repository (Masterminds' semver,
`k8s.io/apimachinery`, client-go's scheme), and the few functions of Go's library whose answers come
from tables (Unicode case and printing, shortest decimals), are the fields of `External`. Every
definition of the model takes one, so what is proved holds whatever they answer; where the code
relies on more than that, the theorem says so as a hypothesis on the fields.
-/

namespace UpgradeScope

open Go

/-- A semantic version as Masterminds' `semver.NewVersion` reads it. -/
structure SemVer where
  /-- The major component. -/
  major : ℕ
  /-- The minor component. -/
  minor : ℕ
  /-- The patch component. -/
  patch : ℕ
  /-- The pre-release text after `-`. -/
  prerelease : String := ""
  /-- The build text after `+`. -/
  metadata : String := ""
  deriving DecidableEq, Repr

/-- The functions of other packages that the modelled code calls. -/
structure External where
  /-- `unicode.ToLower`. -/
  toLower : Char → Char
  /-- `strconv.Quote`, what `%q` prints. -/
  quote : String → String
  /-- `strconv.FormatFloat(v, 'f', -1, 64)`: the shortest decimal of a price. -/
  formatFloat : Float → String
  /-- `path.Match`; `none` is its error for a malformed pattern. -/
  pathMatch : String → String → Option Bool
  /-- `semver.NewVersion`. -/
  newVersion : String → Option SemVer
  /-- `semver.NewConstraint` and the constraint's `Check`; `none` when it does not parse. -/
  constraint : String → Option (SemVer → Bool)
  /-- apimachinery's `version.CompareKubeAwareVersionStrings`. -/
  compareKubeAware : String → String → ℤ
  /-- apimachinery's `content.IsDNS1123Label`, `content.IsDNS1123Subdomain`,
  `content.IsLabelValue` and `content.IsPathSegmentName`: the problems they list. -/
  labelProblems : String → List String
  /-- `content.IsDNS1123Subdomain`. -/
  subdomainProblems : String → List String
  /-- `content.IsLabelValue`. -/
  labelValueProblems : String → List String
  /-- `content.IsPathSegmentName`. -/
  pathSegmentProblems : String → List String
  /-- `unicode.IsPrint`. -/
  isPrint : Char → Bool
  /-- client-go's `scheme.Scheme.IsGroupRegistered`. -/
  groupRegistered : String → Bool

namespace External

variable (X : External)

/-- `strings.ToLower`, character by character. -/
def lower (s : String) : String := String.ofList (s.toList.map X.toLower)

/-- `path.Match` where the code ignores its error (`globMatch`). -/
def globMatch (pattern s : String) : Bool := (X.pathMatch pattern s).getD false

/-- A version of three numeric components, as `semver.NewVersion` reads it. -/
def threeParts (s : String) : Option SemVer :=
  match (split s '.').map atoi with
  | [some major, some minor, some patch] => some ⟨major.toNat, minor.toNat, patch.toNat, "", ""⟩
  | _ => none

/-- What the packages answer on the plain inputs of the examples: ASCII text, valid identifiers,
patterns without wildcards, three-part versions, no constraints and no scheme. -/
def ascii : External where
  toLower := Char.toLower
  quote s := "\"" ++ s ++ "\""
  formatFloat := toString
  pathMatch pattern s := some (pattern = s)
  newVersion := threeParts
  constraint _ := none
  compareKubeAware a b := if a < b then -1 else if a = b then 0 else 1
  labelProblems _ := []
  subdomainProblems _ := []
  labelValueProblems _ := []
  pathSegmentProblems _ := []
  isPrint c := 32 ≤ c.toNat && c.toNat < 127
  groupRegistered _ := false

end External

end UpgradeScope
