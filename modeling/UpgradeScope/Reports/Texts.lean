import UpgradeScope.Suppress.Baseline
import UpgradeScope.Server.Export

/-!
# The texts of a report

What `internal/junit`, `internal/sarif` and `internal/codequality` have in common: the sentences they write about findings,
objects and gaps, and a finding's check, its key or else its category.
-/

namespace UpgradeScope.Reports

open Go

/-- `sentence`: a text that ends a sentence. -/
def sentence (s : String) : String :=
  let s := trimSpace s
  if hasSuffix s "." || hasSuffix s "!" || hasSuffix s "?" then s else s ++ "."

/-- `objectName`: "namespace/name", "name" or "(unnamed)". -/
def objectName (o : ObjectRef) : String :=
  let name := if o.name = "" then "(unnamed)" else o.name
  if o.namespace ≠ "" then o.namespace ++ "/" ++ name else name

/-- `CapabilityGap.Label`. -/
def label (g : CapabilityGap) : String :=
  let marks := (if g.partly then ["partial"] else []) ++ (if g.required then ["required"] else [])
  if marks = [] then g.capability else g.capability ++ " (" ++ join marks ", " ++ ")"

/-- A finding's key, or its category when it has none. -/
def check (f : Finding) : String := if f.key ≠ "" then f.key else f.category.name

/-- How many objects a text names. -/
def maxListed : ℕ := 5

/-- `objectList`: up to `maxListed` objects, each as `place` puts it, then how many more there are with those that were never
recorded. -/
def objectList (place : ObjectRef → String) (objs : List ObjectRef) (extra : ℤ) : String :=
  let names := (objs.take maxListed).map fun o => objectName o ++ place o
  let more := wrap64 (objs.length - names.length + extra)
  join (names ++ if more > 0 then [s!"and {more} more"] else []) ", "

end UpgradeScope.Reports
