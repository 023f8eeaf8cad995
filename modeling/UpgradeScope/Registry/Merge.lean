import UpgradeScope.Registry.Claims
import UpgradeScope.Lib.SortFunc

/-!
# Merging an operator's entries

`registry/extra.go` and `registry/claims.go`: `Merge` puts an operator's entries in the place of the embedded ones of
their ids, or beside them, and `MergeConflicts` lists what the merged registry claims twice. An operator's matcher has
the precedence of tags over paths only where the embedded entry of its id has that very matcher (`blessed`).
-/

namespace UpgradeScope.Registry

open Go

/-! ## The merged registry -/

/-- `strings.Compare`. -/
def compareStrings (a b : String) : ℤ := if a < b then -1 else if b < a then 1 else 0

/-- The ids of an operator's entries. -/
def isExtra (extra : List AddOn) (id : String) : Bool := extra.any fun e => e.id = id

/-- `Merge`, with `rest` for what `slices.SortFunc` does to more than 12 entries. -/
def merge (rest : (AddOn → AddOn → ℤ) → List AddOn → List AddOn) (base extra : List AddOn) : List AddOn :=
  SortFunc.sortFunc rest (fun a b => compareStrings a.id b.id)
    ((base.filter fun a => !isExtra extra a.id) ++ extra)

section Conflicts

variable (X : External) (base extra : List AddOn)

/-- The embedded entry of an id. -/
def embedded (id : String) : Option AddOn := base.reverse.find? fun a => a.id = id

/-- Whether an owner's matcher has the precedence of tags: it is embedded, or the embedded entry of its id has it. -/
def blessed (owner : AddOn) (matcher : String) : Bool :=
  if !isExtra extra owner.id then true else (embedded base owner.id).any fun old => matcher ∈ old.imageClaims

/-- `sameRepository`: the matchers that name a repository one of another's matchers names. -/
def sameRepository (current mine : List String) : List String :=
  current.filter fun c => mine.any fun m =>
    pathMatches (splitTagPattern c).1 (splitTagPattern m).1 || pathMatches (splitTagPattern m).1 (splitTagPattern c).1

/-- `quoteAll`. -/
def quoteAll (ss : List String) : String := join (ss.map X.quote) ", "

/-- The fix that `MergeConflicts` suggests for a conflict of two entries. -/
def mergeHint (a b : AddOn) (claim : String) : String :=
  let (mine, other) := if !isExtra extra a.id then (b, a) else (a, b)
  if !isExtra extra mine.id || isExtra extra other.id then ""
  else match embedded base mine.id with
    | none => ""
    | some old =>
      let now := sameRepository old.imageClaims mine.imageClaims
      let hint := s!"your {mine.id} replaces the embedded entry of that id, and the embedded registry now claims this " ++
        s!"{claim} under {other.id}"
      let instead := if claim = "image" ∧ now ≠ [] then
          s!", and the embedded {mine.id} claims {quoteAll X now} instead"
        else ""
      hint ++ instead ++
        s!": if your file is a copy of registry/data/{mine.id}.yaml from an earlier release, copy the current one again " ++
        s!"and re-apply your edits; otherwise replace {other.id} too, by using its id"

/-- `MergeConflicts`. -/
def mergeConflicts (rest : (AddOn → AddOn → ℤ) → List AddOn → List AddOn) : List String :=
  claimConflictsWith X (some (blessed base extra)) (some (mergeHint X base extra)) (merge rest base extra)

end Conflicts

/-! ## What it holds -/

section Merged

variable {rest : (AddOn → AddOn → ℤ) → List AddOn → List AddOn} {base extra : List AddOn}

/-- The merged registry holds the embedded entries that are not replaced, and the operator's. -/
theorem merge_perm (hrest : SortFunc.Sorts rest) :
    (merge rest base extra).Perm ((base.filter fun a => !isExtra extra a.id) ++ extra) :=
  (SortFunc.sorts_sortFunc hrest).perm _ _

/-- An embedded entry that is found is one. -/
theorem mem_of_embedded {id : String} {old : AddOn} (h : embedded base id = some old) : old ∈ base := by
  have := List.mem_of_find?_eq_some h
  simpa using this

end Merged

end UpgradeScope.Registry
