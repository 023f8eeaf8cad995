import UpgradeScope.Inventory.Cut
import UpgradeScope.Engine.Finding

/-!
# The outside text of a tool's result

`internal/mcp/clustertext.go`. An assistant reads what a tool returns next to the tool's own words, and most of it is text that
the cluster, a file or a server chose: it is counted, cut to `maxClusterTextBytes` and located in a notice. The walker copies a
document token by token. Values are cut alone. The names of an object are not, since cutting two long names, or one long name
that starts as another is written, would merge two members: the walker numbers a name that is taken. It keeps the names of the
objects it is in on one stack, and builds an object's table of written names only when one of them is first cut.
-/

namespace UpgradeScope.Mcp

open Go

/-! ## The words of the tool -/

/-- Digits only, between two numbers of them. -/
def isDigits (lo hi : ℕ) (cs : List Char) : Bool := lo ≤ cs.length && cs.length ≤ hi && cs.all Char.isDigit

/-- `dateForm`: "2026-01-31". -/
def dateForm (s : String) : Bool :=
  match s.toList.splitOn '-' with
  | [y, m, d] => isDigits 4 4 y && isDigits 2 2 m && isDigits 2 2 d
  | _ => false

/-- `minorPattern`: "1.30". -/
def minorForm (s : String) : Bool :=
  match s.toList.splitOn '.' with
  | [major, minor] => isDigits 1 major.length major && isDigits 1 minor.length minor
  | _ => false

/-- A price, "1234.56". -/
def priceForm (s : String) : Bool :=
  match s.toList.splitOn '.' with
  | [whole, cents] => isDigits 1 15 whole && isDigits 2 2 cents
  | _ => false

/-- A character of a module path. -/
def isPathChar (c : Char) : Bool := c.isLower || c.isDigit || c = '.' || c = '_' || c = '-'

/-- A module path of two to four segments. -/
def modulePath (cs : List Char) : Bool :=
  match cs.splitOn '/' with
  | first :: rest =>
    first.head?.any (fun c => c.isLower || c.isDigit) && first.length ≤ 31 && first.all isPathChar &&
      1 ≤ rest.length && rest.length ≤ 3 && rest.all fun s => 1 ≤ s.length && s.length ≤ 30 && s.all isPathChar
  | [] => false

/-- Eight lower-case hexadecimal digits. -/
def isDigest (cs : List Char) : Bool :=
  cs.length = 8 && cs.all fun c => c.isDigit || ('a' ≤ c && c ≤ 'f')

/-- `kbForm`: "k8s.io/api v0.37.1; lifecycle 696a4b81; registry de96a5da". -/
def kbForm (s : String) : Bool :=
  match s.toList.splitOn ' ' with
  | [path, release, word, digest, word', digest'] =>
    modulePath path && word = "lifecycle".toList && word' = "registry".toList &&
      (match release with
      | 'v' :: version =>
        match version.splitOn '.' with
        | [major, minor, patch] =>
          isDigits 1 4 major && isDigits 1 4 minor && patch.getLast? = some ';' && isDigits 1 4 patch.dropLast
        | _ => false
      | _ => false) &&
      digest.getLast? = some ';' && isDigest digest.dropLast && isDigest digest'
  | _ => false

/-- `toolWords`: the keys whose values upgradescope writes, each with the form it writes. -/
def toolWords : List (String × (String → Bool)) :=
  [("severity", fun s => s ∈ ["blocker", "warning", "info"]), ("was", fun s => s ∈ ["blocker", "warning", "info"]),
    ("verdict", fun s => s ∈ ["ready", "blocked", "unknown"]), ("baselineState", fun s => s ∈ ["new", "unchanged"]),
    ("provider", fun s => s ∈ ["eks", "gke", "aks"]), ("phase", fun s => s ∈ ["standard", "ending", "extended", "ended"]),
    ("currency", fun s => s ∈ ["USD"]), ("category", fun s => s ∈ knownCategories), ("target", minorForm),
    ("minor", minorForm), ("from", minorForm), ("to", minorForm), ("since", minorForm), ("extendedSupportFrom", dateForm),
    ("extendedSupportEnds", dateForm), ("priceAsOf", dateForm), ("annualCostDelta", priceForm), ("kbVersion", kbForm)]

/-- `isToolWord`. -/
def isToolWord (field s : String) : Bool := (toolWords.lookup field).any fun form => form s

/-- `freeTextKeys`. -/
def freeTextKeys : List String := ["ignore", "ignoreReason", "reason"]

/-- `pathKeys`: the names a listed location may pass through. -/
def pathKeys : List String :=
  ["reports", "findings", "objects", "suppressed", "notAssessed", "hops", "ignore", "ignoreReason", "reason"]

/-- `reportKeys`: the names that `api/report.schema.json` and the tools' wrappers declare. -/
def reportKeys : List String :=
  ["total", "truncated", "cluster", "addons", "addOnEvidenceAgeSeconds", "annualCostDelta", "annualCostNote", "apiServer",
    "baselineState", "blockers", "callers", "capability", "carried", "category", "changed", "citations", "clusterId",
    "currency", "detail", "expires", "extendedSupportCondition", "extendedSupportEnds", "extendedSupportFrom", "file",
    "filesBase", "findings", "from", "group", "hops", "ignore", "ignoreReason", "kbVersion", "key", "kubeContext", "line",
    "manager", "minor", "name", "namespace", "namespaces", "namespacesOmitted", "notAssessed", "objects", "objectsOmitted",
    "partial", "phase", "priceAsOf", "provider", "ready", "reason", "remediation", "renderedFrom", "required", "resource",
    "schemaVersion", "score", "serverVersion", "severity", "since", "skipped", "source", "subresource", "support",
    "suppressed", "target", "teams", "title", "to", "toolVersion", "unnamespaced", "unrecognizedImages",
    "unrecognizedImagesOmitted", "verdict", "version", "warnings", "was"]

/-! ## Cutting -/

/-- `MaxClusterTextBytes`. -/
def maxClusterTextBytes : ℕ := 2 * 1024

/-- `ClusterTextCutMark`. -/
def clusterTextCutMark : String := " …(cut by upgradescope mcp)"

/-- `cutClusterText`: whole characters only, ending in the mark. -/
def cutClusterText (s : String) : String :=
  utf8Prefix s (maxClusterTextBytes - byteLen clusterTextCutMark) ++ clusterTextCutMark

/-- `quoteOutside`. -/
def quoteOutside (s : String) : String := if byteLen s > maxClusterTextBytes then cutClusterText s else s

/-- `numbered`: a name with its number before the mark that it ends in, if it does. -/
def numbered (form : String) (n : ℕ) : String :=
  let suffix := " #" ++ n.repr
  let mark := if hasSuffix form clusterTextCutMark then clusterTextCutMark else ""
  let head := if hasSuffix form clusterTextCutMark then trimSuffix form clusterTextCutMark else form
  let limit := maxClusterTextBytes - byteLen mark - byteLen suffix
  (if byteLen head > limit then utf8Prefix head limit else head) ++ suffix ++ mark

/-! ## The walker -/

/-- A document that decodes: numbers keep their text, and objects their members, repeated ones too. -/
inductive Doc where
  | null
  | bool (b : Bool)
  | number (text : String)
  | string (s : String)
  | array (items : List Doc)
  | object (members : List (String × Doc))

/-- `clusterText`: what the walker found. -/
structure ClusterText where
  /-- The outside strings: every string but a tool word, object keys included. -/
  strings : ℕ := 0
  /-- Where the free text is, at most `maxListedFreeText` of it. -/
  freeText : List String := []
  /-- How much free text there is. -/
  freeTextTotal : ℕ := 0
  /-- The strings and keys that were cut. -/
  cut : ℕ := 0
  deriving DecidableEq

/-- `maxListedFreeText`. -/
def maxListedFreeText : ℕ := 20

/-- `clusterTextWalker`. -/
structure Walker where
  /-- The names, written as they were, of the objects being copied, the innermost object's last. -/
  plain : List String := []
  /-- What was found. -/
  found : ClusterText := {}
  deriving DecidableEq

/-- `objectNames`: what is known of the names of the object being copied. -/
structure ObjectNames where
  /-- Where its names start on the stack. -/
  base : ℕ
  /-- Every name written, and whether the walker made it, once one is cut. -/
  written : Option (List (String × Bool)) := none
  deriving DecidableEq

/-- The loop of `distinct`: the first of a form and its numbered forms that is not taken, among as many as are tried. -/
def firstFree (written : List (String × Bool)) (form : String) : ℕ → ℕ → String → Option String
  | 0, _, _ => none
  | tries + 1, n, out =>
    if (written.lookup out).isSome then firstFree written form tries (n + 1) (numbered form n) else some out

/-- `distinct`: a name the walker made, numbered if it is taken. As many names are tried as can be taken, and one more. -/
def distinct (written : List (String × Bool)) (form : String) : String :=
  (firstFree written form (written.length + 2) 2 form).getD form

/-- `key`: a member's name as the result carries it. -/
def key (w : Walker) (o : ObjectNames) (name : String) : String × Walker × ObjectNames :=
  let found := if name ∈ pathKeys || name ∈ reportKeys then w.found else { w.found with strings := w.found.strings + 1 }
  if byteLen name ≤ maxClusterTextBytes then
    match o.written with
    | none => (name, { plain := w.plain ++ [name], found := found }, o)
    | some written =>
      if written.lookup name = some true then
        let out := distinct written name
        (out, { w with found := found }, { o with written := some ((out, true) :: written) })
      else (name, { w with found := found }, { o with written := some ((name, false) :: written) })
  else
    let written := o.written.getD ((w.plain.drop o.base).map fun k => (k, false))
    let out := distinct written (cutClusterText name)
    (out, { w with found := { found with cut := found.cut + 1 } }, { o with written := some ((out, true) :: written) })

/-- `escapePointer`. -/
def escapePointer (s : String) : String :=
  String.ofList (s.toList.flatMap fun c => if c = '~' then ['~', '0'] else if c = '/' then ['~', '1'] else [c])

/-- What a string adds to what was found. -/
def ClusterText.add (found : ClusterText) (path field : String) (listable : Bool) (s : String) : ClusterText :=
  { strings := found.strings + if isToolWord field s then 0 else 1
    freeText :=
      if field ∈ freeTextKeys && listable && found.freeText.length < maxListedFreeText then found.freeText ++ [path]
      else found.freeText
    freeTextTotal := found.freeTextTotal + if field ∈ freeTextKeys then 1 else 0
    cut := found.cut + if byteLen s > maxClusterTextBytes then 1 else 0 }

mutual

/-- `value`: the copy of a value at a path; `field` is the member that holds it, or holds the array it is in. -/
def value (path field : String) (listable : Bool) (w : Walker) : Doc → Doc × Walker
  | .null => (.null, w)
  | .bool b => (.bool b, w)
  | .number t => (.number t, w)
  | .string s => (.string (quoteOutside s), { w with found := w.found.add path field listable s })
  | .array items =>
    let (items, w) := itemsFrom path field listable 0 w items
    (.array items, w)
  | .object members =>
    let (members, w') := membersFrom path listable w { base := w.plain.length } members
    (.object members, { w' with plain := w'.plain.take w.plain.length })

/-- The elements of an array, from an index on. -/
def itemsFrom (path field : String) (listable : Bool) (i : ℕ) (w : Walker) : List Doc → List Doc × Walker
  | [] => ([], w)
  | d :: ds =>
    let (d, w) := value (path ++ "/" ++ i.repr) field listable w d
    let (ds, w) := itemsFrom path field listable (i + 1) w ds
    (d :: ds, w)

/-- The members of an object. -/
def membersFrom (path : String) (listable : Bool) (w : Walker) (o : ObjectNames) :
    List (String × Doc) → List (String × Doc) × Walker
  | [] => ([], w)
  | (name, d) :: ms =>
    let (out, w, o) := key w o name
    let (d, w) := value (path ++ "/" ++ escapePointer name) name (listable && name ∈ pathKeys) w d
    let (ms, w) := membersFrom path listable w o ms
    ((out, d) :: ms, w)

end

/-- `markClusterText`: the document with its outside text cut, and what was found. -/
def markClusterText (doc : Doc) : Doc × ClusterText :=
  let (out, w) := value "" "" true {} doc
  (if w.found.cut = 0 then doc else out, w.found)

end UpgradeScope.Mcp
