import UpgradeScope.Lib.Segments
import UpgradeScope.Registry.Types

/-!
# The validation of a registry entry

`registry/validate.go`, with what it calls of `registry/claims.go` and `registry/providers.go`: every violation of the
schema's rules by one entry, as the error texts it returns; an entry is accepted when there is none. The patterns are
written out as recognizers of the texts they match.
-/

namespace UpgradeScope.Registry

open Go

/-- A URL as `url.Parse` reads it. -/
structure Url where
  /-- The scheme. -/
  scheme : String
  /-- The host, with its port. -/
  host : String
  /-- `Hostname`: the host without its port. -/
  hostname : String

/-- What the validation calls outside the repository, beside `External`. -/
structure Library where
  /-- `url.Parse`, or its error. -/
  parseURL : String → Except String Url
  /-- `netip.ParseAddr` accepts the text. -/
  isAddr : String → Bool
  /-- The error of `semver.NewConstraint` about a text it refuses. -/
  constraintError : String → String

/-! ## Patterns -/

/-- `[0-9]`. -/
def isDigit (c : Char) : Bool := '0' ≤ c ∧ c ≤ '9'

/-- `[a-z0-9]`. -/
def isWord (c : Char) : Bool := 'a' ≤ c ∧ c ≤ 'z' ∨ isDigit c

/-- `[a-z0-9]+`. -/
def wordText (s : String) : Bool := s ≠ "" && s.toList.all isWord

/-- `[0-9]+`. -/
def digitText (s : String) : Bool := s ≠ "" && s.toList.all isDigit

/-- `idPattern` and `runtimePattern`: words separated by single dashes. -/
def idPattern (s : String) : Bool := (split s '-').all wordText

/-- `k8sVerPattern`: MAJOR.MINOR. -/
def k8sVerPattern (s : String) : Bool := (split s '.').length = 2 && (split s '.').all digitText

/-- `cyclePattern`: numbers separated by dots. -/
def cyclePattern (s : String) : Bool := (split s '.').all digitText

/-- `eolSlugPattern`: words separated by single dashes or dots. -/
def eolSlugPattern (s : String) : Bool := (split s '-').all fun part => (split part '.').all wordText

/-- Where the recognizer of a path segment is. -/
inductive SegmentState where
  /-- Before a word. -/
  | start
  /-- In a word, where the segment may end. -/
  | word
  /-- After a separator that takes no more. -/
  | separator
  /-- After one underscore. -/
  | underscore
  /-- After dashes. -/
  | dashes
  deriving DecidableEq

/-- One character of a path segment; `none` when no segment goes on with it. -/
def SegmentState.step : SegmentState → Char → Option SegmentState
  | state, c =>
    if isWord c then some .word
    else match state with
      | .word => if c = '.' then some .separator else if c = '_' then some .underscore
        else if c = '-' then some .dashes else none
      | .underscore => if c = '_' then some .separator else none
      | .dashes => if c = '-' then some .dashes else none
      | _ => none

/-- `pathSegmentPattern`: words separated by a dot, one or two underscores, or dashes. -/
def pathSegmentPattern (s : String) : Bool := s.toList.foldlM SegmentState.step .start = some .word

/-- `tagPatternPattern`: tag characters and wildcards. -/
def tagPatternPattern (s : String) : Bool :=
  s ≠ "" && s.toList.all fun c =>
    'A' ≤ c ∧ c ≤ 'Z' ∨ 'a' ≤ c ∧ c ≤ 'z' ∨ isDigit c ∨ c = '_' ∨ c = '.' ∨ c = '*' ∨ c = '-'

/-- The characters of a Kubernetes version in the registry. -/
theorem chars_of_k8sVerPattern {s : String} (h : k8sVerPattern s = true) {c : Char} (hc : c ∈ s.toList) :
    c = '.' ∨ isDigit c = true := by
  obtain ⟨-, h⟩ := Bool.and_eq_true_iff.mp h
  exact chars_of_split (fun part hpart => (Bool.and_eq_true_iff.mp (List.all_eq_true.mp h part hpart)).2) hc

/-- The characters of a release line in the registry. -/
theorem chars_of_cyclePattern {s : String} (h : cyclePattern s = true) {c : Char} (hc : c ∈ s.toList) :
    c = '.' ∨ isDigit c = true :=
  chars_of_split (fun part hpart => (Bool.and_eq_true_iff.mp (List.all_eq_true.mp h part hpart)).2) hc

/-- The characters of an id in the registry. -/
theorem chars_of_idPattern {s : String} (h : idPattern s = true) {c : Char} (hc : c ∈ s.toList) :
    c = '-' ∨ isWord c = true :=
  chars_of_split (fun part hpart => (Bool.and_eq_true_iff.mp (List.all_eq_true.mp h part hpart)).2) hc

/-! ## Image matchers -/

/-- `AnyPrefix`. -/
def anyPrefix : String := "*/"

/-- `ProviderBuildPrefixes`. -/
def providerBuildPrefixes : List String := ["gke.gcr.io/", "gcr.io/gke-release/", "mcr.microsoft.com/"]

/-- `IsProviderBuild`. -/
def isProviderBuild (repo : String) : Bool :=
  providerBuildPrefixes.any fun p => hasPrefix repo p || contains repo ("/" ++ p)

/-- `PathMatches`: a matcher claims a repository path. -/
def pathMatches (path matcher : String) : Bool :=
  match cutPrefix? matcher anyPrefix with
  | some name => path = name || hasSuffix path ("/" ++ name)
  | none =>
    if contains matcher "/" then path = matcher || hasSuffix path ("/" ++ matcher) else path = matcher

/-- `SplitTagPattern`: the path of a matcher and its tag pattern. -/
def splitTagPattern (matcher : String) : String × String := ((cut matcher ':').1, (cut matcher ':').2.1)

/-- `claimsOverlap`: some image is claimed by both matchers. -/
def claimsOverlap (a b : String) (tagsAhead : Bool) : Bool :=
  let (a, ta) := splitTagPattern a
  let (b, tb) := splitTagPattern b
  if isProviderBuild a ≠ isProviderBuild b ∨ tagsAhead ∧ (decide (ta = "") ≠ decide (tb = "")) then false
  else pathMatches a b || pathMatches b a

/-- `matchersOverlap`. -/
def matchersOverlap (a b : String) : Bool := claimsOverlap a b true

/-- `genericImageNames`. -/
def genericImageNames : List String :=
  ["controller", "operator", "server", "agent", "proxy", "manager", "webhook", "api", "app", "backend", "frontend", "web",
    "ui", "worker", "core", "node", "cli", "client", "daemon", "exporter", "gateway", "service", "sidecar", "init", "job",
    "runner", "scheduler", "metrics"]

section Validate

variable (X : External) (L : Library)

/-- `validateAnyPrefixMatcher`: the problem of the name after `*/`. -/
def validateAnyPrefixMatcher (name : String) : Option String :=
  let named := X.quote (anyPrefix ++ "etcd")
  if contains name "/" then
    some s!"an any-prefix matcher ({X.quote anyPrefix}) takes one final segment, e.g. {named}; write a longer path without it, which already matches under any prefix"
  else if ¬ pathSegmentPattern name then
    some "must be a lowercase repository path such as \"ingress-nginx/controller\""
  else if name ∈ genericImageNames then
    some s!"{X.quote name} is a generic name that other products publish too, so it cannot match under any registry prefix; use the vendor path (\"cilium/operator\")"
  else none

/-- `validateTagPattern`. -/
def validateTagPattern (p : String) : Option String :=
  if ¬ contains p "*" then
    some "must not carry a tag or digest; a tag pattern (\"path:*-hardened*\") needs a \"*\""
  else if ¬ tagPatternPattern p ∨ p.toList.all (· = '*') then
    some s!"tag pattern {X.quote p} must be tag characters (letters, digits, \"_\", \".\", \"-\") with \"*\" wildcards, and not \"*\" alone"
  else none

/-- The problem of a matcher's path: it names a host, or is not a repository path. -/
def validatePath (m : String) : Option String :=
  let path := ((providerBuildPrefixes.find? (hasPrefix m)).map (trimPrefix m)).getD m
  let segs := split path '/'
  let host := segs.headD ""
  let locations := join providerBuildPrefixes ", "
  if 1 < segs.length ∧ (contains host "." ∨ contains host ":" ∨ host = "localhost") then
    some s!"must be a repository path without the registry host (e.g. \"ingress-nginx/controller\"); only provider builds name theirs ({locations})"
  else if segs.any fun s => !pathSegmentPattern s then
    some "must be a lowercase repository path such as \"ingress-nginx/controller\""
  else none

/-- `validateImageMatcher`. -/
def validateImageMatcher (m : String) : Option String :=
  if contains m "@" then some "must not carry a tag or digest"
  else
    let (path, pattern, tagged) := cut m ':'
    let tagProblem :=
      if tagged then (validateTagPattern X pattern).or
        (if hasPrefix path anyPrefix then some s!"an any-prefix matcher ({X.quote anyPrefix}) takes no tag pattern" else none)
      else none
    match tagProblem with
    | some err => some err
    | none => match cutPrefix? path anyPrefix with
      | some name => validateAnyPrefixMatcher X name
      | none => validatePath path

/-! ## Citations and bounds -/

/-- `reservedHost`: no upstream page lives there. -/
def reservedHost (host : String) : Bool :=
  let host := trimSuffix (X.lower host) "."
  L.isAddr host || !contains host "." || ((split host '.').getLast?.getD "").toList.all isDigit ||
    (["test", "example", "invalid", "localhost", "local", "internal", "lan", "localdomain", "home.arpa"].any fun tld =>
      hasSuffix host ("." ++ tld)) ||
    ["example.com", "example.org", "example.net"].any fun name => host = name || hasSuffix host ("." ++ name)

/-- `validateCitationURL`. -/
def validateCitationURL (s : String) : Option String :=
  match L.parseURL s with
  | .error e => some ("not a valid URL: " ++ e)
  | .ok u =>
    if u.scheme ≠ "http" ∧ u.scheme ≠ "https" then
      some s!"citation must be an http(s) URL, got scheme {X.quote u.scheme}"
    else if u.host = "" then some "citation URL must have a host"
    else if reservedHost X L u.hostname then
      some s!"citation host {X.quote u.hostname} is a reserved or local host, not a source: cite the upstream page that states the fact"
    else none

/-- `validateCitations`. -/
def validateCitations (loc : String) (citations : List String) : List String :=
  if citations = [] then [loc ++ ": at least one citation required"]
  else citations.filterMap fun u =>
    (validateCitationURL X L u).map fun err => s!"{loc} citation {X.quote u}: {err}"

/-- `strconv.Atoi` of digits where the code ignores its error: the largest integer in place of a larger. -/
def atoiDigits (s : String) : ℤ := min ((digits? s.toList).getD 0 : ℕ) maxInt

/-- `splitK8sVer`. -/
def splitK8sVer (s : String) : Version := ⟨atoiDigits (cut s '.').1, atoiDigits (cut s '.').2.1⟩

/-- `compareK8sVer`. -/
def compareK8sVer (a b : String) : Ordering := (splitK8sVer a).compare (splitK8sVer b)

/-- `validateK8sBounds`. -/
def validateK8sBounds (loc k8sMin k8sMax : String) : List String :=
  let minOK := k8sMin = "" ∨ k8sVerPattern k8sMin
  let maxOK := k8sMax = "" ∨ k8sVerPattern k8sMax
  (if minOK then [] else [s!"{loc}: k8s_min {X.quote k8sMin} must be MAJOR.MINOR (e.g. \"1.21\")"]) ++
    (if maxOK then [] else [s!"{loc}: k8s_max {X.quote k8sMax} must be MAJOR.MINOR (e.g. \"1.36\")"]) ++
    if minOK ∧ maxOK ∧ k8sMin ≠ "" ∧ k8sMax ≠ "" ∧ (compareK8sVer k8sMin k8sMax).isGT then
      [s!"{loc}: k8s_min {X.quote k8sMin} must not exceed k8s_max {X.quote k8sMax}"]
    else []

/-- The bounds of an accepted entry are versions of the registry, or missing. -/
theorem bounds_of_validateK8sBounds {loc lo hi : String} (h : validateK8sBounds X loc lo hi = []) :
    (lo = "" ∨ k8sVerPattern lo = true) ∧ (hi = "" ∨ k8sVerPattern hi = true) := by
  unfold validateK8sBounds at h
  dsimp only at h
  simp only [List.append_eq_nil_iff] at h
  obtain ⟨⟨hlo, hhi⟩, -⟩ := h
  constructor
  · by_contra hnot
    rw [if_neg hnot] at hlo
    simp at hlo
  · by_contra hnot
    rw [if_neg hnot] at hhi
    simp at hhi

/-! ## The entry -/

/-- The problems of one line of a component image; `seen` are the lines before it. -/
def validateLine (loc : String) (j : ℕ) (l : ComponentLine) (seen : List String) : List String :=
  (if ¬ k8sVerPattern l.component then
      [s!"{loc}: lines[{j}]: component {X.quote l.component} must be MAJOR.MINOR of the image tag, such as \"1.5\""]
    else if l.component ∈ seen then [s!"{loc}: lines[{j}]: duplicate component line {X.quote l.component}"]
    else []) ++
    if cyclePattern l.product then []
    else [s!"{loc}: lines[{j}]: product {X.quote l.product} must be a dotted release line such as \"2.5\""]

/-- `validateComponent`. -/
def validateComponent (loc : String) (c : ComponentImage) (images : List String) : List String :=
  (if contains c.image ":" ∨ contains c.image "@" ∨ hasPrefix c.image anyPrefix then
      [s!"{loc}: image must be a repository path without a tag pattern or the any-prefix {X.quote anyPrefix}"]
    else ((validateImageMatcher X c.image).map fun err => s!"{loc}: image: {err}").toList) ++
    ((images.filter fun m => matchersOverlap m c.image).map fun m =>
      s!"{loc}: image also matches matchers.images {X.quote m}; list it in one place") ++
    (if c.lines = [] then [loc ++ ": at least one line required"] else []) ++
    (c.lines.zipIdx.flatMap fun (l, j) => validateLine X loc j l ((c.lines.take j).map (·.component))) ++
    validateCitations X L loc c.citations

/-- `bareClause`: the condition completes "only if ...". -/
def bareClause (c : String) : Bool :=
  c = trimSpace c ∧ ¬ hasSuffix c "." ∧ ¬ hasPrefix (X.lower c) "if " ∧ ¬ hasPrefix (X.lower c) "only if "

/-- The problems of the dates of split support. -/
def extendedDates (id : String) (s : Support) : List String :=
  if s.extendedEOLDate = "" then []
  else match parseDate s.extendedEOLDate with
    | none => [s!"{id}: extended_eol_date {X.quote s.extendedEOLDate} must be a valid YYYY-MM-DD date"]
    | some ext =>
      if s.eolDate = "" then
        [s!"{id}: support.extended_eol_date requires eol_date, the day support ends without the condition"]
      else if (parseDate s.eolDate).any fun last => ext ≤ last then
        [s!"{id}: extended_eol_date {s.extendedEOLDate} must be later than eol_date {s.eolDate}"]
      else []

/-- `validateExtendedSupport`. -/
def validateExtendedSupport (id : String) (s : Support) : List String :=
  if s.extendedEOLDate = "" ∧ s.extendedSupportCondition = "" then []
  else
    (if s.extendedEOLDate = "" ∨ s.extendedSupportCondition = "" then
        [s!"{id}: support.extended_eol_date and extended_support_condition go together: the later date holds only under the condition"]
      else []) ++
      (if s.status ≠ .supported then
        [s!"{id}: support.extended_eol_date requires support.status supported, got {X.quote s.status.text}"]
      else []) ++
      (if s.extendedSupportCondition ≠ "" ∧ ¬ bareClause X s.extendedSupportCondition then
        [s!"{id}: extended_support_condition {X.quote s.extendedSupportCondition} must be a bare clause with no leading \"if\" and no trailing period (it completes \"only if ...\")"]
      else []) ++
      extendedDates X id s

/-- The problems of one release line; `seen` are the lines before it. -/
def validateCycle (loc : String) (c : Cycle) (seen : List String) : List String :=
  (if ¬ cyclePattern c.cycle then
      [s!"{loc}: cycle must be a dotted version such as \"1.31\", got {X.quote c.cycle}"]
    else if c.cycle ∈ seen then [s!"{loc}: duplicate cycle {X.quote c.cycle}"]
    else []) ++
    (match c.eol with
      | none => [loc ++ ": eol required (a YYYY-MM-DD date, true or false)"]
      | some (.date d) =>
        if d ≠ "" ∧ parseDate d = none then [s!"{loc}: eol {X.quote d} must be a valid YYYY-MM-DD date"] else []
      | some (.ended _) => []) ++
    validateK8sBounds X loc c.k8sMin c.k8sMax ++ validateCitations X L loc c.citations

/-- The problems of one compatibility row. -/
def validateCompat (loc : String) (c : Compat) : List String :=
  (if (X.constraint c.range).isNone then
      [s!"{loc}.range {X.quote c.range}: invalid semver constraint: {L.constraintError c.range}"]
    else []) ++
    (if c.k8sMin = "" ∧ c.k8sMax = "" then [loc ++ ": at least one of k8s_min or k8s_max required"] else []) ++
    validateK8sBounds X loc c.k8sMin c.k8sMax ++ validateCitations X L loc c.citations

/-- The problems of an entry's identity. -/
def validateID (a : AddOn) : List String :=
  (if a.schemaVersion ≠ 2 then [s!"{a.id}: schema_version must be 2, got {a.schemaVersion}"] else []) ++
    if a.id = "" then ["id must not be empty"]
    else if ¬ idPattern a.id then
      [s!"{a.id}: id must be kebab-case (lowercase alphanumerics separated by single dashes)"]
    else []

/-- The problems of an entry's matchers. -/
def validateMatchers (a : AddOn) : List String :=
  (if a.matchers.images = [] ∧ a.matchers.charts = [] ∧ a.matchers.runtimes = [] ∧ a.matchers.components = [] then
      [s!"{a.id}: at least one matcher (matchers.images, matchers.charts, matchers.runtimes or matchers.components) required"]
    else []) ++
    (a.matchers.images.filterMap fun m =>
      (validateImageMatcher X m).map fun err => s!"{a.id}: matchers.images {X.quote m}: {err}") ++
    (a.matchers.components.zipIdx.flatMap fun (c, i) =>
      validateComponent X L s!"{a.id}: matchers.components[{i}] ({c.image})" c a.matchers.images) ++
    (a.matchers.runtimes.filter fun r => !idPattern r).map fun r =>
      s!"{a.id}: matchers.runtimes {X.quote r} must be a runtime name such as \"containerd\""

/-- The problems of an entry's support as a whole; a status is one of the three words by its type. -/
def validateSupport (a : AddOn) : List String :=
  (if a.support.status ≠ .unknown ∧ a.support.citations = [] then
      [s!"{a.id}: at least one citation required when support.status is {X.quote a.support.status.text}"]
    else []) ++
    (a.support.citations.filterMap fun c =>
      (validateCitationURL X L c).map fun err => s!"{a.id}: support citation {X.quote c}: {err}") ++
    (if a.endoflifeProduct ≠ "" ∧ ¬ eolSlugPattern a.endoflifeProduct then
      [s!"{a.id}: endoflife_product {X.quote a.endoflifeProduct} must be a lowercase endoflife.date slug (e.g. \"argo-cd\")"]
    else []) ++
    (if a.support.eolDate ≠ "" ∧ a.support.status = .unknown then
      [s!"{a.id}: support.eol_date requires support.status supported or eol (a date is a claim, and unknown carries no citation)"]
    else []) ++
    (if a.support.eolDate ≠ "" ∧ parseDate a.support.eolDate = none then
      [s!"{a.id}: eol_date {X.quote a.support.eolDate} must be a valid YYYY-MM-DD date"]
    else []) ++
    validateExtendedSupport X a.id a.support

/-- `Validate`: every violation of the schema's rules. -/
def validate (a : AddOn) : List String :=
  validateID a ++ validateMatchers X L a ++ validateSupport X L a ++
    (a.cycles.zipIdx.flatMap fun (c, i) =>
      validateCycle X L s!"{a.id}: cycles[{i}] ({c.cycle})" c ((a.cycles.take i).map (·.cycle))) ++
    a.compat.zipIdx.flatMap fun (c, i) => validateCompat X L s!"{a.id}: compat[{i}]" c

end Validate

end UpgradeScope.Registry
