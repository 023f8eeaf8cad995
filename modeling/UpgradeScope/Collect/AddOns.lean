import UpgradeScope.Inventory.Types
import UpgradeScope.Registry.Validate
import UpgradeScope.Lib.Reorder

/-!
# Finding add-ons

`internal/collect/addons.go`: `matchAddOns` finds the registry's add-ons in what a collector reads
of a cluster, the images and labels of its pods, its Helm releases, the charts GitOps tools deploy
and the controllers of its IngressClasses. Every piece of evidence is of one add-on in one namespace
and may give a version; the evidence of an add-on in a namespace is one install, or two where pods
run off the release lines of its Helm releases, each at the oldest version it was found at.
Masterminds' semver is not part of the repository, so its reading and its order of versions are
parameters (`External.newVersion`, `Semver`).
-/

namespace UpgradeScope.Collect

open Go Sorting Registry

/-! ## Versions -/

/-- What detection calls of Masterminds' semver besides `NewVersion`. -/
structure Semver where
  /-- `Version.LessThan`. -/
  lessThan : SemVer → SemVer → Bool
  /-- `semver.StrictNewVersion`. -/
  strictNewVersion : String → Option SemVer

/-- `maxVersionBytes`. -/
def maxVersionBytes : ℕ := 128

/-- `\d` of a regular expression. -/
def digit (c : Char) : Bool := '0' ≤ c && c ≤ '9'

/-- The longest run of digits and the rest, where there is one: `\d+`. -/
def digitRun (s : List Char) : Option (List Char × List Char) :=
  match s.takeWhile digit with
  | [] => none
  | run => some (run, s.dropWhile digit)

/-- `(\.?\d+)*`, at most `fuel` times. -/
def numberRuns : ℕ → List Char → List Char
  | 0, _ => []
  | n + 1, s =>
    let (dot, rest) := match s with
      | '.' :: rest => (['.'], rest)
      | _ => ([], s)
    match digitRun rest with
    | some (run, rest) => dot ++ run ++ numberRuns n rest
    | none => []

/-- `(-(alpha|beta|rc)(\.?\d+)*)?`. -/
def preReleaseMark (s : List Char) : List Char :=
  match s with
  | '-' :: rest =>
    match ["alpha", "beta", "rc"].find? fun word => word.toList.isPrefixOf rest with
    | some word => '-' :: word.toList ++ numberRuns s.length (rest.drop word.toList.length)
    | none => []
  | _ => []

/-- `versionRe` at the start of a text: two numbers, an optional third and an optional pre-release mark. -/
def versionHere (s : List Char) : Option (List Char) := do
  let (major, rest) ← digitRun s
  let rest ← match rest with
    | '.' :: rest => some rest
    | _ => none
  let (minor, rest) ← digitRun rest
  let (patch, rest) := match rest with
    | '.' :: after => match digitRun after with
      | some (run, rest) => ('.' :: run, rest)
      | none => ([], '.' :: after)
    | _ => ([], rest)
  some (major ++ '.' :: minor ++ patch ++ preReleaseMark rest)

/-- `versionFromTag`: the first version in a tag, "" when there is none or it is too long. -/
def versionFromTag (tag : String) : String :=
  let v := String.ofList ((tag.toList.tails.findSome? versionHere).getD [])
  if byteLen v > maxVersionBytes then "" else v

/-- `releaseLine`: the first two components of a version. -/
def releaseLine (v : String) : String :=
  let (major, rest, _) := cut v '.'
  major ++ "." ++ (cut (cut rest '.').1 '-').1

/-- `ComponentImage.ProductLine`: the product's line that ships a version of a component image. -/
def productLine (c : ComponentImage) (version : String) : String :=
  let (major, rest, ok) := cut version '.'
  if ¬ ok ∨ major = "" then ""
  else
    let line := major ++ "." ++ (cut (cut rest '.').1 '-').1
    ((c.lines.find? (·.component = line)).map (·.product)).getD ""

section Versions

variable (X : External) (S : Semver)

/-- `versionLess`: by semver where both versions parse, else by their texts. -/
def versionLess (a b : String) : Bool :=
  match X.newVersion a, X.newVersion b with
  | some av, some bv => S.lessThan av bv
  | _, _ => a < b

/-- `olderVersion`: the older of two versions, "" for none. -/
def olderVersion (cur v : String) : String := if v ≠ "" ∧ (cur = "" ∨ versionLess X S v cur) then v else cur

/-- The oldest of some versions, met one by one. -/
def oldest (vs : List String) : String := vs.foldl (olderVersion X S) ""

/-- `exactChartVersion`: a chart version that is one version, without a leading `v`. -/
def exactChartVersion (v : String) : String :=
  let v := trimPrefix v "v"
  if byteLen v > maxVersionBytes ∨ (S.strictNewVersion v).isNone then "" else v

end Versions

/-! ## Images -/

/-- `nsImage`: an image in a namespace. -/
structure NsImage where
  /-- The namespace. -/
  «namespace» : String
  /-- The image reference. -/
  image : String
  deriving DecidableEq

/-- `splitImage`: the repository and the tag, without the digest. -/
def splitImage (image : String) : String × String :=
  let image := (cut image '@').1
  -- The tag's colon is after the last slash, so that a registry's port stays.
  let last := image.toList.reverse.takeWhile fun c => c ≠ ':' ∧ c ≠ '/'
  match image.toList.reverse.drop last.length with
  | ':' :: before => (String.ofList before.reverse, String.ofList last.reverse)
  | _ => (image, "")

/-- `imageRef`: an image reference for matching. -/
structure ImageRef where
  /-- The registry's host. -/
  host : String
  /-- The repository's path below it. -/
  path : String
  /-- The tag. -/
  tag : String
  deriving DecidableEq

/-- `parseImage`: a reference as the container runtime resolves it. -/
def parseImage (image : String) : ImageRef :=
  let (repo, tag) := splitImage image
  let (first, rest, ok) := cut repo '/'
  let (host, path) :=
    if ¬ ok ∨ ¬ (contains first "." ∨ contains first ":") ∧ first ≠ "localhost" then ("docker.io", repo)
    else (first, rest)
  let host := if host = "index.docker.io" ∨ host = "registry-1.docker.io" then "docker.io" else host
  let path := if host = "docker.io" ∧ ¬ contains path "/" then "library/" ++ path else path
  ⟨host, path, tag⟩

/-- The registry's host and the repository's path. -/
def ImageRef.repository (ref : ImageRef) : String := ref.host ++ "/" ++ ref.path

/-- `TagMatches`. -/
def tagMatches (X : External) (tag pattern : String) : Bool := tag ≠ "" && X.globMatch pattern tag

/-- `imageMatches`: a matcher of the registry claims an image. -/
def imageMatches (X : External) (ref : ImageRef) (matcher : String) : Bool :=
  let (path, pattern) := splitTagPattern matcher
  if pattern ≠ "" ∧ ¬ tagMatches X ref.tag pattern then false
  else if isProviderBuild path then pathMatches ref.repository path
  else !isProviderBuild ref.repository && pathMatches ref.path path

/-- `imageClaim`: an add-on an image belongs to and the version it gives. -/
structure ImageClaim where
  /-- The add-on. -/
  id : String
  /-- Its version, "" when the image gives none. -/
  version : String
  /-- Whether the version is the tag's own, not a component image's product line. -/
  byTag : Bool
  deriving DecidableEq

section Claims

variable (X : External) (addons : List AddOn)

/-- Whether a matcher has a tag pattern. -/
def tagQualified (m : String) : Bool := (splitTagPattern m).2 ≠ ""

/-- What one entry claims of an image: by a matcher with a tag pattern, or otherwise. -/
def entryClaim (ref : ImageRef) (a : AddOn) : Option (Bool × ImageClaim) :=
  let matching := a.matchers.images.filter (imageMatches X ref)
  if matching.any tagQualified then some (true, ⟨a.id, versionFromTag ref.tag, true⟩)
  else if matching ≠ [] then some (false, ⟨a.id, versionFromTag ref.tag, true⟩)
  else (a.matchers.components.find? fun c => imageMatches X ref c.image).map fun c =>
    (false, ⟨a.id, productLine c (versionFromTag ref.tag), false⟩)

/-- `imageClaims`: the claims on an image in the registry's order, those by a tag pattern ahead. -/
def imageClaims (ref : ImageRef) : List ImageClaim :=
  let claims := addons.filterMap (entryClaim X ref)
  let tagged := (claims.filter (·.1)).map (·.2)
  if tagged ≠ [] then tagged else (claims.filter fun c => !c.1).map (·.2)

/-- `imageAddOns`. -/
def imageAddOns (ref : ImageRef) : List String := (imageClaims X addons ref).map (·.id)

/-- The first entry of an id has a tag-qualified matcher of an image's repository. -/
def sharesRepository (ref : ImageRef) (id : String) : Bool :=
  (addons.find? (·.id = id)).any fun a =>
    a.matchers.images.any fun m => tagQualified m && imageMatches X ref (splitTagPattern m).1

/-- `untaggedClaim`: the first of the entries named for an image without a tag that shares its
repository by tags. -/
def untaggedClaim (ref : ImageRef) (named : List ImageClaim) : Option ImageClaim :=
  if ref.tag ≠ "" then none else named.find? fun n => sharesRepository X addons ref n.id

end Claims

/-! ## Labels -/

/-- `appLabels`: the labels that can name an add-on. -/
structure AppLabels where
  /-- `helm.sh/chart`. -/
  chart : String := ""
  /-- `app.kubernetes.io/name`. -/
  name : String := ""
  /-- `app.kubernetes.io/version`. -/
  version : String := ""
  /-- `app.kubernetes.io/part-of`. -/
  partOf : String := ""
  deriving DecidableEq

/-- `labelledPod`: a pod with such labels and its images. -/
structure LabelledPod where
  /-- The namespace. -/
  «namespace» : String
  /-- The labels. -/
  labels : AppLabels
  /-- The images. -/
  images : List String
  deriving DecidableEq

/-- `chartVersionRe` at the start of a text: `-v?\d+` and then a mark or the end. After the first
number a `.` is a mark, so the numbers after it decide nothing. -/
def chartVersionHere (s : List Char) : Bool :=
  match s with
  | '-' :: rest =>
    let rest := match rest with
      | 'v' :: after => after
      | _ => rest
    match digitRun rest with
    | some (_, []) => true
    | some (_, c :: _) => c = '-' || c = '_' || c = '.' || c = '+'
    | none => false
  | _ => false

/-- `chartName`: the chart of a `helm.sh/chart` label, "" when it carries no version. -/
def chartName (label : String) : String :=
  match label.toList.tails.findIdx? chartVersionHere with
  | some i => String.ofList (label.toList.take i)
  | none => ""

/-- A label names an entry: its id or one of its charts. -/
def names (a : AddOn) (v : String) : Bool := v ≠ "" && (v = a.id || v ∈ a.matchers.charts)

/-- `labelAddOn`: the add-on a pod's labels name, and the version they give it; "" for none. -/
def labelAddOn (addons : List AddOn) (l : AppLabels) : String × String :=
  let chart := chartName l.chart
  match [l.name, chart, l.partOf].findSome? fun label => addons.find? fun a => names a label with
  | some a =>
    (a.id, if names a l.name ∨ l.name = "" ∧ names a chart then versionFromTag l.version else "")
  | none => ("", "")

/-- `vendorBuilds`. -/
def vendorBuilds (id : String) : List String :=
  if id = "ingress-nginx" then ["rke2-ingress-nginx", "aks-app-routing-nginx"] else []

/-- `ingressClassAddOns`. -/
def ingressClassAddOns (controller : String) : List String :=
  if controller = "k8s.io/ingress-nginx" then
    ["ingress-nginx", "rke2-ingress-nginx", "aks-app-routing-nginx", "traefik"]
  else []

/-! ## Evidence -/

/-- `addOnEvidence`: what detection reads. -/
structure AddOnEvidence where
  /-- Every container's image. -/
  images : List NsImage := []
  /-- The pods with labels. -/
  labelled : List LabelledPod := []
  /-- The Helm releases. -/
  releases : List HelmRelease := []
  /-- The charts that GitOps tools deploy. -/
  gitops : List GitOpsChart := []
  /-- The controllers of the IngressClasses. -/
  ingressControllers : List String := []

/-- What a piece of evidence is from, in the order of its strength. -/
inductive EvidenceSource where
  /-- An IngressClass. -/
  | ingressclass
  /-- A GitOps chart. -/
  | gitops
  /-- A pod's labels. -/
  | labels
  /-- An image. -/
  | image
  /-- A Helm release. -/
  | chart
  deriving DecidableEq

/-- `strength`. -/
def EvidenceSource.strength : EvidenceSource → ℕ
  | .ingressclass => 1
  | .gitops => 2
  | .labels => 3
  | .image => 4
  | .chart => 5

/-- The word of a source. -/
def EvidenceSource.name : EvidenceSource → String
  | .ingressclass => "ingressclass"
  | .gitops => "gitops"
  | .labels => "labels"
  | .image => "image"
  | .chart => "chart"

/-- `evidence`: a piece of evidence. -/
structure Evidence where
  /-- What it is from. -/
  source : EvidenceSource
  /-- The app version, "" for none. -/
  version : String := ""
  /-- The chart version, of charts. -/
  chart : String := ""
  deriving DecidableEq

/-- `install`: an add-on in a namespace. -/
structure Install where
  /-- The add-on. -/
  id : String
  /-- The namespace. -/
  ns : String
  deriving DecidableEq

section Matching

variable (X : External) (S : Semver) (addons : List AddOn) (ev : AddOnEvidence)

/-- `labelNamed`: what the labels of the pods of an image name, in the order of the pods. -/
def labelNamed (img : NsImage) : List ImageClaim :=
  ev.labelled.flatMap fun p =>
    if (labelAddOn addons p.labels).1 = "" then []
    else (p.images.filter fun i => (⟨p.namespace, i⟩ : NsImage) = img).map fun _ =>
      ⟨(labelAddOn addons p.labels).1, (labelAddOn addons p.labels).2, true⟩

/-- The versions that labels give an add-on for an image. -/
def labelVersions (img : NsImage) (id : String) : List String :=
  ((labelNamed addons ev img).filter (·.id = id)).map (·.version)

/-- `labelVersion`: the oldest of them. -/
def labelVersion (img : NsImage) (id : String) : String := oldest X S (labelVersions addons ev img id)

/-- `releaseNamed`: what the Helm releases of a namespace name. -/
def releaseNamed (ns : String) : List ImageClaim :=
  (ev.releases.filter (·.namespace = ns)).flatMap fun rel =>
    (addons.filter fun a => rel.chartName ∈ a.matchers.charts).map fun a => ⟨a.id, "", true⟩

/-- The claims on an image before its pods' labels give versions. -/
def namedClaims (img : NsImage) : List ImageClaim :=
  match untaggedClaim X addons (parseImage img.image) (labelNamed addons ev img ++ releaseNamed addons ev img.namespace) with
  | some c => [c]
  | none => imageClaims X addons (parseImage img.image)

/-- `settled`: the claims on an image. An image whose tag names no version has the oldest that its
pods' labels give. -/
def settled (img : NsImage) : List ImageClaim :=
  if versionFromTag (parseImage img.image).tag = "" then
    (namedClaims X addons ev img).map fun c =>
      if c.byTag then { c with version := labelVersion X S addons ev img c.id } else c
  else namedClaims X addons ev img

/-- The evidence of the images. -/
def imageEvidence : List (Install × Evidence) :=
  ev.images.flatMap fun img => (settled X S addons ev img).map fun c => (⟨c.id, img.namespace⟩, { source := .image, version := c.version })

/-- The repositories that no entry claims. -/
def unmatchedImages : List String :=
  (ev.images.filter fun img => settled X S addons ev img = []).map fun img => (parseImage img.image).repository

/-- A pod's labels count: none of its images is the add-on's or a vendor build of it, one is nobody's, and none is a
provider's build. -/
def labelCounts (p : LabelledPod) : Bool :=
  let id := (labelAddOn addons p.labels).1
  let claimed := p.images.any fun i =>
    (imageAddOns X addons (parseImage i)).any fun v => v = id || v ∈ vendorBuilds id
  let unclaimed := p.images.any fun i => imageAddOns X addons (parseImage i) = []
  let provider := p.images.any fun i => isProviderBuild (parseImage i).repository
  id ≠ "" && !(claimed || !unclaimed || provider)

/-- The evidence of the labels. -/
def labelEvidence : List (Install × Evidence) :=
  (ev.labelled.filter (labelCounts X addons)).map fun p =>
    (⟨(labelAddOn addons p.labels).1, p.namespace⟩, { source := .labels, version := (labelAddOn addons p.labels).2 })

/-- The evidence of the Helm releases. -/
def releaseEvidence : List (Install × Evidence) :=
  ev.releases.flatMap fun rel => addons.flatMap fun a =>
    (a.matchers.charts.filter (· = rel.chartName)).map fun _ =>
      (⟨a.id, rel.namespace⟩,
        { source := .chart, version := versionFromTag rel.appVersion, chart := trimPrefix rel.chartVersion "v" })

/-- The evidence of the GitOps charts. -/
def gitopsEvidence : List (Install × Evidence) :=
  ev.gitops.flatMap fun g => (addons.filter fun a => g.chart ∈ a.matchers.charts).map fun a =>
    (⟨a.id, g.target⟩, { source := .gitops, chart := exactChartVersion S g.version })

/-- The evidence of pods, releases and charts. -/
def directEvidence : List (Install × Evidence) :=
  imageEvidence X S addons ev ++ labelEvidence X addons ev ++ releaseEvidence addons ev ++ gitopsEvidence S addons ev

/-- An IngressClass's controller is evidence: the first add-on it names is in the registry and none of them is found
otherwise. -/
def controllerCounts (c : String) : Bool :=
  match ingressClassAddOns c with
  | [] => false
  | first :: rest =>
    !(first :: rest).any (fun id => (directEvidence X S addons ev).any fun e => e.1.id = id) && addons.any (·.id = first)

/-- The evidence of the IngressClasses. -/
def ingressEvidence : List (Install × Evidence) :=
  (ev.ingressControllers.filter (controllerCounts X S addons ev)).map fun c =>
    (⟨(ingressClassAddOns c).headD "", ""⟩, { source := .ingressclass })

/-- `byInstall`: every piece of evidence with its install. -/
def allEvidence : List (Install × Evidence) := directEvidence X S addons ev ++ ingressEvidence X S addons ev

/-- The evidence of an install. -/
def evidenceOf (i : Install) : List Evidence := ((allEvidence X S addons ev).filter (·.1 = i)).map (·.2)

/-! ## Installs -/

/-- `inst.Source`: the strongest source. -/
def strongest (evs : List Evidence) : Option EvidenceSource :=
  evs.foldl (fun cur e => if ((cur.map (·.strength)).getD 0) < e.source.strength then some e.source else cur) none

/-- The app versions of the releases among evidence. -/
def appVersions (evs : List Evidence) : List String := (evs.filter (·.source = .chart)).map (·.version)

/-- The versions of the pods among evidence. -/
def podVersions (evs : List Evidence) : List String := (evs.filter (·.source ≠ .chart)).map (·.version)

/-- The chart versions that GitOps resources ask for. -/
def gitopsCharts (evs : List Evidence) : List String := (evs.filter (·.source = .gitops)).map (·.chart)

/-- The chart versions that releases record. -/
def releaseCharts (evs : List Evidence) : List String := (evs.filter (·.source ≠ .gitops)).map (·.chart)

/-- `instance`: the install that evidence makes. -/
def instanceOf (i : Install) (evs : List Evidence) : AddOnInstance where
  id := i.id
  version := orElse (oldest X S (appVersions evs)) (oldest X S (podVersions evs))
  chartVersion := orElse (oldest X S (releaseCharts evs)) (oldest X S (gitopsCharts evs))
  namespaces := if strongest evs = some .ingressclass then [] else [i.ns]
  source := ((strongest evs).map (·.name)).getD ""

/-- The release lines of the releases' app versions. -/
def releaseLines (evs : List Evidence) : List String :=
  ((appVersions evs).filter (· ≠ "")).map releaseLine

/-- Evidence of a pod on another line than the releases'. -/
def offLine (evs : List Evidence) (e : Evidence) : Bool :=
  releaseLines evs ≠ [] && e.source ≠ .chart && e.version ≠ "" && releaseLine e.version ∉ releaseLines evs

/-- The groups of evidence of one install: the releases' with what agrees with them, and the rest. -/
def groups (evs : List Evidence) : List (List Evidence) :=
  let other := evs.filter (offLine evs)
  (evs.filter fun e => !offLine evs e) :: if other = [] then [] else [other]

/-- The order of the detected installs. -/
def instanceOrder (a : AddOnInstance) : String ×ₗ List String ×ₗ String ×ₗ String :=
  toLex (a.id, toLex (a.namespaces, toLex (a.version, a.source)))

/-- `matchAddOns`: the installs, sorted, and the image repositories no entry claims, sorted. -/
def matchAddOns : List AddOnInstance × List String :=
  (sortOn instanceOrder (((allEvidence X S addons ev).map (·.1)).dedup.flatMap fun i =>
      (groups (evidenceOf X S addons ev i)).map (instanceOf X S i)),
    sortedSet (unmatchedImages X S addons ev))

end Matching

end UpgradeScope.Collect
