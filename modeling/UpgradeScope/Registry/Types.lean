import UpgradeScope.Inventory.Version

/-!
# The registry of add-ons and providers

`registry/types.go` and `registry/support.go`: the add-on entries with their release lines and
compatibility rows, and the managed providers' support calendars.
-/

namespace UpgradeScope.Registry

/-- One component line of an image and the product line it is. -/
structure ComponentLine where
  /-- MAJOR.MINOR of the image tag. -/
  component : String
  /-- The product's release line. -/
  product : String
  deriving DecidableEq

/-- An image whose tag follows another numbering than the product's. -/
structure ComponentImage where
  /-- A path-only image matcher. -/
  image : String
  /-- The lines it maps. -/
  lines : List ComponentLine
  /-- Where the mapping is published. -/
  citations : List String
  deriving DecidableEq

/-- What finds an add-on in a cluster. -/
structure Matchers where
  /-- Repository paths. -/
  images : List String := []
  /-- Chart names. -/
  charts : List String := []
  /-- Node container runtimes. -/
  runtimes : List String := []
  /-- Component images. -/
  components : List ComponentImage := []
  deriving DecidableEq

/-- The support status of a whole product. -/
inductive Status where
  /-- `supported`. -/
  | supported
  /-- `eol`. -/
  | eol
  /-- `unknown`. -/
  | unknown
  deriving DecidableEq, Repr

/-- The word of a status in the registry's files; a file with another word is refused. -/
def Status.text : Status → String
  | .supported => "supported"
  | .eol => "eol"
  | .unknown => "unknown"

/-- A product's support as a whole. -/
structure Support where
  /-- Its status. -/
  status : Status
  /-- The day support ends, "" when no date is published. -/
  eolDate : String := ""
  /-- The day support ends under the extended-support condition. -/
  extendedEOLDate : String := ""
  /-- The condition of extended support. -/
  extendedSupportCondition : String := ""
  /-- Where the status is published. -/
  citations : List String := []
  deriving DecidableEq

/-- The end of a release line: a published date, or only whether it has ended. -/
inductive CycleEOL where
  /-- A published date. -/
  | date (d : String)
  /-- No date: whether the line has ended. -/
  | ended (b : Bool)
  deriving DecidableEq

/-- One release line of an add-on. -/
structure Cycle where
  /-- Leading components of the app version, "1.31". -/
  cycle : String
  /-- Its end; required by the validation. -/
  eol : Option CycleEOL
  /-- The oldest Kubernetes minor it supports. -/
  k8sMin : String := ""
  /-- The newest Kubernetes minor it supports. -/
  k8sMax : String := ""
  /-- Where that is published. -/
  citations : List String
  deriving DecidableEq

/-- One compatibility row: a range of add-on versions and the minors they support. -/
structure Compat where
  /-- A semantic-version constraint. -/
  range : String
  /-- The oldest Kubernetes minor. -/
  k8sMin : String := ""
  /-- The newest Kubernetes minor. -/
  k8sMax : String := ""
  /-- Where that is published. -/
  citations : List String
  deriving DecidableEq

/-- One registry entry. -/
structure AddOn where
  /-- The schema of the entry. -/
  schemaVersion : ℤ := 2
  /-- Its id. -/
  id : String
  /-- The name shown. -/
  displayName : String
  /-- What finds it. -/
  matchers : Matchers := {}
  /-- Its support as a whole. -/
  support : Support
  /-- Its release lines. -/
  cycles : List Cycle := []
  /-- Its compatibility rows. -/
  compat : List Compat := []
  /-- What to do about it. -/
  recommendation : String := ""
  /-- The product's name at endoflife.date. -/
  endoflifeProduct : String := ""
  deriving DecidableEq

/-- One Kubernetes minor's support at a provider. -/
structure SupportWindow where
  /-- The minor, "1.34". -/
  minor : String
  /-- The day standard support ends. -/
  standardEnd : String
  /-- The day extended support ends, "" when there is none. -/
  extendedEnd : String := ""
  deriving DecidableEq

/-- A provider's published prices. -/
structure Pricing where
  /-- The currency, USD. -/
  currency : String
  /-- The standard price of a cluster-hour. -/
  standardPerClusterHour : Float
  /-- The price of a cluster-hour in extended support. -/
  extendedPerClusterHour : Float
  /-- The day the prices were read. -/
  asOf : String
  /-- Whom the price applies to. -/
  note : String := ""
  /-- Where it is published. -/
  citations : List String

/-- A managed provider's support calendar. -/
structure ProviderSupport where
  /-- eks, gke or aks. -/
  id : String
  /-- The name shown. -/
  displayName : String
  /-- What extended support means at this provider. -/
  extendedSupportNote : String := ""
  /-- The condition under which extended support applies. -/
  extendedSupportCondition : String := ""
  /-- Where the dates are published. -/
  citations : List String
  /-- The minors. -/
  versions : List SupportWindow
  /-- The published prices. -/
  pricing : Option Pricing := none

end UpgradeScope.Registry
