import UpgradeScope.Collect.Revisions
import UpgradeScope.Collect.ManifestRuns
import UpgradeScope.Inventory.Admit
import UpgradeScope.Kb

/-!
# The cache of Helm releases

`internal/collect/helm_cache.go` and `collectHelmFetching` of `internal/collect/helm.go`: a collection lists the objects
that store Helm releases, fetches the installed revision of each release and decodes it. An agent keeps what it decoded
from one collection to the next, by the object's UID and resource version, and fetches only what it does not hold.

The cache is sound (`Fresh`) when every entry is what decoding its object's content against the current knowledge base
gives. `begin` makes it so by emptying a cache of another knowledge base, and putting and dropping entries keep it so;
a collection then sees of each release what it would see without the cache (`outcome_eq`).
-/

namespace UpgradeScope.HelmReleases

open Go Utf8 Sorting Collect Inventory

/-! ## What a release contributes -/

/-- `helmReleaseDoc`. -/
structure HelmReleaseDoc where
  /-- `info.status`. -/
  status : String := ""
  /-- `chart.metadata.name`. -/
  name : String := ""
  /-- `chart.metadata.version`. -/
  version : String := ""
  /-- `chart.metadata.appVersion`. -/
  appVersion : String := ""
  /-- `chart.metadata.kubeVersion`. -/
  kubeVersion : String := ""
  /-- `manifest`. -/
  manifest : Bytes := []

/-- What reading the first member of a gzip stream gives. -/
structure GzipMember where
  /-- The bytes read. -/
  data : Bytes
  /-- The error at their end. -/
  err : Option String := none
  /-- How many bytes of the stream are behind it. -/
  left : ℕ := 0

/-- What a collection calls of other packages. -/
structure Library extends External where
  /-- `base64.StdEncoding.Decode`. -/
  base64 : Bytes → Except String Bytes
  /-- `gzip.NewReader` and the read of its first member. -/
  gunzip : Bytes → Except String GzipMember
  /-- `json.Unmarshal` of a release. -/
  unmarshal : Bytes → Except String HelmReleaseDoc
  /-- The parser of manifests. -/
  decoder : StreamDecoder
  /-- `sha256.Sum256` of a text, in hexadecimal. -/
  sha256 : String → String
  /-- What `slices.SortFunc` does to more than 12 revisions. -/
  sortRest : (HelmRevision → HelmRevision → ℤ) → List HelmRevision → List HelmRevision

/-- `helmCacheEntry`. -/
structure Entry where
  /-- The chart's name. -/
  chartName : String := ""
  /-- The chart's version. -/
  chartVersion : String := ""
  /-- The app version the chart gives. -/
  appVersion : String := ""
  /-- The chart's `kubeVersion` constraint. -/
  kubeVersion : String := ""
  /-- The release document's own status. -/
  status : String := ""
  /-- The flagged APIs of the stored manifest. -/
  apis : List APIUsage := []
  /-- Why the payload did not decode, "" when it did. -/
  decodeErr : String := ""
  /-- Why the manifest was not parsed in full, "" when it was. -/
  parseErr : String := ""

section Decode

variable (B : Library)

/-- `maxStoredReleaseBytes`. -/
def maxStoredReleaseBytes : ℕ := 4 * 2 ^ 20

/-- `maxReleaseJSONBytes`. -/
def maxReleaseJSONBytes : ℕ := 16 * 2 ^ 20

/-- `binary.LittleEndian.Uint32` of four bytes. -/
def littleEndian (bytes : Bytes) : ℕ := bytes.foldr (fun b n => b.toNat + 256 * n) 0

/-- `decodeHelmRelease`: base64 around gzip around JSON. -/
def decodeHelmRelease (data : Bytes) : Except String HelmReleaseDoc :=
  if data.length > maxStoredReleaseBytes then
    .error s!"release payload too large: over {maxStoredReleaseBytes / 2 ^ 20} MiB stored"
  else match B.base64 data with
    | .error err => .error ("base64: " ++ err)
    | .ok raw =>
      if raw.take 3 ≠ [0x1f, 0x8b, 0x08] then .error "release payload is not gzip"
      else match B.gunzip raw with
        | .error err => .error ("gunzip: " ++ err)
        | .ok m =>
          -- The trailer says how much is read at most.
          let size := min (littleEndian (raw.drop (raw.length - 4))) maxReleaseJSONBytes
          if m.data.length > size then
            .error (if size = maxReleaseJSONBytes then
                s!"release payload too large: over {maxReleaseJSONBytes / 2 ^ 20} MiB decompressed"
              else "gunzip: decompresses past its size trailer")
          else match m.err with
            | some err => .error ("gunzip read: " ++ err)
            | none =>
              if m.left > 0 then .error "gunzip: data after the gzip stream"
              else match B.unmarshal m.data with
                | .error err => .error ("release json: " ++ err)
                | .ok doc => .ok doc

/-- `decodeHelmEntry`. -/
def decodeHelmEntry (data : Bytes) (flagged : List GVK) : Entry :=
  match decodeHelmRelease B data with
  | .error err => { decodeErr := err }
  | .ok doc =>
    if [doc.name, doc.version, doc.appVersion, doc.kubeVersion, doc.status].any fun s => byteLen s > maxStringBytes then
      { decodeErr := s!"chart metadata has a value over {maxStringBytes} bytes, which is not recorded" }
    else
      let (apis, err) := manifestAPIs B.decoder doc.manifest flagged
      { chartName := doc.name
        chartVersion := doc.version
        appVersion := doc.appVersion
        kubeVersion := doc.kubeVersion
        status := doc.status
        apis := apis
        parseErr := err.elim "" DocTooLarge.message }

/-- A flagged kind in the fingerprint. -/
def gvkText (g : GVK) : String := g.1 ++ "/" ++ g.2.1 ++ "/" ++ g.2.2

/-- What `flaggedFingerprint` hashes: the kinds of a set, sorted, each on a line. -/
def fingerprintText (flagged : List GVK) : String :=
  String.join ((sorted (flagged.dedup.map gvkText)).map (· ++ "\n"))

/-- `flaggedFingerprint`. -/
def flaggedFingerprint (flagged : List GVK) : String := B.sha256 (fingerprintText flagged)

end Decode

/-! ## The cache -/

/-- `helmCacheKey`. -/
structure Key where
  /-- The storage driver. -/
  driver : ℕ
  /-- The object's namespace. -/
  «namespace» : String
  /-- Its name. -/
  object : String
  /-- Its UID. -/
  uid : String
  /-- Its resource version. -/
  rv : String
  deriving DecidableEq

/-- `helmCacheKey.cacheable`. -/
def Key.cacheable (k : Key) : Bool := k.uid ≠ "" && k.rv ≠ ""

/-- `HelmCache`. -/
structure HelmCache where
  /-- The entries. -/
  entries : Key → Option Entry := fun _ => none
  /-- The fingerprint of the flagged APIs they were parsed against. -/
  flagged : String := ""

namespace HelmCache

variable (c : HelmCache)

/-- `HelmCache.begin`. -/
def begin (flagged : String) : HelmCache :=
  if c.flagged ≠ flagged then { entries := fun _ => none, flagged := flagged } else c

/-- `HelmCache.get`. -/
def get (k : Key) : Option Entry := if !k.cacheable then none else c.entries k

/-- `HelmCache.put`. -/
def put (k : Key) (e : Entry) : HelmCache :=
  if !k.cacheable then c else { c with entries := Function.update c.entries k (some e) }

/-- `HelmCache.prune`. -/
def prune (seen : Key → Bool) (keep : ℕ → Bool) : HelmCache :=
  { c with entries := fun k => if !seen k && keep k.driver then none else c.entries k }

end HelmCache

/-! ## A collection -/

/-- `helmDrivers`, by their names. -/
def helmDrivers : List String := ["secrets", "configmaps"]

/-- An object of a list: its namespace and the rest of its metadata. -/
structure Listed where
  /-- The namespace. -/
  «namespace» : String
  /-- The metadata. -/
  metadata : PartialObjectMetadata

/-- What `listMetadata` gives: the objects of the pages it read, and its error. -/
structure Listing where
  /-- The objects. -/
  items : List Listed
  /-- The error. -/
  err : Option String := none

/-- Why an object could not be fetched. -/
inductive FetchError where
  /-- It is not there. -/
  | notFound
  /-- Another error. -/
  | failed (msg : String)

/-- What a collection finds. -/
structure Collection where
  /-- The lifecycle data of the knowledge base. -/
  lifecycle : List Kb.APILifecycleEntry
  /-- The namespaces to read, none for the whole cluster. -/
  namespaces : List String := []
  /-- The list of a driver's objects in a namespace, "" for all. -/
  list : ℕ → String → Listing
  /-- What fetching the object listed under a key gives. -/
  payload : Key → Except FetchError Bytes

/-- A release's installed revision: `installed` of the source, without what the cache says of it. -/
structure Installed where
  /-- The release's namespace. -/
  «namespace» : String
  /-- The release's name. -/
  name : String
  /-- The revision. -/
  rev : HelmRevision

/-- The key of the object that stores an installed revision. -/
def Installed.key (t : Installed) : Key := ⟨t.rev.driver, t.namespace, t.rev.object, t.rev.uid, t.rev.rv⟩

/-- The release, as a reason names it. -/
def Installed.label (t : Installed) : String := t.namespace ++ "/" ++ t.name

namespace Collection

variable (B : Library) (I : Collection)

/-- The namespaces listed, sorted and each once. -/
def scope : List String := if I.namespaces = [] then [""] else sortedSet I.namespaces

/-- The note of a read in some namespaces only, "" for the whole cluster. -/
def scopeNote : String :=
  if I.namespaces = [] then ""
  else "Helm releases read only in namespaces " ++ join I.scope ", " ++ " (rbac.helmSecretsNamespaces); releases in other " ++
    "namespaces were not assessed"

/-- The errors of a driver's lists, in the order of the namespaces. -/
def errors (d : ℕ) : List String := I.scope.filterMap fun ns => (I.list d ns).err

/-- `listErrs`, one for each driver. -/
def listErr (d : ℕ) : Option String := (helmDrivers[d]?).bind fun _ => (I.errors d).head?

/-- The reasons of the drivers that were not read. -/
def failedDrivers : List String :=
  helmDrivers.zipIdx.filterMap fun (name, d) => (I.listErr d).map fun err =>
    s!"{name} not read: {err}" ++
      if (I.errors d).length > 1 then s!" (and in {(I.errors d).length - 1} more namespace(s))" else ""

/-- The drivers that were not read. -/
def skippedDrivers : List String := helmDrivers.zipIdx.filterMap fun (name, d) => (I.listErr d).map fun _ => name

/-- The revisions found, each with its release. -/
def revisions : List ((String × String) × HelmRevision) :=
  helmDrivers.zipIdx.flatMap fun (_, d) => I.scope.flatMap fun ns => (I.list d ns).items.filterMap fun l =>
    match helmRevisionOf B.toExternal l.metadata, storedRevision B.toExternal d l.metadata with
    | some (name, _), some r => some ((l.namespace, name), r)
    | _, _ => none

/-- The releases in the order of their keys, each with what its history gives: the history of the first driver that
holds it. -/
def picks : List ((String × String) × Option (HelmRevision × RevisionPick)) :=
  (groupOn (fun p => toLex p.1) (I.revisions B)).map fun (k, found) =>
    let revs := found.map (·.2)
    let first := ((revs.map (·.driver)).min?).getD 0
    (ofLex k, installedRevision B.sortRest (revs.filter (·.driver = first)))

/-- The releases with no revision to judge them by. -/
def unjudged : List String :=
  (I.picks B).filterMap fun (k, pick) => match pick with
    | some (_, .unjudged) => some (k.1 ++ "/" ++ k.2)
    | _ => none

/-- `todo`. -/
def todo : List Installed :=
  (I.picks B).filterMap fun (k, pick) => match pick with
    | some (r, .installed) => some ⟨k.1, k.2, r⟩
    | _ => none

/-- `flagged`. -/
def flagged : List GVK := (I.lifecycle.filter fun e => e.deprecated.isSome || e.removed.isSome).map fun e =>
  (e.group, e.version, e.kind)

end Collection

/-! ## What becomes of a release -/

/-- What is known of a release's installed revision. -/
inductive Outcome where
  /-- It was deleted since the list. -/
  | gone
  /-- It could not be fetched. -/
  | unread (msg : String)
  /-- What its payload gives. -/
  | entry (e : Entry)

/-- What a cache says of a release, and where it says nothing what fetching it gives. -/
def outcome (B : Library) (cache : Option HelmCache) (I : Collection) (t : Installed) : Outcome :=
  match cache.bind fun c => c.get t.key with
  | some e => .entry e
  | none =>
    match I.payload t.key with
    | .error .notFound => .gone
    | .error (.failed msg) => .unread msg
    | .ok data => .entry (decodeHelmEntry B data I.flagged)

/-- What the loop over the releases counts and records. -/
structure Tally where
  /-- The releases not read. -/
  unread : ℕ := 0
  /-- The first of them. -/
  firstUnread : String := ""
  /-- The releases not decodable. -/
  undecodable : ℕ := 0
  /-- The first of them. -/
  firstUndecodable : String := ""
  /-- The manifests not fully parsed. -/
  unparsed : ℕ := 0
  /-- The first of them. -/
  firstUnparsed : String := ""
  /-- The releases any of these names, and those with no revision to judge. -/
  skippedReleases : List String := []
  /-- The releases of each driver. -/
  perDriver : ℕ → ℕ := fun _ => 0
  /-- The releases. -/
  rels : List HelmRelease := []

/-- The release that an entry gives. -/
def Installed.release (t : Installed) (e : Entry) : HelmRelease where
  name := t.name
  «namespace» := t.namespace
  chartName := e.chartName
  chartVersion := e.chartVersion
  appVersion := e.appVersion
  kubeVersion := e.kubeVersion
  status := if t.rev.status = "" then e.status else t.rev.status
  revision := t.rev.revision
  manifestAPIs := e.apis

/-- One turn of the loop over the installed releases. -/
def visit (a : Tally) (t : Installed) : Outcome → Tally
  | .gone => a
  | .unread msg =>
    { a with
      unread := a.unread + 1
      firstUnread := if a.unread = 0 then s!"{t.label}: {msg}" else a.firstUnread
      skippedReleases := a.skippedReleases ++ [t.label] }
  | .entry e =>
    if e.decodeErr ≠ "" then
      { a with
        undecodable := a.undecodable + 1
        firstUndecodable := if a.undecodable = 0 then s!"{t.label}: {e.decodeErr}" else a.firstUndecodable
        skippedReleases := a.skippedReleases ++ [t.label] }
    else
      let a := if e.parseErr = "" then a else
        { a with
          unparsed := a.unparsed + 1
          firstUnparsed := if a.unparsed = 0 then s!"{t.label}: {e.parseErr}" else a.firstUnparsed
          skippedReleases := a.skippedReleases ++ [t.label] }
      { a with
        perDriver := Function.update a.perDriver t.rev.driver (a.perDriver t.rev.driver + 1)
        rels := a.rels ++ [t.release e] }

/-- What the loop over the releases does to the cache and to the keys seen; `hit` is whether the cache held the release
before it. -/
def remember (s : HelmCache × (Key → Bool)) (t : Installed) (hit : Bool) (o : Outcome) : HelmCache × (Key → Bool) :=
  match o with
  | .gone => (s.1, Function.update s.2 t.key true)
  | .unread _ => (s.1, Function.update s.2 t.key false)
  | .entry e => (if hit then s.1 else s.1.put t.key e, Function.update s.2 t.key true)

/-! ## The collection's result -/

/-- How the capability stands. -/
inductive Report where
  /-- It is unavailable. -/
  | unavailable (msg : String)
  /-- `partialError`: it is available, whole or not, with what was skipped. -/
  | available (msg : String) (incomplete : Bool) (skipped : List String)

/-- `helmSkippedOtherNamespaces`. -/
def helmSkippedOtherNamespaces : String := "releases outside the listed namespaces"

/-- The end of `collectHelmFetching`: the releases and the report. -/
def finish (B : Library) (I : Collection) (a : Tally) : List HelmRelease × Report :=
  let failed := I.failedDrivers ++
    (if a.unread > 0 then [s!"{a.unread} release(s) not read, first {a.firstUnread}"] else []) ++
    (if a.undecodable > 0 then [s!"{a.undecodable} release(s) not decodable, first {a.firstUndecodable}"] else []) ++
    (if a.unparsed > 0 then [s!"{a.unparsed} release manifest(s) not fully parsed, first {a.firstUnparsed}"] else [])
  let notAssessed := (I.listErr 0).isSome || (a.rels = [] && failed ≠ [])
  let unjudged := (I.unjudged B).length
  let failed := failed ++
    (if unjudged > 0 then
      [s!"{unjudged} release(s) with only failed revisions not assessed (no deployed or superseded revision to judge " ++
        "their chart and stored manifest by), first " ++ ((I.unjudged B).head?).getD ""]
    else []) ++ if I.scopeNote ≠ "" then [I.scopeNote] else []
  let skipped := I.skippedDrivers ++ I.unjudged B ++ a.skippedReleases ++
    if I.scopeNote ≠ "" then [helmSkippedOtherNamespaces] else []
  let counts := helmDrivers.zipIdx.filterMap fun (name, d) =>
    if I.listErr d = none then some s!"{a.perDriver d} via {name}" else none
  let msg := join (("helm releases: " ++ join counts ", ") :: failed) "; "
  (a.rels, if notAssessed then .unavailable msg else .available msg (failed ≠ []) skipped)

/-- `collectHelmFetching`: the releases and the report, and the cache for the next collection. -/
def collectHelm (B : Library) (cache : Option HelmCache) (I : Collection) :
    (List HelmRelease × Report) × Option HelmCache :=
  if I.failedDrivers.length = helmDrivers.length then
    (([], .unavailable (join (I.failedDrivers ++ if I.scopeNote ≠ "" then [I.scopeNote] else []) "; ")), cache)
  else
    let cache := cache.map fun c => c.begin (flaggedFingerprint B I.flagged)
    let found := (I.todo B).map fun t => (t, (cache.bind fun c => c.get t.key).isSome, outcome B cache I t)
    let tally := found.foldl (fun a x => visit a x.1 x.2.2) {}
    let cache := cache.map fun c =>
      let (c, seen) := found.foldl (fun s x => remember s x.1 x.2.1 x.2.2) (c, fun _ => false)
      c.prune seen fun d => I.listErr d = none
    (finish B I tally, cache)

/-! ## Fingerprints -/

section Fingerprint

/-- The kinds of an API as Kubernetes names them, and as every entry of the embedded knowledge base does: no slash in the
group and the version, and no line end. -/
def WellNamed (flagged : List GVK) : Prop :=
  ∀ g ∈ flagged, ('/' ∉ g.1.toList ∧ '/' ∉ g.2.1.toList) ∧
    '\n' ∉ g.1.toList ∧ '\n' ∉ g.2.1.toList ∧ '\n' ∉ g.2.2.toList

/-- The text of a kind tells it from every other one. -/
theorem gvkText_injective {g g' : GVK} (hg : '/' ∉ g.1.toList ∧ '/' ∉ g.2.1.toList)
    (hg' : '/' ∉ g'.1.toList ∧ '/' ∉ g'.2.1.toList) (h : gvkText g = gvkText g') : g = g' := by
  have hchars : g.1.toList ++ '/' :: (g.2.1.toList ++ '/' :: g.2.2.toList) =
      g'.1.toList ++ '/' :: (g'.2.1.toList ++ '/' :: g'.2.2.toList) := by
    simpa [gvkText] using congrArg String.toList h
  obtain ⟨hgroup, hrest⟩ := append_sep_inj hg.1 hg'.1 hchars
  obtain ⟨hversion, hkind⟩ := append_sep_inj hg.2 hg'.2 hrest
  exact Prod.ext (String.toList_injective hgroup)
    (Prod.ext (String.toList_injective hversion) (String.toList_injective hkind))

/-- Lines are read off their text. -/
theorem lines_injective {l l' : List String} (hl : ∀ t ∈ l, '\n' ∉ t.toList) (hl' : ∀ t ∈ l', '\n' ∉ t.toList)
    (h : String.join (l.map (· ++ "\n")) = String.join (l'.map (· ++ "\n"))) : l = l' := by
  have hchars : (l.flatMap fun t => t.toList ++ ['\n']) = l'.flatMap fun t => t.toList ++ ['\n'] := by
    simpa [List.flatMap_map] using congrArg String.toList h
  clear h
  induction l generalizing l' with
  | nil =>
    cases l' with
    | nil => rfl
    | cons t' l' => simp at hchars
  | cons t l ih =>
    cases l' with
    | nil => simp at hchars
    | cons t' l' =>
      simp only [List.flatMap_cons, List.append_assoc, List.singleton_append] at hchars
      obtain ⟨ht, hrest⟩ := append_sep_inj (hl t (by simp)) (hl' t' (by simp)) hchars
      rw [String.toList_injective ht, ih (fun u hu => hl u (by simp [hu])) (fun u hu => hl' u (by simp [hu])) hrest]

/-- Two sets of flagged kinds of one text are one set. -/
theorem mem_of_fingerprintText {flagged flagged' : List GVK} (hw : WellNamed flagged) (hw' : WellNamed flagged')
    (h : fingerprintText flagged = fingerprintText flagged') (g : GVK) : g ∈ flagged ↔ g ∈ flagged' := by
  have hnone : ∀ {l : List GVK}, WellNamed l → ∀ t ∈ sorted (l.dedup.map gvkText), '\n' ∉ t.toList := by
    intro l hl t ht
    obtain ⟨g, hg, rfl⟩ := List.mem_map.mp ((sortOn_perm id _).mem_iff.mp ht)
    have hnl := (hl g (List.mem_dedup.mp hg)).2
    simp [gvkText, hnl.1, hnl.2.1, hnl.2.2]
  have hlines := lines_injective (hnone hw) (hnone hw') h
  have hperm : (flagged.dedup.map gvkText).Perm (flagged'.dedup.map gvkText) :=
    (sortOn_perm id _).symm.trans ((List.Perm.of_eq hlines).trans (sortOn_perm id _))
  have hsub : ∀ {l l' : List GVK}, WellNamed l → WellNamed l' → (l.dedup.map gvkText).Perm (l'.dedup.map gvkText) →
      g ∈ l → g ∈ l' := by
    intro l l' hl hl' hperm hg
    have hmem := hperm.mem_iff.mp (List.mem_map_of_mem (List.mem_dedup.mpr hg))
    obtain ⟨g', hg', htext⟩ := List.mem_map.mp hmem
    rw [← gvkText_injective (hl' g' (List.mem_dedup.mp hg')).1 (hl g hg).1 htext]
    exact List.mem_dedup.mp hg'
  exact ⟨hsub hw hw' hperm, hsub hw' hw hperm.symm⟩

/-- The flagged objects of a manifest depend on the set of flagged kinds. -/
theorem manifestAPIs_congr {D : StreamDecoder} {flagged flagged' : List GVK} (h : ∀ g, g ∈ flagged ↔ g ∈ flagged')
    (data : Bytes) : manifestAPIs D data flagged = manifestAPIs D data flagged' := by
  have hnil : flagged = [] ↔ flagged' = [] := by
    rw [List.eq_nil_iff_forall_not_mem, List.eq_nil_iff_forall_not_mem]
    exact forall_congr' fun g => not_congr (h g)
  have hcontains : ∀ g, flagged.contains g = flagged'.contains g := by
    intro g
    rw [Bool.eq_iff_iff, List.contains_iff_mem, List.contains_iff_mem]
    exact h g
  have hpass : countPass D flagged data = countPass D flagged' data := by
    funext m p
    unfold countPass
    simp only [hcontains]
  unfold manifestAPIs
  rw [hpass]
  simp only [hnil]

/-- What a release contributes depends on which kinds are flagged, not on how they are listed. -/
theorem decodeHelmEntry_congr (B : Library) {flagged flagged' : List GVK} (h : ∀ g, g ∈ flagged ↔ g ∈ flagged')
    (data : Bytes) : decodeHelmEntry B data flagged = decodeHelmEntry B data flagged' := by
  unfold decodeHelmEntry
  cases decodeHelmRelease B data with
  | error err => rfl
  | ok doc => simp only [manifestAPIs_congr h]

end Fingerprint

/-! ## A sound cache -/

section Sound

variable {B : Library} {content : Key → Bytes} {I : Collection} {c : HelmCache}

/-- The entries of a cache are what the objects' contents give against a collection's knowledge base. -/
structure Fresh (B : Library) (content : Key → Bytes) (I : Collection) (c : HelmCache) : Prop where
  /-- The cache is of that knowledge base. -/
  flagged : c.flagged = flaggedFingerprint B I.flagged
  /-- An entry is what its object's content gives. -/
  entries : ∀ k e, c.entries k = some e → k.cacheable = true ∧ e = decodeHelmEntry B (content k) I.flagged

/-- A UID and a resource version identify an object's content, which does not change during a collection. -/
def Identifies (content : Key → Bytes) (I : Collection) : Prop :=
  ∀ k data, k.cacheable = true → I.payload k = .ok data → data = content k

namespace Fresh

/-- Putting in what an object's content gives. -/
theorem put (h : Fresh B content I c) {k : Key} {e : Entry}
    (he : k.cacheable = true → e = decodeHelmEntry B (content k) I.flagged) : Fresh B content I (c.put k e) := by
  unfold HelmCache.put
  by_cases hk : k.cacheable = true
  · rw [if_neg (by simp [hk])]
    refine ⟨h.flagged, fun k' e' he' => ?_⟩
    by_cases hkk : k' = k
    · subst hkk
      obtain rfl : e = e' := by simpa using he'
      exact ⟨hk, he hk⟩
    · exact h.entries k' e' (by simpa [hkk] using he')
  · rw [if_pos (by simp [hk])]
    exact h

/-- Dropping entries keeps what the cache holds fresh. -/
theorem prune (h : Fresh B content I c) (seen : Key → Bool) (keep : ℕ → Bool) : Fresh B content I (c.prune seen keep) := by
  refine ⟨h.flagged, fun k e he => h.entries k e ?_⟩
  unfold HelmCache.prune at he
  dsimp only at he
  split_ifs at he
  exact he

/-- A cache of another collection's knowledge base is emptied, one of the same is as good. -/
theorem begin {I₀ : Collection} (h : Fresh B content I₀ c) (hw : WellNamed I.flagged) (hw₀ : WellNamed I₀.flagged)
    (hsha : B.sha256 (fingerprintText I₀.flagged) = B.sha256 (fingerprintText I.flagged) →
      fingerprintText I₀.flagged = fingerprintText I.flagged) :
    Fresh B content I (c.begin (flaggedFingerprint B I.flagged)) := by
  unfold HelmCache.begin
  split_ifs with hother
  · exact ⟨rfl, by simp⟩
  · have hsame : c.flagged = flaggedFingerprint B I.flagged := by simpa using hother
    have hmem := mem_of_fingerprintText hw₀ hw (hsha (h.flagged.symm.trans hsame))
    refine ⟨hsame, fun k e he => ?_⟩
    obtain ⟨hk, hent⟩ := h.entries k e he
    exact ⟨hk, hent.trans (decodeHelmEntry_congr B hmem _)⟩

/-- The loop over the releases keeps what the cache holds fresh. -/
theorem remember (h : Fresh B content I c) (hid : Identifies content I) {start : HelmCache} (seen : Key → Bool)
    (t : Installed) :
    Fresh B content I (HelmReleases.remember (c, seen) t (start.get t.key).isSome (outcome B (some start) I t)).1 := by
  unfold HelmReleases.remember outcome
  cases hget : start.get t.key with
  | some e => simpa [hget] using h
  | none =>
    cases hpay : I.payload t.key with
    | error err =>
      cases err with
      | notFound => simpa [hget, hpay] using h
      | failed msg => simpa [hget, hpay] using h
    | ok data =>
      simp only [Option.bind_some, hget, Option.isSome_none, Bool.false_eq_true, if_false]
      exact h.put fun hk => by rw [hid t.key data hk hpay]

end Fresh

/-! ## Every collection of a run -/

/-- A collection in which the fetches of what a cache holds succeed. -/
def Collection.answered (I : Collection) (content : Key → Bytes) (c : HelmCache) : Collection :=
  { I with payload := fun k => if (c.get k).isSome then .ok (content k) else I.payload k }

/-- Of a release that a sound cache holds, a collection sees what it sees without the cache. -/
theorem outcome_eq (h : Fresh B content I c) (t : Installed) :
    outcome B (some c) I t = outcome B none (I.answered content c) t := by
  unfold outcome Collection.answered
  cases hget : c.get t.key with
  | none =>
    simp [hget]
    rfl
  | some e =>
    have hentry : c.entries t.key = some e := by
      unfold HelmCache.get at hget
      split_ifs at hget
      exact hget
    simp [hget, (h.entries t.key e hentry).2, Collection.flagged]

/-- The cache of a collection after it. -/
def after (B : Library) (c : HelmCache) (I : Collection) : HelmCache := ((collectHelm B (some c) I).2).getD {}

/-- The caches of a run. -/
def cacheAfter (B : Library) (run : List Collection) : HelmCache := run.foldl (after B) {}

/-- A cache before a collection's first entry, or a sound one of an earlier collection. -/
def Sound (B : Library) (content : Key → Bytes) (done : List Collection) (c : HelmCache) : Prop :=
  (∀ k, c.entries k = none) ∨ ∃ I ∈ done, Fresh B content I c

/-- What the loop over the releases leaves in the cache and among the keys seen. -/
def remembered (B : Library) (I : Collection) (c : HelmCache) : HelmCache × (Key → Bool) :=
  (I.todo B).foldl (fun s t => remember s t (c.get t.key).isSome (outcome B (some c) I t)) (c, fun _ => false)

/-- A collection with a cache, where a driver was read. -/
theorem collectHelm_some (hread : I.failedDrivers.length ≠ helmDrivers.length) (c : HelmCache) :
    collectHelm B (some c) I =
      let held := c.begin (flaggedFingerprint B I.flagged)
      (finish B I ((I.todo B).foldl (fun a t => visit a t (outcome B (some held) I t)) {}),
        some ((remembered B I held).1.prune (remembered B I held).2 fun d => I.listErr d = none)) := by
  unfold collectHelm remembered
  rw [if_neg hread]
  simp only [Option.map_some, Option.bind_some, List.foldl_map]

/-- A collection without a cache, where a driver was read. -/
theorem collectHelm_none (hread : I.failedDrivers.length ≠ helmDrivers.length) :
    (collectHelm B none I).1 = finish B I ((I.todo B).foldl (fun a t => visit a t (outcome B none I t)) {}) := by
  unfold collectHelm
  rw [if_neg hread]
  simp only [Option.map_none, List.foldl_map]

/-- The loop keeps the cache sound, and the keys seen are those of releases. -/
theorem remembered_spec (h : Fresh B content I c) (hid : Identifies content I) :
    Fresh B content I (remembered B I c).1 ∧ ∀ k, (remembered B I c).2 k = true → ∃ t ∈ I.todo B, t.key = k := by
  unfold remembered
  -- The invariant of the loop, over the releases it has visited.
  have hloop : ∀ (l : List Installed) (s : HelmCache × (Key → Bool)), Fresh B content I s.1 →
      (∀ t ∈ l, t ∈ I.todo B) → (∀ k, s.2 k = true → ∃ t ∈ I.todo B, t.key = k) →
      Fresh B content I (l.foldl (fun s t => remember s t (c.get t.key).isSome (outcome B (some c) I t)) s).1 ∧
        ∀ k, (l.foldl (fun s t => remember s t (c.get t.key).isSome (outcome B (some c) I t)) s).2 k = true →
          ∃ t ∈ I.todo B, t.key = k := by
    intro l
    induction l with
    | nil => exact fun s hs _ hseen => ⟨hs, hseen⟩
    | cons t l ih =>
      intro s hs hl hseen
      refine ih _ (hs.remember hid s.2 t) (fun u hu => hl u (by simp [hu])) fun k hk => ?_
      by_cases hkt : k = t.key
      · exact ⟨t, hl t (by simp), hkt.symm⟩
      · refine hseen k ?_
        dsimp only [remember] at hk
        cases ho : outcome B (some c) I t <;> simpa [ho, hkt] using hk
  exact hloop (I.todo B) (c, fun _ => false) h (fun _ ht => ht) (by simp)

/-- A sound cache is sound for the collection that begins. -/
theorem Sound.begin {done : List Collection} (h : Sound B content done c) (hw : ∀ I' ∈ I :: done, WellNamed I'.flagged)
    (hsha : ∀ I' ∈ done, B.sha256 (fingerprintText I'.flagged) = B.sha256 (fingerprintText I.flagged) →
      fingerprintText I'.flagged = fingerprintText I.flagged) :
    Fresh B content I (c.begin (flaggedFingerprint B I.flagged)) := by
  rcases h with hempty | ⟨I₀, hI₀, hfresh⟩
  · refine ⟨?_, fun k e he => ?_⟩
    · unfold HelmCache.begin
      split_ifs with hother
      · rfl
      · simpa using hother
    · unfold HelmCache.begin at he
      split_ifs at he
      simp [hempty] at he
  · exact hfresh.begin (hw I (by simp)) (hw I₀ (by simp [hI₀])) (hsha I₀ hI₀)

/-- A collection leaves a sound cache. -/
theorem Sound.after {done : List Collection} (h : Sound B content done c)
    (hbegin : Fresh B content I (c.begin (flaggedFingerprint B I.flagged))) (hid : Identifies content I) :
    Sound B content (done ++ [I]) (HelmReleases.after B c I) := by
  unfold HelmReleases.after
  by_cases hread : I.failedDrivers.length = helmDrivers.length
  · have hsame : (collectHelm B (some c) I).2 = some c := by
      unfold collectHelm
      rw [if_pos hread]
    rw [hsame]
    exact h.imp_right fun ⟨I₀, hI₀, hfresh⟩ => ⟨I₀, List.mem_append_left _ hI₀, hfresh⟩
  · rw [collectHelm_some hread]
    dsimp only [Option.getD_some]
    exact .inr ⟨I, by simp, ((remembered_spec hbegin hid).1).prune _ _⟩

/-- In a run, every cache is sound. -/
theorem sound_cacheAfter {run before later : List Collection} (hrun : run = before ++ later)
    (hid : ∀ I ∈ run, Identifies content I) (hw : ∀ I ∈ run, WellNamed I.flagged)
    (hsha : ∀ I ∈ run, ∀ I' ∈ run, B.sha256 (fingerprintText I.flagged) = B.sha256 (fingerprintText I'.flagged) →
      fingerprintText I.flagged = fingerprintText I'.flagged) : Sound B content before (cacheAfter B before) := by
  induction before using List.reverseRecOn generalizing later with
  | nil => exact .inl fun _ => rfl
  | append_singleton done I ih =>
    have hrun' : run = done ++ I :: later := by rw [hrun]; simp
    have hdone : ∀ I' ∈ I :: done, I' ∈ run := by
      intro I' hI'
      rw [hrun']
      simp only [List.mem_append, List.mem_cons] at hI' ⊢
      tauto
    have hsound := ih hrun'
    have hbegin := hsound.begin (fun I' hI' => hw I' (hdone I' hI'))
      (fun I' hI' => hsha I' (hdone I' (by simp [hI'])) I (hdone I (by simp)))
    rw [cacheAfter, List.foldl_append]
    exact hsound.after hbegin (hid I (hdone I (by simp)))

/-- A collection with a cache of its content reports what it does without it, where the fetches of what the cache holds
succeed. -/
theorem collectHelm_answered {held : HelmCache} (hheld : held = c.begin (flaggedFingerprint B I.flagged))
    (hfresh : Fresh B content I held) :
    (collectHelm B (some c) I).1 = (collectHelm B none (I.answered content held)).1 := by
  subst hheld
  by_cases hread : I.failedDrivers.length = helmDrivers.length
  · have hread' : (I.answered content (c.begin (flaggedFingerprint B I.flagged))).failedDrivers.length =
        helmDrivers.length := hread
    unfold collectHelm
    rw [if_pos hread, if_pos hread']
    rfl
  · have hread' : (I.answered content (c.begin (flaggedFingerprint B I.flagged))).failedDrivers.length ≠
        helmDrivers.length := hread
    have hvisit : (fun (a : Tally) (t : Installed) =>
          visit a t (outcome B (some (c.begin (flaggedFingerprint B I.flagged))) I t)) =
        fun a t => visit a t (outcome B none (I.answered content (c.begin (flaggedFingerprint B I.flagged))) t) := by
      funext a t
      rw [outcome_eq hfresh t]
    rw [collectHelm_some hread, collectHelm_none hread']
    dsimp only
    rw [hvisit]
    rfl

/-- Where no fetch of what the cache holds fails, the answers are the collection's own. -/
theorem answered_eq_self {held : HelmCache} (hid : Identifies content I)
    (hfetch : ∀ k, (held.get k).isSome = true → ∃ data, I.payload k = .ok data) : I.answered content held = I := by
  have hpayload : (fun k => if (held.get k).isSome then .ok (content k) else I.payload k) = I.payload := by
    funext k
    split_ifs with hheld
    · obtain ⟨data, hdata⟩ := hfetch k hheld
      have hk : k.cacheable = true := by
        by_contra hk
        have hk : k.cacheable = false := by simpa using hk
        simp [HelmCache.get, hk] at hheld
      rw [hdata, hid k data hk hdata]
    · rfl
  unfold Collection.answered
  rw [hpayload]

/-- After a collection whose lists all succeeded, the cache holds what it visited. -/
theorem mem_todo_of_after (hid : Identifies content I)
    (hfresh : Fresh B content I (c.begin (flaggedFingerprint B I.flagged))) (hlists : ∀ d, I.listErr d = none) {k : Key}
    {e : Entry} (he : (HelmReleases.after B c I).entries k = some e) : ∃ t ∈ I.todo B, t.key = k := by
  have hread : I.failedDrivers.length ≠ helmDrivers.length := by
    have hnone : I.failedDrivers = [] := by
      simp [Collection.failedDrivers, hlists]
    rw [hnone]
    decide
  unfold HelmReleases.after at he
  rw [collectHelm_some hread] at he
  dsimp only [Option.getD_some] at he
  simp only [HelmCache.prune, hlists, decide_true, Bool.and_true] at he
  split_ifs at he with hseen
  exact (remembered_spec hfresh hid).2 k (by simpa using hseen)

/-- The cache is invisible: in every run of collections, whatever their lists and fetches give, a collection with the
cache reports the releases and reasons that it reports without it where the fetches of what the cache holds succeed; so
it reports the very same where none of these would fail. After a collection whose lists all succeeded, the cache holds
installed revisions of that collection only. -/
theorem cache_invisible {run before later : List Collection} (hid : ∀ I ∈ run, Identifies content I)
    (hw : ∀ I ∈ run, WellNamed I.flagged)
    (hsha : ∀ I ∈ run, ∀ I' ∈ run, B.sha256 (fingerprintText I.flagged) = B.sha256 (fingerprintText I'.flagged) →
      fingerprintText I.flagged = fingerprintText I'.flagged) (hrun : run = before ++ I :: later) :
    let c := cacheAfter B before
    let held := c.begin (flaggedFingerprint B I.flagged)
    (collectHelm B (some c) I).1 = (collectHelm B none (I.answered content held)).1 ∧
      ((∀ k, (held.get k).isSome = true → ∃ data, I.payload k = .ok data) →
        (collectHelm B (some c) I).1 = (collectHelm B none I).1) ∧
      ((∀ d, I.listErr d = none) →
        ∀ k e, (after B c I).entries k = some e → ∃ t ∈ I.todo B, t.key = k) := by
  intro c held
  have hsound : Sound B content before c := sound_cacheAfter hrun hid hw hsha
  have hmem : ∀ I' ∈ I :: before, I' ∈ run := by
    intro I' hI'
    rw [hrun]
    simp only [List.mem_append, List.mem_cons] at hI' ⊢
    tauto
  have hfresh : Fresh B content I held := hsound.begin (fun I' hI' => hw I' (hmem I' hI'))
    (fun I' hI' => hsha I' (hmem I' (by simp [hI'])) I (hmem I (by simp)))
  have hidI : Identifies content I := hid I (hmem I (by simp))
  have hsame : (collectHelm B (some c) I).1 = (collectHelm B none (I.answered content held)).1 :=
    collectHelm_answered rfl hfresh
  refine ⟨hsame, fun hfetch => ?_, fun hlists k e he => mem_todo_of_after hidI hfresh hlists he⟩
  rw [hsame, answered_eq_self hidI hfetch]

end Sound

/-! ## Two collections -/

/-- A release document of the chart "web". -/
def webJson : Bytes :=
  "\x7b\"info\":\x7b\"status\":\"deployed\"\x7d,\"chart\":\x7b\"metadata\":\x7b\"name\":\"web\"\x7d\x7d\x7d".toList.map
    Char.toUInt8

/-- The release "web" in gzip. -/
def webGzip : Bytes :=
  [0x1f, 0x8b, 0x08, 0x00, 0x00, 0x00, 0x00, 0x00, 0x02, 0xff, 0xab, 0x56, 0xca, 0xcc, 0x4b, 0xcb, 0x57, 0xb2,
    0xaa, 0x56, 0x2a, 0x2e, 0x49, 0x2c, 0x29, 0x2d, 0x56, 0xb2, 0x52, 0x4a, 0x49, 0x2d, 0xc8, 0xc9, 0xaf, 0x4c,
    0x4d, 0x51, 0xaa, 0xd5, 0x51, 0x4a, 0xce, 0x48, 0x2c, 0x2a, 0x01, 0xc9, 0xe6, 0xa6, 0x96, 0x24, 0xa6, 0x24,
    0x96, 0x24, 0x82, 0xd8, 0x79, 0x89, 0xb9, 0xa9, 0x40, 0x75, 0xe5, 0xa9, 0x49, 0x4a, 0xb5, 0xb5, 0xb5, 0x00,
    0x08, 0xe3, 0xa8, 0xcf, 0x42, 0x00, 0x00, 0x00]

/-- The release "web" as its Secret stores it. -/
def webPayload : Bytes :=
  "H4sIAAAAAAAC/6tWysxLy1eyqlYqLkksKS1WslJKSS3Iya9MTVGq1VFKzkgsKgHJ5qaWJKYkliSC2HmJualAdeWpSUq1tbUACOOoz0IAAAA=".toList.map
    Char.toUInt8

/-- The packages' answers about that release. -/
def webLibrary : Library :=
  { External.ascii with
    base64 := fun data => if data = webPayload then .ok webGzip else .error "illegal base64 data"
    gunzip := fun raw => if raw = webGzip then .ok { data := webJson } else .error "gzip: invalid header"
    unmarshal := fun data =>
      if data = webJson then .ok { name := "web", status := "deployed" } else .error "unexpected end of JSON input"
    decoder := ⟨fun _ => false, fun _ => [], fun _ => []⟩
    sha256 := fun s => if s = "" then "e3b0c44298fc1c149afbf4c8996fb92427ae41e4649b934ca495991b7852b855" else s
    sortRest := SortFunc.insertionSortCmpFunc }

/-- A cluster with that release, whose payload is fetched or not. -/
def webCollection (payload : Key → Except FetchError Bytes) : Collection where
  lifecycle := []
  list d _ :=
    if d = 0 then
      { items := [⟨"shop", { name := "sh.helm.release.v1.web.v1", labels := ∅, uid := "u1", resourceVersion := "7" }⟩] }
    else { items := [] }
  payload := payload

/-- The second collection cannot fetch the release and reports it all the same, as it would without the cache if it
could. -/
theorem cache_invisible_web :
    let first := webCollection fun _ => .ok webPayload
    let second := webCollection fun _ => .error (.failed "timeout")
    let c := cacheAfter webLibrary [first]
    ((collectHelm webLibrary (some c) second).1.1.map (·.chartName) = ["web"]) ∧
      (collectHelm webLibrary (some c) second).1 =
        (collectHelm webLibrary none
          (second.answered (fun _ => webPayload) (c.begin (flaggedFingerprint webLibrary second.flagged)))).1 := by
  intro first second c
  refine ⟨by decide +kernel, ?_⟩
  -- Only the first collection fetches a payload, and it is the one the release has.
  have hid : ∀ I ∈ [first, second], Identifies (fun _ => webPayload) I := by
    intro I hI k data _ hdata
    simp only [List.mem_cons, List.not_mem_nil, or_false] at hI
    rcases hI with rfl | rfl
    · simpa [first, webCollection] using hdata.symm
    · simp [second, webCollection] at hdata
  have hflagged : ∀ I ∈ [first, second], I.flagged = [] := by
    intro I hI
    simp only [List.mem_cons, List.not_mem_nil, or_false] at hI
    rcases hI with rfl | rfl <;> rfl
  have hw : ∀ I ∈ [first, second], WellNamed I.flagged := by
    intro I hI
    rw [hflagged I hI]
    simp [WellNamed]
  have hsha : ∀ I ∈ [first, second], ∀ I' ∈ [first, second],
      webLibrary.sha256 (fingerprintText I.flagged) = webLibrary.sha256 (fingerprintText I'.flagged) →
        fingerprintText I.flagged = fingerprintText I'.flagged := by
    intro I hI I' hI' _
    rw [hflagged I hI, hflagged I' hI']
  exact (@cache_invisible webLibrary (fun _ => webPayload) second [first, second] [first] [] hid hw hsha rfl).1

end UpgradeScope.HelmReleases
