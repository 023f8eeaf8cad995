import UpgradeScope.Lib.Numbering
import UpgradeScope.Reports.Texts

/-!
# GitLab Code Quality reports

`internal/codequality/codequality.go` writes one entry for each object of a finding that has a file, one on a virtual path for
a finding whose objects have none or are not all listed, and one for a gap that the verdict waits for. GitLab keys entries by
fingerprint, in a merge request against those of the target branch: two entries with one fingerprint are one, and an entry
whose fingerprint moves with a line is new after every edit above it. `fingerprints_unique` says that neither happens.

SHA-256 is a parameter. What is assumed of it is that it does not take two of the texts of a report to one digest.
-/

namespace UpgradeScope.Reports

open Go

/-! ## The entries -/

/-- What `add` is called with. -/
structure Entry where
  /-- The check. -/
  check : String
  /-- The severity, as GitLab has it. -/
  severity : String
  /-- The description. -/
  description : String
  /-- The path of the location. -/
  path : String
  /-- The line of the location. -/
  line : ℤ
  /-- What tells two entries of a check and path apart. -/
  identity : List String := []
  deriving DecidableEq

/-- `VirtualPrefix`. -/
def virtualRoot : String := "upgradescope/"

/-- `severity`. -/
def gitlabSeverity : Severity → String
  | .blocker => "critical"
  | .warning => "minor"
  | .info => "info"

/-- `objectMessage`. -/
def objectMessage (f : Finding) (o : ObjectRef) : String :=
  f.title ++ ": " ++ objectName o ++ (if o.renderedFrom ≠ "" then " (rendered from " ++ o.renderedFrom ++ ")" else "") ++ "." ++
    if f.remediation ≠ "" then " Fix: " ++ sentence f.remediation else ""

/-- The line of an object, where it has one. -/
def atLine (o : ObjectRef) : String := if o.line > 0 then s!" (line {o.line})" else ""

/-- `findingMessage`. -/
def findingMessage (f : Finding) : String :=
  sentence f.title ++ (if f.detail ≠ "" then " " ++ sentence f.detail else "") ++
    (if f.objects = [] then "" else " Objects: " ++ objectList atLine f.objects f.objectsOmitted ++ ".") ++
    if f.remediation ≠ "" then " Fix: " ++ sentence f.remediation else ""

/-- What a finding with a located object says of those that are not. -/
def looseMessage (f : Finding) (loose : List ObjectRef) : String :=
  let more := wrap64 (loose.length + f.objectsOmitted)
  f.title ++ s!": {more} more affected object(s) are not listed with a file and line" ++
    (if loose ≠ [] then ": " ++ objectList atLine loose f.objectsOmitted
    else if maxObjectRefs ≤ f.objects.length then s!" (at most {maxObjectRefs} objects are recorded per finding)"
    else "") ++ "."

/-- The entry of an object that has a file. -/
def locatedEntry (f : Finding) (o : ObjectRef) : Entry where
  check := check f
  severity := gitlabSeverity f.severity
  description := objectMessage f o
  path := o.file
  line := max o.line 1
  identity := [o.namespace, o.name]

/-- An entry on the virtual path of a check. -/
def virtualEntry (check severity description : String) : Entry where
  check := check
  severity := severity
  description := description
  path := virtualRoot ++ check
  line := 1

/-- The entries of a finding. -/
def findingEntries (f : Finding) : List Entry :=
  let located := f.objects.filter (·.file ≠ "")
  let loose := f.objects.filter (·.file = "")
  located.map (locatedEntry f) ++
    if located = [] then [virtualEntry (check f) (gitlabSeverity f.severity) (findingMessage f)]
    else if wrap64 (loose.length + f.objectsOmitted) > 0 then
      [virtualEntry (check f) (gitlabSeverity f.severity) (looseMessage f loose)]
    else []

/-- What is said about a gap. -/
def gapMessage (g : CapabilityGap) : String :=
  "Not assessed: " ++ label g ++ ": " ++ sentence g.reason ++
    (if g.skipped = [] then "" else " Skipped: " ++ join g.skipped ", " ++ ".") ++
    if g.required then " The verdict is unknown: a blocker may have been missed." else ""

/-- The check of a gap. -/
def gapCheck (g : CapabilityGap) : String := "not-assessed/" ++ g.capability

/-- The entry of a gap; an optional check that did not run has none. -/
def gapEntry (g : CapabilityGap) : Option Entry :=
  if g.required then some (virtualEntry (gapCheck g) "critical" (gapMessage g))
  else if g.partly then some (virtualEntry (gapCheck g) "info" (gapMessage g))
  else none

/-- What `Write` adds, in order. -/
def entriesOf (r : Report) : List Entry := r.findings.flatMap findingEntries ++ r.notAssessed.filterMap gapEntry

/-! ## The fingerprints -/

/-- `issue`. -/
structure Issue where
  /-- The entry. -/
  entry : Entry
  /-- Its fingerprint. -/
  fingerprint : String
  deriving DecidableEq

/-- `fingerprintVersion`. -/
def fingerprintVersion : String := "upgradescope/codequality/v1"

/-- The separator of the parts. -/
def nul : Char := Char.ofNat 0

/-- The parts joined by a separator, as they are hashed. -/
def hashedText (parts : List String) (occurrence : ℕ) : String :=
  join (parts ++ if occurrence > 0 then [occurrence.repr] else []) (String.singleton nul)

/-- The parts of an entry. -/
def Entry.parts (e : Entry) : List String := fingerprintVersion :: e.check :: e.path :: e.identity

section Write

variable (sha256 : String → String)

/-- `fingerprint`. -/
def fingerprint (parts : List String) (occurrence : ℕ) : String := sha256 (hashedText parts occurrence)

/-- Where the loop of `Write` is. -/
structure Writing where
  /-- The entries so far. -/
  issues : List Issue := []
  /-- How many have a fingerprint before it is numbered. -/
  occurrences : String → ℕ := fun _ => 0

/-- `add`. -/
def Writing.add (st : Writing) (e : Entry) : Writing :=
  let base := fingerprint sha256 e.parts 0
  let n := st.occurrences base
  { issues := st.issues ++ [{ entry := e, fingerprint := if n > 0 then fingerprint sha256 e.parts n else base }]
    occurrences := Function.update st.occurrences base (n + 1) }

/-- `Write`, up to the JSON of its array. -/
def codeQuality (r : Report) : List Issue := ((entriesOf r).foldl (Writing.add sha256) {}).issues

end Write

/-! ## What is hashed -/

/-- Texts without the separator are told apart from their join. -/
theorem join_injective {parts parts' : List String} (h : ∀ p ∈ parts, nul ∉ p.toList) (h' : ∀ p ∈ parts', nul ∉ p.toList)
    (hne : parts ≠ []) (hne' : parts' ≠ []) (heq : join parts (String.singleton nul) = join parts' (String.singleton nul)) :
    parts = parts' := by
  have hsplit : ∀ l : List String, (∀ p ∈ l, nul ∉ p.toList) → l ≠ [] →
      (join l (String.singleton nul)).toList.splitOn nul = l.map String.toList := by
    intro l hl hlne
    have htext : (join l (String.singleton nul)).toList = [nul].intercalate (l.map String.toList) := by
      rw [join, String.toList_intercalate]
      rfl
    rw [htext, List.splitOn_intercalate nul _ (by simpa using hlne)]
    intro p hp
    obtain ⟨q, hq, rfl⟩ := List.mem_map.mp hp
    exact hl q hq
  have hmap : parts.map String.toList = parts'.map String.toList := by
    rw [← hsplit parts h hne, ← hsplit parts' h' hne', heq]
  exact List.map_injective_iff.mpr (fun _ _ => String.toList_inj.mp) hmap

/-- A text without the separator. -/
def NulFree (s : String) : Prop := nul ∉ s.toList

instance (s : String) : Decidable (NulFree s) := inferInstanceAs (Decidable (nul ∉ s.toList))

/-- Two hashed texts of as many parts are told apart by the parts and the number. -/
theorem hashedText_injective {parts parts' : List String} {m n : ℕ} (h : ∀ p ∈ parts, NulFree p) (h' : ∀ p ∈ parts', NulFree p)
    (hne : parts ≠ []) (hne' : parts' ≠ []) (hlength : parts.length = parts'.length ∨ parts.length + 1 < parts'.length ∨
      parts'.length + 1 < parts.length) (heq : hashedText parts m = hashedText parts' n) : parts = parts' ∧ m = n := by
  have hnumber : ∀ {l : List String} {i : ℕ}, (∀ p ∈ l, NulFree p) →
      ∀ p ∈ l ++ (if i > 0 then [i.repr] else []), nul ∉ p.toList := by
    intro l i hl p hp
    rcases List.mem_append.mp hp with hp | hp
    · exact hl p hp
    · split_ifs at hp
      · rw [List.mem_singleton.mp hp]
        exact notMem_natRepr (by decide)
      · cases hp
  have hall := join_injective (hnumber h) (hnumber h') (List.append_ne_nil_of_left_ne_nil hne _)
    (List.append_ne_nil_of_left_ne_nil hne' _) heq
  -- The number makes the parts one more, which no other list of parts is.
  have hlengths := congrArg List.length hall
  rw [List.length_append, List.length_append] at hlengths
  by_cases hm : m > 0 <;> by_cases hn : n > 0
  · rw [if_pos hm, if_pos hn] at hall
    obtain ⟨hparts, hlast⟩ := List.append_inj' hall rfl
    exact ⟨hparts, natRepr_injective (List.singleton_injective hlast)⟩
  · rw [if_pos hm, if_neg hn, List.length_singleton, List.length_nil] at hlengths
    omega
  · rw [if_neg hm, if_pos hn, List.length_singleton, List.length_nil] at hlengths
    omega
  · rw [if_neg hm, if_neg hn, List.append_nil, List.append_nil] at hall
    exact ⟨hall, by omega⟩

/-- The fingerprints of entries with the given parts, the repeats numbered from a count on. -/
def fingerprintsOf (sha256 : String → String) (occurrences : String → ℕ) (parts : List (List String)) : List String :=
  (Numbering.numbered (fun p => fingerprint sha256 p 0) occurrences parts).map fun x => fingerprint sha256 x.1 x.2

/-- SHA-256 tells the texts of a report apart: those of its entries' parts, with the numbers that repeats can have. -/
def TellsApart (sha256 : String → String) (parts : List (List String)) : Prop :=
  ∀ p ∈ parts, ∀ q ∈ parts, ∀ m < parts.length, ∀ n < parts.length,
    sha256 (hashedText p m) = sha256 (hashedText q n) → hashedText p m = hashedText q n

/-- Parts without the separator, of lengths that a number does not make equal, give different fingerprints. -/
theorem nodup_fingerprintsOf {sha256 : String → String} {parts : List (List String)} (hnul : ∀ p ∈ parts, ∀ s ∈ p, NulFree s)
    (hne : ∀ p ∈ parts, p ≠ [])
    (hlength : ∀ p ∈ parts, ∀ q ∈ parts, p.length = q.length ∨ p.length + 1 < q.length ∨ q.length + 1 < p.length)
    (hsha : TellsApart sha256 parts) : (fingerprintsOf sha256 (fun _ => 0) parts).Nodup := by
  refine @Numbering.nodup_names (List String) String String _ (fun p => fingerprint sha256 p 0)
    (fun p n => fingerprint sha256 p n) _ fun p hp q hq m hm n hn heq => ?_
  obtain ⟨hparts, hnumber⟩ := hashedText_injective (hnul p hp) (hnul q hq) (hne p hp) (hne q hq) (hlength p hp q hq)
    (hsha p hp q hq m hm n hn heq)
  exact ⟨congrArg (fingerprint sha256 · 0) hparts, hnumber⟩

/-! ## The issues of a report -/

variable (sha256 : String → String) {e : Entry} (f : Finding) {r : Report}

/-- The loop of `Write` numbers the repeats of a fingerprint. -/
theorem foldl_add (es : List Entry) (st : Writing) :
    (es.foldl (Writing.add sha256) st).issues =
      st.issues ++ (Numbering.numbered (fun e : Entry => fingerprint sha256 e.parts 0) st.occurrences es).map fun x =>
        { entry := x.1, fingerprint := fingerprint sha256 x.1.parts x.2 } := by
  induction es generalizing st with
  | nil => simp [Numbering.numbered]
  | cons e es ih =>
    have hname : (if st.occurrences (fingerprint sha256 e.parts 0) > 0 then
        fingerprint sha256 e.parts (st.occurrences (fingerprint sha256 e.parts 0)) else fingerprint sha256 e.parts 0) =
          fingerprint sha256 e.parts (st.occurrences (fingerprint sha256 e.parts 0)) := by
      split_ifs with h
      · rfl
      · rw [Nat.eq_zero_of_not_pos h]
    rw [List.foldl_cons, ih]
    simp only [Writing.add, Numbering.numbered, List.map_cons, hname, List.append_assoc, List.singleton_append]

/-- The issues are the entries, in order, with their fingerprints. -/
theorem codeQuality_eq (r : Report) :
    codeQuality sha256 r = (Numbering.numbered (fun e : Entry => fingerprint sha256 e.parts 0) (fun _ => 0) (entriesOf r)).map
      fun x => { entry := x.1, fingerprint := fingerprint sha256 x.1.parts x.2 } := by
  rw [codeQuality, foldl_add, List.nil_append]

/-- The entries of the issues are those of the report. -/
theorem map_entry_codeQuality (r : Report) :
    (codeQuality sha256 r).map (·.entry) = entriesOf r := by
  rw [codeQuality_eq, List.map_map]
  exact Numbering.map_fst_numbered _ _ _

/-- An entry has three parts on a virtual path and five in a file. -/
theorem length_parts (h : e ∈ entriesOf r) : e.parts.length = 3 ∨ e.parts.length = 5 := by
  rcases List.mem_append.mp h with h | h
  · obtain ⟨f, -, he⟩ := List.mem_flatMap.mp h
    rcases List.mem_append.mp he with he | he
    · obtain ⟨o, -, rfl⟩ := List.mem_map.mp he
      exact .inr rfl
    · split_ifs at he
      · rw [List.mem_singleton.mp he]
        exact .inl rfl
      · rw [List.mem_singleton.mp he]
        exact .inl rfl
      · cases he
  · obtain ⟨g, -, hg⟩ := List.mem_filterMap.mp h
    unfold gapEntry at hg
    split_ifs at hg <;> (rw [← Option.some.inj hg]; exact .inl rfl)

/-- The fingerprints are those of the parts. -/
theorem map_fingerprint_codeQuality (r : Report) :
    (codeQuality sha256 r).map (·.fingerprint) = fingerprintsOf sha256 (fun _ => 0) ((entriesOf r).map Entry.parts) := by
  rw [codeQuality_eq, fingerprintsOf, Numbering.numbered_map, List.map_map, List.map_map]
  rfl

/-- A finding whose objects moved within their files. -/
def movedTo (line : ObjectRef → ℤ) (f : Finding) : Finding :=
  { f with objects := f.objects.map fun o => { o with line := line o } }

/-- A report whose objects moved within their files. -/
def moved (line : ObjectRef → ℤ) (r : Report) : Report := { r with findings := r.findings.map (movedTo line) }

/-- What is hashed of an object with a file. -/
theorem parts_locatedEntry (o : ObjectRef) :
    (locatedEntry f o).parts = [fingerprintVersion, check f, o.file, o.namespace, o.name] := rfl

/-- What is hashed of an entry on a virtual path. -/
theorem parts_virtualEntry (c severity description : String) :
    (virtualEntry c severity description).parts = [fingerprintVersion, c, virtualRoot ++ c] := rfl

/-- A finding's check is not about its objects. -/
theorem check_movedTo (line : ObjectRef → ℤ) (f : Finding) : check (movedTo line f) = check f := rfl

/-- Moving objects leaves the parts of a finding's entries. -/
theorem parts_movedTo (line : ObjectRef → ℤ) (f : Finding) :
    (findingEntries (movedTo line f)).map Entry.parts = (findingEntries f).map Entry.parts := by
  have hfilter : ∀ p : String → Bool, ((movedTo line f).objects.filter fun o => p o.file) =
      (f.objects.filter fun o => p o.file).map fun o => { o with line := line o } := by
    intro p
    rw [movedTo, List.filter_map]
    rfl
  have hlocated := hfilter fun file => file ≠ ""
  have hloose := hfilter fun file => file = ""
  unfold findingEntries
  dsimp only
  rw [hlocated, hloose, List.map_append, List.map_append, List.map_map, List.map_map, List.map_map, List.length_map]
  have homitted : (movedTo line f).objectsOmitted = f.objectsOmitted := rfl
  simp only [List.map_eq_nil_iff, Function.comp_def, parts_locatedEntry, check_movedTo, homitted]
  split_ifs
  · simp only [List.map_singleton, parts_virtualEntry]
  · simp only [List.map_singleton, parts_virtualEntry]
  · rfl

/-- Moving objects leaves the parts of a report's entries. -/
theorem parts_moved (line : ObjectRef → ℤ) (r : Report) :
    (entriesOf (moved line r)).map Entry.parts = (entriesOf r).map Entry.parts := by
  unfold entriesOf moved
  rw [List.map_append, List.map_append, List.flatMap_map, List.map_flatMap, List.map_flatMap]
  simp only [parts_movedTo]

/-- The names of a report hold no separator. -/
structure NulFreeNames (r : Report) : Prop where
  /-- Not its checks. -/
  checks : ∀ f ∈ r.findings, NulFree (check f)
  /-- Not the files, namespaces and names of its objects. -/
  objects : ∀ f ∈ r.findings, ∀ o ∈ f.objects, NulFree o.file ∧ NulFree o.namespace ∧ NulFree o.name
  /-- Not its capabilities. -/
  gaps : ∀ g ∈ r.notAssessed, NulFree g.capability

/-- What two texts do not hold, their concatenation does not. -/
theorem NulFree.append {s t : String} (hs : NulFree s) (ht : NulFree t) : NulFree (s ++ t) := by
  unfold NulFree at hs ht ⊢
  rw [String.toList_append, List.mem_append]
  exact not_or.mpr ⟨hs, ht⟩

/-- The parts of a virtual entry hold no NUL. -/
theorem nulFree_virtualEntry {c : String} (hc : NulFree c) (severity description : String) :
    ∀ p ∈ (virtualEntry c severity description).parts, NulFree p := by
  have hversion : NulFree fingerprintVersion := by decide
  have hroot : NulFree virtualRoot := by decide
  intro p hp
  simp only [parts_virtualEntry, List.mem_cons, List.not_mem_nil, or_false] at hp
  rcases hp with rfl | rfl | rfl
  · exact hversion
  · exact hc
  · exact hroot.append hc

/-- The parts of a report's entries hold no NUL. -/
theorem NulFreeNames.parts (h : NulFreeNames r) (he : e ∈ entriesOf r) : ∀ p ∈ e.parts, NulFree p := by
  rcases List.mem_append.mp he with he | he
  · obtain ⟨f, hf, he⟩ := List.mem_flatMap.mp he
    rcases List.mem_append.mp he with he | he
    · obtain ⟨o, ho, rfl⟩ := List.mem_map.mp he
      obtain ⟨hfile, hns, hname⟩ := h.objects f hf o (List.mem_filter.mp ho).1
      have hversion : NulFree fingerprintVersion := by decide
      intro p hp
      simp only [parts_locatedEntry, List.mem_cons, List.not_mem_nil, or_false] at hp
      rcases hp with rfl | rfl | rfl | rfl | rfl
      · exact hversion
      · exact h.checks f hf
      · exact hfile
      · exact hns
      · exact hname
    · split_ifs at he
      · rw [List.mem_singleton.mp he]
        exact nulFree_virtualEntry (h.checks f hf) _ _
      · rw [List.mem_singleton.mp he]
        exact nulFree_virtualEntry (h.checks f hf) _ _
      · cases he
  · obtain ⟨g, hg, hentry⟩ := List.mem_filterMap.mp he
    have hlabel : NulFree "not-assessed/" := by decide
    have hcheck : NulFree (gapCheck g) := hlabel.append (h.gaps g hg)
    unfold gapEntry at hentry
    split_ifs at hentry
    · rw [← Option.some.inj hentry]
      exact nulFree_virtualEntry hcheck _ _
    · rw [← Option.some.inj hentry]
      exact nulFree_virtualEntry hcheck _ _

/-- A finding has an entry, under its check and at its severity. -/
theorem exists_findingEntry :
    ∃ e ∈ findingEntries f, e.check = check f ∧ e.severity = gitlabSeverity f.severity := by
  unfold findingEntries
  dsimp only
  cases hlocated : f.objects.filter (·.file ≠ "") with
  | nil => exact ⟨_, List.mem_append_right _ (by rw [if_pos rfl]; exact List.mem_singleton_self _), rfl, rfl⟩
  | cons o os => exact ⟨locatedEntry f o, List.mem_append_left _ List.mem_cons_self, rfl, rfl⟩

/-- No two entries of a Code Quality report have a fingerprint in common, and moving objects within their files changes none.
Every finding has an entry under its check at its severity, and every required gap a critical one. -/
theorem fingerprints_unique (sha256 : String → String) (r : Report) (hnames : NulFreeNames r)
    (hsha : TellsApart sha256 ((entriesOf r).map Entry.parts)) :
    ((codeQuality sha256 r).map (·.fingerprint)).Nodup ∧
      (∀ line : ObjectRef → ℤ,
        (codeQuality sha256 (moved line r)).map (·.fingerprint) = (codeQuality sha256 r).map (·.fingerprint)) ∧
      (∀ f ∈ r.findings, ∃ i ∈ codeQuality sha256 r,
        i.entry.check = check f ∧ i.entry.severity = gitlabSeverity f.severity) ∧
      ∀ g ∈ r.notAssessed, g.required = true → ∃ i ∈ codeQuality sha256 r,
        i.entry.check = gapCheck g ∧ i.entry.severity = "critical" := by
  have hissue : ∀ e ∈ entriesOf r, ∃ i ∈ codeQuality sha256 r, i.entry = e := by
    intro e he
    rw [← map_entry_codeQuality sha256 r] at he
    exact List.mem_map.mp he
  refine ⟨?_, fun line => ?_, fun f hf => ?_, fun g hg hrequired => ?_⟩
  · rw [map_fingerprint_codeQuality]
    refine nodup_fingerprintsOf (fun p hp => ?_) (fun p hp => ?_) (fun p hp q hq => ?_) hsha
    · obtain ⟨e, he, rfl⟩ := List.mem_map.mp hp
      exact hnames.parts he
    · obtain ⟨e, -, rfl⟩ := List.mem_map.mp hp
      exact List.cons_ne_nil _ _
    · obtain ⟨e, he, rfl⟩ := List.mem_map.mp hp
      obtain ⟨e', he', rfl⟩ := List.mem_map.mp hq
      have hlength := length_parts he
      have hlength' := length_parts he'
      omega
  · rw [map_fingerprint_codeQuality, map_fingerprint_codeQuality, parts_moved]
  · obtain ⟨e, he, hcheck, hsev⟩ := exists_findingEntry f
    obtain ⟨i, hi, rfl⟩ := hissue e (List.mem_append_left _ (List.mem_flatMap.mpr ⟨f, hf, he⟩))
    exact ⟨i, hi, hcheck, hsev⟩
  · have hentry : gapEntry g = some (virtualEntry (gapCheck g) "critical" (gapMessage g)) := if_pos hrequired
    obtain ⟨i, hi, heq⟩ := hissue _ (List.mem_append_right _ (List.mem_filterMap.mpr ⟨g, hg, hentry⟩))
    refine ⟨i, hi, ?_, ?_⟩
    · rw [heq]
      rfl
    · rw [heq]
      rfl

/-- Two Ingresses of one name in one file, as two documents of a stream may have. -/
def twoDocuments : Report :=
  { Suppress.ingressReport [] with
    findings :=
      [{ Suppress.removedIngresses [] with
          objects := [{ name := "a", file := "x.yaml", line := 1 }, { name := "a", file := "x.yaml", line := 9 }] }] }

/-- SHA-256 of the texts of `twoDocuments`. -/
def twoDigests (text : String) : String :=
  if text = hashedText (locatedEntry (Suppress.removedIngresses []) { name := "a", file := "x.yaml" }).parts 0 then
    "46f9f3fc38a2f7782c03c92d286436e9697164c86af6683a412edccad3a845e0"
  else if text = hashedText (locatedEntry (Suppress.removedIngresses []) { name := "a", file := "x.yaml" }).parts 1 then
    "9874ea805f4b7e5816de2b5a8528b380b0d682a6bc630e69964b8fb40a3e8626"
  else ""

/-- The second of the two is numbered, so their fingerprints differ. -/
theorem fingerprints_unique_twoDocuments :
    (codeQuality twoDigests twoDocuments).map (·.fingerprint) =
        ["46f9f3fc38a2f7782c03c92d286436e9697164c86af6683a412edccad3a845e0",
          "9874ea805f4b7e5816de2b5a8528b380b0d682a6bc630e69964b8fb40a3e8626"] ∧
      ((codeQuality twoDigests twoDocuments).map (·.fingerprint)).Nodup := by
  have hnames : NulFreeNames twoDocuments := ⟨by decide, by decide, by decide⟩
  have hsha : TellsApart twoDigests ((entriesOf twoDocuments).map Entry.parts) := by
    unfold TellsApart
    decide +kernel
  exact ⟨by decide +kernel, (fingerprints_unique twoDigests twoDocuments hnames hsha).1⟩

end UpgradeScope.Reports
