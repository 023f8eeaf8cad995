import UpgradeScope.Collect.YamlStream
import UpgradeScope.Inventory.Types
import UpgradeScope.Lib.Merging
import UpgradeScope.Lib.Sorting

/-!
# A release's manifest, parsed a run of documents at a time

`manifestAPIs` of `internal/collect/helm.go` counts the flagged objects of a release's manifest. It does not
parse the manifest whole: `splitManifest` cuts it into runs of whole documents, within limits on bytes and
on YAML nodes, and sets apart each document that is over a limit alone. What reads one document is
outside the repository's code, so it is a parameter here (`StreamDecoder`), as is what tells a JSON stream.

`splitManifest` is a fold over the manifest's documents (`manifestDocuments`), and each call it makes passes
on a group of them that follow each other (`splitManifest_groups`).
-/

namespace UpgradeScope.Collect

open Utf8

/-! ## The stream parser -/

/-- `manifestObject`, less the add-on evidence, which is not read here. -/
structure ManifestObject where
  /-- The API group. -/
  group : String
  /-- The API version. -/
  version : String
  /-- The kind. -/
  kind : String
  /-- The object, with the line it stands on. -/
  ref : ObjectRef

/-- An object of a text that stands `n` lines further down. -/
def ManifestObject.down (n : ℕ) (o : ManifestObject) : ManifestObject := { o with ref := { o.ref with line := o.ref.line + n } }

/-- The libraries that decode a stream. -/
structure StreamDecoder where
  /-- `utilyaml.IsJSONBuffer`: whether a stream that starts so is JSON. -/
  isJSONBuffer : Bytes → Bool
  /-- The objects of one YAML document, their lines counted from its first as 1. -/
  objectsOf : Bytes → List ManifestObject
  /-- The objects of a stream that opens as JSON. -/
  jsonObjects : Bytes → List ManifestObject

/-- A stream is JSON when its first character that is no white space is an open brace. -/
def StreamDecoder.FindsBrace (D : StreamDecoder) : Prop :=
  ∀ p, D.isJSONBuffer p = true ↔ (trimLeftSpace p).head? = some 0x7b

/-- `jsonPeek`. -/
def jsonPeek : ℕ := 4096

/-- The newlines of a text. -/
def newlines (text : Bytes) : ℕ := text.count 0x0a

/-- `streamParser.line`: the line of an offset. -/
def lineOf (data : Bytes) (off : ℕ) : ℕ := 1 + newlines (data.take off)

/-- `streamParser.yamlDocument`: the objects of the document between two offsets, unless it is blank. -/
def yamlDocument (D : StreamDecoder) (data : Bytes) (doc : ℕ × ℕ) : List ManifestObject :=
  if trimSpace (bytesAt data doc.1 doc.2) = [] then []
  else (D.objectsOf (bytesAt data doc.1 doc.2)).map (ManifestObject.down (lineOf data doc.1 - 1))

/-- The objects `yamlStream` finds in a stream. -/
def yamlObjects (D : StreamDecoder) (data : Bytes) : List ManifestObject :=
  (yamlStream data 0).documents.flatMap (yamlDocument D data)

/-- `parseManifestStream`: the objects of a stream. -/
def parseManifestStream (D : StreamDecoder) (data : Bytes) : List ManifestObject :=
  if D.isJSONBuffer (data.take jsonPeek) then D.jsonObjects data else yamlObjects D data

/-! ## The objects counted -/

/-- `gvk`. -/
abbrev GVK := String × String × String

/-- The API an object is at. -/
def ManifestObject.gvk (o : ManifestObject) : GVK := (o.group, o.version, o.kind)

/-- The API a row is about. -/
def rowGVK (u : APIUsage) : GVK := (u.group, u.version, u.kind)

/-- One object more in a row, listed while there is room. -/
def addObject (u : APIUsage) (ref : ObjectRef) : APIUsage :=
  let u := { u with
    count := u.count + 1
    namespaces := u.namespaces.insert ref.namespace (Merging.countAt u.namespaces ref.namespace + 1) }
  if u.objects.length < maxObjectRefs then { u with objects := u.objects ++ [ref] }
  else { u with objectsOmitted := u.objectsOmitted + 1 }

/-- One object more in the rows: in the row of its API, which may be new. -/
def countObject (counts : List APIUsage) (o : ManifestObject) : List APIUsage :=
  if counts.any (fun u => rowGVK u = o.gvk) then counts.map fun u => if rowGVK u = o.gvk then addObject u o.ref else u
  else counts ++ [addObject { group := o.group, version := o.version, kind := o.kind, count := 0 } o.ref]

/-- `accumulate`. -/
def accumulate (counts : List APIUsage) (objs : List ManifestObject) : List APIUsage := objs.foldl countObject counts

/-- `usageRows`: the rows in the order of their APIs. -/
def usageRows (counts : List APIUsage) : List APIUsage :=
  Sorting.sortOn (fun u : APIUsage => toLex (u.group, toLex (u.version, u.kind))) counts

/-! ## The split -/

/-- `manifestChunkBytes`. -/
def manifestChunkBytes : ℕ := 2 ^ 20

/-- `maxManifestDocBytes`. -/
def maxManifestDocBytes : ℕ := 2 * 2 ^ 20

/-- `maxManifestNodes`. -/
def maxManifestNodes : ℕ := 2 ^ 16

/-- `yamlNodeBound`. -/
def yamlNodeBound (text : Bytes) : ℕ :=
  2 * text.countP fun b => b = ':'.toUInt8 || b = '-'.toUInt8 || b = ','.toUInt8 || b = '['.toUInt8 || b = 0x7b || b = '?'.toUInt8

/-- `span`: a stretch of the manifest from an offset, which begins a line. -/
structure Span where
  /-- The offset. -/
  start : ℕ
  /-- The line. -/
  line : ℕ
  /-- A bound of its YAML nodes. -/
  nodes : ℕ

/-- A call of `splitManifest`'s `fn`: the text between two offsets, the line it starts on, and whether it is to be
parsed. -/
structure Pass where
  /-- The offset where the text starts. -/
  start : ℕ
  /-- The offset where it ends. -/
  stop : ℕ
  /-- The line it starts on. -/
  line : ℕ
  /-- It is to be parsed. -/
  whole : Bool
deriving DecidableEq

/-- The documents not yet passed on, and the calls made. -/
structure RunState where
  /-- The run. -/
  run : Span
  /-- The calls. -/
  passed : List Pass

/-- `endDoc`: the document ends at an offset, which begins a line. -/
def endDoc (stop stopLine : ℕ) (doc : Span) (s : RunState) : RunState :=
  let s : RunState :=
    if s.run.start < doc.start ∧ (manifestChunkBytes < stop - s.run.start ∨ maxManifestNodes < s.run.nodes + doc.nodes) then
      -- The run is full without it.
      ⟨⟨doc.start, doc.line, 0⟩, s.passed ++ [⟨s.run.start, doc.start, s.run.line, true⟩]⟩
    else s
  if maxManifestDocBytes < stop - doc.start ∨ maxManifestNodes < doc.nodes then
    ⟨⟨stop, stopLine, 0⟩, s.passed ++ [⟨doc.start, stop, doc.line, false⟩]⟩
  else { s with run := { s.run with nodes := s.run.nodes + doc.nodes } }

/-- The loop of `splitManifest` from a line on, with the document that is being read, and the offset that the last
document read ends at. -/
def splitLines (data : Bytes) (s : RunState) (doc : Span) (line off : ℕ) : RunState × ℕ :=
  if _h : off < data.length then
    match cutSeparator (bytesAt data off (lineEnd data off)) with
    | some rest =>
      if invalidRest rest then (endDoc off line doc s, off)
      else splitLines data (endDoc off line doc s) ⟨off, line, 2⟩ (line + 1) (lineEnd data off)
    | none =>
      splitLines data s { doc with nodes := doc.nodes + yamlNodeBound (bytesAt data off (lineEnd data off)) } (line + 1)
        (lineEnd data off)
  else (endDoc data.length line doc s, data.length)
termination_by data.length - off
decreasing_by
  all_goals
    have hline := lt_lineEnd _h
    omega

/-- `splitManifest`: the calls it makes. -/
def splitManifest (D : StreamDecoder) (data : Bytes) : List Pass :=
  if D.isJSONBuffer (data.take jsonPeek) then
    [⟨0, data.length, 1, data.length ≤ maxManifestDocBytes ∧ yamlNodeBound data ≤ maxManifestNodes⟩]
  else
    let (s, stop) := splitLines data ⟨⟨0, 1, 0⟩, []⟩ ⟨0, 1, 2⟩ 1 0
    if s.run.start < stop then s.passed ++ [⟨s.run.start, stop, s.run.line, true⟩] else s.passed

/-- What `manifestAPIs` keeps of the calls. -/
structure ManifestCounts where
  /-- The rows. -/
  counts : List APIUsage := []
  /-- The documents not parsed. -/
  tooLarge : ℕ := 0
  /-- The line of the first of them. -/
  firstLine : ℕ := 0

/-- The `fn` of `manifestAPIs`. -/
def countPass (D : StreamDecoder) (flagged : List GVK) (data : Bytes) (m : ManifestCounts) (p : Pass) : ManifestCounts :=
  let text := bytesAt data p.start p.stop
  if trimSpace text = [] then m
  else if !p.whole then { m with tooLarge := m.tooLarge + 1, firstLine := if m.tooLarge = 0 then p.line else m.firstLine }
  else
    let objs := ((parseManifestStream D text).filter fun o => flagged.contains o.gvk).map (ManifestObject.down (p.line - 1))
    { m with counts := accumulate m.counts objs }

/-- `errManifestDocTooLarge`, as `manifestAPIs` returns it. -/
structure DocTooLarge where
  /-- The documents not parsed. -/
  tooLarge : ℕ
  /-- The line of the first of them. -/
  firstLine : ℕ
deriving DecidableEq

/-- The text of the error. -/
def DocTooLarge.message (e : DocTooLarge) : String :=
  s!"manifest document too large: {e.tooLarge} document(s) over {maxManifestDocBytes / 2 ^ 20} MiB or " ++
    s!"{maxManifestNodes} YAML nodes not parsed, first at manifest line {e.firstLine}"

/-- `manifestAPIs`. -/
def manifestAPIs (D : StreamDecoder) (data : Bytes) (flagged : List GVK) : List APIUsage × Option DocTooLarge :=
  if flagged = [] ∨ data = [] then ([], none)
  else
    let m := (splitManifest D data).foldl (countPass D flagged data) {}
    (usageRows m.counts, if 0 < m.tooLarge then some ⟨m.tooLarge, m.firstLine⟩ else none)

/-! ## The documents -/

/-- A document of a manifest: from its separator, or from the start, to the next separator or the end. -/
structure Document where
  /-- The offset where it starts. -/
  start : ℕ
  /-- The offset where it ends. -/
  stop : ℕ
  /-- The line it starts on. -/
  line : ℕ
  /-- The line where it ends. -/
  stopLine : ℕ
  /-- The bound of its YAML nodes. -/
  nodes : ℕ

/-- The documents from a line on, with the document that is being read. -/
def documentsFrom (data : Bytes) (doc : Span) (line off : ℕ) : List Document :=
  if _h : off < data.length then
    match cutSeparator (bytesAt data off (lineEnd data off)) with
    | some rest =>
      ⟨doc.start, off, doc.line, line, doc.nodes⟩ ::
        if invalidRest rest then [] else documentsFrom data ⟨off, line, 2⟩ (line + 1) (lineEnd data off)
    | none =>
      documentsFrom data { doc with nodes := doc.nodes + yamlNodeBound (bytesAt data off (lineEnd data off)) } (line + 1)
        (lineEnd data off)
  else [⟨doc.start, data.length, doc.line, line, doc.nodes⟩]
termination_by data.length - off
decreasing_by
  all_goals
    have hline := lt_lineEnd _h
    omega

/-- The documents of a manifest, up to the first invalid separator. -/
def manifestDocuments (data : Bytes) : List Document := documentsFrom data ⟨0, 1, 2⟩ 1 0

namespace Document

/-- The text of a document, its separator line included. -/
def text (data : Bytes) (d : Document) : Bytes := bytesAt data d.start d.stop

/-- The document is over the limit of bytes or of nodes. -/
def oversized (d : Document) : Bool := maxManifestDocBytes < d.stop - d.start || maxManifestNodes < d.nodes

/-- Nothing but white space is in the text: only a text before the first separator can be so. -/
def blank (data : Bytes) (d : Document) : Bool := trimSpace (d.text data) = []

/-- The document is not empty: only one before a separator at the very start can be so. -/
def hasText (d : Document) : Bool := d.start < d.stop

/-- The span of a document. -/
def span (d : Document) : Span := ⟨d.start, d.line, d.nodes⟩

end Document

/-! ## Splitting is a fold over the documents -/

/-- What `endDoc` does with a document. -/
def passDoc (s : RunState) (d : Document) : RunState := endDoc d.stop d.stopLine d.span s

/-- Where the last of some documents ends. -/
def stopOf (docs : List Document) : ℕ := (docs.getLast?.map (·.stop)).getD 0

section Documents

variable {data : Bytes} {doc : Span} {line off : ℕ}

theorem documentsFrom_end (h : data.length ≤ off) :
    documentsFrom data doc line off = [⟨doc.start, data.length, doc.line, line, doc.nodes⟩] := by
  rw [documentsFrom, dif_neg (not_lt.mpr h)]

theorem documentsFrom_none (h : off < data.length) (hsep : cutSeparator (bytesAt data off (lineEnd data off)) = none) :
    documentsFrom data doc line off =
      documentsFrom data { doc with nodes := doc.nodes + yamlNodeBound (bytesAt data off (lineEnd data off)) } (line + 1)
        (lineEnd data off) := by
  rw [documentsFrom, dif_pos h]
  simp only [hsep]

theorem documentsFrom_some (h : off < data.length) {rest : Bytes}
    (hsep : cutSeparator (bytesAt data off (lineEnd data off)) = some rest) :
    documentsFrom data doc line off =
      ⟨doc.start, off, doc.line, line, doc.nodes⟩ ::
        if invalidRest rest then [] else documentsFrom data ⟨off, line, 2⟩ (line + 1) (lineEnd data off) := by
  rw [documentsFrom, dif_pos h]
  simp only [hsep]

/-- A manifest ends with a document. -/
theorem documentsFrom_ne_nil (data : Bytes) (doc : Span) (line off : ℕ) : documentsFrom data doc line off ≠ [] := by
  fun_induction documentsFrom data doc line off with
  | case1 doc line off h rest hsep ih => exact List.cons_ne_nil _ _
  | case2 doc line off h hsep ih => exact ih
  | case3 doc line off h => exact List.cons_ne_nil _ _

/-- The loop over a manifest's lines is the fold over its documents. -/
theorem splitLines_eq (s : RunState) : splitLines data s doc line off =
    ((documentsFrom data doc line off).foldl passDoc s, stopOf (documentsFrom data doc line off)) := by
  fun_induction splitLines data s doc line off with
  | case1 s doc line off h rest hsep hbad =>
    rw [documentsFrom_some h hsep, if_pos hbad]
    rfl
  | case2 s doc line off h rest hsep hbad ih =>
    rw [documentsFrom_some h hsep, if_neg hbad, ih, stopOf, stopOf,
      List.getLast?_cons_of_ne_nil (documentsFrom_ne_nil _ _ _ _)]
    rfl
  | case3 s doc line off h hsep ih => rw [documentsFrom_none h hsep, ih]
  | case4 s doc line off h =>
    rw [documentsFrom_end (not_lt.mp h)]
    rfl

end Documents

/-! ## The groups of documents passed on -/

/-- Where the first of some documents starts. -/
def startOf (docs : List Document) : ℕ := (docs.head?.map (·.start)).getD 0

/-- The line the first of some documents starts on. -/
def lineFrom (docs : List Document) : ℕ := (docs.head?.map (·.line)).getD 0

/-- The nodes of some documents. -/
def nodesOf (docs : List Document) : ℕ := (docs.map (·.nodes)).sum

/-- The call that passes on a group of documents, to be parsed or not. -/
def passOf (g : List Document × Bool) : Pass := ⟨startOf g.1, stopOf g.1, lineFrom g.1, g.2⟩

/-- A group passed on is one document over a limit, not to be parsed, or documents within the limits that are one,
or are within the limits together. -/
structure GroupFits (g : List Document × Bool) : Prop where
  /-- It holds something. -/
  ne_nil : g.1 ≠ []
  /-- What is not to be parsed is one document over a limit. -/
  alone : g.2 = false → ∃ d, g.1 = [d] ∧ d.oversized = true
  /-- What is to be parsed is within them. -/
  within : g.2 = true → (∀ d ∈ g.1, d.oversized = false) ∧
    (g.1.length = 1 ∨ stopOf g.1 - startOf g.1 ≤ manifestChunkBytes ∧ nodesOf g.1 ≤ maxManifestNodes)

/-- The groups passed on and the documents pending, at an offset that begins a line. -/
structure RunHolds (s : RunState) (groups : List (List Document × Bool)) (pending : List Document) (pos posLine : ℕ) : Prop where
  /-- The calls pass on the groups. -/
  passed : s.passed = groups.map passOf
  /-- The groups fit. -/
  fits : ∀ g ∈ groups, GroupFits g
  /-- The run starts where the pending documents do. -/
  start : s.run.start = (pending.head?.map (·.start)).getD pos
  /-- So does its line. -/
  line : s.run.line = (pending.head?.map (·.line)).getD posLine
  /-- The pending documents end here. -/
  stop : pending ≠ [] → stopOf pending = pos ∧ s.run.start < pos
  /-- None is over a limit. -/
  small : ∀ d ∈ pending, d.oversized = false
  /-- The run's bound holds for their nodes. -/
  nodes : nodesOf pending ≤ s.run.nodes
  /-- Several are within the limits together. -/
  within : pending.length ≤ 1 ∨ pos - s.run.start ≤ manifestChunkBytes ∧ s.run.nodes ≤ maxManifestNodes

section Groups

variable {s : RunState} {groups : List (List Document × Bool)} {pending : List Document} {pos posLine : ℕ}

/-- The pending documents are passed on as one range, and fit in one call. -/
theorem RunHolds.flush (h : RunHolds s groups pending pos posLine) (hne : pending ≠ []) :
    passOf (pending, true) = ⟨s.run.start, pos, s.run.line, true⟩ ∧ GroupFits (pending, true) := by
  obtain ⟨d, ds, rfl⟩ := List.exists_cons_of_ne_nil hne
  have hstart := h.start
  have hline := h.line
  have hstop := (h.stop hne).1
  refine ⟨?_, ⟨hne, by nofun, fun _ => ⟨h.small, ?_⟩⟩⟩
  · rw [passOf, hstop, hstart, hline]
    rfl
  · rcases h.within with hone | ⟨hbytes, hnodes⟩
    · left
      simp only [List.length_cons] at hone ⊢
      omega
    · right
      rw [hstart] at hbytes
      exact ⟨by rw [hstop]; exact hbytes, le_trans h.nodes hnodes⟩

/-- Whether a document is over a limit. -/
theorem oversized_iff {d : Document} :
    d.oversized = true ↔ maxManifestDocBytes < d.stop - d.start ∨ maxManifestNodes < d.nodes := by simp [Document.oversized]

/-- The run without the pending documents, which were passed on. -/
theorem RunHolds.cleared (h : RunHolds s groups pending pos posLine) (hne : pending ≠ []) :
    RunHolds ⟨⟨pos, posLine, 0⟩, s.passed ++ [⟨s.run.start, pos, s.run.line, true⟩]⟩ (groups ++ [(pending, true)]) [] pos posLine := by
  obtain ⟨hpass, hfits⟩ := h.flush hne
  exact
    { passed := by rw [List.map_append, h.passed, List.map_singleton, hpass]
      fits := by
        intro g hg
        rcases List.mem_append.mp hg with hg | hg
        · exact h.fits g hg
        · rw [List.mem_singleton.mp hg]
          exact hfits
      start := rfl
      line := rfl
      stop := fun hnil => absurd rfl hnil
      small := by simp
      nodes := Nat.zero_le _
      within := .inl (Nat.zero_le _) }

/-- A document that is set apart is passed on by itself. -/
theorem RunHolds.alone {d : Document} (h : RunHolds s groups [] d.start d.line) (hover : d.oversized = true) :
    RunHolds ⟨⟨d.stop, d.stopLine, 0⟩, s.passed ++ [⟨d.start, d.stop, d.line, false⟩]⟩ (groups ++ [([d], false)]) [] d.stop
      d.stopLine where
  passed := by
    rw [List.map_append, h.passed]
    rfl
  fits := by
    intro g hg
    rcases List.mem_append.mp hg with hg | hg
    · exact h.fits g hg
    · rw [List.mem_singleton.mp hg]
      exact ⟨List.cons_ne_nil _ _, fun _ => ⟨d, rfl, hover⟩, by nofun⟩
  start := rfl
  line := rfl
  stop := fun hnil => absurd rfl hnil
  small := by simp
  nodes := Nat.zero_le _
  within := .inl (Nat.zero_le _)

/-- A document that is added to the run is its last one. -/
theorem RunHolds.add {d : Document} (h : RunHolds s groups pending d.start d.line) (hlt : d.start < d.stop)
    (hsmall : d.oversized = false)
    (hroom : pending = [] ∨ d.stop - s.run.start ≤ manifestChunkBytes ∧ s.run.nodes + d.nodes ≤ maxManifestNodes) :
    RunHolds { s with run := { s.run with nodes := s.run.nodes + d.nodes } } groups (pending ++ [d]) d.stop d.stopLine where
  passed := h.passed
  fits := h.fits
  start := h.start.trans (by cases pending <;> rfl)
  line := h.line.trans (by cases pending <;> rfl)
  stop := by
    intro _
    refine ⟨by simp [stopOf], ?_⟩
    have hle : s.run.start ≤ d.start := by
      by_cases hnil : pending = []
      · rw [h.start, hnil]
        exact le_rfl
      · exact le_of_lt (h.stop hnil).2
    exact lt_of_le_of_lt hle hlt
  small := by
    intro e he
    rcases List.mem_append.mp he with he | he
    · exact h.small e he
    · rw [List.mem_singleton.mp he]
      exact hsmall
  nodes := by
    rw [nodesOf, List.map_append, List.sum_append]
    have hnodes := h.nodes
    unfold nodesOf at hnodes
    simp only [List.map_cons, List.map_nil, List.sum_cons, List.sum_nil]
    omega
  -- A run of one document may be over the limits; a longer one was checked before this was added.
  within := by
    rcases hroom with rfl | hroom
    · exact .inl le_rfl
    · exact .inr hroom

/-- One document more, in the run or set apart. -/
theorem RunHolds.pass {d : Document} (h : RunHolds s groups pending d.start d.line) (hlt : d.start < d.stop) :
    ∃ groups' pending', RunHolds (passDoc s d) groups' pending' d.stop d.stopLine ∧
      (groups'.map (·.1)).flatten ++ pending' = (groups.map (·.1)).flatten ++ pending ++ [d] := by
  unfold passDoc endDoc Document.span
  dsimp only
  by_cases hfull : s.run.start < d.start ∧ (manifestChunkBytes < d.stop - s.run.start ∨ maxManifestNodes < s.run.nodes + d.nodes)
  · rw [if_pos hfull]
    have hne : pending ≠ [] := by
      rintro rfl
      exact absurd hfull.1 (by rw [h.start]; simp)
    have hcleared := h.cleared hne
    by_cases hover : maxManifestDocBytes < d.stop - d.start ∨ maxManifestNodes < d.nodes
    · rw [if_pos hover]
      refine ⟨_, _, hcleared.alone (oversized_iff.mpr hover), ?_⟩
      simp
    · rw [if_neg hover]
      refine ⟨_, _, hcleared.add hlt (Bool.eq_false_iff.mpr (mt oversized_iff.mp hover)) (.inl rfl), ?_⟩
      simp
  · rw [if_neg hfull]
    by_cases hover : maxManifestDocBytes < d.stop - d.start ∨ maxManifestNodes < d.nodes
    · rw [if_pos hover]
      -- With documents pending, one over a limit leaves no room for them.
      obtain rfl : pending = [] := by
        by_contra hne
        have hstart := (h.stop hne).2
        apply hfull
        refine ⟨hstart, ?_⟩
        rcases hover with hover | hover
        · left
          unfold maxManifestDocBytes at hover
          unfold manifestChunkBytes
          omega
        · right
          omega
      refine ⟨_, _, h.alone (oversized_iff.mpr hover), ?_⟩
      simp
    · rw [if_neg hover]
      refine ⟨_, _, h.add hlt (Bool.eq_false_iff.mpr (mt oversized_iff.mp hover)) ?_, ?_⟩
      · by_cases hnil : pending = []
        · exact .inl hnil
        · right
          have hstart := (h.stop hnil).2
          rw [not_and_or, not_or, not_lt, not_lt, not_lt] at hfull
          exact hfull.resolve_left (not_le.mpr hstart)
      · simp

/-- Documents that are not empty and follow each other, from an offset that begins a line. -/
def Contiguous : ℕ → ℕ → List Document → Prop
  | _, _, [] => True
  | pos, posLine, d :: ds => d.start = pos ∧ d.line = posLine ∧ d.start < d.stop ∧ Contiguous d.stop d.stopLine ds

/-- Documents that follow each other are added one by one. -/
theorem RunHolds.foldl {docs : List Document} (h : RunHolds s groups pending pos posLine) (hdocs : Contiguous pos posLine docs) :
    ∃ groups' pending' pos' posLine', RunHolds (docs.foldl passDoc s) groups' pending' pos' posLine' ∧
      (groups'.map (·.1)).flatten ++ pending' = (groups.map (·.1)).flatten ++ pending ++ docs ∧
      (docs = [] → pos' = pos) ∧ (docs ≠ [] → pos' = stopOf docs) := by
  induction docs generalizing s groups pending pos posLine with
  | nil => exact ⟨groups, pending, pos, posLine, h, (List.append_nil _).symm, fun _ => rfl, fun hne => absurd rfl hne⟩
  | cons d docs ih =>
    obtain ⟨rfl, rfl, hlt, hrest⟩ := hdocs
    obtain ⟨groups', pending', hpass, hdone⟩ := h.pass hlt
    obtain ⟨groups'', pending'', pos', posLine', hfold, hall, hnil, hne⟩ := ih hpass hrest
    refine ⟨groups'', pending'', pos', posLine', hfold, ?_, by nofun, fun _ => ?_⟩
    · rw [hall, hdone, List.append_assoc, List.singleton_append]
    · by_cases hdocs : docs = []
      · rw [hnil hdocs, hdocs]
        rfl
      · rw [hne hdocs, stopOf, stopOf, List.getLast?_cons_of_ne_nil hdocs]

end Groups

section Documents

variable {data : Bytes}

/-- The documents behind a separator follow each other. -/
theorem contiguous_documentsFrom (doc : Span) {line off : ℕ} (hlt : doc.start < off) (hoff : off ≤ data.length) :
    Contiguous doc.start doc.line (documentsFrom data doc line off) := by
  fun_induction documentsFrom data doc line off with
  | case1 doc line off h rest hsep ih =>
    refine ⟨rfl, rfl, hlt, ?_⟩
    split_ifs with hbad
    · trivial
    · obtain ⟨hnext, hle⟩ := lt_lineEnd h
      exact ih hnext hle
  | case2 doc line off h hsep ih =>
    obtain ⟨hnext, hle⟩ := lt_lineEnd h
    exact ih (lt_trans hlt hnext) hle
  | case3 doc line off h => exact ⟨rfl, rfl, lt_of_lt_of_le hlt hoff, trivial⟩

theorem filter_of_contiguous {pos posLine : ℕ} {docs : List Document} (h : Contiguous pos posLine docs) :
    docs.filter Document.hasText = docs := by
  induction docs generalizing pos posLine with
  | nil => rfl
  | cons d docs ih =>
    obtain ⟨-, -, hlt, hrest⟩ := h
    have hkept : d.hasText = true := decide_eq_true hlt
    rw [List.filter_cons_of_pos hkept, ih hrest]

/-- The run of documents is empty before the first one is read. -/
theorem runHolds_start (nodes : ℕ) : RunHolds ⟨⟨0, 1, nodes⟩, []⟩ [] [] 0 1 where
  passed := rfl
  fits := by simp
  start := rfl
  line := rfl
  stop := fun hnil => absurd rfl hnil
  small := by simp
  nodes := Nat.zero_le _
  within := .inl (Nat.zero_le _)

/-- The documents of a manifest: at most the first is empty, at its start. -/
theorem manifestDocuments_cases (data : Bytes) :
    Contiguous 0 1 (manifestDocuments data) ∨
      ∃ docs, manifestDocuments data = ⟨0, 0, 1, 1, 2⟩ :: docs ∧ Contiguous 0 1 docs := by
  unfold manifestDocuments
  by_cases hpos : 0 < data.length
  · obtain ⟨hline, hle⟩ := lt_lineEnd hpos
    cases hsep : cutSeparator (bytesAt data 0 (lineEnd data 0)) with
    | none =>
      left
      rw [documentsFrom_none hpos hsep]
      exact contiguous_documentsFrom ⟨0, 1, _⟩ hline hle
    | some rest =>
      right
      refine ⟨_, documentsFrom_some hpos hsep, ?_⟩
      split_ifs
      · trivial
      · exact contiguous_documentsFrom ⟨0, 1, _⟩ hline hle
  · right
    have hzero : data.length = 0 := by omega
    refine ⟨[], ?_, trivial⟩
    rw [documentsFrom_end (by omega), hzero]

/-- `splitManifest` passes on the documents of a manifest that is not JSON, in order, in groups that fit. -/
theorem splitManifest_groups (D : StreamDecoder) (hyaml : D.isJSONBuffer (data.take jsonPeek) = false) :
    ∃ groups : List (List Document × Bool), splitManifest D data = groups.map passOf ∧ (∀ g ∈ groups, GroupFits g) ∧
      (groups.map (·.1)).flatten = (manifestDocuments data).filter Document.hasText := by
  -- An empty first document leaves a run that starts where nothing is read yet.
  obtain ⟨docs, nodes, hfold, hstop, hfilter, hdocs⟩ : ∃ docs nodes,
      (manifestDocuments data).foldl passDoc ⟨⟨0, 1, 0⟩, []⟩ = docs.foldl passDoc ⟨⟨0, 1, nodes⟩, []⟩ ∧
      stopOf (manifestDocuments data) = stopOf docs ∧ (manifestDocuments data).filter Document.hasText = docs ∧ Contiguous 0 1 docs := by
    rcases manifestDocuments_cases data with h | ⟨docs, hdocs, h⟩
    · exact ⟨manifestDocuments data, 0, rfl, rfl, filter_of_contiguous h, h⟩
    · refine ⟨docs, 2, by rw [hdocs]; rfl, ?_, ?_, h⟩
      · rw [hdocs]
        cases docs <;> rfl
      · rw [hdocs, List.filter_cons_of_neg (by decide), filter_of_contiguous h]
  obtain ⟨groups, pending, pos, posLine, hholds, hall, hnil, hne⟩ := (runHolds_start nodes).foldl hdocs
  have hpos : pos = stopOf docs := by
    by_cases hempty : docs = []
    · rw [hnil hempty, hempty]
      rfl
    · exact hne hempty
  unfold splitManifest
  rw [hyaml, splitLines_eq]
  dsimp only
  rw [show documentsFrom data ⟨0, 1, 2⟩ 1 0 = manifestDocuments data from rfl, hfold, hstop, hfilter, ← hpos]
  simp only [List.map_nil, List.flatten_nil, List.nil_append] at hall
  rw [if_neg (by decide)]
  by_cases hpending : pending = []
  · have hstart : ¬ (docs.foldl passDoc ⟨⟨0, 1, nodes⟩, []⟩).run.start < pos := by
      rw [hholds.start, hpending]
      exact lt_irrefl _
    rw [if_neg hstart]
    exact ⟨groups, hholds.passed, hholds.fits, by rw [← hall, hpending, List.append_nil]⟩
  · rw [if_pos (hholds.stop hpending).2]
    have hcleared := hholds.cleared hpending
    refine ⟨_, hcleared.passed, hcleared.fits, ?_⟩
    rw [List.map_append, List.flatten_append, ← hall]
    simp

end Documents

end UpgradeScope.Collect
