import UpgradeScope.Collect.YamlStream
import UpgradeScope.Server.YamlRuns

/-!
# The gate's check of a manifest stream

`checkManifestStream` of `internal/server/api.go` splits a buffered request body into documents before
anything decodes it, and checks each against the shape limits. It walks the body by offset, over chunks;
the decoder's `yamlStream` walks one slice, with the library's trimming. The two are shown to take the same
lines for separators and to read them the same way, so that the gate measures the documents the decoder
reads.
-/

namespace UpgradeScope

open Utf8 Collect

/-! ## The check -/

/-- `maxManifestDocBytes`. -/
def maxManifestDocBytes : ℕ := 4 * 2 ^ 20

/-- `maxManifestDocs`. -/
def maxManifestDocs : ℕ := 20000

/-- `maxManifestUnits`. -/
def maxManifestUnits : ℕ := 400000

/-- `sizeString`. -/
def sizeString (n : ℕ) : String := if 2 ^ 20 ≤ n ∧ n % 2 ^ 20 = 0 then s!"{n / 2 ^ 20}MiB" else s!"{n} bytes"

/-- What a stream is refused for. -/
inductive StreamRefusal where
  /-- A UTF-16 byte order mark at an offset. -/
  | utf16BOM (off : ℕ)
  /-- An invalid separator at an offset. -/
  | separator (off : ℕ)
  /-- Too many documents. -/
  | documents
  /-- The `n`th document has too many bytes. -/
  | size (n bytes : ℕ)
  /-- The stream holds too many nodes, at its `n`th document, which does alone or not. -/
  | units (n : ℕ) (alone : Bool)
deriving DecidableEq

/-- The status of a refusal. -/
def StreamRefusal.status : StreamRefusal → ℕ
  | .utf16BOM _ | .separator _ => 422
  | _ => 413

/-- The message of a refusal. -/
def StreamRefusal.message : StreamRefusal → String
  | .utf16BOM off => s!"invalid manifest stream: a UTF-16 byte order mark at byte {off}; /gate reads UTF-8 only"
  | .separator off =>
    s!"invalid manifest stream: invalid YAML document separator at byte {off} (only a comment may follow ---)"
  | .documents => s!"manifest stream has more than {maxManifestDocs} documents"
  | .size n bytes =>
    s!"manifest document {n} is {bytes} bytes, over the {sizeString maxManifestDocBytes} per-document limit " ++
      "(split large Lists into separate documents)"
  | .units n alone =>
    (if alone then s!"manifest document {n}" else "the manifest stream") ++
      " is too large to evaluate in one request: decoding YAML costs memory per node, and the stream holds " ++
      s!"over {maxManifestUnits} node units (each node 1, each sequence entry 4, each alias what it names); " ++
      "split it into several requests (a large List into separate, smaller ones)"

/-- `manifestDoc`. -/
structure ManifestDoc where
  /-- Its number in the stream, from 1. -/
  n : ℕ
  /-- The offset where it starts. -/
  start : ℕ
  /-- The offset where it ends. -/
  stop : ℕ
  /-- What the meter measured of it. -/
  cost : YamlCost
deriving DecidableEq

/-- `manifestShape`, with the number of documents checked. -/
structure ManifestShape where
  /-- The documents checked. -/
  n : ℕ := 0
  /-- The nodes of the documents. -/
  total : YamlCost := {}
  /-- The documents with aliases. -/
  aliased : List ManifestDoc := []
deriving DecidableEq

/-- `manifestShape.charge`. -/
def ManifestShape.charge (m : ManifestShape) (n : ℕ) (docCost added : YamlCost) : Except StreamRefusal ManifestShape :=
  let total := m.total.add added
  if maxManifestUnits < total.units then .error (.units n (maxManifestUnits < docCost.units)) else .ok { m with total := total }

/-- The `check` of `checkManifestStream`: one document, by its offsets. -/
def checkDocument (src : ByteSource) (m : ManifestShape) (doc : ℕ × ℕ) : Except StreamRefusal ManifestShape :=
  if doc.1 = doc.2 then .ok m
  else
    let m := { m with n := m.n + 1 }
    if maxManifestDocs < m.n then .error .documents
    else if maxManifestDocBytes < doc.2 - doc.1 then .error (.size m.n (doc.2 - doc.1))
    else
      let cost := measureYAMLRange src doc.1 doc.2
      let m := if 0 < cost.aliases then { m with aliased := m.aliased ++ [⟨m.n, doc.1, doc.2, cost⟩] } else m
      m.charge m.n cost cost

/-- The offset of the next newline, or the end. -/
def newlineFrom (src : ByteSource) (i : ℕ) : ℕ := if i < src.size ∧ src.byte i ≠ 0x0a then newlineFrom src (i + 1) else i
termination_by src.size - i

/-- White space is a character. -/
theorem size_of_isSpaceRune {p : Bytes} (h : isSpaceRune (decodeRune p).1 = true) : p ≠ [] ∧ 1 ≤ (decodeRune p).2 := by
  have hne : p ≠ [] := by
    rintro rfl
    exact absurd h (by decide)
  exact ⟨hne, (decodeRune_size hne).1⟩

/-- Past the white space from an offset, up to the next line's. -/
def skipSpaces (src : ByteSource) (next i : ℕ) : ℕ :=
  if _h : i < next ∧ isSpaceRune (src.runeAt i).1 = true then skipSpaces src next (i + (src.runeAt i).2) else i
termination_by next - i
decreasing_by
  have hsize : 1 ≤ (src.runeAt i).2 := (size_of_isSpaceRune _h.2).2
  omega

/-- The line at an offset starts with the dashes of a separator. -/
def isSeparator (src : ByteSource) (off : ℕ) : Bool :=
  src.byte off = 0x2d && src.byte (off + 1) = 0x2d && src.byte (off + 2) = 0x2d

/-- More than white space and a comment stands behind the dashes of the line at an offset. -/
def badSeparator (src : ByteSource) (next off : ℕ) : Bool :=
  let i := skipSpaces src next (off + 3)
  i < min next src.size && src.byte i ≠ 0x0a && src.byte i ≠ '#'.toUInt8

/-- There is no newline before where the search starts. -/
theorem le_newlineFrom (src : ByteSource) (i : ℕ) : i ≤ newlineFrom src i := by
  fun_induction newlineFrom src i with
  | case1 i h ih => omega
  | case2 i h => exact le_rfl

/-- The loop of `checkManifestStream` from a line on, with the document that is being read. -/
def checkLines (src : ByteSource) (m : ManifestShape) (docStart off : ℕ) : Except StreamRefusal ManifestShape :=
  if _h : off < src.size then
    if isSeparator src off then
      if badSeparator src (newlineFrom src off + 1) off then .error (.separator off)
      else
        match checkDocument src m (docStart, off) with
        | .error e => .error e
        | .ok m => checkLines src m (min (newlineFrom src off + 1) src.size) (newlineFrom src off + 1)
    else checkLines src m docStart (newlineFrom src off + 1)
  else checkDocument src m (docStart, src.size)
termination_by src.size - off
decreasing_by
  all_goals
    have hnext := le_newlineFrom src off
    omega

/-- `checkManifestStream`. -/
def checkManifestStream (body : List Bytes) : Except StreamRefusal ManifestShape :=
  let src := newByteSource body
  match src.utf16BOM with
  | some off => .error (.utf16BOM off)
  | none => checkLines src {} 0 0

/-! ## The two ways to read a line -/

section Lines

variable {src : ByteSource} {data : Bytes} {off : ℕ}

/-- Where the search for a newline ends. -/
theorem newlineFrom_eq (h : src.Reads data) {i : ℕ} (hi : i ≤ data.length) :
    newlineFrom src i = i + (data.drop i).findIdx (· = 0x0a) := by
  fun_induction newlineFrom src i with
  | case1 i hnext ih =>
    rw [h.size, h.byte] at hnext
    have hlt := hnext.1
    have hbyte : data[i] ≠ 0x0a := by
      rw [← List.getD_eq_getElem _ 0 hlt]
      exact hnext.2
    rw [ih hlt, List.drop_eq_getElem_cons hlt, List.findIdx_cons, decide_eq_false hbyte, cond_false]
    omega
  | case2 i hend =>
    rw [h.size, h.byte, not_and_or, not_not] at hend
    by_cases hlt : i < data.length
    · have hbyte := hend.resolve_left (not_not_intro hlt)
      rw [List.getD_eq_getElem _ _ hlt] at hbyte
      rw [List.drop_eq_getElem_cons hlt, List.findIdx_cons, decide_eq_true hbyte, cond_true, Nat.add_zero]
    · rw [List.drop_eq_nil_of_le (not_lt.mp hlt), List.findIdx_nil, Nat.add_zero]

/-- The line ends where the search for a newline does. -/
theorem lineEnd_eq (h : src.Reads data) (hoff : off < data.length) :
    lineEnd data off = min (newlineFrom src off + 1) data.length := by
  have hline := (lt_lineEnd hoff).2
  rw [newlineFrom_eq h (le_of_lt hoff)]
  unfold lineEnd at hline ⊢
  cases hfind : (data.drop off).findIdx? (· = 0x0a) with
  | none =>
    have hmin : min (off + (data.length - off) + 1) data.length = data.length := min_eq_right (by omega)
    rw [List.findIdx_eq_length.mpr (List.findIdx?_eq_none_iff.mp hfind), List.length_drop, hmin]
  | some k =>
    rw [hfind] at hline
    rw [(List.findIdx?_eq_some_iff_findIdx_eq.mp hfind).2]
    exact (min_eq_left hline).symm

/-- What is behind a newline takes no part in decoding what is before it. -/
theorem decodeRune_take_newline {l : Bytes} {k : ℕ} (hk : l[k]? = some 0x0a) : decodeRune l = decodeRune (l.take (k + 1)) := by
  obtain ⟨hlt, hget⟩ := List.getElem?_eq_some_iff.mp hk
  have hsplit : l = l.take k ++ 0x0a :: l.drop (k + 1) := by
    rw [← hget, ← List.drop_eq_getElem_cons hlt, List.take_append_drop]
  have htake : l.take (k + 1) = l.take k ++ [0x0a] := by rw [List.take_add_one, hk, Option.toList_some]
  rw [htake, ← decodeRune_newline (l.take k) (l.drop (k + 1)), ← hsplit]

/-- Nothing behind a line takes part in decoding it. -/
theorem decodeRune_line {i : ℕ} (hi : i < lineEnd data off) :
    decodeRune (data.drop i) = decodeRune (bytesAt data i (lineEnd data off)) := by
  unfold bytesAt
  rw [List.drop_take]
  unfold lineEnd at hi ⊢
  cases hfind : (data.drop off).findIdx? (· = 0x0a) with
  | none => rw [List.take_of_length_le (by rw [List.length_drop])]
  | some k =>
    rw [hfind] at hi
    dsimp only at hi ⊢
    obtain ⟨hlt, hbyte, -⟩ := List.findIdx?_eq_some_iff_getElem.mp hfind
    have hnewline : (data.drop i)[off + k - i]? = some 0x0a := by
      rw [List.getElem?_drop, show i + (off + k - i) = off + k by omega, ← List.getElem?_drop,
        List.getElem?_eq_getElem hlt, of_decide_eq_true hbyte]
    rw [decodeRune_take_newline hnewline, show off + k - i + 1 = off + k + 1 - i by omega]

/-- The white space behind the dashes is what trimming takes. -/
theorem bytesAt_skipSpaces (h : src.Reads data) (hoff : off < data.length) {i : ℕ} (hle : i ≤ lineEnd data off) :
    let j := skipSpaces src (newlineFrom src off + 1) i
    i ≤ j ∧ j ≤ lineEnd data off ∧
      bytesAt data j (lineEnd data off) = trimLeftSpace (bytesAt data i (lineEnd data off)) := by
  have hend := lineEnd_eq h hoff
  have hlen := (lt_lineEnd hoff).2
  generalize hstop : lineEnd data off = stop at hend hlen hle ⊢
  -- Both stop at the first rune that is no space, and a rune of the line reads the same in the line alone.
  fun_induction skipSpaces src (newlineFrom src off + 1) i with
  | case1 i hspace ih =>
    rw [h.runeAt] at hspace ih
    have hne := (size_of_isSpaceRune hspace.2).1
    rw [ne_eq, List.drop_eq_nil_iff, not_le] at hne
    have hlt : i < stop := by omega
    have hdecode : decodeRune (data.drop i) = decodeRune (bytesAt data i stop) := by
      rw [← hstop]
      exact decodeRune_line (by rw [hstop]; exact hlt)
    have hbytes : bytesAt data i stop ≠ [] := List.ne_nil_of_length_pos (by rw [length_bytesAt hlen]; omega)
    have hsize := decodeRune_size hbytes
    rw [length_bytesAt hlen, ← hdecode] at hsize
    rw [h.runeAt]
    obtain ⟨hle', hstop', htrim⟩ := ih (by omega)
    refine ⟨by omega, hstop', ?_⟩
    rw [htrim, trimLeftSpace.eq_def (bytesAt data i stop), dif_pos ⟨hbytes, hdecode ▸ hspace.2⟩, drop_bytesAt, ← hdecode]
  | case2 i hend' =>
    refine ⟨le_rfl, hle, ?_⟩
    rw [trimLeftSpace, dif_neg]
    rintro ⟨hne, hspace⟩
    have hlt : i < stop := by
      by_contra hge
      exact hne (List.eq_nil_of_length_eq_zero (by rw [length_bytesAt hlen]; omega))
    refine hend' ⟨by omega, ?_⟩
    rw [h.runeAt, decodeRune_line (by rw [hstop]; exact hlt), hstop]
    exact hspace

/-- A byte that ends no line is not the last of one, unless it is the last of all. -/
theorem succ_lt_lineEnd {i : ℕ} (hi : i < lineEnd data off) (hbyte : data.getD i 0 ≠ 0x0a) (hlt : i + 1 < data.length) :
    i + 1 < lineEnd data off := by
  unfold lineEnd at hi ⊢
  cases hfind : (data.drop off).findIdx? (· = 0x0a) with
  | none => exact hlt
  | some k =>
    rw [hfind] at hi
    dsimp only at hi ⊢
    obtain ⟨hk, hnewline, -⟩ := List.findIdx?_eq_some_iff_getElem.mp hfind
    have hne : i ≠ off + k := by
      rintro rfl
      rw [List.getElem_drop, ← List.getD_eq_getElem _ 0] at hnewline
      exact hbyte (of_decide_eq_true hnewline)
    omega

/-- There is no byte but 0 past the end. -/
theorem lt_length_of_getD {i : ℕ} {b : UInt8} (hb : b ≠ 0) (h : data.getD i 0 = b) : i < data.length := by
  by_contra hge
  rw [List.getD_eq_default _ _ (not_lt.mp hge)] at h
  exact hb h.symm

/-- The check and the decoder take the same lines for separators. -/
theorem isSeparator_eq (h : src.Reads data) (hoff : off < data.length) :
    isSeparator src off = [0x2d, 0x2d, 0x2d].isPrefixOf (bytesAt data off (lineEnd data off)) := by
  obtain ⟨hstart, hlen⟩ := lt_lineEnd hoff
  rw [Bool.eq_iff_iff, isSeparator, h.byte, h.byte, h.byte, List.isPrefixOf_iff_prefix]
  simp only [Bool.and_eq_true, decide_eq_true_eq]
  constructor
  · rintro ⟨⟨h0, h1⟩, h2⟩
    have hone := succ_lt_lineEnd hstart (by rw [h0]; decide) (lt_length_of_getD (by decide) h1)
    have htwo := succ_lt_lineEnd hone (by rw [h1]; decide) (lt_length_of_getD (by decide) h2)
    rw [bytesAt_cons hstart hlen, bytesAt_cons hone hlen, bytesAt_cons htwo hlen, h0, h1, h2]
    exact ⟨_, rfl⟩
  · rintro ⟨rest, hrest⟩
    have hsize := length_bytesAt (i := off) hlen
    rw [← hrest, List.length_append] at hsize
    simp only [List.length_cons, List.length_nil] at hsize
    rw [bytesAt_cons hstart hlen, bytesAt_cons (by omega) hlen, bytesAt_cons (by omega) hlen] at hrest
    simp only [List.cons_append, List.nil_append, List.cons.injEq] at hrest
    obtain ⟨h0, h1, h2, -⟩ := hrest
    exact ⟨⟨h0.symm, h1.symm⟩, h2.symm⟩

/-- The check and the decoder find the same behind the dashes of a separator. -/
theorem badSeparator_eq (h : src.Reads data) (hoff : off < data.length)
    (hsep : [0x2d, 0x2d, 0x2d].isPrefixOf (bytesAt data off (lineEnd data off)) = true) :
    badSeparator src (newlineFrom src off + 1) off = invalidRest ((bytesAt data off (lineEnd data off)).drop 3) := by
  obtain ⟨hstart, hlen⟩ := lt_lineEnd hoff
  have hthree : off + 3 ≤ lineEnd data off := by
    have hsize := (List.isPrefixOf_iff_prefix.mp hsep).length_le
    rw [length_bytesAt hlen] at hsize
    simp only [List.length_cons, List.length_nil] at hsize
    omega
  obtain ⟨-, hle, htrim⟩ := bytesAt_skipSpaces h hoff hthree
  rw [drop_bytesAt, invalidRest, head?_trimSpace, ← htrim, badSeparator, h.size, ← lineEnd_eq h hoff]
  generalize skipSpaces src (newlineFrom src off + 1) (off + 3) = j at hle htrim ⊢
  rcases Nat.lt_or_eq_of_le hle with hlt | rfl
  · have hspec := trimLeftSpace_spec (bytesAt data (off + 3) (lineEnd data off))
    rw [← htrim, bytesAt_cons hlt hlen] at hspec
    -- What is left starts with no white space, and so with no newline.
    have hnewline : data.getD j 0 ≠ 0x0a := by
      intro hbyte
      rw [hbyte] at hspec
      exact hspec.elim (List.cons_ne_nil _ _) (by simp [decodeRune]; decide)
    rw [bytesAt_cons hlt hlen, List.head?_cons, Option.any_some, h.byte, decide_eq_true hlt, decide_eq_true hnewline]
    rfl
  · simp

end Lines

/-! ## The documents checked -/

/-- The checks a cut of a stream calls for: each document in order, and with an invalid separator the
documents that end before it, and then the refusal. -/
def checkCut (src : ByteSource) (m : ManifestShape) (cut : YamlCut) : Except StreamRefusal ManifestShape :=
  match cut.invalid with
  | none => cut.documents.foldlM (checkDocument src) m
  | some off => cut.documents.dropLast.foldlM (checkDocument src) m >>= fun _ => .error (.separator off)

variable {src : ByteSource} {m m' : ManifestShape} {data : Bytes} {doc : ℕ × ℕ} {docs : List (ℕ × ℕ)}

/-- A document that ends at a valid separator is checked first. -/
theorem checkCut_cons {cut : YamlCut} (hne : cut.documents ≠ []) (doc : ℕ × ℕ) :
    checkCut src m { documents := doc :: cut.documents, invalid := cut.invalid } =
      checkDocument src m doc >>= fun m => checkCut src m cut := by
  unfold checkCut
  cases cut.invalid with
  | none => exact List.foldlM_cons
  | some off =>
    dsimp only
    rw [List.dropLast_cons_of_ne_nil hne, List.foldlM_cons, bind_assoc]

/-- A valid separator ends a document. -/
theorem yamlLines_valid (h : src.Reads data) {docStart off : ℕ} (hoff : off < src.size)
    (hsep : isSeparator src off = true) (hvalid : ¬ badSeparator src (newlineFrom src off + 1) off = true) :
    let cut := yamlLines data (min (newlineFrom src off + 1) data.length) (min (newlineFrom src off + 1) data.length)
    yamlLines data docStart (min off data.length) =
      { documents := (docStart, off) :: cut.documents, invalid := cut.invalid } := by
  rw [h.size] at hoff
  rw [isSeparator_eq h hoff] at hsep
  rw [badSeparator_eq h hoff hsep] at hvalid
  have hcut : cutSeparator (bytesAt data off (lineEnd data off)) = some _ := if_pos hsep
  rw [min_eq_left (le_of_lt hoff), yamlLines_some hoff hcut, if_neg hvalid, lineEnd_eq h hoff]

/-- The loop checks what the decoder cuts. -/
theorem checkLines_eq (h : src.Reads data) (m : ManifestShape) (docStart off : ℕ) :
    checkLines src m docStart off = checkCut src m (yamlLines data docStart (min off data.length)) := by
  fun_induction checkLines src m docStart off with
  | case1 m docStart off hoff hsep hbad =>
    rw [h.size] at hoff
    rw [isSeparator_eq h hoff] at hsep
    rw [badSeparator_eq h hoff hsep] at hbad
    have hcut : cutSeparator (bytesAt data off (lineEnd data off)) = some _ := if_pos hsep
    rw [min_eq_left (le_of_lt hoff), yamlLines_some hoff hcut, if_pos hbad]
    rfl
  | case2 m docStart off hoff hsep hbad e he =>
    rw [yamlLines_valid h hoff hsep hbad, checkCut_cons (documents_ne_nil _ _ _), he]
    rfl
  | case3 m docStart off hoff hsep hbad m' hm ih =>
    rw [yamlLines_valid h hoff hsep hbad, checkCut_cons (documents_ne_nil _ _ _), hm, ← h.size]
    rw [← h.size] at ih
    exact ih
  | case4 m docStart off hoff hsep ih =>
    rw [h.size] at hoff
    rw [isSeparator_eq h hoff] at hsep
    have hcut : cutSeparator (bytesAt data off (lineEnd data off)) = none := if_neg hsep
    rw [min_eq_left (le_of_lt hoff), yamlLines_none hoff hcut, lineEnd_eq h hoff]
    exact ih
  | case5 m docStart off hoff =>
    rw [h.size] at hoff ⊢
    rw [min_eq_right (not_lt.mp hoff), yamlLines_end le_rfl]
    simp [checkCut]

/-- No document is refused for a separator. -/
theorem foldlM_ne_separator (src : ByteSource) (docs : List (ℕ × ℕ)) (m : ManifestShape) (off : ℕ) :
    docs.foldlM (checkDocument src) m ≠ .error (.separator off) := by
  induction docs generalizing m with
  | nil => nofun
  | cons doc docs ih =>
    have hdoc : checkDocument src m doc ≠ .error (.separator off) := by
      unfold checkDocument ManifestShape.charge
      dsimp only
      split_ifs <;> nofun
    rw [List.foldlM_cons]
    cases hcheck : checkDocument src m doc with
    | error e =>
      rw [hcheck] at hdoc
      exact hdoc
    | ok m' => exact ih m'

/-- A document is not empty. -/
def nonEmpty (doc : ℕ × ℕ) : Bool := doc.1 ≠ doc.2

/-- What was measured of documents, and that it is within the limits. -/
structure Measured (src : ByteSource) (docs : List (ℕ × ℕ)) (m : ManifestShape) : Prop where
  /-- They are counted. -/
  count : m.n = docs.length
  /-- They are not too many. -/
  documents : docs.length ≤ maxManifestDocs
  /-- None is too large. -/
  sizes : ∀ doc ∈ docs, doc.2 - doc.1 ≤ maxManifestDocBytes
  /-- Their costs are added. -/
  total : m.total = (docs.map fun doc => measureYAMLRange src doc.1 doc.2).foldl YamlCost.add {}
  /-- They do not cost too much. -/
  units : m.total.units ≤ maxManifestUnits
  /-- The ones with aliases are kept. -/
  aliased : m.aliased = (docs.zipIdx 1).filterMap fun p =>
    let cost := measureYAMLRange src p.1.1 p.1.2
    if 0 < cost.aliases then some ⟨p.2, p.1.1, p.1.2, cost⟩ else none

/-- What a check that passes says of a document. -/
theorem checkDocument_ok (h : checkDocument src m doc = .ok m') (hne : doc.1 ≠ doc.2) :
    let cost := measureYAMLRange src doc.1 doc.2
    m.n + 1 ≤ maxManifestDocs ∧ doc.2 - doc.1 ≤ maxManifestDocBytes ∧ (m.total.add cost).units ≤ maxManifestUnits ∧
      m' = { n := m.n + 1, total := m.total.add cost
             aliased := if 0 < cost.aliases then m.aliased ++ [⟨m.n + 1, doc.1, doc.2, cost⟩] else m.aliased } := by
  unfold checkDocument ManifestShape.charge at h
  rw [if_neg hne] at h
  intro cost
  -- The limits in the order they are checked.
  by_cases hcount : maxManifestDocs < m.n + 1
  · rw [if_pos hcount] at h
    exact absurd h (by nofun)
  rw [if_neg hcount] at h
  by_cases hsize : maxManifestDocBytes < doc.2 - doc.1
  · rw [if_pos hsize] at h
    exact absurd h (by nofun)
  rw [if_neg hsize] at h
  refine ⟨not_lt.mp hcount, not_lt.mp hsize, ?_⟩
  change (if maxManifestUnits < _ then _ else _) = _ at h
  by_cases hunits : maxManifestUnits < (m.total.add cost).units
  · rw [if_pos (by split_ifs <;> exact hunits)] at h
    exact absurd h (by nofun)
  · rw [if_neg (by split_ifs <;> exact hunits)] at h
    refine ⟨not_lt.mp hunits, (Except.ok.inj h).symm.trans ?_⟩
    split_ifs <;> rfl

/-- One more document is measured. -/
theorem Measured.check (h : Measured src docs m) (hcheck : checkDocument src m doc = .ok m') (hne : doc.1 ≠ doc.2) :
    Measured src (docs ++ [doc]) m' := by
  obtain ⟨hcount, hsize, hunits, rfl⟩ := checkDocument_ok hcheck hne
  rw [h.count] at hcount ⊢
  exact
    { count := by simp
      documents := by simpa using hcount
      sizes := by
        intro d hd
        rcases List.mem_append.mp hd with hd | hd
        · exact h.sizes d hd
        · rw [List.mem_singleton.mp hd]
          exact hsize
      total := by
        rw [List.map_append, List.foldl_append, ← h.total]
        rfl
      units := hunits
      aliased := by
        rw [List.zipIdx_append, List.filterMap_append, ← h.aliased]
        simp only [List.zipIdx_singleton, List.filterMap_cons, List.filterMap_nil]
        split_ifs
        · rw [Nat.add_comm]
        · exact (List.append_nil _).symm }

/-- Checking documents measures those that are not empty. -/
theorem measured_foldlM (h : docs.foldlM (checkDocument src) {} = .ok m) : Measured src (docs.filter nonEmpty) m := by
  induction docs using List.reverseRecOn generalizing m with
  | nil =>
    obtain rfl : {} = m := Except.ok.inj h
    exact ⟨rfl, Nat.zero_le _, by simp, rfl, Nat.zero_le _, rfl⟩
  | append_singleton docs doc ih =>
    rw [List.foldlM_append] at h
    simp only [List.foldlM_cons, List.foldlM_nil, bind_pure] at h
    cases hdocs : docs.foldlM (checkDocument src) {} with
    | error e =>
      rw [hdocs] at h
      exact absurd h (by nofun)
    | ok m₀ =>
      rw [hdocs] at h
      replace h : checkDocument src m₀ doc = .ok m := h
      rw [List.filter_append]
      by_cases hne : doc.1 = doc.2
      · rw [checkDocument, if_pos hne] at h
        obtain rfl : m₀ = m := Except.ok.inj h
        have hempty : nonEmpty doc = false := by simp [nonEmpty, hne]
        rw [List.filter_singleton, hempty, cond_false, List.append_nil]
        exact ih hdocs
      · have hkept : nonEmpty doc = true := by simp [nonEmpty, hne]
        rw [List.filter_singleton, hkept, cond_true]
        exact (ih hdocs).check h hne

/-- A body without a UTF-16 byte order mark, however it is cut, is refused for a separator only where the
decoder reports an invalid one, and let through only when the decoder reports none; then the documents
measured, each within the limits, are those the decoder cuts the body into, the empty ones apart. -/
theorem checkManifestStream_yamlStream (body : List Bytes) (hbom : ByteSource.NoUTF16BOM body.flatten) :
    (∀ off, checkManifestStream body = .error (.separator off) → (yamlStream body.flatten 0).invalid = some off) ∧
      ∀ m, checkManifestStream body = .ok m →
        (yamlStream body.flatten 0).invalid = none ∧
          Measured (newByteSource body) ((yamlStream body.flatten 0).documents.filter nonEmpty) m := by
  have hreads := ByteSource.reads_new body
  have hcheck : checkManifestStream body = checkCut (newByteSource body) {} (yamlStream body.flatten 0) := by
    unfold checkManifestStream
    dsimp only
    rw [hreads.utf16BOM hbom]
    exact (checkLines_eq hreads {} 0 0).trans (by rw [Nat.zero_min]; rfl)
  rw [hcheck]
  generalize yamlStream body.flatten 0 = cut
  unfold checkCut
  cases hinvalid : cut.invalid with
  | none => exact ⟨fun off h => absurd h (foldlM_ne_separator _ _ _ off), fun m h => ⟨rfl, measured_foldlM h⟩⟩
  | some bad =>
    dsimp only
    cases hdocs : cut.documents.dropLast.foldlM (checkDocument (newByteSource body)) {} with
    | error e =>
      refine ⟨fun off h => absurd ?_ (foldlM_ne_separator (newByteSource body) cut.documents.dropLast {} off), fun m h => ?_⟩
      · rw [hdocs]
        exact h
      · exact absurd h (by nofun)
    | ok m' =>
      refine ⟨fun off h => ?_, fun m h => absurd h (by nofun)⟩
      obtain rfl : bad = off := StreamRefusal.separator.inj (Except.error.inj h)
      rfl

/-- A stream of two documents, cut inside its separator: the second document is the one behind it. -/
theorem checkManifestStream_yamlStream_cut :
    let body : List Bytes := [[0x61, 0x0a, 0x2d], [], [0x2d, 0x2d, 0x0a, 0x62]]
    checkManifestStream body = .ok { n := 2, total := ⟨2, 0, 0⟩ } ∧
      Measured (newByteSource body) [(0, 2), (6, 7)] { n := 2, total := ⟨2, 0, 0⟩ } := by
  intro body
  have hok : checkManifestStream body = .ok { n := 2, total := ⟨2, 0, 0⟩ } := by decide +kernel
  have hbom : ByteSource.NoUTF16BOM body.flatten := ByteSource.noUTF16BOM_of_all rfl
  have hdocs : (yamlStream body.flatten 0).documents.filter nonEmpty = [(0, 2), (6, 7)] := by decide +kernel
  refine ⟨hok, ?_⟩
  rw [← hdocs]
  exact ((checkManifestStream_yamlStream body hbom).2 _ hok).2

end UpgradeScope
