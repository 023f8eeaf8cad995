import Mathlib.Data.List.GetD
import UpgradeScope.Lib.Utf8

/-!
# Splitting a stream into YAML documents

`streamParser.yamlStream` of `internal/collect/files.go` splits a stream as kubectl's `YAMLReader` does: a
line that starts with `---` ends a document, and only white space or a comment may follow the dashes. A
separator with more behind it is reported, and ends the stream. The documents are given by the byte offsets
that are handed to `yamlDocument`, the empty and the blank ones included.
-/

namespace UpgradeScope.Collect

open Utf8

/-- `data[start:end]`. -/
def bytesAt (data : Bytes) (start stop : ℕ) : Bytes := (data.take stop).drop start

/-- The offset after the line that starts at an offset. -/
def lineEnd (data : Bytes) (off : ℕ) : ℕ :=
  match (data.drop off).findIdx? (· = 0x0a) with
  | some i => off + i + 1
  | none => data.length

/-- `bytes.CutPrefix(line, "---")`. -/
def cutSeparator (line : Bytes) : Option Bytes :=
  if [0x2d, 0x2d, 0x2d].isPrefixOf line then some (line.drop 3) else none

/-- More than white space and a comment stands in the rest of a separator's line. -/
def invalidRest (rest : Bytes) : Bool := (trimSpace rest).head?.any (· ≠ '#'.toUInt8)

/-- What `yamlStream` makes of a stream. -/
structure YamlCut where
  /-- The documents, by their offsets, in order. -/
  documents : List (ℕ × ℕ)
  /-- The invalid separator that ends the stream, by its offset. -/
  invalid : Option ℕ := none

/-- A line's end is past its start. -/
theorem lt_lineEnd {data : Bytes} {off : ℕ} (h : off < data.length) : off < lineEnd data off ∧ lineEnd data off ≤ data.length := by
  unfold lineEnd
  cases hfind : (data.drop off).findIdx? (· = 0x0a) with
  | none => exact ⟨h, le_rfl⟩
  | some i =>
    have hlt := (List.findIdx?_eq_some_iff_getElem.mp hfind).1
    rw [List.length_drop] at hlt
    dsimp only
    omega

/-- The loop of `yamlStream` from a line on, with the document that is being read. -/
def yamlLines (data : Bytes) (docStart off : ℕ) : YamlCut :=
  if _h : off < data.length then
    let stop := lineEnd data off
    match cutSeparator (bytesAt data off stop) with
    | some rest =>
      if invalidRest rest then { documents := [(docStart, off)], invalid := some off }
      else
        let cut := yamlLines data stop stop
        { cut with documents := (docStart, off) :: cut.documents }
    | none => yamlLines data docStart stop
  else { documents := [(docStart, data.length)] }
termination_by data.length - off
decreasing_by
  all_goals
    have hline := lt_lineEnd _h
    omega

/-- `yamlStream`. -/
def yamlStream (data : Bytes) («from» : ℕ) : YamlCut := yamlLines data «from» «from»

/-! ## Ranges and documents -/

section Lines

variable {data : Bytes} {docStart off : ℕ}

/-- The bytes of a range that is not empty start with the byte at its start. -/
theorem bytesAt_cons {i stop : ℕ} (hi : i < stop) (hstop : stop ≤ data.length) :
    bytesAt data i stop = data.getD i 0 :: bytesAt data (i + 1) stop := by
  unfold bytesAt
  have hlt : i < (data.take stop).length := by
    rw [List.length_take]
    omega
  rw [List.drop_eq_getElem_cons hlt, List.getElem_take, List.getD_eq_getElem _ _ (by omega)]

@[simp] theorem bytesAt_self (i : ℕ) : bytesAt data i i = [] := by
  unfold bytesAt
  exact List.drop_eq_nil_of_le (by rw [List.length_take]; omega)

theorem length_bytesAt {i stop : ℕ} (hstop : stop ≤ data.length) : (bytesAt data i stop).length = stop - i := by
  unfold bytesAt
  rw [List.length_drop, List.length_take]
  omega

theorem drop_bytesAt (i n stop : ℕ) : (bytesAt data i stop).drop n = bytesAt data (i + n) stop := by
  unfold bytesAt
  rw [List.drop_drop]

/-- The loop at the end of the stream. -/
theorem yamlLines_end (h : data.length ≤ off) : yamlLines data docStart off = { documents := [(docStart, data.length)] } := by
  rw [yamlLines, dif_neg (not_lt.mpr h)]

/-- The loop at a line that is no separator. -/
theorem yamlLines_none (h : off < data.length) (hsep : cutSeparator (bytesAt data off (lineEnd data off)) = none) :
    yamlLines data docStart off = yamlLines data docStart (lineEnd data off) := by
  rw [yamlLines, dif_pos h]
  simp only [hsep]

/-- The loop over the lines ends a document at a separator. -/
theorem yamlLines_some (h : off < data.length) {rest : Bytes}
    (hsep : cutSeparator (bytesAt data off (lineEnd data off)) = some rest) :
    yamlLines data docStart off =
      if invalidRest rest then { documents := [(docStart, off)], invalid := some off }
      else
        { documents := (docStart, off) :: (yamlLines data (lineEnd data off) (lineEnd data off)).documents
          invalid := (yamlLines data (lineEnd data off) (lineEnd data off)).invalid } := by
  rw [yamlLines, dif_pos h]
  simp only [hsep]

end Lines

/-- A stream ends with a document. -/
theorem documents_ne_nil (data : Bytes) (docStart off : ℕ) : (yamlLines data docStart off).documents ≠ [] := by
  fun_induction yamlLines data docStart off with
  | case1 docStart off h stop rest hsep hbad => exact List.cons_ne_nil _ _
  | case2 docStart off h stop rest hsep hbad cut ih => exact List.cons_ne_nil _ _
  | case3 docStart off h stop hsep ih => exact ih
  | case4 docStart off h => exact List.cons_ne_nil _ _

/-! ## Streams put together -/

/-- The text ends with the end of a line, or is empty. -/
def Complete (x : Bytes) : Prop := x = [] ∨ x.getLast? = some 0x0a

/-- The cut of a text that stands `n` bytes further on. -/
def YamlCut.shift (n : ℕ) (cut : YamlCut) : YamlCut where
  documents := cut.documents.map fun doc => (n + doc.1, n + doc.2)
  invalid := cut.invalid.map (n + ·)

section Append

variable {x y : Bytes} {off : ℕ}

theorem bytesAt_append_left {start stop : ℕ} (h : stop ≤ x.length) : bytesAt (x ++ y) start stop = bytesAt x start stop := by
  unfold bytesAt
  rw [List.take_append_of_le_length h]

theorem bytesAt_append_right (x y : Bytes) (start stop : ℕ) :
    bytesAt (x ++ y) (x.length + start) (x.length + stop) = bytesAt y start stop := by
  unfold bytesAt
  rw [List.take_length_add_append, List.drop_length_add_append]

/-- The lines of a text are those of what it is the start of. -/
theorem lineEnd_append_left (hx : Complete x) (h : off < x.length) : lineEnd (x ++ y) off = lineEnd x off := by
  have hlast : ∃ b ∈ x.drop off, b = 0x0a := by
    rcases hx with rfl | hx
    · exact absurd h (by simp)
    · refine ⟨0x0a, ?_, rfl⟩
      have hne : x.drop off ≠ [] := by
        rw [ne_eq, List.drop_eq_nil_iff]
        omega
      refine List.mem_of_getLast? (?_ : (x.drop off).getLast? = _)
      rw [List.getLast?_drop, if_neg (by omega), hx]
  have hsome : ((x.drop off).findIdx? (· = 0x0a)).isSome = true := by
    rw [List.findIdx?_isSome, List.any_eq_true]
    obtain ⟨b, hb, rfl⟩ := hlast
    exact ⟨_, hb, by decide⟩
  obtain ⟨i, hi⟩ := Option.isSome_iff_exists.mp hsome
  unfold lineEnd
  rw [List.drop_append_of_le_length (le_of_lt h), List.findIdx?_append, hi]
  rfl

theorem lineEnd_append_right (x y : Bytes) (off : ℕ) : lineEnd (x ++ y) (x.length + off) = x.length + lineEnd y off := by
  unfold lineEnd
  rw [List.drop_length_add_append, List.length_append]
  cases (y.drop off).findIdx? (· = 0x0a) with
  | none => rfl
  | some i =>
    dsimp only
    omega

theorem line_append_left (hx : Complete x) (h : off < x.length) :
    bytesAt (x ++ y) off (lineEnd (x ++ y) off) = bytesAt x off (lineEnd x off) := by
  rw [lineEnd_append_left hx h, bytesAt_append_left (lt_lineEnd h).2]

theorem line_append_right (x y : Bytes) (off : ℕ) :
    bytesAt (x ++ y) (x.length + off) (lineEnd (x ++ y) (x.length + off)) = bytesAt y off (lineEnd y off) := by
  rw [lineEnd_append_right, bytesAt_append_right]

/-- The rest of a stream is cut as a stream of its own. -/
theorem yamlLines_append_right (x y : Bytes) (docStart off : ℕ) :
    yamlLines (x ++ y) (x.length + docStart) (x.length + off) = (yamlLines y docStart off).shift x.length := by
  have hlen : (x ++ y).length = x.length + y.length := List.length_append
  fun_induction yamlLines y docStart off with
  | case1 docStart off h stop rest hsep hbad =>
    rw [← line_append_right] at hsep
    rw [yamlLines_some (by omega) hsep, if_pos hbad]
    rfl
  | case2 docStart off h stop rest hsep hbad cut ih =>
    rw [← line_append_right] at hsep
    rw [yamlLines_some (by omega) hsep, if_neg hbad, lineEnd_append_right, ih]
    rfl
  | case3 docStart off h stop hsep ih =>
    rw [← line_append_right] at hsep
    rw [yamlLines_none (by omega) hsep, lineEnd_append_right, ih]
  | case4 docStart off h =>
    rw [yamlLines_end (by omega), hlen]
    rfl

/-- Where the last document of a cut starts. -/
def YamlCut.lastStart (cut : YamlCut) : ℕ := (cut.documents.getLast?.map (·.1)).getD 0

/-- A stream is cut as what it starts with, and then from where the last document of that starts. -/
theorem yamlLines_append_left (hx : Complete x) (y : Bytes) {docStart : ℕ} (hoff : off ≤ x.length)
    (hvalid : (yamlLines x docStart off).invalid = none) :
    let cut := yamlLines x docStart off
    yamlLines (x ++ y) docStart off =
      { documents := cut.documents.dropLast ++ (yamlLines (x ++ y) cut.lastStart x.length).documents
        invalid := (yamlLines (x ++ y) cut.lastStart x.length).invalid } := by
  fun_induction yamlLines x docStart off with
  | case1 docStart off h stop rest hsep hbad => exact absurd hvalid (by nofun)
  | case2 docStart off h stop rest hsep hbad cut ih =>
    have hcut := documents_ne_nil x stop stop
    have hline := (lt_lineEnd h).2
    rw [← line_append_left hx h] at hsep
    rw [yamlLines_some (by rw [List.length_append]; omega) hsep, if_neg hbad, lineEnd_append_left hx h, ih hline hvalid]
    dsimp only
    rw [List.dropLast_cons_of_ne_nil hcut, YamlCut.lastStart, YamlCut.lastStart, List.getLast?_cons_of_ne_nil hcut]
    rfl
  | case3 docStart off h stop hsep ih =>
    have hline := (lt_lineEnd h).2
    rw [← line_append_left hx h] at hsep
    rw [yamlLines_none (by rw [List.length_append]; omega) hsep, lineEnd_append_left hx h, ih hline hvalid]
  | case4 docStart off h =>
    obtain rfl : off = x.length := by omega
    rfl

end Append

end UpgradeScope.Collect
