import UpgradeScope.Lib.Strings

/-!
# Comma-separated values

`write` is the writer of Go's `encoding/csv` with its defaults, and `read` reads the format of RFC 4180: a field is
quoted where it has to be, and a quote in it is doubled. Whatever the fields are, a file of records that are not empty
is read back as it was written (`read_write`).
-/

namespace Csv

open Go (isSpace)

/-- The quotation mark. -/
def quote : Char := Char.ofNat 0x22

/-- The separator of fields. -/
def comma : Char := ','

/-- The end of a record. -/
def newline : Char := Char.ofNat 0x0a

/-- The carriage return. -/
def carriageReturn : Char := Char.ofNat 0x0d

/-- A character that stands between quotes only. -/
def special (c : Char) : Bool := c = newline || c = carriageReturn || c = quote || c = comma

/-- `fieldNeedsQuotes`. -/
def fieldNeedsQuotes (field : List Char) : Bool :=
  field ≠ [] && (field = [Char.ofNat 0x5c, '.'] || field.any special || field.head?.any isSpace)

/-- A field between quotes, its own quotes doubled. -/
def escaped (field : List Char) : List Char := field.flatMap fun c => if c = quote then [quote, quote] else [c]

/-- One field. -/
def writeField (field : List Char) : List Char :=
  if fieldNeedsQuotes field then quote :: (escaped field ++ [quote]) else field

/-- The fields of a record and its end. -/
def writeFields : List (List Char) → List Char
  | [] => [newline]
  | [f] => writeField f ++ [newline]
  | f :: fs => writeField f ++ comma :: writeFields fs

/-- `Writer.Write`, record by record. -/
def write (records : List (List (List Char))) : List Char := records.flatMap writeFields

/-- Where the reader is. -/
inductive Mode where
  /-- At the start of a field. -/
  | start
  /-- In a field without quotes. -/
  | plain
  /-- Between quotes. -/
  | quoted
  /-- After a quote between quotes. -/
  | closing

/-- The reader: the field and the record so far are kept backwards; `none` where the text is malformed. -/
def scan : Mode → List Char → List (List Char) → List Char → Option (List (List (List Char)))
  | .start, _, record, [] => some (if record = [] then [] else [([] :: record).reverse])
  | .plain, field, record, [] => some [(field.reverse :: record).reverse]
  | .quoted, _, _, [] => none
  | .closing, field, record, [] => some [(field.reverse :: record).reverse]
  | .start, _, record, c :: cs =>
    if c = quote then scan .quoted [] record cs
    else if c = comma then scan .start [] ([] :: record) cs
    else if c = newline then (scan .start [] [] cs).map fun rs => ([] :: record).reverse :: rs
    else scan .plain [c] record cs
  | .plain, field, record, c :: cs =>
    if c = quote then none
    else if c = comma then scan .start [] (field.reverse :: record) cs
    else if c = newline then (scan .start [] [] cs).map fun rs => (field.reverse :: record).reverse :: rs
    else scan .plain (c :: field) record cs
  | .quoted, field, record, c :: cs =>
    if c = quote then scan .closing field record cs else scan .quoted (c :: field) record cs
  | .closing, field, record, c :: cs =>
    if c = quote then scan .quoted (quote :: field) record cs
    else if c = comma then scan .start [] (field.reverse :: record) cs
    else if c = newline then (scan .start [] [] cs).map fun rs => (field.reverse :: record).reverse :: rs
    else none

/-- Every record of a text. -/
def read (text : List Char) : Option (List (List (List Char))) := scan .start [] [] text

/-! ## The round trip -/

/-- What follows a field: a comma and more of the record, or the end of it. -/
def next (record : List (List Char)) (sep : Char) (cs : List Char) : Option (List (List (List Char))) :=
  if sep = comma then scan .start [] record cs else (scan .start [] [] cs).map fun rs => record.reverse :: rs

section Fields

variable {sep : Char} (hsep : sep = comma ∨ sep = newline)

include hsep

/-- A field without quotes ends at its separator. -/
theorem scan_plain {f : List Char} (h : ∀ c ∈ f, c ≠ quote ∧ c ≠ comma ∧ c ≠ newline) (field : List Char)
    (record : List (List Char)) (cs : List Char) :
    scan .plain field record (f ++ sep :: cs) = next ((field.reverse ++ f) :: record) sep cs := by
  induction f generalizing field with
  | nil =>
    rcases hsep with rfl | rfl
    · simp [scan, next, comma, quote]
    · simp [scan, next, comma, quote, newline]
  | cons c f ih =>
    obtain ⟨hquote, hcomma, hnewline⟩ := h c List.mem_cons_self
    have hf := ih (fun d hd => h d (List.mem_cons_of_mem _ hd)) (c :: field)
    rw [List.cons_append, scan, if_neg hquote, if_neg hcomma, if_neg hnewline, hf]
    simp

/-- A field between quotes ends at the quote that is not doubled. -/
theorem scan_quoted (f field : List Char) (record : List (List Char)) (cs : List Char) :
    scan .quoted field record (escaped f ++ quote :: sep :: cs) = next ((field.reverse ++ f) :: record) sep cs := by
  induction f generalizing field with
  | nil =>
    rcases hsep with rfl | rfl
    · simp [escaped, scan, next, comma, quote]
    · simp [escaped, scan, next, comma, quote, newline]
  | cons c f ih =>
    by_cases hc : c = quote
    · have htext : escaped (c :: f) = quote :: quote :: escaped f := by simp [escaped, hc]
      rw [htext, List.cons_append, List.cons_append, scan, if_pos rfl, scan, if_pos rfl, ih (quote :: field), hc]
      simp
    · have htext : escaped (c :: f) = c :: escaped f := by simp [escaped, hc]
      rw [htext, List.cons_append, scan, if_neg hc, ih (c :: field)]
      simp

/-- A field is read back up to its separator. -/
theorem scan_writeField (f : List Char) (record : List (List Char)) (cs : List Char) :
    scan .start [] record (writeField f ++ sep :: cs) = next (f :: record) sep cs := by
  unfold writeField
  by_cases hquotes : fieldNeedsQuotes f = true
  · rw [if_pos hquotes, List.cons_append, List.append_assoc, List.singleton_append, scan, if_pos rfl,
      scan_quoted hsep]
    rfl
  · rw [if_neg hquotes]
    cases f with
    | nil =>
      rcases hsep with rfl | rfl
      · simp [scan, next, comma, quote]
      · simp [scan, next, comma, quote, newline]
    | cons c f =>
      have hplain : ∀ d ∈ c :: f, d ≠ quote ∧ d ≠ comma ∧ d ≠ newline := by
        intro d hd
        have hnot : special d = false := by
          by_contra hd'
          have hany : (c :: f).any special = true := List.any_eq_true.mpr ⟨d, hd, by simpa using hd'⟩
          exact hquotes (by simp [fieldNeedsQuotes, hany])
        simp only [special, Bool.or_eq_false_iff, decide_eq_false_iff_not] at hnot
        exact ⟨hnot.1.2, hnot.2, hnot.1.1.1⟩
      obtain ⟨hquote, hcomma, hnewline⟩ := hplain c List.mem_cons_self
      rw [List.cons_append, scan, if_neg hquote, if_neg hcomma, if_neg hnewline,
        scan_plain hsep (fun d hd => hplain d (List.mem_cons_of_mem _ hd))]
      rfl

end Fields

/-- A record is read back. -/
theorem scan_writeFields {fs : List (List Char)} (h : fs ≠ []) (record : List (List Char)) (cs : List Char) :
    scan .start [] record (writeFields fs ++ cs) = (scan .start [] [] cs).map fun rs => (record.reverse ++ fs) :: rs := by
  induction fs generalizing record with
  | nil => exact absurd rfl h
  | cons f fs ih =>
    cases fs with
    | nil =>
      have htext : writeFields [f] ++ cs = writeField f ++ newline :: cs := by simp [writeFields]
      rw [htext, scan_writeField (.inr rfl), next, if_neg (by decide)]
      simp
    | cons g fs =>
      have htext : writeFields (f :: g :: fs) ++ cs = writeField f ++ comma :: (writeFields (g :: fs) ++ cs) := by
        simp [writeFields]
      rw [htext, scan_writeField (.inl rfl), next, if_pos rfl, ih (by simp)]
      simp

/-- A file of records that are not empty is read back. -/
theorem read_write {records : List (List (List Char))} (h : ∀ r ∈ records, r ≠ []) : read (write records) = some records := by
  induction records with
  | nil => rfl
  | cons r records ih =>
    have hrest := ih fun r' hr' => h r' (List.mem_cons_of_mem _ hr')
    unfold read write at *
    rw [List.flatMap_cons, scan_writeFields (h r List.mem_cons_self), hrest]
    simp

end Csv
