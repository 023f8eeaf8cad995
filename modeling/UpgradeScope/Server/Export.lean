import UpgradeScope.Engine.Finding
import UpgradeScope.Lib.Csv
import UpgradeScope.Store.StoredTimes

/-!
# The CSV export of a report

`internal/server/export.go`: an auditor's export of a stored evaluation has one row for the verdict, each finding, each
accepted finding and each capability that was not assessed. What a spreadsheet reads of it are cells, and a cell that
starts with a formula's first character is run; names in a cluster are attacker-influenced, so every text goes through
`csvSafe`. A spreadsheet may split a field again at other separators, so a cell starts in more places than a field.
-/

namespace UpgradeScope.Export

open Go

/-! ## Cells that are not formulas -/

/-- The tabulator. -/
def tab : Char := Char.ofNat 0x09

/-- The apostrophe, which makes a spreadsheet read text. -/
def apostrophe : Char := Char.ofNat 0x27

/-- What a formula may start with: `= + - @`, a tab, a carriage return, or a full-width `= + - @`. -/
def isTrigger (c : Char) : Bool :=
  c = '=' || c = '+' || c = '-' || c = '@' || c = tab || c = Csv.carriageReturn || c = Char.ofNat 0xff1d ||
    c = Char.ofNat 0xff0b || c = Char.ofNat 0xff0d || c = Char.ofNat 0xff20

/-- Where a spreadsheet may split a field again. -/
def isSeparator (c : Char) : Bool := c = ',' || c = ';' || c = tab || c = Csv.carriageReturn || c = Csv.newline

/-- A character at the start of a cell that ends the start: anything but white space, or a tab or carriage return. -/
def endsStart (c : Char) : Bool := c = tab || c = Csv.carriageReturn || !isSpace c

/-- The loop of `csvSafe`. -/
def csvSafeFrom : Bool → List Char → List Char
  | _, [] => []
  | cellStart, r :: rs =>
    (if cellStart && endsStart r && isTrigger r then [apostrophe] else []) ++
      r :: csvSafeFrom (isSeparator r || cellStart && !endsStart r) rs

/-- `csvSafe`. -/
def csvSafe (s : String) : String := if s.toList.any isTrigger then String.ofList (csvSafeFrom true s.toList) else s

/-- No cell of a text is a formula: wherever a cell may start, past any white space, no trigger follows. -/
def Inert (text : List Char) : Prop :=
  ∀ before blank c after, text = before ++ (blank ++ c :: after) →
    (∀ last ∈ before.getLast?, isSeparator last = true) → (∀ b ∈ blank, isSpace b = true) → isTrigger c = false

/-- A text without a formula at the start of a cell, read from left to right: `cellStart` says whether a cell starts here. -/
def inertFrom : Bool → List Char → Bool
  | _, [] => true
  | cellStart, c :: cs =>
    !(cellStart && endsStart c && isTrigger c) && inertFrom (isSeparator c || cellStart && !endsStart c) cs

variable {cellStart : Bool} {rep : Report} {c : Char} {d : RowData} {s : List Char}

/-- A trigger ends the start of a cell. -/
theorem endsStart_of_isTrigger (h : isTrigger c = true) : endsStart c = true := by
  simp only [isTrigger, Bool.or_eq_true, decide_eq_true_eq] at h
  rcases h with ((((((((rfl | rfl) | rfl) | rfl) | rfl) | rfl) | rfl) | rfl) | rfl) | rfl <;> decide

/-- White space that ends the start of a cell is a trigger. -/
theorem isTrigger_of_isSpace (hspace : isSpace c = true) (hends : endsStart c = true) : isTrigger c = true := by
  have hc : c = tab ∨ c = Csv.carriageReturn := by simpa [endsStart, hspace] using hends
  rcases hc with rfl | rfl <;> decide

/-- After a separator, a cell starts. -/
theorem inertFrom_of_separator {init : List Char} {sep : Char} (hsep : isSeparator sep = true) {rest : List Char}
    (h : inertFrom cellStart (init ++ sep :: rest) = true) : inertFrom true rest = true := by
  induction init generalizing cellStart with
  | nil =>
    rw [List.nil_append, inertFrom, Bool.and_eq_true, hsep, Bool.true_or] at h
    exact h.2
  | cons c init ih =>
    rw [List.cons_append, inertFrom, Bool.and_eq_true] at h
    exact ih h.2

/-- Past white space, a text that is inert stays so. -/
theorem inertFrom_of_blank {blank rest : List Char} (hblank : ∀ b ∈ blank, isSpace b = true)
    (h : inertFrom true (blank ++ rest) = true) : inertFrom true rest = true := by
  induction blank with
  | nil => exact h
  | cons b blank ih =>
    rw [List.cons_append, inertFrom, Bool.and_eq_true] at h
    have hspace := hblank b List.mem_cons_self
    have hnot : endsStart b = false := by
      by_contra hends
      have hends : endsStart b = true := by simpa using hends
      simp [hends, isTrigger_of_isSpace hspace hends] at h
    rw [hnot, Bool.not_false, Bool.and_true, Bool.or_true] at h
    exact ih (fun b' hb' => hblank b' (List.mem_cons_of_mem _ hb')) h.2

/-- A text that is inert from left to right is. -/
theorem inert_of_inertFrom {text : List Char} (h : inertFrom true text = true) : Inert text := by
  intro before blank c after htext hbefore hblank
  subst htext
  have hcell : inertFrom true (blank ++ c :: after) = true := by
    rcases List.eq_nil_or_concat before with rfl | ⟨init, last, rfl⟩
    · exact h
    · have hlast : isSeparator last = true := hbefore last (by simp)
      rw [List.concat_eq_append, List.append_assoc] at h
      exact inertFrom_of_separator hlast h
  have hc := inertFrom_of_blank hblank hcell
  rw [inertFrom, Bool.and_eq_true] at hc
  by_contra htrigger
  have htrigger : isTrigger c = true := by simpa using htrigger
  simp [endsStart_of_isTrigger htrigger, htrigger] at hc

/-- What the loop writes is inert. -/
theorem inertFrom_csvSafeFrom (cellStart : Bool) (s : List Char) : inertFrom cellStart (csvSafeFrom cellStart s) = true := by
  induction s generalizing cellStart with
  | nil => rfl
  | cons r rs ih =>
    by_cases hguard : (cellStart && endsStart r && isTrigger r) = true
    · -- The apostrophe ends the start of the cell, and no trigger it stands before is white space.
      have hends : endsStart r = true := by
        simp only [Bool.and_eq_true] at hguard
        exact hguard.1.2
      have htext : csvSafeFrom cellStart (r :: rs) = apostrophe :: r :: csvSafeFrom (isSeparator r) rs := by
        rw [csvSafeFrom, if_pos hguard, hends]
        simp
      have hquote : (endsStart apostrophe = true ∧ isTrigger apostrophe = false) ∧ isSeparator apostrophe = false := by decide
      rw [htext, inertFrom, hquote.1.1, hquote.1.2, hquote.2, inertFrom]
      simpa using ih (isSeparator r)
    · have htext : csvSafeFrom cellStart (r :: rs) =
          r :: csvSafeFrom (isSeparator r || cellStart && !endsStart r) rs := by
        rw [csvSafeFrom, if_neg hguard, List.nil_append]
      have hguard : (cellStart && endsStart r && isTrigger r) = false := Bool.eq_false_iff.mpr hguard
      rw [htext, inertFrom, ih, hguard]
      rfl

/-- The loop leaves an inert text alone. -/
theorem csvSafeFrom_of_inertFrom (h : inertFrom cellStart s = true) :
    csvSafeFrom cellStart s = s := by
  induction s generalizing cellStart with
  | nil => rfl
  | cons r rs ih =>
    rw [inertFrom, Bool.and_eq_true] at h
    rw [csvSafeFrom, if_neg (Bool.eq_false_iff.mp (Bool.not_eq_true' _ ▸ h.1)), ih h.2, List.nil_append]

/-- A text without triggers is inert. -/
theorem inertFrom_of_not_any (h : s.any isTrigger = false) :
    inertFrom cellStart s = true := by
  induction s generalizing cellStart with
  | nil => rfl
  | cons c cs ih =>
    rw [List.any_cons, Bool.or_eq_false_iff] at h
    rw [inertFrom, h.1, Bool.and_false, Bool.not_false, Bool.true_and]
    exact ih h.2

/-- What `csvSafe` returns is what the loop writes. -/
theorem toList_csvSafe (s : String) : (csvSafe s).toList = csvSafeFrom true s.toList := by
  unfold csvSafe
  split_ifs with hany
  · exact String.toList_ofList
  · exact (csvSafeFrom_of_inertFrom (inertFrom_of_not_any (by simpa using hany))).symm

/-- What `csvSafe` writes has no formula at the start of a cell. -/
theorem inertFrom_csvSafe (s : String) : inertFrom true (csvSafe s).toList = true := by
  rw [toList_csvSafe]
  exact inertFrom_csvSafeFrom true s.toList

/-- What `csvSafeFrom` writes is the text, with apostrophes put in. -/
theorem sublist_csvSafeFrom (cellStart : Bool) (s : List Char) :
    s.Sublist (csvSafeFrom cellStart s) ∧
      (csvSafeFrom cellStart s).filter (fun c => c ≠ apostrophe) = s.filter fun c => c ≠ apostrophe := by
  induction s generalizing cellStart with
  | nil => exact ⟨.slnil, rfl⟩
  | cons r rs ih =>
    obtain ⟨hsub, hfilter⟩ := ih (isSeparator r || cellStart && !endsStart r)
    rw [csvSafeFrom]
    split_ifs
    · refine ⟨(hsub.cons_cons r).cons apostrophe, ?_⟩
      rw [List.singleton_append, List.filter_cons_of_neg (by simp), List.filter_cons, List.filter_cons, hfilter]
    · refine ⟨hsub.cons_cons r, ?_⟩
      rw [List.nil_append, List.filter_cons, List.filter_cons, hfilter]

/-! ## The rows -/

/-- The verdict as reports spell it. -/
def verdictName : Verdict → String
  | .ready => "ready"
  | .blocked => "blocked"
  | .unknown => "unknown"

/-- `Time.Format(time.RFC3339)`, "2006-01-02T15:04:05Z07:00". -/
def formatRFC3339 (t : Store.ZonedTime) : String :=
  let wall := t.instant + t.offset * 10 ^ 9
  let (year, month, dayOfMonth) := date (wall / day)
  String.ofList <|
    Store.appendInt year 4 ++ '-' :: (Store.appendInt month 2 ++ '-' :: (Store.appendInt dayOfMonth 2 ++ 'T' ::
      (Store.appendInt (Store.hourOf wall) 2 ++ ':' :: (Store.appendInt (Store.minuteOf wall) 2 ++ ':' ::
        (Store.appendInt (Store.secondOf wall) 2 ++ Store.appendZone t.offset)))))

/-- The header. -/
def header : List String :=
  ["cluster", "target", "evaluatedAt", "kbVersion", "verdict", "score", "severity", "category", "key",
    "title", "detail", "remediation", "teams", "namespaces", "citations"]

/-- What of a row differs from row to row. -/
structure RowData where
  /-- The severity column. -/
  severity : String
  /-- The category column. -/
  category : String := ""
  /-- The key. -/
  key : String := ""
  /-- The title. -/
  title : String
  /-- The detail. -/
  detail : String
  /-- The remediation. -/
  remediation : String := ""
  /-- The teams. -/
  teams : List String := []
  /-- The namespaces. -/
  namespaces : List String := []
  /-- The citations. -/
  citations : List String := []

/-- `row` of `writeExportCSV`. -/
def row (cluster : String) (evaluatedAt : Store.ZonedTime) (rep : Report) (d : RowData) : List String :=
  [csvSafe cluster, toString rep.target, formatRFC3339 evaluatedAt.utc, csvSafe rep.kbVersion, verdictName rep.verdict,
    toString rep.score, d.severity, d.category, csvSafe d.key, csvSafe d.title, csvSafe d.detail, csvSafe d.remediation,
    csvSafe (join d.teams ";"), csvSafe (join d.namespaces ";"), csvSafe (join d.citations ";")]

/-- `namespacesOf`. -/
def namespacesOf (f : Finding) : List String :=
  if f.namespacesOmitted > 0 then f.namespaces ++ ["and " ++ toString f.namespacesOmitted ++ " more"] else f.namespaces

/-- `objectNames`. -/
def objectNames (objs : List ObjectRef) : List String :=
  objs.map fun o => if o.namespace ≠ "" then o.namespace ++ "/" ++ o.name else o.name

/-- `suppressedDetail`. -/
def suppressedDetail (sf : SuppressedFinding) : String :=
  let names := objectNames sf.finding.objects
  let names :=
    if sf.finding.objectsOmitted > 0 then names ++ ["and " ++ toString sf.finding.objectsOmitted ++ " more"] else names
  sf.finding.severity.name ++ " accepted by " ++ sf.source ++
    (if sf.expires ≠ "" then " until " ++ sf.expires else "") ++ ": " ++ sf.reason ++ "." ++
    (if sf.finding.objects ≠ [] then " Objects: " ++ join names ", " ++ "." else "") ++
    if sf.finding.detail ≠ "" then " " ++ sf.finding.detail else ""

/-- The summary. -/
def summaryData (rep : Report) : RowData :=
  let blockers := (rep.findings.filter fun f => f.severity = .blocker).length
  let warnings := (rep.findings.filter fun f => f.severity = .warning).length
  { severity := "summary"
    title := verdictName rep.verdict ++ " for " ++ toString rep.target ++ ": score " ++ toString rep.score ++ "/100"
    detail := toString blockers ++ " blockers, " ++ toString warnings ++ " warnings, " ++
      toString rep.notAssessed.length ++ " capabilities not assessed" ++
      if 0 < rep.suppressed.length then ", " ++ toString rep.suppressed.length ++ " suppressed" else "" }

/-- A finding. -/
def findingData (f : Finding) : RowData where
  severity := f.severity.name
  category := f.category.name
  key := f.key
  title := f.title
  detail := f.detail
  remediation := f.remediation
  teams := f.teams
  namespaces := namespacesOf f
  citations := f.citations

/-- An accepted finding. -/
def suppressedData (sf : SuppressedFinding) : RowData :=
  { findingData sf.finding with severity := "suppressed", detail := suppressedDetail sf }

/-- A capability that was not assessed. -/
def gapData (g : CapabilityGap) : RowData where
  severity := "not-assessed"
  category := "capability"
  key := g.capability
  title := g.capability ++ " not assessed" ++ if g.required then " (required: the verdict cannot be ready)" else ""
  detail := g.reason

/-- What of the rows after the header differs, in their order. -/
def exportData (rep : Report) : List RowData :=
  summaryData rep :: (rep.findings.map findingData ++ (rep.suppressed.map suppressedData ++ rep.notAssessed.map gapData))

/-- The rows, the header first. -/
def exportRows (cluster : String) (evaluatedAt : Store.ZonedTime) (rep : Report) : List (List String) :=
  header :: (exportData rep).map (row cluster evaluatedAt rep)

/-- `writeExportCSV`. -/
def writeExportCSV (cluster : String) (evaluatedAt : Store.ZonedTime) (rep : Report) : String :=
  String.ofList (Csv.write ((exportRows cluster evaluatedAt rep).map fun r => r.map String.toList))

/-- The columns of numbers and dates: target, evaluatedAt and score. -/
def numberColumns : List ℕ := [1, 2, 5]

/-- Every category of a report is one the engine has. -/
def KnownCategories (rep : Report) : Prop :=
  ∀ f ∈ rep.findings ++ rep.suppressed.map (·.finding), ∀ name h, f.category ≠ .unknown name h

/-- The severity and category columns of every row are inert. -/
theorem inertFrom_names (hrep : KnownCategories rep) (hd : d ∈ exportData rep) :
    inertFrom true d.severity.toList = true ∧ inertFrom true d.category.toList = true := by
  have hseverity : ∀ v : Severity, inertFrom true v.name.toList = true := by
    intro v
    cases v <;> decide
  have hcategory : ∀ c : Category, (∀ name h, c ≠ .unknown name h) → inertFrom true c.name.toList = true := by
    intro c hc
    cases c with
    | unknown name h => exact absurd rfl (hc name h)
    | _ => decide
  have htexts : ∀ t ∈ ["summary", "suppressed", "not-assessed", "capability", ""], inertFrom true t.toList = true := by decide
  rcases List.mem_cons.mp hd with rfl | hd
  · exact ⟨htexts "summary" (by simp), htexts "" (by simp)⟩
  · rcases List.mem_append.mp hd with hd | hd
    · obtain ⟨f, hf, rfl⟩ := List.mem_map.mp hd
      exact ⟨hseverity f.severity, hcategory f.category (hrep f (List.mem_append_left _ hf))⟩
    · rcases List.mem_append.mp hd with hd | hd
      · obtain ⟨sf, hsf, rfl⟩ := List.mem_map.mp hd
        exact ⟨htexts "suppressed" (by simp),
          hcategory sf.finding.category (hrep sf.finding (List.mem_append_right _ (List.mem_map_of_mem hsf)))⟩
      · obtain ⟨g, -, rfl⟩ := List.mem_map.mp hd
        exact ⟨htexts "not-assessed" (by simp), htexts "capability" (by simp)⟩

/-- Every cell of a row outside the columns of numbers and dates is inert. -/
theorem inertFrom_row (cluster : String) (evaluatedAt : Store.ZonedTime) (hrep : KnownCategories rep)
    (hd : d ∈ exportData rep) {n : ℕ} (hn : n ∉ numberColumns) {cell : String}
    (hcell : (row cluster evaluatedAt rep d)[n]? = some cell) : inertFrom true cell.toList = true := by
  obtain ⟨hseverity, hcategory⟩ := inertFrom_names hrep hd
  have hverdict : inertFrom true (verdictName rep.verdict).toList = true := by
    cases rep.verdict <;> decide
  have hthis {x : String} (hx : some x = some cell) (h : inertFrom true x.toList = true) : inertFrom true cell.toList = true :=
    Option.some.inj hx ▸ h
  rcases n with _ | _ | _ | _ | _ | _ | _ | _ | _ | _ | _ | _ | _ | _ | _ | n
  · exact hthis hcell (inertFrom_csvSafe cluster)
  · exact absurd (by decide) hn
  · exact absurd (by decide) hn
  · exact hthis hcell (inertFrom_csvSafe rep.kbVersion)
  · exact hthis hcell hverdict
  · exact absurd (by decide) hn
  · exact hthis hcell hseverity
  · exact hthis hcell hcategory
  · exact hthis hcell (inertFrom_csvSafe d.key)
  · exact hthis hcell (inertFrom_csvSafe d.title)
  · exact hthis hcell (inertFrom_csvSafe d.detail)
  · exact hthis hcell (inertFrom_csvSafe d.remediation)
  · exact hthis hcell (inertFrom_csvSafe (join d.teams ";"))
  · exact hthis hcell (inertFrom_csvSafe (join d.namespaces ";"))
  · exact hthis hcell (inertFrom_csvSafe (join d.citations ";"))
  · simp [row] at hcell

/-- No row of an export is empty. -/
theorem length_of_mem_exportRows {cluster : String} {evaluatedAt : Store.ZonedTime} {r : List String}
    (h : r ∈ exportRows cluster evaluatedAt rep) : r.length = header.length := by
  rcases List.mem_cons.mp h with rfl | h
  · rfl
  · obtain ⟨d, -, rfl⟩ := List.mem_map.mp h
    rfl

/-- An export is read as what was recorded, and runs nothing: a reader of the format reads back the header and one row
for the verdict, each finding, each accepted finding and each gap, all of as many cells; and no cell of a text starts a
formula, wherever a spreadsheet splits it again. Of a text, nothing is lost: apostrophes were put in only. -/
theorem exports_read_back_without_formulas (cluster : String) (evaluatedAt : Store.ZonedTime) {rep : Report}
    (hrep : KnownCategories rep) :
    Csv.read (writeExportCSV cluster evaluatedAt rep).toList =
        some ((exportRows cluster evaluatedAt rep).map fun r => r.map String.toList) ∧
      (∀ r ∈ exportRows cluster evaluatedAt rep, r.length = header.length) ∧
      (∀ r ∈ exportRows cluster evaluatedAt rep, ∀ n ∉ numberColumns, ∀ cell, r[n]? = some cell → Inert cell.toList) ∧
      ∀ s : String, s.toList.Sublist (csvSafe s).toList ∧
        (csvSafe s).toList.filter (fun c => c ≠ apostrophe) = s.toList.filter fun c => c ≠ apostrophe := by
  refine ⟨?_, fun r hr => length_of_mem_exportRows hr, fun r hr n hn cell hcell => ?_, fun s => ?_⟩
  · unfold writeExportCSV
    rw [String.toList_ofList]
    apply Csv.read_write
    intro cells hcells
    obtain ⟨r, hr, rfl⟩ := List.mem_map.mp hcells
    rw [Ne, List.map_eq_nil_iff, ← List.length_eq_zero_iff, length_of_mem_exportRows hr]
    decide
  · apply inert_of_inertFrom
    rcases List.mem_cons.mp hr with rfl | hr
    · have hheader : ∀ cell ∈ header, inertFrom true cell.toList = true := by decide
      exact hheader cell (List.mem_of_getElem? hcell)
    · obtain ⟨d, hd, rfl⟩ := List.mem_map.mp hr
      exact inertFrom_row cluster evaluatedAt hrep hd hn hcell
  · rw [toList_csvSafe]
    exact sublist_csvSafeFrom true s.toList

/-- A report with a finding whose title is a formula. -/
def withFormula : Report where
  clusterID := "c"
  target := ⟨1, 31⟩
  serverVersion := ""
  kbVersion := ""
  score := 90
  ready := true
  verdict := .ready
  findings := [{ category := .kbStale, severity := .warning, key := "k", title := "x;=1", detail := "" }]
  notAssessed := []

/-- The export of a report with a formula in a name is read back, and the formula is a text. -/
theorem exports_read_back_without_formulas_withFormula :
    csvSafe "x;=1" = "x;'=1" ∧
      Csv.read (writeExportCSV "c" ⟨0, 0⟩ withFormula).toList =
        some ((exportRows "c" ⟨0, 0⟩ withFormula).map fun r => r.map String.toList) := by
  refine ⟨by decide, (exports_read_back_without_formulas "c" ⟨0, 0⟩ ?_).1⟩
  intro f hf name h
  obtain rfl := List.mem_singleton.mp hf
  simp

end UpgradeScope.Export
