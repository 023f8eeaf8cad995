import UpgradeScope.Mcp.OutsideNames

/-!
# The members of a report

`internal/mcp/members.go`. A report from a file or the fleet server is judged by `api/report.schema.json`, which leaves objects
open, and decoders differ in what they make of a repeated name or of one that differs from a declared one only in case.
`checkMembers` refuses such a report, and one whose text would lose its form when it is cut. The walker goes down the report and
the schema together: `locate` is where it is after some steps. Any schema is a `SchemaDoc`, of which only what the walker reads
is kept. `accepted_reports_read_one_way` says what an accepted report is: at every place, the decoders that there are read the
same members, and marking the outside text (`markClusterText`) leaves them readable by the same names.
-/

namespace UpgradeScope.Mcp

open Go

/-! ## The schema -/

/-- A schema object: what the walker reads of it. -/
inductive Schema where
  | node (ref : Option String) (allOf : List Schema) (properties : List (String × Schema)) (items : Option Schema)
      (additionalProperties : Option Schema) (pattern : Bool)

/-- The definition that a schema refers to. -/
def Schema.ref : Schema → Option String
  | .node ref _ _ _ _ _ => ref

/-- The schemas that apply wherever a schema does. -/
def Schema.allOf : Schema → List Schema
  | .node _ allOf _ _ _ _ => allOf

/-- The members that a schema declares. -/
def Schema.properties : Schema → List (String × Schema)
  | .node _ _ properties _ _ _ => properties

/-- The schema of an array's elements. -/
def Schema.items : Schema → Option Schema
  | .node _ _ _ items _ _ => items

/-- The schema of the members that are not declared. -/
def Schema.additionalProperties : Schema → Option Schema
  | .node _ _ _ _ additionalProperties _ => additionalProperties

/-- Whether a schema gives a string a form. -/
def Schema.pattern : Schema → Bool
  | .node _ _ _ _ _ pattern => pattern

/-- A schema document: its root, and its `$defs`. -/
structure SchemaDoc where
  root : Schema
  defs : List (String × Schema)

/-- The recursion of `expand`. -/
def expandFrom (schema : SchemaDoc) : ℕ → Schema → List Schema
  | 0, _ => []
  | depth + 1, n =>
    let referred := (n.ref.bind fun ref => cutPrefix? ref "#/$defs/").bind fun name => schema.defs.lookup name
    n :: (referred.toList.flatMap (expandFrom schema depth) ++ n.allOf.flatMap (expandFrom schema depth))

/-- `expand`: a schema object and those it refers to, at most sixteen away. -/
def expand (schema : SchemaDoc) (n : Schema) : List Schema := expandFrom schema 17 n

/-- The names that some schema objects declare. -/
def propNames (nodes : List Schema) : List String := nodes.flatMap fun n => n.properties.map Prod.fst

/-- The schema objects of a declared member. -/
def propNodes (schema : SchemaDoc) (nodes : List Schema) (name : String) : List Schema :=
  nodes.flatMap fun n => (n.properties.lookup name).toList.flatMap (expand schema)

/-- The schemas of a member that none of some schemas declares. -/
def extraNodes (schema : SchemaDoc) (nodes : List Schema) : List Schema :=
  nodes.flatMap fun n => n.additionalProperties.toList.flatMap (expand schema)

/-- The schemas of a member of a document that some schemas describe. -/
def memberNodes (schema : SchemaDoc) (nodes : List Schema) (name : String) : List Schema :=
  if name ∈ propNames nodes then propNodes schema nodes name else extraNodes schema nodes

/-- The schemas of the elements of an array that some schemas describe. -/
def itemNodes (schema : SchemaDoc) (nodes : List Schema) : List Schema :=
  nodes.flatMap fun n => n.items.toList.flatMap (expand schema)

/-! ## The check -/

/-- `strings.EqualFold`: the same characters but for case, which `fold` takes away. -/
def equalFold (fold : Char → Char) (s t : String) : Bool := s.toList.map fold = t.toList.map fold

/-- `rule`: which rule a report breaks, and where. -/
def rule (place what : String) : String :=
  "it has " ++ what ++ " (" ++ (if place = "" then "at the top level" else "at " ++ place) ++ ")"

/-- The rule of a form. -/
def patternRule : String :=
  "a string longer than 2048 bytes where api/report.schema.json gives a pattern, which cutting it would break " ++
    "(rule: a value with a pattern is at most 2048 bytes)"

/-- The rule of repeated names. -/
def repeatedRule : String := "a member name that is repeated (rule: the names of an object are distinct)"

/-- The rule of case. -/
def caseRule (property : String) : String :=
  "a member name that differs only in case from the property \"" ++ property ++
    "\" of api/report.schema.json (rule: member names match the schema's exactly)"

mutual

/-- `value`: one value at a path, which some schema objects apply to. -/
def checkValue (fold : Char → Char) (schema : SchemaDoc) (path : String) (nodes : List Schema) : Doc → Except String Unit
  | .null => .ok ()
  | .bool _ => .ok ()
  | .number _ => .ok ()
  | .string s => if byteLen s > maxClusterTextBytes && nodes.any Schema.pattern then .error (rule path patternRule) else .ok ()
  | .array items => checkItems fold schema path (itemNodes schema nodes) 0 items
  | .object members => checkObject fold schema path nodes [] members

/-- The elements of an array, from an index on. -/
def checkItems (fold : Char → Char) (schema : SchemaDoc) (path : String) (nodes : List Schema) (i : ℕ) :
    List Doc → Except String Unit
  | [] => .ok ()
  | d :: ds => do
    checkValue fold schema (path ++ "/" ++ i.repr) nodes d
    checkItems fold schema path nodes (i + 1) ds

/-- `object`: the members of an object, after some that were seen. -/
def checkObject (fold : Char → Char) (schema : SchemaDoc) (path : String) (nodes : List Schema) (seen : List String) :
    List (String × Doc) → Except String Unit
  | [] => .ok ()
  | (name, d) :: ms =>
    if name ∈ seen then .error (rule path repeatedRule)
    else if name ∈ propNames nodes then do
      checkValue fold schema (path ++ "/" ++ escapePointer name) (propNodes schema nodes name) d
      checkObject fold schema path nodes (name :: seen) ms
    else
      match (propNames nodes).find? fun p => equalFold fold p name with
      | some p => .error (rule path (caseRule p))
      | none => do
        checkValue fold schema (path ++ "/*") (extraNodes schema nodes) d
        checkObject fold schema path nodes (name :: seen) ms

end

/-- `checkMembers`. -/
def checkMembers (fold : Char → Char) (schema : SchemaDoc) (doc : Doc) : Except String Unit :=
  checkValue fold schema "" (expand schema schema.root) doc

/-! ## Readers -/

/-- `decodeReport`, `findingKey`, `reportTarget`: a member by its exact name, the last one where it is repeated. -/
def exactMember (ms : List (String × Doc)) (name : String) : Option Doc := ((ms.filter (·.1 = name)).getLast?).map Prod.snd

/-- The field that `encoding/json` decodes a member into: the one of its name, or else one that differs in case. -/
def fieldFor (fold : Char → Char) (fields : List String) (name : String) : Option String :=
  if name ∈ fields then some name else fields.find? fun p => equalFold fold p name

/-- What `encoding/json` decodes into a field of a struct: the last member that it takes for it. -/
def structMember (fold : Char → Char) (fields : List String) (ms : List (String × Doc)) (field : String) : Option Doc :=
  ((ms.filter fun m => fieldFor fold fields m.1 = some field).getLast?).map Prod.snd

/-! ## Places -/

/-- A step into a document, by index. -/
inductive Place where
  | item (i : ℕ)
  | member (i : ℕ)
  deriving DecidableEq

/-- What is at the end of some steps. -/
def Doc.get : List Place → Doc → Option Doc
  | [], d => some d
  | .item i :: places, .array items => (items[i]?).bind (Doc.get places)
  | .member i :: places, .object ms => (ms[i]?).bind fun m => Doc.get places m.2
  | _ :: _, _ => none

/-- What is at the end of some steps, and the schema objects that apply to it. -/
def locate (schema : SchemaDoc) : List Place → List Schema → Doc → Option (List Schema × Doc)
  | [], nodes, d => some (nodes, d)
  | .item i :: places, nodes, .array items => (items[i]?).bind (locate schema places (itemNodes schema nodes))
  | .member i :: places, nodes, .object ms =>
    (ms[i]?).bind fun m => locate schema places (memberNodes schema nodes m.1) m.2
  | _ :: _, _, _ => none

/-! ## What an accepted report is -/

/-- What the check finds at a place: distinct names, none but a declared one like a declared one, and strings that keep the
form they are given. -/
def WellNamed (fold : Char → Char) (nodes : List Schema) : Doc → Prop
  | .object ms => (ms.map Prod.fst).Nodup ∧
    ∀ m ∈ ms, ∀ p ∈ propNames nodes, equalFold fold p m.1 = true → m.1 ∈ propNames nodes
  | .string s => nodes.any Schema.pattern = true → byteLen s ≤ maxClusterTextBytes
  | _ => True

/-- One check after another passes if both do. -/
theorem except_seq_ok {a b : Except String Unit} : (do a; b) = .ok () ↔ a = .ok () ∧ b = .ok () := by
  cases a <;> simp [bind, Except.bind]

variable {fold : Char → Char} {schema : SchemaDoc} {d' d : Doc} {ms : List (String × Doc)} {path : String}

/-- Elements that pass are each judged by the elements' schema. -/
theorem checkItems_ok {nodes : List Schema} {items : List Doc} (i : ℕ)
    (h : checkItems fold schema path nodes i items = .ok ()) :
    ∀ d ∈ items, ∃ place, checkValue fold schema place nodes d = .ok () := by
  induction items generalizing i with
  | nil => simp
  | cons d ds ih =>
    rw [checkItems, except_seq_ok] at h
    exact List.forall_mem_cons.mpr ⟨⟨_, h.1⟩, ih (i + 1) h.2⟩

/-- Members that pass are not repeated, are declared if they are like a declared one, and are each judged by their schema. -/
theorem checkObject_ok {nodes : List Schema} {seen : List String}
    (h : checkObject fold schema path nodes seen ms = .ok ()) :
    (ms.map Prod.fst).Nodup ∧ ∀ m ∈ ms, m.1 ∉ seen ∧
      (∀ p ∈ propNames nodes, equalFold fold p m.1 = true → m.1 ∈ propNames nodes) ∧
      ∃ place, checkValue fold schema place (memberNodes schema nodes m.1) m.2 = .ok () := by
  induction ms generalizing seen with
  | nil => simp
  | cons m ms ih =>
    obtain ⟨name, d⟩ := m
    rw [checkObject] at h
    split at h
    · simp at h
    rename_i hunseen
    -- Declared or not, the value passes and so do the members after it.
    have hparts : (∀ p ∈ propNames nodes, equalFold fold p name = true → name ∈ propNames nodes) ∧
        (∃ place, checkValue fold schema place (memberNodes schema nodes name) d = .ok ()) ∧
        checkObject fold schema path nodes (name :: seen) ms = .ok () := by
      by_cases hdeclared : name ∈ propNames nodes
      · rw [if_pos hdeclared, except_seq_ok] at h
        rw [memberNodes, if_pos hdeclared]
        exact ⟨fun _ _ _ => hdeclared, ⟨_, h.1⟩, h.2⟩
      · rw [if_neg hdeclared] at h
        split at h
        · simp at h
        · rename_i hnone
          rw [except_seq_ok] at h
          rw [memberNodes, if_neg hdeclared]
          rw [List.find?_eq_none] at hnone
          exact ⟨fun p hp hfold => absurd hfold (hnone p hp), ⟨_, h.1⟩, h.2⟩
    obtain ⟨hlike, hvalue, hrest⟩ := hparts
    obtain ⟨hnodup, hms⟩ := ih hrest
    refine ⟨?_, List.forall_mem_cons.mpr ⟨⟨hunseen, hlike, hvalue⟩, fun m hm => ?_⟩⟩
    · rw [List.map_cons, List.nodup_cons]
      refine ⟨fun hmem => ?_, hnodup⟩
      obtain ⟨m, hm, hname⟩ := List.mem_map.mp hmem
      exact (hms m hm).1 (by rw [hname]; exact List.mem_cons_self)
    · obtain ⟨hnot, hdecl, hval⟩ := hms m hm
      exact ⟨fun hmem => hnot (List.mem_cons_of_mem _ hmem), hdecl, hval⟩

/-- The check judges every place of a value. -/
theorem checkValue_ok {nodes : List Schema} (h : checkValue fold schema path nodes d = .ok ()) {places : List Place}
    {nodes' : List Schema} (hat : locate schema places nodes d = some (nodes', d')) : WellNamed fold nodes' d' := by
  induction d using Doc.induct generalizing path nodes places with
  | null | bool | number =>
    cases places with
    | nil => cases hat; trivial
    | cons place places => cases place <;> simp [locate] at hat
  | string s =>
    cases places with
    | nil =>
      cases hat
      intro hpattern
      rw [checkValue] at h
      by_contra hlong
      rw [if_pos (by simp [hpattern, not_le.mp hlong])] at h
      simp at h
    | cons place places => cases place <;> simp [locate] at hat
  | array items ih =>
    rw [checkValue] at h
    cases places with
    | nil => cases hat; trivial
    | cons place places =>
      cases place with
      | member i => simp [locate] at hat
      | item i =>
        simp only [locate, Option.bind_eq_some_iff] at hat
        obtain ⟨d, hd, hat⟩ := hat
        obtain ⟨at', hcheck⟩ := checkItems_ok 0 h d (List.mem_of_getElem? hd)
        exact ih d (List.mem_of_getElem? hd) hcheck hat
  | object ms ih =>
    rw [checkValue] at h
    obtain ⟨hnodup, hms⟩ := checkObject_ok h
    cases places with
    | nil =>
      cases hat
      exact ⟨hnodup, fun m hm => (hms m hm).2.1⟩
    | cons place places =>
      cases place with
      | item i => simp [locate] at hat
      | member i =>
        simp only [locate, Option.bind_eq_some_iff] at hat
        obtain ⟨m, hm, hat⟩ := hat
        obtain ⟨-, -, at', hcheck⟩ := hms m (List.mem_of_getElem? hm)
        exact ih m (List.mem_of_getElem? hm) hcheck hat

/-- A member that is not repeated is the one that is read, first or last. -/
theorem lookup_eq_exactMember (h : (ms.map Prod.fst).Nodup) (name : String) :
    ms.lookup name = exactMember ms name := by
  induction ms with
  | nil => rfl
  | cons m ms ih =>
    obtain ⟨k, d⟩ := m
    rw [List.map_cons, List.nodup_cons] at h
    rw [List.lookup_cons, exactMember]
    by_cases heq : name = k
    · subst heq
      -- No member after it has its name.
      have hnone : ms.filter (fun m => decide (m.1 = name)) = [] := by
        rw [List.filter_eq_nil_iff]
        intro m hm hname
        rw [decide_eq_true_eq] at hname
        exact h.1 (List.mem_map.mpr ⟨m, hm, hname⟩)
      simp [hnone]
    · have hne : ¬ k = name := fun he => heq he.symm
      rw [beq_eq_false_iff_ne.mpr heq, List.filter_cons_of_neg (by simpa using hne)]
      exact ih h.2

/-- Fields that no other declared name is like. -/
def FoldsApart (fold : Char → Char) (nodes : List Schema) (fields : List String) : Prop :=
  ∀ field ∈ fields, field ∈ propNames nodes ∧ ∀ p ∈ propNames nodes, equalFold fold field p = true → p = field

/-- Where the names are as the check wants them, a struct is decoded by exact names. -/
theorem structMember_eq_exactMember {nodes : List Schema} (h : WellNamed fold nodes (.object ms)) {fields : List String}
    (hfields : FoldsApart fold nodes fields) {name : String} (hname : name ∈ fields) :
    structMember fold fields ms name = exactMember ms name := by
  have hsame : ∀ m ∈ ms, decide (fieldFor fold fields m.1 = some name) = decide (m.1 = name) := by
    intro m hm
    rw [decide_eq_decide, fieldFor]
    split_ifs with hfield
    · exact Option.some_inj
    · refine ⟨fun hfind => ?_, fun heq => absurd (heq ▸ hname) hfield⟩
      have hlike : equalFold fold name m.1 = true := by simpa using List.find?_some hfind
      obtain ⟨hdeclared, hapart⟩ := hfields name hname
      exact hapart m.1 (h.2 m hm name hdeclared hlike) hlike
  rw [structMember, exactMember, List.filter_congr hsame]

/-! ## The marked report -/

/-- The element at a place of a related list is related to the one at that place. -/
theorem getElem?_of_forall₂ {α β : Type} {R : α → β → Prop} {l : List α} {l' : List β} (h : List.Forall₂ R l l') {i : ℕ} {a : α}
    (ha : l[i]? = some a) : ∃ b, l'[i]? = some b ∧ R a b := by
  induction h generalizing i with
  | nil => simp at ha
  | cons hab _ ih =>
    cases i with
    | zero =>
      rw [List.getElem?_cons_zero, Option.some_inj] at ha
      exact ⟨_, rfl, ha ▸ hab⟩
    | succ i =>
      rw [List.getElem?_cons_succ] at ha ⊢
      exact ih ha

/-- A copy has a copy at every place. -/
theorem Marks.get {d out : Doc} (h : Marks d out) {places : List Place} (hat : d.get places = some d') :
    ∃ out', out.get places = some out' ∧ Marks d' out' := by
  induction places generalizing d out with
  | nil =>
    cases hat
    exact ⟨out, rfl, h⟩
  | cons place places ih =>
    cases h with
    | null | bool | number | string => cases place <;> simp [Doc.get] at hat
    | array h =>
      cases place with
      | member i => simp [Doc.get] at hat
      | item i =>
        simp only [Doc.get, Option.bind_eq_some_iff] at hat ⊢
        obtain ⟨a, ha, hat⟩ := hat
        obtain ⟨b, hb, hmarks⟩ := getElem?_of_forall₂ h ha
        obtain ⟨out', hout, hmarks'⟩ := ih hmarks hat
        exact ⟨out', ⟨b, hb, hout⟩, hmarks'⟩
    | object names h =>
      cases place with
      | item i => simp [Doc.get] at hat
      | member i =>
        simp only [Doc.get, Option.bind_eq_some_iff] at hat ⊢
        obtain ⟨a, ha, hat⟩ := hat
        obtain ⟨b, hb, hmarks⟩ := getElem?_of_forall₂ h (by rw [List.getElem?_map, ha]; rfl)
        rw [List.getElem?_map, Option.map_eq_some_iff] at hb
        obtain ⟨m, hm, rfl⟩ := hb
        obtain ⟨out', hout, hmarks'⟩ := ih hmarks hat
        exact ⟨out', ⟨m, hm, hout⟩, hmarks'⟩

/-- A name that is not like a cut one. -/
def Unmarked (name : String) : Prop := byteLen name ≤ maxClusterTextBytes ∧ hasSuffix name clusterTextCutMark = false

/-- A name without the marks of a cut one stands where it stood, and nowhere else. -/
theorem Shown.eq_iff {p : String × String} (h : Shown p) {name : String} (hname : Unmarked name) : p.2 = name ↔ p.1 = name := by
  obtain heq | ⟨hmark, hform⟩ := h
  · rw [heq]
  · refine ⟨fun h => ?_, fun h => ?_⟩
    · rw [h, hname.2] at hmark
      simp at hmark
    · rw [h, quoteOutside_of_le hname.1, hname.2] at hform
      simp at hform

/-- What is read by such a name of a copy is a copy of what was read. -/
theorem exactMember_marks {ms ms' : List (String × Doc)} (hnames : ∀ p ∈ (ms.map Prod.fst).zip (ms'.map Prod.fst), Shown p)
    (h : List.Forall₂ Marks (ms.map Prod.snd) (ms'.map Prod.snd)) {name : String} (hname : Unmarked name) :
    Option.Rel Marks (exactMember ms name) (exactMember ms' name) := by
  -- The members of the name are copies of each other, in their order.
  have hfiltered : List.Forall₂ (fun m m' : String × Doc => Marks m.2 m'.2)
      (ms.filter (·.1 = name)) (ms'.filter (·.1 = name)) := by
    induction ms generalizing ms' with
    | nil =>
      obtain rfl : ms' = [] := by simpa using h
      exact .nil
    | cons m ms ih =>
      cases ms' with
      | nil => simp at h
      | cons m' ms' =>
        rw [List.map_cons, List.map_cons, List.forall₂_cons] at h
        rw [List.map_cons, List.map_cons, List.zip_cons_cons, List.forall_mem_cons] at hnames
        have hiff : m'.1 = name ↔ m.1 = name := hnames.1.eq_iff hname
        have hrest := ih hnames.2 h.2
        by_cases hm : m.1 = name
        · rw [List.filter_cons_of_pos (by simpa using hm), List.filter_cons_of_pos (by simpa using hiff.mpr hm)]
          exact .cons h.1 hrest
        · rw [List.filter_cons_of_neg (by simpa using hm), List.filter_cons_of_neg (by simpa using fun he => hm (hiff.mp he))]
          exact hrest
  rw [exactMember, exactMember, List.getLast?_eq_getElem?, List.getLast?_eq_getElem?, ← hfiltered.length_eq]
  cases hlast : (ms.filter (·.1 = name))[(ms.filter (·.1 = name)).length - 1]? with
  | none =>
    have hnone : (ms'.filter (·.1 = name))[(ms.filter (·.1 = name)).length - 1]? = none := by
      rw [List.getElem?_eq_none_iff] at hlast ⊢
      rw [← hfiltered.length_eq]
      exact hlast
    rw [hnone]
    exact .none
  | some m =>
    obtain ⟨m', hm', hmarks⟩ := getElem?_of_forall₂ hfiltered hlast
    rw [hm']
    exact .some hmarks

/-- Where a place is, the document has what is there. -/
theorem get_of_locate {places : List Place} {nodes nodes' : List Schema}
    (h : locate schema places nodes d = some (nodes', d')) : d.get places = some d' := by
  induction places generalizing nodes d with
  | nil =>
    cases h
    rfl
  | cons place places ih =>
    cases place with
    | item i =>
      cases d with
      | array items =>
        simp only [locate, Doc.get, Option.bind_eq_some_iff] at h ⊢
        obtain ⟨a, ha, h⟩ := h
        exact ⟨a, ha, ih h⟩
      | null | bool | number | string | object => simp [locate] at h
    | member i =>
      cases d with
      | object ms =>
        simp only [locate, Doc.get, Option.bind_eq_some_iff] at h ⊢
        obtain ⟨m, hm, h⟩ := h
        exact ⟨m, hm, ih h⟩
      | null | bool | number | string | array => simp [locate] at h

/-- A report that `checkMembers` accepts reads one way. At every place of it, whichever fields a decoder has among those that
are declared there, what it decodes by case is what is there by the exact name, first and last alike. Marking its outside text
changes no string that has a form, and a name that is not like a cut one reads a copy of what it read. -/
theorem accepted_reports_read_one_way (fold : Char → Char) (schema : SchemaDoc) (doc : Doc) (hsize : doc.names.length < 2 ^ 63)
    (h : checkMembers fold schema doc = .ok ()) (places : List Place) (nodes : List Schema) (d : Doc)
    (hat : locate schema places (expand schema schema.root) doc = some (nodes, d)) :
    ∃ d', (markClusterText doc).1.get places = some d' ∧ Marks d d' ∧
      (∀ s, d = .string s → nodes.any Schema.pattern = true → d' = d) ∧
      ∀ ms, d = .object ms → ∃ ms', d' = .object ms' ∧
        (∀ fields, FoldsApart fold nodes fields → ∀ name ∈ fields,
          structMember fold fields ms name = exactMember ms name ∧ ms.lookup name = exactMember ms name) ∧
        ∀ name, Unmarked name → Option.Rel Marks (exactMember ms name) (exactMember ms' name) := by
  have hmarks : Marks doc (markClusterText doc).1 := markClusterText_fst hsize ▸ (copied doc).marks "" "" true {} hsize
  obtain ⟨d', hd', hcopy⟩ := hmarks.get (get_of_locate hat)
  have hnamed : WellNamed fold nodes d := checkValue_ok h hat
  refine ⟨d', hd', hcopy, ?_, ?_⟩
  · rintro s rfl hpattern
    cases hcopy
    rw [quoteOutside_of_le (hnamed hpattern)]
  · rintro ms rfl
    cases hcopy with
    | object names hvalues =>
      rename_i ms'
      refine ⟨ms', rfl, fun fields hfields name hname => ?_, fun name hname => exactMember_marks names.marked hvalues hname⟩
      exact ⟨structMember_eq_exactMember hnamed hfields hname, lookup_eq_exactMember hnamed.1 name⟩

/-- The part of `api/report.schema.json` that names the target and the findings' severities. -/
def targetSchema : SchemaDoc where
  root := .node none []
    [("target", .node (some "#/$defs/minor") [] [] none none false),
      ("findings", .node none [] [] (some (.node (some "#/$defs/finding") [] [] none none false)) none false)] none none false
  defs := [("minor", .node none [] [] none none true),
    ("finding", .node none [] [("severity", .node none [] [] none none false)] none none false)]

/-- A report of one finding, with a member that the schema does not name. -/
def oneFinding : Doc :=
  .object [("target", .string "1.31"), ("findings", .array [.object [("severity", .string "blocker"), ("x", .null)]])]

/-- The schema objects of the finding in the report of one finding. -/
def findingNodes : List Schema :=
  [.node (some "#/$defs/finding") [] [] none none false,
    .node none [] [("severity", .node none [] [] none none false)] none none false]

/-- A report of one finding that is accepted: its finding's severity is read by its name and as a struct's field alike, in
the report and in what is shown of it, and its target, which has a form, is shown as it is. -/
theorem accepted_reports_read_one_way_oneFinding :
    checkMembers Char.toLower targetSchema oneFinding = .ok () ∧
      locate targetSchema [.member 1, .item 0] (expand targetSchema targetSchema.root) oneFinding =
        some (findingNodes, .object [("severity", .string "blocker"), ("x", .null)]) ∧
      structMember Char.toLower ["severity"] [("severity", .string "blocker"), ("x", .null)] "severity" =
        exactMember [("severity", .string "blocker"), ("x", .null)] "severity" ∧
      (∃ ms', (markClusterText oneFinding).1.get [.member 1, .item 0] = some (.object ms') ∧
        Option.Rel Marks (some (.string "blocker")) (exactMember ms' "severity")) ∧
      (markClusterText oneFinding).1.get [.member 0] = some (.string "1.31") := by
  have hcheck : checkMembers Char.toLower targetSchema oneFinding = .ok () := rfl
  have hat : locate targetSchema [.member 1, .item 0] (expand targetSchema targetSchema.root) oneFinding =
      some (findingNodes, .object [("severity", .string "blocker"), ("x", .null)]) := rfl
  have htarget : locate targetSchema [.member 0] (expand targetSchema targetSchema.root) oneFinding =
      some ([.node (some "#/$defs/minor") [] [] none none false, .node none [] [] none none true], .string "1.31") := rfl
  obtain ⟨d', hd', -, -, hobject⟩ :=
    accepted_reports_read_one_way Char.toLower targetSchema oneFinding (by decide) hcheck _ _ _ hat
  obtain ⟨shown, hshown, -, hform, -⟩ :=
    accepted_reports_read_one_way Char.toLower targetSchema oneFinding (by decide) hcheck _ _ _ htarget
  obtain ⟨ms', rfl, hfields, hread⟩ := hobject _ rfl
  have hapart : FoldsApart Char.toLower findingNodes ["severity"] := by
    unfold FoldsApart
    decide
  refine ⟨hcheck, hat, (hfields _ hapart "severity" (by simp)).1, ⟨ms', hd', hread "severity" ⟨by decide, by decide⟩⟩, ?_⟩
  rw [hshown, hform _ rfl (by decide)]

-- A member that differs from the target only in case is refused, and the reason quotes the schema alone.
example : checkMembers Char.toLower targetSchema (.object [("Target", .string "1.30"), ("target", .string "1.31")]) =
    .error ("it has a member name that differs only in case from the property \"target\" of api/report.schema.json " ++
      "(rule: member names match the schema's exactly) (at the top level)") := by decide +kernel

end UpgradeScope.Mcp
