import UpgradeScope.Collect.ManifestRuns
import UpgradeScope.Lib.Reorder

/-!
# What splitting a manifest leaves of its objects

A text that starts with a separator, put behind a text that ends with a line, adds its own objects to it,
so many lines further down (`yamlObjects_append`). So the objects of a manifest, and those of each run of
its documents, are the objects of the documents one by one, and `manifestAPIs` counts the objects the
stream parser finds in the whole manifest, less those of the documents over a limit.
-/

namespace UpgradeScope.Collect

open Utf8

/-- The first line of a text is a separator. -/
def StartsWithSeparator (x : Bytes) : Prop := (cutSeparator (bytesAt x 0 (lineEnd x 0))).isSome = true

section Append

variable {x y : Bytes} (D : StreamDecoder)

theorem newlines_append (x y : Bytes) : newlines (x ++ y) = newlines x + newlines y := List.count_append

theorem down_down (m n : ℕ) (o : ManifestObject) : (o.down n).down m = o.down (m + n) := by
  have hline : o.ref.line + (n : ℤ) + m = o.ref.line + ((m + n : ℕ) : ℤ) := by
    push_cast
    omega
  unfold ManifestObject.down
  dsimp only
  rw [hline]

theorem yamlDocument_append_left (y : Bytes) {doc : ℕ × ℕ} (hstart : doc.1 ≤ x.length) (hstop : doc.2 ≤ x.length) :
    yamlDocument D (x ++ y) doc = yamlDocument D x doc := by
  unfold yamlDocument lineOf
  rw [bytesAt_append_left hstop, List.take_append_of_le_length hstart]

theorem yamlDocument_append_right (x y : Bytes) (doc : ℕ × ℕ) :
    yamlDocument D (x ++ y) (x.length + doc.1, x.length + doc.2) = (yamlDocument D y doc).map (ManifestObject.down (newlines x)) := by
  have hline : lineOf (x ++ y) (x.length + doc.1) - 1 = newlines x + (lineOf y doc.1 - 1) := by
    unfold lineOf
    rw [List.take_length_add_append, newlines_append]
    omega
  unfold yamlDocument
  dsimp only
  rw [bytesAt_append_right, hline]
  split_ifs
  · rfl
  · rw [List.map_map]
    exact List.map_congr_left fun o _ => (down_down _ _ o).symm

/-- An empty document holds nothing. -/
theorem yamlDocument_empty (data : Bytes) (off : ℕ) : yamlDocument D data (off, off) = [] := by
  unfold yamlDocument
  rw [bytesAt_self, if_pos (by decide +kernel)]

/-- The documents of a text are inside it. -/
theorem documents_le {data : Bytes} {docStart off : ℕ} (hstart : docStart ≤ data.length) :
    ∀ doc ∈ (yamlLines data docStart off).documents, doc.1 ≤ data.length ∧ doc.2 ≤ data.length := by
  fun_induction yamlLines data docStart off with
  | case1 docStart off h stop rest hsep hbad =>
    intro doc hdoc
    rw [List.mem_singleton.mp hdoc]
    exact ⟨hstart, le_of_lt h⟩
  | case2 docStart off h stop rest hsep hbad cut ih =>
    intro doc hdoc
    rcases List.mem_cons.mp hdoc with rfl | hdoc
    · exact ⟨hstart, le_of_lt h⟩
    · exact ih (lt_lineEnd h).2 doc hdoc
  | case3 docStart off h stop hsep ih => exact ih hstart
  | case4 docStart off h =>
    intro doc hdoc
    rw [List.mem_singleton.mp hdoc]
    exact ⟨hstart, le_rfl⟩

/-- The last document of a text without an invalid separator ends with it. -/
theorem getLast?_documents {data : Bytes} {docStart off : ℕ} (hvalid : (yamlLines data docStart off).invalid = none) :
    (yamlLines data docStart off).documents.getLast? = some ((yamlLines data docStart off).lastStart, data.length) := by
  fun_induction yamlLines data docStart off with
  | case1 docStart off h stop rest hsep hbad => exact absurd hvalid (Option.some_ne_none _)
  | case2 docStart off h stop rest hsep hbad cut ih =>
    have hcut := documents_ne_nil data stop stop
    unfold YamlCut.lastStart at ih ⊢
    dsimp only
    rw [List.getLast?_cons_of_ne_nil hcut]
    exact ih hvalid
  | case3 docStart off h stop hsep ih => exact ih hvalid
  | case4 docStart off h => rfl

/-- A text that starts with a separator holds something. -/
theorem StartsWithSeparator.length_pos (h : StartsWithSeparator x) : 0 < x.length := by
  rw [List.length_pos_iff]
  rintro rfl
  exact absurd (show (cutSeparator []).isSome = true from h) (by decide)

/-- A text behind a separator adds its own documents. -/
theorem yamlStream_append (hx : Complete x) (hvalid : (yamlStream x 0).invalid = none) (hsep : StartsWithSeparator y) :
    (yamlStream (x ++ y) 0).documents =
      (yamlStream x 0).documents ++ ((yamlStream y 0).shift x.length).documents.tail := by
  obtain ⟨rest, hrest⟩ := Option.isSome_iff_exists.mp hsep
  have hy := hsep.length_pos
  have hlast := getLast?_documents hvalid
  have hline := line_append_right x y 0
  have hend := lineEnd_append_right x y 0
  rw [Nat.add_zero] at hline hend
  have hsplit : (yamlStream x 0).documents = (yamlStream x 0).documents.dropLast ++ [((yamlStream x 0).lastStart, x.length)] :=
    (List.dropLast_append_getLast? _ hlast).symm
  have hjoin : yamlLines (x ++ y) (yamlLines x 0 0).lastStart x.length = _ :=
    yamlLines_some (by rw [List.length_append]; omega) (hline ▸ hrest)
  have hsecond : yamlLines y 0 0 = _ := yamlLines_some hy hrest
  unfold yamlStream at hvalid hsplit ⊢
  rw [yamlLines_append_left hx y (Nat.zero_le _) hvalid]
  dsimp only
  rw [hjoin, hsecond]
  split_ifs with hbad
  · rw [← hsplit]
    exact (List.append_nil _).symm
  · rw [hend, yamlLines_append_right]
    dsimp only
    rw [List.append_cons, ← hsplit]
    rfl

/-- A text behind a separator adds its own objects, so many lines further down. -/
theorem yamlObjects_append (hx : Complete x) (hvalid : (yamlStream x 0).invalid = none) (hsep : StartsWithSeparator y) :
    yamlObjects D (x ++ y) = yamlObjects D x ++ (yamlObjects D y).map (ManifestObject.down (newlines x)) := by
  unfold yamlObjects
  rw [yamlStream_append hx hvalid hsep, List.flatMap_append]
  congr 1
  · refine List.flatMap_congr fun doc hdoc => ?_
    obtain ⟨hstart, hstop⟩ := documents_le (Nat.zero_le _) doc hdoc
    exact yamlDocument_append_left D y hstart hstop
  · -- What is before the separator of the second text is empty.
    obtain ⟨docs, hdocs⟩ : ∃ docs, (yamlStream y 0).documents = (0, 0) :: docs := by
      obtain ⟨rest, hrest⟩ := Option.isSome_iff_exists.mp hsep
      rw [yamlStream, yamlLines_some hsep.length_pos hrest]
      split_ifs
      · exact ⟨_, rfl⟩
      · exact ⟨_, rfl⟩
    rw [YamlCut.shift, hdocs, List.map_cons, List.tail_cons, List.flatMap_cons, yamlDocument_empty, List.nil_append,
      List.flatMap_map, List.map_flatMap]
    exact List.flatMap_congr fun doc _ => yamlDocument_append_right D x y doc

end Append

/-! ## One line -/

section Line

variable {data : Bytes} {off : ℕ}

/-- A range of bytes is cut in two. -/
theorem bytesAt_append {start mid stop : ℕ} (h : start ≤ mid) (h' : mid ≤ stop) :
    bytesAt data start stop = bytesAt data start mid ++ bytesAt data mid stop := by
  have hfirst : bytesAt data start mid = (bytesAt data start stop).take (mid - start) := by
    unfold bytesAt
    rw [List.drop_take, List.drop_take, List.take_take]
    congr 1
    omega
  have hsecond : bytesAt data mid stop = (bytesAt data start stop).drop (mid - start) := by
    rw [drop_bytesAt]
    congr 1
    omega
  rw [hfirst, hsecond, List.take_append_drop]

/-- A line is one line, and ends the text or with a newline. -/
theorem line_spec (h : off < data.length) :
    let line := bytesAt data off (lineEnd data off)
    line ≠ [] ∧ lineEnd line 0 = line.length ∧
      (lineEnd data off < data.length → line.getLast? = some 0x0a ∧ newlines line = 1) := by
  intro line
  have hne : line ≠ [] := by
    refine List.ne_nil_of_length_pos ?_
    rw [length_bytesAt (lt_lineEnd h).2]
    have := (lt_lineEnd h).1
    omega
  refine ⟨hne, ?_⟩
  have hline : line = (data.drop off).take (lineEnd data off - off) := List.drop_take
  cases hfind : (data.drop off).findIdx? (· = 0x0a) with
  | none =>
    have hend : lineEnd data off = data.length := by
      unfold lineEnd
      rw [hfind]
    rw [hend, ← List.length_drop, List.take_length] at hline
    refine ⟨?_, fun hlt => absurd hlt (by omega)⟩
    unfold lineEnd
    rw [List.drop_zero, hline, hfind]
  | some k =>
    have hend : lineEnd data off - off = k + 1 := by
      unfold lineEnd
      rw [hfind]
      dsimp only
      omega
    obtain ⟨hk, hnewline, hbefore⟩ := List.findIdx?_eq_some_iff_getElem.mp hfind
    -- The line is what is before its newline, and that.
    have hsplit : line = (data.drop off).take k ++ [0x0a] := by
      rw [hline, hend, List.take_succ_eq_append_getElem hk, of_decide_eq_true hnewline]
    have hnone : ∀ b ∈ (data.drop off).take k, b ≠ 0x0a := by
      intro b hb
      obtain ⟨j, hj, rfl⟩ := List.mem_take_iff_getElem.mp hb
      exact of_decide_eq_false (Bool.eq_false_iff.mpr (hbefore j (by omega)))
    refine ⟨?_, fun _ => ⟨by rw [hsplit, List.getLast?_concat], ?_⟩⟩
    · have hfirst : ((data.drop off).take k).findIdx? (· = 0x0a) = none := by
        rw [List.findIdx?_eq_none_iff]
        intro b hb
        exact decide_eq_false (hnone b hb)
      unfold lineEnd
      rw [List.drop_zero, hsplit, List.findIdx?_append, hfirst, List.length_append]
      simp
    · rw [newlines, hsplit, List.count_append, List.count_eq_zero.mpr fun hm => hnone _ hm rfl]
      rfl

/-- A line alone is cut as a stream: only an invalid separator ends it. -/
theorem yamlStream_line (h : off < data.length) :
    let line := bytesAt data off (lineEnd data off)
    (cutSeparator line = none → (yamlStream line 0).invalid = none) ∧
      ∀ rest, cutSeparator line = some rest → StartsWithSeparator line ∧
        if invalidRest rest then (yamlStream line 0).documents = [(0, 0)] else (yamlStream line 0).invalid = none := by
  intro line
  obtain ⟨hne, hend, -⟩ := line_spec h
  have hpos : 0 < line.length := List.length_pos_iff.mpr hne
  have hwhole : bytesAt line 0 (lineEnd line 0) = line := by
    rw [hend, bytesAt, List.take_length, List.drop_zero]
  refine ⟨fun hsep => ?_, fun rest hsep => ⟨?_, ?_⟩⟩
  · rw [yamlStream, yamlLines_none hpos (by rw [hwhole, hsep]), hend, yamlLines_end le_rfl]
  · rw [StartsWithSeparator, hwhole, hsep]
    rfl
  · have hcut : yamlLines line 0 0 = _ := yamlLines_some hpos (by rw [hwhole, hsep])
    unfold yamlStream
    rw [hcut]
    by_cases hbad : invalidRest rest = true
    · rw [if_pos hbad, if_pos hbad]
    · rw [if_neg hbad, if_neg hbad, hend, yamlLines_end le_rfl]

/-- The rest of a stream from a line on starts with the line. -/
theorem line_drop (h : off ≤ data.length) :
    bytesAt (data.drop off) 0 (lineEnd (data.drop off) 0) = bytesAt data off (lineEnd data off) := by
  have hsplit := line_append_right (data.take off) (data.drop off) 0
  rw [List.take_append_drop, List.length_take, min_eq_left h, Nat.add_zero] at hsplit
  exact hsplit.symm

end Line

section Texts

variable {x y : Bytes}

theorem Complete.append (hy : y.getLast? = some 0x0a) : Complete (x ++ y) := by
  right
  rw [List.getLast?_append, hy]
  rfl

theorem StartsWithSeparator.append (h : StartsWithSeparator x) (hx : Complete x ∨ y = []) : StartsWithSeparator (x ++ y) := by
  rcases hx with hx | rfl
  · rw [StartsWithSeparator, line_append_left hx h.length_pos]
    exact h
  · rwa [List.append_nil]

/-- Where a document starts makes no separator invalid. -/
theorem invalid_docStart (data : Bytes) (d d' off : ℕ) : (yamlLines data d off).invalid = (yamlLines data d' off).invalid := by
  fun_induction yamlLines data d off generalizing d' with
  | case1 d off h stop rest hsep hbad => rw [yamlLines_some h hsep, if_pos hbad]
  | case2 d off h stop rest hsep hbad cut ih => rw [yamlLines_some h hsep, if_neg hbad]
  | case3 d off h stop hsep ih =>
    rw [yamlLines_none h hsep]
    exact ih d'
  | case4 d off h => rw [yamlLines_end (not_lt.mp h)]

/-- Separators stay valid when texts without an invalid one are put together. -/
theorem valid_append (hx : Complete x) (hxv : (yamlStream x 0).invalid = none) (hyv : (yamlStream y 0).invalid = none) :
    (yamlStream (x ++ y) 0).invalid = none := by
  unfold yamlStream at hxv hyv ⊢
  have hjoin := yamlLines_append_right x y 0 0
  rw [Nat.add_zero] at hjoin
  rw [yamlLines_append_left hx y (Nat.zero_le _) hxv]
  dsimp only
  rw [invalid_docStart _ _ x.length, hjoin, YamlCut.shift, hyv]
  rfl

end Texts

/-! ## The documents of a manifest -/

/-- A document is a range of lines without an invalid separator. -/
structure Proper (data : Bytes) (d : Document) : Prop where
  le : d.start ≤ d.stop
  len : d.stop ≤ data.length
  valid : (yamlStream (d.text data) 0).invalid = none
  line : 1 ≤ d.line

/-- A document follows another: it starts with its separator where the other ends. -/
structure Follows (data : Bytes) (d e : Document) : Prop where
  start : e.start = d.stop
  line : e.line = d.line + newlines (d.text data)
  complete : Complete (d.text data)
  separator : StartsWithSeparator (e.text data)

/-- Documents that are all of a manifest that is read: the manifest ends with them, or an invalid separator follows. -/
structure Chained (data : Bytes) (docs : List Document) : Prop where
  /-- Each follows the one before. -/
  chain : docs.IsChain (Follows data)
  /-- Each is a range of lines. -/
  proper : ∀ d ∈ docs, Proper data d
  /-- Nothing behind them is read. -/
  rest : stopOf docs = data.length ∨
    (∀ d, docs.getLast? = some d → Complete (d.text data)) ∧ StartsWithSeparator (data.drop (stopOf docs)) ∧
      (yamlStream (data.drop (stopOf docs)) 0).documents = [(0, 0)]

/-- What is known of the document that is being read. -/
structure Reading (data : Bytes) (doc : Span) (line off : ℕ) : Prop where
  le : doc.start ≤ off
  len : off ≤ data.length
  complete : off < data.length → Complete (bytesAt data doc.start off) ∧ line = doc.line + newlines (bytesAt data doc.start off)
  valid : (yamlStream (bytesAt data doc.start off) 0).invalid = none
  pos : 1 ≤ doc.line

section Documents

variable {data : Bytes} {doc : Span} {line off : ℕ}

/-- A line that is no separator goes on with the document. -/
theorem Reading.next (h : Reading data doc line off) (hlt : off < data.length)
    (hsep : cutSeparator (bytesAt data off (lineEnd data off)) = none) (nodes : ℕ) :
    Reading data { doc with nodes := nodes } (line + 1) (lineEnd data off) := by
  obtain ⟨hcomplete, hline⟩ := h.complete hlt
  obtain ⟨-, -, hnewline⟩ := line_spec hlt
  obtain ⟨hnext, hlen⟩ := lt_lineEnd hlt
  have hsplit : bytesAt data doc.start (lineEnd data off) = _ := bytesAt_append h.le (le_of_lt hnext)
  refine ⟨le_trans h.le (le_of_lt hnext), hlen, fun hend => ?_, ?_, h.pos⟩
  · obtain ⟨hlast, hcount⟩ := hnewline hend
    refine ⟨?_, ?_⟩
    · rw [hsplit]
      exact Complete.append hlast
    · rw [hsplit, newlines_append, hcount, hline]
      rfl
  · rw [hsplit]
    exact valid_append hcomplete h.valid ((yamlStream_line hlt).1 hsep)

/-- A separator starts a document. -/
theorem reading_separator (hlt : off < data.length) {rest : Bytes}
    (hsep : cutSeparator (bytesAt data off (lineEnd data off)) = some rest) (hvalid : ¬ invalidRest rest = true) (hpos : 1 ≤ line) :
    Reading data ⟨off, line, 2⟩ (line + 1) (lineEnd data off) := by
  obtain ⟨-, -, hnewline⟩ := line_spec hlt
  obtain ⟨hnext, hlen⟩ := lt_lineEnd hlt
  have hcut := ((yamlStream_line hlt).2 rest hsep).2
  rw [if_neg hvalid] at hcut
  refine ⟨le_of_lt hnext, hlen, fun hend => ?_, hcut, hpos⟩
  obtain ⟨hlast, hcount⟩ := hnewline hend
  exact ⟨.inr hlast, by rw [hcount]⟩

/-- From an invalid separator on nothing is read. -/
theorem separator_drop (hlt : off < data.length) {rest : Bytes}
    (hsep : cutSeparator (bytesAt data off (lineEnd data off)) = some rest) (hbad : invalidRest rest = true) :
    StartsWithSeparator (data.drop off) ∧ (yamlStream (data.drop off) 0).documents = [(0, 0)] := by
  rw [← line_drop (le_of_lt hlt)] at hsep
  have hpos : 0 < (data.drop off).length := by
    rw [List.length_drop]
    omega
  refine ⟨by rw [StartsWithSeparator, hsep]; rfl, ?_⟩
  rw [yamlStream, yamlLines_some hpos hsep, if_pos hbad]

/-- The documents of a manifest from a line on follow one another. -/
theorem chained_documentsFrom (h : Reading data doc line off) :
    Chained data (documentsFrom data doc line off) ∧
      ∃ d ds, documentsFrom data doc line off = d :: ds ∧ d.start = doc.start ∧ d.line = doc.line ∧
        (StartsWithSeparator (bytesAt data doc.start off) → StartsWithSeparator (d.text data)) := by
  -- The cases of the loop: a separator ends the document, another line goes into it, the data ends.
  fun_induction documentsFrom data doc line off with
  | case1 doc line off hlt rest hsep ih =>
    obtain ⟨hcomplete, hline⟩ := h.complete hlt
    have hproper : Proper data ⟨doc.start, off, doc.line, line, doc.nodes⟩ := ⟨h.le, h.len, h.valid, h.pos⟩
    refine ⟨?_, _, _, rfl, rfl, rfl, id⟩
    -- A separator line with an invalid rest stops the stream parser, and the split with it.
    by_cases hbad : invalidRest rest = true
    · rw [if_pos hbad]
      refine ⟨List.isChain_singleton _, ?_, .inr ⟨?_, ?_⟩⟩
      · intro d hd
        rw [List.mem_singleton.mp hd]
        exact hproper
      · intro d hd
        rw [← Option.some.inj hd]
        exact hcomplete
      · exact separator_drop hlt hsep hbad
    · rw [if_neg hbad]
      obtain ⟨hchained, e, es, hes, hstart, heline, hseparator⟩ := ih (reading_separator hlt hsep hbad (by have := h.pos; omega))
      have hfollows : Follows data ⟨doc.start, off, doc.line, line, doc.nodes⟩ e :=
        ⟨hstart, heline.trans hline, hcomplete, hseparator ((yamlStream_line hlt).2 rest hsep).1⟩
      rw [hes] at hchained ⊢
      refine ⟨List.isChain_cons_cons.mpr ⟨hfollows, hchained.chain⟩, ?_, ?_⟩
      · intro d hd
        rcases List.mem_cons.mp hd with rfl | hd
        · exact hproper
        · exact hchained.proper d hd
      · rw [stopOf, List.getLast?_cons_of_ne_nil (List.cons_ne_nil _ _)]
        exact hchained.rest
  | case2 doc line off hlt hsep ih =>
    obtain ⟨hchained, d, ds, hdocs, hstart, hline, hseparator⟩ := ih (h.next hlt hsep _)
    refine ⟨hchained, d, ds, hdocs, hstart, hline, fun hcur => hseparator ?_⟩
    have hsplit : bytesAt data doc.start (lineEnd data off) = _ := bytesAt_append h.le (le_of_lt (lt_lineEnd hlt).1)
    rw [show ({ doc with nodes := doc.nodes + yamlNodeBound (bytesAt data off (lineEnd data off)) } : Span).start = doc.start from rfl,
      hsplit]
    exact hcur.append (.inl (h.complete hlt).1)
  | case3 doc line off hend =>
    obtain rfl : off = data.length := le_antisymm h.len (not_lt.mp hend)
    refine ⟨⟨List.isChain_singleton _, ?_, .inl rfl⟩, _, _, rfl, rfl, rfl, id⟩
    intro d hd
    rw [List.mem_singleton.mp hd]
    exact ⟨h.le, le_rfl, h.valid, h.pos⟩

/-- The documents of a manifest follow one another. -/
theorem chained_manifestDocuments (data : Bytes) : Chained data (manifestDocuments data) := by
  refine (chained_documentsFrom ⟨le_rfl, Nat.zero_le _, fun _ => ?_, ?_, le_rfl⟩).1
  · rw [bytesAt_self]
    exact ⟨.inl rfl, rfl⟩
  · rw [bytesAt_self, yamlStream, yamlLines_end (Nat.zero_le _)]

end Documents

/-! ## The objects of documents that follow each other -/

/-- The text of documents that follow each other. -/
def groupText (data : Bytes) (g : List Document) : Bytes := bytesAt data (startOf g) (stopOf g)

/-- The objects of a document, on their lines of the manifest. -/
def docObjects (D : StreamDecoder) (data : Bytes) (d : Document) : List ManifestObject :=
  (yamlObjects D (d.text data)).map (ManifestObject.down (d.line - 1))

section Groups

variable {data : Bytes} {g : List Document}

variable (D : StreamDecoder) {d e : Document} {x rest : Bytes}

/-- Documents that follow each other end behind where they start. -/
theorem start_le_stop (hchain : (d :: g).IsChain (Follows data)) (hproper : ∀ e ∈ d :: g, Proper data e) :
    d.stop ≤ stopOf (d :: g) := by
  induction g generalizing d with
  | nil => exact le_rfl
  | cons e g ih =>
    obtain ⟨hfollows, hrest⟩ := List.isChain_cons_cons.mp hchain
    have hle := ih hrest fun f hf => hproper f (List.mem_cons_of_mem _ hf)
    have he := (hproper e (List.mem_cons_of_mem _ List.mem_cons_self)).le
    rw [hfollows.start] at he
    rw [stopOf, List.getLast?_cons_of_ne_nil (List.cons_ne_nil _ _)]
    exact le_trans he hle

/-- The text of documents is that of the first and that of the others. -/
theorem groupText_cons (hchain : (d :: e :: g).IsChain (Follows data)) (hproper : ∀ f ∈ d :: e :: g, Proper data f) :
    groupText data (d :: e :: g) = d.text data ++ groupText data (e :: g) := by
  obtain ⟨hfollows, hrest⟩ := List.isChain_cons_cons.mp hchain
  have hle := start_le_stop hrest fun f hf => hproper f (List.mem_cons_of_mem _ hf)
  have he := (hproper e (List.mem_cons_of_mem _ List.mem_cons_self)).le
  have hd := (hproper d List.mem_cons_self).le
  have hstop : stopOf (d :: e :: g) = stopOf (e :: g) := by
    rw [stopOf, List.getLast?_cons_of_ne_nil (List.cons_ne_nil _ _)]
    rfl
  have hstart : startOf (e :: g) = d.stop := hfollows.start
  unfold groupText
  rw [hstop, hstart]
  refine bytesAt_append hd ?_
  rw [← hfollows.start]
  exact le_trans he hle

/-- The text of documents that start with a separator does. -/
theorem separator_groupText (hchain : (e :: g).IsChain (Follows data)) (hproper : ∀ f ∈ e :: g, Proper data f)
    (hsep : StartsWithSeparator (e.text data))
    (hrest : rest = [] ∨ ∀ d, (e :: g).getLast? = some d → Complete (d.text data)) :
    StartsWithSeparator (groupText data (e :: g) ++ rest) := by
  cases g with
  | nil => exact hsep.append (hrest.symm.imp_left fun h => h e rfl)
  | cons f g =>
    rw [groupText_cons hchain hproper, List.append_assoc]
    exact hsep.append (.inl (List.isChain_cons_cons.mp hchain).1.complete)

/-- The objects of documents that follow each other, and of what is not read behind them. -/
theorem objects_groupText (hchain : (d :: g).IsChain (Follows data)) (hproper : ∀ f ∈ d :: g, Proper data f)
    (hrest : rest = [] ∨ (∀ e, (d :: g).getLast? = some e → Complete (e.text data)) ∧ StartsWithSeparator rest ∧
      (yamlStream rest 0).documents = [(0, 0)]) :
    (yamlObjects D (groupText data (d :: g) ++ rest)).map (ManifestObject.down (d.line - 1)) =
      (d :: g).flatMap (docObjects D data) := by
  induction g generalizing d with
  | nil =>
    have hone : docObjects D data d = [d].flatMap (docObjects D data) := (List.flatMap_singleton _ d).symm
    rcases hrest with rfl | ⟨hcomplete, hsep, hnone⟩
    · rw [List.append_nil, ← hone]
      rfl
    · have hnothing : yamlObjects D rest = [] := by
        rw [yamlObjects, hnone, List.flatMap_singleton, yamlDocument_empty]
      rw [← hone, groupText]
      change (yamlObjects D (d.text data ++ rest)).map _ = _
      rw [yamlObjects_append D (hcomplete d rfl) (hproper d List.mem_cons_self).valid hsep, hnothing, List.map_nil, List.append_nil]
      rfl
  | cons e g ih =>
    obtain ⟨hfollows, hchain'⟩ := List.isChain_cons_cons.mp hchain
    have hproper' : ∀ f ∈ e :: g, Proper data f := fun f hf => hproper f (List.mem_cons_of_mem _ hf)
    have hlast : (d :: e :: g).getLast? = (e :: g).getLast? := List.getLast?_cons_of_ne_nil (List.cons_ne_nil _ _)
    rw [hlast] at hrest
    have hsep := separator_groupText hchain' hproper' hfollows.separator (hrest.imp_right fun h => h.1)
    -- The lines of the first document are those that the next one's are moved down by.
    have hline : d.line - 1 + newlines (d.text data) = e.line - 1 := by
      have := (hproper d List.mem_cons_self).line
      rw [hfollows.line]
      omega
    rw [groupText_cons hchain hproper, List.append_assoc,
      yamlObjects_append D hfollows.complete (hproper d List.mem_cons_self).valid hsep, List.map_append, List.flatMap_cons,
      ← ih hchain' hproper' hrest, List.map_map, ← hline]
    congr 1
    exact List.map_congr_left fun o _ => down_down _ _ o

/-- Behind the first of documents that follow each other, each starts with a separator. -/
theorem separator_of_mem (hchain : (d :: g).IsChain (Follows data)) :
    ∀ e ∈ g, StartsWithSeparator (e.text data) := by
  induction g generalizing d with
  | nil => simp
  | cons f g ih =>
    obtain ⟨hfollows, hrest⟩ := List.isChain_cons_cons.mp hchain
    intro e he
    rcases List.mem_cons.mp he with rfl | he
    · exact hfollows.separator
    · exact ih hrest e he

/-- The text of a document that is empty holds nothing. -/
theorem docObjects_of_empty (h : d.hasText = false) : docObjects D data d = [] := by
  have hnil : d.text data = [] := by
    have hle : d.stop ≤ d.start := not_lt.mp (of_decide_eq_false h)
    exact List.drop_eq_nil_of_le (by rw [List.length_take]; omega)
  rw [docObjects, hnil, yamlObjects, yamlStream, yamlLines_end (Nat.zero_le _), List.flatMap_singleton]
  exact congrArg _ (yamlDocument_empty D [] 0)

/-- The objects of a manifest are those of its documents. -/
theorem yamlObjects_eq (data : Bytes) :
    yamlObjects D data = ((manifestDocuments data).filter Document.hasText).flatMap (docObjects D data) := by
  have hchained := chained_manifestDocuments data
  obtain ⟨d, ds, hdocs, hstart, hline⟩ : ∃ d ds, manifestDocuments data = d :: ds ∧ d.start = 0 ∧ d.line = 1 := by
    rcases manifestDocuments_cases data with h | ⟨ds, hds, -⟩
    · obtain ⟨d, ds, hds⟩ := List.exists_cons_of_ne_nil (documentsFrom_ne_nil data ⟨0, 1, 2⟩ 1 0)
      rw [manifestDocuments, hds] at h
      exact ⟨d, ds, hds, h.1, h.2.1⟩
    · exact ⟨_, ds, hds, rfl, rfl⟩
  have hkept : ((manifestDocuments data).filter Document.hasText).flatMap (docObjects D data) =
      (manifestDocuments data).flatMap (docObjects D data) :=
    Sorting.flatMap_filter_of_nil (fun e he => docObjects_of_empty D he) _
  rw [hkept]
  rw [hdocs] at hchained ⊢
  have hrest : data.drop (stopOf (d :: ds)) = [] ∨ _ :=
    hchained.rest.imp_left fun h => List.drop_eq_nil_of_le (le_of_eq h.symm)
  rw [← objects_groupText D hchained.chain hchained.proper hrest, groupText, show startOf (d :: ds) = 0 from hstart, hline,
    bytesAt, List.drop_zero, List.take_append_drop]
  exact (List.map_id'' (fun o => by simp [ManifestObject.down]) _).symm

/-- A separator starts with its dashes. -/
theorem prefix_of_cutSeparator {line rest : Bytes} (h : cutSeparator line = some rest) : [0x2d, 0x2d, 0x2d] <+: line := by
  unfold cutSeparator at h
  split_ifs at h with hprefix
  exact List.isPrefixOf_iff_prefix.mp hprefix

/-- A text that starts with a separator starts with its first dash. -/
theorem StartsWithSeparator.head? (h : StartsWithSeparator x) : x.head? = some 0x2d := by
  obtain ⟨rest, hrest⟩ := Option.isSome_iff_exists.mp h
  obtain ⟨tail, htail⟩ := prefix_of_cutSeparator hrest
  have hhead := congrArg List.head? htail
  rw [bytesAt, List.drop_zero, List.head?_take] at hhead
  split_ifs at hhead with hzero
  · exact absurd hhead (by nofun)
  · exact hhead.symm

/-- What starts with a dash opens with it. -/
theorem head?_trimLeftSpace_dash (h : x.head? = some 0x2d) : (trimLeftSpace x).head? = some 0x2d := by
  obtain ⟨rest, rfl⟩ : ∃ rest, x = 0x2d :: rest := ⟨x.tail, List.eq_cons_of_mem_head? h⟩
  rw [trimLeftSpace, dif_neg]
  · rfl
  · rintro ⟨-, hs⟩
    rw [decodeRune_ascii (by decide)] at hs
    exact absurd hs (by decide)

/-- A blank text holds no object. -/
theorem yamlObjects_of_blank (h : trimSpace x = []) : yamlObjects D x = [] := by
  have hleft : trimLeftSpace x = [] := by
    have hhead := head?_trimSpace x
    rw [h] at hhead
    exact List.head?_eq_none_iff.mp hhead.symm
  have hdash : (0x2d : UInt8) ∉ x := notMem_of_trimLeftSpace_eq_nil (by decide) (by decide) hleft
  have hnone : ∀ start stop rest, cutSeparator (bytesAt x start stop) ≠ some rest := by
    intro start stop rest hsep
    have hmem : (0x2d : UInt8) ∈ bytesAt x start stop := (prefix_of_cutSeparator hsep).subset List.mem_cons_self
    exact hdash (List.mem_of_mem_take (List.mem_of_mem_drop hmem))
  have hcut : ∀ docStart off, (yamlLines x docStart off).documents = [(docStart, x.length)] := by
    intro docStart off
    fun_induction yamlLines x docStart off with
    | case1 docStart off hlt stop rest hsep hbad => exact absurd hsep (hnone _ _ _)
    | case2 docStart off hlt stop rest hsep hbad cut ih => exact absurd hsep (hnone _ _ _)
    | case3 docStart off hlt stop hsep ih => exact ih
    | case4 docStart off hlt => rfl
  rw [yamlObjects, yamlStream, hcut, List.flatMap_singleton, yamlDocument, bytesAt, List.take_length, List.drop_zero, if_pos h]

/-- The documents that are not empty: the first starts at the start, the others with a separator. -/
theorem kept_documents (data : Bytes) :
    let docs := (manifestDocuments data).filter Document.hasText
    Contiguous 0 1 docs ∧ docs.IsChain (Follows data) ∧ (∀ d ∈ docs, Proper data d) ∧
      ∀ d ∈ docs, d.start = 0 ∨ StartsWithSeparator (d.text data) := by
  intro docs
  have hchained := chained_manifestDocuments data
  have hproper : ∀ d ∈ docs, Proper data d := fun d hd => hchained.proper d (List.mem_of_mem_filter hd)
  rcases manifestDocuments_cases data with h | ⟨ds, hds, h⟩
  · have hdocs : docs = manifestDocuments data := filter_of_contiguous h
    rw [hdocs] at hproper ⊢
    refine ⟨h, hchained.chain, hproper, ?_⟩
    obtain ⟨d, ds, hds⟩ := List.exists_cons_of_ne_nil (documentsFrom_ne_nil data ⟨0, 1, 2⟩ 1 0)
    have hchain := hchained.chain
    rw [manifestDocuments, hds] at h hchain ⊢
    intro e he
    rcases List.mem_cons.mp he with rfl | he
    · exact .inl h.1
    · exact .inr (separator_of_mem hchain e he)
  · have hdocs : docs = ds := by
      unfold docs
      rw [hds, List.filter_cons_of_neg (by decide), filter_of_contiguous h]
    have hchain := hchained.chain
    rw [hds] at hchain
    rw [hdocs] at hproper ⊢
    exact ⟨h, hchain.tail, hproper, fun e he => .inr (separator_of_mem hchain e he)⟩

/-- The documents end where the stream parser stops. -/
theorem stopOf_kept (data : Bytes) :
    stopOf ((manifestDocuments data).filter Document.hasText) = (yamlStream data 0).invalid.getD data.length := by
  have hall : ∀ doc line docStart off,
      stopOf (documentsFrom data doc line off) = (yamlLines data docStart off).invalid.getD data.length := by
    intro doc line docStart off
    fun_induction documentsFrom data doc line off generalizing docStart with
    | case1 doc line off h rest hsep ih =>
      rw [yamlLines_some h hsep]
      split_ifs with hbad
      · rfl
      · rw [stopOf, List.getLast?_cons_of_ne_nil (documentsFrom_ne_nil _ _ _ _)]
        exact ih _
    | case2 doc line off h hsep ih => rw [yamlLines_none h hsep, ih]
    | case3 doc line off h =>
      rw [yamlLines_end (not_lt.mp h)]
      rfl
  have hstop : stopOf (manifestDocuments data) = (yamlStream data 0).invalid.getD data.length := hall _ _ _ _
  rw [← hstop]
  rcases manifestDocuments_cases data with h | ⟨ds, hds, h⟩
  · rw [filter_of_contiguous h]
  · rw [hds, List.filter_cons_of_neg (by decide), filter_of_contiguous h]
    cases ds <;> rfl

/-- The objects of a run of documents are those of the documents. -/
theorem yamlObjects_groupText (hne : g ≠ []) (hg : g <:+: (manifestDocuments data).filter Document.hasText) :
    (yamlObjects D (groupText data g)).map (ManifestObject.down (lineFrom g - 1)) = g.flatMap (docObjects D data) := by
  obtain ⟨-, hchain, hproper, -⟩ := kept_documents data
  obtain ⟨d, g, rfl⟩ := List.exists_cons_of_ne_nil hne
  have hobjects := objects_groupText D ( List.IsChain.infix hchain hg) (fun e he => hproper e (hg.subset he)) (.inl rfl)
  rw [List.append_nil] at hobjects
  exact hobjects

/-- A run of documents does not open as JSON when the manifest does not. -/
theorem parse_groupText {D : StreamDecoder} (hbrace : D.FindsBrace) (hyaml : D.isJSONBuffer (data.take jsonPeek) = false)
    (hne : g ≠ []) (hg : g <:+: (manifestDocuments data).filter Document.hasText) :
    parseManifestStream D (groupText data g) = yamlObjects D (groupText data g) := by
  obtain ⟨-, hchain, hproper, hstart⟩ := kept_documents data
  obtain ⟨d, g, rfl⟩ := List.exists_cons_of_ne_nil hne
  have hchain' := List.IsChain.infix hchain hg
  have hproper' : ∀ e ∈ d :: g, Proper data e := fun e he => hproper e (hg.subset he)
  have hjson : D.isJSONBuffer ((groupText data (d :: g)).take jsonPeek) = false := by
    rw [Bool.eq_false_iff, ne_eq, hbrace]
    intro hopen
    rcases hstart d (hg.subset List.mem_cons_self) with hzero | hsep
    · -- The run opens the manifest, which would then open so too.
      have hprefix : (groupText data (d :: g)).take jsonPeek <+: data.take jsonPeek := by
        rw [groupText, show startOf (d :: g) = 0 from hzero, bytesAt, List.drop_zero, List.take_take, Nat.min_comm,
          ← List.take_take]
        exact List.take_prefix _ _
      obtain ⟨rest, hrest⟩ := hprefix
      have hwhole := head?_trimLeftSpace_append (by decide) hopen rest
      rw [hrest, ← hbrace, hyaml] at hwhole
      exact absurd hwhole (by decide)
    · have hgroup := separator_groupText hchain' hproper' hsep (.inl rfl)
      rw [List.append_nil] at hgroup
      have hhead : ((groupText data (d :: g)).take jsonPeek).head? = some 0x2d := by
        rw [List.head?_take, if_neg (by decide), hgroup.head?]
      rw [head?_trimLeftSpace_dash hhead] at hopen
      exact absurd hopen (by decide)
  rw [parseManifestStream, hjson, if_neg (by decide)]

end Groups

/-! ## What is counted -/

/-- A document that the error counts: one over a limit that is not blank. -/
def lost (data : Bytes) (d : Document) : Bool := d.oversized && !d.blank data

/-- The objects counted of documents: the flagged ones of those that are within the limits. -/
def countedObjects (D : StreamDecoder) (flagged : List GVK) (data : Bytes) (docs : List Document) : List ManifestObject :=
  ((docs.filter fun d => !d.oversized).flatMap (docObjects D data)).filter fun o => flagged.contains o.gvk

/-- What has been counted once some documents are passed on. -/
def countedAfter (D : StreamDecoder) (flagged : List GVK) (data : Bytes) (m : ManifestCounts) (docs : List Document) :
    ManifestCounts where
  counts := accumulate m.counts (countedObjects D flagged data docs)
  tooLarge := m.tooLarge + (docs.filter (lost data)).length
  firstLine := if m.tooLarge = 0 then ((docs.filter (lost data)).head?.map (·.line)).getD m.firstLine else m.firstLine

section Counted

variable {D : StreamDecoder} {flagged : List GVK} {data : Bytes} {m : ManifestCounts}

theorem countedAfter_append (docs docs' : List Document) :
    countedAfter D flagged data m (docs ++ docs') = countedAfter D flagged data (countedAfter D flagged data m docs) docs' := by
  unfold countedAfter countedObjects
  rw [List.filter_append, List.flatMap_append, List.filter_append, accumulate, List.foldl_append, List.filter_append,
    ManifestCounts.mk.injEq]
  refine ⟨rfl, ?_, ?_⟩
  · rw [List.length_append, Nat.add_assoc]
  · dsimp only
    cases docs.filter (lost data) with
    | nil =>
      rw [List.length_nil, Nat.add_zero, List.nil_append]
      split_ifs <;> rfl
    | cons d ds =>
      rw [List.length_cons, if_neg (by omega : ¬ m.tooLarge + (ds.length + 1) = 0)]
      rfl

/-- One call counts what it passes on. -/
theorem countPass_group (hbrace : D.FindsBrace) (hyaml : D.isJSONBuffer (data.take jsonPeek) = false)
    {g : List Document × Bool} (hfits : GroupFits g) (hg : g.1 <:+: (manifestDocuments data).filter Document.hasText) :
    countPass D flagged data m (passOf g) = countedAfter D flagged data m g.1 := by
  unfold countPass
  dsimp only
  rw [show bytesAt data (passOf g).start (passOf g).stop = groupText data g.1 from rfl]
  cases hwhole : g.2 with
  | false =>
    obtain ⟨d, hd, hover⟩ := hfits.alone hwhole
    have htext : groupText data g.1 = d.text data := by rw [hd]; rfl
    have hnone : countedObjects D flagged data g.1 = [] := by simp [countedObjects, hd, hover]
    unfold countedAfter
    rw [htext, hnone, hd, show (passOf g).whole = false from hwhole]
    by_cases hblank : trimSpace (d.text data) = []
    · rw [if_pos hblank]
      have hlost : lost data d = false := by simp [lost, Document.blank, hblank]
      simp [hlost, accumulate]
    · rw [if_neg hblank]
      have hlost : lost data d = true := by simp [lost, Document.blank, hblank, hover]
      have hline : (passOf g).line = d.line := by rw [passOf, hd]; rfl
      simp [hlost, hline, accumulate]
  | true =>
    obtain ⟨hsmall, -⟩ := hfits.within hwhole
    have hkept : g.1.filter (fun d => !d.oversized) = g.1 := by
      rw [List.filter_eq_self]
      intro d hd
      rw [hsmall d hd]
      rfl
    have hlost : g.1.filter (lost data) = [] := by
      rw [List.filter_eq_nil_iff]
      intro d hd
      simp [lost, hsmall d hd]
    have hobjects := yamlObjects_groupText D hfits.ne_nil hg
    unfold countedAfter countedObjects
    rw [hkept, hlost, ← hobjects, show (passOf g).whole = true from hwhole]
    by_cases hblank : trimSpace (groupText data g.1) = []
    · rw [if_pos hblank, yamlObjects_of_blank D hblank]
      simp [accumulate]
    · rw [if_neg hblank, parse_groupText hbrace hyaml hfits.ne_nil hg, List.filter_map]
      -- Which API an object is at does not depend on its line.
      have hflagged : (fun o : ManifestObject => flagged.contains o.gvk) ∘ ManifestObject.down (lineFrom g.1 - 1) =
          fun o => flagged.contains o.gvk := rfl
      rw [hflagged, if_neg (by decide)]
      simp [passOf]

theorem foldl_countPass (hbrace : D.FindsBrace) (hyaml : D.isJSONBuffer (data.take jsonPeek) = false)
    {groups : List (List Document × Bool)} (hfits : ∀ g ∈ groups, GroupFits g)
    (hgroups : ∀ g ∈ groups, g.1 <:+: (manifestDocuments data).filter Document.hasText) :
    (groups.map passOf).foldl (countPass D flagged data) m = countedAfter D flagged data m (groups.map (·.1)).flatten := by
  induction groups generalizing m with
  | nil => simp [countedAfter, countedObjects, accumulate]
  | cons g groups ih =>
    rw [List.map_cons, List.foldl_cons, countPass_group hbrace hyaml (hfits g List.mem_cons_self) (hgroups g List.mem_cons_self),
      ih (fun g' hg' => hfits g' (List.mem_cons_of_mem _ hg')) fun g' hg' => hgroups g' (List.mem_cons_of_mem _ hg'),
      List.map_cons, List.flatten_cons, countedAfter_append]

/-- A manifest without text has no documents that are not empty. -/
theorem kept_nil : (manifestDocuments []).filter Document.hasText = [] := by
  rw [manifestDocuments, documentsFrom_end (Nat.zero_le _)]
  rfl

end Counted

/-- Splitting a manifest that does not open as JSON loses nothing. Its documents follow each other from its start to
where the stream parser stops; the stream parser's objects are those of the documents, on the manifest's lines. The
calls of `splitManifest` pass on these documents in order, each call one document over a limit, one document, or
several that are within the limits together. `manifestAPIs` counts the flagged objects of the documents within the
limits, and its error counts the others that are not blank, when anything is flagged at all. -/
theorem manifestAPIs_split (D : StreamDecoder) (hbrace : D.FindsBrace) (manifest : Bytes)
    (hyaml : D.isJSONBuffer (manifest.take jsonPeek) = false) (flagged : List GVK) :
    let docs := (manifestDocuments manifest).filter Document.hasText
    (Contiguous 0 1 docs ∧ stopOf docs = (yamlStream manifest 0).invalid.getD manifest.length) ∧
      parseManifestStream D manifest = docs.flatMap (docObjects D manifest) ∧
      (∃ groups : List (List Document × Bool), splitManifest D manifest = groups.map passOf ∧ (∀ g ∈ groups, GroupFits g) ∧
        (groups.map (·.1)).flatten = docs) ∧
      (manifestAPIs D manifest flagged).1 = usageRows (accumulate [] (countedObjects D flagged manifest docs)) ∧
      (flagged ≠ [] → (manifestAPIs D manifest flagged).2 =
        (docs.filter (lost manifest)).head?.map fun d => ⟨(docs.filter (lost manifest)).length, d.line⟩) := by
  intro docs
  have hgroups := splitManifest_groups D hyaml
  obtain ⟨groups, hsplit, hfits, hflatten⟩ := splitManifest_groups D hyaml
  have hinfix : ∀ g ∈ groups, g.1 <:+: docs := by
    intro g hg
    rw [show docs = _ from hflatten.symm]
    exact List.infix_of_mem_flatten (List.mem_map_of_mem hg)
  -- The passes count what the documents would count one by one.
  have hcounts : (splitManifest D manifest).foldl (countPass D flagged manifest) {} = countedAfter D flagged manifest {} docs := by
    rw [hsplit, foldl_countPass hbrace hyaml hfits hinfix, hflatten]
  refine ⟨⟨(kept_documents manifest).1, stopOf_kept manifest⟩, ?_, hgroups, ?_, ?_⟩
  · rw [parseManifestStream, hyaml, if_neg (by decide), yamlObjects_eq]
  · unfold manifestAPIs
    split_ifs with hnone
    · rcases hnone with rfl | rfl
      · simp [countedObjects, accumulate, usageRows]
      · rw [show docs = [] from kept_nil]
        rfl
    · dsimp only
      rw [hcounts]
      rfl
  · intro hne
    unfold manifestAPIs
    split_ifs with hnone
    · obtain rfl : manifest = [] := hnone.resolve_left hne
      rw [show docs = [] from kept_nil]
      rfl
    · dsimp only
      rw [hcounts]
      unfold countedAfter
      dsimp only
      cases docs.filter (lost manifest) with
      | nil => rfl
      | cons d ds => simp

/-- The text of a ConfigMap without a name. -/
def configMapText : Bytes := ("apiVersion: v1\nkind: ConfigMap\n".toList.map Char.toUInt8)

/-- A decoder that reads that text. -/
def configMapDecoder : StreamDecoder where
  isJSONBuffer p := (trimLeftSpace p).head? = some 0x7b
  objectsOf text := if text = configMapText then [⟨"", "v1", "ConfigMap", { line := 1 }⟩] else []
  jsonObjects _ := []

/-- Two ConfigMaps, the second behind a separator: it is found on its own line, the two documents are passed on together,
and both objects are counted in one row. -/
theorem manifestAPIs_split_two :
    let manifest := configMapText ++ [0x2d, 0x2d, 0x2d, 0x0a] ++ configMapText
    let docs := (manifestDocuments manifest).filter Document.hasText
    docs.length = 2 ∧ Contiguous 0 1 docs ∧ stopOf docs = manifest.length ∧
      (parseManifestStream configMapDecoder manifest).map (·.ref.line) = [1, 4] ∧
      parseManifestStream configMapDecoder manifest = docs.flatMap (docObjects configMapDecoder manifest) ∧
      (∃ groups : List (List Document × Bool), splitManifest configMapDecoder manifest = groups.map passOf ∧
        (∀ g ∈ groups, GroupFits g) ∧ (groups.map (·.1)).flatten = docs) ∧
      (manifestAPIs configMapDecoder manifest [("", "v1", "ConfigMap")]).1.map (·.count) = [2] ∧
      (manifestAPIs configMapDecoder manifest [("", "v1", "ConfigMap")]).2 = none := by
  intro manifest docs
  have hbrace : configMapDecoder.FindsBrace := fun p => decide_eq_true_iff
  have hyaml : configMapDecoder.isJSONBuffer (manifest.take jsonPeek) = false := by decide +kernel
  obtain ⟨⟨hcontiguous, hstop⟩, hparse, hgroups, hrows, herr⟩ :=
    manifestAPIs_split configMapDecoder hbrace manifest hyaml [("", "v1", "ConfigMap")]
  refine ⟨by decide +kernel, hcontiguous, hstop.trans (by decide +kernel), by decide +kernel, hparse, hgroups, ?_, ?_⟩
  · rw [hrows]
    decide +kernel
  · rw [herr (by simp)]
    decide +kernel

end UpgradeScope.Collect
