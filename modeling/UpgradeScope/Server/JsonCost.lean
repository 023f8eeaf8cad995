import UpgradeScope.Lib.JsonText

/-!
# The JSON meter

`jsonMeter` of `internal/server/jsoncost.go` bounds what decoding a snapshot push builds, by counting the
values of its text as the bytes arrive. It keeps three flags: inside a string, after a backslash in one,
and inside a number or a literal. The pieces the text is fed in make no difference (`feed_append`), and on
a valid JSON text the counts are exact (`jsonMeter_exact`): by induction on the grammar, a meter outside of
strings and words reads a value and ends outside of strings, with the value's own counts added.
-/

namespace UpgradeScope

open JsonText

/-- `jsonCost`: the objects of a text, and its other values and keys. -/
structure JsonCost where
  /-- The objects. -/
  objects : ℕ := 0
  /-- Every other value, object keys included. -/
  values : ℕ := 0
deriving DecidableEq

/-- `jsonCost.units`: what a cost weighs against the node budget. -/
def JsonCost.units (c : JsonCost) : ℕ := 8 * c.objects + c.values

/-- `jsonMeter`. -/
structure JsonMeter where
  /-- What was counted. -/
  cost : JsonCost := {}
  /-- Inside a string. -/
  inStr : Bool := false
  /-- The last byte was a backslash inside a string. -/
  escaped : Bool := false
  /-- Inside a number or a literal. -/
  inWord : Bool := false
deriving DecidableEq

/-- The bytes of numbers and literals. -/
def isWordByte (c : UInt8) : Bool :=
  ('0'.toUInt8 ≤ c && c ≤ '9'.toUInt8) || c = '-'.toUInt8 || c = '+'.toUInt8 || c = '.'.toUInt8 ||
    ('a'.toUInt8 ≤ c && c ≤ 'z'.toUInt8) || ('A'.toUInt8 ≤ c && c ≤ 'Z'.toUInt8)

/-- `jsonMeter.feed` of one byte. -/
def JsonMeter.feedByte (m : JsonMeter) (c : UInt8) : JsonMeter :=
  if m.inStr then
    if m.escaped then { m with escaped := false }
    else if c = backslash then { m with escaped := true }
    else if c = quote then { m with inStr := false }
    else m
  else if c = quote then
    { m with inStr := true, inWord := false, cost := { m.cost with values := m.cost.values + 1 } }
  else if c = openBrace then
    { m with inWord := false, cost := { m.cost with objects := m.cost.objects + 1 } }
  else if c = '['.toUInt8 then
    { m with inWord := false, cost := { m.cost with values := m.cost.values + 1 } }
  else if isWordByte c then
    if m.inWord then m else { m with inWord := true, cost := { m.cost with values := m.cost.values + 1 } }
  else { m with inWord := false }

/-- `jsonMeter.feed`. -/
def JsonMeter.feed (m : JsonMeter) (b : Bytes) : JsonMeter := b.foldl JsonMeter.feedByte m

/-- The meter after a text that arrives in pieces. -/
def JsonMeter.feedAll (pieces : List Bytes) : JsonMeter := pieces.foldl JsonMeter.feed {}

namespace JsonMeter

/-! ## Pieces -/

/-- Two pieces are fed as one. -/
theorem feed_append (m : JsonMeter) (a b : Bytes) : m.feed (a ++ b) = (m.feed a).feed b := List.foldl_append

/-- The meter sees only the bytes. -/
theorem feedAll_eq (pieces : List Bytes) : feedAll pieces = feed {} pieces.flatten := by
  suffices h : ∀ m : JsonMeter, pieces.foldl feed m = m.feed pieces.flatten from h {}
  induction pieces with
  | nil => exact fun _ => rfl
  | cons p ps ih =>
    intro m
    rw [List.foldl_cons, ih, List.flatten_cons, feed_append]

/-! ## Tokens -/

/-- A meter outside of strings. -/
def outside (objects values : ℕ) (inWord : Bool) : JsonMeter := { cost := ⟨objects, values⟩, inWord := inWord }

/-- A meter inside a string. -/
def inside (objects values : ℕ) : JsonMeter := { cost := ⟨objects, values⟩, inStr := true }

section Tokens

variable (o v : ℕ)

variable {c : UInt8} (w : Bool) (m : JsonMeter)

theorem feed_nil : m.feed [] = m := rfl

theorem feed_cons (c : UInt8) (bs : Bytes) : m.feed (c :: bs) = (m.feedByte c).feed bs := rfl

/-- A byte inside a string that is neither a quote nor a backslash is passed over. -/
theorem feedByte_inside (hq : c ≠ quote) (hb : c ≠ backslash) :
    (inside o v).feedByte c = inside o v := by
  simp [feedByte, inside, hq, hb]

/-- An escape's backslash takes the next byte with it. -/
theorem feed_inside_escape (c : UInt8) (bs : Bytes) :
    (inside o v).feed (backslash :: c :: bs) = (inside o v).feed bs := by
  simp [feed_cons, feedByte, inside]

/-- A hexadecimal digit is passed over. -/
theorem feedByte_hex (h : isHex c = true) : (inside o v).feedByte c = inside o v := by
  refine feedByte_inside o v ?_ ?_
  · rintro rfl
    exact absurd h (by decide)
  · rintro rfl
    exact absurd h (by decide)

/-- A string's piece is passed over. -/
theorem feed_piece {p : Piece} (h : p.Valid) : (inside o v).feed p.bytes = inside o v := by
  cases p with
  | raw b => exact feedByte_inside o v h.2.1 h.2.2
  | escape c => exact feed_inside_escape o v c []
  | unicode d₁ d₂ d₃ d₄ =>
    obtain ⟨h₁, h₂, h₃, h₄⟩ := h
    rw [Piece.bytes, feed_inside_escape, feed_cons, feedByte_hex o v h₁, feed_cons, feedByte_hex o v h₂, feed_cons,
      feedByte_hex o v h₃, feed_cons, feedByte_hex o v h₄, feed_nil]

/-- A string counts once, whatever is in it. -/
theorem feed_quoted {ps : List Piece} (h : ∀ p ∈ ps, p.Valid) (w : Bool) :
    (outside o v w).feed (quoted ps) = outside o (v + 1) false := by
  have hopen : (outside o v w).feedByte quote = inside o (v + 1) := by
    simp [feedByte, outside, inside, quote]
  have hbody : (inside o (v + 1)).feed (ps.flatMap Piece.bytes) = inside o (v + 1) := by
    induction ps with
    | nil => rfl
    | cons p ps ih =>
      rw [List.flatMap_cons, feed_append, feed_piece o (v + 1) (h p (by simp))]
      exact ih fun q hq => h q (by simp [hq])
  have hclose : (inside o (v + 1)).feedByte quote = outside o (v + 1) false := by
    simp [feedByte, outside, inside, quote, backslash]
  rw [quoted, List.cons_append, feed_cons, hopen, feed_append, hbody, feed_cons, hclose, feed_nil]

/-- What is not counted outside of strings ends a word. -/
theorem feedByte_separator {c : UInt8} (w : Bool) (hq : c ≠ quote) (ho : c ≠ openBrace) (ha : c ≠ '['.toUInt8)
    (hw : isWordByte c = false) : (outside o v w).feedByte c = outside o v false := by
  simp [feedByte, outside, hq, ho, ha, hw]

/-- The bytes between values: a comma, a colon, a closing bracket or brace. -/
def isSeparator (c : UInt8) : Bool := c = ','.toUInt8 || c = ':'.toUInt8 || c = ']'.toUInt8 || c = closeBrace

/-- A separator ends a word. -/
theorem feed_separator (h : isSeparator c = true) {w : Bool} (bs : Bytes) :
    (outside o v w).feed (c :: bs) = (outside o v false).feed bs := by
  have hc : (outside o v w).feedByte c = outside o v false := by
    simp only [isSeparator, Bool.or_eq_true, decide_eq_true_eq] at h
    obtain ((rfl | rfl) | rfl) | rfl := h
    all_goals exact feedByte_separator o v w (by decide) (by decide) (by decide) (by decide)
  rw [feed_cons, hc]

/-- An array's bracket counts. -/
theorem feedByte_openBracket : (outside o v w).feedByte '['.toUInt8 = outside o (v + 1) false := by
  cases w <;> rfl

/-- An object's brace counts. -/
theorem feedByte_openBrace : (outside o v w).feedByte openBrace = outside (o + 1) v false := by
  cases w <;> rfl

/-- White space ends a word. -/
theorem feed_blank {a : Bytes} (h : Blank a) (w : Bool) : (outside o v w).feed a = outside o v (w && a.isEmpty) := by
  induction a generalizing w with
  | nil => simp [feed_nil]
  | cons c a ih =>
    have hc : (outside o v w).feedByte c = outside o v false := by
      have hblank : isBlank c = true := h c (by simp)
      simp only [isBlank, Bool.or_eq_true, decide_eq_true_eq] at hblank
      obtain ((rfl | rfl) | rfl) | rfl := hblank
      all_goals exact feedByte_separator o v w (by decide) (by decide) (by decide) (by decide)
    rw [feed_cons, hc, ih (fun d hd => h d (by simp [hd])) false]
    simp

/-- A byte of a word is none of the bytes that are counted apart. -/
theorem feedByte_word (h : isWordByte c = true) (w : Bool) :
    (outside o v w).feedByte c = outside o (if w then v else v + 1) true := by
  have hq : c ≠ quote := by rintro rfl; exact absurd h (by decide)
  have ho : c ≠ openBrace := by rintro rfl; exact absurd h (by decide)
  have ha : c ≠ '['.toUInt8 := by rintro rfl; exact absurd h (by decide)
  cases w with
  | false => simp [feedByte, outside, hq, ho, ha, h]
  | true => simp [feedByte, outside, hq, ho, ha, h]

/-- A word counts once. -/
theorem feed_word {bs : Bytes} (hne : bs ≠ []) (h : ∀ c ∈ bs, isWordByte c = true) :
    (outside o v false).feed bs = outside o (v + 1) true := by
  have hrest : ∀ cs : Bytes, (∀ c ∈ cs, isWordByte c = true) →
      (outside o (v + 1) true).feed cs = outside o (v + 1) true := by
    intro cs hcs
    induction cs with
    | nil => rfl
    | cons c cs ih =>
      rw [feed_cons, feedByte_word o (v + 1) (hcs c (by simp)) true]
      exact ih fun d hd => hcs d (by simp [hd])
  obtain ⟨c, cs, rfl⟩ := List.exists_cons_of_ne_nil hne
  rw [feed_cons, feedByte_word o v (h c (by simp)) false]
  exact hrest cs fun d hd => h d (by simp [hd])

end Tokens

/-! ## Texts -/

/-- A digit is a byte of a word. -/
theorem isWordByte_of_isDigit {c : UInt8} (h : isDigit c = true) : isWordByte c = true := by
  unfold isDigit at h
  simp [isWordByte, h]

/-- A meter outside of strings and words reads a part of a text and ends outside of strings, with the
part's own counts added. -/
theorem feed_derives {part : Part} {bs : Bytes} (h : Derives Blank Piece.Valid part bs) (o v : ℕ) :
    ∃ w, (outside o v false).feed bs = outside (o + part.objects) (v + part.others) w := by
  -- `w` says that the part ended inside a word, as a number does: the byte after it ends the word.
  induction h generalizing o v with
  | null => exact ⟨true, feed_word o v (by decide) (List.all_eq_true.mp (by decide))⟩
  | true => exact ⟨true, feed_word o v (by decide) (List.all_eq_true.mp (by decide))⟩
  | false => exact ⟨true, feed_word o v (by decide) (List.all_eq_true.mp (by decide))⟩
  | number h =>
    have hother : ∀ c ∈ ascii "-+.eE", isWordByte c = true := List.all_eq_true.mp (by decide)
    have hword := h.forall (fun _ => isWordByte_of_isDigit) hother
    exact ⟨true, feed_word o v h.ne_nil hword⟩
  | string h => exact ⟨false, feed_quoted o v h false⟩
  | emptyArray ha =>
    refine ⟨false, ?_⟩
    rw [List.cons_append, feed_cons, feedByte_openBracket, feed_append, feed_blank _ _ ha, feed_separator _ _ (by decide), feed_nil]
    rfl
  | array h ih =>
    obtain ⟨w, hw⟩ := ih o (v + 1)
    refine ⟨false, ?_⟩
    rw [List.cons_append, feed_cons, feedByte_openBracket, feed_append, hw, feed_separator _ _ (by decide), feed_nil]
    simp only [Part.objects, Part.others, Value.objects, Value.others]
    ring_nf
  | emptyObject ha =>
    refine ⟨false, ?_⟩
    rw [List.cons_append, feed_cons, feedByte_openBrace, feed_append, feed_blank _ _ ha, feed_separator _ _ (by decide), feed_nil]
    rfl
  | object h ih =>
    obtain ⟨w, hw⟩ := ih (o + 1) v
    refine ⟨false, ?_⟩
    rw [List.cons_append, feed_cons, feedByte_openBrace, feed_append, hw, feed_separator _ _ (by decide), feed_nil]
    simp only [Part.objects, Part.others, Value.objects, Value.others]
    ring_nf
  | @lastElement a u bs b ha h hb ih =>
    obtain ⟨w, hw⟩ := ih o v
    refine ⟨w && b.isEmpty, ?_⟩
    rw [feed_append, feed_append, feed_blank o v ha, Bool.false_and, hw, feed_blank _ _ hb]
    simp only [Part.objects, Part.others, Value.objectsIn, Value.othersIn, Nat.add_zero]
  | element ha h hb hvs ih ihs =>
    obtain ⟨w, hw⟩ := ih o v
    obtain ⟨w', hw'⟩ := ihs _ _
    refine ⟨w', ?_⟩
    rw [feed_append, feed_append, feed_append, feed_blank o v ha, Bool.false_and, hw, feed_blank _ _ hb,
      feed_separator _ _ (by decide), hw']
    simp only [Part.objects, Part.others, Value.objectsIn, Value.othersIn, Nat.add_assoc]
  | @lastMember a ps b c u bs d ha hps hb hc h hd ih =>
    obtain ⟨w, hw⟩ := ih o (v + 1)
    refine ⟨w && d.isEmpty, ?_⟩
    rw [feed_append, feed_append, feed_append, feed_append, feed_append, feed_blank o v ha, feed_quoted o v hps,
      feed_blank _ _ hb, feed_separator _ _ (by decide), feed_blank _ _ hc, Bool.false_and, hw, feed_blank _ _ hd]
    simp only [Part.objects, Part.others, Value.objectsOfMembers, Value.othersOfMembers]
    ring_nf
  | member ha hps hb hc h hd hms ih ihs =>
    obtain ⟨w, hw⟩ := ih o (v + 1)
    obtain ⟨w', hw'⟩ := ihs _ _
    refine ⟨w', ?_⟩
    rw [feed_append, feed_append, feed_append, feed_append, feed_append, feed_append, feed_blank o v ha,
      feed_quoted o v hps, feed_blank _ _ hb, feed_separator _ _ (by decide), feed_blank _ _ hc, Bool.false_and, hw,
      feed_blank _ _ hd, feed_separator _ _ (by decide), hw']
    simp only [Part.objects, Part.others, Value.objectsOfMembers, Value.othersOfMembers]
    ring_nf

end JsonMeter

/-- The counts of a text do not depend on the pieces it is fed in, and of a valid JSON text they are the
objects and the other values with the keys. -/
theorem jsonMeter_exact :
    (∀ pieces pieces' : List Bytes, pieces.flatten = pieces'.flatten →
      (JsonMeter.feedAll pieces).cost = (JsonMeter.feedAll pieces').cost) ∧
      ∀ (v : Value) (text : Bytes), Text v text → ∀ pieces : List Bytes, pieces.flatten = text →
        (JsonMeter.feedAll pieces).cost = ⟨v.objects, v.others⟩ := by
  constructor
  · intro pieces pieces' h
    rw [JsonMeter.feedAll_eq, JsonMeter.feedAll_eq, h]
  · rintro v text ⟨a, body, b, ha, hbody, hb, rfl⟩ pieces hpieces
    obtain ⟨w, hw⟩ := JsonMeter.feed_derives hbody 0 0
    have hstart : ({} : JsonMeter) = JsonMeter.outside 0 0 false := rfl
    rw [JsonMeter.feedAll_eq, hpieces, hstart, JsonMeter.feed_append, JsonMeter.feed_append,
      JsonMeter.feed_blank 0 0 ha, Bool.false_and, hw, JsonMeter.feed_blank _ _ hb]
    simp [JsonMeter.outside, Part.objects, Part.others]

/-- The text of an object whose one member is a number below zero, cut inside its key and its number. -/
theorem jsonMeter_exact_cut :
    Text (.object [(ascii "ab", .number (ascii "-1"))])
        [openBrace, quote, 97, 98, quote, ':'.toUInt8, '-'.toUInt8, '1'.toUInt8, closeBrace] ∧
      (JsonMeter.feedAll [[openBrace, quote, 97], [98, quote, ':'.toUInt8, '-'.toUInt8], [], ['1'.toUInt8, closeBrace]]).cost =
        ⟨1, 2⟩ := by
  have hnumber : Number (ascii "-1") :=
    ⟨['-'.toUInt8], ['1'.toUInt8], [], [], .inr rfl, ⟨⟨by decide, List.all_eq_true.mp (by decide)⟩, by decide⟩, .inl rfl, .inl rfl, rfl⟩
  have hkey : ∀ p ∈ [Piece.raw 97, Piece.raw 98], p.Valid := by decide
  have hblank : Blank [] := by simp [Blank]
  have htext : Text (.object [(ascii "ab", .number (ascii "-1"))])
      [openBrace, quote, 97, 98, quote, ':'.toUInt8, '-'.toUInt8, '1'.toUInt8, closeBrace] :=
    ⟨[], _, [], hblank, .object (.lastMember hblank hkey hblank hblank (.number hnumber) hblank), hblank, rfl⟩
  exact ⟨htext, jsonMeter_exact.2 _ _ htext _ rfl⟩

end UpgradeScope
