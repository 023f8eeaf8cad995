import UpgradeScope.Lib.JsonText

/-!
# The server's JSON: line separators and HTML escapes

`lineSeparatorWriter` and `htmlEscaper` of `internal/server/jsonenc.go` rewrite what `json.Encoder` writes
without HTML escapes. The first puts the characters U+2028 and U+2029 in the place of their escapes; it
steps over a text by index, an escape at a time (`separators_piece`), so it is never inside one. The second
puts back the escapes of `<`, `>` and `&` that `json.Marshal` writes and drops the newline, a byte at a
time, so that the snapshot hash is the one of `json.Marshal`'s text. Both are instances of `Rewrites`: they
change the pieces of strings only, to pieces that decode to the same.
-/

namespace UpgradeScope

open JsonText

/-- The newline that ends what `json.Encoder` writes. -/
def newline : UInt8 := 0x0a

/-! ## Writers -/

/-- Where a writer's bytes go: whether a write fails, after the writes before it. -/
abbrev Sink := List Bytes → Bytes → Bool

/-- What a `Write` did: the count it returns, whether it returns an error, and the writes it made. -/
structure Written where
  /-- The count. -/
  n : ℕ
  /-- An error is returned. -/
  failed : Bool
  /-- The writes so far. -/
  writes : List Bytes

/-- `p[start:end]`. -/
def slice (p : Bytes) (start stop : ℕ) : Bytes := (p.take stop).drop start

/-! ## Line separators -/

/-- `lineSeparator`, the UTF-8 of U+2028. -/
def lineSeparator : Bytes := [0xe2, 0x80, 0xa8]

/-- `paragraphSeparator`, the UTF-8 of U+2029. -/
def paragraphSeparator : Bytes := [0xe2, 0x80, 0xa9]

/-- The bytes after a backslash are those of an escape of U+2028 or U+2029. -/
def isSeparatorEscape (rest : Bytes) : Bool :=
  rest.take 4 = ascii "u202" && (rest[4]? = some '8'.toUInt8 || rest[4]? = some '9'.toUInt8)

/-- The loop of `lineSeparatorWriter.Write` from an index, with the bytes from `start` on not written
yet. -/
def lineSeparatorLoop (fails : Sink) (p : Bytes) (start i : ℕ) (writes : List Bytes) : Written :=
  if i < p.length then
    if p[i]? ≠ some backslash then lineSeparatorLoop fails p start (i + 1) writes
    else if isSeparatorEscape (p.drop (i + 1)) then
      if fails writes (slice p start i) then ⟨start, true, writes⟩
      else
        let sep := if p[i + 5]? = some '9'.toUInt8 then paragraphSeparator else lineSeparator
        if fails (writes ++ [slice p start i]) sep then ⟨i, true, writes ++ [slice p start i]⟩
        else lineSeparatorLoop fails p (i + 6) (i + 6) (writes ++ [slice p start i, sep])
    else lineSeparatorLoop fails p start (i + 2) writes
  else if fails writes (p.drop start) then ⟨start, true, writes⟩
  else ⟨p.length, false, writes ++ [p.drop start]⟩
termination_by p.length - i

/-- `lineSeparatorWriter.Write`. -/
def lineSeparatorWrite (fails : Sink) (p : Bytes) : Written := lineSeparatorLoop fails p 0 0 []

/-- What the writer makes of a text, escape by escape. -/
def separators : Bytes → Bytes
  | [] => []
  | c :: rest =>
    if c ≠ backslash then c :: separators rest
    else if isSeparatorEscape rest then
      (if rest[4]? = some '9'.toUInt8 then paragraphSeparator else lineSeparator) ++ separators (rest.drop 5)
    else c :: rest.take 1 ++ separators (rest.drop 1)
termination_by bs => bs.length

/-- A slice is the concatenation of a slice and the one that follows. -/
theorem slice_add {p : Bytes} {start i : ℕ} (k : ℕ) (hi : start ≤ i) (hlen : start ≤ p.length) :
    slice p start (i + k) = slice p start i ++ (p.drop i).take k := by
  unfold slice
  rw [List.take_add, List.drop_append_of_le_length]
  rw [List.length_take]
  exact le_min hi hlen

/-- An escape of a separator has five bytes after its backslash. -/
theorem length_of_isSeparatorEscape {rest : Bytes} (h : isSeparatorEscape rest = true) : 5 ≤ rest.length := by
  simp only [isSeparatorEscape, Bool.and_eq_true, Bool.or_eq_true, decide_eq_true_eq] at h
  obtain ⟨-, h | h⟩ := h
  · exact (List.getElem?_eq_some_iff.mp h).1
  · exact (List.getElem?_eq_some_iff.mp h).1

/-- The byte at an index where a backslash was found. -/
theorem getElem_of_not_ne {p : Bytes} {i : ℕ} (hlt : i < p.length) (h : ¬ p[i]? ≠ some backslash) : p[i] = backslash := by
  rw [List.getElem?_eq_getElem hlt, ne_eq, not_not] at h
  exact Option.some.inj h

/-- The loop emits what the rest of the text is rewritten to. -/
theorem lineSeparatorLoop_spec (p : Bytes) (start i : ℕ) (writes : List Bytes) (hi : start ≤ i) (hlen : start ≤ p.length) :
    ∃ out, lineSeparatorLoop (fun _ _ => false) p start i writes = ⟨p.length, false, out⟩ ∧
      out.flatten = writes.flatten ++ slice p start i ++ separators (p.drop i) := by
  -- `slice p start i` is what the loop has passed over and not yet written.
  fun_induction lineSeparatorLoop (fun _ _ => false) p start i writes with
  | case1 start i writes hlt hc ih =>
    obtain ⟨out, hout, heq⟩ := ih (by omega) hlen
    refine ⟨out, hout, ?_⟩
    have hdrop : p.drop i = p[i] :: p.drop (i + 1) := List.drop_eq_getElem_cons hlt
    have hne : p[i] ≠ backslash := by
      intro hb
      exact hc (by rw [List.getElem?_eq_getElem hlt, hb])
    rw [heq, slice_add 1 hi hlen, hdrop, separators, if_pos hne, List.take_succ_cons, List.take_zero]
    simp only [List.append_assoc, List.cons_append, List.nil_append]
  | case2 start i writes hlt hc hesc hfails => exact absurd hfails (by simp)
  | case3 start i writes hlt hc hesc hfails sep hfails' => exact absurd hfails' (by simp)
  -- An escape of a separator: what is pending is written, then the separator, and six bytes are consumed.
  | case4 start i writes hlt hc hesc _ sep _ ih =>
    have hsix : i + 6 ≤ p.length := by
      have h := length_of_isSeparatorEscape hesc
      rw [List.length_drop] at h
      omega
    obtain ⟨out, hout, heq⟩ := ih le_rfl hsix
    refine ⟨out, hout, ?_⟩
    have hdrop : p.drop i = backslash :: p.drop (i + 1) := by
      rw [List.drop_eq_getElem_cons hlt, getElem_of_not_ne hlt hc]
    have hslice : slice p (i + 6) (i + 6) = [] := by simp [slice]
    rw [heq, hslice, hdrop, separators, if_neg (by simp), if_pos hesc, List.getElem?_drop, List.drop_drop]
    simp only [List.flatten_append, List.flatten_cons, List.flatten_nil, List.append_nil, List.append_assoc]
    rfl
  -- Another escape: the byte after the backslash goes with it, so an escaped backslash never starts one.
  | case5 start i writes hlt hc hesc ih =>
    obtain ⟨out, hout, heq⟩ := ih (by omega) hlen
    refine ⟨out, hout, ?_⟩
    have hdrop : p.drop i = backslash :: p.drop (i + 1) := by
      rw [List.drop_eq_getElem_cons hlt, getElem_of_not_ne hlt hc]
    rw [heq, slice_add 2 hi hlen, hdrop, separators, if_neg (by simp), if_neg hesc, List.drop_drop, List.take_succ_cons]
    simp only [List.append_assoc, List.cons_append]
  | case6 start i writes hlt hfails => exact absurd hfails (by simp)
  | case7 start i writes hlt _ =>
    refine ⟨_, rfl, ?_⟩
    have hnil : p.drop i = [] := List.drop_eq_nil_of_le (by omega)
    have htake : p.take i = p := List.take_of_length_le (by omega)
    rw [hnil, separators, slice, htake]
    simp

/-! ### Escape by escape -/

/-- The piece is an escape of U+2028 or U+2029. -/
def EscapesSeparator : Piece → Prop
  | .unicode d₁ d₂ d₃ d₄ => codeUnit d₁ d₂ d₃ d₄ = 0x2028 ∨ codeUnit d₁ d₂ d₃ d₄ = 0x2029
  | _ => False

/-- What the writer puts in the place of a piece. -/
def separatorPieces : Piece → List Piece
  | .unicode d₁ d₂ d₃ d₄ =>
    if [d₁, d₂, d₃, d₄] = ascii "2028" then lineSeparator.map .raw
    else if [d₁, d₂, d₃, d₄] = ascii "2029" then paragraphSeparator.map .raw
    else [.unicode d₁ d₂ d₃ d₄]
  | p => [p]

/-- A hexadecimal digit's value is below sixteen, and one below ten is written by its decimal digit. -/
theorem hexValue_spec {d : UInt8} (hd : isHex d = true) :
    hexValue d < 16 ∧ (hexValue d < 10 → d.toNat = hexValue d + 48) := by
  simp only [isHex, Bool.or_eq_true, Bool.and_eq_true, decide_eq_true_eq, UInt8.le_iff_toNat_le] at hd
  unfold hexValue
  simp only [UInt8.le_iff_toNat_le]
  have h0 : '0'.toUInt8.toNat = 48 := rfl
  have h9 : '9'.toUInt8.toNat = 57 := rfl
  have ha : 'a'.toUInt8.toNat = 97 := rfl
  have hf : 'f'.toUInt8.toNat = 102 := rfl
  have hA : 'A'.toUInt8.toNat = 65 := rfl
  have hF : 'F'.toUInt8.toNat = 70 := rfl
  have c0 : '0'.toNat = 48 := rfl
  have ca : 'a'.toNat = 97 := rfl
  have cA : 'A'.toNat = 65 := rfl
  split_ifs <;> omega

/-- The only digits of U+2028 and U+2029. -/
theorem digits_of_codeUnit {d₁ d₂ d₃ d₄ : UInt8} {k : ℕ} (hk : k < 10) (h₁ : isHex d₁ = true) (h₂ : isHex d₂ = true)
    (h₃ : isHex d₃ = true) (h₄ : isHex d₄ = true) (h : codeUnit d₁ d₂ d₃ d₄ = 0x2020 + k) :
    d₁.toNat = 50 ∧ d₂.toNat = 48 ∧ d₃.toNat = 50 ∧ d₄.toNat = k + 48 := by
  unfold codeUnit at h
  have b₁ := hexValue_spec h₁
  have b₂ := hexValue_spec h₂
  have b₃ := hexValue_spec h₃
  have b₄ := hexValue_spec h₄
  omega

variable {c : UInt8} {p : Piece}

/-- The writer replaces exactly the escapes of separators. -/
theorem separatorPieces_eq (hp : p.Valid) :
    (¬ EscapesSeparator p ∧ separatorPieces p = [p]) ∨
      (p = .unicode 50 48 50 56 ∧ separatorPieces p = lineSeparator.map .raw) ∨
      (p = .unicode 50 48 50 57 ∧ separatorPieces p = paragraphSeparator.map .raw) := by
  cases p with
  | raw b => exact .inl ⟨id, rfl⟩
  | escape c => exact .inl ⟨id, rfl⟩
  | unicode d₁ d₂ d₃ d₄ =>
    obtain ⟨h₁, h₂, h₃, h₄⟩ := hp
    -- The two code units differ in their last digit only, and no digit of them is a letter.
    have hdigits : ∀ k < 10, codeUnit d₁ d₂ d₃ d₄ = 0x2020 + k →
        d₁ = 50 ∧ d₂ = 48 ∧ d₃ = 50 ∧ d₄.toNat = k + 48 := by
      intro k hk h
      obtain ⟨e₁, e₂, e₃, e₄⟩ := digits_of_codeUnit hk h₁ h₂ h₃ h₄ h
      exact ⟨UInt8.toNat_inj.mp e₁, UInt8.toNat_inj.mp e₂, UInt8.toNat_inj.mp e₃, e₄⟩
    by_cases h8 : codeUnit d₁ d₂ d₃ d₄ = 0x2028
    · obtain ⟨rfl, rfl, rfl, e₄⟩ := hdigits 8 (by decide) h8
      obtain rfl : d₄ = 56 := UInt8.toNat_inj.mp e₄
      exact .inr (.inl ⟨rfl, rfl⟩)
    by_cases h9 : codeUnit d₁ d₂ d₃ d₄ = 0x2029
    · obtain ⟨rfl, rfl, rfl, e₄⟩ := hdigits 9 (by decide) h9
      obtain rfl : d₄ = 57 := UInt8.toNat_inj.mp e₄
      exact .inr (.inr ⟨rfl, rfl⟩)
    · refine .inl ⟨not_or.mpr ⟨h8, h9⟩, ?_⟩
      have hne : ∀ e : UInt8, codeUnit 50 48 50 e ≠ codeUnit d₁ d₂ d₃ d₄ → [d₁, d₂, d₃, d₄] ≠ [50, 48, 50, e] := by
        rintro e he heq
        simp only [List.cons.injEq, and_true] at heq
        obtain ⟨rfl, rfl, rfl, rfl⟩ := heq
        exact he rfl
      have h8' : [d₁, d₂, d₃, d₄] ≠ ascii "2028" := hne 56 (Ne.symm h8)
      have h9' : [d₁, d₂, d₃, d₄] ≠ ascii "2029" := hne 57 (Ne.symm h9)
      rw [separatorPieces, if_neg h8', if_neg h9']

/-- A byte that is no backslash is passed over. -/
theorem separators_cons (h : c ≠ backslash) (rest : Bytes) : separators (c :: rest) = c :: separators rest := by
  rw [separators, if_pos h]

/-- A hexadecimal digit is no backslash. -/
theorem ne_backslash_of_isHex (h : isHex c = true) : c ≠ backslash := by
  rintro rfl
  exact absurd h (by decide)

/-- The writer is aligned with the escapes of a string: it rewrites a whole piece and goes on behind it. -/
theorem separators_piece (hp : p.Valid) (rest : Bytes) :
    separators (p.bytes ++ rest) = (separatorPieces p).flatMap Piece.bytes ++ separators rest := by
  rcases separatorPieces_eq hp with ⟨hno, heq⟩ | ⟨rfl, heq⟩ | ⟨rfl, heq⟩
  · rw [heq]
    cases p with
    | raw b => exact separators_cons hp.2.2 rest
    | escape c =>
      -- No two-byte escape is by the letter `u`.
      have hc : c ≠ 'u'.toUInt8 := by
        rintro rfl
        exact absurd hp (by decide)
      have hesc : isSeparatorEscape (c :: rest) = false := by
        have hhead : (c :: rest).take 4 ≠ ascii "u202" := by
          intro heq
          exact hc (List.cons.inj heq).1
        unfold isSeparatorEscape
        rw [decide_eq_false hhead, Bool.false_and]
      show separators (backslash :: c :: rest) = _
      rw [separators, if_neg (by simp), if_neg (by simp [hesc])]
      rfl
    | unicode d₁ d₂ d₃ d₄ =>
      obtain ⟨h₁, h₂, h₃, h₄⟩ := hp
      have hesc : isSeparatorEscape ('u'.toUInt8 :: d₁ :: d₂ :: d₃ :: d₄ :: rest) = false := by
        rw [Bool.eq_false_iff]
        intro h
        simp only [isSeparatorEscape, Bool.and_eq_true, Bool.or_eq_true, decide_eq_true_eq, ascii] at h
        simp at h
        obtain ⟨⟨rfl, rfl, rfl⟩, rfl | rfl⟩ := h
        · exact hno (.inl rfl)
        · exact hno (.inr rfl)
      show separators (backslash :: 'u'.toUInt8 :: d₁ :: d₂ :: d₃ :: d₄ :: rest) = _
      rw [separators, if_neg (by simp), if_neg (by simp [hesc])]
      show backslash :: 'u'.toUInt8 :: separators (d₁ :: d₂ :: d₃ :: d₄ :: rest) = _
      rw [separators_cons (ne_backslash_of_isHex h₁), separators_cons (ne_backslash_of_isHex h₂),
        separators_cons (ne_backslash_of_isHex h₃), separators_cons (ne_backslash_of_isHex h₄)]
      rfl
  · rw [heq]
    have hesc : isSeparatorEscape ('u'.toUInt8 :: 50 :: 48 :: 50 :: 56 :: rest) = true := rfl
    show separators (backslash :: 'u'.toUInt8 :: 50 :: 48 :: 50 :: 56 :: rest) = _
    rw [separators, if_neg (by simp), if_pos hesc]
    rfl
  · rw [heq]
    have hesc : isSeparatorEscape ('u'.toUInt8 :: 50 :: 48 :: 50 :: 57 :: rest) = true := rfl
    show separators (backslash :: 'u'.toUInt8 :: 50 :: 48 :: 50 :: 57 :: rest) = _
    rw [separators, if_neg (by simp), if_pos hesc]
    rfl

/-- The writer rewrites the escapes of separators in a compact text, and nothing else. -/
theorem rewrites_separators {ok : Piece → Prop} (hok : ∀ p, ok p → p.Valid) :
    Rewrites Compact ok (fun p => p.Valid ∧ ¬ EscapesSeparator p) separators separatorPieces where
  token c rest hc := separators_cons (by rintro rfl; exact absurd hc (by decide)) rest
  blank a rest ha := by rw [ha]; rfl
  piece p rest hp := separators_piece (hok p hp) rest
  allowed p hp q hq := by
    have hraw : ∀ b ∈ lineSeparator ++ paragraphSeparator, (Piece.raw b).Valid := by decide +kernel
    rcases separatorPieces_eq (hok p hp) with ⟨hno, heq⟩ | ⟨-, heq⟩ | ⟨-, heq⟩
    · rw [heq, List.mem_singleton] at hq
      exact hq ▸ ⟨hok p hp, hno⟩
    · rw [heq] at hq
      obtain ⟨b, hb, rfl⟩ := List.mem_map.mp hq
      exact ⟨hraw b (List.mem_append_left _ hb), id⟩
    · rw [heq] at hq
      obtain ⟨b, hb, rfl⟩ := List.mem_map.mp hq
      exact ⟨hraw b (List.mem_append_right _ hb), id⟩
  alone p hp := by
    rcases separatorPieces_eq (hok p hp) with ⟨-, heq⟩ | ⟨rfl, heq⟩ | ⟨rfl, heq⟩
    · exact .inl heq
    · exact .inr ⟨rfl, by decide, by decide, by decide⟩
    · exact .inr ⟨rfl, by decide, by decide, by decide⟩

/-- No piece becomes longer. -/
theorem length_separatorPieces (hp : p.Valid) :
    ((separatorPieces p).flatMap Piece.bytes).length ≤ p.bytes.length := by
  rcases separatorPieces_eq hp with ⟨-, heq⟩ | ⟨rfl, heq⟩ | ⟨rfl, heq⟩
  · rw [heq]
    simp
  · decide
  · decide

/-! ## HTML escapes -/

/-- A hexadecimal digit in lower case. -/
def hexDigit (n : ℕ) : UInt8 := (if n < 10 then '0'.toNat + n else 'a'.toNat + (n - 10)).toUInt8

/-- `unicodeEscape`: a byte as JSON's six-byte escape. -/
def unicodeEscape (c : UInt8) : Bytes :=
  [backslash, 'u'.toUInt8, '0'.toUInt8, '0'.toUInt8, hexDigit (c.toNat / 16), hexDigit (c.toNat % 16)]

/-- `htmlEscapes`: `json.Marshal`'s escapes of the HTML characters. -/
def htmlEscapes (c : UInt8) : Option Bytes :=
  if c = '<'.toUInt8 ∨ c = '>'.toUInt8 ∨ c = '&'.toUInt8 then some (unicodeEscape c) else none

/-- The loop of `htmlEscaper.Write` over the bytes from an index, with those from `start` on not written
yet. -/
def htmlLoop (fails : Sink) (p : Bytes) (start i : ℕ) (writes : List Bytes) : Bytes → Written
  | [] =>
    if fails writes (p.drop start) then ⟨start, true, writes⟩ else ⟨p.length, false, writes ++ [p.drop start]⟩
  | c :: rest =>
    if htmlEscapes c = none ∧ c ≠ newline then htmlLoop fails p start (i + 1) writes rest
    else if fails writes (slice p start i) then ⟨start, true, writes⟩
    else
      -- The escape of a newline is the map's empty string.
      let esc := (htmlEscapes c).getD []
      if fails (writes ++ [slice p start i]) esc then ⟨i, true, writes ++ [slice p start i]⟩
      else htmlLoop fails p (i + 1) (i + 1) (writes ++ [slice p start i, esc]) rest

/-- `htmlEscaper.Write`, after the writes before it. -/
def htmlWrite (fails : Sink) (writes : List Bytes) (p : Bytes) : Written := htmlLoop fails p 0 0 writes p

/-- What the escaper emits over a sequence of writes that do not fail. -/
def htmlEscaped (ps : List Bytes) : List Bytes := ps.foldl (fun acc p => (htmlWrite (fun _ _ => false) acc p).writes) []

/-- `canonicalHash`: the hash of what the escaper emits of the encoder's writes. -/
def canonicalHash (sha256 : Bytes → String) (ps : List Bytes) : String := sha256 (htmlEscaped ps).flatten

/-- A byte of the encoder's text, as the escaper writes it. -/
def htmlByte (c : UInt8) : Bytes := if c = newline then [] else (htmlEscapes c).getD [c]

/-- A byte as `json.Marshal` writes it. -/
def marshalByte (c : UInt8) : Bytes := (htmlEscapes c).getD [c]

/-- The loop emits the rest of the text byte by byte. -/
theorem htmlLoop_spec (p : Bytes) (start i : ℕ) (writes : List Bytes) (rest : Bytes) (hrest : p.drop i = rest)
    (hi : start ≤ i) (hlen : start ≤ p.length) :
    ∃ out, htmlLoop (fun _ _ => false) p start i writes rest = ⟨p.length, false, out⟩ ∧
      out.flatten = writes.flatten ++ slice p start i ++ rest.flatMap htmlByte := by
  induction rest generalizing start i writes with
  | nil =>
    refine ⟨_, rfl, ?_⟩
    have htake : p.take i = p := List.take_of_length_le (List.drop_eq_nil_iff.mp hrest)
    simp [slice, htake]
  | cons c rest ih =>
    have hrest' : p.drop (i + 1) = rest := by rw [← List.drop_drop, hrest]; rfl
    have hlt : i + 1 ≤ p.length := by
      by_contra hge
      rw [List.drop_eq_nil_of_le (by omega)] at hrest
      exact absurd hrest (by simp)
    rw [htmlLoop]
    -- A byte either joins what is pending or flushes it. A newline flushes and writes nothing.
    by_cases hplain : htmlEscapes c = none ∧ c ≠ newline
    · rw [if_pos hplain]
      obtain ⟨out, hout, heq⟩ := ih start (i + 1) writes hrest' (by omega) hlen
      refine ⟨out, hout, ?_⟩
      have hbyte : htmlByte c = [c] := by rw [htmlByte, if_neg hplain.2, hplain.1]; rfl
      rw [heq, slice_add 1 hi hlen, hrest, List.take_succ_cons, List.take_zero, List.flatMap_cons, hbyte]
      simp only [List.append_assoc]
    · rw [if_neg hplain, if_neg (by simp), if_neg (by simp)]
      obtain ⟨out, hout, heq⟩ := ih (i + 1) (i + 1) _ hrest' le_rfl hlt
      refine ⟨out, hout, ?_⟩
      have hslice : slice p (i + 1) (i + 1) = [] := by simp [slice]
      have hbyte : htmlByte c = (htmlEscapes c).getD [] := by
        unfold htmlByte
        split_ifs with hnl
        · rw [hnl]
          rfl
        · cases hesc : htmlEscapes c with
          | none => exact absurd ⟨hesc, hnl⟩ hplain
          | some e => rfl
      rw [heq, hslice, List.flatMap_cons, hbyte]
      simp only [List.flatten_append, List.flatten_cons, List.flatten_nil, List.append_nil, List.append_assoc]

/-- The escaper sees only the bytes. -/
theorem htmlEscaped_flatten (ps : List Bytes) : (htmlEscaped ps).flatten = ps.flatten.flatMap htmlByte := by
  suffices h : ∀ acc : List Bytes, (ps.foldl (fun acc p => (htmlWrite (fun _ _ => false) acc p).writes) acc).flatten =
      acc.flatten ++ ps.flatten.flatMap htmlByte by simpa [htmlEscaped] using h []
  induction ps with
  | nil => simp
  | cons p ps ih =>
    intro acc
    obtain ⟨out, hout, heq⟩ := htmlLoop_spec p 0 0 acc p rfl le_rfl (Nat.zero_le _)
    rw [List.foldl_cons, htmlWrite, hout, ih, heq]
    simp [slice]

/-- The piece is a raw HTML character. -/
def IsHtml : Piece → Prop
  | .raw b => htmlEscapes b ≠ none
  | _ => False

/-- What the escaper puts in the place of a piece. -/
def htmlPieces : Piece → List Piece
  | .raw b =>
    if htmlEscapes b = none then [.raw b]
    else [.unicode '0'.toUInt8 '0'.toUInt8 (hexDigit (b.toNat / 16)) (hexDigit (b.toNat % 16))]
  | p => [p]

/-- A byte that is neither a newline nor an HTML character is written as it is. -/
theorem htmlByte_of_none (hnl : c ≠ newline) (h : htmlEscapes c = none) : htmlByte c = [c] := by
  rw [htmlByte, if_neg hnl, h]
  rfl

/-- The characters that are escaped for HTML are three. -/
theorem html_cases (h : htmlEscapes c ≠ none) : c = '<'.toUInt8 ∨ c = '>'.toUInt8 ∨ c = '&'.toUInt8 := by
  unfold htmlEscapes at h
  split_ifs at h with hc
  · exact hc
  · exact absurd rfl h

/-- A byte of a class that has neither the newline nor an HTML character is written as it is. -/
theorem htmlByte_of_class {P : UInt8 → Bool}
    (hP : P newline = false ∧ P '<'.toUInt8 = false ∧ P '>'.toUInt8 = false ∧ P '&'.toUInt8 = false) (hc : P c = true) :
    htmlByte c = [c] := by
  obtain ⟨hnl, hlt, hgt, hamp⟩ := hP
  refine htmlByte_of_none ?_ ?_
  · rintro rfl
    rw [hnl] at hc
    exact absurd hc (by decide)
  · by_contra hesc
    rcases html_cases hesc with rfl | rfl | rfl
    · rw [hlt] at hc
      exact absurd hc (by decide)
    · rw [hgt] at hc
      exact absurd hc (by decide)
    · rw [hamp] at hc
      exact absurd hc (by decide)

/-- The escaper rewrites the HTML characters of a compact text, and nothing else. -/
theorem rewrites_html :
    Rewrites Compact Piece.Valid (fun p => p.Valid ∧ ¬ IsHtml p) (fun bs => bs.flatMap htmlByte) htmlPieces where
  token c rest hc := by
    show (c :: rest).flatMap htmlByte = _
    rw [List.flatMap_cons, htmlByte_of_class (by decide) hc]
    rfl
  blank a rest ha := by rw [ha]; rfl
  piece p rest hp := by
    show (p.bytes ++ rest).flatMap htmlByte = _
    rw [List.flatMap_append]
    refine congrArg (· ++ rest.flatMap htmlByte) ?_
    cases p with
    -- Only a raw byte is escaped: the bytes of an escape are among those the escaper passes over.
    | raw b =>
      have hnl : b ≠ newline := by
        rintro rfl
        exact absurd hp.1 (by decide)
      rw [htmlPieces]
      split_ifs with hesc
      · simp [Piece.bytes, htmlByte_of_none hnl hesc]
      · rcases html_cases hesc with rfl | rfl | rfl
        · rfl
        · rfl
        · rfl
    | escape c =>
      have hc : htmlByte c = [c] :=
        htmlByte_of_class (P := fun c => c = quote ∨ c = backslash ∨ c ∈ ascii "/bfnrt") (by decide) (by simpa [Piece.Valid] using hp)
      simp only [Piece.bytes, List.flatMap_cons, List.flatMap_nil, hc, htmlPieces]
      rfl
    | unicode d₁ d₂ d₃ d₄ =>
      obtain ⟨h₁, h₂, h₃, h₄⟩ := hp
      have hex : ∀ {d : UInt8}, isHex d = true → htmlByte d = [d] := htmlByte_of_class (by decide)
      simp only [Piece.bytes, List.flatMap_cons, List.flatMap_nil, hex h₁, hex h₂, hex h₃, hex h₄, htmlPieces]
      rfl
  allowed p hp q hq := by
    cases p with
    | raw b =>
      rw [htmlPieces] at hq
      split_ifs at hq with hesc
      · obtain rfl := List.mem_singleton.mp hq
        exact ⟨hp, fun h => h hesc⟩
      · obtain rfl := List.mem_singleton.mp hq
        refine ⟨?_, id⟩
        rcases html_cases hesc with rfl | rfl | rfl
        all_goals exact ⟨by decide, by decide, by decide, by decide⟩
    | escape c =>
      obtain rfl := List.mem_singleton.mp hq
      exact ⟨hp, id⟩
    | unicode d₁ d₂ d₃ d₄ =>
      obtain rfl := List.mem_singleton.mp hq
      exact ⟨hp, id⟩
  alone p hp := by
    cases p with
    | raw b =>
      by_cases hesc : htmlEscapes b = none
      · exact .inl (by rw [htmlPieces, if_pos hesc])
      · refine .inr ⟨rfl, ?_⟩
        rcases html_cases hesc with rfl | rfl | rfl
        all_goals exact ⟨by decide, by decide, by decide⟩
    | escape c => exact .inl rfl
    | unicode d₁ d₂ d₃ d₄ => exact .inl rfl

/-- A string's piece holds no newline. -/
theorem newline_notMem_piece (hp : p.Valid) : newline ∉ p.bytes := by
  have hhex : ∀ {d : UInt8}, isHex d = true → newline ≠ d := by
    rintro d hd rfl
    exact absurd hd (by decide)
  cases p with
  | raw b =>
    intro hmem
    obtain rfl := List.mem_singleton.mp hmem
    exact absurd hp.1 (by decide)
  | escape c =>
    intro hmem
    rcases List.mem_pair.mp hmem with h | rfl
    · exact absurd h (by decide)
    · exact absurd hp (by decide)
  | unicode d₁ d₂ d₃ d₄ =>
    obtain ⟨h₁, h₂, h₃, h₄⟩ := hp
    have hb : newline ≠ backslash := by decide
    have hu : newline ≠ 'u'.toUInt8 := by decide
    simp [Piece.bytes, hb, hu, hhex h₁, hhex h₂, hhex h₃, hhex h₄]

/-- A compact text holds no newline. -/
theorem newline_notMem {part : Part} {bs : Bytes} (h : Derives Compact Piece.Valid part bs) : newline ∉ bs := by
  -- Dropping newlines is a rewriting that changes no piece, so it changes no text.
  have hrewrites : Rewrites Compact Piece.Valid Piece.Valid (fun bs => bs.filter (· ≠ newline)) fun p => [p] :=
    { token := fun c rest hc => by
        have hne : c ≠ newline := by
          rintro rfl
          exact absurd hc (by decide)
        simp [hne]
      blank := fun a rest ha => by rw [ha]; rfl
      piece := fun p rest hp => by
        have hne : ∀ c ∈ p.bytes, c ≠ newline := by
          rintro c hc rfl
          exact newline_notMem_piece hp hc
        simpa using hne
      allowed := fun p hp q hq => List.mem_singleton.mp hq ▸ hp
      alone := fun p _ => .inl rfl }
  obtain ⟨out, hout⟩ := hrewrites.derives h
  have hfilter := hout.rewritten []
  rw [hout.same fun _ _ => rfl] at hfilter
  intro hmem
  have := congrArg (newline ∈ ·) hfilter
  simp [hmem] at this

/-! ## What the server stores and hashes -/

/-- The text that `json.Encoder` writes of a value, without HTML escapes: it ends in a newline. -/
def encoded (body : Bytes) : Bytes := body ++ [newline]

/-- The writers keep the value of a compact text. The separator writer emits a text of the same value with
no escape of a separator, never longer, and leaves a text without such escapes alone; the escaper emits, of
writes cut anywhere, the text with each HTML character escaped and the newline dropped, again of the same
value, and that is what is hashed. -/
theorem encoded_rewritten {v : Value} {body : Bytes} (h : Derives Compact Piece.Valid (.value v) body) :
    (∃ out writes, lineSeparatorWrite (fun _ _ => false) (encoded body) = ⟨(encoded body).length, false, writes⟩ ∧
        writes.flatten = encoded out ∧ Derives Compact (fun p => p.Valid ∧ ¬ EscapesSeparator p) (.value v) out ∧
        (encoded out).length ≤ (encoded body).length ∧
        (Derives Compact (fun p => p.Valid ∧ ¬ EscapesSeparator p) (.value v) body → out = body)) ∧
      ∀ cuts : List Bytes, cuts.flatten = encoded body →
        (htmlEscaped cuts).flatten = body.flatMap marshalByte ∧
          Derives Compact (fun p => p.Valid ∧ ¬ IsHtml p) (.value v) (body.flatMap marshalByte) ∧
          ∀ sha256, canonicalHash sha256 cuts = sha256 (body.flatMap marshalByte) := by
  have hsep : separators [newline] = [newline] := by
    rw [separators_cons (by decide), separators]
  constructor
  · obtain ⟨writes, hwrites, hflatten⟩ := lineSeparatorLoop_spec (encoded body) 0 0 [] le_rfl (Nat.zero_le _)
    obtain ⟨out, hout⟩ := (rewrites_separators fun _ hp => hp).derives h
    refine ⟨out, writes, hwrites, ?_, hout.derives, ?_, ?_⟩
    · rw [hflatten]
      simp [slice, encoded, hout.rewritten, hsep]
    · have hle := hout.shorter fun _ => length_separatorPieces
      simp only [encoded, List.length_append]
      omega
    · intro hno
      -- Derived without such escapes, the text is rewritten piece by piece to itself.
      obtain ⟨out', hout'⟩ := (rewrites_separators fun _ hp => hp.1).derives hno
      have hsame : out' = body := by
        refine hout'.same ?_
        rintro p ⟨hp, hno⟩
        rcases separatorPieces_eq hp with ⟨-, heq⟩ | ⟨rfl, -⟩ | ⟨rfl, -⟩
        · exact heq
        · exact absurd (.inl rfl) hno
        · exact absurd (.inr rfl) hno
      have heq := (hout.rewritten []).symm.trans (hout'.rewritten [])
      rw [← hsame]
      exact List.append_cancel_right heq
  · intro cuts hcuts
    obtain ⟨out, hout⟩ := rewrites_html.derives h
    have hbody : body.flatMap htmlByte = body.flatMap marshalByte := by
      refine List.flatMap_congr fun c hc => ?_
      have hne : c ≠ newline := by
        rintro rfl
        exact newline_notMem h hc
      rw [htmlByte, if_neg hne]
      rfl
    have htext : (htmlEscaped cuts).flatten = body.flatMap marshalByte := by
      rw [htmlEscaped_flatten, hcuts, encoded, List.flatMap_append, hbody]
      simp [htmlByte]
    have heq : body.flatMap marshalByte = out := by
      have := hout.rewritten []
      simpa [hbody] using this
    exact ⟨htext, heq ▸ hout.derives, fun sha256 => congrArg sha256 htext⟩

/-- A string that holds an HTML character, an escape of U+2028, and an escaped backslash before the letters
`u2028`. -/
def separatorString : List Piece :=
  [.raw '<'.toUInt8, .unicode 50 48 50 56, .escape backslash, .raw 'u'.toUInt8, .raw 50, .raw 48, .raw 50, .raw 56]

/-- The text of a string with a line separator is written whole, the separator escaped. -/
theorem encoded_separatorString : ∃ writes,
    lineSeparatorWrite (fun _ _ => false) (encoded (quoted separatorString)) =
        ⟨(encoded (quoted separatorString)).length, false, writes⟩ ∧
      (htmlEscaped [encoded (quoted separatorString)]).flatten = (quoted separatorString).flatMap marshalByte := by
  have hvalid : ∀ p ∈ separatorString, p.Valid := by decide
  have htext : Derives Compact Piece.Valid (.value (.string (decoded separatorString))) (quoted separatorString) :=
    .string hvalid
  obtain ⟨out, writes, hwrites, -⟩ := (encoded_rewritten htext).1
  exact ⟨writes, hwrites, ((encoded_rewritten htext).2 _ (by simp)).1⟩

end UpgradeScope
