import Mathlib.Data.String.Basic
import Mathlib.Tactic

/-!
# The texts of JSON

The grammar of JSON over bytes, as Go's `encoding/json` accepts it: a string's unescaped bytes are any
from 0x20 on but the quote and the backslash. `Derives` relates a text to the value it stands for, with a
string's escapes decoded as `encoding/json` decodes them. It takes what white space may stand between
tokens and which pieces a string may hold as parameters, so that the same grammar says what a compact
text is, and what a text without some escape is.
-/

namespace JsonText

/-- A sequence of bytes. -/
abbrev Bytes := List UInt8

/-- The bytes of an ASCII text. -/
def ascii (s : String) : Bytes := s.toList.map Char.toUInt8

/-- The double quote. -/
def quote : UInt8 := 0x22

/-- The backslash. -/
def backslash : UInt8 := 0x5c

/-- The opening brace. -/
def openBrace : UInt8 := 0x7b

/-- The closing brace. -/
def closeBrace : UInt8 := 0x7d

/-! ## Values -/

/-- A JSON value. Numbers keep their text, and objects their members in the order of the text. -/
inductive Value where
  | null
  | bool (b : Bool)
  | number (text : Bytes)
  | string (s : Bytes)
  | array (vs : List Value)
  | object (ms : List (Bytes × Value))

mutual

/-- The objects of a value. -/
def Value.objects : Value → ℕ
  | .array vs => objectsIn vs
  | .object ms => objectsOfMembers ms + 1
  | _ => 0

/-- The objects of the elements of an array. -/
def Value.objectsIn : List Value → ℕ
  | [] => 0
  | v :: vs => v.objects + objectsIn vs

/-- The objects of the members of an object. -/
def Value.objectsOfMembers : List (Bytes × Value) → ℕ
  | [] => 0
  | (_, v) :: ms => v.objects + objectsOfMembers ms

end

mutual

/-- The values of a value that are no objects, with the keys of its objects. -/
def Value.others : Value → ℕ
  | .array vs => othersIn vs + 1
  | .object ms => othersOfMembers ms
  | _ => 1

/-- The values of an array's elements that are no objects, with the keys of their objects. -/
def Value.othersIn : List Value → ℕ
  | [] => 0
  | v :: vs => v.others + othersIn vs

/-- The values of an object's members that are no objects, with the keys of the object and of theirs. -/
def Value.othersOfMembers : List (Bytes × Value) → ℕ
  | [] => 0
  | (_, v) :: ms => v.others + 1 + othersOfMembers ms

end

/-! ## Strings -/

/-- A piece of a string's text: a byte that stands for itself, a two-byte escape, or the escape of a
16-bit code unit by four hexadecimal digits. -/
inductive Piece where
  | raw (b : UInt8)
  | escape (c : UInt8)
  | unicode (d₁ d₂ d₃ d₄ : UInt8)
deriving DecidableEq

/-- A hexadecimal digit. -/
def isHex (c : UInt8) : Bool :=
  ('0'.toUInt8 ≤ c && c ≤ '9'.toUInt8) || ('a'.toUInt8 ≤ c && c ≤ 'f'.toUInt8) ||
    ('A'.toUInt8 ≤ c && c ≤ 'F'.toUInt8)

/-- The value of a hexadecimal digit. -/
def hexValue (c : UInt8) : ℕ :=
  if c ≤ '9'.toUInt8 then c.toNat - '0'.toNat
  else if c ≤ 'F'.toUInt8 then c.toNat - 'A'.toNat + 10
  else c.toNat - 'a'.toNat + 10

/-- The bytes of a piece. -/
def Piece.bytes : Piece → Bytes
  | .raw b => [b]
  | .escape c => [backslash, c]
  | .unicode d₁ d₂ d₃ d₄ => [backslash, 'u'.toUInt8, d₁, d₂, d₃, d₄]

/-- The piece is one JSON has. -/
def Piece.Valid : Piece → Prop
  | .raw b => 0x20 ≤ b ∧ b ≠ quote ∧ b ≠ backslash
  | .escape c => c = quote ∨ c = backslash ∨ c ∈ ascii "/bfnrt"
  | .unicode d₁ d₂ d₃ d₄ => isHex d₁ ∧ isHex d₂ ∧ isHex d₃ ∧ isHex d₄

instance : DecidablePred Piece.Valid
  | .raw _ => inferInstanceAs (Decidable (_ ∧ _ ∧ _))
  | .escape _ => inferInstanceAs (Decidable (_ ∨ _ ∨ _))
  | .unicode .. => inferInstanceAs (Decidable (_ ∧ _ ∧ _ ∧ _))

/-- The byte a two-byte escape stands for. -/
def unescape (c : UInt8) : UInt8 :=
  if c = 'b'.toUInt8 then 8
  else if c = 'f'.toUInt8 then 12
  else if c = 'n'.toUInt8 then 10
  else if c = 'r'.toUInt8 then 13
  else if c = 't'.toUInt8 then 9
  else c

/-- The code unit of four hexadecimal digits. -/
def codeUnit (d₁ d₂ d₃ d₄ : UInt8) : ℕ :=
  ((hexValue d₁ * 16 + hexValue d₂) * 16 + hexValue d₃) * 16 + hexValue d₄

/-- The UTF-8 of a code point. -/
def utf8 (n : ℕ) : Bytes := String.utf8EncodeChar (Char.ofNat n)

/-- The UTF-8 of a code unit by itself: half of a surrogate pair is the replacement character. -/
def utf8Unit (u : ℕ) : Bytes := if 0xd800 ≤ u ∧ u < 0xe000 then utf8 0xfffd else utf8 u

/-- Two code units are the halves of a surrogate pair. -/
def isPair (u u' : ℕ) : Bool := 0xd800 ≤ u && u < 0xdc00 && 0xdc00 ≤ u' && u' < 0xe000

/-- The bytes a string's pieces stand for. -/
def decoded : List Piece → Bytes
  | [] => []
  | .raw b :: ps => b :: decoded ps
  | .escape c :: ps => unescape c :: decoded ps
  | .unicode d₁ d₂ d₃ d₄ :: .unicode e₁ e₂ e₃ e₄ :: ps =>
    if isPair (codeUnit d₁ d₂ d₃ d₄) (codeUnit e₁ e₂ e₃ e₄) then
      utf8 ((codeUnit d₁ d₂ d₃ d₄ - 0xd800) * 0x400 + (codeUnit e₁ e₂ e₃ e₄ - 0xdc00) + 0x10000) ++ decoded ps
    else utf8Unit (codeUnit d₁ d₂ d₃ d₄) ++ decoded (.unicode e₁ e₂ e₃ e₄ :: ps)
  | .unicode d₁ d₂ d₃ d₄ :: ps => utf8Unit (codeUnit d₁ d₂ d₃ d₄) ++ decoded ps

/-- The piece escapes a half of a surrogate pair, so that what it decodes to depends on its neighbour. -/
def Piece.isHalf : Piece → Bool
  | .unicode d₁ d₂ d₃ d₄ => 0xd800 ≤ codeUnit d₁ d₂ d₃ d₄ && codeUnit d₁ d₂ d₃ d₄ < 0xe000
  | _ => false

/-- Of two pieces next to each other, one that is no half decodes by itself. -/
theorem decoded_cons {p : Piece} {qs : List Piece} (h : p.isHalf = false ∨ ∀ q ∈ qs.head?, q.isHalf = false) :
    decoded (p :: qs) = decoded [p] ++ decoded qs := by
  cases p with
  | raw b => rfl
  | escape c => rfl
  | unicode d₁ d₂ d₃ d₄ =>
    cases qs with
    | nil => simp [decoded]
    | cons q qs =>
      cases q with
      | raw b => simp [decoded]
      | escape c => simp [decoded]
      | unicode e₁ e₂ e₃ e₄ =>
        have hpair : isPair (codeUnit d₁ d₂ d₃ d₄) (codeUnit e₁ e₂ e₃ e₄) = false := by
          simp only [Piece.isHalf, List.head?_cons, Option.mem_def, Option.some.injEq, forall_eq', Bool.and_eq_false_iff,
            decide_eq_false_iff_not, not_le, not_lt] at h
          simp only [isPair, Bool.and_eq_false_iff, decide_eq_false_iff_not, not_le, not_lt]
          omega
        rw [decoded, if_neg (by simp [hpair])]
        simp [decoded]

/-- Pieces that are no halves decode by themselves. -/
theorem decoded_append {ps qs : List Piece} (h : ∀ p ∈ ps, p.isHalf = false) :
    decoded (ps ++ qs) = decoded ps ++ decoded qs := by
  induction ps with
  | nil => rfl
  | cons p ps ih =>
    have hp : p.isHalf = false := h p (by simp)
    have hcons : decoded (p :: ps) = decoded [p] ++ decoded ps := decoded_cons (.inl hp)
    rw [List.cons_append, decoded_cons (.inl hp), ih fun q hq => h q (by simp [hq]), hcons, List.append_assoc]

/-- A piece is left as it is, or it and what takes its place are no halves and decode to the same. -/
def SameAlone (r : Piece → List Piece) (p : Piece) : Prop :=
  r p = [p] ∨ p.isHalf = false ∧ r p ≠ [] ∧ (∀ q ∈ r p, q.isHalf = false) ∧ decoded (r p) = decoded [p]

/-- Replacing pieces by pieces that decode to the same keeps what a string decodes to. -/
theorem decoded_flatMap {r : Piece → List Piece} (ps : List Piece) (h : ∀ p ∈ ps, SameAlone r p) :
    decoded (ps.flatMap r) = decoded ps := by
  match ps with
  | [] => rfl
  | p :: ps =>
    have ih := decoded_flatMap ps fun q hq => h q (by simp [hq])
    rw [List.flatMap_cons]
    rcases h p (by simp) with hp | ⟨hhalf, -, hhalves, hdec⟩
    · rw [hp, List.singleton_append]
      match ps with
      | [] => rfl
      | q :: ps =>
        rcases h q (by simp) with hq | ⟨hqhalf, hqne, hqhalves, -⟩
        · -- Both pieces stay, and may be the halves of one pair.
          have ih' := decoded_flatMap ps fun x hx => h x (by simp [hx])
          rw [List.flatMap_cons, hq, List.singleton_append] at ih ⊢
          cases p with
          | raw b => rw [decoded, ih, decoded]
          | escape c => rw [decoded, ih, decoded]
          | unicode d₁ d₂ d₃ d₄ =>
            cases q with
            | raw b =>
              have hcons : decoded (.unicode d₁ d₂ d₃ d₄ :: .raw b :: ps) =
                  decoded [.unicode d₁ d₂ d₃ d₄] ++ decoded (.raw b :: ps) := decoded_cons (.inr (by simp [Piece.isHalf]))
              rw [decoded_cons (.inr (by simp [Piece.isHalf])), ih, hcons]
            | escape c =>
              have hcons : decoded (.unicode d₁ d₂ d₃ d₄ :: .escape c :: ps) =
                  decoded [.unicode d₁ d₂ d₃ d₄] ++ decoded (.escape c :: ps) := decoded_cons (.inr (by simp [Piece.isHalf]))
              rw [decoded_cons (.inr (by simp [Piece.isHalf])), ih, hcons]
            | unicode e₁ e₂ e₃ e₄ =>
              rw [decoded, decoded]
              rw [ih, ih']
        · have hhead : ∀ x ∈ ((q :: ps).flatMap r).head?, x.isHalf = false := by
            intro x hx
            obtain ⟨y, ys, hys⟩ := List.exists_cons_of_ne_nil hqne
            rw [List.flatMap_cons, hys, List.cons_append, List.head?_cons, Option.mem_def, Option.some.injEq] at hx
            exact hqhalves x (by rw [hys, ← hx]; simp)
          have hcons : decoded (p :: q :: ps) = decoded [p] ++ decoded (q :: ps) := decoded_cons (.inr (by simp [hqhalf]))
          rw [decoded_cons (.inr hhead), ih, hcons]
    · have hcons : decoded (p :: ps) = decoded [p] ++ decoded ps := decoded_cons (.inl hhalf)
      rw [decoded_append hhalves, hdec, ih, hcons]
termination_by ps.length

/-- A string's text: its pieces between quotes. -/
def quoted (ps : List Piece) : Bytes := quote :: ps.flatMap Piece.bytes ++ [quote]

/-! ## Numbers and white space -/

/-- A decimal digit. -/
def isDigit (c : UInt8) : Bool := '0'.toUInt8 ≤ c && c ≤ '9'.toUInt8

/-- A non-empty run of digits. -/
def Digits (ds : Bytes) : Prop := ds ≠ [] ∧ ∀ d ∈ ds, isDigit d

/-- The integer part of a number: no zero before another digit. -/
def Integer (ds : Bytes) : Prop := Digits ds ∧ (ds.head? = some '0'.toUInt8 → ds = ['0'.toUInt8])

/-- The fraction of a number, when it has one. -/
def Fraction (bs : Bytes) : Prop := bs = [] ∨ ∃ ds, Digits ds ∧ bs = '.'.toUInt8 :: ds

/-- The exponent of a number, when it has one. -/
def Exponent (bs : Bytes) : Prop :=
  bs = [] ∨ ∃ e sign ds, (e = 'e'.toUInt8 ∨ e = 'E'.toUInt8) ∧
    (sign = [] ∨ sign = ['+'.toUInt8] ∨ sign = ['-'.toUInt8]) ∧ Digits ds ∧ bs = e :: sign ++ ds

/-- The text of a number. -/
def Number (bs : Bytes) : Prop :=
  ∃ sign int frac exp, (sign = [] ∨ sign = ['-'.toUInt8]) ∧ Integer int ∧ Fraction frac ∧ Exponent exp ∧
    bs = sign ++ int ++ frac ++ exp

/-- A number is not empty. -/
theorem Number.ne_nil {bs : Bytes} (h : Number bs) : bs ≠ [] := by
  obtain ⟨sign, int, frac, exp, -, ⟨⟨hne, -⟩, -⟩, -, -, rfl⟩ := h
  simp [hne]

/-- What holds of the digits, the signs, the point and the exponent's letters holds of every byte of a
number. -/
theorem Number.forall {P : UInt8 → Prop} (hdigit : ∀ c, isDigit c = true → P c) (hother : ∀ c ∈ ascii "-+.eE", P c)
    {bs : Bytes} (h : Number bs) : ∀ c ∈ bs, P c := by
  obtain ⟨sign, int, frac, exp, hsign, ⟨hint, -⟩, hfrac, hexp, rfl⟩ := h
  have hdigits : ∀ {ds : Bytes}, Digits ds → ∀ c ∈ ds, P c := fun hds c hc => hdigit c (hds.2 c hc)
  have hsign' : ∀ c ∈ sign, P c := by
    rcases hsign with rfl | rfl
    · simp
    · exact List.forall_mem_singleton.mpr (hother _ (by decide))
  have hfrac' : ∀ c ∈ frac, P c := by
    rcases hfrac with rfl | ⟨ds, hds, rfl⟩
    · simp
    · exact List.forall_mem_cons.mpr ⟨hother _ (by decide), hdigits hds⟩
  have hexp' : ∀ c ∈ exp, P c := by
    rcases hexp with rfl | ⟨e, s, ds, he, hs, hds, rfl⟩
    · simp
    · refine List.forall_mem_append.mpr ⟨List.forall_mem_cons.mpr ⟨?_, ?_⟩, hdigits hds⟩
      · rcases he with rfl | rfl
        · exact hother _ (by decide)
        · exact hother _ (by decide)
      · rcases hs with rfl | rfl | rfl
        · simp
        · exact List.forall_mem_singleton.mpr (hother _ (by decide))
        · exact List.forall_mem_singleton.mpr (hother _ (by decide))
  intro c hc
  simp only [List.mem_append] at hc
  obtain ((hc | hc) | hc) | hc := hc
  · exact hsign' c hc
  · exact hdigits hint c hc
  · exact hfrac' c hc
  · exact hexp' c hc

/-- A byte of white space. -/
def isBlank (c : UInt8) : Bool := c = ' '.toUInt8 || c = '\t'.toUInt8 || c = '\n'.toUInt8 || c = '\r'.toUInt8

/-- White space, possibly none. -/
def Blank (bs : Bytes) : Prop := ∀ c ∈ bs, isBlank c

/-- No white space. -/
def Compact (bs : Bytes) : Prop := bs = []

/-! ## Texts -/

/-- What a stretch of text stands for: a value, the elements of an array, or the members of an object. -/
inductive Part where
  | value (v : Value)
  | elements (vs : List Value)
  | members (ms : List (Bytes × Value))

/-- The objects of a part. -/
def Part.objects : Part → ℕ
  | .value v => v.objects
  | .elements vs => Value.objectsIn vs
  | .members ms => Value.objectsOfMembers ms

/-- The values of a part that are no objects, with the keys. -/
def Part.others : Part → ℕ
  | .value v => v.others
  | .elements vs => Value.othersIn vs
  | .members ms => Value.othersOfMembers ms

/-- The text stands for the part, with white space of `ws` and strings of pieces of `ok`. -/
inductive Derives (ws : Bytes → Prop) (ok : Piece → Prop) : Part → Bytes → Prop where
  | null : Derives ws ok (.value .null) (ascii "null")
  | true : Derives ws ok (.value (.bool true)) (ascii "true")
  | false : Derives ws ok (.value (.bool false)) (ascii "false")
  | number {bs} (h : Number bs) : Derives ws ok (.value (.number bs)) bs
  | string {ps} (h : ∀ p ∈ ps, ok p) : Derives ws ok (.value (.string (decoded ps))) (quoted ps)
  | emptyArray {a} (ha : ws a) : Derives ws ok (.value (.array [])) ('['.toUInt8 :: a ++ [']'.toUInt8])
  | array {vs bs} (h : Derives ws ok (.elements vs) bs) :
    Derives ws ok (.value (.array vs)) ('['.toUInt8 :: bs ++ [']'.toUInt8])
  | emptyObject {a} (ha : ws a) : Derives ws ok (.value (.object [])) (openBrace :: a ++ [closeBrace])
  | object {ms bs} (h : Derives ws ok (.members ms) bs) :
    Derives ws ok (.value (.object ms)) (openBrace :: bs ++ [closeBrace])
  | lastElement {a v bs b} (ha : ws a) (h : Derives ws ok (.value v) bs) (hb : ws b) :
    Derives ws ok (.elements [v]) (a ++ bs ++ b)
  | element {a v bs b vs cs} (ha : ws a) (h : Derives ws ok (.value v) bs) (hb : ws b)
    (hvs : Derives ws ok (.elements vs) cs) : Derives ws ok (.elements (v :: vs)) (a ++ bs ++ b ++ ','.toUInt8 :: cs)
  | lastMember {a ps b c v bs d} (ha : ws a) (hps : ∀ p ∈ ps, ok p) (hb : ws b) (hc : ws c)
    (h : Derives ws ok (.value v) bs) (hd : ws d) :
    Derives ws ok (.members [(decoded ps, v)]) (a ++ quoted ps ++ b ++ ':'.toUInt8 :: c ++ bs ++ d)
  | member {a ps b c v bs d ms cs} (ha : ws a) (hps : ∀ p ∈ ps, ok p) (hb : ws b) (hc : ws c)
    (h : Derives ws ok (.value v) bs) (hd : ws d) (hms : Derives ws ok (.members ms) cs) :
    Derives ws ok (.members ((decoded ps, v) :: ms)) (a ++ quoted ps ++ b ++ ':'.toUInt8 :: c ++ bs ++ d ++ ','.toUInt8 :: cs)

/-- The bytes are a valid JSON text of the value. -/
def Text (v : Value) (bs : Bytes) : Prop :=
  ∃ a body b, Blank a ∧ Derives Blank Piece.Valid (.value v) body ∧ Blank b ∧ bs = a ++ body ++ b

/-! ## Rewriting strings in a text -/

/-- The bytes of the tokens other than strings, and the quote. -/
def isTokenByte (c : UInt8) : Bool :=
  isDigit c || ('a'.toUInt8 ≤ c && c ≤ 'z'.toUInt8) || (ascii "E-+.,:[]").contains c || c = openBrace || c = closeBrace ||
    c = quote

/-- A function on bytes that passes over tokens and white space and rewrites the pieces of strings, one
by one, into pieces that decode to the same. -/
structure Rewrites (ws : Bytes → Prop) (ok ok' : Piece → Prop) (g : Bytes → Bytes) (r : Piece → List Piece) : Prop where
  /-- A token's byte is passed over. -/
  token : ∀ c rest, isTokenByte c = true → g (c :: rest) = c :: g rest
  /-- White space is passed over. -/
  blank : ∀ a rest, ws a → g (a ++ rest) = a ++ g rest
  /-- A piece is rewritten. -/
  piece : ∀ p rest, ok p → g (p.bytes ++ rest) = (r p).flatMap Piece.bytes ++ g rest
  /-- What it is rewritten to is allowed. -/
  allowed : ∀ p, ok p → ∀ q ∈ r p, ok' q
  /-- It decodes to the same. -/
  alone : ∀ p, ok p → SameAlone r p

section Rewriting

variable {ws : Bytes → Prop} {ok ok' : Piece → Prop} {g : Bytes → Bytes} {r : Piece → List Piece}

variable {ps : List Piece} {bs : Bytes}

/-- Bytes of tokens are passed over by a rewriting of strings. -/
theorem Rewrites.tokens (h : Rewrites ws ok ok' g r) (hbs : ∀ c ∈ bs, isTokenByte c = true) (rest : Bytes) :
    g (bs ++ rest) = bs ++ g rest := by
  induction bs with
  | nil => rfl
  | cons c bs ih =>
    rw [List.cons_append, h.token c _ (hbs c (by simp)), ih fun d hd => hbs d (by simp [hd]), List.cons_append]

/-- The pieces of a string are rewritten one by one. -/
theorem Rewrites.pieces (h : Rewrites ws ok ok' g r) (hps : ∀ p ∈ ps, ok p) (rest : Bytes) :
    g (ps.flatMap Piece.bytes ++ rest) = (ps.flatMap r).flatMap Piece.bytes ++ g rest := by
  induction ps with
  | nil => rfl
  | cons p ps ih =>
    rw [List.flatMap_cons, List.append_assoc, h.piece p _ (hps p (by simp)), ih fun q hq => hps q (by simp [hq]),
      List.flatMap_cons, List.flatMap_append, List.append_assoc]

/-- What stands between two tokens is rewritten between them. -/
theorem Rewrites.between (h : Rewrites ws ok ok' g r) {bs out : Bytes} (hbs : ∀ rest, g (bs ++ rest) = out ++ g rest)
    {c d : UInt8} (hc : isTokenByte c = true) (hd : isTokenByte d = true) (rest : Bytes) :
    g (c :: bs ++ [d] ++ rest) = c :: out ++ [d] ++ g rest := by
  rw [List.cons_append, List.cons_append, h.token c _ hc, List.append_assoc, hbs, List.singleton_append, h.token d _ hd]
  simp

/-- A string is rewritten between its quotes. -/
theorem Rewrites.quoted (h : Rewrites ws ok ok' g r) (hps : ∀ p ∈ ps, ok p) (rest : Bytes) :
    g (quoted ps ++ rest) = quoted (ps.flatMap r) ++ g rest := by
  unfold JsonText.quoted
  exact h.between (h.pieces hps) (by decide) (by decide) rest

/-- What the pieces of a string are rewritten to is allowed. -/
theorem Rewrites.allowed_pieces (h : Rewrites ws ok ok' g r) (hps : ∀ p ∈ ps, ok p) :
    ∀ q ∈ ps.flatMap r, ok' q := by
  intro q hq
  obtain ⟨p, hp, hq⟩ := List.mem_flatMap.mp hq
  exact h.allowed p (hps p hp) q hq

/-- A rewritten string decodes to the same. -/
theorem Rewrites.decoded_pieces (h : Rewrites ws ok ok' g r) (hps : ∀ p ∈ ps, ok p) :
    decoded (ps.flatMap r) = decoded ps :=
  decoded_flatMap _ fun p hp => h.alone p (hps p hp)

/-- A string is no longer when no piece becomes longer. -/
theorem length_quoted_flatMap_le (hr : ∀ p, ok p → ((r p).flatMap Piece.bytes).length ≤ p.bytes.length)
    (hps : ∀ p ∈ ps, ok p) : (quoted (ps.flatMap r)).length ≤ (quoted ps).length := by
  have hbody : ((ps.flatMap r).flatMap Piece.bytes).length ≤ (ps.flatMap Piece.bytes).length := by
    induction ps with
    | nil => exact le_rfl
    | cons p ps ih =>
      have hp := hr p (hps p (by simp))
      have htail := ih fun q hq => hps q (by simp [hq])
      rw [List.flatMap_cons, List.flatMap_append, List.flatMap_cons, List.length_append, List.length_append]
      omega
  simp only [quoted, List.length_append, List.length_cons]
  omega

/-- A string is the same when no piece changes. -/
theorem flatMap_pieces_eq (hr : ∀ p, ok p → r p = [p]) (hps : ∀ p ∈ ps, ok p) : ps.flatMap r = ps := by
  rw [List.flatMap_congr fun p hp => hr p (hps p hp)]
  exact List.flatMap_singleton' ps

/-- The rewritten text of a part. -/
structure Rewritten (ws : Bytes → Prop) (ok ok' : Piece → Prop) (g : Bytes → Bytes) (r : Piece → List Piece)
    (part : Part) (bs out : Bytes) : Prop where
  /-- It stands for the same part. -/
  derives : Derives ws ok' part out
  /-- It is what comes out. -/
  rewritten : ∀ rest, g (bs ++ rest) = out ++ g rest
  /-- It is no longer when no piece becomes longer. -/
  shorter : (∀ p, ok p → ((r p).flatMap Piece.bytes).length ≤ p.bytes.length) → out.length ≤ bs.length
  /-- It is the same when no piece changes. -/
  same : (∀ p, ok p → r p = [p]) → out = bs

/-- A text is rewritten in its strings alone. -/
theorem Rewrites.derives (hg : Rewrites ws ok ok' g r) {part : Part} (h : Derives ws ok part bs) :
    ∃ out, Rewritten ws ok ok' g r part bs out := by
  -- On the derivation. Outside strings every byte is passed over, so only the two kinds of member and the string
  -- itself have pieces to rewrite.
  induction h with
  | null => exact ⟨_, .null, hg.tokens (List.all_eq_true.mp (by decide)), fun _ => le_rfl, fun _ => rfl⟩
  | true => exact ⟨_, .true, hg.tokens (List.all_eq_true.mp (by decide)), fun _ => le_rfl, fun _ => rfl⟩
  | false => exact ⟨_, .false, hg.tokens (List.all_eq_true.mp (by decide)), fun _ => le_rfl, fun _ => rfl⟩
  | number h =>
    have hother : ∀ c ∈ ascii "-+.eE", isTokenByte c = true := List.all_eq_true.mp (by decide)
    have htoken := h.forall (fun c hc => by simp [isTokenByte, hc]) hother
    exact ⟨_, .number h, hg.tokens htoken, fun _ => le_rfl, fun _ => rfl⟩
  | @string ps h =>
    refine ⟨JsonText.quoted (ps.flatMap r), ?_, hg.quoted h, fun hr => length_quoted_flatMap_le hr h,
      fun hr => by rw [flatMap_pieces_eq hr h]⟩
    rw [← hg.decoded_pieces h]
    exact .string (hg.allowed_pieces h)
  | emptyArray ha =>
    exact ⟨_, .emptyArray ha, hg.between (hg.blank _ · ha) (by decide) (by decide), fun _ => le_rfl, fun _ => rfl⟩
  | array h ih =>
    obtain ⟨out, hout⟩ := ih
    refine ⟨_, .array hout.derives, hg.between hout.rewritten (by decide) (by decide), fun hr => ?_, fun hr => by
      rw [hout.same hr]⟩
    simpa using hout.shorter hr
  | emptyObject ha =>
    exact ⟨_, .emptyObject ha, hg.between (hg.blank _ · ha) (by decide) (by decide), fun _ => le_rfl, fun _ => rfl⟩
  | object h ih =>
    obtain ⟨out, hout⟩ := ih
    refine ⟨_, .object hout.derives, hg.between hout.rewritten (by decide) (by decide), fun hr => ?_, fun hr => by
      rw [hout.same hr]⟩
    simpa using hout.shorter hr
  | lastElement ha h hb ih =>
    obtain ⟨out, hout⟩ := ih
    refine ⟨_, .lastElement ha hout.derives hb, ?_, fun hr => ?_, fun hr => by rw [hout.same hr]⟩
    · intro rest
      simp only [List.append_assoc, hg.blank _ _ ha, hout.rewritten, hg.blank _ _ hb]
    · simpa using hout.shorter hr
  | element ha h hb hvs ih ihs =>
    obtain ⟨out, hout⟩ := ih
    obtain ⟨outs, houts⟩ := ihs
    refine ⟨_, .element ha hout.derives hb houts.derives, ?_, fun hr => ?_, fun hr => by rw [hout.same hr, houts.same hr]⟩
    · intro rest
      simp only [List.append_assoc, List.cons_append, hg.blank _ _ ha, hout.rewritten, hg.blank _ _ hb,
        hg.token ','.toUInt8 _ (by decide), houts.rewritten]
    · have h₁ := hout.shorter hr
      have h₂ := houts.shorter hr
      simp only [List.length_append, List.length_cons]
      omega
  | @lastMember a ps b c v bs d ha hps hb hc h hd ih =>
    obtain ⟨out, hout⟩ := ih
    refine ⟨a ++ JsonText.quoted (ps.flatMap r) ++ b ++ ':'.toUInt8 :: c ++ out ++ d, ?_, ?_, fun hr => ?_, fun hr => ?_⟩
    · rw [← hg.decoded_pieces hps]
      exact .lastMember ha (hg.allowed_pieces hps) hb hc hout.derives hd
    · intro rest
      simp only [List.append_assoc, List.cons_append, hg.blank _ _ ha, hg.quoted hps, hg.blank _ _ hb,
        hg.token ':'.toUInt8 _ (by decide), hg.blank _ _ hc, hout.rewritten, hg.blank _ _ hd]
    · have h₁ := hout.shorter hr
      have h₂ := length_quoted_flatMap_le hr hps
      simp only [List.length_append, List.length_cons]
      omega
    · rw [flatMap_pieces_eq hr hps, hout.same hr]
  | @member a ps b c v bs d ms cs ha hps hb hc h hd hms ih ihs =>
    obtain ⟨out, hout⟩ := ih
    obtain ⟨outs, houts⟩ := ihs
    refine ⟨a ++ JsonText.quoted (ps.flatMap r) ++ b ++ ':'.toUInt8 :: c ++ out ++ d ++ ','.toUInt8 :: outs, ?_, ?_,
      fun hr => ?_, fun hr => ?_⟩
    · rw [← hg.decoded_pieces hps]
      exact .member ha (hg.allowed_pieces hps) hb hc hout.derives hd houts.derives
    · intro rest
      simp only [List.append_assoc, List.cons_append, hg.blank _ _ ha, hg.quoted hps, hg.blank _ _ hb,
        hg.token ':'.toUInt8 _ (by decide), hg.blank _ _ hc, hout.rewritten, hg.blank _ _ hd,
        hg.token ','.toUInt8 _ (by decide), houts.rewritten]
    · have h₁ := hout.shorter hr
      have h₂ := length_quoted_flatMap_le hr hps
      have h₃ := houts.shorter hr
      simp only [List.length_append, List.length_cons]
      omega
    · rw [flatMap_pieces_eq hr hps, hout.same hr, houts.same hr]

end Rewriting

end JsonText
