import UpgradeScope.Lib.JsonText
import UpgradeScope.Lib.Utf8
import Mathlib.Data.List.DropRight

/-!
# Reading and writing JSON strings

`json.Marshal` and `json.Unmarshal` of a string, on the pieces of `JsonText`: a writer that escapes what JSON and HTML
give a meaning to, and a reader of any string literal, which takes invalid UTF-8 for the replacement character. A text of
printable ASCII without those characters is written between quotes as it is, and read back
(`unmarshalString_marshalString`).
-/

namespace JsonText

open Utf8 (decodeRune decodeRune_size decodeRune_ascii)

/-! ## Reading -/

/-- The pieces of a string's text after its opening quote, and what follows the closing one. -/
def pieces? : Bytes → Option (List Piece × Bytes)
  | [] => none
  | c :: rest =>
    if c = quote then some ([], rest)
    else if c = backslash then
      match rest with
      | [] => none
      | e :: rest =>
        if e = 'u'.toUInt8 then
          match rest with
          | d₁ :: d₂ :: d₃ :: d₄ :: rest =>
            if Piece.Valid (.unicode d₁ d₂ d₃ d₄) then (pieces? rest).map fun p => (.unicode d₁ d₂ d₃ d₄ :: p.1, p.2)
            else none
          | _ => none
        else if Piece.Valid (.escape e) then (pieces? rest).map fun p => (.escape e :: p.1, p.2)
        else none
    else if c < 0x20 then none
    else (pieces? rest).map fun p => (.raw c :: p.1, p.2)

/-- The characters of UTF-8, with the replacement character for what is invalid. -/
def runes (p : Bytes) : List Char :=
  if _h : p = [] then [] else Char.ofNat (decodeRune p).1 :: runes (p.drop (decodeRune p).2)
termination_by p.length
decreasing_by
  have hsize := decodeRune_size _h
  rw [List.length_drop]
  omega

/-- A string literal at the beginning of a text, and what follows it. -/
def readString : Bytes → Option (String × Bytes)
  | [] => none
  | c :: rest =>
    if c = quote then (pieces? rest).map fun p => (String.ofList (runes (decoded p.1)), p.2) else none

/-- `json.Unmarshal` of a text into an empty string: a string literal, or `null`, which leaves it. -/
def unmarshalString (data : Bytes) : Option String :=
  match readString (data.dropWhile isBlank) with
  | some (s, rest) => if rest.all isBlank then some s else none
  | none => if (data.dropWhile isBlank).rdropWhile isBlank = ascii "null" then some "" else none

/-! ## Writing -/

/-- The escape of a code unit. -/
def escapeUnit (n : ℕ) : Bytes :=
  [backslash, 'u'.toUInt8] ++ [n / 4096, n / 256 % 16, n / 16 % 16, n % 16].map fun d => (Nat.digitChar d).toUInt8

/-- The letter of a character's two-byte escape. -/
def shortEscape? (c : Char) : Option UInt8 :=
  if c.toNat = 0x22 ∨ c.toNat = 0x5c then some c.toUInt8
  else if c.toNat = 0x08 then some 'b'.toUInt8
  else if c.toNat = 0x0c then some 'f'.toUInt8
  else if c.toNat = 0x0a then some 'n'.toUInt8
  else if c.toNat = 0x0d then some 'r'.toUInt8
  else if c.toNat = 0x09 then some 't'.toUInt8
  else none

/-- A character by a code unit's escape: a control character, an HTML character or a line separator. -/
def isEscaped (c : Char) : Bool :=
  c.toNat < 0x20 || c = '<' || c = '>' || c = '&' || c.toNat = 0x2028 || c.toNat = 0x2029

/-- A character as `json.Marshal` writes it. -/
def marshalChar (c : Char) : Bytes :=
  match shortEscape? c with
  | some e => [backslash, e]
  | none => if isEscaped c then escapeUnit c.toNat else String.utf8EncodeChar c

/-- `json.Marshal` of a string. -/
def marshalString (s : String) : Bytes := quote :: s.toList.flatMap marshalChar ++ [quote]

/-! ## Texts without escapes -/

/-- A printable ASCII character that nothing escapes. -/
def Plain (c : Char) : Prop := 0x20 ≤ c.toNat ∧ c.toNat < 0x7f ∧ shortEscape? c = none ∧ isEscaped c = false

/-- The byte of a plain character is its code, and no quote, backslash or control character. -/
theorem Plain.byte {c : Char} (h : Plain c) :
    c.toUInt8.toNat = c.toNat ∧ c.toUInt8 < 0x80 ∧ c.toUInt8 ≠ quote ∧ c.toUInt8 ≠ backslash ∧ ¬ c.toUInt8 < 0x20 := by
  obtain ⟨hlo, hhi, hshort, -⟩ := h
  have hbyte : c.toUInt8.toNat = c.toNat := by
    show (UInt8.ofNat c.toNat).toNat = c.toNat
    rw [UInt8.toNat_ofNat']
    omega
  have hmarks : ¬ (c.toNat = 0x22 ∨ c.toNat = 0x5c) := by
    intro hmark
    rw [shortEscape?, if_pos hmark] at hshort
    exact Option.some_ne_none _ hshort
  refine ⟨hbyte, ?_, ?_, ?_, ?_⟩
  · rw [UInt8.lt_iff_toNat_lt, hbyte]
    exact Nat.lt_succ_of_lt hhi
  · intro heq
    rw [heq] at hbyte
    exact hmarks (.inl hbyte.symm)
  · intro heq
    rw [heq] at hbyte
    exact hmarks (.inr hbyte.symm)
  · rw [UInt8.lt_iff_toNat_lt, hbyte]
    exact Nat.not_lt.mpr hlo

/-- A plain character is written as its byte. -/
theorem marshalChar_plain {c : Char} (h : Plain c) : marshalChar c = [c.toUInt8] := by
  have hsize : c.utf8Size = 1 := by
    have hle : c.val ≤ 0x7f := by
      rw [UInt32.le_iff_toNat_le]
      exact Nat.le_of_lt h.2.1
    rw [Char.utf8Size_eq_one_iff]
    exact hle
  unfold marshalChar
  rw [h.2.2.1, h.2.2.2, String.utf8EncodeChar_eq_singleton hsize]
  rfl

/-- The byte of a plain character stands for itself in a string. -/
theorem pieces?_plain {cs : List Char} (h : ∀ c ∈ cs, Plain c) (rest : Bytes) :
    pieces? (cs.map Char.toUInt8 ++ quote :: rest) = some (cs.map fun c => .raw c.toUInt8, rest) := by
  induction cs with
  | nil =>
    rw [List.map_nil, List.nil_append, pieces?.eq_def]
    rfl
  | cons c cs ih =>
    obtain ⟨-, -, hquote, hback, hcontrol⟩ := (h c List.mem_cons_self).byte
    rw [List.map_cons, List.cons_append, pieces?.eq_def]
    simp only [hquote, hback, hcontrol, if_false, ih fun d hd => h d (List.mem_cons_of_mem c hd), Option.map_some,
      List.map_cons]

/-- Bytes that stand for themselves are decoded to themselves. -/
theorem decoded_raw (bs : Bytes) : decoded (bs.map .raw) = bs := by
  induction bs with
  | nil => rfl
  | cons b bs ih => rw [List.map_cons, decoded, ih]

/-- The characters of plain bytes. -/
theorem runes_plain {cs : List Char} (h : ∀ c ∈ cs, Plain c) : runes (cs.map Char.toUInt8) = cs := by
  induction cs with
  | nil => rw [List.map_nil, runes, dif_pos rfl]
  | cons c cs ih =>
    obtain ⟨hbyte, hascii, -⟩ := (h c List.mem_cons_self).byte
    rw [List.map_cons, runes, dif_neg (List.cons_ne_nil _ _), decodeRune_ascii hascii, hbyte, Char.ofNat_toNat,
      List.drop_one, List.tail_cons, ih fun d hd => h d (List.mem_cons_of_mem c hd)]

/-- A text of plain characters is written between quotes as it is. -/
theorem marshalString_plain {s : String} (h : ∀ c ∈ s.toList, Plain c) :
    marshalString s = quote :: s.toList.map Char.toUInt8 ++ [quote] := by
  unfold marshalString
  rw [List.flatMap_congr fun c hc => marshalChar_plain (h c hc), List.map_eq_flatMap]

/-- A text of plain characters is read back. -/
theorem unmarshalString_marshalString {s : String} (h : ∀ c ∈ s.toList, Plain c) :
    unmarshalString (marshalString s) = some s := by
  have hpieces := pieces?_plain h []
  have hblank : isBlank quote = false := by decide
  have hread : readString (quote :: s.toList.map Char.toUInt8 ++ [quote]) = some (s, []) := by
    rw [List.cons_append, readString, if_pos rfl, hpieces, Option.map_some]
    have hraw : (s.toList.map fun c => Piece.raw c.toUInt8) = (s.toList.map Char.toUInt8).map .raw := by
      rw [List.map_map]
      rfl
    rw [hraw, decoded_raw, runes_plain h, String.ofList_toList]
  unfold unmarshalString
  rw [marshalString_plain h, List.cons_append, List.dropWhile_cons_of_neg (by simp [hblank]), ← List.cons_append, hread]
  rfl

end JsonText
