import UpgradeScope.Inventory.VersionGrammar
import UpgradeScope.Lib.JsonString

/-!
# Versions in JSON

`Version.MarshalJSON` writes a version as its text in quotes. `Version.UnmarshalJSON` reads any string that
`parseVersion` accepts, and the object with `Major` and `Minor` that older datasets hold (`legacy`).
-/

namespace UpgradeScope

open Go JsonText VersionGrammar

/-! ## The legacy object -/

/-- `legacy`: the members of the object form, `none` where they are absent or null. -/
structure LegacyVersion where
  /-- `Major`. -/
  major : Option ℤ := none
  /-- `Minor`. -/
  minor : Option ℤ := none
  deriving DecidableEq

/-- A byte in lower case. -/
def lowerByte (c : UInt8) : UInt8 := if 'A'.toUInt8 ≤ c ∧ c ≤ 'Z'.toUInt8 then c + 32 else c

/-- The member a key names: keys are matched without regard to case, and there is no other. -/
def LegacyVersion.set? (l : LegacyVersion) (key : Bytes) (n : Option ℤ) : Option LegacyVersion :=
  if key.map lowerByte = ascii "major" then some { l with major := n }
  else if key.map lowerByte = ascii "minor" then some { l with minor := n }
  else none

/-- The value of digits. -/
def digitsValue (ds : Bytes) : ℕ := ds.foldl (fun n d => 10 * n + (d.toNat - 48)) 0

/-- A member's value, an integer within 64 bits or `null`, and what follows it. -/
def legacyValue (bs : Bytes) : Option (Option ℤ × Bytes) :=
  if ascii "null" <+: bs then some (none, bs.drop 4)
  else
    let negative := bs.head? = some '-'.toUInt8
    let body := if negative then bs.tail else bs
    let ds := body.takeWhile isDigit
    let rest := body.dropWhile isDigit
    if ds = [] ∨ (ds.head? = some '0'.toUInt8 ∧ ds ≠ ['0'.toUInt8]) then none
    -- A fraction or an exponent is no integer.
    else if rest.head?.any fun c => (ascii ".eE").contains c then none
    else
      let n : ℤ := if negative then -(digitsValue ds : ℤ) else digitsValue ds
      if -(2 ^ 63) ≤ n ∧ n ≤ maxInt then some (some n, rest) else none

/-- The members of an object after its opening brace or a comma, up to the closing brace. -/
def legacyMembers : ℕ → LegacyVersion → Bytes → Option LegacyVersion
  | 0, _, _ => none
  | fuel + 1, l, bs =>
    match bs.dropWhile isBlank with
    | [] => none
    | c :: rest =>
      if c = quote then do
        let (key, rest) ← pieces? rest
        match rest.dropWhile isBlank with
        | colon :: rest =>
          if colon = ':'.toUInt8 then do
            let (n, rest) ← legacyValue (rest.dropWhile isBlank)
            let l ← l.set? (decoded key) n
            match rest.dropWhile isBlank with
            | mark :: rest =>
              if mark = ','.toUInt8 then legacyMembers fuel l rest
              else if mark = closeBrace then some l
              else none
            | [] => none
          else none
        | [] => none
      else none

/-- `dec.Decode(&l)` with unknown fields disallowed, of a text that begins with a brace; what follows the object is not
read. -/
def decodeLegacy (bs : Bytes) : Option LegacyVersion :=
  match bs.tail.dropWhile isBlank with
  | c :: rest => if c = closeBrace then some {} else legacyMembers bs.length {} (c :: rest)
  | [] => none

/-! ## Versions -/

/-- Why a text is no version. -/
inductive VersionError where
  /-- "invalid kubernetes version object %s" and the decoder's error. -/
  | object (trimmed : Bytes)
  /-- "invalid kubernetes version object %s: missing Major and Minor". -/
  | missing (trimmed : Bytes)
  /-- "invalid kubernetes version object %s: components must be non-negative". -/
  | negative (trimmed : Bytes)
  /-- "kubernetes version must be a string like \"1.38\"" and the decoder's error. -/
  | notString
  /-- `ParseVersion`'s error. -/
  | parse (msg : String)
  deriving DecidableEq

/-- `Version.MarshalJSON`. -/
def Version.marshalJSON (v : Version) : Bytes := marshalString v.string

/-- `Version.UnmarshalJSON`. -/
def unmarshalJSON (X : External) (data : Bytes) : Except VersionError Version :=
  let trimmed := Utf8.trimSpace data
  if trimmed.head? = some openBrace then
    match decodeLegacy trimmed with
    | none => .error (.object trimmed)
    | some l =>
      if l.major = none ∧ l.minor = none then .error (.missing trimmed)
      else
        let maj := l.major.getD 0
        let min := l.minor.getD 0
        if maj < 0 ∨ min < 0 then .error (.negative trimmed) else .ok ⟨maj, min⟩
  else match unmarshalString data with
    | none => .error .notString
    | some s => match parseVersion X s with
      | .error msg => .error (.parse msg)
      | .ok v => .ok v

/-! ## Round trips -/

/-- The decimal text of a natural number within 64 bits is a number of the grammar. -/
theorem number_repr {n : ℕ} (h : (n : ℤ) ≤ maxInt) : Number n.repr.toList n := by
  rw [Nat.toList_repr]
  refine ⟨Nat.toDigits_ne_nil, fun c hc => ?_, by rw [Nat.ofDigitChars_ten_toDigits], h⟩
  have hdigit := Nat.isDigit_of_mem_toDigits (by decide) (by decide) hc
  simpa [Char.isDigit, Digit, Char.le_def] using hdigit

/-- The text of a version, digit by digit. -/
theorem toList_string {major minor : ℕ} :
    (Version.string ⟨major, minor⟩).toList = major.repr.toList ++ '.' :: minor.repr.toList := by
  have hdot : (toString ".").toList = ['.'] := rfl
  have hrepr : ∀ n : ℕ, (n : ℤ).repr = n.repr := fun _ => rfl
  simp [Version.string, hdot, hrepr]

/-- The text of a version with non-negative components within 64 bits is one of the grammar. -/
theorem text_string {v : Version} (hmajor : 0 ≤ v.major ∧ v.major ≤ maxInt) (hminor : 0 ≤ v.minor ∧ v.minor ≤ maxInt) :
    Text v.string.toList v := by
  obtain ⟨major, minor⟩ := v
  obtain ⟨m, rfl⟩ := Int.eq_ofNat_of_zero_le hmajor.1
  obtain ⟨n, rfl⟩ := Int.eq_ofNat_of_zero_le hminor.1
  rw [toList_string]
  exact Text.minor (.inl rfl) (number_repr hmajor.2) (number_repr hminor.2)

/-- A digit is written as it is. -/
theorem plain_of_digit {c : Char} (h : Digit c) : Plain c := by
  have hlo : 48 ≤ c.toNat := h.1
  have hhi : c.toNat ≤ 57 := h.2
  have hc : c = Char.ofNat c.toNat := (Char.ofNat_toNat c).symm
  generalize c.toNat = n at hlo hhi hc
  subst hc
  interval_cases n <;> exact ⟨by decide, by decide, by decide, by decide⟩

/-- The text of a version needs no escape in JSON. -/
theorem plain_string {v : Version} (hmajor : 0 ≤ v.major ∧ v.major ≤ maxInt) (hminor : 0 ≤ v.minor ∧ v.minor ≤ maxInt) :
    ∀ c ∈ v.string.toList, Plain c := by
  obtain ⟨major, minor⟩ := v
  obtain ⟨m, rfl⟩ := Int.eq_ofNat_of_zero_le hmajor.1
  obtain ⟨n, rfl⟩ := Int.eq_ofNat_of_zero_le hminor.1
  rw [toList_string]
  intro c hc
  rw [List.mem_append, List.mem_cons] at hc
  rcases hc with hc | rfl | hc
  · exact plain_of_digit ((number_repr hmajor.2).digits c hc)
  · exact ⟨by decide, by decide, by decide, by decide⟩
  · exact plain_of_digit ((number_repr hminor.2).digits c hc)

/-- A text in quotes is not taken for an object. -/
theorem head?_trimSpace_quote (rest : Bytes) : (Utf8.trimSpace (quote :: rest)).head? = some quote := by
  have hrune : Utf8.decodeRune (quote :: rest) = (quote.toNat, 1) := Utf8.decodeRune_ascii (by decide) rest
  have hspace : ¬ (quote :: rest ≠ [] ∧ Utf8.isSpaceRune (Utf8.decodeRune (quote :: rest)).1 = true) := by
    rw [hrune]
    exact fun h => absurd h.2 (by decide)
  rw [Utf8.head?_trimSpace, Utf8.trimLeftSpace, dif_neg hspace, List.head?_cons]

/-- `parseVersion` accepts exactly the texts of the grammar and returns the first two numbers of them, and every version
with non-negative components within 64 bits is read back from its text and from its JSON. -/
theorem version_texts (X : External) :
    (∀ s v, parseVersion X s = .ok v ↔ Text s.toList v) ∧
      ∀ v : Version, 0 ≤ v.major ∧ v.major ≤ maxInt → 0 ≤ v.minor ∧ v.minor ≤ maxInt →
        parseVersion X v.string = .ok v ∧ unmarshalJSON X v.marshalJSON = .ok v := by
  refine ⟨fun s v => parseVersion_ok_iff, fun v hmajor hminor => ?_⟩
  have hparse : parseVersion X v.string = .ok v := parseVersion_ok_iff.mpr (text_string hmajor hminor)
  refine ⟨hparse, ?_⟩
  have hread : unmarshalString v.marshalJSON = some v.string :=
    unmarshalString_marshalString (plain_string hmajor hminor)
  have hhead : ¬ (Utf8.trimSpace v.marshalJSON).head? = some openBrace := by
    rw [Version.marshalJSON, marshalString, List.cons_append, head?_trimSpace_quote]
    decide
  simp only [unmarshalJSON]
  rw [if_neg hhead, hread]
  dsimp only
  rw [hparse]

/-- The texts of version 1.34 are read back. -/
theorem version_texts_minor : parseVersion External.ascii (Version.string ⟨1, 34⟩) = .ok ⟨1, 34⟩ ∧
    unmarshalJSON External.ascii (Version.marshalJSON ⟨1, 34⟩) = .ok ⟨1, 34⟩ :=
  (version_texts External.ascii).2 ⟨1, 34⟩ (by decide) (by decide)

end UpgradeScope
