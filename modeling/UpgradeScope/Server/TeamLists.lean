import UpgradeScope.Lib.Utf8
import Mathlib.Data.List.DropRight

/-!
# The team list encoding

`internal/server/scope.go`: a list of team names in a header is the names in `url.PathEscape`'s encoding, with commas
between. A name is any bytes. The encoding of a name has no byte that a list gives a meaning to (`isListByte`): no comma,
at which a list is split, and no space or tab, which are trimmed around an entry. So an entry is read back as what one
name was encoded to, and a list as its names (`decodeTeams_encodeTeams`).
-/

namespace UpgradeScope.TeamLists

open Utf8

/-! ## Percent-encoding -/

/-- A decimal digit or a letter. -/
def isAlphanumeric (c : UInt8) : Bool :=
  ('a'.toUInt8 ≤ c && c ≤ 'z'.toUInt8) || ('A'.toUInt8 ≤ c && c ≤ 'Z'.toUInt8) || ('0'.toUInt8 ≤ c && c ≤ '9'.toUInt8)

/-- The bytes besides letters and digits that a path segment spells as themselves: `-_.~$&+=:@`. -/
def plainMarks : Bytes := "-_.~$&+=:@".toList.map Char.toUInt8

/-- `shouldEscape`, for a path segment. -/
def shouldEscape (c : UInt8) : Bool := !(isAlphanumeric c || plainMarks.contains c)

/-- The percent sign. -/
def percent : UInt8 := '%'.toUInt8

/-- A digit of `upperhex`. -/
def upperhex (n : ℕ) : UInt8 := UInt8.ofNat (if n < 10 then 48 + n else 55 + n)

/-- A byte of a name, encoded. -/
def escapeByte (c : UInt8) : Bytes :=
  if shouldEscape c then [percent, upperhex (c.toNat / 16), upperhex (c.toNat % 16)] else [c]

/-- `url.PathEscape`. -/
def pathEscape (s : Bytes) : Bytes := s.flatMap escapeByte

/-- The value of a hexadecimal digit. -/
def unhex? (c : UInt8) : Option ℕ :=
  if '0'.toUInt8 ≤ c ∧ c ≤ '9'.toUInt8 then some (c.toNat - 48)
  else if 'a'.toUInt8 ≤ c ∧ c ≤ 'f'.toUInt8 then some (c.toNat - 87)
  else if 'A'.toUInt8 ≤ c ∧ c ≤ 'F'.toUInt8 then some (c.toNat - 55)
  else none

/-- `url.PathUnescape`; `none` where a percent sign is not followed by two hexadecimal digits. -/
def pathUnescape : Bytes → Option Bytes
  | [] => some []
  | c :: rest =>
    if c = percent then
      match rest with
      | d₁ :: d₂ :: rest =>
        match unhex? d₁, unhex? d₂ with
        | some h, some l => (pathUnescape rest).map (UInt8.ofNat (16 * h + l) :: ·)
        | _, _ => none
      | _ => none
    else (pathUnescape rest).map (c :: ·)

/-! ## Lists -/

/-- The comma. -/
def comma : UInt8 := ','.toUInt8

/-- The bytes that are trimmed around an entry: a space and a tab. -/
def isOWS (c : UInt8) : Bool := c = ' '.toUInt8 || c = '\t'.toUInt8

/-- `strings.Trim(e, " \t")`. -/
def trimOWS (e : Bytes) : Bytes := (e.dropWhile isOWS).rdropWhile isOWS

/-- `encodeTeams`. -/
def encodeTeams (teams : List Bytes) : Bytes := [comma].intercalate (teams.map pathEscape)

/-- The team an entry of a list names. -/
def decodeEntry (e : Bytes) : Option Bytes :=
  if trimOWS e = [] then none
  else (pathUnescape (trimOWS e)).bind fun t => if t = [] then none else some t

/-- `decodeTeams`. -/
def decodeTeams (v : Bytes) : List Bytes := (v.splitOn comma).filterMap decodeEntry

/-! ## What an encoded name is made of -/

/-- A byte that a list of entries gives a meaning to. -/
def isListByte (c : UInt8) : Bool := c = comma || isOWS c

/-- The bytes a list gives a meaning to are encoded. -/
theorem shouldEscape_of_isListByte {c : UInt8} (h : isListByte c = true) : shouldEscape c = true := by
  simp only [isListByte, isOWS, Bool.or_eq_true, decide_eq_true_eq] at h
  rcases h with rfl | rfl | rfl <;> decide

/-- A hexadecimal digit is read as its value. -/
theorem unhex?_upperhex {n : ℕ} (h : n < 16) : unhex? (upperhex n) = some n := by
  interval_cases n <;> decide

/-- No hexadecimal digit has a meaning in a list. -/
theorem isListByte_upperhex {n : ℕ} (h : n < 16) : isListByte (upperhex n) = false := by
  interval_cases n <;> decide

/-- An encoded byte has no byte that a list gives a meaning to. -/
theorem isListByte_of_mem_escapeByte {b c : UInt8} (h : c ∈ escapeByte b) : isListByte c = false := by
  have hb : b.toNat < 256 := b.toNat_lt
  unfold escapeByte at h
  split_ifs at h with hesc
  · simp only [List.mem_cons, List.not_mem_nil, or_false] at h
    rcases h with rfl | rfl | rfl
    · decide
    · exact isListByte_upperhex (by omega)
    · exact isListByte_upperhex (Nat.mod_lt _ (by norm_num))
  · rw [List.mem_singleton] at h
    subst h
    by_contra hlist
    exact hesc (shouldEscape_of_isListByte (by simpa using hlist))

/-- An encoded name has no byte that separates the entries of a list. -/
theorem isListByte_of_mem_pathEscape {s : Bytes} {c : UInt8} (h : c ∈ pathEscape s) : isListByte c = false := by
  obtain ⟨b, -, hc⟩ := List.mem_flatMap.mp h
  exact isListByte_of_mem_escapeByte hc

/-- An encoded byte is read back before what follows it. -/
theorem pathUnescape_escapeByte (c : UInt8) (rest : Bytes) :
    pathUnescape (escapeByte c ++ rest) = (pathUnescape rest).map (c :: ·) := by
  unfold escapeByte
  split_ifs with hesc
  · have hc : c.toNat < 256 := c.toNat_lt
    have hhi := unhex?_upperhex (n := c.toNat / 16) (by omega)
    have hlo := unhex?_upperhex (n := c.toNat % 16) (Nat.mod_lt _ (by norm_num))
    have hvalue : 16 * (c.toNat / 16) + c.toNat % 16 = c.toNat := Nat.div_add_mod _ _
    simp only [List.cons_append, List.nil_append, pathUnescape, hhi, hlo, hvalue, UInt8.ofNat_toNat, if_true]
  · have hne : c ≠ percent := by
      rintro rfl
      exact hesc (by decide)
    rw [List.singleton_append, pathUnescape.eq_def]
    simp [hne]

/-- A name is read back from its encoding. -/
theorem pathUnescape_pathEscape (s : Bytes) : pathUnescape (pathEscape s) = some s := by
  induction s with
  | nil => rfl
  | cons c s ih =>
    show pathUnescape (escapeByte c ++ pathEscape s) = _
    rw [pathUnescape_escapeByte, ih]
    rfl

/-- Nothing is trimmed from an entry without a space or tab. -/
theorem trimOWS_eq_self {e : Bytes} (h : ∀ c ∈ e, isListByte c = false) : trimOWS e = e := by
  have hows : ∀ c ∈ e, ¬ isOWS c = true := by
    intro c hc hows
    have := h c hc
    rw [isListByte, hows, Bool.or_true] at this
    exact Bool.noConfusion this
  have hleft : e.dropWhile isOWS = e := by
    cases e with
    | nil => rfl
    | cons c e => exact List.dropWhile_cons_of_neg (hows c List.mem_cons_self)
  unfold trimOWS
  rw [hleft]
  exact List.rdropWhile_eq_self_iff.mpr fun hne => hows _ (List.getLast_mem hne)

/-- The entry of a non-empty name names it. -/
theorem decodeEntry_pathEscape {t : Bytes} (ht : t ≠ []) : decodeEntry (pathEscape t) = some t := by
  have htrim : trimOWS (pathEscape t) = pathEscape t := trimOWS_eq_self fun _ => isListByte_of_mem_pathEscape
  have hne : pathEscape t ≠ [] := by
    intro hnil
    have := pathUnescape_pathEscape t
    rw [hnil] at this
    exact ht (Option.some.inj this).symm
  unfold decodeEntry
  rw [htrim, if_neg hne, pathUnescape_pathEscape]
  simp [ht]

/-- A list of names, one or more, is split at the commas between them. -/
theorem splitOn_encodeTeams {teams : List Bytes} (hne : teams ≠ []) :
    (encodeTeams teams).splitOn comma = teams.map pathEscape := by
  have hne' : teams.map pathEscape ≠ [] := by simpa using hne
  refine List.splitOn_intercalate comma ?_ hne'
  intro e he hcomma
  obtain ⟨t, -, rfl⟩ := List.mem_map.mp he
  have := isListByte_of_mem_pathEscape hcomma
  simp [isListByte] at this

/-- A list of non-empty names is read back from its encoding. -/
theorem decodeTeams_encodeTeams {teams : List Bytes} (h : ∀ t ∈ teams, t ≠ []) :
    decodeTeams (encodeTeams teams) = teams := by
  by_cases hnil : teams = []
  · subst hnil
    rfl
  · unfold decodeTeams
    rw [splitOn_encodeTeams hnil, List.filterMap_map]
    refine (List.filterMap_congr fun t ht => ?_).trans List.filterMap_some
    exact decodeEntry_pathEscape (h t ht)

/-- Lists of non-empty team names survive their encoding, whatever bytes the names have: a list is read back as it was,
so that one name is never read as two teams or as another, and no other list has its encoding. -/
theorem team_lists_round_trip (teams : List Bytes) (h : ∀ t ∈ teams, t ≠ []) :
    decodeTeams (encodeTeams teams) = teams ∧
      ∀ teams' : List Bytes, (∀ t ∈ teams', t ≠ []) → encodeTeams teams' = encodeTeams teams → teams' = teams := by
  refine ⟨decodeTeams_encodeTeams h, fun teams' h' heq => ?_⟩
  calc teams' = decodeTeams (encodeTeams teams') := (decodeTeams_encodeTeams h').symm
    _ = decodeTeams (encodeTeams teams) := by rw [heq]
    _ = teams := decodeTeams_encodeTeams h

/-- A name with a comma, a percent sign, and a space and a tab around it, then one in UTF-8 with an invalid byte. -/
theorem team_lists_round_trip_marks :
    decodeTeams (encodeTeams [[0x20, 0x2c, 0x25, 0x09], [0xc3, 0x89, 0xff]]) =
      [[0x20, 0x2c, 0x25, 0x09], [0xc3, 0x89, 0xff]] :=
  (team_lists_round_trip [[0x20, 0x2c, 0x25, 0x09], [0xc3, 0x89, 0xff]] (by simp)).1

end UpgradeScope.TeamLists
