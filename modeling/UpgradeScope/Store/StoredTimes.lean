import UpgradeScope.Lib.Calendar
import UpgradeScope.Lib.FixedWidth
import UpgradeScope.External

/-!
# Stored times

`internal/server/store/store.go`: a time is stored as its UTC date and clock in RFC 3339 with nine digits of the second's
fraction, so that stored times compare as strings. Between the years 0 and 9999 every field of the text has a fixed width,
and a stored time is one layout of its seven fields (`formatTime_eq`). The fields give the instant back (`instantOf_fields`), and
their order as lists is the order of instants (`fields_lt_iff`).
-/

namespace UpgradeScope.Store

open Go FixedWidth

/-! ## Writing -/

/-- `time.Time`: an instant, and the offset of its zone in seconds east of UTC. -/
structure ZonedTime where
  /-- The instant. -/
  instant : Time
  /-- The zone's offset. -/
  offset : ℤ := 0
  deriving DecidableEq

/-- `Time.UTC`. -/
def ZonedTime.utc (t : ZonedTime) : ZonedTime := { t with offset := 0 }

/-- `appendInt`: a number with at least `w` digits. -/
def appendInt (x : ℤ) (w : ℕ) : List Char :=
  (if x < 0 then ['-'] else []) ++ if x.natAbs < 10 ^ w then digits w x.natAbs else Nat.toDigits 10 x.natAbs

/-- The zone of a layout's `Z07:00`. -/
def appendZone (offset : ℤ) : List Char :=
  let zone := offset.tdiv 60
  if offset = 0 then ['Z']
  else (if zone < 0 then '-' else '+') :: (appendInt (zone.natAbs / 60 : ℕ) 2 ++ ':' :: appendInt (zone.natAbs % 60 : ℕ) 2)

/-- The hour of a time on the wall clock. -/
def hourOf (wall : Time) : ℕ := (wall % day / hour).toNat

/-- The minute. -/
def minuteOf (wall : Time) : ℕ := (wall % hour / minute).toNat

/-- The second. -/
def secondOf (wall : Time) : ℕ := (wall % minute / 10 ^ 9).toNat

/-- The nanosecond. -/
def nanosecondOf (wall : Time) : ℕ := (wall % 10 ^ 9).toNat

/-- `Time.Format` with `timeFormat`, "2006-01-02T15:04:05.000000000Z07:00". -/
def format (t : ZonedTime) : String :=
  let wall := t.instant + t.offset * 10 ^ 9
  let (year, month, dayOfMonth) := date (wall / day)
  String.ofList <|
    appendInt year 4 ++ '-' :: (appendInt month 2 ++ '-' :: (appendInt dayOfMonth 2 ++ 'T' ::
      (appendInt (hourOf wall) 2 ++ ':' :: (appendInt (minuteOf wall) 2 ++ ':' :: (appendInt (secondOf wall) 2 ++ '.' ::
        (appendInt (nanosecondOf wall) 9 ++ appendZone t.offset))))))

/-- `formatTime`. -/
def formatTime (t : ZonedTime) : String := format t.utc

/-! ## Reading -/

/-- `parseUint` of `parseRFC3339`: digits within a range. -/
def parseUint (cs : List Char) (lo hi : ℕ) : Option ℕ :=
  (digits? cs).bind fun n => if lo ≤ n ∧ n ≤ hi then some n else none

/-- `parseNanoseconds`: the value of a fraction's digits, of which nine count. -/
def parseNanoseconds (ds : List Char) : ℕ := Nat.ofDigitChars 10 (ds.take 9) 0 * 10 ^ (9 - (ds.take 9).length)

/-- `isDigit`. -/
def isDigit (c : Char) : Bool := '0' ≤ c ∧ c ≤ '9'

/-- The fraction of a second, and what follows it. -/
def parseFraction (s : List Char) : ℕ × List Char :=
  match s with
  | '.' :: c :: rest =>
    if isDigit c then (parseNanoseconds ((c :: rest).takeWhile isDigit), (c :: rest).dropWhile isDigit) else (0, s)
  | _ => (0, s)

/-- The zone of a time that was read as UTC. -/
def parseZone (t : Time) : List Char → Option ZonedTime
  | ['Z'] => some ⟨t, 0⟩
  | [sign, h₁, h₂, colon, m₁, m₂] => do
    let hr ← parseUint [h₁, h₂] 0 23
    let mm ← parseUint [m₁, m₂] 0 59
    if (sign = '-' ∨ sign = '+') ∧ colon = ':' then
      let zoneOffset : ℤ := if sign = '-' then -((hr * 60 + mm) * 60 : ℤ) else (hr * 60 + mm) * 60
      return ⟨t - zoneOffset * 10 ^ 9, zoneOffset⟩
    else none
  | _ => none

/-- The instant of a date and a clock. -/
def instantOf (y m d h mi s ns : ℕ) : ℤ := dayNumber y m d * day + h * hour + mi * minute + s * 10 ^ 9 + ns

/-- `parseRFC3339`. -/
def parseRFC3339 : List Char → Option ZonedTime
  | y₁ :: y₂ :: y₃ :: y₄ :: c₁ :: mo₁ :: mo₂ :: c₂ :: d₁ :: d₂ :: c₃ :: h₁ :: h₂ :: c₄ :: mi₁ :: mi₂ :: c₅ :: s₁ :: s₂ :: rest => do
    let y ← parseUint [y₁, y₂, y₃, y₄] 0 9999
    let mo ← parseUint [mo₁, mo₂] 1 12
    let d ← parseUint [d₁, d₂] 1 (daysIn y mo)
    let h ← parseUint [h₁, h₂] 0 23
    let mi ← parseUint [mi₁, mi₂] 0 59
    let s ← parseUint [s₁, s₂] 0 59
    if c₁ = '-' ∧ c₂ = '-' ∧ c₃ = 'T' ∧ c₄ = ':' ∧ c₅ = ':' then
      let (ns, rest) := parseFraction rest
      parseZone (instantOf y mo d h mi s ns) rest
    else none
  | _ => none

/-- `parseStoredTime`. `time.Parse` tries `parseRFC3339` first; `parse` is what it does with a text that this refuses. -/
def parseStoredTime (X : External) (parse : String → Except String ZonedTime) (s : String) : Except String ZonedTime :=
  match parseRFC3339 s.toList with
  | some t => .ok t.utc
  | none =>
    match parse s with
    | .ok t => .ok t.utc
    | .error e => .error s!"parse stored time {X.quote s}: {e}"

/-! ## Fields -/

/-- The instant's UTC year is one of four digits. -/
def ZonedTime.FourDigitYear (t : ZonedTime) : Prop := 0 ≤ (date (t.instant / day)).1 ∧ (date (t.instant / day)).1 ≤ 9999

instance (t : ZonedTime) : Decidable t.FourDigitYear := inferInstanceAs (Decidable (_ ∧ _))

/-- The seven fields of a stored time. -/
def fields (t : Time) : List ℕ :=
  [(date (t / day)).1.toNat, (date (t / day)).2.1, (date (t / day)).2.2, hourOf t, minuteOf t, secondOf t, nanosecondOf t]

/-- The layout of a stored time: the width of each field and the mark behind it. -/
def layout : List (ℕ × Char) := [(4, '-'), (2, '-'), (2, 'T'), (2, ':'), (2, ':'), (2, '.'), (9, 'Z')]

/-- The clock of an instant: each field is within its range, and together they are what is past of the day. -/
theorem clock_spec (t : ℤ) :
    hourOf t < 24 ∧ minuteOf t < 60 ∧ secondOf t < 60 ∧ nanosecondOf t < 10 ^ 9 ∧
      t = t / day * day + hourOf t * hour + minuteOf t * minute + secondOf t * 10 ^ 9 + nanosecondOf t := by
  have hday : day = 86400000000000 := by norm_num [day, hour]
  have hhour : hour = 3600000000000 := by norm_num [hour]
  have hminute : minute = 60000000000 := by norm_num [minute]
  have hsecond : (10 : ℤ) ^ 9 = 1000000000 := by norm_num
  unfold hourOf minuteOf secondOf nanosecondOf
  rw [hday, hhour, hminute, hsecond, show (10 : ℕ) ^ 9 = 1000000000 by norm_num]
  refine ⟨?_, ?_, ?_, ?_, ?_⟩ <;> omega

/-- The longest month has 31 days. -/
theorem daysIn_le (y m : ℕ) : daysIn y m ≤ 31 := by
  unfold daysIn
  split_ifs <;> omega

/-- The fields of an instant of a four-digit year are a date and a clock, and give the instant back. -/
theorem instantOf_fields {t : ℤ} (h : 0 ≤ (date (t / day)).1) :
    ValidDate (date (t / day)).1.toNat (date (t / day)).2.1 (date (t / day)).2.2 ∧
      t = instantOf (date (t / day)).1.toNat (date (t / day)).2.1 (date (t / day)).2.2 (hourOf t) (minuteOf t) (secondOf t)
        (nanosecondOf t) := by
  obtain ⟨hvalid, hdays⟩ := date_spec h
  refine ⟨hvalid, ?_⟩
  unfold instantOf
  rw [hdays]
  exact (clock_spec t).2.2.2.2

variable {t t' : ZonedTime}

/-- The fields of an instant of a four-digit year fit the layout. -/
theorem fits_fields (h : t.FourDigitYear) : Fits layout (fields t.instant) := by
  obtain ⟨hvalid, -⟩ := date_spec h.1
  obtain ⟨hh, hmi, hs, hns, -⟩ := clock_spec t.instant
  have hyear := h.2
  have hmonth := hvalid.month_le
  have hday := hvalid.day_le.trans (daysIn_le _ _)
  refine .cons ?_ (.cons ?_ (.cons ?_ (.cons ?_ (.cons ?_ (.cons ?_ (.cons ?_ .nil))))))
  all_goals norm_num
  all_goals omega

/-- A number of at most `w` digits. -/
theorem appendInt_natCast {n w : ℕ} (h : n < 10 ^ w) : appendInt n w = digits w n := by
  have hsign : ¬ (n : ℤ) < 0 := by omega
  rw [appendInt, if_neg hsign, Int.natAbs_natCast, if_pos h, List.nil_append]

/-- A stored time of a four-digit year is its fields in the layout. -/
theorem formatTime_eq (h : t.FourDigitYear) :
    formatTime t = String.ofList (render layout (fields t.instant)) := by
  have hfits := fits_fields h
  obtain _ | ⟨h₁, _ | ⟨h₂, _ | ⟨h₃, _ | ⟨h₄, _ | ⟨h₅, _ | ⟨h₆, _ | ⟨h₇, -⟩⟩⟩⟩⟩⟩⟩ := hfits
  have hwall : t.instant + 0 * 10 ^ 9 = t.instant := by ring
  have hyear : appendInt (date (t.instant / day)).1 4 = digits 4 (date (t.instant / day)).1.toNat := by
    conv_lhs => rw [← Int.toNat_of_nonneg h.1]
    exact appendInt_natCast h₁
  simp only [formatTime, format, ZonedTime.utc, hwall, appendZone, if_true]
  rw [hyear, appendInt_natCast h₂, appendInt_natCast h₃, appendInt_natCast h₄, appendInt_natCast h₅, appendInt_natCast h₆,
    appendInt_natCast h₇]
  rfl

/-! ## Order -/

/-- A date and a clock before another date and clock are before it in time. -/
theorem instantOf_lt {y m d h mi s ns y' m' d' h' mi' s' ns' : ℕ} (hdate : ValidDate y m d) (hdate' : ValidDate y' m' d')
    (hh : h < 24) (hmi : mi < 60) (hs : s < 60) (hns : ns < 10 ^ 9)
    (hlt : [y, m, d, h, mi, s, ns] < [y', m', d', h', mi', s', ns']) :
    instantOf y m d h mi s ns < instantOf y' m' d' h' mi' s' ns' := by
  have hday : day = 86400000000000 := by norm_num [day, hour]
  have hhour : hour = 3600000000000 := by norm_num [hour]
  have hminute : minute = 60000000000 := by norm_num [minute]
  have hsecond : (10 : ℤ) ^ 9 = 1000000000 := by norm_num
  rw [show (10 : ℕ) ^ 9 = 1000000000 by norm_num] at hns
  unfold instantOf
  rw [hday, hhour, hminute, hsecond]
  by_cases hsame : y = y' ∧ m = m' ∧ d = d'
  · obtain ⟨rfl, rfl, rfl⟩ := hsame
    simp only [List.cons_lt_cons_iff, lt_irrefl, false_or, true_and, and_false, or_false] at hlt
    omega
  · -- The clock is less than a day, so the dates decide.
    have hdays : dayNumber y m d < dayNumber y' m' d' := by
      refine dayNumber_lt hdate hdate' ?_
      simp only [List.cons_lt_cons_iff] at hlt
      omega
    omega

/-- The fields of instants of four-digit years tell them apart. -/
theorem fields_inj (h : t.FourDigitYear) (h' : t'.FourDigitYear) (heq : fields t.instant = fields t'.instant) :
    t.instant = t'.instant := by
  obtain ⟨-, hinst⟩ := instantOf_fields h.1
  obtain ⟨-, hinst'⟩ := instantOf_fields h'.1
  simp only [fields, List.cons.injEq, and_true] at heq
  obtain ⟨hy, hm, hd, hh, hmi, hs, hns⟩ := heq
  rw [hinst, hinst', hy, hm, hd, hh, hmi, hs, hns]

/-- Instants of four-digit years are in the order of their fields. -/
theorem fields_lt_iff (h : t.FourDigitYear) (h' : t'.FourDigitYear) :
    fields t.instant < fields t'.instant ↔ t.instant < t'.instant := by
  have hlt : ∀ {t t' : ZonedTime}, t.FourDigitYear → t'.FourDigitYear → fields t.instant < fields t'.instant →
      t.instant < t'.instant := by
    intro t t' h h' hlt
    obtain ⟨hvalid, heq⟩ := instantOf_fields h.1
    obtain ⟨hvalid', heq'⟩ := instantOf_fields h'.1
    obtain ⟨hh, hmi, hs, hns, -⟩ := clock_spec t.instant
    rw [heq, heq']
    exact instantOf_lt hvalid hvalid' hh hmi hs hns hlt
  refine ⟨hlt h h', fun hinst => ?_⟩
  rcases lt_trichotomy (fields t.instant) (fields t'.instant) with hfields | hfields | hfields
  · exact hfields
  · exact absurd (fields_inj h h' hfields) hinst.ne
  · exact absurd (hlt h' h hfields) (not_lt.mpr hinst.le)

/-- Stored times sort as their instants. -/
theorem formatTime_lt_iff (h : t.FourDigitYear) (h' : t'.FourDigitYear) :
    formatTime t < formatTime t' ↔ t.instant < t'.instant := by
  rw [formatTime_eq h, formatTime_eq h', String.lt_iff_toList_lt, String.toList_ofList, String.toList_ofList,
    render_lt_iff (fits_fields h) (fits_fields h'), fields_lt_iff h h']

/-- Stored times are equal only for one instant. -/
theorem formatTime_eq_iff (h : t.FourDigitYear) (h' : t'.FourDigitYear) :
    formatTime t = formatTime t' ↔ t.instant = t'.instant := by
  constructor
  · intro heq
    have hlt := formatTime_lt_iff h h'
    have hgt := formatTime_lt_iff h' h
    rw [heq] at hlt hgt
    exact le_antisymm (not_lt.mp fun hgt' => absurd (hgt.mpr hgt') (lt_irrefl _))
      (not_lt.mp fun hlt' => absurd (hlt.mpr hlt') (lt_irrefl _))
  · intro heq
    unfold formatTime ZonedTime.utc
    rw [heq]

/-! ## Reading back -/

/-- A field is read back from its digits. -/
theorem parseUint_digits {w n lo hi : ℕ} (hw : 0 < w) (h : n < 10 ^ w) (hlo : lo ≤ n) (hhi : n ≤ hi) :
    parseUint (digits w n) lo hi = some n := by
  have hne : digits w n ≠ [] := by
    rw [← List.length_pos_iff, length_digits]
    exact hw
  rw [parseUint, digits?_of_digits hne fun c hc => mem_digits hc, ofDigitChars_digits, Nat.mod_eq_of_lt h, Option.bind_some,
    if_pos ⟨hlo, hhi⟩]

/-- The nanoseconds are read back from their nine digits. -/
theorem parseFraction_digits {ns : ℕ} (h : ns < 10 ^ 9) : parseFraction ('.' :: (digits 9 ns ++ ['Z'])) = (ns, ['Z']) := by
  have hdigits : ∀ c ∈ digits 9 ns, isDigit c = true := fun c hc => decide_eq_true (mem_digits hc)
  have hstop : ¬ isDigit 'Z' = true := by decide
  have hlen := length_digits 9 ns
  have hvalue := ofDigitChars_digits 9 ns
  rw [Nat.mod_eq_of_lt h] at hvalue
  obtain ⟨c, rest, hds⟩ := List.exists_cons_of_ne_nil (List.ne_nil_of_length_eq_add_one hlen)
  have htake : (digits 9 ns ++ ['Z']).takeWhile isDigit = digits 9 ns := by
    rw [List.takeWhile_append_of_pos hdigits, List.takeWhile_cons_of_neg hstop, List.append_nil]
  have hdrop : (digits 9 ns ++ ['Z']).dropWhile isDigit = ['Z'] := by
    rw [List.dropWhile_append_of_pos hdigits, List.dropWhile_cons_of_neg hstop]
  have hnanos : parseNanoseconds (digits 9 ns) = ns := by
    rw [parseNanoseconds, List.take_of_length_le hlen.le, hlen, hvalue]
    simp
  have hc : isDigit c = true := hdigits c (by rw [hds]; simp)
  rw [hds] at htake hdrop hnanos ⊢
  rw [List.cons_append] at htake hdrop ⊢
  simp only [parseFraction, hc, if_true]
  rw [htake, hdrop, hnanos]

/-- The fields of a stored time are read from where the layout puts them. -/
theorem parseRFC3339_render (y mo d h mi s ns : ℕ) :
    parseRFC3339 (render layout [y, mo, d, h, mi, s, ns]) =
      (do
        let y ← parseUint (digits 4 y) 0 9999
        let mo ← parseUint (digits 2 mo) 1 12
        let d ← parseUint (digits 2 d) 1 (daysIn y mo)
        let h ← parseUint (digits 2 h) 0 23
        let mi ← parseUint (digits 2 mi) 0 59
        let s ← parseUint (digits 2 s) 0 59
        let (ns, rest) := parseFraction ('.' :: (digits 9 ns ++ ['Z']))
        parseZone (instantOf y mo d h mi s ns) rest) := rfl

/-- A stored time is read back, to the nanosecond. -/
theorem parseRFC3339_formatTime (h : t.FourDigitYear) :
    parseRFC3339 (formatTime t).toList = some ⟨t.instant, 0⟩ := by
  obtain ⟨hvalid, heq⟩ := instantOf_fields h.1
  obtain ⟨hh, hmi, hs, hns, -⟩ := clock_spec t.instant
  rw [formatTime_eq h, String.toList_ofList, fields, parseRFC3339_render]
  have hmonth := hvalid.month_le
  have hlong := hvalid.day_le.trans (daysIn_le _ _)
  have hyear := h.2
  have ey : parseUint (digits 4 (date (t.instant / day)).1.toNat) 0 9999 = some (date (t.instant / day)).1.toNat :=
    parseUint_digits (by norm_num) (by norm_num; omega) (Nat.zero_le _) (by omega)
  have emo : parseUint (digits 2 (date (t.instant / day)).2.1) 1 12 = some (date (t.instant / day)).2.1 :=
    parseUint_digits (by norm_num) (by norm_num; omega) hvalid.one_le_month hmonth
  have ed := parseUint_digits (w := 2) (by norm_num) (by norm_num; omega) hvalid.one_le_day hvalid.day_le
  have eh : parseUint (digits 2 (hourOf t.instant)) 0 23 = some (hourOf t.instant) :=
    parseUint_digits (by norm_num) (by norm_num; omega) (Nat.zero_le _) (by omega)
  have emi : parseUint (digits 2 (minuteOf t.instant)) 0 59 = some (minuteOf t.instant) :=
    parseUint_digits (by norm_num) (by norm_num; omega) (Nat.zero_le _) (by omega)
  have es : parseUint (digits 2 (secondOf t.instant)) 0 59 = some (secondOf t.instant) :=
    parseUint_digits (by norm_num) (by norm_num; omega) (Nat.zero_le _) (by omega)
  simp only [ey, emo, ed, eh, emi, es, parseFraction_digits hns, Option.bind_eq_bind, Option.bind_some]
  rw [← heq]
  rfl

/-- A stored time is read back. -/
theorem parseStoredTime_formatTime (X : External) (parse : String → Except String ZonedTime) (h : t.FourDigitYear) :
    parseStoredTime X parse (formatTime t) = .ok t.utc := by
  rw [parseStoredTime, parseRFC3339_formatTime h]
  rfl

end UpgradeScope.Store
