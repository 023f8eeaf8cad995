import Mathlib.Data.List.Sort
import Mathlib.Data.List.AList
import Mathlib.Data.Prod.Lex
import Mathlib.Data.String.Basic
import Mathlib.Tactic

/-!
# Go's strings, integers and dates

The functions of Go's `strings`, `strconv`, `path` and `time` packages that a service's logic is
built from, on Lean's `String` read as its list of characters. A Go string that reached the program
through JSON is valid UTF-8, where comparing bytes and comparing characters agree; `byteLen` is
Go's `len`. Machine integers are integers wrapped to 64 bits (`wrap64`) where a program can overflow
them.
-/

namespace Go

/-! ## Integers -/

/-- The largest value of Go's `int`. -/
def maxInt : ℤ := 2 ^ 63 - 1

/-- An integer reduced to Go's 64-bit signed `int`. -/
def wrap64 (z : ℤ) : ℤ := z.bmod (2 ^ 64)

/-- An integer in the range of Go's `int` is kept. -/
theorem wrap64_of_range {z : ℤ} (hlo : -2 ^ 63 ≤ z) (hhi : z ≤ maxInt) : wrap64 z = z := by
  unfold maxInt at hhi
  exact Int.bmod_eq_of_le (by norm_num at *; omega) (by norm_num at *; omega)

/-! ## Cutting and splitting -/

/-- `len` of a string: its bytes. -/
def byteLen (s : String) : ℕ := s.utf8ByteSize

/-- The characters before and after the first `sep`. -/
def cutChars (sep : Char) : List Char → Option (List Char × List Char)
  | [] => none
  | c :: cs => if c = sep then some ([], cs) else (cutChars sep cs).map fun p => (c :: p.1, p.2)

/-- `strings.Cut` at a one-character separator: what is before it, what is after it, and whether
it was found; without one, the string and nothing. -/
def cut (s : String) (sep : Char) : String × String × Bool :=
  match cutChars sep s.toList with
  | some (before, after) => (String.ofList before, String.ofList after, true)
  | none => (s, "", false)

/-- The characters before and after the first occurrence of the text `sep`. -/
def cutAtChars (sep : List Char) : List Char → Option (List Char × List Char)
  | [] => if sep = [] then some ([], []) else none
  | c :: cs =>
    if sep.isPrefixOf (c :: cs) then some ([], (c :: cs).drop sep.length)
    else (cutAtChars sep cs).map fun p => (c :: p.1, p.2)

/-- `strings.Cut` at a separator of several characters, when it is found. -/
def cutAt (s sep : String) : Option (String × String) :=
  (cutAtChars sep.toList s.toList).map fun p => (String.ofList p.1, String.ofList p.2)

/-- `strings.Split` at a one-character separator. -/
def split (s : String) (sep : Char) : List String := (s.toList.splitOn sep).map String.ofList

/-- `strings.SplitN` at a one-character separator: at most `n` pieces, the last one the rest. -/
def splitN (sep : Char) : ℕ → List Char → List (List Char)
  | 0, _ => []
  | 1, s => [s]
  | n + 2, s =>
    match cutChars sep s with
    | some (before, after) => before :: splitN sep (n + 1) after
    | none => [s]

/-- `strings.Join`. -/
def join (parts : List String) (sep : String) : String := sep.intercalate parts

/-- `strings.HasPrefix`. -/
def hasPrefix (s pre : String) : Bool := pre.toList.isPrefixOf s.toList

/-- `strings.HasSuffix`. -/
def hasSuffix (s suf : String) : Bool := suf.toList.isSuffixOf s.toList

/-- `strings.CutPrefix`, when the string has the prefix. -/
def cutPrefix? (s pre : String) : Option String :=
  if hasPrefix s pre then some (String.ofList (s.toList.drop pre.toList.length)) else none

/-- `strings.TrimPrefix`. -/
def trimPrefix (s pre : String) : String := (cutPrefix? s pre).getD s

/-- `strings.CutSuffix`, when the string has the suffix. -/
def cutSuffix? (s suf : String) : Option String :=
  if hasSuffix s suf then some (String.ofList (s.toList.take (s.toList.length - suf.toList.length)))
  else none

/-- `strings.TrimSuffix`. -/
def trimSuffix (s suf : String) : String := (cutSuffix? s suf).getD s

/-- `strings.Contains`. -/
def contains (s sub : String) : Bool := s.toList.tails.any (sub.toList.isPrefixOf ·)

/-- `strings.Count` of one character. -/
def count (s : String) (c : Char) : ℕ := s.toList.count c

/-- `strings.Replace` of the first occurrence. -/
def replaceFirst (s old new : String) : String :=
  match cutAt s old with
  | some (before, after) => before ++ new ++ after
  | none => s

/-- What `strings.IndexAny(s, "-+")` splits a version at: the text before the first `-` or `+`, and
the text from it on. -/
def cutSuffixMark (s : String) : String × String :=
  (String.ofList (s.toList.takeWhile fun c => c ≠ '-' ∧ c ≠ '+'),
    String.ofList (s.toList.dropWhile fun c => c ≠ '-' ∧ c ≠ '+'))

/-- `unicode.IsSpace`: the characters with Unicode's White_Space property. -/
def isSpace (c : Char) : Bool :=
  [0x09, 0x0a, 0x0b, 0x0c, 0x0d, 0x20, 0x85, 0xa0, 0x1680, 0x2028, 0x2029, 0x202f, 0x205f,
    0x3000].contains c.toNat || (0x2000 ≤ c.toNat && c.toNat ≤ 0x200a)

/-- `strings.TrimSpace`. -/
def trimSpace (s : String) : String :=
  String.ofList ((s.toList.dropWhile isSpace).reverse.dropWhile isSpace).reverse

/-- `cmp.Or` of two strings: the first that is not empty. -/
def orElse (s t : String) : String := if s = "" then t else s

/-! ### What the cutting functions return -/

variable {sep c : Char} {s p : String} {cs : List Char}

/-- A cut is found exactly at the first separator. -/
theorem cutChars_eq_some {s a b : List Char} :
    cutChars sep s = some (a, b) ↔ s = a ++ sep :: b ∧ sep ∉ a := by
  induction s generalizing a with
  | nil => simp [cutChars]
  | cons c cs ih =>
    rw [cutChars]
    split_ifs with hc
    · subst hc
      cases a with
      | nil => simp [eq_comm]
      | cons d a => simp; rintro rfl; simp
    · cases a with
      | nil => simp [hc]
      | cons d a =>
        simp only [Option.map_eq_some_iff, Prod.mk.injEq, List.cons.injEq, Prod.exists, List.cons_append,
          List.mem_cons, not_or]
        constructor
        · rintro ⟨a', b', h, ⟨rfl, rfl⟩, rfl⟩
          obtain ⟨rfl, hn⟩ := ih.mp h
          exact ⟨⟨rfl, rfl⟩, fun h => hc h.symm, hn⟩
        · rintro ⟨⟨rfl, rfl⟩, -, hn⟩
          exact ⟨a, b, ih.mpr ⟨rfl, hn⟩, ⟨rfl, rfl⟩, rfl⟩

/-- No cut is found exactly where there is no separator. -/
theorem cutChars_eq_none {s : List Char} : cutChars sep s = none ↔ sep ∉ s := by
  constructor
  · intro hnone hmem
    obtain ⟨a, b, hs, ha⟩ := List.eq_append_cons_of_mem hmem
    rw [cutChars_eq_some.mpr ⟨hs, ha⟩] at hnone
    simp at hnone
  · intro hnot
    refine Option.eq_none_iff_forall_ne_some.mpr fun p hp => hnot ?_
    rw [(cutChars_eq_some.mp hp).1]
    simp

/-- `cut` where there is no separator. -/
theorem cut_of_notMem (h : sep ∉ s.toList) : cut s sep = (s, "", false) := by
  unfold cut
  rw [cutChars_eq_none.mpr h]

/-- `cut` at a separator that is not in the text before it. -/
theorem cut_append (sep : Char) (a b : String) (ha : sep ∉ a.toList) :
    cut (a ++ String.singleton sep ++ b) sep = (a, b, true) := by
  unfold cut
  have h : (a ++ String.singleton sep ++ b).toList = a.toList ++ sep :: b.toList := by simp
  rw [h, cutChars_eq_some.mpr ⟨rfl, ha⟩]
  simp

/-- A string has a prefix exactly when it is the prefix and something more. -/
theorem hasPrefix_iff {s pre : String} : hasPrefix s pre = true ↔ ∃ t, s = pre ++ t := by
  unfold hasPrefix
  rw [List.isPrefixOf_iff_prefix]
  constructor
  · rintro ⟨t, ht⟩
    refine ⟨String.ofList t, ?_⟩
    rw [← String.toList_inj, String.toList_append, String.toList_ofList, ht]
  · rintro ⟨t, rfl⟩
    exact ⟨t.toList, by simp⟩

/-- A one-character text is cut off exactly where a text begins with it. -/
theorem cutPrefix?_of_cons {rest : List Char} (h : s.toList = c :: rest) :
    cutPrefix? s (String.singleton c) = some (String.ofList rest) := by
  simp [cutPrefix?, hasPrefix, h]

/-- Nothing is cut off a text that does not begin with the character. -/
theorem cutPrefix?_of_head (h : s.toList.head? ≠ some c) :
    cutPrefix? s (String.singleton c) = none := by
  cases hs : s.toList with
  | nil => simp [cutPrefix?, hasPrefix, hs]
  | cons d rest =>
    have hne : ¬ c = d := by
      rintro rfl
      exact h (by rw [hs]; rfl)
    simp [cutPrefix?, hasPrefix, hs, hne]

/-- A suffix is cut off exactly where it stands. -/
theorem cutSuffix?_eq_some {s suf base : String} :
    cutSuffix? s suf = some base ↔ s = base ++ suf := by
  unfold cutSuffix? hasSuffix
  constructor
  · intro h
    split_ifs at h with hsuf
    obtain ⟨t, ht⟩ := List.isSuffixOf_iff_suffix.mp hsuf
    obtain rfl := Option.some.inj h
    rw [← String.toList_inj, String.toList_append, String.toList_ofList, ← ht]
    simp
  · rintro rfl
    rw [if_pos (List.isSuffixOf_iff_suffix.mpr ⟨base.toList, by simp⟩)]
    simp

/-- The pieces of a split do not hold the separator. -/
theorem notMem_of_mem_splitOn {s p : List Char} (h : p ∈ s.splitOn sep) : sep ∉ p := by
  induction s generalizing p with
  | nil =>
    rw [List.splitOn_nil, List.mem_singleton] at h
    simp [h]
  | cons c cs ih =>
    rw [List.splitOn_cons_eq_if_modifyHead] at h
    split_ifs at h with hc
    · rcases List.mem_cons.mp h with rfl | h
      · simp
      · exact ih h
    · obtain ⟨hd, tl, htl⟩ := List.exists_cons_of_ne_nil (List.splitOn_ne_nil sep cs)
      rw [htl] at h ih
      rcases List.mem_cons.mp h with rfl | h
      · have hhd := ih (p := hd) (by simp)
        have hne : ¬ sep = c := fun h => hc (by simp [h])
        simp [hne, hhd]
      · exact ih (by simp [h])

/-- The pieces of `split` do not hold the separator. -/
theorem notMem_of_mem_split (h : p ∈ split s sep) : sep ∉ p.toList := by
  obtain ⟨q, hq, rfl⟩ := List.mem_map.mp h
  rw [String.toList_ofList]
  exact notMem_of_mem_splitOn hq

/-- What is in joined texts is in one of them or in the separator. -/
theorem mem_of_mem_intercalate {sep : List Char} {ls : List (List Char)} (h : c ∈ sep.intercalate ls) :
    c ∈ sep ∨ ∃ l ∈ ls, c ∈ l := by
  induction ls with
  | nil => simp at h
  | cons l ls ih =>
    cases ls with
    | nil => exact .inr ⟨l, by simp, by simpa using h⟩
    | cons l' ls =>
      rw [List.intercalate_cons_cons, List.mem_append, List.mem_append] at h
      rcases h with (h | h) | h
      · exact .inr ⟨l, by simp, h⟩
      · exact .inl h
      · rcases ih h with h | ⟨m, hm, hc⟩
        · exact .inl h
        · exact .inr ⟨m, List.mem_cons_of_mem l hm, hc⟩

/-- A text before the first separator and the text after it are read off the whole. -/
theorem append_sep_inj {a b a' b' : List Char} (ha : sep ∉ a) (ha' : sep ∉ a') (h : a ++ sep :: b = a' ++ sep :: b') :
    a = a' ∧ b = b' := by
  have h1 : cutChars sep (a ++ sep :: b) = some (a, b) := cutChars_eq_some.mpr ⟨rfl, ha⟩
  have h2 : cutChars sep (a ++ sep :: b) = some (a', b') := cutChars_eq_some.mpr ⟨h, ha'⟩
  have := h1.symm.trans h2
  simpa using this

/-! ## Numbers -/

/-- The value of a non-empty run of decimal digits. -/
def digits? (cs : List Char) : Option ℕ :=
  if cs = [] then none
  else cs.foldl (fun n c =>
    n.bind fun n => if '0' ≤ c ∧ c ≤ '9' then some (10 * n + (c.toNat - 48)) else none) (some 0)

/-- `strconv.Atoi`: an optional sign and decimal digits, within 64 bits. -/
def atoi (s : String) : Option ℤ :=
  match s.toList with
  | '-' :: cs => (digits? cs).bind fun n => if n ≤ 2 ^ 63 then some (-(n : ℤ)) else none
  | '+' :: cs => (digits? cs).bind fun n => if n < 2 ^ 63 then some (n : ℤ) else none
  | cs => (digits? cs).bind fun n => if n < 2 ^ 63 then some (n : ℤ) else none

/-- The value of digits, read on from another value. -/
theorem foldl_digits (h : ∀ c ∈ cs, '0' ≤ c ∧ c ≤ '9') (n : ℕ) :
    cs.foldl (fun n c => n.bind fun n => if '0' ≤ c ∧ c ≤ '9' then some (10 * n + (c.toNat - 48)) else none) (some n) =
      some (Nat.ofDigitChars 10 cs n) := by
  induction cs generalizing n with
  | nil => rfl
  | cons c cs ih =>
    have hc : '0' ≤ c ∧ c ≤ '9' := h c List.mem_cons_self
    rw [List.foldl_cons, Option.bind_some, if_pos hc, ih fun d hd => h d (List.mem_cons_of_mem c hd),
      Nat.ofDigitChars_cons]
    rfl

/-- The value of a non-empty run of digits. -/
theorem digits?_of_digits (hne : cs ≠ []) (h : ∀ c ∈ cs, '0' ≤ c ∧ c ≤ '9') :
    digits? cs = some (Nat.ofDigitChars 10 cs 0) := by
  rw [digits?, if_neg hne]
  exact foldl_digits h 0

/-- `atoi` of digits: their value, if it is within 64 bits. -/
theorem atoi_of_digits (hne : p.toList ≠ []) (h : ∀ c ∈ p.toList, '0' ≤ c ∧ c ≤ '9') :
    atoi p = if (Nat.ofDigitChars 10 p.toList 0 : ℤ) ≤ maxInt then some (Nat.ofDigitChars 10 p.toList 0 : ℤ) else none := by
  unfold atoi
  -- A sign is no digit, so only the last branch is left.
  split
  · rename_i cs hcs
    exact absurd (h '-' (by rw [hcs]; simp)).1 (by decide)
  · rename_i cs hcs
    exact absurd (h '+' (by rw [hcs]; simp)).1 (by decide)
  · rw [digits?_of_digits hne h, Option.bind_some]
    unfold maxInt
    split_ifs <;> first | rfl | omega

/-- The decimal text of a number is its own. -/
theorem natRepr_injective {m n : ℕ} (h : m.repr = n.repr) : m = n := by
  have hdigits : Nat.toDigits 10 m = Nat.toDigits 10 n := by
    simpa using congrArg String.toList h
  have := congrArg (Nat.ofDigitChars 10 · 0) hdigits
  simpa using this

/-- The decimal text of a number has digits only. -/
theorem notMem_natRepr {n : ℕ} (hc : c.isDigit = false) : c ∉ n.repr.toList := by
  intro hmem
  rw [Nat.toList_repr] at hmem
  rw [Nat.isDigit_of_mem_toDigits (by decide) (by decide) hmem] at hc
  simp at hc

/-- The decimal text of an integer has no dot. -/
theorem dot_notMem_intRepr (z : ℤ) : '.' ∉ z.repr.toList := by
  rw [Int.repr_eq_if]
  split_ifs
  · exact notMem_natRepr (by decide)
  · rw [String.toList_append, List.mem_append, not_or]
    exact ⟨by decide, notMem_natRepr (by decide)⟩

/-- The decimal text of an integer is its own. -/
theorem intRepr_injective {a b : ℤ} (h : a.repr = b.repr) : a = b := by
  -- A sign is no digit.
  have hsign : ∀ m n : ℕ, m.repr ≠ "-" ++ n.repr := by
    intro m n heq
    have hmem : '-' ∈ m.repr.toList := by
      rw [heq, String.toList_append]
      exact List.mem_append_left _ (by decide)
    exact notMem_natRepr (by decide) hmem
  rw [Int.repr_eq_if, Int.repr_eq_if] at h
  split_ifs at h with ha hb hb
  · have := natRepr_injective h
    omega
  · exact absurd h (hsign _ _)
  · exact absurd h.symm (hsign _ _)
  · have := natRepr_injective ((String.append_right_inj _).mp h)
    omega

/-! ## Dates -/

/-- An instant in nanoseconds since Go's zero time (1 January of year 1, UTC); `0` is `IsZero`. -/
abbrev Time := ℤ

/-- One hour. -/
def hour : ℤ := 3600 * 10 ^ 9

/-- One day. -/
def day : ℤ := 24 * hour

/-- One minute. -/
def minute : ℤ := 60 * 10 ^ 9

/-- Whether a year of the proleptic Gregorian calendar is a leap year. -/
def leapYear (y : ℕ) : Bool := y % 4 = 0 ∧ (y % 100 ≠ 0 ∨ y % 400 = 0)

/-- The days of a month. -/
def daysIn (y m : ℕ) : ℕ :=
  if m = 2 then (if leapYear y then 29 else 28)
  else if m = 4 ∨ m = 6 ∨ m = 9 ∨ m = 11 then 30 else 31

/-- The days from 1 January of year 1 to a date. -/
def dayNumber (y m d : ℕ) : ℤ :=
  365 * ((y : ℤ) - 1) + ((y : ℤ) - 1) / 4 - ((y : ℤ) - 1) / 100 + ((y : ℤ) - 1) / 400 +
    ((List.range (m - 1)).map fun i => (daysIn y (i + 1) : ℤ)).sum + ((d : ℤ) - 1)

/-- `time.Parse("2006-01-02", s)`: midnight UTC of a valid date. -/
def parseDate (s : String) : Option Time :=
  match s.toList with
  | [y1, y2, y3, y4, '-', m1, m2, '-', d1, d2] =>
    match digits? [y1, y2, y3, y4], digits? [m1, m2], digits? [d1, d2] with
    | some y, some m, some d =>
      if 1 ≤ m ∧ m ≤ 12 ∧ 1 ≤ d ∧ d ≤ daysIn y m then some (dayNumber y m d * day) else none
    | _, _, _ => none
  | _ => none

example : parseDate "0001-01-02" = some day := by decide

/-! ## Paths -/

/-- The segments `path.Clean` keeps, on a stack: empty and `.` segments go, and `..` takes the
segment before it away, or is kept at the front of a relative path. -/
def cleanSegments (rooted : Bool) : List String → List String → List String
  | stack, [] => stack.reverse
  | stack, s :: rest =>
    if s = "" ∨ s = "." then cleanSegments rooted stack rest
    else if s = ".." then
      match stack with
      | [] => if rooted then cleanSegments rooted [] rest else cleanSegments rooted [".."] rest
      | t :: ts =>
        if t = ".." then cleanSegments rooted (".." :: stack) rest else cleanSegments rooted ts rest
    else cleanSegments rooted (s :: stack) rest

/-- `path.Clean`. -/
def pathClean (p : String) : String :=
  let rooted := hasPrefix p "/"
  let segs := cleanSegments rooted [] (split p '/')
  if rooted then "/" ++ join segs "/" else if segs = [] then "." else join segs "/"

/-- `path.Join` of two elements: the non-empty ones joined by a slash, cleaned. -/
def pathJoin (a b : String) : String :=
  match [a, b].filter (· ≠ "") with
  | [] => ""
  | parts => pathClean (join parts "/")

end Go
