import UpgradeScope.Inventory.Version

/-!
# The grammar of versions

What `parseVersion` accepts, said without it: an optional `v`, two or three runs of digits between dots, and after
three an optional pre-release and an optional build. `parseVersion` cuts a text at its first `-` or `+` and then splits
at dots; the grammar says what the pieces are, so each step of the parser is an equivalence with a part of the grammar
(`parseComponent_ok_iff`, `validIdentifiers_iff`, `validSuffix_iff`) and `parseVersion_ok_iff` puts them together.
-/

namespace UpgradeScope

open Go

/-! ## The grammar -/

namespace VersionGrammar

/-- A decimal digit. -/
def Digit (c : Char) : Prop := '0' ≤ c ∧ c ≤ '9'

/-- A character of an identifier. -/
def IdentChar (c : Char) : Prop := ('0' ≤ c ∧ c ≤ '9') ∨ ('a' ≤ c ∧ c ≤ 'z') ∨ ('A' ≤ c ∧ c ≤ 'Z') ∨ c = '-'

/-- A non-empty run of decimal digits whose value is within a 64-bit signed integer. -/
structure Number (p : List Char) (n : ℤ) : Prop where
  /-- There is a digit. -/
  ne_nil : p ≠ []
  /-- There is nothing else. -/
  digits : ∀ c ∈ p, Digit c
  /-- The number is the value of the digits. -/
  value : n = Nat.ofDigitChars 10 p 0
  /-- It is within 64 bits. -/
  le_maxInt : n ≤ maxInt

/-- A non-empty dot-separated list of non-empty identifiers. -/
def Identifiers (t : List Char) : Prop :=
  ∃ ids : List (List Char), ids ≠ [] ∧ (∀ id ∈ ids, id ≠ [] ∧ ∀ c ∈ id, IdentChar c) ∧ t = ['.'].intercalate ids

/-- A mark and identifiers, or nothing. -/
def Marked (mark : Char) (t : List Char) : Prop := t = [] ∨ ∃ ids, Identifiers ids ∧ t = mark :: ids

/-- The texts of a version. -/
inductive Text : List Char → Version → Prop
  /-- MAJOR.MINOR. -/
  | minor {v a b : List Char} {major minor : ℤ} (hv : v = [] ∨ v = ['v']) (ha : Number a major) (hb : Number b minor) :
    Text (v ++ (a ++ '.' :: b)) ⟨major, minor⟩
  /-- MAJOR.MINOR.PATCH, a pre-release and a build. -/
  | patch {v a b c pre build : List Char} {major minor patch : ℤ} (hv : v = [] ∨ v = ['v']) (ha : Number a major)
    (hb : Number b minor) (hc : Number c patch) (hpre : Marked '-' pre) (hbuild : Marked '+' build) :
    Text (v ++ (a ++ '.' :: (b ++ '.' :: c) ++ (pre ++ build))) ⟨major, minor⟩

end VersionGrammar

open VersionGrammar

/-! ## Numbers -/

variable {s : String} {X : External} {ns : List ℤ} {rest : List Char} {v : Version}

/-- A component is accepted exactly when it is a number, and is its value. -/
theorem parseComponent_ok_iff {p : String} {n : ℤ} :
    parseComponent X p = .ok n ↔ Number p.toList n := by
  have hempty : p = "" ↔ p.toList = [] := by rw [String.toList_eq_nil_iff]
  have hdigits : (p.toList.any fun c => c < '0' || c > '9') = false ↔ ∀ c ∈ p.toList, Digit c := by
    rw [List.any_eq_false]
    refine forall₂_congr fun c _ => ?_
    simp [Digit, not_or]
  unfold parseComponent
  constructor
  · intro h
    split_ifs at h with hne hany
    have hall := hdigits.mp (Bool.eq_false_iff.mpr hany)
    have hne' : p.toList ≠ [] := fun h => hne (hempty.mpr h)
    rw [atoi_of_digits hne' hall] at h
    split_ifs at h with hle
    obtain rfl := Except.ok.inj h
    exact ⟨hne', hall, rfl, hle⟩
  · intro h
    rw [if_neg (fun he => h.ne_nil (hempty.mp he)), hdigits.mpr h.digits, atoi_of_digits h.ne_nil h.digits, if_neg (by simp),
      if_pos (h.value ▸ h.le_maxInt), h.value]

/-! ## Suffixes -/

/-- Identifiers are accepted exactly when they are those of the grammar. -/
theorem validIdentifiers_iff : validIdentifiers s = true ↔ Identifiers s.toList := by
  have hchar : ∀ id : List Char,
      (id.all fun c => ('0' ≤ c ∧ c ≤ '9') ∨ ('a' ≤ c ∧ c ≤ 'z') ∨ ('A' ≤ c ∧ c ≤ 'Z') ∨ c = '-') = true ↔
        ∀ c ∈ id, IdentChar c := by
    intro id
    simp [List.all_eq_true, IdentChar]
  unfold validIdentifiers
  rw [decide_eq_true_eq, split, List.all_map, List.all_eq_true]
  constructor
  · rintro ⟨hne, hall⟩
    refine ⟨s.toList.splitOn '.', List.splitOn_ne_nil '.' _, fun id hid => ?_, (List.intercalate_splitOn '.').symm⟩
    have := hall id hid
    simp only [Function.comp_apply, decide_eq_true_eq, String.toList_ofList, hchar] at this
    exact ⟨fun hnil => this.1 (by rw [hnil]), this.2⟩
  · rintro ⟨ids, hne, hids, htext⟩
    -- No identifier holds a dot, so splitting at the dots gives the identifiers back.
    have hdot : ∀ id ∈ ids, '.' ∉ id := by
      intro id hid hmem
      have := (hids id hid).2 '.' hmem
      unfold IdentChar at this
      revert this
      decide
    rw [htext, List.splitOn_intercalate '.' hdot hne]
    refine ⟨?_, fun id hid => ?_⟩
    · rintro rfl
      obtain ⟨id, rest, rfl⟩ := List.exists_cons_of_ne_nil hne
      cases rest with
      | nil => exact (hids id List.mem_cons_self).1 (by simpa using htext.symm)
      | cons id' rest => simp [List.intercalate_cons_cons] at htext
    · simp only [Function.comp_apply, decide_eq_true_eq, String.toList_ofList, hchar]
      refine ⟨fun hnil => (hids id hid).1 ?_, (hids id hid).2⟩
      simpa using congrArg String.toList hnil

/-- The mark of a build is in no list of identifiers. -/
theorem plus_notMem_identifiers {t : List Char} (h : Identifiers t) : '+' ∉ t := by
  obtain ⟨ids, -, hids, rfl⟩ := h
  intro hmem
  rcases mem_of_mem_intercalate hmem with hdot | ⟨id, hid, hplus⟩
  · exact absurd hdot (by decide)
  · have := (hids id hid).2 '+' hplus
    unfold IdentChar at this
    revert this
    decide

/-- Identifiers after a mark are read as identifiers. -/
theorem marked_cons_iff {mark : Char} : Marked mark (mark :: rest) ↔ Identifiers rest := by
  constructor
  · rintro (h | ⟨ids, hids, h⟩)
    · simp at h
    · obtain rfl := (List.cons.inj h).2
      exact hids
  · exact fun h => .inr ⟨rest, h, rfl⟩

/-- A pre-release and a build that begin with a `-`. -/
theorem marked_minus_iff :
    (∃ pre build, Marked '-' pre ∧ Marked '+' build ∧ '-' :: rest = pre ++ build) ↔
      ∃ ids build, Identifiers ids ∧ Marked '+' build ∧ rest = ids ++ build := by
  constructor
  · rintro ⟨pre, build, rfl | ⟨ids, hids, rfl⟩, hbuild, h⟩
    · -- Without a pre-release the text would begin with a `+`.
      rcases hbuild with rfl | ⟨ids, -, rfl⟩ <;> simp at h
    · exact ⟨ids, build, hids, hbuild, by simpa using h⟩
  · rintro ⟨ids, build, hids, hbuild, rfl⟩
    exact ⟨'-' :: ids, build, marked_cons_iff.mpr hids, hbuild, rfl⟩

/-- A suffix is accepted exactly when it is a pre-release and a build. -/
theorem validSuffix_iff (hmark : s.toList.head? = some '-' ∨ s.toList.head? = some '+') :
    validSuffix s = true ↔ ∃ pre build, Marked '-' pre ∧ Marked '+' build ∧ s.toList = pre ++ build := by
  obtain ⟨mark, rest, hs⟩ := List.exists_cons_of_ne_nil (l := s.toList) (by rintro h; simp [h] at hmark)
  have hcases : mark = '-' ∨ mark = '+' := by simpa [hs] using hmark
  rw [hs]
  unfold validSuffix
  rw [show ("-" : String) = String.singleton '-' from rfl]
  -- After a `-` the first `+` ends the pre-release. After a `+` the rest is the build.
  rcases hcases with rfl | rfl
  · rw [cutPrefix?_of_cons hs, marked_minus_iff]
    dsimp only
    by_cases hplus : '+' ∈ rest
    · obtain ⟨a, b, rfl, ha⟩ := List.eq_append_cons_of_mem hplus
      have hcut : cut (String.ofList (a ++ '+' :: b)) '+' = (String.ofList a, String.ofList b, true) := by
        unfold cut
        rw [String.toList_ofList, cutChars_eq_some.mpr ⟨rfl, ha⟩]
      rw [hcut]
      simp only [Bool.not_true, Bool.false_or, Bool.and_eq_true, validIdentifiers_iff, String.toList_ofList]
      constructor
      · rintro ⟨hpre, hbuild⟩
        exact ⟨a, '+' :: b, hpre, marked_cons_iff.mpr hbuild, rfl⟩
      · rintro ⟨ids, build, hids, rfl | ⟨ids', hids', rfl⟩, heq⟩
        · rw [List.append_nil] at heq
          exact absurd (heq ▸ hplus) (plus_notMem_identifiers hids)
        · obtain ⟨rfl, rfl⟩ := append_sep_inj ha (plus_notMem_identifiers hids) heq
          exact ⟨hids, hids'⟩
    · rw [cut_of_notMem (by rwa [String.toList_ofList])]
      simp only [Bool.not_false, Bool.true_or, Bool.and_true, validIdentifiers_iff, String.toList_ofList]
      constructor
      · exact fun h => ⟨rest, [], h, .inl rfl, by simp⟩
      · rintro ⟨ids, build, hids, rfl | ⟨ids', -, rfl⟩, rfl⟩
        · simpa using hids
        · simp at hplus
  · have hhead : s.toList.head? ≠ some '-' := by simp [hs]
    rw [cutPrefix?_of_head hhead]
    dsimp only
    rw [trimPrefix, show ("+" : String) = String.singleton '+' from rfl, cutPrefix?_of_cons hs, Option.getD_some,
      validIdentifiers_iff, String.toList_ofList]
    constructor
    · exact fun h => ⟨[], '+' :: rest, .inl rfl, marked_cons_iff.mpr h, rfl⟩
    · rintro ⟨pre, build, rfl | ⟨ids, -, rfl⟩, hbuild, h⟩
      · rw [List.nil_append] at h
        exact marked_cons_iff.mp (h ▸ hbuild)
      · simp at h

/-! ## Versions -/

/-- A list of components is accepted exactly when each of them is a number. -/
theorem mapM_parseComponent_ok_iff {ps : List String} :
    ps.mapM (parseComponent X) = .ok ns ↔ List.Forall₂ (fun p n => Number p.toList n) ps ns := by
  induction ps generalizing ns with
  | nil => simp [pure, Except.pure, eq_comm]
  | cons p ps ih =>
    rw [List.mapM_cons, List.forall₂_cons_left_iff]
    constructor
    · intro h
      cases hp : parseComponent X p with
      | error e => simp [hp, bind, Except.bind] at h
      | ok n =>
        cases hps : ps.mapM (parseComponent X) with
        | error e => simp [hp, hps, bind, Except.bind] at h
        | ok ms =>
          obtain rfl : n :: ms = ns := by simpa [hp, hps, bind, Except.bind, pure, Except.pure] using h
          exact ⟨n, ms, parseComponent_ok_iff.mp hp, ih.mp hps, rfl⟩
    · rintro ⟨n, ms, hn, hms, rfl⟩
      simp [parseComponent_ok_iff.mpr hn, ih.mpr hms, bind, Except.bind, pure, Except.pure]

/-- What an accepted text is cut into: two or three numbers, and after three a suffix or nothing. -/
theorem parseVersion_ok_iff_parts :
    parseVersion X s = .ok v ↔ trimPrefix s "v" ≠ "" ∧ ∃ nums,
      List.Forall₂ (fun p n => Number p.toList n) (split (cutSuffixMark (trimPrefix s "v")).1 '.') nums ∧
      (nums = [v.major, v.minor] ∧ (cutSuffixMark (trimPrefix s "v")).2 = "" ∨
        ∃ patch, nums = [v.major, v.minor, patch] ∧ ((cutSuffixMark (trimPrefix s "v")).2 ≠ "" →
          validSuffix (cutSuffixMark (trimPrefix s "v")).2 = true)) := by
  simp only [parseVersion]
  -- From here on only the parts and the suffix matter, not how they were cut.
  generalize trimPrefix s "v" = t
  generalize (cutSuffixMark t).1 = core
  generalize (cutSuffixMark t).2 = suffix
  generalize split core '.' = parts
  constructor
  · intro h
    cases hnums : parts.mapM (parseComponent X) with
    | error e =>
      rw [hnums] at h
      split_ifs at h
    | ok nums =>
      rw [hnums] at h
      split_ifs at h with hempty hlen hfew hbad
      have hforall := mapM_parseComponent_ok_iff.mp hnums
      have hlength := hforall.length_eq
      refine ⟨hempty, nums, hforall, ?_⟩
      rcases nums with _ | ⟨major, _ | ⟨minor, _ | ⟨patch, _ | ⟨n, more⟩⟩⟩⟩
      · simp at h
      · simp at h
      · obtain rfl := Except.ok.inj h
        have htwo : parts.length = 2 := hlength
        refine .inl ⟨rfl, ?_⟩
        by_contra hne
        exact hfew ⟨hne, by omega⟩
      · obtain rfl := Except.ok.inj h
        refine .inr ⟨patch, rfl, fun hne => ?_⟩
        by_contra hinvalid
        exact hbad ⟨hne, hinvalid⟩
      · simp only [List.length_cons] at hlength
        omega
  · rintro ⟨hne, nums, hnums, hshape⟩
    have hlen := hnums.length_eq
    rw [if_neg hne, mapM_parseComponent_ok_iff.mpr hnums]
    rcases hshape with ⟨rfl, rfl⟩ | ⟨patch, rfl, hsuffix⟩
    · have htwo : parts.length = 2 := hlen
      simp [htwo]
    · have hthree : parts.length = 3 := hlen
      have hvalid : ¬ (suffix ≠ "" ∧ ¬ validSuffix suffix = true) := fun h => h.2 (hsuffix h.1)
      have hcount : ¬ (parts.length ≠ 2 ∧ parts.length ≠ 3) := fun h => h.2 hthree
      have hfew : ¬ (suffix ≠ "" ∧ parts.length ≠ 3) := fun h => h.2 hthree
      rw [if_neg hcount]
      dsimp only
      rw [if_neg hfew, if_neg hvalid]

/-- The text before the first `-` or `+`, and the text from it on. -/
theorem cutSuffixMark_eq {core suffix : List Char} (hs : s.toList = core ++ suffix)
    (hcore : ∀ c ∈ core, c ≠ '-' ∧ c ≠ '+') (hsuffix : ∀ c ∈ suffix.head?, c = '-' ∨ c = '+') :
    cutSuffixMark s = (String.ofList core, String.ofList suffix) := by
  unfold cutSuffixMark
  set keep : Char → Bool := fun c => decide (c ≠ '-' ∧ c ≠ '+') with hkeep
  have hpass : ∀ c ∈ core, keep c = true := fun c hc => decide_eq_true (hcore c hc)
  rw [hs, List.takeWhile_append_of_pos hpass, List.dropWhile_append_of_pos hpass]
  cases suffix with
  | nil => simp
  | cons c rest =>
    have hstop : ¬ keep c = true := by
      rcases hsuffix c rfl with rfl | rfl <;> decide
    rw [List.takeWhile_cons_of_neg hstop, List.dropWhile_cons_of_neg hstop, List.append_nil]

/-- A text is cut into two, the second of which is empty or starts with the mark of a suffix. -/
theorem cutSuffixMark_spec (s : String) :
    s.toList = (cutSuffixMark s).1.toList ++ (cutSuffixMark s).2.toList ∧
      ((cutSuffixMark s).2 ≠ "" →
        (cutSuffixMark s).2.toList.head? = some '-' ∨ (cutSuffixMark s).2.toList.head? = some '+') := by
  unfold cutSuffixMark
  simp only [String.toList_ofList]
  refine ⟨List.takeWhile_append_dropWhile.symm, fun hne => ?_⟩
  set keep : Char → Bool := fun c => decide (c ≠ '-' ∧ c ≠ '+') with hkeep
  have hsome : s.toList.dropWhile keep ≠ [] := fun h => hne (by rw [h])
  have hstop : keep ((s.toList.dropWhile keep).head hsome) = false := List.head_dropWhile_not keep hsome
  rw [List.head?_eq_some_head hsome]
  simpa [hkeep, or_iff_not_imp_left] using hstop

/-- A version's first component does not begin with a `v`, so a `v` before it is the one taken off. -/
theorem trimPrefix_v {v rest : List Char} (hv : v = [] ∨ v = ['v']) (hrest : rest.head? ≠ some 'v')
    (hs : s.toList = v ++ rest) : trimPrefix s "v" = String.ofList rest := by
  unfold trimPrefix
  rw [show ("v" : String) = String.singleton 'v' from rfl]
  rcases hv with rfl | rfl
  · have hsr : s.toList = rest := by simpa using hs
    rw [cutPrefix?_of_head (by rwa [hsr]), Option.getD_none, ← hsr, String.ofList_toList]
  · rw [cutPrefix?_of_cons (by simpa using hs), Option.getD_some]

/-- What is left of a text once an optional `v` is taken off. -/
theorem exists_trimPrefix_v (s : String) :
    ∃ v : List Char, (v = [] ∨ v = ['v']) ∧ s.toList = v ++ (trimPrefix s "v").toList := by
  by_cases hhead : s.toList.head? = some 'v'
  · obtain ⟨rest, hs⟩ : ∃ rest, s.toList = 'v' :: rest := by
      cases hs : s.toList with
      | nil => simp [hs] at hhead
      | cons c rest =>
        obtain rfl : c = 'v' := by simpa [hs] using hhead
        exact ⟨rest, rfl⟩
    refine ⟨['v'], .inr rfl, ?_⟩
    rw [trimPrefix, show ("v" : String) = String.singleton 'v' from rfl, cutPrefix?_of_cons hs, hs]
    simp
  · refine ⟨[], .inl rfl, ?_⟩
    rw [trimPrefix, show ("v" : String) = String.singleton 'v' from rfl, cutPrefix?_of_head hhead]
    simp

/-- The marks of a version are no digits. -/
theorem not_digit_mark : ¬ Digit '.' ∧ ¬ Digit '-' ∧ ¬ Digit '+' ∧ ¬ Digit 'v' := by
  unfold Digit
  decide

/-- Numbers between dots after an optional `v`, and a suffix: what the parser cuts the text into. -/
theorem cut_of_numbers {v suffix : List Char} {ps : List (List Char)} (hv : v = [] ∨ v = ['v']) (hne : ps ≠ [])
    (hnums : List.Forall₂ Number ps ns) (hs : s.toList = v ++ (['.'].intercalate ps ++ suffix))
    (hsuffix : ∀ c ∈ suffix.head?, c = '-' ∨ c = '+') :
    trimPrefix s "v" ≠ "" ∧ (cutSuffixMark (trimPrefix s "v")).2 = String.ofList suffix ∧
      List.Forall₂ (fun p n => Number p.toList n) (split (cutSuffixMark (trimPrefix s "v")).1 '.') ns := by
  have hdigits : ∀ p ∈ ps, ∀ c ∈ p, Digit c :=
    ((List.forall₂_and_left _ _).mp (hnums.imp fun p n hn => ⟨hn.digits, hn⟩)).1
  have hdot : ∀ p ∈ ps, '.' ∉ p := fun p hp hmem => not_digit_mark.1 (hdigits p hp '.' hmem)
  -- The text without its `v` begins with a digit.
  obtain ⟨d, rest, hrest, hd⟩ : ∃ d rest, ['.'].intercalate ps = d :: rest ∧ Digit d := by
    obtain ⟨p, ps, rfl⟩ := List.exists_cons_of_ne_nil hne
    obtain _ | ⟨hp, -⟩ := hnums
    obtain ⟨d, p, rfl⟩ := List.exists_cons_of_ne_nil hp.ne_nil
    have hd := hp.digits d List.mem_cons_self
    cases ps with
    | nil => exact ⟨d, p, List.intercalate_singleton, hd⟩
    | cons q ps => exact ⟨d, _, by rw [List.intercalate_cons_cons, List.cons_append, List.cons_append], hd⟩
  have htrim : trimPrefix s "v" = String.ofList (['.'].intercalate ps ++ suffix) := by
    refine trimPrefix_v hv ?_ hs
    rw [hrest, List.cons_append, List.head?_cons]
    rintro heq
    obtain rfl := Option.some.inj heq
    exact not_digit_mark.2.2.2 hd
  have hcut : cutSuffixMark (trimPrefix s "v") = (String.ofList (['.'].intercalate ps), String.ofList suffix) := by
    refine cutSuffixMark_eq (by rw [htrim, String.toList_ofList]) (fun c hc => ?_) hsuffix
    rcases mem_of_mem_intercalate hc with hc | ⟨p, hp, hc⟩
    · rw [List.mem_singleton.mp hc]
      decide
    · have hdigit := hdigits p hp c hc
      constructor
      · rintro rfl
        exact not_digit_mark.2.1 hdigit
      · rintro rfl
        exact not_digit_mark.2.2.1 hdigit
  rw [hcut, htrim]
  refine ⟨by simp [hrest], rfl, ?_⟩
  rw [split, String.toList_ofList, List.splitOn_intercalate '.' hdot hne, List.forall₂_map_left_iff]
  simpa using hnums

/-- `parseVersion` accepts exactly the texts of the grammar, and returns the version they are of. -/
theorem parseVersion_ok_iff :
    parseVersion X s = .ok v ↔ Text s.toList v := by
  rw [parseVersion_ok_iff_parts]
  constructor
  · rintro ⟨-, nums, hnums, hshape⟩
    obtain ⟨mark, hmark, hs⟩ := exists_trimPrefix_v s
    obtain ⟨hcut, hhead⟩ := cutSuffixMark_spec (trimPrefix s "v")
    generalize hcore : (cutSuffixMark (trimPrefix s "v")).1 = core at *
    generalize hsuf : (cutSuffixMark (trimPrefix s "v")).2 = suffix at *
    have hjoin : core.toList = ['.'].intercalate ((split core '.').map String.toList) := by
      simp [split, List.map_map, Function.comp_def]
    generalize split core '.' = parts at hnums hjoin
    rw [hs, hcut, hjoin]
    rcases hshape with ⟨rfl, rfl⟩ | ⟨patch, rfl, hvalid⟩
    · obtain _ | ⟨ha, _ | ⟨hb, ⟨⟩⟩⟩ := hnums
      simpa [List.intercalate_cons_cons] using Text.minor hmark ha hb
    · obtain _ | ⟨ha, _ | ⟨hb, _ | ⟨hc, ⟨⟩⟩⟩⟩ := hnums
      obtain ⟨pre, build, hpre, hbuild, hpb⟩ :
          ∃ pre build, Marked '-' pre ∧ Marked '+' build ∧ suffix.toList = pre ++ build := by
        by_cases hempty : suffix = ""
        · exact ⟨[], [], .inl rfl, .inl rfl, by simp [hempty]⟩
        · exact (validSuffix_iff (hhead hempty)).mp (hvalid hempty)
      rw [hpb]
      simpa [List.intercalate_cons_cons] using Text.patch hmark ha hb hc hpre hbuild
  · intro h
    generalize hs : s.toList = text at h
    -- Read the other way, each text of the grammar is cut where the grammar joins it.
    cases h with
    | @minor mark a b major minor hmark ha hb =>
      have hs' : s.toList = mark ++ (['.'].intercalate [a, b] ++ []) := by
        simpa [List.intercalate_cons_cons] using hs
      obtain ⟨hne, hsuffix, hnums⟩ := cut_of_numbers hmark (List.cons_ne_nil a [b]) (.cons ha (.cons hb .nil)) hs'
        (by simp)
      exact ⟨hne, [major, minor], hnums, .inl ⟨rfl, hsuffix⟩⟩
    | @patch mark a b c pre build major minor patch hmark ha hb hc hpre hbuild =>
      have hhead : ∀ d ∈ (pre ++ build).head?, d = '-' ∨ d = '+' := by
        rcases hpre with rfl | ⟨ids, -, rfl⟩
        · rcases hbuild with rfl | ⟨ids, -, rfl⟩ <;> simp
        · simp
      obtain ⟨hne, hsuffix, hnums⟩ := cut_of_numbers hmark (List.cons_ne_nil a [b, c])
        (.cons ha (.cons hb (.cons hc .nil))) (by simpa [List.intercalate_cons_cons] using hs) hhead
      refine ⟨hne, [major, minor, patch], hnums, .inr ⟨patch, rfl, ?_⟩⟩
      rw [hsuffix]
      intro hsome
      have hmarked : (pre ++ build).head? = some '-' ∨ (pre ++ build).head? = some '+' := by
        cases hpb : pre ++ build with
        | nil => exact absurd (by rw [hpb]) hsome
        | cons d rest => simpa [hpb] using hhead d (by rw [hpb]; rfl)
      rw [validSuffix_iff (by rwa [String.toList_ofList]), String.toList_ofList]
      exact ⟨pre, build, hpre, hbuild, rfl⟩

end UpgradeScope
