import UpgradeScope.Lib.Strings

/-!
# A repository URL without its credentials

`redactRepoURL` of `internal/collect/gitops.go`: a chart repository's URL is read from a custom resource that anybody
with write access to a namespace may have written, and what it may hold of a credential must not reach the inventory.
The cut is made on the text: everything up to the last `@` goes, then the query and the fragment, and where a `?` or a
`#` stands before that `@` nothing is recorded. A digest at the end is set aside first, where a registry's host and path
stand before it.

A URL is taken apart as its writer means it (`RepoUrl`), with any text as the userinfo, the query and the fragment: what
is left is nothing, the host and path, or the digest.
-/

namespace UpgradeScope.Redact

open Go

/-! ## The cut -/

/-- `unicode.IsControl`. -/
def isControl (c : Char) : Bool := c.toNat < 0x20 || (0x7f ≤ c.toNat && c.toNat < 0xa0)

/-- The characters of `strings.IndexAny(rest, "?#")`. -/
def isMark (c : Char) : Bool := c = '?' || c = '#'

/-- `validScheme`: a letter, then letters, digits, `+`, `-` and `.`. -/
def validScheme : List Char → Bool
  | [] => false
  | c :: cs => c.isAlpha && cs.all fun c => c.isAlpha || c.isDigit || c = '+' || c = '-' || c = '.'

/-- The characters before and after the last `sep`: `strings.LastIndex`. -/
def cutLast (sep : Char) (l : List Char) : Option (List Char × List Char) :=
  (cutChars sep l.reverse).map fun p => (p.2.reverse, p.1.reverse)

/-- A hexadecimal digit. -/
def isHex (c : Char) : Bool := c.isDigit || ('a' ≤ c && c ≤ 'f') || ('A' ≤ c && c ≤ 'F')

/-- An algorithm and 32 or more hexadecimal digits. -/
def isDigest (l : List Char) : Bool :=
  ["sha256", "sha384", "sha512"].any fun alg =>
    (alg ++ ":").toList.isPrefixOf l && 32 ≤ (l.drop 7).length && (l.drop 7).all isHex

/-- `ociDigestSuffix.FindStringIndex`: the leftmost `@` that a digest and nothing else follows, with what is before it
and the digest. -/
def splitDigest : List Char → Option (List Char × List Char)
  | [] => none
  | c :: cs => if c = '@' ∧ isDigest cs then some ([], cs) else (splitDigest cs).map fun p => (c :: p.1, p.2)

/-- A registry's host: letters and digits, with dots and dashes between them. -/
def isHost (l : List Char) : Bool :=
  l.head?.any Char.isAlphanum && l.getLast?.any Char.isAlphanum && l.all fun c => c.isAlphanum || c = '.' || c = '-'

/-- A host and an optional numeric port. -/
def isHostPort (l : List Char) : Bool :=
  match cutChars ':' l with
  | none => isHost l
  | some (host, port) => isHost host && port ≠ [] && port.all Char.isDigit

/-- `ociRegistryPath`: a host, an optional port and a path. -/
def isRegistryPath (l : List Char) : Bool :=
  match cutChars '/' l with
  | none => false
  | some (host, path) => isHostPort host && path ≠ [] && path.all fun c => c ≠ '@' && !isMark c

/-- What is left of the rest of a URL once a digest is set aside, and the digest with its `@`. -/
def setAside (rest : List Char) : List Char × List Char :=
  match splitDigest rest with
  | some (before, digest) =>
    if isRegistryPath ((cutLast '@' before).elim before Prod.snd) then (before, '@' :: digest) else (rest, [])
  | none => (rest, [])

/-- The end of `redactRepoURL`: the query and the fragment are cut off, and a URL with no host is dropped. -/
def finish (scheme : Option (List Char)) (rest digest : List Char) : List Char :=
  let rest := rest.takeWhile fun c => !isMark c
  match scheme with
  | none => rest ++ digest
  | some scheme => if rest.takeWhile (· ≠ '/') = [] then [] else scheme ++ "://".toList ++ rest ++ digest

/-- `redactRepoURL` from the digest on. -/
def redactRest (scheme : Option (List Char)) (rest : List Char) : List Char :=
  let (rest, digest) := setAside rest
  match cutLast '@' rest with
  | some (before, after) => if before.any isMark then [] else finish scheme after digest
  | none => finish scheme rest digest

/-- `redactRepoURL`. -/
def redactRepoURL (raw : String) : String :=
  let s := (trimSpace raw).toList.filter fun c => !isControl c
  String.ofList <| match cutAtChars "://".toList s with
    | some (scheme, rest) => if validScheme scheme then redactRest (some scheme) rest else redactRest none s
    | none => redactRest none s

/-! ## A URL -/

/-- A repository's URL as its writer means it. -/
structure RepoUrl where
  /-- The scheme. -/
  scheme : String
  /-- The userinfo. -/
  userinfo : Option String
  /-- The host and path, up to the digest. -/
  base : String
  /-- The digest that pins it. -/
  digest : Option String
  /-- The query. -/
  query : Option String
  /-- The fragment. -/
  fragment : Option String

namespace RepoUrl

/-- The host and path, with the digest. -/
def hostpath (u : RepoUrl) : String := u.base ++ u.digest.elim "" ("@" ++ ·)

/-- The text of a repository's URL. -/
def text (u : RepoUrl) : String :=
  u.scheme ++ "://" ++ u.userinfo.elim "" (· ++ "@") ++ u.hostpath ++ u.query.elim "" ("?" ++ ·) ++
    u.fragment.elim "" ("#" ++ ·)

/-- The scheme is one, the host and path hold no `@`, `?` or `#` but for a digest at the end and are no digest
themselves, and the text has no control characters and no white space around it. -/
structure WellFormed (u : RepoUrl) : Prop where
  /-- The scheme is valid. -/
  scheme : validScheme u.scheme.toList = true
  /-- The base holds no `@`, `?` or `#`. -/
  base : ∀ c ∈ u.base.toList, c ≠ '@' ∧ isMark c = false
  /-- The digest is one. -/
  digest : ∀ d, u.digest = some d → isDigest d.toList = true
  /-- The host and path are more than a digest. -/
  hostpath : isDigest u.hostpath.toList = false
  /-- There are no control characters. -/
  control : ∀ c ∈ u.text.toList, isControl c = false
  /-- There is no white space around it. -/
  trimmed : trimSpace u.text = u.text

end RepoUrl

/-! ## What is cut -/

variable {l b d q x : List Char} {sep : Char}

/-- A cut is found exactly at the last separator. -/
theorem cutLast_eq_some {l a b : List Char} : cutLast sep l = some (a, b) ↔ l = a ++ sep :: b ∧ sep ∉ b := by
  unfold cutLast
  rw [Option.map_eq_some_iff]
  constructor
  · rintro ⟨⟨x, y⟩, hcut, heq⟩
    obtain ⟨rfl, rfl⟩ : y.reverse = a ∧ x.reverse = b := by simpa using heq
    obtain ⟨hl, hx⟩ := cutChars_eq_some.mp hcut
    refine ⟨?_, by simpa using hx⟩
    rw [← List.reverse_reverse l, hl]
    simp
  · rintro ⟨rfl, hb⟩
    exact ⟨(b.reverse, a.reverse), cutChars_eq_some.mpr ⟨by simp, by simpa using hb⟩, by simp⟩

/-- No cut is found exactly where there is no separator. -/
theorem cutLast_eq_none : cutLast sep l = none ↔ sep ∉ l := by
  rw [cutLast, Option.map_eq_none_iff, cutChars_eq_none, List.mem_reverse]

/-- Where there is a separator, there is a last one. -/
theorem exists_cutLast (h : sep ∈ l) : ∃ a b, l = a ++ sep :: b ∧ sep ∉ b := by
  obtain ⟨x, y, hl, hx⟩ := List.eq_append_cons_of_mem (List.mem_reverse.mpr h)
  refine ⟨y.reverse, x.reverse, ?_, by simpa using hx⟩
  rw [← List.reverse_reverse l, hl]
  simp

/-- A character that a text and what follows its last `@` share is read off the whole. -/
theorem last_inj {a b a' b' : List Char} (hb : sep ∉ b) (hb' : sep ∉ b') (h : a ++ sep :: b = a' ++ sep :: b') :
    a = a' ∧ b = b' := by
  have h1 : cutLast sep (a ++ sep :: b) = some (a, b) := cutLast_eq_some.mpr ⟨rfl, hb⟩
  have h2 : cutLast sep (a ++ sep :: b) = some (a', b') := cutLast_eq_some.mpr ⟨h, hb'⟩
  simpa using h1.symm.trans h2

/-- A scheme is cut off at its `://`. -/
theorem cutAtChars_scheme {scheme : List Char} (rest : List Char) (h : validScheme scheme = true) :
    cutAtChars "://".toList (scheme ++ "://".toList ++ rest) = some (scheme, rest) := by
  have hcolon : ':' ∉ scheme := by
    cases scheme with
    | nil => simp
    | cons c cs =>
      simp only [validScheme, Bool.and_eq_true, List.all_eq_true] at h
      rw [List.mem_cons, not_or]
      refine ⟨?_, fun hmem => by simpa using h.2 ':' hmem⟩
      rintro rfl
      simp at h
  clear h
  induction scheme with
  | nil => simp [cutAtChars]
  | cons c cs ih =>
    rw [List.mem_cons, not_or] at hcolon
    have hne : ¬ ("://".toList.isPrefixOf (c :: (cs ++ "://".toList ++ rest)) = true) := by
      simp [hcolon.1]
    rw [List.cons_append, List.cons_append, cutAtChars, if_neg hne, ih hcolon.2]
    rfl

/-! ## Digests and registries -/

/-- What holds of neither `?` nor `#` makes no mark. -/
theorem notMark_of {p : Char → Bool} {c : Char} (h : p c = true) (hquery : p '?' = false) (hfragment : p '#' = false) :
    isMark c = false := by
  rw [Bool.eq_false_iff]
  intro hmark
  simp only [isMark, Bool.or_eq_true, decide_eq_true_eq] at hmark
  rcases hmark with rfl | rfl
  · exact absurd h (by simp [hquery])
  · exact absurd h (by simp [hfragment])

/-- A digest has no `@`, `?`, `#` or `/`. -/
theorem notMark_of_isDigest (h : isDigest d = true) :
    ∀ c ∈ d, c ≠ '@' ∧ isMark c = false ∧ c ≠ '/' := by
  simp only [isDigest, List.any_eq_true, Bool.and_eq_true, List.isPrefixOf_iff_prefix, List.all_eq_true] at h
  obtain ⟨alg, halg, ⟨⟨t, rfl⟩, -⟩, hhex⟩ := h
  have hlen : (alg ++ ":").toList.length = 7 := by
    simp only [List.mem_cons, List.not_mem_nil, or_false] at halg
    rcases halg with rfl | rfl | rfl <;> rfl
  rw [List.drop_append_of_le_length (by omega), List.drop_of_length_le (by omega), List.nil_append] at hhex
  have hname : (alg ++ ":").toList.all (fun c => c ≠ '@' && !isMark c && c ≠ '/') = true := by
    simp only [List.mem_cons, List.not_mem_nil, or_false] at halg
    rcases halg with rfl | rfl | rfl <;> decide
  intro c hc
  rcases List.mem_append.mp hc with hc | hc
  · simpa [and_assoc] using List.all_eq_true.mp hname c hc
  · have hchar := hhex c hc
    refine ⟨?_, notMark_of hchar (by decide) (by decide), ?_⟩
    · rintro rfl
      exact absurd hchar (by decide)
    · rintro rfl
      exact absurd hchar (by decide)

/-- A digest that is set aside is at the end, behind an `@`. -/
theorem splitDigest_eq_some (h : splitDigest l = some (b, d)) :
    l = b ++ '@' :: d ∧ isDigest d = true := by
  induction l generalizing b with
  | nil => simp [splitDigest] at h
  | cons c cs ih =>
    rw [splitDigest] at h
    split_ifs at h with hc
    · obtain ⟨rfl, rfl⟩ : [] = b ∧ cs = d := by simpa using h
      exact ⟨by rw [hc.1]; rfl, hc.2⟩
    · obtain ⟨⟨b', d'⟩, hsplit, heq⟩ := Option.map_eq_some_iff.mp h
      obtain ⟨rfl, rfl⟩ : c :: b' = b ∧ d' = d := by simpa using heq
      obtain ⟨rfl, hd⟩ := ih hsplit
      exact ⟨rfl, hd⟩

/-- A host, a port and a path have no `?` and no `#`. -/
theorem notMark_of_isRegistryPath (h : isRegistryPath l = true) : ∀ c ∈ l, isMark c = false := by
  -- The classes of a host, a port and a path are read off one after the other.
  have hhost : ∀ {l}, isHost l = true → ∀ c ∈ l, isMark c = false := by
    intro l hl c hc
    simp only [isHost, Bool.and_eq_true, List.all_eq_true] at hl
    exact notMark_of (p := fun c => c.isAlphanum || c = '.' || c = '-') (hl.2 c hc) (by decide) (by decide)
  have hhostPort : ∀ {l}, isHostPort l = true → ∀ c ∈ l, isMark c = false := by
    intro l hl c hc
    unfold isHostPort at hl
    cases hcut : cutChars ':' l with
    | none => exact hhost (by simpa [hcut] using hl) c hc
    | some p =>
      obtain ⟨host, port⟩ := p
      obtain ⟨rfl, -⟩ := cutChars_eq_some.mp hcut
      simp only [hcut, Bool.and_eq_true, List.all_eq_true] at hl
      simp only [List.mem_append, List.mem_cons] at hc
      rcases hc with hc | rfl | hc
      · exact hhost hl.1.1 c hc
      · decide
      · exact notMark_of (hl.2 c hc) (by decide) (by decide)
  unfold isRegistryPath at h
  cases hcut : cutChars '/' l with
  | none => simp [hcut] at h
  | some p =>
    obtain ⟨host, path⟩ := p
    obtain ⟨rfl, -⟩ := cutChars_eq_some.mp hcut
    simp only [hcut, Bool.and_eq_true, List.all_eq_true] at h
    intro c hc
    simp only [List.mem_append, List.mem_cons] at hc
    rcases hc with hc | rfl | hc
    · exact hhostPort h.1.1 c hc
    · decide
    · simpa using (h.2 c hc).2

/-! ## What is left -/

/-- The userinfo of a text, with its `@`, if any. -/
def IsUserinfo (l : List Char) : Prop := l = [] ∨ ∃ u, l = u ++ ['@']

/-- A query, a fragment, both or neither, each with its mark. -/
def IsTail (l : List Char) : Prop := l = [] ∨ ∃ m q, l = m :: q ∧ isMark m = true

/-- What may be left: nothing, the host and path, or the digest. -/
def Kept (scheme base digest out : List Char) : Prop :=
  out = [] ∨ out = scheme ++ "://".toList ++ (base ++ digest) ∨
    ∃ d, digest = '@' :: d ∧ out = scheme ++ "://".toList ++ d

/-- A query and a fragment are cut off. -/
theorem takeWhile_append_tail (hx : ∀ c ∈ x, isMark c = false) (hq : IsTail q) :
    (x ++ q).takeWhile (fun c => !isMark c) = x := by
  rw [List.takeWhile_append_of_pos (by simpa using hx)]
  rcases hq with rfl | ⟨m, q, rfl, hm⟩
  · simp
  · simp [hm]

/-- The end of the cut leaves nothing, or the text up to the query. -/
theorem finish_tail (scheme digest : List Char) (hx : ∀ c ∈ x, isMark c = false) (hq : IsTail q) :
    finish (some scheme) (x ++ q) digest = [] ∨
      finish (some scheme) (x ++ q) digest = scheme ++ "://".toList ++ (x ++ digest) := by
  simp only [finish, takeWhile_append_tail hx hq]
  split_ifs
  · exact .inl rfl
  · right
    simp

variable {scheme user base digest tail : List Char}

/-- No digest is set aside: the last `@` is of the query, of the digest or of the userinfo. -/
theorem kept_of_no_digest (huser : IsUserinfo user) (hbase : ∀ c ∈ base, c ≠ '@' ∧ isMark c = false)
    (hdigest : digest = [] ∨ ∃ d, digest = '@' :: d ∧ isDigest d = true) (htail : IsTail tail)
    (haside : setAside (user ++ base ++ digest ++ tail) = (user ++ base ++ digest ++ tail, [])) :
    Kept scheme base digest (redactRest (some scheme) (user ++ base ++ digest ++ tail)) := by
  unfold redactRest
  rw [haside]
  dsimp only
  have hat : '@' ∉ base := fun hmem => (hbase _ hmem).1 rfl
  by_cases hmem : '@' ∈ tail
  · -- The query or the fragment holds it, and its mark is before it.
    obtain ⟨a, b, hab, hb⟩ := exists_cutLast hmem
    rw [hab, ← List.append_assoc, cutLast_eq_some.mpr ⟨rfl, hb⟩]
    have hmark : (user ++ base ++ digest ++ a).any isMark = true := by
      rcases htail with rfl | ⟨m, q, rfl, hm⟩
      · simp at hmem
      · cases a with
        | nil =>
          obtain rfl : m = '@' := by simpa using (List.cons.inj hab).1
          exact absurd hm (by decide)
        | cons c a =>
          obtain rfl : m = c := (List.cons.inj hab).1
          simp [hm]
    dsimp only
    rw [if_pos hmark]
    exact .inl rfl
  · rcases hdigest with rfl | ⟨d, rfl, hd⟩
    · rw [List.append_nil]
      rcases huser with rfl | ⟨u, rfl⟩
      · rw [List.nil_append, cutLast_eq_none.mpr (by simp [hat, hmem])]
        rcases finish_tail scheme [] (fun c hc => (hbase c hc).2) htail with h | h
        · exact .inl h
        · exact .inr (.inl h)
      · rw [show u ++ ['@'] ++ base ++ tail = u ++ '@' :: (base ++ tail) by simp,
          cutLast_eq_some.mpr ⟨rfl, by simp [hat, hmem]⟩]
        dsimp only
        split_ifs
        · exact .inl rfl
        · rcases finish_tail scheme [] (fun c hc => (hbase c hc).2) htail with h | h
          · exact .inl h
          · exact .inr (.inl h)
    · have hdat : '@' ∉ d := fun hmem => (notMark_of_isDigest hd _ hmem).1 rfl
      rw [show user ++ base ++ '@' :: d ++ tail = (user ++ base) ++ '@' :: (d ++ tail) by simp,
        cutLast_eq_some.mpr ⟨rfl, by simp [hdat, hmem]⟩]
      dsimp only
      split_ifs
      · exact .inl rfl
      · rcases finish_tail scheme [] (fun c hc => (notMark_of_isDigest hd c hc).2.1) htail with h | h
        · exact .inl h
        · exact .inr (.inr ⟨d, rfl, by simpa using h⟩)

/-- A digest is set aside: what is left is what follows the last `@` before it, or nothing. -/
theorem redactRest_of_digest {rest before d : List Char} (hsplit : splitDigest rest = some (before, d))
    (hpath : isRegistryPath ((cutLast '@' before).elim before Prod.snd) = true) :
    redactRest (some scheme) rest = [] ∨
      ∃ x y, (before = y ∧ x = [] ∨ before = x ++ '@' :: y) ∧ '@' ∉ y ∧ (∀ c ∈ x ++ y, isMark c = false) ∧
        redactRest (some scheme) rest = scheme ++ "://".toList ++ (y ++ '@' :: d) := by
  have haside : setAside rest = (before, '@' :: d) := by simp [setAside, hsplit, hpath]
  unfold redactRest
  rw [haside]
  dsimp only
  have hnone := notMark_of_isRegistryPath hpath
  cases hcut : cutLast '@' before with
  | none =>
    rw [hcut] at hnone
    dsimp only [Option.elim] at hnone ⊢
    have hat : '@' ∉ before := cutLast_eq_none.mp hcut
    rcases finish_tail scheme ('@' :: d) hnone (.inl rfl) with h | h
    · left
      simpa using h
    · exact .inr ⟨[], before, .inl ⟨rfl, rfl⟩, hat, by simpa using hnone, by simpa using h⟩
  | some p =>
    obtain ⟨x, y⟩ := p
    obtain ⟨hbefore, hy⟩ := cutLast_eq_some.mp hcut
    rw [hcut] at hnone
    dsimp only [Option.elim] at hnone ⊢
    -- A mark before the last `@` gives up: the whole is redacted.
    split_ifs with hany
    · exact .inl rfl
    rcases finish_tail scheme ('@' :: d) hnone (.inl rfl) with h | h
    · left
      simpa using h
    · refine .inr ⟨x, y, .inr hbefore, hy, ?_, by simpa using h⟩
      intro c hc
      rcases List.mem_append.mp hc with hc | hc
      · simpa using fun hm => hany (List.any_eq_true.mpr ⟨c, hc, hm⟩)
      · exact hnone c hc

/-- What is left where a digest is set aside. -/
theorem kept_of_digest (huser : IsUserinfo user) (hbase : ∀ c ∈ base, c ≠ '@' ∧ isMark c = false)
    (hdigest : digest = [] ∨ ∃ d, digest = '@' :: d ∧ isDigest d = true) (htail : IsTail tail)
    (hbare : isDigest (base ++ digest) = false) {before d : List Char}
    (hsplit : splitDigest (user ++ base ++ digest ++ tail) = some (before, d))
    (hpath : isRegistryPath ((cutLast '@' before).elim before Prod.snd) = true) :
    Kept scheme base digest (redactRest (some scheme) (user ++ base ++ digest ++ tail)) := by
  have hat : '@' ∉ base := fun hmem => (hbase _ hmem).1 rfl
  rcases redactRest_of_digest hsplit hpath with h | ⟨x, y, hbefore, hy, hnone, h⟩
  · exact .inl h
  obtain ⟨hrest, hd⟩ := splitDigest_eq_some hsplit
  have hdat : '@' ∉ d := fun hmem => (notMark_of_isDigest hd _ hmem).1 rfl
  -- Nothing before the digest is a mark, so there is no query and no fragment.
  have hmarks : ∀ c ∈ before ++ '@' :: d, isMark c = false := by
    have hat' : isMark '@' = false := by decide
    have hd' : ∀ c ∈ d, isMark c = false := fun c hc => (notMark_of_isDigest hd c hc).2.1
    rcases hbefore with ⟨rfl, rfl⟩ | rfl <;> grind
  obtain rfl : tail = [] := by
    rcases htail with rfl | ⟨m, q, rfl, hm⟩
    · rfl
    · have hfalse := hmarks m (hrest ▸ by simp)
      simp [hm] at hfalse
  rw [List.append_nil] at hrest h ⊢
  rw [h]
  rcases hdigest with rfl | ⟨d', rfl, hd'⟩
  · -- A host and path that are a digest.
    exfalso
    rw [List.append_nil] at hrest hbare
    rcases huser with rfl | ⟨u, rfl⟩
    · rw [List.nil_append] at hrest
      exact hat (hrest ▸ by simp)
    · rw [List.append_assoc, List.singleton_append] at hrest
      obtain ⟨-, rfl⟩ := last_inj hat hdat hrest
      simp [hd] at hbare
  · have hdat' : '@' ∉ d' := fun hmem => (notMark_of_isDigest hd' _ hmem).1 rfl
    obtain ⟨rfl, rfl⟩ := last_inj hdat' hdat hrest
    obtain rfl : y = base := by
      rcases huser with rfl | ⟨u, rfl⟩
      · rcases hbefore with ⟨hbefore, -⟩ | hbefore
        · exact hbefore.symm
        · exact absurd (show '@' ∈ base by rw [List.nil_append] at hbefore; simp [hbefore]) hat
      · rw [List.append_assoc, List.singleton_append] at hbefore
        rcases hbefore with ⟨rfl, -⟩ | hbefore
        · simp at hy
        · exact (last_inj hat hy hbefore).2.symm
    exact .inr (.inl rfl)

/-- A URL keeps its scheme, base and digest, whether it has a digest or not. -/
theorem kept_redactRest (scheme : List Char) (huser : IsUserinfo user) (hbase : ∀ c ∈ base, c ≠ '@' ∧ isMark c = false)
    (hdigest : digest = [] ∨ ∃ d, digest = '@' :: d ∧ isDigest d = true) (htail : IsTail tail)
    (hbare : isDigest (base ++ digest) = false) :
    Kept scheme base digest (redactRest (some scheme) (user ++ base ++ digest ++ tail)) := by
  cases hsplit : splitDigest (user ++ base ++ digest ++ tail) with
  | none => exact kept_of_no_digest huser hbase hdigest htail (by unfold setAside; rw [hsplit])
  | some p =>
    obtain ⟨before, d⟩ := p
    by_cases hpath : isRegistryPath ((cutLast '@' before).elim before Prod.snd) = true
    · exact kept_of_digest huser hbase hdigest htail hbare hsplit hpath
    · exact kept_of_no_digest huser hbase hdigest htail (by unfold setAside; rw [hsplit]; exact if_neg hpath)

/-- The credentials of a repository's URL never reach the inventory: whatever the userinfo, the query and the fragment
are, what is left is nothing, the scheme with the host and path, or the scheme with the digest. -/
theorem redactRepoURL_keeps (u : RepoUrl) (h : u.WellFormed) :
    redactRepoURL u.text = "" ∨ redactRepoURL u.text = u.scheme ++ "://" ++ u.hostpath ∨
      ∃ d, u.digest = some d ∧ redactRepoURL u.text = u.scheme ++ "://" ++ d := by
  set user := (u.userinfo.elim "" (· ++ "@")).toList
  set digest := (u.digest.elim "" ("@" ++ ·)).toList
  set tail := (u.query.elim "" ("?" ++ ·)).toList ++ (u.fragment.elim "" ("#" ++ ·)).toList
  have htext : u.text.toList = u.scheme.toList ++ "://".toList ++ (user ++ u.base.toList ++ digest ++ tail) := by
    simp [RepoUrl.text, RepoUrl.hostpath, user, digest, tail]
  have huser : IsUserinfo user := by
    cases hu : u.userinfo with
    | none => exact .inl (by simp [user, hu])
    | some t => exact .inr ⟨t.toList, by simp [user, hu]⟩
  have htail : IsTail tail := by
    cases hq : u.query with
    | some t => exact .inr ⟨'?', t.toList ++ (u.fragment.elim "" ("#" ++ ·)).toList, by simp [tail, hq], by decide⟩
    | none =>
      cases hf : u.fragment with
      | some t => exact .inr ⟨'#', t.toList, by simp [tail, hq, hf], by decide⟩
      | none => exact .inl (by simp [tail, hq, hf])
  have hdigest : digest = [] ∨ ∃ d, digest = '@' :: d ∧ isDigest d = true := by
    cases hd : u.digest with
    | none => exact .inl (by simp [digest, hd])
    | some t => exact .inr ⟨t.toList, by simp [digest, hd], h.digest t hd⟩
  -- A base that reads as a digest is ruled out by the grammar.
  have hbare : isDigest (u.base.toList ++ digest) = false := by
    have := h.hostpath
    rwa [RepoUrl.hostpath, String.toList_append] at this
  have hclean : u.text.toList.filter (fun c => !isControl c) = u.text.toList := by
    rw [List.filter_eq_self]
    intro c hc
    simp [h.control c hc]
  have hredact : redactRepoURL u.text =
      String.ofList (redactRest (some u.scheme.toList) (user ++ u.base.toList ++ digest ++ tail)) := by
    unfold redactRepoURL
    rw [h.trimmed, hclean, htext]
    dsimp only
    rw [cutAtChars_scheme _ h.scheme]
    dsimp only
    rw [if_pos h.scheme]
  rw [hredact]
  rcases kept_redactRest u.scheme.toList huser h.base hdigest htail hbare with hk | hk | ⟨d, hd, hk⟩
  · left
    rw [hk]
  · right; left
    rw [hk, ← String.toList_inj]
    simp [RepoUrl.hostpath, digest]
  · right; right
    cases hu : u.digest with
    | none => simp [digest, hu] at hd
    | some t =>
      refine ⟨t, rfl, ?_⟩
      obtain rfl : t.toList = d := by simpa [digest, hu] using hd
      rw [hk, ← String.toList_inj]
      simp

/-- A URL with a password that holds a slash, pinned by a digest. -/
def pinned : RepoUrl where
  scheme := "oci"
  userinfo := some "user:12/s3cret"
  base := "ghcr.io/acme/chart"
  digest := some "sha256:0123456789abcdef0123456789abcdef"
  query := none
  fragment := none

/-- Only the host, the path and the digest are left of it. -/
theorem redactRepoURL_keeps_pinned :
    pinned.text = "oci://user:12/s3cret@ghcr.io/acme/chart@sha256:0123456789abcdef0123456789abcdef" ∧
      (redactRepoURL pinned.text = "" ∨
        redactRepoURL pinned.text = "oci" ++ "://" ++ pinned.hostpath ∨
        ∃ d, pinned.digest = some d ∧ redactRepoURL pinned.text = "oci" ++ "://" ++ d) :=
  ⟨by decide, redactRepoURL_keeps pinned {
    scheme := by decide
    base := fun c hc => by
      simpa using List.all_eq_true.mp (show pinned.base.toList.all (fun c => c ≠ '@' && !isMark c) = true by decide) c hc
    digest := fun d hd => by
      obtain rfl : "sha256:0123456789abcdef0123456789abcdef" = d := by simpa [pinned] using hd
      decide
    hostpath := by decide
    control := fun c hc => by
      simpa using List.all_eq_true.mp (show pinned.text.toList.all (fun c => !isControl c) = true by decide) c hc
    trimmed := by decide }⟩

end UpgradeScope.Redact
