import UpgradeScope.Lib.Strings

/-!
# UTF-8 and white space over bytes

Go's `utf8.DecodeRune` and `utf8.DecodeLastRune` on any bytes, valid or not, and `bytes.TrimSpace` over
them. A scanner that steps over white space from the left and one that trims both ends agree on the
first byte that is left (`head?_trimSpace`): the last character of a text whose first one is no white
space is never read as white space that reaches back to the start.
-/

namespace Utf8

open Go

/-- A sequence of bytes. -/
abbrev Bytes := List UInt8

/-- `utf8.RuneError`. -/
def runeError : ℕ := 0xfffd

/-- A UTF-8 continuation byte. -/
def isContinuation (c : UInt8) : Bool := 0x80 ≤ c && c ≤ 0xbf

/-- The length of the encoding a byte starts and the range of the byte after it; none for a byte that
starts no encoding of more than one byte. -/
def acceptRange (b : UInt8) : Option (ℕ × UInt8 × UInt8) :=
  if 0xc2 ≤ b ∧ b ≤ 0xdf then some (2, 0x80, 0xbf)
  else if b = 0xe0 then some (3, 0xa0, 0xbf)
  else if b = 0xed then some (3, 0x80, 0x9f)
  else if 0xe1 ≤ b ∧ b ≤ 0xef then some (3, 0x80, 0xbf)
  else if b = 0xf0 then some (4, 0x90, 0xbf)
  else if 0xf1 ≤ b ∧ b ≤ 0xf3 then some (4, 0x80, 0xbf)
  else if b = 0xf4 then some (4, 0x80, 0x8f)
  else none

/-- The bytes are those after the first of an encoding of `size` bytes. -/
def isTail (size : ℕ) (lo hi : UInt8) (tail : Bytes) : Bool :=
  tail.length = size - 1 && tail.head?.all (fun c => lo ≤ c && c ≤ hi) && tail.all isContinuation

/-- `utf8.DecodeRune`: the first character and its size; for what is no encoding, the replacement
character and one byte. -/
def decodeRune : Bytes → ℕ × ℕ
  | [] => (runeError, 0)
  | b :: rest =>
    if b < 0x80 then (b.toNat, 1)
    else
      match acceptRange b with
      | none => (runeError, 1)
      | some (size, lo, hi) =>
        if isTail size lo hi (rest.take (size - 1)) then
          ((rest.take (size - 1)).foldl (fun r c => r * 64 + c.toNat % 64) (b.toNat % 2 ^ (7 - size)), size)
        else (runeError, 1)

/-- Where `utf8.DecodeLastRune` decodes from when the last byte is not ASCII: the last of the three bytes
before it that can start a character. -/
def lastStart (p : Bytes) : ℕ :=
  match [2, 3, 4].find? (fun k => k ≤ p.length ∧ (p[p.length - k]?.any fun c => !isContinuation c)) with
  | some k => p.length - k
  | none => p.length - 5

/-- `utf8.DecodeLastRune`: the last character and its size. -/
def decodeLastRune (p : Bytes) : ℕ × ℕ :=
  match p.getLast? with
  | none => (runeError, 0)
  | some b =>
    if b < 0x80 then (b.toNat, 1)
    else
      let d := decodeRune (p.drop (lastStart p))
      if lastStart p + d.2 = p.length then d else (runeError, 1)

/-- `unicode.IsSpace`. -/
def isSpaceRune (r : ℕ) : Bool := isSpace (Char.ofNat r)

/-! ## Decoding the first character -/

variable {p : Bytes} {b : UInt8}

/-- The size of an encoding is 2, 3 or 4. -/
theorem acceptRange_size {size : ℕ} {lo hi : UInt8} (h : acceptRange b = some (size, lo, hi)) :
    2 ≤ size ∧ size ≤ 4 := by
  unfold acceptRange at h
  split_ifs at h
  all_goals
    simp only [Option.some.injEq, Prod.mk.injEq] at h
    omega

/-- A character takes at least a byte, and at most those there are. -/
theorem decodeRune_size (hne : p ≠ []) : 1 ≤ (decodeRune p).2 ∧ (decodeRune p).2 ≤ p.length := by
  obtain ⟨b, rest, rfl⟩ := List.exists_cons_of_ne_nil hne
  rw [decodeRune]
  split_ifs
  · simp
  · cases hacc : acceptRange b with
    | none => simp
    | some x =>
      obtain ⟨size, lo, hi⟩ := x
      have hsize := acceptRange_size hacc
      dsimp only
      split_ifs with htail
      · simp only [isTail, Bool.and_eq_true, decide_eq_true_eq, List.length_take] at htail
        simp only [List.length_cons]
        omega
      · simp

/-- What follows a character that could be decoded makes no difference. -/
theorem decodeRune_append (hne : p ≠ []) (hr : (decodeRune p).1 ≠ runeError) (q : Bytes) :
    decodeRune (p ++ q) = decodeRune p := by
  obtain ⟨b, rest, rfl⟩ := List.exists_cons_of_ne_nil hne
  rw [List.cons_append, decodeRune, decodeRune] at *
  split_ifs at * with hb
  · rfl
  · cases hacc : acceptRange b with
    | none => rfl
    | some x =>
      obtain ⟨size, lo, hi⟩ := x
      rw [hacc] at hr
      dsimp only at hr ⊢
      split_ifs at hr with htail
      · have hlen : size - 1 ≤ rest.length := by
          simp only [isTail, Bool.and_eq_true, decide_eq_true_eq, List.length_take] at htail
          omega
        rw [List.take_append_of_le_length hlen, if_pos htail]
      · exact absurd rfl hr

/-- A newline ends what is decoded: what follows it makes no difference. -/
theorem decodeRune_newline (p q : Bytes) : decodeRune (p ++ 0x0a :: q) = decodeRune (p ++ [0x0a]) := by
  cases p with
  | nil => rfl
  | cons b rest =>
    rw [List.cons_append, List.cons_append, decodeRune, decodeRune]
    split_ifs
    · rfl
    · cases hacc : acceptRange b with
      | none => rfl
      | some x =>
        obtain ⟨size, lo, hi⟩ := x
        dsimp only
        by_cases hlen : size - 1 ≤ rest.length
        · rw [List.take_append_of_le_length hlen, List.take_append_of_le_length hlen]
        · -- The newline is among the bytes of the encoding, and continues none.
          have hnone : ∀ q : Bytes, isTail size lo hi ((rest ++ 0x0a :: q).take (size - 1)) = false := by
            intro q
            rw [Bool.eq_false_iff]
            intro h
            simp only [isTail, Bool.and_eq_true, List.all_eq_true] at h
            have hmem : (0x0a : UInt8) ∈ (rest ++ 0x0a :: q).take (size - 1) := by
              rw [List.take_append, List.mem_append]
              right
              obtain ⟨k, hk⟩ : ∃ k, size - 1 - rest.length = k + 1 := ⟨size - 1 - rest.length - 1, by omega⟩
              rw [hk, List.take_succ_cons]
              exact List.mem_cons_self
            exact absurd (h.2 _ hmem) (by decide)
          rw [hnone q, hnone [], if_neg (by simp), if_neg (by simp)]

/-- Four bytes decide the first character. -/
theorem decodeRune_take (p : Bytes) : decodeRune (p.take 4) = decodeRune p := by
  cases p with
  | nil => rfl
  | cons b rest =>
    rw [List.take_succ_cons, decodeRune, decodeRune]
    split_ifs
    · rfl
    · cases hacc : acceptRange b with
      | none => rfl
      | some x =>
        obtain ⟨size, lo, hi⟩ := x
        have hsize := acceptRange_size hacc
        dsimp only
        rw [List.take_take, min_eq_left (by omega)]

/-- The last character, when it could be decoded, is the first one of the bytes it takes. -/
theorem decodeLastRune_spec (hr : (decodeLastRune p).1 ≠ runeError) :
    1 ≤ (decodeLastRune p).2 ∧ (decodeLastRune p).2 ≤ p.length ∧
      decodeRune (p.drop (p.length - (decodeLastRune p).2)) = decodeLastRune p := by
  unfold decodeLastRune at *
  cases hlast : p.getLast? with
  | none => simp [hlast] at hr
  | some b =>
    obtain ⟨q, rfl⟩ : ∃ q, p = q ++ [b] := List.getLast?_eq_some_iff.mp hlast
    rw [hlast] at hr
    dsimp only at hr ⊢
    split_ifs at hr ⊢ with hb hsize
    · simp [decodeRune, hb]
    · have hne : (q ++ [b]).drop (lastStart (q ++ [b])) ≠ [] := by
        intro hnil
        rw [hnil] at hr
        exact hr rfl
      have hpos := (decodeRune_size hne).1
      refine ⟨hpos, by omega, ?_⟩
      refine congrArg (fun n => decodeRune ((q ++ [b]).drop n)) ?_
      omega
    · exact absurd rfl hr

/-! ## White space -/

/-- `bytes.TrimLeftFunc` of white space. -/
def trimLeftSpace (p : Bytes) : Bytes :=
  if _h : p ≠ [] ∧ isSpaceRune (decodeRune p).1 then trimLeftSpace (p.drop (decodeRune p).2) else p
termination_by p.length
decreasing_by
  have hsize := decodeRune_size _h.1
  rw [List.length_drop]
  omega

/-- `bytes.TrimRightFunc` of white space. -/
def trimRightSpace (p : Bytes) : Bytes :=
  if _h : (decodeLastRune p).1 ≠ runeError ∧ isSpaceRune (decodeLastRune p).1 then
    trimRightSpace (p.take (p.length - (decodeLastRune p).2))
  else p
termination_by p.length
decreasing_by
  have hspec := decodeLastRune_spec _h.1
  rw [List.length_take]
  omega

/-- `bytes.TrimSpace` and `strings.TrimSpace`. -/
def trimSpace (p : Bytes) : Bytes := trimRightSpace (trimLeftSpace p)

/-- The replacement character is no white space. -/
theorem not_isSpaceRune_runeError : isSpaceRune runeError = false := by decide

/-- Trimming the left leaves nothing, or a text whose first character is no white space. -/
theorem trimLeftSpace_spec (p : Bytes) :
    trimLeftSpace p = [] ∨ isSpaceRune (decodeRune (trimLeftSpace p)).1 = false := by
  fun_induction trimLeftSpace p with
  | case1 p h ih => exact ih
  | case2 p h =>
    by_cases hne : p = []
    · exact .inl hne
    · right
      rw [Bool.eq_false_iff]
      exact fun hs => h ⟨hne, hs⟩

/-- A text whose first character is no white space keeps its first byte when its right is trimmed. -/
theorem head?_trimRightSpace {whole : Bytes} (hwhole : isSpaceRune (decodeRune whole).1 = false) (p q : Bytes)
    (hp : p ++ q = whole) (hne : p ≠ []) : (trimRightSpace p).head? = p.head? := by
  fun_induction trimRightSpace p generalizing q with
  | case1 p h ih =>
    obtain ⟨hpos, hle, hdec⟩ := decodeLastRune_spec h.1
    -- White space that took the whole text would be its first character.
    have hlt : (decodeLastRune p).2 < p.length := by
      by_contra hge
      have hall : p.length - (decodeLastRune p).2 = 0 := by omega
      rw [hall, List.drop_zero] at hdec
      have hfirst : decodeRune whole = decodeLastRune p := by
        rw [← hp, decodeRune_append hne (by rw [hdec]; exact h.1), hdec]
      rw [hfirst, h.2] at hwhole
      exact absurd hwhole (by decide)
    have htake : p.take (p.length - (decodeLastRune p).2) ≠ [] := by
      rw [ne_eq, List.take_eq_nil_iff, not_or]
      exact ⟨by omega, hne⟩
    have hrest : p.take (p.length - (decodeLastRune p).2) ++ (p.drop (p.length - (decodeLastRune p).2) ++ q) = whole := by
      rw [← List.append_assoc, List.take_append_drop, hp]
    rw [ih _ hrest htake]
    obtain ⟨b, rest, rfl⟩ := List.exists_cons_of_ne_nil hne
    obtain ⟨k, hk⟩ : ∃ k, (b :: rest).length - (decodeLastRune (b :: rest)).2 = k + 1 :=
      ⟨(b :: rest).length - (decodeLastRune (b :: rest)).2 - 1, by omega⟩
    rw [hk, List.take_succ_cons, List.head?_cons, List.head?_cons]
  | case2 p h => rfl

/-- Trimming both ends leaves the same first byte as trimming the left. -/
theorem head?_trimSpace (p : Bytes) : (trimSpace p).head? = (trimLeftSpace p).head? := by
  unfold trimSpace
  by_cases hnil : trimLeftSpace p = []
  · rw [hnil, trimRightSpace, dif_neg]
    rintro ⟨h, -⟩
    exact h rfl
  · exact head?_trimRightSpace ((trimLeftSpace_spec p).resolve_left hnil) _ [] (List.append_nil _) hnil

/-! ## ASCII in a text -/

/-- An ASCII byte is a character of its own. -/
theorem decodeRune_ascii (hb : b < 0x80) (rest : Bytes) : decodeRune (b :: rest) = (b.toNat, 1) := by
  rw [decodeRune, if_pos hb]

/-- An ASCII byte of a character is all of it. -/
theorem decodeRune_of_mem (hb : b < 0x80) (hr : (decodeRune p).1 ≠ runeError) (hmem : b ∈ p.take (decodeRune p).2) :
    (decodeRune p).1 = b.toNat := by
  cases p with
  | nil => exact absurd rfl hr
  | cons c rest =>
    by_cases hc : c < 0x80
    · rw [decodeRune_ascii hc] at hmem ⊢
      obtain rfl : b = c := by simpa using hmem
      rfl
    · rw [decodeRune, if_neg hc] at hmem hr
      cases hacc : acceptRange c with
      | none =>
        rw [hacc] at hr
        exact absurd rfl hr
      | some a =>
        obtain ⟨size, lo, hi⟩ := a
        rw [hacc] at hmem hr
        dsimp only at hmem hr
        split_ifs at hmem hr with htail
        · obtain ⟨n, rfl⟩ : ∃ n, size = n + 1 := ⟨size - 1, by have := acceptRange_size hacc; omega⟩
          rw [List.take_succ_cons, Nat.add_sub_cancel] at *
          rcases List.mem_cons.mp hmem with rfl | hmem
          · exact absurd hb hc
          · -- The bytes after the first are not ASCII.
            simp only [isTail, Bool.and_eq_true] at htail
            have hcont := List.all_eq_true.mp htail.2 b hmem
            simp only [isContinuation, Bool.and_eq_true, decide_eq_true_eq] at hcont
            exact absurd hb (UInt8.not_lt.mpr hcont.1)
        · exact absurd rfl hr

/-- White space is a character that can be decoded. -/
theorem ne_runeError_of_isSpaceRune (h : isSpaceRune (decodeRune p).1 = true) : (decodeRune p).1 ≠ runeError := by
  intro hr
  rw [hr, not_isSpaceRune_runeError] at h
  exact absurd h (by decide)

/-- A text of white space holds no other ASCII byte. -/
theorem notMem_of_trimLeftSpace_eq_nil (hb : b < 0x80) (hns : isSpaceRune b.toNat = false) (h : trimLeftSpace p = []) :
    b ∉ p := by
  fun_induction trimLeftSpace p with
  | case1 p hspace ih =>
    intro hmem
    rw [← List.take_append_drop (decodeRune p).2 p] at hmem
    rcases List.mem_append.mp hmem with hmem | hmem
    · have hrune := decodeRune_of_mem hb (ne_runeError_of_isSpaceRune hspace.2) hmem
      rw [hrune, hns] at hspace
      exact absurd hspace.2 (by decide)
    · exact ih h hmem
  | case2 p hspace => simp [h]

/-- An ASCII byte that is found behind white space is found in what the text is the start of. -/
theorem head?_trimLeftSpace_append (hb : b < 0x80) (h : (trimLeftSpace p).head? = some b) (q : Bytes) :
    (trimLeftSpace (p ++ q)).head? = some b := by
  fun_induction trimLeftSpace p with
  | case1 p hspace ih =>
    have hdecode := decodeRune_append hspace.1 (ne_runeError_of_isSpaceRune hspace.2) q
    have hsize := (decodeRune_size hspace.1).2
    rw [trimLeftSpace, dif_pos ⟨by simp [hspace.1], by rw [hdecode]; exact hspace.2⟩, hdecode, List.drop_append_of_le_length hsize]
    exact ih h
  | case2 p hspace =>
    obtain ⟨rest, rfl⟩ : ∃ rest, p = b :: rest := ⟨p.tail, List.eq_cons_of_mem_head? h⟩
    have hns : ¬ isSpaceRune (decodeRune (b :: rest)).1 = true := fun hs => hspace ⟨List.cons_ne_nil _ _, hs⟩
    rw [decodeRune_ascii hb] at hns
    rw [List.cons_append, trimLeftSpace, dif_neg]
    · rfl
    · rintro ⟨-, hs⟩
      rw [decodeRune_ascii hb] at hs
      exact hns hs

end Utf8
