import UpgradeScope.Server.YamlMeter

/-!
# Runs of the YAML meter

Two scanners that see the same bytes from where they stand, with the same meter, go on the same way
(`YamlScanner.Same`): neither the chunks of the body nor the offset of the range is visible to the code.
This is proved function by function, each loop by induction over its own recursion. The states of a run
are those between the calls of its loop (`YamlScanner.Reached`), and a run is the sequence of tokens the
loop scans (`YamlScanner.Scans`).
-/

namespace UpgradeScope

open Utf8

namespace YamlScanner

/-! ## What a scanner sees -/

/-- Two scanners see the same bytes ahead, and keep the same. -/
structure Same (s t : YamlScanner) : Prop where
  /-- As many bytes are left. -/
  left : s.stop - s.pos = t.stop - t.pos
  /-- They are the same. -/
  «at» : ∀ k, s.«at» k = t.«at» k
  /-- The marks, stacks and counts are the same. -/
  meter : s.toMeter = t.toMeter

section Same

variable {s t : YamlScanner}

theorem Same.isZ (h : Same s t) (k : ℕ) : s.isZ k = t.isZ k := by
  have hleft := h.left
  have hend : s.stop ≤ s.pos + k ↔ t.stop ≤ t.pos + k := by omega
  simp only [YamlScanner.isZ, h.«at», hend]

theorem Same.breakLen (h : Same s t) (k : ℕ) : s.breakLen k = t.breakLen k := by simp only [YamlScanner.breakLen, h.«at»]

theorem Same.isBlankZ (h : Same s t) (k : ℕ) : s.isBlankZ k = t.isBlankZ k := by
  simp only [YamlScanner.isBlankZ, h.«at», h.breakLen, h.isZ]

theorem Same.inLine (h : Same s t) : s.inLine = t.inLine := by simp only [YamlScanner.inLine, h.breakLen, h.isZ]

theorem Same.col (h : Same s t) : s.col = t.col := congrArg Meter.col h.meter

theorem Same.flowLevel (h : Same s t) : s.flowLevel = t.flowLevel := congrArg (fun m => m.flowLevel) h.meter

theorem Same.indent (h : Same s t) : s.indent = t.indent := congrArg (fun m => m.indent) h.meter

theorem Same.isMarker (h : Same s t) : s.isMarker = t.isMarker := by
  simp only [YamlScanner.isMarker, h.col, h.«at», h.isBlankZ]

theorem Same.inPlain (h : Same s t) : s.inPlain = t.inPlain := by
  simp only [YamlScanner.inPlain, h.flowLevel, h.«at», h.isBlankZ]

theorem Same.isWhite (h : Same s t) : s.isWhite = t.isWhite := by simp only [YamlScanner.isWhite, h.«at», h.breakLen]

theorem Same.kind (h : Same s t) : s.kind = t.kind := by
  simp only [YamlScanner.kind, h.col, h.flowLevel, h.isMarker, h.«at», h.isBlankZ]

theorem Same.count (h : Same s t) (f : Meter → Meter) : Same (s.count f) (t.count f) :=
  ⟨h.left, h.«at», congrArg f h.meter⟩

/-- As many bytes on, the bytes are still the same. -/
theorem Same.move (h : Same s t) (n : ℕ) {m m' : Meter} (hm : m = m') :
    Same { s with pos := s.pos + n, toMeter := m } { t with pos := t.pos + n, toMeter := m' } := by
  refine ⟨?_, ?_, hm⟩
  · have hleft := h.left
    dsimp only
    omega
  · intro k
    have hat := h.«at» (n + k)
    unfold YamlScanner.«at» at hat ⊢
    simp only [Nat.add_assoc] at hat ⊢
    exact hat

/-- A character has as many bytes in both. -/
theorem Same.continuationEnd (h : Same s t) (k : ℕ) :
    ∃ n, continuationEnd s.src s.stop (s.pos + k) = s.pos + n ∧ continuationEnd t.src t.stop (t.pos + k) = t.pos + n := by
  have hleft := h.left
  have hat := h.«at» k
  unfold YamlScanner.«at» at hat
  rw [UpgradeScope.continuationEnd, UpgradeScope.continuationEnd.eq_def t.src]
  by_cases hin : s.pos + k < s.stop
  · have hin' : t.pos + k < t.stop := by omega
    rw [if_pos hin, if_pos hin'] at hat
    rw [hat]
    by_cases hcont : t.src.byte (t.pos + k) &&& 0xc0 = 0x80
    · rw [if_pos ⟨hin, hcont⟩, if_pos ⟨hin', hcont⟩]
      exact h.continuationEnd (k + 1)
    · rw [if_neg (fun hc => hcont hc.2), if_neg (fun hc => hcont hc.2)]
      exact ⟨k, rfl, rfl⟩
  · have hout : ¬ t.pos + k < t.stop := by omega
    rw [if_neg (fun hc => hin hc.1), if_neg (fun hc => hout hc.1)]
    exact ⟨k, rfl, rfl⟩
termination_by s.stop - (s.pos + k)

theorem Same.skip (h : Same s t) : Same s.skip t.skip := by
  obtain ⟨n, hs, ht⟩ := h.continuationEnd 1
  unfold YamlScanner.skip
  rw [hs, ht]
  exact h.move n (by rw [h.meter])

theorem Same.skipLine (h : Same s t) : Same s.skipLine t.skipLine := by
  unfold YamlScanner.skipLine
  dsimp only
  rw [h.breakLen 0, h.«at» 0]
  split_ifs
  · exact h.move _ (by rw [h.meter])
  · exact h.move _ (by rw [h.meter])
  · exact h

/-- Two scanners that see the same take the same branch. -/
theorem same_ite {a b c d : YamlScanner} {p q : Prop} [Decidable p] [Decidable q] (hpq : p ↔ q) (hpos : p → Same a b)
    (hneg : ¬ p → Same c d) : Same (if p then a else c) (if q then b else d) := by
  by_cases hp : p
  · rw [if_pos hp, if_pos (hpq.mp hp)]
    exact hpos hp
  · rw [if_neg hp, if_neg (fun hq => hp (hpq.mpr hq))]
    exact hneg hp

theorem Same.skipWhile {cond : YamlScanner → Bool} (hcond : ∀ s t, Same s t → cond s = cond t) (h : Same s t) :
    Same (s.skipWhile cond) (t.skipWhile cond) := by
  have hleft := h.left
  have hlt : s.pos < s.stop ↔ t.pos < t.stop := by omega
  fun_induction YamlScanner.skipWhile cond s generalizing t with
  | case1 s hs ih =>
    rw [YamlScanner.skipWhile.eq_def cond t, dif_pos ⟨hlt.mp hs.1, hcond s t h ▸ hs.2⟩]
    have hskip := h.skip
    have hleft' := hskip.left
    exact ih hskip hleft' (by omega)
  | case2 s hs =>
    rw [YamlScanner.skipWhile.eq_def cond t, dif_neg (fun ht => hs ⟨hlt.mpr ht.1, (hcond s t h).trans ht.2⟩)]
    exact h

theorem Same.skipWhile_inLine (h : Same s t) : Same (s.skipWhile YamlScanner.inLine) (t.skipWhile YamlScanner.inLine) :=
  h.skipWhile fun _ _ h' => h'.inLine

theorem Same.blanks (h : Same s t) : Same s.blanks t.blanks := by
  unfold YamlScanner.blanks
  extract_lets s₁ s₂ t₁ t₂
  have h₁ : Same s₁ t₁ := by
    refine same_ite ?_ (fun _ => h.skip) fun _ => h
    rw [h.col, h.«at», h.«at», h.«at»]
  have h₂ : Same s₂ t₂ := h₁.skipWhile fun s t h => by
    rw [h.«at», h.flowLevel, congrArg Meter.keyAllowed h.meter]
  refine same_ite ?_ (fun _ => h₂.skipWhile_inLine) fun _ => h₂
  rw [h₂.«at»]

theorem Same.toNextToken (h : Same s t) : Same s.toNextToken t.toNextToken := by
  fun_induction YamlScanner.toNextToken s generalizing t with
  | case1 s hs =>
    rw [h.blanks.breakLen] at hs
    rw [YamlScanner.toNextToken.eq_def t, dif_pos hs]
    exact h.blanks
  | case2 s hs ih =>
    rw [h.blanks.breakLen] at hs
    rw [YamlScanner.toNextToken.eq_def t, dif_neg hs]
    exact ih (h.blanks.skipLine.count newLine)

/-! ### Scalars -/

theorem Same.skipWhite (h : Same s t) : Same s.skipWhite t.skipWhite := by
  refine same_ite ?_ (fun _ => h.skip) fun _ => h.skipLine
  rw [h.«at»]

theorem Same.plainBlanks (h : Same s t) (leading : Bool) :
    Same (s.plainBlanks leading).1 (t.plainBlanks leading).1 ∧ (s.plainBlanks leading).2 = (t.plainBlanks leading).2 := by
  fun_induction YamlScanner.plainBlanks s leading generalizing t with
  | case1 s leading hs ih =>
    rw [YamlScanner.plainBlanks.eq_def t, dif_pos (h.isWhite ▸ hs), ← h.«at»]
    exact ih h.skipWhite
  | case2 s leading hs =>
    rw [YamlScanner.plainBlanks.eq_def t, dif_neg (h.isWhite ▸ hs)]
    exact ⟨h, rfl⟩

theorem Same.plainWord (h : Same s t) : Same s.plainWord t.plainWord := h.skipWhile fun _ _ h' => h'.inPlain

theorem Same.plainLoop (h : Same s t) (indent : ℤ) (leading : Bool) :
    Same (s.plainLoop indent leading).1 (t.plainLoop indent leading).1 ∧
      (s.plainLoop indent leading).2 = (t.plainLoop indent leading).2 := by
  fun_induction YamlScanner.plainLoop indent s leading generalizing t with
  | case1 s leading hs =>
    rw [h.isMarker, h.«at»] at hs
    rw [YamlScanner.plainLoop.eq_def indent t, if_pos hs]
    exact ⟨h, rfl⟩
  | case2 s leading hs hw hcol =>
    have hblanks := h.plainWord.plainBlanks leading
    rw [h.isMarker, h.«at»] at hs
    rw [h.plainWord.isWhite] at hw
    rw [hblanks.1.flowLevel, hblanks.1.col] at hcol
    rw [YamlScanner.plainLoop.eq_def indent t, if_neg hs, dif_pos hw, if_pos hcol]
    exact hblanks
  | case3 s leading hs hw hcol ih =>
    have hblanks := h.plainWord.plainBlanks leading
    rw [h.isMarker, h.«at»] at hs
    rw [h.plainWord.isWhite] at hw
    rw [hblanks.1.flowLevel, hblanks.1.col] at hcol
    rw [YamlScanner.plainLoop.eq_def indent t, if_neg hs, dif_pos hw, if_neg hcol, ← hblanks.2]
    exact ih hblanks.1
  | case4 s leading hs hw =>
    rw [h.isMarker, h.«at»] at hs
    rw [h.plainWord.isWhite] at hw
    rw [YamlScanner.plainLoop.eq_def indent t, if_neg hs, dif_neg hw]
    exact ⟨h.plainWord, rfl⟩

theorem Same.plain (h : Same s t) : Same s.plain t.plain := by
  unfold YamlScanner.plain
  dsimp only
  rw [h.indent]
  have hloop := h.plainLoop (t.indent + 1) false
  refine same_ite ?_ (fun _ => hloop.1.count _) fun _ => hloop.1
  rw [hloop.2]

theorem Same.skipEscaped (h : Same s t) : Same s.skipEscaped t.skipEscaped := by
  refine same_ite ?_ (fun _ => h.skipLine) fun _ => same_ite ?_ (fun _ => h.skip) fun _ => h
  · rw [h.breakLen]
  · rw [h.isZ]

theorem Same.quotedLoop (h : Same s t) (q : UInt8) : Same (s.quotedLoop q) (t.quotedLoop q) := by
  fun_induction YamlScanner.quotedLoop q s generalizing t with
  | case1 s hz =>
    rw [h.isZ] at hz
    rw [YamlScanner.quotedLoop.eq_def q t, dif_pos hz]
    exact h
  | case2 s hz hq ih =>
    rw [h.isZ] at hz
    rw [h.«at», h.«at»] at hq
    rw [YamlScanner.quotedLoop.eq_def q t, dif_neg hz, if_pos hq]
    exact ih h.skip.skip
  | case3 s hz hq hc =>
    rw [h.isZ] at hz
    rw [h.«at», h.«at»] at hq
    rw [h.«at»] at hc
    rw [YamlScanner.quotedLoop.eq_def q t, dif_neg hz, if_neg hq, if_pos hc]
    exact h.skip
  | case4 s hz hq hc hesc ih =>
    rw [h.isZ] at hz
    rw [h.«at», h.«at»] at hq
    rw [h.«at»] at hc hesc
    rw [YamlScanner.quotedLoop.eq_def q t, dif_neg hz, if_neg hq, if_neg hc, if_pos hesc]
    exact ih h.skip.skipEscaped
  | case5 s hz hq hc hesc hb ih =>
    rw [h.isZ] at hz
    rw [h.«at», h.«at»] at hq
    rw [h.«at»] at hc hesc
    rw [h.breakLen] at hb
    rw [YamlScanner.quotedLoop.eq_def q t, dif_neg hz, if_neg hq, if_neg hc, if_neg hesc, dif_pos hb]
    exact ih h.skipLine
  | case6 s hz hq hc hesc hb ih =>
    rw [h.isZ] at hz
    rw [h.«at», h.«at»] at hq
    rw [h.«at»] at hc hesc
    rw [h.breakLen] at hb
    rw [YamlScanner.quotedLoop.eq_def q t, dif_neg hz, if_neg hq, if_neg hc, if_neg hesc, dif_neg hb]
    exact ih h.skip

theorem Same.indentSpaces (h : Same s t) (indent : ℤ) : Same (s.indentSpaces indent) (t.indentSpaces indent) :=
  h.skipWhile fun s t h => by rw [h.col, h.«at»]

theorem Same.breaksLoop (h : Same s t) (indent maxIndent : ℤ) :
    Same (s.breaksLoop indent maxIndent).2 (t.breaksLoop indent maxIndent).2 ∧
      (s.breaksLoop indent maxIndent).1 = (t.breaksLoop indent maxIndent).1 := by
  fun_induction YamlScanner.breaksLoop indent maxIndent s generalizing t with
  | case1 maxIndent s hs =>
    have hspaces := h.indentSpaces indent
    rw [hspaces.breakLen] at hs
    rw [YamlScanner.breaksLoop.eq_def indent maxIndent t, dif_pos hs, hspaces.col]
    exact ⟨hspaces, rfl⟩
  | case2 maxIndent s hs ih =>
    have hspaces := h.indentSpaces indent
    rw [hspaces.breakLen] at hs
    rw [YamlScanner.breaksLoop.eq_def indent maxIndent t, dif_neg hs, ← hspaces.col]
    exact ih hspaces.skipLine

theorem Same.blockBreaks (h : Same s t) (indent : ℤ) :
    Same (s.blockBreaks indent).2 (t.blockBreaks indent).2 ∧ (s.blockBreaks indent).1 = (t.blockBreaks indent).1 := by
  have hloop := h.breaksLoop indent 0
  refine ⟨hloop.1, ?_⟩
  unfold YamlScanner.blockBreaks
  dsimp only
  rw [hloop.2, hloop.1.indent]

theorem Same.blockLine (h : Same s t) : Same s.blockLine t.blockLine := h.skipWhile_inLine.skipLine

theorem Same.linesLoop (h : Same s t) (indent : ℤ) : Same (s.linesLoop indent) (t.linesLoop indent) := by
  fun_induction YamlScanner.linesLoop indent s generalizing t with
  | case1 indent s hs ih =>
    have hbreaks := h.blockLine.blockBreaks indent
    rw [h.col, h.isZ] at hs
    rw [YamlScanner.linesLoop.eq_def indent t, dif_pos hs, ← hbreaks.2]
    exact ih hbreaks.1
  | case2 indent s hs =>
    rw [h.col, h.isZ] at hs
    rw [YamlScanner.linesLoop.eq_def indent t, dif_neg hs]
    exact h

/-- The indentations of two scans are the same, and their scanners see the same. -/
def SamePair (p q : ℤ × YamlScanner) : Prop := Same p.2 q.2 ∧ p.1 = q.1

theorem SamePair.headerIndicator {p q : ℤ × YamlScanner} (h : SamePair p q) :
    SamePair (headerIndicator p) (headerIndicator q) := by
  unfold YamlScanner.headerIndicator
  rw [h.1.«at», h.2]
  split_ifs
  · exact ⟨h.1.skip, rfl⟩
  · exact ⟨h.1.skip, rfl⟩
  · exact h

theorem Same.blockScalar (h : Same s t) : Same s.blockScalar t.blockScalar := by
  unfold YamlScanner.blockScalar
  extract_lets p s' q p' t' q'
  have hheader : SamePair p p' := SamePair.headerIndicator (SamePair.headerIndicator ⟨h.skip, rfl⟩)
  have hline : Same s' t' := hheader.1.blockLine
  have hbreaks : SamePair q q' := by
    unfold q q'
    rw [hheader.2, hline.indent]
    exact hline.blockBreaks _
  rw [hbreaks.2]
  exact hbreaks.1.linesLoop q'.1

/-! ### Tokens -/

/-- The scan is given up in both. -/
theorem Same.giveUp (h : Same s t) : Same { s with pos := s.stop } { t with pos := t.stop } := by
  refine ⟨?_, ?_, h.meter⟩
  · dsimp only
    omega
  · intro k
    unfold YamlScanner.«at»
    dsimp only
    rw [if_neg (by omega), if_neg (by omega)]

theorem Same.roll (h : Same s t) (col : ℕ) (fill : Bool) :
    Same (s.roll col fill).2 (t.roll col fill).2 ∧ (s.roll col fill).1 = (t.roll col fill).1 := by
  unfold YamlScanner.roll
  rw [h.flowLevel, h.indent, congrArg (fun m => m.indents) h.meter]
  split_ifs
  · exact ⟨h, rfl⟩
  · exact ⟨h.giveUp, rfl⟩
  · exact ⟨h.count _, rfl⟩

theorem Same.value (h : Same s t) : Same s.value t.value := by
  unfold YamlScanner.value
  have hkeys : s.keys = t.keys := congrArg (fun m => m.keys) h.meter
  rw [hkeys]
  cases t.keys with
  | nil => exact h.count _
  | cons k ks =>
    dsimp only
    rw [congrArg Meter.line h.meter, congrArg Meter.idx h.meter, h.flowLevel]
    refine same_ite Iff.rfl (fun _ => same_ite Iff.rfl (fun _ => ?_) fun _ => h.count _) fun _ => ?_
    · have hroll := (h.count fun m => (m.takeKey k ks).addNodeIf (m.cost.nodes = k.nodes)).roll k.col false
      rw [hroll.2]
      exact hroll.1.count _
    · refine (same_ite Iff.rfl (fun _ => ?_) fun _ => h.count _).count _
      rw [h.col]
      exact (h.roll t.col true).1.count _

/-- A token is scanned the same way. -/
theorem Same.token (h : Same s t) : Same s.token t.token := by
  unfold YamlScanner.token
  rw [h.kind]
  cases t.kind with
  | directive => exact (h.count _).skipWhile_inLine
  | marker => exact (h.count _).skip.skip.skip
  | flowStart seq =>
    have hnode := h.count fun m => m.saveKey.node
    dsimp only
    rw [hnode.flowLevel]
    exact same_ite Iff.rfl (fun _ => hnode.giveUp) fun _ => (hnode.count _).skip
  | flowEnd => exact (h.count _).skip
  | comma => exact (h.count _).skip
  | dash =>
    dsimp only
    rw [h.flowLevel, h.col]
    exact ((same_ite Iff.rfl (fun _ => (h.roll t.col true).1.count _) fun _ => h).count _).skip
  | question =>
    dsimp only
    rw [h.flowLevel, h.col]
    exact ((same_ite Iff.rfl (fun _ => (h.roll t.col true).1.count _) fun _ => h.count _).count _).skip
  | colon => exact h.value.skip
  | aliasName => exact ((h.count _).skip.skipWhile fun s t h => by simp only [inName, h.«at»]).count _
  | anchor => exact ((h.count _).skip.skipWhile fun s t h => by simp only [inName, h.«at»]).count _
  | tag => exact ((h.count _).skipWhile fun s t h => by rw [h.isBlankZ]).count _
  | block => exact (h.count _).blockScalar.count _
  | quoted q => exact ((h.count _).skip.quotedLoop q).count _
  | plain => exact (h.count _).plain.count _
  | other => exact h.skip

theorem Same.next (h : Same s t) : Same s.next t.next := h.toNextToken.count _

/-- A run goes the same way. -/
theorem Same.run (h : Same s t) : Same s.run t.run := by
  fun_induction YamlScanner.run s generalizing t with
  | case1 s hz =>
    rw [h.next.isZ] at hz
    rw [YamlScanner.run.eq_def t, dif_pos hz]
    exact h.next.count _
  | case2 s hz ih =>
    rw [h.next.isZ] at hz
    rw [YamlScanner.run.eq_def t, dif_neg hz]
    exact ih h.next.token

end Same

/-! ## Runs -/

/-- The loop of `run`, with the tokens it scans counted: from a scanner to the one it returns with. -/
inductive Scans : YamlScanner → ℕ → YamlScanner → Prop
  /-- The end is reached. -/
  | done {s : YamlScanner} (h : s.next.isZ 0 = true) : Scans s 0 s.next.finish
  /-- A token is scanned. -/
  | token {s t : YamlScanner} {n : ℕ} (h : s.next.isZ 0 = false) (ht : Scans s.next.token n t) : Scans s (n + 1) t

/-- The scanners between the calls of a run. -/
inductive Reached (s : YamlScanner) : YamlScanner → Prop
  /-- At the start. -/
  | start : Reached s s
  /-- At the next token. -/
  | next {t : YamlScanner} (h : Reached s t) : Reached s t.next
  /-- After a token. -/
  | token {t : YamlScanner} (h : Reached s t) (hz : t.next.isZ 0 = false) : Reached s t.next.token
  /-- At the end. -/
  | finish {t : YamlScanner} (h : Reached s t) (hz : t.next.isZ 0 = true) : Reached s t.next.finish

/-- A run ends, after at most as many tokens as there are bytes. -/
theorem scans_run (s : YamlScanner) : ∃ n ≤ s.stop - s.pos, Scans s n s.run := by
  fun_induction YamlScanner.run s with
  | case1 s hz => exact ⟨0, Nat.zero_le _, .done hz⟩
  | case2 s hz ih =>
    obtain ⟨n, hn, hscans⟩ := ih
    have hz' := Bool.eq_false_iff.mpr hz
    have hnext := s.onward_next
    have htoken := advances_token hz'
    refine ⟨n + 1, ?_, .token hz' hscans⟩
    have hlt := pos_lt_of_not_isZ hz'
    obtain ⟨hback, hstop⟩ := hnext
    obtain ⟨hmove, hstop'⟩ := htoken
    omega

theorem sound_of_reached {s t : YamlScanner} (h : s.Sound) (ht : Reached s t) : t.Sound := by
  induction ht with
  | start => exact h
  | next _ ih => exact sound_next ih
  | token _ _ ih => exact sound_token (sound_next ih)
  | finish _ _ ih => exact sound_finish (sound_next ih)

end YamlScanner

open YamlScanner

/-- A source of chunks whose last read was in the chunk `c`. -/
def sourceAt (chunks : List Bytes) (c : ℕ) : ByteSource := { newByteSource chunks with cur := c }

theorem reads_sourceAt (chunks : List Bytes) (c : ℕ) : (sourceAt chunks c).Reads chunks.flatten := by
  obtain ⟨hchunks, hstarts, hsize⟩ := ByteSource.reads_new chunks
  exact ⟨hchunks, hstarts, hsize⟩

theorem sound_newYamlScanner (src : ByteSource) (start stop : ℕ) : (newYamlScanner src start stop).Sound where
  keys := rfl
  flows := rfl
  increasing := List.pairwise_singleton _ _
  bottom := rfl
  depth := Nat.zero_le _
  popped := rfl

/-- Sources whose ranges hold the same bytes start scanners that see the same. -/
theorem same_newYamlScanner {src src' : ByteSource} {data data' : Bytes} {start stop start' stop' : ℕ} (h : src.Reads data)
    (h' : src'.Reads data') (hsize : stop - start = stop' - start')
    (hbytes : ∀ k < stop - start, data.getD (start + k) 0 = data'.getD (start' + k) 0) :
    Same (newYamlScanner src start stop) (newYamlScanner src' start' stop') := by
  refine ⟨hsize, ?_, rfl⟩
  intro k
  unfold YamlScanner.«at» newYamlScanner
  dsimp only
  rw [h.byte, h'.byte]
  by_cases hk : start + k < stop
  · rw [if_pos hk, if_pos (by omega)]
    exact hbytes k (by omega)
  · rw [if_neg hk, if_neg (by omega)]

/-- `measureYAMLRange` returns for every range of every body, however it is cut and wherever the last read
was, after scanning at most a token per byte, and each token takes at least a byte. Between any two calls
the stacks fit together, and nothing is popped from an empty one. What it returns depends only on the bytes
of the range. -/
theorem measureYAMLRange_total (chunks : List Bytes) (c start stop : ℕ) :
    (∃ n ≤ stop - start, ∃ t, Scans (newYamlScanner (sourceAt chunks c) start stop) n t ∧
        measureYAMLRange (sourceAt chunks c) start stop = t.cost) ∧
      (∀ s, Reached (newYamlScanner (sourceAt chunks c) start stop) s →
        s.Sound ∧ (s.indents = [] ↔ s.indent = -1) ∧ (s.isZ 0 = false → s.pos < s.token.pos)) ∧
      ∀ chunks' c' start' stop', stop - start = stop' - start' →
        (∀ k < stop - start, chunks.flatten.getD (start + k) 0 = chunks'.flatten.getD (start' + k) 0) →
        measureYAMLRange (sourceAt chunks c) start stop = measureYAMLRange (sourceAt chunks' c') start' stop' := by
  refine ⟨?_, ?_, ?_⟩
  · obtain ⟨n, hn, hscans⟩ := scans_run (newYamlScanner (sourceAt chunks c) start stop)
    exact ⟨n, hn, _, hscans, rfl⟩
  · intro s hs
    have hsound := sound_of_reached (sound_newYamlScanner _ _ _) hs
    exact ⟨hsound, hsound.indents_eq_nil_iff, fun hz => (advances_token hz).1⟩
  · intro chunks' c' start' stop' hsize hbytes
    have hsame := same_newYamlScanner (reads_sourceAt chunks c) (reads_sourceAt chunks' c') hsize hbytes
    exact congrArg Meter.cost hsame.run.meter

/-- A mapping measured in one piece, and as the end of a body cut inside it. -/
theorem measureYAMLRange_total_cut :
    measureYAMLRange (sourceAt [[0x61, 0x3a, 0x20, 0x62]] 0) 0 4 = ⟨3, 0, 0⟩ ∧
      measureYAMLRange (sourceAt [[0x61, 0x3a, 0x20, 0x62]] 0) 0 4 =
        measureYAMLRange (sourceAt [[0x2d, 0x0a], [0x61], [], [0x3a, 0x20, 0x62]] 3) 2 6 := by
  refine ⟨by decide +kernel, ?_⟩
  have htotal := measureYAMLRange_total [[0x61, 0x3a, 0x20, 0x62]] 0 0 4
  exact htotal.2.2 [[0x2d, 0x0a], [0x61], [], [0x3a, 0x20, 0x62]] 3 2 6 rfl (by decide)

end UpgradeScope
