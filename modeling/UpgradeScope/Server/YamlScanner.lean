import UpgradeScope.Server.ByteSource

/-!
# The YAML meter's scanner

`yamlScanner` of `internal/server/yamlcost.go` walks a range of a request body the way yaml.v3's scanner
does, and counts the nodes its parser would build. Its state is the place in the body (`Cursor`) and what
it keeps of the text before it (`Meter`): the marks, the stacks of indentations, simple keys and open flow
collections, and the counts. What only counts is a function on meters; what moves is a function on
scanners.

The stacks are lists with their top first. Where the code would index an empty one and panic, `panicked` is
set. Each loop of the code is a recursion on what is left of the range, so that a scan is a total function:
the facts about the position that this takes stand beside the definitions.
-/

namespace UpgradeScope

open Utf8

/-! ## What is counted -/

/-- `yamlCost`. -/
structure YamlCost where
  /-- Scalars, collections and aliases. -/
  nodes : ℕ := 0
  /-- Sequence entries. -/
  entries : ℕ := 0
  /-- Of the nodes, the aliases. -/
  aliases : ℕ := 0
deriving DecidableEq

/-- `yamlCost.add`. -/
def YamlCost.add (c o : YamlCost) : YamlCost := ⟨c.nodes + o.nodes, c.entries + o.entries, c.aliases + o.aliases⟩

/-- `yamlCost.units`: what a cost weighs against the node budget. -/
def YamlCost.units (c : YamlCost) : ℕ := c.nodes + 3 * c.entries

/-- `simpleKey`: a token that may turn out to be an implicit key. -/
structure SimpleKey where
  /-- It may still be one. -/
  possible : Bool := false
  /-- The line it starts on. -/
  line : ℕ := 0
  /-- The character it starts at. -/
  idx : ℕ := 0
  /-- The column it starts at. -/
  col : ℕ := 0
  /-- The block slot open before it was still empty. -/
  slotBefore : Bool := false
  /-- The nodes counted before it. -/
  nodes : ℕ := 0

/-- `flowItem`: the current entry of an open flow collection. -/
structure FlowItem where
  /-- The collection is a sequence. -/
  seq : Bool
  /-- The entry has content. -/
  started : Bool := false
  /-- It began with a question mark. -/
  explicitKey : Bool := false
  /-- It has a node before its colon. -/
  keyFilled : Bool := false
  /-- It has a colon. -/
  sawValue : Bool := false
  /-- It has a node after its colon. -/
  valueFilled : Bool := false

/-- `maxYAMLDepth`: how deep flow collections and block indentations nest. -/
def maxYAMLDepth : ℕ := 10000

/-- The stacks of a scanner, each with its top first. -/
structure Stacks where
  /-- The open flow collections, counted. -/
  flowLevel : ℕ := 0
  /-- The current indentation. -/
  indent : ℤ := -1
  /-- The indentations around it. -/
  indents : List ℤ := []
  /-- The simple keys, one per flow level and the block context's at the bottom. -/
  keys : List SimpleKey := []
  /-- The open flow collections. -/
  flows : List FlowItem := []
  /-- An empty stack was popped or its top read. -/
  panicked : Bool := false

/-- What a scanner keeps beside its place in the text. -/
structure Meter extends Stacks where
  /-- The line. -/
  line : ℕ := 0
  /-- The column, in characters. -/
  col : ℕ := 0
  /-- The characters read. -/
  idx : ℕ := 0
  /-- A simple key may start here. -/
  keyAllowed : Bool := true
  /-- The open block node slot is empty. -/
  expect : Bool := true
  /-- What was counted. -/
  cost : YamlCost := {}

namespace Meter

/-- One node more. -/
def addNode (m : Meter) : Meter := { m with cost := { m.cost with nodes := m.cost.nodes + 1 } }

/-- One node more, when something holds. -/
def addNodeIf (b : Bool) (m : Meter) : Meter := if b then m.addNode else m

/-- One sequence entry more. -/
def addEntry (m : Meter) : Meter := { m with cost := { m.cost with entries := m.cost.entries + 1 } }

/-- One alias more. -/
def addAlias (m : Meter) : Meter := { m with cost := { m.cost with aliases := m.cost.aliases + 1 } }

/-- Whether a simple key may start here. -/
def allowKey (b : Bool) (m : Meter) : Meter := { m with keyAllowed := b }

/-- An empty block slot is open. -/
def openSlot (m : Meter) : Meter := { m with expect := true }

/-- `closeSlot`: counts the empty node of a block slot that nothing filled. -/
def closeSlot (m : Meter) : Meter := if m.expect then { m.addNode with expect := false } else m

/-- The loop of `unroll`. -/
def unrollLoop (col : ℤ) (m : Meter) : Meter :=
  if m.indent ≤ col then m
  else
    match _h : m.indents with
    | [] => { m.closeSlot with panicked := true }
    | i :: is => unrollLoop col { m.closeSlot with indent := i, indents := is }
termination_by m.indents.length
decreasing_by simp [_h]

/-- `unroll`: pops the block collections indented deeper than a column. -/
def unroll (col : ℤ) (m : Meter) : Meter := if 0 < m.flowLevel then m else m.unrollLoop col

/-- `saveKey`. -/
def saveKey (m : Meter) : Meter :=
  if m.keyAllowed then
    match m.keys with
    | [] => { m with panicked := true }
    | _ :: ks =>
      { m with
        keys := { possible := true, line := m.line, idx := m.idx, col := m.col, slotBefore := m.expect, nodes := m.cost.nodes } :: ks }
  else m

@[simp] theorem saveKey_col (m : Meter) : m.saveKey.col = m.col := by
  unfold saveKey
  split_ifs
  · split <;> rfl
  · rfl

@[simp] theorem saveKey_flowLevel (m : Meter) : m.saveKey.flowLevel = m.flowLevel := by
  unfold saveKey
  split_ifs
  · split <;> rfl
  · rfl

@[simp] theorem allowKey_col (b : Bool) (m : Meter) : (m.allowKey b).col = m.col := rfl

@[simp] theorem allowKey_flowLevel (b : Bool) (m : Meter) : (m.allowKey b).flowLevel = m.flowLevel := rfl

/-- `removeKey`. -/
def removeKey (m : Meter) : Meter :=
  match m.keys with
  | [] => { m with panicked := true }
  | k :: ks => { m with keys := { k with possible := false } :: ks }

/-- A colon has made the top key one. -/
def takeKey (k : SimpleKey) (ks : List SimpleKey) (m : Meter) : Meter :=
  { m with keys := { k with possible := false } :: ks, keyAllowed := false }

/-- Pushes a block collection whose entries start at a column, which may fill the open slot. -/
def pushIndent (col : ℕ) (fill : Bool) (m : Meter) : Meter :=
  { m.addNode with indents := m.indent :: m.indents, indent := col, expect := !fill && m.expect }

/-- `flowStart`: the current flow entry is started, and counted when it is a new sequence entry. -/
def flowStart (m : Meter) : Meter :=
  match m.flows with
  | [] => { m with panicked := true }
  | f :: fs =>
    if f.started then m
    else
      let m : Meter := { m with flows := { f with started := true } :: fs }
      if f.seq then m.addEntry else m

/-- The current flow entry is changed. -/
def modifyFlow (g : FlowItem → FlowItem) (m : Meter) : Meter :=
  match m.flows with
  | [] => { m with panicked := true }
  | f :: fs => { m with flows := g f :: fs }

/-- Something holds of the current flow entry. -/
def flowIs (p : FlowItem → Bool) (m : Meter) : Bool := m.flows.head?.any p

/-- `node`: counts a scalar, alias or flow collection, which fills the open slot. -/
def node (m : Meter) : Meter :=
  if m.flowLevel = 0 then { m.addNode with expect := false }
  else
    m.addNode.flowStart.modifyFlow fun f => if f.sawValue then { f with valueFilled := true } else { f with keyFilled := true }

/-- `property`: counts an anchor or a tag, in a flow collection. -/
def property (m : Meter) : Meter := if 0 < m.flowLevel then m.node else m

/-- `flowValue`: a colon inside a flow collection. -/
def flowValue (m : Meter) : Meter :=
  let m := m.flowStart
  -- A one-pair mapping, and an empty key.
  let m := m.addNodeIf (m.flowIs fun f => f.seq && !f.explicitKey)
  let m := m.addNodeIf (m.flowIs fun f => !f.keyFilled)
  m.modifyFlow fun f => { f with keyFilled := true, sawValue := true, valueFilled := false }

/-- `endFlowItem`: counts the empty nodes of the flow entry that ends. -/
def endFlowItem (m : Meter) : Meter :=
  let pair := m.flowIs fun f => f.started && (!f.seq || f.explicitKey || f.sawValue)
  let m := m.addNodeIf (pair && m.flowIs fun f => !f.keyFilled)
  let m := m.addNodeIf (pair && m.flowIs fun f => !f.valueFilled)
  m.modifyFlow fun f => { seq := f.seq }

/-- Opens a flow collection. -/
def openFlow (seq : Bool) (m : Meter) : Meter :=
  { m with flowLevel := m.flowLevel + 1, keys := {} :: m.keys, flows := { seq := seq } :: m.flows, keyAllowed := true }

/-- Closes a flow collection, when one is open. -/
def closeFlow (m : Meter) : Meter :=
  if 0 < m.flowLevel then
    let m := m.endFlowItem
    { m with flowLevel := m.flowLevel - 1, keys := m.keys.tail, flows := m.flows.tail
             panicked := m.panicked || m.keys.isEmpty || m.flows.isEmpty }
  else m

end Meter

/-! ## The place in the text -/

/-- A place in a range of a body. -/
structure Cursor where
  /-- The body. -/
  src : ByteSource
  /-- The offset. -/
  pos : ℕ
  /-- The offset where the range ends. -/
  stop : ℕ

/-- `yamlScanner`. -/
structure YamlScanner extends Cursor, Meter

/-- `isYAMLBlank`. -/
def isYAMLBlank (b : UInt8) : Bool := b = 0x20 || b = 0x09

/-- The offset after the continuation bytes at an offset. -/
def continuationEnd (src : ByteSource) (stop pos : ℕ) : ℕ :=
  if pos < stop ∧ src.byte pos &&& 0xc0 = 0x80 then continuationEnd src stop (pos + 1) else pos
termination_by stop - pos

namespace YamlScanner

/-- `yamlScanner.at`: the byte `k` bytes on, 0 past the end of the range. -/
def «at» (s : YamlScanner) (k : ℕ) : UInt8 := if s.pos + k < s.stop then s.src.byte (s.pos + k) else 0

/-- `breakLen`: the length of the line break `k` bytes on, 0 if there is none. -/
def breakLen (s : YamlScanner) (k : ℕ) : ℕ :=
  if s.«at» k = 0x0d ∧ s.«at» (k + 1) = 0x0a then 2
  else if s.«at» k = 0x0d ∨ s.«at» k = 0x0a then 1
  else if s.«at» k = 0xc2 ∧ s.«at» (k + 1) = 0x85 then 2
  else if s.«at» k = 0xe2 ∧ s.«at» (k + 1) = 0x80 ∧ (s.«at» (k + 2) = 0xa8 ∨ s.«at» (k + 2) = 0xa9) then 3
  else 0

/-- `isZ`: the end of the range, or a NUL. -/
def isZ (s : YamlScanner) (k : ℕ) : Bool := s.stop ≤ s.pos + k || s.«at» k = 0

/-- `isBlankZ`. -/
def isBlankZ (s : YamlScanner) (k : ℕ) : Bool := isYAMLBlank (s.«at» k) || 0 < s.breakLen k || s.isZ k

/-- `skip`: past one character. -/
def skip (s : YamlScanner) : YamlScanner :=
  { s with pos := continuationEnd s.src s.stop (s.pos + 1), col := s.col + 1, idx := s.idx + 1 }

/-- `skipLine`: past the line break, if there is one. A CRLF is two characters. -/
def skipLine (s : YamlScanner) : YamlScanner :=
  let n := s.breakLen 0
  if 0 < n then
    { s with
      pos := s.pos + n
      idx := if s.«at» 0 = 0x0d ∧ n = 2 then s.idx + 2 else s.idx + 1
      col := 0
      line := s.line + 1 }
  else s

/-- Changes what is counted. -/
def count (f : Meter → Meter) (s : YamlScanner) : YamlScanner := { s with toMeter := f s.toMeter }

/-! ### Progress -/

/-- Continuation bytes are passed forwards. -/
theorem le_continuationEnd (src : ByteSource) (stop pos : ℕ) : pos ≤ continuationEnd src stop pos := by
  fun_induction continuationEnd src stop pos with
  | case1 pos h ih => omega
  | case2 pos h => exact le_rfl

variable (s : YamlScanner)

/-- A character takes at least a byte. -/
theorem pos_lt_skip : s.pos < s.skip.pos := le_continuationEnd s.src s.stop (s.pos + 1)

@[simp] theorem stop_skip (s : YamlScanner) : s.skip.stop = s.stop := rfl

/-- There is no byte but NUL past the end. -/
theorem pos_lt_of_at {s : YamlScanner} {k : ℕ} (h : s.«at» k ≠ 0) : s.pos + k < s.stop := by
  by_contra hge
  exact h (by rw [«at», if_neg hge])

/-- A line break is inside the range. -/
theorem pos_lt_of_breakLen {s : YamlScanner} (h : 0 < s.breakLen 0) : s.pos < s.stop := by
  refine pos_lt_of_at (k := 0) ?_
  intro hz
  rw [breakLen, hz] at h
  simp at h

/-- Skipping a line break does not go back. -/
theorem pos_le_skipLine : s.pos ≤ s.skipLine.pos := by
  unfold skipLine
  by_cases h : 0 < s.breakLen 0
  · rw [if_pos h]
    exact Nat.le_add_right _ _
  · rw [if_neg h]

/-- Skipping a line break that is there moves on. -/
theorem pos_lt_skipLine {s : YamlScanner} (h : 0 < s.breakLen 0) : s.pos < s.skipLine.pos := by
  unfold skipLine
  rw [if_pos h]
  exact Nat.lt_add_of_pos_right h

@[simp] theorem stop_skipLine (s : YamlScanner) : s.skipLine.stop = s.stop := by
  unfold skipLine
  dsimp only
  split_ifs <;> rfl

@[simp] theorem pos_count (f : Meter → Meter) (s : YamlScanner) : (s.count f).pos = s.pos := rfl

@[simp] theorem stop_count (f : Meter → Meter) (s : YamlScanner) : (s.count f).stop = s.stop := rfl

/-- What is not the end is inside the range. -/
theorem pos_lt_of_not_isZ {s : YamlScanner} (h : s.isZ 0 = false) : s.pos < s.stop := by
  simp only [isZ, Nat.add_zero, Bool.or_eq_false_iff, decide_eq_false_iff_not, not_le] at h
  exact h.1

/-- A loop of `skip`: while a condition holds, which is one that fails at the end of the range. -/
def skipWhile (cond : YamlScanner → Bool) (s : YamlScanner) : YamlScanner :=
  if _h : s.pos < s.stop ∧ cond s then skipWhile cond s.skip else s
termination_by s.stop - s.pos
decreasing_by
  have hpos := s.pos_lt_skip
  have hstop := s.stop_skip
  omega

/-- The loop does not go back, and keeps the range. -/
theorem skipWhile_pos (cond : YamlScanner → Bool) (s : YamlScanner) :
    s.pos ≤ (s.skipWhile cond).pos ∧ (s.skipWhile cond).stop = s.stop := by
  fun_induction skipWhile cond s with
  | case1 s h ih =>
    have hpos := s.pos_lt_skip
    exact ⟨by omega, ih.2⟩
  | case2 s h => exact ⟨le_rfl, rfl⟩

/-- The loop moves on when its condition holds. -/
theorem pos_lt_skipWhile {cond : YamlScanner → Bool} {s : YamlScanner} (hlt : s.pos < s.stop) (h : cond s = true) :
    s.pos < (s.skipWhile cond).pos := by
  rw [skipWhile, dif_pos ⟨hlt, h⟩]
  exact lt_of_lt_of_le s.pos_lt_skip (skipWhile_pos cond s.skip).1

/-! ### White space and comments -/

/-- Neither a line break nor the end. -/
def inLine (s : YamlScanner) : Bool := s.breakLen 0 = 0 && !s.isZ 0

/-- One round of `toNextToken`: a byte order mark, blanks, and a comment. -/
def blanks (s : YamlScanner) : YamlScanner :=
  let s := if s.col = 0 ∧ s.«at» 0 = 0xef ∧ s.«at» 1 = 0xbb ∧ s.«at» 2 = 0xbf then s.skip else s
  let s := s.skipWhile fun s => s.«at» 0 = 0x20 || (0 < s.flowLevel || !s.keyAllowed) && s.«at» 0 = 0x09
  if s.«at» 0 = '#'.toUInt8 then s.skipWhile inLine else s

/-- In the block context a simple key may start on a new line. -/
def newLine (m : Meter) : Meter := if m.flowLevel = 0 then m.allowKey true else m

/-- A round does not go back, and keeps the range. -/
theorem blanks_pos : s.pos ≤ s.blanks.pos ∧ s.blanks.stop = s.stop := by
  unfold blanks
  extract_lets s₁ s₂
  have h₁ : s.pos ≤ s₁.pos ∧ s₁.stop = s.stop := by
    unfold s₁
    split_ifs
    · exact ⟨le_of_lt s.pos_lt_skip, rfl⟩
    · exact ⟨Nat.le_refl _, rfl⟩
  have h₂ : s.pos ≤ s₂.pos ∧ s₂.stop = s.stop := by
    have h := skipWhile_pos (fun s => s.«at» 0 = 0x20 || (0 < s.flowLevel || !s.keyAllowed) && s.«at» 0 = 0x09) s₁
    exact ⟨le_trans h₁.1 h.1, h.2.trans h₁.2⟩
  split_ifs
  · have h := skipWhile_pos inLine s₂
    exact ⟨le_trans h₂.1 h.1, h.2.trans h₂.2⟩
  · exact h₂

/-- `toNextToken`. -/
def toNextToken (s : YamlScanner) : YamlScanner :=
  if _h : s.blanks.breakLen 0 = 0 then s.blanks else toNextToken (s.blanks.skipLine.count newLine)
termination_by s.stop - s.pos
decreasing_by
  have hpos := Nat.pos_of_ne_zero _h
  have hblanks := s.blanks_pos
  have hlt := pos_lt_of_breakLen hpos
  have hline := pos_lt_skipLine hpos
  simp only [pos_count, stop_count, stop_skipLine]
  omega

/-! ### Scalars -/

/-- A document marker at the start of a line. -/
def isMarker (s : YamlScanner) : Bool :=
  s.col = 0 &&
    ((s.«at» 0 = '-'.toUInt8 && s.«at» 1 = '-'.toUInt8 && s.«at» 2 = '-'.toUInt8) ||
      (s.«at» 0 = '.'.toUInt8 && s.«at» 1 = '.'.toUInt8 && s.«at» 2 = '.'.toUInt8)) && s.isBlankZ 3

/-- A character that goes on with a plain scalar's word. -/
def inPlain (s : YamlScanner) : Bool :=
  !s.isBlankZ 0 &&
    !(s.«at» 0 = ':'.toUInt8 && s.isBlankZ 1 ||
      0 < s.flowLevel && [','.toUInt8, '?'.toUInt8, '['.toUInt8, ']'.toUInt8, 0x7b, 0x7d].contains (s.«at» 0))

/-- A blank or a line break. -/
def isWhite (s : YamlScanner) : Bool := isYAMLBlank (s.«at» 0) || 0 < s.breakLen 0

/-- Past a blank or a line break. -/
def skipWhite (s : YamlScanner) : YamlScanner := if isYAMLBlank (s.«at» 0) then s.skip else s.skipLine

/-- White space is inside the range, and skipping it moves on. -/
theorem skipWhite_pos {s : YamlScanner} (h : s.isWhite = true) :
    s.pos < s.stop ∧ s.pos < s.skipWhite.pos ∧ s.skipWhite.stop = s.stop := by
  unfold skipWhite
  split_ifs with hblank
  · refine ⟨pos_lt_of_at (k := 0) ?_, s.pos_lt_skip, rfl⟩
    intro hz
    rw [hz] at hblank
    exact absurd hblank (by decide)
  · have hbreak : 0 < s.breakLen 0 := by simpa [isWhite, hblank] using h
    exact ⟨pos_lt_of_breakLen hbreak, pos_lt_skipLine hbreak, s.stop_skipLine⟩

/-- The white space between the words of a plain scalar, and whether it held a line break. -/
def plainBlanks (s : YamlScanner) (leading : Bool) : YamlScanner × Bool :=
  if _h : s.isWhite then plainBlanks s.skipWhite (leading || !isYAMLBlank (s.«at» 0)) else (s, leading)
termination_by s.stop - s.pos
decreasing_by
  have hwhite := skipWhite_pos _h
  omega

/-- White space does not go back, and keeps the range; white space that is there moves on. -/
theorem plainBlanks_pos (leading : Bool) :
    s.pos ≤ (s.plainBlanks leading).1.pos ∧ (s.plainBlanks leading).1.stop = s.stop ∧
      (s.isWhite = true → s.pos < (s.plainBlanks leading).1.pos) := by
  fun_induction plainBlanks s leading with
  | case1 s leading h ih =>
    have hwhite := skipWhite_pos h
    exact ⟨by omega, ih.2.1.trans hwhite.2.2, fun _ => by omega⟩
  | case2 s leading h => exact ⟨Nat.le_refl _, rfl, fun hw => absurd hw h⟩

/-- A word of a plain scalar. -/
def plainWord (s : YamlScanner) : YamlScanner := s.skipWhile inPlain

/-- The loop of `plain`, and whether a line break was passed. -/
def plainLoop (indent : ℤ) (s : YamlScanner) (leading : Bool) : YamlScanner × Bool :=
  if s.isMarker ∨ s.«at» 0 = '#'.toUInt8 then (s, leading)
  else
    if _h : s.plainWord.isWhite then
      if (s.plainWord.plainBlanks leading).1.flowLevel = 0 ∧ ((s.plainWord.plainBlanks leading).1.col : ℤ) < indent then
        s.plainWord.plainBlanks leading
      else plainLoop indent (s.plainWord.plainBlanks leading).1 (s.plainWord.plainBlanks leading).2
    else (s.plainWord, leading)
termination_by s.stop - s.pos
decreasing_by
  have hword : s.pos ≤ s.plainWord.pos ∧ s.plainWord.stop = s.stop := skipWhile_pos inPlain s
  have hwhite := skipWhite_pos _h
  have hblanks := s.plainWord.plainBlanks_pos leading
  have hmove := hblanks.2.2 _h
  omega

/-- `plain`. -/
def plain (s : YamlScanner) : YamlScanner :=
  let p := s.plainLoop (s.indent + 1) false
  if p.2 then p.1.count (Meter.allowKey true) else p.1

/-- Past the character after a backslash, a line break included. -/
def skipEscaped (s : YamlScanner) : YamlScanner :=
  if 0 < s.breakLen 0 then s.skipLine else if !s.isZ 0 then s.skip else s

/-- `skipEscaped` does not go back, and keeps the range. -/
theorem skipEscaped_pos : s.pos ≤ s.skipEscaped.pos ∧ s.skipEscaped.stop = s.stop := by
  unfold skipEscaped
  split_ifs
  · exact ⟨s.pos_le_skipLine, s.stop_skipLine⟩
  · exact ⟨le_of_lt s.pos_lt_skip, rfl⟩
  · exact ⟨Nat.le_refl _, rfl⟩

/-- The loop of `quoted`, for the quote `q`. -/
def quotedLoop (q : UInt8) (s : YamlScanner) : YamlScanner :=
  if _h : s.isZ 0 then s
  else if q = 0x27 ∧ s.«at» 0 = 0x27 ∧ s.«at» 1 = 0x27 then quotedLoop q s.skip.skip
  else if s.«at» 0 = q then s.skip
  else if q = 0x22 ∧ s.«at» 0 = 0x5c then quotedLoop q s.skip.skipEscaped
  else if _hb : 0 < s.breakLen 0 then quotedLoop q s.skipLine
  else quotedLoop q s.skip
termination_by s.stop - s.pos
decreasing_by
  all_goals
    have hlt := pos_lt_of_not_isZ (Bool.eq_false_iff.mpr _h)
    have hskip := s.pos_lt_skip
  · have hskip' := s.skip.pos_lt_skip
    simp only [stop_skip]
    omega
  · have hesc := s.skip.skipEscaped_pos
    simp only [stop_skip] at hesc
    omega
  · have hline := pos_lt_skipLine _hb
    simp only [stop_skipLine]
    omega
  · simp only [stop_skip]
    omega

/-- `quoted`. -/
def quoted (q : UInt8) (s : YamlScanner) : YamlScanner := s.skip.quotedLoop q

/-- The spaces of a block scalar's line, up to an indentation. -/
def indentSpaces (indent : ℤ) (s : YamlScanner) : YamlScanner :=
  s.skipWhile fun s => (indent = 0 || (s.col : ℤ) < indent) && s.«at» 0 = 0x20

/-- Spaces do not go back, and keep the range. -/
theorem indentSpaces_pos (indent : ℤ) (s : YamlScanner) :
    s.pos ≤ (s.indentSpaces indent).pos ∧ (s.indentSpaces indent).stop = s.stop := skipWhile_pos _ s

/-- The loop of `blockBreaks`: the greatest column reached, and the scanner. -/
def breaksLoop (indent maxIndent : ℤ) (s : YamlScanner) : ℤ × YamlScanner :=
  if _h : (s.indentSpaces indent).breakLen 0 = 0 then (max maxIndent (s.indentSpaces indent).col, s.indentSpaces indent)
  else breaksLoop indent (max maxIndent (s.indentSpaces indent).col) (s.indentSpaces indent).skipLine
termination_by s.stop - s.pos
decreasing_by
  have hpos := Nat.pos_of_ne_zero _h
  have hspaces := s.indentSpaces_pos indent
  have hlt := pos_lt_of_breakLen hpos
  have hline := pos_lt_skipLine hpos
  simp only [stop_skipLine]
  omega

/-- Line breaks do not go back, and keep the range. -/
theorem breaksLoop_pos (indent maxIndent : ℤ) (s : YamlScanner) :
    s.pos ≤ (s.breaksLoop indent maxIndent).2.pos ∧ (s.breaksLoop indent maxIndent).2.stop = s.stop := by
  fun_induction breaksLoop indent maxIndent s with
  | case1 maxIndent s h => exact s.indentSpaces_pos indent
  | case2 maxIndent s h ih =>
    have hspaces := s.indentSpaces_pos indent
    have hline := (s.indentSpaces indent).pos_le_skipLine
    have hstop := (s.indentSpaces indent).stop_skipLine
    exact ⟨by omega, by omega⟩

/-- `blockBreaks`: an indentation not known yet is the content's, and deeper than the collection's. -/
def blockBreaks (indent : ℤ) (s : YamlScanner) : ℤ × YamlScanner :=
  let p := s.breaksLoop indent 0
  (if indent = 0 then max (max p.1 (p.2.indent + 1)) 1 else indent, p.2)

/-- A line of a block scalar, with its break. -/
def blockLine (s : YamlScanner) : YamlScanner := (s.skipWhile inLine).skipLine

/-- A line does not go back, and keeps the range; one that is there moves on. -/
theorem blockLine_pos :
    s.pos ≤ s.blockLine.pos ∧ s.blockLine.stop = s.stop ∧ (s.isZ 0 = false → s.pos < s.blockLine.pos) := by
  have hline := skipWhile_pos inLine s
  have hskip := (s.skipWhile inLine).pos_le_skipLine
  have hstop : s.blockLine.stop = (s.skipWhile inLine).stop := stop_skipLine _
  refine ⟨le_trans hline.1 hskip, hstop.trans hline.2, ?_⟩
  intro hz
  have hlt := pos_lt_of_not_isZ hz
  by_cases hbreak : s.breakLen 0 = 0
  · exact lt_of_lt_of_le (pos_lt_skipWhile hlt (by simp [inLine, hbreak, hz])) hskip
  · -- The line is empty, and its break is skipped.
    have hnone : s.skipWhile inLine = s := by
      rw [skipWhile, dif_neg]
      simp [inLine, hbreak]
    have := pos_lt_skipLine (Nat.pos_of_ne_zero hbreak)
    rwa [blockLine, hnone]

/-- The lines of a block scalar at an indentation. -/
def linesLoop (indent : ℤ) (s : YamlScanner) : YamlScanner :=
  if _h : (s.col : ℤ) = indent ∧ s.isZ 0 = false then
    linesLoop (s.blockLine.blockBreaks indent).1 (s.blockLine.blockBreaks indent).2
  else s
termination_by s.stop - s.pos
decreasing_by
  have hlt := pos_lt_of_not_isZ _h.2
  have hline := s.blockLine_pos
  have hmove := hline.2.2 _h.2
  have hbreaks := s.blockLine.breaksLoop_pos indent 0
  simp only [blockBreaks]
  omega

/-- One of the two indicators of a block scalar's header: a chomping sign, or an indentation that is not
given yet. -/
def headerIndicator (p : ℤ × YamlScanner) : ℤ × YamlScanner :=
  if p.2.«at» 0 = '+'.toUInt8 ∨ p.2.«at» 0 = '-'.toUInt8 then (p.1, p.2.skip)
  else if '1'.toUInt8 ≤ p.2.«at» 0 ∧ p.2.«at» 0 ≤ '9'.toUInt8 ∧ p.1 = 0 then
    (((p.2.«at» 0).toNat : ℤ) - '0'.toNat, p.2.skip)
  else p

/-- `blockScalar`. -/
def blockScalar (s : YamlScanner) : YamlScanner :=
  let p := headerIndicator (headerIndicator (0, s.skip))
  let s := p.2.blockLine
  let q := s.blockBreaks (if 0 < p.1 then max s.indent 0 + p.1 else 0)
  q.2.linesLoop q.1

/-! ### Tokens -/

/-- `roll`: pushes a block collection whose entries start at a column, and reports whether it did. -/
def roll (col : ℕ) (fill : Bool) (s : YamlScanner) : Bool × YamlScanner :=
  if 0 < s.flowLevel ∨ (col : ℤ) ≤ s.indent then (false, s)
  else if s.indents.length = maxYAMLDepth then
    -- yaml.v3 and go-yaml v2 stop here.
    (false, { s with pos := s.stop })
  else
    (true, s.count (Meter.pushIndent col fill))

/-- `value`: a colon. -/
def value (s : YamlScanner) : YamlScanner :=
  match s.keys with
  | [] => s.count fun m => { m with panicked := true }
  | k :: ks =>
    if k.possible ∧ k.line = s.line ∧ s.idx ≤ k.idx + 1024 then
      if s.flowLevel = 0 then
        -- A key of properties only is an empty node.
        let s := s.count fun m => (m.takeKey k ks).addNodeIf (m.cost.nodes = k.nodes)
        let p := s.roll k.col false
        -- The slot before the key was left empty by the same mapping's last one.
        p.2.count fun m => (m.addNodeIf (!p.1 && k.slotBefore)).openSlot
      else s.count fun m => (m.takeKey k ks).flowValue
    else
      let s :=
        if s.flowLevel = 0 then (s.roll s.col true).2.count fun m => m.closeSlot.openSlot
        else s.count Meter.flowValue
      s.count fun m => m.allowKey (m.flowLevel = 0)

/-- `isIndicatorByte`. -/
def isIndicatorByte (c : UInt8) : Bool :=
  ['-'.toUInt8, '?'.toUInt8, ':'.toUInt8, ','.toUInt8, '['.toUInt8, ']'.toUInt8, 0x7b, 0x7d, '#'.toUInt8, '&'.toUInt8,
    '*'.toUInt8, '!'.toUInt8, '|'.toUInt8, '>'.toUInt8, 0x27, 0x22, '%'.toUInt8, '@'.toUInt8, 0x60].contains c

/-- A character of an anchor's name. -/
def inName (s : YamlScanner) : Bool :=
  let b := s.«at» 0
  ('0'.toUInt8 ≤ b && b ≤ '9'.toUInt8) || ('A'.toUInt8 ≤ b && b ≤ 'Z'.toUInt8) || ('a'.toUInt8 ≤ b && b ≤ 'z'.toUInt8) ||
    b = '_'.toUInt8 || b = '-'.toUInt8

/-- The branches of `token`. -/
inductive TokenKind where
  /-- A directive. -/
  | directive
  /-- A document marker. -/
  | marker
  /-- The start of a flow collection. -/
  | flowStart (seq : Bool)
  /-- The end of a flow collection. -/
  | flowEnd
  /-- A comma. -/
  | comma
  /-- The dash of a block sequence's entry. -/
  | dash
  /-- The question mark of a key. -/
  | question
  /-- The colon of a value. -/
  | colon
  /-- An alias. -/
  | aliasName
  /-- An anchor. -/
  | anchor
  /-- A tag. -/
  | tag
  /-- A block scalar. -/
  | block
  /-- A scalar in quotes. -/
  | quoted (q : UInt8)
  /-- A plain scalar. -/
  | plain
  /-- A character that cannot start a token. -/
  | other

/-- The branch `token` takes. -/
def kind (s : YamlScanner) : TokenKind :=
  let c := s.«at» 0
  if s.col = 0 ∧ c = '%'.toUInt8 then .directive
  else if s.isMarker then .marker
  else if c = '['.toUInt8 ∨ c = 0x7b then .flowStart (c = '['.toUInt8)
  else if c = ']'.toUInt8 ∨ c = 0x7d then .flowEnd
  else if c = ','.toUInt8 then .comma
  else if c = '-'.toUInt8 ∧ s.isBlankZ 1 then .dash
  else if c = '?'.toUInt8 ∧ (0 < s.flowLevel ∨ s.isBlankZ 1) then .question
  else if c = ':'.toUInt8 ∧ (0 < s.flowLevel ∨ s.isBlankZ 1) then .colon
  else if c = '*'.toUInt8 then .aliasName
  else if c = '&'.toUInt8 then .anchor
  else if c = '!'.toUInt8 then .tag
  else if (c = '|'.toUInt8 ∨ c = '>'.toUInt8) ∧ s.flowLevel = 0 then .block
  else if c = 0x27 ∨ c = 0x22 then .quoted c
  else if !(s.isBlankZ 0 || isIndicatorByte c) ∨ c = '-'.toUInt8 ∧ !isYAMLBlank (s.«at» 1) ∨
      s.flowLevel = 0 ∧ (c = '?'.toUInt8 ∨ c = ':'.toUInt8) ∧ !s.isBlankZ 1 then .plain
  else .other

/-- `token`: scans one token. -/
def token (s : YamlScanner) : YamlScanner :=
  match s.kind with
  | .directive => (s.count fun m => (m.unroll (-1)).removeKey.allowKey false).skipWhile inLine
  | .marker =>
    -- What follows is another document.
    (s.count fun m => (m.unroll (-1)).closeSlot.openSlot.removeKey.allowKey false).skip.skip.skip
  | .flowStart seq =>
    let s := s.count fun m => m.saveKey.node
    if s.flowLevel = maxYAMLDepth then { s with pos := s.stop } else (s.count (Meter.openFlow seq)).skip
  | .flowEnd => (s.count fun m => m.removeKey.closeFlow.allowKey false).skip
  | .comma =>
    (s.count fun m => if 0 < m.flowLevel then (m.removeKey.allowKey true).endFlowItem else m.removeKey.allowKey true).skip
  | .dash =>
    let s :=
      if s.flowLevel = 0 then
        -- The entry before was empty, or this starts a sequence without indentation.
        (s.roll s.col true).2.count fun m => (m.addNodeIf m.expect).addEntry.openSlot
      else s
    (s.count fun m => m.removeKey.allowKey true).skip
  | .question =>
    let s :=
      if s.flowLevel = 0 then (s.roll s.col true).2.count fun m => m.closeSlot.addNode.openSlot
      else
        s.count fun m =>
          let m := m.flowStart.modifyFlow fun f => { f with explicitKey := true }
          m.addNodeIf (m.flowIs (·.seq))
    (s.count fun m => m.removeKey.allowKey (m.flowLevel = 0)).skip
  | .colon => s.value.skip
  | .aliasName => ((s.count fun m => m.saveKey.allowKey false).skip.skipWhile inName).count fun m => m.node.addAlias
  | .anchor => ((s.count fun m => m.saveKey.allowKey false).skip.skipWhile inName).count Meter.property
  | .tag => ((s.count fun m => m.saveKey.allowKey false).skipWhile fun s => !s.isBlankZ 0).count Meter.property
  | .block => (s.count fun m => m.removeKey.allowKey true).blockScalar.count Meter.node
  | .quoted q => ((s.count fun m => m.saveKey.allowKey false).quoted q).count Meter.node
  | .plain => (s.count fun m => m.saveKey.allowKey false).plain.count Meter.node
  | .other => s.skip

/-! ### Every token moves on -/

/-- From one scanner to another nothing is read again, and the range stays. -/
def Onward (s t : YamlScanner) : Prop := s.pos ≤ t.pos ∧ t.stop = s.stop

/-- From one scanner to another at least a byte is read, and the range stays. -/
def Advances (s t : YamlScanner) : Prop := s.pos < t.pos ∧ t.stop = s.stop

section Onward

variable {s t u : YamlScanner}

theorem Onward.refl (s : YamlScanner) : Onward s s := ⟨Nat.le_refl _, rfl⟩

theorem Onward.trans (h : Onward s t) (h' : Onward t u) : Onward s u := ⟨le_trans h.1 h'.1, h'.2.trans h.2⟩

theorem Advances.onward (h : Advances s t) : Onward s t := ⟨le_of_lt h.1, h.2⟩

theorem Advances.trans (h : Advances s t) (h' : Onward t u) : Advances s u := ⟨lt_of_lt_of_le h.1 h'.1, h'.2.trans h.2⟩

theorem Onward.advances (h : Onward s t) (h' : Advances t u) : Advances s u := ⟨lt_of_le_of_lt h.1 h'.1, h'.2.trans h.2⟩

theorem advances_skip (s : YamlScanner) : Advances s s.skip := ⟨s.pos_lt_skip, rfl⟩

theorem onward_count (f : Meter → Meter) (s : YamlScanner) : Onward s (s.count f) := ⟨Nat.le_refl _, rfl⟩

theorem onward_skipWhile (cond : YamlScanner → Bool) (s : YamlScanner) : Onward s (s.skipWhile cond) := skipWhile_pos cond s

theorem advances_skipWhile {cond : YamlScanner → Bool} (hlt : s.pos < s.stop) (h : cond s = true) :
    Advances s (s.skipWhile cond) := ⟨pos_lt_skipWhile hlt h, (skipWhile_pos cond s).2⟩

theorem onward_toNextToken (s : YamlScanner) : Onward s s.toNextToken := by
  fun_induction toNextToken s with
  | case1 s h => exact s.blanks_pos
  | case2 s h ih =>
    have hline : Onward s.blanks s.blanks.skipLine := ⟨pos_le_skipLine _, stop_skipLine _⟩
    exact (Onward.trans s.blanks_pos hline).trans ((onward_count newLine _).trans ih)

theorem onward_plainLoop (indent : ℤ) (s : YamlScanner) (leading : Bool) : Onward s (s.plainLoop indent leading).1 := by
  fun_induction plainLoop indent s leading with
  | case1 s leading h => exact .refl s
  | case2 s leading h hw hcol =>
    have hblanks := s.plainWord.plainBlanks_pos leading
    exact (onward_skipWhile inPlain s).trans ⟨hblanks.1, hblanks.2.1⟩
  | case3 s leading h hw hcol ih =>
    have hblanks := s.plainWord.plainBlanks_pos leading
    exact ((onward_skipWhile inPlain s).trans ⟨hblanks.1, hblanks.2.1⟩).trans ih
  | case4 s leading h hw => exact onward_skipWhile inPlain s

/-- A plain scalar takes at least the character it starts with. -/
theorem advances_plain (hmark : s.isMarker = false) (hc : s.«at» 0 ≠ '#'.toUInt8) (hin : s.inPlain = true) :
    Advances s s.plain := by
  have hlt : s.pos < s.stop := by
    simp only [inPlain, isBlankZ, Bool.and_eq_true, Bool.not_eq_true', Bool.or_eq_false_iff] at hin
    exact pos_lt_of_not_isZ hin.1.2
  have hword : Advances s s.plainWord := ⟨pos_lt_skipWhile hlt hin, (skipWhile_pos inPlain s).2⟩
  have hloop : ∀ indent, Advances s (s.plainLoop indent false).1 := by
    intro indent
    have hblanks := s.plainWord.plainBlanks_pos false
    rw [plainLoop, if_neg (by simp [hmark, hc])]
    split_ifs
    · exact hword.trans ⟨hblanks.1, hblanks.2.1⟩
    · exact (hword.trans ⟨hblanks.1, hblanks.2.1⟩).trans (onward_plainLoop indent _ _)
    · exact hword
  unfold plain
  dsimp only
  split_ifs
  · exact (hloop _).trans (onward_count _ _)
  · exact hloop _

theorem onward_quotedLoop (q : UInt8) (s : YamlScanner) : Onward s (s.quotedLoop q) := by
  fun_induction quotedLoop q s with
  | case1 s h => exact .refl s
  | case2 s h hq ih => exact ((advances_skip s).trans (advances_skip s.skip).onward).onward.trans ih
  | case3 s h hq hc => exact (advances_skip s).onward
  | case4 s h hq hc hesc ih => exact ((advances_skip s).trans s.skip.skipEscaped_pos).onward.trans ih
  | case5 s h hq hc hesc hb ih => exact Onward.trans ⟨pos_le_skipLine s, stop_skipLine s⟩ ih
  | case6 s h hq hc hesc hb ih => exact (advances_skip s).onward.trans ih

theorem advances_quoted (q : UInt8) (s : YamlScanner) : Advances s (s.quoted q) :=
  (advances_skip s).trans (onward_quotedLoop q s.skip)

theorem onward_linesLoop (indent : ℤ) (s : YamlScanner) : Onward s (s.linesLoop indent) := by
  fun_induction linesLoop indent s with
  | case1 indent s h ih =>
    have hline := s.blockLine_pos
    exact (Onward.trans ⟨hline.1, hline.2.1⟩ (s.blockLine.breaksLoop_pos indent 0)).trans ih
  | case2 indent s h => exact .refl s

theorem onward_headerIndicator (p : ℤ × YamlScanner) : Onward p.2 (headerIndicator p).2 := by
  unfold headerIndicator
  split_ifs
  · exact (advances_skip p.2).onward
  · exact (advances_skip p.2).onward
  · exact .refl p.2

theorem advances_blockScalar (s : YamlScanner) : Advances s s.blockScalar := by
  have hheader := (onward_headerIndicator (0, s.skip)).trans (onward_headerIndicator _)
  have hline := (headerIndicator (headerIndicator (0, s.skip))).2.blockLine_pos
  refine (((advances_skip s).trans hheader).trans ⟨hline.1, hline.2.1⟩).trans ?_
  exact Onward.trans (breaksLoop_pos _ 0 _) (onward_linesLoop _ _)

theorem onward_roll (col : ℕ) (fill : Bool) (h : s.pos ≤ s.stop) : Onward s (s.roll col fill).2 := by
  unfold roll
  split_ifs
  · exact .refl s
  · exact ⟨h, rfl⟩
  · exact onward_count _ s

theorem onward_value (h : s.pos ≤ s.stop) : Onward s s.value := by
  unfold value
  split
  · exact onward_count _ s
  · rename_i k ks _
    split_ifs
    · refine (onward_count (fun m => (m.takeKey k ks).addNodeIf (m.cost.nodes = k.nodes)) s).trans ?_
      exact Onward.trans (onward_roll k.col false h) (onward_count _ _)
    · exact onward_count _ s
    · exact ((onward_roll s.col true h).trans (onward_count _ _)).trans (onward_count _ _)
    · exact (onward_count Meter.flowValue s).trans (onward_count _ _)

theorem isMarker_count {f : Meter → Meter} (h : (f s.toMeter).col = s.col) : (s.count f).isMarker = s.isMarker := by
  unfold isMarker
  rw [show (s.count f).col = s.col from h]
  rfl

theorem inPlain_count {f : Meter → Meter} (h : (f s.toMeter).flowLevel = s.flowLevel) :
    (s.count f).inPlain = s.inPlain := by
  unfold inPlain
  rw [show (s.count f).flowLevel = s.flowLevel from h]
  rfl

/-- A byte that starts no line break is none. -/
theorem breakLen_eq_zero {k : ℕ} (h : s.«at» k ∉ [0x0d, 0x0a, 0xc2, 0xe2]) : s.breakLen k = 0 := by
  simp only [List.mem_cons, List.not_mem_nil, or_false, not_or] at h
  simp [breakLen, h]

/-- A byte that is neither a blank nor the end is no white space. -/
theorem isBlankZ_eq_false {k : ℕ} (hz : s.isZ k = false) (h : s.«at» k ∉ [0x20, 0x09, 0x0d, 0x0a, 0xc2, 0xe2]) :
    s.isBlankZ k = false := by
  have hbreak : s.breakLen k = 0 := breakLen_eq_zero fun hm => h (by simp at hm ⊢; tauto)
  simp only [List.mem_cons, List.not_mem_nil, or_false, not_or] at h
  simp [isBlankZ, isYAMLBlank, hbreak, hz, h]

/-- What the branches that read on from their first character know of it. -/
def FirstOf (s : YamlScanner) : TokenKind → Prop
  | .directive => s.«at» 0 = '%'.toUInt8
  | .tag => s.«at» 0 = '!'.toUInt8
  | .plain => s.isMarker = false ∧ s.«at» 0 ≠ '#'.toUInt8 ∧ (s.isZ 0 = false → s.inPlain = true)
  | _ => True

theorem firstOf_kind (s : YamlScanner) : s.FirstOf s.kind := by
  unfold kind
  extract_lets c
  -- The branches in the order they are tried; only three of them leave something to show.
  refine iteInduction (fun h => h.2) fun _ => ?_
  refine iteInduction (fun _ => trivial) fun hmarker => ?_
  refine iteInduction (fun _ => trivial) fun hopen => ?_
  refine iteInduction (fun _ => trivial) fun hclose => ?_
  refine iteInduction (fun _ => trivial) fun hcomma => ?_
  refine iteInduction (fun _ => trivial) fun hdash => ?_
  refine iteInduction (fun _ => trivial) fun hquestion => ?_
  refine iteInduction (fun _ => trivial) fun hcolon => ?_
  refine iteInduction (fun _ => trivial) fun _ => ?_
  refine iteInduction (fun _ => trivial) fun _ => ?_
  refine iteInduction (fun h => h) fun _ => ?_
  refine iteInduction (fun _ => trivial) fun _ => ?_
  refine iteInduction (fun _ => trivial) fun _ => ?_
  refine iteInduction (fun hplain => ?_) fun _ => trivial
  refine ⟨Bool.eq_false_iff.mpr hmarker, ?_, ?_⟩
  · intro hc
    rw [show c = '#'.toUInt8 from hc] at hplain
    rcases hplain with h | ⟨h, -⟩ | ⟨-, h, -⟩
    · rw [show isIndicatorByte '#'.toUInt8 = true from rfl, Bool.or_true] at h
      exact absurd h (by decide)
    · exact absurd h (by decide)
    · exact absurd h (by decide)
  · intro hz
    rcases hplain with h | ⟨h, -⟩ | ⟨hflow, h, hblank⟩
    · simp only [Bool.not_eq_true', Bool.or_eq_false_iff] at h
      have hnone : ∀ l : Bytes, l.all isIndicatorByte = true → l.contains (s.«at» 0) = false := by
        intro l hall
        rw [Bool.eq_false_iff]
        intro hmem
        exact Bool.eq_false_iff.mp h.2 (List.all_eq_true.mp hall _ (List.contains_iff_mem.mp hmem))
      have hcolon' : decide (s.«at» 0 = ':'.toUInt8) = false := by simpa using hnone [':'.toUInt8] rfl
      rw [inPlain, h.1, hnone _ rfl, hcolon']
      simp only [Bool.false_and, Bool.or_false, Bool.and_false, Bool.not_false, Bool.and_true]
    · have hc : s.«at» 0 = '-'.toUInt8 := h
      have hblank : s.isBlankZ 0 = false := isBlankZ_eq_false hz (by rw [hc]; decide)
      rw [inPlain, hblank, hc, show decide ('-'.toUInt8 = ':'.toUInt8) = false from rfl,
        show [','.toUInt8, '?'.toUInt8, '['.toUInt8, ']'.toUInt8, 0x7b, 0x7d].contains '-'.toUInt8 = false from rfl]
      simp only [Bool.false_and, Bool.or_false, Bool.and_false, Bool.not_false, Bool.and_true]
    · have hblank0 : s.isBlankZ 0 = false := by
        rcases h with h | h
        · exact isBlankZ_eq_false hz (by rw [show s.«at» 0 = '?'.toUInt8 from h]; decide)
        · exact isBlankZ_eq_false hz (by rw [show s.«at» 0 = ':'.toUInt8 from h]; decide)
      simp only [Bool.not_eq_true'] at hblank
      simp [inPlain, hblank0, hblank, hflow]

/-- Each token takes at least a byte of the range. -/
theorem advances_token (h : s.isZ 0 = false) : Advances s s.token := by
  have hlt := pos_lt_of_not_isZ h
  have hfirst := s.firstOf_kind
  have hskip : ∀ {t}, Onward s t → Advances s t.skip := fun ht => ht.advances (advances_skip _)
  have hcount : ∀ {t} (f : Meter → Meter), Advances s t → Advances s (t.count f) := fun f ht => ht.trans (onward_count f _)
  unfold token
  cases hk : s.kind with
  | directive =>
    have hc : s.«at» 0 = '%'.toUInt8 := by rwa [hk] at hfirst
    have hbreak : s.breakLen 0 = 0 := breakLen_eq_zero (by rw [hc]; decide)
    have hin : s.inLine = true := by simp [inLine, hbreak, h]
    exact (onward_count _ s).advances (advances_skipWhile hlt hin)
  | marker => exact (hskip (onward_count _ s)).trans ((advances_skip _).trans (advances_skip _).onward).onward
  | flowStart seq =>
    dsimp only
    split_ifs
    · exact ⟨hlt, rfl⟩
    · exact hskip (Onward.trans (onward_count _ s) (onward_count (Meter.openFlow seq) _))
  | flowEnd => exact hskip (onward_count _ s)
  | comma => exact hskip (onward_count _ s)
  | dash =>
    dsimp only
    split_ifs
    · exact hskip (((onward_roll _ _ (le_of_lt hlt)).trans (onward_count _ _)).trans (onward_count _ _))
    · exact hskip (onward_count _ _)
  | question =>
    dsimp only
    split_ifs
    · exact hskip (((onward_roll _ _ (le_of_lt hlt)).trans (onward_count _ _)).trans (onward_count _ _))
    · exact hskip ((onward_count _ _).trans (onward_count _ _))
  | colon => exact hskip (onward_value (le_of_lt hlt))
  | aliasName => exact hcount _ ((hskip (onward_count _ s)).trans (onward_skipWhile _ _))
  | anchor => exact hcount _ ((hskip (onward_count _ s)).trans (onward_skipWhile _ _))
  | tag =>
    have hc : s.«at» 0 = '!'.toUInt8 := by rwa [hk] at hfirst
    have hblank : (!s.isBlankZ 0) = true := by rw [isBlankZ_eq_false h (by rw [hc]; decide), Bool.not_false]
    exact hcount _ ((onward_count _ s).advances (advances_skipWhile hlt hblank))
  | block => exact hcount _ ((onward_count _ s).advances (advances_blockScalar _))
  | quoted q => exact hcount _ ((onward_count _ s).advances (advances_quoted q _))
  -- A plain scalar takes its first character because of what sent the scanner here.
  | plain =>
    rw [hk] at hfirst
    obtain ⟨hmarker, hc, hin⟩ := hfirst
    refine hcount _ ((onward_count _ s).advances (advances_plain ?_ hc ?_))
    · rw [isMarker_count (by simp), hmarker]
    · rw [inPlain_count (by simp), hin h]
  | other => exact advances_skip s

end Onward

/-! ### The run -/

/-- The head of the loop of `run`: to the next token, out of the block collections it is not in. -/
def next (s : YamlScanner) : YamlScanner := s.toNextToken.count fun m => m.unroll m.col

/-- The end of `run`. -/
def finish (s : YamlScanner) : YamlScanner := s.count fun m => (m.unroll (-1)).closeSlot

theorem onward_next (s : YamlScanner) : Onward s s.next := s.onward_toNextToken.trans (onward_count _ _)

/-- `run`. -/
def run (s : YamlScanner) : YamlScanner := if _h : s.next.isZ 0 = true then s.next.finish else run s.next.token
termination_by s.stop - s.pos
decreasing_by
  have hz := Bool.eq_false_iff.mpr _h
  have hlt := pos_lt_of_not_isZ hz
  have hnext := s.onward_next
  have htoken := hnext.advances (advances_token hz)
  have hstop := hnext.2
  have hmove := htoken.1
  have hkept := htoken.2
  have hback := hnext.1
  omega

end YamlScanner

/-- The scanner `measureYAMLRange` starts with. -/
def newYamlScanner (src : ByteSource) (start stop : ℕ) : YamlScanner :=
  { src := src, pos := start, stop := stop, keys := [{}] }

/-- `measureYAMLRange`: the cost of the document in a range of a body. -/
def measureYAMLRange (src : ByteSource) (start stop : ℕ) : YamlCost := (newYamlScanner src start stop).run.cost

/-- `measureYAML`. -/
def measureYAML (doc : Bytes) : YamlCost := measureYAMLRange (newByteSource [doc]) 0 doc.length

end UpgradeScope
