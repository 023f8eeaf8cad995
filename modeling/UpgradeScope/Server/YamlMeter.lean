import UpgradeScope.Server.YamlScanner

/-!
# The YAML meter's stacks

Between any two calls of `yamlScanner` its stacks fit together (`Stacks.Sound`). A call leaves them alone
when it only moves, keeps their shape when it changes a top, or pushes and pops in step. So no call ever
reads or pops an empty stack, whatever the bytes are.
-/

namespace UpgradeScope

open Utf8

/-! ## The stacks fit together -/

/-- The stacks fit together, and nothing was popped from an empty one. -/
structure Stacks.Sound (s : Stacks) : Prop where
  /-- One simple key per open flow collection, and one of the block context. -/
  keys : s.keys.length = s.flowLevel + 1
  /-- One entry per open flow collection. -/
  flows : s.flows.length = s.flowLevel
  /-- Each indentation is deeper than the one below it; the top stands first. -/
  increasing : (s.indent :: s.indents).Pairwise (· > ·)
  /-- At the bottom is the indentation of no collection. -/
  bottom : (s.indent :: s.indents).getLast? = some (-1)
  /-- They nest as deep as the decoders go. -/
  depth : s.indents.length ≤ maxYAMLDepth
  /-- Every read and pop found something. -/
  popped : s.panicked = false

/-- Two values of the stacks have the same shape. -/
structure Stacks.SameShape (s t : Stacks) : Prop where
  flowLevel : t.flowLevel = s.flowLevel
  indent : t.indent = s.indent
  indents : t.indents = s.indents
  keys : t.keys.length = s.keys.length
  flows : t.flows.length = s.flows.length
  panicked : t.panicked = s.panicked

section Sound

variable {s t : Stacks} {m : Meter}

theorem Stacks.Sound.of_sameShape (h : s.Sound) (hst : s.SameShape t) : t.Sound where
  keys := by rw [hst.keys, hst.flowLevel, h.keys]
  flows := by rw [hst.flows, hst.flowLevel, h.flows]
  increasing := by rw [hst.indent, hst.indents]; exact h.increasing
  bottom := by rw [hst.indent, hst.indents]; exact h.bottom
  depth := by rw [hst.indents]; exact h.depth
  popped := by rw [hst.panicked]; exact h.popped

/-- No block collection is open exactly when the indentation is that of none. -/
theorem Stacks.Sound.indents_eq_nil_iff (h : s.Sound) : s.indents = [] ↔ s.indent = -1 := by
  constructor
  · intro hnil
    have hbottom := h.bottom
    rw [hnil] at hbottom
    simpa using hbottom
  · intro hindent
    by_contra hne
    have hlast : (-1 : ℤ) ∈ s.indents := by
      have hbottom := h.bottom
      rw [List.getLast?_cons_of_ne_nil hne] at hbottom
      exact List.mem_of_getLast? hbottom
    have hgt := (List.pairwise_cons.mp h.increasing).1 _ hlast
    omega

namespace Meter

theorem sound_addNodeIf (b : Bool) (h : m.Sound) : (m.addNodeIf b).Sound := by
  unfold addNodeIf
  split_ifs
  · exact h
  · exact h

theorem sound_closeSlot (h : m.Sound) : m.closeSlot.Sound := by
  unfold closeSlot
  split_ifs
  · exact h
  · exact h

/-- Popping a block collection keeps the stacks sound. -/
theorem sound_pop {i : ℤ} {is : List ℤ} (h : m.Sound) (hpop : m.indents = i :: is) :
    ({ m.closeSlot with indent := i, indents := is } : Meter).Sound := by
  have hincreasing := h.increasing
  have hbottom := h.bottom
  have hdepth := h.depth
  rw [hpop] at hincreasing hbottom hdepth
  have hslot := sound_closeSlot h
  exact
    { keys := hslot.keys
      flows := hslot.flows
      increasing := (List.pairwise_cons.mp hincreasing).2
      bottom := by simpa using hbottom
      depth := by
        rw [List.length_cons] at hdepth
        exact Nat.le_of_succ_le hdepth
      popped := hslot.popped }

theorem sound_unrollLoop (col : ℤ) (hcol : -1 ≤ col) (h : m.Sound) : (m.unrollLoop col).Sound := by
  fun_induction unrollLoop col m with
  | case1 m hle => exact h
  | case2 m hlt hnil =>
    have hindent := h.indents_eq_nil_iff.mp hnil
    omega
  | case3 m hlt i is hpop ih => exact ih (sound_pop h hpop)

theorem sound_unroll (col : ℤ) (hcol : -1 ≤ col) (h : m.Sound) : (m.unroll col).Sound := by
  unfold unroll
  split_ifs
  · exact h
  · exact sound_unrollLoop col hcol h

theorem sound_saveKey (h : m.Sound) : m.saveKey.Sound := by
  unfold saveKey
  split_ifs
  · split
    · rename_i hnil
      exact absurd h.keys (by simp [hnil])
    · rename_i k ks hkeys
      exact h.of_sameShape ⟨rfl, rfl, rfl, by simp [hkeys], rfl, rfl⟩
  · exact h

theorem removeKey_flowLevel (m : Meter) : m.removeKey.flowLevel = m.flowLevel := by
  unfold removeKey
  split <;> rfl

theorem sound_removeKey (h : m.Sound) : m.removeKey.Sound := by
  unfold removeKey
  split
  · rename_i hnil
    exact absurd h.keys (by simp [hnil])
  · rename_i k ks hkeys
    exact h.of_sameShape ⟨rfl, rfl, rfl, by simp [hkeys], rfl, rfl⟩

theorem sound_takeKey {k : SimpleKey} {ks : List SimpleKey} (h : m.Sound) (hkeys : m.keys = k :: ks) :
    (m.takeKey k ks).Sound := h.of_sameShape ⟨rfl, rfl, rfl, by simp [takeKey, hkeys], rfl, rfl⟩

/-- Pushing a block collection deeper than the current one. -/
theorem sound_pushIndent (col : ℕ) (fill : Bool) (h : m.Sound) (hcol : m.indent < col)
    (hdepth : m.indents.length ≠ maxYAMLDepth) : (m.pushIndent col fill).Sound := by
  have hall : ∀ i ∈ m.indent :: m.indents, (col : ℤ) > i := by
    intro i hi
    rcases List.mem_cons.mp hi with rfl | hi
    · exact hcol
    · exact lt_trans ((List.pairwise_cons.mp h.increasing).1 i hi) hcol
  exact
    { keys := h.keys
      flows := h.flows
      increasing := List.pairwise_cons.mpr ⟨hall, h.increasing⟩
      bottom := by
        rw [← h.bottom]
        exact List.getLast?_cons_of_ne_nil (List.cons_ne_nil _ _)
      depth := Nat.lt_of_le_of_ne h.depth hdepth
      popped := h.popped }

/-! ### Inside a flow collection -/

/-- The stacks fit together, and a flow collection is open. -/
def InFlow (m : Meter) : Prop := m.Sound ∧ 0 < m.flowLevel

theorem inFlow_addNodeIf (b : Bool) (h : m.InFlow) : (m.addNodeIf b).InFlow := by
  unfold addNodeIf
  split_ifs
  · exact h
  · exact h

theorem inFlow_flowStart (h : m.InFlow) : m.flowStart.InFlow := by
  unfold flowStart
  split
  · rename_i hnil
    have hflows := h.1.flows
    rw [hnil, List.length_nil] at hflows
    exact absurd h.2 (by omega)
  · rename_i f fs hflows
    have hnew : ({ m with flows := { f with started := true } :: fs } : Meter).InFlow :=
      ⟨h.1.of_sameShape ⟨rfl, rfl, rfl, rfl, by simp [hflows], rfl⟩, h.2⟩
    dsimp only
    split_ifs
    · exact h
    · exact hnew
    · exact hnew

theorem inFlow_modifyFlow (g : FlowItem → FlowItem) (h : m.InFlow) : (m.modifyFlow g).InFlow := by
  unfold modifyFlow
  split
  · rename_i hnil
    have hflows := h.1.flows
    rw [hnil, List.length_nil] at hflows
    exact absurd h.2 (by omega)
  · rename_i f fs hflows
    exact ⟨h.1.of_sameShape ⟨rfl, rfl, rfl, rfl, by simp [hflows], rfl⟩, h.2⟩

theorem sound_node (h : m.Sound) : m.node.Sound := by
  unfold node
  split_ifs with hlevel
  · exact h
  · exact (inFlow_modifyFlow _ (inFlow_flowStart (m := m.addNode) ⟨h, Nat.pos_of_ne_zero hlevel⟩)).1

theorem sound_property (h : m.Sound) : m.property.Sound := by
  unfold property
  split_ifs
  · exact sound_node h
  · exact h

theorem inFlow_flowValue (h : m.InFlow) : m.flowValue.InFlow :=
  inFlow_modifyFlow _ (inFlow_addNodeIf _ (inFlow_addNodeIf _ (inFlow_flowStart h)))

theorem inFlow_endFlowItem (h : m.InFlow) : m.endFlowItem.InFlow :=
  inFlow_modifyFlow _ (inFlow_addNodeIf _ (inFlow_addNodeIf _ h))

theorem sound_openFlow (seq : Bool) (h : m.Sound) : (m.openFlow seq).Sound where
  keys := by simp [openFlow, h.keys]
  flows := by simp [openFlow, h.flows]
  increasing := h.increasing
  bottom := h.bottom
  depth := h.depth
  popped := h.popped

theorem sound_closeFlow (h : m.Sound) : m.closeFlow.Sound := by
  unfold closeFlow
  split_ifs with hlevel
  · have hend : m.endFlowItem.InFlow := inFlow_endFlowItem ⟨h, hlevel⟩
    generalize m.endFlowItem = e at hend
    obtain ⟨hsound, hpos⟩ := hend
    have hkeys : e.keys ≠ [] := List.ne_nil_of_length_pos (by rw [hsound.keys]; omega)
    have hflows : e.flows ≠ [] := List.ne_nil_of_length_pos (by rw [hsound.flows]; exact hpos)
    exact
      { keys := by
          simp only [List.length_tail, hsound.keys]
          omega
        flows := by simp only [List.length_tail, hsound.flows]
        increasing := hsound.increasing
        bottom := hsound.bottom
        depth := hsound.depth
        popped := by simp [hsound.popped, hkeys, hflows] }
  · exact h

end Meter

end Sound

namespace YamlScanner

/-! ### What only moves -/

section Stacks

@[simp] theorem stacks_skip (s : YamlScanner) : s.skip.toStacks = s.toStacks := rfl

@[simp] theorem stacks_skipLine (s : YamlScanner) : s.skipLine.toStacks = s.toStacks := by
  unfold skipLine
  dsimp only
  split_ifs <;> rfl

@[simp] theorem stacks_skipWhile (cond : YamlScanner → Bool) (s : YamlScanner) :
    (s.skipWhile cond).toStacks = s.toStacks := by
  fun_induction skipWhile cond s with
  | case1 s h ih => exact ih
  | case2 s h => rfl

@[simp] theorem stacks_blanks (s : YamlScanner) : s.blanks.toStacks = s.toStacks := by
  unfold blanks
  dsimp only
  split_ifs <;> simp only [stacks_skipWhile, stacks_skip]

@[simp] theorem stacks_toNextToken (s : YamlScanner) : s.toNextToken.toStacks = s.toStacks := by
  fun_induction toNextToken s with
  | case1 s h => exact s.stacks_blanks
  | case2 s h ih =>
    have hnew : ∀ m : Meter, (newLine m).toStacks = m.toStacks := by
      intro m
      unfold newLine
      split_ifs <;> rfl
    rw [ih]
    exact (hnew _).trans (by rw [stacks_skipLine, stacks_blanks])

@[simp] theorem stacks_skipWhite (s : YamlScanner) : s.skipWhite.toStacks = s.toStacks := by
  unfold skipWhite
  split_ifs
  · rfl
  · exact s.stacks_skipLine

@[simp] theorem stacks_plainBlanks (s : YamlScanner) (leading : Bool) :
    (s.plainBlanks leading).1.toStacks = s.toStacks := by
  fun_induction plainBlanks s leading with
  | case1 s leading h ih => rw [ih, stacks_skipWhite]
  | case2 s leading h => rfl

@[simp] theorem stacks_plainLoop (indent : ℤ) (s : YamlScanner) (leading : Bool) :
    (s.plainLoop indent leading).1.toStacks = s.toStacks := by
  fun_induction plainLoop indent s leading with
  | case1 s leading h => rfl
  | case2 s leading h hw hcol => rw [stacks_plainBlanks, plainWord, stacks_skipWhile]
  | case3 s leading h hw hcol ih => rw [ih, stacks_plainBlanks, plainWord, stacks_skipWhile]
  | case4 s leading h hw => exact stacks_skipWhile _ s

@[simp] theorem stacks_plain (s : YamlScanner) : s.plain.toStacks = s.toStacks := by
  unfold plain
  dsimp only
  split_ifs
  · exact stacks_plainLoop _ s false
  · exact stacks_plainLoop _ s false

@[simp] theorem stacks_skipEscaped (s : YamlScanner) : s.skipEscaped.toStacks = s.toStacks := by
  unfold skipEscaped
  split_ifs
  · exact s.stacks_skipLine
  · rfl
  · rfl

@[simp] theorem stacks_quotedLoop (q : UInt8) (s : YamlScanner) : (s.quotedLoop q).toStacks = s.toStacks := by
  fun_induction quotedLoop q s with
  | case1 s h => rfl
  | case2 s h hq ih => exact ih
  | case3 s h hq hc => rfl
  | case4 s h hq hc hesc ih => rw [ih, stacks_skipEscaped, stacks_skip]
  | case5 s h hq hc hesc hb ih => rw [ih, stacks_skipLine]
  | case6 s h hq hc hesc hb ih => exact ih

@[simp] theorem stacks_breaksLoop (indent maxIndent : ℤ) (s : YamlScanner) :
    (s.breaksLoop indent maxIndent).2.toStacks = s.toStacks := by
  fun_induction breaksLoop indent maxIndent s with
  | case1 maxIndent s h => exact stacks_skipWhile _ s
  | case2 maxIndent s h ih => rw [ih, stacks_skipLine, indentSpaces, stacks_skipWhile]

@[simp] theorem stacks_blockLine (s : YamlScanner) : s.blockLine.toStacks = s.toStacks := by
  rw [blockLine, stacks_skipLine, stacks_skipWhile]

@[simp] theorem stacks_linesLoop (indent : ℤ) (s : YamlScanner) : (s.linesLoop indent).toStacks = s.toStacks := by
  fun_induction linesLoop indent s with
  | case1 indent s h ih => rw [ih, blockBreaks, stacks_breaksLoop, stacks_blockLine]
  | case2 indent s h => rfl

@[simp] theorem stacks_headerIndicator (p : ℤ × YamlScanner) : (headerIndicator p).2.toStacks = p.2.toStacks := by
  unfold headerIndicator
  split_ifs <;> rfl

@[simp] theorem stacks_blockScalar (s : YamlScanner) : s.blockScalar.toStacks = s.toStacks := by
  simp only [blockScalar, blockBreaks, stacks_linesLoop, stacks_breaksLoop, stacks_blockLine, stacks_headerIndicator, stacks_skip]

end Stacks

/-! ### Every call keeps the stacks -/

section Sound

variable {s : YamlScanner}

theorem sound_roll (col : ℕ) (fill : Bool) (h : s.Sound) : (s.roll col fill).2.Sound := by
  unfold roll
  split_ifs with hstay hdepth
  · exact h
  · exact h
  · rw [not_or, not_le] at hstay
    exact Meter.sound_pushIndent col fill h hstay.2 hdepth

theorem sound_value (h : s.Sound) : s.value.Sound := by
  unfold value
  split
  · rename_i hnil
    exact absurd h.keys (by simp [hnil])
  · rename_i k ks hkeys
    have htake := Meter.sound_takeKey h hkeys
    split_ifs with _ hlevel hlevel
    · have hkey : (s.count fun m => (m.takeKey k ks).addNodeIf (m.cost.nodes = k.nodes)).Sound := Meter.sound_addNodeIf _ htake
      exact Meter.sound_addNodeIf _ (sound_roll k.col false hkey)
    · exact (Meter.inFlow_flowValue (m := s.takeKey k ks) ⟨htake, Nat.pos_of_ne_zero hlevel⟩).1
    · exact Meter.sound_closeSlot (sound_roll s.col true h)
    · exact (Meter.inFlow_flowValue ⟨h, Nat.pos_of_ne_zero hlevel⟩).1

/-- A scanner that only moved keeps its stacks sound. -/
theorem sound_of_stacks_eq {t : YamlScanner} (h : s.Sound) (heq : t.toStacks = s.toStacks) : t.Sound := by
  rw [heq]
  exact h

/-- A token keeps the stacks sound. -/
theorem sound_token (h : s.Sound) : s.token.Sound := by
  have hsave : (s.count fun m => m.saveKey.allowKey false).Sound := Meter.sound_saveKey h
  unfold token
  -- Scanning moves the position alone, so every case is what its counts do to the stacks.
  cases s.kind with
  | directive =>
    have hunroll : (s.count fun m => (m.unroll (-1)).removeKey.allowKey false).Sound :=
      Meter.sound_removeKey (Meter.sound_unroll (-1) le_rfl h)
    exact sound_of_stacks_eq hunroll (stacks_skipWhile _ _)
  | marker =>
    have hclose := Meter.sound_closeSlot (Meter.sound_unroll (-1) le_rfl h)
    exact Meter.sound_removeKey (m := (s.unroll (-1)).closeSlot.openSlot) hclose
  | flowStart seq =>
    have hnode := Meter.sound_node (Meter.sound_saveKey h)
    dsimp only
    split_ifs
    · exact hnode
    · exact Meter.sound_openFlow seq hnode
  | flowEnd => exact Meter.sound_closeFlow (Meter.sound_removeKey h)
  | comma =>
    have hremove := Meter.sound_removeKey h
    have hlevel : s.removeKey.flowLevel = s.flowLevel := Meter.removeKey_flowLevel s.toMeter
    refine sound_of_stacks_eq (s := s.count _) ?_ (stacks_skip _)
    simp only [count]
    split_ifs with hflow
    · exact (Meter.inFlow_endFlowItem (m := s.removeKey.allowKey true) ⟨hremove, by rw [← hlevel] at hflow; exact hflow⟩).1
    · exact hremove
  | dash =>
    have hroll := Meter.sound_addNodeIf (s.roll s.col true).2.expect (sound_roll s.col true h)
    dsimp only
    split_ifs
    · exact Meter.sound_removeKey (m := (((s.roll s.col true).2.addNodeIf _).addEntry.openSlot)) hroll
    · exact Meter.sound_removeKey h
  | question =>
    have hroll := Meter.sound_closeSlot (sound_roll s.col true h)
    dsimp only
    split_ifs with hlevel
    · exact Meter.sound_removeKey (m := (s.roll s.col true).2.closeSlot.addNode.openSlot) hroll
    · have hstart := Meter.inFlow_flowStart ⟨h, Nat.pos_of_ne_zero hlevel⟩
      exact Meter.sound_removeKey (Meter.inFlow_addNodeIf _ (Meter.inFlow_modifyFlow _ hstart)).1
  | colon => exact sound_value h
  | aliasName => exact Meter.sound_node (sound_of_stacks_eq hsave (stacks_skipWhile _ _))
  | anchor => exact Meter.sound_property (sound_of_stacks_eq hsave (stacks_skipWhile _ _))
  | tag => exact Meter.sound_property (sound_of_stacks_eq hsave (stacks_skipWhile _ _))
  | block =>
    have hremove : (s.count fun m => m.removeKey.allowKey true).Sound := Meter.sound_removeKey h
    exact Meter.sound_node (sound_of_stacks_eq hremove (stacks_blockScalar _))
  | quoted q => exact Meter.sound_node (sound_of_stacks_eq hsave (stacks_quotedLoop q _))
  | plain => exact Meter.sound_node (sound_of_stacks_eq hsave (stacks_plain _))
  | other => exact h

theorem sound_next (h : s.Sound) : s.next.Sound :=
  Meter.sound_unroll _ (by omega) (sound_of_stacks_eq h s.stacks_toNextToken)

theorem sound_finish (h : s.Sound) : s.finish.Sound := Meter.sound_closeSlot (Meter.sound_unroll (-1) le_rfl h)

end Sound

end YamlScanner

end UpgradeScope
