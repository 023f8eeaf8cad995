import UpgradeScope.Lib.Strings
import UpgradeScope.Collect.MergeKeys
import Mathlib.Data.Fintype.Lattice

/-!
# What aliases expand to

kubectl's decoder copies the node an alias names in full at every alias, so a document's aliases are charged what they
expand to. `expandedCost` of `internal/server/yamlcost.go` adds that up without building it: the cost of an anchored
node is remembered, an anchor that is met again below itself is an error, and every figure stops at `maxAliasCost`, far
below what a machine integer holds.

Contents are trees and anchors are finitely many, so the recursion ends: a call below the open anchors either opens
another one or goes down a content.
-/

namespace UpgradeScope

open Go Graphs

/-- The node holds other nodes itself. -/
def YamlKind.holds : YamlKind → Bool
  | .document | .sequence | .mapping => true
  | .scalar | .alias => false

/-- The nodes a YAML parser makes of a stream. -/
structure AliasGraph (ν : Type*) extends YamlGraph ν where
  /-- How deep a node's content nests: contents are trees. -/
  height : ν → ℕ
  height_lt : ∀ {n c}, c ∈ content n → height c < height n
  /-- Every alias names an anchored node. -/
  names_anchored : ∀ {n}, kind n = .alias → ∃ t, «alias» n = some t ∧ anchor t ≠ ""
  /-- What a slice of pointers and a string can hold where an address has 48 bits. -/
  content_length : ∀ n, (content n).length < 2 ^ 48
  value_size : ∀ n, byteLen (value n) < 2 ^ 48

/-! ## What is counted -/

/-- `aliasCost`, without the count of aliases that the `yamlCost` in it has and nothing here sets. -/
structure AliasCost where
  /-- Scalars and collections. -/
  nodes : ℤ := 0
  /-- Sequence entries. -/
  entries : ℤ := 0
  /-- The bytes the scalars hold. -/
  scalars : ℤ := 0
deriving DecidableEq

/-- `maxAliasCost`. -/
def maxAliasCost : ℤ := 2 ^ 40

/-- `aliasCost.add`: the sums are of machine integers. -/
def AliasCost.add (c o : AliasCost) : AliasCost where
  nodes := min (wrap64 (c.nodes + o.nodes)) maxAliasCost
  entries := min (wrap64 (c.entries + o.entries)) maxAliasCost
  scalars := min (wrap64 (c.scalars + o.scalars)) maxAliasCost

/-- Why a document's aliases cannot be measured. -/
inductive AliasError
  /-- The node of this anchor, on this line, contains an alias of itself. -/
  | contains (line : ℕ) (anchor : String)
  /-- The alias on this line names no anchor. -/
  | unknown (line : ℕ) (value : String)
deriving DecidableEq

/-! ## The graph -/

namespace AliasGraph

variable {ν : Type*} (g : AliasGraph ν)

/-- The anchored nodes on the way to a node, with the node itself. -/
def opened [DecidableEq ν] (n : ν) («open» : Finset ν) : Finset ν :=
  if g.anchor n ≠ "" then insert n «open» else «open»

/-- The nodes that reading a node goes on to. -/
inductive Edge : ν → ν → Prop
  | names {n t : ν} : g.kind n = .alias → g.alias n = some t → Edge n t
  | holds {n c : ν} : (g.kind n).holds = true → c ∈ g.content n → Edge n c

theorem height_le [Fintype ν] (n : ν) : g.height n ≤ Finset.univ.sup g.height := Finset.le_sup (Finset.mem_univ n)

variable [Fintype ν] [DecidableEq ν]

/-- The anchored nodes that reading a node below the open ones can still open, the node itself aside. -/
def unopened (n : ν) («open» : Finset ν) : Finset ν := ((Finset.univ.filter (g.anchor · ≠ "")) \ «open»).erase n

/-- What is left to do for a node below the open ones: every anchor still to be opened outweighs any nesting. -/
def todo (n : ν) («open» : Finset ν) : ℕ :=
  (g.unopened n «open»).card * (Finset.univ.sup g.height + 2) +
    if g.anchor n ≠ "" ∧ n ∈ «open» then 0 else g.height n + 1

variable {g} {n m : ν} {«open» : Finset ν}

theorem unopened_opened (h : ¬(g.anchor n ≠ "" ∧ n ∈ «open»)) :
    (Finset.univ.filter (g.anchor · ≠ "")) \ g.opened n «open» = g.unopened n «open» := by
  unfold opened unopened
  ext x
  split_ifs with hn
  · simp only [Finset.mem_sdiff, Finset.mem_filter, Finset.mem_univ, true_and, Finset.mem_insert, Finset.mem_erase]
    tauto
  · simp only [Finset.mem_sdiff, Finset.mem_filter, Finset.mem_univ, true_and, Finset.mem_erase]
    constructor
    · rintro ⟨hx, hopen⟩
      exact ⟨fun h => hn (h ▸ hx), hx, hopen⟩
    · rintro ⟨-, hx, hopen⟩
      exact ⟨hx, hopen⟩

/-- An anchored node that is met next leaves less to do. -/
theorem todo_lt_of_anchored (h : ¬(g.anchor n ≠ "" ∧ n ∈ «open»)) (hm : g.anchor m ≠ "") :
    g.todo m (g.opened n «open») < g.todo n «open» := by
  have hset := unopened_opened h
  have hn : g.todo n «open» = (g.unopened n «open»).card * (Finset.univ.sup g.height + 2) + (g.height n + 1) := by
    rw [todo, if_neg h]
  have hle := g.height_le m
  rw [hn, todo]
  by_cases hopen : m ∈ g.opened n «open»
  · have herase : g.unopened m (g.opened n «open») = g.unopened n «open» := by
      rw [← hset, unopened, Finset.erase_eq_of_notMem]
      simp [hopen]
    rw [if_pos ⟨hm, hopen⟩, herase]
    omega
  · have hmem : m ∈ g.unopened n «open» := by
      rw [← hset]
      simp [hm, hopen]
    have hcard : (g.unopened m (g.opened n «open»)).card + 1 = (g.unopened n «open»).card := by
      rw [unopened, hset]
      exact Finset.card_erase_add_one hmem
    rw [if_neg (fun h => hopen h.2), ← hcard, add_mul]
    omega

/-- Going on to a node of the content leaves less to do. -/
theorem todo_lt_of_content (h : ¬(g.anchor n ≠ "" ∧ n ∈ «open»)) (hm : m ∈ g.content n) :
    g.todo m (g.opened n «open») < g.todo n «open» := by
  by_cases hanchor : g.anchor m = ""
  · have hlt := g.height_lt hm
    have herase : g.unopened m (g.opened n «open») = g.unopened n «open» := by
      rw [← unopened_opened h, unopened, Finset.erase_eq_of_notMem]
      simp [hanchor]
    rw [todo, todo, if_neg h, if_neg (fun h => h.1 hanchor), herase]
    omega
  · exact todo_lt_of_anchored h hanchor

theorem todo_lt_of_alias (h : ¬(g.anchor n ≠ "" ∧ n ∈ «open»)) (hk : g.kind n = .alias) (hm : g.alias n = some m) :
    g.todo m (g.opened n «open») < g.todo n «open» := by
  obtain ⟨t, ht, hanchor⟩ := g.names_anchored hk
  obtain rfl : m = t := Option.some.inj (hm.symm.trans ht)
  exact todo_lt_of_anchored h hanchor

end AliasGraph

/-! ## `expandedCost` -/

section

variable {ν : Type*} [DecidableEq ν] (g : AliasGraph ν)

/-- `expanded`: the costs of the anchored nodes read so far. -/
abbrev AliasMemo (ν : Type*) := ν → Option AliasCost

/-- What a node of a document, a sequence or a mapping costs before its content. -/
def ownCost (n : ν) : AliasCost where
  nodes := if g.kind n ≠ .document then 1 else 0
  entries := if g.kind n = .sequence then (g.content n).length else 0

/-- What the memo holds of a node: only anchored nodes are looked up. -/
def remembered (memo : AliasMemo ν) (n : ν) : Option AliasCost := if g.anchor n ≠ "" then memo n else none

/-- The memo once a node is read. -/
def remember (memo : AliasMemo ν) (n : ν) (c : AliasCost) : AliasMemo ν :=
  if g.anchor n ≠ "" then Function.update memo n (some c) else memo

/-- `expandedCost`. The code's set of open anchors is the same after a call as before it, on every return, so it is
passed down and not back; the memo of a failed call is dropped, as its only caller drops it. -/
def expandedCost [Fintype ν] (n : ν) (memo : AliasMemo ν) («open» : Finset ν) : Except AliasError (AliasCost × AliasMemo ν) :=
  match remembered g memo n with
  | some c => .ok (c, memo)
  | none =>
    if _hopen : g.anchor n ≠ "" ∧ n ∈ «open» then .error (.contains (g.line n) (g.anchor n))
    else
      (match _hkind : g.kind n with
      | .alias =>
        match _htarget : g.alias n with
        | none => .error (.unknown (g.line n) (g.value n))
        | some t => expandedCost t memo (g.opened n «open»)
      | .scalar => .ok (⟨1, 0, byteLen (g.value n)⟩, memo)
      | .document | .sequence | .mapping =>
        (g.content n).attach.foldlM (fun (c, memo) child => do
          let (cc, memo) ← expandedCost child.1 memo (g.opened n «open»)
          return (c.add cc, memo)) (ownCost g n, memo)) >>= fun (c, memo) =>
      .ok (c, remember g memo n c)
termination_by g.todo n «open»
decreasing_by
  · exact AliasGraph.todo_lt_of_alias _hopen _hkind _htarget
  all_goals exact AliasGraph.todo_lt_of_content _hopen child.2

/-- What a node of a content adds to the cost so far. -/
def addChild [Fintype ν] («open» : Finset ν) (s : AliasCost × AliasMemo ν) (child : ν) :
    Except AliasError (AliasCost × AliasMemo ν) := do
  let (cc, memo) ← expandedCost g child s.2 «open»
  return (s.1.add cc, memo)

/-- What a node that neither the memo holds nor is open costs, by its kind. -/
def bodyCost [Fintype ν] (n : ν) (memo : AliasMemo ν) («open» : Finset ν) :
    Except AliasError (AliasCost × AliasMemo ν) :=
  match g.kind n with
  | .alias =>
    match g.alias n with
    | none => .error (.unknown (g.line n) (g.value n))
    | some t => expandedCost g t memo «open»
  | .scalar => .ok (⟨1, 0, byteLen (g.value n)⟩, memo)
  | .document | .sequence | .mapping => (g.content n).foldlM (addChild g «open») (ownCost g n, memo)

theorem expandedCost_eq [Fintype ν] (n : ν) (memo : AliasMemo ν) («open» : Finset ν) :
    expandedCost g n memo «open» = match remembered g memo n with
      | some c => .ok (c, memo)
      | none =>
        if g.anchor n ≠ "" ∧ n ∈ «open» then .error (.contains (g.line n) (g.anchor n))
        else bodyCost g n memo (g.opened n «open») >>= fun s => .ok (s.1, remember g s.2 n s.1) := by
  have hfold : ∀ s : AliasCost × AliasMemo ν, (g.content n).attach.foldlM (fun (c, memo) child => do
      let (cc, memo) ← expandedCost g child.1 memo (g.opened n «open»)
      return (c.add cc, memo)) s = (g.content n).foldlM (addChild g (g.opened n «open»)) s := by
    intro s
    rw [List.foldlM_subtype (g := addChild g (g.opened n «open»))]
    · rw [List.unattach_attach]
    · intro s c hc
      rfl
  rw [expandedCost, bodyCost]
  split
  · rfl
  · split
    · rfl
    · split <;> rename_i hkind <;> simp only [hkind, hfold]
      split <;> rename_i htarget <;> simp only [htarget]

end

/-! ## The tree a node expands to -/

/-- A node with a copy of what it names in the place of every alias in it. -/
inductive Expanded
  | scalar (bytes : ℕ)
  | collection (kind : YamlKind) (content : List Expanded)

namespace Expanded

/-- The scalars and collections of an expanded document. -/
def nodes : Expanded → ℕ
  | .scalar _ => 1
  | .collection kind content => (if kind ≠ .document then 1 else 0) + (content.map nodes).sum

/-- The sequence entries of an expanded document. -/
def entries : Expanded → ℕ
  | .scalar _ => 0
  | .collection kind content => (if kind = .sequence then content.length else 0) + (content.map entries).sum

/-- The bytes that the scalars of an expanded document hold. -/
def scalars : Expanded → ℕ
  | .scalar bytes => bytes
  | .collection _ content => (content.map scalars).sum

end Expanded

namespace AliasGraph

variable {ν : Type*} (g : AliasGraph ν)

/-- A node expands to a tree. -/
inductive Expands : ν → Expanded → Prop
  | scalar {n : ν} : g.kind n = .scalar → Expands n (.scalar (byteLen (g.value n)))
  | names {n t : ν} {T : Expanded} : g.kind n = .alias → g.alias n = some t → Expands t T → Expands n T
  | holds {n : ν} {Ts : List Expanded} : (g.kind n).holds = true → (g.content n).length = Ts.length →
      (∀ p ∈ (g.content n).zip Ts, Expands p.1 p.2) → Expands n (.collection (g.kind n) Ts)

/-- The node contains an alias of itself, directly or through other aliases. -/
def ContainsItself (n : ν) : Prop :=
  ∃ a, Relation.ReflTransGen g.Edge n a ∧ g.kind a = .alias ∧ g.alias a = some n

variable {g} {n m : ν} {T : Expanded}

/-- Where a node expands, every way on from it ends. -/
theorem Expands.acc (h : g.Expands n T) : Acc (Function.swap g.Edge) n := by
  induction h with
  | scalar hk =>
    constructor
    rintro m (⟨hk', -⟩ | ⟨hk', -⟩) <;> simp [hk, YamlKind.holds] at hk'
  | names hk ht _ ih =>
    constructor
    rintro m (⟨-, ht'⟩ | ⟨hk', -⟩)
    · exact Option.some.inj (ht.symm.trans ht') ▸ ih
    · simp [hk, YamlKind.holds] at hk'
  | @holds n Ts hk hlen _ ih =>
    constructor
    rintro m (⟨hk', -⟩ | ⟨-, hm⟩)
    · simp [hk', YamlKind.holds] at hk
    · obtain ⟨T, hT⟩ := exists_mem_zip hlen hm
      exact ih _ hT

/-- No node reached from one that expands comes back to itself. -/
theorem Expands.not_cyclic (h : g.Expands n T) (hm : Relation.ReflTransGen g.Edge n m) : ¬Relation.TransGen g.Edge m m :=
  not_transGen_of_acc h.acc hm

/-- A way from one node to another goes down the contents only, or over an alias. -/
theorem height_lt_or_alias (h : Relation.TransGen g.Edge n m) :
    g.height m < g.height n ∨ ∃ a t, Relation.ReflTransGen g.Edge n a ∧ g.kind a = .alias ∧ g.alias a = some t ∧
      Relation.ReflTransGen g.Edge t m := by
  induction h with
  | single hedge =>
    obtain ⟨hk, ht⟩ | ⟨-, hc⟩ := hedge
    · exact .inr ⟨_, _, .refl, hk, ht, .refl⟩
    · exact .inl (g.height_lt hc)
  | tail hpath hedge ih =>
    obtain ⟨hk, ht⟩ | ⟨hk, hc⟩ := hedge
    · exact .inr ⟨_, _, hpath.to_reflTransGen, hk, ht, .refl⟩
    · obtain hlt | ⟨a, t, ha, hka, hta, htm⟩ := ih
      · exact .inl ((g.height_lt hc).trans hlt)
      · exact .inr ⟨a, t, ha, hka, hta, htm.tail (.holds hk hc)⟩

/-- Contents being trees, a way back to a node is over an alias of a node that contains it. -/
theorem exists_containsItself (hm : Relation.ReflTransGen g.Edge n m) (h : Relation.TransGen g.Edge m m) :
    ∃ t, Relation.ReflTransGen g.Edge n t ∧ g.ContainsItself t := by
  obtain hlt | ⟨a, t, ha, hk, ht, htm⟩ := height_lt_or_alias h
  · exact absurd hlt (lt_irrefl _)
  · exact ⟨t, (hm.trans ha).tail (.names hk ht), a, htm.trans ha, hk, ht⟩

theorem ContainsItself.cyclic (h : g.ContainsItself n) : Relation.TransGen g.Edge n n := by
  obtain ⟨a, ha, hk, ht⟩ := h
  exact .tail' ha (.names hk ht)

/-- A node expands to one tree. -/
theorem Expands.unique (h : g.Expands n T) : ∀ {T' : Expanded}, g.Expands n T' → T = T' := by
  induction h with
  | scalar hk =>
    intro T' h'
    cases h' with
    | scalar => rfl
    | names hk' => simp [hk] at hk'
    | holds hk' => simp [hk, YamlKind.holds] at hk'
  | names hk ht _ ih =>
    intro T' h'
    cases h' with
    | scalar hk' => simp [hk] at hk'
    | names _ ht' hT => exact ih (Option.some.inj (ht.symm.trans ht') ▸ hT)
    | holds hk' => simp [hk, YamlKind.holds] at hk'
  | @holds n Ts hk hlen _ ih =>
    intro T' h'
    cases h' with
    | scalar hk' => simp [hk', YamlKind.holds] at hk
    | names hk' => simp [hk', YamlKind.holds] at hk
    | @holds _ Ts' _ hlen' hTs =>
      have heq : Ts = Ts' := eq_of_zip hlen hlen' fun c T T' hT hT' => ih _ hT (hTs _ hT')
      rw [heq]

end AliasGraph

/-! ## Saturating sums -/

/-- A figure of the code's stands for an exact one: the two agree up to `maxAliasCost`, and the figure is far from
overflowing. -/
structure Stands (x : ℤ) (k : ℕ) : Prop where
  nonneg : 0 ≤ x
  small : x < 2 ^ 48
  agrees : min x maxAliasCost = min (k : ℤ) maxAliasCost

theorem Stands.of_lt {k : ℕ} (h : k < 2 ^ 48) : Stands k k := ⟨by omega, by exact_mod_cast h, rfl⟩

/-- The sum of two figures saturates where the exact sum does. -/
theorem Stands.add {x y : ℤ} {k l : ℕ} (hx : Stands x k) (hy : Stands y l) :
    min (wrap64 (x + y)) maxAliasCost = min ((k + l : ℕ) : ℤ) maxAliasCost := by
  obtain ⟨hx0, hx1, hx⟩ := hx
  obtain ⟨hy0, hy1, hy⟩ := hy
  rw [wrap64_of_range (by omega) (by unfold maxInt; omega)]
  unfold maxAliasCost at *
  push_cast
  omega

theorem Stands.min {k : ℕ} : Stands (min (k : ℤ) maxAliasCost) k := by
  unfold maxAliasCost
  constructor
  · omega
  · omega
  · unfold maxAliasCost
    omega

/-- A cost stands for the exact figures. -/
structure AliasCost.Stands (c : AliasCost) (nodes entries scalars : ℕ) : Prop where
  nodes : UpgradeScope.Stands c.nodes nodes
  entries : UpgradeScope.Stands c.entries entries
  scalars : UpgradeScope.Stands c.scalars scalars

/-- The figures a sum of costs saturates to. -/
def AliasCost.capped (nodes entries scalars : ℕ) : AliasCost where
  nodes := min nodes maxAliasCost
  entries := min entries maxAliasCost
  scalars := min scalars maxAliasCost

theorem AliasCost.Stands.add {c o : AliasCost} {k l b k' l' b' : ℕ} (hc : c.Stands k l b) (ho : o.Stands k' l' b') :
    c.add o = .capped (k + k') (l + l') (b + b') := by
  unfold AliasCost.add AliasCost.capped
  rw [hc.nodes.add ho.nodes, hc.entries.add ho.entries, hc.scalars.add ho.scalars]

theorem AliasCost.stands_capped (k l b : ℕ) : (AliasCost.capped k l b).Stands k l b :=
  ⟨Stands.min, Stands.min, Stands.min⟩

/-- What a tree costs: the code adds up the figures of a collection, and takes those of a scalar as they are. -/
def Expanded.cost (T : Expanded) : AliasCost :=
  match T with
  | .scalar bytes => ⟨1, 0, bytes⟩
  | .collection _ _ => .capped T.nodes T.entries T.scalars

namespace AliasGraph

variable {ν : Type*} {g : AliasGraph ν} {n : ν} {T : Expanded}

theorem Expands.stands (h : g.Expands n T) : T.cost.Stands T.nodes T.entries T.scalars := by
  induction h with
  | @scalar n hk =>
    have hsize := g.value_size n
    have hone : Stands 1 1 := Stands.of_lt (by norm_num)
    have hzero : Stands 0 0 := Stands.of_lt (by norm_num)
    simp only [Expanded.cost, Expanded.nodes, Expanded.entries, Expanded.scalars]
    exact ⟨hone, hzero, .of_lt hsize⟩
  | names _ _ _ ih => exact ih
  | holds => exact AliasCost.stands_capped _ _ _

variable (g)

/-- The memo holds what its nodes cost. -/
def Sound (memo : AliasMemo ν) : Prop := ∀ n c, memo n = some c → ∃ T, g.Expands n T ∧ c = T.cost

/-- A node reached from this one comes back to itself. -/
def Cyclic (n : ν) : Prop := ∃ x, Relation.ReflTransGen g.Edge n x ∧ Relation.TransGen g.Edge x x

/-- A call priced the node, or failed for a cycle. -/
def Priced (n : ν) : Except AliasError (AliasCost × AliasMemo ν) → Prop
  | .ok (c, memo) => g.Sound memo ∧ ∃ T, g.Expands n T ∧ c = T.cost
  | .error _ => g.Cyclic n

/-- The costs of a content are added up from some figures, or a node in it has a cycle. -/
def AddedUp (cs : List ν) (c : AliasCost) (k l b : ℕ) : Except AliasError (AliasCost × AliasMemo ν) → Prop
  | .ok (c', memo) => g.Sound memo ∧ ∃ Ts, List.Forall₂ g.Expands cs Ts ∧
      (cs = [] ∧ c' = c ∨ c' = .capped (k + (Ts.map Expanded.nodes).sum) (l + (Ts.map Expanded.entries).sum)
        (b + (Ts.map Expanded.scalars).sum))
  | .error _ => ∃ child ∈ cs, g.Cyclic child

variable {g}

theorem Cyclic.edge {m : ν} (hedge : g.Edge n m) (h : g.Cyclic m) : g.Cyclic n := by
  obtain ⟨x, hx, hcycle⟩ := h
  exact ⟨x, .head hedge hx, hcycle⟩

variable [Fintype ν] [DecidableEq ν] {memo : AliasMemo ν} {«open» : Finset ν}

/-- The costs of a content add up, where each of its nodes is priced. -/
theorem foldlM_addChild {cs : List ν}
    (hcs : ∀ child ∈ cs, ∀ memo, g.Sound memo → g.Priced child (expandedCost g child memo «open»)) :
    ∀ {c : AliasCost} {memo : AliasMemo ν} {k l b : ℕ}, c.Stands k l b → g.Sound memo →
      g.AddedUp cs c k l b (cs.foldlM (addChild g «open») (c, memo)) := by
  induction cs with
  | nil =>
    intro c memo k l b _ hmemo
    exact ⟨hmemo, [], .nil, .inl ⟨rfl, rfl⟩⟩
  | cons child cs ih =>
    intro c memo k l b hc hmemo
    have hchild := hcs child List.mem_cons_self memo hmemo
    rw [List.foldlM_cons, addChild]
    dsimp only
    cases hrun : expandedCost g child memo «open» with
    | error e =>
      rw [hrun] at hchild
      exact ⟨child, List.mem_cons_self, hchild⟩
    | ok r =>
      obtain ⟨cc, memo'⟩ := r
      rw [hrun] at hchild
      obtain ⟨hmemo', T, hT, rfl⟩ := hchild
      -- Figures that stand for exact ones add up to the capped sum, however large the parts are.
      have hadd := hc.add hT.stands
      have hrest := ih (fun m hm => hcs m (List.mem_cons_of_mem _ hm))
        (AliasCost.stands_capped (k + T.nodes) (l + T.entries) (b + T.scalars)) hmemo'
      change g.AddedUp _ _ _ _ _ (cs.foldlM (addChild g «open») (c.add T.cost, memo'))
      rw [hadd]
      cases hfold : cs.foldlM (addChild g «open») (.capped (k + T.nodes) (l + T.entries) (b + T.scalars), memo') with
      | error e =>
        rw [hfold] at hrest
        obtain ⟨m, hm, hcyclic⟩ := hrest
        exact ⟨m, List.mem_cons_of_mem _ hm, hcyclic⟩
      | ok r =>
        rw [hfold] at hrest
        obtain ⟨hmemo'', Ts, hTs, heq⟩ := hrest
        refine ⟨hmemo'', T :: Ts, .cons hT hTs, .inr ?_⟩
        simp only [List.map_cons, List.sum_cons, ← add_assoc]
        obtain ⟨rfl, heq⟩ | heq := heq
        · cases hTs
          simpa using heq
        · exact heq

omit [Fintype ν] [DecidableEq ν] in
/-- What a node costs before its content, in exact figures. -/
theorem stands_ownCost (g : AliasGraph ν) (n : ν) : (ownCost g n).Stands (if g.kind n ≠ .document then 1 else 0)
    (if g.kind n = .sequence then (g.content n).length else 0) 0 := by
  have hlength := g.content_length n
  have hzero : Stands 0 0 := Stands.of_lt (by norm_num)
  have hone : Stands 1 1 := Stands.of_lt (by norm_num)
  unfold ownCost
  refine ⟨?_, ?_, hzero⟩
  · dsimp only
    split_ifs
    · exact hone
    · exact hzero
  · dsimp only
    split_ifs
    · exact .of_lt hlength
    · exact hzero

omit [Fintype ν] [DecidableEq ν] in
/-- A node without content costs what it costs before it. -/
theorem ownCost_eq_of_nil (hnil : g.content n = []) : ownCost g n = (Expanded.collection (g.kind n) []).cost := by
  simp only [ownCost, Expanded.cost, AliasCost.capped, Expanded.nodes, Expanded.entries, Expanded.scalars, maxAliasCost, hnil]
  split_ifs <;> rfl

/-- A node is priced where the nodes it goes on to are. -/
theorem bodyCost_priced
    (hnext : ∀ m, g.Edge n m → ∀ memo, g.Sound memo → g.Priced m (expandedCost g m memo «open»)) (hmemo : g.Sound memo) :
    g.Priced n (bodyCost g n memo «open») := by
  -- A document, a sequence and a mapping are priced alike, by their content.
  have hholds : (g.kind n).holds = true →
      g.Priced n ((g.content n).foldlM (addChild g «open») (ownCost g n, memo)) := by
    intro hk
    have hsum := foldlM_addChild (fun c hc => hnext c (.holds hk hc)) (stands_ownCost g n) hmemo
    cases hfold : (g.content n).foldlM (addChild g «open») (ownCost g n, memo) with
    | error e =>
      rw [hfold] at hsum
      obtain ⟨c, hc, hcyclic⟩ := hsum
      exact hcyclic.edge (.holds hk hc)
    | ok r =>
      rw [hfold] at hsum
      obtain ⟨hmemo', Ts, hTs, heq⟩ := hsum
      have hexpands : g.Expands n (.collection (g.kind n) Ts) :=
        .holds hk hTs.length_eq fun p hp => (List.forall₂_iff_zip.mp hTs).2 hp
      refine ⟨hmemo', _, hexpands, ?_⟩
      obtain ⟨hnil, heq⟩ | heq := heq
      · rw [hnil] at hTs
        cases hTs
        exact heq.trans (ownCost_eq_of_nil hnil)
      · rw [heq, Expanded.cost, Expanded.nodes, Expanded.entries, Expanded.scalars, hTs.length_eq, zero_add]
  unfold bodyCost
  split
  case h_1 hk =>
    obtain ⟨t, ht, -⟩ := g.names_anchored hk
    have hpriced := hnext t (.names hk ht) memo hmemo
    rw [ht]
    dsimp only
    cases hrun : expandedCost g t memo «open» with
    | error e =>
      rw [hrun] at hpriced
      exact hpriced.edge (.names hk ht)
    | ok r =>
      rw [hrun] at hpriced
      obtain ⟨hmemo', T, hT, heq⟩ := hpriced
      exact ⟨hmemo', T, .names hk ht hT, heq⟩
  case h_2 hk => exact ⟨hmemo, _, .scalar hk, rfl⟩
  case h_3 hk => exact hholds (by rw [hk]; rfl)
  case h_4 hk => exact hholds (by rw [hk]; rfl)
  case h_5 hk => exact hholds (by rw [hk]; rfl)

omit [Fintype ν] in
/-- A priced node may be remembered. -/
theorem Priced.remember {r : Except AliasError (AliasCost × AliasMemo ν)} (h : g.Priced n r) :
    g.Priced n (r >>= fun s => .ok (s.1, UpgradeScope.remember g s.2 n s.1)) := by
  cases r with
  | error e => exact h
  | ok r =>
    obtain ⟨c, memo⟩ := r
    obtain ⟨hmemo, T, hT, rfl⟩ := h
    refine ⟨?_, T, hT, rfl⟩
    intro m c hm
    unfold UpgradeScope.remember at hm
    dsimp only at hm
    split_ifs at hm with hanchor
    · by_cases hmn : m = n
      · subst hmn
        rw [Function.update_self] at hm
        exact ⟨T, hT, (Option.some.inj hm).symm⟩
      · rw [Function.update_of_ne hmn] at hm
        exact hmemo m c hm
    · exact hmemo m c hm

/-- With a memo that holds what its nodes cost and open nodes that lead to this one, a call prices the node or fails
for a cycle. -/
theorem expandedCost_priced (hmemo : g.Sound memo) (hopen : ∀ x ∈ «open», Relation.TransGen g.Edge x n) :
    g.Priced n (expandedCost g n memo «open») := by
  induction htodo : g.todo n «open» using Nat.strongRecOn generalizing n memo «open» with
  | _ d ih =>
    rw [expandedCost_eq]
    split
    case h_1 c hc =>
      unfold remembered at hc
      split_ifs at hc
      exact ⟨hmemo, hmemo n c hc⟩
    case h_2 =>
      split_ifs with hclosed
      · exact ⟨n, .refl, hopen n hclosed.2⟩
      · refine (bodyCost_priced (fun m hedge memo hmemo => ?_) hmemo).remember
        have hlt : g.todo m (g.opened n «open») < d := by
          rw [← htodo]
          cases hedge with
          | names hk ht => exact todo_lt_of_alias hclosed hk ht
          | holds _ hm => exact todo_lt_of_content hclosed hm
        refine ih _ hlt hmemo (fun x hx => ?_) rfl
        unfold opened at hx
        split_ifs at hx with hanchor
        · obtain rfl | hx := Finset.mem_insert.mp hx
          · exact .single hedge
          · exact (hopen x hx).tail hedge
        · exact (hopen x hx).tail hedge

variable (g) in
/-- The memos that the documents read before a document leave. -/
inductive Earlier : AliasMemo ν → Prop
  | start : Earlier fun _ => none
  | next {root : ν} {c : AliasCost} {memo memo' : AliasMemo ν} : Earlier memo →
      expandedCost g root memo ∅ = .ok (c, memo') → Earlier memo'

theorem Earlier.sound (h : g.Earlier memo) : g.Sound memo := by
  induction h with
  | start =>
    intro n c hc
    cases hc
  | @next root c memo memo' _ hrun ih =>
    have hpriced := expandedCost_priced (n := root) ih (fun x hx => absurd hx (Finset.notMem_empty x))
    rw [hrun] at hpriced
    exact hpriced.1

omit [Fintype ν] [DecidableEq ν] in
/-- What a tree costs is its figures, each up to `maxAliasCost`; the bytes of a bare scalar alone are not cut. -/
theorem Expands.cost_eq (h : g.Expands n T) :
    T.cost.nodes = min (T.nodes : ℤ) maxAliasCost ∧ T.cost.entries = min (T.entries : ℤ) maxAliasCost ∧
      min T.cost.scalars maxAliasCost = min (T.scalars : ℤ) maxAliasCost := by
  refine ⟨?_, ?_, h.stands.scalars.agrees⟩
  all_goals
    cases T with
    | scalar => simp [Expanded.cost, Expanded.nodes, Expanded.entries, maxAliasCost]
    | collection => rfl

/-- Alias expansion is priced exactly: whatever the memo holds from earlier documents, the call, which always returns,
fails exactly when a node reached from the root contains an alias of itself, and otherwise gives the figures of the
expanded tree up to `maxAliasCost`. Documents are roots; a bare scalar's bytes are as they are. -/
theorem expandedCost_exact (g : AliasGraph ν) (root : ν) (hmemo : g.Earlier memo) :
    ((∃ e, expandedCost g root memo ∅ = .error e) ↔
      ∃ n, Relation.ReflTransGen g.Edge root n ∧ g.ContainsItself n) ∧
    ∀ c memo', expandedCost g root memo ∅ = .ok (c, memo') →
      ∃ T, g.Expands root T ∧ (∀ T', g.Expands root T' → T' = T) ∧
        c.nodes = min (T.nodes : ℤ) maxAliasCost ∧ c.entries = min (T.entries : ℤ) maxAliasCost ∧
        min c.scalars maxAliasCost = min (T.scalars : ℤ) maxAliasCost ∧
        ((g.kind root).holds = true → c.scalars = min (T.scalars : ℤ) maxAliasCost) := by
  -- No node is open at the root, so only a cycle of the graph fails.
  have hpriced := expandedCost_priced (n := root) hmemo.sound (fun x hx => absurd hx (Finset.notMem_empty x))
  cases hrun : expandedCost g root memo ∅ with
  | error e =>
    rw [hrun] at hpriced
    obtain ⟨x, hx, hcycle⟩ := hpriced
    refine ⟨⟨fun _ => exists_containsItself hx hcycle, fun _ => ⟨e, rfl⟩⟩, ?_⟩
    intro c memo' h
    cases h
  | ok r =>
    obtain ⟨c, memo'⟩ := r
    rw [hrun] at hpriced
    obtain ⟨-, T, hT, rfl⟩ := hpriced
    obtain ⟨hnodes, hentries, hscalars⟩ := hT.cost_eq
    constructor
    · constructor
      · rintro ⟨e, he⟩
        cases he
      · rintro ⟨n, hn, hself⟩
        exact absurd hself.cyclic (hT.not_cyclic hn)
    · rintro c memo'' ⟨⟩
      refine ⟨T, hT, fun T' hT' => hT'.unique hT, hnodes, hentries, hscalars, fun hk => ?_⟩
      cases hT with
      | scalar hk' => simp [hk', YamlKind.holds] at hk
      | names hk' => simp [hk', YamlKind.holds] at hk
      | holds => rfl

/-- The nodes of a document that holds `a: &x [hello]` and `b: *x`. -/
def shared : AliasGraph (Fin 7) where
  kind := ![.document, .mapping, .scalar, .sequence, .scalar, .alias, .scalar]
  tag := !["", "!!map", "!!str", "!!seq", "!!str", "", "!!str"]
  value := !["", "", "a", "", "b", "x", "hello"]
  anchor := !["", "", "", "x", "", "", ""]
  «alias» := ![none, none, none, none, none, some 3, none]
  content := ![[1], [2, 3, 4, 5], [], [6], [], [], []]
  line := ![1, 1, 1, 1, 2, 2, 1]
  height := ![3, 2, 0, 1, 0, 0, 0]
  height_lt := by decide
  names_anchored := by decide
  content_length := by decide
  value_size := by decide +kernel

/-- An alias in a document costs what it names once more. -/
theorem expandedCost_exact_shared :
    (expandedCost shared 0 (fun _ => none) ∅).map Prod.fst = .ok ⟨7, 2, 12⟩ ∧
      ∃ T, shared.Expands 0 T ∧ T.nodes = 7 ∧ T.entries = 2 ∧ T.scalars = 12 := by
  have hcost : (expandedCost shared 0 (fun _ => none) ∅).map Prod.fst = .ok ⟨7, 2, 12⟩ := by decide +kernel
  refine ⟨hcost, ?_⟩
  have hexact := (expandedCost_exact shared 0 .start).2
  cases hrun : expandedCost shared 0 (fun _ => none) ∅ with
  | error e =>
    rw [hrun] at hcost
    cases hcost
  | ok r =>
    obtain ⟨c, memo'⟩ := r
    rw [hrun] at hcost
    obtain rfl : c = ⟨7, 2, 12⟩ := Except.ok.inj hcost
    obtain ⟨T, hT, -, hnodes, hentries, -, hscalars⟩ := hexact _ _ hrun
    have hscalars := hscalars rfl
    unfold maxAliasCost at *
    dsimp only at *
    exact ⟨T, hT, by omega, by omega, by omega⟩

end AliasGraph

end UpgradeScope
