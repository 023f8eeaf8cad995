import UpgradeScope.Lib.Graphs
import Mathlib.Data.Finset.Card
import Mathlib.Data.Fintype.Card
import Mathlib.Data.Fin.VecNotation

/-!
# Merge keys

`objectReader.lookup` of `internal/collect/files.go` finds a mapping's entry as kubectl's decoder resolves it:
entries apply in order and the last wins, and a merge key brings in the entry of the mapping it names, or of the
first of several. Lookups through merge keys are remembered for each node and name, and a node that is being looked
up is remembered as having no entry, so that a mapping that merges itself ends.

The nodes are those of yaml.v3, by identity. The recursion takes fuel; with more than there are nodes it never runs
out.
-/

namespace UpgradeScope

open Graphs

/-! ## Nodes -/

/-- `yaml.Kind`: what a node of yaml.v3's is. -/
inductive YamlKind
  | document
  | sequence
  | mapping
  | scalar
  | «alias»
deriving DecidableEq

/-- The `yaml.Node`s that a reader can come to. An element of `ν` stands for a pointer to one. -/
structure YamlGraph (ν : Type*) where
  /-- `Kind`. -/
  kind : ν → YamlKind
  /-- `Tag`. -/
  tag : ν → String
  /-- `Value`: a scalar's text, or the anchor an alias names. -/
  value : ν → String
  /-- `Anchor`, empty for none. -/
  anchor : ν → String
  /-- `Alias`: the node an alias names. -/
  «alias» : ν → Option ν
  /-- `Content`. -/
  content : ν → List ν
  /-- `Line`. -/
  line : ν → ℕ

/-- The nodes of a document that objects are read from. -/
structure MergeGraph (ν : Type*) extends YamlGraph ν where
  /-- How many aliases lead from a node to one that is none: an alias has no anchor. -/
  aliases : ν → ℕ
  aliases_lt : ∀ {n t}, kind n = .alias → «alias» n = some t → aliases t < aliases n
  /-- `base64.StdEncoding.DecodeString`, where it does not fail. -/
  decodeString : String → Option String

namespace MergeGraph

variable {ν : Type*} (g : MergeGraph ν)

/-- `deref`. -/
def deref (n : ν) : ν :=
  if _hkind : g.kind n = .alias then
    match _htarget : g.alias n with
    | some t => deref t
    | none => n
  else n
termination_by g.aliases n
decreasing_by exact g.aliases_lt _hkind _htarget

/-- `scalar`, of a node. -/
def scalar (n : ν) : String :=
  let n := g.deref n
  if g.kind n ≠ .scalar ∨ g.tag n = "!!null" then ""
  else if g.tag n = "!!binary" then (g.decodeString (g.value n)).getD ""
  else g.value n

/-- `isMergeKey`. -/
def isMergeKey (k : ν) : Bool := g.kind k = .scalar ∧ g.tag k = "!!merge" ∧ g.value k = "<<"

/-- The keys and values of a mapping's content; a last key without a value is passed over. -/
def pairs : List ν → List (ν × ν)
  | k :: v :: rest => (k, v) :: pairs rest
  | _ => []

/-- The entries that `lookup` goes through. -/
def entries (m : ν) : List (ν × ν) := pairs (g.content m)

end MergeGraph

/-! ## Lookups -/

/-- `hit`: a mapping's entry, or none. -/
structure Hit (ν : Type*) where
  /-- The key it was found at. -/
  key : Option ν := none
  /-- Its value, none when nothing was found. -/
  value : Option ν := none
  /-- A merge key brought it in. -/
  merged : Bool := false
deriving DecidableEq

/-- Why a merge key cannot be followed. -/
inductive MergeError
  /-- A merge key's sequence holds something other than mappings. -/
  | item
  /-- A merge key's value is neither a mapping nor a sequence of mappings. -/
  | value
deriving DecidableEq

/-- `memo`: what lookups through merge keys found. -/
abbrev MergeMemo (ν : Type*) := ν × String → Option (Hit ν)

/-- How a lookup ends: out of fuel, with an error, or with what it found and what is remembered. -/
abbrev LookupRun (ν : Type*) := Option (Except MergeError (Hit ν × MergeMemo ν))

/-- Goes on with what a run found. -/
def LookupRun.andThen {ν : Type*} (r : LookupRun ν) (f : Hit ν → MergeMemo ν → LookupRun ν) : LookupRun ν :=
  match r with
  | some (.ok (h, memo)) => f h memo
  | some (.error e) => some (.error e)
  | none => none

/-- What the entries before and one that has been found leave. -/
def Hit.orElse {ν : Type*} (later earlier : Hit ν) : Hit ν := if later.value.isSome then later else earlier

/-- What a merge key brings in. -/
def Hit.viaMerge {ν : Type*} (h : Hit ν) : Hit ν := if h.value.isSome then ⟨h.key, h.value, true⟩ else {}

namespace MergeGraph

variable {ν : Type*} (g : MergeGraph ν) (name : String)

/-- The loop of `lookup`, with `merge` for the values of merge keys. -/
def lookupEntries (merge : ν → MergeMemo ν → LookupRun ν) : List (ν × ν) → Hit ν → MergeMemo ν → LookupRun ν
  | [], h, memo => some (.ok (h, memo))
  | (k, v) :: rest, h, memo =>
    if g.isMergeKey k then
      (merge v memo).andThen fun mh memo => lookupEntries merge rest (mh.viaMerge.orElse h) memo
    else lookupEntries merge rest (if g.scalar k = name then ⟨some k, some v, false⟩ else h) memo

/-- The loop of `merge` over a sequence, from its last node to its first. -/
def mergeItems (merge : ν → MergeMemo ν → LookupRun ν) : List ν → Hit ν → MergeMemo ν → LookupRun ν
  | [], h, memo => some (.ok (h, memo))
  | c :: rest, h, memo =>
    if g.kind (g.deref c) ≠ .mapping then some (.error .item)
    else (merge c memo).andThen fun eh memo => mergeItems merge rest (eh.orElse h) memo

variable [DecidableEq ν]

/-- `merge`: what the value of a merge key has for a name. -/
def merge : ℕ → ν → MergeMemo ν → LookupRun ν
  | 0, _, _ => none
  | fuel + 1, v, memo =>
    let v := g.deref v
    match memo (v, name) with
    | some h => some (.ok (h, memo))
    | none =>
      -- a merge cycle resolves to nothing
      let memo := Function.update memo (v, name) (some {})
      LookupRun.andThen
        (match g.kind v with
        | .mapping => lookupEntries g name (merge fuel) (g.entries v) {} memo
        | .sequence => mergeItems g (merge fuel) (g.content v).reverse {} memo
        | .document | .scalar | .alias => some (.error .value))
        fun h memo => some (.ok (h, Function.update memo (v, name) (some h)))

/-- `lookup`: a mapping's entry of a name. -/
def lookup (fuel : ℕ) (m : ν) (memo : MergeMemo ν) : LookupRun ν :=
  lookupEntries g name (merge g name fuel) (g.entries m) {} memo

end MergeGraph

/-! ## The rule -/

/-- The last of some entries that has a value. -/
def lastFound {ν : Type*} (rs : List (Hit ν)) : Hit ν := (rs.reverse.find? (·.value.isSome)).getD {}

/-- The first of some entries that has a value. -/
def firstFound {ν : Type*} (rs : List (Hit ν)) : Hit ν := (rs.find? (·.value.isSome)).getD {}

namespace MergeGraph

variable {ν : Type*} (g : MergeGraph ν) (name : String)

mutual

/-- The entry of a name that a mapping has: its entries apply in order, and the last wins. -/
inductive Looked : ν → Hit ν → Prop
  | intro {m : ν} {rs : List (Hit ν)} : (g.entries m).length = rs.length →
      (∀ p ∈ (g.entries m).zip rs, Applied p.1 p.2) → Looked m (lastFound rs)

/-- What one entry of a mapping applies: itself when it has the name, what it brings in when it is a merge key. -/
inductive Applied : ν × ν → Hit ν → Prop
  | own {e : ν × ν} : g.isMergeKey e.1 = false → g.scalar e.1 = name → Applied e ⟨some e.1, some e.2, false⟩
  | other {e : ν × ν} : g.isMergeKey e.1 = false → g.scalar e.1 ≠ name → Applied e {}
  | merged {e : ν × ν} {h : Hit ν} : g.isMergeKey e.1 = true → Merged (g.deref e.2) h → Applied e h.viaMerge

/-- What the value of a merge key has: a mapping its entry, a sequence of mappings that of the earliest with one. -/
inductive Merged : ν → Hit ν → Prop
  | mapping {v : ν} {h : Hit ν} : g.kind v = .mapping → Looked v h → Merged v h
  | sequence {v : ν} {rs : List (Hit ν)} : g.kind v = .sequence → (g.content v).length = rs.length →
      (∀ p ∈ (g.content v).zip rs, g.kind (g.deref p.1) = .mapping) →
      (∀ p ∈ (g.content v).zip rs, Merged (g.deref p.1) p.2) → Merged v (firstFound rs)

end

/-- The values of a mapping's merge keys, through aliases. -/
def Merges (m v : ν) : Prop := ∃ e ∈ g.entries m, g.isMergeKey e.1 = true ∧ g.deref e.2 = v

/-- The merge values that a merge value leads to. -/
def MergeStep (v w : ν) : Prop :=
  g.kind v = .mapping ∧ g.Merges v w ∨ g.kind v = .sequence ∧ ∃ c ∈ g.content v, g.deref c = w

/-- Neither a mapping nor a sequence of mappings. -/
def Unmergeable (v : ν) : Prop :=
  g.kind v ≠ .mapping ∧ (g.kind v = .sequence → ∃ c ∈ g.content v, g.kind (g.deref c) ≠ .mapping)

instance [DecidableEq ν] (m v : ν) : Decidable (g.Merges m v) :=
  inferInstanceAs (Decidable (∃ e ∈ g.entries m, g.isMergeKey e.1 = true ∧ g.deref e.2 = v))

instance [DecidableEq ν] (v w : ν) : Decidable (g.MergeStep v w) :=
  inferInstanceAs (Decidable (_ ∧ _ ∨ _ ∧ ∃ c ∈ g.content v, g.deref c = w))

/-- No merge value that this one leads to leads back to itself. -/
def Acyclic (v : ν) : Prop := ∀ w, Relation.ReflTransGen g.MergeStep v w → ¬Relation.TransGen g.MergeStep w w

/-- A value that this one leads to cannot be merged. -/
def Fails (v : ν) : Prop := ∃ w, Relation.ReflTransGen g.MergeStep v w ∧ g.Unmergeable w

variable {g name} {m v w : ν} {h h' : Hit ν}

theorem Acyclic.step (ha : g.Acyclic v) (hstep : g.MergeStep v w) : g.Acyclic w :=
  fun x hx => ha x (.head hstep hx)

theorem Fails.step (hf : g.Fails w) (hstep : g.MergeStep v w) : g.Fails v := by
  obtain ⟨x, hx, hbad⟩ := hf
  exact ⟨x, .head hstep hx, hbad⟩

/-- What a mapping's merge keys name is merged. -/
theorem Looked.merged (hl : g.Looked name m h) (hv : g.Merges m v) : ∃ h', g.Merged name v h' := by
  obtain ⟨e, he, hkey, rfl⟩ := hv
  obtain ⟨hlen, hall⟩ := hl
  obtain ⟨r, hr⟩ := exists_mem_zip hlen he
  have happlied : g.Applied name e r := hall _ hr
  cases happlied with
  | own hkey' => simp [hkey] at hkey'
  | other hkey' => simp [hkey] at hkey'
  | merged _ hm => exact ⟨_, hm⟩

/-- What a merged value leads to is merged too. -/
theorem Merged.step (hm : g.Merged name v h) (hstep : g.MergeStep v w) : ∃ h', g.Merged name w h' := by
  obtain ⟨hk, hw⟩ | ⟨hk, c, hc, rfl⟩ := hstep
  · cases hm with
    | sequence hk' => simp [hk] at hk'
    | mapping _ hl => exact hl.merged hw
  · cases hm with
    | mapping hk' => simp [hk] at hk'
    | sequence _ hlen _ hall =>
      obtain ⟨r, hr⟩ := exists_mem_zip hlen hc
      exact ⟨r, hall _ hr⟩

/-- Nothing that a merged value leads to is unmergeable. -/
theorem Merged.not_fails (hm : g.Merged name v h) : ¬g.Fails v := by
  have hmerged : ∀ w, Relation.ReflTransGen g.MergeStep v w → ∃ h', g.Merged name w h' := by
    intro w hw
    induction hw with
    | refl => exact ⟨h, hm⟩
    | tail _ hstep ih =>
      obtain ⟨h', hm'⟩ := ih
      exact hm'.step hstep
  rintro ⟨w, hw, hk, hseq⟩
  obtain ⟨h', hm'⟩ := hmerged w hw
  cases hm' with
  | mapping hk' => exact hk hk'
  | sequence hk' hlen hall =>
    obtain ⟨c, hc, hnot⟩ := hseq hk'
    obtain ⟨r, hr⟩ := exists_mem_zip hlen hc
    exact hnot (hall _ hr)

/-- The entries of a mapping apply one thing each, where what its merge keys bring in is unique. -/
theorem Looked.unique_of (huniq : ∀ v, g.Merges m v → ∀ h h', g.Merged name v h → g.Merged name v h' → h = h')
    (hl : g.Looked name m h) (hl' : g.Looked name m h') : h = h' := by
  obtain ⟨hlen, hall⟩ := hl
  obtain ⟨hlen', hall'⟩ := hl'
  refine congrArg lastFound (eq_of_zip hlen hlen' fun e r r' hr hr' => ?_)
  have he : e ∈ g.entries m := (List.of_mem_zip hr).1
  have happlied : g.Applied name e r := hall _ hr
  have happlied' : g.Applied name e r' := hall' _ hr'
  cases happlied with
  | own hkey hname =>
    cases happlied' with
    | own => rfl
    | other _ hname' => exact absurd hname hname'
    | merged hkey' => simp [hkey] at hkey'
  | other hkey hname =>
    cases happlied' with
    | own _ hname' => exact absurd hname' hname
    | other => rfl
    | merged hkey' => simp [hkey] at hkey'
  | merged hkey hm =>
    cases happlied' with
    | own hkey' => simp [hkey] at hkey'
    | other hkey' => simp [hkey] at hkey'
    | merged _ hm' => rw [huniq _ ⟨e, he, hkey, rfl⟩ _ _ hm hm']

/-- Without a cycle the rule gives one entry. -/
theorem Acyclic.unique [Finite ν] (ha : g.Acyclic v) : ∀ h h', g.Merged name v h → g.Merged name v h' → h = h' := by
  induction acc_of_acyclic ha with
  | intro v _ ih =>
    intro h h' hm hm'
    cases hm with
    | mapping hk hl =>
      cases hm' with
      | sequence hk' => simp [hk] at hk'
      | mapping _ hl' =>
        refine hl.unique_of (fun w hw => ?_) hl'
        have hstep : g.MergeStep v w := .inl ⟨hk, hw⟩
        exact ih w hstep (ha.step hstep)
    | sequence hk hlen _ hall =>
      cases hm' with
      | mapping hk' => simp [hk] at hk'
      | sequence _ hlen' _ hall' =>
        refine congrArg firstFound (eq_of_zip hlen hlen' fun c r r' hr hr' => ?_)
        have hstep : g.MergeStep v (g.deref c) := .inr ⟨hk, c, (List.of_mem_zip hr).1, rfl⟩
        exact ih _ hstep (ha.step hstep) _ _ (hall _ hr) (hall' _ hr')

end MergeGraph

/-! ## Runs -/

section

variable {ν : Type*}

/-- A run ends, with something found or in failure. -/
def LookupRun.Ends (r : LookupRun ν) (found : Hit ν → MergeMemo ν → Prop) (failed : Prop) : Prop :=
  match r with
  | some (.ok (h, memo)) => found h memo
  | some (.error _) => failed
  | none => False

variable {r : LookupRun ν} {found found' : Hit ν → MergeMemo ν → Prop} {failed failed' : Prop}

theorem LookupRun.Ends.andThen {f : Hit ν → MergeMemo ν → LookupRun ν} (hr : r.Ends found failed)
    (hf : ∀ h memo, found h memo → (f h memo).Ends found' failed') (hfail : failed → failed') :
    (r.andThen f).Ends found' failed' := by
  match r with
  | some (.ok (h, memo)) => exact hf h memo hr
  | some (.error e) => exact hfail hr

theorem LookupRun.Ends.imp (hr : r.Ends found failed) (hfound : ∀ h memo, found h memo → found' h memo)
    (hfail : failed → failed') : r.Ends found' failed' := by
  match r with
  | some (.ok (h, memo)) => exact hfound h memo hr
  | some (.error e) => exact hfail hr

end

namespace MergeGraph

variable {ν : Type*} (g : MergeGraph ν) (name : String)

/-- Every entry of the memo is what the rule gives, where there is no cycle, or belongs to a node that is being
looked up. -/
def Remembers («open» : Set ν) (memo : MergeMemo ν) : Prop :=
  ∀ v n h, memo (v, n) = some h → n = name ∧ v ∈ «open» ∨ (g.Acyclic v → g.Merged n v h)

/-- The nodes that nothing is remembered of under a name. -/
def unset [Fintype ν] (memo : MergeMemo ν) : ℕ := (Finset.univ.filter fun v => (memo (v, name)).isNone).card

/-- What a merge value was found to have is what the rule gives. -/
def FoundAt [Fintype ν] («open» : Set ν) (memo : MergeMemo ν) (v : ν) (h : Hit ν) (memo' : MergeMemo ν) : Prop :=
  g.Remembers name «open» memo' ∧ unset name memo' ≤ unset name memo ∧ (g.Acyclic v → g.Merged name v h)

variable {g name} {v : ν} {h : Hit ν} {memo : MergeMemo ν} {«open» : Set ν} {u : ℕ}

theorem unset_le_card [Fintype ν] : unset name memo ≤ Fintype.card ν := Finset.card_le_univ _

theorem unset_update_le [Fintype ν] [DecidableEq ν] : unset name (Function.update memo (v, name) (some h)) ≤ unset name memo := by
  refine Finset.card_le_card fun w hw => ?_
  simp only [Finset.mem_filter, Finset.mem_univ, true_and, Function.update_apply] at hw ⊢
  split_ifs at hw with heq
  · simp at hw
  · exact hw

theorem unset_update_lt [Fintype ν] [DecidableEq ν] (hv : memo (v, name) = none) :
    unset name (Function.update memo (v, name) (some h)) < unset name memo := by
  refine Finset.card_lt_card ((Finset.ssubset_iff_of_subset fun w hw => ?_).mpr ⟨v, by simp [hv], by simp⟩)
  simp only [Finset.mem_filter, Finset.mem_univ, true_and, Function.update_apply] at hw ⊢
  split_ifs at hw with heq
  · simp at hw
  · exact hw

/-- One more entry at the front comes before what the others leave. -/
theorem find?_reverse_cons (r : Hit ν) (rs : List (Hit ν)) (h : Hit ν) :
    ((r :: rs).reverse.find? (·.value.isSome)).getD h = (rs.reverse.find? (·.value.isSome)).getD (r.orElse h) := by
  rw [List.reverse_cons, List.find?_append]
  cases hfind : rs.reverse.find? (·.value.isSome) with
  | some h' => rfl
  | none =>
    unfold Hit.orElse
    cases hr : r.value.isSome <;> simp [hr]

/-- What the elements of a list give, one after the other, leaves of an entry: the last that is found. -/
def Leaves {α : Type*} (A : α → Hit ν → Prop) (as : List α) (h h' : Hit ν) : Prop :=
  ∃ rs : List (Hit ν), as.length = rs.length ∧ (∀ p ∈ as.zip rs, A p.1 p.2) ∧
    h' = (rs.reverse.find? (·.value.isSome)).getD h

theorem Leaves.nil {α : Type*} {A : α → Hit ν → Prop} : Leaves A [] h h := ⟨[], rfl, by simp, rfl⟩

theorem Leaves.cons {α : Type*} {A : α → Hit ν → Prop} {a : α} {as : List α} {r h' : Hit ν} (ha : A a r)
    (has : Leaves A as (r.orElse h) h') : Leaves A (a :: as) h h' := by
  obtain ⟨rs, hlen, hall, rfl⟩ := has
  refine ⟨r :: rs, by simp [hlen], fun p hp => ?_, (find?_reverse_cons r rs h).symm⟩
  obtain rfl | hp := List.mem_cons.mp hp
  · exact ha
  · exact hall p hp

/-- What the entries of a mapping apply, from left to right. -/
theorem lookupEntries_ends [Fintype ν] {F : ν → MergeMemo ν → LookupRun ν} {es : List (ν × ν)}
    (hF : ∀ e ∈ es, g.isMergeKey e.1 = true → ∀ memo, unset name memo ≤ u → g.Remembers name «open» memo →
      (F e.2 memo).Ends (g.FoundAt name «open» memo (g.deref e.2)) (g.Fails (g.deref e.2))) :
    ∀ h memo, unset name memo ≤ u → g.Remembers name «open» memo →
      (lookupEntries g name F es h memo).Ends
        (fun h' memo' => g.Remembers name «open» memo' ∧ unset name memo' ≤ unset name memo ∧
          ((∀ e ∈ es, g.isMergeKey e.1 = true → g.Acyclic (g.deref e.2)) → Leaves (g.Applied name) es h h'))
        (∃ e ∈ es, g.isMergeKey e.1 = true ∧ g.Fails (g.deref e.2)) := by
  induction es with
  | nil =>
    intro h memo _ hmemo
    exact ⟨hmemo, le_rfl, fun _ => .nil⟩
  | cons e es ih =>
    intro h memo hu hmemo
    obtain ⟨k, v⟩ := e
    -- what the first entry applies, and what is remembered then
    have hrest : ∀ {r : Hit ν} {memo' : MergeMemo ν}, unset name memo' ≤ unset name memo → g.Remembers name «open» memo' →
        ((g.isMergeKey k = true → g.Acyclic (g.deref v)) → g.Applied name (k, v) r) →
        (lookupEntries g name F es (r.orElse h) memo').Ends
          (fun h' memo' => g.Remembers name «open» memo' ∧ unset name memo' ≤ unset name memo ∧
            ((∀ e ∈ (k, v) :: es, g.isMergeKey e.1 = true → g.Acyclic (g.deref e.2)) →
              Leaves (g.Applied name) ((k, v) :: es) h h'))
          (∃ e ∈ (k, v) :: es, g.isMergeKey e.1 = true ∧ g.Fails (g.deref e.2)) := by
      intro r memo' hle hmemo' happlied
      refine (ih (fun e he => hF e (List.mem_cons_of_mem _ he)) _ memo' (hle.trans hu) hmemo').imp (fun h' memo'' => ?_) ?_
      · rintro ⟨hmemo'', hle', hleaves⟩
        refine ⟨hmemo'', hle'.trans hle, fun hacyclic => ?_⟩
        exact .cons (happlied (hacyclic (k, v) List.mem_cons_self))
          (hleaves fun e he => hacyclic e (List.mem_cons_of_mem _ he))
      · rintro ⟨e, he, hfail⟩
        exact ⟨e, List.mem_cons_of_mem _ he, hfail⟩
    rw [lookupEntries]
    split_ifs with hkey hname
    · refine (hF (k, v) List.mem_cons_self hkey memo hu hmemo).andThen (fun mh memo' hfound => ?_)
        fun hfail => ⟨(k, v), List.mem_cons_self, hkey, hfail⟩
      obtain ⟨hmemo', hle, hmerged⟩ := hfound
      exact hrest hle hmemo' fun hacyclic => .merged hkey (hmerged (hacyclic hkey))
    · exact hrest le_rfl hmemo fun _ => .own (by simpa using hkey) hname
    · exact hrest (r := {}) le_rfl hmemo fun _ => .other (by simpa using hkey) hname

/-- What the mappings of a sequence have, in the order of a list of them. -/
theorem mergeItems_ends [Fintype ν] {F : ν → MergeMemo ν → LookupRun ν} {cs : List ν}
    (hF : ∀ c ∈ cs, ∀ memo, unset name memo ≤ u → g.Remembers name «open» memo →
      (F c memo).Ends (g.FoundAt name «open» memo (g.deref c)) (g.Fails (g.deref c))) :
    ∀ h memo, unset name memo ≤ u → g.Remembers name «open» memo →
      (mergeItems g F cs h memo).Ends
        (fun h' memo' => g.Remembers name «open» memo' ∧ unset name memo' ≤ unset name memo ∧
          ((∀ c ∈ cs, g.Acyclic (g.deref c)) →
            Leaves (fun c r => g.kind (g.deref c) = .mapping ∧ g.Merged name (g.deref c) r) cs h h'))
        (∃ c ∈ cs, g.kind (g.deref c) ≠ .mapping ∨ g.Fails (g.deref c)) := by
  induction cs with
  | nil =>
    intro h memo _ hmemo
    exact ⟨hmemo, le_rfl, fun _ => .nil⟩
  | cons c cs ih =>
    intro h memo hu hmemo
    rw [mergeItems]
    split_ifs with hkind
    · exact ⟨c, List.mem_cons_self, .inl hkind⟩
    · refine (hF c List.mem_cons_self memo hu hmemo).andThen (fun eh memo' hfound => ?_)
        fun hfail => ⟨c, List.mem_cons_self, .inr hfail⟩
      obtain ⟨hmemo', hle, hmerged⟩ := hfound
      refine (ih (fun c hc => hF c (List.mem_cons_of_mem _ hc)) _ memo' (hle.trans hu) hmemo').imp (fun h' memo'' => ?_) ?_
      · rintro ⟨hmemo'', hle', hleaves⟩
        refine ⟨hmemo'', hle'.trans hle, fun hacyclic => ?_⟩
        exact .cons ⟨not_not.mp hkind, hmerged (hacyclic c List.mem_cons_self)⟩
          (hleaves fun c hc => hacyclic c (List.mem_cons_of_mem _ hc))
      · rintro ⟨c, hc, hfail⟩
        exact ⟨c, List.mem_cons_of_mem _ hc, hfail⟩

theorem Leaves.looked {m : ν} (hl : Leaves (g.Applied name) (g.entries m) {} h) : g.Looked name m h := by
  obtain ⟨rs, hlen, hall, rfl⟩ := hl
  exact .intro hlen hall

/-- Read from the last mapping to the first, the earliest with an entry wins. -/
theorem Leaves.merged (hkind : g.kind v = .sequence)
    (hl : Leaves (fun c r => g.kind (g.deref c) = .mapping ∧ g.Merged name (g.deref c) r) (g.content v).reverse {} h) :
    g.Merged name v h := by
  obtain ⟨rs, hlen, hall, rfl⟩ := hl
  have hlen' : (g.content v).length = rs.reverse.length := by simpa using hlen
  have hzip : ∀ p ∈ (g.content v).zip rs.reverse, p ∈ (g.content v).reverse.zip rs := by
    intro p hp
    rw [← List.mem_reverse, List.zip_eq_zipWith, List.reverse_zipWith hlen', List.reverse_reverse] at hp
    exact hp
  exact .sequence hkind hlen' (fun p hp => (hall p (hzip p hp)).1) fun p hp => (hall p (hzip p hp)).2

variable [DecidableEq ν]

/-- A node that is being looked up is remembered as having no entry. -/
theorem Remembers.opening (hmemo : g.Remembers name «open» memo) :
    g.Remembers name (insert v «open») (Function.update memo (v, name) (some {})) := by
  intro w n h hw
  by_cases heq : (w, n) = (v, name)
  · obtain ⟨rfl, rfl⟩ := Prod.mk.inj heq
    exact .inl ⟨rfl, Set.mem_insert _ _⟩
  · rw [Function.update_of_ne heq] at hw
    exact (hmemo w n h hw).imp_left fun hopen => ⟨hopen.1, Set.mem_insert_of_mem _ hopen.2⟩

/-- A value that has been looked up is remembered with its entry. -/
theorem Remembers.closing (hmemo : g.Remembers name (insert v «open») memo) (hv : g.Acyclic v → g.Merged name v h) :
    g.Remembers name «open» (Function.update memo (v, name) (some h)) := by
  intro w n h' hw
  by_cases heq : (w, n) = (v, name)
  · obtain ⟨rfl, rfl⟩ := Prod.mk.inj heq
    rw [Function.update_self] at hw
    exact .inr fun ha => Option.some.inj hw ▸ hv ha
  · rw [Function.update_of_ne heq] at hw
    obtain ⟨rfl, hopen⟩ | hmerged := hmemo w n h' hw
    · obtain rfl | hopen := hopen
      · exact absurd rfl heq
      · exact .inl ⟨rfl, hopen⟩
    · exact .inr hmerged

variable [Fintype ν]

/-- With more fuel than nodes that nothing is remembered of, a merge ends, with what the rule gives where there is no
cycle. The open nodes lead to the one that is merged: where one is met again, there is a cycle. -/
theorem merge_ends {fuel : ℕ} (hfuel : unset name memo < fuel) (hmemo : g.Remembers name «open» memo)
    (hopen : ∀ o ∈ «open», Relation.TransGen g.MergeStep o (g.deref v)) :
    (merge g name fuel v memo).Ends (g.FoundAt name «open» memo (g.deref v)) (g.Fails (g.deref v)) := by
  induction fuel generalizing v memo «open» with
  | zero => exact absurd hfuel (Nat.not_lt_zero _)
  | succ fuel ih =>
    rw [merge]
    generalize g.deref v = v at hopen ⊢
    dsimp only
    cases hv : memo (v, name) with
    | some h =>
      refine ⟨hmemo, le_rfl, fun ha => ?_⟩
      obtain ⟨-, hmem⟩ | hmerged := hmemo v name h hv
      · exact absurd (hopen v hmem) (ha v .refl)
      · exact hmerged ha
    | none =>
      have hlt := unset_update_lt (h := {}) hv
      have hnext : ∀ w, g.MergeStep v (g.deref w) → ∀ memo',
          unset name memo' ≤ unset name (Function.update memo (v, name) (some {})) →
          g.Remembers name (insert v «open») memo' →
          (merge g name fuel w memo').Ends (g.FoundAt name (insert v «open») memo' (g.deref w)) (g.Fails (g.deref w)) := by
        intro w hstep memo' hle hmemo'
        refine ih (by omega) hmemo' fun o ho => ?_
        obtain rfl | ho := ho
        · exact .single hstep
        · exact (hopen o ho).tail hstep
      have hopening : g.Remembers name (insert v «open») (Function.update memo (v, name) (some {})) := hmemo.opening
      -- what is found at this node is remembered in the place of nothing
      have hclose : ∀ h memo', g.Remembers name (insert v «open») memo' →
          unset name memo' ≤ unset name (Function.update memo (v, name) (some {})) → (g.Acyclic v → g.Merged name v h) →
          LookupRun.Ends (some (.ok (h, Function.update memo' (v, name) (some h))))
            (g.FoundAt name «open» memo v) (g.Fails v) := by
        intro h memo' hmemo' hle hmerged
        refine ⟨hmemo'.closing hmerged, ?_, hmerged⟩
        exact unset_update_le.trans (hle.trans hlt.le)
      cases hkind : g.kind v with
      | mapping =>
        have hstep : ∀ e ∈ g.entries v, g.isMergeKey e.1 = true → g.MergeStep v (g.deref e.2) :=
          fun e he hkey => .inl ⟨hkind, e, he, hkey, rfl⟩
        refine (lookupEntries_ends (fun e he hkey => hnext e.2 (hstep e he hkey)) {} _ le_rfl hopening).andThen ?_ ?_
        · rintro h memo' ⟨hmemo', hle, hleaves⟩
          refine hclose h memo' hmemo' hle fun ha => .mapping hkind (hleaves fun e he hkey => ?_).looked
          exact ha.step (hstep e he hkey)
        · rintro ⟨e, he, hkey, hfail⟩
          exact hfail.step (hstep e he hkey)
      | sequence =>
        have hstep : ∀ c ∈ (g.content v).reverse, g.MergeStep v (g.deref c) :=
          fun c hc => .inr ⟨hkind, c, List.mem_reverse.mp hc, rfl⟩
        refine (mergeItems_ends (fun c hc => hnext c (hstep c hc)) {} _ le_rfl hopening).andThen ?_ ?_
        · rintro h memo' ⟨hmemo', hle, hleaves⟩
          exact hclose h memo' hmemo' hle fun ha => (hleaves fun c hc => ha.step (hstep c hc)).merged hkind
        · rintro ⟨c, hc, hitem | hfail⟩
          · exact ⟨v, .refl, by simp [hkind], fun _ => ⟨c, List.mem_reverse.mp hc, hitem⟩⟩
          · exact hfail.step (hstep c hc)
      | document => exact ⟨v, .refl, by simp [hkind], by simp [hkind]⟩
      | scalar => exact ⟨v, .refl, by simp [hkind], by simp [hkind]⟩
      | «alias» => exact ⟨v, .refl, by simp [hkind], by simp [hkind]⟩

/-- The lookup of a key in a mapping ends. -/
theorem lookup_ends {fuel : ℕ} (hfuel : Fintype.card ν < fuel) (hmemo : g.Remembers name ∅ memo) (m : ν) :
    (lookup g name fuel m memo).Ends
      (fun h memo' => g.Remembers name ∅ memo' ∧ ((∀ v, g.Merges m v → g.Acyclic v) → g.Looked name m h))
      (∃ v, g.Merges m v ∧ g.Fails v) := by
  have hnext : ∀ e ∈ g.entries m, g.isMergeKey e.1 = true → ∀ memo', unset name memo' ≤ Fintype.card ν →
      g.Remembers name ∅ memo' →
      (merge g name fuel e.2 memo').Ends (g.FoundAt name ∅ memo' (g.deref e.2)) (g.Fails (g.deref e.2)) :=
    fun e _ _ memo' hle hmemo' => merge_ends (by omega) hmemo' fun o ho => absurd ho (Set.notMem_empty o)
  refine (lookupEntries_ends hnext {} memo unset_le_card hmemo).imp ?_ ?_
  · rintro h memo' ⟨hmemo', -, hleaves⟩
    exact ⟨hmemo', fun ha => (hleaves fun e he hkey => ha _ ⟨e, he, hkey, rfl⟩).looked⟩
  · rintro ⟨e, he, hkey, hfail⟩
    exact ⟨_, ⟨e, he, hkey, rfl⟩, hfail⟩

/-! ## More fuel -/

omit [DecidableEq ν] [Fintype ν] in
theorem andThen_mono {r r' : LookupRun ν} {f f' : Hit ν → MergeMemo ν → LookupRun ν} (hr : ∀ x, r = some x → r' = some x)
    (hf : ∀ h memo x, f h memo = some x → f' h memo = some x) (x : Except MergeError (Hit ν × MergeMemo ν))
    (hx : r.andThen f = some x) : r'.andThen f' = some x := by
  match r with
  | some (.ok (h, memo)) =>
    rw [hr _ rfl]
    exact hf h memo x hx
  | some (.error e) =>
    rw [hr _ rfl]
    exact hx

section

variable {F F' : ν → MergeMemo ν → LookupRun ν} (hF : ∀ v memo x, F v memo = some x → F' v memo = some x)

include hF

omit [DecidableEq ν] [Fintype ν] in
theorem lookupEntries_mono (es : List (ν × ν)) : ∀ h memo x, lookupEntries g name F es h memo = some x →
    lookupEntries g name F' es h memo = some x := by
  induction es with
  | nil => exact fun h memo x hx => hx
  | cons e es ih =>
    intro h memo x hx
    rw [lookupEntries] at hx ⊢
    split_ifs at hx ⊢
    · exact andThen_mono (hF _ _) (fun _ _ => ih _ _) x hx
    · exact ih _ _ x hx
    · exact ih _ _ x hx

omit [DecidableEq ν] [Fintype ν] in
theorem mergeItems_mono (cs : List ν) : ∀ h memo x, mergeItems g F cs h memo = some x →
    mergeItems g F' cs h memo = some x := by
  induction cs with
  | nil => exact fun h memo x hx => hx
  | cons c cs ih =>
    intro h memo x hx
    rw [mergeItems] at hx ⊢
    split_ifs at hx ⊢
    · exact hx
    · exact andThen_mono (hF _ _) (fun _ _ => ih _ _) x hx

end

omit [Fintype ν] in
/-- A merge that ends does so the same way with more fuel. -/
theorem merge_mono {fuel fuel' : ℕ} (hle : fuel ≤ fuel') :
    ∀ v memo x, merge g name fuel v memo = some x → merge g name fuel' v memo = some x := by
  induction fuel generalizing fuel' with
  | zero =>
    intro v memo x hx
    cases hx
  | succ fuel ih =>
    intro v memo x hx
    obtain ⟨fuel', rfl⟩ := Nat.exists_eq_succ_of_ne_zero (show fuel' ≠ 0 by omega)
    have hF : ∀ v memo x, merge g name fuel v memo = some x → merge g name fuel' v memo = some x := ih (by omega)
    rw [merge] at hx ⊢
    dsimp only at hx ⊢
    cases hv : memo (g.deref v, name) with
    | some h =>
      rw [hv] at hx
      exact hx
    | none =>
      rw [hv] at hx
      -- What was remembered does not depend on the fuel. What is looked up does, through the merges below.
      refine andThen_mono (fun x hx => ?_) (fun _ _ _ hx => hx) x hx
      cases hkind : g.kind (g.deref v) with
      | mapping =>
        rw [hkind] at hx
        exact lookupEntries_mono hF _ _ _ x hx
      | sequence =>
        rw [hkind] at hx
        exact mergeItems_mono hF _ _ _ x hx
      | document | scalar | «alias» =>
        rw [hkind] at hx
        exact hx

omit [Fintype ν] in
theorem lookup_mono {fuel fuel' : ℕ} (hle : fuel ≤ fuel') {m : ν} {x : Except MergeError (Hit ν × MergeMemo ν)}
    (hx : lookup g name fuel m memo = some x) : lookup g name fuel' m memo = some x :=
  lookupEntries_mono (merge_mono hle) _ _ _ x hx

/-! ## A reader's lookups -/

variable (g) in
/-- What a reader's lookups leave remembered, while none has failed. -/
inductive Reader : MergeMemo ν → Prop
  | start : Reader fun _ => none
  | next {fuel : ℕ} {m : ν} {name : String} {h : Hit ν} {memo memo' : MergeMemo ν} : Reader memo →
      lookup g name fuel m memo = some (.ok (h, memo')) → Reader memo'

theorem Reader.remembers (hr : g.Reader memo) : ∀ name, g.Remembers name ∅ memo := by
  induction hr with
  | start =>
    intro name v n h hv
    cases hv
  | @next fuel m name h memo memo' _ hrun ih =>
    have hfuel : Fintype.card ν < max fuel (Fintype.card ν + 1) := by omega
    have hends := lookup_ends hfuel (ih name) m
    rw [lookup_mono (le_max_left _ _) hrun] at hends
    intro name' v n h hv
    obtain ⟨-, hmem⟩ | hmerged := hends.1 v n h hv
    · exact absurd hmem (Set.notMem_empty v)
    · exact .inr hmerged

/-- Merge-key lookup ends and is right: after any lookups that a reader made before, on any graph, every amount of
fuel above the number of nodes gives the same end. Where no merge value of the mapping leads to a cycle, what is
found is the one entry the rule gives, and the lookup fails exactly when a merge value that is reached is neither a
mapping nor a sequence of mappings. -/
theorem lookup_resolves (g : MergeGraph ν) (name : String) (m : ν) (hreader : g.Reader memo) :
    ∃ r, (∀ fuel, Fintype.card ν < fuel → lookup g name fuel m memo = some r) ∧
      ((∀ v, g.Merges m v → g.Acyclic v) →
        (∀ h memo', r = .ok (h, memo') → g.Looked name m h ∧ ∀ h', g.Looked name m h' → h' = h) ∧
        ((∃ e, r = .error e) ↔ ∃ v w, g.Merges m v ∧ Relation.ReflTransGen g.MergeStep v w ∧ g.Unmergeable w)) := by
  have hends := lookup_ends (Nat.lt_succ_self (Fintype.card ν)) (hreader.remembers name) m
  cases hrun : lookup g name (Fintype.card ν + 1) m memo with
  | none =>
    rw [hrun] at hends
    exact hends.elim
  | some r =>
    rw [hrun] at hends
    refine ⟨r, fun fuel hfuel => lookup_mono hfuel hrun, fun hacyclic => ?_⟩
    -- A lookup that failed names what it failed on, and one that found something found the only entry there is.
    cases r with
    | error e =>
      obtain ⟨v, hv, w, hw, hbad⟩ := hends
      refine ⟨fun h memo' h => ?_, fun _ => ⟨v, w, hv, hw, hbad⟩, fun _ => ⟨e, rfl⟩⟩
      cases h
    | ok p =>
      obtain ⟨h, memo'⟩ := p
      have hlooked := hends.2 hacyclic
      refine ⟨?_, ?_, ?_⟩
      · rintro h' memo'' ⟨⟩
        refine ⟨hlooked, fun h' hlooked' => ?_⟩
        exact hlooked'.unique_of (fun v hv => (hacyclic v hv).unique) hlooked
      · rintro ⟨e, he⟩
        cases he
      · rintro ⟨v, w, hv, hw, hbad⟩
        obtain ⟨h', hm⟩ := hlooked.merged hv
        exact absurd ⟨w, hw, hbad⟩ hm.not_fails

/-- The nodes of a mapping that merges `&base {x: one}` and has an entry `y: two`. -/
def based : MergeGraph (Fin 8) where
  kind := ![.mapping, .scalar, .alias, .scalar, .scalar, .mapping, .scalar, .scalar]
  tag := !["", "!!merge", "", "!!str", "!!str", "!!map", "!!str", "!!str"]
  value := !["", "<<", "base", "y", "two", "", "x", "one"]
  anchor := !["", "", "", "", "", "base", "", ""]
  «alias» := ![none, none, some 5, none, none, none, none, none]
  content := ![[1, 2, 3, 4], [], [], [], [], [6, 7], [], []]
  line := ![2, 2, 2, 3, 3, 1, 1, 1]
  aliases := ![0, 0, 1, 0, 0, 0, 0, 0]
  aliases_lt := by decide
  decodeString := some

/-- In a mapping with a base, the merge key brings `x` in. -/
theorem lookup_resolves_based : based.Looked "x" 0 ⟨some 6, some 7, true⟩ := by
  have hfound : (lookup based "x" 9 0 fun _ => none).map (·.map Prod.fst) = some (.ok ⟨some 6, some 7, true⟩) := by
    decide +kernel
  have hmerges : ∀ v, based.Merges 0 v → v = 5 := by decide +kernel
  have hstep : ∀ w, ¬based.MergeStep 5 w := by decide +kernel
  have hacyclic : ∀ v, based.Merges 0 v → based.Acyclic v := by
    intro v hv w hw
    obtain rfl := hmerges v hv
    obtain rfl | ⟨x, hx, -⟩ := hw.cases_head
    · intro hcycle
      obtain ⟨x, hx, -⟩ := Relation.TransGen.head'_iff.mp hcycle
      exact hstep x hx
    · exact absurd hx (hstep x)
  obtain ⟨r, hr, hresolves⟩ := lookup_resolves based "x" 0 .start
  rw [hr 9 (by decide)] at hfound
  cases r with
  | error e => cases hfound
  | ok p =>
    obtain ⟨h, memo'⟩ := p
    obtain rfl : h = ⟨some 6, some 7, true⟩ := Except.ok.inj (Option.some.inj hfound)
    exact ((hresolves hacyclic).1 _ _ rfl).1

end MergeGraph

end UpgradeScope
