import Mathlib.Data.List.DropRight
import UpgradeScope.Mcp.OutsideText

/-!
# What cutting the outside text keeps

The walker of `internal/mcp/clustertext.go` over any document. `Marks` says what a copy is: values as they were, strings cut to
`maxClusterTextBytes`, arrays element by element, and objects member by member under names that fit and that are different
where the document's are (`NamesKept`). `outside_text_is_cut` says that the walker copies so, and that its counts are those of
the document. The names are followed through one object with `Written`, which relates the stack and the table to the members
copied so far; that the loop of `distinct` ends is `firstFree_isSome`: it tries one name more than can be taken.
-/

namespace UpgradeScope.Mcp

open Go

/-! ## Names that fit -/

/-- The bytes of two texts joined are the bytes of both. -/
theorem byteLen_append (s t : String) : byteLen (s ++ t) = byteLen s + byteLen t := String.utf8ByteSize_append ..

variable {o : ObjectNames} (s form : String) {written m : List (String × Bool)} {k : String} {n : ℕ}

/-- A cut text fits. -/
theorem byteLen_cutClusterText_le : byteLen (cutClusterText s) ≤ maxClusterTextBytes := by
  have hprefix := byteLen_utf8Prefix_le s (maxClusterTextBytes - byteLen clusterTextCutMark)
  have hmark : byteLen clusterTextCutMark ≤ maxClusterTextBytes := by decide
  rw [cutClusterText, byteLen_append]
  omega

/-- What is quoted fits. -/
theorem byteLen_quoteOutside_le : byteLen (quoteOutside s) ≤ maxClusterTextBytes := by
  unfold quoteOutside
  split_ifs with h
  · exact byteLen_cutClusterText_le s
  · exact not_lt.mp h

/-- A number of an `int` has at most twenty digits. -/
theorem byteLen_repr_le (hn : n < 10 ^ 20) : byteLen n.repr ≤ 20 := by
  have hone : ∀ c ∈ n.repr.toList, c.utf8Size = 1 := by
    intro c hc
    have hdigit : c.isDigit = true := by
      by_contra hnot
      exact notMem_natRepr (Bool.eq_false_iff.mpr hnot) hc
    rw [Char.utf8Size_eq_one_iff]
    simp only [Char.isDigit, Bool.and_eq_true, decide_eq_true_eq] at hdigit
    exact UInt32.le_trans hdigit.2 (by decide)
  have hlength : n.repr.toList.length ≤ 20 := (Nat.length_repr_le_iff (by decide)).mpr hn
  have hbytes := byteLen_ofList n.repr.toList
  rw [String.ofList_toList, List.map_congr_left hone, List.map_const', List.sum_replicate, smul_eq_mul, mul_one] at hbytes
  omega

/-- A numbered name fits. -/
theorem byteLen_numbered_le (hn : n < 10 ^ 20) : byteLen (numbered form n) ≤ maxClusterTextBytes := by
  have hdigits := byteLen_repr_le hn
  have hhash : byteLen (" #" ++ n.repr) = 2 + byteLen n.repr := by
    rw [byteLen_append]
    rfl
  have hmark : byteLen (if hasSuffix form clusterTextCutMark then clusterTextCutMark else "") ≤ 30 := by
    split_ifs <;> decide
  have hmax : maxClusterTextBytes = 2048 := rfl
  unfold numbered
  dsimp only
  generalize (if hasSuffix form clusterTextCutMark = true then clusterTextCutMark else "") = mark at hmark ⊢
  generalize (if hasSuffix form clusterTextCutMark = true then trimSuffix form clusterTextCutMark else form) = head
  rw [byteLen_append, byteLen_append]
  split_ifs with h
  · have hprefix := byteLen_utf8Prefix_le head (maxClusterTextBytes - byteLen mark - byteLen (" #" ++ n.repr))
    omega
  · omega

/-- The number of a numbered name can be read off it. -/
theorem numbered_injective {m n : ℕ} (h : numbered form m = numbered form n) : m = n := by
  -- Without the mark, what follows the last '#' is the number.
  have hlast : ∀ (head : String) (i : ℕ), (head ++ (" #" ++ i.repr)).toList.rtakeWhile (· ≠ '#') = i.repr.toList := by
    intro head i
    have hno : ∀ c ∈ i.repr.toList, decide (c ≠ '#') = true := by
      intro c hc
      refine decide_eq_true fun heq => ?_
      rw [heq] at hc
      exact notMem_natRepr (by decide) hc
    have htext : (head ++ (" #" ++ i.repr)).toList = (head.toList ++ [' ']) ++ '#' :: i.repr.toList := by
      simp [String.toList_append]
    rw [htext, List.rtakeWhile, List.reverse_append, List.reverse_cons, List.append_assoc,
      List.takeWhile_append_of_pos fun c hc => hno c (List.mem_reverse.mp hc)]
    simp
  unfold numbered at h
  dsimp only at h
  generalize (if hasSuffix form clusterTextCutMark = true then clusterTextCutMark else "") = mark at h
  generalize (if hasSuffix form clusterTextCutMark = true then trimSuffix form clusterTextCutMark else form) = head at h
  generalize (if byteLen head > maxClusterTextBytes - byteLen mark - byteLen (" #" ++ m.repr) then
    utf8Prefix head (maxClusterTextBytes - byteLen mark - byteLen (" #" ++ m.repr)) else head) = a at h
  generalize (if byteLen head > maxClusterTextBytes - byteLen mark - byteLen (" #" ++ n.repr) then
    utf8Prefix head (maxClusterTextBytes - byteLen mark - byteLen (" #" ++ n.repr)) else head) = b at h
  have hcut : a ++ (" #" ++ m.repr) = b ++ (" #" ++ n.repr) := by
    have hlist := congrArg String.toList h
    simp only [String.toList_append, ← List.append_assoc] at hlist
    have hcancel := List.append_cancel_right hlist
    rw [← String.toList_inj]
    simpa only [String.toList_append, ← List.append_assoc] using hcancel
  have hnumbers := congrArg (fun s : String => s.toList.rtakeWhile (· ≠ '#')) hcut
  simp only [hlast] at hnumbers
  exact natRepr_injective (String.toList_inj.mp hnumbers)

/-! ## The loop of `distinct` -/

/-- The name that is found is free, and it is the first one or a numbered form. -/
theorem firstFree_eq_some {form name : String} (tries n : ℕ) (out : String)
    (h : firstFree written form tries n out = some name) :
    written.lookup name = none ∧ (name = out ∨ ∃ i, i + 1 < tries ∧ name = numbered form (n + i)) := by
  induction tries generalizing n out with
  | zero => simp [firstFree] at h
  | succ tries ih =>
    unfold firstFree at h
    split at h
    · obtain ⟨hfree, hname | ⟨i, hi, hname⟩⟩ := ih _ _ h
      · cases tries with
        | zero => simp [firstFree] at h
        | succ tries => exact ⟨hfree, .inr ⟨0, by omega, hname⟩⟩
      · exact ⟨hfree, .inr ⟨i + 1, by omega, by rw [hname]; congr 1; omega⟩⟩
    · rename_i htaken
      obtain rfl : out = name := Option.some.inj h
      exact ⟨Option.not_isSome_iff_eq_none.mp htaken, .inl rfl⟩

/-- Where none is found, each of the numbered forms is taken. -/
theorem firstFree_eq_none {form : String} (tries n : ℕ) (out : String) (h : firstFree written form tries n out = none)
    {i : ℕ} (hi : i + 1 < tries) :
    (written.lookup (numbered form (n + i))).isSome := by
  induction tries generalizing n out i with
  | zero => omega
  | succ tries ih =>
    unfold firstFree at h
    split at h
    · cases i with
      | zero =>
        obtain ⟨tries, rfl⟩ : ∃ k, tries = k + 1 := ⟨tries - 1, by omega⟩
        unfold firstFree at h
        split at h
        · assumption
        · simp at h
      | succ i =>
        have hlater := ih (n + 1) _ h (i := i) (by omega)
        rwa [show n + 1 + i = n + (i + 1) by omega] at hlater
    · simp at h

/-- A taken name is one of the table's. -/
theorem mem_of_lookup_isSome {name : String} (h : (written.lookup name).isSome) :
    name ∈ written.map Prod.fst := by
  obtain ⟨b, hb⟩ := Option.isSome_iff_exists.mp h
  rw [List.lookup_eq_some_iff] at hb
  obtain ⟨l₁, l₂, rfl, -⟩ := hb
  simp

/-- The loop ends, within one name more than can be taken. -/
theorem firstFree_isSome (written : List (String × Bool)) (form out : String) (n : ℕ) :
    (firstFree written form (written.length + 2) n out).isSome := by
  by_contra hnone
  rw [Option.not_isSome_iff_eq_none] at hnone
  -- One numbered form more than the table has names would be among its names.
  have hsub : (List.range (written.length + 1)).map (fun i => numbered form (n + i)) ⊆ written.map Prod.fst := by
    intro name hname
    obtain ⟨i, hi, rfl⟩ := List.mem_map.mp hname
    rw [List.mem_range] at hi
    exact mem_of_lookup_isSome (firstFree_eq_none _ n out hnone (by omega))
  have hnodup : ((List.range (written.length + 1)).map fun i => numbered form (n + i)).Nodup := by
    refine List.nodup_range.map fun i j hij => ?_
    have := numbered_injective form hij
    omega
  have hlength := (hnodup.subperm hsub).length_le
  rw [List.length_map, List.length_range, List.length_map] at hlength
  omega

/-- What a name made from a form can be. -/
def MadeFrom (form name : String) : Prop := name = form ∨ ∃ n, name = numbered form n

/-- A text that ends in the mark of a cut. -/
theorem hasSuffix_append_mark : hasSuffix (s ++ clusterTextCutMark) clusterTextCutMark = true := by
  rw [hasSuffix, List.isSuffixOf_iff_suffix, String.toList_append]
  exact List.suffix_append ..

/-- A name made from a cut one ends in the mark too. -/
theorem MadeFrom.hasSuffix {form name : String} (h : MadeFrom form name) (hform : hasSuffix form clusterTextCutMark = true) :
    hasSuffix name clusterTextCutMark = true := by
  obtain rfl | ⟨n, rfl⟩ := h
  · exact hform
  · simp only [numbered, if_pos hform]
    exact hasSuffix_append_mark _

/-- `distinct` makes a name that is free, and one that fits if its form does. -/
theorem distinct_spec (written : List (String × Bool)) {form : String} (hfits : byteLen form ≤ maxClusterTextBytes)
    (hlength : written.length < 2 ^ 63) :
    written.lookup (distinct written form) = none ∧ MadeFrom form (distinct written form) ∧
      byteLen (distinct written form) ≤ maxClusterTextBytes := by
  obtain ⟨name, hname⟩ := Option.isSome_iff_exists.mp (firstFree_isSome written form form 2)
  have heq : distinct written form = name := by rw [distinct, hname, Option.getD_some]
  obtain ⟨hfree, rfl | ⟨i, hi, rfl⟩⟩ := firstFree_eq_some _ _ _ hname
  · rw [heq]
    exact ⟨hfree, .inl rfl, hfits⟩
  · rw [heq]
    exact ⟨hfree, .inr ⟨2 + i, rfl⟩, byteLen_numbered_le form (by omega)⟩

/-! ## The names of an object -/

/-- A name that is as it was, or shows that it is not, and so does its cut form. -/
def Shown (p : String × String) : Prop :=
  p.2 = p.1 ∨ hasSuffix p.2 clusterTextCutMark = true ∧ hasSuffix (quoteOutside p.1) clusterTextCutMark = true

/-- What the walker knows of an object's names, after members that have the names `p.1` and were written as `p.2`. -/
structure Written (plain : List String) (o : ObjectNames) (done : List (String × String)) : Prop where
  /-- Without a table, the names are on the stack, and as they were. -/
  stacked : o.written = none → plain.drop o.base = done.map Prod.fst ∧ ∀ p ∈ done, p.2 = p.1
  /-- A table has every name, and knows which of them the walker made. -/
  tabled : ∀ m, o.written = some m → m.length ≤ done.length ∧
    ∀ p ∈ done, m.lookup p.2 = some true ∨ m.lookup p.2 = some false ∧ p.2 = p.1
  /-- Two names of the document are still two. -/
  apart : ∀ p ∈ done, ∀ q ∈ done, p.1 ≠ q.1 → p.2 ≠ q.2
  /-- A name fits, and is that of the document, or it or its cut form with a number. -/
  fits : ∀ p ∈ done, byteLen p.2 ≤ maxClusterTextBytes ∧ MadeFrom (quoteOutside p.1) p.2
  /-- A name that is changed ends in the mark, and so does every name that the walker made. -/
  marked : (∀ p ∈ done, Shown p) ∧
    ∀ m, o.written = some m → ∀ k, m.lookup k = some true → hasSuffix k clusterTextCutMark = true
  /-- Nothing changes until a name is cut. -/
  asWritten : (∀ p ∈ done, byteLen p.1 ≤ maxClusterTextBytes) → o.written = none

/-- A short text is quoted as it is. -/
theorem quoteOutside_of_le {s : String} (h : byteLen s ≤ maxClusterTextBytes) : quoteOutside s = s :=
  if_neg (not_lt.mpr h)

/-- A long text is cut before it is quoted. -/
theorem quoteOutside_of_lt {s : String} (h : maxClusterTextBytes < byteLen s) : quoteOutside s = cutClusterText s := if_pos h

/-- One name more keeps the names apart, if it is not written as another name of the document is. -/
theorem apart_append {done : List (String × String)} {p : String × String}
    (h : ∀ p ∈ done, ∀ q ∈ done, p.1 ≠ q.1 → p.2 ≠ q.2) (hp : ∀ q ∈ done, q.2 = p.2 → q.1 = p.1) :
    ∀ q ∈ done ++ [p], ∀ r ∈ done ++ [p], q.1 ≠ r.1 → q.2 ≠ r.2 := by
  intro q hq r hr hne heq
  rw [List.mem_append, List.mem_singleton] at hq hr
  obtain hq | rfl := hq <;> obtain hr | rfl := hr
  · exact h q hq r hr hne heq
  · exact hne (hp q hq heq)
  · exact hne (hp r hr heq.symm).symm
  · exact hne rfl

/-- A name that the table gives is added to it. -/
theorem Written.make {plain : List String} {done : List (String × String)} {name form out : String}
    (h : Written plain o done) (hm : m.length ≤ done.length)
    (hknown : ∀ p ∈ done, m.lookup p.2 = some true ∨ m.lookup p.2 = some false ∧ p.2 = p.1)
    (hmarked : ∀ k, m.lookup k = some true → hasSuffix k clusterTextCutMark = true) (hform : quoteOutside name = form)
    (hformMark : hasSuffix form clusterTextCutMark = true) (hdistinct : distinct m form = out)
    (hdone : done.length < 2 ^ 63) (hcut : o.written.isSome ∨ maxClusterTextBytes < byteLen name) :
    Written plain { o with written := some ((out, true) :: m) } (done ++ [(name, out)]) := by
  have hformFits : byteLen form ≤ maxClusterTextBytes := hform ▸ byteLen_quoteOutside_le name
  obtain ⟨hfree, hmade, hfits⟩ := distinct_spec m hformFits (by omega)
  rw [hdistinct] at hfree hmade hfits
  have hnew : ∀ p ∈ done, p.2 ≠ out := by
    intro p hp heq
    have := hknown p hp
    rw [heq, hfree] at this
    simp at this
  have houtMark := hmade.hasSuffix hformMark
  refine ⟨fun hnone => absurd hnone (by simp), fun m' hm' => ?_, apart_append h.apart fun q hq heq => absurd heq (hnew q hq),
    ?_, ⟨fun p hp => ?_, fun m' hm' k hk => ?_⟩, fun hshort => ?_⟩
  · obtain rfl := Option.some.inj hm'
    refine ⟨by simpa using hm, fun p hp => ?_⟩
    rw [List.mem_append, List.mem_singleton] at hp
    obtain hp | rfl := hp
    · rw [List.lookup_cons, beq_eq_false_iff_ne.mpr (hnew p hp)]
      exact hknown p hp
    · exact .inl (List.lookup_cons_self ..)
  · intro p hp
    rw [List.mem_append, List.mem_singleton] at hp
    obtain hp | rfl := hp
    · exact h.fits p hp
    · exact ⟨hfits, hform ▸ hmade⟩
  · rw [List.mem_append, List.mem_singleton] at hp
    obtain hp | rfl := hp
    · exact h.marked.1 p hp
    · exact .inr ⟨houtMark, hform ▸ hformMark⟩
  · obtain rfl := Option.some.inj hm'
    rw [List.lookup_cons] at hk
    by_cases heq : k = out
    · exact heq ▸ houtMark
    · rw [beq_eq_false_iff_ne.mpr heq] at hk
      exact hmarked k hk
  · exfalso
    obtain hsome | hlong := hcut
    · rw [h.asWritten fun p hp => hshort p (List.mem_append_left _ hp)] at hsome
      simp at hsome
    · have := hshort (name, out) (by simp)
      dsimp only at this
      omega

/-- The table made of a stack has its names, none of them made. -/
theorem lookup_map_false {names : List String} (hk : k ∈ names) :
    (names.map fun k => (k, false)).lookup k = some false := by
  induction names with
  | nil => simp at hk
  | cons name names ih =>
    rw [List.map_cons, List.lookup_cons]
    by_cases heq : k = name
    · rw [beq_iff_eq.mpr heq]
    · rw [beq_eq_false_iff_ne.mpr heq]
      exact ih (List.mem_of_ne_of_mem heq hk)

/-- Only a name that is on the stack is in its table. -/
theorem mem_of_lookup_map_false {names : List String} {b : Bool}
    (hk : (names.map fun k => (k, false)).lookup k = some b) : k ∈ names := by
  have hmem := mem_of_lookup_isSome (Option.isSome_of_eq_some hk)
  simpa using hmem

/-- A short name that the walker did not make is added as it is. -/
theorem Written.keep {plain : List String} {done : List (String × String)} {name : String} (h : Written plain o done)
    (hm : o.written = some m) (hlookup : m.lookup name ≠ some true) (hshort : byteLen name ≤ maxClusterTextBytes) :
    Written plain { o with written := some ((name, false) :: m) } (done ++ [(name, name)]) := by
  obtain ⟨hlength, hknown⟩ := h.tabled m hm
  have hsame : ∀ p ∈ done, p.2 = name → p.1 = name := by
    intro p hp heq
    obtain hmade | ⟨-, hasWas⟩ := hknown p hp
    · exact absurd (heq ▸ hmade) hlookup
    · rw [← hasWas, heq]
  refine ⟨fun hnone => absurd hnone (by simp), fun m' hm' => ?_, apart_append h.apart hsame, ?_,
    ⟨fun p hp => ?_, fun m' hm' k hk => ?_⟩, fun hall => ?_⟩
  · obtain rfl := Option.some.inj hm'
    refine ⟨by simpa using hlength, fun p hp => ?_⟩
    rw [List.mem_append, List.mem_singleton] at hp
    obtain hp | rfl := hp
    · rw [List.lookup_cons]
      by_cases heq : p.2 = name
      · rw [beq_iff_eq.mpr heq]
        exact .inr ⟨rfl, by rw [hsame p hp heq, heq]⟩
      · rw [beq_eq_false_iff_ne.mpr heq]
        exact hknown p hp
    · exact .inr ⟨List.lookup_cons_self .., rfl⟩
  · intro p hp
    rw [List.mem_append, List.mem_singleton] at hp
    obtain hp | rfl := hp
    · exact h.fits p hp
    · exact ⟨hshort, .inl (quoteOutside_of_le hshort).symm⟩
  · rw [List.mem_append, List.mem_singleton] at hp
    obtain hp | rfl := hp
    · exact h.marked.1 p hp
    · exact .inl rfl
  · obtain rfl := Option.some.inj hm'
    rw [List.lookup_cons] at hk
    by_cases heq : k = name
    · rw [beq_iff_eq.mpr heq] at hk
      simp at hk
    · rw [beq_eq_false_iff_ne.mpr heq] at hk
      exact h.marked.2 m hm k hk
  · rw [h.asWritten fun p hp => hall p (List.mem_append_left _ hp)] at hm
    simp at hm

/-- A short name goes on the stack while no name is cut. -/
theorem Written.push {plain : List String} {done : List (String × String)} {name : String} (h : Written plain o done)
    (hbase : o.base ≤ plain.length) (hnone : o.written = none) (hshort : byteLen name ≤ maxClusterTextBytes) :
    Written (plain ++ [name]) o (done ++ [(name, name)]) := by
  obtain ⟨hplain, hsame⟩ := h.stacked hnone
  refine ⟨fun _ => ⟨?_, fun p hp => ?_⟩, fun m hm => ?_, apart_append h.apart fun q hq heq => ?_, fun p hp => ?_,
    ⟨fun p hp => ?_, h.marked.2⟩, fun _ => hnone⟩
  · rw [List.drop_append_of_le_length hbase, hplain, List.map_append, List.map_singleton]
  · rw [List.mem_append, List.mem_singleton] at hp
    obtain hp | rfl := hp
    · exact hsame p hp
    · rfl
  · rw [hnone] at hm
    simp at hm
  · rw [← hsame q hq]
    exact heq
  · rw [List.mem_append, List.mem_singleton] at hp
    obtain hp | rfl := hp
    · exact h.fits p hp
    · exact ⟨hshort, .inl (quoteOutside_of_le hshort).symm⟩
  · rw [List.mem_append, List.mem_singleton] at hp
    obtain hp | rfl := hp
    · exact h.marked.1 p hp
    · exact .inl rfl

/-- `key` writes one name more. -/
theorem Written.key {w : Walker} {done : List (String × String)} (h : Written w.plain o done)
    (hbase : o.base ≤ w.plain.length) (hdone : done.length < 2 ^ 63) (name : String) :
    Written (key w o name).2.1.plain (key w o name).2.2 (done ++ [(name, (key w o name).1)]) := by
  by_cases hshort : byteLen name ≤ maxClusterTextBytes
  · cases hwritten : o.written with
    | none =>
      simp only [Mcp.key, if_pos hshort, hwritten]
      exact h.push hbase hwritten hshort
    | some m =>
      obtain ⟨hlength, hknown⟩ := h.tabled m hwritten
      by_cases hmade : m.lookup name = some true
      · simp only [Mcp.key, if_pos hshort, hwritten, if_pos hmade]
        exact h.make hlength hknown (h.marked.2 m hwritten) (quoteOutside_of_le hshort) (h.marked.2 m hwritten name hmade) rfl hdone
          (.inl (by rw [hwritten]; rfl))
      · simp only [Mcp.key, if_pos hshort, hwritten, if_neg hmade]
        exact h.keep hwritten hmade hshort
  · have hlong := not_le.mp hshort
    simp only [Mcp.key, if_neg hshort]
    cases hwritten : o.written with
    | none =>
      -- The table is made of the stack: it has the names of the members so far.
      obtain ⟨hplain, hsame⟩ := h.stacked hwritten
      rw [Option.getD_none, hplain]
      refine h.make (by simp) (fun p hp => .inr ⟨lookup_map_false ?_, hsame p hp⟩) (fun k hk => ?_) (quoteOutside_of_lt hlong)
        (hasSuffix_append_mark _) rfl hdone (.inr hlong)
      · rw [hsame p hp]
        exact List.mem_map_of_mem hp
      · rw [lookup_map_false (mem_of_lookup_map_false hk)] at hk
        simp at hk
    | some m =>
      obtain ⟨hlength, hknown⟩ := h.tabled m hwritten
      exact h.make hlength hknown (h.marked.2 m hwritten) (quoteOutside_of_lt hlong) (hasSuffix_append_mark _) rfl hdone (.inr hlong)

/-! ## What a copy is -/

/-- Induction over a document, through its elements and its members. -/
theorem Doc.induct {P : Doc → Prop} (null : P .null) (bool : ∀ b, P (.bool b)) (number : ∀ t, P (.number t))
    (string : ∀ s, P (.string s)) (array : ∀ items, (∀ d ∈ items, P d) → P (.array items))
    (object : ∀ ms : List (String × Doc), (∀ m ∈ ms, P m.2) → P (.object ms)) (d : Doc) : P d := by
  refine @Doc.rec P (fun items => ∀ d ∈ items, P d) (fun ms => ∀ m ∈ ms, P m.2) (fun m => P m.2) null bool number string array
    object (by simp) (fun d ds hd hds => ?_) (by simp) (fun m ms hm hms => ?_) (fun _ d hd => hd) d
  · exact List.forall_mem_cons.mpr ⟨hd, hds⟩
  · exact List.forall_mem_cons.mpr ⟨hm, hms⟩

/-- An object's names, and the names they are written as. -/
structure NamesKept (names written : List String) : Prop where
  /-- There are as many. -/
  length : written.length = names.length
  /-- Each fits, and is the document's, or it or its cut form with a number. -/
  fits : ∀ p ∈ names.zip written, byteLen p.2 ≤ maxClusterTextBytes ∧ MadeFrom (quoteOutside p.1) p.2
  /-- One that is changed shows it. -/
  marked : ∀ p ∈ names.zip written, Shown p
  /-- No two members are merged. -/
  apart : ∀ p ∈ names.zip written, ∀ q ∈ names.zip written, p.1 ≠ q.1 → p.2 ≠ q.2
  /-- Where no name is too long, they are as they were. -/
  asWritten : (∀ k ∈ names, byteLen k ≤ maxClusterTextBytes) → written = names

/-- A copy of a document: the same but for strings and names that are too long, and names that a cut one would be taken for. -/
inductive Marks : Doc → Doc → Prop where
  | null : Marks .null .null
  | bool (b : Bool) : Marks (.bool b) (.bool b)
  | number (t : String) : Marks (.number t) (.number t)
  | string (s : String) : Marks (.string s) (.string (quoteOutside s))
  | array {items items' : List Doc} (h : List.Forall₂ Marks items items') : Marks (.array items) (.array items')
  | object {ms ms' : List (String × Doc)} (names : NamesKept (ms.map Prod.fst) (ms'.map Prod.fst))
      (h : List.Forall₂ Marks (ms.map Prod.snd) (ms'.map Prod.snd)) : Marks (.object ms) (.object ms')

mutual

/-- The strings of a document, each under the member that holds it. -/
def Doc.texts (field : String) : Doc → List (String × String)
  | .null => []
  | .bool _ => []
  | .number _ => []
  | .string s => [(field, s)]
  | .array items => itemTexts field items
  | .object members => memberTexts members

/-- The strings of an array's elements. -/
def itemTexts (field : String) : List Doc → List (String × String)
  | [] => []
  | d :: ds => d.texts field ++ itemTexts field ds

/-- The strings of an object's members. -/
def memberTexts : List (String × Doc) → List (String × String)
  | [] => []
  | (name, d) :: ms => d.texts name ++ memberTexts ms

end

mutual

/-- The names of a document's objects. -/
def Doc.names : Doc → List String
  | .null => []
  | .bool _ => []
  | .number _ => []
  | .string _ => []
  | .array items => itemNames items
  | .object members => memberNames members

/-- The names of the objects in an array. -/
def itemNames : List Doc → List String
  | [] => []
  | d :: ds => d.names ++ itemNames ds

/-- The names of an object, and those of the objects in it. -/
def memberNames : List (String × Doc) → List String
  | [] => []
  | (name, d) :: ms => name :: d.names ++ memberNames ms

end

/-- Nothing in a document is too long. -/
def Doc.Fits (d : Doc) (field : String) : Prop :=
  (∀ k ∈ d.names, byteLen k ≤ maxClusterTextBytes) ∧ ∀ t ∈ d.texts field, byteLen t.2 ≤ maxClusterTextBytes

/-- An array fits if its elements do. -/
theorem Doc.fits_array {items : List Doc} {field : String} :
    (Doc.array items).Fits field ↔ ∀ d ∈ items, d.Fits field := by
  simp only [Doc.Fits, Doc.names, Doc.texts]
  induction items with
  | nil => simp [itemNames, itemTexts]
  | cons d ds ih =>
    simp only [itemNames, itemTexts, List.forall_mem_append, List.forall_mem_cons]
    tauto

variable {d out : Doc} {found : ClusterText} {ms : List (String × Doc)} (w : Walker)

/-- An object fits if its names and the values of its members do. -/
theorem Doc.fits_object {field : String} :
    (Doc.object ms).Fits field ↔
      (∀ k ∈ ms.map Prod.fst, byteLen k ≤ maxClusterTextBytes) ∧ ∀ m ∈ ms, m.2.Fits m.1 := by
  simp only [Doc.Fits, Doc.names, Doc.texts]
  induction ms with
  | nil => simp [memberNames, memberTexts]
  | cons m ms ih =>
    obtain ⟨name, d⟩ := m
    simp only [memberNames, memberTexts, List.map_cons, List.cons_append, List.forall_mem_append, List.forall_mem_cons]
    tauto

/-- What relates elements to what they become says of what they become. -/
theorem forall_mem_of_forall₂ {α β : Type} {R : α → β → Prop} {Q : β → Prop} {l : List α} {l' : List β}
    (h : List.Forall₂ R l l') (hl : ∀ a ∈ l, ∀ b, R a b → Q b) : ∀ b ∈ l', Q b := by
  induction h with
  | nil => simp
  | cons hab _ ih =>
    rw [List.forall_mem_cons] at hl ⊢
    exact ⟨hl.1 _ hab, ih hl.2⟩

/-- Elements that do not change leave the list as it is. -/
theorem eq_of_forall₂ {α : Type} {R : α → α → Prop} {l l' : List α} (h : List.Forall₂ R l l')
    (hl : ∀ a ∈ l, ∀ b, R a b → b = a) : l' = l := by
  induction h with
  | nil => rfl
  | cons hab _ ih =>
    rw [List.forall_mem_cons] at hl
    rw [hl.1 _ hab, ih hl.2]

/-- A copy fits. -/
theorem Marks.fits (h : Marks d out) (field : String) : out.Fits field := by
  induction d using Doc.induct generalizing out field with
  | null => cases h; simp [Doc.Fits, Doc.names, Doc.texts]
  | bool b => cases h; simp [Doc.Fits, Doc.names, Doc.texts]
  | number t => cases h; simp [Doc.Fits, Doc.names, Doc.texts]
  | string s => cases h; simp [Doc.Fits, Doc.names, Doc.texts, byteLen_quoteOutside_le]
  | array items ih =>
    cases h with
    | array h => exact Doc.fits_array.mpr (forall_mem_of_forall₂ h fun d hd out hout => ih d hd hout field)
  | object ms ih =>
    cases h with
    | object names h =>
      rename_i ms'
      have hvalues : ∀ out ∈ ms'.map Prod.snd, ∀ f, out.Fits f := by
        refine forall_mem_of_forall₂ h fun d hd out hout f => ?_
        obtain ⟨n, hn, rfl⟩ := List.mem_map.mp hd
        exact ih n hn hout f
      refine Doc.fits_object.mpr ⟨fun k hk => ?_, fun m hm => hvalues m.2 (List.mem_map_of_mem hm) m.1⟩
      have hzip : ((ms.map Prod.fst).zip (ms'.map Prod.fst)).map Prod.snd = ms'.map Prod.fst :=
        List.map_snd_zip names.length.le
      rw [← hzip] at hk
      obtain ⟨p, hp, rfl⟩ := List.mem_map.mp hk
      exact (names.fits p hp).1

/-- What fits is copied as it is. -/
theorem Marks.eq_of_fits (h : Marks d out) {field : String} (hfits : d.Fits field) : out = d := by
  induction d using Doc.induct generalizing out field with
  | null => cases h; rfl
  | bool b => cases h; rfl
  | number t => cases h; rfl
  | string s =>
    cases h
    rw [quoteOutside_of_le (hfits.2 (field, s) (by simp [Doc.texts]))]
  | array items ih =>
    rw [Doc.fits_array] at hfits
    cases h with
    | array h => rw [eq_of_forall₂ h fun d hd out hout => ih d hd hout (hfits d hd)]
  | object ms ih =>
    rw [Doc.fits_object] at hfits
    cases h with
    | object names h =>
      have hvalues := eq_of_forall₂ h fun d hd out hout => by
        obtain ⟨n, hn, rfl⟩ := List.mem_map.mp hd
        exact ih n hn hout (hfits.2 n hn)
      rw [List.zip_of_prod (names.asWritten hfits.1) hvalues, ← List.zip_of_prod rfl rfl]

/-! ## What is counted and listed -/

/-- A text that is cut. -/
def tooLong (s : String) : Bool := maxClusterTextBytes < byteLen s

/-- What a walk over some names and strings adds to what was found. -/
structure Counted (names : List String) (texts : List (String × String)) (before after : ClusterText) : Prop where
  /-- The outside strings, names included. -/
  strings : after.strings = before.strings + names.countP (fun k => !(k ∈ pathKeys || k ∈ reportKeys)) +
    texts.countP fun t => !isToolWord t.1 t.2
  /-- What is cut, names included. -/
  cut : after.cut = before.cut + names.countP tooLong + texts.countP fun t => tooLong t.2
  /-- The free text. -/
  freeTextTotal : after.freeTextTotal = before.freeTextTotal + texts.countP fun t => t.1 ∈ freeTextKeys

/-- A walk that goes over nothing finds nothing. -/
theorem Counted.refl (found : ClusterText) : Counted [] [] found found := ⟨by simp, by simp, by simp⟩

/-- The counts of one walk after another add up. -/
theorem Counted.trans {names names' : List String} {texts texts' : List (String × String)} {a b c : ClusterText}
    (h : Counted names texts a b) (h' : Counted names' texts' b c) : Counted (names ++ names') (texts ++ texts') a c := by
  refine ⟨?_, ?_, ?_⟩
  · rw [h'.strings, h.strings, List.countP_append, List.countP_append]
    omega
  · rw [h'.cut, h.cut, List.countP_append, List.countP_append]
    omega
  · rw [h'.freeTextTotal, h.freeTextTotal, List.countP_append]
    omega

/-- A location that quotes nothing of the document: indices, and names of the report. -/
inductive OwnPath : String → Prop where
  | root : OwnPath ""
  | index {path : String} (h : OwnPath path) (i : ℕ) : OwnPath (path ++ "/" ++ i.repr)
  | member {path name : String} (h : OwnPath path) (hname : name ∈ pathKeys) : OwnPath (path ++ "/" ++ name)

/-- The locations that are listed. -/
structure Listed (found : ClusterText) : Prop where
  /-- Few of them. -/
  most : found.freeText.length ≤ maxListedFreeText
  /-- No more than there is free text. -/
  counted : found.freeText.length ≤ found.freeTextTotal
  /-- None quotes the document. -/
  own : ∀ path ∈ found.freeText, OwnPath path

/-- The names of a location are written as they are in it. -/
theorem escapePointer_of_mem_pathKeys {name : String} (h : name ∈ pathKeys) : escapePointer name = name := by
  revert name
  decide +kernel

/-- A string of the cluster's adds its text to the counts. -/
theorem ClusterText.add_counted (found : ClusterText) (path field : String) (listable : Bool) (s : String) :
    Counted [] [(field, s)] found (found.add path field listable s) := by
  refine ⟨?_, ?_, ?_⟩
  · cases h : isToolWord field s <;> simp [ClusterText.add, h]
  · by_cases h : maxClusterTextBytes < byteLen s <;> simp [ClusterText.add, tooLong, h]
  · by_cases h : field ∈ freeTextKeys <;> simp [ClusterText.add, h]

/-- A string's location is listed if it is free text and the location is the report's own. -/
theorem Listed.add (h : Listed found) {path field : String} {listable : Bool} (hpath : listable = true → OwnPath path)
    (s : String) : Listed (found.add path field listable s) := by
  obtain ⟨hmost, hcounted, hown⟩ := h
  by_cases hlisted : (field ∈ freeTextKeys && listable && found.freeText.length < maxListedFreeText) = true
  · have hparts := hlisted
    simp only [Bool.and_eq_true, decide_eq_true_eq] at hparts
    obtain ⟨⟨hfield, hlistable⟩, hless⟩ := hparts
    refine ⟨?_, ?_, ?_⟩
    · simp only [ClusterText.add, if_pos hlisted, List.length_append, List.length_singleton]
      omega
    · simp only [ClusterText.add, if_pos hlisted, if_pos hfield, List.length_append, List.length_singleton]
      omega
    · simp only [ClusterText.add, if_pos hlisted]
      exact List.forall_mem_append.mpr ⟨hown, List.forall_mem_singleton.mpr (hpath hlistable)⟩
  · refine ⟨?_, ?_, ?_⟩
    · simpa only [ClusterText.add, if_neg hlisted] using hmost
    · simp only [ClusterText.add, if_neg hlisted]
      omega
    · simpa only [ClusterText.add, if_neg hlisted] using hown

/-! ## The walk -/

/-- What a name leaves: what was found but for two counts, and the stack, with the name on it or not. -/
theorem key_spec (o : ObjectNames) (name : String) :
    (key w o name).2.1.found = { w.found with
      strings := w.found.strings + if name ∈ pathKeys || name ∈ reportKeys then 0 else 1
      cut := w.found.cut + if tooLong name then 1 else 0 } ∧
      ((key w o name).2.1.plain = w.plain ∨ (key w o name).2.1.plain = w.plain ++ [name]) ∧
      (key w o name).2.2.base = o.base := by
  by_cases hshort : byteLen name ≤ maxClusterTextBytes
  · have hlong : tooLong name = false := decide_eq_false (not_lt.mpr hshort)
    cases hwritten : o.written with
    | none => by_cases hown : name ∈ pathKeys ∨ name ∈ reportKeys <;> simp [key, hown, hlong, hwritten, if_pos hshort]
    | some m =>
      by_cases hown : name ∈ pathKeys ∨ name ∈ reportKeys <;> by_cases hmade : m.lookup name = some true <;>
        simp [key, hown, hlong, hwritten, if_pos hshort, hmade]
  · have hlong : tooLong name = true := decide_eq_true (not_le.mp hshort)
    by_cases hown : name ∈ pathKeys ∨ name ∈ reportKeys <;> simp [key, hown, hlong, if_neg hshort]

/-- What a name adds to what was found. -/
theorem key_counted (o : ObjectNames) (name : String) : Counted [name] [] w.found (key w o name).2.1.found := by
  rw [(key_spec w o name).1]
  refine ⟨?_, ?_, by simp⟩
  · rw [List.countP_singleton, List.countP_nil]
    generalize (decide (name ∈ pathKeys) || decide (name ∈ reportKeys)) = own
    cases own <;> rfl
  · cases h : tooLong name <;> simp [h]

/-- A name lists nothing. -/
theorem Listed.key {w : Walker} (h : Listed w.found) (o : ObjectNames) (name : String) : Listed (key w o name).2.1.found := by
  rw [(key_spec w o name).1]
  exact ⟨h.most, h.counted, h.own⟩

/-- The stack below an object stays as it is. -/
theorem key_plain (o : ObjectNames) (name : String) (hbase : o.base ≤ w.plain.length) :
    o.base ≤ (key w o name).2.1.plain.length ∧ (key w o name).2.1.plain.take o.base = w.plain.take o.base := by
  obtain h | h := (key_spec w o name).2.1
  · rw [h]
    exact ⟨hbase, rfl⟩
  · rw [h, List.take_append_of_le_length hbase, List.length_append]
    exact ⟨by omega, rfl⟩

/-- The walk over a value: it leaves the stack as it was, counts and lists what is there, and copies it. -/
structure Copied (d : Doc) : Prop where
  plain (path field : String) (listable : Bool) (w : Walker) : (value path field listable w d).2.plain = w.plain
  counted (path field : String) (listable : Bool) (w : Walker) :
    Counted d.names (d.texts field) w.found (value path field listable w d).2.found
  listed (path field : String) (listable : Bool) (w : Walker) (hpath : listable = true → OwnPath path)
    (h : Listed w.found) : Listed (value path field listable w d).2.found
  marks (path field : String) (listable : Bool) (w : Walker) (hsize : d.names.length < 2 ^ 63) :
    Marks d (value path field listable w d).1

/-- The walk over the elements of an array. -/
theorem Copied.items {items : List Doc} (h : ∀ d ∈ items, Copied d) (path field : String) (listable : Bool) (i : ℕ) (w : Walker) :
    (itemsFrom path field listable i w items).2.plain = w.plain ∧
      Counted (itemNames items) (itemTexts field items) w.found (itemsFrom path field listable i w items).2.found ∧
      ((listable = true → OwnPath path) → Listed w.found → Listed (itemsFrom path field listable i w items).2.found) ∧
      ((itemNames items).length < 2 ^ 63 → List.Forall₂ Marks items (itemsFrom path field listable i w items).1) := by
  induction items generalizing i w with
  | nil =>
    simp only [itemsFrom, itemNames, itemTexts]
    exact ⟨trivial, Counted.refl _, fun _ hlisted => hlisted, fun _ => .nil⟩
  | cons d ds ih =>
    rw [List.forall_mem_cons] at h
    obtain ⟨hd, hds⟩ := h
    simp only [itemsFrom, itemNames, itemTexts, List.length_append]
    obtain ⟨hplain, hcounted, hlisted, hmarks⟩ := ih hds (i + 1) (value (path ++ "/" ++ i.repr) field listable w d).2
    refine ⟨hplain.trans (hd.plain ..), (hd.counted ..).trans hcounted, fun hpath hfound => hlisted hpath ?_, fun hsize => ?_⟩
    · exact hd.listed _ _ _ _ (fun hl => (hpath hl).index i) hfound
    · exact .cons (hd.marks _ _ _ _ (by omega)) (hmarks (by omega))

/-- The walk over the members of an object. -/
theorem Copied.members (h : ∀ m ∈ ms, Copied m.2) (path : String) (listable : Bool) (w : Walker) (o : ObjectNames)
    (hbase : o.base ≤ w.plain.length) :
    (membersFrom path listable w o ms).2.plain.take o.base = w.plain.take o.base ∧
      Counted (memberNames ms) (memberTexts ms) w.found (membersFrom path listable w o ms).2.found ∧
      ((listable = true → OwnPath path) → Listed w.found → Listed (membersFrom path listable w o ms).2.found) := by
  induction ms generalizing w o with
  | nil =>
    simp only [membersFrom, memberNames, memberTexts]
    exact ⟨trivial, Counted.refl _, fun _ hlisted => hlisted⟩
  | cons m ms ih =>
    obtain ⟨name, d⟩ := m
    rw [List.forall_mem_cons] at h
    obtain ⟨hd, hms⟩ := h
    obtain ⟨hlength, htake⟩ := key_plain w o name hbase
    simp only [membersFrom, memberNames, memberTexts]
    set v := value (path ++ "/" ++ escapePointer name) name (listable && name ∈ pathKeys) (key w o name).2.1 d with hv
    have hplain : v.2.plain = (key w o name).2.1.plain := hd.plain ..
    have hsame := (key_spec w o name).2.2
    obtain ⟨htaken, hcounted, hlisted⟩ := ih hms v.2 (key w o name).2.2 (by rw [hsame, hplain]; exact hlength)
    rw [hsame] at htaken
    refine ⟨by rw [htaken, hplain, htake], ((key_counted w o name).trans (hd.counted ..)).trans hcounted,
      fun hpath hfound => hlisted hpath (hd.listed _ _ _ _ (fun hl => ?_) (hfound.key o name))⟩
    rw [Bool.and_eq_true, decide_eq_true_eq] at hl
    rw [escapePointer_of_mem_pathKeys hl.2]
    exact (hpath hl.1).member hl.2

/-- The names that the walk over an object's members writes, and the values. -/
theorem Copied.memberMarks (h : ∀ m ∈ ms, Copied m.2) (path : String) (listable : Bool) (w : Walker) (o : ObjectNames)
    (hbase : o.base ≤ w.plain.length) {done : List (String × String)} (hwritten : Written w.plain o done)
    (hsize : done.length + (memberNames ms).length < 2 ^ 63) :
    (membersFrom path listable w o ms).1.length = ms.length ∧
      (∃ plain o', Written plain o'
        (done ++ (ms.map Prod.fst).zip ((membersFrom path listable w o ms).1.map Prod.fst))) ∧
      List.Forall₂ Marks (ms.map Prod.snd) ((membersFrom path listable w o ms).1.map Prod.snd) := by
  induction ms generalizing w o done with
  | nil =>
    simp only [membersFrom, List.map_nil, List.zip_nil_left, List.append_nil]
    exact ⟨trivial, ⟨_, _, hwritten⟩, .nil⟩
  | cons m ms ih =>
    obtain ⟨name, d⟩ := m
    rw [List.forall_mem_cons] at h
    obtain ⟨hd, hms⟩ := h
    simp only [memberNames, List.length_cons, List.cons_append, List.length_append] at hsize
    have hmarks := fun path field listable w => hd.marks path field listable w (by dsimp only; omega)
    obtain ⟨hlength, -⟩ := key_plain w o name hbase
    have hstep := hwritten.key hbase (by omega) name
    simp only [membersFrom]
    set v := value (path ++ "/" ++ escapePointer name) name (listable && name ∈ pathKeys) (key w o name).2.1 d with hv
    -- The value is copied with the object's names as they are on the stack.
    have hplain : v.2.plain = (key w o name).2.1.plain := hd.plain ..
    rw [← hplain] at hstep hlength
    obtain ⟨hcount, ⟨plain, o', hnames⟩, hvalues⟩ := ih hms v.2 (key w o name).2.2
      (by rw [(key_spec w o name).2.2]; exact hlength) hstep (by rw [List.length_append, List.length_singleton]; omega)
    refine ⟨by simpa using hcount, ⟨plain, o', ?_⟩, .cons (hmarks ..) hvalues⟩
    rwa [List.append_assoc] at hnames

/-- What is known of all of an object's names. -/
theorem Written.kept {plain : List String} {o : ObjectNames} {names written : List String}
    (hlength : written.length = names.length) (h : Written plain o (names.zip written)) : NamesKept names written := by
  refine ⟨hlength, h.fits, h.marked.1, h.apart, fun hshort => ?_⟩
  have hnone := h.asWritten fun p hp => hshort p.1 (List.of_mem_zip hp).1
  have hsame := (h.stacked hnone).2
  calc written = (names.zip written).map Prod.snd := (List.map_snd_zip hlength.le).symm
    _ = (names.zip written).map Prod.fst := List.map_congr_left hsame
    _ = names := List.map_fst_zip hlength.ge

/-- Every document is copied with its names and texts counted. -/
theorem copied (d : Doc) : Copied d := by
  induction d using Doc.induct with
  | null => exact ⟨fun _ _ _ _ => rfl, fun _ _ _ w => Counted.refl w.found, fun _ _ _ _ _ h => h, fun _ _ _ _ _ => .null⟩
  | bool b => exact ⟨fun _ _ _ _ => rfl, fun _ _ _ w => Counted.refl w.found, fun _ _ _ _ _ h => h, fun _ _ _ _ _ => .bool b⟩
  | number t => exact ⟨fun _ _ _ _ => rfl, fun _ _ _ w => Counted.refl w.found, fun _ _ _ _ _ h => h, fun _ _ _ _ _ => .number t⟩
  | string s =>
    exact ⟨fun _ _ _ _ => rfl, fun path field listable w => w.found.add_counted path field listable s,
      fun _ _ _ _ hpath h => h.add hpath s, fun _ _ _ _ _ => .string s⟩
  | array items ih =>
    refine ⟨fun path field listable w => ?_, fun path field listable w => ?_, fun path field listable w hpath hlisted => ?_,
      fun path field listable w hsize => ?_⟩ <;> obtain ⟨hplain, hcounted, hlist, hmarks⟩ := Copied.items ih path field listable 0 w
    · exact hplain
    · exact hcounted
    · exact hlist hpath hlisted
    · exact .array (hmarks hsize)
  | object ms ih =>
    have hmembers := fun path listable (w : Walker) => Copied.members ih path listable w { base := w.plain.length } le_rfl
    refine ⟨fun path field listable w => ?_, fun path field listable w => (hmembers path listable w).2.1,
      fun path field listable w => (hmembers path listable w).2.2, fun path field listable w hsize => ?_⟩
    · exact (hmembers path listable w).1.trans List.take_length
    · have hstart : Written w.plain { base := w.plain.length } [] :=
        ⟨fun _ => by simp, fun m hm => by simp at hm, by simp, by simp, ⟨by simp, fun m hm => by simp at hm⟩, fun _ => rfl⟩
      obtain ⟨hcount, ⟨plain, o, hnames⟩, hvalues⟩ :=
        Copied.memberMarks ih path listable w { base := w.plain.length } le_rfl hstart (by simpa [Doc.names] using hsize)
      exact .object (hnames.kept (by simpa using hcount)) hvalues

/-! ## The document -/

/-- A document of which nothing is cut fits. -/
theorem Counted.fits {field : String} (h : Counted d.names (d.texts field) {} found) (hcut : found.cut = 0) :
    d.Fits field := by
  have hcounts := h.cut
  have hzero : (d.names.countP tooLong) = 0 ∧ ((d.texts field).countP fun t => tooLong t.2) = 0 := by
    rw [hcut] at hcounts
    dsimp only at hcounts
    omega
  rw [List.countP_eq_zero, List.countP_eq_zero] at hzero
  refine ⟨fun k hk => ?_, fun t ht => ?_⟩
  · have := hzero.1 k hk
    simpa [tooLong] using this
  · have := hzero.2 t ht
    simpa [tooLong] using this

/-- Nothing is cut of a document that fits. -/
theorem Counted.cut_eq_zero {field : String} (h : Counted d.names (d.texts field) {} found) (hfits : d.Fits field) :
    found.cut = 0 := by
  have hnames : d.names.countP tooLong = 0 := List.countP_eq_zero.mpr fun k hk => by simpa [tooLong] using hfits.1 k hk
  have htexts : ((d.texts field).countP fun t => tooLong t.2) = 0 :=
    List.countP_eq_zero.mpr fun t ht => by simpa [tooLong] using hfits.2 t ht
  rw [h.cut, hnames, htexts]

/-- The copy is what is returned, also where the document is. -/
theorem markClusterText_fst {doc : Doc} (hsize : doc.names.length < 2 ^ 63) :
    (markClusterText doc).1 = (value "" "" true {} doc).1 := by
  change (if (value "" "" true {} doc).2.found.cut = 0 then doc else (value "" "" true {} doc).1) = _
  split_ifs with hcut
  · exact (((copied doc).marks "" "" true {} hsize).eq_of_fits (((copied doc).counted "" "" true {}).fits hcut)).symm
  · rfl

/-- Marking a result keeps it: the values and the members are those of the document, in their order, no string and no name is
longer than an assistant should read, no two members are merged, and a document that was marked is not marked again. What was
found is counted, and no location that is listed quotes the document. -/
theorem outside_text_is_cut (doc : Doc) (hsize : doc.names.length < 2 ^ 63) :
    Marks doc (markClusterText doc).1 ∧ (markClusterText doc).1.Fits "" ∧
      (markClusterText (markClusterText doc).1).1 = (markClusterText doc).1 ∧
      Counted doc.names (doc.texts "") {} (markClusterText doc).2 ∧ Listed (markClusterText doc).2 := by
  have hcopy := copied doc
  have hmarks : Marks doc (markClusterText doc).1 := markClusterText_fst hsize ▸ hcopy.marks "" "" true {} hsize
  have hfits := hmarks.fits ""
  refine ⟨hmarks, hfits, ?_, hcopy.counted "" "" true {}, ?_⟩
  · exact if_pos (((copied (markClusterText doc).1).counted "" "" true {}).cut_eq_zero hfits)
  · exact hcopy.listed "" "" true {} (fun _ => .root) ⟨by simp, by simp, by simp⟩

/-- Two long names that start alike, and a name as the first of them is cut. -/
def twoLongNames : Doc :=
  let name (last : Char) := String.ofList (List.replicate 3000 'n' ++ [last])
  .object [(name 'a', .string "first"), (name 'b', .string "second"), (cutClusterText (name 'c'), .array [.null])]

theorem outside_text_is_cut_twoLongNames : twoLongNames.names.length = 3 ∧
    Marks twoLongNames (markClusterText twoLongNames).1 ∧ (markClusterText twoLongNames).1.Fits "" ∧
      (markClusterText (markClusterText twoLongNames).1).1 = (markClusterText twoLongNames).1 ∧
      Counted twoLongNames.names (twoLongNames.texts "") {} (markClusterText twoLongNames).2 ∧
      Listed (markClusterText twoLongNames).2 :=
  ⟨rfl, outside_text_is_cut twoLongNames (by decide)⟩

end UpgradeScope.Mcp
