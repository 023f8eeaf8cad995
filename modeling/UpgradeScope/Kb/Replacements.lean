import UpgradeScope.Kb
import UpgradeScope.Lib.Reorder

/-!
# What an API is replaced by

The four lookups that name an API to move to, over any graph of replacements. Three of them pick an entry
out of those that pass a filter, and the first two start from the chain of the entry's replacements, which
is followed past every API the target has removed: `Leads` says where it leads without the set of APIs seen
on the way, and `chain_eq_some_iff` that this is what the loop finds.

No lookup names the entry itself, and what it names is served by the target, or introduced after it, as
each promises. The maturity rule has a gap: `laterReplacement` does not ask for it, so the lookups keep it
where the chain leads to no API that is less mature than the entry and not served yet
(`namesForward_iff`). The order of the entries matters in one place too: `resolveReplacement` breaks no tie
between candidates of one release (`orderFree_iff`).
-/

namespace UpgradeScope

/-- Of two versions one is at most the other or newer. -/
theorem Version.le_eq_not_gt (v o : Version) : v.le o = !v.gt o := by
  unfold Version.le Version.gt
  cases v.compare o <;> rfl

/-- A version is newer by its major, or by its minor. -/
theorem Version.gt_iff {v o : Version} :
    v.gt o = true ↔ o.major < v.major ∨ o.major = v.major ∧ o.minor < v.minor := by
  have hle : v.gt o = true ↔ ¬ v.le o = true := by simp [Version.le_eq_not_gt]
  rw [hle, Version.le_iff]
  omega

/-- Versions that are not newer than each other are one. -/
theorem Version.eq_of_not_gt {v o : Version} (h : v.gt o = false) (h' : o.gt v = false) : v = o := by
  rw [← Bool.not_eq_true, Version.gt_iff] at h h'
  obtain ⟨a, b⟩ := v
  obtain ⟨c, d⟩ := o
  rw [Version.mk.injEq]
  dsimp only at h h'
  omega

namespace Kb

open Go Sorting

/-! ## Picking an entry -/

section PickBest

variable {better : APILifecycleEntry → APILifecycleEntry → Bool}

/-- The comparison of `pickBest` on entries that may be unset. -/
def betterSome (better : APILifecycleEntry → APILifecycleEntry → Bool) :
    Option APILifecycleEntry → Option APILifecycleEntry → Bool
  | some c, some b => better c b
  | _, _ => false

/-- `pickBest` is the loop that keeps what beats the best so far. -/
theorem pickBest_eq_pick (cs : List APILifecycleEntry) :
    pickBest better cs = pick none (betterSome better) (cs.map some) := by
  unfold pickBest pick
  rw [List.foldl_map]
  congr 1
  funext best c
  cases best with
  | none => simp
  | some b => by_cases hb : better c b = true <;> simp [betterSome, hb]

variable {cs : List APILifecycleEntry} {c : APILifecycleEntry}

/-- What a loop over candidates ends with is a candidate. -/
theorem mem_of_pickBest (h : pickBest better cs = some c) : c ∈ cs := by
  rw [pickBest_eq_pick] at h
  have hpick : pick none (betterSome better) (cs.map some) = none ∨
      pick none (betterSome better) (cs.map some) ∈ cs.map some := pick_mem _
  rw [h] at hpick
  simpa using hpick

/-- A loop over some candidates ends with one. -/
theorem pickBest_cons (c : APILifecycleEntry) (cs : List APILifecycleEntry) :
    (pickBest better (c :: cs)).isSome := by
  have hset : (none : Option APILifecycleEntry) ∉ (c :: cs).map some := by simp
  have hmem := pick_mem_of_ne_nil (betterSome better) (by simp) hset
  obtain ⟨d, -, hd⟩ := List.mem_map.mp hmem
  rw [pickBest_eq_pick, ← hd]
  rfl

/-- A loop over candidates ends with nothing only when there are none. -/
theorem pickBest_eq_none : pickBest better cs = none ↔ cs = [] := by
  cases cs with
  | nil => exact iff_of_true rfl rfl
  | cons c cs =>
    have hsome : (pickBest better (c :: cs)).isSome := pickBest_cons c cs
    refine iff_of_false (fun hnone => ?_) (by simp)
    rw [hnone] at hsome
    simp at hsome

/-- The loop ends with the first candidate when no other is better. -/
theorem pickBest_first (h : ∀ d ∈ cs, better d c = false) : pickBest better (c :: cs) = some c := by
  rw [pickBest_eq_pick, List.map_cons, pick, List.foldl_cons, if_pos (.inl rfl)]
  refine foldl_pick_of_not_beats (by simp) fun b hb => ?_
  obtain ⟨d, hd, rfl⟩ := List.mem_map.mp hb
  exact h d hd

/-- The loop ends with the candidate that is better than every other one, wherever it stands. -/
theorem pickBest_eq_of_greatest (h : Greatest better cs c) : pickBest better cs = some c := by
  rw [pickBest_eq_pick]
  refine pick_eq_of_greatest (by simp) ⟨List.mem_map_of_mem h.1, fun o ho hne => ?_⟩
  obtain ⟨d, hd, rfl⟩ := List.mem_map.mp ho
  exact h.2 d hd fun hdc => hne (congrArg some hdc)

/-- Where there is a best candidate, or none at all, the loop does not depend on the order. -/
theorem pickBest_eq_of_perm {cs cs' : List APILifecycleEntry} (hperm : cs.Perm cs')
    (h : cs ≠ [] → ∃ c, Greatest better cs c) : pickBest better cs = pickBest better cs' := by
  by_cases hnil : cs = []
  · rw [hnil] at hperm ⊢
    rw [hperm.nil_eq]
  · obtain ⟨c, hc⟩ := h hnil
    rw [pickBest_eq_of_greatest hc, pickBest_eq_of_greatest (hc.perm hperm)]

end PickBest

/-! ## The chain -/

section Chain

variable {entries : List APILifecycleEntry} {target : Version}

/-- The API is not removed by the target. -/
def kept (e : APILifecycleEntry) (target : Version) : Bool := e.removed.all (·.gt target)

/-- The loop of `chain` as it runs, with no bound on its turns. -/
inductive Walk (entries : List APILifecycleEntry) (target : Version) :
    List GVK → Option GVK → Option (GVK × Option APILifecycleEntry) → Prop
  /-- The chain ends. -/
  | ends {seen : List GVK} : Walk entries target seen none none
  /-- It comes back to an API it has seen. -/
  | loops {seen : List GVK} {g : GVK} : g ∈ seen → Walk entries target seen (some g) none
  /-- It reaches an API without an entry, or one the target has not removed. -/
  | stops {seen : List GVK} {g : GVK} : g ∉ seen → (lookup entries g).all (kept · target) = true →
    Walk entries target seen (some g) (some (g, lookup entries g))
  /-- It passes an API the target has removed. -/
  | passes {seen : List GVK} {g : GVK} {r : APILifecycleEntry}
    {result : Option (GVK × Option APILifecycleEntry)} : g ∉ seen → lookup entries g = some r →
    kept r target = false → Walk entries target (g :: seen) r.replacement result →
    Walk entries target seen (some g) result

variable {g self : GVK} {e : APILifecycleEntry} {n : ℕ} {o : Option APILifecycleEntry}

/-- With more turns than APIs left to see, the bounded loop is the loop itself. -/
theorem walk_chainLoop {seen : List GVK} {next : Option GVK} (h : unseen entries seen < n) :
    Walk entries target seen next (chainLoop entries target n seen next) := by
  induction n generalizing seen next with
  | zero => omega
  | succ n ih =>
    cases next with
    | none => exact .ends
    | some g =>
      rw [chainLoop]
      by_cases hg : g ∈ seen
      · rw [if_pos hg]
        exact .loops hg
      · rw [if_neg hg]
        have hstops : (lookup entries g).all (kept · target) = true →
            Walk entries target seen (some g) (some (g, lookup entries g)) := fun hkept => .stops hg hkept
        cases hl : lookup entries g with
        | none =>
          rw [hl] at hstops
          exact hstops rfl
        | some r =>
          rw [hl] at hstops
          change Walk entries target seen (some g) (if kept r target = true then some (g, some r)
            else chainLoop entries target n (g :: seen) r.replacement)
          by_cases hkept : kept r target = true
          · rw [if_pos hkept]
            exact hstops hkept
          · rw [if_neg hkept]
            have hlt : unseen entries (g :: seen) < unseen entries seen := unseen_lt entries hg hl
            exact .passes hg hl (by simpa using hkept) (ih (by omega))

/-- The chain of an entry comes to an end. -/
theorem walk_chain (e : APILifecycleEntry) :
    Walk entries target [e.gvk] e.replacement (chain entries e target) :=
  walk_chainLoop (unseen_lt_length entries _)

/-- The loop has one result. -/
theorem Walk.unique {seen : List GVK} {next : Option GVK} {res res' : Option (GVK × Option APILifecycleEntry)}
    (h : Walk entries target seen next res) (h' : Walk entries target seen next res') : res = res' := by
  induction h with
  | ends => cases h'; rfl
  | loops hg =>
    cases h' with
    | loops => rfl
    | stops hg' => exact absurd hg hg'
    | passes hg' => exact absurd hg hg'
  | stops hg hkept =>
    cases h' with
    | loops hg' => exact absurd hg' hg
    | stops => rfl
    | passes _ hl hr =>
      rw [hl] at hkept
      simp [hr] at hkept
  | passes hg hl hr _ ih =>
    cases h' with
    | loops hg' => exact absurd hg' hg
    | stops _ hkept =>
      rw [hl] at hkept
      simp [hr] at hkept
    | passes _ hl' _ hrest =>
      obtain rfl := Option.some.inj (hl.symm.trans hl')
      exact ih hrest

/-- Following replacements past the APIs the target has removed leads to an API it has not removed, or that
has no entry, without coming back to `self`; the number counts the APIs passed. -/
inductive Leads (entries : List APILifecycleEntry) (target : Version) (self : GVK) :
    ℕ → Option GVK → GVK → Prop
  /-- The replacement is not removed. -/
  | here {g : GVK} : g ≠ self → (lookup entries g).all (kept · target) = true →
    Leads entries target self 0 (some g) g
  /-- The replacement is removed, and its own leads on. -/
  | past {n : ℕ} {g g' : GVK} {r : APILifecycleEntry} : g ≠ self → lookup entries g = some r →
    kept r target = false → Leads entries target self n r.replacement g' →
    Leads entries target self (n + 1) (some g) g'

/-- Every API leads to one API, in one number of turns. -/
theorem Leads.unique {n n' : ℕ} {next : Option GVK} {g g' : GVK} (h : Leads entries target self n next g)
    (h' : Leads entries target self n' next g') : n = n' ∧ g = g' := by
  induction h generalizing n' with
  | here _ hkept =>
    cases h' with
    | here => exact ⟨rfl, rfl⟩
    | past _ hl hr =>
      rw [hl] at hkept
      simp [hr] at hkept
  | past _ hl hr _ ih =>
    cases h' with
    | here _ hkept =>
      rw [hl] at hkept
      simp [hr] at hkept
    | past _ hl' _ hrest =>
      obtain rfl := Option.some.inj (hl.symm.trans hl')
      obtain ⟨hn, hg⟩ := ih hrest
      exact ⟨by rw [hn], hg⟩

/-- What the loop stops at is where the replacements lead. -/
theorem Walk.leads {seen : List GVK} {next : Option GVK} (h : Walk entries target seen next (some (g, o)))
    (hself : self ∈ seen) :
    o = lookup entries g ∧ ∃ n, Leads entries target self n next g := by
  generalize hres : some (g, o) = res at h
  induction h with
  | ends => simp at hres
  | loops => simp at hres
  | stops hg hkept =>
    obtain ⟨rfl, rfl⟩ := Prod.mk.inj (Option.some.inj hres)
    exact ⟨rfl, 0, .here (fun heq => hg (heq ▸ hself)) hkept⟩
  | passes hg hl hr _ ih =>
    obtain ⟨ho, n, hn⟩ := ih (List.mem_cons_of_mem _ hself) hres
    exact ⟨ho, n + 1, .past (fun heq => hg (heq ▸ hself)) hl hr hn⟩

/-- Where the replacements lead the loop stops: an API seen before has more turns to go, so it is not met
again. -/
theorem Leads.walk {next : Option GVK} {seen : List GVK} (h : Leads entries target self n next g)
    (hseen : ∀ s ∈ seen, s = self ∨ ∃ m > n, ∃ g', Leads entries target self m (some s) g') :
    Walk entries target seen next (some (g, lookup entries g)) := by
  -- An API that leads on in `n` turns is not one of those seen.
  have hnew : ∀ {n : ℕ} {g g' : GVK} {seen : List GVK}, g ≠ self → Leads entries target self n (some g) g' →
      (∀ s ∈ seen, s = self ∨ ∃ m > n, ∃ g', Leads entries target self m (some s) g') → g ∉ seen := by
    intro n g g' seen hself hleads hseen hg
    obtain heq | ⟨m, hm, g'', hleads'⟩ := hseen g hg
    · exact hself heq
    · have := (hleads.unique hleads').1
      omega
  induction h generalizing seen with
  | here hself hkept => exact .stops (hnew hself (.here hself hkept) hseen) hkept
  | @past n g g' r hself hl hr hrest ih =>
    have hleads : Leads entries target self (n + 1) (some g) g' := .past hself hl hr hrest
    refine .passes (hnew hself hleads hseen) hl hr (ih fun s hs => ?_)
    rcases List.mem_cons.mp hs with rfl | hs
    · exact .inr ⟨n + 1, by omega, g', hleads⟩
    · obtain heq | ⟨m, hm, g'', hleads'⟩ := hseen s hs
      · exact .inl heq
      · exact .inr ⟨m, by omega, g'', hleads'⟩

/-- The replacements of an entry lead to an API. -/
def LeadsTo (entries : List APILifecycleEntry) (e : APILifecycleEntry) (target : Version) (g : GVK) : Prop :=
  ∃ n, Leads entries target e.gvk n e.replacement g

/-- `chain` finds where the replacements lead. -/
theorem chain_eq_some_iff :
    chain entries e target = some (g, o) ↔ LeadsTo entries e target g ∧ o = lookup entries g := by
  have hwalk : Walk entries target [e.gvk] e.replacement (chain entries e target) := walk_chain e
  constructor
  · intro hchain
    rw [hchain] at hwalk
    obtain ⟨ho, hleads⟩ := hwalk.leads List.mem_cons_self
    exact ⟨hleads, ho⟩
  · rintro ⟨⟨n, hleads⟩, rfl⟩
    exact hwalk.unique (hleads.walk fun s hs => .inl (List.mem_singleton.mp hs))

/-- The replacements never lead back to the entry, and not to an API the target has removed. -/
theorem LeadsTo.ne_and_kept (h : LeadsTo entries e target g) :
    g ≠ e.gvk ∧ (lookup entries g).all (kept · target) = true := by
  obtain ⟨n, hleads⟩ := h
  generalize e.gvk = self at hleads
  generalize e.replacement = next at hleads
  induction hleads with
  | here hself hkept => exact ⟨hself, hkept⟩
  | past _ _ _ _ ih => exact ih

end Chain

/-! ## What the lookups name -/

section Names

variable {entries : List APILifecycleEntry} {e : APILifecycleEntry} {target : Version}

/-- The entries `resolveReplacement` picks from when the chain leads to an API that is not introduced
yet. -/
def stepsToward (entries : List APILifecycleEntry) (e : APILifecycleEntry) (target : Version) (g : GVK) :
    List APILifecycleEntry :=
  (byKind entries g.group g.kind).filter fun c =>
    ¬ ((c.version = e.version ∧ c.group = e.group) ∨ ¬ servedAt c target ∨
      c.introduced.le e.introduced ∨ stability c.version < stability e.version)

variable {g : GVK} {c r : APILifecycleEntry}

theorem mem_stepsToward :
    c ∈ stepsToward entries e target g ↔
      c ∈ entries ∧ (c.group = g.group ∧ c.kind = g.kind) ∧ ¬ (c.version = e.version ∧ c.group = e.group) ∧
        servedAt c target = true ∧ c.introduced.le e.introduced = false ∧
        stability e.version ≤ stability c.version := by
  simp only [stepsToward, byKind, List.mem_filter, decide_eq_true_eq, not_or, not_lt,
    Bool.not_eq_true, Bool.not_eq_false]
  tauto

/-- An API the chain leads to is served, or its entry is introduced after the target. -/
theorem LeadsTo.served_or_later (h : LeadsTo entries e target g) (hr : lookup entries g = some r) :
    servedAt r target = !r.introduced.gt target := by
  have hkept : kept r target = true := by
    have := h.ne_and_kept.2
    rw [hr] at this
    exact this
  unfold kept at hkept
  unfold servedAt
  rw [hkept, Bool.and_true, Version.le_eq_not_gt]

/-- What `resolveReplacement` answers: the API the chain leads to when it is served or has no entry and is
as mature as the entry; else, when it is not introduced yet, an entry picked on the way to it. -/
theorem resolveReplacement_eq_some (h : resolveReplacement entries e target = some g) :
    (LeadsTo entries e target g ∧ (∀ r, lookup entries g = some r → servedAt r target = true) ∧
      stability e.version ≤ stability g.version) ∨
    ∃ g', LeadsTo entries e target g' ∧ ∃ c ∈ stepsToward entries e target g', c.gvk = g := by
  unfold resolveReplacement at h
  cases hchain : chain entries e target with
  | none => simp [hchain] at h
  | some p =>
    obtain ⟨g', o⟩ := p
    obtain ⟨hleads, ho⟩ := chain_eq_some_iff.mp hchain
    rw [hchain] at h
    dsimp only at h
    split_ifs at h with hserved hmature
    · obtain rfl := Option.some.inj h
      refine .inl ⟨hleads, fun r hr => ?_, by omega⟩
      rw [ho, hr] at hserved
      exact hserved
    · obtain ⟨c, hc, rfl⟩ := Option.map_eq_some_iff.mp h
      exact .inr ⟨g', hleads, c, mem_of_pickBest hc, rfl⟩

/-- When the chain leads to an API that is introduced after the target, `resolveReplacement` picks from the
entries on the way to it. -/
theorem resolveReplacement_of_later (hleads : LeadsTo entries e target g) (hr : lookup entries g = some r)
    (hlater : r.introduced.gt target = true) :
    resolveReplacement entries e target =
      (pickBest (fun c b => c.introduced.gt b.introduced) (stepsToward entries e target g)).map (·.gvk) := by
  have hserved : servedAt r target = false := by rw [hleads.served_or_later hr, hlater]; rfl
  unfold resolveReplacement
  rw [chain_eq_some_iff.mpr ⟨hleads, hr.symm⟩]
  dsimp only
  rw [if_neg (by simp [hserved])]
  rfl

/-- `laterReplacement` answers with the API the chain leads to when a later release introduces it and
`resolveReplacement` has no answer. -/
theorem laterReplacement_eq_some_iff {v : Version} :
    laterReplacement entries e target = some (g, v) ↔
      resolveReplacement entries e target = none ∧ LeadsTo entries e target g ∧
        ∃ r, lookup entries g = some r ∧ r.introduced = v ∧ v.gt target = true := by
  unfold laterReplacement
  by_cases hres : resolveReplacement entries e target = none
  · rw [hres, if_neg (by simp)]
    constructor
    · intro h
      split at h
      · rename_i g' r hchain
        obtain ⟨hleads, hr⟩ := chain_eq_some_iff.mp hchain
        split_ifs at h with hintro
        obtain ⟨rfl, rfl⟩ := Prod.mk.inj (Option.some.inj h)
        refine ⟨rfl, hleads, r, hr.symm, rfl, ?_⟩
        simpa [Version.le_eq_not_gt] using hintro
      · simp at h
    · rintro ⟨-, hleads, r, hr, rfl, hgt⟩
      rw [chain_eq_some_iff.mpr ⟨hleads, hr.symm⟩]
      dsimp only
      rw [if_neg (by simp [Version.le_eq_not_gt, hgt])]
  · refine iff_of_false ?_ fun h => hres h.1
    obtain ⟨g', hg'⟩ := Option.ne_none_iff_exists'.mp hres
    simp [hg']

/-- An entry of an API shows that the target serves it. -/
def ServedBy (entries : List APILifecycleEntry) (target : Version) (g : GVK) : Prop :=
  ∃ c ∈ entries, c.gvk = g ∧ servedAt c target = true

/-- No entry is about an API. -/
def Unlisted (entries : List APILifecycleEntry) (g : GVK) : Prop := ∀ c ∈ entries, c.gvk ≠ g

/-- An API is named as where to move from an entry: another one, and not a less mature one. -/
def Forward (e : APILifecycleEntry) (g : GVK) : Prop :=
  g ≠ e.gvk ∧ stability e.version ≤ stability g.version

/-- No remediation of an entry points back, whichever lookup answers in the order they are asked:
`resolveReplacement`, then `laterReplacement`, then `servedSuccessor`, and `servedAlternative` for an entry
that is not introduced yet. -/
structure NamesForward (entries : List APILifecycleEntry) (e : APILifecycleEntry) (target : Version) :
    Prop where
  /-- Following the replacements comes to an end. -/
  ends : Walk entries target [e.gvk] e.replacement (chain entries e target)
  /-- The first names an API that is served, or that has no entry. -/
  resolved : ∀ g, resolveReplacement entries e target = some g →
    Forward e g ∧ (ServedBy entries target g ∨ Unlisted entries g)
  /-- The second names an API that a release after the target introduces. -/
  later : resolveReplacement entries e target = none → ∀ g v, laterReplacement entries e target = some (g, v) →
    Forward e g ∧ v.gt target = true ∧ ∃ c ∈ entries, c.gvk = g ∧ c.introduced = v
  /-- The third names an API that is served. -/
  successor : resolveReplacement entries e target = none → laterReplacement entries e target = none →
    ∀ c, servedSuccessor entries e target = some c → Forward e c.gvk ∧ ServedBy entries target c.gvk
  /-- The fourth names an API that is served. -/
  alternative : ∀ g, servedAlternative entries e target = some g → Forward e g ∧ ServedBy entries target g

/-- An API that has no entry in the index is in no entry. -/
theorem unlisted_of_lookup (h : lookup entries g = none) : Unlisted entries g := by
  intro c hc hgvk
  unfold lookup at h
  exact List.find?_eq_none.mp h c (List.mem_reverse.mpr hc) (by simpa using hgvk)

/-- The candidates of `servedAlternative` and of `servedSuccessor` are other versions that are served. -/
theorem forward_of_version (hc : c ∈ entries) (hversion : c.version ≠ e.version) (hserved : servedAt c target = true)
    (hmature : stability e.version ≤ stability c.version) :
    Forward e c.gvk ∧ ServedBy entries target c.gvk :=
  ⟨⟨fun heq => hversion (congrArg GVK.version heq), hmature⟩, c, hc, rfl, hserved⟩

theorem forward_servedSuccessor (h : servedSuccessor entries e target = some c) :
    Forward e c.gvk ∧ ServedBy entries target c.gvk := by
  have hmem := mem_of_pickBest h
  simp only [byKind, List.mem_filter, decide_eq_true_eq, not_or, not_not, not_lt] at hmem
  obtain ⟨⟨hc, -⟩, hversion, hserved, -, hmature⟩ := hmem
  exact forward_of_version hc hversion hserved hmature

theorem forward_servedAlternative (h : servedAlternative entries e target = some g) :
    Forward e g ∧ ServedBy entries target g := by
  obtain ⟨c, hpick, rfl⟩ := Option.map_eq_some_iff.mp h
  have hmem := mem_of_pickBest hpick
  simp only [byKind, List.mem_filter, decide_eq_true_eq, not_or, not_not, not_lt] at hmem
  obtain ⟨⟨hc, -⟩, hversion, hserved, hmature⟩ := hmem
  exact forward_of_version hc hversion hserved hmature

theorem forward_resolveReplacement (h : resolveReplacement entries e target = some g) :
    Forward e g ∧ (ServedBy entries target g ∨ Unlisted entries g) := by
  obtain ⟨hleads, hserved, hmature⟩ | ⟨g', -, c, hc, rfl⟩ := resolveReplacement_eq_some h
  · refine ⟨⟨hleads.ne_and_kept.1, hmature⟩, ?_⟩
    cases hl : lookup entries g with
    | none => exact .inr (unlisted_of_lookup hl)
    | some r =>
      obtain ⟨hr, hgvk⟩ := lookup_gvk entries hl
      exact .inl ⟨r, hr, hgvk, hserved r hl⟩
  · obtain ⟨hmem, -, hother, hserved, -, hmature⟩ := mem_stepsToward.mp hc
    refine ⟨⟨fun heq => hother ?_, hmature⟩, .inl ⟨c, hmem, rfl, hserved⟩⟩
    exact ⟨congrArg GVK.version heq, congrArg GVK.group heq⟩

/-- The replacements do not lead back: where they lead to an API that is less mature than the entry and is
introduced after the target, an entry on the way to it can be named instead. -/
def LeadsForward (entries : List APILifecycleEntry) (e : APILifecycleEntry) (target : Version) : Prop :=
  ∀ g r, LeadsTo entries e target g → lookup entries g = some r → r.introduced.gt target = true →
    stability g.version < stability e.version → ∃ c, c ∈ stepsToward entries e target g

/-- No remediation points back exactly when the replacements do not lead to a less mature API that is not
served yet and is all there is to name. -/
theorem namesForward_iff (entries : List APILifecycleEntry) (e : APILifecycleEntry) (target : Version) :
    NamesForward entries e target ↔ LeadsForward entries e target := by
  constructor
  · intro h g r hleads hr hlater hless
    by_contra hnone
    -- With nothing to name on the way, the second lookup answers with the API itself.
    have hempty : stepsToward entries e target g = [] :=
      List.eq_nil_iff_forall_not_mem.mpr fun c hc => hnone ⟨c, hc⟩
    have hres : resolveReplacement entries e target = none := by
      rw [resolveReplacement_of_later hleads hr hlater, hempty]
      rfl
    have hanswer : laterReplacement entries e target = some (g, r.introduced) :=
      laterReplacement_eq_some_iff.mpr ⟨hres, hleads, r, hr, rfl, hlater⟩
    have hmature := (h.later hres g r.introduced hanswer).1.2
    omega
  · intro h
    refine ⟨walk_chain e, fun g => forward_resolveReplacement, fun hres g v hanswer => ?_,
      fun _ _ c => forward_servedSuccessor, fun g => forward_servedAlternative⟩
    obtain ⟨-, hleads, r, hr, rfl, hlater⟩ := laterReplacement_eq_some_iff.mp hanswer
    obtain ⟨hmem, hgvk⟩ := lookup_gvk entries hr
    refine ⟨⟨hleads.ne_and_kept.1, ?_⟩, hlater, r, hmem, hgvk, rfl⟩
    by_contra hless
    obtain ⟨c, hc⟩ := h g r hleads hr hlater (by omega)
    rw [resolveReplacement_of_later hleads hr hlater, Option.map_eq_none_iff, pickBest_eq_none] at hres
    rw [hres] at hc
    simp at hc

/-- A GA API that 1.34 removes, whose replacement is an alpha that 1.35 introduces, is sent to the alpha. -/
theorem not_namesForward_alpha :
    let alpha : APILifecycleEntry :=
      { group := "storage.k8s.io", version := "v2alpha1", kind := "VolumeAttributesClass", introduced := ⟨1, 35⟩ }
    let ga : APILifecycleEntry :=
      { group := "storage.k8s.io", version := "v1", kind := "VolumeAttributesClass", introduced := ⟨1, 20⟩
        deprecated := some ⟨1, 31⟩, removed := some ⟨1, 34⟩, replacement := some alpha.gvk }
    ¬ NamesForward [ga, alpha] ga ⟨1, 34⟩ := by
  intro alpha ga h
  have hres : resolveReplacement [ga, alpha] ga ⟨1, 34⟩ = none := by decide +kernel
  have hlater : laterReplacement [ga, alpha] ga ⟨1, 34⟩ = some (alpha.gvk, ⟨1, 35⟩) := by decide +kernel
  exact absurd (h.later hres _ _ hlater).1.2 (by decide +kernel)

end Names

/-! ## The order of the entries -/

section Order

variable {entries entries' : List APILifecycleEntry} {e : APILifecycleEntry} {target : Version}

/-- With one entry for an API, the index finds it wherever it stands. -/
theorem lookup_eq_some_iff (hnodup : (entries.map (·.gvk)).Nodup) {g : GVK} {c : APILifecycleEntry} :
    lookup entries g = some c ↔ c ∈ entries ∧ c.gvk = g := by
  refine ⟨lookup_gvk entries, fun ⟨hc, hgvk⟩ => ?_⟩
  cases hl : lookup entries g with
  | none => exact absurd hgvk (unlisted_of_lookup hl c hc)
  | some d =>
    obtain ⟨hd, hdgvk⟩ := lookup_gvk entries hl
    rw [List.inj_on_of_nodup_map hnodup hd hc (hdgvk.trans hgvk.symm)]

theorem lookup_eq_of_perm (hnodup : (entries.map (·.gvk)).Nodup) (hperm : entries.Perm entries') :
    lookup entries' = lookup entries := by
  funext g
  ext c
  rw [lookup_eq_some_iff hnodup, lookup_eq_some_iff ((hperm.map _).nodup_iff.mp hnodup), hperm.mem_iff]

/-- The loop of a chain reads the entries through the index. -/
theorem chainLoop_congr (h : lookup entries' = lookup entries) (n : ℕ) (seen : List GVK) (next : Option GVK) :
    chainLoop entries' target n seen next = chainLoop entries target n seen next := by
  induction n generalizing seen next with
  | zero => rfl
  | succ n ih =>
    cases next with
    | none => rfl
    | some g =>
      rw [chainLoop, chainLoop, h]
      simp only [ih]

theorem chain_eq_of_perm (hnodup : (entries.map (·.gvk)).Nodup) (hperm : entries.Perm entries') :
    chain entries' e target = chain entries e target := by
  unfold chain
  rw [chainLoop_congr (lookup_eq_of_perm hnodup hperm), hperm.length_eq]

/-- What `newerEntry` compares: the release that introduced the entry, then how stable its version is, then
the version's name. -/
def ageKey (c : APILifecycleEntry) : (ℤ ×ₗ ℤ) ×ₗ (ℕ ×ₗ String) :=
  toLex (toLex (c.introduced.major, c.introduced.minor), toLex (stability c.version, c.version))

/-- `preferVersion` compares how stable the versions are and then their names. -/
theorem preferVersion_iff {a b : String} :
    preferVersion a b = true ↔ (toLex (stability b, b) : ℕ ×ₗ String) < toLex (stability a, a) := by
  rw [Prod.Lex.toLex_lt_toLex]
  unfold preferVersion
  split_ifs with h
  · constructor
    · intro hgt
      exact .inl (of_decide_eq_true hgt)
    · rintro (hlt | ⟨heq, -⟩)
      · exact decide_eq_true hlt
      · exact absurd heq.symm h
  · rw [not_not] at h
    constructor
    · intro hgt
      exact .inr ⟨h.symm, of_decide_eq_true hgt⟩
    · rintro (hlt | ⟨-, hlt⟩)
      · exact absurd h (Nat.ne_of_gt hlt)
      · exact decide_eq_true hlt

theorem newerEntry_iff {c b : APILifecycleEntry} : newerEntry c b = true ↔ ageKey b < ageKey c := by
  have heq : (c.introduced.compare b.introduced).isEq = true ↔ c.introduced = b.introduced := by
    rw [← Version.compare_eq_iff]
    cases c.introduced.compare b.introduced <;> simp
  have hgt : (c.introduced.compare b.introduced).isGT = true ↔
      (toLex (b.introduced.major, b.introduced.minor) : ℤ ×ₗ ℤ) <
        toLex (c.introduced.major, c.introduced.minor) := by
    rw [Prod.Lex.toLex_lt_toLex]
    exact Version.gt_iff
  have hsame : ∀ v o : Version, v = o ↔ (toLex (o.major, o.minor) : ℤ ×ₗ ℤ) = toLex (v.major, v.minor) := by
    rintro ⟨_, _⟩ ⟨_, _⟩
    simp only [toLex_inj, Prod.mk.injEq, Version.mk.injEq]
    omega
  have hlex : ageKey b < ageKey c ↔
      (toLex (b.introduced.major, b.introduced.minor) : ℤ ×ₗ ℤ) <
        toLex (c.introduced.major, c.introduced.minor) ∨
      (toLex (b.introduced.major, b.introduced.minor) : ℤ ×ₗ ℤ) =
        toLex (c.introduced.major, c.introduced.minor) ∧
      (toLex (stability b.version, b.version) : ℕ ×ₗ String) < toLex (stability c.version, c.version) := by
    unfold ageKey
    rw [Prod.Lex.toLex_lt_toLex]
  unfold newerEntry
  rw [hlex, Bool.or_eq_true, Bool.and_eq_true, hgt, heq, hsame, preferVersion_iff]

/-- Entries of one kind for distinct APIs are ordered by `newerEntry`. -/
theorem totalOn_newerEntry {cs : List APILifecycleEntry}
    (h : ∀ c ∈ cs, ∀ d ∈ cs, c.version = d.version → c = d) : TotalOn newerEntry cs := by
  refine ⟨fun c hc d hd hne => ?_, fun c hc d hd b hb hcd hdb => ?_⟩
  · have hkey : ageKey c ≠ ageKey d := fun hkey =>
      hne (h c hc d hd (congrArg (fun k => (ofLex (ofLex k).2).2) hkey))
    rcases lt_or_gt_of_ne hkey with hlt | hlt
    · rw [newerEntry_iff.mpr hlt, Bool.not_true, ← Bool.not_eq_true, newerEntry_iff]
      exact hlt.not_gt
    · rw [newerEntry_iff.mpr hlt, Eq.comm, Bool.not_eq_true', ← Bool.not_eq_true, newerEntry_iff]
      exact hlt.not_gt
  · rw [newerEntry_iff] at hcd hdb ⊢
    exact hdb.trans hcd

/-- The newest entry of a kind does not depend on the order of the entries. -/
theorem pickBest_newerEntry_eq_of_perm (hnodup : (entries.map (·.gvk)).Nodup) (hperm : entries.Perm entries')
    (group kind : String) (p : APILifecycleEntry → Bool) :
    pickBest newerEntry ((byKind entries group kind).filter p) =
      pickBest newerEntry ((byKind entries' group kind).filter p) := by
  refine pickBest_eq_of_perm ((hperm.filter _).filter _) fun hne => TotalOn.exists_greatest ?_ hne
  refine totalOn_newerEntry fun c hc d hd hversion => ?_
  simp only [byKind, List.mem_filter, decide_eq_true_eq] at hc hd
  obtain ⟨⟨hc, hcgroup, hckind⟩, -⟩ := hc
  obtain ⟨⟨hd, hdgroup, hdkind⟩, -⟩ := hd
  refine List.inj_on_of_nodup_map hnodup hc hd ?_
  unfold APILifecycleEntry.gvk
  rw [hversion, hcgroup, hdgroup, hckind, hdkind]

/-- The lookups give one answer for every order of the entries. -/
def OrderFree (entries : List APILifecycleEntry) (e : APILifecycleEntry) (target : Version) : Prop :=
  ∀ entries', entries.Perm entries' →
    resolveReplacement entries' e target = resolveReplacement entries e target ∧
    servedAlternative entries' e target = servedAlternative entries e target ∧
    servedSuccessor entries' e target = servedSuccessor entries e target ∧
    laterReplacement entries' e target = laterReplacement entries e target

/-- Where the replacements lead to an API that is not introduced yet, one release introduces at most one of
the newest entries on the way to it. -/
def Untied (entries : List APILifecycleEntry) (e : APILifecycleEntry) (target : Version) : Prop :=
  ∀ g r, LeadsTo entries e target g → lookup entries g = some r → r.introduced.gt target = true →
    ∀ c ∈ stepsToward entries e target g, ∀ d ∈ stepsToward entries e target g,
      c.introduced = d.introduced →
      (∀ b ∈ stepsToward entries e target g, b.introduced.le c.introduced = true) → c = d

/-- The newest of untied entries is newer than every other one. -/
theorem exists_greatest_of_untied {cs : List APILifecycleEntry} (hne : cs ≠ [])
    (h : ∀ c ∈ cs, ∀ d ∈ cs, c.introduced = d.introduced →
      (∀ b ∈ cs, b.introduced.le c.introduced = true) → c = d) :
    ∃ c, Greatest (fun c b => c.introduced.gt b.introduced) cs c := by
  obtain ⟨c, hc, hmax⟩ := cs.toFinset.exists_max_image
    (fun c => (toLex (c.introduced.major, c.introduced.minor) : ℤ ×ₗ ℤ)) (by simpa using hne)
  rw [List.mem_toFinset] at hc
  have hnewest : ∀ b ∈ cs, b.introduced.gt c.introduced = false := by
    intro b hb
    rw [← Bool.not_eq_true, Version.gt_iff]
    have hle := hmax b (List.mem_toFinset.mpr hb)
    rw [Prod.Lex.toLex_le_toLex] at hle
    dsimp only at hle
    omega
  refine ⟨c, hc, fun b hb hbc => ⟨?_, hnewest b hb⟩⟩
  -- Not newer, and not of the same release, so older.
  by_contra hgt
  have hsame : c.introduced = b.introduced :=
    Version.eq_of_not_gt (by simpa using hgt) (hnewest b hb)
  exact hbc (h c hc b hb hsame fun d hd => by rw [Version.le_eq_not_gt, hnewest d hd]; rfl).symm

/-- The candidate that stands first is picked when it is one of the newest. -/
theorem resolveReplacement_first (hnodup : (entries.map (·.gvk)).Nodup) {g : GVK} {r c : APILifecycleEntry}
    (hleads : LeadsTo entries e target g) (hr : lookup entries g = some r)
    (hlater : r.introduced.gt target = true) (hc : c ∈ stepsToward entries e target g)
    (hnewest : ∀ b ∈ stepsToward entries e target g, b.introduced.le c.introduced = true) :
    resolveReplacement (c :: entries.erase c) e target = some c.gvk := by
  have hperm : entries.Perm (c :: entries.erase c) := List.perm_cons_erase (mem_stepsToward.mp hc).1
  -- The chain leads to the same API, as the index does not depend on the order.
  have hleads' : LeadsTo (c :: entries.erase c) e target g := by
    have hchain : chain entries e target = some (g, some r) := chain_eq_some_iff.mpr ⟨hleads, hr.symm⟩
    rw [← chain_eq_of_perm hnodup hperm] at hchain
    exact (chain_eq_some_iff.mp hchain).1
  have hsteps : stepsToward (c :: entries.erase c) e target g =
      c :: stepsToward (entries.erase c) e target g := by
    unfold stepsToward byKind at hc ⊢
    obtain ⟨hkind, hpass⟩ := List.mem_filter.mp hc
    rw [List.filter_cons, if_pos (List.mem_filter.mp hkind).2, List.filter_cons, if_pos hpass]
  rw [resolveReplacement_of_later hleads' (by rw [lookup_eq_of_perm hnodup hperm]; exact hr) hlater, hsteps,
    pickBest_first, Option.map_some]
  intro d hd
  have hd' : d ∈ stepsToward entries e target g := by
    obtain ⟨hmem, hrest⟩ := mem_stepsToward.mp hd
    exact mem_stepsToward.mpr ⟨List.mem_of_mem_erase hmem, hrest⟩
  have hle := hnewest d hd'
  rw [Version.le_eq_not_gt] at hle
  simpa using hle

/-- The order of the entries decides nothing exactly when no tie is left to it. -/
theorem orderFree_iff (hnodup : (entries.map (·.gvk)).Nodup) :
    OrderFree entries e target ↔ Untied entries e target := by
  constructor
  · intro h g r hleads hr hlater c hc d hd hcd hnewest
    -- Each of two tied candidates is picked from the order that has it first.
    have hpickc := resolveReplacement_first hnodup hleads hr hlater hc hnewest
    have hpickd := resolveReplacement_first hnodup hleads hr hlater hd (hcd ▸ hnewest)
    have hcmem := (mem_stepsToward.mp hc).1
    have hdmem := (mem_stepsToward.mp hd).1
    rw [(h _ (List.perm_cons_erase hcmem)).1] at hpickc
    rw [(h _ (List.perm_cons_erase hdmem)).1, hpickc] at hpickd
    exact List.inj_on_of_nodup_map hnodup hcmem hdmem (Option.some.inj hpickd)
  · intro h entries' hperm
    have hchain : chain entries' e target = chain entries e target := chain_eq_of_perm hnodup hperm
    have hres : resolveReplacement entries' e target = resolveReplacement entries e target := by
      unfold resolveReplacement
      rw [hchain]
      cases hc : chain entries e target with
      | none => rfl
      | some p =>
        obtain ⟨g, o⟩ := p
        obtain ⟨hleads, ho⟩ := chain_eq_some_iff.mp hc
        dsimp only
        split_ifs with hserved hmature
        · rfl
        · rfl
        · congr 1
          obtain ⟨r, rfl, hr⟩ : ∃ r, o = some r ∧ servedAt r target = false := by
            cases o with
            | none => simp at hserved
            | some r => exact ⟨r, rfl, by simpa using hserved⟩
          rw [hleads.served_or_later ho.symm] at hr
          refine (pickBest_eq_of_perm ((hperm.filter _).filter _) fun hne => ?_).symm
          exact exists_greatest_of_untied hne (h g r hleads ho.symm (by simpa using hr))
    refine ⟨hres, ?_, ?_, ?_⟩
    · unfold servedAlternative
      rw [pickBest_newerEntry_eq_of_perm hnodup hperm]
    · exact (pickBest_newerEntry_eq_of_perm hnodup hperm ..).symm
    · unfold laterReplacement
      rw [hres, hchain]

/-- An alpha whose replacement 1.36 introduces; 1.34 serves one beta of the kind, so every order names it. -/
theorem orderFree_oneBeta :
    let api := fun (version : String) (minor : ℤ) (replacement : Option GVK) =>
      ({ group := "resource.k8s.io", version := version, kind := "DeviceClass", introduced := ⟨1, minor⟩
         replacement := replacement } : APILifecycleEntry)
    let ga := api "v1" 36 none
    let alpha := api "v1alpha3" 31 (some ga.gvk)
    let beta := api "v1beta1" 32 none
    OrderFree [alpha, beta, ga] alpha ⟨1, 34⟩ := by
  intro api ga alpha beta
  refine (orderFree_iff (by decide +kernel)).mpr fun g r hleads hr hlater c hc d hd hcd hnewest => ?_
  have hchain : chain [alpha, beta, ga] alpha ⟨1, 34⟩ = some (g, some r) :=
    chain_eq_some_iff.mpr ⟨hleads, hr.symm⟩
  have hga : chain [alpha, beta, ga] alpha ⟨1, 34⟩ = some (ga.gvk, some ga) := by decide +kernel
  obtain ⟨rfl, -⟩ := Prod.mk.inj (Option.some.inj (hga.symm.trans hchain))
  have hsteps : stepsToward [alpha, beta, ga] alpha ⟨1, 34⟩ ga.gvk = [beta] := by decide +kernel
  rw [hsteps, List.mem_singleton] at hc hd
  rw [hc, hd]

/-- With two betas of one release the first in the order is named. -/
theorem not_orderFree_twoBetas :
    let api := fun (version : String) (minor : ℤ) (replacement : Option GVK) =>
      ({ group := "resource.k8s.io", version := version, kind := "DeviceClass", introduced := ⟨1, minor⟩
         replacement := replacement } : APILifecycleEntry)
    let ga := api "v1" 36 none
    let alpha := api "v1alpha3" 31 (some ga.gvk)
    let entries := [alpha, api "v1beta1" 32 none, api "v1beta2" 32 none, ga]
    (entries.map (·.gvk)).Nodup ∧ ¬ OrderFree entries alpha ⟨1, 34⟩ := by
  intro api ga alpha entries
  refine ⟨by decide +kernel, fun h => ?_⟩
  have hswap := (h [alpha, api "v1beta2" 32 none, api "v1beta1" 32 none, ga] (by decide +kernel)).1
  exact absurd hswap (by decide +kernel)

end Order

end Kb

end UpgradeScope
