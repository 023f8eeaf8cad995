import UpgradeScope.Server.ReadRuns

/-!
# What a bearer reads, and how often the store is asked

A request with a bearer is answered for what the bearer grants and for nothing else, although the configured tokens are
reloaded and the minted ones revoked while it is decided: the token was in service, or not yet revoked, at some moment
after the request arrived.

While the API is open, the store is asked at most once in a window for all requests together: whoever asks holds the
lock, and what it finds is kept for the next.
-/

namespace UpgradeScope.ReadAccess

open Utf8 HostCheck

/-! ## What a bearer reads -/

/-- Some state of the run from `s₀` to `s` had `P`. -/
def Was (sv : Server) (s₀ s : State) (P : State → Prop) : Prop :=
  ∃ s', Relation.ReflTransGen (Step sv) s₀ s' ∧ Relation.ReflTransGen (Step sv) s' s ∧ P s'

/-- What a bearer grants a request that arrived when the clock read `arrived`. -/
inductive Grants (sv : Server) (s₀ s : State) (r : Request) (arrived : ℤ) : Scope → Prop where
  /-- It was the read token or the admin token. -/
  | configured : Was sv s₀ s (fun s' => arrived ≤ s'.clock ∧
      (s'.tokens.current .read = r.bearerToken ∨ s'.tokens.current .admin = r.bearerToken)) →
      Grants sv s₀ s r arrived none
  /-- It is a minted token that was not revoked before. -/
  | minted {row : TokenRow} : row ∈ s.rows → row.tokenHash = sv.hashToken r.bearerToken →
      (∀ t, row.revokedAt = some t → arrived ≤ t) → Grants sv s₀ s r arrived (scopeOfTeams row.teams)
  /-- It is none of these, and a trusted proxy names the teams. -/
  | proxied {teams : List Bytes} : sv.proxyScope r = some teams → Grants sv s₀ s r arrived (some teams)

/-- What is known of a request with a bearer. -/
structure Call.Granted (sv : Server) (s₀ s : State) (c : Call) : Prop where
  /-- It has arrived. -/
  arrived : c.arrived ≤ s.clock
  /-- The value it is compared with was the read token. -/
  compared : ∀ read, c.phase = .comparing read →
    Was sv s₀ s fun s' => c.arrived ≤ s'.clock ∧ s'.tokens.current .read = read
  /-- It is answered for what it grants. -/
  answered : ∀ sc, c.phase = .done (.answered sc) → c.req.bearerToken ≠ [] → Grants sv s₀ s c.req c.arrived sc

section Grants

variable {sv : Server} {s₀ s s' s₁ : State} {c : Call} {fails : Bool} {p : Phase}

/-- What was is not undone. -/
theorem Was.step {P : State → Prop} (h : Was sv s₀ s P) (hstep : Step sv s s') : Was sv s₀ s' P := by
  obtain ⟨s₁, hbefore, hafter, hP⟩ := h
  exact ⟨s₁, hbefore, hafter.tail hstep, hP⟩

/-- Rows stay what they grant: a row that was not revoked by some time is not revoked before it. -/
theorem Step.row {row : TokenRow} (hstep : Step sv s s') (hrow : row ∈ s.rows) :
    ∃ row' ∈ s'.rows, row'.tokenHash = row.tokenHash ∧ row'.teams = row.teams ∧
      ∀ t, row'.revokedAt = some t → row.revokedAt = some t ∨ s.clock ≤ t := by
  have hsame (hrows : s'.rows = s.rows) : ∃ row' ∈ s'.rows, row'.tokenHash = row.tokenHash ∧ row'.teams = row.teams ∧
      ∀ t, row'.revokedAt = some t → row.revokedAt = some t ∨ s.clock ≤ t :=
    ⟨row, hrows ▸ hrow, rfl, rfl, fun _ ht => .inl ht⟩
  cases hstep with
  | tokens ht => exact hsame rfl
  | tick d => exact hsame rfl
  | mint tokenHash teams => exact ⟨row, List.mem_append_left _ hrow, rfl, rfl, fun _ ht => .inl ht⟩
  | revoke k =>
    obtain ⟨n, hn, rfl⟩ := List.mem_iff_getElem.mp hrow
    have hlen : n < (s.rows.modify k (TokenRow.revoke s.clock)).length := by simpa using hn
    refine ⟨(s.rows.modify k (TokenRow.revoke s.clock)).get ⟨n, hlen⟩, List.get_mem _ _, ?_⟩
    simp only [List.get_eq_getElem, List.getElem_modify]
    split_ifs with hk
    · unfold TokenRow.revoke
      split_ifs with hnot
      · refine ⟨rfl, rfl, fun t ht => .inr ?_⟩
        simp only [Option.some.injEq] at ht
        omega
      · exact ⟨rfl, rfl, fun _ ht => .inl ht⟩
    · exact ⟨rfl, rfl, fun _ ht => .inl ht⟩
  | arrive i r hnone => exact hsame rfl
  | move fails hc =>
    obtain ⟨s₁, p, heq, hgoes⟩ := s.move_goes sv fails hc
    exact hsame (by rw [heq]; exact hgoes.asked.rows)

/-- What is granted stays granted. -/
theorem Grants.step {r : Request} {arrived : ℤ} {sc : Scope} (h : Grants sv s₀ s r arrived sc) (harrived : arrived ≤ s.clock)
    (hstep : Step sv s s') : Grants sv s₀ s' r arrived sc := by
  cases h with
  | configured hwas => exact .configured (hwas.step hstep)
  | minted hrow hhash hrevoked =>
    obtain ⟨row', hrow', hhash', hteams, hrevoked'⟩ := hstep.row hrow
    rw [← hteams]
    refine .minted hrow' (hhash'.trans hhash) fun t ht => ?_
    rcases hrevoked' t ht with ht | ht
    · exact hrevoked t ht
    · exact harrived.trans ht
  | proxied hteams => exact .proxied hteams

/-- A request that does not move keeps what is known of it. -/
theorem Call.Granted.step (h : c.Granted sv s₀ s) (hclock : s.clock ≤ s'.clock) (hstep : Step sv s s') :
    c.Granted sv s₀ s' where
  arrived := h.arrived.trans hclock
  compared read hphase := (h.compared read hphase).step hstep
  answered sc hsc hbearer := (h.answered sc hsc hbearer).step h.arrived hstep

/-- A request that goes on is granted what it is answered for. -/
theorem Call.Granted.goes (h : c.Granted sv s₀ s) (hsound : c.Sound sv s) (hbefore : Relation.ReflTransGen (Step sv) s₀ s)
    (hgoes : Goes sv s fails c s₁ p) {i : ℕ} (hstep : Step sv s (s₁.enter i c p)) :
    Call.Granted sv s₀ (s₁.enter i c p) { c with phase := p } := by
  have hclock : (s₁.enter i c p).clock = s.clock := hgoes.asked.clock
  have hnow {P : State → Prop} (hP : P s) : Was sv s₀ (s₁.enter i c p) P := ⟨s, hbefore, .single hstep, hP⟩
  refine ⟨h.arrived.trans hclock.ge, fun read hread => ?_, fun sc hsc hbearer => ?_⟩
  · dsimp only at hread
    cases hgoes with
    | load hphase hbearer =>
      obtain rfl := Phase.comparing.inj hread
      exact hnow ⟨h.arrived, rfl⟩
    | guarding hphase =>
      revert hread
      unfold afterGuard
      split <;> simp
    | opening hphase =>
      revert hread
      unfold afterOpening
      split <;> simp
    | _ => simp at hread
  · dsimp only at hsc hbearer ⊢
    cases hgoes with
    | @equal read hphase hne heq =>
      obtain rfl : none = sc := by simpa using hsc
      rcases heq with heq | heq
      · obtain ⟨s', hs', hafter, hclock', hread⟩ := (h.compared read hphase).step hstep
        exact .configured ⟨s', hs', hafter, hclock', .inl (hread.trans heq.symm)⟩
      · exact .configured (hnow ⟨h.arrived, .inr heq.symm⟩)
    | @valid row hphase hvalid =>
      obtain rfl : scopeOfTeams row.teams = sc := by simpa using hsc
      have hfound := List.find?_some hvalid
      simp only [decide_eq_true_eq] at hfound
      refine .minted (List.mem_of_find?_eq_some hvalid) hfound.1 fun t ht => ?_
      simp [hfound.2] at ht
    | proxied hphase hteams =>
      obtain rfl := by simpa using hsc
      exact .proxied hteams
    | guarding hphase =>
      revert hsc
      unfold afterGuard
      split <;> simp
    | opening hphase => exact absurd (hsound.asking _ (.inr hphase)).2 hbearer
    | done hphase => exact (h.answered sc (hphase.trans hsc) hbearer).step h.arrived hstep
    | _ => simp at hsc

/-- Every step keeps what is known of the requests. -/
theorem granted_step (hsound : Sound sv s) (hbefore : Relation.ReflTransGen (Step sv) s₀ s)
    (h : ∀ i c, s.calls i = some c → c.Granted sv s₀ s) (hstep : Step sv s s') :
    ∀ i c, s'.calls i = some c → c.Granted sv s₀ s' := by
  have hclock := (Step.later hsound hstep).clock
  have hcalls (hsame : s'.calls = s.calls) : ∀ i c, s'.calls i = some c → c.Granted sv s₀ s' :=
    fun i c hc => (h i c (hsame ▸ hc)).step hclock hstep
  have hthis := hstep
  cases hstep with
  | tokens ht => exact hcalls rfl
  | tick d => exact hcalls rfl
  | mint tokenHash teams => exact hcalls rfl
  | revoke k => exact hcalls rfl
  | arrive j r hnone =>
    intro i c hc
    by_cases hij : i = j
    · subst hij
      obtain rfl : { req := r, arrived := s.clock } = c := by simpa using hc
      exact ⟨le_rfl, by simp, by simp⟩
    · exact (h i c (by simpa [hij] using hc)).step hclock hthis
  | @move j d fails hd =>
    obtain ⟨s₁, p, heq, hgoes⟩ := s.move_goes sv fails hd
    rw [heq] at hclock hthis ⊢
    intro i c hc
    by_cases hij : i = j
    · subst hij
      obtain rfl : { d with phase := p } = c := by simpa [State.enter] using hc
      exact (h i d hd).goes (hsound.calls i d hd) hbefore hgoes hthis
    · have hc' : s.calls i = some c := by simpa [State.enter, hij, hgoes.asked.calls] using hc
      exact (h i c hc').step hclock hthis

end Grants

/-- A bearer reads what it grants: a request with one is answered for the whole fleet or some teams only where the
bearer was the read or the admin token at some moment of the run after the request arrived, or is a minted token that
was not revoked before it arrived, whose teams these are, or where a trusted proxy names the teams. -/
theorem bearers_read_what_they_grant {cfg : Tokens.Config} {looks : Tokens.Slot → Tokens.Look} {ts : Tokens.TokenSources}
    (hnew : Tokens.newTokenSources cfg looks = .ok ts) {interval : ℤ} {next : Tokens.Slot → ℤ} {clock : ℤ}
    {rows : List TokenRow} {sv : Server} {fails : Bool} {s₁ s : State}
    (hstart : start sv fails (new ts interval next clock rows) = some s₁)
    (hrun : Relation.ReflTransGen (Step sv) s₁ s) {i : ℕ} {c : Call} (hc : s.calls i = some c) {sc : Scope}
    (hanswered : c.phase = .done (.answered sc)) (hbearer : c.req.bearerToken ≠ []) :
    Grants sv s₁ s c.req c.arrived sc := by
  obtain ⟨hasked, hsound, -⟩ := start_spec (sound_new hnew) hstart
  have hinv : Sound sv s ∧ ∀ i c, s.calls i = some c → c.Granted sv s₁ s := by
    clear hc
    induction hrun with
    | refl =>
      refine ⟨hsound, fun i c hc => ?_⟩
      rw [hasked.calls] at hc
      simp [new] at hc
    | tail hbefore hstep ih => exact ⟨ih.1.step hstep, granted_step ih.1 hbefore ih.2 hstep⟩
  exact (hinv.2 i c hc).answered sc hanswered hbearer

/-- A request with the token "b". -/
def withBearer : Request := { host := localhost, authorization := bearerPrefix ++ [98] }

theorem start_onLoopback : start onLoopback false minted = some minted := rfl

/-- A request with the bearer of a minted token of a team is answered for that team. -/
theorem bearers_read_what_they_grant_b :
    Grants onLoopback minted (minted.serve onLoopback 0 10 withBearer) withBearer (2 * readOpenWindow) (some [[97]]) :=
  bearers_read_what_they_grant newTokenSources_noTokens start_onLoopback
    (run_serve onLoopback 0 10 withBearer rfl) (i := 0)
    (c := { req := withBearer, arrived := 2 * readOpenWindow, phase := .done (.answered (some [[97]])) }) rfl rfl (by decide)

/-! ## How often the store is asked -/

/-- Whether a call of `readOpen` holds the lock. -/
def Asking.holds : Asking → Bool
  | .locked | .listing _ | .listed _ _ | .unlocking _ => true
  | _ => false

/-- The call of `readOpen` a request is in. -/
def Phase.asking : Phase → Option Asking
  | .guarding a | .opening a => some a
  | _ => none

/-- Request `i` holds the lock. -/
def State.Holds (s : State) (i : ℕ) : Prop := ∃ c a, s.calls i = some c ∧ c.phase.asking = some a ∧ a.holds = true

/-- What a call that asks the store knows of the answers that were kept. -/
def Asking.Due (s : State) : Asking → Prop
  | .listing now => s.rows = [] → ∀ t ∈ s.kept, t + readOpenWindow ≤ now
  | .listed now false => ∀ t ∈ s.kept, t + readOpenWindow ≤ now
  | _ => True

/-- What holds of the answers that were kept. -/
structure Spaced (s : State) : Prop where
  /-- One request at a time holds the lock. -/
  exclusive : Runs.Exclusive s.Holds (s.openMu = true)
  /-- The last answer is the newest. -/
  newest : ∀ openAt, s.openSeen = some openAt → ∀ t ∈ s.kept, t ≤ openAt
  /-- It is forgotten when a token was found. -/
  forgotten : s.openSeen = none → s.kept = [] ∨ s.rows ≠ []
  /-- The answers are a window apart. -/
  apart : s.kept.Pairwise fun newer older => older + readOpenWindow ≤ newer
  /-- Who asks the store is due to. -/
  due : ∀ i c a, s.calls i = some c → c.phase.asking = some a → a.Due s

section Spaced

variable {sv : Server} {s s' s₁ : State} {c : Call} {fails : Bool} {p : Phase} {i : ℕ} {a : Asking}

/-- A call that does not hold the lock knows nothing that could change. -/
theorem Asking.due_of_not_holds (h : a.holds = false) : a.Due s := by
  cases a <;> trivial

/-- What a call knows it knows later, where the answers are the same. -/
theorem Asking.Due.later (h : a.Due s) (hrows : s'.rows = [] → s.rows = []) (hkept : s'.kept = s.kept) : a.Due s' := by
  cases a with
  | listing now =>
    intro hnone
    rw [hkept]
    exact h (hrows hnone)
  | listed now found =>
    cases found with
    | true => trivial
    | false =>
      change ∀ t ∈ s'.kept, t + readOpenWindow ≤ now
      rw [hkept]
      exact h
  | _ => trivial

/-- What an operation of `readOpen` does to the lock and the answers. -/
inductive AskEffect (s : State) : Asking → State → Asking → Prop where
  /-- Neither changes, and the lock does not change hands. -/
  | quiet {a b : Asking} : b.holds = a.holds → (a.holds = false ∨ b.Due s) → AskEffect s a s b
  /-- The lock is taken. -/
  | take {a : Asking} : a.holds = false → s.openMu = false → AskEffect s a { s with openMu := true } .locked
  /-- A token was found. -/
  | found {a : Asking} : a.holds = true → s.rows ≠ [] →
      AskEffect s a { s with readTokensMinted := true, openSeen := none } (.unlocking .closed)
  /-- None was, and the answer is kept. -/
  | kept {now : ℤ} : AskEffect s (.listed now false) { s with openSeen := some now, kept := now :: s.kept } (.unlocking .open)
  /-- The lock is given back. -/
  | release {v : Verdict} : AskEffect s (.unlocking v) { s with openMu := false } (.returned v)

/-- Every operation of `readOpen` is one of these. -/
theorem ask_effect (hspaced : Spaced s) (hremembered : Remembered s) (hdue : a.Due s) {arrived : ℤ}
    (hknows : a.Knows sv s arrived) : AskEffect s a (ask sv fails s a).1 (ask sv fails s a).2 := by
  cases a with
  | arrived => simp only [ask]; split_ifs <;> exact .quiet rfl (.inl rfl)
  | loading => simp only [ask]; split_ifs <;> exact .quiet rfl (.inl rfl)
  | locking =>
    simp only [ask]
    split_ifs with hlocked
    · exact .quiet rfl (.inl rfl)
    · exact .take rfl (by simpa using hlocked)
  | locked =>
    simp only [ask]
    split
    · rename_i openAt hseen
      split_ifs with hfresh
      · exact .quiet rfl (.inr trivial)
      · -- The last answer is older than the window, so every one before it is.
        refine .quiet rfl (.inr fun _ t ht => ?_)
        have hold := hspaced.newest openAt hseen t ht
        have hpast := (hremembered openAt hseen).1
        omega
    · rename_i hnone
      refine .quiet rfl (.inr fun hrows t ht => ?_)
      rcases hspaced.forgotten hnone with hempty | hfound
      · simp [hempty] at ht
      · exact absurd hrows hfound
  | listing now =>
    simp only [ask]
    split_ifs
    · exact .quiet rfl (.inr trivial)
    · refine .quiet rfl (.inr ?_)
      by_cases hrows : s.rows = []
      · simpa [hrows, Asking.Due] using hdue hrows
      · simp [hrows, Asking.Due]
  | listed now found =>
    cases found with
    | true => exact .found rfl hknows.2.2
    | false => exact .kept
  | unlocking v => exact .release
  | returned v => exact .quiet rfl (.inl rfl)

/-- A request that goes on is in a call of `readOpen` that does, or in none that holds the lock. -/
theorem asking_of_goes (h : Goes sv s fails c s₁ p) :
    (s₁ = s ∧ c.phase.asking = none ∧ ∀ b, p.asking = some b → b.holds = false) ∨
      ∃ a, c.phase.asking = some a ∧ s₁ = (ask sv fails s a).1 ∧ (∀ b, p.asking = some b → b = (ask sv fails s a).2) ∧
        ((ask sv fails s a).2.holds = true → p.asking = some (ask sv fails s a).2) := by
  cases h with
  | @guarding a hphase =>
    refine .inr ⟨a, by rw [hphase]; rfl, rfl, fun b => ?_, ?_⟩
    · unfold afterGuard
      split <;> simp +contextual [Phase.asking, eq_comm]
    · unfold afterGuard
      split
      · simp_all [Asking.holds]
      · simp_all [Asking.holds]
      · exact fun _ => rfl
  | @opening a hphase =>
    refine .inr ⟨a, by rw [hphase]; rfl, rfl, fun b => ?_, ?_⟩
    · unfold afterOpening
      split <;> simp +contextual [Phase.asking, eq_comm]
    · unfold afterOpening
      split
      · simp_all [Asking.holds]
      · simp_all [Asking.holds]
      · simp_all [Asking.holds]
      · exact fun _ => rfl
  | allowed hphase => exact .inl ⟨rfl, by rw [hphase]; rfl, by simp [Phase.asking]⟩
  | misdirected hphase => exact .inl ⟨rfl, by rw [hphase]; rfl, by simp [Phase.asking]⟩
  | presented hphase => exact .inl ⟨rfl, by rw [hphase]; rfl, by simp [Phase.asking]⟩
  | guard hphase => exact .inl ⟨rfl, by rw [hphase]; rfl, by simp [Phase.asking, Asking.holds]⟩
  | anonymous hphase => exact .inl ⟨rfl, by rw [hphase]; rfl, by simp [Phase.asking]⟩
  | load hphase => exact .inl ⟨rfl, by rw [hphase]; rfl, by simp [Phase.asking]⟩
  | equal hphase => exact .inl ⟨rfl, by rw [hphase]; rfl, by simp [Phase.asking]⟩
  | differ hphase => exact .inl ⟨rfl, by rw [hphase]; rfl, by simp [Phase.asking]⟩
  | invalid hphase => exact .inl ⟨rfl, by rw [hphase]; rfl, by simp [Phase.asking]⟩
  | valid hphase => exact .inl ⟨rfl, by rw [hphase]; rfl, by simp [Phase.asking]⟩
  | unknown hphase => exact .inl ⟨rfl, by rw [hphase]; rfl, by simp [Phase.asking]⟩
  | proxied hphase => exact .inl ⟨rfl, by rw [hphase]; rfl, by simp [Phase.asking]⟩
  | unauthorized hphase => exact .inl ⟨rfl, by rw [hphase]; rfl, by simp [Phase.asking]⟩
  | ask hphase => exact .inl ⟨rfl, by rw [hphase]; rfl, by simp [Phase.asking, Asking.holds]⟩
  | done hphase => exact .inl ⟨rfl, by rw [hphase]; rfl, by simp [Phase.asking]⟩

/-- The other requests hold the lock as they did. -/
theorem holds_enter_of_ne (hcalls : s₁.calls = s.calls) {j : ℕ} (hji : j ≠ i) :
    (s₁.enter i c p).Holds j ↔ s.Holds j := by
  simp [State.Holds, State.enter, hji, hcalls]

/-- A request that enters a phase holds the lock where its call of `readOpen` does. -/
theorem holds_enter_self : (s₁.enter i c p).Holds i ↔ ∃ b, p.asking = some b ∧ b.holds = true := by
  simp [State.Holds, State.enter]

/-- A request that goes on keeps the answers apart. -/
theorem Spaced.goes (h : Spaced s) (hsound : Sound sv s) (hc : s.calls i = some c) (hgoes : Goes sv s fails c s₁ p) :
    Spaced (s₁.enter i c p) := by
  have hcalls := hgoes.asked.calls
  have hholds {j : ℕ} (hji : j ≠ i) (hj : (s₁.enter i c p).Holds j) : s.Holds j := (holds_enter_of_ne hcalls hji).mp hj
  -- What is due to the other requests, which hold the lock only if this one does not.
  have hothers (hdue : ∀ j d b, j ≠ i → s.calls j = some d → d.phase.asking = some b → b.Due s₁)
      (hown : ∀ b, p.asking = some b → b.Due s₁) :
      ∀ j d b, (s₁.enter i c p).calls j = some d → d.phase.asking = some b → b.Due (s₁.enter i c p) := by
    intro j d b hd hb
    refine Asking.Due.later (s := s₁) ?_ id rfl
    by_cases hji : j = i
    · subst hji
      obtain rfl : { c with phase := p } = d := by simpa [State.enter] using hd
      exact hown b hb
    · exact hdue j d b hji (by simpa [State.enter, hji, hcalls] using hd) hb
  have halone (hi : s.Holds i) (j : ℕ) (d : Call) (b : Asking) (hji : j ≠ i) (hd : s.calls j = some d)
      (hb : d.phase.asking = some b) (s' : State) : b.Due s' := by
    refine Asking.due_of_not_holds (Bool.eq_false_iff.mpr fun hholding => hji ?_)
    exact h.exclusive.alone j i ⟨d, b, hd, hb, hholding⟩ hi
  rcases asking_of_goes hgoes with ⟨rfl, hwas, hnot⟩ | ⟨a, ha, hs₁, hnext, hholding⟩
  · refine ⟨h.exclusive.keep (fun j hj => ?_) id, h.newest, h.forgotten, h.apart, ?_⟩
    · by_cases hji : j = i
      · subst hji
        obtain ⟨b, hb, hbh⟩ := holds_enter_self.mp hj
        simp [hnot b hb] at hbh
      · exact hholds hji hj
    · exact hothers (fun j d b _ hd hb => h.due j d b hd hb) fun b hb => Asking.due_of_not_holds (hnot b hb)
  · have hphase : c.phase = .guarding a ∨ c.phase = .opening a := by
      revert ha
      cases c.phase <;> simp +contextual [Phase.asking]
    have hknows := ((hsound.calls i c hc).asking a hphase).1
    have heffect : AskEffect s a (ask sv fails s a).1 (ask sv fails s a).2 :=
      ask_effect h hsound.remembered (h.due i c a hc ha) hknows
    have hself (hb : a.holds = true) : s.Holds i := ⟨c, a, hc, ha, hb⟩
    obtain rfl := hs₁
    generalize hb : (ask sv fails s a).2 = b at heffect hnext hholding
    generalize (ask sv fails s a).1 = s₁ at heffect hcalls hholds hothers ⊢
    cases heffect with
    | quiet hsame hdue =>
      refine ⟨h.exclusive.keep (fun j hj => ?_) id, h.newest, h.forgotten, h.apart,
        hothers (fun j d b _ hd hb => h.due j d b hd hb) fun b' hb' => ?_⟩
      · by_cases hji : j = i
        · subst hji
          obtain ⟨b', hb', hbh⟩ := holds_enter_self.mp hj
          rw [hnext b' hb', hsame] at hbh
          exact hself hbh
        · exact hholds hji hj
      · rw [hnext b' hb']
        rcases hdue with hnot | hdue
        · exact Asking.due_of_not_holds (hsame.trans hnot)
        · exact hdue
    | take hnot hfree =>
      refine ⟨h.exclusive.take (i := i) (by simp [hfree]) rfl fun j hji hj => hholds hji hj, h.newest, h.forgotten, h.apart,
        hothers (fun j d b _ hd hb => (h.due j d b hd hb).later id rfl) fun b' hb' => ?_⟩
      rw [hnext b' hb']
      trivial
    | found hholds' hrows =>
      refine ⟨h.exclusive.keep (fun j hj => ?_) id, by simp [State.enter], fun _ => .inr hrows, h.apart,
        hothers (fun j d b hji hd hb => halone (hself hholds') j d b hji hd hb _) fun b' hb' => ?_⟩
      · by_cases hji : j = i
        · exact hji ▸ hself hholds'
        · exact hholds hji hj
      · rw [hnext b' hb']
        trivial
    | @kept now =>
      have hdue : ∀ t ∈ s.kept, t + readOpenWindow ≤ now := h.due i c _ hc ha
      refine ⟨h.exclusive.keep (fun j hj => ?_) id, fun openAt hseen t ht => ?_, by simp [State.enter],
        List.pairwise_cons.mpr ⟨hdue, h.apart⟩,
        hothers (fun j d b hji hd hb => halone (hself rfl) j d b hji hd hb _) fun b' hb' => ?_⟩
      · by_cases hji : j = i
        · exact hji ▸ hself rfl
        · exact hholds hji hj
      · obtain rfl : now = openAt := by simpa [State.enter] using hseen
        have hwindow : (0 : ℤ) < readOpenWindow := by decide
        rcases List.mem_cons.mp ht with rfl | ht
        · exact le_rfl
        · have := hdue t ht
          omega
      · rw [hnext b' hb']
        trivial
    | release =>
      refine ⟨h.exclusive.release (hself rfl) (fun hj => ?_) fun j hji hj => hholds hji hj, h.newest, h.forgotten, h.apart,
        hothers (fun j d b _ hd hb => (h.due j d b hd hb).later id rfl) fun b' hb' => ?_⟩
      · obtain ⟨b', hb', hbh⟩ := holds_enter_self.mp hj
        simp [hnext b' hb', Asking.holds] at hbh
      · rw [hnext b' hb']
        trivial

/-- Every step keeps the answers apart. -/
theorem Spaced.step (h : Spaced s) (hsound : Sound sv s) (hstep : Step sv s s') : Spaced s' := by
  have hlater := Step.later hsound hstep
  have hrows : s'.rows = [] → s.rows = [] := fun hnone => by
    by_contra hsome
    exact hlater.rows hsome hnone
  -- A step that leaves the requests, the lock and the answers alone.
  have hsame (hcalls : s'.calls = s.calls) (hmu : s'.openMu = s.openMu) (hseen : s'.openSeen = s.openSeen)
      (hkept : s'.kept = s.kept) : Spaced s' := by
    refine ⟨h.exclusive.keep (fun j hj => ?_) (fun hlocked => hmu ▸ hlocked), ?_, ?_, hkept ▸ h.apart, ?_⟩
    · simpa [State.Holds, hcalls] using hj
    · rw [hseen, hkept]
      exact h.newest
    · rw [hseen, hkept]
      exact fun hnone => (h.forgotten hnone).imp_right hlater.rows
    · intro j d b hd hb
      exact (h.due j d b (hcalls ▸ hd) hb).later hrows hkept
  cases hstep with
  | tokens ht => exact hsame rfl rfl rfl rfl
  | tick d => exact hsame rfl rfl rfl rfl
  | mint tokenHash teams => exact hsame rfl rfl rfl rfl
  | revoke k => exact hsame rfl rfl rfl rfl
  | arrive i r hnone =>
    refine ⟨h.exclusive.keep (fun j hj => ?_) id, h.newest, h.forgotten, h.apart, fun j d b hd hb => ?_⟩
    · obtain ⟨d, b, hd, hb, hbh⟩ := hj
      by_cases hji : j = i
      · subst hji
        obtain rfl : { req := r, arrived := s.clock } = d := by simpa using hd
        simp [Phase.asking] at hb
      · exact ⟨d, b, by simpa [hji] using hd, hb, hbh⟩
    · by_cases hji : j = i
      · subst hji
        obtain rfl : { req := r, arrived := s.clock } = d := by simpa using hd
        simp [Phase.asking] at hb
      · exact (h.due j d b (by simpa [hji] using hd) hb).later id rfl
  | move fails hc =>
    obtain ⟨s₁, p, heq, hgoes⟩ := s.move_goes sv fails hc
    rw [heq]
    exact h.goes hsound hc hgoes

/-- Nothing was kept and nothing is locked where a server starts. -/
theorem start_unasked {ts : Tokens.TokenSources} {interval : ℤ} {next : Tokens.Slot → ℤ} {clock : ℤ} {rows : List TokenRow}
    (hstart : start sv fails (new ts interval next clock rows) = some s) :
    s.openMu = false ∧ s.openSeen = none ∧ s.kept = [] := by
  have hnew : (new ts interval next clock rows).openMu = false ∧ (new ts interval next clock rows).openSeen = none ∧
      (new ts interval next clock rows).kept = [] ∧ (new ts interval next clock rows).readTokensMinted = false :=
    ⟨rfl, rfl, rfl, rfl⟩
  generalize new ts interval next clock rows = s₀ at hnew hstart
  obtain ⟨hmu, hseen, hkept, hminted⟩ := hnew
  unfold start at hstart
  split_ifs at hstart
  · split at hstart
    · rename_i s' hopen
      cases hstart
      simp only [readOpen, Function.iterate_succ, Function.iterate_zero, Function.comp_apply, id_eq] at hopen
      by_cases hconfigured : sv.requireReadCredential = true ∨ s₀.tokens.current .read ≠ [] ∨ sv.trustTeamHeader ≠ ""
      · simp only [ask, hconfigured, if_true, Prod.mk.injEq, and_true] at hopen
        exact hopen ▸ ⟨hmu, hseen, hkept⟩
      · cases fails with
        | true => simp [ask, hconfigured, hminted, hmu, hseen] at hopen
        | false =>
          by_cases hrows : s₀.rows = []
          · simp [ask, hconfigured, hminted, hmu, hseen, hrows] at hopen
          · simp only [ask, hconfigured, hminted, hmu, hseen, hrows, if_false, Bool.false_eq_true, ne_eq,
              not_false_eq_true, decide_true, Prod.mk.injEq, and_true] at hopen
            exact hopen ▸ ⟨rfl, rfl, hkept⟩
    · simp at hstart
  · cases hstart
    exact ⟨hmu, hseen, hkept⟩

end Spaced

/-- The store is asked at most once in a window while the API is open, however many anonymous requests there are: any
two answers without a token that were kept are a window apart. -/
theorem open_is_asked_once_per_window {cfg : Tokens.Config} {looks : Tokens.Slot → Tokens.Look} {ts : Tokens.TokenSources}
    (hnew : Tokens.newTokenSources cfg looks = .ok ts) {interval : ℤ} {next : Tokens.Slot → ℤ} {clock : ℤ}
    {rows : List TokenRow} {sv : Server} {s : State} (hrun : Serves sv (new ts interval next clock rows) s) :
    s.kept.Pairwise fun newer older => older + readOpenWindow ≤ newer := by
  obtain ⟨fails, s₁, hstart, hrun⟩ := hrun
  obtain ⟨hasked, hsound, -⟩ := start_spec (sound_new hnew) hstart
  obtain ⟨hmu, hseen, hkept⟩ := start_unasked hstart
  have hnone : ∀ i, s₁.calls i = none := fun i => by rw [hasked.calls]; rfl
  have hspaced : Spaced s₁ := by
    refine ⟨⟨?_, ?_⟩, ?_, ?_, ?_, ?_⟩
    all_goals simp [State.Holds, hnone, hkept, hseen]
  have hinv : Sound sv s ∧ Spaced s :=
    Runs.of_run (I := fun s => Sound sv s ∧ Spaced s) hrun ⟨hsound, hspaced⟩
      fun hs hstep => ⟨hs.1.step hstep, hs.2.step hs.1 hstep⟩
  exact hinv.2.apart

/-- Two anonymous requests, a window after each other. -/
def askedTwice : State :=
  let s := unminted.serve onLoopback 0 12 atLocalhost
  State.serve onLoopback 1 12 atLocalhost { s with clock := s.clock + (1000000000 : ℕ) }

/-- Two anonymous requests, a window apart, each ask the store whether the API is open. -/
theorem open_is_asked_once_per_window_twice :
    askedTwice.kept = [readOpenWindow, 0] ∧
      askedTwice.kept.Pairwise fun newer older => older + readOpenWindow ≤ newer :=
  ⟨rfl, open_is_asked_once_per_window newTokenSources_noTokens
    ⟨false, unminted, rfl, ((run_serve onLoopback 0 12 atLocalhost rfl).tail (.tick 1000000000)).trans
      (run_serve onLoopback 1 12 atLocalhost rfl)⟩⟩

end UpgradeScope.ReadAccess
