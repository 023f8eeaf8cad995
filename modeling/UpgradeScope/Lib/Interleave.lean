import Mathlib.Data.List.Basic

/-!
# Programs that interleave on a shared state

A program takes atomic steps on a state it shares with any number of others; between two of its steps the others,
and the environment, may change the state. A run is a list of moves: a program starts, one of them takes its next
step, or the environment acts. `Safe` is what has to be shown of one program alone: from every state it may meet,
each of its steps keeps an invariant and relates the state before it to the one after it as everyone may rely on.
`run_invariant` concludes for every run of such programs.
-/

namespace Interleave

/-- A program over a shared state: it has returned, or it takes an atomic step and goes on with what it saw. -/
inductive Prog (S α : Type) where
  /-- Returned. -/
  | pure (a : α)
  /-- The next step changes the state by `f`, and the program sees the state before it. -/
  | atomic (f : S → S) (k : S → Prog S α)

namespace Prog

variable {S α β : Type}

/-- One program after another. -/
protected def bind : Prog S α → (α → Prog S β) → Prog S β
  | .pure a, g => g a
  | .atomic f k, g => .atomic f fun s => (k s).bind g

instance : Monad (Prog S) where
  pure := Prog.pure
  bind := Prog.bind

/-- A step that only looks. -/
def read (q : S → α) : Prog S α := .atomic id fun s => .pure (q s)

/-- A step that changes the state and returns what it found. -/
def update (f : S → S) (q : S → α) : Prog S α := .atomic f fun s => .pure (q s)

/-- What a program returns and leaves when no other takes a step. -/
def alone : Prog S α → S → α × S
  | .pure a, s => (a, s)
  | .atomic f k, s => (k s).alone (f s)

/-- A step that only looks, alone, returns what it sees. -/
theorem alone_read (q : S → α) (s : S) : (read q).alone s = (q s, s) := rfl

/-- One program after another, alone, starts where the first one ends. -/
theorem alone_bind (p : Prog S α) (g : α → Prog S β) (s : S) :
    (p >>= g).alone s = (g (p.alone s).1).alone (p.alone s).2 := by
  induction p generalizing s with
  | pure a => rfl
  | atomic f k ih => exact ih s (f s)

end Prog

/-! ## Programs alone -/

section Alone

variable {S α β : Type}

/-- A program that no other takes a step with ends so. -/
def Alone (p : Prog S α) (s : S) (Q : α → S → Prop) : Prop := Q (p.alone s).1 (p.alone s).2

/-- One program after another, alone. -/
theorem Alone.bind {p : Prog S α} {g : α → Prog S β} {s : S} {Q : β → S → Prop}
    (h : Alone p s fun a s' => Alone (g a) s' Q) : Alone (p >>= g) s Q := by
  unfold Alone
  rw [Prog.alone_bind]
  exact h

/-- A step that only looks, alone. -/
theorem Alone.read {q : S → α} {s : S} {Q : α → S → Prop} (h : Q (q s) s) : Alone (Prog.read q) s Q := h

/-- A program ends alone for a weaker conclusion. -/
theorem Alone.imp {p : Prog S α} {s : S} {Q Q' : α → S → Prop} (h : Alone p s Q) (himp : ∀ a s', Q a s' → Q' a s') :
    Alone p s Q' := himp _ _ h

end Alone

/-! ## Runs -/

/-- The shared state and what is left of the programs that run on it. -/
structure System (S : Type) where
  /-- The shared state. -/
  state : S
  /-- The programs. -/
  procs : List (Prog S Unit) := []

/-- What can happen next. -/
inductive Move (S E : Type) where
  /-- A program starts. -/
  | start (p : Prog S Unit)
  /-- A program takes its next step. -/
  | step (i : ℕ)
  /-- The environment acts. -/
  | env (e : E)

section Runs

variable {S E : Type} (env : E → S → S)

/-- What a move does, `none` where it cannot happen. -/
def System.move (st : System S) : Move S E → Option (System S)
  | .start p => some { st with procs := st.procs ++ [p] }
  | .step i =>
    match st.procs[i]? with
    | some (.atomic f k) => some ⟨f st.state, st.procs.set i (k st.state)⟩
    | _ => none
  | .env e => some { st with state := env e st.state }

/-- The system after a list of moves. -/
def System.run : System S → List (Move S E) → Option (System S)
  | st, [] => some st
  | st, m :: ms => (st.move env m).bind fun st' => System.run st' ms

end Runs

/-! ## What is shown of one program -/

section Safety

variable {S α β : Type} (I : S → Prop) (R : S → S → Prop)

/-- From any state that the invariant holds of and that everything seen so far leads to, a program's steps keep
the invariant and do what others rely on, and what it returns satisfies `Q` with all it saw. -/
def Safe : List S → Prog S α → (List S → α → Prop) → Prop
  | past, .pure a, Q => Q past a
  | past, .atomic f k, Q => ∀ s, I s → (∀ d ∈ past, R d s) →
    I (f s) ∧ R s (f s) ∧ Safe (f s :: past) (k s) Q

variable {I R}

/-- A program after another, given what the first one returns. -/
theorem Safe.bind {p : Prog S α} {g : α → Prog S β} {past : List S} {Q : List S → β → Prop}
    (h : Safe I R past p fun past' a => Safe I R past' (g a) Q) : Safe I R past (p >>= g) Q := by
  induction p generalizing past with
  | pure a => exact h
  | atomic f k ih =>
    intro s hs hpast
    obtain ⟨hI, hR, hk⟩ := h s hs hpast
    exact ⟨hI, hR, ih s hk⟩

/-- A safe program is safe for a weaker conclusion. -/
theorem Safe.imp {p : Prog S α} {past : List S} {Q Q' : List S → α → Prop} (h : Safe I R past p Q)
    (himp : ∀ past' a, Q past' a → Q' past' a) : Safe I R past p Q' := by
  induction p generalizing past with
  | pure a => exact himp _ _ h
  | atomic f k ih =>
    intro s hs hpast
    obtain ⟨hI, hR, hk⟩ := h s hs hpast
    exact ⟨hI, hR, ih s hk⟩

/-- What a program saw when it returns includes what it had seen before. -/
theorem Safe.subset {p : Prog S α} {past : List S} {Q : List S → α → Prop} (h : Safe I R past p Q) :
    Safe I R past p fun past' a => past ⊆ past' ∧ Q past' a := by
  induction p generalizing past with
  | pure a => exact ⟨List.Subset.refl _, h⟩
  | atomic f k ih =>
    intro s hs hpast
    obtain ⟨hI, hR, hk⟩ := h s hs hpast
    refine ⟨hI, hR, (ih s hk).imp fun past' a hQ => ⟨?_, hQ.2⟩⟩
    exact List.Subset.trans (List.subset_cons_self _ _) hQ.1

/-- One program, then what goes on from all it saw and returned. -/
theorem Safe.seq {p : Prog S α} {g : α → Prog S β} {past : List S} {Q : List S → α → Prop} {Q' : List S → β → Prop}
    (h : Safe I R past p Q) (hg : ∀ past' a, past ⊆ past' → Q past' a → Safe I R past' (g a) Q') :
    Safe I R past (p >>= g) Q' :=
  Safe.bind (h.subset.imp fun past' a ⟨hsub, hQ⟩ => hg past' a hsub hQ)

/-- A step that only looks is safe. -/
theorem Safe.read (hrefl : ∀ s, R s s) {q : S → α} {past : List S} {Q : List S → α → Prop}
    (h : ∀ s, I s → (∀ d ∈ past, R d s) → Q (s :: past) (q s)) : Safe I R past (Prog.read q) Q :=
  fun s hs hpast => ⟨hs, hrefl s, h s hs hpast⟩

/-- A step that changes the state as others may rely on is safe. -/
theorem Safe.update {f : S → S} {q : S → α} {past : List S} {Q : List S → α → Prop}
    (h : ∀ s, I s → (∀ d ∈ past, R d s) → I (f s) ∧ R s (f s) ∧ Q (f s :: past) (q s)) :
    Safe I R past (Prog.update f q) Q := h

/-! ## Programs that only look -/

/-- Every step of a program only looks, and what it returns satisfies `Q`, whatever it saw. -/
def Looks : Prog S α → (α → Prop) → Prop
  | .pure a, Q => Q a
  | .atomic f k, Q => f = id ∧ ∀ s, Looks (k s) Q

/-- A step that looks only looks. -/
theorem Looks.read {q : S → α} {Q : α → Prop} (h : ∀ s, Q (q s)) : Looks (Prog.read q) Q := ⟨rfl, h⟩

/-- Looking, then looking again, only looks. -/
theorem Looks.bind {p : Prog S α} {g : α → Prog S β} {Q : β → Prop} (h : Looks p fun a => Looks (g a) Q) :
    Looks (p >>= g) Q := by
  induction p with
  | pure a => exact h
  | atomic f k ih => exact ⟨h.1, fun s => ih s (h.2 s)⟩

/-- A program that only looks does so for a weaker conclusion. -/
theorem Looks.imp {p : Prog S α} {Q Q' : α → Prop} (h : Looks p Q) (himp : ∀ a, Q a → Q' a) : Looks p Q' := by
  induction p with
  | pure a => exact himp a h
  | atomic f k ih => exact ⟨h.1, fun s => ih s (h.2 s)⟩

/-- A program that only looks reaches two conclusions at once. -/
theorem Looks.and {p : Prog S α} {Q Q' : α → Prop} (h : Looks p Q) (h' : Looks p Q') : Looks p fun a => Q a ∧ Q' a := by
  induction p with
  | pure a => exact ⟨h, h'⟩
  | atomic f k ih => exact ⟨h.1, fun s => ih s (h.2 s) (h'.2 s)⟩

/-- A program that only looks keeps every invariant. -/
theorem Looks.safe (hrefl : ∀ s, R s s) {p : Prog S α} {Q : α → Prop} (h : Looks p Q) (past : List S) :
    Safe I R past p fun past' a => past ⊆ past' ∧ Q a := by
  suffices hsafe : ∀ past : List S, Safe I R past p fun _ a => Q a from (hsafe past).subset
  induction p with
  | pure a => exact fun _ => h
  | atomic f k ih =>
    intro past s hs _
    obtain ⟨rfl, hk⟩ := h
    exact ⟨hs, hrefl s, ih s (hk s) _⟩

/-! ## What holds of every run -/

variable {E : Type} {env : E → S → S}

/-- The invariant holds, and what is left of every program is safe from here and ends having seen `Q`. -/
structure Kept (I : S → Prop) (R : S → S → Prop) (Q : List S → Prop) (st : System S) : Prop where
  /-- The invariant. -/
  state : I st.state
  /-- The programs. -/
  procs : ∀ p ∈ st.procs, ∃ past, (∀ d ∈ past, R d st.state) ∧ Safe I R past p fun past' _ => Q past'

section Moves

variable (hrefl : ∀ s, R s s) (htrans : ∀ a b c, R a b → R b c → R a c)
  (henv : ∀ e s, I s → I (env e s) ∧ R s (env e s)) {Q : List S → Prop}

include hrefl htrans henv

/-- A move of safe programs keeps the invariant. -/
theorem Kept.move {st st' : System S} (h : Kept I R Q st) {m : Move S E}
    (hstart : ∀ p, m = .start p → Safe I R [] p fun past' _ => Q past') (hmove : st.move env m = some st') :
    Kept I R Q st' := by
  cases m with
  | start p =>
    obtain rfl := Option.some.inj hmove
    refine ⟨h.state, fun q hq => ?_⟩
    rcases List.mem_append.mp hq with hq | hq
    · exact h.procs q hq
    · rw [List.mem_singleton.mp hq]
      exact ⟨[], by simp, hstart p rfl⟩
  | step i =>
    unfold System.move at hmove
    dsimp only at hmove
    split at hmove
    · rename_i f k hi
      obtain rfl := Option.some.inj hmove
      obtain ⟨past, hpast, hsafe⟩ := h.procs _ (List.mem_of_getElem? hi)
      obtain ⟨hI, hR, hk⟩ := hsafe st.state h.state hpast
      refine ⟨hI, fun q hq => ?_⟩
      rcases List.mem_or_eq_of_mem_set hq with hq | rfl
      · -- The others go on from the state this step leaves.
        obtain ⟨past', hpast', hsafe'⟩ := h.procs q hq
        exact ⟨past', fun d hd => htrans _ _ _ (hpast' d hd) hR, hsafe'⟩
      · refine ⟨f st.state :: past, fun d hd => ?_, hk⟩
        rcases List.mem_cons.mp hd with rfl | hd
        · exact hrefl _
        · exact htrans _ _ _ (hpast d hd) hR
    · simp at hmove
  | env e =>
    obtain rfl := Option.some.inj hmove
    obtain ⟨hI, hR⟩ := henv e st.state h.state
    refine ⟨hI, fun q hq => ?_⟩
    obtain ⟨past, hpast, hsafe⟩ := h.procs q hq
    exact ⟨past, fun d hd => htrans _ _ _ (hpast d hd) hR, hsafe⟩

/-- In every run of safe programs the invariant holds of the state reached, and those that ended saw `Q`. -/
theorem run_kept {ms : List (Move S E)} (hstart : ∀ p, Move.start p ∈ ms → Safe I R [] p fun past' _ => Q past')
    {st st' : System S} (h : Kept I R Q st) (hrun : st.run env ms = some st') : Kept I R Q st' := by
  induction ms generalizing st with
  | nil =>
    obtain rfl := Option.some.inj hrun
    exact h
  | cons m ms ih =>
    obtain ⟨mid, hmove, hrest⟩ := Option.bind_eq_some_iff.mp hrun
    refine ih (fun p hp => hstart p (List.mem_cons_of_mem _ hp)) ?_ hrest
    exact h.move hrefl htrans henv (fun p hp => hstart p (hp ▸ List.mem_cons_self)) hmove

end Moves

/-- The invariant holds, and what is left of every program is safe from here. -/
structure Sound (I : S → Prop) (R : S → S → Prop) (st : System S) : Prop where
  /-- The invariant. -/
  state : I st.state
  /-- The programs. -/
  procs : ∀ p ∈ st.procs, ∃ past, (∀ d ∈ past, R d st.state) ∧ Safe I R past p fun _ _ => True

/-- In every run of safe programs the invariant holds of the state reached. -/
theorem run_invariant (hrefl : ∀ s, R s s) (htrans : ∀ a b c, R a b → R b c → R a c)
    (henv : ∀ e s, I s → I (env e s) ∧ R s (env e s)) {ms : List (Move S E)}
    (hstart : ∀ p, Move.start p ∈ ms → Safe I R [] p fun _ _ => True) {st st' : System S} (h : Sound I R st)
    (hrun : st.run env ms = some st') : Sound I R st' := by
  obtain ⟨hstate, hprocs⟩ := run_kept hrefl htrans henv hstart ⟨h.state, h.procs⟩ hrun
  exact ⟨hstate, hprocs⟩

end Safety

end Interleave
