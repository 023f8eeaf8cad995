import UpgradeScope.Lib.Utf8
import UpgradeScope.Lib.Runs

/-!
# A secret that follows its file

`internal/secretfile/secretfile.go`: a `File` holds the value in service and the stamp (identity, modification time
and size) of the file it was loaded from. A check stats the path, and where the stamp differs reads the file,
validates what it read and takes it; the stamp it keeps is the one it saw before it read. The file may change at any
point, between a check's stat and its read included, each time to a stamp it never had.

`Sound` says what the stamp is worth: while the path still has it, the value in service is what the path holds. Every
step keeps it, so a check that finds the stamp unchanged has nothing to do, and any other one reads.
-/

namespace UpgradeScope.SecretFile

open Utf8

/-! ## The file -/

/-- `os.FileInfo` as `sameFile` compares it. -/
structure Stamp where
  /-- The file's identity. -/
  identity : ℕ
  /-- Its modification time. -/
  modTime : ℤ
  /-- Its size. -/
  size : ℕ
  deriving DecidableEq

/-- What `os.Stat` returns. -/
inductive Stat where
  /-- `fs.ErrNotExist`. -/
  | notExist
  /-- Another error. -/
  | failed (msg : String)
  /-- The file's stamp. -/
  | info (st : Stamp)

/-- What opening a file and reading it gives. -/
inductive Contents where
  /-- An error. -/
  | failed (msg : String)
  /-- The bytes. -/
  | raw (bytes : Bytes)

/-- `MaxSize`. -/
def maxSize : ℕ := 64 * 1024

/-- Why a value was not taken. -/
inductive ReadError where
  /-- The file could not be opened or read. -/
  | failed (msg : String)
  /-- It is larger than `maxSize`. -/
  | oversized
  /-- It is empty: `errEmpty`. -/
  | empty
  /-- The validator refused the value. -/
  | refused (msg : String)

/-- The error's text. -/
def ReadError.text (path : String) : ReadError → String
  | .failed msg => msg
  | .oversized => path ++ " is larger than " ++ toString maxSize ++ " bytes"
  | .empty => path ++ " is empty"
  | .refused msg => path ++ ": " ++ msg

/-- `File.read`: the trimmed contents, refused when empty, oversized or refused by the validator. -/
def read (validate : Bytes → Option String) : Contents → Except ReadError Bytes
  | .failed msg => .error (.failed msg)
  | .raw bytes =>
    if bytes.length > maxSize then .error .oversized
    else if trimSpace bytes = [] then .error .empty
    else match validate (trimSpace bytes) with
      | some msg => .error (.refused msg)
      | none => .ok (trimSpace bytes)

/-- `File`, under its locks. -/
structure File where
  /-- The path. -/
  path : String
  /-- `Optional`: the file may be missing or empty at `Open`. -/
  optional : Bool := false
  /-- `RemovalClears`: a file that was removed clears the value. -/
  removalClears : Bool := false
  /-- The value in service. -/
  value : Bytes := []
  /-- The stamp of the file it was loaded from, if any. -/
  stamp : Option Stamp := none
  /-- The last failure logged, "" for none since the last load. -/
  failure : String := ""
  /-- The log, each line with whether it is an error. -/
  log : List (Bool × String) := []

namespace File

variable (f : File)

/-- `File.fail`: the value stays in service, and the reason is logged once. -/
def fail (msg : String) : File :=
  if msg ≠ f.failure then
    { f with failure := msg, log := f.log ++ [(true, "secretfile: " ++ msg ++ "; keeping the previous value")] }
  else f

/-- The error of a stat of a missing file. -/
def missing : String := "stat " ++ f.path ++ ": no such file or directory"

/-- `reloadIfChanged` up to the read: the file, and the stamp to read it under. -/
def onStat : Stat → File × Option Stamp
  | .notExist =>
    if f.optional ∧ f.stamp = none then (f, none)
    else if f.removalClears ∧ f.stamp ≠ none then
      ({ f with
        stamp := none
        value := []
        failure := ""
        log := f.log ++ [(false, "secretfile: " ++ f.path ++ " was removed: its value is no longer in service")] }, none)
    else (f.fail f.missing, none)
  | .failed msg => (f.fail msg, none)
  | .info st => if f.stamp = some st then (f, none) else (f, some st)

/-- `reloadIfChanged` from the read on. -/
def onRead (st : Stamp) : Except ReadError Bytes → File
  | .error e => f.fail (e.text f.path)
  | .ok v =>
    { f with
      stamp := some st
      failure := ""
      value := v
      log := f.log ++ [(false, "secretfile: " ++ f.path ++ " reloaded")] }

/-- `Open` up to the read: the error it fails with, or the stamp to read the file under, if there is one. -/
def onOpenStat : Stat → Except String (Option Stamp)
  | .notExist => if f.optional then .ok none else .error f.missing
  | .failed msg => .error msg
  | .info st => .ok (some st)

/-- `Open` from the read on. -/
def onOpenRead (st : Stamp) : Except ReadError Bytes → Except String File
  | .ok v => .ok { f with value := v, stamp := some st }
  | .error .empty =>
    if f.optional then .ok { f with value := [], stamp := some st } else .error (ReadError.empty.text f.path)
  | .error e => .error (e.text f.path)

/-- `Open`, whose stat and read find these. -/
def opened (validate : Bytes → Option String) (stat : Stat) (c : Contents) : Except String File :=
  match f.onOpenStat stat with
  | .error msg => .error msg
  | .ok none => .ok f
  | .ok (some st) => f.onOpenRead st (read validate c)

end File

/-! ## The file changes meanwhile -/

/-- What is at the path. -/
inductive Path where
  /-- Nothing. -/
  | absent
  /-- Something that cannot be looked at. -/
  | hidden (msg : String)
  /-- A file. -/
  | present (st : Stamp) (contents : Contents)

/-- What a stat of the path returns. -/
def Path.stat : Path → Stat
  | .absent => .notExist
  | .hidden msg => .failed msg
  | .present st _ => .info st

/-- The stamp at the path. -/
def Path.stamp : Path → Option Stamp
  | .present st _ => some st
  | _ => none

/-- Where the `File` is: `changed` is whether the path changed since the stat. -/
inductive Phase where
  /-- `Open` was not called. -/
  | closed
  /-- `Open` is to read. -/
  | opening (st : Stamp) (changed : Bool)
  /-- `Open` failed. -/
  | failed (msg : String)
  /-- No check is under way. -/
  | idle
  /-- A check is to read. -/
  | reading (st : Stamp) (changed : Bool)

/-- The path changed: a read under way no longer reads what its stat saw. -/
def Phase.stir : Phase → Phase
  | .opening st _ => .opening st true
  | .reading st _ => .reading st true
  | p => p

/-- The path and the `File` that follows it. -/
structure State where
  /-- What is at the path. -/
  path : Path
  /-- Every stamp the path has had. -/
  past : List Stamp
  /-- The `File`. -/
  file : File
  /-- Where it is. -/
  phase : Phase := .closed

namespace State

variable (s : State)

/-- A write, a replacement or a removal of the file. -/
def change (p : Path) : State :=
  { s with path := p, past := p.stamp.toList ++ s.past, phase := s.phase.stir }

/-- `Open` stats the path. -/
def openStat : State :=
  match s.file.onOpenStat s.path.stat with
  | .error msg => { s with phase := .failed msg }
  | .ok none => { s with phase := .idle }
  | .ok (some st) => { s with phase := .opening st false }

/-- `Open` reads the file it saw. -/
def openRead (st : Stamp) (validate : Bytes → Option String) (c : Contents) : State :=
  match s.file.onOpenRead st (SecretFile.read validate c) with
  | .error msg => { s with phase := .failed msg }
  | .ok f => { s with file := f, phase := .idle }

/-- A check stats the path. -/
def stat : State :=
  match s.file.onStat s.path.stat with
  | (f, none) => { s with file := f, phase := .idle }
  | (f, some st) => { s with file := f, phase := .reading st false }

/-- A check reads the file. -/
def read (st : Stamp) (validate : Bytes → Option String) (c : Contents) : State :=
  { s with file := s.file.onRead st (SecretFile.read validate c), phase := .idle }

/-- A whole check, of a path that does not change meanwhile and whose contents are `c`. -/
def check (validate : Bytes → Option String) (c : Contents) : State :=
  match s.stat.phase with
  | .reading st _ => s.stat.read st validate c
  | _ => s.stat

end State

/-- What a read may give: what is at the path, where it did not change since the stat, and anything otherwise (a part
of it, or of the file that was there before). -/
def Readable (s : State) (st : Stamp) (changed : Bool) (c : Contents) : Prop := changed = false → s.path = .present st c

/-- One step of a run. -/
inductive Step : State → State → Prop where
  /-- The path changes, to a stamp it never had. -/
  | change {s : State} (p : Path) : (∀ st, p.stamp = some st → st ∉ s.past) → Step s (s.change p)
  /-- `Open` stats. -/
  | openStat {s : State} : s.phase = .closed → Step s s.openStat
  /-- `Open` reads. -/
  | openRead {s : State} {st : Stamp} {changed : Bool} (validate : Bytes → Option String) (c : Contents) :
      s.phase = .opening st changed → Readable s st changed c → Step s (s.openRead st validate c)
  /-- A check stats. -/
  | stat {s : State} : s.phase = .idle → Step s s.stat
  /-- A check reads. -/
  | read {s : State} {st : Stamp} {changed : Bool} (validate : Bytes → Option String) (c : Contents) :
      s.phase = .reading st changed → Readable s st changed c → Step s (s.read st validate c)

/-- The states of every run of `Open` and of checks. -/
def Reaches (path : Path) (opts : File) (s : State) : Prop :=
  Relation.ReflTransGen Step
    { path := path, past := path.stamp.toList, file := { opts with value := [], stamp := none } } s

/-! ## What a stamp is worth -/

variable {st : Stamp} {c : Contents} (f : File)

/-- A read that is taken took the trimmed contents, which are not empty and which the validator accepts. -/
theorem read_eq_ok {validate : Bytes → Option String} {v : Bytes} :
    read validate c = .ok v ↔
      ∃ bytes, c = .raw bytes ∧ bytes.length ≤ maxSize ∧ v = trimSpace bytes ∧ v ≠ [] ∧ validate v = none := by
  cases c with
  | failed msg => simp [read]
  | raw bytes =>
    simp only [read, Contents.raw.injEq, exists_eq_left']
    -- The checks in the order they are made.
    by_cases hlarge : bytes.length > maxSize
    · simp [hlarge]
    rw [if_neg hlarge]
    by_cases hempty : trimSpace bytes = []
    · rw [if_pos hempty]
      constructor
      · simp
      · rintro ⟨-, rfl, hne, -⟩
        exact absurd hempty hne
    rw [if_neg hempty]
    cases hv : validate (trimSpace bytes) with
    | some msg =>
      constructor
      · simp
      · rintro ⟨-, rfl, -, hnone⟩
        simp [hv] at hnone
    | none =>
      constructor
      · intro h
        obtain rfl : trimSpace bytes = v := by simpa using h
        exact ⟨by omega, rfl, hempty, hv⟩
      · rintro ⟨-, rfl, -, -⟩
        rfl

/-- A read that fails for an empty secret found white space only. -/
theorem read_eq_empty {validate : Bytes → Option String} (h : read validate c = .error .empty) :
    ∃ bytes, c = .raw bytes ∧ trimSpace bytes = [] := by
  cases c with
  | failed msg => simp [read] at h
  | raw bytes =>
    refine ⟨bytes, rfl, ?_⟩
    by_contra hne
    by_cases hlarge : bytes.length > maxSize
    · simp [read, hlarge] at h
    · cases hv : validate (trimSpace bytes) <;> simp [read, hlarge, hne, hv] at h

@[simp] theorem File.fail_value (f : File) (msg : String) : (f.fail msg).value = f.value := by
  unfold File.fail
  split_ifs <;> rfl

@[simp] theorem File.fail_stamp (f : File) (msg : String) : (f.fail msg).stamp = f.stamp := by
  unfold File.fail
  split_ifs <;> rfl

/-- What a stat may do to the file: nothing, or clear it because it was removed and that was asked for. -/
theorem File.onStat_cases (st : Stat) :
    ((f.onStat st).1.value = f.value ∧ (f.onStat st).1.stamp = f.stamp) ∨
      st = .notExist ∧ f.removalClears = true ∧ (f.onStat st).1.value = [] ∧ (f.onStat st).1.stamp = none := by
  cases st with
  | notExist =>
    unfold File.onStat
    dsimp only
    split_ifs with hnever hclears
    · exact .inl ⟨rfl, rfl⟩
    · exact .inr ⟨rfl, hclears.1, rfl, rfl⟩
    · exact .inl ⟨File.fail_value _ _, File.fail_stamp _ _⟩
  | failed msg => exact .inl ⟨File.fail_value _ _, File.fail_stamp _ _⟩
  | info st =>
    unfold File.onStat
    dsimp only
    split_ifs <;> exact .inl ⟨rfl, rfl⟩

/-- What a stat of a file that is there asks for. -/
theorem File.onStat_info (st : Stamp) :
    f.onStat (.info st) = (f, if f.stamp = some st then none else some st) := by
  unfold File.onStat
  dsimp only
  split_ifs <;> rfl

/-- A file is read under the stamp the stat saw. -/
theorem File.onStat_some {f f' : File} {stat : Stat} (h : f.onStat stat = (f', some st)) :
    f' = f ∧ stat = .info st := by
  cases stat with
  | notExist =>
    unfold File.onStat at h
    dsimp only at h
    split_ifs at h <;> simp at h
  | failed msg => simp [File.onStat] at h
  | info st' =>
    rw [File.onStat_info] at h
    split_ifs at h with hsame
    · simp at h
    · obtain ⟨rfl, rfl⟩ : f = f' ∧ st' = st := by simpa using h
      exact ⟨rfl, rfl⟩

/-- The stamp that `Open` goes on with is what the file was found to be. -/
theorem File.onOpenStat_some {f : File} {stat : Stat} (h : f.onOpenStat stat = .ok (some st)) :
    stat = .info st := by
  cases stat with
  | notExist =>
    unfold File.onOpenStat at h
    dsimp only at h
    split_ifs at h
    simp at h
  | failed msg => simp [File.onOpenStat] at h
  | info st' => simpa [File.onOpenStat] using h

/-- A stat that sees a stamp sees the path's. -/
theorem Path.stamp_of_stat {p : Path} (h : p.stat = .info st) : p.stamp = some st := by
  cases p <;> simp_all [Path.stat, Path.stamp]

/-- The stamps of a state mean what they say. -/
structure Sound (s : State) : Prop where
  /-- The stamp at the path is one of those it has had. -/
  current : ∀ st, s.path.stamp = some st → st ∈ s.past
  /-- So is the stamp of the file. -/
  loaded : ∀ st, s.file.stamp = some st → st ∈ s.past
  /-- While the path has it, the value is what the path holds. -/
  value : ∀ st c, s.file.stamp = some st → s.path = .present st c →
    ∃ bytes, c = .raw bytes ∧ s.file.value = trimSpace bytes
  /-- A read under way has the stamp at the path, or the path has changed and never has it again. -/
  reading : ∀ st changed, s.phase = .opening st changed ∨ s.phase = .reading st changed →
    st ∈ s.past ∧ (changed = false → s.path.stamp = some st) ∧ (changed = true → s.path.stamp ≠ some st)

namespace Sound

variable {s : State}

/-- A change leaves every stamp there was behind. -/
theorem change (h : Sound s) {p : Path} (hfresh : ∀ st, p.stamp = some st → st ∉ s.past) : Sound (s.change p) where
  current st hst := by simp [State.change, show p.stamp = some st from hst]
  loaded st hst := List.mem_append_right _ (h.loaded st hst)
  value st c hst hpath := by
    have hpath : p = .present st c := hpath
    exact absurd (h.loaded st hst) (hfresh st (by simp [hpath, Path.stamp]))
  reading st changed hphase := by
    have hbefore : ∃ b, s.phase = .opening st b ∨ s.phase = .reading st b := by
      unfold State.change at hphase
      cases hp : s.phase <;> simp_all [Phase.stir]
    have hchanged : changed = true := by
      unfold State.change at hphase
      cases hp : s.phase <;> simp_all [Phase.stir]
    obtain ⟨b, hb⟩ := hbefore
    have hmem := (h.reading st b hb).1
    refine ⟨List.mem_append_right _ hmem, by simp [hchanged], fun _ hst => ?_⟩
    exact hfresh st hst hmem

/-- A file that keeps its stamp and value, and is not read. -/
theorem idle (h : Sound s) {f : File} {p : Phase} (hvalue : f.value = s.file.value) (hstamp : f.stamp = s.file.stamp)
    (hp : ∀ st changed, p ≠ .opening st changed ∧ p ≠ .reading st changed) : Sound { s with file := f, phase := p } where
  current := h.current
  loaded st hst := h.loaded st (hstamp ▸ hst)
  value st c hst hpath := by
    obtain ⟨bytes, hc, hv⟩ := h.value st c (hstamp ▸ hst) hpath
    exact ⟨bytes, hc, hvalue.trans hv⟩
  reading st changed hphase := by
    rcases hphase with hphase | hphase
    · exact absurd hphase (hp st changed).1
    · exact absurd hphase (hp st changed).2

/-- A read is to come, of the file at the path. -/
theorem toRead (h : Sound s) {st : Stamp} {p : Phase} (hpath : s.path.stamp = some st)
    (hp : p = .opening st false ∨ p = .reading st false) : Sound { s with phase := p } where
  current := h.current
  loaded := h.loaded
  value := h.value
  reading st' changed hphase := by
    obtain ⟨rfl, rfl⟩ : st' = st ∧ changed = false := by
      rcases hp with rfl | rfl <;> simp_all
    exact ⟨h.current _ hpath, fun _ => hpath, by simp⟩

/-- What was read is taken, under the stamp the stat saw. -/
theorem load (h : Sound s) {st : Stamp} {changed : Bool} {c : Contents} {bytes : Bytes} {f : File}
    (hphase : s.phase = .opening st changed ∨ s.phase = .reading st changed) (hc : Readable s st changed c)
    (hbytes : c = .raw bytes) (hstamp : f.stamp = some st) (hvalue : f.value = trimSpace bytes) :
    Sound { s with file := f, phase := .idle } := by
  obtain ⟨hmem, hsame, hother⟩ := h.reading st changed hphase
  refine ⟨h.current, fun st' hst' => ?_, fun st' c' hst' hpath => ?_, by simp⟩
  · obtain rfl : st = st' := by simpa [hstamp] using hst'
    exact hmem
  · obtain rfl : st = st' := by simpa [hstamp] using hst'
    have hpath : s.path = .present st c' := hpath
    cases changed with
    | false =>
      -- The path did not change: what was read is what it holds.
      have heq := (hc rfl).symm.trans hpath
      obtain rfl : c = c' := by simpa using heq
      exact ⟨bytes, hbytes, hvalue⟩
    | true => exact absurd (by simp [hpath, Path.stamp]) (hother rfl)

/-- Every step of a run keeps a sound state sound. -/
theorem step {s' : State} (h : Sound s) (hstep : Step s s') : Sound s' := by
  -- Only a read loads. The other steps keep the value and its stamp, or clear both.
  cases hstep with
  | change p hfresh => exact h.change hfresh
  | openStat _ =>
    unfold State.openStat
    cases ho : s.file.onOpenStat s.path.stat with
    | error msg => exact h.idle (p := .failed msg) rfl rfl (by simp)
    | ok st =>
      cases st with
      | none => exact h.idle (p := .idle) rfl rfl (by simp)
      | some st => exact h.toRead (Path.stamp_of_stat (File.onOpenStat_some ho)) (.inl rfl)
  | @openRead st changed validate c hphase hc =>
    unfold State.openRead
    cases hread : read validate c with
    | ok v =>
      obtain ⟨bytes, hbytes, -, rfl, -, -⟩ := read_eq_ok.mp hread
      exact h.load (.inl hphase) hc hbytes rfl rfl
    | error e =>
      cases e with
      | empty =>
        obtain ⟨bytes, hbytes, hempty⟩ := read_eq_empty hread
        simp only [File.onOpenRead]
        by_cases hoptional : s.file.optional = true
        · rw [if_pos hoptional]
          exact h.load (.inl hphase) hc hbytes rfl hempty.symm
        · rw [if_neg hoptional]
          exact h.idle (p := .failed _) rfl rfl (by simp)
      | _ => exact h.idle (p := .failed _) rfl rfl (by simp)
  | stat _ =>
    have hcases := s.file.onStat_cases s.path.stat
    unfold State.stat
    generalize ho : s.file.onStat s.path.stat = r at hcases
    obtain ⟨f, _ | st⟩ := r
    · rcases hcases with ⟨hvalue, hstamp⟩ | ⟨-, -, -, hstamp⟩
      · exact h.idle (p := .idle) hvalue hstamp (by simp)
      · exact ⟨h.current, by simp_all, by simp_all, by simp⟩
    · obtain ⟨rfl, hinfo⟩ := File.onStat_some ho
      exact h.toRead (Path.stamp_of_stat hinfo) (.inr rfl)
  | @read st changed validate c hphase hc =>
    unfold State.read
    cases hread : SecretFile.read validate c with
    | ok v =>
      obtain ⟨bytes, hbytes, -, rfl, -, -⟩ := read_eq_ok.mp hread
      exact h.load (.inr hphase) hc hbytes rfl rfl
    | error e => exact h.idle (p := .idle) (File.fail_value _ _) (File.fail_stamp _ _) (by simp)

/-- Nothing is loaded before `Open`. -/
theorem start (path : Path) (opts : File) :
    Sound { path := path, past := path.stamp.toList, file := { opts with value := [], stamp := none } } :=
  ⟨by simp, by simp, by simp, by simp⟩

/-- Every state of a run is sound. -/
theorem of_reaches {path : Path} {opts : File} (h : Reaches path opts s) : Sound s :=
  Runs.of_run h (start path opts) Sound.step

end Sound

/-! ## What is in service -/

@[simp] theorem File.fail_removalClears (f : File) (msg : String) : (f.fail msg).removalClears = f.removalClears := by
  unfold File.fail
  split_ifs <;> rfl

theorem File.onStat_removalClears (f : File) (st : Stat) : (f.onStat st).1.removalClears = f.removalClears := by
  cases st with
  | notExist =>
    unfold File.onStat
    dsimp only
    split_ifs <;> simp
  | failed msg => simp [File.onStat]
  | info st => rw [File.onStat_info]

variable {s : State} {st : Stamp} {c : Contents} {opts : File} {path : Path}

theorem File.onOpenRead_removalClears {f f' : File} {r : Except ReadError Bytes} (h : f.onOpenRead st r = .ok f') :
    f'.removalClears = f.removalClears := by
  rcases r with (_ | _ | _ | _) | v
  all_goals simp only [File.onOpenRead] at h
  case ok => simp [← Except.ok.inj h]
  case error.empty =>
    split_ifs at h
    simp [← Except.ok.inj h]
  all_goals simp at h

/-- The file a stat leaves. -/
theorem State.stat_file (s : State) : s.stat.file = (s.file.onStat s.path.stat).1 := by
  unfold State.stat
  generalize s.file.onStat s.path.stat = r
  obtain ⟨f, _ | st⟩ := r <;> rfl

/-- No step changes whether a removal clears the value. -/
theorem Step.removalClears {s s' : State} (h : Step s s') : s'.file.removalClears = s.file.removalClears := by
  cases h with
  | change p _ => rfl
  | openStat _ =>
    unfold State.openStat
    rcases s.file.onOpenStat s.path.stat with msg | _ | st <;> rfl
  | @openRead st _ validate c _ _ =>
    unfold State.openRead
    cases ho : s.file.onOpenRead st (SecretFile.read validate c) with
    | error msg => rfl
    | ok f => exact File.onOpenRead_removalClears ho
  | stat _ => rw [State.stat_file, File.onStat_removalClears]
  | read validate c _ _ =>
    unfold State.read
    cases SecretFile.read validate c with
    | ok v => rfl
    | error e => exact File.fail_removalClears _ _

/-- No run changes whether a removal clears the value. -/
theorem removalClears_of_reaches (h : Reaches path opts s) :
    s.file.removalClears = opts.removalClears :=
  Runs.of_run (I := fun s => s.file.removalClears = opts.removalClears) h rfl fun hs hstep => hstep.removalClears.trans hs

/-- A stat leaves the value alone, or clears it after a removal, where that was asked for. -/
theorem State.stat_value (s : State) :
    s.stat.file.value = s.file.value ∨
      s.path = .absent ∧ s.file.removalClears = true ∧ s.stat.file.value = [] := by
  rw [State.stat_file]
  rcases s.file.onStat_cases s.path.stat with ⟨hvalue, -⟩ | ⟨hstat, hclears, hvalue, -⟩
  · exact .inl hvalue
  · have habsent : s.path = .absent := by
      cases hp : s.path <;> simp_all [Path.stat]
    exact .inr ⟨habsent, hclears, hvalue⟩

/-- A read leaves the value alone, or puts one in service that is not empty and that the validator accepts. -/
theorem State.read_value (s : State) (st : Stamp) (validate : Bytes → Option String) (c : Contents) :
    (s.read st validate c).file.value = s.file.value ∨
      (s.read st validate c).file.value ≠ [] ∧ validate (s.read st validate c).file.value = none := by
  unfold State.read
  cases hread : SecretFile.read validate c with
  | ok v =>
    obtain ⟨-, -, -, -, hne, hvalid⟩ := read_eq_ok.mp hread
    exact .inr ⟨hne, hvalid⟩
  | error e => exact .inl (File.fail_value _ _)

/-- A check of a file that is there: it has nothing to do, or it reads. -/
theorem State.check_eq (validate : Bytes → Option String) (hpath : s.path = .present st c) :
    s.check validate c =
      if s.file.stamp = some st then { s with phase := .idle }
      else { s with file := s.file.onRead st (SecretFile.read validate c), phase := .idle } := by
  unfold State.check State.stat
  rw [hpath]
  simp only [Path.stat, File.onStat_info]
  split_ifs <;> rfl

/-- A check of a file that is there is a run. -/
theorem Reaches.check (h : Reaches path opts s) (validate : Bytes → Option String) (hphase : s.phase = .idle)
    (hpath : s.path = .present st c) :
    Reaches path opts (s.check validate c) := by
  have hstat : Reaches path opts s.stat := h.tail (.stat hphase)
  have hsame : s.stat.path = .present st c := by
    unfold State.stat
    generalize s.file.onStat s.path.stat = r
    obtain ⟨f, _ | st'⟩ := r <;> exact hpath
  unfold State.check
  cases hp : s.stat.phase with
  | reading st' changed =>
    have hsound := (Sound.of_reaches hstat).reading st' changed (.inr hp)
    refine hstat.tail (.read validate c hp fun hchanged => ?_)
    have hst' := hsound.2.1 hchanged
    rw [hsame] at hst' ⊢
    simpa [Path.stamp] using hst'
  | _ => exact hstat

/-- A rotated secret is never missed: in every run, a check of a file that does not change meanwhile, and whose trimmed
content is not empty, within the size limit and accepted, leaves that content in service. No check puts an empty or a
refused value in service, but for the clearing of a removed file where that was asked for. -/
theorem rotation_never_missed {path : Path} {opts : File} {s : State} (h : Reaches path opts s) :
    (∀ (st : Stamp) (raw : Bytes) (validate : Bytes → Option String), s.phase = .idle → s.path = .present st (.raw raw) →
      raw.length ≤ maxSize → trimSpace raw ≠ [] → validate (trimSpace raw) = none →
        Reaches path opts (s.check validate (.raw raw)) ∧ (s.check validate (.raw raw)).phase = .idle ∧
          (s.check validate (.raw raw)).file.value = trimSpace raw) ∧
    (s.stat.file.value = s.file.value ∨
      s.path = .absent ∧ opts.removalClears = true ∧ s.stat.file.value = []) ∧
    ∀ (st : Stamp) (validate : Bytes → Option String) (c : Contents),
      (s.read st validate c).file.value = s.file.value ∨
        (s.read st validate c).file.value ≠ [] ∧ validate (s.read st validate c).file.value = none := by
  refine ⟨fun st raw validate hphase hpath hsize hne hvalid => ?_, ?_, s.read_value⟩
  · refine ⟨h.check validate hphase hpath, ?_, ?_⟩
    · rw [State.check_eq validate hpath]
      split_ifs <;> rfl
    · rw [State.check_eq validate hpath]
      by_cases hstamp : s.file.stamp = some st
      · -- The stamp is the one the value was loaded under.
        obtain ⟨bytes, hbytes, hvalue⟩ := (Sound.of_reaches h).value st _ hstamp hpath
        obtain rfl : raw = bytes := by simpa using hbytes
        rw [if_pos hstamp]
        exact hvalue
      · have hread : SecretFile.read validate (.raw raw) = .ok (trimSpace raw) :=
          read_eq_ok.mpr ⟨raw, rfl, hsize, rfl, hne, hvalid⟩
        rw [if_neg hstamp, hread]
        rfl
  · rw [← removalClears_of_reaches h]
    exact s.stat_value

/-- A secret "a" that was opened and then replaced by "b". -/
def rotated : State :=
  let s : State := { path := .present ⟨1, 1, 1⟩ (.raw [97]), past := [⟨1, 1, 1⟩], file := { path := "token" } }
  (s.openStat.openRead ⟨1, 1, 1⟩ (fun _ => none) (.raw [97])).change (.present ⟨2, 2, 1⟩ (.raw [98]))

theorem trimSpace_a : trimSpace [97] = [97] := by
  rw [trimSpace, trimLeftSpace, dif_neg (by decide), trimRightSpace, dif_neg (by decide)]

theorem trimSpace_b : trimSpace [98] = [98] := by
  rw [trimSpace, trimLeftSpace, dif_neg (by decide), trimRightSpace, dif_neg (by decide)]

theorem rotated_eq :
    rotated = {
      path := .present ⟨2, 2, 1⟩ (.raw [98])
      past := [⟨2, 2, 1⟩, ⟨1, 1, 1⟩]
      file := { path := "token", value := [97], stamp := some ⟨1, 1, 1⟩ }
      phase := .idle } := by
  simp [rotated, State.openStat, State.openRead, State.change, File.onOpenStat, File.onOpenRead, Path.stat, Path.stamp,
    SecretFile.read, trimSpace_a, maxSize, Phase.stir]

theorem reaches_rotated : Reaches (.present ⟨1, 1, 1⟩ (.raw [97])) { path := "token" } rotated := by
  refine .tail (.tail (.tail .refl (.openStat rfl)) ?_) (.change _ ?_)
  · exact .openRead (fun _ => none) (.raw [97]) rfl fun _ => rfl
  · intro st hst
    obtain rfl : (⟨2, 2, 1⟩ : Stamp) = st := by simpa [Path.stamp] using hst
    simp [State.openStat, State.openRead, File.onOpenStat, File.onOpenRead, Path.stat, SecretFile.read, trimSpace_a, maxSize]

/-- The next check takes the new value. -/
theorem rotation_never_missed_rotated :
    rotated.file.value = [97] ∧ (rotated.check (fun _ => none) (.raw [98])).file.value = trimSpace [98] ∧
      trimSpace [98] = [98] :=
  ⟨by rw [rotated_eq], ((rotation_never_missed reaches_rotated).1 ⟨2, 2, 1⟩ [98] (fun _ => none) (by rw [rotated_eq])
    (by rw [rotated_eq]) (by decide) (by simp [trimSpace_b]) rfl).2.2, trimSpace_b⟩

end UpgradeScope.SecretFile
