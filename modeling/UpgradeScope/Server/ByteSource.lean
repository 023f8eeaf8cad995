import Mathlib.Data.List.GetD
import UpgradeScope.Lib.Utf8

/-!
# A request body read by offset

`byteSource` of `internal/server/yamlcost.go` reads a buffered body by byte offset without copying its
chunks together. It keeps the chunk of the last read, and searches for another one when an offset is not
in it. Whatever chunk that is, and however the body is cut, empty chunks included, a read answers the
body's byte (`ByteSource.Reads.byte`), so the cached chunk is not carried through the code that reads.
-/

namespace UpgradeScope

open Utf8

/-- `byteSource`. -/
structure ByteSource where
  /-- The chunks. -/
  chunks : List Bytes
  /-- The offset of each chunk. -/
  starts : List ℕ
  /-- The length of them all. -/
  size : ℕ
  /-- The chunk of the last read. -/
  cur : ℕ := 0

/-- The offsets of chunks, the first one's given. -/
def chunkStarts : ℕ → List Bytes → List ℕ
  | _, [] => []
  | off, c :: cs => off :: chunkStarts (off + c.length) cs

/-- `newByteSource`. -/
def newByteSource (chunks : List Bytes) : ByteSource :=
  { chunks := chunks, starts := chunkStarts 0 chunks, size := (chunks.map List.length).sum }

namespace ByteSource

/-- The chunk that `byteSource.at` reads an offset from: the last read's when that holds it, else the one
`sort.Search` finds, before the first that starts past the offset. -/
def chunkOf (s : ByteSource) (i : ℕ) : ℕ :=
  let start := s.starts.getD s.cur 0
  if i < start ∨ start + (s.chunks.getD s.cur []).length ≤ i then s.starts.findIdx (fun st => i < st) - 1 else s.cur

/-- `byteSource.at`: the byte at an offset, 0 past the end, and the source after the read. -/
def «at» (s : ByteSource) (i : ℕ) : UInt8 × ByteSource :=
  if s.size ≤ i then (0, s)
  else ((s.chunks.getD (s.chunkOf i) []).getD (i - s.starts.getD (s.chunkOf i) 0) 0, { s with cur := s.chunkOf i })

/-- The byte at an offset. -/
def byte (s : ByteSource) (i : ℕ) : UInt8 := (s.«at» i).1

/-- `byteSource.runeAt`: the character at an offset, from at most four bytes. -/
def runeAt (s : ByteSource) (i : ℕ) : ℕ × ℕ :=
  decodeRune (((List.range 4).takeWhile fun n => i + n < s.size).map fun n => s.byte (i + n))

/-- The first offset of a chunk's bytes where a byte order mark starts with the byte `b`. -/
def markIn (s : ByteSource) (b : UInt8) (start : ℕ) (chunk : Bytes) : Option ℕ :=
  ((List.range chunk.length).filter fun k => chunk.getD k 0 = b).map (start + ·) |>.find? fun pos => s.byte (pos + 1) = b ^^^ 1

/-- `byteSource.utf16BOM`: the first offset of a UTF-16 byte order mark; none for its -1. -/
def utf16BOM (s : ByteSource) : Option ℕ :=
  (([0xfe, 0xff].flatMap fun b => (s.starts.zip s.chunks).filterMap fun p => s.markIn b p.1 p.2)).min?

/-- No byte order mark of UTF-16 is in the bytes. -/
def NoUTF16BOM (data : Bytes) : Prop :=
  ∀ i, ¬ (data.getD i 0 = 0xfe ∧ data.getD (i + 1) 0 = 0xff) ∧ ¬ (data.getD i 0 = 0xff ∧ data.getD (i + 1) 0 = 0xfe)

/-- Bytes that no mark has hold none. -/
theorem noUTF16BOM_of_all {data : Bytes} (h : data.all (· < 0xfe) = true) : NoUTF16BOM data := by
  have hlt : ∀ i, data.getD i 0 < 0xfe := by
    intro i
    by_cases hi : i < data.length
    · rw [List.getD_eq_getElem _ _ hi]
      exact of_decide_eq_true (List.all_eq_true.mp h _ (List.getElem_mem hi))
    · rw [List.getD_eq_default _ _ (not_lt.mp hi)]
      decide
  intro i
  refine ⟨?_, ?_⟩
  · rintro ⟨h₁, -⟩
    exact absurd (hlt i) (by rw [h₁]; decide)
  · rintro ⟨h₁, -⟩
    exact absurd (hlt i) (by rw [h₁]; decide)

/-! ## What a read answers -/

/-- The source reads the bytes. -/
structure Reads (s : ByteSource) (data : Bytes) : Prop where
  /-- The chunks are cut from them. -/
  chunks : s.chunks.flatten = data
  /-- The offsets are the chunks' own. -/
  starts : s.starts = chunkStarts 0 s.chunks
  /-- The size is theirs. -/
  size : s.size = data.length

/-- A new source reads its chunks. -/
theorem reads_new (chunks : List Bytes) : (newByteSource chunks).Reads chunks.flatten :=
  ⟨rfl, rfl, by simp [newByteSource, List.length_flatten]⟩

/-- A byte of a chunk is the byte of the whole. -/
theorem getD_chunk {chunks : List Bytes} {off c i : ℕ} (hc : c < chunks.length)
    (hlo : (chunkStarts off chunks).getD c 0 ≤ i)
    (hhi : i < (chunkStarts off chunks).getD c 0 + (chunks.getD c []).length) :
    off ≤ i ∧ (chunks.getD c []).getD (i - (chunkStarts off chunks).getD c 0) 0 = chunks.flatten.getD (i - off) 0 := by
  induction chunks generalizing off c with
  | nil => exact absurd hc (by simp)
  | cons chunk chunks ih =>
    rw [List.flatten_cons]
    cases c with
    | zero =>
      simp only [chunkStarts, List.getD_cons_zero] at hlo hhi ⊢
      refine ⟨hlo, ?_⟩
      rw [List.getD_append _ _ _ _ (by omega)]
    | succ c =>
      simp only [chunkStarts, List.getD_cons_succ] at hlo hhi ⊢
      obtain ⟨hoff, heq⟩ := ih (by simpa using hc) hlo hhi
      refine ⟨by omega, ?_⟩
      rw [heq, List.getD_append_right _ _ _ _ (by omega)]
      congr 1
      omega

/-- The search finds the chunk that holds an offset. -/
theorem findIdx_chunk {chunks : List Bytes} {off i : ℕ} (hlo : off ≤ i) (hhi : i < off + chunks.flatten.length) :
    let k := (chunkStarts off chunks).findIdx (fun st => i < st)
    1 ≤ k ∧ k - 1 < chunks.length ∧ (chunkStarts off chunks).getD (k - 1) 0 ≤ i ∧
      i < (chunkStarts off chunks).getD (k - 1) 0 + (chunks.getD (k - 1) []).length := by
  induction chunks generalizing off with
  | nil => simp at hhi; omega
  | cons chunk chunks ih =>
    have hfind : (chunkStarts off (chunk :: chunks)).findIdx (fun st => i < st) =
        (chunkStarts (off + chunk.length) chunks).findIdx (fun st => i < st) + 1 := by
      rw [chunkStarts, List.findIdx_cons, decide_eq_false (by omega)]
      rfl
    rw [hfind]
    by_cases hin : i < off + chunk.length
    · -- Every later chunk starts past the offset.
      have hzero : (chunkStarts (off + chunk.length) chunks).findIdx (fun st => i < st) = 0 := by
        cases chunks with
        | nil => rfl
        | cons next chunks => rw [chunkStarts, List.findIdx_cons, decide_eq_true hin]; rfl
      rw [hzero]
      simp only [chunkStarts, List.length_cons]
      exact ⟨le_rfl, by omega, hlo, hin⟩
    · rw [List.flatten_cons, List.length_append] at hhi
      obtain ⟨hk, hlt, h₁, h₂⟩ := @ih (off + chunk.length) (by omega) (by omega)
      obtain ⟨k, hk'⟩ : ∃ k, (chunkStarts (off + chunk.length) chunks).findIdx (fun st => i < st) = k + 1 :=
        Nat.exists_eq_add_of_le' hk
      rw [hk'] at hlt h₁ h₂ ⊢
      simp only [chunkStarts, Nat.add_sub_cancel, List.getD_cons_succ, List.length_cons] at hlt h₁ h₂ ⊢
      exact ⟨by omega, by omega, h₁, h₂⟩

section Reads

variable {s : ByteSource} {data : Bytes}

/-- The chunk read from holds the offset. -/
theorem Reads.chunkOf (h : s.Reads data) {i : ℕ} (hi : i < data.length) :
    s.chunkOf i < s.chunks.length ∧ (chunkStarts 0 s.chunks).getD (s.chunkOf i) 0 ≤ i ∧
      i < (chunkStarts 0 s.chunks).getD (s.chunkOf i) 0 + (s.chunks.getD (s.chunkOf i) []).length := by
  unfold ByteSource.chunkOf
  dsimp only
  rw [h.starts]
  split_ifs with hout
  · exact (findIdx_chunk (Nat.zero_le i) (by rw [h.chunks, Nat.zero_add]; exact hi)).2
  · rw [not_or, not_lt, not_le] at hout
    refine ⟨?_, hout⟩
    by_contra hge
    rw [List.getD_eq_default s.chunks _ (not_lt.mp hge), List.length_nil] at hout
    omega

/-- A read answers the byte of the whole, whatever chunk the last one was in. -/
theorem Reads.byte (h : s.Reads data) (i : ℕ) : s.byte i = data.getD i 0 := by
  unfold ByteSource.byte ByteSource.«at»
  rw [h.size, h.starts]
  split_ifs with hi
  · rw [List.getD_eq_default _ _ hi]
  · obtain ⟨hlt, hlo, hhi⟩ := h.chunkOf (not_le.mp hi)
    have heq := (getD_chunk hlt hlo hhi).2
    rwa [h.chunks, Nat.sub_zero] at heq

/-- A read leaves a source that reads the same. -/
theorem Reads.«at» (h : s.Reads data) (i : ℕ) : (s.«at» i).2.Reads data := by
  unfold ByteSource.«at»
  split_ifs
  · exact h
  · exact ⟨h.chunks, h.starts, h.size⟩

/-- The first four bytes, read one by one. -/
theorem map_getD_range_four (l : Bytes) :
    ((List.range 4).takeWhile fun n => n < l.length).map (fun n => l.getD n 0) = l.take 4 := by
  match l with
  | [] => rfl
  | [_] => rfl
  | [_, _] => rfl
  | [_, _, _] => rfl
  | _ :: _ :: _ :: _ :: _ => simp [List.range_succ, List.takeWhile]

/-- The character at an offset is the first one of the bytes from there on. -/
theorem Reads.runeAt (h : s.Reads data) (i : ℕ) : s.runeAt i = decodeRune (data.drop i) := by
  have hbytes : ((List.range 4).takeWhile fun n => i + n < s.size).map (fun n => s.byte (i + n)) = (data.drop i).take 4 := by
    rw [← map_getD_range_four]
    have hlt : (fun n => decide (i + n < s.size)) = fun n => decide (n < (data.drop i).length) := by
      funext n
      rw [h.size, List.length_drop, decide_eq_decide]
      omega
    have hbyte : (fun n => s.byte (i + n)) = fun n => (data.drop i).getD n 0 := by
      funext n
      rw [h.byte, List.getD_eq_getElem?_getD, List.getD_eq_getElem?_getD, List.getElem?_drop]
    rw [hlt, hbyte]
  rw [ByteSource.runeAt, hbytes, decodeRune_take]

/-- A body without a byte order mark has none found in it. -/
theorem Reads.utf16BOM (h : s.Reads data) (hno : NoUTF16BOM data) : s.utf16BOM = none := by
  rw [ByteSource.utf16BOM, List.min?_eq_none_iff, List.eq_nil_iff_forall_not_mem]
  intro pos hpos
  obtain ⟨b, hb, hpos⟩ := List.mem_flatMap.mp hpos
  obtain ⟨⟨start, chunk⟩, hp, hmark⟩ := List.mem_filterMap.mp hpos
  have hmem := List.mem_of_find?_eq_some hmark
  obtain ⟨k, hk, rfl⟩ := List.mem_map.mp hmem
  obtain ⟨hlt, hfirst⟩ := List.mem_filter.mp hk
  replace hlt : k < chunk.length := List.mem_range.mp hlt
  have hsecond : s.byte (start + k + 1) = b ^^^ 1 := by simpa using List.find?_some hmark
  -- The byte of the chunk is the body's at that offset.
  have hbyte : data.getD (start + k) 0 = b := by
    obtain ⟨c, hc, hzip⟩ := List.getElem_of_mem hp
    rw [List.getElem_zip, Prod.mk.injEq] at hzip
    rw [List.length_zip] at hc
    have hstart : (chunkStarts 0 s.chunks).getD c 0 = start := by
      rw [← h.starts, List.getD_eq_getElem _ _ (by omega), hzip.1]
    have hchunk : s.chunks.getD c [] = chunk := by
      rw [List.getD_eq_getElem _ _ (by omega), hzip.2]
    have hlo : (chunkStarts 0 s.chunks).getD c 0 ≤ start + k := by omega
    have hget := (getD_chunk (by omega) hlo (by rw [hstart, hchunk]; omega)).2
    rw [hstart, hchunk, h.chunks, Nat.sub_zero, Nat.add_sub_cancel_left] at hget
    rw [← hget]
    simpa using hfirst
  rw [h.byte] at hsecond
  simp only [List.mem_cons, List.not_mem_nil, or_false] at hb
  rcases hb with rfl | rfl
  · exact (hno (start + k)).1 ⟨hbyte, hsecond⟩
  · exact (hno (start + k)).2 ⟨hbyte, hsecond⟩

end Reads

end ByteSource

end UpgradeScope
