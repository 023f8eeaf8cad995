import UpgradeScope.Inventory.Admit

/-!
# Cutting free text twice

`cutFreeText` leaves every text within its limit, and a text within its limit as it is, so an inventory that `Conform`
has cut is stored by the server with the content that the agent hashed (`cutFreeText_cutFreeText`).
-/

namespace UpgradeScope

open Go

/-- A text has the bytes of its characters. -/
theorem byteLen_ofList (cs : List Char) : byteLen (String.ofList cs) = (cs.map Char.utf8Size).sum := by
  induction cs with
  | nil => rfl
  | cons c cs ih =>
    have hsplit : String.ofList (c :: cs) = String.ofList [c] ++ String.ofList cs := by
      rw [← String.ofList_append, List.singleton_append]
    have hone : byteLen (String.ofList [c]) = c.utf8Size := by simp [byteLen]
    have happend : byteLen (String.ofList [c] ++ String.ofList cs) = byteLen (String.ofList [c]) + byteLen (String.ofList cs) :=
      String.utf8ByteSize_append ..
    rw [hsplit, happend, hone, ih, List.map_cons, List.sum_cons]

/-- A prefix of at most `n` bytes has at most `n`. -/
theorem sum_utf8PrefixChars_le (n : ℕ) (cs : List Char) : ((utf8PrefixChars n cs).map Char.utf8Size).sum ≤ n := by
  induction cs generalizing n with
  | nil => simp [utf8PrefixChars]
  | cons c cs ih =>
    unfold utf8PrefixChars
    split
    · rw [List.map_cons, List.sum_cons]
      have hrest := ih (n - c.utf8Size)
      omega
    · simp

variable (s : String)

/-- A prefix is as long as it may be. -/
theorem byteLen_utf8Prefix_le (n : ℕ) : byteLen (utf8Prefix s n) ≤ n := by
  rw [utf8Prefix, byteLen_ofList]
  exact sum_utf8PrefixChars_le n s.toList

/-- A cut text is within a limit that holds the mark. -/
theorem byteLen_cutText_le {max : ℕ} (hmark : byteLen cutMark ≤ max) : byteLen (cutText s max) ≤ max := by
  unfold cutText
  split
  · assumption
  · have hprefix := byteLen_utf8Prefix_le s (max - byteLen cutMark)
    have happend : byteLen (utf8Prefix s (max - byteLen cutMark) ++ cutMark) =
        byteLen (utf8Prefix s (max - byteLen cutMark)) + byteLen cutMark := String.utf8ByteSize_append ..
    omega

/-- Cutting a text again changes nothing. -/
theorem cutText_cutText {max : ℕ} (hmark : byteLen cutMark ≤ max) :
    cutText (cutText s max) max = cutText s max := by
  rw [cutText, if_pos (byteLen_cutText_le s hmark)]

/-- The tokens kept are within the limit: they end before a comma of the first `max + 1` bytes. -/
theorem byteLen_cutTokens_le (max : ℕ) : byteLen (cutTokens s max) ≤ max := by
  unfold cutTokens
  split
  · assumption
  split
  · simp [byteLen]
  · rename_i behind before hcut
    obtain ⟨hsplit, -⟩ := cutChars_eq_some.mp hcut
    have hbytes := sum_utf8PrefixChars_le (max + 1) s.toList
    have hsum : ((utf8PrefixChars (max + 1) s.toList).map Char.utf8Size).sum =
        (behind.map Char.utf8Size).sum + (','.utf8Size + (before.map Char.utf8Size).sum) := by
      rw [← List.sum_reverse, ← List.map_reverse, hsplit, List.map_append, List.sum_append, List.map_cons,
        List.sum_cons]
    have hcomma : 1 ≤ ','.utf8Size := Char.utf8Size_pos _
    have hkept : ((before.dropWhile fun c => c = ',' || c = ' ').map Char.utf8Size).sum ≤
        (before.map Char.utf8Size).sum := ((List.dropWhile_sublist _).map _).sum_le_sum fun _ _ => Nat.zero_le _
    rw [byteLen_ofList, List.map_reverse, List.sum_reverse]
    omega

/-- Cutting a list of tokens again changes nothing. -/
theorem cutTokens_cutTokens (max : ℕ) : cutTokens (cutTokens s max) max = cutTokens s max := by
  rw [cutTokens, if_pos (byteLen_cutTokens_le s max)]

/-- The mark is within the limit of a string. -/
theorem byteLen_cutMark_le : byteLen cutMark ≤ maxStringBytes := by decide

/-- Cutting an object's texts twice cuts them once. -/
theorem ObjectRef.cut_cut (o : ObjectRef) : o.cut.cut = o.cut := by
  simp only [ObjectRef.cut, cutTokens_cutTokens, cutText_cutText _ byteLen_cutMark_le]

/-- Cutting a usage row twice cuts it once. -/
theorem APIUsage.cut_cut (u : APIUsage) : u.cut.cut = u.cut := by
  simp only [APIUsage.cut, List.map_map, Function.comp_def, ObjectRef.cut_cut]

/-- Cutting a status's texts twice cuts them once. -/
theorem CapabilityStatus.cut_cut (st : CapabilityStatus) : st.cut.cut = st.cut := by
  have hreason : byteLen cutMark ≤ maxReasonBytes := by decide
  simp only [CapabilityStatus.cut, List.map_map, Function.comp_def, cutText_cutText _ byteLen_cutMark_le,
    cutText_cutText _ hreason]

/-- A function that changes nothing the second time changes no map the second time. -/
theorem mapValues_mapValues {κ υ : Type} {f : υ → υ} (h : ∀ v, f (f v) = f v) (m : AList fun _ : κ => υ) :
    mapValues f (mapValues f m) = mapValues f m := by
  simp only [mapValues, List.map_map, Function.comp_def, h]

/-- Cutting an inventory again changes nothing. -/
theorem cutFreeText_cutFreeText (inv : Inventory) : cutFreeText (cutFreeText inv) = cutFreeText inv := by
  simp only [cutFreeText, List.map_map, Function.comp_def, APIUsage.cut_cut, ObjectRef.cut_cut,
    cutText_cutText _ byteLen_cutMark_le, mapValues_mapValues CapabilityStatus.cut_cut]

end UpgradeScope
