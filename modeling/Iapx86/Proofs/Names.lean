import Iapx86.Text.Bytes
import Mathlib.Data.List.Sort
import Mathlib.Data.String.Basic

/-!
# Names and their order

Texts are compared character by character, and names that a system keeps are compared byte by byte.
The two orders are one: of two characters the lesser has the lesser encoding, whatever follows it
(`Text.encode_append_lt`), so that the bytes of texts stand in the order of the texts
(`Text.bytes_lt_iff`).

Things that have names, no name twice, can be brought into that order in one way only
(`Ascending.eq_of_mem_iff`), and `List.lookup` finds in them just what is there
(`lookup_eq_some_iff_mem`), in whatever order they are.
-/

namespace Iapx86

namespace Text

theorem bytes_eq (s : String) : bytes s = s.toList.flatMap String.utf8EncodeChar := by
  have h : s.toByteArray = s.toList.utf8Encode := by
    rw [← String.toByteArray_ofList, String.ofList_toList]
  rw [bytes, String.toUTF8_eq_toByteArray, h, List.utf8Encode, List.toList_data_toByteArray]

theorem ofNat_lt_ofNat {m n : Nat} (hm : m < 256) (hn : n < 256) :
    UInt8.ofNat m < UInt8.ofNat n ↔ m < n := by
  simp [UInt8.lt_iff_toNat_lt, Nat.mod_eq_of_lt, hm, hn]

theorem ofNat_eq_ofNat {m n : Nat} (hm : m < 256) (hn : n < 256) :
    UInt8.ofNat m = UInt8.ofNat n ↔ m = n := by
  simp [← UInt8.toNat_inj, Nat.mod_eq_of_lt, hm, hn]

/-- Of two characters the lesser has the lesser encoding, and by one of the bytes, so that what
follows does not matter. -/
theorem encode_append_lt {c d : Char} (h : c < d) (xs ys : List UInt8) :
    String.utf8EncodeChar c ++ xs < String.utf8EncodeChar d ++ ys := by
  have hd : d.val.toNat < 0x110000 := by
    have := d.valid
    simp only [UInt32.isValidChar, Nat.isValidChar] at this
    omega
  have hlt : c.val.toNat < d.val.toNat := h
  generalize hm : c.val.toNat = m at hlt
  generalize hn : d.val.toNat = n at hlt hd
  have twice (k : Nat) : k / 4096 = k / 64 / 64 := by omega
  have thrice (k : Nat) : k / 262144 = k / 64 / 64 / 64 := by omega
  -- A longer encoding has a greater first byte; encodings of one length are numerals in base 64.
  simp only [String.utf8EncodeChar, hm, hn, twice, thrice]
  split_ifs <;> try omega
  all_goals
    simp (disch := omega) only [List.cons_append, List.cons_lt_cons_iff, ofNat_lt_ofNat,
      ofNat_eq_ofNat]
    omega

theorem encode_ne_nil (c : Char) : String.utf8EncodeChar c ≠ [] :=
  List.ne_nil_of_length_pos (String.length_utf8EncodeChar c ▸ c.utf8Size_pos)

theorem encode_lt_encode {cs ds : List Char} (h : cs < ds) :
    cs.flatMap String.utf8EncodeChar < ds.flatMap String.utf8EncodeChar := by
  induction cs generalizing ds with
  | nil =>
      cases ds with
      | nil => exact absurd h (List.not_lt_nil _)
      | cons d ds =>
          obtain ⟨byte, bytes, hbytes⟩ := List.exists_cons_of_ne_nil (encode_ne_nil d)
          rw [List.flatMap_cons, hbytes]
          exact List.nil_lt_cons _ _
  | cons c cs ih =>
      cases ds with
      | nil => exact absurd h (List.not_lt_nil _)
      | cons d ds =>
          rw [List.flatMap_cons, List.flatMap_cons]
          obtain hcd | ⟨rfl, hds⟩ := List.cons_lt_cons_iff.mp h
          · exact encode_append_lt hcd _ _
          · exact List.append_left_lt (ih hds)

/-- Texts stand in the order of their bytes. -/
theorem bytes_lt_iff {s t : String} : bytes s < bytes t ↔ s < t := by
  have bytes_lt {s t : String} (h : s < t) : bytes s < bytes t := by
    rw [bytes_eq, bytes_eq]
    exact encode_lt_encode (String.lt_iff.mp h)
  refine ⟨fun h => ?_, bytes_lt⟩
  by_contra hst
  obtain heq | hts := (String.not_lt.mp hst).eq_or_lt
  · exact List.lt_irrefl _ (heq ▸ h)
  · exact List.lt_asymm h (bytes_lt hts)

end Text

/-! ### Things that have names -/

variable {α β : Type*}

/-- Whether things are in the order of their names, each name once. -/
def Ascending (name : α → String) (xs : List α) : Prop :=
  xs.Pairwise fun a b => name a < name b

instance (name : α → String) (xs : List α) : Decidable (Ascending name xs) :=
  inferInstanceAs (Decidable (xs.Pairwise fun a b => name a < name b))

namespace Ascending

variable {name : α → String} {xs ys : List α}

theorem pairwise_bytes (h : Ascending name xs) :
    (xs.map fun x => Text.bytes (name x)).Pairwise (· < ·) :=
  List.pairwise_map.mpr (h.imp Text.bytes_lt_iff.mpr)

theorem nodup_map (h : Ascending name xs) : (xs.map name).Nodup :=
  List.pairwise_map.mpr (h.imp ne_of_lt)

theorem eq_of_mem_iff (hxs : Ascending name xs) (hys : Ascending name ys)
    (h : ∀ x, x ∈ xs ↔ x ∈ ys) : xs = ys := by
  have hperm : xs.Perm ys :=
    (List.perm_ext_iff_of_nodup hxs.nodup_map.of_map hys.nodup_map.of_map).mpr h
  exact hperm.eq_of_pairwise (fun a b _ _ hab hba => absurd hab (lt_asymm hba)) hxs hys

end Ascending

theorem ascending_mergeSort {name : α → String} {xs : List α} (h : (xs.map name).Nodup) :
    Ascending name (xs.mergeSort fun a b => name a ≤ name b) := by
  -- Sorting keeps things of one name side by side, in whatever order; here none share a name.
  have htrans (a b c : α) (hab : decide (name a ≤ name b)) (hbc : decide (name b ≤ name c)) :
      decide (name a ≤ name c) :=
    decide_eq_true (le_trans (of_decide_eq_true hab) (of_decide_eq_true hbc))
  have htotal (a b : α) : decide (name a ≤ name b) || decide (name b ≤ name a) := by
    simpa using le_total (name a) (name b)
  have hle := (List.pairwise_mergeSort htrans htotal xs).imp of_decide_eq_true
  have hne : (xs.mergeSort fun a b => name a ≤ name b).Pairwise fun a b => name a ≠ name b :=
    List.pairwise_map.mp (((List.mergeSort_perm xs _).map name).nodup_iff.mpr h)
  exact (hle.and hne).imp fun h => lt_of_le_of_ne h.1 h.2

theorem lookup_eq_some_iff_mem [BEq α] [LawfulBEq α] {entries : List (α × β)}
    (h : (entries.map Prod.fst).Nodup) {key : α} {value : β} :
    entries.lookup key = some value ↔ (key, value) ∈ entries := by
  refine ⟨fun hlookup => ?_, fun hmem => ?_⟩
  · obtain ⟨before, behind, rfl, -⟩ := List.lookup_eq_some_iff.mp hlookup
    simp
  · obtain ⟨before, behind, rfl⟩ := List.append_of_mem hmem
    refine List.lookup_eq_some_iff.mpr ⟨before, behind, rfl, fun entry hentry => ?_⟩
    rw [List.map_append, List.map_cons, List.nodup_append] at h
    have hne := h.2.2 entry.1 (List.mem_map_of_mem hentry) key List.mem_cons_self
    exact bne_iff_ne.mpr hne.symm

end Iapx86
