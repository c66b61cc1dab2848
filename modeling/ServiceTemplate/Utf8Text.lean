import ServiceTemplate.ByteFraming

/-! The UTF-8 bytes of a text, character by character. -/
namespace Utf8Text

open ByteFraming

def utf8 (text : List Char) : Bytes := text.flatMap String.utf8EncodeChar

theorem as_bytes_flat_map (text : String) :
    asBytes text = text.toList.flatMap String.utf8EncodeChar := by
  have h : text.toByteArray = (text.toList.flatMap String.utf8EncodeChar).toByteArray := by
    rw [← String.utf8Encode_toList, List.utf8Encode]
  simp [asBytes, h]

theorem as_bytes_of_list (text : List Char) : asBytes (String.ofList text) = utf8 text := by
  rw [as_bytes_flat_map, String.toList_ofList, utf8]

theorem utf8_append (a b : List Char) : utf8 (a ++ b) = utf8 a ++ utf8 b := List.flatMap_append

theorem as_bytes_empty : asBytes "" = [] := by
  simp [as_bytes_flat_map]

theorem as_bytes_eq_nil {text : String} : asBytes text = [] ↔ text = "" := by
  constructor
  · intro h
    exact as_bytes_injective (h.trans as_bytes_empty.symm)
  · rintro rfl
    exact as_bytes_empty

theorem encode_ascii {c : Char} (h : c.toNat < 128) :
    String.utf8EncodeChar c = [UInt8.ofNat c.toNat] := by
  have hval : c.val.toNat ≤ 127 := Nat.le_of_lt_succ h
  simp only [String.utf8EncodeChar, hval, if_true]
  rfl

theorem as_bytes_ascii {text : String} (h : ∀ c ∈ text.toList, c.toNat < 128) :
    asBytes text = text.toList.map fun c => UInt8.ofNat c.toNat := by
  rw [as_bytes_flat_map]
  generalize text.toList = cs at h
  induction cs with
  | nil => rfl
  | cons c cs ih =>
    rw [List.flatMap_cons, encode_ascii (h c (by simp)), ih fun d hd => h d (by simp [hd])]
    rfl

theorem mem_as_bytes {text : String} {c : Char} (hmem : c ∈ text.toList) (h : c.toNat < 128) :
    UInt8.ofNat c.toNat ∈ asBytes text := by
  rw [as_bytes_flat_map, List.mem_flatMap]
  exact ⟨c, hmem, by simp [encode_ascii h]⟩

/-- Only an ASCII character has an ASCII byte in its encoding. -/
theorem encode_char_ascii_byte {c : Char} {byte : UInt8}
    (hmem : byte ∈ String.utf8EncodeChar c) (h : byte.toNat < 128) : c.toNat = byte.toNat := by
  have hhigh : ∀ n : ℕ, 128 ≤ n → n < 256 → byte ≠ UInt8.ofNat n := by
    rintro n hlow hlt rfl
    rw [UInt8.toNat_ofNat_of_lt' hlt] at h
    omega
  have hval : c.val.toNat = c.toNat := rfl
  simp only [String.utf8EncodeChar] at hmem
  by_cases hascii : c.val.toNat ≤ 0x7f
  · rw [if_pos hascii, List.mem_singleton] at hmem
    rw [hmem, UInt8.toNat_ofNat_of_lt' (Nat.lt_of_le_of_lt hascii (by decide)), hval]
  · exfalso
    -- Every byte of a longer encoding has its high bit set.
    rw [if_neg hascii] at hmem
    split_ifs at hmem <;> simp only [List.mem_cons, List.not_mem_nil, or_false] at hmem
    · rcases hmem with hb | hb <;> exact hhigh _ (by omega) (by omega) hb
    · rcases hmem with hb | hb | hb <;> exact hhigh _ (by omega) (by omega) hb
    · rcases hmem with hb | hb | hb | hb <;> exact hhigh _ (by omega) (by omega) hb

theorem ascii_char_of_byte {text : String} {c : Char} (hc : c.toNat < 128)
    (hmem : UInt8.ofNat c.toNat ∈ asBytes text) : c ∈ text.toList := by
  rw [as_bytes_flat_map, List.mem_flatMap] at hmem
  obtain ⟨d, hd, hbyte⟩ := hmem
  have hnat : (UInt8.ofNat c.toNat).toNat = c.toNat :=
    UInt8.toNat_ofNat_of_lt' (Nat.lt_trans hc (by decide))
  have heq := encode_char_ascii_byte hbyte (by omega)
  rw [hnat] at heq
  rwa [Char.toNat_inj.mp heq] at hd

theorem as_bytes_append (a b : String) : asBytes (a ++ b) = asBytes a ++ asBytes b := by
  simp [as_bytes_flat_map]

def fromUtf8 (bytes : Bytes) : Option String := String.fromUTF8? bytes.toByteArray

@[simp] theorem from_utf8_as_bytes (text : String) : fromUtf8 (asBytes text) = some text := by
  have hbytes : (asBytes text).toByteArray = text.toByteArray := by
    apply ByteArray.ext
    rw [← Array.toList_inj, List.toList_data_toByteArray, asBytes]
  have hvalid : text.toByteArray.IsValidUTF8 := text.isValidUTF8
  simp only [fromUtf8, String.fromUTF8?, hbytes, hvalid, dif_pos]
  rfl

end Utf8Text
