import ServiceTemplate.Utf8Text

/-! Where a byte can stand in the encoding of a character: alone, as the lead byte of a longer
encoding or as one of its continuation bytes. -/
namespace Utf8Shape

open ByteFraming (Bytes)
open Utf8Text

def IsContinuation (byte : UInt8) : Prop := 0x80 ≤ byte.toNat ∧ byte.toNat < 0xc0

/-- The lead byte `0xC2` belongs to the code points whose continuation byte is the code point
itself. -/
inductive Shape (c : Char) : Bytes → Prop where
  | ascii (h : c.toNat < 0x80) : Shape c [UInt8.ofNat c.toNat]
  | latin (hlow : 0x80 ≤ c.toNat) (hhigh : c.toNat < 0xc0) :
      Shape c [0xc2, UInt8.ofNat c.toNat]
  | long (lead : UInt8) (tail : Bytes) (hcode : 0xc0 ≤ c.toNat) (hlead : 0xc2 < lead.toNat)
      (hne : tail ≠ []) (htail : ∀ byte ∈ tail, IsContinuation byte) : Shape c (lead :: tail)

theorem continuation_of_nat {n : ℕ} : IsContinuation (UInt8.ofNat (n % 64 + 0x80)) := by
  have hlt : n % 64 + 0x80 < 256 := by omega
  rw [IsContinuation, UInt8.toNat_ofNat_of_lt' hlt]
  omega

theorem lead_of_nat {n : ℕ} (hlow : 0xc2 < n) (hhigh : n < 256) :
    0xc2 < (UInt8.ofNat n).toNat := by
  rw [UInt8.toNat_ofNat_of_lt' hhigh]
  exact hlow

theorem encode_shape (c : Char) : Shape c (String.utf8EncodeChar c) := by
  have hcode : c.val.toNat = c.toNat := rfl
  simp only [String.utf8EncodeChar]
  by_cases hascii : c.val.toNat ≤ 0x7f
  · rw [if_pos hascii]
    exact .ascii (by omega)
  rw [if_neg hascii]
  by_cases htwo : c.val.toNat ≤ 0x7ff
  · rw [if_pos htwo]
    by_cases hlatin : c.toNat < 0xc0
    · have hlead : c.val.toNat / 64 % 0x20 + 0xc0 = 0xc2 := by omega
      have hnext : c.val.toNat % 0x40 + 0x80 = c.toNat := by omega
      rw [hlead, hnext]
      exact .latin (by omega) hlatin
    · refine .long _ _ (by omega) (lead_of_nat (by omega) (by omega)) (by simp) ?_
      exact List.forall_mem_singleton.mpr continuation_of_nat
  rw [if_neg htwo]
  by_cases hthree : c.val.toNat ≤ 0xffff
  · rw [if_pos hthree]
    refine .long _ _ (by omega) (lead_of_nat (by omega) (by omega)) (by simp) ?_
    simp only [List.forall_mem_cons, continuation_of_nat, true_and]
    exact List.forall_mem_nil _
  · rw [if_neg hthree]
    refine .long _ _ (by omega) (lead_of_nat (by omega) (by omega)) (by simp) ?_
    simp only [List.forall_mem_cons, continuation_of_nat, true_and]
    exact List.forall_mem_nil _

theorem encode_tail {c : Char} {offset : ℕ} {byte : UInt8} (hpos : 0 < offset)
    (h : (String.utf8EncodeChar c)[offset]? = some byte) : IsContinuation byte := by
  obtain ⟨offset, rfl⟩ := Nat.exists_eq_add_of_lt hpos
  have hshape := encode_shape c
  generalize String.utf8EncodeChar c = bytes at hshape h
  cases hshape with
  | ascii hcode => simp at h
  | latin hlow hhigh =>
    rw [Nat.zero_add, List.getElem?_cons_succ, List.getElem?_singleton] at h
    split at h
    · cases h
      rw [IsContinuation, UInt8.toNat_ofNat_of_lt' (Nat.lt_trans hhigh (by decide))]
      exact ⟨hlow, hhigh⟩
    · cases h
  | long lead tail hcode hlead hne htail =>
    rw [Nat.zero_add, List.getElem?_cons_succ] at h
    exact htail byte (List.mem_of_getElem? h)

/-- Every byte of a text belongs to one of its characters. -/
theorem position_of_byte {text : List Char} {index : ℕ} (h : index < (utf8 text).length) :
    ∃ front c back offset, text = front ++ c :: back ∧
      offset < (String.utf8EncodeChar c).length ∧ index = (utf8 front).length + offset := by
  induction text generalizing index with
  | nil => simp [utf8] at h
  | cons c text ih =>
    have hcons : utf8 (c :: text) = String.utf8EncodeChar c ++ utf8 text := List.flatMap_cons
    by_cases hfirst : index < (String.utf8EncodeChar c).length
    · exact ⟨[], c, text, index, rfl, hfirst, by simp [utf8]⟩
    · rw [hcons, List.length_append] at h
      have hbehind : index - (String.utf8EncodeChar c).length < (utf8 text).length := by omega
      obtain ⟨front, d, back, offset, rfl, hoffset, hindex⟩ := ih hbehind
      refine ⟨c :: front, d, back, offset, rfl, hoffset, ?_⟩
      have hfront : utf8 (c :: front) = String.utf8EncodeChar c ++ utf8 front := List.flatMap_cons
      rw [hfront, List.length_append]
      omega

theorem drop_to_char (front : List Char) (c : Char) (back : List Char) {offset : ℕ}
    (h : offset ≤ (String.utf8EncodeChar c).length) :
    (utf8 (front ++ c :: back)).drop ((utf8 front).length + offset) =
      (String.utf8EncodeChar c).drop offset ++ utf8 back := by
  have hcons : utf8 (c :: back) = String.utf8EncodeChar c ++ utf8 back := List.flatMap_cons
  rw [utf8_append, List.drop_length_add_append, hcons, List.drop_append_of_le_length h]

end Utf8Shape
