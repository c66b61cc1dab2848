import ServiceTemplate.Utf8Text
import Mathlib.Tactic.IntervalCases

/-! `application/x-www-form-urlencoded` text of a byte string. Every byte can be read back from
the front of the text, and no byte is written as the pair separator. -/
namespace FormText

open ByteFraming
open Utf8Text

def hexDigit (n : ℕ) : Char := "0123456789ABCDEF".toList.getD n '0'

def hexValue (c : Char) : ℕ := "0123456789ABCDEF".toList.findIdx (· = c)

/-- ASCII letters and digits and `*-._` stand for themselves. -/
def plainByte (n : ℕ) : Bool :=
  (48 ≤ n && n ≤ 57) || (65 ≤ n && n ≤ 90) || (97 ≤ n && n ≤ 122) ||
    n = 42 || n = 45 || n = 46 || n = 95

def encodeByte (byte : UInt8) : List Char :=
  if plainByte byte.toNat then [Char.ofNat byte.toNat]
  else if byte = 32 then ['+']
  else ['%', hexDigit (byte.toNat / 16), hexDigit (byte.toNat % 16)]

def byteSerialize (bytes : Bytes) : List Char := bytes.flatMap encodeByte

def decodeByte : List Char → Option (UInt8 × List Char)
  | '%' :: high :: low :: rest => some (UInt8.ofNat (16 * hexValue high + hexValue low), rest)
  | '+' :: rest => some (32, rest)
  | c :: rest => if plainByte c.toNat then some (UInt8.ofNat c.toNat, rest) else none
  | [] => none

theorem hex_value_digit {n : ℕ} (h : n < 16) : hexValue (hexDigit n) = n := by
  interval_cases n <;> rfl

theorem plain_char {n : ℕ} (h : plainByte n = true) : (Char.ofNat n).toNat = n ∧
    Char.ofNat n ≠ '%' ∧ Char.ofNat n ≠ '+' := by
  have hrange : n < 123 := by
    simp only [plainByte, Bool.or_eq_true, Bool.and_eq_true, decide_eq_true_eq] at h
    omega
  have hvalid : n.isValidChar := .inl (by omega)
  have hnat : (Char.ofNat n).toNat = n := by
    rw [Char.ofNat, dif_pos hvalid]
    rfl
  refine ⟨hnat, ?_, ?_⟩
  all_goals
    intro heq
    rw [heq] at hnat
    subst hnat
    cases h

theorem decode_encode_byte (byte : UInt8) (rest : List Char) :
    decodeByte (encodeByte byte ++ rest) = some (byte, rest) := by
  by_cases hplain : plainByte byte.toNat = true
  · rcases plain_char hplain with ⟨hnat, hpercent, hplus⟩
    simp [encodeByte, decodeByte, hplain, hpercent, hnat]
  · by_cases hspace : byte = 32
    · subst hspace
      rfl
    · have hlt := byte.toNat_lt
      have hhigh := hex_value_digit (n := byte.toNat / 16) (by omega)
      have hlow := hex_value_digit (n := byte.toNat % 16) (by omega)
      have hsum : 16 * (byte.toNat / 16) + byte.toNat % 16 = byte.toNat := by omega
      simp [encodeByte, decodeByte, hplain, hspace, hhigh, hlow, hsum]

/-- The text up to a character no byte is written as determines the bytes. -/
theorem byte_serialize_apart {stop : Char} (hstop : ∀ rest, decodeByte (stop :: rest) = none)
    {a b : Bytes} {x y : List Char}
    (h : byteSerialize a ++ stop :: x = byteSerialize b ++ stop :: y) : a = b :=
  (codes_apart decode_encode_byte hstop h).1

def appendPair (pair : String × String) : List Char :=
  byteSerialize (asBytes pair.1) ++ '=' :: byteSerialize (asBytes pair.2)

def serializePairs (pairs : List (String × String)) : List Char :=
  List.intercalate ['&'] (pairs.map appendPair)

theorem serialize_pairs_cons (pair next : String × String) (pairs : List (String × String)) :
    serializePairs (pair :: next :: pairs) =
      appendPair pair ++ '&' :: serializePairs (next :: pairs) := by
  simp [serializePairs]

/-- The pairs before a value and its name fix where it stands, so the text determines it. -/
theorem serialize_pairs_second {first : String × String} {name value value' : String}
    {next next' : String × String} {rest rest' : List (String × String)}
    (h : serializePairs (first :: (name, value) :: next :: rest) =
      serializePairs (first :: (name, value') :: next' :: rest')) : value = value' := by
  simp only [serialize_pairs_cons, appendPair, List.append_assoc, List.cons_append] at h
  have hname := List.append_cancel_left h
  simp only [List.cons.injEq, true_and] at hname
  have hvalue := List.append_cancel_left (List.cons.inj (List.append_cancel_left hname)).2
  simp only [List.cons.injEq, true_and] at hvalue
  have hbytes : asBytes value = asBytes value' :=
    byte_serialize_apart (fun _ => by simp [decodeByte, plainByte]) hvalue
  exact as_bytes_injective hbytes

end FormText
