import ServiceTemplate.MessagingText
import ServiceTemplate.Utf8Shape

/-! Identity texts and schema versions of the messaging adapter: the scan over bytes decides the
control characters of the text, and an accepted schema is the one form of its version. -/
namespace MessagingIdentity

open ByteFraming
open JsonText (to_digits_all)
open MessagingText
open Utf8Shape
open Utf8Text

/-- `char::is_control`, the general category `Cc`. -/
def isControl (c : Char) : Bool := c.toNat < 0x20 || 0x7f ≤ c.toNat && c.toNat < 0xa0

/-- The test of the scan at one position, on the bytes from there on. -/
def controlHere : Bytes → Bool
  | [] => false
  | byte :: rest => byte < 0x20 || byte == 0x7f || byte == 0xc2 && (rest.head?.any (· < 0xa0))

theorem text_scan_cons {byte : UInt8} {rest : Bytes} (h : byte = 0xc2 → rest ≠ []) :
    textScan (byte :: rest) = if controlHere (byte :: rest) then some false else textScan rest := by
  by_cases hcontrol : byte < 0x20 ∨ byte = 0x7f
  · have hhere : controlHere (byte :: rest) = true := by
      rcases hcontrol with hlow | rfl
      · simp [controlHere, hlow]
      · rfl
    rw [textScan.eq_def, if_pos hhere]
    exact if_pos hcontrol
  rw [textScan.eq_def]
  dsimp only
  rw [if_neg hcontrol]
  obtain ⟨hlow, hdel⟩ := not_or.mp hcontrol
  by_cases hlead : byte = 0xc2
  · subst hlead
    cases rest with
    | nil => exact absurd rfl (h rfl)
    | cons next rest => by_cases hnext : next < 0xa0 <;> simp [controlHere, hnext]
  · rw [if_neg hlead, if_neg]
    simp [controlHere, hlow, hdel, hlead]

theorem continuation_quiet {byte : UInt8} (h : IsContinuation byte) (rest : Bytes) :
    byte ≠ 0xc2 ∧ controlHere (byte :: rest) = false := by
  have hlow : ¬ byte < 0x20 := by
    rw [UInt8.lt_iff_toNat_lt]
    exact fun hlt => absurd h.1 (Nat.not_le.mpr (Nat.lt_trans hlt (by decide)))
  have hdel : byte ≠ 0x7f := by
    rintro rfl
    exact absurd h.1 (by decide)
  have hlead : byte ≠ 0xc2 := by
    rintro rfl
    exact absurd h.2 (by decide)
  exact ⟨hlead, by simp [controlHere, hlow, hdel, hlead]⟩

theorem scan_continuations {tail : Bytes} (h : ∀ byte ∈ tail, IsContinuation byte)
    (rest : Bytes) : textScan (tail ++ rest) = textScan rest := by
  induction tail with
  | nil => rfl
  | cons byte tail ih =>
    obtain ⟨hbyte, htail⟩ := List.forall_mem_cons.mp h
    obtain ⟨hlead, hquiet⟩ := continuation_quiet hbyte (tail ++ rest)
    rw [List.cons_append, text_scan_cons fun heq => absurd heq hlead, hquiet]
    exact ih htail

theorem long_lead_quiet {lead : UInt8} (h : 0xc2 < lead.toNat) (rest : Bytes) :
    lead ≠ 0xc2 ∧ controlHere (lead :: rest) = false := by
  have hlow : ¬ lead < 0x20 := by
    rw [UInt8.lt_iff_toNat_lt]
    exact fun hlt => absurd (Nat.lt_trans h hlt) (by decide)
  have hdel : lead ≠ 0x7f := by
    rintro rfl
    exact absurd h (by decide)
  have hlead : lead ≠ 0xc2 := by
    rintro rfl
    exact absurd h (by decide)
  exact ⟨hlead, by simp [controlHere, hlow, hdel, hlead]⟩

theorem ascii_byte_control {c : Char} (h : c.toNat < 0x80) (rest : Bytes) :
    UInt8.ofNat c.toNat ≠ 0xc2 ∧ controlHere (UInt8.ofNat c.toNat :: rest) = isControl c := by
  have hnat : (UInt8.ofNat c.toNat).toNat = c.toNat :=
    UInt8.toNat_ofNat_of_lt' (Nat.lt_trans h (by decide))
  have hlead : UInt8.ofNat c.toNat ≠ 0xc2 := by
    intro heq
    rw [heq] at hnat
    exact absurd (hnat ▸ h) (by decide)
  refine ⟨hlead, ?_⟩
  have hlow : (UInt8.ofNat c.toNat < 0x20) ↔ c.toNat < 0x20 := by
    rw [UInt8.lt_iff_toNat_lt, hnat]
    rfl
  have hdel : (UInt8.ofNat c.toNat = 0x7f) ↔ c.toNat = 0x7f := by
    rw [← UInt8.toNat_inj, hnat]
    rfl
  rw [Bool.eq_iff_iff]
  simp only [controlHere, isControl, hlead, hlow, hdel, Bool.or_eq_true, Bool.and_eq_true,
    decide_eq_true_eq, beq_iff_eq, false_and, or_false]
  omega

/-- `U+0080..=U+00BF` follow `0xC2`, and the controls are the first half of them. -/
theorem latin_control {c : Char} (hlow : 0x80 ≤ c.toNat) (hhigh : c.toNat < 0xc0)
    (rest : Bytes) : controlHere (0xc2 :: UInt8.ofNat c.toNat :: rest) = isControl c := by
  have hnat : (UInt8.ofNat c.toNat).toNat = c.toNat :=
    UInt8.toNat_ofNat_of_lt' (Nat.lt_trans hhigh (by decide))
  have hnext : (UInt8.ofNat c.toNat < 0xa0) ↔ c.toNat < 0xa0 := by
    rw [UInt8.lt_iff_toNat_lt, hnat]
    rfl
  rw [Bool.eq_iff_iff]
  simp only [controlHere, isControl, hnext, List.head?_cons, Option.any_some, Bool.or_eq_true,
    Bool.and_eq_true, decide_eq_true_eq, beq_iff_eq]
  constructor
  · rintro ((hlt | heq) | ⟨-, hlt⟩)
    · exact absurd hlt (by decide)
    · exact absurd heq (by decide)
    · omega
  · intro h
    exact .inr ⟨trivial, by omega⟩

/-- At the first byte of a character the test is the definition of a control. -/
theorem control_at_char (c : Char) (rest : Bytes) :
    controlHere (String.utf8EncodeChar c ++ rest) = isControl c := by
  have hshape := encode_shape c
  generalize String.utf8EncodeChar c = bytes at hshape ⊢
  cases hshape with
  | ascii h => exact (ascii_byte_control h rest).2
  | latin hlow hhigh => exact latin_control hlow hhigh rest
  | long lead tail hcode hlead hne htail =>
    have hplain : isControl c = false := by
      simp only [isControl, Bool.or_eq_false_iff, Bool.and_eq_false_iff, decide_eq_false_iff_not]
      omega
    rw [hplain]
    exact (long_lead_quiet hlead (tail ++ rest)).2

theorem scan_char (c : Char) (rest : Bytes) :
    textScan (String.utf8EncodeChar c ++ rest) =
      if isControl c then some false else textScan rest := by
  rw [← control_at_char c rest]
  have hshape := encode_shape c
  generalize String.utf8EncodeChar c = bytes at hshape ⊢
  cases hshape with
  | ascii h =>
    exact text_scan_cons fun heq => absurd heq (ascii_byte_control h rest).1
  | latin hlow hhigh =>
    have hnext : ∀ byte ∈ [UInt8.ofNat c.toNat], IsContinuation byte := by
      intro byte hbyte
      rw [List.mem_singleton.mp hbyte, IsContinuation,
        UInt8.toNat_ofNat_of_lt' (Nat.lt_trans hhigh (by decide))]
      exact ⟨hlow, hhigh⟩
    have htail := scan_continuations hnext rest
    rw [← htail]
    exact text_scan_cons fun _ => List.cons_ne_nil _ _
  | long lead tail hcode hlead hne htail =>
    rw [← scan_continuations htail rest]
    exact text_scan_cons fun heq => absurd heq (long_lead_quiet hlead rest).1

theorem scan_text (text : List Char) :
    textScan (utf8 text) = some (text.all fun c => !isControl c) := by
  induction text with
  | nil => rfl
  | cons c text ih =>
    have hcons : utf8 (c :: text) = String.utf8EncodeChar c ++ utf8 text := List.flatMap_cons
    rw [hcons, scan_char, ih]
    cases hcontrol : isControl c <;> simp [hcontrol]

def IsIdentity (value : String) : Prop :=
  (1 ≤ (asBytes value).length ∧ (asBytes value).length ≤ 256) ∧
    ∀ c ∈ value.toList, isControl c = false

instance (value : String) : Decidable (IsIdentity value) :=
  inferInstanceAs (Decidable ((_ ∧ _) ∧ _))

theorem valid_text_eq (value : String) : validText value = some (decide (IsIdentity value)) := by
  have hscan : textScan (asBytes value) = some (value.toList.all fun c => !isControl c) := by
    rw [as_bytes_flat_map]
    exact scan_text value.toList
  by_cases hlen : asBytes value = [] ∨ 256 < (asBytes value).length
  · have hnot : ¬ IsIdentity value := by
      rintro ⟨⟨hpos, hmax⟩, -⟩
      rcases hlen with hnil | hlong
      · rw [hnil] at hpos
        exact absurd hpos (by decide)
      · omega
    simp only [validText, if_pos hlen, hnot, decide_false]
  · obtain ⟨hne, hmax⟩ := not_or.mp hlen
    have hpos : 1 ≤ (asBytes value).length := List.length_pos_iff.mpr hne
    simp only [validText, if_neg hlen, hscan, IsIdentity, hpos, Nat.not_lt.mp hmax, true_and]
    rw [Option.some_inj, Bool.eq_iff_iff]
    simp

/-- Inside a character the test never fires. -/
theorem control_inside {c : Char} {offset : ℕ} (hpos : 0 < offset)
    (h : offset < (String.utf8EncodeChar c).length) (rest : Bytes) :
    ∃ byte tail, (String.utf8EncodeChar c).drop offset ++ rest = byte :: tail ∧
      byte ≠ 0xc2 ∧ controlHere (byte :: tail) = false := by
  have hcons := List.drop_eq_getElem_cons h
  have hbyte := encode_tail hpos (List.getElem?_eq_getElem h)
  exact ⟨_, _, by rw [hcons, List.cons_append], continuation_quiet hbyte _⟩

/-- The test fires exactly at the first byte of a control character. -/
theorem control_positions (text : List Char) (index : ℕ) :
    controlHere ((utf8 text).drop index) = true ↔
      ∃ front c back, text = front ++ c :: back ∧ isControl c = true ∧
        index = (utf8 front).length := by
  constructor
  · intro h
    have hlt : index < (utf8 text).length := by
      by_contra hge
      rw [List.drop_eq_nil_of_le (Nat.not_lt.mp hge)] at h
      cases h
    obtain ⟨front, c, back, offset, rfl, hoffset, rfl⟩ := position_of_byte hlt
    rw [drop_to_char front c back (Nat.le_of_lt hoffset)] at h
    rcases Nat.eq_zero_or_pos offset with rfl | hpos
    · rw [List.drop_zero, control_at_char] at h
      exact ⟨front, c, back, rfl, h, rfl⟩
    · obtain ⟨byte, tail, heq, -, hquiet⟩ := control_inside hpos hoffset (utf8 back)
      rw [heq, hquiet] at h
      cases h
  · rintro ⟨front, c, back, rfl, hcontrol, rfl⟩
    have hdrop := drop_to_char front c back (Nat.zero_le _)
    rw [Nat.add_zero, List.drop_zero] at hdrop
    rw [hdrop, control_at_char, hcontrol]

/-- A lead byte is never the last byte of a text, so the byte after it can be read. -/
theorem lead_read_bound {text : List Char} {index : ℕ} (h : (utf8 text)[index]? = some 0xc2) :
    index + 1 < (utf8 text).length := by
  obtain ⟨hlt, -⟩ := List.getElem?_eq_some_iff.mp h
  obtain ⟨front, c, back, offset, rfl, hoffset, rfl⟩ := position_of_byte hlt
  have hdrop := drop_to_char front c back (Nat.le_of_lt hoffset)
  have hhead : ((String.utf8EncodeChar c).drop offset ++ utf8 back).head? = some 0xc2 := by
    rw [← hdrop, List.head?_drop]
    exact h
  have hlength := congrArg List.length hdrop
  rw [List.length_drop] at hlength
  suffices hlong : 1 < ((String.utf8EncodeChar c).drop offset ++ utf8 back).length by omega
  rcases Nat.eq_zero_or_pos offset with rfl | hpos
  · rw [List.drop_zero] at hhead ⊢
    have hshape := encode_shape c
    generalize String.utf8EncodeChar c = bytes at hshape hhead ⊢
    cases hshape with
    | ascii hcode => exact absurd (Option.some.inj hhead) (ascii_byte_control hcode []).1
    | latin hlow hhigh => simp
    | long lead tail hcode hlead hne htail =>
      exact absurd (Option.some.inj hhead) (long_lead_quiet hlead []).1
  · obtain ⟨byte, tail, heq, hlead, -⟩ := control_inside hpos hoffset (utf8 back)
    rw [heq] at hhead
    exact absurd (Option.some.inj hhead) hlead

theorem digit_char_eq {c : Char} (h : c.isDigit = true) :
    c.toNat - '0'.toNat < 10 ∧ Nat.digitChar (c.toNat - '0'.toNat) = c := by
  have hrange : 48 ≤ c.toNat ∧ c.toNat ≤ 57 := by
    simpa [Char.isDigit, UInt32.le_iff_toNat_le] using h
  have hlt : c.toNat - '0'.toNat < 10 := by
    change c.toNat - 48 < 10
    omega
  refine ⟨hlt, Char.toNat_inj.mp ?_⟩
  rw [Nat.toNat_digitChar_of_lt_ten hlt]
  change 48 + (c.toNat - 48) = c.toNat
  omega

/-- Digits behind a positive number are the digits of the number they make. -/
theorem to_digits_append {value : ℕ} (hpos : 0 < value) {digits : List Char}
    (h : digits.all Char.isDigit = true) :
    Nat.toDigits 10 (Nat.ofDigitChars 10 digits value) = Nat.toDigits 10 value ++ digits := by
  induction digits generalizing value with
  | nil => simp
  | cons c digits ih =>
    rw [List.all_cons, Bool.and_eq_true] at h
    obtain ⟨hlt, hchar⟩ := digit_char_eq h.1
    have hstep := Nat.toDigits_append_toDigits (b := 10) (by decide) hpos hlt
    rw [Nat.toDigits_of_lt_base hlt, hchar] at hstep
    rw [Nat.ofDigitChars_cons, ih (by omega) h.2, ← hstep, List.append_assoc]
    rfl

/-- Digits without a leading zero are the digits of the number they make. -/
theorem to_digits_of_value {digits : List Char} (hne : digits ≠ [])
    (hall : digits.all Char.isDigit = true) (hhead : digits.head? ≠ some '0') :
    Nat.toDigits 10 (Nat.ofDigitChars 10 digits 0) = digits := by
  cases digits with
  | nil => exact absurd rfl hne
  | cons c digits =>
    rw [List.all_cons, Bool.and_eq_true] at hall
    obtain ⟨hlt, hchar⟩ := digit_char_eq hall.1
    have hpos : 0 < c.toNat - '0'.toNat := by
      apply Nat.pos_of_ne_zero
      intro hz
      rw [hz] at hchar
      exact hhead (congrArg some hchar.symm)
    rw [Nat.ofDigitChars_cons, Nat.mul_zero, Nat.zero_add, to_digits_append hpos hall.2,
      Nat.toDigits_of_lt_base hlt, hchar]
    rfl

theorem parse_u16_value {raw : List Char} {version : UInt16} (hall : raw.all Char.isDigit = true)
    (h : parseU16 raw = some version) :
    raw ≠ [] ∧ Nat.ofDigitChars 10 raw 0 = version.toNat := by
  have hplus : ∀ rest, raw ≠ '+' :: rest := by
    rintro rest rfl
    rw [List.all_cons] at hall
    exact absurd hall (by simp)
  have hsame : parseU16 raw = if raw ≠ [] ∧ raw.all Char.isDigit then
      if Nat.ofDigitChars 10 raw 0 < 65536 then some (UInt16.ofNat (Nat.ofDigitChars 10 raw 0))
      else none
    else none := by
    unfold parseU16
    split
    · rename_i rest
      exact absurd rfl (hplus rest)
    · simp
  rw [hsame] at h
  split_ifs at h with hdigits hvalue
  cases h
  exact ⟨hdigits.1, (UInt16.toNat_ofNat_of_lt' hvalue).symm⟩

/-- A schema is accepted for one version exactly, the one it is formatted from. -/
theorem parse_schema_iff (value : String) (version : UInt16) :
    parseSchema value = .ok version ↔ 1 ≤ version.toNat ∧ value = schema version := by
  constructor
  · intro h
    have hne := parse_schema_positive h
    have hpos : 1 ≤ version.toNat := by
      apply Nat.pos_of_ne_zero
      intro hz
      exact hne (UInt16.toNat_inj.mp hz)
    refine ⟨hpos, String.toList_inj.mp ?_⟩
    simp only [parseSchema] at h
    split at h
    · rename_i raw hvalue
      split at h
      · cases h
      · rename_i parsed hparsed
        split at h
        · cases h
        · rename_i hform
          cases h
          simp only [not_or, not_not] at hform
          obtain ⟨hnil, hnumber⟩ := parse_u16_value hform.2.2 hparsed
          have hdigits := to_digits_of_value hnil hform.2.2 hform.2.1
          rw [hnumber] at hdigits
          rw [hvalue, schema, String.toList_append, Nat.toList_repr, hdigits]
          rfl
    · cases h
  · rintro ⟨hpos, rfl⟩
    apply parse_schema_schema
    rintro rfl
    exact absurd hpos (by decide)

theorem schema_accepted_iff (value : String) :
    (∃ version, parseSchema value = .ok version) ↔
      ∃ n, 1 ≤ n ∧ n ≤ 65535 ∧ value = "v" ++ Nat.repr n := by
  constructor
  · rintro ⟨version, h⟩
    obtain ⟨hpos, hvalue⟩ := (parse_schema_iff value version).mp h
    exact ⟨version.toNat, hpos, Nat.le_of_lt_succ version.toNat_lt, hvalue⟩
  · rintro ⟨n, hpos, hmax, rfl⟩
    have hnat : (UInt16.ofNat n).toNat = n := UInt16.toNat_ofNat_of_lt' (Nat.lt_succ_of_le hmax)
    refine ⟨UInt16.ofNat n, (parse_schema_iff _ _).mpr ⟨by omega, ?_⟩⟩
    rw [schema, hnat]

/-- The byte-level checks of the adapter are the definitions over characters. -/
structure IdentityChecks : Prop where
  /-- The scan answers for every text, so it never reads past the end, and it answers true
  exactly for 1 to 256 bytes without a control character. -/
  scan : ∀ value : String, validText value = some (decide (IsIdentity value))
  /-- The byte behind any `0xC2` is there to read. -/
  read_bound : ∀ (value : String) (index : ℕ), (asBytes value)[index]? = some 0xc2 →
    index + 1 < (asBytes value).length
  /-- A position refuses the text exactly when a control character starts there, so no part of
  a longer character does. -/
  positions : ∀ (value : String) (index : ℕ), controlHere ((asBytes value).drop index) = true ↔
    ∃ front c back, value.toList = front ++ c :: back ∧ isControl c = true ∧
      index = (asBytes (String.ofList front)).length
  accepted : ∀ value : String, (∃ version, parseSchema value = .ok version) ↔
    ∃ n, 1 ≤ n ∧ n ≤ 65535 ∧ value = "v" ++ Nat.repr n
  formatted : ∀ (value : String) (version : UInt16), parseSchema value = .ok version →
    schema version = value

theorem identity_checks : IdentityChecks where
  scan := valid_text_eq
  read_bound := by
    intro value index h
    rw [as_bytes_flat_map] at h ⊢
    exact lead_read_bound h
  positions := by
    intro value index
    rw [as_bytes_flat_map]
    simp only [as_bytes_of_list]
    exact control_positions value.toList index
  accepted := schema_accepted_iff
  formatted := fun value version h => ((parse_schema_iff value version).mp h).2.symm

end MessagingIdentity
