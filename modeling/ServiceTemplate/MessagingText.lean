import ServiceTemplate.Utf8Text
import ServiceTemplate.ExceptChain
import ServiceTemplate.JsonText
import Mathlib.Tactic.IntervalCases

/-! The texts of the messaging adapter: identity texts, subjects, schema versions and
digest identifiers, each checked byte by byte as the adapter does. -/
namespace MessagingText

open ByteFraming
open JsonText (hexDigit hex_digit_mem to_digits_head to_digits_all)
open Utf8Text

inductive MessagingError where
  | configuration (reason : String)
  | connection
  | authentication
  | topology
  | timedOut (budget : ℕ)
  | cancelled
  | draining
  | envelope (reason : String)
  | bounds
  deriving DecidableEq, Repr

/-- A call returns an error or panics: an assertion of the client library, a read past the
end of a slice. -/
inductive Fault where
  | error (e : MessagingError)
  | panicked
  deriving DecidableEq, Repr

def envelope (reason : String) : Fault := .error (.envelope reason)

def require (holds : Bool) (reason : String) : Except Fault Unit :=
  if holds then .ok () else .error (envelope reason)

@[simp] theorem require_ok {holds : Bool} {reason : String} {u : Unit} :
    require holds reason = .ok u ↔ holds = true := by
  cases holds <;> simp [require]

/-- The scan of `validText`. The byte after `0xC2` is read without a bound check, so the scan
has no answer when there is none. -/
def textScan : Bytes → Option Bool
  | [] => some true
  | byte :: rest =>
    if byte < 0x20 ∨ byte = 0x7f then some false
    else if byte = 0xc2 then
      match rest with
      | [] => none
      | next :: _ => if next < 0xa0 then some false else textScan rest
    else textScan rest

def validText (value : String) : Option Bool :=
  let bytes := asBytes value
  if bytes = [] ∨ 256 < bytes.length then some false else textScan bytes

def validateText (value : String) : Except Fault Unit :=
  match validText value with
  | some true => .ok ()
  | some false => .error (envelope "header identity is invalid")
  | none => .error .panicked

/-- The tokens between dots are nonempty and hold no blank, line break or wildcard. -/
def subjectScan : Bool → Bytes → Bool
  | previousDot, [] => !previousDot
  | previousDot, byte :: rest =>
    if byte ∈ [32, 9, 13, 10, 42, 62] then false
    else if byte = 46 then if previousDot then false else subjectScan true rest
    else subjectScan false rest

def validSubject (subject : String) : Bool := subjectScan true (asBytes subject)

/-- `str::parse::<u16>`: an optional plus sign, then digits within the range. -/
def parseU16 (raw : List Char) : Option UInt16 :=
  let digits := match raw with
    | '+' :: rest => rest
    | _ => raw
  if digits ≠ [] ∧ digits.all Char.isDigit then
    let value := Nat.ofDigitChars 10 digits 0
    if value < 65536 then some (UInt16.ofNat value) else none
  else none

def parseSchema (value : String) : Except Fault UInt16 :=
  match value.toList with
  | 'v' :: raw =>
    match parseU16 raw with
    | none => .error (envelope "event schema is invalid")
    | some version =>
      if version = 0 ∨ raw.head? = some '0' ∨ ¬ raw.all Char.isDigit then
        .error (envelope "event schema is invalid")
      else .ok version
  | _ => .error (envelope "event schema is invalid")

def schema (version : UInt16) : String := "v" ++ Nat.repr version.toNat

def hexDigits (digest : Bytes) : List Char :=
  digest.flatMap fun byte => [hexDigit (byte.toNat / 16), hexDigit (byte.toNat % 16)]

def prefixedDigestHex (label : String) (digest : Bytes) : String :=
  label ++ String.ofList (hexDigits digest)

/-- The client library refuses a header value with a line break. -/
def validHeaderValue (value : String) : Bool := value.toList.all fun c => c ≠ '\r' ∧ c ≠ '\n'

/-- No blank, line break or wildcard passes the scan. -/
theorem subject_scan_bytes {previousDot : Bool} {bytes : Bytes}
    (h : subjectScan previousDot bytes = true) :
    ∀ byte ∈ bytes, byte ∉ [32, 9, 13, 10, 42, 62] := by
  induction bytes generalizing previousDot with
  | nil => simp
  | cons byte rest ih =>
    simp only [subjectScan] at h
    intro b hb
    split at h
    · cases h
    · rename_i hbyte
      rcases List.mem_cons.mp hb with rfl | hb
      · exact hbyte
      · split at h
        · split at h
          · cases h
          · exact ih h b hb
        · exact ih h b hb

theorem valid_text_ne_empty {value : String} (h : validText value = some true) : value ≠ "" := by
  rintro rfl
  simp [validText, as_bytes_empty] at h

theorem valid_text_length {value : String} (h : validText value = some true) :
    (asBytes value).length ≤ 256 := by
  simp only [validText] at h
  split at h
  · cases h
  · omega

theorem text_scan_bytes {bytes : Bytes} (h : textScan bytes = some true) :
    ∀ byte ∈ bytes, 0x20 ≤ byte := by
  induction bytes with
  | nil => simp
  | cons byte rest ih =>
    simp only [textScan] at h
    split at h
    · cases h
    · rename_i hbyte
      have hrest : textScan rest = some true := by
        split at h
        · split at h
          · cases h
          · split at h
            · cases h
            · exact h
        · exact h
      intro b hb
      rcases List.mem_cons.mp hb with rfl | hb
      · exact UInt8.not_lt.mp fun hlt => hbyte (.inl hlt)
      · exact ih hrest b hb

theorem valid_text_bytes {value : String} (h : validText value = some true) :
    ∀ byte ∈ asBytes value, 0x20 ≤ byte := by
  simp only [validText] at h
  split at h
  · cases h
  · exact text_scan_bytes h

theorem valid_text_header_value {value : String} (h : validText value = some true) :
    validHeaderValue value = true := by
  simp only [validHeaderValue, List.all_eq_true, decide_eq_true_eq]
  intro c hc
  have hbyte := valid_text_bytes h
  constructor
  · rintro rfl
    exact absurd (hbyte _ (mem_as_bytes hc (by decide))) (by decide)
  · rintro rfl
    exact absurd (hbyte _ (mem_as_bytes hc (by decide))) (by decide)

@[simp] theorem validate_text_ok {value : String} {u : Unit} :
    validateText value = .ok u ↔ validText value = some true := by
  simp only [validateText]
  split <;> simp_all

theorem text_scan_ascii {bytes : Bytes} (h : ∀ byte ∈ bytes, 0x20 ≤ byte ∧ byte < 0x7f) :
    textScan bytes = some true := by
  induction bytes with
  | nil => rfl
  | cons byte rest ih =>
    obtain ⟨hlow, hhigh⟩ := h byte (by simp)
    have hcontrol : ¬ (byte < 0x20 ∨ byte = 0x7f) := by
      rintro (hlt | rfl)
      · exact absurd hlt (UInt8.not_lt.mpr hlow)
      · exact absurd hhigh (by decide)
    have hlead : byte ≠ 0xc2 := by
      rintro rfl
      exact absurd hhigh (by decide)
    simp only [textScan, hcontrol, hlead, if_false]
    exact ih fun b hb => h b (by simp [hb])

theorem valid_text_ascii {value : String} (hne : value ≠ "") (hlen : value.length ≤ 256)
    (h : ∀ c ∈ value.toList, 0x20 ≤ c.toNat ∧ c.toNat < 0x7f) : validText value = some true := by
  have hbytes := as_bytes_ascii fun c hc => by have := h c hc; omega
  have hnil : asBytes value ≠ [] := fun hnil => hne (as_bytes_eq_nil.mp hnil)
  have hlength : ¬ 256 < (asBytes value).length := by
    rw [hbytes, List.length_map, String.length_toList]
    omega
  simp only [validText, hnil, hlength, or_self, if_false]
  apply text_scan_ascii
  intro byte hbyte
  rw [hbytes] at hbyte
  obtain ⟨c, hc, rfl⟩ := List.mem_map.mp hbyte
  obtain ⟨hlow, hhigh⟩ := h c hc
  rw [UInt8.le_iff_toNat_le, UInt8.lt_iff_toNat_lt, UInt8.toNat_ofNat_of_lt' (Nat.lt_trans hhigh (by decide))]
  exact ⟨hlow, hhigh⟩

theorem parse_u16_digits (version : UInt16) :
    parseU16 (Nat.toDigits 10 version.toNat) = some version := by
  have hall := to_digits_all version.toNat
  have hplus : ∀ rest, Nat.toDigits 10 version.toNat ≠ '+' :: rest := by
    intro rest heq
    rw [heq] at hall
    simp at hall
  have hvalue : Nat.ofDigitChars 10 (Nat.toDigits 10 version.toNat) 0 = version.toNat :=
    Nat.ofDigitChars_toDigits (by decide) (by decide)
  have hlt : version.toNat < 65536 := version.toNat_lt
  unfold parseU16
  split
  · rename_i rest heq
    exact absurd heq (hplus rest)
  · simp [Nat.toDigits_ne_nil, hall, hvalue, hlt]

/-- Formatting a positive version and parsing it back. -/
theorem parse_schema_schema {version : UInt16} (h : version ≠ 0) :
    parseSchema (schema version) = .ok version := by
  have hpos : 0 < version.toNat := by
    apply Nat.pos_of_ne_zero
    intro hz
    exact h (UInt16.toNat_inj.mp hz)
  have hlist : (schema version).toList = 'v' :: Nat.toDigits 10 version.toNat := by
    simp [schema]
  have hhead := to_digits_head hpos
  simp only [parseSchema, hlist, parse_u16_digits, h, hhead, to_digits_all, not_true_eq_false,
    or_self, if_false]

theorem parse_schema_positive {value : String} {version : UInt16}
    (h : parseSchema value = .ok version) : version ≠ 0 := by
  simp only [parseSchema] at h
  split at h
  · split at h
    · cases h
    · split at h
      · cases h
      · rename_i hvalid
        cases h
        exact fun hz => hvalid (.inl hz)
  · cases h

theorem hex_digits_length (digest : Bytes) : (hexDigits digest).length = 2 * digest.length := by
  induction digest with
  | nil => rfl
  | cons byte digest ih => simp [hexDigits] at ih ⊢; omega

theorem hex_digits_mem {digest : Bytes} {c : Char} (h : c ∈ hexDigits digest) :
    c ∈ "0123456789abcdef".toList := by
  obtain ⟨byte, -, hc⟩ := List.mem_flatMap.mp h
  simp only [List.mem_cons, List.not_mem_nil, or_false] at hc
  rcases hc with rfl | rfl
  · exact hex_digit_mem _
  · exact hex_digit_mem _

theorem valid_text_schema (version : UInt16) : validText (schema version) = some true := by
  have hlist : (schema version).toList = 'v' :: Nat.toDigits 10 version.toNat := by
    simp [schema]
  have hlen : (Nat.toDigits 10 version.toNat).length ≤ 5 :=
    (Nat.length_toDigits_le_iff (by decide) (by decide)).mpr
      (Nat.lt_trans version.toNat_lt (by decide))
  apply valid_text_ascii
  · intro hempty
    rw [hempty] at hlist
    cases hlist
  · rw [← String.length_toList, hlist, List.length_cons]
    omega
  · intro c hc
    rw [hlist] at hc
    rcases List.mem_cons.mp hc with rfl | hc
    · decide
    · have hdigit := Nat.isDigit_of_mem_toDigits (by decide) (by decide) hc
      simp only [Char.isDigit, Bool.and_eq_true, decide_eq_true_eq, ge_iff_le,
        UInt32.le_iff_toNat_le] at hdigit
      exact ⟨Nat.le_trans (by decide) hdigit.1, Nat.lt_of_le_of_lt hdigit.2 (by decide)⟩

/-- A short printable label followed by a 32-byte digest in hex is an identity text. -/
theorem valid_text_digest_hex {label : String} {digest : Bytes}
    (hlabel : label ≠ "" ∧ label.length ≤ 192 ∧
      ∀ c ∈ label.toList, 0x20 ≤ c.toNat ∧ c.toNat < 0x7f) (hdigest : digest.length = 32) :
    validText (prefixedDigestHex label digest) = some true := by
  have hlist : (prefixedDigestHex label digest).toList = label.toList ++ hexDigits digest := by
    simp [prefixedDigestHex]
  apply valid_text_ascii
  · intro hempty
    rw [hempty] at hlist
    have hnil := (List.append_eq_nil_iff.mp hlist.symm).1
    exact hlabel.1 (String.toList_eq_nil_iff.mp hnil)
  · rw [← String.length_toList, hlist, List.length_append, String.length_toList,
      hex_digits_length, hdigest]
    omega
  · intro c hc
    rw [hlist] at hc
    rcases List.mem_append.mp hc with hc | hc
    · exact hlabel.2.2 c hc
    · have hprintable : ∀ d ∈ "0123456789abcdef".toList, 0x20 ≤ d.toNat ∧ d.toNat < 0x7f := by
        simp
      exact hprintable c (hex_digits_mem hc)

end MessagingText
