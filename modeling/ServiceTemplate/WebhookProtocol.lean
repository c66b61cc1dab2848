import ServiceTemplate.Utf8Text
import ServiceTemplate.ExceptChain
import ServiceTemplate.Splitting
import ServiceTemplate.Base64
import Mathlib.Data.Set.Function

/-! The webhook wire evidence: canonical signed framing, the signature header, and verification
of signed headers and a raw body against a key ring. -/
namespace WebhookProtocol

open ByteFraming
open Utf8Text
open ExceptChain
open Splitting

def maxBodyBytes : ℕ := 128 * 1024
def timestampToleranceSeconds : ℕ := 300
def signaturePrefix : String := "v1,"
def minKeyBytes : ℕ := 24
def maxKeyBytes : ℕ := 64
def maxMessageIdBytes : ℕ := 255

def webhookId : String := "webhook-id"
def webhookTimestamp : String := "webhook-timestamp"
def webhookSignature : String := "webhook-signature"

inductive ProtocolError where
  | invalidKey
  | bodyTooLarge
  | missingHeader
  | conflictingHeader
  | invalidMessageId
  | invalidTimestamp
  | timestampOutOfWindow
  | invalidSignature
  deriving DecidableEq, Repr

structure SigningKey where
  bytes : Bytes
  sized : minKeyBytes ≤ bytes.length ∧ bytes.length ≤ maxKeyBytes
  deriving DecidableEq

/-- Decodes one configured secret, with or without its `whsec_` marker. -/
def SigningKey.fromEncoded (encoded : String) : Except ProtocolError SigningKey :=
  let marker := "whsec_".toList
  let encoded :=
    if marker.isPrefixOf encoded.toList then encoded.toList.drop marker.length else encoded.toList
  match Base64.decode encoded with
  | none => .error .invalidKey
  | some bytes =>
    if h : minKeyBytes ≤ bytes.length ∧ bytes.length ≤ maxKeyBytes then .ok ⟨bytes, h⟩
    else .error .invalidKey

theorem from_encoded_encode (key : SigningKey) :
    SigningKey.fromEncoded (String.ofList ("whsec_".toList ++ Base64.encode key.bytes)) = .ok key := by
  generalize hmarker : "whsec_".toList = marker
  have hmarked : marker.isPrefixOf (marker ++ Base64.encode key.bytes) = true :=
    List.isPrefixOf_iff_prefix.mpr (List.prefix_append _ _)
  simp only [SigningKey.fromEncoded, hmarker, String.toList_ofList, hmarked, if_true, List.drop_left,
    Base64.decode_encode]
  exact dif_pos key.sized

structure KeyRing where
  active : SigningKey
  previous : Option SigningKey
  deriving DecidableEq

def KeyRing.keys (ring : KeyRing) : List SigningKey := ring.active :: ring.previous.toList

abbrev Hmac := SigningKey → Bytes → Vector UInt8 32

def decimal (timestamp : Int64) : List Char :=
  let digits := Nat.toDigits 10 timestamp.toInt.natAbs
  if timestamp.toInt < 0 then '-' :: digits else digits

def ascii (text : List Char) : Bytes := text.map fun c => UInt8.ofNat c.toNat

/-- `message-id "." canonical-timestamp "." body`. -/
def signedBytes (messageId : Bytes) (timestamp : Int64) (body : Bytes) : Bytes :=
  messageId ++ 46 :: (ascii (decimal timestamp) ++ 46 :: body)

def tag (hmac : Hmac) (key : SigningKey) (messageId : Bytes) (timestamp : Int64) (body : Bytes) :
    Bytes :=
  (hmac key (signedBytes messageId timestamp body)).toList

def ensureBodySize (body : Bytes) : Except ProtocolError Unit :=
  ensure (body.length ≤ maxBodyBytes) .bodyTooLarge

def ensureMessageId (messageId : Bytes) : Except ProtocolError Unit :=
  ensure (messageId ≠ [] ∧ messageId.length ≤ maxMessageIdBytes ∧ 46 ∉ messageId) .invalidMessageId

def candidateOf (tag : Bytes) : List Char := signaturePrefix.toList ++ Base64.encode tag

/-- The active signature comes first; a predecessor gives one more candidate. -/
def KeyRing.signatures (ring : KeyRing) (hmac : Hmac) (messageId : Bytes) (timestamp : Int64)
    (body : Bytes) : Except ProtocolError (List Char) := do
  ensureBodySize body
  ensureMessageId messageId
  let active := candidateOf (tag hmac ring.active messageId timestamp body)
  match ring.previous with
  | none => return active
  | some previous =>
    return active ++ ' ' :: candidateOf (tag hmac previous messageId timestamp body)

abbrev HeaderMap := List (String × Bytes)

def getAll (headers : HeaderMap) (name : String) : List Bytes :=
  (headers.filter fun header => header.1 = name).map Prod.snd

def unambiguousHeader (headers : HeaderMap) (name : String) : Except ProtocolError Bytes :=
  match getAll headers name with
  | [] => .error .missingHeader
  | first :: rest => if rest.any (· ≠ first) then .error .conflictingHeader else .ok first

/-- `HeaderValue::to_str`: visible ASCII and tabs. -/
def toStr (value : Bytes) : Option (List Char) :=
  if value.all fun byte => byte = 9 ∨ (32 ≤ byte ∧ byte < 127) then
    some (value.map fun byte => Char.ofNat byte.toNat)
  else none

def splitSign (raw : List Char) : Bool × List Char :=
  match raw with
  | '+' :: rest => (false, rest)
  | '-' :: rest => (true, rest)
  | _ => (false, raw)

/-- `str::parse::<i64>`: an optional sign, then digits within the range. -/
def parseI64 (raw : List Char) : Option Int64 :=
  let (negative, digits) := splitSign raw
  if digits ≠ [] ∧ digits.all Char.isDigit then
    let value := Nat.ofDigitChars 10 digits 0
    if negative then if value ≤ 2 ^ 63 then some (Int64.ofInt (-value)) else none
    else if value < 2 ^ 63 then some (Int64.ofInt value) else none
  else none

def parseTimestamp (value : Bytes) : Except ProtocolError Int64 :=
  okOr ((toStr value).bind parseI64) .invalidTimestamp

/-- The time is in nanoseconds since the Unix epoch; its whole seconds are counted away from the
epoch on both sides. -/
def ensureTimestampWindow (timestamp : Int64) (now : ℤ) : Except ProtocolError Unit :=
  ensure ((timestamp.toInt - now.tdiv 1000000000).natAbs ≤ timestampToleranceSeconds)
    .timestampOutOfWindow

def isAsciiWhitespace (byte : UInt8) : Bool := byte ∈ [32, 9, 10, 12, 13]

def decodeCandidate (candidate : Bytes) : Option Bytes :=
  let marker := ascii signaturePrefix.toList
  if marker.isPrefixOf candidate then
    Base64.decode ((candidate.drop marker.length).map fun byte => Char.ofNat byte.toNat)
  else none

def v1Candidates (value : Bytes) : List Bytes :=
  (value.splitOnP isAsciiWhitespace).filterMap decodeCandidate

structure VerifiedMessage where
  messageId : Bytes
  timestamp : Int64
  deriving DecidableEq

def KeyRing.verify (ring : KeyRing) (hmac : Hmac) (headers : HeaderMap) (body : Bytes) (now : ℤ) :
    Except ProtocolError VerifiedMessage := do
  ensureBodySize body
  let messageId ← unambiguousHeader headers webhookId
  ensureMessageId messageId
  let timestamp ← parseTimestamp (← unambiguousHeader headers webhookTimestamp)
  ensureTimestampWindow timestamp now
  let values := getAll headers webhookSignature
  ensure (values ≠ []) .missingHeader
  let candidates := values.flatMap v1Candidates
  let accepts := fun key => candidates.any (tag hmac key messageId timestamp body = ·)
  ensure (accepts ring.active || ring.previous.any accepts) .invalidSignature
  return ⟨messageId, timestamp⟩

theorem char_of_ascii {c : Char} (h : c.toNat < 128) :
    Char.ofNat (UInt8.ofNat c.toNat).toNat = c := by
  rw [UInt8.toNat_ofNat_of_lt' (Nat.lt_trans h (by decide)), Char.ofNat_toNat]

theorem chars_ascii {text : List Char} (h : ∀ c ∈ text, c.toNat < 128) :
    (ascii text).map (fun byte => Char.ofNat byte.toNat) = text := by
  rw [ascii, List.map_map]
  calc
    text.map _ = text.map id := List.map_congr_left fun c hc => char_of_ascii (h c hc)
    _ = text := List.map_id _

theorem digit_range {n : ℕ} {c : Char} (h : c ∈ Nat.toDigits 10 n) :
    48 ≤ c.toNat ∧ c.toNat ≤ 57 :=
  Char.isDigit_iff_toNat.mp (Nat.isDigit_of_mem_toDigits (by decide) (by decide) h)

theorem decimal_range {timestamp : Int64} {c : Char} (h : c ∈ decimal timestamp) :
    45 ≤ c.toNat ∧ c.toNat ≤ 57 ∧ c ≠ '.' := by
  have hdigit : ∀ c ∈ Nat.toDigits 10 timestamp.toInt.natAbs,
      45 ≤ c.toNat ∧ c.toNat ≤ 57 ∧ c ≠ '.' := by
    intro c hc
    obtain ⟨hlow, hhigh⟩ := digit_range hc
    refine ⟨by omega, hhigh, ?_⟩
    rintro rfl
    exact absurd hlow (by decide)
  simp only [decimal] at h
  split at h
  · rcases List.mem_cons.mp h with rfl | h
    · decide
    · exact hdigit c h
  · exact hdigit c h

theorem of_digit_chars (n : ℕ) : Nat.ofDigitChars 10 (Nat.toDigits 10 n) 0 = n :=
  Nat.ofDigitChars_toDigits (by decide) (by decide)

theorem split_sign_digits (n : ℕ) :
    splitSign (Nat.toDigits 10 n) = (false, Nat.toDigits 10 n) := by
  have hdigit : ∀ c rest, Nat.toDigits 10 n = c :: rest → 48 ≤ c.toNat := by
    intro c rest heq
    exact (digit_range (heq ▸ List.mem_cons_self)).1
  unfold splitSign
  split
  · rename_i rest heq
    exact absurd (hdigit _ _ heq) (by decide)
  · rename_i rest heq
    exact absurd (hdigit _ _ heq) (by decide)
  · rfl

theorem parse_decimal (timestamp : Int64) : parseI64 (decimal timestamp) = some timestamp := by
  have hlow := timestamp.le_toInt
  have hhigh := timestamp.toInt_lt
  have hall : (Nat.toDigits 10 timestamp.toInt.natAbs).all Char.isDigit = true := by
    rw [List.all_eq_true]
    intro c hc
    exact Nat.isDigit_of_mem_toDigits (by decide) (by decide) hc
  have hne : Nat.toDigits 10 timestamp.toInt.natAbs ≠ [] := Nat.toDigits_ne_nil
  by_cases hneg : timestamp.toInt < 0
  · have hbound : timestamp.toInt.natAbs ≤ 2 ^ 63 := by omega
    have hvalue : -((timestamp.toInt.natAbs : ℕ) : ℤ) = timestamp.toInt := by omega
    simp only [decimal, hneg, if_true, parseI64, splitSign, hne, hall, ne_eq, not_false_eq_true,
      and_self, of_digit_chars, hbound, hvalue, Int64.ofInt_toInt]
  · have hbound : timestamp.toInt.natAbs < 2 ^ 63 := by omega
    have hvalue : ((timestamp.toInt.natAbs : ℕ) : ℤ) = timestamp.toInt := by omega
    simp only [decimal, hneg, if_false, parseI64, split_sign_digits, hne, hall, ne_eq,
      not_false_eq_true, and_self, if_true, of_digit_chars, hbound, hvalue, Int64.ofInt_toInt,
      Bool.false_eq_true]

theorem parse_timestamp_decimal (timestamp : Int64) :
    parseTimestamp (ascii (decimal timestamp)) = .ok timestamp := by
  have hvisible : (ascii (decimal timestamp)).all
      (fun byte => byte = 9 ∨ (32 ≤ byte ∧ byte < 127)) = true := by
    simp only [List.all_eq_true, decide_eq_true_eq]
    intro byte hbyte
    obtain ⟨c, hc, rfl⟩ := List.mem_map.mp hbyte
    obtain ⟨hlow, hhigh, -⟩ := decimal_range hc
    right
    rw [UInt8.le_iff_toNat_le, UInt8.lt_iff_toNat_lt,
      UInt8.toNat_ofNat_of_lt' (Nat.lt_of_le_of_lt hhigh (by decide))]
    exact ⟨Nat.le_trans (by decide) hlow, Nat.lt_of_le_of_lt hhigh (by decide)⟩
  have hchars : (ascii (decimal timestamp)).map (fun byte => Char.ofNat byte.toNat) =
      decimal timestamp := chars_ascii fun c hc => by have := decimal_range hc; omega
  simp only [parseTimestamp, toStr, hvisible, if_true, hchars, Option.bind_some, parse_decimal, okOr]

theorem decimal_injective {t u : Int64} (h : decimal t = decimal u) : t = u := by
  have hparse := parse_decimal t
  rw [h, parse_decimal u] at hparse
  exact (Option.some.inj hparse).symm

theorem ascii_decimal_injective {t u : Int64} (h : ascii (decimal t) = ascii (decimal u)) :
    t = u := by
  have hchars := congrArg (List.map fun byte : UInt8 => Char.ofNat byte.toNat) h
  rw [chars_ascii fun c hc => by have := decimal_range hc; omega,
    chars_ascii fun c hc => by have := decimal_range hc; omega] at hchars
  exact decimal_injective hchars

theorem decimal_no_dot (timestamp : Int64) : 46 ∉ ascii (decimal timestamp) := by
  intro hmem
  obtain ⟨c, hc, hbyte⟩ := List.mem_map.mp hmem
  obtain ⟨-, hhigh, hdot⟩ := decimal_range hc
  have hnat := congrArg UInt8.toNat hbyte
  rw [UInt8.toNat_ofNat_of_lt' (Nat.lt_of_le_of_lt hhigh (by decide))] at hnat
  exact hdot (Char.toNat_inj.mp hnat)

theorem signed_bytes_injective {id id' body body' : Bytes} {t t' : Int64} (hid : 46 ∉ id)
    (hid' : 46 ∉ id') (h : signedBytes id t body = signedBytes id' t' body') :
    id = id' ∧ t = t' ∧ body = body' := by
  have hsplit := congrArg (splitOnce 46) h
  rw [signedBytes, signedBytes, split_once_append hid, split_once_append hid',
    Option.some.injEq, Prod.mk.injEq] at hsplit
  obtain ⟨hids, hrest⟩ := hsplit
  have hsplit' := congrArg (splitOnce 46) hrest
  rw [split_once_append (decimal_no_dot t), split_once_append (decimal_no_dot t'),
    Option.some.injEq, Prod.mk.injEq] at hsplit'
  exact ⟨hids, ascii_decimal_injective hsplit'.1, hsplit'.2⟩

theorem candidate_range {tag : Bytes} {c : Char} (h : c ∈ candidateOf tag) :
    43 ≤ c.toNat ∧ c.toNat ≤ 122 := by
  have halphabet : ∀ c ∈ signaturePrefix.toList ++ '=' :: Base64.alphabet,
      43 ≤ c.toNat ∧ c.toNat ≤ 122 := by
    have hall : (signaturePrefix.toList ++ '=' :: Base64.alphabet).all
        (fun c => 43 ≤ c.toNat ∧ c.toNat ≤ 122) = true := by decide
    simpa only [List.all_eq_true, decide_eq_true_eq] using hall
  apply halphabet
  rcases List.mem_append.mp h with h | h
  · exact List.mem_append_left _ h
  · exact List.mem_append_right _ (Base64.encode_mem h)

theorem candidate_no_whitespace {tag : Bytes} :
    ∀ byte ∈ ascii (candidateOf tag), isAsciiWhitespace byte = false := by
  intro byte hbyte
  obtain ⟨c, hc, rfl⟩ := List.mem_map.mp hbyte
  obtain ⟨hlow, hhigh⟩ := candidate_range hc
  have hnat : (UInt8.ofNat c.toNat).toNat = c.toNat :=
    UInt8.toNat_ofNat_of_lt' (Nat.lt_of_le_of_lt hhigh (by decide))
  simp only [isAsciiWhitespace, decide_eq_false_iff_not]
  intro hmem
  have hsmall : ∀ b ∈ ([32, 9, 10, 12, 13] : Bytes), b.toNat < 43 := by decide
  have := hsmall _ hmem
  omega

theorem decode_candidate (tag : Bytes) : decodeCandidate (ascii (candidateOf tag)) = some tag := by
  have hsplit : ascii (candidateOf tag) =
      ascii signaturePrefix.toList ++ ascii (Base64.encode tag) := by
    rw [candidateOf, ascii, List.map_append]
    rfl
  have hstart : (ascii signaturePrefix.toList).isPrefixOf (ascii (candidateOf tag)) = true := by
    rw [List.isPrefixOf_iff_prefix, hsplit]
    exact List.prefix_append _ _
  have hchars : (ascii (Base64.encode tag)).map (fun byte => Char.ofNat byte.toNat) =
      Base64.encode tag := by
    apply chars_ascii
    intro c hc
    have hmem : c ∈ candidateOf tag := List.mem_append_right _ hc
    have := candidate_range hmem
    omega
  simp only [decodeCandidate, hstart, if_true]
  rw [hsplit, List.drop_left, hchars, Base64.decode_encode]

/-- The signature value of a ring holds a candidate of each of its keys. -/
theorem signatures_delimit {hmac : Hmac} {ring : KeyRing} {id body : Bytes} {t : Int64}
    {text : List Char} (h : ring.signatures hmac id t body = .ok text) {key : SigningKey}
    (hkey : key ∈ ring.keys) : ∃ before after, ascii text =
      before ++ (ascii (candidateOf (tag hmac key id t body)) ++ after) ∧
        Delimited isAsciiWhitespace before after := by
  simp only [KeyRing.signatures, bind_ok] at h
  obtain ⟨_, -, _, -, h⟩ := h
  cases hprevious : ring.previous with
  | none =>
    rw [hprevious] at h
    cases h
    simp only [KeyRing.keys, hprevious, Option.toList_none, List.mem_singleton] at hkey
    subst hkey
    exact ⟨[], [], by simp, by simp [Delimited]⟩
  | some previous =>
    rw [hprevious] at h
    cases h
    have hascii : ∀ xs ys : List Char, ascii (xs ++ ' ' :: ys) = ascii xs ++ 32 :: ascii ys := by
      intro xs ys
      rw [ascii, List.map_append, List.map_cons]
      rfl
    simp only [KeyRing.keys, hprevious, Option.toList_some, List.mem_cons, List.not_mem_nil,
      or_false] at hkey
    rw [hascii]
    rcases hkey with rfl | rfl
    · exact ⟨[], 32 :: _, rfl, by simp [Delimited, isAsciiWhitespace]⟩
    · exact ⟨ascii (candidateOf (tag hmac ring.active id t body)) ++ [32], [], by simp,
        by simp [Delimited, isAsciiWhitespace]⟩

theorem v1_candidates_of_delimited {value before after word : Bytes} {tag : Bytes}
    (hvalue : value = before ++ (word ++ after)) (h : Delimited isAsciiWhitespace before after)
    (hword : word = ascii (candidateOf tag)) : tag ∈ v1Candidates value := by
  subst hword hvalue
  rw [v1Candidates, List.mem_filterMap]
  exact ⟨_, mem_split_of_delimited h candidate_no_whitespace, decode_candidate tag⟩

theorem unambiguous_header_ok {headers : HeaderMap} {name : String} {value : Bytes} :
    unambiguousHeader headers name = .ok value ↔
      ∃ n, getAll headers name = List.replicate (n + 1) value := by
  simp only [unambiguousHeader]
  cases hvalues : getAll headers name with
  | nil => simp [List.replicate_succ]
  | cons first rest =>
    simp only [List.replicate_succ, List.cons.injEq]
    by_cases hany : rest.any (· ≠ first) = true
    · simp only [hany, if_true]
      constructor
      · intro h
        cases h
      · rintro ⟨n, rfl, rfl⟩
        simp at hany
    · simp only [hany]
      have hrest : rest = List.replicate rest.length first := by
        rw [List.eq_replicate_iff]
        refine ⟨rfl, ?_⟩
        intro b hb
        by_contra hne
        exact hany (List.any_eq_true.mpr ⟨b, hb, by simpa using hne⟩)
      constructor
      · intro h
        cases h
        exact ⟨rest.length, rfl, hrest⟩
      · rintro ⟨n, rfl, -⟩
        rfl

structure Accepted (hmac : Hmac) (ring : KeyRing) (headers : HeaderMap) (body : Bytes) (now : ℤ)
    (message : VerifiedMessage) : Prop where
  bounded : body.length ≤ maxBodyBytes
  id : ∃ n, getAll headers webhookId = List.replicate (n + 1) message.messageId
  admitted : message.messageId ≠ [] ∧ message.messageId.length ≤ maxMessageIdBytes ∧
    46 ∉ message.messageId
  timestamp : ∃ n text, getAll headers webhookTimestamp = List.replicate (n + 1) text ∧
    parseTimestamp text = .ok message.timestamp
  window : (message.timestamp.toInt - now.tdiv 1000000000).natAbs ≤ timestampToleranceSeconds
  signature : ∃ value ∈ getAll headers webhookSignature, ∃ key ∈ ring.keys,
    tag hmac key message.messageId message.timestamp body ∈ v1Candidates value

theorem matches_iff {hmac : Hmac} {ring : KeyRing} {id body : Bytes} {t : Int64}
    {values : List Bytes} :
    ((values.flatMap v1Candidates).any (tag hmac ring.active id t body = ·) ||
      ring.previous.any fun key => (values.flatMap v1Candidates).any (tag hmac key id t body = ·)) =
        true ↔
      ∃ value ∈ values, ∃ key ∈ ring.keys, tag hmac key id t body ∈ v1Candidates value := by
  have hany : ∀ key, (values.flatMap v1Candidates).any (tag hmac key id t body = ·) = true ↔
      ∃ value ∈ values, tag hmac key id t body ∈ v1Candidates value := by
    intro key
    simp only [List.any_eq_true, List.mem_flatMap, decide_eq_true_eq]
    constructor
    · rintro ⟨candidate, ⟨value, hvalue, hmem⟩, rfl⟩
      exact ⟨value, hvalue, hmem⟩
    · rintro ⟨value, hvalue, hmem⟩
      exact ⟨_, ⟨value, hvalue, hmem⟩, rfl⟩
  rw [Bool.or_eq_true, hany]
  constructor
  · rintro (⟨value, hvalue, hmem⟩ | hprevious)
    · exact ⟨value, hvalue, _, List.mem_cons_self, hmem⟩
    · obtain ⟨key, hkey, hmatch⟩ := (Option.any_eq_true _ _).mp hprevious
      obtain ⟨value, hvalue, hmem⟩ := (hany key).mp hmatch
      exact ⟨value, hvalue, key, by simp [KeyRing.keys, hkey], hmem⟩
  · rintro ⟨value, hvalue, key, hkey, hmem⟩
    rcases List.mem_cons.mp hkey with rfl | hkey
    · exact .inl ⟨value, hvalue, hmem⟩
    · right
      rw [Option.any_eq_true]
      exact ⟨key, Option.mem_toList.mp hkey, (hany key).mpr ⟨value, hvalue, hmem⟩⟩

theorem verify_ok {hmac : Hmac} {ring : KeyRing} {headers : HeaderMap} {body : Bytes} {now : ℤ}
    {message : VerifiedMessage} : ring.verify hmac headers body now = .ok message ↔
      Accepted hmac ring headers body now message := by
  simp only [KeyRing.verify, bind_ok, ensureBodySize, ensureMessageId, ensureTimestampWindow,
    ensure_ok, decide_eq_true_eq, unambiguous_header_ok, matches_iff]
  constructor
  · rintro ⟨_, hbody, id, hid, _, hadmitted, text, ⟨n, htext⟩, t, hparse, _, hwindow, _, -, _,
      hmatch, hout⟩
    cases hout
    exact ⟨hbody, hid, hadmitted, ⟨n, text, htext, hparse⟩, hwindow, hmatch⟩
  · rintro ⟨hbody, hid, hadmitted, ⟨n, text, htext, hparse⟩, hwindow, hmatch⟩
    have hvalues : getAll headers webhookSignature ≠ [] := by
      obtain ⟨value, hvalue, -⟩ := hmatch
      exact List.ne_nil_of_mem hvalue
    exact ⟨(), hbody, _, hid, (), hadmitted, text, ⟨n, htext⟩, _, hparse, (), hwindow, (), hvalues,
      (), hmatch, rfl⟩

/-- A request carries a signature value for a message: the identity and timestamp headers may be
repeated with equal bytes, and one signature header holds the value, with anything before and
after it that a blank separates. -/
structure Carries (headers : HeaderMap) (id : Bytes) (t : Int64) (signatures : List Char) :
    Prop where
  id : ∃ n, getAll headers webhookId = List.replicate (n + 1) id
  timestamp : ∃ n text, getAll headers webhookTimestamp = List.replicate (n + 1) text ∧
    parseTimestamp text = .ok t
  signature : ∃ value ∈ getAll headers webhookSignature, ∃ before after,
    value = before ++ (ascii signatures ++ after) ∧ Delimited isAsciiWhitespace before after

/-- Whole seconds counted away from the epoch stay within the tolerance. -/
theorem window_seconds {t now : ℤ} (h : (t * 1000000000 - now).natAbs ≤ 300 * 1000000000) :
    (t - now.tdiv 1000000000).natAbs ≤ timestampToleranceSeconds := by
  have htolerance : timestampToleranceSeconds = 300 := rfl
  have hdiv := Int.mul_tdiv_add_tmod now 1000000000
  have hless := Int.tmod_lt_of_pos now (show (0 : ℤ) < 1000000000 by decide)
  have hmore := Int.lt_tmod_of_pos now (show (0 : ℤ) < 1000000000 by decide)
  omega

/-- A ring that shares a key with the signing one accepts the message. -/
theorem carried_accepted {hmac : Hmac} {S R : KeyRing} {key : SigningKey} {id body : Bytes}
    {t : Int64} {now : ℤ} {headers : HeaderMap} {signatures : List Char} (hS : key ∈ S.keys)
    (hR : key ∈ R.keys) (hid : id ≠ [] ∧ id.length ≤ maxMessageIdBytes ∧ 46 ∉ id)
    (hbody : body.length ≤ maxBodyBytes)
    (hnow : (t.toInt * 1000000000 - now).natAbs ≤ 300 * 1000000000)
    (hsigned : S.signatures hmac id t body = .ok signatures)
    (hcarries : Carries headers id t signatures) :
    R.verify hmac headers body now = .ok ⟨id, t⟩ := by
  obtain ⟨value, hvalue, before, after, heq, hdelimited⟩ := hcarries.signature
  obtain ⟨inner, outer, htext, hinner⟩ := signatures_delimit hsigned hS
  rw [verify_ok]
  refine ⟨hbody, hcarries.id, hid, hcarries.timestamp, window_seconds hnow, value, hvalue, key, hR,
    ?_⟩
  apply v1_candidates_of_delimited _ (hdelimited.nested hinner) rfl
  rw [heq, htext]
  simp

theorem signatures_ok (hmac : Hmac) (S : KeyRing) {id body : Bytes} (t : Int64)
    (hid : id ≠ [] ∧ id.length ≤ maxMessageIdBytes ∧ 46 ∉ id)
    (hbody : body.length ≤ maxBodyBytes) :
    ∃ signatures, S.signatures hmac id t body = .ok signatures := by
  have hsized : ensureBodySize body = .ok () := by
    simp [ensureBodySize, hbody]
  have hnamed : ensureMessageId id = .ok () := by
    rw [ensureMessageId, ensure_ok]
    exact decide_eq_true hid
  simp only [KeyRing.signatures, hsized, hnamed, bind, Except.bind]
  cases S.previous with
  | none => exact ⟨_, rfl⟩
  | some previous => exact ⟨_, rfl⟩

/-- HMAC has no collision under any one of these keys among these byte strings. -/
def CollisionFree (hmac : Hmac) (keys : Set SigningKey) (signed : Set Bytes) : Prop :=
  ∀ key ∈ keys, Set.InjOn (hmac key) signed

/-- A tag under these keys is of one of these byte strings only. Two keys may share a tag of one
string: HMAC pads short keys with zeros. -/
def Separates (hmac : Hmac) (keys : Set SigningKey) (signed : Set Bytes) : Prop :=
  ∀ key ∈ keys, ∀ key' ∈ keys, ∀ x ∈ signed, ∀ y ∈ signed, hmac key x = hmac key' y → x = y

/-- Signing and verification agree and bind the message. A ring that shares a key with the signer
accepts what it signed, within the clock window, whatever else the request carries; the signed
bytes determine the message; an accepted request holds a tag of exactly the accepted message under
a key of the ring, which is the tag of no other message under that key; and where no two messages
share a tag under the keys in use, a request whose candidates were all signed for one message is
accepted for no other. -/
theorem signing_binds_message (hmac : Hmac) :
    (∀ (S R : KeyRing) (key : SigningKey) (id body : Bytes) (t : Int64) (now : ℤ),
      key ∈ S.keys → key ∈ R.keys →
      id ≠ [] ∧ id.length ≤ maxMessageIdBytes ∧ 46 ∉ id → body.length ≤ maxBodyBytes →
      (t.toInt * 1000000000 - now).natAbs ≤ 300 * 1000000000 →
      parseTimestamp (ascii (decimal t)) = .ok t ∧
      ∃ signatures, S.signatures hmac id t body = .ok signatures ∧
        ∀ headers, Carries headers id t signatures →
          R.verify hmac headers body now = .ok ⟨id, t⟩) ∧
    (∀ (id id' body body' : Bytes) (t t' : Int64), 46 ∉ id → 46 ∉ id' →
      signedBytes id t body = signedBytes id' t' body' → id = id' ∧ t = t' ∧ body = body') ∧
    ∀ (keys : Set SigningKey) (signed : Set Bytes), CollisionFree hmac keys signed →
      ∀ (R : KeyRing) (headers : HeaderMap) (body : Bytes) (now : ℤ) (message : VerifiedMessage),
      (∀ key ∈ R.keys, key ∈ keys) → R.verify hmac headers body now = .ok message →
      signedBytes message.messageId message.timestamp body ∈ signed →
      (∃ value ∈ getAll headers webhookSignature, ∃ candidate ∈ v1Candidates value,
        ∃ key ∈ R.keys, candidate = tag hmac key message.messageId message.timestamp body ∧
          ∀ (id' body' : Bytes) (t' : Int64), 46 ∉ id' → signedBytes id' t' body' ∈ signed →
            candidate = tag hmac key id' t' body' →
              id' = message.messageId ∧ t' = message.timestamp ∧ body' = body) ∧
      (Separates hmac keys signed → ∀ (id' body' : Bytes) (t' : Int64), 46 ∉ id' →
        signedBytes id' t' body' ∈ signed →
        (∀ value ∈ getAll headers webhookSignature, ∀ candidate ∈ v1Candidates value,
          ∃ key ∈ keys, candidate = tag hmac key id' t' body') →
        id' = message.messageId ∧ t' = message.timestamp ∧ body' = body) := by
  refine ⟨?_, ?_, ?_⟩
  · intro S R key id body t now hS hR hid hbody hnow
    obtain ⟨signatures, hsigned⟩ := signatures_ok hmac S t hid hbody
    refine ⟨parse_timestamp_decimal t, signatures, hsigned, ?_⟩
    intro headers hcarries
    exact carried_accepted hS hR hid hbody hnow hsigned hcarries
  · intro id id' body body' t t' hid hid' h
    exact signed_bytes_injective hid hid' h
  · intro keys signed free R headers body now message hring hverify hsigned
    obtain ⟨-, -, hadmitted, -, -, value, hvalue, key, hkey, hmem⟩ := verify_ok.mp hverify
    constructor
    · refine ⟨value, hvalue, _, hmem, key, hkey, rfl, ?_⟩
      intro id' body' t' hid' hsigned' htag
      apply signed_bytes_injective hid' hadmitted.2.2
      exact (free key (hring key hkey) hsigned hsigned' (Vector.toList_inj.mp htag)).symm
    · intro separates id' body' t' hid' hsigned' hall
      obtain ⟨key', hkey', htag⟩ := hall value hvalue _ hmem
      apply signed_bytes_injective hid' hadmitted.2.2
      exact (separates key (hring key hkey) key' hkey' _ hsigned _ hsigned'
        (Vector.toList_inj.mp htag)).symm

def sampleKey : SigningKey := ⟨(List.range 24).map UInt8.ofNat, by decide⟩

def nextKey : SigningKey := ⟨(List.range 24).map fun n => UInt8.ofNat (n + 1), by decide⟩

/-- HMAC-SHA256 of `m.5.x` and of `m.6.x` under the two sample keys. -/
def sampleHmac : Hmac := fun key message =>
  if key = sampleKey then
    if message = [109, 46, 53, 46, 120] then
      #v[0x95, 0x6d, 0xec, 0x29, 0x43, 0x79, 0xe9, 0x12, 0xcc, 0x1a, 0x8e, 0x70, 0x47, 0x65, 0xbf,
        0x55, 0xa6, 0x9b, 0x34, 0x1a, 0xeb, 0xff, 0xda, 0xfc, 0x6e, 0x24, 0x07, 0x8c, 0xcb, 0x3b,
        0xfa, 0x91]
    else
      #v[0xf8, 0x73, 0x26, 0x29, 0x17, 0xed, 0xc5, 0x27, 0x4d, 0x6f, 0x24, 0x0f, 0xc2, 0xa7, 0x51,
        0xc7, 0xcf, 0x32, 0xb8, 0xcb, 0x1b, 0xbb, 0x00, 0x5c, 0x9a, 0x50, 0x0a, 0xe6, 0xf0, 0xd6,
        0xc9, 0xb3]
  else
    if message = [109, 46, 53, 46, 120] then
      #v[0xb5, 0xaf, 0x39, 0xf0, 0xf3, 0xc2, 0xf7, 0x38, 0x86, 0x0d, 0x99, 0x7e, 0xe0, 0x42, 0x4b,
        0xed, 0x02, 0x34, 0xaa, 0xc7, 0xbc, 0x26, 0xea, 0x22, 0x0d, 0x52, 0x7f, 0xfb, 0xa3, 0x5b,
        0x74, 0x80]
    else
      #v[0x9a, 0x9b, 0x36, 0x27, 0xfd, 0x47, 0x6a, 0x0a, 0xe4, 0x92, 0x58, 0xce, 0xc5, 0x57, 0x3f,
        0x91, 0xa8, 0x33, 0x39, 0xcb, 0x99, 0x44, 0x06, 0xcd, 0xf4, 0x72, 0xc9, 0x53, 0xb5, 0x23,
        0xb9, 0x70]

def sampleKeys : Set SigningKey := {key | key = sampleKey ∨ key = nextKey}

/-- The byte strings signed for the message at second 5 and at second 6. -/
def sampleSigned : Set Bytes :=
  {bytes | bytes = signedBytes [109] 5 [120] ∨ bytes = signedBytes [109] 6 [120]}

theorem sample_separates : Separates sampleHmac sampleKeys sampleSigned := by
  have hlater : (signedBytes [109] 6 [120] = [109, 46, 53, 46, 120]) = False := by decide
  have hnow : (signedBytes [109] 5 [120] = [109, 46, 53, 46, 120]) = True := by decide
  have hnext : (nextKey = sampleKey) = False := by decide
  rintro key (rfl | rfl) key' (rfl | rfl) x (rfl | rfl) y (rfl | rfl) h
  all_goals
    first
    | rfl
    | simp only [sampleHmac, hlater, hnow, hnext, if_true, if_false] at h
      exact absurd h (by decide)

/-- A message signed at second 5 under both keys and sent with the timestamp text `+5` to a ring
that holds the second key alone; its candidates are not those of the message at second 6. -/
theorem signing_binds_message_sample :
    ∃ signatures,
      KeyRing.signatures ⟨sampleKey, some nextKey⟩ sampleHmac [109] 5 [120] = .ok signatures ∧
      KeyRing.verify ⟨nextKey, none⟩ sampleHmac
        [(webhookId, [109]), (webhookTimestamp, ascii ['+', '5']),
          (webhookSignature, ascii signatures)] [120] 5000000000 = .ok ⟨[109], 5⟩ ∧
      (∃ candidate ∈ v1Candidates (ascii signatures),
        candidate = tag sampleHmac nextKey [109] 5 [120]) ∧
      ¬ ∀ candidate ∈ v1Candidates (ascii signatures),
        ∃ key ∈ sampleKeys, candidate = tag sampleHmac key [109] 6 [120] := by
  obtain ⟨hsign, -, hbind⟩ := signing_binds_message sampleHmac
  obtain ⟨-, signatures, hsigned, haccept⟩ := hsign ⟨sampleKey, some nextKey⟩ ⟨nextKey, none⟩
    nextKey [109] [120] 5 5000000000 (by simp [KeyRing.keys]) List.mem_cons_self (by decide)
    (by decide) (by decide)
  have hcarries : Carries [(webhookId, [109]), (webhookTimestamp, ascii ['+', '5']),
      (webhookSignature, ascii signatures)] [109] 5 signatures := by
    refine ⟨⟨0, rfl⟩, ⟨0, _, rfl, by decide⟩, ascii signatures, by simp [getAll], [], [], ?_, ?_⟩
    · simp
    · simp [Delimited]
  have hverified := haccept _ hcarries
  have hfree : CollisionFree sampleHmac sampleKeys sampleSigned := by
    intro key hkey x hx y hy h
    exact sample_separates key hkey key hkey x hx y hy h
  have hring : ∀ key ∈ KeyRing.keys ⟨nextKey, none⟩, key ∈ sampleKeys := by
    intro key hkey
    exact .inr (by simpa [KeyRing.keys] using hkey)
  have hheader : ∀ value ∈ getAll [(webhookId, [109]), (webhookTimestamp, ascii ['+', '5']),
      (webhookSignature, ascii signatures)] webhookSignature, value = ascii signatures := by
    intro value hvalue
    simpa [getAll, webhookId, webhookTimestamp, webhookSignature] using hvalue
  obtain ⟨⟨value, hvalue, candidate, hmem, key, hkey, heq, -⟩, hother⟩ :=
    hbind _ _ hfree _ _ _ _ _ hring hverified (.inl rfl)
  have hused : key = nextKey := by simpa [KeyRing.keys] using hkey
  subst hused
  refine ⟨signatures, hsigned, hverified, ⟨candidate, hheader value hvalue ▸ hmem, heq⟩, ?_⟩
  intro hall
  have hmessage := hother sample_separates [109] [120] 6 (by decide) (.inr rfl)
    (fun value hvalue => hheader value hvalue ▸ hall)
  exact absurd hmessage.2.1 (by decide)

end WebhookProtocol
