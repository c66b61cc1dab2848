import ServiceTemplate.WebhookProtocol
import ServiceTemplate.JobsPayload
import ServiceTemplate.OutboxPreflight

/-! Durable webhook delivery: the size scan that runs before any delivery exists, the stored
delivery, and the signed request of one attempt. -/
namespace WebhookOutbound

open ByteFraming
open Utf8Text
open JsonText
open JsonTree
open JobsPayload
open WebhookProtocol
open MessagingOutbox (takeFitting take_fitting_append take_fitting_ne_nil utf8Len utf8_len_cons
  utf8_len_append utf8_len_nil)

def deliveryKind : String := "webhooks.deliver"
def defaultContentType : String := "application/json"
def preflightSourceBytes : ℕ := 4096

def deliveryVersion : UInt8 := 2

structure Delivery where
  version : UInt8
  endpointId : String
  contentType : String
  body : Bytes
  deriving DecidableEq

def string (text : String) : Json := .scalar (.string text.toList)

def Delivery.members (delivery : Delivery) : List (String × Json) :=
  [("version", .scalar (.number (Nat.toDigits 10 delivery.version.toNat) (decimal_number _))),
    ("endpoint_id", string delivery.endpointId),
    ("content_type", string delivery.contentType),
    ("body", .scalar (.string (Base64.encode delivery.body)))]

def Delivery.toJson (delivery : Delivery) : Json := .object delivery.members

structure Partial where
  endpointId : Option String
  contentType : Option String
  body : Option Bytes

def readString (value : Json) : Option String :=
  match value with
  | .scalar (.string text) => some (String.ofList text)
  | _ => none

def readBody (value : Json) : Option Bytes :=
  (readString value).bind fun text => Base64.decode text.toList

/-- A repeated member is an error. -/
def once {α : Type} (current value : Option α) : Option (Option α) :=
  if current.isSome then none else value.map some

/-- The version and unknown members are skipped. -/
def Partial.read (p : Partial) (member : String × Json) : Option Partial :=
  if member.1 = "endpoint_id" then
    (once p.endpointId (readString member.2)).map fun endpointId => { p with endpointId }
  else if member.1 = "content_type" then
    (once p.contentType (readString member.2)).map fun contentType => { p with contentType }
  else if member.1 = "body" then (once p.body (readBody member.2)).map fun body => { p with body }
  else some p

def Partial.finish (p : Partial) : Option Delivery := do
  return ⟨deliveryVersion, ← p.endpointId, ← p.contentType, ← p.body⟩

/-- Deserialization: by name from an object, or in order from an array. -/
def Delivery.fromJson : Json → Option Delivery
  | .object members => members.foldl (fun p member => p.bind (Partial.read · member)) (some ⟨none, none, none⟩) >>= Partial.finish
  | .array [endpointId, contentType, body] => do
    return ⟨deliveryVersion, ← readString endpointId, ← readString contentType, ← readBody body⟩
  | _ => none

inductive OutboundError where
  | unknownEndpoint
  | bodyTooLarge
  | invalidContentType
  | enqueue (source : EnqueueError)
  | unexpectedDuplicate
  deriving DecidableEq, Repr

/-- `HeaderValue`: each byte is a tab, or at least 0x20 and not 0x7f. -/
structure HeaderValue where
  bytes : Bytes
  valid : bytes.all (fun byte => byte = 9 ∨ (32 ≤ byte ∧ byte ≠ 127)) = true
  deriving DecidableEq

def HeaderValue.fromBytes (bytes : Bytes) : Option HeaderValue :=
  if h : bytes.all (fun byte => byte = 9 ∨ (32 ≤ byte ∧ byte ≠ 127)) = true then some ⟨bytes, h⟩
  else none

inductive Field where
  | contentType
  | endpointId
  deriving DecidableEq, Repr

/-- What the poll closure captures: the rest of each field that is not finished, and the count. -/
structure Scan where
  fields : List (Field × List Char)
  bytes : ℕ
  deriving DecidableEq, Repr

def fragmentJson (fragment : List Char) : Bytes := encoding (.scalar (.string fragment))

def Scan.chars (scan : Scan) : ℕ := (scan.fields.map fun field => field.2.length).sum

def verdict (bytes : ℕ) : Except OutboundError Unit :=
  if maxPayloadBytes < bytes then .error (.enqueue (.payloadTooLarge bytes)) else .ok ()

theorem fitting_shrinks {remaining : ℕ} {source : List Char}
    (hfits : ¬ ((takeFitting remaining source).1 = [] ∧ source ≠ []))
    (hleft : (takeFitting remaining source).2 ≠ []) :
    (takeFitting remaining source).2.length < source.length := by
  have happend := congrArg List.length (take_fitting_append remaining source)
  have hfragment : (takeFitting remaining source).1 ≠ [] := by
    intro hnil
    have hsource : source = [] := by
      by_contra hne
      exact hfits ⟨hnil, hne⟩
    subst hsource
    exact hleft rfl
  have hpos := List.length_pos_iff.mpr hfragment
  rw [List.length_append] at happend
  omega

/-- The loop of one poll, with the rest of its budget. No answer means that the poll yields. -/
def pollLoop (remaining : ℕ) (fields : List (Field × List Char)) (bytes : ℕ) :
    Scan × Option (Except OutboundError Unit) :=
  match fields with
  | [] => (⟨[], bytes⟩, some (verdict bytes))
  | (field, source) :: rest =>
    let fragment := (takeFitting remaining source).1
    let left := (takeFitting remaining source).2
    if fragment = [] ∧ source ≠ [] then (⟨(field, source) :: rest, bytes⟩, none)
    else if field = .contentType ∧ HeaderValue.fromBytes (utf8 fragment) = none then
      (⟨(field, source) :: rest, bytes⟩, some (.error .invalidContentType))
    else
      let counted := bytes + ((fragmentJson fragment).length - 2)
      if left = [] then pollLoop (remaining - (utf8 fragment).length) rest counted
      else pollLoop (remaining - (utf8 fragment).length) ((field, left) :: rest) counted
termination_by (fields.map fun field => field.2.length + 1).sum
decreasing_by
  · simp
  · simpa using fitting_shrinks ‹_› ‹_›

def poll (scan : Scan) : Scan × Option (Except OutboundError Unit) :=
  pollLoop preflightSourceBytes scan.fields scan.bytes

/-- Polls until there is an answer, at most `fuel` times. -/
def drive : ℕ → Scan → Option (Scan × Except OutboundError Unit)
  | 0, _ => none
  | fuel + 1, scan =>
    match poll scan with
    | (scan, some answer) => some (scan, answer)
    | (scan, none) => drive fuel scan

def envelope : List Char :=
  "\x7b\"version\":,\"endpoint_id\":\"\",\"content_type\":\"\",\"body\":\"\"\x7d".toList

def startScan (endpointId : String) (bodyBytes : ℕ) (contentType : String) : Scan where
  fields := [(.contentType, contentType.toList), (.endpointId, endpointId.toList)]
  bytes := (utf8 envelope).length + (Nat.toDigits 10 deliveryVersion.toNat).length +
    (bodyBytes + 2) / 3 * 4

structure Outbound where
  endpointIds : List String

def runScan (endpointId : String) (bodyBytes : ℕ) (contentType : String) :
    Option (Scan × Except OutboundError Unit) :=
  let scan := startScan endpointId bodyBytes contentType
  drive (scan.chars + 1) scan

/-- No answer means that the scan never completes. -/
def Outbound.preflight (outbound : Outbound) (endpointId : String) (bodyBytes : ℕ)
    (contentType : String) : Option (Except OutboundError Unit) :=
  if maxBodyBytes < bodyBytes then some (.error .bodyTooLarge)
  else if endpointId ∉ outbound.endpointIds then some (.error .unknownEndpoint)
  else (runScan endpointId bodyBytes contentType).map Prod.snd

/-- Up to the insert: the payload that the jobs owner stores. -/
def Outbound.enqueue (outbound : Outbound) (endpointId : String) (body : Bytes)
    (contentType : Option String) : Option (Except OutboundError Prepared) :=
  let contentType := contentType.getD defaultContentType
  (outbound.preflight endpointId body.length contentType).map fun answer =>
    match answer with
    | .error error => .error error
    | .ok () =>
      let delivery : Delivery := ⟨deliveryVersion, endpointId, contentType, body⟩
      match prepare deliveryKind ⟨[encoding delivery.toJson], false⟩ ⟨0, none⟩ with
      | .error source => .error (.enqueue source)
      | .ok prepared => .ok prepared

/-- A parsed URL; `text` is its serialization. -/
structure Url where
  text : String
  scheme : String
  host : Option String
  username : String
  password : Option String
  fragment : Option String
  deriving DecidableEq

/-- `parse_destination`, after the URL parser. -/
def admitDestination (url : Url) : Bool :=
  url.scheme = "https" && url.host.isSome && url.username = "" && url.password.isNone &&
    url.fragment.isNone

structure Endpoint where
  destination : Url
  keys : KeyRing
  admitted : admitDestination destination = true
  deriving DecidableEq

/-- A job's id is a UUID. -/
structure JobId where
  uuid : Vector UInt8 16
  deriving DecidableEq

def hexByte (byte : UInt8) : List Char := [hexDigit (byte.toNat / 16), hexDigit (byte.toNat % 16)]

def JobId.text (id : JobId) : List Char :=
  let hex := fun start stop => (id.uuid.toList.extract start stop).flatMap hexByte
  hex 0 4 ++ '-' :: (hex 4 6 ++ '-' :: (hex 6 8 ++ '-' :: (hex 8 10 ++ '-' :: hex 10 16)))

structure Request where
  method : String
  uri : String
  headers : List (String × HeaderValue)
  body : Bytes
  deriving DecidableEq

abbrev UriSyntax := String → Bool

def request (isUri : UriSyntax) (delivery : Delivery) (destination : Url) (messageId : List Char)
    (timestamp : Int64) (signature : List Char) : Option Request := do
  if !isUri destination.text then none else
  let contentType ← HeaderValue.fromBytes (asBytes delivery.contentType)
  let id ← HeaderValue.fromBytes (utf8 messageId)
  let timestamp ← HeaderValue.fromBytes (utf8 (decimal timestamp))
  let signature ← HeaderValue.fromBytes (utf8 signature)
  return {
    method := "POST"
    uri := destination.text
    headers := [("content-type", contentType), (webhookId, id), (webhookTimestamp, timestamp),
      (webhookSignature, signature)]
    body := delivery.body }

inductive DeliveryOutcome where
  | invalidPayload
  | missingEndpoint
  | clockUnavailable
  deriving DecidableEq, Repr

inductive JobError where
  | retryable (outcome : DeliveryOutcome)
  | permanent (outcome : DeliveryOutcome)
  deriving DecidableEq, Repr

def unixTimestamp (now : ℤ) : Option Int64 :=
  if 0 ≤ now ∧ now / 1000000000 < 2 ^ 63 then some (Int64.ofInt (now / 1000000000)) else none

/-- Up to the exchange: the request that the client executes. -/
def dispatch (hmac : Hmac) (isUri : UriSyntax) (endpoints : String → Option Endpoint) (id : JobId)
    (delivery : Delivery) (now : ℤ) : Except JobError Request :=
  match endpoints delivery.endpointId with
  | none => .error (.retryable .missingEndpoint)
  | some endpoint =>
    match unixTimestamp now with
    | none => .error (.retryable .clockUnavailable)
    | some timestamp =>
      let messageId := id.text
      let built :=
        match endpoint.keys.signatures hmac (utf8 messageId) timestamp delivery.body with
        | .error _ => none
        | .ok signature => request isUri delivery endpoint.destination messageId timestamp signature
      match built with
      | none => .error (.permanent .invalidPayload)
      | some request => .ok request

def escapedLen (text : List Char) : ℕ := (utf8 (text.flatMap escapeChar)).length

theorem escaped_len_append (a b : List Char) : escapedLen (a ++ b) = escapedLen a + escapedLen b := by
  simp [escapedLen, utf8_append]

theorem quote_length (text : List Char) : (utf8 (quote text)).length = escapedLen text + 2 := by
  have hquote : utf8 ['"'] = [34] := by decide
  have hsplit : quote text = ['"'] ++ text.flatMap escapeChar ++ ['"'] := rfl
  rw [hsplit, utf8_append, utf8_append, hquote, List.length_append, List.length_append, escapedLen]
  exact Nat.add_right_comm 1 _ 1 ▸ Nat.add_comm _ _ ▸ rfl

theorem fragment_counted (fragment : List Char) :
    (fragmentJson fragment).length - 2 = escapedLen fragment := by
  have hquote := quote_length fragment
  have hjson : fragmentJson fragment = utf8 (quote fragment) := rfl
  rw [hjson, hquote, Nat.add_sub_cancel]

def ValidValue (bytes : Bytes) : Prop :=
  bytes.all (fun byte => byte = 9 ∨ (32 ≤ byte ∧ byte ≠ 127)) = true

theorem from_bytes_none {bytes : Bytes} : HeaderValue.fromBytes bytes = none ↔ ¬ ValidValue bytes := by
  rw [HeaderValue.fromBytes, dite_eq_right_iff]
  exact ⟨fun h hvalid => Option.some_ne_none _ (h hvalid), fun h hvalid => absurd hvalid h⟩

theorem from_bytes_some {bytes : Bytes} (h : ValidValue bytes) :
    HeaderValue.fromBytes bytes = some ⟨bytes, h⟩ := dif_pos h

theorem valid_value_append {a b : Bytes} : ValidValue (a ++ b) ↔ ValidValue a ∧ ValidValue b := by
  simp only [ValidValue, List.all_append, Bool.and_eq_true]

def escapedFields (fields : List (Field × List Char)) : ℕ :=
  (fields.map fun field => escapedLen field.2).sum

def ValidFields (fields : List (Field × List Char)) : Prop :=
  ∀ field ∈ fields, field.1 = .contentType → ValidValue (utf8 field.2)

theorem valid_fields_cons {field : Field} {source : List Char} {rest : List (Field × List Char)} :
    ValidFields ((field, source) :: rest) ↔
      (field = .contentType → ValidValue (utf8 source)) ∧ ValidFields rest := by
  simp [ValidFields]

theorem escaped_fields_cons (field : Field) (source : List Char) (rest : List (Field × List Char)) :
    escapedFields ((field, source) :: rest) = escapedLen source + escapedFields rest := rfl

/-- What one poll leaves: the same total to count and the same fields to check; or the answer. -/
def Polled (fields : List (Field × List Char)) (bytes : ℕ) :
    Scan × Option (Except OutboundError Unit) → Prop
  | (scan, none) => scan.bytes + escapedFields scan.fields = bytes + escapedFields fields ∧
      (ValidFields scan.fields ↔ ValidFields fields)
  | (scan, some answer) =>
    (ValidFields fields →
      scan = ⟨[], bytes + escapedFields fields⟩ ∧ answer = verdict scan.bytes) ∧
    (¬ ValidFields fields → answer = .error .invalidContentType)

theorem Polled.transfer {fields fields' : List (Field × List Char)} {bytes bytes' : ℕ}
    {result : Scan × Option (Except OutboundError Unit)} (h : Polled fields' bytes' result)
    (hcount : bytes' + escapedFields fields' = bytes + escapedFields fields)
    (hvalid : ValidFields fields' ↔ ValidFields fields) : Polled fields bytes result := by
  obtain ⟨scan, answer⟩ := result
  cases answer with
  | none => exact ⟨h.1.trans hcount, h.2.trans hvalid⟩
  | some answer => simpa only [Polled, hcount, hvalid] using h

theorem admitted_fragment {field : Field} {fragment : List Char}
    (h : ¬ (field = .contentType ∧ HeaderValue.fromBytes (utf8 fragment) = none)) :
    field = .contentType → ValidValue (utf8 fragment) := by
  intro hfield
  by_contra hinvalid
  exact h ⟨hfield, from_bytes_none.mpr hinvalid⟩

theorem poll_loop_polled (remaining : ℕ) (fields : List (Field × List Char)) (bytes : ℕ) :
    Polled fields bytes (pollLoop remaining fields bytes) := by
  fun_induction pollLoop remaining fields bytes with
  | case1 remaining bytes =>
    refine ⟨fun _ => ⟨rfl, rfl⟩, fun h => absurd ?_ h⟩
    simp [ValidFields]
  | case2 => exact ⟨rfl, Iff.rfl⟩
  | case3 remaining bytes field source rest fragment _ hinvalid =>
    obtain ⟨hfield, hnone⟩ := hinvalid
    refine ⟨fun hvalid => ?_, fun _ => rfl⟩
    have hsource := (valid_fields_cons.mp hvalid).1 hfield
    rw [← take_fitting_append remaining source, utf8_append, valid_value_append] at hsource
    exact absurd hsource.1 (from_bytes_none.mp hnone)
  | case4 remaining bytes field source rest fragment left _ hvalid counted hleft ih =>
    have hsource : fragment = source := by
      rw [← take_fitting_append remaining source]
      exact (List.append_right_eq_self.mpr hleft).symm
    rw [hsource] at hvalid
    apply ih.transfer
    · rw [escaped_fields_cons, ← Nat.add_assoc, ← hsource, ← fragment_counted fragment]
    · rw [valid_fields_cons]
      exact ⟨fun hrest => ⟨admitted_fragment hvalid, hrest⟩, And.right⟩
  | case5 remaining bytes field source rest fragment left _ hvalid counted _ ih =>
    have hsource : source = fragment ++ left := (take_fitting_append remaining source).symm
    apply ih.transfer
    · have hcount : counted = bytes + escapedLen fragment := by
        rw [← fragment_counted fragment]
      rw [escaped_fields_cons, escaped_fields_cons, hsource, escaped_len_append, hcount]
      omega
    · rw [valid_fields_cons, valid_fields_cons, hsource, utf8_append, valid_value_append]
      exact and_congr_left' (forall_congr' fun hfield =>
        ⟨fun hl => ⟨admitted_fragment hvalid hfield, hl⟩, And.right⟩)

/-- Every yield has consumed a character, since four bytes always hold the next one. -/
theorem poll_loop_consumes (remaining : ℕ) (fields : List (Field × List Char)) (bytes : ℕ)
    (h : (pollLoop remaining fields bytes).2 = none) :
    (pollLoop remaining fields bytes).1.chars ≤ Scan.chars ⟨fields, bytes⟩ ∧
      (4 ≤ remaining →
        (pollLoop remaining fields bytes).1.chars < Scan.chars ⟨fields, bytes⟩) := by
  fun_induction pollLoop remaining fields bytes with
  | case1 => cases h
  | case2 remaining bytes field source rest fragment hbreak =>
    refine ⟨Nat.le_refl _, fun hroom => ?_⟩
    obtain ⟨c, source, rfl⟩ := List.exists_cons_of_ne_nil hbreak.2
    exact absurd hbreak.1 (take_fitting_ne_nil hroom c source)
  | case3 => cases h
  | case4 remaining bytes field source rest fragment left _ _ counted hleft ih =>
    have hsource : fragment = source := by
      rw [← take_fitting_append remaining source]
      exact (List.append_right_eq_self.mpr hleft).symm
    have hchars : Scan.chars ⟨(field, source) :: rest, bytes⟩ =
        source.length + Scan.chars ⟨rest, counted⟩ := rfl
    obtain ⟨hle, hlt⟩ := ih h
    rw [hchars]
    refine ⟨Nat.le_trans hle (Nat.le_add_left _ _), fun hroom => ?_⟩
    cases source with
    | nil =>
      have hempty : (utf8 fragment).length = 0 := by rw [hsource]; rfl
      rw [hempty, Nat.sub_zero] at hlt ⊢
      exact Nat.lt_of_lt_of_le (hlt hroom) (Nat.le_add_left _ _)
    | cons c source =>
      rw [List.length_cons]
      omega
  | case5 remaining bytes field source rest fragment left hfits _ counted hleft ih =>
    have hshort : left.length < source.length := fitting_shrinks hfits hleft
    obtain ⟨hle, -⟩ := ih h
    have hchars : Scan.chars ⟨(field, source) :: rest, bytes⟩ =
        source.length + Scan.chars ⟨rest, bytes⟩ := rfl
    have hchars' : Scan.chars ⟨(field, left) :: rest, counted⟩ =
        left.length + Scan.chars ⟨rest, bytes⟩ := rfl
    rw [hchars'] at hle
    rw [hchars]
    omega

theorem poll_consumes {scan scan' : Scan} (h : poll scan = (scan', none)) :
    scan'.chars < scan.chars := by
  have hnone : (pollLoop preflightSourceBytes scan.fields scan.bytes).2 = none := by
    rw [← poll, h]
  have hconsumed := (poll_loop_consumes _ _ _ hnone).2 (by decide)
  rwa [← poll, h] at hconsumed

/-- The scan completes, and its answer is that of the whole fields. -/
theorem drive_completes (fuel : ℕ) (scan : Scan) (h : scan.chars < fuel) :
    ∃ final answer, drive fuel scan = some (final, answer) ∧
      (ValidFields scan.fields →
        final = ⟨[], scan.bytes + escapedFields scan.fields⟩ ∧ answer = verdict final.bytes) ∧
      (¬ ValidFields scan.fields → answer = .error .invalidContentType) := by
  induction fuel generalizing scan with
  | zero => exact absurd h (Nat.not_lt_zero _)
  | succ fuel ih =>
    have hpolled : Polled scan.fields scan.bytes (poll scan) := poll_loop_polled _ _ _
    cases hpoll : poll scan with
    | mk scan' answer =>
      rw [hpoll] at hpolled
      cases answer with
      | some answer => exact ⟨scan', answer, by simp only [drive, hpoll], hpolled⟩
      | none =>
        have hless := poll_consumes hpoll
        obtain ⟨final, answer, hdrive, hvalid, hinvalid⟩ := ih scan' (by omega)
        refine ⟨final, answer, by simp only [drive, hpoll, hdrive], ?_, ?_⟩
        · rw [← hpolled.1, ← hpolled.2]
          exact hvalid
        · rw [← hpolled.2]
          exact hinvalid

theorem escaped_plain {text : List Char} (h : ∀ c ∈ text, escapeChar c = [c] ∧ c.toNat < 128) :
    escapedLen text = text.length := by
  have hsame : text.flatMap escapeChar = text := by
    rw [List.flatMap_congr fun c hc => (h c hc).1]
    exact List.flatMap_singleton' text
  rw [escapedLen, hsame, utf8_ascii fun c hc => (h c hc).2, List.length_map]

theorem body_counted (body : Bytes) :
    escapedLen (Base64.encode body) = (body.length + 2) / 3 * 4 := by
  have hplain : ∀ c ∈ '=' :: Base64.alphabet, escapeChar c = [c] ∧ c.toNat < 128 := by
    decide
  rw [escaped_plain fun c hc => hplain c (Base64.encode_mem hc), Base64.encode_length, Nat.mul_comm]

theorem delivery_render (delivery : Delivery) :
    delivery.toJson.render =
      "\x7b\"version\":".toList ++ Nat.toDigits 10 delivery.version.toNat ++
        ",\"endpoint_id\":".toList ++ quote delivery.endpointId.toList ++
        ",\"content_type\":".toList ++ quote delivery.contentType.toList ++
        ",\"body\":".toList ++ quote (Base64.encode delivery.body) ++ ['\x7d'] := by
  have hname : ∀ name ∈ ["version", "endpoint_id", "content_type", "body"],
      quote name.toList = '"' :: (name.toList ++ ['"']) := by decide
  have hversion := hname "version" (by decide)
  have hendpoint := hname "endpoint_id" (by decide)
  have hcontent := hname "content_type" (by decide)
  have hbody := hname "body" (by decide)
  simp only [Delivery.toJson, Delivery.members, Json.render, Json.renderMembers, string,
    Scalar.render, List.intercalate, hversion, hendpoint, hcontent, hbody]
  simp

theorem delivery_counted (delivery : Delivery) (hversion : delivery.version = deliveryVersion) :
    (encoding delivery.toJson).length =
      (startScan delivery.endpointId delivery.body.length delivery.contentType).bytes +
        (escapedLen delivery.contentType.toList + escapedLen delivery.endpointId.toList) := by
  have hdigits : Nat.toDigits 10 delivery.version.toNat = ['2'] := by rw [hversion]; decide
  have hopen : (utf8 "\x7b\"version\":".toList).length = 11 := by decide
  have hdigit : (utf8 ['2']).length = 1 := by decide
  have hendpoint : (utf8 ",\"endpoint_id\":".toList).length = 15 := by decide
  have hcontent : (utf8 ",\"content_type\":".toList).length = 16 := by decide
  have hbody : (utf8 ",\"body\":".toList).length = 8 := by decide
  have hclose : (utf8 ['\x7d']).length = 1 := by decide
  have henvelope : (utf8 envelope).length = 57 := by decide
  have hstart : (Nat.toDigits 10 deliveryVersion.toNat).length = 1 := by decide
  rw [encoding, delivery_render, hdigits]
  simp only [utf8_append, List.length_append, hopen, hdigit, hendpoint, hcontent, hbody, hclose,
    quote_length, body_counted, startScan, henvelope, hstart]
  omega

theorem run_scan_counts (delivery : Delivery) (hversion : delivery.version = deliveryVersion) :
    ∃ final answer,
      runScan delivery.endpointId delivery.body.length delivery.contentType = some (final, answer) ∧
        (ValidValue (asBytes delivery.contentType) →
          final = ⟨[], (encoding delivery.toJson).length⟩ ∧ answer = verdict final.bytes) ∧
        (¬ ValidValue (asBytes delivery.contentType) → answer = .error .invalidContentType) := by
  have hvalid : ValidFields (startScan delivery.endpointId delivery.body.length
      delivery.contentType).fields ↔ ValidValue (asBytes delivery.contentType) := by
    simp [startScan, ValidFields, as_bytes_flat_map, utf8]
  have hcount := delivery_counted delivery hversion
  have hdriven := drive_completes _ (startScan delivery.endpointId delivery.body.length
    delivery.contentType) (Nat.lt_succ_self _)
  rw [hvalid] at hdriven
  rw [hcount]
  exact hdriven

def Outbound.admission (outbound : Outbound) (delivery : Delivery) : Except OutboundError Unit :=
  if maxBodyBytes < delivery.body.length then .error .bodyTooLarge
  else if delivery.endpointId ∉ outbound.endpointIds then .error .unknownEndpoint
  else if HeaderValue.fromBytes (asBytes delivery.contentType) = none then
    .error .invalidContentType
  else if maxPayloadBytes < (encoding delivery.toJson).length then
    .error (.enqueue (.payloadTooLarge (encoding delivery.toJson).length))
  else .ok ()

theorem preflight_eq (outbound : Outbound) (delivery : Delivery)
    (hversion : delivery.version = deliveryVersion) :
    outbound.preflight delivery.endpointId delivery.body.length delivery.contentType =
      some (outbound.admission delivery) := by
  obtain ⟨final, answer, hrun, hvalid, hinvalid⟩ := run_scan_counts delivery hversion
  have hrest : answer = if HeaderValue.fromBytes (asBytes delivery.contentType) = none then
      .error .invalidContentType else verdict (encoding delivery.toJson).length := by
    split
    · rename_i hheader
      exact hinvalid (from_bytes_none.mp hheader)
    · rename_i hheader
      obtain ⟨hfinal, hanswer⟩ := hvalid (not_not.mp (mt from_bytes_none.mpr hheader))
      rw [hanswer, hfinal]
  simp only [Outbound.preflight, Outbound.admission, hrun, Option.map_some, hrest, verdict]
  split
  · rfl
  · split
    · rfl
    · rfl

structure Admitted (outbound : Outbound) (delivery : Delivery) : Prop where
  body : delivery.body.length ≤ maxBodyBytes
  endpoint : delivery.endpointId ∈ outbound.endpointIds
  contentType : HeaderValue.fromBytes (asBytes delivery.contentType) ≠ none
  size : (encoding delivery.toJson).length ≤ maxPayloadBytes

theorem admission_ok {outbound : Outbound} {delivery : Delivery} :
    outbound.admission delivery = .ok () ↔ Admitted outbound delivery := by
  constructor
  · intro h
    unfold Outbound.admission at h
    by_cases hbody : maxBodyBytes < delivery.body.length
    · rw [if_pos hbody] at h
      cases h
    · by_cases hknown : delivery.endpointId ∈ outbound.endpointIds
      · by_cases hheader : HeaderValue.fromBytes (asBytes delivery.contentType) = none
        · rw [if_neg hbody, if_neg (not_not_intro hknown), if_pos hheader] at h
          cases h
        · by_cases hsize : maxPayloadBytes < (encoding delivery.toJson).length
          · rw [if_neg hbody, if_neg (not_not_intro hknown), if_neg hheader, if_pos hsize] at h
            cases h
          · exact ⟨Nat.not_lt.mp hbody, hknown, hheader, Nat.not_lt.mp hsize⟩
      · rw [if_neg hbody, if_pos hknown] at h
        cases h
  · rintro ⟨hbody, hknown, hheader, hsize⟩
    rw [Outbound.admission, if_neg (Nat.not_lt.mpr hbody), if_neg (not_not_intro hknown),
      if_neg hheader, if_neg (Nat.not_lt.mpr hsize)]

/-- Two updates whose values do not depend on each other. -/
theorem map_bind_comm {α β γ : Type} {a : Option α} {b : Option β} {f : α → γ} {g : β → γ}
    {k l : γ → Option γ} {m : α → β → γ} (hk : ∀ x, k (f x) = b.map (m x))
    (hl : ∀ y, l (g y) = a.map fun x => m x y) : (a.map f).bind k = (b.map g).bind l := by
  cases a with
  | none =>
    cases b with
    | none => rfl
    | some y => exact (hl y).symm
  | some x =>
    cases b with
    | none => exact hk x
    | some y => exact (hk x).trans (hl y).symm

/-- Members of two names can be read in either order. -/
theorem read_comm {x y : String × Json} (h : x.1 ≠ y.1) (p : Partial) :
    (p.read x).bind (Partial.read · y) = (p.read y).bind (Partial.read · x) := by
  obtain ⟨kx, vx⟩ := x
  obtain ⟨ky, vy⟩ := y
  simp only [Partial.read] at h ⊢
  -- Equal names are excluded and other members change nothing, so two distinct fields remain.
  split_ifs <;> simp_all
  all_goals exact map_bind_comm (fun _ => rfl) (fun _ => rfl)

def readMembers (members : List (String × Json)) : Option Partial :=
  members.foldl (fun p member => p.bind (Partial.read · member)) (some ⟨none, none, none⟩)

theorem read_members_perm {kept members : List (String × Json)} (h : kept.Perm members)
    (hdistinct : (members.map Prod.fst).Nodup) : readMembers kept = readMembers members := by
  apply h.foldl_eq'
  intro x hx y hy p
  by_cases hxy : x = y
  · rw [hxy]
  · have hnames : x.1 ≠ y.1 := fun hname =>
      hxy (List.inj_on_of_nodup_map hdistinct (h.subset hx) (h.subset hy) hname)
    cases p with
    | none => rfl
    | some p => exact read_comm hnames p

theorem delivery_names (delivery : Delivery) :
    delivery.members.map Prod.fst = ["version", "endpoint_id", "content_type", "body"] := rfl

/-- The members of a delivery make it again in whatever order they come back. -/
theorem delivery_decoded {delivery : Delivery} (hversion : delivery.version = deliveryVersion)
    {kept : List (String × Json)} (h : kept.Perm delivery.members) :
    Delivery.fromJson (.object kept) = some delivery := by
  have hread : readMembers delivery.members =
      some ⟨some delivery.endpointId, some delivery.contentType, some delivery.body⟩ := by
    simp [readMembers, Delivery.members, Partial.read, once, readString, readBody, string,
      Base64.decode_encode]
  have hdistinct : (delivery.members.map Prod.fst).Nodup := by
    rw [delivery_names]
    decide
  have hperm : Delivery.fromJson (.object kept) = (readMembers kept) >>= Partial.finish := rfl
  rw [hperm, read_members_perm h hdistinct, hread]
  obtain ⟨version, endpointId, contentType, body⟩ := delivery
  subst hversion
  rfl

def Visible (text : List Char) : Prop := ∀ c ∈ text, 32 ≤ c.toNat ∧ c.toNat < 127

theorem visible_value {text : List Char} (h : Visible text) : ValidValue (utf8 text) := by
  rw [ValidValue, utf8_ascii fun c hc => Nat.lt_trans (h c hc).2 (by decide), List.all_eq_true]
  intro byte hbyte
  obtain ⟨c, hc, rfl⟩ := List.mem_map.mp hbyte
  obtain ⟨hlow, hhigh⟩ := h c hc
  have hnat : (UInt8.ofNat c.toNat).toNat = c.toNat :=
    UInt8.toNat_ofNat_of_lt' (Nat.lt_trans hhigh (by decide))
  rw [decide_eq_true_eq]
  right
  constructor
  · rw [UInt8.le_iff_toNat_le, hnat]
    exact hlow
  · rintro heq
    rw [heq] at hnat
    exact absurd hnat.symm (Nat.ne_of_lt hhigh)

theorem candidate_visible (tag : Bytes) : Visible (candidateOf tag) := by
  intro c hc
  obtain ⟨hlow, hhigh⟩ := candidate_range hc
  exact ⟨Nat.le_trans (by decide) hlow, Nat.lt_of_le_of_lt hhigh (by decide)⟩

theorem signatures_visible {hmac : Hmac} {ring : KeyRing} {id body : Bytes} {t : Int64}
    {text : List Char} (h : ring.signatures hmac id t body = .ok text) : Visible text := by
  simp only [KeyRing.signatures, ExceptChain.bind_ok] at h
  obtain ⟨_, -, _, -, h⟩ := h
  cases hprevious : ring.previous with
  | none =>
    rw [hprevious] at h
    cases h
    exact candidate_visible _
  | some previous =>
    rw [hprevious] at h
    cases h
    intro c hc
    rcases List.mem_append.mp hc with hc | hc
    · exact candidate_visible _ c hc
    · rcases List.mem_cons.mp hc with rfl | hc
      · decide
      · exact candidate_visible _ c hc

theorem decimal_visible (t : Int64) : Visible (decimal t) := by
  intro c hc
  obtain ⟨hlow, hhigh, -⟩ := decimal_range hc
  exact ⟨Nat.le_trans (by decide) hlow, Nat.lt_of_le_of_lt hhigh (by decide)⟩

theorem id_char {id : JobId} {c : Char} (h : c ∈ id.text) : c ∈ '-' :: "0123456789abcdef".toList := by
  have hhex : ∀ start stop, c ∈ (id.uuid.toList.extract start stop).flatMap hexByte →
      c ∈ '-' :: "0123456789abcdef".toList := by
    intro start stop hc
    obtain ⟨byte, -, hbyte⟩ := List.mem_flatMap.mp hc
    rw [hexByte, List.mem_pair] at hbyte
    rcases hbyte with rfl | rfl
    · exact List.mem_cons_of_mem _ (hex_digit_mem _)
    · exact List.mem_cons_of_mem _ (hex_digit_mem _)
  simp only [JobId.text, List.mem_append, List.mem_cons] at h
  rcases h with h | rfl | h | rfl | h | rfl | h | rfl | h
  all_goals first | exact hhex _ _ h | exact List.mem_cons_self

theorem id_range {id : JobId} {c : Char} (h : c ∈ id.text) :
    45 ≤ c.toNat ∧ c.toNat < 127 ∧ c.toNat ≠ 46 := by
  have hall : ∀ d ∈ '-' :: "0123456789abcdef".toList,
      45 ≤ d.toNat ∧ d.toNat < 127 ∧ d.toNat ≠ 46 := by decide
  exact hall c (id_char h)

theorem id_visible (id : JobId) : Visible id.text := by
  intro c hc
  obtain ⟨hlow, hhigh, -⟩ := id_range hc
  exact ⟨Nat.le_trans (by decide) hlow, hhigh⟩

theorem id_length (id : JobId) : id.text.length = 36 := by
  have hhex : ∀ bytes : Bytes, (bytes.flatMap hexByte).length = bytes.length * 2 := by
    intro bytes
    induction bytes with
    | nil => rfl
    | cons byte bytes ih =>
      rw [List.flatMap_cons, List.length_append, ih, List.length_cons, hexByte]
      simp only [List.length_cons, List.length_nil]
      omega
  simp [JobId.text, hhex]

theorem id_admitted (id : JobId) :
    utf8 id.text ≠ [] ∧ (utf8 id.text).length ≤ maxMessageIdBytes ∧ 46 ∉ utf8 id.text := by
  have hlength := id_length id
  have hbytes : utf8 id.text = id.text.map fun c => UInt8.ofNat c.toNat :=
    utf8_ascii fun c hc => Nat.lt_trans (id_visible id c hc).2 (by decide)
  rw [hbytes]
  refine ⟨?_, ?_, ?_⟩
  · intro hnil
    rw [List.map_eq_nil_iff.mp hnil] at hlength
    cases hlength
  · rw [List.length_map, hlength]
    decide
  · intro hmem
    obtain ⟨c, hc, hdot⟩ := List.mem_map.mp hmem
    obtain ⟨-, hhigh, hne⟩ := id_range hc
    have hnat := congrArg UInt8.toNat hdot
    rw [UInt8.toNat_ofNat_of_lt' (Nat.lt_trans hhigh (by decide))] at hnat
    exact hne hnat

/-- Only the destination's own text can stop the request. -/
theorem request_built {isUri : UriSyntax} {delivery : Delivery} {destination : Url} (id : JobId)
    {t : Int64} {hmac : Hmac} {ring : KeyRing} {signatures : List Char}
    (hcontent : HeaderValue.fromBytes (asBytes delivery.contentType) ≠ none)
    (hsigned : ring.signatures hmac (utf8 id.text) t delivery.body = .ok signatures) :
    (request isUri delivery destination id.text t signatures).isSome = isUri destination.text := by
  have hvalid : ValidValue (asBytes delivery.contentType) :=
    not_not.mp (mt from_bytes_none.mpr hcontent)
  cases huri : isUri destination.text with
  | false => simp [request, huri]
  | true =>
    simp [request, huri, from_bytes_some hvalid, from_bytes_some (visible_value (id_visible id)),
      from_bytes_some (visible_value (decimal_visible t)),
      from_bytes_some (visible_value (signatures_visible hsigned))]

theorem dispatch_invalid {hmac : Hmac} {isUri : UriSyntax} {endpoints : String → Option Endpoint}
    (id : JobId) {delivery : Delivery} (now : ℤ) (hbody : delivery.body.length ≤ maxBodyBytes)
    (hcontent : HeaderValue.fromBytes (asBytes delivery.contentType) ≠ none) :
    dispatch hmac isUri endpoints id delivery now = .error (.permanent .invalidPayload) ↔
      ∃ endpoint t, endpoints delivery.endpointId = some endpoint ∧ unixTimestamp now = some t ∧
        isUri endpoint.destination.text = false := by
  unfold dispatch
  cases hendpoint : endpoints delivery.endpointId with
  | none => simp
  | some endpoint =>
    cases hclock : unixTimestamp now with
    | none => simp
    | some t =>
      obtain ⟨signatures, hsigned⟩ := signatures_ok hmac endpoint.keys t (id_admitted id) hbody
      have hbuilt : (request isUri delivery endpoint.destination id.text t signatures).isSome =
          isUri endpoint.destination.text := request_built id hcontent hsigned
      simp only [hsigned]
      cases hrequest : request isUri delivery endpoint.destination id.text t signatures with
      | none =>
        rw [hrequest] at hbuilt
        simp [← hbuilt]
      | some built =>
        rw [hrequest] at hbuilt
        simp [← hbuilt]

theorem kind_admissible : Admissible deliveryKind ⟨0, none⟩ where
  name := by decide
  uniqueKey := by simp
  delay := by decide

/-- An accepted delivery is stored unless the endpoint's id holds a NUL. -/
theorem enqueue_ok {outbound : Outbound} (delivery : Delivery)
    (hversion : delivery.version = deliveryVersion) {prepared : Prepared} :
    outbound.enqueue delivery.endpointId delivery.body (some delivery.contentType) =
        some (.ok prepared) ↔
      (Admitted outbound delivery ∧ ¬ HasNul delivery.toJson) ∧
        prepared = ⟨String.ofList delivery.toJson.render, none, 0⟩ := by
  have hsame : (⟨deliveryVersion, delivery.endpointId, delivery.contentType, delivery.body⟩ :
      Delivery) = delivery := by rw [← hversion]
  have hprepare : prepare deliveryKind ⟨[encoding delivery.toJson], false⟩ ⟨0, none⟩ =
      .ok prepared ↔
        ((encoding delivery.toJson).length ≤ maxPayloadBytes ∧ ¬ HasNul delivery.toJson) ∧
          prepared = ⟨String.ofList delivery.toJson.render, none, 0⟩ :=
    prepare_ok_iff kind_admissible List.flatten_singleton
  simp only [Outbound.enqueue, Option.getD_some, preflight_eq outbound delivery hversion,
    Option.map_some, Option.some.injEq, hsame]
  cases hadmission : outbound.admission delivery with
  | error error =>
    have hrefused : ¬ Admitted outbound delivery := by
      rw [← admission_ok, hadmission]
      exact fun h => by cases h
    simp [hrefused]
  | ok admitted =>
    have hadmitted : Admitted outbound delivery := admission_ok.mp hadmission
    simp only [hadmitted, true_and]
    rw [← and_iff_right hadmitted.size (b := ¬ HasNul delivery.toJson)]
    rw [← hprepare]
    cases prepare deliveryKind ⟨[encoding delivery.toJson], false⟩ ⟨0, none⟩ with
    | error source => simp
    | ok stored => simp

/-- The scan agrees with the serializer it never runs on the whole delivery. Each poll that yields
has consumed a character; the count of a completed scan is the length of the delivery's encoding;
the verdict is the first refusal that applies; and a stored delivery comes back whole, is signed,
and is built into a request for every destination that is a request URI. -/
theorem preflight_matches_delivery (outbound : Outbound) (endpointId contentType : String)
    (body : Bytes) :
    let delivery : Delivery := ⟨deliveryVersion, endpointId, contentType, body⟩
    (∀ scan scan', poll scan = (scan', none) → scan'.chars < scan.chars) ∧
    (HeaderValue.fromBytes (asBytes contentType) ≠ none →
      ∃ answer, runScan endpointId body.length contentType =
        some (⟨[], (encoding delivery.toJson).length⟩, answer)) ∧
    outbound.preflight endpointId body.length contentType = some (outbound.admission delivery) ∧
    (outbound.preflight endpointId body.length contentType = some (.ok ()) ↔
      Admitted outbound delivery) ∧
    ∀ prepared, outbound.enqueue endpointId body (some contentType) = some (.ok prepared) →
      prepared.payload = String.ofList delivery.toJson.render ∧
      (∀ kept : List (String × Json), kept.Perm delivery.members →
        Delivery.fromJson (.object kept) = some delivery) ∧
      ∀ (hmac : Hmac) (isUri : UriSyntax) (id : JobId),
        (∀ (ring : KeyRing) (t : Int64) (destination : Url), ∃ signatures,
          ring.signatures hmac (utf8 id.text) t body = .ok signatures ∧
          (request isUri delivery destination id.text t signatures).isSome =
            isUri destination.text) ∧
        ∀ (endpoints : String → Option Endpoint) (now : ℤ),
          dispatch hmac isUri endpoints id delivery now = .error (.permanent .invalidPayload) ↔
            ∃ endpoint t, endpoints endpointId = some endpoint ∧ unixTimestamp now = some t ∧
              isUri endpoint.destination.text = false := by
  intro delivery
  have hpreflight : outbound.preflight endpointId body.length contentType =
      some (outbound.admission delivery) := preflight_eq outbound delivery rfl
  refine ⟨fun _ _ h => poll_consumes h, ?_, hpreflight, ?_, ?_⟩
  · intro hcontent
    obtain ⟨final, answer, hrun, hvalid, -⟩ := run_scan_counts delivery rfl
    obtain ⟨rfl, -⟩ := hvalid (not_not.mp (mt from_bytes_none.mpr hcontent))
    exact ⟨answer, hrun⟩
  · rw [hpreflight, Option.some.injEq]
    exact admission_ok
  · intro prepared hprepared
    obtain ⟨⟨hadmitted, -⟩, rfl⟩ := (enqueue_ok delivery rfl).mp hprepared
    refine ⟨rfl, fun kept hkept => delivery_decoded rfl hkept, ?_⟩
    intro hmac isUri id
    constructor
    · intro ring t destination
      obtain ⟨signatures, hsigned⟩ := signatures_ok hmac ring t (id_admitted id) hadmitted.body
      exact ⟨signatures, hsigned, request_built id hadmitted.contentType hsigned⟩
    · intro endpoints now
      exact dispatch_invalid id now hadmitted.body hadmitted.contentType

def longDestination : Url where
  text := String.ofList ("https://h/".toList ++ List.replicate 65534 'a')
  scheme := "https"
  host := some "h"
  username := ""
  password := none
  fragment := none

def longEndpoint : Endpoint := ⟨longDestination, ⟨sampleKey, none⟩, rfl⟩

def shortEnough : UriSyntax := fun text => (asBytes text).length ≤ 65534

def sampleDelivery : Delivery := ⟨deliveryVersion, "partner", defaultContentType, [120]⟩

theorem padded_length (n : ℕ) :
    (asBytes (String.ofList ("https://h/".toList ++ List.replicate n 'a'))).length = 10 + n := by
  have hascii : ∀ c ∈ "https://h/".toList ++ List.replicate n 'a', c.toNat < 128 := by
    intro c hc
    rcases List.mem_append.mp hc with hc | hc
    · have hhead : ∀ d ∈ "https://h/".toList, d.toNat < 128 := by decide
      exact hhead c hc
    · rw [List.eq_of_mem_replicate hc]
      decide
  rw [as_bytes_of_list, utf8_ascii hascii, List.length_map, List.length_append,
    List.length_replicate]
  rfl

theorem long_destination_long : shortEnough longEndpoint.destination.text = false := by
  have hlength : (asBytes longEndpoint.destination.text).length = 10 + 65534 := padded_length 65534
  rw [shortEnough, hlength]
  rfl

theorem sample_stored : ∃ prepared,
    Outbound.enqueue ⟨["partner"]⟩ "partner" [120] (some defaultContentType) =
      some (.ok prepared) := by
  have hplain : ¬ HasNul sampleDelivery.toJson := by
    rw [← contains_decoded_nul_iff]
    decide +kernel
  have hadmitted : Admitted ⟨["partner"]⟩ sampleDelivery := by
    refine ⟨by decide, by decide, ?_, by decide +kernel⟩
    rw [as_bytes_flat_map]
    decide
  exact ⟨_, (enqueue_ok sampleDelivery rfl).mpr ⟨⟨hadmitted, hplain⟩, rfl⟩⟩

/-- An endpoint whose admitted destination is too long for a request URI fails every delivery. -/
theorem long_destination_refused :
    (∃ prepared, Outbound.enqueue ⟨["partner"]⟩ "partner" [120] (some defaultContentType) =
      some (.ok prepared)) ∧
      Delivery.fromJson sampleDelivery.toJson = some sampleDelivery ∧
      dispatch sampleHmac shortEnough (fun _ => some longEndpoint) ⟨Vector.replicate 16 7⟩
        sampleDelivery 5000000000 = .error (.permanent .invalidPayload) := by
  have hclock : unixTimestamp 5000000000 = some 5 := by decide
  refine ⟨sample_stored, delivery_decoded rfl (List.Perm.refl _), ?_⟩
  have hcontent : HeaderValue.fromBytes (asBytes sampleDelivery.contentType) ≠ none := by
    rw [as_bytes_flat_map]
    decide
  have hbody : sampleDelivery.body.length ≤ maxBodyBytes := by decide
  exact (dispatch_invalid _ _ hbody hcontent).mpr
    ⟨longEndpoint, 5, rfl, hclock, long_destination_long⟩

end WebhookOutbound
