import ServiceTemplate.MessagingText
import Mathlib.Algebra.Order.BigOperators.Group.List

/-! Envelope headers and bounded decoding: prepared events, the five identity headers, the
dead-letter rewrite of a delivery's headers and the reconstruction of a stored record. -/
namespace MessagingWire

open ByteFraming
open ExceptChain
open MessagingText

def headerLimitBytes : ℕ := 8 * 1024

def messageIdName : String := "Message-Id"
def eventTypeName : String := "Event-Type"
def eventSchemaName : String := "Event-Schema"
def createdAtName : String := "Created-At"
def natsMsgIdName : String := "Nats-Msg-Id"
def originalSubjectName : String := "Original-Subject"
def deadLetterReasonName : String := "Dead-Letter-Reason"
def natsExpectedStreamName : String := "Nats-Expected-Stream"
def traceparentName : String := "traceparent"
def tracestateName : String := "tracestate"

inductive DeadLetterReason where
  | malformed
  | permanent
  | exhausted
  deriving DecidableEq, Repr

def DeadLetterReason.asStr : DeadLetterReason → String
  | .malformed => "malformed"
  | .permanent => "permanent"
  | .exhausted => "exhausted"

/-- The client's header map: each name once, with its values in order. The order of the names
is the arbitrary iteration order of the hash map. -/
structure HeaderMap where
  entries : List (String × List String)
  nodup : (entries.map Prod.fst).Nodup

namespace HeaderMap

def new : HeaderMap := ⟨[], List.nodup_nil⟩

/-- The first value of the name. -/
def get (headers : HeaderMap) (name : String) : Option String :=
  (headers.entries.lookup name).bind List.head?

def put (headers : HeaderMap) (name value : String) : HeaderMap where
  entries := (name, [value]) :: headers.entries.filter fun entry => entry.1 ≠ name
  nodup := by
    rw [List.map_cons, List.nodup_cons]
    constructor
    · simp
    · exact headers.nodup.sublist (List.filter_sublist.map _)

/-- Replaces every value of the name; the client asserts that the value has no line break. -/
def insert (headers : HeaderMap) (name value : String) : Except Fault HeaderMap :=
  if validHeaderValue value then .ok (headers.put name value) else .error .panicked

end HeaderMap

def headerValue (headers : HeaderMap) (name : String) : String := (headers.get name).getD ""

def entryBytes (entry : String × List String) : ℕ :=
  (entry.2.map fun value => (asBytes entry.1).length + 2 + (asBytes value).length + 2).sum

def encodedHeaderBytes (headers : HeaderMap) : ℕ :=
  if headers.entries = [] then 0
  else (headers.entries.map entryBytes).sum + (asBytes "NATS/1.0\r\n\r\n").length

def validateHeaderBytes (headers : HeaderMap) : Except Fault Unit :=
  require (encodedHeaderBytes headers ≤ headerLimitBytes) "encoded headers exceed 8 KiB"

/-- The representable local times, the years -9999 to 9999, in nanoseconds. -/
def Representable (nanos : ℤ) : Prop :=
  -377705116800 * 1000000000 ≤ nanos ∧ nanos < 253402300800 * 1000000000

instance (nanos : ℤ) : Decidable (Representable nanos) :=
  inferInstanceAs (Decidable (_ ∧ _))

/-- An instant in nanoseconds since the Unix epoch, with the offset it is shown in. -/
structure OffsetDateTime where
  unixNanos : ℤ
  offsetSeconds : ℤ
  representable : Representable (unixNanos + offsetSeconds * 1000000000)
  deriving DecidableEq

structure UtcDateTime where
  unixNanos : ℤ
  representable : Representable unixNanos
  deriving DecidableEq

def UtcDateTime.toOffset (t : UtcDateTime) : OffsetDateTime :=
  ⟨t.unixNanos, 0, by simpa using t.representable⟩

def OffsetDateTime.checkedToUtc (t : OffsetDateTime) : Option OffsetDateTime :=
  if t.offsetSeconds = 0 then some t
  else if h : Representable t.unixNanos then some (UtcDateTime.toOffset ⟨t.unixNanos, h⟩)
  else none

/-- Midnight of the first day of year one, read in the value's own offset. -/
def isZeroTime (t : OffsetDateTime) : Bool :=
  t.unixNanos + t.offsetSeconds * 1000000000 = -62135596800 * 1000000000

structure Rfc3339 where
  format : OffsetDateTime → Option String
  parse : String → Option OffsetDateTime

/-- What the adapter relies on: a UTC value that can be written is read back, and its text is
short and printable. -/
structure Rfc3339.Lawful (rfc : Rfc3339) : Prop where
  parse_format : ∀ t text, t.offsetSeconds = 0 → rfc.format t = some text →
    rfc.parse text = some t
  printable : ∀ t text, rfc.format t = some text → validText text = some true

def formatTimestamp (rfc : Rfc3339) (t : OffsetDateTime) : Except Fault String :=
  match t.checkedToUtc.bind rfc.format with
  | some text => .ok text
  | none => .error (envelope "creation time is out of range")

def parseTimestamp (rfc : Rfc3339) (text : String) : Except Fault OffsetDateTime :=
  match (rfc.parse text).bind OffsetDateTime.checkedToUtc with
  | some t => .ok t
  | none => .error (envelope "creation time is invalid")

structure PreparedEvent where
  subject : String
  messageId : String
  publicationId : String
  eventType : String
  schemaVersion : UInt16
  occurredAt : OffsetDateTime
  createdAt : String
  payload : Bytes
  deriving DecidableEq

/-- A payload type's constants. Both are checked when the type is compiled. -/
structure EventPayload where
  eventType : String
  schemaVersion : UInt16
  positive : schemaVersion ≠ 0
  printable : validText eventType = some true

/-- One occurrence. Serializing its payload writes chunks in order and then
succeeds or fails. -/
structure Event where
  id : String
  occurredAt : UtcDateTime
  chunks : List Bytes
  fails : Bool
  deriving DecidableEq

/-- Keeps accepting writes past the ceiling so that a later serialization error still takes
precedence; only the retained bytes are bounded. -/
structure PayloadWriter where
  bytes : Bytes
  totalBytes : ℕ
  limit : ℕ
  deriving DecidableEq, Repr

def PayloadWriter.write (w : PayloadWriter) (buf : Bytes) : Option PayloadWriter :=
  if w.totalBytes + buf.length < 2 ^ 64 then
    some { w with
      totalBytes := w.totalBytes + buf.length
      bytes := w.bytes ++ buf.take (min buf.length (w.limit - w.bytes.length)) }
  else none

/-- `serde_json::to_writer` into a fresh writer. -/
def serialize (event : Event) (limit : ℕ) : Except Fault PayloadWriter :=
  match event.chunks.foldlM PayloadWriter.write ⟨[], 0, limit⟩, event.fails with
  | some written, false => .ok written
  | _, _ => .error (envelope "event payload cannot be serialized")

def prepare (rfc : Rfc3339) (kind : EventPayload) (subject : String) (event : Event)
    (maxPayloadBytes : ℕ) : Except Fault PreparedEvent := do
  require (validSubject subject) "subject is invalid"
  let payload ← serialize event maxPayloadBytes
  require (payload.totalBytes ≤ maxPayloadBytes) "payload exceeds configured maximum"
  let occurredAt := event.occurredAt.toOffset
  validateText event.id
  require (!isZeroTime occurredAt) "event identity is invalid"
  let createdAt ← formatTimestamp rfc occurredAt
  return {
    subject
    messageId := event.id
    publicationId := event.id
    eventType := kind.eventType
    schemaVersion := kind.schemaVersion
    occurredAt
    createdAt
    payload := payload.bytes }

def encodePrepared (event : PreparedEvent) : Except Fault HeaderMap := do
  let headers ← HeaderMap.new.insert messageIdName event.messageId
  let headers ← headers.insert eventTypeName event.eventType
  let headers ← headers.insert eventSchemaName (schema event.schemaVersion)
  let headers ← headers.insert createdAtName event.createdAt
  let headers ← headers.insert natsMsgIdName event.publicationId
  validateHeaderBytes headers
  return headers

def validatePrepared (rfc : Rfc3339) (event : PreparedEvent) : Except Fault String := do
  validateText event.messageId
  validateText event.publicationId
  validateText event.eventType
  require (event.schemaVersion ≠ 0 && !isZeroTime event.occurredAt) "event identity is invalid"
  formatTimestamp rfc event.occurredAt

structure InboundEnvelope where
  messageId : String
  eventType : String
  schemaVersion : UInt16
  occurredAt : OffsetDateTime
  payload : Bytes
  deriving DecidableEq

@[ext] structure Found where
  messageId : Option String
  eventType : Option String
  schema : Option String
  createdAt : Option String
  publicationId : Option String
  deriving DecidableEq, Repr

def scanHeader (acc : ℕ × Found) (entry : String × List String) : ℕ × Found :=
  let encoded := acc.1 + entryBytes entry
  let found := acc.2
  let first := entry.2.head?
  if entry.1 = messageIdName then (encoded, { found with messageId := first })
  else if entry.1 = eventTypeName then (encoded, { found with eventType := first })
  else if entry.1 = eventSchemaName then (encoded, { found with schema := first })
  else if entry.1 = createdAtName then (encoded, { found with createdAt := first })
  else if entry.1 = natsMsgIdName then (encoded, { found with publicationId := first })
  else (encoded, found)

def scanHeaders (headers : HeaderMap) : ℕ × Found :=
  headers.entries.foldl scanHeader
    ((asBytes "NATS/1.0\r\n\r\n").length, ⟨none, none, none, none, none⟩)

def requiredValue (value : Option String) : Except Fault String :=
  match value with
  | none => .error (envelope "required header is missing")
  | some text => do
    validateText text
    return text

def decodeEnvelope (rfc : Rfc3339) (subject : String) (headers : HeaderMap) (payload : Bytes) :
    Except Fault InboundEnvelope := do
  require (validSubject subject) "subject is invalid"
  let scan := scanHeaders headers
  require (scan.1 ≤ headerLimitBytes) "encoded headers exceed 8 KiB"
  let messageId ← requiredValue scan.2.messageId
  let eventType ← requiredValue scan.2.eventType
  let schemaText ← requiredValue scan.2.schema
  let _ ← requiredValue scan.2.publicationId
  let schemaVersion ← parseSchema schemaText
  let occurredAt ← parseTimestamp rfc (scan.2.createdAt.getD "")
  require (!isZeroTime occurredAt) "creation time is required"
  return { messageId, eventType, schemaVersion, occurredAt, payload }

def copyHeader (original headers : HeaderMap) (name : String) : Except Fault HeaderMap :=
  let value := headerValue original name
  if value = "" then .ok headers else headers.insert name value

/-- A record without a message id is identified by its transfer. -/
def ensureMessageId (headers : HeaderMap) (transferId : String) : Except Fault HeaderMap :=
  if headerValue headers messageIdName = "" then headers.insert messageIdName transferId
  else .ok headers

/-- Keeps the first identity and trace values and appends the transfer's metadata. -/
def deadLetterHeaders (original : HeaderMap) (subject stream transferId : String)
    (reason : DeadLetterReason) : Except Fault HeaderMap := do
  let headers ← [messageIdName, eventTypeName, eventSchemaName, createdAtName, traceparentName,
    tracestateName].foldlM (copyHeader original) HeaderMap.new
  let headers ← ensureMessageId headers transferId
  let headers ← headers.insert natsMsgIdName transferId
  let headers ← headers.insert originalSubjectName subject
  let headers ← headers.insert deadLetterReasonName reason.asStr
  headers.insert natsExpectedStreamName stream

structure DeadLetterRecord where
  subject : String
  headers : HeaderMap
  payload : Bytes
  stream : String
  streamSequence : UInt64
  storedAt : OffsetDateTime

abbrev Sha256 := Bytes → Vector UInt8 32

def recordId (rfc : Rfc3339) (sha256 : Sha256) (label stream : String) (streamSequence : UInt64)
    (storedAt : OffsetDateTime) (publicationId : String) : Except Fault String := do
  let storedAt ← formatTimestamp rfc storedAt
  let sequence := Nat.repr streamSequence.toNat
  let digest := sha256 (asBytes stream ++ [0] ++ asBytes sequence ++ [0] ++ asBytes storedAt ++
    [0] ++ asBytes publicationId)
  return prefixedDigestHex label digest.toList

def deadLetterId (rfc : Rfc3339) (sha256 : Sha256) (stream : String) (streamSequence : UInt64)
    (storedAt : OffsetDateTime) (originalPublicationId : String) : Except Fault String :=
  recordId rfc sha256 "dlq-" stream streamSequence storedAt originalPublicationId

/-- Reconstructs the original event under a deterministic publication id. -/
def restoreDeadLetter (rfc : Rfc3339) (sha256 : Sha256) (record : DeadLetterRecord) :
    Except Fault PreparedEvent := do
  let subject := headerValue record.headers originalSubjectName
  require (validSubject subject) "dead-letter original subject is invalid"
  let messageId ← requiredValue (record.headers.get messageIdName)
  let eventType ← requiredValue (record.headers.get eventTypeName)
  let schemaText ← requiredValue (record.headers.get eventSchemaName)
  let schemaVersion ← parseSchema schemaText
  let occurredAt ← parseTimestamp rfc (headerValue record.headers createdAtName)
  require (!isZeroTime occurredAt) "dead-letter creation time is required"
  let publicationId ← recordId rfc sha256 "redrive-" record.stream record.streamSequence
    record.storedAt (headerValue record.headers natsMsgIdName)
  let createdAt ← formatTimestamp rfc occurredAt
  return { subject, messageId, publicationId, eventType, schemaVersion, occurredAt, createdAt,
           payload := record.payload }

theorem lookup_filter {name other : String} (h : other ≠ name)
    (entries : List (String × List String)) :
    (entries.filter fun entry => entry.1 ≠ name).lookup other = entries.lookup other := by
  induction entries with
  | nil => rfl
  | cons entry entries ih =>
    rcases entry with ⟨key, values⟩
    by_cases hkey : key = name
    · subst hkey
      have hne : (other == key) = false := beq_eq_false_iff_ne.mpr h
      rw [List.filter_cons_of_neg (by simp), ih, List.lookup_cons, hne]
    · rw [List.filter_cons_of_pos (by simpa using hkey), List.lookup_cons, List.lookup_cons, ih]

namespace HeaderMap

@[simp] theorem get_new (name : String) : HeaderMap.new.get name = none := rfl

@[simp] theorem get_put_self (headers : HeaderMap) (name value : String) :
    (headers.put name value).get name = some value := by
  simp [get, put]

theorem get_put_other (headers : HeaderMap) {name other : String} (h : other ≠ name)
    (value : String) : (headers.put name value).get other = headers.get other := by
  have hne : (other == name) = false := beq_eq_false_iff_ne.mpr h
  simp only [get, put, List.lookup_cons, hne]
  rw [lookup_filter h]

theorem insert_ok {headers next : HeaderMap} {name value : String} :
    headers.insert name value = .ok next ↔
      validHeaderValue value = true ∧ next = headers.put name value := by
  simp only [insert]
  split
  · rename_i hvalid
    constructor
    · intro h
      exact ⟨hvalid, (Except.ok.inj h).symm⟩
    · rintro ⟨-, rfl⟩
      rfl
  · rename_i hvalid
    constructor
    · intro h
      cases h
    · rintro ⟨h, -⟩
      exact absurd h hvalid

def bytes (headers : HeaderMap) : ℕ := (headers.entries.map entryBytes).sum

theorem bytes_put (headers : HeaderMap) (name value : String) :
    (headers.put name value).bytes ≤
      (asBytes name).length + (asBytes value).length + 4 + headers.bytes := by
  have hsub : ((headers.entries.filter fun entry => entry.1 ≠ name).map entryBytes).sum ≤
      headers.bytes := (List.filter_sublist.map _).sum_le_sum fun _ _ => Nat.zero_le _
  have hentry : entryBytes (name, [value]) = (asBytes name).length + (asBytes value).length + 4 := by
    simp only [entryBytes, List.map_cons, List.map_nil, List.sum_cons, List.sum_nil]
    omega
  simp only [bytes, put, List.map_cons, List.sum_cons, hentry]
  exact Nat.add_le_add_left hsub _

end HeaderMap

theorem encoded_header_bytes_le (headers : HeaderMap) :
    encodedHeaderBytes headers ≤ headers.bytes + 12 := by
  have hframe : (asBytes "NATS/1.0\r\n\r\n").length = 12 := by decide
  simp only [encodedHeaderBytes, hframe, HeaderMap.bytes]
  split
  · omega
  · omega

theorem required_value_ok {value : Option String} {text : String} :
    requiredValue value = .ok text ↔ value = some text ∧ validText text = some true := by
  cases value with
  | none => simp [requiredValue]
  | some v =>
    simp only [requiredValue, bind_ok, validate_text_ok, Option.some.injEq]
    constructor
    · rintro ⟨_, hvalid, h⟩
      cases h
      exact ⟨rfl, hvalid⟩
    · rintro ⟨rfl, hvalid⟩
      exact ⟨(), hvalid, rfl⟩

theorem format_timestamp_ok {rfc : Rfc3339} {t : OffsetDateTime} {text : String} :
    formatTimestamp rfc t = .ok text ↔ t.checkedToUtc.bind rfc.format = some text := by
  simp only [formatTimestamp]
  generalize t.checkedToUtc.bind rfc.format = formatted
  cases formatted <;> simp

theorem parse_timestamp_ok {rfc : Rfc3339} {t : OffsetDateTime} {text : String} :
    parseTimestamp rfc text = .ok t ↔
      (rfc.parse text).bind OffsetDateTime.checkedToUtc = some t := by
  simp only [parseTimestamp]
  generalize (rfc.parse text).bind OffsetDateTime.checkedToUtc = parsed
  cases parsed <;> simp

theorem checked_to_utc_offset {t u : OffsetDateTime} (h : t.checkedToUtc = some u) :
    u.offsetSeconds = 0 := by
  simp only [OffsetDateTime.checkedToUtc] at h
  split at h
  · cases h
    assumption
  · split at h
    · cases h
      rfl
    · cases h

theorem checked_to_utc_of_utc {t : OffsetDateTime} (h : t.offsetSeconds = 0) :
    t.checkedToUtc = some t := by
  simp [OffsetDateTime.checkedToUtc, h]

theorem parse_format_timestamp {rfc : Rfc3339} (law : rfc.Lawful) {t : OffsetDateTime}
    {text : String} (hutc : t.offsetSeconds = 0) (h : formatTimestamp rfc t = .ok text) :
    parseTimestamp rfc text = .ok t := by
  rw [format_timestamp_ok, checked_to_utc_of_utc hutc, Option.bind_some] at h
  rw [parse_timestamp_ok, law.parse_format t text hutc h, Option.bind_some,
    checked_to_utc_of_utc hutc]

theorem format_timestamp_printable {rfc : Rfc3339} (law : rfc.Lawful) {t : OffsetDateTime}
    {text : String} (h : formatTimestamp rfc t = .ok text) : validText text = some true := by
  obtain ⟨u, -, hu⟩ := Option.bind_eq_some_iff.mp (format_timestamp_ok.mp h)
  exact law.printable u text hu

theorem scan_encoded (headers : HeaderMap) : (scanHeaders headers).1 = headers.bytes + 12 := by
  have hframe : (asBytes "NATS/1.0\r\n\r\n").length = 12 := by decide
  have hfold : ∀ (entries : List (String × List String)) (acc : ℕ × Found),
      (entries.foldl scanHeader acc).1 = (entries.map entryBytes).sum + acc.1 := by
    intro entries
    induction entries with
    | nil => simp
    | cons entry entries ih =>
      intro acc
      have hstep : (scanHeader acc entry).1 = acc.1 + entryBytes entry := by
        simp only [scanHeader]
        split_ifs <;> rfl
      rw [List.foldl_cons, ih, hstep, List.map_cons, List.sum_cons]
      omega
  simp only [scanHeaders, hfold, hframe, HeaderMap.bytes]

theorem foldl_slot {slot : Found → Option String} {name : String}
    (hslot : ∀ acc entry, slot (scanHeader acc entry).2 =
      if entry.1 = name then entry.2.head? else slot acc.2)
    {entries : List (String × List String)} (hnodup : (entries.map Prod.fst).Nodup)
    (acc : ℕ × Found) : slot (entries.foldl scanHeader acc).2 =
      match entries.lookup name with
      | some values => values.head?
      | none => slot acc.2 := by
  induction entries generalizing acc with
  | nil => rfl
  | cons entry entries ih =>
    rcases entry with ⟨key, values⟩
    rw [List.map_cons, List.nodup_cons] at hnodup
    rw [List.foldl_cons, ih hnodup.2, hslot, List.lookup_cons]
    by_cases hkey : key = name
    · subst hkey
      have hnone : entries.lookup key = none := by
        rw [List.lookup_eq_none_iff]
        intro entry hentry
        have hne : entry.1 ≠ key := fun heq => hnodup.1 (List.mem_map.mpr ⟨entry, hentry, heq⟩)
        simpa using hne.symm
      simp [hnone]
    · have hne : (name == key) = false := beq_eq_false_iff_ne.mpr (Ne.symm hkey)
      rw [hne, if_neg hkey]

theorem scan_slot (slot : Found → Option String) (name : String)
    (hslot : ∀ acc entry, slot (scanHeader acc entry).2 =
      if entry.1 = name then entry.2.head? else slot acc.2)
    (hempty : slot ⟨none, none, none, none, none⟩ = none) (headers : HeaderMap) :
    slot (scanHeaders headers).2 = headers.get name := by
  rw [scanHeaders, foldl_slot hslot headers.nodup, HeaderMap.get]
  cases headers.entries.lookup name with
  | none => exact hempty
  | some values => rfl

theorem scan_found (headers : HeaderMap) : (scanHeaders headers).2 =
    ⟨headers.get messageIdName, headers.get eventTypeName, headers.get eventSchemaName,
      headers.get createdAtName, headers.get natsMsgIdName⟩ := by
  apply Found.ext
  · apply scan_slot Found.messageId messageIdName _ rfl
    intro acc entry
    simp only [scanHeader]
    split_ifs <;> rfl
  · apply scan_slot Found.eventType eventTypeName _ rfl
    intro acc entry
    grind [scanHeader, messageIdName, eventTypeName]
  · apply scan_slot Found.schema eventSchemaName _ rfl
    intro acc entry
    grind [scanHeader, messageIdName, eventTypeName, eventSchemaName]
  · apply scan_slot Found.createdAt createdAtName _ rfl
    intro acc entry
    grind [scanHeader, messageIdName, eventTypeName, eventSchemaName, createdAtName]
  · apply scan_slot Found.publicationId natsMsgIdName _ rfl
    intro acc entry
    grind [scanHeader, messageIdName, eventTypeName, eventSchemaName, createdAtName,
      natsMsgIdName]

end MessagingWire
