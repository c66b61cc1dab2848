import ServiceTemplate.MessagingWire
import Mathlib.Logic.Relation

/-! Dead-lettering and redrive preserve the event.
Every constructor of a prepared event yields a sound one; a sound event survives the header
rewrite of the dead-letter transfer, so the law holds for any number of cycles. -/
namespace MessagingDeadLetter

open ByteFraming
open ExceptChain
open MessagingText
open MessagingWire

variable {rfc : Rfc3339} {sha256 : Sha256}

structure Sound (rfc : Rfc3339) (event : PreparedEvent) : Prop where
  subject : validSubject event.subject = true
  messageId : validText event.messageId = some true
  publicationId : validText event.publicationId = some true
  eventType : validText event.eventType = some true
  version : event.schemaVersion ≠ 0
  utc : event.occurredAt.offsetSeconds = 0
  nonzero : isZeroTime event.occurredAt = false
  createdAt : formatTimestamp rfc event.occurredAt = .ok event.createdAt

theorem prepare_sound {kind : EventPayload} {subject : String} {event : Event} {limit : ℕ}
    {prepared : PreparedEvent} (h : prepare rfc kind subject event limit = .ok prepared) :
    Sound rfc prepared := by
  simp only [prepare, bind_ok, require_ok, validate_text_ok] at h
  obtain ⟨_, hsubject, payload, -, _, -, _, hid, _, hnonzero, createdAt, hformat, h⟩ := h
  cases h
  exact ⟨hsubject, hid, hid, kind.printable, kind.positive, rfl, by simpa using hnonzero, hformat⟩

theorem record_id_ok {label stream : String} {streamSequence : UInt64}
    {storedAt : OffsetDateTime} {publicationId id : String} :
    recordId rfc sha256 label stream streamSequence storedAt publicationId = .ok id →
      ∃ digest : Vector UInt8 32, id = prefixedDigestHex label digest.toList := by
  intro h
  simp only [recordId, bind_ok] at h
  obtain ⟨_, -, h⟩ := h
  cases h
  exact ⟨_, rfl⟩

/-- `redrive-` and 64 hex digits. -/
def RedriveId (id : String) : Prop :=
  ∃ digits : List Char, id = "redrive-" ++ String.ofList digits ∧ digits.length = 64 ∧
    ∀ c ∈ digits, c ∈ "0123456789abcdef".toList

theorem redrive_id_digest (digest : Vector UInt8 32) :
    RedriveId (prefixedDigestHex "redrive-" digest.toList) := by
  refine ⟨hexDigits digest.toList, rfl, ?_, fun c hc => hex_digits_mem hc⟩
  rw [hex_digits_length, Vector.length_toList]

theorem valid_text_redrive (digest : Vector UInt8 32) :
    validText (prefixedDigestHex "redrive-" digest.toList) = some true := by
  apply valid_text_digest_hex
  · refine ⟨by decide, by decide, by simp⟩
  · exact Vector.length_toList

theorem restore_sound {record : DeadLetterRecord} {event : PreparedEvent}
    (h : restoreDeadLetter rfc sha256 record = .ok event) : Sound rfc event := by
  simp only [restoreDeadLetter, bind_ok, require_ok, required_value_ok] at h
  obtain ⟨_, hsubject, messageId, ⟨-, hid⟩, eventType, ⟨-, htype⟩, text, -, version, hversion,
    occurredAt, hparse, _, hnonzero, publicationId, hrecord, createdAt, hformat, h⟩ := h
  cases h
  obtain ⟨digest, rfl⟩ := record_id_ok hrecord
  obtain ⟨t, -, hutc⟩ := Option.bind_eq_some_iff.mp (parse_timestamp_ok.mp hparse)
  refine ⟨hsubject, hid, valid_text_redrive digest, htype, ?_, checked_to_utc_offset hutc,
    by simpa using hnonzero, hformat⟩
  exact parse_schema_positive hversion

def identityHeaders (event : PreparedEvent) : List (String × String) :=
  [(messageIdName, event.messageId), (eventTypeName, event.eventType),
    (eventSchemaName, schema event.schemaVersion), (createdAtName, event.createdAt),
    (natsMsgIdName, event.publicationId)]

/-- The first value of each identity name is the event's. Other names and further values of
these names are unconstrained. -/
def Identified (event : PreparedEvent) (headers : HeaderMap) : Prop :=
  ∀ pair ∈ identityHeaders event, headers.get pair.1 = some pair.2

theorem encode_prepared_sound (law : rfc.Lawful) {event : PreparedEvent} (h : Sound rfc event) :
    ∃ headers, encodePrepared event = .ok headers ∧ Identified event headers ∧
      headers.bytes + 12 ≤ headerLimitBytes := by
  have hcreated := format_timestamp_printable law h.createdAt
  have hschema := valid_text_schema event.schemaVersion
  let headers := ((((HeaderMap.new.put messageIdName event.messageId).put eventTypeName
    event.eventType).put eventSchemaName (schema event.schemaVersion)).put createdAtName
    event.createdAt).put natsMsgIdName event.publicationId
  have hbytes : headers.bytes + 12 ≤ headerLimitBytes := by
    have hnames : (asBytes messageIdName).length = 10 ∧ (asBytes eventTypeName).length = 10 ∧
        (asBytes eventSchemaName).length = 12 ∧ (asBytes createdAtName).length = 10 ∧
        (asBytes natsMsgIdName).length = 11 := by decide
    have h₀ : HeaderMap.new.bytes = 0 := rfl
    have h₁ := HeaderMap.bytes_put .new messageIdName event.messageId
    have h₂ := HeaderMap.bytes_put (HeaderMap.new.put messageIdName event.messageId)
      eventTypeName event.eventType
    have h₃ := HeaderMap.bytes_put ((HeaderMap.new.put messageIdName event.messageId).put
      eventTypeName event.eventType) eventSchemaName (schema event.schemaVersion)
    have h₄ := HeaderMap.bytes_put (((HeaderMap.new.put messageIdName event.messageId).put
      eventTypeName event.eventType).put eventSchemaName (schema event.schemaVersion))
      createdAtName event.createdAt
    have h₅ : headers.bytes ≤ _ := HeaderMap.bytes_put _ natsMsgIdName event.publicationId
    have l₁ := valid_text_length h.messageId
    have l₂ := valid_text_length h.eventType
    have l₃ := valid_text_length hschema
    have l₄ := valid_text_length hcreated
    have l₅ := valid_text_length h.publicationId
    simp only [headerLimitBytes]
    omega
  refine ⟨headers, ?_, ?_, hbytes⟩
  · simp only [encodePrepared, bind_ok, HeaderMap.insert_ok, validateHeaderBytes, require_ok,
      decide_eq_true_eq]
    exact ⟨_, ⟨valid_text_header_value h.messageId, rfl⟩,
      _, ⟨valid_text_header_value h.eventType, rfl⟩,
      _, ⟨valid_text_header_value hschema, rfl⟩,
      _, ⟨valid_text_header_value hcreated, rfl⟩,
      _, ⟨valid_text_header_value h.publicationId, rfl⟩,
      (), Nat.le_trans (encoded_header_bytes_le headers) hbytes, rfl⟩
  · simp (disch := decide) [Identified, identityHeaders, headers, HeaderMap.get_put_other]

theorem decode_sound (law : rfc.Lawful) {event : PreparedEvent} (h : Sound rfc event)
    {headers : HeaderMap} (hid : Identified event headers)
    (hbytes : headers.bytes + 12 ≤ headerLimitBytes) (payload : Bytes) :
    decodeEnvelope rfc event.subject headers payload = .ok
      ⟨event.messageId, event.eventType, event.schemaVersion, event.occurredAt, payload⟩ := by
  simp only [Identified, identityHeaders, List.forall_mem_cons] at hid
  obtain ⟨hmessage, htype, hschema, hcreated, hpublication, -⟩ := hid
  simp only [decodeEnvelope, bind_ok, require_ok, required_value_ok, scan_found, scan_encoded,
    hmessage, htype, hschema, hcreated, hpublication, decide_eq_true_eq, Option.getD_some]
  exact ⟨(), h.subject, (), hbytes, _, ⟨rfl, h.messageId⟩, _, ⟨rfl, h.eventType⟩,
    _, ⟨rfl, valid_text_schema _⟩, _, ⟨rfl, h.publicationId⟩, _, parse_schema_schema h.version,
    _, parse_format_timestamp law h.utc h.createdAt, (), by simp [h.nonzero], rfl⟩

theorem header_value_of_get {headers : HeaderMap} {name value : String}
    (h : headers.get name = some value) : headerValue headers name = value := by
  simp [headerValue, h]

theorem copy_header_get {original init headers : HeaderMap} {copied : String}
    (h : copyHeader original init copied = .ok headers) (name : String) :
    headers.get name = if name = copied ∧ headerValue original name ≠ "" then
      some (headerValue original name) else init.get name := by
  simp only [copyHeader] at h
  split at h
  · rename_i hempty
    cases h
    rw [if_neg]
    rintro ⟨rfl, hne⟩
    exact hne hempty
  · rename_i hne
    obtain ⟨-, rfl⟩ := HeaderMap.insert_ok.mp h
    by_cases hname : name = copied
    · subst hname
      rw [HeaderMap.get_put_self, if_pos ⟨rfl, hne⟩]
    · rw [HeaderMap.get_put_other _ hname, if_neg fun h => hname h.1]

theorem copy_headers_get {original init headers : HeaderMap} {names : List String}
    (h : names.foldlM (copyHeader original) init = .ok headers) (name : String) :
    headers.get name = if name ∈ names ∧ headerValue original name ≠ "" then
      some (headerValue original name) else init.get name := by
  induction names generalizing init with
  | nil =>
    cases h
    simp
  | cons copied names ih =>
    rw [List.foldlM_cons, bind_ok] at h
    obtain ⟨next, hcopy, hrest⟩ := h
    rw [ih hrest, copy_header_get hcopy name]
    by_cases hne : headerValue original name = ""
    · simp [hne]
    · by_cases hmem : name ∈ names
      · simp [hmem, hne]
      · simp [hmem, hne]

def carriedNames : List String := [messageIdName, eventTypeName, eventSchemaName, createdAtName]

/-- The transfer keeps every identity value and records where the event came from. -/
theorem dead_letter_headers_get {original headers : HeaderMap} {subject stream transferId : String}
    {reason : DeadLetterReason}
    (h : deadLetterHeaders original subject stream transferId reason = .ok headers) :
    (∀ name ∈ carriedNames, headerValue original name ≠ "" →
      headers.get name = some (headerValue original name)) ∧
    headers.get originalSubjectName = some subject ∧
    headers.get natsMsgIdName = some transferId := by
  simp only [deadLetterHeaders, bind_ok, HeaderMap.insert_ok] at h
  obtain ⟨copied, hcopied, filled, hfilled, _, ⟨-, rfl⟩, _, ⟨-, rfl⟩, _, ⟨-, rfl⟩, -, rfl⟩ := h
  have hcopy := copy_headers_get hcopied
  refine ⟨?_, ?_, ?_⟩
  · intro name hname hne
    have hdistinct : ∀ n ∈ carriedNames, n ≠ natsExpectedStreamName ∧
        n ≠ deadLetterReasonName ∧ n ≠ originalSubjectName ∧ n ≠ natsMsgIdName := by decide
    have hincluded : ∀ n ∈ carriedNames, n ∈ [messageIdName, eventTypeName, eventSchemaName,
        createdAtName, traceparentName, tracestateName] := by decide
    obtain ⟨h₁, h₂, h₃, h₄⟩ := hdistinct name hname
    have hkept : copied.get name = some (headerValue original name) := by
      rw [hcopy name, if_pos ⟨hincluded name hname, hne⟩]
    rw [HeaderMap.get_put_other _ h₁, HeaderMap.get_put_other _ h₂,
      HeaderMap.get_put_other _ h₃, HeaderMap.get_put_other _ h₄]
    simp only [ensureMessageId] at hfilled
    split at hfilled
    · rename_i hmissing
      obtain ⟨-, rfl⟩ := HeaderMap.insert_ok.mp hfilled
      by_cases hmessage : name = messageIdName
      · subst hmessage
        rw [header_value_of_get hkept] at hmissing
        exact absurd hmissing hne
      · rw [HeaderMap.get_put_other _ hmessage, hkept]
    · cases hfilled
      exact hkept
  · simp (disch := decide) [HeaderMap.get_put_other]
  · simp (disch := decide) [HeaderMap.get_put_other]

/-- A stored dead-letter record of a delivery of `event`: the delivery carried the encoded
headers, possibly with further headers and further values, and the broker's stored time can
be written. -/
structure Transferred (rfc : Rfc3339) (event : PreparedEvent) (record : DeadLetterRecord) :
    Prop where
  headers : ∃ encoded original stream transferId reason, encodePrepared event = .ok encoded ∧
    (∀ name value, encoded.get name = some value → original.get name = some value) ∧
    deadLetterHeaders original event.subject stream transferId reason = .ok record.headers
  payload : record.payload = event.payload
  stored : ∃ text, formatTimestamp rfc record.storedAt = .ok text

def SameEvent (e e' : PreparedEvent) : Prop := { e' with publicationId := e.publicationId } = e

theorem SameEvent.trans {a b c : PreparedEvent} (h : SameEvent a b) (k : SameEvent b c) :
    SameEvent a c := by
  rcases a
  rcases b
  rcases c
  simp only [SameEvent, PreparedEvent.mk.injEq, true_and] at h k ⊢
  simp_all

theorem restore_transferred (law : rfc.Lawful) {event : PreparedEvent} (h : Sound rfc event)
    {record : DeadLetterRecord} (ht : Transferred rfc event record) :
    ∃ restored, restoreDeadLetter rfc sha256 record = .ok restored ∧ SameEvent event restored ∧
      RedriveId restored.publicationId := by
  obtain ⟨encoded, original, stream, transferId, reason, hencode, hextends, hdead⟩ := ht.headers
  obtain ⟨_, hencode', hid, -⟩ := encode_prepared_sound law h
  cases hencode.symm.trans hencode'
  obtain ⟨hcarried, hsubject, -⟩ := dead_letter_headers_get hdead
  simp only [Identified, identityHeaders, List.forall_mem_cons] at hid
  obtain ⟨hmessage, htype, hschema, hcreated, -, -⟩ := hid
  have hget : ∀ {name value}, name ∈ carriedNames → validText value = some true →
      encoded.get name = some value → record.headers.get name = some value := by
    intro name value hname hvalid hvalue
    have horiginal := header_value_of_get (hextends name value hvalue)
    have hne : headerValue original name ≠ "" := horiginal ▸ valid_text_ne_empty hvalid
    rw [hcarried name hname hne, horiginal]
  have hprintable := format_timestamp_printable law h.createdAt
  obtain ⟨storedText, hstored⟩ := ht.stored
  have hsubjectValue := header_value_of_get hsubject
  have hcreatedValue := header_value_of_get (hget (by decide) hprintable hcreated)
  obtain ⟨id, hrecord⟩ : ∃ id, recordId rfc sha256 "redrive-" record.stream record.streamSequence
      record.storedAt (headerValue record.headers natsMsgIdName) = .ok id := by
    simp only [recordId, hstored]
    exact ⟨_, rfl⟩
  obtain ⟨digest, rfl⟩ := record_id_ok hrecord
  refine ⟨{ event with publicationId := prefixedDigestHex "redrive-" digest.toList }, ?_, rfl,
    redrive_id_digest digest⟩
  simp only [restoreDeadLetter, bind_ok, require_ok, required_value_ok, hsubjectValue,
    hcreatedValue, ht.payload]
  exact ⟨(), h.subject, _, ⟨hget (by decide) h.messageId hmessage, h.messageId⟩,
    _, ⟨hget (by decide) h.eventType htype, h.eventType⟩,
    _, ⟨hget (by decide) (valid_text_schema _) hschema, valid_text_schema _⟩,
    _, parse_schema_schema h.version, _, parse_format_timestamp law h.utc h.createdAt,
    (), by simp [h.nonzero], _, hrecord, _, h.createdAt, rfl⟩

def Redriven (rfc : Rfc3339) (sha256 : Sha256) (e e' : PreparedEvent) : Prop :=
  ∃ record, Transferred rfc e record ∧ restoreDeadLetter rfc sha256 record = .ok e'

theorem redriven_preserves (law : rfc.Lawful) {e e' : PreparedEvent} (hs : Sound rfc e)
    (h : Relation.ReflTransGen (Redriven rfc sha256) e e') : Sound rfc e' ∧ SameEvent e e' := by
  induction h with
  | refl => exact ⟨hs, rfl⟩
  | tail _ hcycle ih =>
    obtain ⟨hsound, hsame⟩ := ih
    obtain ⟨record, ht, hrestore⟩ := hcycle
    obtain ⟨restored, hrestored, hsame', -⟩ := restore_transferred law hsound ht
    cases hrestore.symm.trans hrestored
    exact ⟨restore_sound hrestore, hsame.trans hsame'⟩

/-- Whatever was redriven before, a stored record of a prepared event restores to the same
event under a redrive id, and the restored event is published and read back with the same
identity. -/
theorem dead_letter_redrive_preserves (law : rfc.Lawful) {kind : EventPayload} {subject : String}
    {occurrence : Event} {limit : ℕ} {prepared event : PreparedEvent}
    (hprepared : prepare rfc kind subject occurrence limit = .ok prepared)
    (hcycles : Relation.ReflTransGen (Redriven rfc sha256) prepared event)
    {record : DeadLetterRecord} (ht : Transferred rfc event record) :
    ∃ restored headers, restoreDeadLetter rfc sha256 record = .ok restored ∧
      SameEvent prepared restored ∧ RedriveId restored.publicationId ∧
      encodePrepared restored = .ok headers ∧
      decodeEnvelope rfc restored.subject headers restored.payload =
        .ok ⟨prepared.messageId, prepared.eventType, prepared.schemaVersion,
          prepared.occurredAt, prepared.payload⟩ := by
  obtain ⟨hsound, hsame⟩ := redriven_preserves law (prepare_sound hprepared) hcycles
  obtain ⟨restored, hrestore, hsame', hid⟩ := restore_transferred law hsound ht
  have hrestored := restore_sound hrestore
  obtain ⟨headers, hencode, hidentified, hbytes⟩ := encode_prepared_sound law hrestored
  have hall := hsame.trans hsame'
  refine ⟨restored, headers, hrestore, hall, hid, hencode, ?_⟩
  rw [decode_sound law hrestored hidentified hbytes]
  rw [← show _ = prepared from hall]

def unixEpoch : UtcDateTime := ⟨0, by decide⟩

def epochText : String := "1970-01-01T00:00:00Z"

/-- RFC 3339 at the Unix epoch, the only instant of the sample below. -/
def epochRfc : Rfc3339 where
  format t := if t = unixEpoch.toOffset then some epochText else none
  parse text := if text = epochText then some unixEpoch.toOffset else none

theorem epoch_rfc_lawful : epochRfc.Lawful where
  parse_format := by
    intro t text _ h
    simp only [epochRfc, Option.ite_none_right_eq_some, Option.some.injEq] at h ⊢
    exact ⟨h.2.symm, h.1.symm⟩
  printable := by
    intro t text h
    simp only [epochRfc, Option.ite_none_right_eq_some, Option.some.injEq] at h
    rw [← h.2]
    decide

def orderCreated : EventPayload := ⟨"order.created", 2, by decide, by decide⟩

def sampleEvent : PreparedEvent :=
  ⟨"orders.created", "event-1", "event-1", "order.created", 2, unixEpoch.toOffset,
    epochText, [91, 49, 93]⟩

def sampleTransferId : String :=
  "dlq-265860e01e7c2406569da5a450ae12910637bb80e6af885047cc7ece1646b0dc"

def sampleSha256 : Sha256 := fun _ =>
  #v[0xcd, 0xaf, 0xd4, 0x9a, 0xae, 0x80, 0xc3, 0xb5, 0xdf, 0x7a, 0x57, 0xae, 0x28, 0x87, 0x74, 0x9b,
    0x3d, 0xa7, 0x3d, 0x1e, 0xca, 0x01, 0x90, 0xf2, 0xbb, 0x23, 0xf8, 0x1b, 0x94, 0xb9, 0xee, 0x8c]

def sampleHeaders : HeaderMap :=
  ((((HeaderMap.new.put messageIdName "event-1").put eventTypeName "order.created").put
    eventSchemaName "v2").put createdAtName epochText).put natsMsgIdName "event-1"

def sampleOriginal : HeaderMap := sampleHeaders.put tracestateName "vendor=1"

def sampleRecord : DeadLetterRecord where
  subject := "dlq.orders"
  headers := ((((((((HeaderMap.new.put messageIdName "event-1").put eventTypeName
    "order.created").put eventSchemaName "v2").put createdAtName epochText).put tracestateName
    "vendor=1").put natsMsgIdName sampleTransferId).put originalSubjectName "orders.created").put
    deadLetterReasonName "exhausted").put natsExpectedStreamName "ORDERS_DLQ"
  payload := [91, 49, 93]
  stream := "ORDERS_DLQ"
  streamSequence := 3
  storedAt := unixEpoch.toOffset

theorem sample_transferred : Transferred epochRfc sampleEvent sampleRecord where
  headers := by
    refine ⟨sampleHeaders, sampleOriginal, "ORDERS_DLQ", sampleTransferId, .exhausted, rfl, ?_, rfl⟩
    intro name value h
    have hname : name ≠ tracestateName := by
      rintro rfl
      simp (disch := decide) [sampleHeaders, HeaderMap.get_put_other] at h
    rw [sampleOriginal, HeaderMap.get_put_other _ hname, h]
  payload := rfl
  stored := ⟨epochText, rfl⟩

theorem dead_letter_redrive_preserves_sample :
    ∃ restored headers, restoreDeadLetter epochRfc sampleSha256 sampleRecord = .ok restored ∧
      SameEvent sampleEvent restored ∧ RedriveId restored.publicationId ∧
      encodePrepared restored = .ok headers ∧
      decodeEnvelope epochRfc restored.subject headers restored.payload =
        .ok ⟨"event-1", "order.created", 2, unixEpoch.toOffset, [91, 49, 93]⟩ := by
  have hprepared : prepare epochRfc orderCreated "orders.created"
      ⟨"event-1", unixEpoch, [[91], [49], [93]], false⟩ 1024 = .ok sampleEvent := by rfl
  exact dead_letter_redrive_preserves epoch_rfc_lawful hprepared .refl sample_transferred

end MessagingDeadLetter
