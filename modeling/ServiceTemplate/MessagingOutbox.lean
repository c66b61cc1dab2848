import ServiceTemplate.MessagingDeadLetter
import ServiceTemplate.Base64

/-! Transactional publication through the jobs queue: the stored form of a prepared event,
its size admission and its reconstruction before publication. -/
namespace MessagingOutbox

open ByteFraming
open ExceptChain
open JsonText (escapeChar quote)
open MessagingText
open MessagingWire
open MessagingDeadLetter

variable {rfc : Rfc3339} {sha256 : Sha256} {isJson : Bytes → Bool}

def formatVersion : UInt8 := 1

def maxPayloadBytes : ℕ := 262144

def preflightBytesPerPoll : ℕ := 4096

structure PublishDomainEvent where
  version : UInt8
  subject : String
  messageId : String
  publicationId : String
  eventType : String
  schemaVersion : UInt16
  occurredAtUnixSeconds : ℤ
  occurredAtNanosecond : ℕ
  payloadBase64 : String
  deriving DecidableEq, Repr

/-- Whole seconds since the epoch, rounded down, so instants before 1970 keep a positive
fraction. -/
def unixTimestamp (t : OffsetDateTime) : ℤ := t.unixNanos / 1000000000

def nanosecond (t : OffsetDateTime) : ℕ := (t.unixNanos % 1000000000).toNat

def emptyMetadata (event : PreparedEvent) : PublishDomainEvent where
  version := formatVersion
  subject := ""
  messageId := ""
  publicationId := ""
  eventType := ""
  schemaVersion := event.schemaVersion
  occurredAtUnixSeconds := unixTimestamp event.occurredAt
  occurredAtNanosecond := nanosecond event.occurredAt
  payloadBase64 := ""

def metadata (event : PreparedEvent) : PublishDomainEvent :=
  { emptyMetadata event with
    subject := event.subject
    messageId := event.messageId
    publicationId := event.publicationId
    eventType := event.eventType }

/-- `PublishDomainEvent::from`. -/
def storedIntent (event : PreparedEvent) : PublishDomainEvent :=
  { metadata event with payloadBase64 := String.ofList (Base64.encode event.payload) }

def jsonString (text : String) : List Char := quote text.toList

def jsonMember (name : String) (value : List Char) : List Char :=
  jsonString name ++ ':' :: value

/-- `serde_json::to_vec` of an intent. -/
def toVec (intent : PublishDomainEvent) : List Char :=
  '\x7b' :: jsonMember "version" (Nat.repr intent.version.toNat).toList ++
  ',' :: jsonMember "subject" (jsonString intent.subject) ++
  ',' :: jsonMember "message_id" (jsonString intent.messageId) ++
  ',' :: jsonMember "publication_id" (jsonString intent.publicationId) ++
  ',' :: jsonMember "event_type" (jsonString intent.eventType) ++
  ',' :: jsonMember "schema_version" (Nat.repr intent.schemaVersion.toNat).toList ++
  ',' :: jsonMember "occurred_at_unix_seconds" (Int.repr intent.occurredAtUnixSeconds).toList ++
  ',' :: jsonMember "occurred_at_nanosecond" (Nat.repr intent.occurredAtNanosecond).toList ++
  ',' :: jsonMember "payload_base64" (jsonString intent.payloadBase64) ++ ['\x7d']

def utf8Len (chars : List Char) : ℕ := (chars.map Char.utf8Size).sum

/-- The longest start of a text within a byte budget, cut at a character boundary. -/
def takeFitting : ℕ → List Char → List Char × List Char
  | _, [] => ([], [])
  | budget, c :: rest =>
    if c.utf8Size ≤ budget then
      let (fit, left) := takeFitting (budget - c.utf8Size) rest
      (c :: fit, left)
    else ([], c :: rest)

inductive Preflight where
  | ready (total : ℕ)
  | pending (fields : List (List Char)) (total : ℕ)
  deriving DecidableEq, Repr

/-- One poll: the fields are scanned under a shared byte budget, and the poll yields when the
next character does not fit. -/
def pollFields : ℕ → List (List Char) → ℕ → Preflight
  | _, [], total => .ready total
  | remaining, source :: fields, total =>
    let (fit, left) := takeFitting remaining source
    let total := total + utf8Len (fit.flatMap escapeChar)
    match left with
    | [] => pollFields (remaining - utf8Len fit) fields total
    | _ => .pending (left :: fields) total

/-- Polls until ready, at most `fuel` times. -/
def completePreflight : ℕ → List (List Char) → ℕ → Option ℕ
  | 0, _, _ => none
  | fuel + 1, fields, total =>
    match pollFields preflightBytesPerPoll fields total with
    | .ready total => some total
    | .pending fields total => completePreflight fuel fields total

def charCount (fields : List (List Char)) : ℕ := (fields.map List.length).sum

def metadataFields (event : PreparedEvent) : List (List Char) :=
  [event.subject.toList, event.messageId.toList, event.publicationId.toList,
    event.eventType.toList]

/-- The empty metadata already contributes the quotes of each field. -/
def outboxMetadataBytes (event : PreparedEvent) : Option ℕ :=
  completePreflight (charCount (metadataFields event) + 1) (metadataFields event)
    (utf8Len (toVec (emptyMetadata event)))

inductive OutboxEnqueueError where
  | payloadTooLarge (bytes maxBytes : ℕ)
  | jobsPayloadTooLarge (bytes : ℕ)
  deriving DecidableEq, Repr

def admitIntent (event : PreparedEvent) (overhead : ℕ) :
    Except OutboxEnqueueError PublishDomainEvent :=
  let available := maxPayloadBytes - overhead
  let maxBytes := available / 4 * 3
  if maxBytes < event.payload.length then
    .error (.payloadTooLarge event.payload.length maxBytes)
  else if maxPayloadBytes < overhead then .error (.jobsPayloadTooLarge overhead)
  else .ok (storedIntent event)

/-- No result means that the preflight never becomes ready. -/
def prepareOutboxIntent (event : PreparedEvent) :
    Option (Except OutboxEnqueueError PublishDomainEvent) :=
  if maxPayloadBytes < (asBytes event.subject).length ∧ event.payload ≠ [] then
    some (.error (.payloadTooLarge event.payload.length 0))
  else (outboxMetadataBytes event).map (admitIntent event)

inductive StoredIntentFault where
  | invalid
  | panicked
  deriving DecidableEq, Repr

/-- `from_unix_timestamp` and `replace_nanosecond`, each refusing what is out of range. -/
def fromUnix (seconds : ℤ) (nanosecond : ℕ) : Option OffsetDateTime :=
  if h : Representable (seconds * 1000000000) ∧ nanosecond < 1000000000 then
    some (UtcDateTime.toOffset ⟨seconds * 1000000000 + nanosecond, by
      simp only [Representable] at h ⊢
      omega⟩)
  else none

def checkStored (holds : Bool) : Except StoredIntentFault Unit :=
  if holds then .ok () else .error .invalid

def orInvalid {α : Type} : Option α → Except StoredIntentFault α
  | some a => .ok a
  | none => .error .invalid

/-- `validate_prepared` with its error discarded. -/
def validateStored (rfc : Rfc3339) (event : PreparedEvent) : Except StoredIntentFault String :=
  match validatePrepared rfc event with
  | .ok text => .ok text
  | .error .panicked => .error .panicked
  | .error (.error _) => .error .invalid

/-- `PublishDomainEvent::prepared`; `isJson` is `serde_json`'s acceptance of one JSON value. -/
def rebuild (rfc : Rfc3339) (isJson : Bytes → Bool) (intent : PublishDomainEvent) :
    Except StoredIntentFault PreparedEvent := do
  checkStored (decide (intent.version = formatVersion) && validSubject intent.subject)
  let occurredAt ← orInvalid (fromUnix intent.occurredAtUnixSeconds intent.occurredAtNanosecond)
  let payload ← orInvalid (Base64.decode intent.payloadBase64.toList)
  checkStored (isJson payload)
  let event : PreparedEvent := {
    subject := intent.subject
    messageId := intent.messageId
    publicationId := intent.publicationId
    eventType := intent.eventType
    schemaVersion := intent.schemaVersion
    occurredAt
    createdAt := ""
    payload }
  let createdAt ← validateStored rfc event
  return { event with createdAt }

@[simp] theorem utf8_len_append (xs ys : List Char) :
    utf8Len (xs ++ ys) = utf8Len xs + utf8Len ys := by
  simp [utf8Len]

@[simp] theorem utf8_len_cons (c : Char) (cs : List Char) :
    utf8Len (c :: cs) = c.utf8Size + utf8Len cs := by
  simp [utf8Len]

@[simp] theorem utf8_len_nil : utf8Len [] = 0 := rfl

def escapedLen (fields : List (List Char)) : ℕ :=
  (fields.map fun source => utf8Len (source.flatMap escapeChar)).sum

theorem take_fitting_append (budget : ℕ) (source : List Char) :
    (takeFitting budget source).1 ++ (takeFitting budget source).2 = source := by
  induction source generalizing budget with
  | nil => rfl
  | cons c rest ih =>
    simp only [takeFitting]
    split
    · simp [ih]
    · rfl

theorem take_fitting_ne_nil {budget : ℕ} (h : 4 ≤ budget) (c : Char) (rest : List Char) :
    (takeFitting budget (c :: rest)).1 ≠ [] := by
  have hsize := c.utf8Size_le_four
  simp [takeFitting, show c.utf8Size ≤ budget by omega]

/-- What a poll leaves: the same total to count, and fewer characters when it had budget. -/
def Polled (remaining : ℕ) (fields : List (List Char)) (total : ℕ) : Preflight → Prop
  | .ready result => result = total + escapedLen fields
  | .pending left result => result + escapedLen left = total + escapedLen fields ∧
      charCount left ≤ charCount fields ∧ (4 ≤ remaining → charCount left < charCount fields)

theorem poll_fields_polled (remaining : ℕ) (fields : List (List Char)) (total : ℕ) :
    Polled remaining fields total (pollFields remaining fields total) := by
  induction fields generalizing remaining total with
  | nil => simp [pollFields, Polled, escapedLen]
  | cons source fields ih =>
    have happend := take_fitting_append remaining source
    have hlen := congrArg List.length happend
    have hesc := congrArg (fun cs => utf8Len (cs.flatMap escapeChar)) happend
    simp only [List.length_append, List.flatMap_append, utf8_len_append] at hlen hesc
    cases hleft : (takeFitting remaining source).2 with
    | nil =>
      have hih := ih (remaining - utf8Len (takeFitting remaining source).1)
        (total + utf8Len ((takeFitting remaining source).1.flatMap escapeChar))
      simp only [hleft, List.length_nil, List.flatMap_nil, utf8_len_nil] at hlen hesc
      simp only [pollFields, hleft]
      generalize pollFields (remaining - utf8Len (takeFitting remaining source).1) fields _ = poll
        at hih
      cases poll with
      | ready result =>
        simp only [Polled, escapedLen, List.map_cons, List.sum_cons] at hih ⊢
        omega
      | pending left result =>
        simp only [Polled, escapedLen, charCount, List.map_cons, List.sum_cons] at hih ⊢
        obtain ⟨htotal, hcount, hstrict⟩ := hih
        refine ⟨by omega, by omega, ?_⟩
        intro hbudget
        cases source with
        | nil =>
          have := hstrict hbudget
          omega
        | cons c rest =>
          simp only [List.length_cons]
          omega
    | cons d left =>
      simp only [pollFields, hleft, Polled, escapedLen, charCount, List.map_cons, List.sum_cons]
      rw [hleft] at hlen hesc
      refine ⟨by omega, by omega, ?_⟩
      intro hbudget
      cases source with
      | nil => cases hleft
      | cons c rest =>
        have hpos := List.length_pos_iff.mpr (take_fitting_ne_nil hbudget c rest)
        omega

theorem complete_preflight {fuel : ℕ} {fields : List (List Char)} (h : charCount fields < fuel)
    (total : ℕ) : completePreflight fuel fields total = some (total + escapedLen fields) := by
  induction fuel generalizing fields total with
  | zero => omega
  | succ fuel ih =>
    have hpolled := poll_fields_polled preflightBytesPerPoll fields total
    simp only [completePreflight]
    cases hpoll : pollFields preflightBytesPerPoll fields total with
    | ready result =>
      rw [hpoll] at hpolled
      exact congrArg some hpolled
    | pending left result =>
      rw [hpoll] at hpolled
      obtain ⟨htotal, -, hstrict⟩ := hpolled
      have hfewer := hstrict (by decide)
      rw [← htotal]
      exact ih (by omega) result

theorem utf8_len_json_member (name : String) (value : List Char) :
    utf8Len (jsonMember name value) = utf8Len (jsonString name) + 1 + utf8Len value := by
  have hcolon : ':'.utf8Size = 1 := rfl
  rw [jsonMember, utf8_len_append, utf8_len_cons, hcolon]
  omega

theorem utf8_len_json_string (text : String) :
    utf8Len (jsonString text) = utf8Len (text.toList.flatMap escapeChar) + 2 := by
  have hquote : '"'.utf8Size = 1 := rfl
  rw [jsonString, quote, utf8_len_cons, utf8_len_append, utf8_len_cons, hquote,
    utf8_len_nil]
  omega

theorem outbox_metadata_bytes_eq (event : PreparedEvent) :
    outboxMetadataBytes event = some (utf8Len (toVec (metadata event))) := by
  have hfields := complete_preflight (Nat.lt_succ_self (charCount (metadataFields event)))
    (utf8Len (toVec (emptyMetadata event)))
  have hempty : utf8Len (jsonString "") = 2 := rfl
  rw [outboxMetadataBytes, hfields]
  simp only [toVec, metadata, emptyMetadata, metadataFields, escapedLen, List.cons_append,
    utf8_len_append, utf8_len_cons, utf8_len_json_member, List.map_cons, List.map_nil,
    List.sum_cons, List.sum_nil, hempty, Option.some.injEq]
  rw [utf8_len_json_string event.subject, utf8_len_json_string event.messageId,
    utf8_len_json_string event.publicationId, utf8_len_json_string event.eventType]
  omega

theorem prepare_outbox_intent_ok {event : PreparedEvent} {intent : PublishDomainEvent}
    (h : prepareOutboxIntent event = some (.ok intent)) : intent = storedIntent event := by
  simp only [prepareOutboxIntent, outbox_metadata_bytes_eq, Option.map_some] at h
  split at h
  · cases h
  · simp only [admitIntent, Option.some.injEq] at h
    split at h
    · cases h
    · split at h
      · cases h
      · exact (Except.ok.inj h).symm

theorem from_unix_split {t : OffsetDateTime} (h : t.offsetSeconds = 0) :
    fromUnix (unixTimestamp t) (nanosecond t) = some t := by
  rcases t with ⟨nanos, offset, hrange⟩
  simp only at h
  subst h
  have hmod := Int.emod_nonneg nanos (show (1000000000 : ℤ) ≠ 0 by decide)
  have hlt := Int.emod_lt_of_pos nanos (show (0 : ℤ) < 1000000000 by decide)
  have hsplit := Int.mul_ediv_add_emod nanos 1000000000
  have hguard : Representable (nanos / 1000000000 * 1000000000) ∧
      (nanos % 1000000000).toNat < 1000000000 := by
    simp only [Representable] at hrange ⊢
    omega
  have hnanos : nanos / 1000000000 * 1000000000 + (nanos % 1000000000).toNat = nanos := by
    omega
  simp only [fromUnix, unixTimestamp, nanosecond, hguard, and_self, dite_true, UtcDateTime.toOffset,
    hnanos]

theorem validate_stored {event : PreparedEvent} (h : Sound rfc event) :
    validateStored rfc { event with createdAt := "" } = .ok event.createdAt := by
  have hvalid : validatePrepared rfc { event with createdAt := "" } = .ok event.createdAt := by
    simp only [validatePrepared, bind_ok, validate_text_ok, require_ok]
    exact ⟨(), h.messageId, (), h.publicationId, (), h.eventType, (),
      by simp [h.version, h.nonzero], h.createdAt⟩
  simp only [validateStored, hvalid]

@[simp] theorem check_stored_ok {holds : Bool} {u : Unit} :
    checkStored holds = .ok u ↔ holds = true := by
  cases holds <;> simp [checkStored]

@[simp] theorem or_invalid_ok {α : Type} {value : Option α} {a : α} :
    orInvalid value = .ok a ↔ value = some a := by
  cases value <;> simp [orInvalid]

theorem rebuild_stored {event : PreparedEvent} (h : Sound rfc event) :
    rebuild rfc isJson (storedIntent event) = .ok event ↔ isJson event.payload = true := by
  have htime : fromUnix (storedIntent event).occurredAtUnixSeconds
      (storedIntent event).occurredAtNanosecond = some event.occurredAt := from_unix_split h.utc
  have hpayload : Base64.decode (storedIntent event).payloadBase64.toList = some event.payload := by
    simp [storedIntent, Base64.decode_encode]
  simp only [rebuild, bind_ok, check_stored_ok, or_invalid_ok]
  constructor
  · rintro ⟨_, -, _, -, payload, hdecoded, _, hjson, -⟩
    rw [hpayload] at hdecoded
    cases hdecoded
    exact hjson
  · intro hjson
    exact ⟨(), by simp [storedIntent, metadata, emptyMetadata, h.subject], _, htime, _, hpayload,
      (), hjson, _, validate_stored h, rfl⟩

inductive Built (rfc : Rfc3339) (sha256 : Sha256) (event : PreparedEvent) : Prop where
  | prepared {kind : EventPayload} {subject : String} {occurrence : Event} {limit : ℕ}
      (h : prepare rfc kind subject occurrence limit = .ok event)
  | restored {record : DeadLetterRecord} (h : restoreDeadLetter rfc sha256 record = .ok event)

theorem Built.sound {event : PreparedEvent} (h : Built rfc sha256 event) : Sound rfc event := by
  cases h with
  | prepared h => exact prepare_sound h
  | restored h => exact restore_sound h

/-- `serde_json` reads what its serializer has written. -/
def ReadsBack (isJson : Bytes → Bool) (occurrence : Event) : Prop :=
  occurrence.fails = false → isJson occurrence.chunks.flatten = true

theorem write_chunks {limit : ℕ} {written : PayloadWriter} (chunks : List Bytes) (before : Bytes)
    (h : chunks.foldlM PayloadWriter.write ⟨before.take limit, before.length, limit⟩ =
      some written) :
    written = ⟨(before ++ chunks.flatten).take limit, (before ++ chunks.flatten).length, limit⟩ := by
  induction chunks generalizing before with
  | nil =>
    cases h
    simp
  | cons chunk chunks ih =>
    obtain ⟨next, hnext, h⟩ := Option.bind_eq_some_iff.mp h
    simp only [PayloadWriter.write] at hnext
    split at hnext
    · cases hnext
      have hroom : before.take limit ++ chunk.take (min chunk.length (limit - (before.take limit).length)) =
          (before ++ chunk).take limit := by
        rw [List.take_append, List.length_take, ← List.take_take,
          List.take_of_length_le (List.length_take_le' ..)]
        congr 2
        omega
      rw [hroom, ← List.length_append] at h
      rw [ih (before ++ chunk) h, List.flatten_cons, List.append_assoc]
    · cases hnext

/-- Within the limit the payload is all that was written. -/
theorem prepare_payload {kind : EventPayload} {subject : String} {occurrence : Event} {limit : ℕ}
    {event : PreparedEvent} (h : prepare rfc kind subject occurrence limit = .ok event) :
    occurrence.fails = false ∧ event.payload = occurrence.chunks.flatten := by
  simp only [prepare, bind_ok, require_ok] at h
  obtain ⟨_, -, written, hserialize, _, hfits, _, -, _, -, createdAt, -, h⟩ := h
  cases h
  simp only [serialize] at hserialize
  split at hserialize
  · next hwritten hfails =>
    cases hserialize
    have heq := write_chunks occurrence.chunks [] (by simpa using hwritten)
    rw [List.nil_append] at heq
    subst heq
    have hle : occurrence.chunks.flatten.length ≤ limit := by simpa using hfits
    exact ⟨hfails, List.take_of_length_le hle⟩
  · cases hserialize

/-- An admitted event is rebuilt unchanged exactly when its payload is JSON, and so always when
`prepare` has built it. -/
theorem outbox_lossless_iff_json {event : PreparedEvent} (hbuilt : Built rfc sha256 event)
    {intent : PublishDomainEvent} (haccepted : prepareOutboxIntent event = some (.ok intent)) :
    intent = storedIntent event ∧
      (rebuild rfc isJson intent = .ok event ↔ isJson event.payload = true) ∧
      ∀ kind subject occurrence limit, prepare rfc kind subject occurrence limit = .ok event →
        ReadsBack isJson occurrence → rebuild rfc isJson intent = .ok event := by
  have hintent := prepare_outbox_intent_ok haccepted
  have hiff : rebuild rfc isJson intent = .ok event ↔ isJson event.payload = true := by
    rw [hintent]
    exact rebuild_stored hbuilt.sound
  refine ⟨hintent, hiff, fun kind subject occurrence limit hprepared hreads => hiff.mpr ?_⟩
  obtain ⟨hfails, hpayload⟩ := prepare_payload hprepared
  rw [hpayload]
  exact hreads hfails

def emptyBodyRecord : DeadLetterRecord := { sampleRecord with payload := [] }

def emptyBodyEvent : PreparedEvent :=
  { sampleEvent with
    publicationId := "redrive-cdafd49aae80c3b5df7a57ae2887749b3da73d1eca0190f2bb23f81b94b9ee8c"
    payload := [] }

def sampleJson (bytes : Bytes) : Bool := bytes = [91, 49, 93]

/-- A redriven event with an empty body is admitted, and its stored intent is then invalid. -/
theorem empty_body_not_rebuilt :
    restoreDeadLetter epochRfc sampleSha256 emptyBodyRecord = .ok emptyBodyEvent ∧
      prepareOutboxIntent emptyBodyEvent = some (.ok (storedIntent emptyBodyEvent)) ∧
      rebuild epochRfc sampleJson (storedIntent emptyBodyEvent) = .error .invalid :=
  ⟨by rfl, by decide +kernel, by decide +kernel⟩

def sampleOccurrence : Event := ⟨"event-1", unixEpoch, [[91], [49], [93]], false⟩

theorem outbox_lossless_iff_json_sample :
    prepareOutboxIntent sampleEvent = some (.ok (storedIntent sampleEvent)) ∧
      (rebuild epochRfc sampleJson (storedIntent sampleEvent) = .ok sampleEvent ↔
        sampleJson [91, 49, 93] = true) ∧
      rebuild epochRfc sampleJson (storedIntent sampleEvent) = .ok sampleEvent := by
  have hprepared : prepare epochRfc orderCreated "orders.created" sampleOccurrence 1024 =
      .ok sampleEvent := by rfl
  have haccepted : prepareOutboxIntent sampleEvent = some (.ok (storedIntent sampleEvent)) := by
    decide +kernel
  have hreads : ReadsBack sampleJson sampleOccurrence := fun _ => by decide
  obtain ⟨-, hiff, hbuilt⟩ := outbox_lossless_iff_json
    (Built.prepared hprepared : Built epochRfc sampleSha256 sampleEvent) haccepted
  exact ⟨haccepted, hiff, hbuilt _ _ _ _ hprepared hreads⟩

end MessagingOutbox
