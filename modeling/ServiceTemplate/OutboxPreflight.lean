import ServiceTemplate.MessagingOutbox

/-! Outbox preflight against the serialized intent. The scan counts the metadata exactly, and
dividing the remaining room by four inverts the rounding of padded base64, so the preflight
admits an event exactly when its stored form fits the jobs payload limit. -/
namespace OutboxPreflight

open ByteFraming
open MessagingWire
open JsonText
open MessagingOutbox

/-- `max_payload_bytes`: the raw payload that fits beside this intent's metadata. -/
def maxPayloadBytesFor (intent : PublishDomainEvent) : ℕ :=
  let overhead := utf8Len (toVec intent) - utf8Len intent.payloadBase64.toList
  let available := maxPayloadBytes - overhead
  available / 4 * 3

def outboxPayloadLimit (event : PreparedEvent) : ℕ :=
  if maxPayloadBytes < (asBytes event.subject).length then 0
  else maxPayloadBytesFor (metadata event)

def Accepted (event : PreparedEvent) : Prop :=
  ∃ intent, prepareOutboxIntent event = some (.ok intent)

/-- The largest payload length admitted with this metadata, and zero if none is. -/
def LargestAccepted (event : PreparedEvent) (limit : ℕ) : Prop :=
  (∀ payload, Accepted { event with payload } → payload.length ≤ limit) ∧
    ((∀ payload : Bytes, payload.length = limit → Accepted { event with payload }) ∨
      (limit = 0 ∧ ∀ payload, ¬ Accepted { event with payload }))

theorem encoded_char {c : Char} (h : c ∈ '=' :: Base64.alphabet) :
    escapeChar c = [c] ∧ c.utf8Size = 1 := by
  have hall : ∀ d ∈ '=' :: Base64.alphabet, escapeChar d = [d] ∧ d.utf8Size = 1 := by
    decide
  exact hall c h

theorem utf8_len_encoded {cs : List Char} (h : ∀ c ∈ cs, c ∈ '=' :: Base64.alphabet) :
    utf8Len (cs.flatMap escapeChar) = cs.length := by
  induction cs with
  | nil => rfl
  | cons c cs ih =>
    obtain ⟨hescape, hsize⟩ := encoded_char (h c List.mem_cons_self)
    have htail := ih fun d hd => h d (List.mem_cons_of_mem c hd)
    rw [List.flatMap_cons, hescape, utf8_len_append, htail, utf8_len_cons, hsize, utf8_len_nil,
      List.length_cons]
    omega

/-- Standard base64 needs no JSON escape, so the payload adds exactly its own length. -/
theorem stored_len (event : PreparedEvent) :
    utf8Len (toVec (storedIntent event)) =
      utf8Len (toVec (metadata event)) + 4 * ((event.payload.length + 2) / 3) := by
  have hempty : utf8Len (jsonString "") = 2 := rfl
  have hpayload : utf8Len (jsonString (String.ofList (Base64.encode event.payload))) =
      4 * ((event.payload.length + 2) / 3) + 2 := by
    rw [utf8_len_json_string, String.toList_ofList, utf8_len_encoded fun c => Base64.encode_mem,
      Base64.encode_length]
  simp only [toVec, storedIntent, metadata, emptyMetadata, List.cons_append, utf8_len_append,
    utf8_len_cons, utf8_len_json_member, hempty, hpayload]
  omega

theorem utf8_len_pos {cs : List Char} (h : cs ≠ []) : 0 < utf8Len cs := by
  obtain ⟨c, cs, rfl⟩ := List.exists_cons_of_ne_nil h
  have hsize := c.utf8Size_pos
  rw [utf8_len_cons]
  omega

theorem escape_char_wide {c : Char} (h : 128 ≤ c.toNat) : escapeChar c = [c] := by
  have hne : ∀ d : Char, d.toNat < 128 → c ≠ d := by
    rintro d hd rfl
    omega
  exact escape_char_plain (by omega) (hne '"' (by decide)) (hne '\\' (by decide))

theorem utf8_size_le_escape (c : Char) : c.utf8Size ≤ utf8Len (escapeChar c) := by
  by_cases hascii : c.toNat < 128
  · have hval : c.val ≤ 0x7f := Nat.le_of_lt_succ hascii
    have hsize : c.utf8Size = 1 := by simp [Char.utf8Size, hval]
    rw [hsize]
    exact utf8_len_pos (escape_char_ne_nil c)
  · rw [escape_char_wide (by omega), utf8_len_cons, utf8_len_nil, Nat.add_zero]

theorem utf8_len_le_escape (cs : List Char) : utf8Len cs ≤ utf8Len (cs.flatMap escapeChar) := by
  induction cs with
  | nil => exact Nat.le_refl 0
  | cons c cs ih =>
    rw [List.flatMap_cons, utf8_len_append, utf8_len_cons]
    exact Nat.add_le_add (utf8_size_le_escape c) ih

theorem as_bytes_length (text : String) : (asBytes text).length = utf8Len text.toList := by
  simp [Utf8Text.as_bytes_flat_map, List.length_flatMap, utf8Len]

/-- A subject beyond the limit leaves no room by itself. -/
theorem subject_le_metadata (event : PreparedEvent) :
    (asBytes event.subject).length ≤ utf8Len (toVec (metadata event)) := by
  have hsubject := utf8_len_le_escape event.subject.toList
  have hstring := utf8_len_json_string event.subject
  rw [as_bytes_length]
  simp only [toVec, metadata, List.cons_append, utf8_len_append, utf8_len_cons,
    utf8_len_json_member]
  omega

theorem limit_of_metadata (event : PreparedEvent) :
    outboxPayloadLimit event = (maxPayloadBytes - utf8Len (toVec (metadata event))) / 4 * 3 := by
  have hsubject := subject_le_metadata event
  have hempty : utf8Len (metadata event).payloadBase64.toList = 0 := rfl
  simp only [outboxPayloadLimit, maxPayloadBytesFor, hempty, Nat.sub_zero]
  split
  · omega
  · rfl

/-- The two refusals and the acceptance, for every route through the preflight. -/
theorem prepare_outbox_intent_eq (event : PreparedEvent) :
    prepareOutboxIntent event = some (
      if outboxPayloadLimit event < event.payload.length then
        .error (.payloadTooLarge event.payload.length (outboxPayloadLimit event))
      else if maxPayloadBytes < utf8Len (toVec (metadata event)) then
        .error (.jobsPayloadTooLarge (utf8Len (toVec (metadata event))))
      else .ok (storedIntent event)) := by
  have hsubject := subject_le_metadata event
  simp only [prepareOutboxIntent, outbox_metadata_bytes_eq, Option.map_some, admitIntent,
    limit_of_metadata]
  split
  · -- the oversized subject alone already leaves no room for a payload
    rename_i hearly
    obtain ⟨hlong, hpayload⟩ := hearly
    have hpos := List.length_pos_iff.mpr hpayload
    have hzero : (maxPayloadBytes - utf8Len (toVec (metadata event))) / 4 * 3 = 0 := by omega
    rw [hzero, if_pos hpos]
  · rfl

theorem accepted_iff (event : PreparedEvent) :
    Accepted event ↔ event.payload.length ≤ outboxPayloadLimit event ∧
      utf8Len (toVec (metadata event)) ≤ maxPayloadBytes := by
  simp only [Accepted, prepare_outbox_intent_eq, Option.some.injEq]
  split
  · simp
    omega
  · split
    · simp
      omega
    · simp
      omega

theorem accepted_iff_fits (event : PreparedEvent) :
    Accepted event ↔ utf8Len (toVec (storedIntent event)) ≤ maxPayloadBytes := by
  rw [accepted_iff, stored_len, limit_of_metadata]
  omega

theorem metadata_payload (event : PreparedEvent) (payload : Bytes) :
    metadata { event with payload } = metadata event := rfl

theorem largest_accepted (event : PreparedEvent) :
    LargestAccepted event (outboxPayloadLimit event) := by
  have hlimit : ∀ payload,
      outboxPayloadLimit { event with payload } = outboxPayloadLimit event := fun _ => rfl
  refine ⟨fun payload h => hlimit payload ▸ ((accepted_iff _).mp h).1, ?_⟩
  by_cases hroom : utf8Len (toVec (metadata event)) ≤ maxPayloadBytes
  · left
    intro payload hlength
    rw [accepted_iff, hlimit, metadata_payload]
    exact ⟨Nat.le_of_eq hlength, hroom⟩
  · right
    constructor
    · rw [limit_of_metadata]
      omega
    · intro payload h
      exact hroom ((accepted_iff _).mp h).2

theorem poll_consumes {fields left : List (List Char)} {total counted : ℕ}
    (h : pollFields preflightBytesPerPoll fields total = .pending left counted) :
    charCount left < charCount fields := by
  have hpolled := poll_fields_polled preflightBytesPerPoll fields total
  rw [h] at hpolled
  exact hpolled.2.2 (by decide)

/-- The preflight agrees with the serializer it never runs on the whole intent. -/
theorem preflight_agrees (event : PreparedEvent) :
    (∀ fields total left counted,
      pollFields preflightBytesPerPoll fields total = .pending left counted →
        charCount left < charCount fields) ∧
    outboxMetadataBytes event = some (utf8Len (toVec (metadata event))) ∧
    (Accepted event ↔ utf8Len (toVec (storedIntent event)) ≤ maxPayloadBytes) ∧
    (event.payload ≠ [] → ¬ Accepted event →
      prepareOutboxIntent event =
        some (.error (.payloadTooLarge event.payload.length (outboxPayloadLimit event)))) ∧
    LargestAccepted event (outboxPayloadLimit event) := by
  refine ⟨fun _ _ _ _ h => poll_consumes h, outbox_metadata_bytes_eq event,
    accepted_iff_fits event, ?_, largest_accepted event⟩
  intro hpayload hrefused
  have hpos := List.length_pos_iff.mpr hpayload
  have hover : outboxPayloadLimit event < event.payload.length := by
    rw [accepted_iff, limit_of_metadata] at hrefused
    rw [limit_of_metadata]
    omega
  rw [prepare_outbox_intent_eq, if_pos hover]

end OutboxPreflight
