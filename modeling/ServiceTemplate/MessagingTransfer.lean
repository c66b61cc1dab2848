import ServiceTemplate.MessagingDeadLetter

/-! Size admission of a dead-letter transfer. The bound is computed from sizes alone; it covers
every header set the rewrite makes of an accepted delivery, because the rewrite copies at most
one value of each retained name and adds four fields of known size. -/
namespace MessagingTransfer

open ByteFraming
open ExceptChain
open MessagingText
open MessagingWire
open MessagingDeadLetter

def usizeMax : ℕ := 2 ^ 64 - 1

def checkedAdd (a b : ℕ) : Option ℕ := if a + b ≤ usizeMax then some (a + b) else none

structure DeadLetterBounds where
  total : ℕ
  headers : ℕ
  deriving DecidableEq, Repr

def deadLetterIdPrefix : String := "dlq-"

def reasonBytes : ℕ :=
  [DeadLetterReason.malformed, .permanent, .exhausted].foldl
    (fun longest reason => max longest (asBytes reason.asStr).length) 0

/-- The fields a transfer adds, with the size of each value. -/
def addedFields (idBytes subjectBytes streamBytes : ℕ) : List (String × ℕ) :=
  [(natsMsgIdName, idBytes), (originalSubjectName, subjectBytes),
    (deadLetterReasonName, reasonBytes), (natsExpectedStreamName, streamBytes)]

/-- One field on the wire is its name, its value and four bytes of framing. -/
def addField (bytes : ℕ) (field : String × ℕ) : Option ℕ := do
  let bytes ← checkedAdd bytes (asBytes field.1).length
  let bytes ← checkedAdd bytes 4
  checkedAdd bytes field.2

def deadLetterBounds (sourceBytes subjectBytes streamBytes : ℕ) : Option DeadLetterBounds := do
  let idBytes ← checkedAdd (asBytes deadLetterIdPrefix).length 64
  let additions ← (addedFields idBytes subjectBytes streamBytes).foldlM addField 0
  let total ← checkedAdd sourceBytes additions
  let headers ← checkedAdd (min sourceBytes headerLimitBytes) additions
  return { total, headers }

theorem checked_add_some {a b c : ℕ} : checkedAdd a b = some c ↔ c = a + b ∧ c ≤ usizeMax := by
  simp only [checkedAdd]
  split
  · constructor
    · intro h
      cases h
      exact ⟨rfl, ‹_›⟩
    · rintro ⟨rfl, -⟩
      rfl
  · constructor
    · intro h
      cases h
    · rintro ⟨rfl, hle⟩
      contradiction

def fieldBytes (field : String × ℕ) : ℕ := (asBytes field.1).length + 4 + field.2

theorem add_field_some {bytes total : ℕ} {field : String × ℕ} :
    addField bytes field = some total ↔ total = bytes + fieldBytes field ∧ total ≤ usizeMax := by
  simp only [addField, fieldBytes, Option.bind_eq_bind, Option.bind_eq_some_iff, checked_add_some]
  constructor
  · rintro ⟨_, ⟨rfl, _⟩, _, ⟨rfl, _⟩, rfl, hle⟩
    exact ⟨by omega, hle⟩
  · rintro ⟨rfl, hle⟩
    exact ⟨_, ⟨rfl, by omega⟩, _, ⟨rfl, by omega⟩, by omega, hle⟩

theorem fold_fields_some {start total : ℕ} (hstart : start ≤ usizeMax) {fields : List (String × ℕ)} :
    fields.foldlM addField start = some total ↔
      total = start + (fields.map fieldBytes).sum ∧ total ≤ usizeMax := by
  induction fields generalizing start with
  | nil =>
    simp only [List.foldlM_nil, Option.pure_def, Option.some.injEq, List.map_nil, List.sum_nil]
    omega
  | cons field fields ih =>
    simp only [List.foldlM_cons, Option.bind_eq_bind, Option.bind_eq_some_iff, add_field_some,
      List.map_cons, List.sum_cons]
    constructor
    · rintro ⟨_, ⟨rfl, hle⟩, hrest⟩
      obtain ⟨rfl, htotal⟩ := (ih hle).mp hrest
      exact ⟨by omega, htotal⟩
    · rintro ⟨rfl, htotal⟩
      have hle : start + fieldBytes field ≤ usizeMax := by omega
      exact ⟨_, ⟨rfl, hle⟩, (ih hle).mpr ⟨by omega, htotal⟩⟩

/-- The exact size of the added fields. -/
def additions (subjectBytes streamBytes : ℕ) : ℕ :=
  ((addedFields 68 subjectBytes streamBytes).map fieldBytes).sum

theorem dead_letter_bounds_some {source subject stream : ℕ} {bounds : DeadLetterBounds} :
    deadLetterBounds source subject stream = some bounds ↔
      bounds = ⟨source + additions subject stream,
        min source headerLimitBytes + additions subject stream⟩ ∧
      source + additions subject stream ≤ usizeMax := by
  have hid : checkedAdd (asBytes deadLetterIdPrefix).length 64 = some 68 := by decide
  simp only [deadLetterBounds, hid, Option.bind_eq_bind, Option.bind_some, Option.bind_eq_some_iff,
    fold_fields_some (Nat.zero_le usizeMax), checked_add_some, Option.pure_def, Option.some.injEq,
    Nat.zero_add]
  constructor
  · rintro ⟨_, ⟨rfl, -⟩, _, ⟨rfl, hle⟩, _, ⟨rfl, -⟩, rfl⟩
    exact ⟨rfl, hle⟩
  · rintro ⟨rfl, hle⟩
    have hmin := Nat.min_le_left source headerLimitBytes
    simp only [additions] at hle
    exact ⟨_, ⟨rfl, by omega⟩, _, ⟨rfl, hle⟩, _, ⟨rfl, by omega⟩, rfl⟩

theorem dead_letter_bounds_none {source subject stream : ℕ} :
    deadLetterBounds source subject stream = none ↔
      usizeMax < source + additions subject stream := by
  rw [Option.eq_none_iff_forall_ne_some]
  simp only [ne_eq, dead_letter_bounds_some, not_and, Nat.not_le, forall_eq]

/-- What the first value of a name adds to a header set. -/
def copiedBytes (headers : HeaderMap) (name : String) : ℕ :=
  match headers.get name with
  | some value => fieldBytes (name, (asBytes value).length)
  | none => 0

theorem first_value_le {values : List String} {value : String} (h : values.head? = some value)
    (name : String) : fieldBytes (name, (asBytes value).length) ≤ entryBytes (name, values) := by
  obtain ⟨rest, rfl⟩ := List.head?_eq_some_iff.mp h
  simp only [fieldBytes, entryBytes, List.map_cons, List.sum_cons]
  omega

def without (headers : HeaderMap) (name : String) : HeaderMap where
  entries := headers.entries.filter fun entry => entry.1 ≠ name
  nodup := headers.nodup.sublist (List.filter_sublist.map _)

theorem get_without {name other : String} (h : other ≠ name) (headers : HeaderMap) :
    (without headers name).get other = headers.get other := by
  simp only [HeaderMap.get, without, lookup_filter h]

theorem copied_without (headers : HeaderMap) (name : String) :
    copiedBytes headers name + (without headers name).bytes ≤ headers.bytes := by
  have hsplit : headers.bytes = (without headers name).bytes +
      ((headers.entries.filter fun entry => !decide (entry.1 ≠ name)).map entryBytes).sum := by
    simp only [HeaderMap.bytes, without]
    rw [← List.sum_append, ← List.map_append]
    exact ((List.filter_append_perm _ headers.entries).map entryBytes).sum_eq.symm
  have hcopied : copiedBytes headers name ≤
      ((headers.entries.filter fun entry => !decide (entry.1 ≠ name)).map entryBytes).sum := by
    cases hget : headers.get name with
    | none => simp [copiedBytes, hget]
    | some value =>
      obtain ⟨values, hvalues, hfirst⟩ := Option.bind_eq_some_iff.mp hget
      have hmem : (name, values) ∈ headers.entries := by
        obtain ⟨front, back, hentries, -⟩ := List.lookup_eq_some_iff.mp hvalues
        rw [hentries]
        simp
      have hentry : entryBytes (name, values) ∈
          (headers.entries.filter fun entry => !decide (entry.1 ≠ name)).map entryBytes :=
        List.mem_map.mpr ⟨_, List.mem_filter.mpr ⟨hmem, by simp⟩, rfl⟩
      have hle := first_value_le hfirst name
      have hsum := List.single_le_sum (fun n _ => Nat.zero_le n) _ hentry
      simp only [copiedBytes, hget]
      exact Nat.le_trans hle hsum
  omega

/-- Distinct names take their first values from different entries. -/
theorem copied_sum_le (headers : HeaderMap) {names : List String} (hnames : names.Nodup) :
    (names.map (copiedBytes headers)).sum ≤ headers.bytes := by
  induction names generalizing headers with
  | nil => exact Nat.zero_le _
  | cons name names ih =>
    obtain ⟨hout, hnames⟩ := List.nodup_cons.mp hnames
    have hsame : names.map (copiedBytes headers) = names.map (copiedBytes (without headers name)) := by
      apply List.map_congr_left
      intro other hother
      have hne : other ≠ name := fun heq => hout (heq ▸ hother)
      simp only [copiedBytes, get_without hne]
    have hrest := ih (without headers name) hnames
    have hfirst := copied_without headers name
    rw [List.map_cons, List.sum_cons, hsame]
    omega

theorem bytes_put_le (headers : HeaderMap) (name value : String) :
    (headers.put name value).bytes ≤ headers.bytes + fieldBytes (name, (asBytes value).length) := by
  have h := HeaderMap.bytes_put headers name value
  simp only [fieldBytes]
  omega

theorem copy_header_bytes {original init headers : HeaderMap} {name : String}
    (h : copyHeader original init name = .ok headers) :
    headers.bytes ≤ init.bytes + copiedBytes original name := by
  simp only [copyHeader] at h
  split at h
  · cases h
    exact Nat.le_add_right _ _
  · rename_i hne
    obtain ⟨-, rfl⟩ := HeaderMap.insert_ok.mp h
    cases hget : original.get name with
    | none => exact absurd (by simp [headerValue, hget]) hne
    | some value =>
      have hput := bytes_put_le init name value
      simpa only [header_value_of_get hget, copiedBytes, hget] using hput

theorem copy_headers_bytes {original init headers : HeaderMap} {names : List String}
    (h : names.foldlM (copyHeader original) init = .ok headers) :
    headers.bytes ≤ init.bytes + (names.map (copiedBytes original)).sum := by
  induction names generalizing init with
  | nil =>
    cases h
    simp
  | cons name names ih =>
    rw [List.foldlM_cons, bind_ok] at h
    obtain ⟨next, hcopy, hrest⟩ := h
    have hfirst := copy_header_bytes hcopy
    have hafter := ih hrest
    rw [List.map_cons, List.sum_cons]
    omega

theorem decode_accepted {rfc : Rfc3339} {subject : String} {original : HeaderMap} {payload : Bytes}
    {inbound : InboundEnvelope} (h : decodeEnvelope rfc subject original payload = .ok inbound) :
    original.bytes + 12 ≤ headerLimitBytes ∧ headerValue original messageIdName ≠ "" := by
  simp only [decodeEnvelope, bind_ok, require_ok, required_value_ok, scan_found, scan_encoded,
    decide_eq_true_eq] at h
  obtain ⟨_, -, _, hbytes, messageId, ⟨hget, hvalid⟩, -⟩ := h
  refine ⟨hbytes, ?_⟩
  rw [header_value_of_get hget]
  exact valid_text_ne_empty hvalid

theorem encoded_of_nonempty {headers : HeaderMap} (h : headers.entries ≠ []) :
    encodedHeaderBytes headers = headers.bytes + 12 := by
  have hframe : (asBytes "NATS/1.0\r\n\r\n").length = 12 := by decide
  simp only [encodedHeaderBytes, h, if_false, hframe, HeaderMap.bytes]

theorem entries_of_value {headers : HeaderMap} {name : String} (h : headerValue headers name ≠ "") :
    headers.entries ≠ [] := by
  intro hempty
  exact h (by simp [headerValue, HeaderMap.get, hempty])

/-- The rewrite of an accepted delivery costs at most what it copies and adds. -/
theorem dead_letter_headers_bytes {original headers : HeaderMap}
    {subject stream transferId : String} {reason : DeadLetterReason}
    (hid : (asBytes transferId).length = 68) (hmessage : headerValue original messageIdName ≠ "")
    (h : deadLetterHeaders original subject stream transferId reason = .ok headers) :
    encodedHeaderBytes headers ≤ encodedHeaderBytes original +
      additions (asBytes subject).length (asBytes stream).length := by
  simp only [deadLetterHeaders, bind_ok, HeaderMap.insert_ok] at h
  obtain ⟨copied, hcopied, filled, hfilled, _, ⟨-, rfl⟩, _, ⟨-, rfl⟩, _, ⟨-, rfl⟩, -, rfl⟩ := h
  have hkept : headerValue copied messageIdName ≠ "" := by
    have hget := copy_headers_get hcopied messageIdName
    rw [if_pos ⟨by decide, hmessage⟩] at hget
    rwa [header_value_of_get hget]
  simp only [ensureMessageId, hkept, if_false, Except.ok.injEq] at hfilled
  subst hfilled
  have hcopy := copy_headers_bytes hcopied
  have hnames : [messageIdName, eventTypeName, eventSchemaName, createdAtName, traceparentName,
      tracestateName].Nodup := by decide
  have hsum := copied_sum_le original hnames
  have hreason : (asBytes reason.asStr).length = reasonBytes := by
    cases reason <;> decide
  have h₁ := bytes_put_le copied natsMsgIdName transferId
  have h₂ := bytes_put_le (copied.put natsMsgIdName transferId) originalSubjectName subject
  have h₃ := bytes_put_le ((copied.put natsMsgIdName transferId).put originalSubjectName subject)
    deadLetterReasonName reason.asStr
  have h₄ := bytes_put_le (((copied.put natsMsgIdName transferId).put originalSubjectName
    subject).put deadLetterReasonName reason.asStr) natsExpectedStreamName stream
  have hframe := encoded_header_bytes_le ((((copied.put natsMsgIdName transferId).put
    originalSubjectName subject).put deadLetterReasonName reason.asStr).put natsExpectedStreamName
    stream)
  have hnew : HeaderMap.new.bytes = 0 := rfl
  rw [encoded_of_nonempty (entries_of_value hmessage)]
  simp only [additions, addedFields, List.map_cons, List.map_nil, List.sum_cons, List.sum_nil]
  rw [hid] at h₁
  rw [hreason] at h₃
  omega

theorem dead_letter_id_length {rfc : Rfc3339} {sha256 : Sha256} {stream publicationId id : String}
    {streamSequence : UInt64} {storedAt : OffsetDateTime}
    (h : deadLetterId rfc sha256 stream streamSequence storedAt publicationId = .ok id) :
    (asBytes id).length = 68 := by
  obtain ⟨digest, rfl⟩ := record_id_ok h
  have hlist : (prefixedDigestHex "dlq-" digest.toList).toList =
      "dlq-".toList ++ hexDigits digest.toList := by
    simp [prefixedDigestHex]
  have hascii : ∀ c ∈ (prefixedDigestHex "dlq-" digest.toList).toList, c.toNat < 128 := by
    have hhex : ∀ c ∈ "0123456789abcdef".toList, c.toNat < 128 := by decide
    have hlabel : ∀ c ∈ "dlq-".toList, c.toNat < 128 := by decide
    intro c hc
    rw [hlist] at hc
    rcases List.mem_append.mp hc with hc | hc
    · exact hlabel c hc
    · exact hhex c (hex_digits_mem hc)
  rw [Utf8Text.as_bytes_ascii hascii, List.length_map, hlist, List.length_append,
    hex_digits_length, Vector.length_toList]
  rfl

theorem valid_subject_header_value {subject : String} (h : validSubject subject = true) :
    validHeaderValue subject = true := by
  simp only [validHeaderValue, List.all_eq_true, decide_eq_true_eq]
  intro c hc
  have hbyte := subject_scan_bytes h
  constructor
  · rintro rfl
    exact absurd (hbyte _ (Utf8Text.mem_as_bytes hc (by decide))) (by decide)
  · rintro rfl
    exact absurd (hbyte _ (Utf8Text.mem_as_bytes hc (by decide))) (by decide)

/-- The client builds no other header value. -/
def Clean (headers : HeaderMap) : Prop :=
  ∀ entry ∈ headers.entries, ∀ value ∈ entry.2, validHeaderValue value = true

theorem Clean.header_value {headers : HeaderMap} (h : Clean headers) (name : String) :
    validHeaderValue (headerValue headers name) = true := by
  cases hget : headers.get name with
  | none =>
    simp only [headerValue, hget, Option.getD_none]
    decide
  | some value =>
    obtain ⟨values, hvalues, hfirst⟩ := Option.bind_eq_some_iff.mp hget
    obtain ⟨front, back, hentries, -⟩ := List.lookup_eq_some_iff.mp hvalues
    rw [header_value_of_get hget]
    exact h (name, values) (by simp [hentries]) value (List.mem_of_head? hfirst)

theorem copy_headers_total {original : HeaderMap} (h : Clean original) (init : HeaderMap)
    (names : List String) : ∃ headers, names.foldlM (copyHeader original) init = .ok headers := by
  induction names generalizing init with
  | nil => exact ⟨init, rfl⟩
  | cons name names ih =>
    have hcopy : ∃ next, copyHeader original init name = .ok next := by
      simp only [copyHeader]
      split
      · exact ⟨_, rfl⟩
      · exact ⟨_, HeaderMap.insert_ok.mpr ⟨h.header_value name, rfl⟩⟩
    obtain ⟨next, hnext⟩ := hcopy
    obtain ⟨headers, hheaders⟩ := ih next
    exact ⟨headers, by rw [List.foldlM_cons, bind_ok]; exact ⟨next, hnext, hheaders⟩⟩

theorem dead_letter_headers_total {original : HeaderMap} (h : Clean original)
    {subject stream transferId : String} (hsubject : validSubject subject = true)
    (hstream : validHeaderValue stream = true) (hid : validHeaderValue transferId = true)
    (reason : DeadLetterReason) :
    ∃ headers, deadLetterHeaders original subject stream transferId reason = .ok headers := by
  obtain ⟨copied, hcopied⟩ := copy_headers_total h .new [messageIdName, eventTypeName,
    eventSchemaName, createdAtName, traceparentName, tracestateName]
  have hfilled : ∃ filled, ensureMessageId copied transferId = .ok filled := by
    simp only [ensureMessageId]
    split
    · exact ⟨_, HeaderMap.insert_ok.mpr ⟨hid, rfl⟩⟩
    · exact ⟨_, rfl⟩
  obtain ⟨filled, hfilled⟩ := hfilled
  have hreason : validHeaderValue reason.asStr = true := by
    cases reason <;> decide
  refine ⟨(((filled.put natsMsgIdName transferId).put originalSubjectName subject).put
    deadLetterReasonName reason.asStr).put natsExpectedStreamName stream, ?_⟩
  simp only [deadLetterHeaders, bind_ok, HeaderMap.insert_ok]
  exact ⟨copied, hcopied, filled, hfilled, _, ⟨hid, rfl⟩,
    _, ⟨valid_subject_header_value hsubject, rfl⟩, _, ⟨hreason, rfl⟩, hstream, rfl⟩

theorem dead_letter_id_header_value {rfc : Rfc3339} {sha256 : Sha256}
    {stream publicationId id : String} {streamSequence : UInt64} {storedAt : OffsetDateTime}
    (h : deadLetterId rfc sha256 stream streamSequence storedAt publicationId = .ok id) :
    validHeaderValue id = true := by
  obtain ⟨digest, rfl⟩ := record_id_ok h
  apply valid_text_header_value
  apply valid_text_digest_hex
  · exact ⟨by decide, by decide, by simp⟩
  · exact Vector.length_toList

/-- An admitted topology never refuses a dead letter for its size: the rewrite of an accepted
delivery stays within the bounds, and there are none only when the exact sum overflows. -/
theorem dead_letter_size_sound {rfc : Rfc3339} {sha256 : Sha256} {subject : String}
    {original : HeaderMap} {payload : Bytes} {inbound : InboundEnvelope}
    (hdecoded : decodeEnvelope rfc subject original payload = .ok inbound)
    {source stream publicationId transferId : String} {streamSequence : UInt64}
    {storedAt : OffsetDateTime}
    (hid : deadLetterId rfc sha256 source streamSequence storedAt publicationId = .ok transferId) :
    (∀ bounds, deadLetterBounds (encodedHeaderBytes original + payload.length)
        (asBytes subject).length (asBytes stream).length = some bounds →
      ∀ reason headers, deadLetterHeaders original subject stream transferId reason = .ok headers →
        encodedHeaderBytes headers ≤ bounds.headers ∧
          encodedHeaderBytes headers + payload.length ≤ bounds.total) ∧
    (Clean original → validHeaderValue stream = true → ∀ reason,
      ∃ headers, deadLetterHeaders original subject stream transferId reason = .ok headers) ∧
    ∀ sourceBytes subjectBytes streamBytes,
      deadLetterBounds sourceBytes subjectBytes streamBytes = none →
        usizeMax < sourceBytes + additions subjectBytes streamBytes := by
  obtain ⟨hlimit, hmessage⟩ := decode_accepted hdecoded
  refine ⟨?_, ?_, fun _ _ _ hnone => dead_letter_bounds_none.mp hnone⟩
  · intro bounds hbounds reason headers hheaders
    obtain ⟨rfl, -⟩ := dead_letter_bounds_some.mp hbounds
    have hbytes := dead_letter_headers_bytes (dead_letter_id_length hid) hmessage hheaders
    rw [encoded_of_nonempty (entries_of_value hmessage)] at hbytes ⊢
    constructor
    · have hmin : original.bytes + 12 ≤
          min (original.bytes + 12 + payload.length) headerLimitBytes :=
        Nat.le_min.mpr ⟨Nat.le_add_right _ _, hlimit⟩
      exact Nat.le_trans hbytes (Nat.add_le_add_right hmin _)
    · simp only
      omega
  · intro hclean hstream reason
    simp only [decodeEnvelope, bind_ok, require_ok] at hdecoded
    obtain ⟨_, hsubject, -⟩ := hdecoded
    exact dead_letter_headers_total hclean hsubject hstream (dead_letter_id_header_value hid) reason

def transferSha256 : Sha256 := fun _ =>
  #v[0x77, 0xdd, 0xd4, 0x78, 0x33, 0xee, 0x73, 0xa5, 0x04, 0x82, 0x70, 0xca, 0xaf, 0x94, 0x4c, 0xcf,
    0xa9, 0x75, 0xc9, 0x5d, 0xe2, 0x68, 0x0d, 0xd7, 0x5e, 0xd3, 0xbd, 0x8a, 0x91, 0xb4, 0xf0, 0xc2]

theorem dead_letter_size_sound_sample :
    ∃ transferId, deadLetterId epochRfc transferSha256 "ORDERS" 1 unixEpoch.toOffset "event-1" =
        .ok transferId ∧
      ∀ bounds, deadLetterBounds (encodedHeaderBytes sampleOriginal + [91, 49, 93].length)
          (asBytes "orders.created").length (asBytes "ORDERS_DLQ").length = some bounds →
        ∀ reason headers, deadLetterHeaders sampleOriginal "orders.created" "ORDERS_DLQ" transferId
            reason = .ok headers → encodedHeaderBytes headers ≤ bounds.headers := by
  have hdecoded : decodeEnvelope epochRfc "orders.created" sampleOriginal [91, 49, 93] =
      .ok ⟨"event-1", "order.created", 2, unixEpoch.toOffset, [91, 49, 93]⟩ := by
    decide
  obtain ⟨transferId, hid⟩ : ∃ transferId, deadLetterId epochRfc transferSha256 "ORDERS" 1
      unixEpoch.toOffset "event-1" = .ok transferId := ⟨_, rfl⟩
  refine ⟨transferId, hid, ?_⟩
  intro bounds hbounds reason headers hheaders
  exact ((dead_letter_size_sound hdecoded hid).1 bounds hbounds reason headers hheaders).1

end MessagingTransfer
