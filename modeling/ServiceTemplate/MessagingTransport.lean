import ServiceTemplate.Splitting
import ServiceTemplate.MessagingDeadLetter

/-! The client's wire: the header block it writes, the message frame the broker sends back and
the reader of such a frame, down to the envelope the adapter decodes from it. -/
namespace MessagingTransport

open ByteFraming
open Utf8Text
open Splitting
open ExceptChain
open MessagingText
open MessagingWire
open MessagingDeadLetter

inductive ReadError where
  | invalidInput (reason : String)
  | invalidUtf8
  | invalidHeaderName
  | other (reason : String)
  | panicked
  deriving DecidableEq, Repr

def versionText : String := "NATS/1.0"

def fields (entries : List (String × List String)) : List (String × String) :=
  entries.flatMap fun entry => entry.2.map fun value => (entry.1, value)

def headerLine (field : String × String) : List Char :=
  field.1.toList ++ ':' :: ' ' :: field.2.toList

def endLine (line : List Char) : List Char := line ++ ['\r', '\n']

/-- `HeaderMap::to_bytes` over the entries in the map's iteration order. -/
def headerBlock (entries : List (String × List String)) : String :=
  String.ofList ((versionText.toList :: (fields entries).map headerLine ++ [[]]).flatMap endLine)

def findCrlf : Bytes → Option ℕ
  | [] => none
  | byte :: rest =>
    if byte = 13 ∧ rest.head? = some 10 then some 0 else (findCrlf rest).map (· + 1)

/-- `str::parse` of an unsigned number below the limit. -/
def parseUnsigned (limit : ℕ) (raw : List Char) : Option ℕ :=
  let digits := match raw with
    | '+' :: rest => rest
    | _ => raw
  if digits ≠ [] ∧ digits.all Char.isDigit then
    let value := Nat.ofDigitChars 10 digits 0
    if value < limit then some value else none
  else none

def parseStatus (raw : List Char) : Option ℕ :=
  match raw with
  | [a, b, c] =>
    if a.isDigit ∧ a ≠ '0' ∧ b.isDigit ∧ c.isDigit then some (Nat.ofDigitChars 10 raw 0) else none
  | _ => none

structure HmsgArgs where
  subject : String
  sid : ℕ
  reply : Option String
  headerLen : ℕ
  totalLen : ℕ
  deriving DecidableEq, Repr

def orInvalid {α : Type} (value : Option α) (reason : String) : Except ReadError α :=
  match value with
  | some a => .ok a
  | none => .error (.invalidInput reason)

def readArgs (subject sid : List Char) (reply : Option (List Char))
    (headerLen totalLen : List Char) : Except ReadError HmsgArgs := do
  let sid ← orInvalid (parseUnsigned (2 ^ 64) sid) "cannot parse sid argument after HMSG"
  let headerLen ← orInvalid (parseUnsigned (2 ^ 64) headerLen)
    "cannot parse the number of header bytes argument after HMSG"
  let totalLen ← orInvalid (parseUnsigned (2 ^ 64) totalLen)
    "cannot parse the number of bytes argument after HMSG"
  if totalLen < headerLen then
    .error (.invalidInput
      "number of header bytes was greater than or equal to the total number of bytes after HMSG")
  else
    return ⟨String.ofList subject, sid, reply.map String.ofList, headerLen, totalLen⟩

/-- Subject, subscription, optional reply subject and the two lengths. -/
def hmsgArgs (line : String) : Except ReadError HmsgArgs :=
  match words isWhitespace line.toList with
  | [subject, sid, reply, headerLen, totalLen] =>
    readArgs subject sid (some reply) headerLen totalLen
  | [subject, sid, headerLen, totalLen] => readArgs subject sid none headerLen totalLen
  | _ => .error (.invalidInput "invalid number of arguments after HMSG")

def validateHeaderName (name : List Char) : Bool :=
  name.all fun c => 0x21 ≤ c.toNat ∧ c.toNat ≤ 0x7e ∧ c ≠ ':'

def append (headers : HeaderMap) (name value : String) : HeaderMap :=
  if h : name ∈ headers.entries.map Prod.fst then
    { entries := headers.entries.map fun entry =>
        (entry.1, if entry.1 = name then entry.2 ++ [value] else entry.2)
      nodup := by
        have := headers.nodup
        simpa [Function.comp_def] using this }
  else
    { entries := headers.entries ++ [(name, [value])]
      nodup := by
        rw [List.map_append, List.nodup_append]
        refine ⟨headers.nodup, by simp, ?_⟩
        rintro a ha b hb rfl
        simp only [List.map_cons, List.map_nil, List.mem_singleton] at hb
        exact h (hb ▸ ha) }

def startsBlank (line : List Char) : Bool := line.head?.any isWhitespace

/-- Reads one header after the other. The lines after it that start with white space continue
its value. -/
def readHeaders (headers : HeaderMap) (pending : List (List Char)) : Except ReadError HeaderMap :=
  match pending with
  | [] => .ok headers
  | line :: rest =>
    if line = [] then readHeaders headers rest
    else
      match splitOnce ':' line with
      | none => .error (.invalidInput "no header version line found")
      | some (name, value) =>
        if validateHeaderName name then
          let value := trimStart isWhitespace value ++ (rest.takeWhile startsBlank).flatten
          let value := String.ofList (trimEnd isWhitespace value)
          -- Converting the text into a header value asserts that it has no line break.
          if validHeaderValue value then
            readHeaders (append headers (String.ofList name) value) (rest.dropWhile startsBlank)
          else .error .panicked
        else .error .invalidHeaderName
termination_by pending.length
decreasing_by
  · simp
  · exact Nat.lt_succ_of_le (List.dropWhile_sublist _).length_le

structure HeaderBlock where
  status : Option ℕ
  description : Option String
  headers : HeaderMap

def readStatus (suffix : List Char) : Except ReadError (Option ℕ × Option String) :=
  let (status, description) := match splitOnce ' ' suffix with
    | some (status, description) => (trim isWhitespace status, trim isWhitespace description)
    | none => (suffix, [])
  let description := if description = [] then none else some (String.ofList description)
  if status = [] then .ok (none, description)
  else
    match parseStatus status with
    | some code => .ok (some code, description)
    | none => .error (.other "could not parse status parameter")

def readHeaderRows (rows : List (List Char)) : Except ReadError HeaderBlock := do
  match rows with
  | [] => .error (.invalidInput "no header version line found")
  | versionLine :: rest =>
    if versionText.toList.isPrefixOf versionLine then
      let (status, description) ← readStatus
        (trim isWhitespace (versionLine.drop versionText.toList.length))
      let headers ← readHeaders HeaderMap.new rest
      return ⟨status, description, headers⟩
    else .error (.invalidInput "header version line does not begin with `NATS/1.0`")

def readHeaderBlock (header : Bytes) : Except ReadError HeaderBlock := do
  let text ← orInvalid (fromUtf8 header) "header isn't valid utf-8"
  readHeaderRows (lines '\r' '\n' text.toList)

structure Message where
  subject : String
  sid : ℕ
  reply : Option String
  headers : HeaderMap
  payload : Bytes
  status : Option ℕ
  description : Option String
  length : ℕ

inductive ServerOp where
  | message (m : Message)
  | other

/-- The connection's read buffer, bounded like every allocation of the language. -/
structure ReadBuffer where
  bytes : Bytes
  fits : bytes.length < 2 ^ 63

def hmsgText : String := "HMSG "

/-- A frame with headers. No operation is read while the frame is incomplete; a complete one is
taken out of the buffer. -/
def readHmsg (buffer : Bytes) (len : ℕ) : Except ReadError (Option (ServerOp × Bytes)) := do
  match fromUtf8 ((buffer.take len).drop 5) with
  | none => .error .invalidUtf8
  | some line =>
    let args ← hmsgArgs line
    if buffer.length < len + args.totalLen + 4 then return none
    else
      let body := buffer.drop (len + 2)
      let header := body.take args.headerLen
      let payload := (body.drop args.headerLen).take (args.totalLen - args.headerLen)
      let block ← readHeaderBlock header
      return some (.message {
        subject := args.subject
        sid := args.sid
        reply := args.reply
        headers := block.headers
        payload
        status := block.status
        description := block.description
        length := (args.reply.map fun reply => (asBytes reply).length).getD 0 +
          (asBytes args.subject).length + args.totalLen }, (body.drop args.totalLen).drop 2)

/-- `try_read_op`. The arms of the other operations start with other letters and stand for a
parameter. -/
def tryReadOp (others : Bytes → Except ReadError (Option (ServerOp × Bytes)))
    (buffer : ReadBuffer) : Except ReadError (Option (ServerOp × Bytes)) :=
  match findCrlf buffer.bytes with
  | none => .ok none
  | some len =>
    if (asBytes hmsgText).isPrefixOf buffer.bytes then readHmsg buffer.bytes len
    else others buffer.bytes

/-- A reply subject is one word. -/
structure ReplySubject where
  text : String
  nonempty : text ≠ ""
  visible : ∀ c ∈ text.toList, isWhitespace c = false

def replyArgument (reply : Option ReplySubject) : List Char :=
  match reply with
  | some reply => reply.text.toList ++ [' ']
  | none => []

def hmsgLine (subject : String) (sid : UInt64) (reply : Option ReplySubject)
    (headerLen totalLen : ℕ) : String :=
  String.ofList (subject.toList ++ ' ' :: (Nat.toDigits 10 sid.toNat ++ ' ' ::
    (replyArgument reply ++ (Nat.toDigits 10 headerLen ++ ' ' :: Nat.toDigits 10 totalLen))))

def hmsgFrame (subject : String) (sid : UInt64) (reply : Option ReplySubject)
    (header payload : Bytes) : Bytes :=
  asBytes hmsgText ++ asBytes (hmsgLine subject sid reply header.length
    (header.length + payload.length)) ++ 13 :: 10 :: (header ++ (payload ++ [13, 10]))

theorem digits_visible {n : ℕ} {c : Char} (hc : c ∈ Nat.toDigits 10 n) : isWhitespace c = false := by
  have hdigit := Char.isDigit_iff_toNat.mp (Nat.isDigit_of_mem_toDigits (by decide) (by decide) hc)
  have hzero : '0'.toNat = 48 := rfl
  have hnine : '9'.toNat = 57 := rfl
  exact not_whitespace_of_graphic (by omega) (by omega)

theorem words_digits (n : ℕ) : words isWhitespace (Nat.toDigits 10 n) = [Nat.toDigits 10 n] :=
  words_of_no_blank Nat.toDigits_ne_nil fun _ => digits_visible

theorem parse_unsigned_digits {limit n : ℕ} (h : n < limit) :
    parseUnsigned limit (Nat.toDigits 10 n) = some n := by
  have hall := JsonText.to_digits_all n
  have hvalue : Nat.ofDigitChars 10 (Nat.toDigits 10 n) 0 = n :=
    Nat.ofDigitChars_toDigits (by decide) (by decide)
  unfold parseUnsigned
  split
  · rename_i rest heq
    rw [heq] at hall
    simp at hall
  · simp [Nat.toDigits_ne_nil, hall, hvalue, h]

theorem words_reply (reply : Option ReplySubject) (rest : List Char) :
    words isWhitespace (replyArgument reply ++ rest) =
      reply.toList.map (fun reply => reply.text.toList) ++ words isWhitespace rest := by
  cases reply with
  | none => simp [replyArgument]
  | some reply =>
    have hne : reply.text.toList ≠ [] := by simpa using reply.nonempty
    have hword := words_of_no_blank hne reply.visible
    simp only [replyArgument, List.append_assoc, List.singleton_append]
    rw [words_append_cons is_whitespace_space, hword]
    simp

/-- The argument line has the words of the subject where one word is expected. -/
theorem hmsg_line_words (subject : String) (sid : UInt64) (reply : Option ReplySubject)
    (headerLen totalLen : ℕ) :
    words isWhitespace (hmsgLine subject sid reply headerLen totalLen).toList =
      words isWhitespace subject.toList ++ Nat.toDigits 10 sid.toNat ::
        (reply.toList.map (fun reply => reply.text.toList) ++
          [Nat.toDigits 10 headerLen, Nat.toDigits 10 totalLen]) := by
  rw [hmsgLine, String.toList_ofList, words_append_cons is_whitespace_space,
    words_append_cons is_whitespace_space, words_reply, words_append_cons is_whitespace_space,
    words_digits, words_digits, words_digits]
  simp

theorem valid_subject_no_return {subject : String} (h : validSubject subject = true) :
    '\r' ∉ subject.toList := by
  intro hmem
  exact subject_scan_bytes h _ (mem_as_bytes hmem (by decide)) (by decide)

theorem hmsg_line_no_return {subject : String} (h : validSubject subject = true) (sid : UInt64)
    (reply : Option ReplySubject) (headerLen totalLen : ℕ) :
    '\r' ∉ (hmsgLine subject sid reply headerLen totalLen).toList := by
  have hreturn : isWhitespace '\r' = true := by decide
  have hdigits : ∀ n, '\r' ∉ Nat.toDigits 10 n := by
    intro n hmem
    rw [digits_visible hmem] at hreturn
    cases hreturn
  have hreply : '\r' ∉ replyArgument reply := by
    cases reply with
    | none => simp [replyArgument]
    | some reply =>
      simp only [replyArgument, List.mem_append, not_or]
      constructor
      · intro hmem
        rw [reply.visible _ hmem] at hreturn
        cases hreturn
      · decide
  simp [hmsgLine, valid_subject_no_return h, hdigits, hreply]

theorem find_crlf_append {line : Bytes} (h : 13 ∉ line) (rest : Bytes) :
    findCrlf (line ++ 13 :: 10 :: rest) = some line.length := by
  induction line with
  | nil => simp [findCrlf]
  | cons byte line ih =>
    rw [List.mem_cons, not_or] at h
    simp [findCrlf, Ne.symm h.1, ih h.2]

/-- The reader finds the argument line of a frame and, once the line is read, exactly its header
block and payload. -/
theorem read_frame (others : Bytes → Except ReadError (Option (ServerOp × Bytes)))
    {subject : String} (h : validSubject subject = true) {sid : UInt64}
    {reply : Option ReplySubject} {header payload rest : Bytes} {buffer : ReadBuffer}
    (hbuffer : buffer.bytes = hmsgFrame subject sid reply header payload ++ rest) :
    ∃ len, tryReadOp others buffer = readHmsg buffer.bytes len ∧
      (buffer.bytes.take len).drop 5 =
        asBytes (hmsgLine subject sid reply header.length (header.length + payload.length)) ∧
      buffer.bytes.drop (len + 2) = header ++ (payload ++ 13 :: 10 :: rest) ∧
      len + (header.length + payload.length) + 4 ≤ buffer.bytes.length := by
  generalize hline : hmsgLine subject sid reply header.length (header.length + payload.length) =
    line at *
  have hhmsg : (asBytes hmsgText).length = 5 := by decide
  have hframe : buffer.bytes = (asBytes hmsgText ++ asBytes line) ++
      13 :: 10 :: (header ++ (payload ++ 13 :: 10 :: rest)) := by
    rw [hbuffer, hmsgFrame, hline]
    simp
  have hreturn : 13 ∉ asBytes hmsgText ++ asBytes line := by
    rw [List.mem_append, not_or]
    constructor
    · decide
    · intro hmem
      have hchar := ascii_char_of_byte (c := '\r') (by decide) hmem
      rw [← hline] at hchar
      exact hmsg_line_no_return h sid reply _ _ hchar
  refine ⟨(asBytes hmsgText ++ asBytes line).length, ?_, ?_, ?_, ?_⟩
  · have hstarts : (asBytes hmsgText).isPrefixOf buffer.bytes = true := by
      rw [List.isPrefixOf_iff_prefix, hframe, List.append_assoc]
      exact List.prefix_append _ _
    simp only [tryReadOp]
    rw [hframe, find_crlf_append hreturn, ← hframe]
    simp only [hstarts, if_true]
  · rw [hframe, List.take_left, ← hhmsg, List.drop_left]
  · rw [hframe, ← List.drop_drop, List.drop_left]
    rfl
  · rw [hframe]
    simp
    omega

theorem lines_end_line {rows : List (List Char)} (h : ∀ row ∈ rows, '\n' ∉ row) :
    lines '\r' '\n' (rows.flatMap endLine) = rows := by
  induction rows with
  | nil => exact lines_nil
  | cons row rows ih =>
    rw [List.flatMap_cons, endLine, List.append_assoc, List.cons_append, List.singleton_append,
      lines_append (h row (by simp)) (by decide), ih fun row hmem => h row (by simp [hmem])]

/-- A header whose name the client accepts and whose value has no line break. -/
structure Plain (field : String × String) : Prop where
  name : validateHeaderName field.1.toList = true
  value : validHeaderValue field.2 = true

theorem Plain.name_char {field : String × String} (h : Plain field) {c : Char}
    (hc : c ∈ field.1.toList) : 0x21 ≤ c.toNat ∧ c.toNat ≤ 0x7e ∧ c ≠ ':' := by
  have hname := h.name
  simp only [validateHeaderName, List.all_eq_true, decide_eq_true_eq] at hname
  exact hname c hc

theorem Plain.line_no_newline {field : String × String} (h : Plain field) :
    '\n' ∉ headerLine field := by
  have hvalue := h.value
  simp only [validHeaderValue, List.all_eq_true, decide_eq_true_eq] at hvalue
  simp only [headerLine, List.mem_append, List.mem_cons, not_or]
  refine ⟨?_, by decide, by decide, ?_⟩
  · intro hmem
    exact absurd (h.name_char hmem).1 (by decide)
  · intro hmem
    exact (hvalue _ hmem).2 rfl

theorem Plain.not_starts_blank {field : String × String} (h : Plain field) :
    startsBlank (headerLine field) = false := by
  simp only [startsBlank, headerLine]
  cases hname : field.1.toList with
  | nil => exact not_whitespace_of_graphic (c := ':') (by decide) (by decide)
  | cons c cs =>
    obtain ⟨hlow, hhigh, -⟩ := h.name_char (c := c) (by simp [hname])
    simp [not_whitespace_of_graphic hlow hhigh]

theorem Plain.split {field : String × String} (h : Plain field) :
    splitOnce ':' (headerLine field) = some (field.1.toList, ' ' :: field.2.toList) := by
  apply split_once_append
  intro hmem
  exact (h.name_char hmem).2.2 rfl

/-- The value as it is read: without the white space at its edges. -/
def received (value : String) : String := String.ofList (trim isWhitespace value.toList)

theorem Plain.received {field : String × String} (h : Plain field) :
    validHeaderValue (received field.2) = true := by
  have hvalue := h.value
  simp only [validHeaderValue, List.all_eq_true] at hvalue ⊢
  intro c hc
  rw [MessagingTransport.received, String.toList_ofList] at hc
  exact hvalue c ((trim_within isWhitespace field.2.toList).subset hc)

theorem read_headers_cons {headers : HeaderMap} {field : String × String} (h : Plain field)
    {rest : List (List Char)} (hrest : ∀ line ∈ rest.head?, startsBlank line = false) :
    readHeaders headers (headerLine field :: rest) =
      readHeaders (append headers field.1 (received field.2)) rest := by
  have hne : headerLine field ≠ [] := by simp [headerLine]
  have htake : rest.takeWhile startsBlank = [] := by
    cases rest with
    | nil => rfl
    | cons line rest => simp [hrest line rfl]
  have hdrop : rest.dropWhile startsBlank = rest := by
    cases rest with
    | nil => rfl
    | cons line rest => simp [hrest line rfl]
  have hvalue : String.ofList (trimEnd isWhitespace (trimStart isWhitespace
      (' ' :: field.2.toList) ++ (rest.takeWhile startsBlank).flatten)) = received field.2 := by
    rw [htake, List.flatten_nil, List.append_nil]
    exact congrArg _ (trim_cons_blank is_whitespace_space)
  rw [readHeaders, if_neg hne, h.split]
  simp only [h.name, if_true, hvalue, h.received, hdrop, String.ofList_toList]

def receivedEntry (field : String × String) : String × List String :=
  (field.1, [received field.2])

theorem append_new {headers : HeaderMap} {name : String}
    (h : name ∉ headers.entries.map Prod.fst) (value : String) :
    (append headers name value).entries = headers.entries ++ [(name, [value])] := by
  simp only [append, h, dif_neg, not_false_eq_true]

theorem read_headers_fields (headers : HeaderMap) {pairs : List (String × String)}
    (hplain : ∀ field ∈ pairs, Plain field)
    (hnodup : (headers.entries.map Prod.fst ++ pairs.map Prod.fst).Nodup) :
    ∃ read, readHeaders headers (pairs.map headerLine ++ [[]]) = .ok read ∧
      read.entries = headers.entries ++ pairs.map receivedEntry := by
  induction pairs generalizing headers with
  | nil =>
    refine ⟨headers, ?_, by simp⟩
    simp [readHeaders]
  | cons field pairs ih =>
    have hnew : field.1 ∉ headers.entries.map Prod.fst := by
      intro hmem
      exact (List.nodup_append.mp hnodup).2.2 _ hmem _ (by simp) rfl
    have happend := append_new hnew (received field.2)
    have hnext : ∀ line ∈ (pairs.map headerLine ++ [[]]).head?, startsBlank line = false := by
      cases pairs with
      | nil => simp [startsBlank]
      | cons next pairs => simpa using (hplain next (by simp)).not_starts_blank
    obtain ⟨read, hread, hentries⟩ := ih (append headers field.1 (received field.2))
      (fun field hmem => hplain field (by simp [hmem])) (by
        rw [happend]
        simpa using hnodup)
    refine ⟨read, ?_, ?_⟩
    · rw [List.map_cons, List.cons_append, read_headers_cons (hplain field (by simp)) hnext, hread]
    · rw [hentries, happend]
      simp [receivedEntry]

theorem read_header_block {entries : List (String × List String)}
    (hplain : ∀ field ∈ fields entries, Plain field)
    (hnodup : ((fields entries).map Prod.fst).Nodup) :
    ∃ read, readHeaderBlock (asBytes (headerBlock entries)) = .ok ⟨none, none, read⟩ ∧
      read.entries = (fields entries).map receivedEntry := by
  obtain ⟨read, hread, hentries⟩ := read_headers_fields HeaderMap.new hplain hnodup
  refine ⟨read, ?_, hentries⟩
  have hrows : ∀ row ∈ versionText.toList :: (fields entries).map headerLine ++ [[]],
      '\n' ∉ row := by
    intro row hrow
    rcases List.mem_append.mp hrow with hrow | hrow
    · rcases List.mem_cons.mp hrow with rfl | hrow
      · decide
      · obtain ⟨field, hfield, rfl⟩ := List.mem_map.mp hrow
        exact (hplain field hfield).line_no_newline
    · simp [List.mem_singleton.mp hrow]
  have hstatus : readStatus (trim isWhitespace
      (versionText.toList.drop versionText.toList.length)) = .ok (none, none) := by
    rw [List.drop_length]
    rfl
  have hversion : versionText.toList.isPrefixOf versionText.toList = true :=
    List.isPrefixOf_iff_prefix.mpr (List.prefix_refl _)
  have hblock : readHeaderBlock (asBytes (headerBlock entries)) =
      readHeaderRows (lines '\r' '\n' (headerBlock entries).toList) := by
    simp only [readHeaderBlock, from_utf8_as_bytes, orInvalid, bind, Except.bind]
  rw [hblock, headerBlock, String.toList_ofList, lines_end_line hrows]
  simp only [readHeaderRows, List.cons_append, hversion, if_true, hstatus, hread, bind,
    Except.bind, pure, Except.pure]

/-- What the adapter decodes from the frame at the head of the buffer. -/
def receive (rfc : Rfc3339) (others : Bytes → Except ReadError (Option (ServerOp × Bytes)))
    (buffer : ReadBuffer) : Option InboundEnvelope :=
  match tryReadOp others buffer with
  | .ok (some (.message m, _)) => (decodeEnvelope rfc m.subject m.headers m.payload).toOption
  | _ => none

def envelopeOf (e : PreparedEvent) : InboundEnvelope :=
  ⟨e.messageId, e.eventType, e.schemaVersion, e.occurredAt, e.payload⟩

/-- The buffer starts with a frame the broker can return for the event: any subscription, any
reply subject, the headers in any order, whatever follows. -/
def Framed (e : PreparedEvent) (buffer : ReadBuffer) : Prop :=
  ∃ headers order sid reply rest, encodePrepared e = .ok headers ∧
    List.Perm order headers.entries ∧
    buffer.bytes = hmsgFrame e.subject sid reply (asBytes (headerBlock order)) e.payload ++ rest

/-- The event can be written and is decoded from every frame of it. -/
def Survives (rfc : Rfc3339) (e : PreparedEvent) : Prop :=
  (∃ headers, encodePrepared e = .ok headers) ∧
    ∀ others buffer, Framed e buffer → receive rfc others buffer = some (envelopeOf e)

/-- The subject is one word up to the white space around it, and the two identity texts have
none at their edges. -/
structure Carried (e : PreparedEvent) : Prop where
  subject : ∃ word, words isWhitespace e.subject.toList = [word] ∧
    validSubject (String.ofList word) = true
  messageId : Trimmed isWhitespace e.messageId.toList
  eventType : Trimmed isWhitespace e.eventType.toList

/-- Allocations of the language are below 2^63 bytes; so is a frame of the event. -/
def Fits (e : PreparedEvent) : Prop :=
  (asBytes e.subject).length + e.payload.length + headerLimitBytes + 128 < 2 ^ 63

section Carriage

variable {rfc : Rfc3339} {e : PreparedEvent} {headers : HeaderMap}
  {order : List (String × List String)}

theorem encode_prepared_entries (h : encodePrepared e = .ok headers) :
    headers.entries = (identityHeaders e).reverse.map fun field => (field.1, [field.2]) := by
  simp only [encodePrepared, bind_ok, HeaderMap.insert_ok] at h
  obtain ⟨_, ⟨-, rfl⟩, _, ⟨-, rfl⟩, _, ⟨-, rfl⟩, _, ⟨-, rfl⟩, _, ⟨-, rfl⟩, _, -, h⟩ := h
  cases h
  rfl

theorem fields_perm (h : encodePrepared e = .ok headers) (horder : order.Perm headers.entries) :
    (fields order).Perm (identityHeaders e) := by
  have hfields : fields headers.entries = (identityHeaders e).reverse := by
    rw [encode_prepared_entries h]
    rfl
  have hperm : (fields order).Perm (fields headers.entries) :=
    List.Perm.flatMap_right _ horder
  rw [hfields] at hperm
  exact hperm.trans (List.reverse_perm _)

theorem identity_headers_plain (law : rfc.Lawful) (h : Sound rfc e) :
    ∀ field ∈ identityHeaders e, Plain field := by
  have hplain : ∀ name value, validateHeaderName name.toList = true →
      validText value = some true → Plain (name, value) := fun name value hname hvalue =>
    ⟨hname, valid_text_header_value hvalue⟩
  simp only [identityHeaders, List.forall_mem_cons]
  exact ⟨hplain _ _ (by decide) h.messageId, hplain _ _ (by decide) h.eventType,
    hplain _ _ (by decide) (valid_text_schema _),
    hplain _ _ (by decide) (format_timestamp_printable law h.createdAt),
    hplain _ _ (by decide) h.publicationId, by simp⟩

theorem identity_headers_nodup : ((identityHeaders e).map Prod.fst).Nodup := by
  simp only [identityHeaders, List.map_cons, List.map_nil]
  decide

theorem get_of_mem {read : HeaderMap} {name : String} {values : List String}
    (h : (name, values) ∈ read.entries) : read.get name = values.head? := by
  have hlookup : read.entries.lookup name = some values := by
    rw [List.lookup_eq_some_iff]
    obtain ⟨front, back, hsplit⟩ := List.append_of_mem h
    refine ⟨front, back, hsplit, ?_⟩
    intro entry hentry
    have hnodup := read.nodup
    rw [hsplit, List.map_append, List.nodup_append] at hnodup
    have hne := hnodup.2.2 entry.1 (List.mem_map_of_mem hentry) name (by simp)
    simpa using Ne.symm hne
  rw [HeaderMap.get, hlookup, Option.bind_some]

def fieldBytes (field : String × String) : ℕ :=
  (asBytes field.1).length + 2 + (asBytes field.2).length + 2

theorem field_bytes_sum (entries : List (String × List String)) :
    ((fields entries).map fieldBytes).sum = (entries.map entryBytes).sum := by
  induction entries with
  | nil => rfl
  | cons entry entries ih =>
    have hentry : ((entry.2.map fun value => (entry.1, value)).map fieldBytes).sum =
        entryBytes entry := by
      rw [List.map_map]
      rfl
    have hcons : fields (entry :: entries) =
        (entry.2.map fun value => (entry.1, value)) ++ fields entries := rfl
    rw [hcons, List.map_append, List.sum_append, hentry, ih, List.map_cons, List.sum_cons]

theorem end_lines_length (rows : List (List Char)) :
    (asBytes (String.ofList (rows.flatMap endLine))).length =
      (rows.map fun row => (asBytes (String.ofList row)).length + 2).sum := by
  induction rows with
  | nil => simp [as_bytes_flat_map]
  | cons row rows ih =>
    have hend : (asBytes (String.ofList ['\r', '\n'])).length = 2 := by decide
    rw [List.flatMap_cons, endLine, String.ofList_append, String.ofList_append, as_bytes_append,
      as_bytes_append, List.length_append, List.length_append, ih, hend, List.map_cons,
      List.sum_cons]

theorem header_line_length (field : String × String) :
    (asBytes (String.ofList (headerLine field))).length + 2 = fieldBytes field := by
  have hcolon : (asBytes (String.ofList [':', ' '])).length = 2 := by decide
  have hline : headerLine field = field.1.toList ++ ([':', ' '] ++ field.2.toList) := rfl
  rw [hline, String.ofList_append, String.ofList_append, as_bytes_append, as_bytes_append,
    List.length_append, List.length_append, hcolon, String.ofList_toList, String.ofList_toList,
    fieldBytes]
  omega

theorem header_block_length (entries : List (String × List String)) :
    (asBytes (headerBlock entries)).length = (entries.map entryBytes).sum + 12 := by
  have hversion : (asBytes versionText).length = 8 := by decide
  have hlines : ((fields entries).map headerLine).map
      (fun row => (asBytes (String.ofList row)).length + 2) = (fields entries).map fieldBytes := by
    rw [List.map_map]
    exact List.map_congr_left fun field _ => header_line_length field
  rw [headerBlock, end_lines_length, List.map_append, List.sum_append, List.map_cons,
    List.sum_cons, hlines, field_bytes_sum]
  have hempty : (asBytes (String.ofList [])).length = 0 := by decide
  simp only [String.ofList_toList, hversion, hempty, List.map_cons, List.map_nil, List.sum_cons,
    List.sum_nil]
  omega

theorem received_length (value : String) :
    (asBytes (received value)).length ≤ (asBytes value).length := by
  obtain ⟨front, back, hsplit⟩ := trim_within isWhitespace value.toList
  rw [as_bytes_flat_map value, ← hsplit, as_bytes_flat_map, received, String.toList_ofList]
  simp only [List.flatMap_append, List.length_append]
  omega

theorem received_bytes_le {read : HeaderMap}
    (hread : read.entries = (fields order).map receivedEntry) :
    read.bytes ≤ (order.map entryBytes).sum := by
  rw [HeaderMap.bytes, hread, ← field_bytes_sum order, List.map_map]
  apply List.sum_le_sum
  intro field _
  have := received_length field.2
  simp only [Function.comp_apply, receivedEntry, entryBytes, fieldBytes, List.map_cons,
    List.map_nil, List.sum_cons, List.sum_nil]
  omega

theorem received_visible {value : String} (h : Trimmed isWhitespace value.toList) :
    received value = value := by
  rw [received, trim_eq_self.mpr h, String.ofList_toList]

theorem trimmed_of_received {value : String} (h : received value = value) :
    Trimmed isWhitespace value.toList := by
  apply trim_eq_self.mp
  have hlist := congrArg String.toList h
  rwa [received, String.toList_ofList] at hlist

/-- The reader's header map holds each header of the event under its name, trimmed. -/
theorem read_event_headers (law : rfc.Lawful) (hs : Sound rfc e)
    (h : encodePrepared e = .ok headers) (horder : order.Perm headers.entries) :
    ∃ read, readHeaderBlock (asBytes (headerBlock order)) = .ok ⟨none, none, read⟩ ∧
      (∀ field ∈ identityHeaders e, read.get field.1 = some (received field.2)) ∧
      read.bytes ≤ headers.bytes := by
  have hperm := fields_perm h horder
  obtain ⟨read, hread, hentries⟩ := read_header_block
    (fun field hfield => identity_headers_plain law hs field (hperm.mem_iff.mp hfield))
    ((hperm.map Prod.fst).nodup_iff.mpr identity_headers_nodup)
  refine ⟨read, hread, ?_, ?_⟩
  · intro field hfield
    have hmem : receivedEntry field ∈ read.entries := by
      rw [hentries]
      exact List.mem_map_of_mem (hperm.mem_iff.mpr hfield)
    exact get_of_mem hmem
  · calc
      read.bytes ≤ (order.map entryBytes).sum := received_bytes_le hentries
      _ = headers.bytes := (horder.map entryBytes).sum_eq

/-- A line with one word for the subject is read as it was written. -/
theorem hmsg_args_one_word {word : List Char} (hword : words isWhitespace e.subject.toList = [word])
    (sid : UInt64) (reply : Option ReplySubject) {headerLen totalLen : ℕ}
    (hle : headerLen ≤ totalLen) (hlt : totalLen < 2 ^ 64) :
    hmsgArgs (hmsgLine e.subject sid reply headerLen totalLen) =
      .ok ⟨String.ofList word, sid.toNat, reply.map ReplySubject.text, headerLen, totalLen⟩ := by
  have hwords := hmsg_line_words e.subject sid reply headerLen totalLen
  rw [hword] at hwords
  have hargs : ∀ raw : Option (List Char), readArgs word (Nat.toDigits 10 sid.toNat) raw
      (Nat.toDigits 10 headerLen) (Nat.toDigits 10 totalLen) =
        .ok ⟨String.ofList word, sid.toNat, raw.map String.ofList, headerLen, totalLen⟩ := by
    intro raw
    simp only [readArgs, parse_unsigned_digits sid.toNat_lt, parse_unsigned_digits hlt,
      parse_unsigned_digits (Nat.lt_of_le_of_lt hle hlt), orInvalid, bind, Except.bind,
      Nat.not_lt.mpr hle, if_false, pure, Except.pure]
  cases reply with
  | none =>
    simp only [hmsgArgs, hwords, Option.toList_none, List.map_nil, List.nil_append,
      List.singleton_append, hargs]
    rfl
  | some reply =>
    simp only [hmsgArgs, hwords, Option.toList_some, List.map_cons, List.map_nil,
      List.singleton_append, hargs, Option.map_some, String.ofList_toList]

/-- Any other number of words is refused, with or without the reply subject. -/
theorem hmsg_args_count {subject : String} {sid : UInt64} {reply : Option ReplySubject}
    {headerLen totalLen : ℕ} {args : HmsgArgs}
    (h : hmsgArgs (hmsgLine subject sid reply headerLen totalLen) = .ok args) :
    (words isWhitespace subject.toList).length + reply.toList.length = 1 ∨
      (words isWhitespace subject.toList).length + reply.toList.length = 2 := by
  have hlength := congrArg List.length (hmsg_line_words subject sid reply headerLen totalLen)
  simp only [List.length_append, List.length_cons, List.length_map, List.length_nil] at hlength
  simp only [hmsgArgs] at h
  split at h
  · rename_i hwords
    rw [hwords] at hlength
    simp only [List.length_cons, List.length_nil] at hlength
    omega
  · rename_i hwords
    rw [hwords] at hlength
    simp only [List.length_cons, List.length_nil] at hlength
    omega
  · cases h

section Frames

variable {others : Bytes → Except ReadError (Option (ServerOp × Bytes))} {sid : UInt64}
  {reply : Option ReplySubject} {rest : Bytes} {buffer : ReadBuffer}

theorem receive_one_word (hs : Sound rfc e) {word : List Char}
    (hword : words isWhitespace e.subject.toList = [word]) {read : HeaderMap}
    (hread : readHeaderBlock (asBytes (headerBlock order)) = .ok ⟨none, none, read⟩)
    (hbuffer : buffer.bytes =
      hmsgFrame e.subject sid reply (asBytes (headerBlock order)) e.payload ++ rest) :
    receive rfc others buffer =
      (decodeEnvelope rfc (String.ofList word) read e.payload).toOption := by
  obtain ⟨len, hop, hline, hbody, hlen⟩ := read_frame others hs.subject hbuffer
  generalize asBytes (headerBlock order) = header at *
  have htotal : header.length + e.payload.length < 2 ^ 64 := by
    have := buffer.fits
    omega
  have hargs := hmsg_args_one_word hword sid reply (Nat.le_add_right _ _) htotal
  have hcomplete : ¬ buffer.bytes.length < len + (header.length + e.payload.length) + 4 := by omega
  have hpayload : (e.payload ++ 13 :: 10 :: rest).take
      (header.length + e.payload.length - header.length) = e.payload := by
    rw [Nat.add_sub_cancel_left, List.take_left]
  simp only [receive, hop, readHmsg, hline, from_utf8_as_bytes, hargs, hbody, List.take_left,
    List.drop_left, hpayload, hread, hcomplete, if_false, bind, Except.bind, pure, Except.pure]

theorem receive_count (hs : Sound rfc e) {header : Bytes} {envelope : InboundEnvelope}
    (hbuffer : buffer.bytes = hmsgFrame e.subject sid reply header e.payload ++ rest)
    (h : receive rfc others buffer = some envelope) :
    (words isWhitespace e.subject.toList).length + reply.toList.length = 1 ∨
      (words isWhitespace e.subject.toList).length + reply.toList.length = 2 := by
  obtain ⟨len, hop, hline, -, -⟩ := read_frame others hs.subject hbuffer
  cases hargs : hmsgArgs (hmsgLine e.subject sid reply header.length
      (header.length + e.payload.length)) with
  | ok args => exact hmsg_args_count hargs
  | error refused =>
    simp [receive, hop, readHmsg, hline, hargs, bind, Except.bind] at h

end Frames

/-- From a frame whose subject is one word, the adapter decodes the trimmed headers. -/
theorem receive_framed (law : rfc.Lawful) (hs : Sound rfc e) {word : List Char}
    (hword : words isWhitespace e.subject.toList = [word]) {buffer : ReadBuffer}
    (hframed : Framed e buffer) :
    ∃ read, (∀ field ∈ identityHeaders e, read.get field.1 = some (received field.2)) ∧
      read.bytes + 12 ≤ headerLimitBytes ∧ ∀ others, receive rfc others buffer =
        (decodeEnvelope rfc (String.ofList word) read e.payload).toOption := by
  obtain ⟨headers, order, sid, reply, rest, hencode, horder, hbuffer⟩ := hframed
  obtain ⟨headers', hencode', -, hbytes⟩ := encode_prepared_sound law hs
  obtain rfl : headers = headers' := Except.ok.inj (hencode.symm.trans hencode')
  obtain ⟨read, hread, hget, hle⟩ := read_event_headers law hs hencode horder
  exact ⟨read, hget, by omega, fun _ => receive_one_word hs hword hread hbuffer⟩

/-- RFC 3339 texts hold no white space. -/
def Compact (rfc : Rfc3339) : Prop :=
  ∀ t text, rfc.format t = some text → ∀ c ∈ text.toList, isWhitespace c = false

theorem received_schema (version : UInt16) : received (schema version) = schema version := by
  apply received_visible
  apply trimmed_of_no_blank
  intro c hc
  have hlist : (schema version).toList = 'v' :: Nat.toDigits 10 version.toNat := by
    simp [schema]
  rw [hlist] at hc
  rcases List.mem_cons.mp hc with rfl | hc
  · decide
  · exact digits_visible hc

theorem received_created_at (compact : Compact rfc) (hs : Sound rfc e) :
    received e.createdAt = e.createdAt := by
  obtain ⟨t, -, ht⟩ := Option.bind_eq_some_iff.mp (format_timestamp_ok.mp hs.createdAt)
  exact received_visible (trimmed_of_no_blank (compact t _ ht))

/-- What the reader's header map holds for an event whose identity texts are trimmed. -/
theorem identified_of_trimmed (compact : Compact rfc) (hs : Sound rfc e)
    (hpublication : e.publicationId = e.messageId) (hid : Trimmed isWhitespace e.messageId.toList)
    (htype : Trimmed isWhitespace e.eventType.toList) {read : HeaderMap}
    (hget : ∀ field ∈ identityHeaders e, read.get field.1 = some (received field.2)) :
    Identified e read := by
  have hkept : ∀ field ∈ identityHeaders e, received field.2 = field.2 := by
    simp only [identityHeaders, List.forall_mem_cons]
    exact ⟨received_visible hid, received_visible htype, received_schema _,
      received_created_at compact hs, by rw [hpublication]; exact received_visible hid, by simp⟩
  intro field hfield
  rw [hget field hfield, hkept field hfield]

theorem carried_received (law : rfc.Lawful) (compact : Compact rfc) (hs : Sound rfc e)
    (hpublication : e.publicationId = e.messageId) (hcarried : Carried e) : Survives rfc e := by
  obtain ⟨headers, hencode, -, -⟩ := encode_prepared_sound law hs
  refine ⟨⟨headers, hencode⟩, ?_⟩
  intro others buffer hframed
  obtain ⟨word, hword, hvalid⟩ := hcarried.subject
  obtain ⟨read, hget, hbytes, hreceive⟩ := receive_framed law hs hword hframed
  have hidentified := identified_of_trimmed compact hs hpublication hcarried.messageId
    hcarried.eventType hget
  have hsound : Sound rfc { e with subject := String.ofList word } := { hs with subject := hvalid }
  rw [hreceive]
  exact congrArg Except.toOption (decode_sound law hsound hidentified hbytes e.payload)

def shortReply : ReplySubject := ⟨"r", by decide, by simp; decide⟩

theorem digits_length {n : ℕ} (h : n < 2 ^ 64) : (Nat.toDigits 10 n).length ≤ 20 :=
  (Nat.length_toDigits_le_iff (by decide) (by decide)).mpr (Nat.lt_trans h (by decide))

theorem ascii_length {cs : List Char} (h : ∀ c ∈ cs, c.toNat < 128) :
    (asBytes (String.ofList cs)).length = cs.length := by
  rw [as_bytes_ascii (by simpa using h)]
  simp

theorem digits_ascii {n : ℕ} {c : Char} (hc : c ∈ Nat.toDigits 10 n) : c.toNat < 128 := by
  have hdigit := Char.isDigit_iff_toNat.mp (Nat.isDigit_of_mem_toDigits (by decide) (by decide) hc)
  have hnine : '9'.toNat = 57 := rfl
  omega

theorem hmsg_line_length (subject : String) (sid : UInt64) {reply : Option ReplySubject}
    (hreply : ∀ r ∈ reply, r = shortReply) {headerLen totalLen : ℕ} (hheader : headerLen < 2 ^ 64)
    (htotal : totalLen < 2 ^ 64) :
    (asBytes (hmsgLine subject sid reply headerLen totalLen)).length ≤
      (asBytes subject).length + 65 := by
  have hargument : ∃ cs : List Char, replyArgument reply = cs ∧ cs.length ≤ 2 ∧
      ∀ c ∈ cs, c.toNat < 128 := by
    refine ⟨_, rfl, ?_⟩
    cases reply with
    | none => simp [replyArgument]
    | some r =>
      rw [hreply r rfl]
      simp only [replyArgument, shortReply]
      decide
  obtain ⟨cs, hcs, hlen, hascii⟩ := hargument
  have htail : ∀ c ∈ ' ' :: (Nat.toDigits 10 sid.toNat ++ ' ' ::
      (cs ++ (Nat.toDigits 10 headerLen ++ ' ' :: Nat.toDigits 10 totalLen))), c.toNat < 128 := by
    have hblank : ' '.toNat < 128 := by decide
    intro c hc
    simp only [List.mem_cons, List.mem_append] at hc
    rcases hc with rfl | hc | rfl | hc | hc | rfl | hc
    · exact hblank
    · exact digits_ascii hc
    · exact hblank
    · exact hascii c hc
    · exact digits_ascii hc
    · exact hblank
    · exact digits_ascii hc
  have hsid := digits_length sid.toNat_lt
  have hheaderDigits := digits_length hheader
  have htotalDigits := digits_length htotal
  rw [hmsgLine, hcs, String.ofList_append, String.ofList_toList, as_bytes_append,
    List.length_append, ascii_length htail]
  simp only [List.length_cons, List.length_append]
  omega

theorem frame_fits (hfits : Fits e) (hblock : (asBytes (headerBlock order)).length ≤ headerLimitBytes)
    {reply : Option ReplySubject} (hreply : ∀ r ∈ reply, r = shortReply) :
    (hmsgFrame e.subject 0 reply (asBytes (headerBlock order)) e.payload).length < 2 ^ 63 := by
  have hhmsg : (asBytes hmsgText).length = 5 := by decide
  generalize asBytes (headerBlock order) = header at *
  simp only [Fits] at hfits
  have hheader : header.length < 2 ^ 64 := by omega
  have htotal : header.length + e.payload.length < 2 ^ 64 := by omega
  have hline := hmsg_line_length e.subject 0 hreply hheader htotal
  simp only [hmsgFrame, List.length_append, List.length_cons, List.length_nil, hhmsg]
  omega

theorem exists_frame (hfits : Fits e)
    (hblock : (asBytes (headerBlock order)).length ≤ headerLimitBytes)
    (reply : Option ReplySubject) (hreply : ∀ r ∈ reply, r = shortReply) :
    ∃ buffer : ReadBuffer, buffer.bytes =
      hmsgFrame e.subject 0 reply (asBytes (headerBlock order)) e.payload ++ [] :=
  ⟨⟨_, frame_fits hfits hblock hreply⟩, (List.append_nil _).symm⟩

/-- An event that survives every frame is carried: the frames with and without a reply subject
leave room for one word only, and the decoded texts are the trimmed ones. -/
theorem survives_carried (law : rfc.Lawful) (hs : Sound rfc e) (hfits : Fits e)
    (h : Survives rfc e) : Carried e := by
  obtain ⟨headers, hencode, -, hbytes⟩ := encode_prepared_sound law hs
  have hblock : (asBytes (headerBlock headers.entries)).length ≤ headerLimitBytes := by
    rw [header_block_length]
    exact hbytes
  obtain ⟨plain, hplain⟩ := exists_frame hfits hblock none (by simp)
  obtain ⟨replied, hreplied⟩ := exists_frame hfits hblock (some shortReply) (by simp)
  let others : Bytes → Except ReadError (Option (ServerOp × Bytes)) := fun _ => .ok none
  have hframed : Framed e plain := ⟨headers, _, 0, none, [], hencode, List.Perm.refl _, hplain⟩
  have hreceived := h.2 others plain hframed
  have hcount := receive_count hs hplain hreceived
  have hcount' := receive_count hs hreplied (h.2 others replied
    ⟨headers, _, 0, some shortReply, [], hencode, List.Perm.refl _, hreplied⟩)
  simp only [Option.toList_none, Option.toList_some, List.length_nil, List.length_singleton]
    at hcount hcount'
  obtain ⟨word, hword⟩ := List.length_eq_one_iff.mp
    (show (words isWhitespace e.subject.toList).length = 1 by omega)
  obtain ⟨read, hget, -, hreceive⟩ := receive_framed law hs hword hframed
  rw [hreceive] at hreceived
  have hdecode : decodeEnvelope rfc (String.ofList word) read e.payload = .ok (envelopeOf e) := by
    generalize decodeEnvelope rfc (String.ofList word) read e.payload = decoded at hreceived
    cases decoded with
    | ok envelope => exact congrArg _ (Option.some.inj hreceived)
    | error refused => cases hreceived
  simp only [decodeEnvelope, bind_ok, require_ok, required_value_ok, scan_found,
    hget (messageIdName, e.messageId) (by simp [identityHeaders]),
    hget (eventTypeName, e.eventType) (by simp [identityHeaders])] at hdecode
  obtain ⟨_, hvalid, _, -, id, ⟨hid, -⟩, kind, ⟨hkind, -⟩, _, -, _, -, _, -, _, -, _, -, hout⟩ :=
    hdecode
  have hsame := Except.ok.inj hout
  have hidEq : id = e.messageId := congrArg InboundEnvelope.messageId hsame
  have hkindEq : kind = e.eventType := congrArg InboundEnvelope.eventType hsame
  exact {
    subject := ⟨word, hword, hvalid⟩
    messageId := trimmed_of_received ((Option.some.inj hid).trans hidEq)
    eventType := trimmed_of_received ((Option.some.inj hkind).trans hkindEq) }

theorem prepare_publication_id {kind : EventPayload} {subject : String} {occurrence : Event}
    {limit : ℕ} (h : prepare rfc kind subject occurrence limit = .ok e) :
    e.publicationId = e.messageId := by
  simp only [prepare, bind_ok] at h
  obtain ⟨_, -, _, -, _, -, _, -, _, -, _, -, h⟩ := h
  cases h
  rfl

end Carriage

/-- Exactly the carried events survive the transport, and two carried events are never taken for
one another. -/
theorem survives_transport_iff_carried {rfc : Rfc3339} (law : rfc.Lawful) (compact : Compact rfc) :
    (∀ kind subject occurrence limit e, prepare rfc kind subject occurrence limit = .ok e → Fits e →
      (Survives rfc e ↔ Carried e)) ∧
    ∀ kind subject occurrence limit e kind' subject' occurrence' limit' e' others buffer buffer',
      prepare rfc kind subject occurrence limit = .ok e →
      prepare rfc kind' subject' occurrence' limit' = .ok e' → Carried e → Carried e' →
      Framed e buffer → Framed e' buffer' → e.messageId ≠ e'.messageId →
      (receive rfc others buffer).map InboundEnvelope.messageId ≠
        (receive rfc others buffer').map InboundEnvelope.messageId := by
  constructor
  · intro kind subject occurrence limit e hprepare hfits
    have hs := prepare_sound hprepare
    constructor
    · exact survives_carried law hs hfits
    · exact carried_received law compact hs (prepare_publication_id hprepare)
  · intro kind subject occurrence limit e kind' subject' occurrence' limit' e' others buffer buffer'
      hprepare hprepare' hcarried hcarried' hframed hframed' hne hsame
    have hreceived := (carried_received law compact (prepare_sound hprepare)
      (prepare_publication_id hprepare) hcarried).2 others buffer hframed
    have hreceived' := (carried_received law compact (prepare_sound hprepare')
      (prepare_publication_id hprepare') hcarried').2 others buffer' hframed'
    rw [hreceived, hreceived'] at hsame
    exact hne (Option.some.inj hsame)

theorem epoch_rfc_compact : Compact epochRfc := by
  intro t text h
  simp only [epochRfc, Option.ite_none_right_eq_some, Option.some.injEq] at h
  rw [← h.2]
  have hall : epochText.toList.all (fun c => !isWhitespace c) = true := by decide
  intro c hc
  simpa using List.all_eq_true.mp hall c hc

theorem sample_prepared : prepare epochRfc orderCreated "orders.created"
    ⟨"event-1", unixEpoch, [[91], [49], [93]], false⟩ 1024 = .ok sampleEvent := by rfl

theorem sample_fits : Fits sampleEvent := by
  have hsubject : (asBytes sampleEvent.subject).length = 14 := by decide
  have hpayload : sampleEvent.payload.length = 3 := rfl
  simp [Fits, hsubject, hpayload, headerLimitBytes]

theorem survives_transport_sample : Survives epochRfc sampleEvent := by
  apply ((survives_transport_iff_carried epoch_rfc_lawful epoch_rfc_compact).1 _ _ _ _ _
    sample_prepared sample_fits).mpr
  exact {
    subject := ⟨"orders.created".toList, by decide, by decide⟩
    messageId := by decide
    eventType := by decide }

def blankEvent : PreparedEvent :=
  { sampleEvent with messageId := " event-1", publicationId := " event-1" }

theorem blank_prepared : prepare epochRfc orderCreated "orders.created"
    ⟨" event-1", unixEpoch, [[91], [49], [93]], false⟩ 1024 = .ok blankEvent := by rfl

/-- Both ids are accepted, and the blank one arrives as the other. -/
theorem blank_edge_id_lost : ∃ buffer, prepare epochRfc orderCreated "orders.created"
      ⟨" event-1", unixEpoch, [[91], [49], [93]], false⟩ 1024 = .ok blankEvent ∧
    prepare epochRfc orderCreated "orders.created"
      ⟨"event-1", unixEpoch, [[91], [49], [93]], false⟩ 1024 = .ok sampleEvent ∧
    blankEvent.messageId ≠ sampleEvent.messageId ∧ Framed blankEvent buffer ∧
    (∀ others, receive epochRfc others buffer = some (envelopeOf sampleEvent)) ∧
    ¬ Survives epochRfc blankEvent := by
  have hs := prepare_sound blank_prepared
  obtain ⟨headers, hencode, -, hbytes⟩ := encode_prepared_sound epoch_rfc_lawful hs
  have hblock : (asBytes (headerBlock headers.entries)).length ≤ headerLimitBytes := by
    rw [header_block_length]
    exact hbytes
  obtain ⟨buffer, hbuffer⟩ :=
    exists_frame (e := blankEvent) sample_fits hblock none (by simp)
  have hframed : Framed blankEvent buffer :=
    ⟨headers, _, 0, none, [], hencode, List.Perm.refl _, hbuffer⟩
  have hword : words isWhitespace blankEvent.subject.toList = ["orders.created".toList] := by
    decide
  obtain ⟨read, hget, hle, hreceive⟩ := receive_framed epoch_rfc_lawful hs hword hframed
  have hidentified : Identified sampleEvent read := by
    have hkept : ∀ name value trimmed, (name, value) ∈ identityHeaders blankEvent →
        received value = trimmed → read.get name = some trimmed := by
      rintro name value _ hmem rfl
      exact hget _ hmem
    have hid : received blankEvent.messageId = sampleEvent.messageId := by decide
    have hkind : received blankEvent.eventType = sampleEvent.eventType := by decide
    have hcreated : received blankEvent.createdAt = sampleEvent.createdAt := by decide
    simp only [Identified, identityHeaders, List.forall_mem_cons]
    exact ⟨hkept _ _ _ (by simp [identityHeaders]) hid, hkept _ _ _ (by simp [identityHeaders]) hkind,
      hkept _ (schema blankEvent.schemaVersion) _ (by simp [identityHeaders]) (received_schema _),
      hkept _ _ _ (by simp [identityHeaders]) hcreated,
      hkept natsMsgIdName blankEvent.publicationId _ (by simp [identityHeaders]) hid, by simp⟩
  have hreceived : ∀ others, receive epochRfc others buffer = some (envelopeOf sampleEvent) := by
    intro others
    rw [hreceive, String.ofList_toList]
    exact congrArg Except.toOption
      (decode_sound epoch_rfc_lawful (prepare_sound sample_prepared) hidentified hle _)
  refine ⟨buffer, blank_prepared, sample_prepared, by decide, hframed, hreceived, ?_⟩
  intro h
  have hsame := (h.2 (fun _ => .ok none) buffer hframed).symm.trans (hreceived _)
  exact absurd (congrArg (Option.map InboundEnvelope.messageId) hsame) (by decide)

end MessagingTransport
