import ServiceTemplate.LogRecord

/-! What a log record is: its size, its one line, its members and the values under their keys. -/
namespace LogRecord

open ByteFraming
open Utf8Text
open JsonText
open LogCapture

def idPieces (format : LoggingFormat) (key : String) (bytes : Bytes) : List Bytes :=
  [separator format, utf8 (quote key.toList), assign format, [34]] ++ bytes.map hexByte ++ [[34]]

def idsPieces (format : LoggingFormat) : Option TraceIds → List Bytes
  | none => []
  | some ids =>
    idPieces format "trace_id" ids.traceId ++ idPieces format "span_id" ids.spanId ++
      idPieces format "trace_flags" [ids.flags]

def openingPieces (format : LoggingFormat) (level : Level) (target : String) (timestamp : List Char) :
    List Bytes :=
  match format with
  | .json =>
    [asBytes "\x7b\"level\":", utf8 (quote level.asStr.toList), asBytes ",\"target\":",
      utf8 (quote target.toList), asBytes ",\"timestamp\":\"", utf8 timestamp, [34]]
  | .text => [utf8 timestamp, [32], asBytes level.asStr, [32], utf8 (quote target.toList)]

def headerPieces (format : LoggingFormat) (level : Level) (target : String) (timestamp : List Char)
    (ids : Option TraceIds) : List Bytes :=
  openingPieces format level target timestamp ++ idsPieces format ids

/-- What stands before the fields of a record. -/
def headerBytes (format : LoggingFormat) (level : Level) (target : String) (timestamp : List Char)
    (ids : Option TraceIds) : Bytes :=
  (headerPieces format level target timestamp ids).flatten

theorem write_id_pieces (line : Buffer) (key : String) (bytes : Bytes) (format : LoggingFormat) :
    writeId line key bytes format = appendAll line (idPieces format key bytes) := by
  have hhex : ∀ line : Buffer, writeHex line bytes = appendAll line (bytes.map hexByte) := by
    intro line
    rw [appendAll, List.foldl_map]
    rfl
  rw [idPieces, ← append_all_append, ← append_all_append, ← hhex]
  rfl

theorem write_header_pieces (format : LoggingFormat) (level : Level) (target : String)
    (timestamp : List Char) (ids : Option TraceIds) (line : Buffer) :
    writeHeader format level target timestamp ids line =
      appendAll line (headerPieces format level target timestamp ids) := by
  unfold headerPieces
  rw [← append_all_append]
  cases ids with
  | none => cases format <;> rfl
  | some ids =>
    rw [idsPieces, ← append_all_append, ← append_all_append, ← write_id_pieces, ← write_id_pieces,
      ← write_id_pieces]
    cases format <;> rfl

def tailPieces (format : LoggingFormat) (cut : Bool) : List Bytes :=
  (if cut then [separator format, utf8 (quote "truncated".toList), assign format, asBytes "true"]
    else []) ++ (match format with
      | .json => [closing .json]
      | .text => []) ++ [[10]]

def tailBytes (format : LoggingFormat) (cut : Bool) : Bytes := (tailPieces format cut).flatten

/-- The room an attempt leaves is enough for the end of the record. -/
theorem tail_fits (format : LoggingFormat) (cut : Bool) :
    (tailBytes format cut).length ≤ reserve format cut := by
  cases format <;> cases cut <;> decide +kernel

theorem close_record_spec (format : LoggingFormat) {line : Buffer} (h : line.failed = false)
    (cut : Bool) : closeRecord format line cut =
      if line.bytes.length + (tailBytes format cut).length ≤ maxRecordBytes then
        .ok (line.bytes ++ tailBytes format cut)
      else .error .oversize := by
  have hpieces : closeRecord format line cut =
      if (appendAll { line with limit := maxRecordBytes } (tailPieces format cut)).failed then
        .error .oversize
      else .ok (appendAll { line with limit := maxRecordBytes } (tailPieces format cut)).bytes := by
    cases format <;> cases cut <;> rfl
  rw [hpieces]
  have hpos : 0 < (tailBytes format cut).length := by
    cases format <;> cases cut <;> decide +kernel
  have hroom : ({ line with limit := maxRecordBytes } : Buffer).room =
      maxRecordBytes - line.bytes.length := rfl
  have hopen : ({ line with limit := maxRecordBytes } : Buffer).failed = false := h
  rcases append_all_cases hopen (tailPieces format cut) with ⟨hfits, hall⟩ | ⟨hfull, hfailed, -⟩
  · rw [hroom, ← tailBytes] at hfits
    rw [hall, if_neg (by simp [h]), if_pos (by omega), tailBytes]
  · rw [hroom, ← tailBytes] at hfull
    rw [if_pos hfailed, if_neg (by omega)]

def Plain (text : List Char) : Prop := ∀ c ∈ text, escapeChar c = [c]

theorem escaped_plain {text : List Char} (h : Plain text) : escaped text = utf8 text := by
  induction text with
  | nil => rfl
  | cons c text ih =>
    have hc : escape c = String.utf8EncodeChar c := by
      rw [escape_eq, h c List.mem_cons_self, utf8, List.flatMap_singleton]
    have hrest := ih fun d hd => h d (List.mem_cons_of_mem _ hd)
    rw [escaped, List.flatMap_cons, hc, ← escaped, hrest, utf8, utf8, List.flatMap_cons]

def hexChars (bytes : Bytes) : List Char :=
  bytes.flatMap fun byte => [hexDigit (byte.toNat / 16), hexDigit (byte.toNat % 16)]

theorem escaped_hex_chars (bytes : Bytes) : escaped (hexChars bytes) = (bytes.map hexByte).flatten := by
  have hall : ∀ n < 256, escape (hexDigit (n / 16)) ++ escape (hexDigit (n % 16)) =
      hexByte (UInt8.ofNat n) := by decide +kernel
  induction bytes with
  | nil => rfl
  | cons byte bytes ih =>
    have hbyte := hall byte.toNat byte.toNat_lt
    rw [UInt8.ofNat_toNat] at hbyte
    have hsplit : escaped (hexChars (byte :: bytes)) =
        escape (hexDigit (byte.toNat / 16)) ++ escape (hexDigit (byte.toNat % 16)) ++
          escaped (hexChars bytes) := by
      simp [escaped, hexChars]
    rw [hsplit, hbyte, ih, List.map_cons, List.flatten_cons]

def idMembers : Option TraceIds → List (String × Scalar)
  | none => []
  | some ids =>
    [("trace_id", .string (hexChars ids.traceId)), ("span_id", .string (hexChars ids.spanId)),
      ("trace_flags", .string (hexChars [ids.flags]))]

theorem id_pieces_flatten (format : LoggingFormat) (key : String) (bytes : Bytes) :
    (idPieces format key bytes).flatten = member format (key, .string (hexChars bytes)) := by
  simp [idPieces, member, encoded_string, escaped_hex_chars]

def members (level : Level) (target : String) (timestamp : List Char) (ids : Option TraceIds)
    (written : List (String × Scalar)) (cut : Bool) : List (String × Scalar) :=
  ("level", .string level.asStr.toList) :: ("target", .string target.toList) ::
    ("timestamp", .string timestamp) :: (idMembers ids ++ (written ++
      if cut then [("truncated", .bool true)] else []))

theorem intercalate_cons (first : List Char) (rest : List (List Char)) :
    [','].intercalate (first :: rest) = first ++ rest.flatMap (',' :: ·) := by
  induction rest generalizing first with
  | nil => simp [List.intercalate]
  | cons second rest ih =>
    rw [List.intercalate_cons_cons, ih, List.flatMap_cons]
    simp

theorem utf8_member (field : String × Scalar) :
    utf8 (',' :: renderMember field) = member .json field := by
  have hcomma : utf8 [','] = [44] := by decide
  have hcolon : utf8 [':'] = [58] := by decide
  have hsplit : ',' :: renderMember field =
      [','] ++ (quote field.1.toList ++ ([':'] ++ field.2.render)) := by
    simp [renderMember]
  rw [hsplit, utf8_append, utf8_append, utf8_append, hcomma, hcolon]
  rfl

theorem utf8_object (first : String × Scalar) (rest : List (String × Scalar)) :
    utf8 (renderObject (first :: rest)) =
      123 :: (utf8 (renderMember first) ++ rest.flatMap (member .json) ++ [125]) := by
  have hopen : utf8 ['\x7b'] = [123] := by decide
  have hclose : utf8 ['\x7d'] = [125] := by decide
  have hrest : utf8 ((rest.map renderMember).flatMap (',' :: ·)) = rest.flatMap (member .json) := by
    induction rest with
    | nil => rfl
    | cons field rest ih =>
      rw [List.map_cons, List.flatMap_cons, utf8_append, ih, utf8_member, List.flatMap_cons]
  have hsplit : renderObject (first :: rest) = ['\x7b'] ++ (renderMember first ++
      ((rest.map renderMember).flatMap (',' :: ·) ++ ['\x7d'])) := by
    rw [renderObject, List.map_cons, intercalate_cons]
    simp
  rw [hsplit, utf8_append, utf8_append, utf8_append, hrest, hopen, hclose]
  simp

theorem ids_pieces_flatten (format : LoggingFormat) (ids : Option TraceIds) :
    (idsPieces format ids).flatten = (idMembers ids).flatMap (member format) := by
  cases ids with
  | none => rfl
  | some ids => simp [idsPieces, id_pieces_flatten, idMembers]

theorem json_header {timestamp : List Char} (h : Plain timestamp) (level : Level) (target : String)
    (ids : Option TraceIds) :
    headerBytes .json level target timestamp ids =
      123 :: (utf8 (renderMember ("level", .string level.asStr.toList)) ++
        (member .json ("target", .string target.toList) ++
          (member .json ("timestamp", .string timestamp) ++ (idMembers ids).flatMap (member .json)))) := by
  have hlevel : asBytes "\x7b\"level\":" = 123 :: (utf8 (quote "level".toList) ++ [58]) := by
    decide
  have htarget : asBytes ",\"target\":" = [44] ++ (utf8 (quote "target".toList) ++ [58]) := by
    decide
  have htime : asBytes ",\"timestamp\":\"" =
      [44] ++ (utf8 (quote "timestamp".toList) ++ ([58] ++ [34])) := by
    decide
  have hcolon : utf8 [':'] = [58] := by decide
  have hfirst : utf8 (renderMember ("level", .string level.asStr.toList)) =
      utf8 (quote "level".toList) ++ ([58] ++ utf8 (quote level.asStr.toList)) := by
    have hsplit : renderMember ("level", .string level.asStr.toList) =
        quote "level".toList ++ ([':'] ++ quote level.asStr.toList) := rfl
    rw [hsplit, utf8_append, utf8_append, hcolon]
  have hstamp : encoded (.string timestamp) = [34] ++ (utf8 timestamp ++ [34]) := by
    rw [encoded_string, escaped_plain h]
    rfl
  have htext : encoded (.string target.toList) = utf8 (quote target.toList) := rfl
  have hseparator : separator .json = [44] := rfl
  have hassign : assign .json = [58] := rfl
  rw [headerBytes, headerPieces, List.flatten_append, ids_pieces_flatten]
  simp only [openingPieces, List.flatten_cons, List.flatten_nil, hlevel, htarget, htime, hfirst, member,
    hstamp, htext, hseparator, hassign, List.append_assoc, List.cons_append, List.nil_append]

theorem json_record {level : Level} {target : String} {timestamp : List Char} (h : Plain timestamp)
    (ids : Option TraceIds) (written : List (String × Scalar)) (cut : Bool) :
    headerBytes .json level target timestamp ids ++ written.flatMap (member .json) ++
      tailBytes .json cut =
    utf8 (renderObject (members level target timestamp ids written cut)) ++ [10] := by
  have htail : tailBytes .json cut = (if cut then [("truncated", Scalar.bool true)] else []).flatMap
      (member .json) ++ ([125] ++ [10]) := by
    cases cut <;> decide +kernel
  rw [json_header h, htail, members, utf8_object]
  simp only [List.flatMap_cons, List.flatMap_append, List.append_assoc, List.cons_append]

theorem newline_free {text : List Char} (h : '\n' ∉ text) : (10 : UInt8) ∉ utf8 text := by
  intro hmem
  obtain ⟨c, hc, hbyte⟩ := List.mem_flatMap.mp hmem
  have hchar : c = '\n' := Char.toNat_inj.mp (encode_char_ascii_byte hbyte (by decide))
  exact h (hchar ▸ hc)

theorem escaped_newline_free (text : List Char) : (10 : UInt8) ∉ escaped text := by
  intro hmem
  obtain ⟨c, -, hbyte⟩ := List.mem_flatMap.mp hmem
  by_cases hcontrol : c.toNat < 32
  · have hall : ∀ n < 32, (10 : UInt8) ∉ escape (Char.ofNat n) := by decide +kernel
    have hc := hall c.toNat hcontrol
    rw [Char.ofNat_toNat] at hc
    exact hc hbyte
  · by_cases hquote : c = '"'
    · subst hquote
      exact absurd hbyte (by decide)
    by_cases hback : c = '\\'
    · subst hback
      exact absurd hbyte (by decide)
    rw [escape_plain hcontrol hquote hback] at hbyte
    have hnat := encode_char_ascii_byte hbyte (by decide)
    rw [hnat] at hcontrol
    exact hcontrol (by decide)

theorem quote_newline_free (text : List Char) : (10 : UInt8) ∉ utf8 (quote text) := by
  rw [utf8_quote]
  simp [escaped_newline_free text]

theorem exponent_newline_free {text : List Char} (h : isExponent text = true) : '\n' ∉ text := by
  cases text with
  | nil => simp
  | cons mark rest =>
    simp only [isExponent, Bool.and_eq_true, Bool.or_eq_true, decide_eq_true_eq] at h
    obtain ⟨⟨hmark, -⟩, hdigits⟩ := h
    have hfree : ∀ digits : List Char, digits.all Char.isDigit = true → '\n' ∉ digits := by
      intro digits hall hmem
      exact absurd (List.all_eq_true.mp hall _ hmem) (by decide)
    have hrest : '\n' ∉ rest := by
      split at hdigits
      · simp [hfree _ hdigits]
      · simp [hfree _ hdigits]
      · exact hfree _ hdigits
    rcases hmark with rfl | rfl <;> simp [hrest]

theorem take_digits_newline_free (text : List Char) : '\n' ∉ text.takeWhile Char.isDigit := by
  intro hmem
  exact absurd (List.mem_takeWhile_imp hmem) (by decide)

theorem fraction_newline_free {text : List Char} (h : isFraction text = true) : '\n' ∉ text := by
  unfold isFraction at h
  split at h
  · rename_i rest
    rw [Bool.and_eq_true] at h
    have hrest : '\n' ∉ rest := by
      rw [← List.takeWhile_append_dropWhile (p := Char.isDigit) (l := rest), List.mem_append, not_or]
      exact ⟨take_digits_newline_free rest, exponent_newline_free h.2⟩
    simp [hrest]
  · exact exponent_newline_free h

theorem unsigned_newline_free {text : List Char} (h : isUnsigned text = true) : '\n' ∉ text := by
  simp only [isUnsigned, Bool.and_eq_true] at h
  rw [← List.takeWhile_append_dropWhile (p := Char.isDigit) (l := text), List.mem_append, not_or]
  exact ⟨take_digits_newline_free text, fraction_newline_free h.2⟩

theorem encoded_newline_free (value : Scalar) : (10 : UInt8) ∉ encoded value := by
  cases value with
  | null => decide
  | bool value => cases value <;> decide
  | string text => exact quote_newline_free text
  | number token valid =>
    apply newline_free
    unfold isNumber at valid
    split at valid
    · simp [Scalar.render, unsigned_newline_free valid]
    · exact unsigned_newline_free valid

theorem member_newline_free (format : LoggingFormat) (field : String × Scalar) :
    (10 : UInt8) ∉ member format field := by
  have hseparator : (10 : UInt8) ∉ separator format := by cases format <;> decide
  have hassign : (10 : UInt8) ∉ assign format := by cases format <;> decide
  simp [member, hseparator, hassign, quote_newline_free, encoded_newline_free]

theorem plain_newline_free {text : List Char} (h : Plain text) : (10 : UInt8) ∉ utf8 text := by
  apply newline_free
  intro hmem
  exact absurd (h _ hmem) (by decide)

theorem header_newline_free {timestamp : List Char} (h : Plain timestamp) (format : LoggingFormat)
    (level : Level) (target : String) (ids : Option TraceIds) :
    (10 : UInt8) ∉ headerBytes format level target timestamp ids := by
  have hids : (10 : UInt8) ∉ (idMembers ids).flatMap (member format) := by
    intro hmem
    obtain ⟨field, -, hfield⟩ := List.mem_flatMap.mp hmem
    exact member_newline_free format field hfield
  have hlevel : (10 : UInt8) ∉ asBytes level.asStr := by cases level <;> decide
  have hopen : (10 : UInt8) ∉ asBytes "\x7b\"level\":" ∧ (10 : UInt8) ∉ asBytes ",\"target\":" ∧
      (10 : UInt8) ∉ asBytes ",\"timestamp\":\"" := by decide
  rw [headerBytes, headerPieces, List.flatten_append, ids_pieces_flatten, List.mem_append, not_or]
  refine ⟨?_, hids⟩
  cases format with
  | json => simp [openingPieces, hopen, plain_newline_free h, quote_newline_free]
  | text => simp [openingPieces, hlevel, plain_newline_free h, quote_newline_free]

theorem tail_line (format : LoggingFormat) (cut : Bool) :
    ∃ last, tailBytes format cut = last ++ [10] ∧ (10 : UInt8) ∉ last := by
  refine ⟨(tailBytes format cut).dropLast, ?_⟩
  cases format <;> cases cut <;> decide +kernel

structure Body (format : LoggingFormat) (header : Bytes) (truncated : Bool)
    (fields written : List (String × Scalar)) (result : Buffer × Bool) : Prop where
  failed : result.1.failed = false
  bytes : result.1.bytes = header ++ written.flatMap (member format)
  room : written = [] ∨ result.1.bytes.length ≤ maxRecordBytes - reserve format result.2
  uncut : result.2 = false → truncated = false ∧ written = fields
  shown : written = fields ∨ Partly fields written

theorem Written.body {format : LoggingFormat} {header : Bytes} {truncated cut : Bool}
    {fields written : List (String × Scalar)} {result : Buffer × Bool}
    (h : Written format fields ⟨header, maxRecordBytes - reserve format cut, false⟩ result written)
    (huncut : cut = false → truncated = false ∧ written = fields) :
    Body format header truncated fields written (result.1, cut) where
  failed := by rw [h.bytes]
  bytes := by rw [h.bytes]
  room := by
    rcases h.room with hnone | hroom
    · exact .inl hnone
    · rw [h.bytes]
      simp only [Buffer.room, List.length_append] at hroom ⊢
      by_cases hempty : (written.flatMap (member format)).length = 0
      · left
        cases written with
        | nil => rfl
        | cons field written =>
          rw [List.flatMap_cons, List.length_append, member] at hempty
          have hpos := encoded_pos field.2
          simp only [List.length_append] at hempty
          omega
      · right
        omega
  uncut := huncut
  shown := by
    cases hdone : result.2 with
    | true => exact .inl (h.whole hdone)
    | false => exact .inr (h.partly hdone)

theorem write_body_spec {scratch : Scratch} {captured copied : List (String × Scalar)}
    (hsound : Sound scratch (captured ++ copied)) (format : LoggingFormat) (header : Bytes) :
    ∃ fields written, Resolves captured copied fields ∧
      Body format header scratch.truncated fields written
        (writeBody scratch captured.length format header) := by
  obtain ⟨fields, hresolves, hattempts⟩ := write_fields_spec hsound format
  have hattempt : ∀ cut, ∃ written, Written format fields
      ⟨header, maxRecordBytes - reserve format cut, false⟩
      (attempt scratch captured.length format header cut) written := fun cut => hattempts _ rfl
  obtain ⟨written, hwritten⟩ := hattempt scratch.truncated
  unfold writeBody
  cases hfirst : attempt scratch captured.length format header scratch.truncated with
  | mk line done =>
    rw [hfirst] at hwritten
    cases done with
    | true =>
      exact ⟨fields, written, hresolves, hwritten.body fun hnot => ⟨hnot, hwritten.whole rfl⟩⟩
    | false =>
      by_cases hcut : scratch.truncated = true
      · simp only [hcut, if_true]
        rw [hcut] at hwritten
        exact ⟨fields, written, hresolves, hwritten.body (by simp)⟩
      · simp only [hcut]
        obtain ⟨again, hagain⟩ := hattempt true
        exact ⟨fields, again, hresolves, hagain.body (by simp)⟩

section Records

variable {F : Type} {f64 : F → Scalar}

def nearest (spans : List (Span f64)) (key : String) : Option Scalar :=
  spans.findSome? fun span => lookup key span.fields

theorem lookup_spans (spans : List (Span f64)) (key : String) :
    lookup key (spans.flatMap Span.fields) = nearest spans key := by
  induction spans with
  | nil => rfl
  | cons span spans ih =>
    rw [List.flatMap_cons, lookup_append, ih, nearest, nearest, List.findSome?_cons]
    cases lookup key span.fields <;> rfl

/-- The value a record owes under a key: the event's last, else the nearest span's. -/
def attributed (captured : List (String × Scalar)) (spans : List (Span f64)) (key : String) :
    Option Scalar :=
  (lookup key captured.reverse).or (nearest spans key)

def Shortened (full value : Scalar) : Prop :=
  value = full ∨ ∃ text cut, full = .string text ∧ value = .string cut ∧ cut <+: text

/-- A record that is well formed and shows what was captured: `captured` are the fields that the
capture of the event holds, `written` a start of them and of the spans' with one value a key. -/
structure WellFormed (format : LoggingFormat) (event : Event F) (spans : List (Span f64))
    (timestamp : List Char) (ids : Option TraceIds) (record : Bytes)
    (captured written : List (String × Scalar)) (cut : Bool) : Prop where
  held : Sound (event.fields.foldl (recordEvent f64 event.bridged) (Scratch.new maxRecordBytes))
    captured
  taken : Captures f64 (visible event.bridged event.fields) captured
  shown : ∃ copied fields, copied <+: spans.flatMap Span.fields ∧
    Resolves captured copied fields ∧ (written = fields ∨ Partly fields written)
  bytes : record = headerBytes format event.level event.target timestamp ids ++
    written.flatMap (member format) ++ tailBytes format cut
  bounded : record.length ≤ maxRecordBytes
  line : ∃ body, record = body ++ [10] ∧ (10 : UInt8) ∉ body
  json : format = .json → record =
    utf8 (renderObject (members event.level event.target timestamp ids written cut)) ++ [10]
  distinct : ((members event.level event.target timestamp ids written cut).map Prod.fst).Nodup
  unreserved : ∀ field ∈ written, field.1 ∉ reserved
  values : ∀ field ∈ written, ∃ full, attributed captured spans field.1 = some full ∧
    Shortened full field.2
  whole : "truncated" ∉ (members event.level event.target timestamp ids written cut).map Prod.fst →
    captured = (visible event.bridged event.fields).map
        (fun field => (field.1, field.2.scalar f64)) ∧
      (∀ span ∈ spans, span.cached.isSome = true) ∧
      ∀ key ∉ reserved, lookup key written = attributed captured spans key

theorem lookup_of_mem {fields : List (String × Scalar)} (h : (fields.map Prod.fst).Nodup)
    {field : String × Scalar} (hmem : field ∈ fields) : lookup field.1 fields = some field.2 := by
  unfold lookup
  cases hfind : fields.find? (fun other => other.1 = field.1) with
  | none =>
    have hnone := List.find?_eq_none.mp hfind field hmem
    simp at hnone
  | some found =>
    have hkey : found.1 = field.1 := by simpa using List.find?_some hfind
    rw [List.inj_on_of_nodup_map h (List.mem_of_find?_eq_some hfind) hmem hkey]
    rfl

/-- Written fields have the keys of fields to be written, in order, and their values or shorter
strings. -/
theorem shown_fields {fields written : List (String × Scalar)}
    (h : written = fields ∨ Partly fields written) :
    (written.map Prod.fst).Sublist (fields.map Prod.fst) ∧
      ∀ field ∈ written, ∃ full, (field.1, full) ∈ fields ∧ Shortened full field.2 := by
  have hself : ∀ fields : List (String × Scalar), ∀ field ∈ fields,
      ∃ full, (field.1, full) ∈ fields ∧ Shortened full field.2 :=
    fun _ field hfield => ⟨field.2, hfield, .inl rfl⟩
  rcases h with rfl | ⟨front, last, back, rfl, hwritten⟩
  · exact ⟨.refl _, hself _⟩
  · have hfront : ∀ field ∈ front, ∃ full, (field.1, full) ∈ front ++ last :: back ∧
        Shortened full field.2 := by
      intro field hfield
      exact ⟨field.2, List.mem_append_left _ hfield, .inl rfl⟩
    rcases hwritten with rfl | ⟨text, cut, htext, hcut, rfl⟩
    · refine ⟨?_, hfront⟩
      rw [List.map_append]
      exact List.sublist_append_left _ _
    · constructor
      · rw [List.map_append, List.map_append, List.map_cons]
        exact List.Sublist.append (.refl _) (List.singleton_sublist.mpr List.mem_cons_self)
      · intro field hfield
        rcases List.mem_append.mp hfield with hfield | hfield
        · exact hfront field hfield
        · rw [List.mem_singleton.mp hfield]
          exact ⟨last.2, by simp, .inr ⟨text, cut, htext, rfl, hcut⟩⟩

def headerKeys (ids : Option TraceIds) : List String :=
  ["level", "target", "timestamp"] ++ (idMembers ids).map Prod.fst

theorem members_keys (level : Level) (target : String) (timestamp : List Char) (ids : Option TraceIds)
    (written : List (String × Scalar)) (cut : Bool) :
    (members level target timestamp ids written cut).map Prod.fst =
      headerKeys ids ++ (written.map Prod.fst ++ if cut then ["truncated"] else []) := by
  cases cut <;> simp [members, headerKeys]

theorem header_keys_reserved (ids : Option TraceIds) :
    (headerKeys ids).Nodup ∧ ∀ key ∈ headerKeys ids, key ∈ reserved ∧ key ≠ "truncated" := by
  cases ids with
  | none => decide
  | some ids =>
    simp only [headerKeys, idMembers, List.map_cons, List.map_nil]
    decide

theorem members_distinct {level : Level} {target : String} {timestamp : List Char}
    {ids : Option TraceIds} {written : List (String × Scalar)} {cut : Bool}
    (hwritten : (written.map Prod.fst).Nodup) (hreserved : ∀ field ∈ written, field.1 ∉ reserved) :
    ((members level target timestamp ids written cut).map Prod.fst).Nodup := by
  have hfree : ∀ key ∈ written.map Prod.fst, key ∉ reserved := by
    intro key hkey
    obtain ⟨field, hfield, rfl⟩ := List.mem_map.mp hkey
    exact hreserved field hfield
  have hmarker : ∀ key ∈ (if cut then ["truncated"] else []), key = "truncated" := by
    cases cut <;> simp
  obtain ⟨hheader, hkeys⟩ := header_keys_reserved ids
  rw [members_keys, List.nodup_append, List.nodup_append]
  refine ⟨hheader, ⟨hwritten, by cases cut <;> decide, ?_⟩, ?_⟩
  · rintro key hkey _ hmark rfl
    rw [hmarker key hmark] at hkey
    exact hfree _ hkey (by decide)
  · rintro key hkey _ hother rfl
    rcases List.mem_append.mp hother with hfield | hmark
    · exact hfree key hfield (hkeys key hkey).1
    · exact (hkeys key hkey).2 (hmarker key hmark)

theorem format_eq (fmt : LoggingFormat) (event : Event F) (spans : List (Option SpanFields))
    (timestamp : List Char) (ids : Option TraceIds) {first scratch : Scratch}
    (hfirst : event.fields.foldl (recordEvent f64 event.bridged) (Scratch.new maxRecordBytes) = first)
    (hscratch : copySpans first spans = scratch) :
    format f64 fmt event spans timestamp ids =
      if (headerBytes fmt event.level event.target timestamp ids).length ≤ maxRecordBytes then
        closeRecord fmt (writeBody scratch first.fields.length fmt
            (headerBytes fmt event.level event.target timestamp ids)).1
          (writeBody scratch first.fields.length fmt
            (headerBytes fmt event.level event.target timestamp ids)).2
      else .error .oversize := by
  have hroom : (Buffer.empty maxRecordBytes).room = maxRecordBytes := rfl
  have hopen : (Buffer.empty maxRecordBytes).failed = false := rfl
  simp only [format, hfirst, hscratch, write_header_pieces]
  rcases append_all_cases hopen (headerPieces fmt event.level event.target timestamp ids) with
    ⟨hfits, hall⟩ | ⟨hfull, hfailed, -⟩
  · rw [hroom, ← headerBytes] at hfits
    rw [hall, if_pos hfits, ← headerBytes]
    rfl
  · rw [hroom, ← headerBytes] at hfull
    rw [if_pos hfailed, if_neg (by omega)]

/-- A body is closed within the limit unless its header alone is too long. -/
theorem Body.closed {fmt : LoggingFormat} {header : Bytes} {truncated : Bool}
    {fields written : List (String × Scalar)} {result : Buffer × Bool}
    (h : Body fmt header truncated fields written result) :
    (∀ reason, closeRecord fmt result.1 result.2 = .error reason →
      maxRecordBytes - truncationReserve < header.length) ∧
    ∀ record, closeRecord fmt result.1 result.2 = .ok record →
      record = header ++ written.flatMap (member fmt) ++ tailBytes fmt result.2 ∧
        record.length ≤ maxRecordBytes := by
  have htail := tail_fits fmt result.2
  have hmost : ∀ cut, reserve fmt cut ≤ truncationReserve := by
    intro cut
    cases fmt <;> cases cut <;> decide
  have hreserve := hmost result.2
  have hlimit : truncationReserve ≤ maxRecordBytes := by decide
  rw [close_record_spec fmt h.failed]
  constructor
  · intro reason hclose
    by_contra hshort
    have hfits : result.1.bytes.length + (tailBytes fmt result.2).length ≤ maxRecordBytes := by
      rcases h.room with rfl | hroom
      · rw [h.bytes, List.flatMap_nil, List.append_nil]
        omega
      · omega
    rw [if_pos hfits] at hclose
    cases hclose
  · intro record hclose
    split_ifs at hclose with hfits
    cases hclose
    rw [h.bytes] at hfits ⊢
    exact ⟨rfl, by rwa [List.length_append]⟩

/-- What the fields to be written owe under a key is what the event and its spans have. -/
theorem resolved_attributed {spans : List (Span f64)} {captured copied rest : List (String × Scalar)}
    (hsplit : spans.flatMap Span.fields = copied ++ rest) (key : String) :
    (∀ value, resolved captured copied key = some value → attributed captured spans key = some value) ∧
      (rest = [] → resolved captured copied key = attributed captured spans key) := by
  have hnearest : nearest spans key = (lookup key copied).or (lookup key rest) := by
    rw [← lookup_spans, hsplit, lookup_append]
  constructor
  · intro value hvalue
    rw [resolved] at hvalue
    rw [attributed, hnearest, ← Option.or_assoc, hvalue, Option.some_or]
  · rintro rfl
    rw [attributed, hnearest, resolved]
    simp [lookup]

theorem body_well_formed {timestamp : List Char} (hplain : Plain timestamp) {fmt : LoggingFormat}
    {event : Event F} {spans : List (Span f64)} {ids : Option TraceIds}
    {captured copied rest fields written : List (String × Scalar)} {before truncated : Bool}
    {result : Buffer × Bool} {record : Bytes}
    (hheld : Sound (event.fields.foldl (recordEvent f64 event.bridged) (Scratch.new maxRecordBytes))
      captured)
    (htaken : Captures f64 (visible event.bridged event.fields) captured)
    (hevent : before = false → (Scratch.new maxRecordBytes).truncated = false ∧
      captured = (visible event.bridged event.fields).map fun field => (field.1, field.2.scalar f64))
    (hsplit : spans.flatMap Span.fields = copied ++ rest)
    (hspans : truncated = false →
      before = false ∧ rest = [] ∧ ∀ span ∈ spans, span.cached.isSome = true)
    (hresolves : Resolves captured copied fields)
    (hbody : Body fmt (headerBytes fmt event.level event.target timestamp ids) truncated fields written
      result)
    (hbytes : record = headerBytes fmt event.level event.target timestamp ids ++
      written.flatMap (member fmt) ++ tailBytes fmt result.2)
    (hbounded : record.length ≤ maxRecordBytes) :
    WellFormed fmt event spans timestamp ids record captured written result.2 := by
  obtain ⟨hkeys, hvalues⟩ := shown_fields hbody.shown
  have hfields : ∀ key value, (key, value) ∈ fields → key ∉ reserved ∧
      resolved captured copied key = some value := by
    intro key value hmem
    have hlookup := lookup_of_mem hresolves.distinct hmem
    rw [hresolves.lookup] at hlookup
    split_ifs at hlookup with hreserved
    exact ⟨by simpa using hreserved, hlookup⟩
  have hunreserved : ∀ field ∈ written, field.1 ∉ reserved := by
    intro field hfield
    obtain ⟨full, hfull, -⟩ := hvalues field hfield
    exact (hfields field.1 full hfull).1
  have hshown : ∃ copied fields, copied <+: spans.flatMap Span.fields ∧
      Resolves captured copied fields ∧ (written = fields ∨ Partly fields written) :=
    ⟨copied, fields, ⟨rest, hsplit.symm⟩, hresolves, hbody.shown⟩
  refine ⟨hheld, htaken, hshown, hbytes, hbounded, ?_, ?_,
    members_distinct (hresolves.distinct.sublist hkeys) hunreserved, hunreserved, ?_, ?_⟩
  · obtain ⟨last, hlast, hfree⟩ := tail_line fmt result.2
    refine ⟨headerBytes fmt event.level event.target timestamp ids ++ written.flatMap (member fmt) ++
      last, ?_, ?_⟩
    · rw [hbytes, hlast]
      simp
    · have hwritten : (10 : UInt8) ∉ written.flatMap (member fmt) := by
        intro hmem
        obtain ⟨field, -, hfield⟩ := List.mem_flatMap.mp hmem
        exact member_newline_free fmt field hfield
      simp only [List.mem_append, not_or]
      exact ⟨⟨header_newline_free hplain fmt event.level event.target ids, hwritten⟩, hfree⟩
  · rintro rfl
    rw [hbytes, json_record hplain]
  · intro field hfield
    obtain ⟨full, hfull, hshort⟩ := hvalues field hfield
    exact ⟨full, (resolved_attributed hsplit field.1).1 full (hfields field.1 full hfull).2, hshort⟩
  · intro hunmarked
    have huncut : result.2 = false := by
      by_contra hcut
      rw [Bool.not_eq_false] at hcut
      apply hunmarked
      rw [members_keys, hcut]
      simp
    obtain ⟨htruncated, rfl⟩ := hbody.uncut huncut
    obtain ⟨hbefore, rfl, hcached⟩ := hspans htruncated
    refine ⟨(hevent hbefore).2, hcached, ?_⟩
    intro key hkey
    rw [hresolves.lookup, if_neg (by simpa using hkey), (resolved_attributed hsplit key).2 rfl]

/-- Every record is well formed and shows what was captured, whatever the event, its values, the
spans around it and the format; and one is dropped only when its header alone leaves no room for the
marker. -/
theorem records_faithful {timestamp : List Char} (hplain : Plain timestamp) (fmt : LoggingFormat)
    (event : Event F) (spans : List (Span f64)) (ids : Option TraceIds) :
    (∀ reason, format f64 fmt event (spans.map Span.cached) timestamp ids = .error reason →
      maxRecordBytes - truncationReserve <
        (headerBytes fmt event.level event.target timestamp ids).length) ∧
    ∀ record, format f64 fmt event (spans.map Span.cached) timestamp ids = .ok record →
      ∃ captured written cut,
        WellFormed fmt event spans timestamp ids record captured written cut := by
  obtain ⟨captured, hcaptured, htaken, hevent⟩ :
      ∃ more, Sound (event.fields.foldl (recordEvent f64 event.bridged) (Scratch.new maxRecordBytes))
        ([] ++ more) ∧ _ ∧ _ :=
    record_event_fold (sound_new maxRecordBytes) event.bridged event.fields
  rw [List.nil_append] at hcaptured
  obtain ⟨copied, rest, hsplit, hsound, hspans⟩ := copy_spans_takes spans hcaptured
  have hlength : (event.fields.foldl (recordEvent f64 event.bridged)
      (Scratch.new maxRecordBytes)).fields.length = captured.length := by
    rw [hcaptured.fields, layout_length]
  obtain ⟨fields, written, hresolves, hbody⟩ := write_body_spec hsound fmt
    (headerBytes fmt event.level event.target timestamp ids)
  rw [format_eq fmt event _ timestamp ids rfl rfl, hlength]
  obtain ⟨herror, hok⟩ := hbody.closed
  constructor
  · intro reason hreason
    split_ifs at hreason with hheader
    · exact herror reason hreason
    · have hlimit : maxRecordBytes - truncationReserve ≤ maxRecordBytes := Nat.sub_le _ _
      omega
  · intro record hrecord
    split_ifs at hrecord
    obtain ⟨hbytes, hbounded⟩ := hok record hrecord
    generalize (writeBody _ captured.length fmt
      (headerBytes fmt event.level event.target timestamp ids)) = result at hbody hbytes
    exact ⟨captured, written, result.2, body_well_formed hplain hcaptured htaken hevent hsplit hspans
      hresolves hbody hbytes hbounded⟩

end Records

/-- An event of two counts and a text inside a span that has a count too. -/
def sampleEvent : Event Unit :=
  ⟨.info, "orders", false, [("count", .u64 1), ("message", .str "a\nb"), ("count", .u64 2)]⟩

def sampleF64 (_ : Unit) : Scalar := .null

def sampleSpan : Span sampleF64 :=
  ⟨_, _, .new [("count", .i64 7), ("user", .bool true)] "request"⟩

def sampleTimestamp : List Char := "2026-01-01T00:00:00.000000Z".toList

def sampleRecord : Bytes := asBytes
  ("\x7b\"level\":\"INFO\",\"target\":\"orders\",\"timestamp\":\"2026-01-01T00:00:00.000000Z\"," ++
    "\"count\":2,\"message\":\"a\\nb\",\"name\":\"request\",\"user\":true\x7d\n")

theorem sample_plain : Plain sampleTimestamp := by
  unfold Plain sampleTimestamp
  decide +kernel

theorem records_faithful_sample :
    format sampleF64 .json sampleEvent [sampleSpan.cached] sampleTimestamp none = .ok sampleRecord ∧
      ∃ captured written cut, WellFormed .json sampleEvent [sampleSpan] sampleTimestamp none
        sampleRecord captured written cut := by
  have hrecord : (format sampleF64 .json sampleEvent [sampleSpan.cached] sampleTimestamp
      none).toOption = some sampleRecord := by decide +kernel
  have hok : format sampleF64 .json sampleEvent [sampleSpan.cached] sampleTimestamp none =
      .ok sampleRecord := by
    cases hcase : format sampleF64 .json sampleEvent [sampleSpan.cached] sampleTimestamp none with
    | error reason =>
      rw [hcase] at hrecord
      cases hrecord
    | ok record =>
      rw [hcase] at hrecord
      exact congrArg Except.ok (Option.some.inj hrecord)
  exact ⟨hok, (records_faithful sample_plain .json sampleEvent [sampleSpan] none).2 sampleRecord hok⟩

end LogRecord
