import ServiceTemplate.LogCapture
import ServiceTemplate.KeyedRuns
import ServiceTemplate.BinarySearch
import Mathlib.Data.String.Basic

/-! Writing one log record: the header, the captured fields sorted by key, and the marker of a record
that lacks something. A record that does not fit is written again with room for its marker. -/
namespace LogRecord

open ByteFraming
open Utf8Text
open JsonText
open LogCapture
open KeyedRuns
open BinarySearch

/-- Room kept for the marker of a record that was cut. -/
def truncationReserve : ℕ := 24

def reserved : List String :=
  ["level", "target", "timestamp", "trace_id", "span_id", "trace_flags", "truncated"]

inductive LoggingFormat where
  | json
  | text
  deriving DecidableEq

inductive DropReason where
  | oversize
  deriving DecidableEq

inductive Level where
  | trace
  | debug
  | info
  | warn
  | error
  deriving DecidableEq

def Level.asStr : Level → String
  | .trace => "TRACE"
  | .debug => "DEBUG"
  | .info => "INFO"
  | .warn => "WARN"
  | .error => "ERROR"

/-- The context of a sampled or unsampled trace: 16, 8 and one byte. -/
structure TraceIds where
  traceId : Bytes
  spanId : Bytes
  flags : UInt8

def separator : LoggingFormat → Bytes
  | .json => [44]
  | .text => [32]

def assign : LoggingFormat → Bytes
  | .json => [58]
  | .text => [61]

def appendAll (line : Buffer) (pieces : List Bytes) : Buffer := pieces.foldl Buffer.append line

def writeKey (line : Buffer) (key : String) (format : LoggingFormat) : Buffer :=
  ((line.append (separator format)).json (quote key.toList)).append (assign format)

def hexByte (byte : UInt8) : Bytes :=
  [digits.getD (byte.toNat / 16) 0, digits.getD (byte.toNat % 16) 0]

def writeHex (line : Buffer) (bytes : Bytes) : Buffer :=
  bytes.foldl (fun line byte => line.append (hexByte byte)) line

def writeId (line : Buffer) (key : String) (bytes : Bytes) (format : LoggingFormat) : Buffer :=
  (writeHex ((writeKey line key format).append [34]) bytes).append [34]

def writeTraceIds (line : Buffer) (ids : Option TraceIds) (format : LoggingFormat) : Buffer :=
  match ids with
  | none => line
  | some ids =>
    let line := writeId line "trace_id" ids.traceId format
    let line := writeId line "span_id" ids.spanId format
    writeId line "trace_flags" [ids.flags] format

/-- What stands before the fields. The clock's libraries write the timestamp. -/
def writeHeader (format : LoggingFormat) (level : Level) (target : String) (timestamp : List Char)
    (ids : Option TraceIds) (line : Buffer) : Buffer :=
  let line := match format with
    | .json =>
      let line := line.append (asBytes "\x7b\"level\":")
      let line := line.json (quote level.asStr.toList)
      let line := line.append (asBytes ",\"target\":")
      let line := line.json (quote target.toList)
      let line := line.append (asBytes ",\"timestamp\":\"")
      let line := line.append (utf8 timestamp)
      line.append [34]
    | .text =>
      let line := line.append (utf8 timestamp)
      let line := line.append [32]
      let line := line.append (asBytes level.asStr)
      let line := line.append [32]
      line.json (quote target.toList)
  writeTraceIds line ids format

def unitWidth : Bytes → ℕ
  | 92 :: 117 :: _ => 6
  | 92 :: _ => 2
  | lead :: _ => if 0xf0 ≤ lead then 4 else if 0xe0 ≤ lead then 3 else if 0xc0 ≤ lead then 2 else 1
  | [] => 1

def cutStop (inner : Bytes) (room : ℕ) : ℕ → ℕ → ℕ
  | 0, stop => stop
  | fuel + 1, stop =>
    if stop < inner.length then
      let width := unitWidth (inner.drop stop)
      if room < stop + width then stop else cutStop inner room fuel (stop + width)
    else stop

def writeCutString (line : Buffer) (value : Bytes) : Buffer :=
  let inner := (value.drop 1).take (value.length - 2)
  let stop := cutStop inner (line.room - 2) inner.length 0
  ((line.append [34]).append (inner.take stop)).append [34]

/-- The order of `sort_unstable_by_key`: by key, then in the order of capture. -/
def fieldLe (a b : Entry) : Prop := a.key < b.key ∨ (a.key = b.key ∧ a.start ≤ b.start)

instance : DecidableRel fieldLe := fun _ _ => inferInstanceAs (Decidable (_ ∨ _))

def sortFields (fields : List Entry) : List Entry := fields.insertionSort fieldLe

/-- One field that does not fit: cut when it is a string, and left out otherwise. -/
def writeCutField (line : Buffer) (key : String) (value : Bytes) (format : LoggingFormat) : Buffer :=
  if value.head? = some 34 then
    let cut := writeCutString (writeKey line key format) value
    if cut.failed then { cut with bytes := cut.bytes.take line.bytes.length, failed := false } else cut
  else line

/-- The loop of `write_sorted` over sorted fields, with the key before them. -/
def writeEach (values : Bytes) (event : List Entry) (format : LoggingFormat) (nearestFirst : Bool) :
    Buffer → Option String → List Entry → Buffer × Bool
  | line, _, [] => (line, true)
  | line, previous, field :: rest =>
    let duplicate :=
      if nearestFirst then decide (previous = some field.key)
      else rest.head?.any fun next => next.key = field.key
    if duplicate || reserved.contains field.key ||
        (binarySearch (event.map Entry.key) field.key).isOk then
      writeEach values event format nearestFirst line (some field.key) rest
    else
      let value := field.slice values
      let written := (writeKey line field.key format).append value
      if written.failed then
        let restored :=
          { written with bytes := written.bytes.take line.bytes.length, failed := false }
        (writeCutField restored field.key value format, false)
      else writeEach values event format nearestFirst written (some field.key) rest

/-- Whether every field was written: the event's, then its spans'. -/
def writeFields (line : Buffer) (values : Bytes) (fields : List Entry) (eventFields : ℕ)
    (format : LoggingFormat) : Buffer × Bool :=
  let event := sortFields (fields.take eventFields)
  match writeEach values [] format false line none event with
  | (line, true) =>
    writeEach values event format true line none (sortFields (fields.drop eventFields))
  | (line, false) => (line, false)

section Format

variable {F : Type}

structure Event (F : Type) where
  level : Level
  target : String
  bridged : Bool
  fields : List (String × Value F)

def closing : LoggingFormat → Bytes
  | .json => [125]
  | .text => []

/-- Room kept for the end of a record. -/
def reserve (format : LoggingFormat) (cut : Bool) : ℕ :=
  if cut then truncationReserve else 1 + (closing format).length

/-- One turn of the loop of `format`. -/
def attempt (scratch : Scratch) (eventFields : ℕ) (format : LoggingFormat) (header : Bytes)
    (cut : Bool) : Buffer × Bool :=
  writeFields ⟨header, maxRecordBytes - reserve format cut, false⟩ scratch.values.bytes scratch.fields
    eventFields format

/-- A record that fits is written whole. One that does not is written again with room for its
marker. -/
def writeBody (scratch : Scratch) (eventFields : ℕ) (format : LoggingFormat) (header : Bytes) :
    Buffer × Bool :=
  match attempt scratch eventFields format header scratch.truncated with
  | (line, true) => (line, scratch.truncated)
  | (line, false) =>
    if scratch.truncated then (line, true)
    else ((attempt scratch eventFields format header true).1, true)

/-- The end of a record: the marker of a cut one, the closing brace and the newline. -/
def closeRecord (format : LoggingFormat) (line : Buffer) (cut : Bool) : Except DropReason Bytes :=
  let line := { line with limit := maxRecordBytes }
  let line := if cut then (writeKey line "truncated" format).append (asBytes "true") else line
  let line := match format with
    | .json => line.append (closing .json)
    | .text => line
  let line := line.append [10]
  if line.failed then .error .oversize else .ok line.bytes

/-- `FormatLayer::format`: the record of an event inside its spans, the nearest first. -/
def format (f64 : F → Scalar) (format : LoggingFormat) (event : Event F)
    (spans : List (Option SpanFields)) (timestamp : List Char) (ids : Option TraceIds) :
    Except DropReason Bytes :=
  let scratch := event.fields.foldl (recordEvent f64 event.bridged) (Scratch.new maxRecordBytes)
  let eventFields := scratch.fields.length
  let scratch := copySpans scratch spans
  let line := writeHeader format event.level event.target timestamp ids (.empty maxRecordBytes)
  if line.failed then .error .oversize
  else
    let (line, cut) := writeBody scratch eventFields format line.bytes
    closeRecord format line cut

end Format

theorem append_all_failed {line : Buffer} (h : line.failed = true) (pieces : List Bytes) :
    appendAll line pieces = line := by
  induction pieces with
  | nil => rfl
  | cons piece pieces ih =>
    rw [appendAll, List.foldl_cons, append_failed piece h]
    exact ih

/-- Pieces are written whole where they fit together; else what stood before is still there. -/
theorem append_all_cases {line : Buffer} (h : line.failed = false) (pieces : List Bytes) :
    (pieces.flatten.length ≤ line.room ∧
      appendAll line pieces = { line with bytes := line.bytes ++ pieces.flatten }) ∨
    (line.room < pieces.flatten.length ∧ (appendAll line pieces).failed = true ∧
      (appendAll line pieces).limit = line.limit ∧
      ∃ tail, (appendAll line pieces).bytes = line.bytes ++ tail) := by
  induction pieces generalizing line with
  | nil =>
    left
    simp [appendAll]
  | cons piece pieces ih =>
    rw [appendAll, List.foldl_cons, List.flatten_cons, List.length_append]
    by_cases hfits : piece.length ≤ line.room
    · rw [append_fits h hfits]
      generalize hnext : ({ line with bytes := line.bytes ++ piece } : Buffer) = next
      have hsame : next.failed = false := hnext ▸ h
      have hlimit : next.limit = line.limit := hnext ▸ rfl
      have hbytes : next.bytes = line.bytes ++ piece := hnext ▸ rfl
      have hroom : next.room = line.room - piece.length := by
        simp only [Buffer.room, hlimit, hbytes, List.length_append]
        omega
      rcases ih hsame with ⟨hrest, hall⟩ | ⟨hrest, hfailed, hlimits, tail, htail⟩
      · left
        refine ⟨by omega, ?_⟩
        rw [← appendAll, hall, ← hnext]
        simp
      · right
        exact ⟨by omega, hfailed, hlimits.trans hlimit, piece ++ tail, by rw [← appendAll, htail, hbytes,
          List.append_assoc]⟩
    · right
      have hfull := append_full (Nat.lt_of_not_le hfits)
      have hstuck : appendAll (line.append piece) pieces = line.append piece :=
        append_all_failed (by rw [hfull]) pieces
      rw [← appendAll, hstuck, hfull]
      exact ⟨by omega, rfl, rfl, [], by simp⟩

theorem unit_width_lead {lead : ℕ} (hbyte : lead < 256) (hback : lead ≠ 92) (rest : Bytes) :
    unitWidth (UInt8.ofNat lead :: rest) =
      if 0xf0 ≤ lead then 4 else if 0xe0 ≤ lead then 3 else if 0xc0 ≤ lead then 2 else 1 := by
  have hnat := UInt8.toNat_ofNat_of_lt' hbyte
  have hne : UInt8.ofNat lead ≠ 92 := by
    intro heq
    rw [heq] at hnat
    exact hback hnat.symm
  have hwidth : unitWidth (UInt8.ofNat lead :: rest) =
      if 0xf0 ≤ UInt8.ofNat lead then 4 else if 0xe0 ≤ UInt8.ofNat lead then 3
        else if 0xc0 ≤ UInt8.ofNat lead then 2 else 1 := by
    simp [unitWidth, hne]
  simp only [hwidth, UInt8.le_iff_toNat_le, hnat]
  rfl

theorem unit_width_encode {c : Char} (hback : c ≠ '\\') (rest : Bytes) :
    unitWidth (String.utf8EncodeChar c ++ rest) = (String.utf8EncodeChar c).length := by
  have hnot : c.val.toNat ≠ 92 := fun heq => hback (Char.toNat_inj.mp heq)
  simp only [String.utf8EncodeChar]
  generalize c.val.toNat = v at hnot
  split_ifs with hone htwo hthree
  · rw [List.singleton_append, unit_width_lead (by omega) hnot, if_neg (by omega), if_neg (by omega),
      if_neg (by omega)]
    rfl
  · rw [List.cons_append, unit_width_lead (by omega) (by omega), if_neg (by omega), if_neg (by omega),
      if_pos (by omega)]
    rfl
  · rw [List.cons_append, unit_width_lead (by omega) (by omega), if_neg (by omega), if_pos (by omega)]
    rfl
  · rw [List.cons_append, unit_width_lead (by omega) (by omega), if_pos (by omega)]
    rfl

theorem unit_width_escape (c : Char) (rest : Bytes) :
    unitWidth (escape c ++ rest) = (escape c).length := by
  by_cases hcontrol : c.toNat < 32
  · have hall : ∀ n < 32, (∃ x, escape (Char.ofNat n) = [92, x] ∧ x ≠ 117) ∨
        ∃ x y, escape (Char.ofNat n) = [92, 117, 48, 48, x, y] := by
      intro n hn
      interval_cases n
      all_goals first
        | exact .inl ⟨_, rfl, by decide⟩
        | exact .inr ⟨_, _, rfl⟩
    have hunit := hall c.toNat hcontrol
    rw [Char.ofNat_toNat] at hunit
    rcases hunit with ⟨x, hescape, hx⟩ | ⟨x, y, hescape⟩
    · rw [hescape]
      simp [unitWidth, hx]
    · rw [hescape]
      rfl
  · by_cases hquote : c = '"'
    · subst hquote
      rfl
    by_cases hback : c = '\\'
    · subst hback
      rfl
    rw [escape_plain hcontrol hquote hback]
    exact unit_width_encode hback rest

theorem escape_pos (c : Char) : 0 < (escape c).length := by
  have hwidth := unit_width_escape c []
  rw [List.append_nil] at hwidth
  rw [← hwidth]
  unfold unitWidth
  split
  · decide
  · decide
  · split_ifs <;> decide
  · decide

theorem escaped_append (a b : List Char) : escaped (a ++ b) = escaped a ++ escaped b :=
  List.flatMap_append

theorem cut_stop_spec (room fuel : ℕ) (done rest : List Char) (hfuel : (escaped rest).length ≤ fuel)
    (hroom : (escaped done).length ≤ room) :
    ∃ more left, rest = more ++ left ∧
      cutStop (escaped (done ++ rest)) room fuel (escaped done).length =
        (escaped (done ++ more)).length ∧
      (escaped (done ++ more)).length ≤ room := by
  induction rest generalizing done fuel with
  | nil =>
    refine ⟨[], [], rfl, ?_, by simpa using hroom⟩
    cases fuel with
    | zero => simp [cutStop]
    | succ fuel => simp [cutStop]
  | cons c rest ih =>
    have hsplit : escaped (c :: rest) = escape c ++ escaped rest := by simp [escaped]
    have hpos := escape_pos c
    rw [hsplit, List.length_append] at hfuel
    cases fuel with
    | zero => omega
    | succ fuel =>
      have hinner : escaped (done ++ c :: rest) = escaped done ++ (escape c ++ escaped rest) := by
        rw [escaped_append, hsplit]
      have hmore : (escaped done).length < (escaped (done ++ c :: rest)).length := by
        rw [hinner, List.length_append, List.length_append]
        omega
      have hunit : unitWidth ((escaped (done ++ c :: rest)).drop (escaped done).length) =
          (escape c).length := by
        rw [hinner, List.drop_left, unit_width_escape]
      have hnext : (escaped done).length + (escape c).length = (escaped (done ++ [c])).length := by
        simp [escaped]
      simp only [cutStop, hmore, if_true, hunit]
      by_cases hcut : room < (escaped done).length + (escape c).length
      · rw [if_pos hcut]
        exact ⟨[], c :: rest, rfl, by simp, by simpa using hroom⟩
      · rw [if_neg hcut, hnext]
        have hassoc : done ++ c :: rest = (done ++ [c]) ++ rest := by simp
        obtain ⟨more, left, rfl, hstop, hfits⟩ :=
          ih fuel (done ++ [c]) (by omega) (by rw [← hnext]; omega)
        rw [hassoc]
        refine ⟨c :: more, left, rfl, ?_, ?_⟩
        · rw [hstop]
          simp
        · simpa using hfits

def member (format : LoggingFormat) (field : String × Scalar) : Bytes :=
  separator format ++ (utf8 (quote field.1.toList) ++ (assign format ++ encoded field.2))

/-- What a write may leave: nothing new, or some bytes within the limit. -/
def Adds (line result : Buffer) (added : Bytes) : Prop :=
  result = { line with bytes := line.bytes ++ added } ∧ (added = [] ∨ added.length ≤ line.room)

theorem write_cut_string_pieces (line : Buffer) (text : List Char) :
    ∃ cut, cut <+: text ∧ writeCutString line (encoded (.string text)) =
      appendAll line [[34], escaped cut, [34]] := by
  have hinner : ((encoded (.string text)).drop 1).take ((encoded (.string text)).length - 2) =
      escaped text := by
    rw [encoded_string]
    simp
  obtain ⟨cut, left, rfl, hstop, -⟩ := cut_stop_spec (line.room - 2) (escaped text).length [] text
    (Nat.le_refl _) (by simp [escaped])
  refine ⟨cut, List.prefix_append _ _, ?_⟩
  have hzero : (escaped []).length = 0 := rfl
  rw [List.nil_append, List.nil_append, hzero] at hstop
  have htake : (escaped (cut ++ left)).take (escaped cut).length = escaped cut := by
    rw [escaped_append, List.take_left]
  simp only [writeCutString, hinner, hstop, htake]
  rfl

theorem write_key_pieces (line : Buffer) (key : String) (format : LoggingFormat) :
    writeKey line key format =
      appendAll line [separator format, utf8 (quote key.toList), assign format] := rfl

theorem append_all_append (line : Buffer) (xs ys : List Bytes) :
    appendAll (appendAll line xs) ys = appendAll line (xs ++ ys) := by
  rw [appendAll, appendAll, appendAll, List.foldl_append]

theorem restored {line : Buffer} (h : line.failed = false) {result : Buffer}
    (hlimit : result.limit = line.limit) {tail : Bytes} (hbytes : result.bytes = line.bytes ++ tail) :
    ({ result with bytes := result.bytes.take line.bytes.length, failed := false } : Buffer) = line := by
  cases line
  cases result
  simp only at h hlimit hbytes
  subst h hlimit hbytes
  simp

theorem number_head {token : List Char} (h : isNumber token = true) :
    ∃ c rest, token = c :: rest ∧ (c = '-' ∨ c.isDigit = true) := by
  cases token with
  | nil => exact absurd h (by decide)
  | cons c rest =>
    refine ⟨c, rest, rfl, ?_⟩
    by_cases hminus : c = '-'
    · exact .inl hminus
    · right
      by_contra hdigit
      have hunsigned : isUnsigned (c :: rest) = true := by simpa [isNumber, hminus] using h
      simp [isUnsigned, hdigit] at hunsigned

theorem string_of_quote {value : Scalar} (h : (encoded value).head? = some 34) :
    ∃ text, value = .string text := by
  cases value with
  | string text => exact ⟨text, rfl⟩
  | null => exact absurd h (by decide)
  | bool value => cases value <;> exact absurd h (by decide)
  | number token valid =>
    exfalso
    obtain ⟨c, rest, rfl, hc⟩ := number_head valid
    have hmem : (34 : UInt8) ∈ String.utf8EncodeChar c := by
      rw [encoded, Scalar.render, utf8, List.flatMap_cons,
        List.head?_append_of_ne_nil _ String.utf8EncodeChar_ne_nil] at h
      exact List.mem_of_mem_head? h
    have hquote : c = '"' := Char.toNat_inj.mp (encode_char_ascii_byte hmem (by decide))
    subst hquote
    revert hc
    decide

/-- A field that does not fit leaves nothing, or a shorter string of its own. -/
theorem write_cut_field_spec {line : Buffer} (h : line.failed = false) (key : String) (value : Scalar)
    (format : LoggingFormat) :
    ∃ added, (added = [] ∨ ∃ text cut, value = .string text ∧ cut <+: text ∧
        added = [(key, Scalar.string cut)]) ∧
      Adds line (writeCutField line key (encoded value) format) (added.flatMap (member format)) := by
  have hnothing : Adds line line ([].flatMap (member format)) := ⟨by simp, .inl rfl⟩
  unfold writeCutField
  by_cases hquote : (encoded value).head? = some 34
  · rw [if_pos hquote]
    obtain ⟨text, rfl⟩ := string_of_quote hquote
    obtain ⟨cut, hprefix, hpieces⟩ := write_cut_string_pieces (writeKey line key format) text
    rw [write_key_pieces, append_all_append] at hpieces
    rw [write_key_pieces, hpieces]
    have hflat : ([separator format, utf8 (quote key.toList), assign format] ++
        [[34], escaped cut, [34]]).flatten = member format (key, .string cut) := by
      simp [member, encoded_string]
    rcases append_all_cases h ([separator format, utf8 (quote key.toList), assign format] ++
        [[34], escaped cut, [34]]) with ⟨hfits, hall⟩ | ⟨-, hfailed, hlimit, tail, htail⟩
    · rw [hflat] at hfits hall
      refine ⟨[(key, .string cut)], .inr ⟨text, cut, rfl, hprefix, rfl⟩, ?_⟩
      rw [hall, if_neg (by simp [h]), List.flatMap_singleton]
      exact ⟨rfl, .inr hfits⟩
    · refine ⟨[], .inl rfl, ?_⟩
      rw [if_pos hfailed, restored h hlimit htail]
      exact hnothing
  · rw [if_neg hquote]
    exact ⟨[], .inl rfl, hnothing⟩

def keepKey (event : List Entry) (key : String) : Bool :=
  !reserved.contains key && !(binarySearch (event.map Entry.key) key).isOk

def retained (event : List Entry) (nearestFirst : Bool) (previous : Option String)
    (fields : List Entry) : List Entry :=
  if nearestFirst then firstOfRuns Entry.key (keepKey event) previous fields
  else lastOfRuns Entry.key (keepKey event) fields

/-- A part of the fields was written: those before one of them, and of that one perhaps a shorter
string. -/
def Partly (fields written : List (String × Scalar)) : Prop :=
  ∃ front field back, fields = front ++ field :: back ∧
    (written = front ∨ ∃ text cut, field.2 = .string text ∧ cut <+: text ∧
      written = front ++ [(field.1, .string cut)])

structure Written (format : LoggingFormat) (fields : List (String × Scalar)) (line : Buffer)
    (result : Buffer × Bool) (written : List (String × Scalar)) : Prop where
  bytes : result.1 = { line with bytes := line.bytes ++ written.flatMap (member format) }
  room : written = [] ∨ (written.flatMap (member format)).length ≤ line.room
  whole : result.2 = true → written = fields
  partly : result.2 = false → Partly fields written

theorem Partly.cons {fields written : List (String × Scalar)} (h : Partly fields written)
    (field : String × Scalar) : Partly (field :: fields) (field :: written) := by
  obtain ⟨front, last, back, rfl, hwritten⟩ := h
  refine ⟨field :: front, last, back, rfl, ?_⟩
  rcases hwritten with rfl | ⟨text, cut, htext, hcut, rfl⟩
  · exact .inl rfl
  · exact .inr ⟨text, cut, htext, hcut, rfl⟩

theorem retained_cons (event : List Entry) (nearestFirst : Bool) (previous : Option String)
    (entry : Entry) (entries : List Entry) :
    retained event nearestFirst previous (entry :: entries) =
      if ((if nearestFirst then decide (previous = some entry.key)
          else entries.head?.any fun next => next.key = entry.key) || reserved.contains entry.key ||
          (binarySearch (event.map Entry.key) entry.key).isOk) = true then
        retained event nearestFirst (some entry.key) entries
      else entry :: retained event nearestFirst (some entry.key) entries := by
  have hkeep : (!keepKey event entry.key) = (reserved.contains entry.key ||
      (binarySearch (event.map Entry.key) entry.key).isOk) := by
    simp [keepKey]
  cases nearestFirst with
  | true => simp only [retained, if_true, firstOfRuns, hkeep, Bool.or_assoc]
  | false => simp only [retained, Bool.false_eq_true, if_false, lastOfRuns, hkeep, Bool.or_assoc]

theorem write_each_spec {values : Bytes} (event : List Entry) (format : LoggingFormat)
    (nearestFirst : Bool) {line : Buffer} (h : line.failed = false) (previous : Option String)
    {entries : List Entry} {fields : List (String × Scalar)}
    (hstands : List.Forall₂ (Stands values) (retained event nearestFirst previous entries) fields) :
    ∃ written, Written format fields line
      (writeEach values event format nearestFirst line previous entries) written := by
  induction entries generalizing line previous fields with
  | nil =>
    have hnone : retained event nearestFirst previous [] = [] := by
      unfold retained
      split_ifs <;> rfl
    rw [hnone] at hstands
    cases hstands
    exact ⟨[], by simp [writeEach], .inl rfl, fun _ => rfl, by simp [writeEach]⟩
  | cons entry entries ih =>
    rw [retained_cons] at hstands
    simp only [writeEach]
    generalize ((if nearestFirst then decide (previous = some entry.key)
      else entries.head?.any fun next => next.key = entry.key) || reserved.contains entry.key ||
      (binarySearch (event.map Entry.key) entry.key).isOk) = skip at hstands ⊢
    cases skip with
    | true =>
      rw [if_pos rfl] at hstands ⊢
      exact ih h (some entry.key) hstands
    | false =>
      rw [if_neg (by simp)] at hstands ⊢
      cases hstands with
      | @cons _ field _ fields hhead htail =>
        obtain ⟨hkey, hvalue⟩ := hhead
        have hpieces : (writeKey line entry.key format).append (entry.slice values) = appendAll line
            [separator format, utf8 (quote entry.key.toList), assign format, entry.slice values] := rfl
        have hflat : [separator format, utf8 (quote entry.key.toList), assign format,
            entry.slice values].flatten = member format field := by
          simp [member, hkey, hvalue]
        rw [hpieces]
        rcases append_all_cases h [separator format, utf8 (quote entry.key.toList), assign format,
            entry.slice values] with ⟨hfits, hall⟩ | ⟨-, hfailed, hlimit, tail, htail'⟩
        · rw [hflat] at hfits hall
          rw [hall, if_neg (by simp [h])]
          generalize hnext : ({ line with bytes := line.bytes ++ member format field } : Buffer) = next
          have hopen : next.failed = false := hnext ▸ h
          obtain ⟨written, hwritten⟩ := ih hopen (some entry.key) htail
          refine ⟨field :: written, ?_, ?_, ?_, ?_⟩
          · rw [hwritten.bytes, ← hnext]
            simp
          · right
            have hroom : next.room = line.room - (member format field).length := by
              rw [← hnext]
              simp only [Buffer.room, List.length_append]
              omega
            rw [List.flatMap_cons, List.length_append]
            rcases hwritten.room with rfl | hrest
            · simpa using hfits
            · omega
          · intro hdone
            rw [hwritten.whole hdone]
          · intro hdone
            exact (hwritten.partly hdone).cons field
        · -- The field does not fit: the line is restored, and the rest stays out.
          rw [if_pos hfailed, restored h hlimit htail', hvalue]
          obtain ⟨added, hadded, hbytes, hroom⟩ := write_cut_field_spec h entry.key field.2 format
          refine ⟨added, hbytes, ?_, by simp, ?_⟩
          · rcases hroom with hnone | hfits
            · rcases hadded with rfl | ⟨text, cut, -, -, rfl⟩
              · exact .inl rfl
              · exact .inr (by rw [hnone]; exact Nat.zero_le _)
            · exact .inr hfits
          · intro _
            refine ⟨[], field, fields, rfl, ?_⟩
            rcases hadded with rfl | ⟨text, cut, htext, hcut, rfl⟩
            · exact .inl rfl
            · exact .inr ⟨text, cut, htext, hcut, by rw [hkey, List.nil_append]⟩

theorem encoded_pos (value : Scalar) : 0 < (encoded value).length := by
  cases value with
  | null => decide
  | bool value => cases value <;> decide
  | string text => simp [encoded_string]
  | number token valid =>
    obtain ⟨c, rest, rfl, -⟩ := number_head valid
    rw [encoded, Scalar.render, utf8, List.flatMap_cons, List.length_append]
    have hpos := List.length_pos_of_ne_nil (String.utf8EncodeChar_ne_nil (c := c))
    omega

def paired (start : ℕ) (captured : List (String × Scalar)) : List (Entry × (String × Scalar)) :=
  (layout start captured).zip captured

theorem layout_length (start : ℕ) (captured : List (String × Scalar)) :
    (layout start captured).length = captured.length := by
  induction captured generalizing start with
  | nil => rfl
  | cons field captured ih => rw [layout, List.length_cons, List.length_cons, ih]

theorem paired_fst (start : ℕ) (captured : List (String × Scalar)) :
    (paired start captured).map Prod.fst = layout start captured :=
  List.map_fst_zip (Nat.le_of_eq (layout_length start captured))

theorem paired_snd (start : ℕ) (captured : List (String × Scalar)) :
    (paired start captured).map Prod.snd = captured :=
  List.map_snd_zip (Nat.le_of_eq (layout_length start captured).symm)

theorem layout_start_le {start : ℕ} {captured : List (String × Scalar)} {entry : Entry}
    (h : entry ∈ layout start captured) : start ≤ entry.start := by
  induction captured generalizing start with
  | nil => cases h
  | cons field captured ih =>
    rcases List.mem_cons.mp h with rfl | h
    · exact Nat.le_refl _
    · have hlater := ih h
      omega

/-- Values follow each other, so places increase in the order of capture. -/
theorem layout_increasing (start : ℕ) (captured : List (String × Scalar)) :
    (layout start captured).Pairwise fun a b => a.start < b.start := by
  induction captured generalizing start with
  | nil => exact List.Pairwise.nil
  | cons field captured ih =>
    rw [layout, List.pairwise_cons]
    refine ⟨?_, ih _⟩
    intro entry hentry
    have hlater := layout_start_le hentry
    have hpos := encoded_pos field.2
    simp only
    omega

def Earlier (a b : Entry × (String × Scalar)) : Prop := a.1.start < b.1.start

theorem paired_increasing (start : ℕ) (captured : List (String × Scalar)) :
    (paired start captured).Pairwise Earlier := by
  have h := layout_increasing start captured
  rw [← paired_fst start captured, List.pairwise_map] at h
  exact h

theorem field_le_trans {a b c : Entry} (h : fieldLe a b) (k : fieldLe b c) : fieldLe a c := by
  rcases h with hlt | ⟨heq, hle⟩
  · rcases k with klt | ⟨keq, -⟩
    · exact .inl (lt_trans hlt klt)
    · exact .inl (keq ▸ hlt)
  · rcases k with klt | ⟨keq, kle⟩
    · exact .inl (heq ▸ klt)
    · exact .inr ⟨heq.trans keq, Nat.le_trans hle kle⟩

theorem field_le_total (a b : Entry) : fieldLe a b ∨ fieldLe b a := by
  rcases lt_trichotomy a.key b.key with hlt | heq | hgt
  · exact .inl (.inl hlt)
  · rcases Nat.le_total a.start b.start with hle | hle
    · exact .inl (.inr ⟨heq, hle⟩)
    · exact .inr (.inr ⟨heq.symm, hle⟩)
  · exact .inr (.inl hgt)

def pairKey (pair : Entry × (String × Scalar)) : String := pair.1.key

theorem paired_ordered (start : ℕ) (captured : List (String × Scalar)) :
    KeyedRuns.Ordered pairKey Earlier (paired start captured) := by
  refine (paired_increasing start captured).imp ?_
  intro a b hlt _
  exact hlt

def pairLe (a b : Entry × (String × Scalar)) : Prop := fieldLe a.1 b.1

instance : DecidableRel pairLe := fun a b => inferInstanceAs (Decidable (fieldLe a.1 b.1))

instance : IsTrans (Entry × (String × Scalar)) pairLe := ⟨fun _ _ _ => field_le_trans⟩

instance : Std.Total pairLe := ⟨fun a b => field_le_total a.1 b.1⟩

def sortPairs (pairs : List (Entry × (String × Scalar))) : List (Entry × (String × Scalar)) :=
  pairs.insertionSort pairLe

theorem sort_fields_paired (start : ℕ) (captured : List (String × Scalar)) :
    sortFields (layout start captured) = (sortPairs (paired start captured)).map Prod.fst := by
  rw [sortFields, sortPairs, List.map_insertionSort pairLe fieldLe Prod.fst _ (fun _ _ _ _ => Iff.rfl),
    paired_fst]

theorem sort_pairs_sorted (pairs : List (Entry × (String × Scalar))) :
    Sorted pairKey (sortPairs pairs) := by
  refine (List.pairwise_insertionSort pairLe pairs).imp ?_
  intro a b h
  rcases h with hlt | ⟨heq, -⟩
  · exact le_of_lt hlt
  · exact le_of_eq heq

/-- Within a key, sorting keeps the order of capture. -/
theorem sort_pairs_ordered {pairs : List (Entry × (String × Scalar))} (h : pairs.Pairwise Earlier) :
    KeyedRuns.Ordered pairKey Earlier (sortPairs pairs) := by
  have hdistinct : pairs.Pairwise fun a b => a.1.start ≠ b.1.start :=
    h.imp fun hlt => Nat.ne_of_lt hlt
  have hsorted : (sortPairs pairs).Pairwise fun a b => a.1.start ≠ b.1.start :=
    ((List.perm_insertionSort pairLe pairs).pairwise_iff fun hne => Ne.symm hne).mpr hdistinct
  refine ((List.pairwise_insertionSort pairLe pairs).and hsorted).imp ?_
  rintro a b ⟨hle, hne⟩ hkey
  rcases hle with hlt | ⟨-, hle⟩
  · exact absurd hkey (ne_of_lt hlt)
  · exact Nat.lt_of_le_of_ne hle hne

theorem earlier_asymm (a b : Entry × (String × Scalar)) (h : Earlier a b) : ¬ Earlier b a :=
  Nat.lt_asymm h

def lookup (key : String) (fields : List (String × Scalar)) : Option Scalar :=
  (fields.find? fun field => field.1 = key).map Prod.snd

theorem find_pair {pairs : List (Entry × (String × Scalar))}
    (h : ∀ pair ∈ pairs, pair.1.key = pair.2.1) (key : String) :
    (pairs.map Prod.snd).find? (fun field => field.1 = key) =
      (pairs.find? fun pair => pairKey pair = key).map Prod.snd := by
  induction pairs with
  | nil => rfl
  | cons pair pairs ih =>
    have hrest := ih fun other hother => h other (List.mem_cons_of_mem _ hother)
    have hkey : pairKey pair = pair.2.1 := h pair List.mem_cons_self
    rw [List.map_cons, List.find?_cons, List.find?_cons, hkey, hrest]
    by_cases hmatch : pair.2.1 = key
    · simp [hmatch]
    · simp [hmatch]

/-- The fields one pass writes: under each key that it keeps, one value. -/
structure Chosen (values : Bytes) (entries : List Entry) (keep : String → Bool)
    (source fields : List (String × Scalar)) : Prop where
  stands : List.Forall₂ (Stands values) entries fields
  lookup : ∀ key, lookup key fields = if keep key then lookup key source else none
  distinct : (fields.map Prod.fst).Nodup

section Chosen

variable (before after : Bytes) (captured : List (String × Scalar))

theorem paired_stands : ∀ pair ∈ paired before.length captured,
    Stands (before ++ valuesOf captured ++ after) pair.1 pair.2 := by
  rintro ⟨entry, field⟩ hpair
  exact (List.forall₂_iff_zip.mp (layout_stands before captured after)).2 hpair

theorem sorted_stands : ∀ pair ∈ sortPairs (paired before.length captured),
    Stands (before ++ valuesOf captured ++ after) pair.1 pair.2 := by
  intro pair hpair
  exact paired_stands before after captured pair ((List.mem_insertionSort pairLe).mp hpair)

theorem chosen_of_pairs {pairs : List (Entry × (String × Scalar))} {keep : String → Bool}
    {source : List (String × Scalar)} {values : Bytes}
    (hstands : ∀ pair ∈ pairs, Stands values pair.1 pair.2)
    (hlookup : ∀ key, (pairs.find? fun pair => pairKey pair = key).map Prod.snd =
      if keep key then source.find? (fun field => field.1 = key) else none)
    (hdistinct : (pairs.map pairKey).Nodup) :
    Chosen values (pairs.map Prod.fst) keep source (pairs.map Prod.snd) where
  stands := by
    rw [List.forall₂_map_left_iff, List.forall₂_map_right_iff, List.forall₂_same]
    exact hstands
  lookup := by
    intro key
    rw [lookup, find_pair (fun pair hpair => (hstands pair hpair).1), hlookup]
    split_ifs <;> rfl
  distinct := by
    have hkeys : (pairs.map Prod.snd).map Prod.fst = pairs.map pairKey := by
      rw [List.map_map]
      exact List.map_congr_left fun pair hpair => (hstands pair hpair).1.symm
    rwa [hkeys]

theorem event_chosen (event : List Entry) :
    ∃ fields, Chosen (before ++ valuesOf captured ++ after)
      (retained event false none (sortFields (layout before.length captured))) (keepKey event)
      captured.reverse fields := by
  refine ⟨((lastOfRuns pairKey (keepKey event) (sortPairs (paired before.length captured))).map
    Prod.snd), ?_⟩
  have hentries : retained event false none (sortFields (layout before.length captured)) =
      (lastOfRuns pairKey (keepKey event) (sortPairs (paired before.length captured))).map Prod.fst := by
    rw [sort_fields_paired]
    exact last_of_runs_map Prod.fst Entry.key (keepKey event) _
  rw [hentries]
  apply chosen_of_pairs
  · intro pair hpair
    exact sorted_stands before after captured pair ((last_of_runs_sublist _ _ _).subset hpair)
  · intro key
    have hperm := (List.perm_insertionSort pairLe (paired before.length captured))
    have hsame : (sortPairs (paired before.length captured)).reverse.find?
        (fun pair => pairKey pair = key) =
          (paired before.length captured).reverse.find? fun pair => pairKey pair = key :=
      find_perm (sort_pairs_ordered (paired_increasing _ captured)).reverse
        (paired_ordered before.length captured).reverse (fun a b hab => earlier_asymm b a hab)
        ((List.reverse_perm _).trans (hperm.trans (List.reverse_perm _).symm)) key
    have hfind := find_pair (fun pair hpair => (paired_stands before after captured pair
      (List.mem_reverse.mp hpair)).1) key
    rw [List.map_reverse, paired_snd] at hfind
    rw [last_of_runs_find (sort_pairs_sorted _), hsame]
    split_ifs
    · exact hfind.symm
    · rfl
  · exact last_of_runs_nodup (sort_pairs_sorted _)

/-- Of the spans the first captured value of a key is written: the nearest span's. -/
theorem span_chosen (event : List Entry) :
    ∃ fields, Chosen (before ++ valuesOf captured ++ after)
      (retained event true none (sortFields (layout before.length captured))) (keepKey event)
      captured fields := by
  have hnone : ∀ p ∈ (none : Option String), ∀ pair ∈ sortPairs (paired before.length captured),
      p ≤ pairKey pair := by
    intro p hp
    cases hp
  refine ⟨((firstOfRuns pairKey (keepKey event) none (sortPairs (paired before.length captured))).map
    Prod.snd), ?_⟩
  have hentries : retained event true none (sortFields (layout before.length captured)) =
      (firstOfRuns pairKey (keepKey event) none (sortPairs (paired before.length captured))).map
        Prod.fst := by
    rw [sort_fields_paired]
    exact first_of_runs_map Prod.fst Entry.key (keepKey event) none _
  rw [hentries]
  apply chosen_of_pairs
  · intro pair hpair
    exact sorted_stands before after captured pair ((first_of_runs_sublist _ _ _ _).subset hpair)
  · intro key
    have hsame : (sortPairs (paired before.length captured)).find? (fun pair => pairKey pair = key) =
        (paired before.length captured).find? fun pair => pairKey pair = key :=
      find_perm (sort_pairs_ordered (paired_increasing _ captured))
        (paired_ordered before.length captured) earlier_asymm (List.perm_insertionSort pairLe _) key
    have hfind := find_pair (fun pair hpair => (paired_stands before after captured pair hpair).1) key
    rw [paired_snd] at hfind
    rw [first_of_runs_find (sort_pairs_sorted _) hnone, hsame]
    simp only [ne_eq, reduceCtorEq, not_false_eq_true, decide_true, Bool.and_true]
    split_ifs
    · exact hfind.symm
    · rfl
  · exact first_of_runs_nodup (sort_pairs_sorted _) hnone

end Chosen

theorem keep_key_empty (key : String) : keepKey [] key = !reserved.contains key := by
  simp [keepKey, binarySearch, search, Except.isOk, Except.toBool]

/-- The search in the sorted fields of the event decides whether the event has the key. -/
theorem keep_key_sorted (start : ℕ) (captured : List (String × Scalar)) (key : String) :
    keepKey (sortFields (layout start captured)) key =
      (!reserved.contains key && !decide (key ∈ captured.map Prod.fst)) := by
  have hkeys : (sortFields (layout start captured)).map Entry.key =
      (sortPairs (paired start captured)).map pairKey := by
    rw [sort_fields_paired, List.map_map]
    rfl
  have hsorted : ((sortPairs (paired start captured)).map pairKey).Pairwise (· ≤ ·) :=
    List.pairwise_map.mpr (sort_pairs_sorted (paired start captured))
  have hmem : key ∈ (sortPairs (paired start captured)).map pairKey ↔ key ∈ captured.map Prod.fst := by
    have hplain : (paired start captured).map pairKey = captured.map Prod.fst := by
      rw [← layout_keys start captured, ← paired_fst start captured, List.map_map]
      rfl
    rw [← hplain]
    exact ((List.perm_insertionSort pairLe (paired start captured)).map pairKey).mem_iff
  have hfound := binary_search_ok hsorted key
  have hok : (binarySearch ((sortFields (layout start captured)).map Entry.key) key).isOk =
      decide (key ∈ captured.map Prod.fst) := by
    rw [hkeys, Bool.eq_iff_iff, decide_eq_true_eq, ← hmem, ← hfound]
    cases binarySearch ((sortPairs (paired start captured)).map pairKey) key <;>
      simp [Except.isOk, Except.toBool]
  rw [keepKey, hok]

/-- The value a record shows under a key: the event's last, else the first of the spans'. -/
def resolved (captured copied : List (String × Scalar)) (key : String) : Option Scalar :=
  (lookup key captured.reverse).or (lookup key copied)

theorem lookup_append (key : String) (a b : List (String × Scalar)) :
    lookup key (a ++ b) = (lookup key a).or (lookup key b) := by
  rw [lookup, List.find?_append, lookup, lookup]
  cases a.find? (fun field => field.1 = key) <;> rfl

theorem lookup_eq_none {key : String} {fields : List (String × Scalar)} :
    lookup key fields = none ↔ key ∉ fields.map Prod.fst := by
  rw [lookup, Option.map_eq_none_iff, List.find?_eq_none, List.mem_map, not_exists]
  constructor
  · rintro h field ⟨hmem, hkey⟩
    exact absurd hkey (by simpa using h field hmem)
  · intro h field hmem
    simpa using fun hkey => h field ⟨hmem, hkey⟩

theorem lookup_reverse_none {key : String} {fields : List (String × Scalar)} :
    lookup key fields.reverse = none ↔ key ∉ fields.map Prod.fst := by
  rw [lookup_eq_none, List.map_reverse, List.mem_reverse]

structure Resolves (captured copied fields : List (String × Scalar)) : Prop where
  lookup : ∀ key, lookup key fields =
    if reserved.contains key then none else resolved captured copied key
  distinct : (fields.map Prod.fst).Nodup

/-- The event's fields and then those of the spans the event does not have. -/
theorem chosen_resolves {values values' : Bytes} {entries entries' : List Entry} {start : ℕ}
    {captured copied E S : List (String × Scalar)}
    (hevent : Chosen values entries (keepKey []) captured.reverse E)
    (hspans : Chosen values' entries' (keepKey (sortFields (layout start captured))) copied S) :
    Resolves captured copied (E ++ S) := by
  have hE : ∀ key, LogRecord.lookup key E =
      if reserved.contains key then none else LogRecord.lookup key captured.reverse := by
    intro key
    rw [hevent.lookup, keep_key_empty]
    cases reserved.contains key <;> rfl
  have hS : ∀ key, LogRecord.lookup key S =
      if (!reserved.contains key && !decide (key ∈ captured.map Prod.fst)) = true then
        LogRecord.lookup key copied else none := by
    intro key
    rw [hspans.lookup, keep_key_sorted]
  constructor
  · intro key
    rw [lookup_append, hE, hS, resolved]
    by_cases hreserved : reserved.contains key = true
    · simp only [hreserved, if_true, Bool.not_true, Bool.false_and, Bool.false_eq_true, if_false]
      rfl
    · rw [Bool.not_eq_true] at hreserved
      simp only [hreserved, Bool.false_eq_true, if_false, Bool.not_false, Bool.true_and]
      by_cases hmem : key ∈ captured.map Prod.fst
      · have hsome : (LogRecord.lookup key captured.reverse).isSome = true := by
          rw [Option.isSome_iff_ne_none]
          intro hnone
          exact lookup_reverse_none.mp hnone hmem
        obtain ⟨value, hvalue⟩ := Option.isSome_iff_exists.mp hsome
        rw [hvalue, Option.some_or, Option.some_or]
      · simp [hmem]
  · rw [List.map_append, List.nodup_append]
    refine ⟨hevent.distinct, hspans.distinct, ?_⟩
    rintro key hin _ hin' rfl
    have hsome : LogRecord.lookup key E ≠ none := fun hnone => lookup_eq_none.mp hnone hin
    have hsome' : LogRecord.lookup key S ≠ none := fun hnone => lookup_eq_none.mp hnone hin'
    rw [hE] at hsome
    rw [hS] at hsome'
    by_cases hmem : key ∈ captured.map Prod.fst
    · simp [hmem] at hsome'
    · rw [lookup_reverse_none.mpr hmem] at hsome
      simp at hsome

theorem Written.then {format : LoggingFormat} {E S written : List (String × Scalar)}
    {line next : Buffer} {result : Buffer × Bool} (h : Written format E line (next, true) E)
    (k : Written format S next result written) :
    Written format (E ++ S) line result (E ++ written) where
  bytes := by
    have hnext : next = _ := h.bytes
    rw [k.bytes, hnext]
    simp
  room := by
    have hnext : next = _ := h.bytes
    have hroom : next.room = line.room - (E.flatMap (member format)).length := by
      rw [hnext]
      simp only [Buffer.room, List.length_append]
      omega
    rw [List.flatMap_append, List.length_append]
    rcases k.room with rfl | hfits
    · rw [List.append_nil]
      simpa using h.room
    · rcases h.room with rfl | hfirst
      · right
        simpa [hroom] using hfits
      · right
        omega
  whole := by
    intro hdone
    rw [k.whole hdone]
  partly := by
    intro hdone
    obtain ⟨front, field, back, rfl, hwritten⟩ := k.partly hdone
    refine ⟨E ++ front, field, back, by simp, ?_⟩
    rcases hwritten with rfl | ⟨text, cut, htext, hcut, rfl⟩
    · exact .inl rfl
    · exact .inr ⟨text, cut, htext, hcut, by simp⟩

theorem write_fields_spec {scratch : Scratch} {captured copied : List (String × Scalar)}
    (hsound : Sound scratch (captured ++ copied)) (format : LoggingFormat) :
    ∃ fields, Resolves captured copied fields ∧ ∀ line : Buffer, line.failed = false →
      ∃ written, Written format fields line
        (writeFields line scratch.values.bytes scratch.fields captured.length format) written := by
  have hfields : scratch.fields = layout 0 captured ++ layout (valuesOf captured).length copied := by
    rw [hsound.fields, layout_append, Nat.zero_add]
  have htake : scratch.fields.take captured.length = layout 0 captured := by
    rw [hfields, List.take_left' (layout_length 0 captured)]
  have hdrop : scratch.fields.drop captured.length = layout (valuesOf captured).length copied := by
    rw [hfields, List.drop_left' (layout_length 0 captured)]
  have hvalues : scratch.values.bytes = valuesOf captured ++ valuesOf copied := by
    rw [hsound.values, values_of_append]
  obtain ⟨E, hE⟩ := event_chosen [] (valuesOf copied) captured []
  obtain ⟨S, hS⟩ := span_chosen (valuesOf captured) [] copied (sortFields (layout 0 captured))
  rw [List.nil_append] at hE
  rw [List.append_nil] at hS
  refine ⟨E ++ S, chosen_resolves hE hS, ?_⟩
  intro line hline
  simp only [writeFields, htake, hdrop, hvalues]
  obtain ⟨first, hfirst⟩ := write_each_spec [] format false hline none hE.stands
  cases hattempt : writeEach (valuesOf captured ++ valuesOf copied) [] format false line none
      (sortFields (layout 0 captured)) with
  | mk next done =>
    rw [List.length_nil] at hfirst
    rw [hattempt] at hfirst
    cases done with
    | true =>
      obtain rfl := hfirst.whole rfl
      have hopen : next.failed = false := by
        have hbytes : next = _ := hfirst.bytes
        rw [hbytes]
        exact hline
      obtain ⟨second, hsecond⟩ := write_each_spec (sortFields (layout 0 captured)) format true hopen
        none hS.stands
      exact ⟨_, hfirst.then hsecond⟩
    | false =>
      refine ⟨first, hfirst.bytes, hfirst.room, by simp, ?_⟩
      intro _
      obtain ⟨front, field, back, hsplit, hwritten⟩ := hfirst.partly rfl
      exact ⟨front, field, back ++ S, by simp [hsplit], hwritten⟩

end LogRecord
