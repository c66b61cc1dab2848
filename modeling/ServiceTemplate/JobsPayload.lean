import ServiceTemplate.JsonTree
import ServiceTemplate.JobsTable
import ServiceTemplate.Utf8Text
import ServiceTemplate.ExceptChain

/-! Admission of a job's payload: the bounded writer the serializer fills, and the scan that finds
an escaped NUL in its output without parsing it. -/
namespace JobsPayload

open ByteFraming
open Utf8Text
open ExceptChain
open JsonText
open JsonTree
open JobsTable (isValidKindName)

def maxPayloadBytes : ℕ := 262144
def maxUniqueKeyBytes : ℕ := 255
/-- 36500 days in nanoseconds. -/
def maxDelay : ℕ := 36500 * 24 * 3600 * 1000000000

inductive EnqueueError where
  | invalidKind (name : String)
  | invalidUniqueKey
  | invalidDelay
  | serialize
  | payloadTooLarge (bytes : ℕ)
  | payloadContainsNul
  deriving DecidableEq, Repr

structure EnqueueOptions where
  delay : ℕ
  uniqueKey : Option String
  deriving DecidableEq, Repr

structure Prepared where
  payload : String
  uniqueKey : Option String
  delayMicros : ℕ
  deriving DecidableEq, Repr

/-- Keeps the admitted start of the output and counts all of it. -/
structure PayloadWriter where
  retained : Bytes
  total : ℕ
  deriving DecidableEq, Repr

def PayloadWriter.new : PayloadWriter := ⟨[], 0⟩

def PayloadWriter.write (w : PayloadWriter) (bytes : Bytes) : Option PayloadWriter :=
  if w.total + bytes.length < 2 ^ 64 then
    some ⟨w.retained ++ bytes.take (min bytes.length (maxPayloadBytes - w.retained.length)),
      w.total + bytes.length⟩
  else none

/-- A serialization writes its chunks in order and then succeeds or fails. -/
structure Serialization where
  chunks : List Bytes
  fails : Bool
  deriving DecidableEq, Repr

/-- `serde_json::to_writer` into a fresh writer. -/
def toWriter (payload : Serialization) : Except EnqueueError PayloadWriter :=
  match payload.chunks.foldlM PayloadWriter.write .new, payload.fails with
  | some writer, false => .ok writer
  | _, _ => .error .serialize

/-- `char::is_control`. -/
def isControl (c : Char) : Bool := c.toNat < 32 || (127 ≤ c.toNat && c.toNat < 160)

def validUniqueKey (key : String) : Bool :=
  key ≠ "" && (asBytes key).length ≤ maxUniqueKeyBytes && !key.toList.any isControl

def checkUniqueKey : Option String → Except EnqueueError (Option String)
  | none => .ok none
  | some key => if validUniqueKey key then .ok (some key) else .error .invalidUniqueKey

/-- Whole microseconds; every admitted delay fits the column. -/
def checkedDelayMicros (duration : ℕ) : Except EnqueueError ℕ :=
  if maxDelay < duration then .error .invalidDelay
  else if duration / 1000 < 2 ^ 63 then .ok (duration / 1000)
  else .error .invalidDelay

/-- A backslash always takes the byte after it along. -/
def containsDecodedNul : Bytes → Bool
  | [] => false
  | [_] => false
  | byte :: next :: rest =>
    if byte = 92 then
      if (next :: rest).take 5 = [117, 48, 48, 48, 48] then true else containsDecodedNul rest
    else containsDecodedNul (next :: rest)

def prepare (name : String) (payload : Serialization) (options : EnqueueOptions) :
    Except EnqueueError Prepared :=
  if !isValidKindName name then .error (.invalidKind name)
  else do
    let uniqueKey ← checkUniqueKey options.uniqueKey
    let delayMicros ← checkedDelayMicros options.delay
    let writer ← toWriter payload
    if maxPayloadBytes < writer.total then .error (.payloadTooLarge writer.total)
    else if containsDecodedNul writer.retained then .error .payloadContainsNul
    else
      match fromUtf8 writer.retained with
      | some payload => .ok { payload, uniqueKey, delayMicros }
      | none => .error .serialize

theorem scan_plain_cons {byte : UInt8} (h : byte ≠ 92) (rest : Bytes) :
    containsDecodedNul (byte :: rest) = containsDecodedNul rest := by
  cases rest with
  | nil => rfl
  | cons next rest => rw [containsDecodedNul, if_neg h]

theorem scan_plain_append {bytes : Bytes} (h : 92 ∉ bytes) (rest : Bytes) :
    containsDecodedNul (bytes ++ rest) = containsDecodedNul rest := by
  induction bytes with
  | nil => rfl
  | cons byte bytes ih =>
    have hbyte : byte ≠ 92 := fun heq => h (heq ▸ List.mem_cons_self)
    rw [List.cons_append, scan_plain_cons hbyte]
    exact ih fun hmem => h (List.mem_cons_of_mem byte hmem)

/-- A short escape takes its second byte along, a backslash included. -/
theorem scan_short {next : UInt8} (h : next ≠ 117) (rest : Bytes) :
    containsDecodedNul (92 :: next :: rest) = containsDecodedNul rest := by
  have htake : (next :: rest).take 5 ≠ [117, 48, 48, 48, 48] := by
    intro heq
    rw [List.take_succ_cons, List.cons.injEq] at heq
    exact h heq.1
  rw [containsDecodedNul, if_pos rfl, if_neg htake]

theorem scan_unicode {high low : UInt8} (hhigh : high ≠ 92) (hlow : low ≠ 92) (rest : Bytes) :
    containsDecodedNul (92 :: 117 :: 48 :: 48 :: high :: low :: rest) =
      (decide (high = 48 ∧ low = 48) || containsDecodedNul rest) := by
  rw [containsDecodedNul, if_pos rfl]
  by_cases hzero : high = 48 ∧ low = 48
  · rw [hzero.1, hzero.2]
    simp
  · have htake : (117 :: 48 :: 48 :: high :: low :: rest).take 5 ≠ [117, 48, 48, 48, 48] := by
      simpa using hzero
    rw [if_neg htake, scan_plain_cons (by decide), scan_plain_cons (by decide),
      scan_plain_cons hhigh, scan_plain_cons hlow]
    simp [hzero]

/-- What the scan finds in a text, whatever follows it. -/
def Marks (text : List Char) (p : Prop) : Prop :=
  ∀ rest, containsDecodedNul (utf8 text ++ rest) = true ↔ p ∨ containsDecodedNul rest = true

theorem Marks.congr {text : List Char} {p q : Prop} (h : Marks text p) (hpq : p ↔ q) :
    Marks text q := fun rest => (h rest).trans (or_congr_left hpq)

theorem Marks.never {text : List Char} {p : Prop} (h : Marks text False) (hp : ¬ p) :
    Marks text p := h.congr (iff_of_false id hp)

theorem Marks.append {a b : List Char} {p q : Prop} (ha : Marks a p) (hb : Marks b q) :
    Marks (a ++ b) (p ∨ q) := by
  intro rest
  rw [utf8_append, List.append_assoc, ha, hb, or_assoc]

theorem marks_plain {text : List Char} (h : '\\' ∉ text) : Marks text False := by
  intro rest
  have hbytes : (92 : UInt8) ∉ utf8 text := by
    intro hmem
    obtain ⟨c, hc, hbyte⟩ := List.mem_flatMap.mp hmem
    have hcode : c.toNat = 92 := encode_char_ascii_byte hbyte (by decide)
    have hback : c = '\\' := Char.toNat_inj.mp hcode
    exact h (hback ▸ hc)
  rw [scan_plain_append hbytes, false_or]

theorem utf8_ascii {text : List Char} (h : ∀ c ∈ text, c.toNat < 128) :
    utf8 text = text.map fun c => UInt8.ofNat c.toNat := by
  rw [← as_bytes_of_list, as_bytes_ascii (by simpa using h), String.toList_ofList]

theorem marks_short {c : Char} (hascii : c.toNat < 128) (h : c ≠ 'u') : Marks ['\\', c] False := by
  intro rest
  have hbytes : utf8 ['\\', c] = [92, UInt8.ofNat c.toNat] := by
    rw [utf8_ascii (by simpa using hascii)]
    rfl
  have hnext : UInt8.ofNat c.toNat ≠ 117 := by
    intro heq
    have hcode := congrArg UInt8.toNat heq
    rw [UInt8.toNat_ofNat_of_lt' (Nat.lt_trans hascii (by decide))] at hcode
    exact h (Char.toNat_inj.mp hcode)
  rw [hbytes, List.cons_append, List.cons_append, List.nil_append, scan_short hnext, false_or]

theorem marks_unicode {n : ℕ} (h : n < 32) :
    Marks ['\\', 'u', '0', '0', hexDigit (n / 16), hexDigit (n % 16)] (n = 0) := by
  intro rest
  have hdigits : ∀ m < 16, (hexDigit m).toNat < 128 ∧ UInt8.ofNat (hexDigit m).toNat ≠ 92 ∧
      (UInt8.ofNat (hexDigit m).toNat = 48 ↔ m = 0) := by decide
  obtain ⟨hhigh, hhigh', hhigh₀⟩ := hdigits (n / 16) (by omega)
  obtain ⟨hlow, hlow', hlow₀⟩ := hdigits (n % 16) (by omega)
  have hbytes : utf8 ['\\', 'u', '0', '0', hexDigit (n / 16), hexDigit (n % 16)] =
      [92, 117, 48, 48, UInt8.ofNat (hexDigit (n / 16)).toNat,
        UInt8.ofNat (hexDigit (n % 16)).toNat] := by
    rw [utf8_ascii (by simp [hhigh, hlow])]
    rfl
  rw [hbytes]
  simp only [List.cons_append, List.nil_append]
  rw [scan_unicode hhigh' hlow', Bool.or_eq_true, decide_eq_true_eq, hhigh₀, hlow₀]
  refine or_congr_left ?_
  omega

/-- The scan stops at the escape of U+0000 and passes every other character. -/
theorem marks_escape (c : Char) : Marks (escapeChar c) (c = '\x00') := by
  have hnul : c = '\x00' ↔ c.toNat = 0 := Char.toNat_inj.symm
  unfold escapeChar
  split
  · rename_i hquote
    subst hquote
    exact (marks_short (by decide) (by decide)).never (by decide)
  split
  · rename_i hback
    subst hback
    exact (marks_short (by decide) (by decide)).never (by decide)
  rename_i hback
  rw [hnul]
  split
  · exact (marks_short (by decide) (by decide)).never (by omega)
  split
  · exact (marks_short (by decide) (by decide)).never (by omega)
  split
  · exact (marks_short (by decide) (by decide)).never (by omega)
  split
  · exact (marks_short (by decide) (by decide)).never (by omega)
  split
  · exact (marks_short (by decide) (by decide)).never (by omega)
  split
  · rename_i hcontrol
    exact marks_unicode hcontrol
  · refine (marks_plain ?_).never (by omega)
    rw [List.mem_singleton]
    exact fun heq => hback heq.symm

theorem marks_text (text : List Char) : Marks (text.flatMap escapeChar) ('\x00' ∈ text) := by
  induction text with
  | nil => exact (marks_plain (by simp)).congr (by simp)
  | cons c text ih =>
    rw [List.flatMap_cons]
    refine ((marks_escape c).append ih).congr ?_
    rw [List.mem_cons, eq_comm]

theorem marks_quote (text : List Char) : Marks (quote text) ('\x00' ∈ text) := by
  have hopen : Marks ['"'] False := marks_plain (by decide)
  exact (hopen.append ((marks_text text).append hopen)).congr (by simp)

theorem marks_scalar (value : Scalar) : Marks value.render (∃ text, value = .string text ∧ '\x00' ∈ text) := by
  cases value with
  | null => exact (marks_plain (by decide)).congr (by simp)
  | bool value => cases value <;> exact (marks_plain (by decide)).congr (by simp)
  | number token valid =>
    refine (marks_plain ?_).congr (by simp)
    intro hmem
    have hchar := List.all_eq_true.mp (number_chars valid) _ hmem
    exact absurd hchar (by decide)
  | string text => exact (marks_quote text).congr (by simp)

theorem marks_intercalate {ι : Type} {f : ι → List Char} {p : ι → Prop} {parts : List ι}
    (h : ∀ part ∈ parts, Marks (f part) (p part)) :
    Marks ([','].intercalate (parts.map f)) (∃ part ∈ parts, p part) := by
  have hcomma : Marks [','] False := marks_plain (by decide)
  induction parts with
  | nil => exact (marks_plain (by simp)).congr (by simp)
  | cons part parts ih =>
    obtain ⟨hpart, hparts⟩ := List.forall_mem_cons.mp h
    cases parts with
    | nil =>
      simp only [List.map_cons, List.map_nil, List.intercalate_singleton]
      exact hpart.congr (by simp)
    | cons next parts =>
      have hrest := ih hparts
      rw [List.map_cons, List.map_cons, List.intercalate_cons_cons]
      refine ((hpart.append hcomma).append hrest).congr ?_
      simp only [or_false, List.exists_mem_cons_iff]

/-- A string of the value or a key of one of its objects holds U+0000. -/
def HasNul (v : Json) : Prop := ∃ text, Occurs text v ∧ '\x00' ∈ text

theorem has_nul_array {items : List Json} : HasNul (.array items) ↔ ∃ item ∈ items, HasNul item := by
  simp only [HasNul, occurs_array]
  constructor
  · rintro ⟨text, ⟨item, hmem, h⟩, hnul⟩
    exact ⟨item, hmem, text, h, hnul⟩
  · rintro ⟨item, hmem, text, h, hnul⟩
    exact ⟨text, ⟨item, hmem, h⟩, hnul⟩

theorem has_nul_object {members : List (String × Json)} :
    HasNul (.object members) ↔
      ∃ member ∈ members, '\x00' ∈ member.1.toList ∨ HasNul member.2 := by
  simp only [HasNul, occurs_object]
  constructor
  · rintro ⟨text, ⟨member, hmem, rfl | h⟩, hnul⟩
    · exact ⟨member, hmem, .inl hnul⟩
    · exact ⟨member, hmem, .inr ⟨text, h, hnul⟩⟩
  · rintro ⟨member, hmem, hnul | ⟨text, h, hnul⟩⟩
    · exact ⟨_, ⟨member, hmem, .inl rfl⟩, hnul⟩
    · exact ⟨text, ⟨member, hmem, .inr h⟩, hnul⟩

theorem marks_member {member : String × Json} (h : Marks member.2.render (HasNul member.2)) :
    Marks (quote member.1.toList ++ ':' :: member.2.render)
      ('\x00' ∈ member.1.toList ∨ HasNul member.2) := by
  have hcolon : Marks [':'] False := marks_plain (by decide)
  exact ((marks_quote _).append (hcolon.append h)).congr (by rw [false_or])

theorem marks_render (v : Json) : Marks v.render (HasNul v) := by
  induction v using Json.induct with
  | scalar value =>
    rw [Json.render]
    exact (marks_scalar value).congr (by simp [HasNul, occurs_scalar])
  | array items ih =>
    have hopen : Marks ['['] False := marks_plain (by decide)
    have hclose : Marks [']'] False := marks_plain (by decide)
    rw [Json.render, Json.render_items_eq]
    refine (hopen.append ((marks_intercalate ih).append hclose)).congr ?_
    rw [false_or, or_false, has_nul_array]
  | object members ih =>
    have hopen : Marks ['\x7b'] False := marks_plain (by decide)
    have hclose : Marks ['\x7d'] False := marks_plain (by decide)
    rw [Json.render, Json.render_members_eq]
    refine (hopen.append ((marks_intercalate fun member hmem =>
      marks_member (ih member hmem)).append hclose)).congr ?_
    rw [false_or, or_false, has_nul_object]

/-- `serde_json`'s compact bytes. -/
def encoding (v : Json) : Bytes := utf8 v.render

theorem contains_decoded_nul_iff (v : Json) : containsDecodedNul (encoding v) = true ↔ HasNul v := by
  have h := marks_render v []
  rw [List.append_nil] at h
  rw [encoding, h]
  simp [containsDecodedNul]

/-- The start of the output within the limit, and the size of all of it. -/
def written (output : Bytes) : PayloadWriter := ⟨output.take maxPayloadBytes, output.length⟩

theorem write_written (output chunk : Bytes) : (written output).write chunk =
    if (output ++ chunk).length < 2 ^ 64 then some (written (output ++ chunk)) else none := by
  have hkept : output.take maxPayloadBytes ++ chunk.take (min chunk.length
      (maxPayloadBytes - (output.take maxPayloadBytes).length)) =
      (output ++ chunk).take maxPayloadBytes := by
    rw [List.take_append, List.length_take, Nat.min_comm chunk.length, ← List.take_take,
      List.take_length]
    congr 2
    omega
  simp only [PayloadWriter.write, written, hkept, List.length_append]

/-- However the output is split, the writer keeps its start and counts it. -/
theorem write_chunks (chunks : List Bytes) (output : Bytes)
    (h : (output ++ chunks.flatten).length < 2 ^ 64) :
    chunks.foldlM PayloadWriter.write (written output) =
      some (written (output ++ chunks.flatten)) := by
  induction chunks generalizing output with
  | nil => simp
  | cons chunk chunks ih =>
    rw [List.flatten_cons, ← List.append_assoc] at h ⊢
    have hfits : (output ++ chunk).length < 2 ^ 64 := by
      rw [List.length_append] at h
      omega
    rw [List.foldlM_cons, write_written, if_pos hfits]
    exact ih _ h

theorem write_chunks_overflow (chunks : List Bytes) (output : Bytes)
    (h : 2 ^ 64 ≤ (output ++ chunks.flatten).length) (hout : output.length < 2 ^ 64) :
    chunks.foldlM PayloadWriter.write (written output) = none := by
  induction chunks generalizing output with
  | nil =>
    rw [List.flatten_nil, List.append_nil] at h
    omega
  | cons chunk chunks ih =>
    rw [List.flatten_cons, ← List.append_assoc] at h
    rw [List.foldlM_cons, write_written]
    by_cases hfits : (output ++ chunk).length < 2 ^ 64
    · rw [if_pos hfits]
      exact ih _ h hfits
    · rw [if_neg hfits]
      rfl

/-- A successful serialization reaches the checks, or its size alone stops it. -/
theorem to_writer_eq (chunks : List Bytes) :
    toWriter ⟨chunks, false⟩ =
      if chunks.flatten.length < 2 ^ 64 then .ok (written chunks.flatten)
      else .error .serialize := by
  have hnew : PayloadWriter.new = written [] := rfl
  by_cases hfits : chunks.flatten.length < 2 ^ 64
  · have hwritten := write_chunks chunks [] hfits
    rw [← hnew, List.nil_append] at hwritten
    simp only [toWriter, hwritten, hfits, if_true]
  · have hnone := write_chunks_overflow chunks [] (Nat.not_lt.mp hfits) (by decide)
    rw [← hnew] at hnone
    simp only [toWriter, hnone, hfits, if_false]

structure Admissible (name : String) (options : EnqueueOptions) : Prop where
  name : isValidKindName name = true
  uniqueKey : ∀ key ∈ options.uniqueKey, validUniqueKey key = true
  delay : options.delay ≤ maxDelay

theorem prepare_eq {name : String} {options : EnqueueOptions} (h : Admissible name options)
    {v : Json} {chunks : List Bytes} (hchunks : chunks.flatten = encoding v) :
    prepare name ⟨chunks, false⟩ options =
      if 2 ^ 64 ≤ (encoding v).length then .error .serialize
      else if maxPayloadBytes < (encoding v).length then
        .error (.payloadTooLarge (encoding v).length)
      else if containsDecodedNul (encoding v) then .error .payloadContainsNul
      else .ok ⟨String.ofList v.render, options.uniqueKey, options.delay / 1000⟩ := by
  have hkey : checkUniqueKey options.uniqueKey = .ok options.uniqueKey := by
    cases hoption : options.uniqueKey with
    | none => rfl
    | some key => simp [checkUniqueKey, h.uniqueKey key hoption]
  have hdelay : checkedDelayMicros options.delay = .ok (options.delay / 1000) := by
    have hle := h.delay
    have hfits : options.delay / 1000 < 2 ^ 63 := by
      simp only [maxDelay] at hle
      omega
    rw [checkedDelayMicros, if_neg (Nat.not_lt.mpr hle), if_pos hfits]
  simp only [prepare, h.name, Bool.not_true, Bool.false_eq_true, if_false, hkey, hdelay,
    to_writer_eq, hchunks, bind, Except.bind]
  by_cases hover : (encoding v).length < 2 ^ 64
  · simp only [if_pos hover, if_neg (Nat.not_le.mpr hover), written]
    by_cases hlarge : maxPayloadBytes < (encoding v).length
    · rw [if_pos hlarge, if_pos hlarge]
    · have hwhole : (encoding v).take maxPayloadBytes = encoding v :=
        List.take_of_length_le (Nat.not_lt.mp hlarge)
      have htext : fromUtf8 (encoding v) = some (String.ofList v.render) := by
        rw [encoding, ← as_bytes_of_list, from_utf8_as_bytes]
      rw [if_neg hlarge, if_neg hlarge, hwhole, htext]
  · simp only [if_neg hover, if_pos (Nat.not_lt.mp hover)]

theorem prepare_ok_iff {name : String} {options : EnqueueOptions} (h : Admissible name options)
    {v : Json} {chunks : List Bytes} (hchunks : chunks.flatten = encoding v) {prepared : Prepared} :
    prepare name ⟨chunks, false⟩ options = .ok prepared ↔
      ((encoding v).length ≤ maxPayloadBytes ∧ ¬ HasNul v) ∧
        prepared = ⟨String.ofList v.render, options.uniqueKey, options.delay / 1000⟩ := by
  have hlimit : maxPayloadBytes < 2 ^ 64 := by decide
  rw [prepare_eq h hchunks, ← contains_decoded_nul_iff]
  split
  · rename_i hover
    constructor
    · intro hok
      cases hok
    · rintro ⟨⟨hfits, -⟩, -⟩
      omega
  · split
    · rename_i hlarge
      constructor
      · intro hok
        cases hok
      · rintro ⟨⟨hfits, -⟩, -⟩
        omega
    · rename_i hfits
      split
      · rename_i hnul
        simp [hnul]
      · rename_i hnul
        rw [Except.ok.injEq, eq_comm]
        simp [hnul, Nat.not_lt.mp hfits]

/-- The scan is exact on serializer output, and the call admits exactly the payloads that fit and
hold no NUL, however their encoding is split into writes. -/
theorem payload_admission_exact (v : Json) :
    (containsDecodedNul (encoding v) = true ↔ HasNul v) ∧
      ∀ name options chunks, Admissible name options → chunks.flatten = encoding v →
        ((∃ prepared, prepare name ⟨chunks, false⟩ options = .ok prepared) ↔
          (encoding v).length ≤ maxPayloadBytes ∧ ¬ HasNul v) ∧
        ∀ prepared, prepare name ⟨chunks, false⟩ options = .ok prepared →
          asBytes prepared.payload = encoding v := by
  refine ⟨contains_decoded_nul_iff v, ?_⟩
  intro name options chunks hadmissible hchunks
  constructor
  · constructor
    · rintro ⟨prepared, hprepared⟩
      exact ((prepare_ok_iff hadmissible hchunks).mp hprepared).1
    · intro hpayload
      exact ⟨_, (prepare_ok_iff hadmissible hchunks).mpr ⟨hpayload, rfl⟩⟩
  · intro prepared hprepared
    obtain ⟨-, rfl⟩ := (prepare_ok_iff hadmissible hchunks).mp hprepared
    exact as_bytes_of_list v.render

end JobsPayload
