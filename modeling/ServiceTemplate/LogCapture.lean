import ServiceTemplate.JsonText
import ServiceTemplate.Utf8Text
import Mathlib.Data.List.Forall2

/-! Bounded capture of the fields of a log record: the fixed byte buffers, the fields of an event as
its call site gives them, and the fields a span keeps for the events inside it. -/
namespace LogCapture

open ByteFraming
open Utf8Text
open JsonText

def maxRecordBytes : ℕ := 16384
def maxFields : ℕ := 128
def spanBytes : ℕ := 4096
def spanFields : ℕ := 64

/-- `Bytes`: what was written below a limit. A write that does not fit writes nothing, and no later
one succeeds. -/
structure Buffer where
  bytes : Bytes
  limit : ℕ
  failed : Bool

def Buffer.empty (limit : ℕ) : Buffer := ⟨[], limit, false⟩

def Buffer.room (buffer : Buffer) : ℕ := buffer.limit - buffer.bytes.length

def Buffer.append (buffer : Buffer) (bytes : Bytes) : Buffer :=
  if buffer.failed || decide (buffer.room < bytes.length) then { buffer with failed := true }
  else { buffer with bytes := buffer.bytes ++ bytes }

/-- `Bytes::json`. A value that does not fit leaves a part of it, which no caller keeps. -/
def Buffer.json (buffer : Buffer) (value : List Char) : Buffer := buffer.append (utf8 value)

structure Entry where
  key : String
  start : ℕ
  stop : ℕ
  deriving DecidableEq

def Entry.slice (field : Entry) (values : Bytes) : Bytes :=
  (values.drop field.start).take (field.stop - field.start)

/-- The captured values, one after another, and where each field's value stands. -/
structure Scratch where
  values : Buffer
  fields : List Entry
  truncated : Bool

def Scratch.new (valueLimit : ℕ) : Scratch := ⟨.empty valueLimit, [], false⟩

def Scratch.stop (scratch : Scratch) : Scratch :=
  { scratch with values := { scratch.values with failed := true }, truncated := true }

def Scratch.push (scratch : Scratch) (key : String) (value : List Char) (limit : ℕ) : Scratch :=
  if scratch.values.failed then scratch
  else if scratch.fields.length = limit then scratch.stop
  else
    let start := scratch.values.bytes.length
    let values := scratch.values.json value
    if values.failed then
      -- A partly written value is no value: the field stays out.
      { scratch with values := { values with bytes := values.bytes.take start }, truncated := true }
    else
      { scratch with values, fields := scratch.fields ++ [⟨key, start, values.bytes.length⟩] }

def digits : Bytes := asBytes "0123456789abcdef"

def escape (c : Char) : Bytes :=
  if c = '"' then [92, 34]
  else if c = '\\' then [92, 92]
  else if c.toNat = 8 then [92, 98]
  else if c.toNat = 12 then [92, 102]
  else if c = '\n' then [92, 110]
  else if c = '\r' then [92, 114]
  else if c = '\t' then [92, 116]
  else if c.toNat ≤ 31 then
    [92, 117, 48, 48, digits.getD (c.toNat / 16) 0, digits.getD (c.toNat % 16) 0]
  else String.utf8EncodeChar c

/-- `Quoted::write_str`: written until one byte short of the limit, and whether all was. -/
def writeQuoted (values : Buffer) : List Char → Buffer × Bool
  | [] => (values, true)
  | c :: text =>
    if values.room ≤ (escape c).length then (values, false)
    else writeQuoted (values.append (escape c)) text

/-- What a value's own formatting does: the texts it writes, whether it stops at a write that fails,
and whether it succeeds otherwise. -/
structure Formatting where
  chunks : List String
  stops : Bool
  ok : Bool

def Formatting.text (formatting : Formatting) : List Char :=
  formatting.chunks.flatMap String.toList

/-- `fmt::write` into a quoted string: the buffer, whether it was cut, and whether writing failed. -/
def writeChunks (stops : Bool) : Buffer → Bool → List String → Buffer × Bool × Bool
  | values, cut, [] => (values, cut, false)
  | values, cut, chunk :: chunks =>
    match writeQuoted values chunk.toList with
    | (values, true) => writeChunks stops values cut chunks
    | (values, false) => if stops then (values, true, true) else writeChunks stops values true chunks

def Scratch.pushText (scratch : Scratch) (key : String) (formatting : Formatting) : Scratch :=
  if scratch.values.failed then scratch
  else if scratch.fields.length = maxFields || decide (scratch.values.room < 2) then scratch.stop
  else
    let start := scratch.values.bytes.length
    let (values, cut, stopped) :=
      writeChunks formatting.stops (scratch.values.append [34]) false formatting.chunks
    if (stopped || !formatting.ok) && !cut then
      -- The value's own formatting failed: the field stays out.
      { scratch with values := { values with bytes := values.bytes.take start }, truncated := true }
    else
      let values := values.append [34]
      { values
        fields := scratch.fields ++ [⟨key, start, values.bytes.length⟩]
        truncated := scratch.truncated || cut }

def Scratch.copy (scratch : Scratch) (field : Entry) (bytes : Bytes) : Scratch :=
  if scratch.values.failed then scratch
  else if scratch.fields.length = maxFields then scratch.stop
  else
    let start := scratch.values.bytes.length
    let values := scratch.values.append (field.slice bytes)
    if values.failed then { scratch with values, truncated := true }
    else
      { scratch with values, fields := scratch.fields ++ [⟨field.key, start, values.bytes.length⟩] }

structure SpanFields where
  bytes : Bytes
  fields : List Entry

/-- The last value of a key wins; the rest is written anew into `line`. -/
def compactFrom (values : Bytes) : List Entry → Buffer → List Entry → Option SpanFields
  | [], line, kept => if line.failed then none else some ⟨line.bytes, kept⟩
  | field :: rest, line, kept =>
    if rest.any (fun next => next.key = field.key) then compactFrom values rest line kept
    else if kept.length = spanFields then none
    else
      let start := line.bytes.length
      let line := line.append (field.slice values)
      compactFrom values rest line (kept ++ [⟨field.key, start, line.bytes.length⟩])

def Scratch.compactSpan (scratch : Scratch) : Option SpanFields :=
  if scratch.values.failed then none
  else compactFrom scratch.values.bytes scratch.fields (.empty spanBytes) []

section Capture

variable {F : Type}

/-- The value of a field; `F` is the type of doubles. -/
inductive Value (F : Type) where
  | f64 (value : F)
  | i64 (value : Int64)
  | u64 (value : UInt64)
  | bool (value : Bool)
  | str (value : String)
  | debug (value : Formatting)

/-- The JSON value `serde_json` writes; a double is written by a library of its own. -/
def Value.scalar (f64 : F → Scalar) : Value F → Scalar
  | .f64 value => f64 value
  | .i64 value => .number (decimal value.toInt) (decimal_is_number _)
  | .u64 value => .number (Nat.toDigits 10 value.toNat) (decimal_number _)
  | .bool value => .bool value
  | .str value => .string value.toList
  | .debug value => .string value.text

def isLogField (name : String) : Bool := "log.".toList.isPrefixOf name.toList

/-- `strip_prefix("r#")`, or the name itself. -/
def stripRaw (name : String) : String :=
  match name.toList with
  | 'r' :: '#' :: rest => String.ofList rest
  | _ => name

/-- `Capture` for an event. An event of the `log` crate brings fields of the bridge. -/
def recordEvent (f64 : F → Scalar) (bridged : Bool) (scratch : Scratch) (field : String × Value F) :
    Scratch :=
  if bridged && isLogField field.1 then scratch
  else
    match field.2 with
    | .str text => scratch.pushText field.1 ⟨[text], true, true⟩
    | .debug formatting => scratch.pushText field.1 formatting
    | value => scratch.push field.1 (value.scalar f64).render maxFields

/-- `Capture` for a span; nothing when a formatting that fails although its text fits unwinds. -/
def recordSpan (f64 : F → Scalar) (scratch : Scratch) (field : String × Value F) : Option Scratch :=
  match field.2 with
  | .str text =>
    if scratch.values.room < (asBytes text).length then some scratch.stop
    else some (scratch.push field.1 (quote text.toList) spanFields)
  | .debug formatting =>
    if isLogField field.1 then some scratch
    else if !formatting.ok && !scratch.values.failed && scratch.fields.length ≠ spanFields &&
        decide ((formatting.text.flatMap escape).length < scratch.values.room) then none
    else some (scratch.push (stripRaw field.1) (quote formatting.text) spanFields)
  | value => some (scratch.push field.1 (value.scalar f64).render spanFields)

def onNewSpan (f64 : F → Scalar) (attributes : List (String × Value F)) (name : String) :
    Option SpanFields :=
  (attributes.foldlM (recordSpan f64) (Scratch.new spanBytes)).bind fun scratch =>
    (scratch.push "name" (quote name.toList) spanFields).compactSpan

/-- `on_record`, when it is admitted: the delta, then what it does not replace. -/
def onRecord (f64 : F → Scalar) (cached : SpanFields) (values : List (String × Value F)) :
    Option SpanFields :=
  match values.foldlM (recordSpan f64) (Scratch.new spanBytes) with
  | none => some cached
  | some scratch =>
    let delta := scratch.fields
    let scratch := { scratch with values := { scratch.values with limit := maxRecordBytes } }
    (cached.fields.foldl (fun scratch field =>
      if delta.any (fun next => next.key = field.key) then scratch
      else scratch.copy field cached.bytes) scratch).compactSpan

def copySpans : Scratch → List (Option SpanFields) → Scratch
  | scratch, [] => scratch
  | scratch, none :: spans => copySpans { scratch with truncated := true } spans
  | scratch, some cached :: spans =>
    let scratch := cached.fields.foldl (fun scratch field => scratch.copy field cached.bytes) scratch
    if scratch.values.failed then scratch else copySpans scratch spans

end Capture

theorem append_fits {buffer : Buffer} {bytes : Bytes} (hfailed : buffer.failed = false)
    (hfits : bytes.length ≤ buffer.room) :
    buffer.append bytes = { buffer with bytes := buffer.bytes ++ bytes } := by
  have hroom : ¬ buffer.room < bytes.length := Nat.not_lt.mpr hfits
  simp [Buffer.append, hfailed, hroom]

theorem append_full {buffer : Buffer} {bytes : Bytes} (h : buffer.room < bytes.length) :
    buffer.append bytes = { buffer with failed := true } := by
  simp [Buffer.append, h]

theorem append_failed {buffer : Buffer} (bytes : Bytes) (h : buffer.failed = true) :
    buffer.append bytes = buffer := by
  cases buffer
  subst h
  simp [Buffer.append]

theorem escape_plain {c : Char} (hcontrol : ¬ c.toNat < 32) (hquote : c ≠ '"') (hback : c ≠ '\\') :
    escape c = String.utf8EncodeChar c := by
  have hne : ∀ d : Char, d.toNat < 32 → c ≠ d := by
    rintro d hd rfl
    exact hcontrol hd
  simp only [escape, hquote, hback, hne '\n' (by decide), hne '\r' (by decide),
    hne '\t' (by decide), if_false]
  rw [if_neg (by omega), if_neg (by omega), if_neg (by omega)]

theorem escape_eq (c : Char) : escape c = utf8 (escapeChar c) := by
  by_cases hcontrol : c.toNat < 32
  · have hall : ∀ n < 32, escape (Char.ofNat n) = utf8 (escapeChar (Char.ofNat n)) := by
      decide
    have h := hall c.toNat hcontrol
    rwa [Char.ofNat_toNat] at h
  · by_cases hquote : c = '"'
    · subst hquote
      decide
    by_cases hback : c = '\\'
    · subst hback
      decide
    rw [escape_plain hcontrol hquote hback, escape_char_plain hcontrol hquote hback, utf8,
      List.flatMap_singleton]

def escaped (text : List Char) : Bytes := text.flatMap escape

theorem utf8_quote (text : List Char) : utf8 (quote text) = 34 :: (escaped text ++ [34]) := by
  have hquote : String.utf8EncodeChar '"' = [34] := by decide
  have hinside : utf8 (text.flatMap escapeChar) = escaped text := by
    induction text with
    | nil => rfl
    | cons c text ih => rw [List.flatMap_cons, utf8_append, ih, ← escape_eq, escaped, escaped,
        List.flatMap_cons]
  have hlast : utf8 ['"'] = [34] := by rw [utf8, List.flatMap_singleton, hquote]
  rw [quote, utf8, List.flatMap_cons, hquote, List.singleton_append]
  exact congrArg (34 :: ·) (by rw [← utf8, utf8_append, hinside, hlast])

/-- A quoted write adds the escapes of a start of the text and leaves a byte of room. -/
theorem write_quoted_spec {values : Buffer} (hfailed : values.failed = false)
    (hroom : 1 ≤ values.room) (text : List Char) :
    ∃ written rest, text = written ++ rest ∧
      (writeQuoted values text).1 = { values with bytes := values.bytes ++ escaped written } ∧
      1 ≤ (writeQuoted values text).1.room ∧ ((writeQuoted values text).2 = true → rest = []) := by
  induction text generalizing values with
  | nil => exact ⟨[], [], rfl, by simp [writeQuoted, escaped], hroom, fun _ => rfl⟩
  | cons c text ih =>
    simp only [writeQuoted]
    by_cases hcut : values.room ≤ (escape c).length
    · rw [if_pos hcut]
      exact ⟨[], c :: text, rfl, by simp [escaped], hroom, by simp⟩
    · rw [if_neg hcut, append_fits hfailed (by omega)]
      generalize hnext : ({ values with bytes := values.bytes ++ escape c } : Buffer) = next
      have hsame : next.failed = false := hnext ▸ hfailed
      have hmore : 1 ≤ next.room := by
        rw [← hnext]
        simp only [Buffer.room, List.length_append] at hcut ⊢
        omega
      obtain ⟨written, rest, rfl, hbytes, hleft, hall⟩ := ih hsame hmore
      refine ⟨c :: written, rest, rfl, ?_, hleft, hall⟩
      rw [hbytes, ← hnext]
      simp [escaped]

/-- A start of each text that a formatting writes, in order; of the texts together where the
formatting stops at a failed write. -/
def StartsOf (stops : Bool) (chunks : List String) (text : List Char) : Prop :=
  (∃ parts, List.Forall₂ (fun part chunk => part <+: String.toList chunk) parts chunks ∧
    text = parts.flatten) ∧
  (stops = true → text <+: chunks.flatMap String.toList)

theorem StartsOf.whole {stops : Bool} {chunks : List String} {text : List Char} (chunk : String)
    (h : StartsOf stops chunks text) : StartsOf stops (chunk :: chunks) (chunk.toList ++ text) := by
  obtain ⟨⟨parts, hparts, rfl⟩, hstart⟩ := h
  refine ⟨⟨chunk.toList :: parts, .cons (List.prefix_refl _) hparts, rfl⟩, ?_⟩
  intro hstops
  rw [List.flatMap_cons]
  exact (List.prefix_append_right_inj _).mpr (hstart hstops)

theorem StartsOf.cut (stops : Bool) {chunk : String} (chunks : List String) {written : List Char}
    (h : written <+: chunk.toList) : StartsOf stops (chunk :: chunks) written := by
  refine ⟨⟨written :: chunks.map fun _ => [], .cons h ?_, ?_⟩, ?_⟩
  · rw [List.forall₂_map_left_iff, List.forall₂_same]
    exact fun _ _ => List.nil_prefix
  · rw [List.flatten_cons]
    simp
  · intro _
    exact h.trans (List.prefix_append _ _)

/-- What a value's formatting leaves: the escapes of a text, which is all of it unless it was cut. -/
theorem write_chunks_spec {values : Buffer} (hfailed : values.failed = false)
    (hroom : 1 ≤ values.room) (stops cut : Bool) (chunks : List String) :
    ∃ text, (writeChunks stops values cut chunks).1 =
        { values with bytes := values.bytes ++ escaped text } ∧
      1 ≤ (writeChunks stops values cut chunks).1.room ∧
      ((writeChunks stops values cut chunks).2.1 = false →
        cut = false ∧ text = chunks.flatMap String.toList ∧
          (writeChunks stops values cut chunks).2.2 = false) ∧
      StartsOf stops chunks text := by
  induction chunks generalizing values cut with
  | nil =>
    refine ⟨[], by simp [writeChunks, escaped], hroom, ?_, ⟨[], .nil, rfl⟩, by simp⟩
    intro hcut
    exact ⟨hcut, rfl, rfl⟩
  | cons chunk chunks ih =>
    obtain ⟨written, rest, htext, hbytes, hleft, hall⟩ :=
      write_quoted_spec hfailed hroom chunk.toList
    have hsame : (writeQuoted values chunk.toList).1.failed = false := by
      rw [hbytes]
      exact hfailed
    simp only [writeChunks]
    cases hwrite : writeQuoted values chunk.toList with
    | mk next fine =>
      rw [hwrite] at hbytes hleft hall hsame
      cases fine with
      | true =>
        obtain rfl := hall rfl
        obtain ⟨text, hrest, hroom', hdone, hstart⟩ := ih hsame hleft cut
        refine ⟨written ++ text, ?_, hroom', ?_, ?_⟩
        · rw [hrest, hbytes]
          simp [escaped]
        · intro hcut
          obtain ⟨hbefore, hwhole, hstopped⟩ := hdone hcut
          exact ⟨hbefore, by rw [hwhole, List.flatMap_cons, htext, List.append_nil], hstopped⟩
        · rw [List.append_nil] at htext
          rw [← htext]
          exact hstart.whole chunk
      | false =>
        have hwritten : written <+: chunk.toList := ⟨rest, htext.symm⟩
        cases stops with
        | true => exact ⟨written, hbytes, hleft, by simp, .cut true chunks hwritten⟩
        | false =>
          obtain ⟨text, hrest, hroom', hdone, ⟨parts, hparts, rfl⟩, -⟩ := ih hsame hleft true
          refine ⟨written ++ parts.flatten, ?_, hroom', ?_,
            ⟨written :: parts, .cons hwritten hparts, rfl⟩, by simp⟩
          · show (writeChunks false next true chunks).1 = _
            rw [hrest, hbytes]
            simp [escaped]
          · intro hcut
            exact absurd (hdone hcut).1 (by simp)

def encoded (value : Scalar) : Bytes := utf8 value.render

theorem encoded_string (text : List Char) :
    encoded (.string text) = 34 :: (escaped text ++ [34]) := utf8_quote text

def valuesOf (captured : List (String × Scalar)) : Bytes := captured.flatMap fun field => encoded field.2

theorem values_of_append (xs ys : List (String × Scalar)) :
    valuesOf (xs ++ ys) = valuesOf xs ++ valuesOf ys := List.flatMap_append

theorem values_of_singleton (field : String × Scalar) : valuesOf [field] = encoded field.2 := by
  simp [valuesOf]

def layout : ℕ → List (String × Scalar) → List Entry
  | _, [] => []
  | start, field :: rest =>
    ⟨field.1, start, start + (encoded field.2).length⟩ ::
      layout (start + (encoded field.2).length) rest

theorem layout_keys (start : ℕ) (fields : List (String × Scalar)) :
    (layout start fields).map Entry.key = fields.map Prod.fst := by
  induction fields generalizing start with
  | nil => rfl
  | cons field rest ih => rw [layout, List.map_cons, List.map_cons, ih]

theorem layout_append (start : ℕ) (xs ys : List (String × Scalar)) :
    layout start (xs ++ ys) = layout start xs ++ layout (start + (valuesOf xs).length) ys := by
  induction xs generalizing start with
  | nil => rfl
  | cons field xs ih =>
    have hlength : start + (encoded field.2).length + (valuesOf xs).length =
        start + (valuesOf (field :: xs)).length := by
      simp [valuesOf]
      omega
    rw [List.cons_append, layout, layout, ih, hlength, List.cons_append]

/-- The scratch holds exactly these fields, and says so when it refuses more. -/
structure Sound (scratch : Scratch) (captured : List (String × Scalar)) : Prop where
  values : scratch.values.bytes = valuesOf captured
  fields : scratch.fields = layout 0 captured
  marked : scratch.values.failed = true → scratch.truncated = true

theorem sound_new (limit : ℕ) : Sound (Scratch.new limit) [] := by
  refine ⟨rfl, rfl, ?_⟩
  intro h
  cases h

/-- A step takes the field with a value it may have, or marks the record and takes nothing more,
unless the value's own formatting fails. -/
structure Takes (field : String × Scalar) (kept : Scalar → Prop) (fails : Prop) (s t : Scratch)
    (captured more : List (String × Scalar)) : Prop where
  sound : Sound t (captured ++ more)
  kept : (more = [] ∧ (t.values.failed = true ∨ fails)) ∨
    ∃ value, kept value ∧ more = [(field.1, value)]
  whole : t.truncated = false → s.truncated = false ∧ more = [field]

section Steps

variable {s t : Scratch} {captured : List (String × Scalar)}

theorem Sound.refused (h : Sound s captured) (hfailed : s.values.failed = true)
    (field : String × Scalar) (kept : Scalar → Prop) (fails : Prop) :
    Takes field kept fails s s captured [] where
  sound := by rwa [List.append_nil]
  kept := .inl ⟨rfl, .inl hfailed⟩
  whole := by
    intro hwhole
    rw [h.marked hfailed] at hwhole
    cases hwhole

theorem Sound.dropped (h : Sound s captured) (hvalues : t.values.bytes = s.values.bytes)
    (hfields : t.fields = s.fields) (hmarked : t.truncated = true) (field : String × Scalar)
    (kept : Scalar → Prop) {fails : Prop} (hleft : t.values.failed = true ∨ fails) :
    Takes field kept fails s t captured [] where
  sound := by
    rw [List.append_nil]
    exact ⟨hvalues.trans h.values, hfields.trans h.fields, fun _ => hmarked⟩
  kept := .inl ⟨rfl, hleft⟩
  whole := by
    intro hwhole
    rw [hmarked] at hwhole
    cases hwhole

theorem Sound.extended (h : Sound s captured) (key : String) {value : Scalar} {values : Buffer}
    (truncated : Bool) (hbytes : values.bytes = s.values.bytes ++ encoded value)
    (hfailed : values.failed = false) :
    Sound ⟨values, s.fields ++ [⟨key, s.values.bytes.length, values.bytes.length⟩], truncated⟩
      (captured ++ [(key, value)]) where
  values := by rw [hbytes, h.values, values_of_append, values_of_singleton]
  fields := by
    have hlength : values.bytes.length = (valuesOf captured).length + (encoded value).length := by
      rw [hbytes, List.length_append, h.values]
    rw [h.fields, layout_append, h.values, hlength, Nat.zero_add]
    rfl
  marked := by
    intro hstopped
    rw [hfailed] at hstopped
    cases hstopped

theorem Sound.taken (h : Sound s captured) {key : String} {value : Scalar} {values : Buffer}
    {truncated : Bool} (hbytes : values.bytes = s.values.bytes ++ encoded value)
    (hfailed : values.failed = false) {field : String × Scalar} {kept : Scalar → Prop}
    {fails : Prop} (hkey : field.1 = key) (hkept : kept value)
    (hwhole : truncated = false → s.truncated = false ∧ value = field.2) :
    Takes field kept fails s
      ⟨values, s.fields ++ [⟨key, s.values.bytes.length, values.bytes.length⟩], truncated⟩
      captured [(key, value)] where
  sound := h.extended key truncated hbytes hfailed
  kept := .inr ⟨value, hkept, by rw [hkey]⟩
  whole := by
    intro hnot
    obtain ⟨hbefore, rfl⟩ := hwhole hnot
    exact ⟨hbefore, by rw [← hkey]⟩

theorem push_takes (h : Sound s captured) (key : String) (value : Scalar) (limit : ℕ)
    {kept : Scalar → Prop} (hkept : kept value) :
    ∃ more, Takes (key, value) kept False s (s.push key value.render limit) captured more := by
  unfold Scratch.push
  by_cases hfailed : s.values.failed = true
  · rw [if_pos hfailed]
    exact ⟨[], h.refused hfailed _ _ _⟩
  rw [Bool.not_eq_true] at hfailed
  rw [if_neg (by simp [hfailed])]
  by_cases hlimit : s.fields.length = limit
  · rw [if_pos hlimit]
    refine ⟨[], ?_⟩
    apply h.dropped
    · rfl
    · rfl
    · rfl
    · exact .inl rfl
  rw [if_neg hlimit]
  by_cases hfits : (encoded value).length ≤ s.values.room
  · have happend : s.values.json value.render = _ := append_fits hfailed hfits
    simp only [happend, hfailed, Bool.false_eq_true, if_false]
    refine ⟨[(key, value)], ?_⟩
    apply h.taken rfl rfl rfl hkept
    intro hnot
    exact ⟨hnot, rfl⟩
  · have happend : s.values.json value.render = _ := append_full (Nat.lt_of_not_le hfits)
    simp only [happend, if_true]
    refine ⟨[], ?_⟩
    apply h.dropped
    · simp
    · rfl
    · rfl
    · exact .inl rfl

theorem copy_cases (h : Sound s captured) (entry : Entry) {bytes : Bytes} {field : String × Scalar}
    (hkey : entry.key = field.1) (hslice : entry.slice bytes = encoded field.2) :
    (Sound (s.copy entry bytes) (captured ++ [field]) ∧
      (s.copy entry bytes).values.failed = s.values.failed ∧
      (s.copy entry bytes).truncated = s.truncated) ∨
    (Sound (s.copy entry bytes) captured ∧ (s.copy entry bytes).values.failed = true) := by
  unfold Scratch.copy
  by_cases hfailed : s.values.failed = true
  · rw [if_pos hfailed]
    exact .inr ⟨h, hfailed⟩
  rw [Bool.not_eq_true] at hfailed
  rw [if_neg (by simp [hfailed])]
  by_cases hlimit : s.fields.length = maxFields
  · rw [if_pos hlimit]
    exact .inr ⟨⟨h.values, h.fields, fun _ => rfl⟩, rfl⟩
  rw [if_neg hlimit, hslice]
  by_cases hfits : (encoded field.2).length ≤ s.values.room
  · left
    rw [append_fits hfailed hfits]
    simp only [hfailed, Bool.false_eq_true, if_false, and_true]
    obtain ⟨key, value⟩ := field
    obtain rfl : entry.key = key := hkey
    exact h.extended entry.key s.truncated rfl rfl
  · right
    rw [append_full (Nat.lt_of_not_le hfits)]
    simp only [if_true, and_true]
    exact ⟨h.values, h.fields, fun _ => rfl⟩

theorem open_quote {values : Buffer} (hfailed : values.failed = false) (hroom : 2 ≤ values.room) :
    values.append [34] = { values with bytes := values.bytes ++ [34] } ∧
      (values.append [34]).failed = false ∧ 1 ≤ (values.append [34]).room := by
  have hopen : values.append [34] = _ := append_fits hfailed (Nat.le_of_succ_le hroom)
  refine ⟨hopen, ?_, ?_⟩
  · rw [hopen]
    exact hfailed
  · rw [hopen]
    simp only [Buffer.room, List.length_append, List.length_singleton] at hroom ⊢
    omega

theorem push_text_takes (h : Sound s captured) (key : String) (formatting : Formatting) :
    ∃ more, Takes (key, .string formatting.text)
      (fun value => ∃ text, value = .string text ∧
        StartsOf formatting.stops formatting.chunks text)
      (formatting.ok = false) s (s.pushText key formatting) captured more := by
  unfold Scratch.pushText
  by_cases hfailed : s.values.failed = true
  · rw [if_pos hfailed]
    exact ⟨[], h.refused hfailed _ _ _⟩
  rw [Bool.not_eq_true] at hfailed
  rw [if_neg (by simp [hfailed])]
  by_cases hlimit : (s.fields.length = maxFields || decide (s.values.room < 2)) = true
  · rw [if_pos (by simpa using hlimit)]
    refine ⟨[], ?_⟩
    apply h.dropped
    · rfl
    · rfl
    · rfl
    · exact .inl rfl
  rw [if_neg (by simpa using hlimit)]
  have hroom : 2 ≤ s.values.room := by
    simp only [Bool.or_eq_true, decide_eq_true_eq, not_or] at hlimit
    omega
  obtain ⟨hopen, hsame, hnext⟩ := open_quote hfailed hroom
  obtain ⟨text, hbytes, hleft, hdone, hstart⟩ :=
    write_chunks_spec hsame hnext formatting.stops false formatting.chunks
  cases hwrite : writeChunks formatting.stops (s.values.append [34]) false formatting.chunks with
  | mk values flags =>
    obtain ⟨cut, stopped⟩ := flags
    rw [hwrite] at hbytes hleft hdone
    simp only at hbytes hleft hdone ⊢
    by_cases hout : ((stopped || !formatting.ok) && !cut) = true
    · rw [if_pos hout]
      -- An uncut text was written without a failure: the formatting itself failed.
      have hfails : formatting.ok = false := by
        simp only [Bool.and_eq_true, Bool.or_eq_true, Bool.not_eq_true'] at hout
        obtain ⟨hstopped | hfails, hcut⟩ := hout
        · rw [(hdone hcut).2.2] at hstopped
          cases hstopped
        · exact hfails
      refine ⟨[], ?_⟩
      apply h.dropped
      · rw [hbytes, hopen]
        simp
      · rfl
      · rfl
      · exact .inr hfails
    · rw [if_neg hout]
      have hclose : values.append [34] = { values with bytes := values.bytes ++ [34] } :=
        append_fits (by rw [hbytes]; exact hsame) hleft
      have hvalue : (values.append [34]).bytes = s.values.bytes ++ encoded (.string text) := by
        rw [hclose, hbytes, hopen, encoded_string]
        simp
      have hlast : (values.append [34]).failed = false := by
        rw [hclose, hbytes]
        exact hsame
      refine ⟨[(key, .string text)], ?_⟩
      apply h.taken hvalue hlast rfl ⟨text, rfl, hstart⟩
      intro hnot
      rw [Bool.or_eq_false_iff] at hnot
      obtain ⟨-, hwhole, -⟩ := hdone hnot.2
      exact ⟨hnot.1, by rw [hwhole, Formatting.text]⟩

end Steps

section Events

variable {F : Type} {f64 : F → Scalar} {s t : Scratch} {captured : List (String × Scalar)}

def visible (bridged : Bool) (fields : List (String × Value F)) : List (String × Value F) :=
  fields.filter fun field => !(bridged && isLogField field.1)

/-- What a captured value may be: the value, or for a string a start of it. A formatting that goes on
after a failed write may leave a start of each of its texts. -/
def Kept (f64 : F → Scalar) : Value F → Scalar → Prop
  | .str full, value => ∃ text, value = .string text ∧ text <+: full.toList
  | .debug formatting, value =>
    ∃ text, value = .string text ∧ StartsOf formatting.stops formatting.chunks text
  | full, value => value = full.scalar f64

def Fails : Value F → Prop
  | .debug formatting => formatting.ok = false
  | _ => False

/-- The fields an event shows and those captured of it: every one in order until the room runs out,
but for values whose own formatting fails. -/
inductive Captures (f64 : F → Scalar) :
    List (String × Value F) → List (String × Scalar) → Prop
  | none : Captures f64 [] []
  | full (fields : List (String × Value F)) : Captures f64 fields []
  | left {field : String × Value F} {fields : List (String × Value F)}
      {captured : List (String × Scalar)} :
    Fails field.2 → Captures f64 fields captured → Captures f64 (field :: fields) captured
  | taken {field : String × Value F} {fields : List (String × Value F)}
      {captured : List (String × Scalar)} {value : Scalar} :
    Kept f64 field.2 value → Captures f64 fields captured →
    Captures f64 (field :: fields) ((field.1, value) :: captured)

theorem record_event_takes (h : Sound s captured) {bridged : Bool} {field : String × Value F}
    (hshown : (bridged && isLogField field.1) = false) :
    ∃ more, Takes (field.1, field.2.scalar f64) (Kept f64 field.2) (Fails field.2) s
      (recordEvent f64 bridged s field) captured more := by
  obtain ⟨key, value⟩ := field
  simp only [recordEvent, hshown, Bool.false_eq_true, if_false]
  cases value with
  | str text =>
    obtain ⟨more, hmore⟩ := push_text_takes h key ⟨[text], true, true⟩
    have hone : Formatting.text ⟨[text], true, true⟩ = text.toList := by simp [Formatting.text]
    rw [hone] at hmore
    refine ⟨more, hmore.sound, ?_, hmore.whole⟩
    rcases hmore.kept with ⟨hnone, hfailed⟩ | ⟨value, ⟨cut, rfl, -, hcut⟩, hvalue⟩
    · exact .inl ⟨hnone, .inl (hfailed.resolve_right (by simp))⟩
    · exact .inr ⟨_, ⟨cut, rfl, by simpa using hcut rfl⟩, hvalue⟩
  | debug formatting => exact push_text_takes h key formatting
  | f64 value => exact push_takes h key _ maxFields rfl
  | i64 value => exact push_takes h key _ maxFields rfl
  | u64 value => exact push_takes h key _ maxFields rfl
  | bool value => exact push_takes h key _ maxFields rfl

theorem record_event_failed (bridged : Bool) (fields : List (String × Value F))
    (h : s.values.failed = true) : fields.foldl (recordEvent f64 bridged) s = s := by
  induction fields with
  | nil => rfl
  | cons field fields ih =>
    have hsame : recordEvent f64 bridged s field = s := by
      unfold recordEvent
      split_ifs
      · rfl
      · split <;> simp [Scratch.push, Scratch.pushText, h]
    rw [List.foldl_cons, hsame, ih]

/-- What an event's fields leave in the scratch: the captured ones in order, all of them in full
unless the record is marked. -/
theorem record_event_fold (h : Sound s captured) (bridged : Bool) (fields : List (String × Value F)) :
    ∃ more, Sound (fields.foldl (recordEvent f64 bridged) s) (captured ++ more) ∧
      Captures f64 (visible bridged fields) more ∧
      ((fields.foldl (recordEvent f64 bridged) s).truncated = false → s.truncated = false ∧
        more = (visible bridged fields).map fun field => (field.1, field.2.scalar f64)) := by
  induction fields generalizing s captured with
  | nil => exact ⟨[], by simpa using h, .none, fun hnot => ⟨hnot, rfl⟩⟩
  | cons field fields ih =>
    rw [List.foldl_cons]
    by_cases hhidden : (bridged && isLogField field.1) = true
    · have hsame : recordEvent f64 bridged s field = s := by simp [recordEvent, hhidden]
      have hrest : visible bridged (field :: fields) = visible bridged fields := by
        simp only [visible, List.filter_cons, hhidden]
        rfl
      rw [hsame, hrest]
      exact ih h
    · rw [Bool.not_eq_true] at hhidden
      have hrest : visible bridged (field :: fields) = field :: visible bridged fields := by
        simp only [visible, List.filter_cons, hhidden]
        rfl
      rw [hrest]
      obtain ⟨one, htakes⟩ : ∃ one, Takes (field.1, field.2.scalar f64) (Kept f64 field.2)
          (Fails field.2) s (recordEvent f64 bridged s field) captured one :=
        record_event_takes h hhidden
      by_cases hfull : (recordEvent f64 bridged s field).values.failed = true ∧ one = []
      · -- The room ran out: the rest of the event is refused.
        obtain ⟨hfailed, rfl⟩ := hfull
        rw [record_event_failed bridged fields hfailed]
        refine ⟨[], htakes.sound, .full _, ?_⟩
        intro hnot
        rw [htakes.sound.marked hfailed] at hnot
        cases hnot
      obtain ⟨more, hsound, hcaptures, hwhole⟩ := ih htakes.sound
      refine ⟨one ++ more, by rwa [← List.append_assoc], ?_, ?_⟩
      · rcases htakes.kept with ⟨rfl, hfailed | hfails⟩ | ⟨value, hkept, rfl⟩
        · exact absurd ⟨hfailed, rfl⟩ hfull
        · exact .left hfails hcaptures
        · exact .taken hkept hcaptures
      · intro hnot
        obtain ⟨hafter, rfl⟩ := hwhole hnot
        obtain ⟨hbefore, rfl⟩ := htakes.whole hafter
        exact ⟨hbefore, rfl⟩

end Events

def Stands (values : Bytes) (entry : Entry) (field : String × Scalar) : Prop :=
  entry.key = field.1 ∧ entry.slice values = encoded field.2

theorem layout_stands (before : Bytes) (captured : List (String × Scalar)) (after : Bytes) :
    List.Forall₂ (Stands (before ++ valuesOf captured ++ after)) (layout before.length captured)
      captured := by
  induction captured generalizing before with
  | nil => exact .nil
  | cons field captured ih =>
    have hvalues : before ++ valuesOf (field :: captured) ++ after =
        (before ++ encoded field.2) ++ valuesOf captured ++ after := by
      simp [valuesOf]
    rw [layout]
    constructor
    · refine ⟨rfl, ?_⟩
      rw [hvalues]
      simp [Entry.slice]
    · have hrest := ih (before ++ encoded field.2)
      rw [List.length_append] at hrest
      rwa [hvalues]

theorem Sound.stands {s : Scratch} {captured : List (String × Scalar)} (h : Sound s captured) :
    List.Forall₂ (Stands s.values.bytes) s.fields captured := by
  have hall := layout_stands [] captured []
  rw [List.nil_append, List.append_nil] at hall
  rw [h.values, h.fields]
  exact hall

def lastWins : List (String × Scalar) → List (String × Scalar)
  | [] => []
  | field :: rest =>
    if rest.any (fun next => next.1 = field.1) then lastWins rest else field :: lastWins rest

theorem last_wins_sublist (fields : List (String × Scalar)) : (lastWins fields).Sublist fields := by
  induction fields with
  | nil => exact .refl _
  | cons field fields ih =>
    unfold lastWins
    split_ifs
    · exact ih.cons _
    · exact ih.cons_cons _

theorem last_wins_nodup (fields : List (String × Scalar)) :
    ((lastWins fields).map Prod.fst).Nodup := by
  induction fields with
  | nil => exact List.nodup_nil
  | cons field fields ih =>
    unfold lastWins
    split_ifs with hlater
    · exact ih
    · rw [List.map_cons, List.nodup_cons]
      refine ⟨?_, ih⟩
      intro hmem
      obtain ⟨next, hnext, hkey⟩ := List.mem_map.mp hmem
      apply hlater
      rw [List.any_eq_true]
      exact ⟨next, (last_wins_sublist fields).subset hnext, by simp [hkey]⟩

structure SpanFields.Holds (cached : SpanFields) (fields : List (String × Scalar)) : Prop where
  bytes : cached.bytes = valuesOf fields
  entries : cached.fields = layout 0 fields
  distinct : (fields.map Prod.fst).Nodup

theorem any_key {values : Bytes} {entries : List Entry} {fields : List (String × Scalar)}
    (h : List.Forall₂ (Stands values) entries fields) (key : String) :
    entries.any (fun next => next.key = key) = fields.any fun next => next.1 = key := by
  induction h with
  | nil => rfl
  | cons hhead _ ih => rw [List.any_cons, List.any_cons, ih, hhead.1]

theorem compact_from_failed (values : Bytes) (entries kept : List Entry) {line : Buffer}
    (h : line.failed = true) : compactFrom values entries line kept = none := by
  induction entries generalizing kept with
  | nil => simp [compactFrom, h]
  | cons entry entries ih =>
    simp only [compactFrom, append_failed _ h]
    split_ifs
    · exact ih _
    · rfl
    · exact ih _

/-- Compaction keeps the last value of each key, or nothing. -/
theorem compact_from_some {values : Bytes} {entries : List Entry} {fields done : List (String × Scalar)}
    {line : Buffer} {kept : List Entry} {cached : SpanFields}
    (h : compactFrom values entries line kept = some cached)
    (hstands : List.Forall₂ (Stands values) entries fields) (hbytes : line.bytes = valuesOf done)
    (hkept : kept = layout 0 done) :
    cached.bytes = valuesOf (done ++ lastWins fields) ∧
      cached.fields = layout 0 (done ++ lastWins fields) := by
  induction hstands generalizing line kept done with
  | nil =>
    simp only [compactFrom] at h
    split_ifs at h
    cases h
    simp [lastWins, hbytes, hkept]
  | @cons entry field entries fields hhead htail ih =>
    simp only [compactFrom, any_key htail entry.key] at h
    rw [hhead.1] at h
    by_cases hlater : (fields.any fun next => next.1 = field.1) = true
    · rw [if_pos hlater] at h
      rw [lastWins, if_pos hlater]
      exact ih h hbytes hkept
    rw [if_neg hlater] at h
    rw [lastWins, if_neg hlater]
    split_ifs at h
    by_cases hfull : (line.append (entry.slice values)).failed = true
    · rw [compact_from_failed values entries _ hfull] at h
      cases h
    · have hnext : (line.append (entry.slice values)).bytes = line.bytes ++ encoded field.2 := by
        rw [hhead.2] at hfull ⊢
        unfold Buffer.append at hfull ⊢
        split_ifs with hcase
        · rw [if_pos hcase] at hfull
          exact absurd rfl hfull
        · rfl
      have hmore : (line.append (entry.slice values)).bytes = valuesOf (done ++ [field]) := by
        rw [hnext, hbytes, values_of_append, values_of_singleton]
      have hplaced : kept ++ [⟨field.1, line.bytes.length,
          (line.append (entry.slice values)).bytes.length⟩] = layout 0 (done ++ [field]) := by
        rw [hkept, layout_append, hnext, hbytes, List.length_append, Nat.zero_add]
        rfl
      have hrest := ih h hmore hplaced
      rwa [List.append_assoc, List.singleton_append] at hrest

theorem compact_span_holds {s : Scratch} {captured : List (String × Scalar)} (hsound : Sound s captured)
    {cached : SpanFields} (h : s.compactSpan = some cached) :
    s.values.failed = false ∧ cached.Holds (lastWins captured) := by
  unfold Scratch.compactSpan at h
  split_ifs at h with hfailed
  rw [Bool.not_eq_true] at hfailed
  obtain ⟨hbytes, hfields⟩ := compact_from_some h hsound.stands (rfl : _ = valuesOf []) rfl
  exact ⟨hfailed, hbytes, hfields, last_wins_nodup captured⟩

section SpanCaches

variable {F : Type} {f64 : F → Scalar} {s t : Scratch} {captured : List (String × Scalar)}

/-- The fields a span's call site gives, under the keys they are kept. -/
def shown (f64 : F → Scalar) (values : List (String × Value F)) : List (String × Scalar) :=
  values.filterMap fun field =>
    match field.2 with
    | .debug formatting =>
      if isLogField field.1 then none else some (stripRaw field.1, .string formatting.text)
    | value => some (field.1, value.scalar f64)

/-- A span's fields after an update; one that unwinds changes nothing. -/
def updated (f64 : F → Scalar) (fields : List (String × Scalar)) (values : List (String × Value F)) :
    List (String × Scalar) :=
  if (values.foldlM (recordSpan f64) (Scratch.new spanBytes)).isNone then fields
  else lastWins (shown f64 values ++ fields.filter fun field =>
    !(shown f64 values).any fun next => next.1 = field.1)

/-- The cache of a span at some time of its life, with the fields the span has then. -/
inductive SpanCache (f64 : F → Scalar) : Option SpanFields → List (String × Scalar) → Prop
  | refused (fields : List (String × Scalar)) : SpanCache f64 none fields
  | new (attributes : List (String × Value F)) (name : String) :
    SpanCache f64 (onNewSpan f64 attributes name)
      (lastWins (shown f64 attributes ++ [("name", .string name.toList)]))
  | record {cached : SpanFields} {fields : List (String × Scalar)} (values : List (String × Value F)) :
    SpanCache f64 (some cached) fields →
    SpanCache f64 (onRecord f64 cached values) (updated f64 fields values)

theorem push_marks (h : s.truncated = s.values.failed) (key : String) (value : List Char) (limit : ℕ) :
    (s.push key value limit).truncated = (s.push key value limit).values.failed := by
  unfold Scratch.push
  split_ifs with hfailed hlimit
  · exact h
  · rfl
  · simp only
    split_ifs with hfull
    · exact hfull.symm
    · rw [Bool.not_eq_true] at hfailed hfull
      rw [h, hfailed, hfull]

/-- A capture that takes all of some fields, or refuses. -/
def Gathers (fields : List (String × Scalar)) (s t : Scratch) : Prop :=
  s.truncated = s.values.failed → ∀ captured, Sound s captured →
    t.truncated = t.values.failed ∧ ∃ more, Sound t (captured ++ more) ∧
      (t.values.failed = false → s.values.failed = false ∧ more = fields)

theorem Gathers.refl (s : Scratch) : Gathers [] s s := by
  intro hmarks captured h
  refine ⟨hmarks, [], ?_, ?_⟩
  · rwa [List.append_nil]
  · intro hopen
    exact ⟨hopen, rfl⟩

theorem Gathers.trans {xs ys : List (String × Scalar)} {u : Scratch} (h : Gathers xs s t)
    (k : Gathers ys t u) : Gathers (xs ++ ys) s u := by
  intro hmarks captured hs
  obtain ⟨htmarks, first, ht, hfirst⟩ := h hmarks captured hs
  obtain ⟨humarks, second, hu, hsecond⟩ := k htmarks _ ht
  refine ⟨humarks, first ++ second, by rwa [← List.append_assoc], ?_⟩
  intro hopen
  obtain ⟨hmiddle, rfl⟩ := hsecond hopen
  obtain ⟨hstart, rfl⟩ := hfirst hmiddle
  exact ⟨hstart, rfl⟩

theorem push_gathers (s : Scratch) (key : String) (value : Scalar) :
    Gathers [(key, value)] s (s.push key value.render spanFields) := by
  intro hmarks captured h
  have hafter := push_marks hmarks key value.render spanFields
  obtain ⟨more, htakes⟩ : ∃ more, Takes (key, value) (fun _ => True) False s
      (s.push key value.render spanFields) captured more := push_takes h key value spanFields trivial
  refine ⟨hafter, more, htakes.sound, ?_⟩
  intro hopen
  rw [← hafter] at hopen
  obtain ⟨hbefore, hmore⟩ := htakes.whole hopen
  exact ⟨hmarks ▸ hbefore, hmore⟩

theorem stop_gathers (s : Scratch) (fields : List (String × Scalar)) : Gathers fields s s.stop := by
  intro _ captured h
  refine ⟨rfl, [], ?_, ?_⟩
  · rw [List.append_nil]
    exact ⟨h.values, h.fields, fun _ => rfl⟩
  · intro hopen
    cases hopen

theorem copy_gathers (s : Scratch) {entry : Entry} {bytes : Bytes} {field : String × Scalar}
    (h : Stands bytes entry field) : Gathers [field] s (s.copy entry bytes) := by
  intro hmarks captured hsound
  rcases copy_cases hsound entry h.1 h.2 with ⟨htaken, hfailed, htruncated⟩ | ⟨hrefused, hfailed⟩
  · refine ⟨by rw [htruncated, hfailed, hmarks], [field], htaken, ?_⟩
    intro hopen
    exact ⟨hfailed ▸ hopen, rfl⟩
  · refine ⟨by rw [hrefused.marked hfailed, hfailed], [], by rwa [List.append_nil], ?_⟩
    intro hopen
    rw [hfailed] at hopen
    cases hopen

theorem record_span_gathers {field : String × Value F} (h : recordSpan f64 s field = some t) :
    Gathers (shown f64 [field]) s t := by
  obtain ⟨key, value⟩ := field
  cases value with
  | str text =>
    simp only [recordSpan] at h
    split_ifs at h with hlong
    · cases h
      exact stop_gathers s _
    · cases h
      exact push_gathers s key (.string text.toList)
  | debug formatting =>
    simp only [recordSpan] at h
    by_cases hhidden : isLogField key = true
    · rw [if_pos hhidden] at h
      cases h
      have hnone : shown f64 [(key, .debug formatting)] = [] := by simp [shown, hhidden]
      rw [hnone]
      exact .refl s
    · rw [if_neg hhidden, Option.ite_none_left_eq_some] at h
      cases h.2
      have hone : shown f64 [(key, .debug formatting)] =
          [(stripRaw key, .string formatting.text)] := by simp [shown, hhidden]
      rw [hone]
      exact push_gathers s (stripRaw key) (.string formatting.text)
  | f64 value =>
    cases h
    exact push_gathers s key _
  | i64 value =>
    cases h
    exact push_gathers s key _
  | u64 value =>
    cases h
    exact push_gathers s key _
  | bool value =>
    cases h
    exact push_gathers s key _

theorem record_span_fold {values : List (String × Value F)}
    (h : values.foldlM (recordSpan f64) s = some t) : Gathers (shown f64 values) s t := by
  induction values generalizing s with
  | nil =>
    cases h
    exact .refl _
  | cons field values ih =>
    rw [List.foldlM_cons] at h
    obtain ⟨u, hu, h⟩ := Option.bind_eq_some_iff.mp h
    have hsplit : shown f64 (field :: values) = shown f64 [field] ++ shown f64 values := by
      rw [← List.singleton_append, shown, shown, shown, List.filterMap_append]
    rw [hsplit]
    exact (record_span_gathers hu).trans (ih h)

theorem copy_fold_gathers {bytes : Bytes} {entries : List Entry} {fields : List (String × Scalar)}
    (h : List.Forall₂ (Stands bytes) entries fields) (skip : String → Bool) (s : Scratch) :
    Gathers (fields.filter fun field => !skip field.1) s
      (entries.foldl (fun s entry => if skip entry.key then s else s.copy entry bytes) s) := by
  induction h generalizing s with
  | nil => exact .refl _
  | @cons entry field entries fields hhead _ ih =>
    rw [List.foldl_cons, List.filter_cons, hhead.1]
    by_cases hskip : skip field.1 = true
    · rw [if_pos hskip, if_neg (by simp [hskip])]
      exact ih s
    · rw [if_neg hskip, if_pos (by simp [hskip])]
      exact (copy_gathers s hhead).trans (ih _)

theorem SpanFields.Holds.stands {cached : SpanFields} {fields : List (String × Scalar)}
    (h : cached.Holds fields) : List.Forall₂ (Stands cached.bytes) cached.fields fields := by
  have hall := layout_stands [] fields []
  rw [List.nil_append, List.append_nil] at hall
  rw [h.bytes, h.entries]
  exact hall

/-- What a new span or an update caches is what the span has. -/
theorem gathers_holds {fields : List (String × Scalar)} {cached : SpanFields}
    (hgathers : Gathers fields (Scratch.new spanBytes) t) (h : t.compactSpan = some cached) :
    cached.Holds (lastWins fields) := by
  obtain ⟨-, more, hsound, hwhole⟩ := hgathers rfl [] (sound_new spanBytes)
  obtain ⟨hopen, hholds⟩ := compact_span_holds hsound h
  rwa [List.nil_append, (hwhole hopen).2] at hholds

theorem span_cache_holds {span : Option SpanFields} {fields : List (String × Scalar)}
    (h : SpanCache f64 span fields) : ∀ cached, span = some cached → cached.Holds fields := by
  induction h with
  | refused =>
    intro cached hcached
    cases hcached
  | new attributes name =>
    intro cached hcached
    obtain ⟨scratch, hscratch, hcompact⟩ := Option.bind_eq_some_iff.mp hcached
    apply gathers_holds _ hcompact
    exact (record_span_fold hscratch).trans (push_gathers scratch "name" (.string name.toList))
  | @record before fields values _ ih =>
    intro cached hcached
    have hbefore := ih before rfl
    unfold onRecord at hcached
    unfold updated
    cases hfold : values.foldlM (recordSpan f64) (Scratch.new spanBytes) with
    | none =>
      rw [hfold] at hcached
      cases hcached
      exact hbefore
    | some scratch =>
      rw [hfold] at hcached
      obtain ⟨hmarks, delta, hsound, hwhole⟩ := record_span_fold hfold rfl [] (sound_new spanBytes)
      rw [List.nil_append] at hsound
      simp only at hcached
      generalize hnext : ({ scratch with values := { scratch.values with limit := maxRecordBytes } } :
        Scratch) = next at hcached
      have hwider : Sound next delta := hnext ▸ ⟨hsound.values, hsound.fields, hsound.marked⟩
      have hnextmarks : next.truncated = next.values.failed := hnext ▸ hmarks
      obtain ⟨-, rest, hfinal, hrest⟩ := copy_fold_gathers hbefore.stands
        (fun key => scratch.fields.any fun next => next.key = key) next hnextmarks delta hwider
      obtain ⟨hopen, hholds⟩ := compact_span_holds hfinal hcached
      obtain ⟨hscratch, rfl⟩ := hrest hopen
      obtain ⟨-, rfl⟩ := hwhole (by rw [← hnext] at hscratch; exact hscratch)
      have hkeys : ∀ key, (scratch.fields.any fun next => next.key = key) =
          (shown f64 values).any fun next => next.1 = key := fun key => any_key hsound.stands key
      simp only [hkeys] at hholds
      exact hholds

structure Span (f64 : F → Scalar) where
  cached : Option SpanFields
  recorded : List (String × Scalar)
  valid : SpanCache f64 cached recorded

def Span.fields (span : Span f64) : List (String × Scalar) :=
  if span.cached.isSome then span.recorded else []

theorem fold_copy_failed {bytes : Bytes} (entries : List Entry) (h : s.values.failed = true) :
    entries.foldl (fun s entry => s.copy entry bytes) s = s := by
  induction entries with
  | nil => rfl
  | cons entry entries ih =>
    have hsame : s.copy entry bytes = s := by
      unfold Scratch.copy
      rw [if_pos h]
    rw [List.foldl_cons, hsame, ih]

/-- Copying a list of fields takes a start of it; a field left out stops the capture. -/
theorem copy_fold {bytes : Bytes} {entries : List Entry} {fields : List (String × Scalar)}
    (h : List.Forall₂ (Stands bytes) entries fields) (hsound : Sound s captured) :
    ∃ more rest, fields = more ++ rest ∧
      Sound (entries.foldl (fun s entry => s.copy entry bytes) s) (captured ++ more) ∧
      ((entries.foldl (fun s entry => s.copy entry bytes) s).values.failed = false →
        rest = [] ∧ s.values.failed = false) ∧
      ((entries.foldl (fun s entry => s.copy entry bytes) s).truncated = false →
        s.truncated = false) := by
  induction h generalizing s captured with
  | nil => exact ⟨[], [], rfl, by simpa using hsound, fun hopen => ⟨rfl, hopen⟩, fun hnot => hnot⟩
  | @cons entry field entries fields hhead _ ih =>
    rw [List.foldl_cons]
    rcases copy_cases hsound entry hhead.1 hhead.2 with
      ⟨htaken, hfailed, htruncated⟩ | ⟨hrefused, hfailed⟩
    · obtain ⟨more, rest, rfl, hrest, hopen, hnot⟩ := ih htaken
      refine ⟨field :: more, rest, rfl, by simpa using hrest, ?_, ?_⟩
      · intro h
        exact ⟨(hopen h).1, hfailed ▸ (hopen h).2⟩
      · intro h
        exact htruncated ▸ hnot h
    · -- The field did not fit: what follows is refused.
      rw [fold_copy_failed entries hfailed]
      refine ⟨[], field :: fields, rfl, by simpa using hrefused, ?_, ?_⟩
      · intro hopen
        rw [hfailed] at hopen
        cases hopen
      · intro hnot
        rw [hrefused.marked hfailed] at hnot
        cases hnot

/-- What an event takes from the spans around it: a start of their fields, the nearest span's
first, and all of them unless the record is marked. -/
theorem copy_spans_takes (spans : List (Span f64)) (hsound : Sound s captured) :
    ∃ more rest, spans.flatMap Span.fields = more ++ rest ∧
      Sound (copySpans s (spans.map Span.cached)) (captured ++ more) ∧
      ((copySpans s (spans.map Span.cached)).truncated = false →
        s.truncated = false ∧ rest = [] ∧ ∀ span ∈ spans, span.cached.isSome = true) := by
  induction spans generalizing s captured with
  | nil => exact ⟨[], [], rfl, by simpa [copySpans] using hsound, fun hnot => ⟨hnot, rfl, by simp⟩⟩
  | cons span spans ih =>
    rw [List.flatMap_cons, List.map_cons]
    cases hcached : span.cached with
    | none =>
      have hfields : span.fields = [] := by simp [Span.fields, hcached]
      have hmarked : Sound { s with truncated := true } captured :=
        ⟨hsound.values, hsound.fields, fun _ => rfl⟩
      obtain ⟨more, rest, hsplit, hrest, hnot⟩ := ih hmarked
      refine ⟨more, rest, by rw [hfields, List.nil_append, hsplit], hrest, ?_⟩
      intro h
      cases (hnot h).1
    | some cached =>
      have hfields : span.fields = span.recorded := by simp [Span.fields, hcached]
      have hstands := (span_cache_holds span.valid cached hcached).stands
      obtain ⟨more, rest, hsplit, hcopied, hopen, hnot⟩ := copy_fold hstands hsound
      simp only [copySpans]
      by_cases hfailed : (cached.fields.foldl (fun s entry => s.copy entry cached.bytes)
          s).values.failed = true
      · rw [if_pos hfailed, hfields, hsplit]
        refine ⟨more, rest ++ spans.flatMap Span.fields, by simp, hcopied, ?_⟩
        intro h
        rw [hcopied.marked hfailed] at h
        cases h
      · rw [if_neg hfailed, hfields, hsplit]
        rw [Bool.not_eq_true] at hfailed
        obtain ⟨rfl, -⟩ := hopen hfailed
        obtain ⟨farther, left, hfarther, hlast, hwhole⟩ := ih hcopied
        refine ⟨more ++ farther, left, by simp [hfarther], by rwa [← List.append_assoc], ?_⟩
        intro h
        obtain ⟨hbefore, hleft, hall⟩ := hwhole h
        refine ⟨hnot hbefore, hleft, ?_⟩
        intro other hother
        rcases List.mem_cons.mp hother with rfl | hother
        · rw [hcached]
          rfl
        · exact hall other hother

end SpanCaches

end LogCapture
