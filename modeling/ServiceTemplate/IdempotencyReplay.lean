import ServiceTemplate.IdempotencyRecord
import Mathlib.Algebra.BigOperators.Group.List.Basic

/-! Stored-success admission and replay.
A body is the finite list of frames it yields; pending polls carry nothing. A header map
keeps the values of one name in order and says nothing about the order of names. -/
namespace IdempotencyReplay

open ByteFraming
open IdempotencyRecord

def maxStoredBodyBytes : ℕ := 1048576

def maxStoredHeaderBytes : ℕ := 8192

def isTokenChar (c : Char) : Bool :=
  c.isLower || c.isDigit || c ∈ ['!', '#', '$', '%', '&', Char.ofNat 39, '*', '+', '-', '.', '^',
    '_', Char.ofNat 96, '|', '~']

def CanonicalName (text : String) : Prop :=
  text.toList ≠ [] ∧ text.utf8ByteSize ≤ 65535 ∧ text.toList.all isTokenChar

instance (text : String) : Decidable (CanonicalName text) :=
  inferInstanceAs (Decidable (_ ∧ _ ∧ _))

structure HeaderName where
  asStr : String
  canonical : CanonicalName asStr
  deriving DecidableEq

def toAsciiLowercase (text : String) : String := String.ofList (text.toList.map Char.toLower)

/-- `HeaderName::from_bytes` lowercases, so it accepts names that are not canonical. -/
def HeaderName.fromStr (text : String) : Option HeaderName :=
  if h : CanonicalName (toAsciiLowercase text) then some ⟨toAsciiLowercase text, h⟩ else none

def validValueByte (b : UInt8) : Bool := 32 ≤ b && b ≠ 127 || b = 9

structure HeaderValue where
  asBytes : Bytes
  valid : asBytes.all validValueByte
  deriving DecidableEq

def HeaderValue.fromBytes (bytes : Bytes) : Option HeaderValue :=
  if h : bytes.all validValueByte then some ⟨bytes, h⟩ else none

structure StatusCode where
  asU16 : ℕ
  bounds : 100 ≤ asU16 ∧ asU16 ≤ 999
  deriving DecidableEq

def StatusCode.fromU16 (n : ℕ) : Option StatusCode :=
  if h : 100 ≤ n ∧ n ≤ 999 then some ⟨n, h⟩ else none

def StatusCode.isSuccess (status : StatusCode) : Bool := 200 ≤ status.asU16 && status.asU16 < 300

abbrev HeaderMap := List (HeaderName × HeaderValue)

def HeaderMap.getAll (headers : HeaderMap) (name : HeaderName) : List HeaderValue :=
  (headers.filter fun h => h.1 = name).map Prod.snd

def HeaderMap.append (headers : HeaderMap) (name : HeaderName) (value : HeaderValue) : HeaderMap :=
  headers ++ [(name, value)]

def HeaderMap.remove (headers : HeaderMap) (key : String) : HeaderMap :=
  match HeaderName.fromStr key with
  | some name => headers.filter fun h => h.1 ≠ name
  | none => headers

inductive BodyFrame where
  | data (bytes : Bytes)
  | trailers
  | error
  deriving DecidableEq, Repr

structure Response where
  status : StatusCode
  headers : HeaderMap
  body : List BodyFrame

def replayedHeader : String := "Idempotent-Replayed"

def replayable : List HeaderName :=
  [⟨"content-type", by decide⟩, ⟨"content-encoding", by decide⟩,
    ⟨"content-language", by decide⟩, ⟨"content-disposition", by decide⟩,
    ⟨"location", by decide⟩, ⟨"etag", by decide⟩, ⟨"last-modified", by decide⟩]

structure Stored where
  status : StatusCode
  headers : List (HeaderName × HeaderValue)
  body : Bytes
  deriving DecidableEq

inductive Unstorable where
  | status
  | bodyStream
  | bodyLimit
  | headerLimit
  deriving DecidableEq, Repr

structure Undecodable where
  deriving DecidableEq, Repr

/-- `Limited` around a body, collected: data frames count against the limit. -/
def collect (remaining : ℕ) : List BodyFrame → Except Unstorable Bytes
  | [] => .ok []
  | .data bytes :: frames =>
    if remaining < bytes.length then .error .bodyLimit
    else (collect (remaining - bytes.length) frames).map (bytes ++ ·)
  | .trailers :: frames => collect remaining frames
  | .error :: _ => .error .bodyStream

def checkedAdd (m n : ℕ) : Option ℕ := if m + n < 2 ^ 64 then some (m + n) else none

def headerBytes (headers : List (HeaderName × HeaderValue)) : Option ℕ :=
  headers.foldlM (fun total h => do
    let total ← checkedAdd total h.1.asStr.utf8ByteSize
    checkedAdd total h.2.asBytes.length) 0

def headersTooLong (headers : List (HeaderName × HeaderValue)) : Bool :=
  match headerBytes headers with
  | none => true
  | some total => maxStoredHeaderBytes < total

def replayableHeaders (headers : HeaderMap) : List (HeaderName × HeaderValue) :=
  replayable.flatMap fun name => (headers.getAll name).map fun value => (name, value)

def capture (response : Response) : Except Unstorable Stored :=
  let parts := response.headers.remove replayedHeader
  if !response.status.isSuccess then .error .status
  else match collect maxStoredBodyBytes response.body with
    | .error e => .error e
    | .ok body =>
      let headers := replayableHeaders parts
      if headersTooLong headers then .error .headerLimit
      else .ok ⟨response.status, headers, body⟩

def i16TryFrom (n : ℕ) : Option ℤ := if n < 32768 then some n else none

def u16TryFrom (n : ℤ) : Option ℕ := if 0 ≤ n ∧ n < 65536 then some n.toNat else none

def Stored.record (stored : Stored) (fingerprint : Digest) : Except Unstorable Record :=
  let headers := stored.headers.map fun h => (⟨h.1.asStr, h.2.asBytes⟩ : HeaderPair)
  match i16TryFrom stored.status.asU16 with
  | none => .error .status
  | some status => .ok ⟨fingerprint, status, headers, stored.body⟩

/-- `Body::from` yields the bytes as one frame, and nothing when they are empty. -/
def bodyFrom (bytes : Bytes) : List BodyFrame := if bytes = [] then [] else [.data bytes]

def Stored.intoResponse (stored : Stored) : Response where
  status := stored.status
  headers := stored.headers.foldl (fun headers h => headers.append h.1 h.2) []
  body := bodyFrom stored.body

def isReplayableHeaderName (name : String) : Bool :=
  replayable.any fun candidate => toAsciiLowercase candidate.asStr = toAsciiLowercase name

def decodePair (pair : HeaderPair) : Except Undecodable (HeaderName × HeaderValue) :=
  match HeaderName.fromStr pair.name with
  | none => .error ⟨⟩
  | some name =>
    if name.asStr ≠ pair.name ∨ !isReplayableHeaderName name.asStr then .error ⟨⟩
    else match HeaderValue.fromBytes pair.value with
      | none => .error ⟨⟩
      | some value => .ok (name, value)

def decodeStatus (status : ℤ) : Option StatusCode :=
  ((u16TryFrom status).bind StatusCode.fromU16).filter StatusCode.isSuccess

def decode (record : Record) : Except Undecodable Stored :=
  if maxStoredBodyBytes < record.body.length then .error ⟨⟩
  else match decodeStatus record.status with
    | none => .error ⟨⟩
    | some status => match record.headers.mapM decodePair with
      | .error e => .error e
      | .ok headers =>
        if headersTooLong headers then .error ⟨⟩ else .ok ⟨status, headers, record.body⟩

theorem token_to_lower {c : Char} (h : isTokenChar c = true) : c.toLower = c := by
  apply dif_neg
  rintro ⟨hlow, hhigh⟩
  simp only [isTokenChar, Bool.or_eq_true, decide_eq_true_eq] at h
  rcases h with (hlower | hdigit) | hmem
  · have hge := of_decide_eq_true (Bool.and_eq_true_iff.mp hlower).1
    exact absurd (UInt32.le_trans hge hhigh) (by decide)
  · have hle := of_decide_eq_true (Bool.and_eq_true_iff.mp hdigit).2
    exact absurd (UInt32.le_trans hlow hle) (by decide)
  · have hsymbols : ∀ d ∈ ['!', '#', '$', '%', '&', Char.ofNat 39, '*', '+', '-', '.', '^', '_',
        Char.ofNat 96, '|', '~'], ¬('A'.val ≤ d.val ∧ d.val ≤ 'Z'.val) := by simp
    exact hsymbols c hmem ⟨hlow, hhigh⟩

theorem canonical_lowercase {text : String} (h : CanonicalName text) :
    toAsciiLowercase text = text := by
  have hmap : text.toList.map Char.toLower = text.toList.map id :=
    List.map_congr_left fun c hc => token_to_lower (List.all_eq_true.mp h.2.2 c hc)
  rw [toAsciiLowercase, hmap, List.map_id, String.ofList_toList]

@[simp] theorem HeaderName.from_as_str (name : HeaderName) :
    HeaderName.fromStr name.asStr = some name := by
  have hlower := canonical_lowercase name.canonical
  simp only [HeaderName.fromStr, hlower, name.canonical, dif_pos]

@[simp] theorem HeaderValue.from_as_bytes (value : HeaderValue) :
    HeaderValue.fromBytes value.asBytes = some value := dif_pos value.valid

theorem replayable_name {name : HeaderName} (h : name ∈ replayable) :
    isReplayableHeaderName name.asStr = true :=
  List.any_eq_true.mpr ⟨name, h, by simp⟩

theorem decode_pair_record {name : HeaderName} (h : name ∈ replayable) (value : HeaderValue) :
    decodePair ⟨name.asStr, value.asBytes⟩ = .ok (name, value) := by
  simp [decodePair, replayable_name h]

theorem decode_pairs_record {headers : List (HeaderName × HeaderValue)}
    (h : ∀ p ∈ headers, p.1 ∈ replayable) :
    (headers.map fun p => (⟨p.1.asStr, p.2.asBytes⟩ : HeaderPair)).mapM decodePair =
      .ok headers := by
  induction headers with
  | nil => rfl
  | cons p headers ih =>
    have htail := ih fun q hq => h q (List.mem_cons_of_mem _ hq)
    simp only [List.map_cons, List.mapM_cons, decode_pair_record (h p (by simp)), htail]
    rfl

private theorem except_map_ok {ε α β : Type*} {f : α → β} {x : Except ε α} {b : β}
    (h : x.map f = .ok b) : ∃ a, x = .ok a ∧ b = f a := by
  cases x with
  | error e => cases h
  | ok a => exact ⟨a, rfl, (Except.ok.inj h).symm⟩

theorem collect_length {n : ℕ} {frames : List BodyFrame} {body : Bytes}
    (h : collect n frames = .ok body) : body.length ≤ n := by
  induction frames generalizing n body with
  | nil =>
    cases h
    simp
  | cons frame frames ih =>
    cases frame with
    | data bytes =>
      simp only [collect] at h
      split at h
      · cases h
      · rcases except_map_ok h with ⟨rest, hrest, rfl⟩
        have hle := ih hrest
        simp only [List.length_append]
        omega
    | trailers => exact ih h
    | error => cases h

def bodyBytes : List BodyFrame → Bytes
  | [] => []
  | .data bytes :: frames => bytes ++ bodyBytes frames
  | _ :: frames => bodyBytes frames

theorem collect_bytes {n : ℕ} {frames : List BodyFrame} {body : Bytes}
    (h : collect n frames = .ok body) : body = bodyBytes frames := by
  induction frames generalizing n body with
  | nil =>
    cases h
    rfl
  | cons frame frames ih =>
    cases frame with
    | data bytes =>
      simp only [collect] at h
      split at h
      · cases h
      · rcases except_map_ok h with ⟨rest, hrest, rfl⟩
        rw [bodyBytes, ih hrest]
    | trailers => exact ih h
    | error => cases h

theorem collect_body_from {n : ℕ} {bytes : Bytes} (h : bytes.length ≤ n) :
    collect n (bodyFrom bytes) = .ok bytes := by
  by_cases hb : bytes = []
  · simp [bodyFrom, hb, collect]
  · simp [bodyFrom, hb, collect, Nat.not_lt.mpr h, Except.map]

@[simp] theorem into_response_headers (stored : Stored) :
    stored.intoResponse.headers = stored.headers := by
  have hfold : ∀ (acc headers : HeaderMap),
      headers.foldl (fun acc h => HeaderMap.append acc h.1 h.2) acc = acc ++ headers := by
    intro acc headers
    induction headers generalizing acc with
    | nil => simp
    | cons p headers ih =>
      rw [List.foldl_cons, ih, HeaderMap.append, List.append_assoc, List.singleton_append]
  simpa [Stored.intoResponse] using hfold [] stored.headers

theorem get_all_remove {headers : HeaderMap} {key : String} {name : HeaderName}
    (h : HeaderName.fromStr key ≠ some name) :
    (headers.remove key).getAll name = headers.getAll name := by
  cases hk : HeaderName.fromStr key with
  | none => simp [HeaderMap.remove, hk]
  | some removed =>
    have hne : name ≠ removed := fun heq => h (heq ▸ hk)
    simp only [HeaderMap.remove, hk, HeaderMap.getAll, List.filter_filter]
    congr 1
    apply List.filter_congr
    intro p _
    by_cases hp : p.1 = name <;> simp [hp, hne]

theorem get_all_map_name (name name' : HeaderName) (values : List HeaderValue) :
    HeaderMap.getAll (values.map fun value => (name', value)) name =
      if name' = name then values else [] := by
  by_cases h : name' = name <;> simp [HeaderMap.getAll, List.filter_map, Function.comp_def, h]

theorem get_all_append (h k : HeaderMap) (name : HeaderName) :
    HeaderMap.getAll (h ++ k) name = h.getAll name ++ k.getAll name := by
  simp [HeaderMap.getAll]

theorem get_all_flat_map (names : List HeaderName) (hnodup : names.Nodup) (headers : HeaderMap)
    (name : HeaderName) :
    HeaderMap.getAll (names.flatMap fun n => (headers.getAll n).map fun value => (n, value)) name =
      if name ∈ names then headers.getAll name else [] := by
  induction names with
  | nil => rfl
  | cons n names ih =>
    rw [List.flatMap_cons, get_all_append, get_all_map_name, ih hnodup.of_cons]
    by_cases h : n = name
    · subst h
      simp [(List.nodup_cons.mp hnodup).1]
    · simp [h, Ne.symm h]

theorem get_all_replayable_headers (headers : HeaderMap) (name : HeaderName) :
    HeaderMap.getAll (replayableHeaders headers) name =
      if name ∈ replayable then headers.getAll name else [] :=
  get_all_flat_map replayable (by decide) headers name

theorem replayable_headers_congr {h k : HeaderMap}
    (heq : ∀ name ∈ replayable, h.getAll name = k.getAll name) :
    replayableHeaders h = replayableHeaders k := by
  apply List.flatMap_congr
  intro name hname
  rw [heq name hname]

theorem replayable_headers_names {headers : HeaderMap} :
    ∀ p ∈ replayableHeaders headers, p.1 ∈ replayable := by
  intro p hp
  rcases List.mem_flatMap.mp hp with ⟨name, hname, hp⟩
  rcases List.mem_map.mp hp with ⟨value, -, rfl⟩
  exact hname

theorem marker_not_replayable {name : HeaderName} (h : name ∈ replayable) :
    HeaderName.fromStr replayedHeader ≠ some name := by
  have hall : ∀ n ∈ replayable, HeaderName.fromStr replayedHeader ≠ some n := by decide
  exact hall name h

/-- What an accepted capture says about the response and about what it stored. -/
structure Captured (response : Response) (stored : Stored) : Prop where
  success : response.status.isSuccess = true
  status : stored.status = response.status
  body : collect maxStoredBodyBytes response.body = .ok stored.body
  headers : stored.headers = replayableHeaders (response.headers.remove replayedHeader)
  bounded : headersTooLong stored.headers = false

theorem capture_ok_iff {response : Response} {stored : Stored} :
    capture response = .ok stored ↔ Captured response stored := by
  constructor
  · intro h
    simp only [capture] at h
    split at h
    · cases h
    · next hs =>
      split at h
      · cases h
      · next body hb =>
        split at h
        · cases h
        · next hh =>
          cases h
          exact ⟨by simpa using hs, rfl, hb, rfl, by simpa using hh⟩
  · intro h
    have hs : stored.status.isSuccess = true := h.status ▸ h.success
    simp [capture, hs, h.body, h.bounded, ← h.status, ← h.headers]

theorem Captured.body_length {response : Response} {stored : Stored}
    (h : Captured response stored) : stored.body.length ≤ maxStoredBodyBytes :=
  collect_length h.body

theorem Captured.success_bounds {response : Response} {stored : Stored}
    (h : Captured response stored) : 200 ≤ stored.status.asU16 ∧ stored.status.asU16 < 300 := by
  simpa [StatusCode.isSuccess, h.status] using h.success

theorem Captured.names {response : Response} {stored : Stored} (h : Captured response stored) :
    ∀ p ∈ stored.headers, p.1 ∈ replayable := by
  rw [h.headers]
  exact replayable_headers_names

theorem Captured.get_all {response : Response} {stored : Stored} (h : Captured response stored)
    (name : HeaderName) : HeaderMap.getAll stored.headers name =
      if name ∈ replayable then response.headers.getAll name else [] := by
  rw [h.headers, get_all_replayable_headers]
  by_cases hname : name ∈ replayable
  · simp [hname, get_all_remove (marker_not_replayable hname)]
  · simp [hname]

theorem Captured.record_eq {response : Response} {stored : Stored} (h : Captured response stored)
    (fingerprint : Digest) : stored.record fingerprint =
      .ok ⟨fingerprint, stored.status.asU16,
        stored.headers.map fun p => ⟨p.1.asStr, p.2.asBytes⟩, stored.body⟩ := by
  have hlt : stored.status.asU16 < 32768 := by
    have := h.success_bounds
    omega
  have hstatus : i16TryFrom stored.status.asU16 = some (stored.status.asU16 : ℤ) := if_pos hlt
  simp [Stored.record, hstatus]

theorem Captured.decode_status {response : Response} {stored : Stored}
    (h : Captured response stored) :
    decodeStatus stored.status.asU16 = some stored.status := by
  have hb := h.success_bounds
  have hu : u16TryFrom (stored.status.asU16 : ℤ) = some stored.status.asU16 := by
    have hrange : (0 : ℤ) ≤ stored.status.asU16 ∧ (stored.status.asU16 : ℤ) < 65536 := by omega
    rw [u16TryFrom, if_pos hrange, Int.toNat_natCast]
  have hf : StatusCode.fromU16 stored.status.asU16 = some stored.status :=
    dif_pos stored.status.bounds
  have hsuccess : stored.status.isSuccess = true := h.status ▸ h.success
  simp [decodeStatus, hu, hf, hsuccess]

theorem decode_ok {record : Record} {status : StatusCode}
    {headers : List (HeaderName × HeaderValue)} (hbody : record.body.length ≤ maxStoredBodyBytes)
    (hstatus : decodeStatus record.status = some status)
    (hheaders : record.headers.mapM decodePair = .ok headers)
    (hbounded : headersTooLong headers = false) :
    decode record = .ok ⟨status, headers, record.body⟩ := by
  rw [decode, if_neg (Nat.not_lt.mpr hbody), hstatus, hheaders]
  simp [hbounded]

theorem Captured.decode_record {response : Response} {stored : Stored}
    (h : Captured response stored) {fingerprint : Digest} {record : Record}
    (hr : stored.record fingerprint = .ok record) : decode record = .ok stored := by
  rw [h.record_eq fingerprint] at hr
  cases hr
  exact decode_ok h.body_length h.decode_status (decode_pairs_record h.names) h.bounded

/-- A replayed response is captured as what it replays. -/
theorem Captured.replay {response : Response} {stored : Stored} (h : Captured response stored) :
    Captured stored.intoResponse stored := by
  refine ⟨?_, rfl, collect_body_from h.body_length, ?_, h.bounded⟩
  · exact (congrArg StatusCode.isSuccess h.status).trans h.success
  · rw [into_response_headers]
    conv_lhs => rw [h.headers]
    apply replayable_headers_congr
    intro name hname
    have hmarker := marker_not_replayable hname
    rw [get_all_remove hmarker, get_all_remove hmarker, h.get_all, if_pos hname]

/-- The first response and every replay carry the same status, body and replayable headers,
and the stored record always decodes. -/
theorem first_response_and_replay_agree {response : Response} {stored : Stored}
    {fingerprint : Digest} {record : Record} (hc : capture response = .ok stored)
    (hr : stored.record fingerprint = .ok record) :
    record.Checked ∧ decode record = .ok stored ∧
      stored.intoResponse.status = response.status ∧
      bodyBytes stored.intoResponse.body = bodyBytes response.body ∧
      (∀ name ∈ replayable,
        stored.intoResponse.headers.getAll name = response.headers.getAll name) ∧
      (∀ name ∉ replayable, stored.intoResponse.headers.getAll name = []) ∧
      (∀ marker, HeaderName.fromStr replayedHeader = some marker →
        stored.intoResponse.headers.getAll marker = []) ∧
      capture stored.intoResponse = .ok stored := by
  have h := capture_ok_iff.mp hc
  have houtside : ∀ name ∉ replayable, stored.intoResponse.headers.getAll name = [] := by
    intro name hname
    rw [into_response_headers, h.get_all, if_neg hname]
  refine ⟨?_, h.decode_record hr, h.status, ?_, ?_, houtside, ?_, capture_ok_iff.mpr h.replay⟩
  · have hb := h.success_bounds
    have hl := h.body_length
    rw [h.record_eq fingerprint] at hr
    cases hr
    simp only [Record.Checked]
    simp only [maxStoredBodyBytes] at hl
    omega
  · rw [← collect_bytes h.body, ← collect_bytes h.replay.body]
  · intro name hname
    rw [into_response_headers, h.get_all, if_pos hname]
  · intro marker hmarker
    exact houtside marker fun hmem => marker_not_replayable hmem hmarker

/-- A 201 with two languages, a cookie, a forged marker and a body in two frames. -/
def createdResponse : Response where
  status := ⟨201, by decide⟩
  headers := [(⟨"content-language", by decide⟩, ⟨[101, 110], by decide⟩),
    (⟨"set-cookie", by decide⟩, ⟨[115], by decide⟩),
    (⟨"idempotent-replayed", by decide⟩, ⟨[102], by decide⟩),
    (⟨"content-language", by decide⟩, ⟨[102, 114], by decide⟩)]
  body := [.data [1, 2], .trailers, .data [3]]

def createdStored : Stored where
  status := ⟨201, by decide⟩
  headers := [(⟨"content-language", by decide⟩, ⟨[101, 110], by decide⟩),
    (⟨"content-language", by decide⟩, ⟨[102, 114], by decide⟩)]
  body := [1, 2, 3]

theorem created_response_replays :
    capture createdResponse = .ok createdStored ∧
      (createdStored.record (Vector.replicate 32 7)).map decode = .ok (.ok createdStored) ∧
      capture createdStored.intoResponse = .ok createdStored := by
  have hc : capture createdResponse = .ok createdStored := by decide
  have hr : ∃ record, createdStored.record (Vector.replicate 32 7) = .ok record := ⟨_, rfl⟩
  rcases hr with ⟨record, hr⟩
  have h := first_response_and_replay_agree hc hr
  refine ⟨hc, ?_, h.2.2.2.2.2.2.2⟩
  rw [hr]
  exact congrArg Except.ok h.2.1

end IdempotencyReplay
