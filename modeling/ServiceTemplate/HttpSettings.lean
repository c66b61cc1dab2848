import Mathlib.Tactic.Common

/-! The settings of the two listeners and their validation. Times are in nanoseconds. An error names
the key that an operator would set. -/
namespace HttpSettings

def millis (n : ℕ) : ℕ := n * 1000000
def secs (n : ℕ) : ℕ := n * 1000000000
def kib (n : ℕ) : ℕ := n * 1024
def mib (n : ℕ) : ℕ := n * 1048576
def gib (n : ℕ) : ℕ := n * 1073741824

structure ValidationError where
  key : String
  message : String
  deriving DecidableEq, Repr

section Ranges

-- `humantime::format_duration` renders the durations in the messages.
variable (formatDuration : ℕ → String)

def durationRange (key : String) (value min max : ℕ) : Except ValidationError Unit :=
  if value < min ∨ max < value then
    .error ⟨key, "must be between " ++ formatDuration min ++ " and " ++ formatDuration max ++
      ", got " ++ formatDuration value⟩
  else .ok ()

def intRange (key : String) (value min max : ℕ) : Except ValidationError Unit :=
  if value < min ∨ max < value then
    .error ⟨key, "must be between " ++ toString min ++ " and " ++ toString max ++
      ", got " ++ toString value⟩
  else .ok ()

/-- Refuses with this message where the condition holds. -/
def refuse (violated : Prop) [Decidable violated] (key message : String) :
    Except ValidationError Unit :=
  if violated then .error ⟨key, message⟩ else .ok ()

def connectionAgeRange (key : String) (value : ℕ) : Except ValidationError Unit :=
  if value = 0 then .ok ()
  else durationRange formatDuration key value (secs 1) (secs (24 * 60 * 60))

end Ranges

def minHeaderBytes : ℕ := 8 * 1024

structure HttpConfig where
  gracePeriod : ℕ
  drainTimeout : ℕ
  readinessPropagationDelay : ℕ
  headerReadTimeout : ℕ
  requestTimeout : ℕ
  maxHeaderBytes : ℕ
  maxBodyBytes : ℕ
  maxInFlight : ℕ
  maxConnections : ℕ
  maxConnectionAge : ℕ
  deriving DecidableEq, Repr

def HttpConfig.default : HttpConfig where
  gracePeriod := secs 45
  drainTimeout := secs 25
  readinessPropagationDelay := secs 15
  headerReadTimeout := secs 5
  requestTimeout := secs 8
  maxHeaderBytes := kib 16
  maxBodyBytes := mib 1
  maxInFlight := 256
  maxConnections := 4096
  maxConnectionAge := 0

def HttpConfig.effectiveDrainBudget (c : HttpConfig) : ℕ :=
  c.drainTimeout - c.readinessPropagationDelay

inductive GrpcSecurity where
  | plaintext
  | tls
  deriving DecidableEq, Repr

/-- The key and its presence only: validation reads no more of it. -/
structure GrpcConfig where
  enabled : Bool
  addr : Option String
  security : Option GrpcSecurity
  certificate : Option String
  privateKey : Bool
  clientCa : Option String
  requestTimeout : ℕ
  maxInFlight : ℕ
  admissionWait : ℕ
  maxConnections : ℕ
  maxConnectionAge : ℕ
  deriving DecidableEq, Repr

def GrpcConfig.default : GrpcConfig where
  enabled := false
  addr := none
  security := none
  certificate := none
  privateKey := false
  clientCa := none
  requestTimeout := secs 8
  maxInFlight := 256
  admissionWait := secs 1
  maxConnections := 4096
  maxConnectionAge := secs (30 * 60)

section Validate

variable (formatDuration : ℕ → String)

def HttpConfig.validate (c : HttpConfig) : Except ValidationError Unit := do
  durationRange formatDuration "http.grace_period" c.gracePeriod (secs 1) (secs 600)
  durationRange formatDuration "http.drain_timeout" c.drainTimeout (secs 1) (secs 600)
  refuse (c.gracePeriod < c.drainTimeout) "http.drain_timeout"
    ("must be <= http.grace_period (" ++ formatDuration c.gracePeriod ++ ")")
  refuse (c.drainTimeout ≤ c.readinessPropagationDelay) "http.readiness_propagation_delay"
    "must be less than http.drain_timeout"
  durationRange formatDuration "http.header_read_timeout" c.headerReadTimeout (millis 100) (secs 300)
  durationRange formatDuration "http.request_timeout" c.requestTimeout (millis 100) (secs 600)
  refuse (c.effectiveDrainBudget < c.requestTimeout) "http.request_timeout"
    ("must be <= the drain budget after readiness propagation (" ++
      formatDuration c.effectiveDrainBudget ++ ") so in-flight requests can finish")
  intRange "http.max_header_bytes" c.maxHeaderBytes minHeaderBytes (mib 1)
  intRange "http.max_body_bytes" c.maxBodyBytes 1 (gib 1)
  intRange "http.max_in_flight" c.maxInFlight 0 100000
  intRange "http.max_connections" c.maxConnections 0 1000000
  refuse (c.maxConnections ≠ 0 ∧ c.maxConnections < c.maxInFlight) "http.max_connections"
    ("must be >= http.max_in_flight (" ++ toString c.maxInFlight ++ ")")
  connectionAgeRange formatDuration "http.max_connection_age" c.maxConnectionAge

def GrpcConfig.validateLimits (c : GrpcConfig) (http : HttpConfig) : Except ValidationError Unit := do
  durationRange formatDuration "grpc.request_timeout" c.requestTimeout (millis 100) (secs 600)
  refuse (http.effectiveDrainBudget < c.requestTimeout) "grpc.request_timeout"
    ("must be <= the drain budget after readiness propagation (" ++
      formatDuration http.effectiveDrainBudget ++ ") so in-flight calls can finish")
  intRange "grpc.max_in_flight" c.maxInFlight 0 100000
  durationRange formatDuration "grpc.admission_wait" c.admissionWait 0 c.requestTimeout
  intRange "grpc.max_connections" c.maxConnections 0 1000000
  connectionAgeRange formatDuration "grpc.max_connection_age" c.maxConnectionAge

/-- `grpc::required` -/
def required (key : String) (value : Option String) : Except ValidationError Unit :=
  refuse (value.all (· = "") = true) key "is required when grpc.security is tls"

def GrpcConfig.validateSecurity (c : GrpcConfig) : Except ValidationError Unit :=
  match c.security with
  | none => .error ⟨"grpc.security", "is required when grpc.enabled is true"⟩
  | some .plaintext => do
    refuse (c.certificate.isSome = true) "grpc.certificate" "is only valid when grpc.security is tls"
    refuse (c.privateKey = true) "grpc.private_key" "is only valid when grpc.security is tls"
    refuse (c.clientCa.isSome = true) "grpc.client_ca" "is only valid when grpc.security is tls"
  | some .tls => do
    required "grpc.certificate" c.certificate
    refuse (c.privateKey = false) "grpc.private_key" "is required when grpc.security is tls"

def GrpcConfig.validate (c : GrpcConfig) (http : HttpConfig) : Except ValidationError Unit :=
  if c.enabled = false then .ok ()
  else do
    refuse (c.addr = none) "grpc.addr" "is required when grpc.enabled is true"
    c.validateLimits formatDuration http
    c.validateSecurity

end Validate

section Spec

variable {formatDuration : ℕ → String} {key : String} {value low high : ℕ}

theorem duration_range_ok : durationRange formatDuration key value low high = .ok () ↔
    low ≤ value ∧ value ≤ high := by
  rw [durationRange]
  split
  · simp only [reduceCtorEq, false_iff]
    omega
  · simp only [true_iff]
    omega

theorem int_range_ok : intRange key value low high = .ok () ↔ low ≤ value ∧ value ≤ high := by
  rw [intRange]
  split
  · simp only [reduceCtorEq, false_iff]
    omega
  · simp only [true_iff]
    omega

theorem refuse_ok {violated : Prop} [Decidable violated] {message : String} :
    refuse violated key message = .ok () ↔ ¬violated := by
  rw [refuse]
  split <;> simp_all

theorem connection_age_range_ok : connectionAgeRange formatDuration key value = .ok () ↔
    value = 0 ∨ (secs 1 ≤ value ∧ value ≤ secs (24 * 60 * 60)) := by
  rw [connectionAgeRange]
  split
  · simp_all
  · simp_all [duration_range_ok]

theorem and_then_ok {first : Except ValidationError Unit} {rest : Unit → Except ValidationError Unit} :
    (first >>= rest) = .ok () ↔ first = .ok () ∧ rest () = .ok () := by
  cases first with
  | error error => simp [Bind.bind, Except.bind]
  | ok => simp [Bind.bind, Except.bind]

structure HttpConfig.Valid (c : HttpConfig) : Prop where
  grace : secs 1 ≤ c.gracePeriod ∧ c.gracePeriod ≤ secs 600
  drain : secs 1 ≤ c.drainTimeout ∧ c.drainTimeout ≤ c.gracePeriod
  propagation : c.readinessPropagationDelay < c.drainTimeout
  header : millis 100 ≤ c.headerReadTimeout ∧ c.headerReadTimeout ≤ secs 300
  request : millis 100 ≤ c.requestTimeout ∧ c.requestTimeout ≤ c.effectiveDrainBudget
  headerBytes : minHeaderBytes ≤ c.maxHeaderBytes ∧ c.maxHeaderBytes ≤ mib 1
  bodyBytes : 1 ≤ c.maxBodyBytes ∧ c.maxBodyBytes ≤ gib 1
  capacity : c.maxInFlight ≤ 100000 ∧ c.maxConnections ≤ 1000000 ∧
    (c.maxConnections = 0 ∨ c.maxInFlight ≤ c.maxConnections)
  age : c.maxConnectionAge = 0 ∨
    (secs 1 ≤ c.maxConnectionAge ∧ c.maxConnectionAge ≤ secs (24 * 60 * 60))

theorem http_validate_ok {c : HttpConfig} : c.validate formatDuration = .ok () ↔ c.Valid := by
  simp only [HttpConfig.validate, and_then_ok, duration_range_ok, int_range_ok, refuse_ok,
    connection_age_range_ok]
  constructor
  · rintro ⟨hgrace, hdrain, hwithin, hdelay, hheader, hrequest, hfits, hheaderBytes, hbodyBytes,
      hinFlight, hconnections, hcap, hage⟩
    exact ⟨hgrace, ⟨hdrain.1, by omega⟩, by omega, hheader, ⟨hrequest.1, by omega⟩, hheaderBytes,
      hbodyBytes, ⟨hinFlight.2, hconnections.2, by omega⟩, hage⟩
  · intro h
    have hgrace := h.grace
    have hdrain := h.drain
    have hrequest := h.request
    have hpropagation := h.propagation
    have hcapacity := h.capacity
    have heffective : c.effectiveDrainBudget ≤ c.drainTimeout := Nat.sub_le _ _
    exact ⟨hgrace, ⟨hdrain.1, by omega⟩, by omega, by omega, h.header, ⟨hrequest.1, by omega⟩,
      by omega, h.headerBytes, h.bodyBytes, by omega, by omega, by omega, h.age⟩

structure GrpcConfig.Valid (c : GrpcConfig) (http : HttpConfig) : Prop where
  addr : c.addr ≠ none
  request : millis 100 ≤ c.requestTimeout ∧ c.requestTimeout ≤ secs 600 ∧
    c.requestTimeout ≤ http.effectiveDrainBudget
  wait : c.admissionWait ≤ c.requestTimeout
  capacity : c.maxInFlight ≤ 100000 ∧ c.maxConnections ≤ 1000000
  age : c.maxConnectionAge = 0 ∨
    (secs 1 ≤ c.maxConnectionAge ∧ c.maxConnectionAge ≤ secs (24 * 60 * 60))
  secured : c.security = some .plaintext ∧ c.certificate = none ∧ c.privateKey = false ∧
      c.clientCa = none ∨
    c.security = some .tls ∧ (∃ pem, c.certificate = some pem ∧ pem ≠ "") ∧ c.privateKey = true

theorem validate_security_ok {c : GrpcConfig} : c.validateSecurity = .ok () ↔
    c.security = some .plaintext ∧ c.certificate = none ∧ c.privateKey = false ∧ c.clientCa = none ∨
    c.security = some .tls ∧ (∃ pem, c.certificate = some pem ∧ pem ≠ "") ∧ c.privateKey = true := by
  rw [GrpcConfig.validateSecurity]
  cases c.security with
  | none => simp
  | some security =>
    cases security with
    | plaintext => simp [and_then_ok, refuse_ok]
    | tls =>
      simp only [and_then_ok, required, refuse_ok]
      cases c.certificate <;> simp

theorem grpc_validate_ok {c : GrpcConfig} {http : HttpConfig} :
    c.validate formatDuration http = .ok () ↔ c.enabled = false ∨ c.Valid http := by
  rw [GrpcConfig.validate]
  split
  · simp_all
  · rename_i henabled
    rw [or_iff_right henabled]
    simp only [GrpcConfig.validateLimits, and_then_ok, duration_range_ok, int_range_ok, refuse_ok,
      connection_age_range_ok, validate_security_ok]
    constructor
    · rintro ⟨haddr, ⟨hrequest, hfits, hinFlight, hwait, hconnections, hage⟩, hsecured⟩
      exact ⟨haddr, ⟨hrequest.1, hrequest.2, by omega⟩, hwait.2, ⟨hinFlight.2, hconnections.2⟩, hage,
        hsecured⟩
    · intro h
      have hrequest := h.request
      exact ⟨h.addr, ⟨⟨hrequest.1, hrequest.2.1⟩, by omega, ⟨Nat.zero_le _, h.capacity.1⟩,
        ⟨Nat.zero_le _, h.wait⟩, ⟨Nat.zero_le _, h.capacity.2⟩, h.age⟩, h.secured⟩

def Names (keys : List String) (x : Except ValidationError Unit) : Prop :=
  ∀ error, x = .error error → error.key ∈ keys

theorem Names.and_then {keys : List String} {first : Except ValidationError Unit}
    {rest : Unit → Except ValidationError Unit} (hfirst : Names keys first)
    (hrest : Names keys (rest ())) : Names keys (first >>= rest) := by
  cases first with
  | error error => exact fun e he => hfirst e he
  | ok => exact fun e he => hrest e he

theorem duration_range_names {keys : List String} (h : key ∈ keys) :
    Names keys (durationRange formatDuration key value low high) := by
  intro error herror
  rw [durationRange] at herror
  split at herror
  · cases herror
    exact h
  · cases herror

theorem int_range_names {keys : List String} (h : key ∈ keys) :
    Names keys (intRange key value low high) := by
  intro error herror
  rw [intRange] at herror
  split at herror
  · cases herror
    exact h
  · cases herror

theorem refuse_names {keys : List String} (h : key ∈ keys) {violated : Prop} [Decidable violated]
    {message : String} : Names keys (refuse violated key message) := by
  intro error herror
  rw [refuse] at herror
  split at herror
  · cases herror
    exact h
  · cases herror

theorem connection_age_names {keys : List String} (h : key ∈ keys) :
    Names keys (connectionAgeRange formatDuration key value) := by
  rw [connectionAgeRange]
  split
  · exact fun _ herror => by cases herror
  · exact duration_range_names h

def httpKeys : List String :=
  ["http.grace_period", "http.drain_timeout", "http.readiness_propagation_delay",
    "http.header_read_timeout", "http.request_timeout", "http.max_header_bytes",
    "http.max_body_bytes", "http.max_in_flight", "http.max_connections", "http.max_connection_age"]

theorem http_names (c : HttpConfig) : Names httpKeys (c.validate formatDuration) := by
  rw [HttpConfig.validate]
  repeat' apply Names.and_then
  all_goals
    first
      | exact int_range_names (by simp [httpKeys])
      | exact duration_range_names (by simp [httpKeys])
      | exact refuse_names (by simp [httpKeys])
      | exact connection_age_names (by simp [httpKeys])

theorem http_default_valid : HttpConfig.default.Valid := by
  constructor <;> decide

end Spec

end HttpSettings
