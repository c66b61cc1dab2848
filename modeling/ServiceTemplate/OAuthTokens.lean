import ServiceTemplate.SharedState
import ServiceTemplate.FormText
import ServiceTemplate.Splitting
import ServiceTemplate.IdempotencyReplay

/-! Outbound OAuth2 credentials: the service token with its background refresh, and tokens
exchanged for a subject. Each task stops before every read of the clock, every lock and every
wait, so the clock and the other tasks may move between any two of them. Adding one of the small
constants below to the clock is taken not to overflow it; adding a provider's lifetime may.
Instants are nanoseconds since the least one the clock represents.
The exchange cache runs one initializer per key at a time, reports a value as fresh to that
initializer only, compares and removes in one step, and may lose an entry at any time. -/
namespace OAuthTokens

open ByteFraming
open FormText
open Splitting
open IdempotencyReplay
open SharedState

abbrev CallId := ℕ
abbrev RunId := ℕ
abbrev Key := Bytes

def fromSecs (secs : ℕ) : ℕ := 1000000000 * secs

def fetchTimeout : ℕ := fromSecs 5
def failureWindow : ℕ := fromSecs 1
def reuseMargin : ℕ := fromSecs 10
def refreshAheadLead : ℕ := fromSecs 300
def refreshRetryPeriod : ℕ := fromSecs 30
def evictionMinAge : ℕ := fromSecs 30

def clientAssertionType : String := "urn:ietf:params:oauth:client-assertion-type:jwt-bearer"
def grantClientCredentials : String := "client_credentials"
def grantTokenExchange : String := "urn:ietf:params:oauth:grant-type:token-exchange"
def tokenTypeAccessToken : String := "urn:ietf:params:oauth:token-type:access_token"

inductive Rejection where
  | invalidRequest
  | invalidClient
  | invalidGrant
  | unauthorizedClient
  | unsupportedGrantType
  | invalidScope
  | invalidTarget
  | other
  deriving DecidableEq, Repr

inductive AcquisitionError where
  | timeout
  | transport
  | responseLimit
  | unavailable
  | atCapacity
  | rejected (rejection : Rejection)
  | invalidResponse
  | assertion
  deriving DecidableEq, Repr

inductive OutboundError where
  | timeout
  | responseBodyTooLarge
  | invalidTarget
  | transport
  deriving DecidableEq, Repr

structure TokenResponse where
  accessToken : String
  tokenType : String
  expiresIn : Option UInt64
  issuedTokenType : Option String
  deriving DecidableEq

structure HttpResponse where
  status : StatusCode
  contentType : Option HeaderValue
  body : Bytes

/-- The JSON decoders, the digest and the largest instant of the clock belong to the platform. -/
structure Config where
  clientId : String
  scopes : List String
  audience : Option String
  providerConcurrency : ℕ
  admitted : 0 < providerConcurrency
  lastInstant : ℕ
  decode : Bytes → Option TokenResponse
  decodeError : Bytes → Option String
  sha256 : Bytes → Key

def Config.subjectKey (config : Config) (subject : String) : Key := config.sha256 (asBytes subject)

inductive Grant where
  | clientCredentials
  | tokenExchange (subject : String)
  deriving DecidableEq

def Rejection.fromBody (config : Config) (body : Bytes) : Rejection :=
  match config.decodeError body with
  | some "invalid_request" => .invalidRequest
  | some "invalid_client" => .invalidClient
  | some "invalid_grant" => .invalidGrant
  | some "unauthorized_client" => .unauthorizedClient
  | some "unsupported_grant_type" => .unsupportedGrantType
  | some "invalid_scope" => .invalidScope
  | some "invalid_target" => .invalidTarget
  | _ => .other

def mapTransportError : OutboundError → AcquisitionError
  | .timeout => .timeout
  | .responseBodyTooLarge => .responseLimit
  | .invalidTarget => .transport
  | .transport => .transport

def joinedScopes (scopes : List String) : Option String :=
  if scopes.isEmpty then none else some (" ".intercalate scopes)

def optionalField (name : String) : Option String → List (String × String)
  | none => []
  | some value => [(name, value)]

def Config.signerFields (config : Config) (assertion : String) : List (String × String) :=
  [("client_id", config.clientId), ("client_assertion_type", clientAssertionType),
    ("client_assertion", assertion)]

def Config.formFields (config : Config) (assertion : String) : Grant → List (String × String)
  | .clientCredentials => ("grant_type", grantClientCredentials) :: config.signerFields assertion ++
      optionalField "scope" (joinedScopes config.scopes) ++ optionalField "audience" config.audience
  | .tokenExchange subject => ("grant_type", grantTokenExchange) :: ("subject_token", subject) ::
      ("subject_token_type", tokenTypeAccessToken) ::
      ("requested_token_type", tokenTypeAccessToken) ::
      (optionalField "scope" (joinedScopes config.scopes) ++
        optionalField "audience" config.audience ++ config.signerFields assertion)

def Config.body (config : Config) (assertion : String) (grant : Grant) : List Char :=
  serializePairs (config.formFields assertion grant)

def isVisibleAscii (byte : UInt8) : Bool := (32 ≤ byte && byte < 127) || byte = 9

/-- `to_str` and the media type in front of the parameters. -/
def isJsonMedia (contentType : HeaderValue) : Bool :=
  contentType.asBytes.all isVisibleAscii &&
    (trim Char.isWhitespace ((contentType.asBytes.map fun byte => Char.ofNat byte.toNat).takeWhile
      (· ≠ ';'))).map Char.toLower = "application/json".toList

/-- What `post_form` makes of the outcome of one request. -/
def postForm (config : Config) (reply : Except OutboundError HttpResponse) :
    Except AcquisitionError TokenResponse :=
  match reply with
  | .error error => .error (mapTransportError error)
  | .ok response =>
    let status := response.status.asU16
    if (500 ≤ status ∧ status < 600) ∨ status = 429 then .error .unavailable
    else if !response.status.isSuccess then .error (.rejected (.fromBody config response.body))
    else if !(response.contentType.all isJsonMedia) then .error .invalidResponse
    else match config.decode response.body with
      | none => .error .invalidResponse
      | some response => .ok response

/-- `id` is the allocation behind the shared pointer. -/
structure Token where
  id : ℕ
  header : HeaderValue
  acquired : ℕ
  reuseUntil : Option ℕ
  refreshAfter : Option ℕ
  deriving DecidableEq

def Token.isReusable (token : Token) (now : ℕ) : Bool := token.reuseUntil.any (now < ·)

def Token.isEvictable (token : Token) (now : ℕ) : Bool :=
  evictionMinAge ≤ now - token.acquired

/-- A failed sample counts as zero. -/
def refreshSpread (window : ℕ) (sample : Option UInt16) : ℕ :=
  window * (sample.getD 0).toNat / 65535

def refreshRetry (sample : Option UInt16) : ℕ :=
  refreshRetryPeriod + refreshSpread (refreshRetryPeriod / 10) sample

def checkedAdd (config : Config) (instant : ℕ) (duration : ℕ) : Option ℕ :=
  if instant + duration ≤ config.lastInstant then some (instant + duration) else none

def checkedSub (instant : ℕ) (duration : ℕ) : Option ℕ :=
  if duration ≤ instant then some (instant - duration) else none

/-- `now` is compared with the expiry. -/
def reuseCutoff (config : Config) (expiresIn : Option UInt64) (started now : ℕ) :
    Except AcquisitionError (Option ℕ) :=
  match expiresIn with
  | none => .ok none
  | some lifetime =>
    match checkedAdd config started (fromSecs lifetime.toNat) with
    | none => .error .invalidResponse
    | some expiry =>
      if expiry ≤ now then .error .invalidResponse
      else .ok (some ((checkedSub expiry reuseMargin).getD started))

def refreshCutoff (started : ℕ) (sample : Option UInt16) (reuseUntil : ℕ) : ℕ :=
  let maximumLead := min refreshAheadLead ((reuseUntil - started) / 4)
  let lead := (checkedSub maximumLead (refreshSpread (maximumLead / 10) sample)).getD maximumLead
  reuseUntil - lead

/-- `now` and `later` are its two reads of the clock. -/
def intoToken (config : Config) (id : ℕ) (response : TokenResponse) (started : ℕ)
    (requireIssuedTokenType : Option String) (now later : ℕ) (sample : Option UInt16) :
    Except AcquisitionError Token :=
  if toAsciiLowercase response.tokenType ≠ "bearer" then .error .invalidResponse
  else if requireIssuedTokenType.any fun expected => response.issuedTokenType ≠ some expected then
    .error .invalidResponse
  else if response.accessToken = "" then .error .invalidResponse
  else match HeaderValue.fromBytes (asBytes "Bearer " ++ asBytes response.accessToken) with
    | none => .error .invalidResponse
    | some header =>
      match reuseCutoff config response.expiresIn started now with
      | .error error => .error error
      | .ok reuseUntil => .ok ⟨id, header, started, reuseUntil,
          (reuseUntil.filter (later < ·)).map (refreshCutoff started sample)⟩

inductive Requester where
  | call (c : CallId)
  | driver
  deriving DecidableEq

structure CompletedFailure where
  error : AcquisitionError
  cutoff : ℕ

structure Cached where
  token : Option Token
  refreshAfter : Option ℕ
  failure : Option CompletedFailure
  refreshPending : Bool

structure RefreshRequest where
  current : Token
  deadline : ℕ

inductive Acquired where
  | service (token : Token)
  | exchanged (key : Key) (token : Token)
  deriving DecidableEq

def Acquired.token : Acquired → Token
  | .service token => token
  | .exchanged _ token => token

/-- `reused now` is a token found reusable by the read `now` of the call's clock. -/
inductive Basis where
  | reused (now : ℕ)
  | fetched
  deriving DecidableEq

structure Outcome where
  call : CallId
  subject : Option String
  began : ℕ
  time : ℕ
  result : Except AcquisitionError (Acquired × Basis)

/-- A token the provider issued, with the request it answered. -/
structure Issue where
  requester : Requester
  grant : Grant
  request : List Char
  response : TokenResponse
  started : ℕ
  token : Token

/-- Service-token requests that were sent and failures that were remembered, in order. -/
inductive Mark where
  | started (time : ℕ)
  | failed (time : ℕ)
  deriving DecidableEq

structure Ledger where
  subjects : List String
  issued : List Issue
  marks : List Mark
  outcomes : List Outcome

inductive Published where
  | token (token : Token)
  | error (error : AcquisitionError)
  | abandoned

structure Run where
  key : Key
  published : Option Published

/-- `refresh` is the holder of the refresh lock, `fills` the run under way for a key. -/
structure Shared where
  now : ℕ
  cached : Cached
  refresh : Option Requester
  permits : ℕ
  exchanged : Key → Option Token
  fills : Key → Option RunId
  runs : List Run
  queue : List RefreshRequest
  closed : Bool
  ledger : Ledger

def Shared.initial (config : Config) : Shared :=
  ⟨0, ⟨none, none, none, false⟩, none, config.providerConcurrency, fun _ => none, fun _ => none,
    [], [], false, ⟨[], [], [], []⟩⟩

def Shared.unlock (sh : Shared) (r : Requester) : Shared :=
  { sh with refresh := if sh.refresh = some r then none else sh.refresh }

def Shared.record (sh : Shared) (outcome : Outcome) : Shared :=
  { sh with ledger := { sh.ledger with outcomes := sh.ledger.outcomes ++ [outcome] } }

def Shared.mark (sh : Shared) (mark : Mark) : Shared :=
  { sh with ledger := { sh.ledger with marks := sh.ledger.marks ++ [mark] } }

/-- `try_send` on the channel of one place. -/
def Shared.trySend (sh : Shared) (request : RefreshRequest) : Option Shared :=
  if sh.closed ∨ 1 ≤ sh.queue.length then none
  else some { sh with queue := sh.queue ++ [request] }

/-- One lock of the cached state. The flag is taken back when the request cannot be queued. -/
def reusableServiceToken (sh : Shared) (now : ℕ) (sample : Option UInt16) :
    Shared × Option Token :=
  match sh.cached.token.filter (·.isReusable now) with
  | none => (sh, none)
  | some token =>
    if sh.cached.refreshAfter.any (· ≤ now) ∧ sh.cached.refreshPending = false ∧
        sh.cached.failure.all (·.cutoff ≤ now) then
      let cached := { sh.cached with refreshAfter := some (now + refreshRetry sample) }
      match sh.trySend ⟨token, now + fetchTimeout⟩ with
      | some sent => ({ sent with cached := { cached with refreshPending := true } }, some token)
      | none => ({ sh with cached := { cached with refreshPending := false } }, some token)
    else (sh, some token)

def completedFailure (sh : Shared) (now : ℕ) : Option AcquisitionError :=
  (sh.cached.failure.filter (now < ·.cutoff)).map (·.error)

/-- The assignment of `remember_failure`; `time` is its read of the clock. -/
def rememberFailure (sh : Shared) (error : AcquisitionError) (time : ℕ) : Shared :=
  { sh with cached := { sh.cached with failure := some ⟨error, time + failureWindow⟩ } }.mark
    (.failed time)

def storeServiceToken (sh : Shared) (token : Token) : Shared :=
  let cached := { sh.cached with failure := none }
  if token.isReusable sh.now then
    { sh with cached := { cached with refreshAfter := token.refreshAfter, token := some token } }
  else { sh with cached := cached }

def deferRefresh (sh : Shared) (retry : ℕ) : Shared :=
  { sh with cached := { sh.cached with refreshAfter := sh.cached.refreshAfter.map (max · retry) } }

/-- `Arc::ptr_eq` with what a cache holds. -/
def holds (current : Option Token) (used : Token) : Bool := current.any (·.id = used.id)

def rejectServiceToken (sh : Shared) (used : Token) : Shared :=
  if holds sh.cached.token used then
    { sh with cached := { sh.cached with token := none, refreshAfter := none } }
  else sh

def forgetExchanged (sh : Shared) (key : Key) (used : Token) : Shared :=
  if holds (sh.exchanged key) used then
    { sh with exchanged := Function.update sh.exchanged key none }
  else sh

def rejectAcquired (sh : Shared) : Acquired → Shared
  | .service token => rejectServiceToken sh token
  | .exchanged key token => forgetExchanged sh key token

/-- Each place names what was read before it. -/
inductive Fetch where
  | starting
  | attempt (started : ℕ)
  | permit (started : ℕ)
  | signing (started : ℕ)
  | requesting (started : ℕ) (request : List Char)
  | parsing (started : ℕ) (request : List Char) (response : TokenResponse)
  | building (started : ℕ) (request : List Char) (response : TokenResponse) (now : ℕ)
  | done (result : Except AcquisitionError Token)

/-- What a task is given by the world around it at its next step. -/
inductive Input where
  | authorize (deadline : Option ℕ) (cancelled : Bool) (subject : Option String)
  | next
  | sampled (sample : Option UInt16)
  | signed (assertion : Option String)
  | replied (reply : Except OutboundError HttpResponse)
  | timeout
  | checked (cancelled : Bool)
  | unauthorized
  | receive
  | drop

def Fetch.holdsPermit : Fetch → Bool
  | .signing _ => true
  | .requesting _ _ => true
  | .parsing _ _ _ => true
  | .building _ _ _ _ => true
  | _ => false

def Grant.requiredType : Grant → Option String
  | .clientCredentials => none
  | .tokenExchange _ => some tokenTypeAccessToken

def Shared.returnPermit (sh : Shared) : Shared := { sh with permits := sh.permits + 1 }

def Shared.send (sh : Shared) : Grant → Shared
  | .clientCredentials => sh.mark (.started sh.now)
  | .tokenExchange _ => sh

def Shared.issue (sh : Shared) (issue : Issue) : Shared :=
  { sh with ledger := { sh.ledger with issued := sh.ledger.issued ++ [issue] } }

/-- The body of `fetch_service_token` and `fetch_exchange`. Only the former has a timer of its
own around the request. -/
def Fetch.step (config : Config) (r : Requester) (grant : Grant) (deadline : ℕ) (sh : Shared)
    (fetch : Fetch) (input : Input) : Option (Shared × Fetch) :=
  match fetch, input with
  | .starting, .next => some (sh, .attempt sh.now)
  | .attempt started, .next =>
    if deadline ≤ sh.now then some (sh, .done (.error .timeout)) else some (sh, .permit started)
  | .permit started, .next =>
    if sh.permits = 0 then some (sh, .done (.error .atCapacity))
    else some ({ sh with permits := sh.permits - 1 }, .signing started)
  | .signing _, .signed none => some (sh.returnPermit, .done (.error .assertion))
  | .signing started, .signed (some assertion) =>
    some (sh.send grant, .requesting started (config.body assertion grant))
  | .requesting started request, .replied reply =>
    match postForm config reply with
    | .error error => some (sh.returnPermit, .done (.error error))
    | .ok response => some (sh, .parsing started request response)
  | .requesting _ _, .timeout =>
    if grant = .clientCredentials ∧ deadline ≤ sh.now then
      some (sh.returnPermit, .done (.error .timeout))
    else none
  | .parsing started request response, .next => some (sh, .building started request response sh.now)
  | .building started request response now, .sampled sample =>
    match intoToken config sh.ledger.issued.length response started grant.requiredType now sh.now
      sample with
    | .error error => some (sh.returnPermit, .done (.error error))
    | .ok token => some (sh.returnPermit.issue ⟨r, grant, request, response, started, token⟩,
        .done (.ok token))
  | _, _ => none

def settle (deadline now : ℕ) (result : Except AcquisitionError Token) :
    Except AcquisitionError Token :=
  if deadline ≤ now then .error .timeout else result

/-- `context` is the deadline of the operation, `deadline` the one the acquisition spends. -/
structure Call where
  context : Option ℕ
  subject : Option String
  began : ℕ
  deadline : ℕ
  deriving DecidableEq

inductive Admission where
  | clock
  | lifecycle
  | refusing
  deriving DecidableEq

inductive Admitted where
  | again (admission : Admission)
  | passed
  | refused (error : AcquisitionError)

def Admission.step (sh : Shared) (deadline : ℕ) : Admission → Admitted
  | .clock => if deadline ≤ sh.now then .refused .timeout else .again .lifecycle
  | .lifecycle => if sh.closed then .again .refusing else .passed
  | .refusing => .refused (if deadline ≤ sh.now then .timeout else .unavailable)

/-- `service_token`, and `acquire_service_token` where `locked` or past `locking`. -/
inductive ServiceStage where
  | admission (locked : Bool) (admission : Admission)
  | clock (locked : Bool)
  | looking (locked : Bool) (now : ℕ)
  | locking
  | failures (now : ℕ)
  | fetching (deadline : ℕ) (shortened : Bool) (fetch : Fetch)
  | fetched (shortened : Bool) (result : Except AcquisitionError Token)
  | storing (token : Token)
  | remembering (error : AcquisitionError)
  | writing (error : AcquisitionError) (time : ℕ)

/-- The loop of `exchange`, with `exchanged_or_fetch` inside. -/
inductive ExchangeStage where
  | admission (admission : Admission)
  | clock
  | entry (deadline : ℕ)
  | joined (run : RunId) (deadline : ℕ)
  | leading (run : RunId) (deadline : ℕ) (fetch : Fetch)
  | received (token : Token) (fresh : Bool)
  | forgetting (token : Token)

/-- `RefreshDriver::run` around `refresh_ahead`. `handling` says that a received request has not
been cleared yet. -/
inductive DriverStage where
  | idle
  | locking (request : RefreshRequest)
  | clock (request : RefreshRequest)
  | failures (request : RefreshRequest) (now : ℕ)
  | comparing (request : RefreshRequest)
  | fetching (request : RefreshRequest) (fetch : Fetch)
  | storing (token : Token)
  | sampling
  | deferring (retry : ℕ)
  | remembering (error : AcquisitionError)
  | writing (error : AcquisitionError) (time : ℕ)
  | handled
  | leaving (handling : Bool)
  | closing (handling : Bool)
  | cleared
  | gone

/-- `finished` calls never come back. -/
inductive Task where
  | absent
  | bounding (context : Option ℕ) (subject : Option String) (began : ℕ)
  | admitting (call : Call) (admission : Admission)
  | service (call : Call) (stage : ServiceStage)
  | exchange (call : Call) (subject : String) (stage : ExchangeStage)
  | acquired (call : Call) (acquired : Acquired) (basis : Basis)
  | dispatched (acquired : Acquired)
  | rejecting (acquired : Acquired)
  | finished
  | driver (stage : DriverStage)

def stopped (sh : Shared) (context : Option ℕ) (cancelled : Bool) : Option AcquisitionError :=
  if context.any (· ≤ sh.now) then some .timeout
  else if cancelled then some .unavailable
  else none

/-- The call ends without a token, and whatever it held is given back. -/
def refuse (sh : Shared) (c : CallId) (subject : Option String) (began : ℕ)
    (error : AcquisitionError) : Shared × Task :=
  ((sh.unlock (.call c)).record ⟨c, subject, began, sh.now, .error error⟩, .finished)

def Call.refuse (call : Call) (sh : Shared) (c : CallId) (error : AcquisitionError) :
    Shared × Task := OAuthTokens.refuse sh c call.subject call.began error

/-- `acquire_service_token` returns from every place with the lock given back. -/
def serviceStep (config : Config) (c : CallId) (call : Call) (sh : Shared) (stage : ServiceStage)
    (input : Input) : Option (Shared × Task) :=
  match stage, input with
  | .admission locked admission, .next =>
    match admission.step sh call.deadline with
    | .again admission => some (sh, .service call (.admission locked admission))
    | .passed => some (sh, .service call (.clock locked))
    | .refused error => some (call.refuse sh c error)
  | .clock locked, .next => some (sh, .service call (.looking locked sh.now))
  | .looking locked now, .sampled sample =>
    match reusableServiceToken sh now sample with
    | (sh, some token) => some (sh.unlock (.call c), .acquired call (.service token) (.reused now))
    | (sh, none) => some (sh, .service call (if locked then .failures now else .locking))
  | .locking, .next =>
    if sh.refresh = none then
      some ({ sh with refresh := some (.call c) }, .service call (.admission true .clock))
    else none
  | .locking, .timeout =>
    if call.deadline ≤ sh.now then some (call.refuse sh c .timeout) else none
  | .failures now, .next =>
    match completedFailure sh now with
    | some error => some (call.refuse sh c error)
    | none => some (sh, .service call (.fetching (min call.deadline (now + fetchTimeout))
        (call.deadline < now + fetchTimeout) .starting))
  | .fetching deadline shortened fetch, input =>
    match fetch, input with
    | .done result, .next =>
      some (sh, .service call (.fetched shortened (settle deadline sh.now result)))
    | fetch, input =>
      (fetch.step config (.call c) .clientCredentials deadline sh input).map fun out =>
        (out.1, .service call (.fetching deadline shortened out.2))
  | .fetched shortened result, .next =>
    if shortened ∧ call.deadline ≤ sh.now then some (call.refuse sh c .timeout)
    else match result with
      | .ok token => some (sh, .service call (.storing token))
      | .error error =>
        -- A deadline that cut the request short says nothing about the provider.
        if (error ≠ .timeout ∨ shortened = false) ∧ error ≠ .atCapacity then
          some (sh, .service call (.remembering error))
        else some (call.refuse sh c error)
  | .storing token, .next => some ((storeServiceToken sh token).unlock (.call c),
      .acquired call (.service token) .fetched)
  | .remembering error, .next => some (sh, .service call (.writing error sh.now))
  | .writing error time, .next => some (call.refuse (rememberFailure sh error time) c error)
  | _, _ => none

/-- A run ends for its key and tells the callers that joined it. -/
def Shared.publish (sh : Shared) (key : Key) (run : RunId) (published : Published) : Shared :=
  { sh with
    runs := sh.runs.modify run fun old => { old with published := some published }
    fills := Function.update sh.fills key none }

def Shared.dropFetch (sh : Shared) (fetch : Fetch) : Shared :=
  if fetch.holdsPermit then sh.returnPermit else sh

def exchangeStep (config : Config) (c : CallId) (call : Call) (subject : String) (sh : Shared)
    (stage : ExchangeStage) (input : Input) : Option (Shared × Task) :=
  let key := config.subjectKey subject
  match stage, input with
  | .admission admission, .next =>
    match admission.step sh call.deadline with
    | .again admission => some (sh, .exchange call subject (.admission admission))
    | .passed => some (sh, .exchange call subject .clock)
    | .refused error => some (call.refuse sh c error)
  | .clock, .next =>
    some (sh, .exchange call subject (.entry (min call.deadline (sh.now + fetchTimeout))))
  | .entry deadline, .next =>
    match sh.exchanged key, sh.fills key with
    | some token, _ => some (sh, .exchange call subject (.received token false))
    | none, some run => some (sh, .exchange call subject (.joined run deadline))
    | none, none =>
      some ({ sh with
          runs := sh.runs ++ [⟨key, none⟩]
          fills := Function.update sh.fills key (some sh.runs.length) },
        .exchange call subject (.leading sh.runs.length deadline .starting))
  | .entry _, .timeout => if call.deadline ≤ sh.now then some (call.refuse sh c .timeout) else none
  | .joined run deadline, .next =>
    match sh.runs[run]?.bind (·.published) with
    | none => none
    | some (.token token) => some (sh, .exchange call subject (.received token false))
    | some (.error error) => some (call.refuse sh c error)
    | some .abandoned => some (sh, .exchange call subject (.entry deadline))
  | .joined _ _, .timeout =>
    if call.deadline ≤ sh.now then some (call.refuse sh c .timeout) else none
  | .leading run _ fetch, .timeout =>
    if call.deadline ≤ sh.now then
      some (call.refuse ((sh.dropFetch fetch).publish key run .abandoned) c .timeout)
    else none
  | .leading run deadline fetch, input =>
    match fetch, input with
    | .done (.ok token), .next =>
      some ({ sh.publish key run (.token token) with
          exchanged := Function.update sh.exchanged key (some token) },
        .exchange call subject (.received token true))
    | .done (.error error), .next => some (call.refuse (sh.publish key run (.error error)) c error)
    | fetch, input =>
      (fetch.step config (.call c) (.tokenExchange subject) deadline sh input).map fun out =>
        (out.1, .exchange call subject (.leading run deadline out.2))
  | .received token fresh, .next =>
    if fresh then some (sh, .acquired call (.exchanged key token) .fetched)
    else if token.isReusable sh.now then
      some (sh, .acquired call (.exchanged key token) (.reused sh.now))
    else some (sh, .exchange call subject (.forgetting token))
  | .forgetting token, .next =>
    some (forgetExchanged sh key token, .exchange call subject (.admission .clock))
  | _, _ => none

def dropCall (config : Config) (c : CallId) (sh : Shared) : Task → Shared
  | .service _ (.fetching _ _ fetch) => (sh.dropFetch fetch).unlock (.call c)
  | .exchange _ subject (.leading run _ fetch) =>
    (sh.dropFetch fetch).publish (config.subjectKey subject) run .abandoned
  | _ => sh.unlock (.call c)

def callStep (config : Config) (c : CallId) (sh : Shared) (task : Task) (input : Input) :
    Option (Shared × Task) :=
  match task, input with
  | .absent, .authorize context cancelled subject =>
    let sh := { sh with ledger :=
      { sh.ledger with subjects := sh.ledger.subjects ++ subject.toList } }
    match stopped sh context cancelled with
    | some error => some (refuse sh c subject sh.now error)
    | none => some (sh, .bounding context subject sh.now)
  | .bounding context subject began, .next =>
    some (sh, .admitting ⟨context, subject, began, context.getD (sh.now + fetchTimeout)⟩ .clock)
  | .admitting call admission, .next =>
    match admission.step sh call.deadline with
    | .again admission => some (sh, .admitting call admission)
    | .passed =>
      match call.subject with
      | none => some (sh, .service call (.admission false .clock))
      | some subject => some (sh, .exchange call subject (.admission .clock))
    | .refused error => some (call.refuse sh c error)
  | .acquired call acquired basis, .checked cancelled =>
    match stopped sh call.context cancelled with
    | some error => some (call.refuse sh c error)
    | none => some (sh.record ⟨c, call.subject, call.began, sh.now, .ok (acquired, basis)⟩,
        .dispatched acquired)
  | .dispatched acquired, .unauthorized =>
    if acquired.token.isEvictable sh.now then some (sh, .rejecting acquired)
    else some (sh, .finished)
  | .rejecting acquired, .next => some (rejectAcquired sh acquired, .finished)
  | .absent, _ => none
  | .finished, _ => none
  | .driver _, _ => none
  | task, .drop => some (dropCall config c sh task, .finished)
  | .service call stage, input => serviceStep config c call sh stage input
  | .exchange call subject stage, input => exchangeStep config c call subject sh stage input
  | _, _ => none

/-- Whether the driver still has to clear the flag for a request it received. -/
def DriverStage.handling : DriverStage → Bool
  | .idle => false
  | .leaving handling => handling
  | .closing handling => handling
  | .cleared => false
  | .gone => false
  | _ => true

/-- Shutdown, the end of the last owner or a dropped driver, at any place of the loop. -/
def leaveLoop (sh : Shared) (stage : DriverStage) : Option (Shared × Task) :=
  match stage with
  | .leaving _ => none
  | .closing _ => none
  | .cleared => none
  | .gone => none
  | .fetching _ fetch => some ((sh.dropFetch fetch).unlock .driver, .driver (.leaving true))
  | stage => some (sh.unlock .driver, .driver (.leaving stage.handling))

def driverStep (config : Config) (sh : Shared) (stage : DriverStage) (input : Input) :
    Option (Shared × Task) :=
  match stage, input with
  | .idle, .receive =>
    match sh.queue with
    | [] => none
    | request :: queue => some ({ sh with queue := queue }, .driver (.locking request))
  | .locking request, .next =>
    if sh.refresh = none then
      some ({ sh with refresh := some .driver }, .driver (.clock request))
    else none
  | .locking request, .timeout =>
    if request.deadline ≤ sh.now then some (sh, .driver .handled) else none
  | .clock request, .next => some (sh, .driver (.failures request sh.now))
  | .failures request now, .next =>
    if request.deadline ≤ now ∨ (completedFailure sh now).isSome then
      some (sh.unlock .driver, .driver .handled)
    else some (sh, .driver (.comparing request))
  | .comparing request, .next =>
    if holds sh.cached.token request.current then
      some (sh, .driver (.fetching request .starting))
    else some (sh.unlock .driver, .driver .handled)
  | .storing token, .next => some (storeServiceToken sh token, .driver .sampling)
  | .sampling, .sampled sample => some (sh, .driver (.deferring (sh.now + refreshRetry sample)))
  | .deferring retry, .next => some ((deferRefresh sh retry).unlock .driver, .driver .handled)
  | .remembering error, .next => some (sh, .driver (.writing error sh.now))
  | .writing error time, .next =>
    some ((rememberFailure sh error time).unlock .driver, .driver .handled)
  | .handled, .next =>
    some ({ sh with cached := { sh.cached with refreshPending := false } }, .driver .idle)
  | .leaving handling, .next => some ({ sh with closed := true }, .driver (.closing handling))
  | .closing _, .next =>
    some ({ sh with cached := { sh.cached with refreshPending := false } }, .driver .cleared)
  | .cleared, .next => some ({ sh with queue := [] }, .driver .gone)
  | stage, .drop => leaveLoop sh stage
  | .fetching request fetch, input =>
    match fetch, input with
    | .done result, .next =>
      match settle request.deadline sh.now result with
      | .ok token => some (sh, .driver (.storing token))
      | .error error =>
        if error = .atCapacity then some (sh.unlock .driver, .driver .handled)
        else some (sh, .driver (.remembering error))
    | fetch, input =>
      (fetch.step config .driver .clientCredentials request.deadline sh input).map fun out =>
        (out.1, .driver (.fetching request out.2))
  | _, _ => none

inductive Weather where
  | tick (elapsed : ℕ)
  | evict (key : Key)

def credentials (config : Config) : Program Requester Shared Task Input Weather where
  act
    | .call c, sh, task, input => callStep config c sh task input
    | .driver, sh, .driver stage, input => driverStep config sh stage input
    | .driver, _, _, _ => none
  env
    | sh, .tick elapsed => some { sh with now := sh.now + elapsed }
    | sh, .evict key => some { sh with exchanged := Function.update sh.exchanged key none }

def start (config : Config) : World Requester Shared Task where
  shared := .initial config
  tasks
    | .call _ => .absent
    | .driver => .driver .idle

end OAuthTokens
