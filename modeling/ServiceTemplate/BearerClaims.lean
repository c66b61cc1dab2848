import ServiceTemplate.Utf8Text
import ServiceTemplate.ExceptChain
import ServiceTemplate.Splitting
import Mathlib.Data.List.Sort
import Mathlib.Data.List.Destutter
import Mathlib.Data.String.Basic

/-! Claim checks of bearer evidence and the verified principal.
JSON decoding stands outside: a decoder gives the typed claims of a payload, and `null` reads as
absent. Times are whole seconds since the epoch. -/
namespace BearerClaims

open ByteFraming
open Utf8Text
open ExceptChain
open Splitting

def leewaySeconds : ℕ := 30

def saturatingAdd (a b : ℕ) : ℕ := min (a + b) (2 ^ 64 - 1)

inductive Failure where
  | missing
  | malformed
  | invalid
  | unavailable
  deriving DecidableEq, Repr

inductive ProviderFailure where
  | timeout
  | connect
  | status (code : ℕ)
  | mediaType
  | tooLarge
  | transfer
  deriving DecidableEq, Repr

inductive VerificationReason where
  | missingClaim
  | malformedClaims
  | issuer
  | audience
  | expired
  | notYetValid
  | scope
  | clock
  | provider (failure : ProviderFailure)
  | inactive
  | capacity
  deriving DecidableEq, Repr

structure VerificationError where
  failure : Failure
  reason : VerificationReason
  deriving DecidableEq, Repr

def invalid (reason : VerificationReason) : VerificationError := ⟨.invalid, reason⟩

structure ClaimPolicy where
  issuer : String
  audiences : List String
  checked : audiences ≠ [] ∧ ∀ audience ∈ audiences, audience ≠ ""

inductive Values where
  | one (value : String)
  | many (values : List String)
  deriving DecidableEq, Repr

def Values.containsAny (values : Values) (accepted : List String) : Bool :=
  match values with
  | .one value => accepted.any (· = value)
  | .many values => values.any fun value => accepted.any (· = value)

structure RawAct where
  sub : String
  clientId : Option String
  deriving DecidableEq, Repr

structure Actor where
  subject : String
  clientId : Option String
  deriving DecidableEq, Repr

/-- An empty `sub` is malformed evidence, not an absent actor. -/
def RawAct.intoActor (act : RawAct) : Option Actor :=
  if act.sub = "" then none else some ⟨act.sub, act.clientId⟩

structure ActiveClaims where
  iss : Option String
  aud : Option Values
  exp : Option ℕ
  nbf : Option ℕ
  sub : Option String
  clientId : Option String
  scope : Option Values
  scp : Option Values
  act : Option RawAct
  deriving DecidableEq, Repr

structure Decoder where
  /-- `active` of a response that parses. -/
  envelope : String → Option Bool
  claims : String → Option ActiveClaims

structure Principal where
  issuer : String
  subject : Option String
  clientId : Option String
  scopes : List String
  payload : String
  accessToken : String
  actor : Option Actor
  expiresAt : ℕ
  deriving DecidableEq, Repr

def Principal.payloadLen (principal : Principal) : ℕ := (asBytes principal.payload).length

/-- Private time evidence kept beside an introspection principal. -/
structure VerifiedIntrospection where
  principal : Principal
  notBefore : Option ℕ
  deriving DecidableEq, Repr

def checkLifetime (expiry : ℕ) (notBefore : Option ℕ) (now : ℕ) : Except VerificationError Unit :=
  if saturatingAdd expiry leewaySeconds < now then .error (invalid .expired)
  else if notBefore.any fun notBefore => saturatingAdd now leewaySeconds < notBefore then
    .error (invalid .notYetValid)
  else .ok ()

def VerifiedIntrospection.reusableAt (value : VerifiedIntrospection) (now : ℕ) : Bool :=
  now < value.principal.expiresAt &&
    (checkLifetime value.principal.expiresAt value.notBefore now).isOk

def VerifiedIntrospection.deliver (value : VerifiedIntrospection) (now : ℕ) :
    Except VerificationError Principal :=
  match checkLifetime value.principal.expiresAt value.notBefore now with
  | .ok _ => .ok value.principal
  | .error error => .error error

def nonEmpty (value : Option String) : Option String := value.filter (· ≠ "")

def scopeByte (byte : UInt8) : Bool :=
  byte = 33 || (35 ≤ byte && byte ≤ 91) || (93 ≤ byte && byte ≤ 126)

def isScopeToken (value : String) : Bool := value ≠ "" && (asBytes value).all scopeByte

def splitSpaces (value : String) : List String :=
  (value.toList.splitOnP (· = ' ')).map String.ofList

def scopeValues : Option Values → List String
  | none => []
  | some (.one value) => if value = "" then [] else splitSpaces value
  | some (.many values) => values

def normalizeScopes (scope : Option Values) (refusal : Failure) :
    Except VerificationError (List String) :=
  let values := scopeValues scope
  if !values.all isScopeToken then .error ⟨refusal, .scope⟩
  else .ok ((values.insertionSort (· ≤ ·)).destutter (· ≠ ·))

/-- Normalized scopes are sorted and have the values of the claim. -/
theorem normalize_scopes_ok {scope : Option Values} {refusal : Failure} {scopes : List String}
    (h : normalizeScopes scope refusal = .ok scopes) :
    scopes.Pairwise (· ≤ ·) ∧ ∀ value, value ∈ scopes ↔ value ∈ scopeValues scope := by
  simp only [normalizeScopes] at h
  split at h
  · cases h
  cases h
  have hsorted := List.pairwise_insertionSort (· ≤ ·) (scopeValues scope)
  refine ⟨hsorted.sublist (List.destutter_sublist _ _), fun value => ?_⟩
  rw [List.Pairwise.destutter_eq_dedup hsorted, List.mem_dedup, List.mem_insertionSort]

def jsonBlank (c : Char) : Bool := c = ' ' || c = '\t' || c = '\r' || c = '\n'

def trimMatches (text : String) : String := String.ofList (trim jsonBlank text.toList)

def unreadable : VerificationError := ⟨.unavailable, .malformedClaims⟩

def actorOf : Option RawAct → Except VerificationError (Option Actor)
  | none => .ok none
  | some act => match act.intoActor with
    | none => .error unreadable
    | some actor => .ok (some actor)

/-- An unreadable response is unavailable trust; an active response that lacks required claims is
invalid. -/
def validateIntrospectionClaims (decoder : Decoder) (bytes : Bytes) (policy : ClaimPolicy)
    (now : ℕ) (accessToken : String) : Except VerificationError VerifiedIntrospection := do
  let text ← okOr (fromUtf8 bytes) unreadable
  let payload := trimMatches text
  let active ← okOr (decoder.envelope payload) unreadable
  ensure active (invalid .inactive)
  let claims ← okOr (decoder.claims payload) unreadable
  let issuer ← okOr claims.iss (invalid .missingClaim)
  let audience ← okOr claims.aud (invalid .missingClaim)
  let expiry ← okOr claims.exp (invalid .missingClaim)
  ensure (issuer = policy.issuer) (invalid .issuer)
  ensure (audience.containsAny policy.audiences) (invalid .audience)
  checkLifetime expiry claims.nbf now
  let subject := nonEmpty claims.sub
  let clientId := nonEmpty claims.clientId
  ensure (subject.isSome || clientId.isSome) (invalid .missingClaim)
  let scopes ← normalizeScopes (claims.scope.or claims.scp) .unavailable
  let actor ← actorOf claims.act
  return ⟨⟨policy.issuer, subject, clientId, scopes, payload, accessToken, actor, expiry⟩,
    claims.nbf⟩

theorem check_lifetime_ok {expiry now : ℕ} {notBefore : Option ℕ}
    (h : checkLifetime expiry notBefore now = .ok ()) :
    now ≤ expiry + leewaySeconds ∧ ∀ start, notBefore = some start → start ≤ now + leewaySeconds := by
  simp only [checkLifetime] at h
  split at h
  · cases h
  next hexpiry =>
  split at h
  · cases h
  next hstart =>
  simp only [saturatingAdd] at hexpiry
  refine ⟨by omega, ?_⟩
  rintro start rfl
  have hbound : start ≤ saturatingAdd now leewaySeconds := by simpa using hstart
  exact Nat.le_trans hbound (Nat.min_le_left _ _)

/-- Reuse is stricter than delivery: the expiry itself has no leeway. -/
theorem reusable_at_iff {value : VerifiedIntrospection} {now : ℕ} :
    value.reusableAt now = true ↔ now < value.principal.expiresAt ∧
      checkLifetime value.principal.expiresAt value.notBefore now = .ok () := by
  cases h : checkLifetime value.principal.expiresAt value.notBefore now <;>
    simp [VerifiedIntrospection.reusableAt, h, Except.isOk, Except.toBool]

theorem deliver_ok {value : VerifiedIntrospection} {now : ℕ} {principal : Principal} :
    value.deliver now = .ok principal ↔ principal = value.principal ∧
      checkLifetime value.principal.expiresAt value.notBefore now = .ok () := by
  cases h : checkLifetime value.principal.expiresAt value.notBefore now <;>
    simp [VerifiedIntrospection.deliver, h, eq_comm]

/-- A verified introspection comes from an active answer and belongs to the presented token. -/
theorem validate_introspection_ok {decoder : Decoder} {bytes : Bytes} {policy : ClaimPolicy}
    {now : ℕ} {accessToken : String} {value : VerifiedIntrospection}
    (h : validateIntrospectionClaims decoder bytes policy now accessToken = .ok value) :
    ∃ text, fromUtf8 bytes = some text ∧ decoder.envelope (trimMatches text) = some true ∧
      (∃ claims, decoder.claims (trimMatches text) = some claims ∧
        normalizeScopes (claims.scope.or claims.scp) .unavailable = .ok value.principal.scopes) ∧
      value.principal.payload = trimMatches text ∧ value.principal.accessToken = accessToken ∧
      value.principal.issuer = policy.issuer ∧
      checkLifetime value.principal.expiresAt value.notBefore now = .ok () := by
  unfold validateIntrospectionClaims at h
  obtain ⟨text, htext, h⟩ := bind_ok.mp h
  obtain ⟨active, hactive, h⟩ := bind_ok.mp h
  obtain ⟨_, hensure, h⟩ := bind_ok.mp h
  obtain ⟨claims, hclaims, h⟩ := bind_ok.mp h
  obtain ⟨issuer, hissuer, h⟩ := bind_ok.mp h
  obtain ⟨audience, haudience, h⟩ := bind_ok.mp h
  obtain ⟨expiry, hexpiry, h⟩ := bind_ok.mp h
  obtain ⟨_, hmatch, h⟩ := bind_ok.mp h
  obtain ⟨_, hany, h⟩ := bind_ok.mp h
  obtain ⟨_, hlifetime, h⟩ := bind_ok.mp h
  obtain ⟨_, hidentity, h⟩ := bind_ok.mp h
  obtain ⟨scopes, hscopes, h⟩ := bind_ok.mp h
  obtain ⟨actor, hactor, h⟩ := bind_ok.mp h
  cases h
  have htrue := ensure_ok.mp hensure
  refine ⟨text, ok_or_ok.mp htext, ?_, ⟨claims, ok_or_ok.mp hclaims, hscopes⟩, rfl, rfl, rfl,
    hlifetime⟩
  rw [ok_or_ok.mp hactive, htrue]

end BearerClaims
