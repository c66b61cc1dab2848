import ServiceTemplate.ServiceTokens

/-! Service token signing: the outbound source with one cached token for each receiver handle, the
receiver's reading of the `Authorization` value, and the registry it trusts. Signer and verifier meet
in the library that encodes and signs, which stands outside. -/
namespace ServiceTokenSource

open ByteFraming
open Utf8Text
open ExceptChain
open Splitting
open TransitionSystem
open ServiceTokens

def reuseSeconds : UInt64 := 30

def isAsciiAlnum (c : Char) : Bool := c.isLower || c.isUpper || c.isDigit

def restricted (c : Char) : Bool := isAsciiAlnum c || "!#$&-^_.+".toList.contains c

/-- `JwtType::parse` keeps the short lowercase form of a media subtype. -/
def parseJwtType (value : String) : Option JwtType :=
  (shortType value).bind fun short =>
    if decide (1 ≤ short.length ∧ short.length ≤ 127) && short.head?.any isAsciiAlnum &&
        short.all restricted then
      some ⟨String.ofList (toAsciiLower short)⟩
    else none

section Registry

variable {κ ν : Type}

structure TrustError where
  caller : Option CallerName
  key : Option ℕ
  reason : String
  deriving DecidableEq

/-- A member of the document: a caller's name with its keys, or nothing when it is no key set. -/
abbrev Member (ν : Type) := String × Option (List ν)

def parseKeys (admitKey : ν → Except String (TrustedKey κ)) (caller : CallerName) (values : List ν) :
    Except TrustError (List (TrustedKey κ)) :=
  (values.zipIdx 1).foldlM (fun keys value =>
    match admitKey value.1 with
    | .error reason => .error ⟨some caller, some value.2, reason⟩
    | .ok key =>
      if keys.any (fun known => known.kid = key.kid) then
        .error ⟨some caller, some value.2, "repeats a kid of this caller"⟩
      else .ok (keys ++ [key])) []

def parseMember (admitKey : ν → Except String (TrustedKey κ)) (member : Member ν) :
    Except TrustError (CallerName × List (TrustedKey κ)) := do
  let caller ← okOr (CallerName.parse member.1)
    ⟨none, none, "a caller name is not 1 to 63 lowercase letters, digits and hyphens"⟩
  let values ← okOr member.2 ⟨some caller, none, "is not a JWK Set with a keys array"⟩
  ensure (values ≠ []) ⟨some caller, none, "has no key"⟩
  let keys ← parseKeys admitKey caller values
  return (caller, keys)

def firstRepeat : List String → List String → Option String
  | _, [] => none
  | seen, name :: names =>
    if name ∈ seen then some name else firstRepeat (seen ++ [name]) names

/-- `TrustRegistry::parse`; nothing is a document that is not one JSON object. -/
def parseRegistry (admitKey : ν → Except String (TrustedKey κ)) (document : Option (List (Member ν))) :
    Except TrustError (TrustRegistry κ) := do
  let members ← okOr document ⟨none, none, "the trust registry is not one JSON object of JWK Sets"⟩
  match firstRepeat [] (members.map Prod.fst) with
  | some name =>
    match CallerName.parse name with
    | some caller => .error ⟨some caller, none, "is repeated in the trust registry"⟩
    | none => .error ⟨none, none, "the trust registry repeats a caller"⟩
  | none =>
    ensure (members ≠ []) ⟨none, none, "the trust registry names no caller"⟩
    let callers ← members.foldlM (fun (callers : AList fun _ : CallerName => List (TrustedKey κ))
        member => do
      let (caller, keys) ← parseMember admitKey member
      return callers.insert caller keys) ∅
    return ⟨callers⟩

end Registry

def asciiAlnum (byte : UInt8) : Bool :=
  (97 ≤ byte && byte ≤ 122) || (65 ≤ byte && byte ≤ 90) || (48 ≤ byte && byte ≤ 57)

def toAsciiLowerByte (byte : UInt8) : UInt8 :=
  if 65 ≤ byte && byte ≤ 90 then byte + 32 else byte

def tchar (byte : UInt8) : Bool :=
  asciiAlnum byte || (asBytes "!#$%&'*+-.^_\x60|~").contains byte

def b64token (byte : UInt8) : Bool := asciiAlnum byte || (asBytes "-._~+/").contains byte

/-- Exactly one value with the `Bearer` scheme, one or more spaces and a token. -/
def bearer (values : List Bytes) : Except Reason Bytes :=
  match values with
  | [] => .error .missing
  | _ :: _ :: _ => .error .malformed
  | [value] =>
    let scheme := value.takeWhile (· ≠ 32)
    let rest := value.dropWhile (· ≠ 32)
    if scheme = [] || !scheme.all tchar then .error .malformed
    else if scheme.map toAsciiLowerByte ≠ asBytes "bearer" then .error .missing
    else
      let token := rest.dropWhile (· = 32)
      let padding := (token.reverse.takeWhile (· = 61)).length
      if token.length = padding || !(token.take (token.length - padding)).all b64token then
        .error .malformed
      else .ok token

inductive SigningError where
  | invalidKey
  | invalidKeyId
  | invalidReceiver
  | noSigningKey
  | clock
  | signing
  deriving DecidableEq, Repr

structure SignedClaims where
  iss : String
  sub : String
  aud : String
  iat : UInt64
  exp : UInt64
  deriving DecidableEq

/-- The library both sides call. A signature is randomized, so it takes a nonce. -/
structure Jwt (π κ : Type) where
  codec : Codec κ
  encode : Bytes → Bytes
  headerJson : String → String → Bytes
  claimsJson : SignedClaims → String
  fromEcPem : String → Option π
  signature : π → Bytes → ℕ → Option Bytes
  publicKey : π → κ

variable {π κ ν : Type}

structure SigningOptions where
  name : CallerName
  jwtType : JwtType
  typed : ∃ value, parseJwtType value = some jwtType
  keyId : String
  privateKey : String

def admissibleKeyId (value : String) : Bool :=
  decide (1 ≤ (asBytes value).length ∧ (asBytes value).length ≤ 256) &&
    (asBytes value).all fun byte => 33 ≤ byte && byte ≤ 126

structure Signer (π : Type) where
  key : π
  typ : String
  kid : String
  name : CallerName

def claimsFor (signer : Signer π) (audience : String) (now : UInt64) : SignedClaims :=
  ⟨signer.name.text, signer.name.text, audience, now, now + maxTokenLifetimeSeconds⟩

def signedMessage (jwt : Jwt π κ) (signer : Signer π) (audience : String) (now : UInt64) : Bytes :=
  jwt.encode (jwt.headerJson signer.typ signer.kid) ++
    46 :: jwt.encode (asBytes (jwt.claimsJson (claimsFor signer audience now)))

def sign (jwt : Jwt π κ) (signer : Signer π) (audience : String) (now : UInt64) (nonce : ℕ) :
    Except SigningError Bytes :=
  match jwt.signature signer.key (signedMessage jwt signer audience now) nonce with
  | some signature =>
    .ok (signedMessage jwt signer audience now ++ 46 :: jwt.encode signature)
  | none => .error .signing

inductive TokenSource (π : Type) where
  | disabled
  | unconfigured
  | key (signer : Signer π)

def tryNew (jwt : Jwt π κ) (options : SigningOptions) (nonce : ℕ) :
    Except SigningError (TokenSource π) := do
  ensure (admissibleKeyId options.keyId) .invalidKeyId
  let key ← okOr (jwt.fromEcPem options.privateKey) .invalidKey
  let signer : Signer π := ⟨key, options.jwtType.text, options.keyId, options.name⟩
  ensure (sign jwt signer signer.name.text 0 nonce).isOk .invalidKey
  return .key signer

structure ReceiverTokens (π : Type) where
  signer : Option (Signer π)
  audience : CallerName

def TokenSource.receiver (source : TokenSource π) (receiver : String) :
    Except SigningError (ReceiverTokens π) := do
  let audience ← okOr (CallerName.parse receiver) .invalidReceiver
  match source with
  | .disabled => return ⟨none, audience⟩
  | .unconfigured => .error .noSigningKey
  | .key signer => return ⟨some signer, audience⟩

structure Cached where
  issuedAt : UInt64
  header : Bytes
  deriving DecidableEq

def headerValue (value : Bytes) : Option Bytes :=
  if value.all fun byte => (32 ≤ byte && byte ≠ 127) || byte = 9 then some value else none

def Cached.covers (cached : Cached) (now : UInt64) : Bool :=
  cached.issuedAt ≤ now && now < cached.issuedAt + reuseSeconds

/-- `ReceiverTokens::authorization_at` under the lock all clones share. -/
def authorizationAt (jwt : Jwt π κ) (handle : ReceiverTokens π) (cached : Option Cached)
    (now : UInt64) (nonce : ℕ) : Except SigningError Bytes × Option Cached :=
  match handle.signer with
  | none => (.error .noSigningKey, cached)
  | some signer =>
    match cached.filter (·.covers now) with
    | some token => (.ok token.header, cached)
    | none =>
      match sign jwt signer handle.audience.text now nonce with
      | .error error => (.error error, cached)
      | .ok token =>
        match headerValue (asBytes "Bearer " ++ token) with
        | none => (.error .signing, cached)
        | some header => (.ok header, some ⟨now, header⟩)

structure Handout where
  now : UInt64
  result : Except SigningError Bytes

structure State where
  cached : Option Cached
  handouts : List Handout

structure Call where
  now : UInt64
  nonce : ℕ

def step (jwt : Jwt π κ) (handle : ReceiverTokens π) (s : State) (call : Call) : Option State :=
  let (result, cached) := authorizationAt jwt handle s.cached call.now call.nonce
  some ⟨cached, s.handouts ++ [⟨call.now, result⟩]⟩

def handouts (jwt : Jwt π κ) (handle : ReceiverTokens π) : System State Call :=
  ⟨⟨none, []⟩, step jwt handle⟩

end ServiceTokenSource
