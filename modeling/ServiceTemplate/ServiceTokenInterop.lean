import ServiceTemplate.ServiceTokenSource
import ServiceTemplate.JsonText
import ServiceTemplate.Base64
import Mathlib.Logic.Function.Basic

/-! What the source signs, the receiver accepts, inside the windows of both; and nobody else does. -/
namespace ServiceTokenInterop

open ByteFraming
open Utf8Text
open ExceptChain
open Splitting
open TransitionSystem
open ServiceTokens hiding State Call step
open ServiceTokenSource

variable {π κ ν : Type}

def urlByte (byte : UInt8) : Bool := asciiAlnum byte || byte = 45 || byte = 95

def readClaims (claims : SignedClaims) : Claims :=
  ⟨some claims.iss, some claims.sub, some (.one claims.aud), some claims.iat, some claims.exp, none⟩

/-- What the library documents: encoding and decoding are inverse, a serialized header or claim set
is read back, and a signature verifies under the signing key's public key only. -/
structure Faithful (jwt : Jwt π κ) : Prop where
  decode : ∀ bytes, jwt.codec.decode (jwt.encode bytes) = some bytes
  alphabet : ∀ bytes, ∀ byte ∈ jwt.encode bytes, urlByte byte = true
  header : ∀ typ kid, jwt.codec.parseHeader (jwt.headerJson typ kid) =
    some ⟨true, some typ, some kid, false⟩
  claims : ∀ claims, jwt.codec.parseClaims (jwt.claimsJson claims) = some (readClaims claims)
  signs : ∀ key message nonce, (jwt.signature key message nonce).isSome = true →
    ∀ message' nonce', (jwt.signature key message' nonce').isSome = true
  length : ∀ key message nonce signature, jwt.signature key message nonce = some signature →
    signature.length = 64
  verify : ∀ key message nonce signature, jwt.signature key message nonce = some signature →
    ∀ other, jwt.codec.verifySig other message signature = true ↔ other = jwt.publicKey key

theorem restricted_ascii {c : Char} (h : restricted c = true) : c.toNat < 128 := by
  have hbelow : ∀ high : UInt32, high.toNat < 128 → c.val ≤ high → c.toNat < 128 :=
    fun high hhigh hle => Nat.lt_of_le_of_lt (UInt32.le_iff_toNat_le.mp hle) hhigh
  simp only [restricted, isAsciiAlnum, Bool.or_eq_true, List.contains_iff_mem] at h
  rcases h with ((hlower | hupper) | hdigit) | h
  · exact hbelow 'z'.val (by decide) (of_decide_eq_true (Bool.and_eq_true_iff.mp hlower).2)
  · exact hbelow 'Z'.val (by decide) (of_decide_eq_true hupper).2
  · exact hbelow '9'.val (by decide) (of_decide_eq_true (Bool.and_eq_true_iff.mp hdigit).2)
  · have hall : ∀ d ∈ "!#$&-^_.+".toList, d.toNat < 128 := by decide
    exact hall c h

theorem restricted_lower {c : Char} (h : restricted c = true) :
    c.toLower ≠ '/' ∧ c.toLower.toLower = c.toLower := by
  have hall : ∀ n < 128, restricted (Char.ofNat n) = true →
      (Char.ofNat n).toLower ≠ '/' ∧ (Char.ofNat n).toLower.toLower = (Char.ofNat n).toLower := by
    decide
  have hc := hall c.toNat (restricted_ascii h)
  rw [Char.ofNat_toNat] at hc
  exact hc h

theorem parse_jwt_type_ok {value : String} {jwtType : JwtType} (h : parseJwtType value = some jwtType) :
    '/' ∉ jwtType.text.toList ∧ toAsciiLower jwtType.text.toList = jwtType.text.toList := by
  obtain ⟨short, -, h⟩ := Option.bind_eq_some_iff.mp h
  rw [Option.ite_none_right_eq_some] at h
  obtain ⟨hchecks, hout⟩ := h
  cases hout
  simp only [Bool.and_eq_true, List.all_eq_true] at hchecks
  have hlower : ∀ c ∈ short, c.toLower ≠ '/' ∧ c.toLower.toLower = c.toLower :=
    fun c hc => restricted_lower (hchecks.2 c hc)
  rw [String.toList_ofList]
  constructor
  · intro hmem
    obtain ⟨c, hc, heq⟩ := List.mem_map.mp hmem
    exact (hlower c hc).1 heq
  · rw [toAsciiLower, toAsciiLower, List.map_map]
    exact List.map_congr_left fun c hc => (hlower c hc).2

/-- Of the parsed types a receiver admits its own and no other. -/
theorem parsed_admits_iff {a b : JwtType} (ha : ∃ value, parseJwtType value = some a)
    (hb : ∃ value, parseJwtType value = some b) : a.admits b.text = true ↔ a = b := by
  obtain ⟨_, ha⟩ := ha
  obtain ⟨_, hb⟩ := hb
  obtain ⟨-, halower⟩ := parse_jwt_type_ok ha
  obtain ⟨hbslash, hblower⟩ := parse_jwt_type_ok hb
  simp only [JwtType.admits, shortType, split_once_none hbslash, Option.any_some, halower, hblower,
    decide_eq_true_eq]
  constructor
  · intro h
    cases a
    cases b
    exact congrArg JwtType.mk (String.toList_inj.mp h.symm)
  · rintro rfl
    rfl

theorem parse_keys_ok {admitKey : ν → Except String (TrustedKey κ)} {caller : CallerName}
    {values : List ν} {keys : List (TrustedKey κ)} (h : parseKeys admitKey caller values = .ok keys) :
    (keys.map TrustedKey.kid).Nodup := by
  refine fold_invariant (P := fun keys : List (TrustedKey κ) => (keys.map TrustedKey.kid).Nodup)
    ?_ (by simp) h
  intro known value next hknown hnext
  split at hnext
  · cases hnext
  · rename_i key _
    split at hnext
    · cases hnext
    · rename_i hfresh
      cases hnext
      simp only [List.any_eq_true, decide_eq_true_eq, not_exists, not_and] at hfresh
      rw [List.map_append, List.map_singleton, List.nodup_append]
      refine ⟨hknown, List.nodup_singleton _, ?_⟩
      intro kid hkid other hother heq
      obtain ⟨old, hold, rfl⟩ := List.mem_map.mp hkid
      rw [List.mem_singleton] at hother
      exact hfresh old hold (heq.trans hother)

/-- No caller of a parsed registry has two keys of one id. -/
theorem parse_registry_ok {admitKey : ν → Except String (TrustedKey κ)}
    {document : Option (List (Member ν))} {trust : TrustRegistry κ}
    (h : parseRegistry admitKey document = .ok trust) {caller : CallerName}
    {keys : List (TrustedKey κ)} (hkeys : trust.callers.lookup caller = some keys) :
    (keys.map TrustedKey.kid).Nodup := by
  simp only [parseRegistry, bind_ok, ok_or_ok] at h
  obtain ⟨members, -, h⟩ := h
  split at h
  · split at h <;> cases h
  · simp only [bind_ok, ensure_ok] at h
    obtain ⟨_, -, callers, hcallers, hout⟩ := h
    cases hout
    have hunique : ∀ caller keys, callers.lookup caller = some keys →
        (keys.map TrustedKey.kid).Nodup := by
      refine fold_invariant (P := fun callers : AList fun _ : CallerName => List (TrustedKey κ) =>
        ∀ caller keys, callers.lookup caller = some keys → (keys.map TrustedKey.kid).Nodup)
        ?_ ?_ hcallers
      · intro known member next hknown hnext caller keys hlookup
        simp only [bind_ok] at hnext
        obtain ⟨⟨name, parsed⟩, hmember, hnext⟩ := hnext
        cases hnext
        by_cases heq : caller = name
        · subst heq
          rw [AList.lookup_insert] at hlookup
          cases hlookup
          simp only [parseMember, bind_ok] at hmember
          obtain ⟨_, -, _, -, _, -, _, hparsed, hmember⟩ := hmember
          cases hmember
          exact parse_keys_ok hparsed
        · rw [AList.lookup_insert_ne heq] at hlookup
          exact hknown caller keys hlookup
      · intro caller keys hlookup
        rw [AList.lookup_empty] at hlookup
        cases hlookup
    exact hunique caller keys hkeys

theorem find_kid {keys : List (TrustedKey κ)} (h : (keys.map TrustedKey.kid).Nodup)
    {key : TrustedKey κ} (hmem : key ∈ keys) : keys.find? (·.kid = key.kid) = some key := by
  cases hfind : keys.find? (·.kid = key.kid) with
  | none =>
    have hnone := List.find?_eq_none.mp hfind key hmem
    simp at hnone
  | some found =>
    have hkid : found.kid = key.kid := by simpa using List.find?_some hfind
    rw [List.inj_on_of_nodup_map h (List.mem_of_find?_eq_some hfind) hmem hkid]

theorem split_last_dot_append (front : Bytes) {back : Bytes} (h : 46 ∉ back) :
    splitLastDot (front ++ 46 :: back) = some (front, back) := by
  have hreverse : (front ++ 46 :: back).reverse = back.reverse ++ 46 :: front.reverse := by simp
  have hback : 46 ∉ back.reverse := by simpa using h
  simp [splitLastDot, hreverse, split_once_append hback]

/-- A byte of a token: two parts and a signature with a dot between them. -/
def tokenByte (byte : UInt8) : Bool := urlByte byte || byte = 46

theorem token_byte_plain {byte : UInt8} (h : tokenByte byte = true) :
    b64token byte = true ∧ byte ≠ 61 ∧ byte ≠ 32 ∧ 32 ≤ byte ∧ byte ≠ 127 := by
  have hall : ∀ n < 256, tokenByte (UInt8.ofNat n) = true →
      b64token (UInt8.ofNat n) = true ∧ UInt8.ofNat n ≠ 61 ∧ UInt8.ofNat n ≠ 32 ∧
        32 ≤ UInt8.ofNat n ∧ UInt8.ofNat n ≠ 127 := by
    decide +kernel
  have hbyte := hall byte.toNat byte.toNat_lt
  rw [UInt8.ofNat_toNat] at hbyte
  exact hbyte h

theorem bearer_token {token : Bytes} (hne : token ≠ []) (h : ∀ byte ∈ token, tokenByte byte = true) :
    bearer [asBytes "Bearer " ++ token] = .ok token := by
  have hscheme : asBytes "Bearer " = [66, 101, 97, 114, 101, 114] ++ [32] := by decide
  have hspaces : (32 :: token).dropWhile (· = 32) = token := by
    cases token with
    | nil => rfl
    | cons byte token => simp [(token_byte_plain (h byte (by simp))).2.2.1]
  have hpadding : token.reverse.takeWhile (· = 61) = [] := by
    cases hreverse : token.reverse with
    | nil => rfl
    | cons byte rest =>
      have hmem : byte ∈ token := by
        rw [← List.mem_reverse, hreverse]
        simp
      simp [(token_byte_plain (h byte hmem)).2.1]
  have hbytes : token.all b64token = true :=
    List.all_eq_true.mpr fun byte hbyte => (token_byte_plain (h byte hbyte)).1
  have hlower : [66, 101, 97, 114, 101, 114].map toAsciiLowerByte = asBytes "bearer" := by
    decide
  have htchar : [66, 101, 97, 114, 101, 114].all tchar = true := by decide
  have htake : (asBytes "Bearer " ++ token).takeWhile (· ≠ 32) = [66, 101, 97, 114, 101, 114] := by
    simp [hscheme]
  have hdrop : (asBytes "Bearer " ++ token).dropWhile (· ≠ 32) = 32 :: token := by
    simp [hscheme]
  have hlength : token.length ≠ 0 := by
    simpa using hne
  simp only [bearer, htake, hdrop, htchar, hlower, hspaces, hpadding, List.length_nil, Nat.sub_zero,
    List.take_length, hbytes]
  simp [hlength]

theorem header_value_token {token : Bytes} (h : ∀ byte ∈ token, tokenByte byte = true) :
    headerValue (asBytes "Bearer " ++ token) = some (asBytes "Bearer " ++ token) := by
  have hscheme : (asBytes "Bearer ").all
      (fun byte => (32 ≤ byte && byte ≠ 127) || byte = 9) = true := by decide
  have htoken : token.all (fun byte => (32 ≤ byte && byte ≠ 127) || byte = 9) = true := by
    rw [List.all_eq_true]
    intro byte hbyte
    obtain ⟨-, -, -, hlow, hdelete⟩ := token_byte_plain (h byte hbyte)
    simp [hlow, hdelete]
  rw [headerValue, if_pos]
  rw [List.all_append, hscheme, htoken]
  rfl

section Tokens

variable {jwt : Jwt π κ} {signer : Signer π} {audience : String} {now : UInt64} {nonce : ℕ}
  {token : Bytes}

theorem Faithful.no_dot (hjwt : Faithful jwt) (bytes : Bytes) : 46 ∉ jwt.encode bytes := by
  intro hmem
  exact absurd (hjwt.alphabet bytes 46 hmem) (by decide)

theorem sign_ok (h : sign jwt signer audience now nonce = .ok token) :
    ∃ signature, jwt.signature signer.key (signedMessage jwt signer audience now) nonce =
        some signature ∧
      token = signedMessage jwt signer audience now ++ 46 :: jwt.encode signature := by
  simp only [sign] at h
  split at h
  · rename_i signature hsignature
    cases h
    exact ⟨signature, hsignature, rfl⟩
  · cases h

theorem sign_bytes (hjwt : Faithful jwt) (h : sign jwt signer audience now nonce = .ok token) :
    token ≠ [] ∧ ∀ byte ∈ token, tokenByte byte = true := by
  obtain ⟨signature, -, rfl⟩ := sign_ok h
  refine ⟨by simp, ?_⟩
  intro byte hbyte
  simp only [signedMessage, List.mem_append, List.mem_cons] at hbyte
  have hurl : ∀ bytes, byte ∈ jwt.encode bytes → tokenByte byte = true := by
    intro bytes hmem
    rw [tokenByte, hjwt.alphabet bytes byte hmem]
    rfl
  rcases hbyte with (hbyte | rfl | hbyte) | rfl | hbyte
  · exact hurl _ hbyte
  · decide
  · exact hurl _ hbyte
  · decide
  · exact hurl _ hbyte

/-- What a signed token passes before its times are checked. -/
theorem attested_sign (hjwt : Faithful jwt) (h : sign jwt signer audience now nonce = .ok token)
    {v : Verifier κ} (hv : v.codec = jwt.codec) {caller : CallerName} {claims : Claims} :
    attested v token = .ok (caller, claims) ↔
      v.jwtType.admits signer.typ = true ∧ signer.kid ≠ "" ∧ v.audience.text = audience ∧
      claims = readClaims (claimsFor signer audience now) ∧
      ∃ keys key, v.trust.caller signer.name.text = some (caller, keys) ∧
        keys.find? (·.kid = signer.kid) = some key ∧ key.key = jwt.publicKey signer.key := by
  obtain ⟨signature, hsignature, rfl⟩ := sign_ok h
  have htoken := split_last_dot_append (signedMessage jwt signer audience now)
    (hjwt.no_dot signature)
  have hmessage := split_last_dot_append (jwt.encode (jwt.headerJson signer.typ signer.kid))
    (hjwt.no_dot (asBytes (jwt.claimsJson (claimsFor signer audience now))))
  have hlength := hjwt.length _ _ _ _ hsignature
  have hverify := hjwt.verify _ _ _ _ hsignature
  simp only [attested, bind_ok, ok_or_ok, ensure_ok, htoken, hv]
  constructor
  · rintro ⟨_, ⟨⟩, _, hparts, header, hheader, _, -, _, -, _, htype, kid, hkid, text, htext, parsed,
      hparsed, issuer, hissuer, ⟨name, keys⟩, hcaller, key, hkey, bytes, hbytes, _, hverified, _, -,
      _, haudience, hout⟩
    cases hout
    rw [signedMessage, hmessage] at hparts
    cases hparts
    rw [hjwt.decode, Option.bind_some, hjwt.header] at hheader
    cases hheader
    rw [hjwt.decode, Option.bind_some, from_utf8_as_bytes] at htext
    cases htext
    rw [hjwt.claims] at hparsed
    cases hparsed
    cases hissuer
    obtain ⟨hkid, hne⟩ := Option.filter_eq_some_iff.mp hkid
    cases hkid
    rw [hjwt.decode] at hbytes
    cases (Option.filter_eq_some_iff.mp hbytes).1
    refine ⟨by simpa using htype, of_decide_eq_true hne, ?_, rfl, keys, key, hcaller, hkey,
      (hverify key.key).mp hverified⟩
    simpa [readClaims, claimsFor, Audience.isOnly, eq_comm] using haudience
  · rintro ⟨htype, hkid, haudience, rfl, keys, key, hcaller, hkey, hpublic⟩
    refine ⟨_, rfl, _, hmessage, _, by rw [hjwt.decode, Option.bind_some, hjwt.header], (), rfl, (),
      rfl, (), by simpa using htype, signer.kid, by simp [hkid], _,
      by rw [hjwt.decode, Option.bind_some, from_utf8_as_bytes], _, hjwt.claims _, signer.name.text,
      rfl, (caller, keys), hcaller, key, hkey, signature, ?_, (), (hverify key.key).mpr hpublic, (),
      by simp [readClaims, claimsFor], (), ?_, rfl⟩
    · rw [hjwt.decode]
      simp [hlength]
    · simp [readClaims, claimsFor, Audience.isOnly, haudience]

def tokenClaims (codec : Codec κ) (token : Bytes) : Option Claims := do
  let (message, _) ← splitLastDot token
  let (_, payload) ← splitLastDot message
  let text ← (codec.decode payload).bind fromUtf8
  codec.parseClaims text

theorem token_claims_sign (hjwt : Faithful jwt) (h : sign jwt signer audience now nonce = .ok token) :
    tokenClaims jwt.codec token = some (readClaims (claimsFor signer audience now)) := by
  obtain ⟨signature, -, rfl⟩ := sign_ok h
  have htoken := split_last_dot_append (signedMessage jwt signer audience now)
    (hjwt.no_dot signature)
  have hmessage := split_last_dot_append (jwt.encode (jwt.headerJson signer.typ signer.kid))
    (hjwt.no_dot (asBytes (jwt.claimsJson (claimsFor signer audience now))))
  simp only [tokenClaims, htoken, bind, Option.bind_some]
  rw [signedMessage, hmessage, Option.bind_some, hjwt.decode, Option.bind_some, from_utf8_as_bytes,
    Option.bind_some, hjwt.claims]

end Tokens

section Runs

variable {jwt : Jwt π κ} {signer : Signer π} {handle : ReceiverTokens π} {s t : State}

/-- The value is one the signer made for the handle's audience at an instant. -/
def Issued (jwt : Jwt π κ) (signer : Signer π) (audience : String) (issuedAt : UInt64)
    (header : Bytes) : Prop :=
  ∃ nonce token, sign jwt signer audience issuedAt nonce = .ok token ∧
    header = asBytes "Bearer " ++ token

/-- Every answer is a token of the signer, signed in the call or inside its reuse window. -/
structure Inv (jwt : Jwt π κ) (signer : Signer π) (audience : String) (s : State) : Prop where
  cached : ∀ cached ∈ s.cached, Issued jwt signer audience cached.issuedAt cached.header
  handouts : ∀ handout ∈ s.handouts, ∃ issuedAt header, handout.result = .ok header ∧
    Issued jwt signer audience issuedAt header ∧ issuedAt ≤ handout.now ∧
    (issuedAt = handout.now ∨ handout.now < issuedAt + reuseSeconds)

theorem sign_some (hjwt : Faithful jwt) {audience : String} {now : UInt64} {nonce : ℕ}
    (h : (sign jwt signer audience now nonce).isOk = true) (audience' : String) (now' : UInt64)
    (nonce' : ℕ) : ∃ token, sign jwt signer audience' now' nonce' = .ok token := by
  have hsome : (jwt.signature signer.key (signedMessage jwt signer audience now) nonce).isSome =
      true := by
    cases hsignature : jwt.signature signer.key (signedMessage jwt signer audience now) nonce with
    | some signature => rfl
    | none =>
      rw [sign, hsignature] at h
      cases h
  have hagain := hjwt.signs _ _ _ hsome (signedMessage jwt signer audience' now') nonce'
  obtain ⟨signature, hsignature⟩ := Option.isSome_iff_exists.mp hagain
  exact ⟨_, by rw [sign, hsignature]⟩

/-- A call answers with the cached value while it covers now, else with one it signs and keeps. -/
theorem authorization_at_cases (hjwt : Faithful jwt) (hsigner : handle.signer = some signer)
    (hsigns : ∀ now nonce, ∃ token, sign jwt signer handle.audience.text now nonce = .ok token)
    (cached : Option Cached) (now : UInt64) (nonce : ℕ) :
    (∃ token ∈ cached, token.covers now = true ∧
      authorizationAt jwt handle cached now nonce = (.ok token.header, cached)) ∨
    ∃ header, Issued jwt signer handle.audience.text now header ∧
      authorizationAt jwt handle cached now nonce = (.ok header, some ⟨now, header⟩) := by
  simp only [authorizationAt, hsigner]
  cases hcached : cached.filter (·.covers now) with
  | some token =>
    obtain ⟨hmem, hcovers⟩ := Option.filter_eq_some_iff.mp hcached
    exact .inl ⟨token, hmem, hcovers, rfl⟩
  | none =>
    obtain ⟨token, htoken⟩ := hsigns now nonce
    have hheader := header_value_token (sign_bytes hjwt htoken).2
    simp only [htoken, hheader]
    exact .inr ⟨_, ⟨nonce, token, htoken, rfl⟩, rfl⟩

theorem step_inv (hjwt : Faithful jwt) (hsigner : handle.signer = some signer)
    (hsigns : ∀ now nonce, ∃ token, sign jwt signer handle.audience.text now nonce = .ok token)
    (hinv : Inv jwt signer handle.audience.text s) {call : Call}
    (h : step jwt handle s call = some t) : Inv jwt signer handle.audience.text t := by
  simp only [step] at h
  rcases authorization_at_cases hjwt hsigner hsigns s.cached call.now call.nonce with
    ⟨token, hmem, hcovers, hcall⟩ | ⟨header, hissued, hcall⟩
  · rw [hcall] at h
    cases h
    refine ⟨hinv.cached, ?_⟩
    intro handout hhandout
    rcases List.mem_append.mp hhandout with hold | hnew
    · exact hinv.handouts handout hold
    · rw [List.mem_singleton.mp hnew]
      simp only [Cached.covers, Bool.and_eq_true, decide_eq_true_eq] at hcovers
      exact ⟨token.issuedAt, token.header, rfl, hinv.cached token hmem, hcovers.1, .inr hcovers.2⟩
  · rw [hcall] at h
    cases h
    refine ⟨?_, ?_⟩
    · intro cached hcached
      cases hcached
      exact hissued
    · intro handout hhandout
      rcases List.mem_append.mp hhandout with hold | hnew
      · exact hinv.handouts handout hold
      · rw [List.mem_singleton.mp hnew]
        exact ⟨call.now, header, rfl, hissued, UInt64.le_refl _, .inl rfl⟩

theorem reachable_inv (hjwt : Faithful jwt) (hsigner : handle.signer = some signer)
    (hsigns : ∀ now nonce, ∃ token, sign jwt signer handle.audience.text now nonce = .ok token)
    (h : (handouts jwt handle).Reachable s) : Inv jwt signer handle.audience.text s := by
  apply System.Reachable.induction (M := handouts jwt handle) _ _ h
  · constructor
    · intro cached hcached
      cases hcached
    · intro handout hhandout
      cases hhandout
  · intro u call w _ hinv hstep
    exact step_inv hjwt hsigner hsigns hinv hstep

theorem run_answers (jwt : Jwt π κ) (handle : ReceiverTokens π) (s : State) (calls : List Call) :
    ∃ t, (handouts jwt handle).run s calls = some t ∧
      t.handouts.map Handout.now = s.handouts.map Handout.now ++ calls.map (·.now) := by
  induction calls generalizing s with
  | nil => exact ⟨s, rfl, by simp⟩
  | cons call calls ih =>
    obtain ⟨t, hrun, hnow⟩ := ih ⟨(authorizationAt jwt handle s.cached call.now call.nonce).2,
      s.handouts ++ [⟨call.now, (authorizationAt jwt handle s.cached call.now call.nonce).1⟩]⟩
    exact ⟨t, hrun, by simpa using hnow⟩

theorem try_new_ok {options : SigningOptions} {nonce : ℕ} {source : TokenSource π}
    (h : tryNew jwt options nonce = .ok source) :
    ∃ key, jwt.fromEcPem options.privateKey = some key ∧ admissibleKeyId options.keyId = true ∧
      (sign jwt ⟨key, options.jwtType.text, options.keyId, options.name⟩ options.name.text 0
        nonce).isOk = true ∧
      source = .key ⟨key, options.jwtType.text, options.keyId, options.name⟩ := by
  simp only [tryNew, bind_ok, ensure_ok, ok_or_ok] at h
  obtain ⟨_, hkid, key, hkey, _, hsigns, hout⟩ := h
  cases hout
  exact ⟨key, hkey, hkid, hsigns, rfl⟩

theorem key_id_ne_empty {kid : String} (h : admissibleKeyId kid = true) : kid ≠ "" := by
  rintro rfl
  exact absurd h (by decide)

theorem parse_name_ok {text : String} {name : CallerName} (h : CallerName.parse text = some name) :
    name.text = text := by
  simp only [CallerName.parse] at h
  split at h
  · cases h
    rfl
  · cases h

theorem parse_name (name : CallerName) : CallerName.parse name.text = some name := by
  simp [CallerName.parse, name.valid]

def Parsed (trust : TrustRegistry κ) : Prop :=
  ∃ (ν : Type) (admitKey : ν → Except String (TrustedKey κ)) (document : Option (List (Member ν))),
    parseRegistry admitKey document = .ok trust

/-- The registry holds the key under the caller's name and the key id. -/
def Holds (trust : TrustRegistry κ) (name : CallerName) (kid : String) (key : κ) : Prop :=
  ∃ keys, trust.callers.lookup name = some keys ∧ ⟨kid, key⟩ ∈ keys

theorem Parsed.find {trust : TrustRegistry κ} (hparsed : Parsed trust) {name : CallerName}
    {kid : String} {key : κ} (h : Holds trust name kid key) :
    ∃ keys, trust.caller name.text = some (name, keys) ∧
      keys.find? (·.kid = kid) = some ⟨kid, key⟩ := by
  obtain ⟨ν, admitKey, document, hparsed⟩ := hparsed
  obtain ⟨keys, hkeys, hmem⟩ := h
  refine ⟨keys, ?_, find_kid (parse_registry_ok hparsed hkeys) hmem⟩
  simp [TrustRegistry.caller, parse_name, hkeys]

/-- The times of a token signed where its expiry does not overflow. -/
theorem signed_timely {audience : String} {issuedAt t : UInt64}
    (hfits : issuedAt.toNat + 60 < 2 ^ 64) (hlow : issuedAt.toNat ≤ t.toNat + 30)
    (hhigh : t.toNat ≤ issuedAt.toNat + 90) :
    Timely (readClaims (claimsFor signer audience issuedAt)) t
      (issuedAt + maxTokenLifetimeSeconds) := by
  have hlifetime : maxTokenLifetimeSeconds.toNat = 60 := rfl
  have hleeway : leewaySeconds.toNat = 30 := rfl
  have hexp : (issuedAt + maxTokenLifetimeSeconds).toNat = issuedAt.toNat + 60 := by
    rw [UInt64.toNat_add, hlifetime, Nat.mod_eq_of_lt hfits]
  constructor
  · exact ⟨issuedAt, rfl, rfl, by omega, by omega, by omega⟩
  · omega
  · intro notBefore h
    cases h

/-- Signer and receiver interoperate: whatever the calls and their times before, a call whose
expiry fits answers with a token of its reuse window that the receiver's parser reads and its
verifier accepts over the whole of both windows, hence on every clock within 30 seconds of the
sender's until 30 seconds after the call; and a verifier with another audience, another token type
or without the key under the signer's name and key id refuses it. -/
theorem tokens_interoperate (hjwt : Faithful jwt) {options : SigningOptions} {nonce : ℕ}
    {source : TokenSource π} (hsource : tryNew jwt options nonce = .ok source) {receiver : String}
    (hhandle : source.receiver receiver = .ok handle) (h : (handouts jwt handle).Reachable s)
    {handout : Handout} (hmem : handout ∈ s.handouts) (hfits : handout.now.toNat + 60 < 2 ^ 64) :
    ∃ (key : π) (issuedAt expiresAt : UInt64) (token : Bytes),
      jwt.fromEcPem options.privateKey = some key ∧
      handout.result = .ok (asBytes "Bearer " ++ token) ∧
      issuedAt.toNat ≤ handout.now.toNat ∧ handout.now.toNat < issuedAt.toNat + 30 ∧
      expiresAt.toNat = issuedAt.toNat + 60 ∧
      tokenClaims jwt.codec token = some (readClaims
        ⟨options.name.text, options.name.text, receiver, issuedAt, expiresAt⟩) ∧
      bearer [asBytes "Bearer " ++ token] = .ok token ∧
      (∀ v : Verifier κ, v.codec = jwt.codec → v.audience.text = receiver →
        v.jwtType = options.jwtType → Parsed v.trust →
        Holds v.trust options.name options.keyId (jwt.publicKey key) →
        (∀ t : UInt64, issuedAt.toNat ≤ t.toNat + 30 → t.toNat ≤ issuedAt.toNat + 90 →
          checked v token t = .ok (⟨options.name⟩, expiresAt)) ∧
        ∀ (sender : ℕ) (t : UInt64), handout.now.toNat ≤ sender → sender ≤ handout.now.toNat + 30 →
          sender ≤ t.toNat + 30 → t.toNat ≤ sender + 30 →
          checked v token t = .ok (⟨options.name⟩, expiresAt)) ∧
      ∀ v : Verifier κ, v.codec = jwt.codec →
        (v.audience.text ≠ receiver ∨
          ((∃ value, parseJwtType value = some v.jwtType) ∧ v.jwtType ≠ options.jwtType) ∨
          ¬ Holds v.trust options.name options.keyId (jwt.publicKey key)) →
        ∀ t, ∃ reason, checked v token t = .error reason := by
  obtain ⟨key, hkey, hkid, hsigned, rfl⟩ := try_new_ok hsource
  simp only [TokenSource.receiver, bind_ok, ok_or_ok] at hhandle
  obtain ⟨audience, haudience, hout⟩ := hhandle
  cases hout
  obtain rfl := parse_name_ok haudience
  have hinv := reachable_inv hjwt rfl (fun now nonce => sign_some hjwt hsigned _ now nonce) h
  obtain ⟨issuedAt, header, hresult, ⟨nonce', token, htoken, rfl⟩, hle, hwindow⟩ :=
    hinv.handouts handout hmem
  have hissued : issuedAt.toNat ≤ handout.now.toNat := UInt64.le_iff_toNat_le.mp hle
  have hreuse : handout.now.toNat < issuedAt.toNat + 30 := by
    rcases hwindow with rfl | hlt
    · omega
    · rw [UInt64.lt_iff_toNat_lt, UInt64.toNat_add, show reuseSeconds.toNat = 30 from rfl,
        Nat.mod_eq_of_lt (by omega)] at hlt
      exact hlt
  obtain ⟨hne, hbytes⟩ := sign_bytes hjwt htoken
  have hexp : (issuedAt + maxTokenLifetimeSeconds).toNat = issuedAt.toNat + 60 := by
    rw [UInt64.toNat_add, show maxTokenLifetimeSeconds.toNat = 60 from rfl,
      Nat.mod_eq_of_lt (by omega)]
  refine ⟨key, issuedAt, issuedAt + maxTokenLifetimeSeconds, token, hkey, hresult, hissued, hreuse,
    hexp, token_claims_sign hjwt htoken, bearer_token hne hbytes, ?_, ?_⟩
  · intro v hcodec hv htype hparsed hholds
    obtain ⟨keys, hcaller, hfind⟩ := hparsed.find hholds
    have hadmits : v.jwtType.admits options.jwtType.text = true := by
      rw [htype]
      exact (parsed_admits_iff options.typed options.typed).mpr rfl
    have hattested := (attested_sign hjwt htoken hcodec).mpr
      ⟨hadmits, key_id_ne_empty hkid, hv, rfl, keys, _, hcaller, hfind, rfl⟩
    have haccepts : ∀ t : UInt64, issuedAt.toNat ≤ t.toNat + 30 → t.toNat ≤ issuedAt.toNat + 90 →
        checked v token t = .ok (⟨options.name⟩, issuedAt + maxTokenLifetimeSeconds) := by
      intro t hlow hhigh
      exact checked_ok.mpr ⟨_, hattested, signed_timely (by omega) hlow hhigh⟩
    refine ⟨haccepts, ?_⟩
    intro sender t hfrom huntil hlow hhigh
    exact haccepts t (by omega) (by omega)
  · intro v hcodec hother t
    cases hchecked : checked v token t with
    | error reason => exact ⟨reason, rfl⟩
    | ok entry =>
      exfalso
      obtain ⟨claims, hattested, -⟩ := checked_ok.mp hchecked
      obtain ⟨hadmits, -, hv, -, keys, found, hcaller, hfind, hpublic⟩ :=
        (attested_sign hjwt htoken hcodec).mp hattested
      rcases hother with hne | ⟨htyped, hne⟩ | hlacks
      · exact hne hv
      · exact hne ((parsed_admits_iff htyped options.typed).mp hadmits)
      · apply hlacks
        obtain ⟨hname, hkeys⟩ := trust_caller_ok hcaller
        have hself : entry.1.name = options.name := by
          have hparse := parse_name entry.1.name
          rw [hname, parse_name] at hparse
          exact (Option.some.inj hparse).symm
        have hfound : found = ⟨options.keyId, jwt.publicKey key⟩ := by
          have hkid : found.kid = options.keyId := by simpa using List.find?_some hfind
          cases found
          subst hkid hpublic
          rfl
        exact ⟨keys, hself ▸ hkeys, hfound ▸ List.mem_of_find?_eq_some hfind⟩

end Runs

/-- The encodings of the real library, for keys that are bytes and sign with themselves. -/
def sampleHeaderJson (typ kid : String) : List Char :=
  "\x7b\"typ\":".toList ++ (JsonText.quote typ.toList ++
    (",\"alg\":\"ES256\",\"kid\":".toList ++ (JsonText.quote kid.toList ++ ['\x7d'])))

def sampleClaimsJson (claims : SignedClaims) : List Char :=
  "\x7b\"iss\":".toList ++ (JsonText.quote claims.iss.toList ++
    (",\"sub\":".toList ++ (JsonText.quote claims.sub.toList ++
    (",\"aud\":".toList ++ (JsonText.quote claims.aud.toList ++
    (",\"iat\":".toList ++ (Nat.toDigits 10 claims.iat.toNat ++ ',' ::
    ("\"exp\":".toList ++ (Nat.toDigits 10 claims.exp.toNat ++ ['\x7d'])))))))))

theorem sample_header_json_injective {typ kid typ' kid' : String}
    (h : sampleHeaderJson typ kid = sampleHeaderJson typ' kid') : typ = typ' ∧ kid = kid' := by
  unfold sampleHeaderJson at h
  obtain ⟨htyp, h⟩ := JsonText.quote_apart (List.append_cancel_left h)
  obtain ⟨hkid, -⟩ := JsonText.quote_apart (List.append_cancel_left h)
  exact ⟨String.toList_inj.mp htyp, String.toList_inj.mp hkid⟩

theorem sample_claims_json_injective {a b : SignedClaims}
    (h : sampleClaimsJson a = sampleClaimsJson b) : a = b := by
  unfold sampleClaimsJson at h
  obtain ⟨hiss, h⟩ := JsonText.quote_apart (List.append_cancel_left h)
  obtain ⟨hsub, h⟩ := JsonText.quote_apart (List.append_cancel_left h)
  obtain ⟨haud, h⟩ := JsonText.quote_apart (List.append_cancel_left h)
  obtain ⟨hiat, h⟩ := JsonText.decimal_apart (by decide) (List.append_cancel_left h)
  obtain ⟨hexp, -⟩ := JsonText.decimal_apart (by decide) (List.append_cancel_left h)
  cases a
  cases b
  simp only [SignedClaims.mk.injEq]
  exact ⟨String.toList_inj.mp hiss, String.toList_inj.mp hsub, String.toList_inj.mp haud,
    UInt64.toNat_inj.mp hiat, UInt64.toNat_inj.mp hexp⟩

theorem chars_injective {a b : List Char} (h : String.ofList a = String.ofList b) : a = b := by
  simpa using congrArg String.toList h

/-- Reading is the inverse of writing, and nothing where nothing was written. -/
noncomputable def sampleJwt : Jwt UInt8 UInt8 where
  codec := {
    decode := fun text => Base64.decodeUrl (text.map fun byte => Char.ofNat byte.toNat)
    parseHeader := fun bytes =>
      (Function.partialInv (fun fields : String × String =>
        asBytes (String.ofList (sampleHeaderJson fields.1 fields.2))) bytes).map fun fields =>
          ⟨true, some fields.1, some fields.2, false⟩
    parseClaims := fun text =>
      (Function.partialInv (fun claims => String.ofList (sampleClaimsJson claims)) text).map readClaims
    verifySig := fun key _ signature => signature = List.replicate 64 key }
  encode bytes := (Base64.encodeUrl bytes).map fun c => UInt8.ofNat c.toNat
  headerJson typ kid := asBytes (String.ofList (sampleHeaderJson typ kid))
  claimsJson claims := String.ofList (sampleClaimsJson claims)
  fromEcPem pem := (asBytes pem).head?
  signature key _ _ := some (List.replicate 64 key)
  publicKey := id

theorem sample_faithful : Faithful sampleJwt where
  decode := by
    intro bytes
    have hchars : ((Base64.encodeUrl bytes).map fun c => UInt8.ofNat c.toNat).map
        (fun byte => Char.ofNat byte.toNat) = Base64.encodeUrl bytes := by
      have hback : ∀ c ∈ Base64.alphabet.map Base64.urlChar,
          Char.ofNat (UInt8.ofNat c.toNat).toNat = c := by decide
      rw [List.map_map]
      conv_rhs => rw [← List.map_id (Base64.encodeUrl bytes)]
      apply List.map_congr_left
      intro c hc
      exact hback c (Base64.encode_url_mem hc)
    simp only [sampleJwt, hchars, Base64.decode_encode_url]
  alphabet := by
    intro bytes byte hbyte
    have hurl : ∀ c ∈ Base64.alphabet.map Base64.urlChar, urlByte (UInt8.ofNat c.toNat) = true := by
      decide
    obtain ⟨c, hc, rfl⟩ := List.mem_map.mp hbyte
    exact hurl c (Base64.encode_url_mem hc)
  header := by
    intro typ kid
    have hinjective : Function.Injective fun fields : String × String =>
        asBytes (String.ofList (sampleHeaderJson fields.1 fields.2)) := by
      intro a b h
      have htext := chars_injective (as_bytes_injective h)
      obtain ⟨htyp, hkid⟩ := sample_header_json_injective htext
      exact Prod.ext htyp hkid
    have hread := Function.partialInv_left hinjective (typ, kid)
    simp only [sampleJwt, hread, Option.map_some]
  claims := by
    intro claims
    have hinjective : Function.Injective fun claims => String.ofList (sampleClaimsJson claims) := by
      intro a b h
      have htext := chars_injective h
      exact sample_claims_json_injective htext
    simp only [sampleJwt, Function.partialInv_left hinjective, Option.map_some]
  signs := by
    intros
    rfl
  length := by
    intro key message nonce signature h
    cases h
    simp
  verify := by
    intro key message nonce signature h other
    cases h
    simp only [sampleJwt, id_eq, decide_eq_true_eq]
    constructor
    · intro heq
      exact (List.replicate_right_inj (by decide)).mp heq |>.symm
    · rintro rfl
      rfl

theorem orders_name : isCallerName "orders" = true := by decide

def orders : CallerName := ⟨"orders", orders_name⟩
def catalog : CallerName := ⟨"catalog", by decide⟩

theorem svc_jwt_parses : parseJwtType "svc+jwt" = some ⟨"svc+jwt"⟩ := by decide

def ordersOptions : SigningOptions := ⟨orders, ⟨"svc+jwt"⟩, ⟨_, svc_jwt_parses⟩, "k", "A"⟩
def ordersSigner : Signer UInt8 := ⟨65, "svc+jwt", "k", orders⟩
def ordersHandle : ReceiverTokens UInt8 := ⟨some ordersSigner, catalog⟩
def ordersTrust : TrustRegistry UInt8 := ⟨(∅ : AList _).insert orders [⟨"k", 65⟩]⟩

noncomputable def catalogVerifier : Verifier UInt8 :=
  ⟨sampleJwt.codec, catalog, ⟨"svc+jwt"⟩, ordersTrust⟩

theorem orders_source : tryNew sampleJwt ordersOptions 0 = .ok (.key ordersSigner) := by
  have hkid : admissibleKeyId ordersOptions.keyId = true := by decide
  have hkey : sampleJwt.fromEcPem ordersOptions.privateKey = some 65 := by decide
  simp only [tryNew, hkid, hkey]
  rfl

theorem orders_receiver : (TokenSource.key ordersSigner).receiver "catalog" = .ok ordersHandle := by
  have hparse : CallerName.parse "catalog" = some catalog := by decide
  simp only [TokenSource.receiver, hparse]
  rfl

theorem orders_trust_parsed : Parsed ordersTrust :=
  ⟨UInt8, fun key => .ok ⟨"k", key⟩, some [("orders", some [65])], rfl⟩

theorem orders_trust_holds : Holds ordersTrust orders "k" 65 :=
  ⟨_, AList.lookup_insert _, by simp⟩

/-- The cached token answers in its last second and is accepted 60 seconds later. -/
theorem orders_token_accepted :
    ∃ s, (handouts sampleJwt ordersHandle).run ⟨none, []⟩ [⟨1000, 0⟩, ⟨1029, 1⟩, ⟨990, 2⟩] = some s ∧
      ∃ handout ∈ s.handouts, handout.now = 1029 ∧ ∃ token,
        handout.result = .ok (asBytes "Bearer " ++ token) ∧
        bearer [asBytes "Bearer " ++ token] = .ok token ∧
        ∃ expiresAt, checked catalogVerifier token 1089 = .ok (⟨orders⟩, expiresAt) := by
  obtain ⟨s, hs, hnow⟩ := run_answers sampleJwt ordersHandle ⟨none, []⟩
    [⟨1000, 0⟩, ⟨1029, 1⟩, ⟨990, 2⟩]
  obtain ⟨handout, hmem, hhandout⟩ : ∃ handout ∈ s.handouts, handout.now = 1029 := by
    rw [← List.mem_map, hnow]
    decide
  have hfits : handout.now.toNat + 60 < 2 ^ 64 := by
    rw [hhandout]
    decide
  obtain ⟨key, issuedAt, expiresAt, token, hkey, hresult, hlow, hhigh, -, -, hbearer, haccepts, -⟩ :=
    tokens_interoperate sample_faithful orders_source orders_receiver ⟨_, hs⟩ hmem hfits
  have hsame : key = 65 := by
    have hpem : sampleJwt.fromEcPem ordersOptions.privateKey = some 65 := by decide
    rw [hpem] at hkey
    exact (Option.some.inj hkey).symm
  subst hsame
  refine ⟨s, hs, handout, hmem, hhandout, token, hresult, hbearer, expiresAt, ?_⟩
  refine (haccepts catalogVerifier rfl rfl rfl orders_trust_parsed orders_trust_holds).2 1059 1089
    ?_ ?_ ?_ ?_
  · rw [hhandout]
    decide
  · rw [hhandout]
    decide
  · decide
  · decide

/-- In the last second a clock of 64 bits can name, the expiry wraps and the receiver refuses. -/
theorem last_second_token_refused :
    tryNew sampleJwt ordersOptions 0 = .ok (.key ordersSigner) ∧
    (TokenSource.key ordersSigner).receiver "catalog" = .ok ordersHandle ∧
    Parsed catalogVerifier.trust ∧ Holds catalogVerifier.trust orders "k" 65 ∧
    ∃ s, (handouts sampleJwt ordersHandle).run ⟨none, []⟩ [⟨18446744073709551615, 0⟩] = some s ∧
      ∃ handout ∈ s.handouts, handout.now = 18446744073709551615 ∧ ∃ token,
        handout.result = .ok (asBytes "Bearer " ++ token) ∧
        tokenClaims sampleJwt.codec token =
          some (readClaims ⟨"orders", "orders", "catalog", 18446744073709551615, 59⟩) ∧
        checked catalogVerifier token 18446744073709551615 = .error .lifetime := by
  obtain ⟨token, htoken⟩ : ∃ token,
      sign sampleJwt ordersSigner "catalog" 18446744073709551615 0 = .ok token := ⟨_, rfl⟩
  have hheader := header_value_token (sign_bytes sample_faithful htoken).2
  have hattested := (attested_sign sample_faithful htoken (v := catalogVerifier) rfl).mpr
    ⟨by decide, by decide, rfl, rfl, _, _,
      (Parsed.find orders_trust_parsed orders_trust_holds).choose_spec.1,
      (Parsed.find orders_trust_parsed orders_trust_holds).choose_spec.2, rfl⟩
  have htimes : checkTimes (readClaims (claimsFor ordersSigner "catalog" 18446744073709551615))
      18446744073709551615 = .error .lifetime := by
    rfl
  refine ⟨orders_source, orders_receiver, orders_trust_parsed, orders_trust_holds,
    ⟨some ⟨18446744073709551615, asBytes "Bearer " ++ token⟩,
    [⟨18446744073709551615, .ok (asBytes "Bearer " ++ token)⟩]⟩, ?_, _, List.mem_singleton_self _,
    rfl, token, rfl, token_claims_sign sample_faithful htoken, ?_⟩
  · have hcall : authorizationAt sampleJwt ordersHandle none 18446744073709551615 0 =
        (.ok (asBytes "Bearer " ++ token), some ⟨18446744073709551615, asBytes "Bearer " ++ token⟩) := by
      have hsign : sign sampleJwt ordersSigner catalog.text 18446744073709551615 0 = .ok token := htoken
      simp only [authorizationAt, ordersHandle, Option.filter_none, hsign, hheader]
    simp only [System.run_cons, System.run_nil, handouts, step, hcall, Option.bind_some,
      List.nil_append]
  · rw [checked, hattested]
    simp only [bind, Except.bind, htimes]

end ServiceTokenInterop
