import ServiceTemplate.JwkAdmission
import ServiceTemplate.ServiceTokens

/-! The signature stage of a JWT: the header is admitted before any key is looked at, and the
installed keys decide over the bytes that were signed. -/
namespace JwtSignature

open ByteFraming
open ExceptChain
open JwkAdmission
open ServiceTokens (splitLastDot toAsciiLower)

inductive TokenProfile where
  | resourceServer
  | rfc9068
  deriving DecidableEq, Repr

structure Header where
  alg : Algorithm
  typ : Option String
  kid : Option String
  crit : Option (List String)
  deriving DecidableEq, Repr

inductive VerificationReason where
  | header
  | algorithm
  | profile
  | signature
  | unknownKey
  deriving DecidableEq, Repr

/-- `parseHeader` is the JSON decoder of a header. -/
structure JwtVerifier where
  parseHeader : Bytes → Option Header
  tokenProfile : TokenProfile
  algorithms : List JwtAlgorithm

inductive SignatureVerificationError where
  | noCandidate
  | badSignature
  deriving DecidableEq, Repr

def SignatureVerificationError.mayNeedNewKeys (error : SignatureVerificationError)
    (kid : Option String) : Bool :=
  match error with
  | .noCandidate => true
  | .badSignature => kid.isNone

def SignatureVerificationError.reason : SignatureVerificationError → VerificationReason
  | .noCandidate => .unknownKey
  | .badSignature => .signature

def eqIgnoreAsciiCase (value name : String) : Bool :=
  decide (toAsciiLower value.toList = toAsciiLower name.toList)

def isAccessTokenType (value : String) : Bool :=
  eqIgnoreAsciiCase value "at+jwt" || eqIgnoreAsciiCase value "application/at+jwt"

def isGenericJwtType (value : String) : Bool :=
  eqIgnoreAsciiCase value "JWT" || eqIgnoreAsciiCase value "application/jwt"

def admittedType (profile : TokenProfile) (typ : Option String) : Bool :=
  match profile, typ with
  | .rfc9068, none => false
  | .rfc9068, some typ => isAccessTokenType typ
  | .resourceServer, none => true
  | .resourceServer, some typ => isGenericJwtType typ || isAccessTokenType typ

def maxSignatureBytes : ℕ := 1024

/-- What the keys are asked about, and the payload that waits for their answer. -/
structure Presented where
  message : Bytes
  signature : Bytes
  kid : Option String
  algorithm : JwtAlgorithm
  payload : Bytes
  deriving DecidableEq, Repr

/-- Everything before the first look at the keys. -/
def present (v : JwtVerifier) (token : Bytes) : Except VerificationReason Presented := do
  let (message, signature) ← okOr (splitLastDot token) .header
  let (header, payload) ← okOr (splitLastDot message) .header
  let header ← okOr ((urlSafeDecode header).bind v.parseHeader) .header
  ensure ((header.crit.getD []).isEmpty) .header
  let algorithm ← okOr ((JwtAlgorithm.fromJsonwebtoken header.alg).filter
    fun algorithm => decide (algorithm ∈ v.algorithms)) .algorithm
  ensure (admittedType v.tokenProfile header.typ) .profile
  let signature ← okOr ((urlSafeDecode signature).filter
    fun signature => decide (signature.length ≤ maxSignatureBytes)) .signature
  return ⟨message, signature, header.kid, algorithm, payload⟩

/-- The verdict of one set: an unknown key or a kid-less token asks for newer keys. -/
inductive Verdict where
  | accepted
  | refused (reason : VerificationReason)
  | asks (reason : VerificationReason)
  deriving DecidableEq, Repr

section

variable {K V : Type} (lib : AwsLc K)

def candidates (keys : KeySet K) (kid : Option String) (algorithm : JwtAlgorithm) : List K :=
  (keys.filter fun key => match kid with
    | none => true
    | some kid => decide (key.kid = some kid)).filterMap fun key => key.verifier algorithm

def tryKeys (message signature : Bytes) (miss : SignatureVerificationError) :
    List K → Except SignatureVerificationError Unit
  | [] => .error miss
  | key :: rest =>
    if lib.verifySig key message signature then .ok ()
    else tryKeys message signature .badSignature rest

def verifyWith (keys : KeySet K) (presented : Presented) : Except SignatureVerificationError Unit :=
  tryKeys lib presented.message presented.signature .noCandidate
    (candidates keys presented.kid presented.algorithm)

def judge (keys : KeySet K) (presented : Presented) : Verdict :=
  match verifyWith lib keys presented with
  | .ok () => .accepted
  | .error miss =>
    if miss.mayNeedNewKeys presented.kid then .asks miss.reason else .refused miss.reason

def signatureStage (v : JwtVerifier) (keys : KeySet K) (token : Bytes) : Verdict :=
  match present v token with
  | .error reason => .refused reason
  | .ok presented => judge lib keys presented

end

theorem split_last_dot_iff {bytes front back : Bytes} :
    splitLastDot bytes = some (front, back) ↔ bytes = front ++ 46 :: back ∧ 46 ∉ back := by
  unfold splitLastDot
  rw [Option.map_eq_some_iff]
  constructor
  · rintro ⟨⟨left, right⟩, hsplit, hparts⟩
    obtain ⟨hbytes, hfree⟩ := Splitting.split_once_iff.mp hsplit
    cases hparts
    refine ⟨?_, by simpa using hfree⟩
    rw [← List.reverse_reverse bytes, hbytes]
    simp
  · rintro ⟨rfl, hfree⟩
    refine ⟨(back.reverse, front.reverse), ?_, by simp⟩
    exact Splitting.split_once_iff.mpr ⟨by simp, by simpa using hfree⟩

theorem decoded_free {text bytes : Bytes} (h : urlSafeDecode text = some bytes) : 46 ∉ text := by
  intro hdot
  unfold urlSafeDecode at h
  dsimp only at h
  split at h
  · next hall =>
    have hchar := List.all_eq_true.mp hall '.' (List.mem_map.mpr ⟨46, hdot, rfl⟩)
    revert hchar
    decide
  · cases h

/-- The token is `h.p.s` with an admitted header, and this is what its keys are asked about. -/
structure Formed (v : JwtVerifier) (token : Bytes) (presented : Presented) : Prop where
  parts : ∃ h s, token = h ++ 46 :: (presented.payload ++ 46 :: s) ∧
    presented.message = h ++ 46 :: presented.payload ∧
    46 ∉ h ∧ 46 ∉ presented.payload ∧ 46 ∉ s ∧ urlSafeDecode s = some presented.signature ∧
    ∃ bytes header, urlSafeDecode h = some bytes ∧ v.parseHeader bytes = some header ∧
      (∀ crit, header.crit = some crit → crit = []) ∧
      header.alg = presented.algorithm.name ∧ admittedType v.tokenProfile header.typ = true ∧
      header.kid = presented.kid
  configured : presented.algorithm ∈ v.algorithms

theorem from_jsonwebtoken_iff {named : Algorithm} {algorithm : JwtAlgorithm} :
    JwtAlgorithm.fromJsonwebtoken named = some algorithm ↔ named = algorithm.name := by
  constructor
  · intro h
    cases named <;> cases h <;> rfl
  · rintro rfl
    cases algorithm <;> rfl

theorem crit_empty_iff (crit : Option (List String)) :
    (crit.getD []).isEmpty = true ↔ ∀ names, crit = some names → names = [] := by
  cases crit <;> simp

theorem present_iff {v : JwtVerifier} {token : Bytes} {presented : Presented} :
    present v token = .ok presented ↔
      Formed v token presented ∧ presented.signature.length ≤ maxSignatureBytes := by
  unfold present
  constructor
  · intro h
    obtain ⟨⟨message, signature⟩, hlast, h⟩ := bind_ok.mp h
    obtain ⟨⟨header, payload⟩, hfirst, h⟩ := bind_ok.mp h
    obtain ⟨parsed, hparsed, h⟩ := bind_ok.mp h
    obtain ⟨_, hcrit, h⟩ := bind_ok.mp h
    obtain ⟨algorithm, halgorithm, h⟩ := bind_ok.mp h
    obtain ⟨_, htype, h⟩ := bind_ok.mp h
    obtain ⟨decoded, hsignature, h⟩ := bind_ok.mp h
    cases h
    obtain ⟨rfl, hs⟩ := split_last_dot_iff.mp (ok_or_ok.mp hlast)
    obtain ⟨rfl, hpayload⟩ := split_last_dot_iff.mp (ok_or_ok.mp hfirst)
    obtain ⟨bytes, hdecode, hparse⟩ := Option.bind_eq_some_iff.mp (ok_or_ok.mp hparsed)
    obtain ⟨hnamed, hconfigured⟩ := Option.filter_eq_some_iff.mp (ok_or_ok.mp halgorithm)
    obtain ⟨hbytes, hlength⟩ := Option.filter_eq_some_iff.mp (ok_or_ok.mp hsignature)
    refine ⟨⟨⟨header, signature, by simp, rfl, decoded_free hdecode, hpayload, hs, hbytes,
      bytes, parsed, hdecode, hparse, (crit_empty_iff _).mp (ensure_ok.mp hcrit),
      from_jsonwebtoken_iff.mp hnamed, ensure_ok.mp htype, rfl⟩, of_decide_eq_true hconfigured⟩,
      of_decide_eq_true hlength⟩
  · rintro ⟨⟨⟨h, s, rfl, hmessage, -, hpayload, hs, hsignature, bytes, header, hdecode, hparse,
      hcrit, hnamed, htype, hkid⟩, hconfigured⟩, hlength⟩
    refine bind_ok.mpr ⟨(h ++ 46 :: presented.payload, s), ?_, ?_⟩
    · exact ok_or_ok.mpr (split_last_dot_iff.mpr ⟨by simp, hs⟩)
    refine bind_ok.mpr ⟨(h, presented.payload), ?_, ?_⟩
    · exact ok_or_ok.mpr (split_last_dot_iff.mpr ⟨rfl, hpayload⟩)
    refine bind_ok.mpr ⟨header, ok_or_ok.mpr ?_, ?_⟩
    · exact Option.bind_eq_some_iff.mpr ⟨bytes, hdecode, hparse⟩
    refine bind_ok.mpr ⟨(), ensure_ok.mpr ((crit_empty_iff _).mpr hcrit), ?_⟩
    refine bind_ok.mpr ⟨presented.algorithm, ok_or_ok.mpr (Option.filter_eq_some_iff.mpr
      ⟨from_jsonwebtoken_iff.mpr hnamed, decide_eq_true hconfigured⟩), ?_⟩
    refine bind_ok.mpr ⟨(), ensure_ok.mpr htype, ?_⟩
    refine bind_ok.mpr ⟨presented.signature, ok_or_ok.mpr (Option.filter_eq_some_iff.mpr
      ⟨hsignature, decide_eq_true hlength⟩), ?_⟩
    rw [← hmessage, hkid]
    rfl

section

variable {K V : Type} {lib : AwsLc K} {decoder : Decoder V} {v : JwtVerifier}

theorem try_keys_ok {message signature : Bytes} {miss : SignatureVerificationError}
    {keys : List K} : tryKeys lib message signature miss keys = .ok () ↔
      ∃ key ∈ keys, lib.verifySig key message signature = true := by
  induction keys generalizing miss with
  | nil => simp [tryKeys]
  | cons key rest ih =>
    rw [tryKeys]
    by_cases hverify : lib.verifySig key message signature = true
    · simp [hverify]
    · rw [if_neg hverify, ih]
      simp [hverify]

theorem try_keys_error {message signature : Bytes} {miss error : SignatureVerificationError}
    {keys : List K} (h : tryKeys lib message signature miss keys = .error error) :
    keys = [] ∧ error = miss ∨ keys ≠ [] ∧ error = .badSignature := by
  induction keys generalizing miss with
  | nil =>
    cases h
    exact .inl ⟨rfl, rfl⟩
  | cons key rest ih =>
    rw [tryKeys] at h
    split at h
    · cases h
    · refine .inr ⟨List.cons_ne_nil _ _, ?_⟩
      rcases ih h with ⟨-, herror⟩ | ⟨-, herror⟩ <;> exact herror

/-- A key that an entry of the document serves the algorithm with, under the wanted name. -/
def Candidate (lib : AwsLc K) (decoder : Decoder V) (values : List V) (kid : Option String)
    (algorithm : JwtAlgorithm) (key : K) : Prop :=
  ∃ value ∈ values, ∃ jwk, decoder.jwk value = some jwk ∧
    (∀ name, kid = some name → jwk.keyId = some name) ∧ Serves lib jwk algorithm key

theorem mem_candidates {keys : KeySet K} {kid : Option String} {algorithm : JwtAlgorithm}
    {key : K} : key ∈ candidates keys kid algorithm ↔ ∃ admitted ∈ keys,
      (∀ name, kid = some name → admitted.kid = some name) ∧
        admitted.verifier algorithm = some key := by
  unfold candidates
  rw [List.mem_filterMap]
  refine exists_congr fun admitted => ?_
  rw [List.mem_filter, and_assoc]
  refine and_congr_right fun _ => and_congr_left fun _ => ?_
  cases kid <;> simp

theorem candidate_iff (hlib : lib.Documented) {document : Bytes} {keys : KeySet K}
    (hkeys : parseKeySet lib decoder document v.algorithms = .ok keys) {values : List V}
    (hvalues : decoder.keys document = some values) {kid : Option String}
    {algorithm : JwtAlgorithm} (hconfigured : algorithm ∈ v.algorithms) (key : K) :
    key ∈ candidates keys kid algorithm ↔ Candidate lib decoder values kid algorithm key := by
  obtain ⟨_, hsame, hmembers⟩ := mem_key_set hkeys
  obtain rfl := Option.some.inj (hsame.symm.trans hvalues)
  rw [mem_candidates]
  constructor
  · rintro ⟨admitted, hmem, hkid, hverifier⟩
    obtain ⟨value, hvalue, jwk, hjwk, hadmit⟩ := (hmembers admitted).mp hmem
    refine ⟨value, hvalue, jwk, hjwk, fun name hname => ?_, ?_⟩
    · rw [← (admit_key_ok hadmit).1]
      exact hkid name hname
    · exact (admit_key_iff hlib hconfigured).mp ⟨admitted, hadmit, hverifier⟩
  · rintro ⟨value, hvalue, jwk, hjwk, hkid, hserves⟩
    obtain ⟨admitted, hadmit, hverifier⟩ := (admit_key_iff hlib hconfigured).mpr hserves
    refine ⟨admitted, (hmembers admitted).mpr ⟨value, hvalue, jwk, hjwk, hadmit⟩, ?_, hverifier⟩
    intro name hname
    rw [(admit_key_ok hadmit).1]
    exact hkid name hname

def Verified (lib : AwsLc K) (decoder : Decoder V) (values : List V) (presented : Presented) :
    Prop :=
  ∃ key, Candidate lib decoder values presented.kid presented.algorithm key ∧
    lib.verifySig key presented.message presented.signature = true

theorem verify_with_ok (hlib : lib.Documented) {document : Bytes} {keys : KeySet K}
    (hkeys : parseKeySet lib decoder document v.algorithms = .ok keys) {values : List V}
    (hvalues : decoder.keys document = some values) {presented : Presented}
    (hconfigured : presented.algorithm ∈ v.algorithms) :
    verifyWith lib keys presented = .ok () ↔ Verified lib decoder values presented := by
  unfold verifyWith Verified
  rw [try_keys_ok]
  exact exists_congr fun key =>
    and_congr_left fun _ => candidate_iff hlib hkeys hvalues hconfigured key

theorem candidates_empty (hlib : lib.Documented) {document : Bytes} {keys : KeySet K}
    (hkeys : parseKeySet lib decoder document v.algorithms = .ok keys) {values : List V}
    (hvalues : decoder.keys document = some values) {kid : Option String}
    {algorithm : JwtAlgorithm} (hconfigured : algorithm ∈ v.algorithms) :
    candidates keys kid algorithm = [] ↔
      ¬ ∃ key, Candidate lib decoder values kid algorithm key := by
  rw [List.eq_nil_iff_forall_not_mem, not_exists]
  exact forall_congr' fun key => not_congr (candidate_iff hlib hkeys hvalues hconfigured key)

theorem judge_accepted (hlib : lib.Documented) {document : Bytes} {keys : KeySet K}
    (hkeys : parseKeySet lib decoder document v.algorithms = .ok keys) {values : List V}
    (hvalues : decoder.keys document = some values) {presented : Presented}
    (hconfigured : presented.algorithm ∈ v.algorithms) :
    judge lib keys presented = .accepted ↔ Verified lib decoder values presented := by
  rw [← verify_with_ok hlib hkeys hvalues hconfigured]
  unfold judge
  cases hverify : verifyWith lib keys presented with
  | ok done => simp
  | error miss => by_cases hneed : miss.mayNeedNewKeys presented.kid = true <;> simp [hneed]

theorem judge_asks (hlib : lib.Documented) {document : Bytes} {keys : KeySet K}
    (hkeys : parseKeySet lib decoder document v.algorithms = .ok keys) {values : List V}
    (hvalues : decoder.keys document = some values) {presented : Presented}
    (hconfigured : presented.algorithm ∈ v.algorithms) :
    (∃ reason, judge lib keys presented = .asks reason) ↔
      ¬ Verified lib decoder values presented ∧ (presented.kid = none ∨
        ¬ ∃ key, Candidate lib decoder values presented.kid presented.algorithm key) := by
  rw [← judge_accepted hlib hkeys hvalues hconfigured]
  rw [← candidates_empty hlib hkeys hvalues hconfigured]
  unfold judge
  cases hverify : verifyWith lib keys presented with
  | ok done => simp
  | error miss =>
    rcases try_keys_error hverify with ⟨hempty, rfl⟩ | ⟨hsome, rfl⟩
    · simp [hempty, SignatureVerificationError.mayNeedNewKeys]
    · cases hkid : presented.kid with
      | none => simp [SignatureVerificationError.mayNeedNewKeys]
      | some kid =>
        rw [hkid] at hsome
        simp [hsome, SignatureVerificationError.mayNeedNewKeys]

/-- Sets with the same candidates and the same verdict on them refuse alike. -/
theorem judge_congr {keys other : KeySet K} {presented : Presented}
    (hempty : candidates keys presented.kid presented.algorithm = [] ↔
      candidates other presented.kid presented.algorithm = [])
    (hok : verifyWith lib keys presented = .ok () ↔ verifyWith lib other presented = .ok ()) :
    judge lib keys presented = judge lib other presented := by
  have hsame : verifyWith lib keys presented = verifyWith lib other presented := by
    cases hfirst : verifyWith lib keys presented with
    | ok done => exact (hok.mp hfirst).symm
    | error miss =>
      cases hsecond : verifyWith lib other presented with
      | ok done =>
        rw [hok.mpr hsecond] at hfirst
        cases hfirst
      | error second =>
        rcases try_keys_error hfirst with ⟨hnone, rfl⟩ | ⟨hsome, rfl⟩
        · rcases try_keys_error hsecond with ⟨-, rfl⟩ | ⟨hsome, -⟩
          · rfl
          · exact absurd (hempty.mp hnone) hsome
        · rcases try_keys_error hsecond with ⟨hnone, -⟩ | ⟨-, rfl⟩
          · exact absurd (hempty.mpr hnone) hsome
          · rfl
  rw [judge, judge, hsame]

def Usable (lib : AwsLc K) (v : JwtVerifier) (jwk : Jwk) : Prop :=
  ∃ algorithm ∈ v.algorithms, ∃ key, Serves lib jwk algorithm key

def Lists (decoder : Decoder V) (values : List V) (jwk : Jwk) : Prop :=
  ∃ value ∈ values, decoder.jwk value = some jwk

theorem Candidate.mono {values more : List V} {kid : Option String} {algorithm : JwtAlgorithm}
    {key : K} (h : Candidate lib decoder values kid algorithm key)
    (hconfigured : algorithm ∈ v.algorithms)
    (hmore : ∀ jwk, Usable lib v jwk → Lists decoder values jwk → Lists decoder more jwk) :
    Candidate lib decoder more kid algorithm key := by
  obtain ⟨value, hvalue, jwk, hjwk, hkid, hserves⟩ := h
  obtain ⟨other, hother, hsame⟩ :=
    hmore jwk ⟨algorithm, hconfigured, key, hserves⟩ ⟨value, hvalue, hjwk⟩
  exact ⟨other, hother, jwk, hsame, hkid, hserves⟩

/-- The verdict on a token against the set installed from a document. -/
structure ExactVerdict (lib : AwsLc K) (decoder : Decoder V) (v : JwtVerifier) (keys : KeySet K)
    (values : List V) (token : Bytes) : Prop where
  accepts : signatureStage lib v keys token = .accepted ↔
    ∃ presented, Formed v token presented ∧ Verified lib decoder values presented
  asks : (∃ reason, signatureStage lib v keys token = .asks reason) ↔
    ∃ presented, Formed v token presented ∧ presented.signature.length ≤ maxSignatureBytes ∧
      ¬ Verified lib decoder values presented ∧ (presented.kid = none ∨
        ¬ ∃ key, Candidate lib decoder values presented.kid presented.algorithm key)
  same : ∀ document others keys', decoder.keys document = some others →
    parseKeySet lib decoder document v.algorithms = .ok keys' →
    (∀ jwk, Usable lib v jwk → (Lists decoder values jwk ↔ Lists decoder others jwk)) →
    signatureStage lib v keys' token = signatureStage lib v keys token
  grows : ∀ document others, decoder.keys document = some others →
    (∀ value ∈ values, value ∈ others) → signatureStage lib v keys token = .accepted →
    ∃ keys', parseKeySet lib decoder document v.algorithms = .ok keys' ∧
      signatureStage lib v keys' token = .accepted

theorem stage_accepted (hlib : lib.Documented) {document : Bytes} {keys : KeySet K}
    (hkeys : parseKeySet lib decoder document v.algorithms = .ok keys) {values : List V}
    (hvalues : decoder.keys document = some values) (token : Bytes) :
    signatureStage lib v keys token = .accepted ↔
      ∃ presented, Formed v token presented ∧ Verified lib decoder values presented := by
  unfold signatureStage
  constructor
  · intro h
    cases hpresent : present v token with
    | error reason =>
      rw [hpresent] at h
      cases h
    | ok presented =>
      rw [hpresent] at h
      obtain ⟨hformed, -⟩ := present_iff.mp hpresent
      exact ⟨presented, hformed, (judge_accepted hlib hkeys hvalues hformed.configured).mp h⟩
  · rintro ⟨presented, hformed, hverified⟩
    -- A signature that verifies is short enough to have been decoded.
    obtain ⟨key, ⟨value, hvalue, jwk, hjwk, hkid, hserves⟩, hverify⟩ := hverified
    have hlength := hserves.signature_length hlib hverify
    rw [present_iff.mpr ⟨hformed, hlength⟩]
    exact (judge_accepted hlib hkeys hvalues hformed.configured).mpr
      ⟨key, ⟨value, hvalue, jwk, hjwk, hkid, hserves⟩, hverify⟩

theorem parse_key_set_grows {document more : Bytes} {configured : List JwtAlgorithm}
    {keys : KeySet K} (hkeys : parseKeySet lib decoder document configured = .ok keys)
    {values others : List V} (hvalues : decoder.keys document = some values)
    (hothers : decoder.keys more = some others) (hmore : ∀ value ∈ values, value ∈ others) :
    ∃ keys', parseKeySet lib decoder more configured = .ok keys' := by
  unfold parseKeySet at hkeys ⊢
  rw [hvalues] at hkeys
  rw [hothers]
  dsimp only at hkeys ⊢
  split
  · next hnone =>
    split at hkeys
    · cases hkeys
    · next hsome =>
      refine absurd (List.eq_nil_iff_forall_not_mem.mpr fun admitted hmem => ?_) hsome
      obtain ⟨value, hvalue, hadmitted⟩ := List.mem_filterMap.mp hmem
      have hin : admitted ∈ others.filterMap fun value =>
          (admitEntry lib decoder configured value).toOption :=
        List.mem_filterMap.mpr ⟨value, hmore value hvalue, hadmitted⟩
      rw [hnone] at hin
      exact List.not_mem_nil hin
  · exact ⟨_, rfl⟩

end

theorem signature_verdict_exact {K V : Type} {lib : AwsLc K} (hlib : lib.Documented)
    {decoder : Decoder V} {v : JwtVerifier} {document : Bytes} {keys : KeySet K}
    (hkeys : parseKeySet lib decoder document v.algorithms = .ok keys) {values : List V}
    (hvalues : decoder.keys document = some values) (token : Bytes) :
    ExactVerdict lib decoder v keys values token where
  accepts := stage_accepted hlib hkeys hvalues token
  asks := by
    unfold signatureStage
    constructor
    · rintro ⟨reason, h⟩
      cases hpresent : present v token with
      | error reason =>
        rw [hpresent] at h
        cases h
      | ok presented =>
        rw [hpresent] at h
        obtain ⟨hformed, hlength⟩ := present_iff.mp hpresent
        exact ⟨presented, hformed, hlength,
          (judge_asks hlib hkeys hvalues hformed.configured).mp ⟨reason, h⟩⟩
    · rintro ⟨presented, hformed, hlength, hasks⟩
      rw [present_iff.mpr ⟨hformed, hlength⟩]
      exact (judge_asks hlib hkeys hvalues hformed.configured).mpr hasks
  same other others keys' hothers hkeys' hsame := by
    unfold signatureStage
    cases hpresent : present v token with
    | error reason => rfl
    | ok presented =>
      have hconfigured := (present_iff.mp hpresent).1.configured
      have hcandidate : ∀ key,
          Candidate lib decoder others presented.kid presented.algorithm key ↔
            Candidate lib decoder values presented.kid presented.algorithm key := fun key =>
        ⟨fun h => h.mono hconfigured fun jwk husable => (hsame jwk husable).mpr,
          fun h => h.mono hconfigured fun jwk husable => (hsame jwk husable).mp⟩
      refine judge_congr ?_ ?_
      · rw [candidates_empty hlib hkeys' hothers hconfigured,
          candidates_empty hlib hkeys hvalues hconfigured]
        exact not_congr (exists_congr hcandidate)
      · rw [verify_with_ok hlib hkeys' hothers hconfigured,
          verify_with_ok hlib hkeys hvalues hconfigured]
        exact exists_congr fun key => and_congr_left fun _ => hcandidate key
  grows more others hothers hmore haccepted := by
    obtain ⟨keys', hkeys'⟩ := parse_key_set_grows hkeys hvalues hothers hmore
    refine ⟨keys', hkeys', (stage_accepted hlib hkeys' hothers token).mpr ?_⟩
    obtain ⟨presented, hformed, key, hcandidate, hverify⟩ :=
      (stage_accepted hlib hkeys hvalues token).mp haccepted
    refine ⟨presented, hformed, key, hcandidate.mono hformed.configured ?_, hverify⟩
    rintro jwk - ⟨value, hvalue, hjwk⟩
    exact ⟨value, hmore value hvalue, hjwk⟩

def edKey : Jwk :=
  ⟨none, none, none, none,
    .octetKeyPair .ed25519 "11qYAYKxCrfVS_7TyWQHOg7hcvPapiMlrwIaaPcHURo"⟩

def signedText : Bytes := asBytes "eyJhbGciOiJFZERTQSJ9.RXhhbXBsZSBvZiBFZDI1NTE5IHNpZ25pbmc"

def signatureText : Bytes :=
  asBytes "hgyY0il_MGCjP0JzlnLWG1PPOt7-09PGcvMg3AIbQR6dWbhijcNR4ki4iylGjg5BhVsPt9g7sVvpAr_MuM0KAg"

def edToken : Bytes := signedText ++ 46 :: signatureText

/-- Ed25519 keys have 32 bytes; of the signatures it knows the published one. -/
def edLibrary : AwsLc Bytes where
  rsa _ _ _ := none
  raw algorithm bytes := if algorithm = .edDsa ∧ bytes.length = 32 then some bytes else none
  verifySig key message signature :=
    decide (urlSafeDecode (asBytes "11qYAYKxCrfVS_7TyWQHOg7hcvPapiMlrwIaaPcHURo") = some key ∧
      message = signedText ∧ urlSafeDecode signatureText = some signature ∧ signature.length = 64)

theorem ed_library_documented : edLibrary.Documented where
  rsa_padding _ _ := rfl
  rsa_size _ _ _ _ hkey := nomatch hkey
  raw_size _ _ _ _ _ _ hverify := (of_decide_eq_true hverify).2.2.2

def edVerifier : JwtVerifier where
  parseHeader bytes :=
    if bytes = asBytes "\x7b\"alg\":\"EdDSA\"\x7d" then some ⟨.edDsa, none, none, none⟩
    else if bytes = asBytes "\x7b\"alg\":\"HS256\"\x7d" then some ⟨.hs256, none, none, none⟩
    else none
  tokenProfile := .resourceServer
  algorithms := [.edDsa]

def edDocument : Bytes :=
  asBytes "\x7b\"keys\":[\x7b\"kty\":\"OKP\",\"crv\":\"Ed25519\",\"x\":\"11qYAYKxCrfVS_7TyWQHOg7hcvPapiMlrwIaaPcHURo\"\x7d]\x7d"

def edDecoder : Decoder Jwk := ⟨fun bytes => if bytes = edDocument then some [edKey] else none, some⟩

theorem ed_token_accepted : ∃ keys, parseKeySet edLibrary edDecoder edDocument [.edDsa] = .ok keys ∧
    ∃ presented, Formed edVerifier edToken presented ∧
      Verified edLibrary edDecoder [edKey] presented := by
  have hkeys : (parseKeySet edLibrary edDecoder edDocument [.edDsa]).toOption.map (fun keys =>
      signatureStage edLibrary edVerifier keys edToken) = some .accepted := by
    decide
  obtain ⟨keys, hset, haccepted⟩ := Option.map_eq_some_iff.mp hkeys
  have hparse : parseKeySet edLibrary edDecoder edDocument [.edDsa] = .ok keys := by
    cases hcase : parseKeySet edLibrary edDecoder edDocument [.edDsa] with
    | error error =>
      rw [hcase] at hset
      cases hset
    | ok found =>
      rw [hcase] at hset
      cases hset
      rfl
  have hvalues : edDecoder.keys edDocument = some [edKey] := by
    simp only [edDecoder, if_true]
  have hexact := signature_verdict_exact (v := edVerifier) ed_library_documented hparse hvalues
    edToken
  exact ⟨keys, hparse, hexact.accepts.mp haccepted⟩

/-- A token without a kid under an algorithm that is not configured: header, empty object, text. -/
def otherToken : Bytes := asBytes "eyJhbGciOiJIUzI1NiJ9.e30.c2ln"

theorem kidless_refusal_asks_nothing :
    ∃ header, edVerifier.parseHeader (asBytes "\x7b\"alg\":\"HS256\"\x7d") = some header ∧
      header.kid = none ∧
      urlSafeDecode (asBytes "eyJhbGciOiJIUzI1NiJ9") =
        some (asBytes "\x7b\"alg\":\"HS256\"\x7d") ∧
      ∀ keys : KeySet Bytes,
        signatureStage edLibrary edVerifier keys otherToken = .refused .algorithm := by
  refine ⟨⟨.hs256, none, none, none⟩, by decide, rfl, by decide, fun keys => ?_⟩
  have hpresent : present edVerifier otherToken = .error .algorithm := by decide
  rw [signatureStage, hpresent]

end JwtSignature
