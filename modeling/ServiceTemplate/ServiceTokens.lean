import ServiceTemplate.TransitionSystem
import ServiceTemplate.Utf8Text
import ServiceTemplate.ExceptChain
import ServiceTemplate.Splitting
import Mathlib.Data.List.AList

/-! Service token verification: every check of the contract at one instant, and the memory of
verified tokens in front of it, shared by concurrent calls. -/
namespace ServiceTokens

open ByteFraming
open Utf8Text
open ExceptChain
open Splitting
open TransitionSystem

def maxTokenLifetimeSeconds : UInt64 := 60
def leewaySeconds : UInt64 := 30

/-- Most verified tokens remembered at once. -/
def seenTokens : ℕ := 1024

inductive Reason where
  | missing
  | malformed
  | header
  | algorithm
  | type
  | keyId
  | claims
  | issuer
  | unknownKey
  | signature
  | subject
  | audience
  | expired
  | notYetValid
  | lifetime
  | clock
  deriving DecidableEq, Repr

def saturatingAdd (a b : UInt64) : UInt64 :=
  if a.toNat + b.toNat < 2 ^ 64 then a + b else .ofNat (2 ^ 64 - 1)

/-- One to 63 lowercase letters, digits and hyphens, neither first nor last a hyphen. -/
def isCallerName (value : String) : Bool :=
  let bytes := asBytes value
  decide (1 ≤ bytes.length ∧ bytes.length ≤ 63) &&
    bytes.all (fun byte => (97 ≤ byte && byte ≤ 122) || (48 ≤ byte && byte ≤ 57) || byte == 45) &&
    bytes.head? != some 45 && bytes.getLast? != some 45

structure CallerName where
  text : String
  valid : isCallerName text = true
  deriving DecidableEq

def CallerName.parse (value : String) : Option CallerName :=
  if h : isCallerName value = true then some ⟨value, h⟩ else none

def toAsciiLower (text : List Char) : List Char := text.map Char.toLower

/-- The value without an `application/` prefix; nothing for another type. -/
def shortType (value : String) : Option (List Char) :=
  match splitOnce '/' value.toList with
  | none => some value.toList
  | some (top, rest) =>
    if toAsciiLower top = "application".toList ∧ '/' ∉ rest then some rest else none

structure JwtType where
  text : String
  deriving DecidableEq

def JwtType.admits (jwtType : JwtType) (typ : String) : Bool :=
  (shortType typ).any fun short => toAsciiLower short = toAsciiLower jwtType.text.toList

structure TokenHeader where
  es256 : Bool
  typ : Option String
  kid : Option String
  crit : Bool
  deriving DecidableEq, Repr

inductive Audience where
  | one (audience : String)
  | many (audiences : List String)
  deriving DecidableEq, Repr

def Audience.isOnly (audience : Audience) (name : String) : Bool :=
  match audience with
  | .one audience => audience = name
  | .many [audience] => audience = name
  | .many _ => false

structure Claims where
  iss : Option String
  sub : Option String
  aud : Option Audience
  iat : Option UInt64
  exp : Option UInt64
  nbf : Option UInt64
  deriving DecidableEq, Repr

structure TrustedKey (κ : Type) where
  kid : String
  key : κ

structure TrustRegistry (κ : Type) where
  callers : AList fun _ : CallerName => List (TrustedKey κ)

def TrustRegistry.caller {κ : Type} (trust : TrustRegistry κ) (name : String) :
    Option (CallerName × List (TrustedKey κ)) := do
  let name ← CallerName.parse name
  let keys ← trust.callers.lookup name
  return (name, keys)

/-- The libraries the verifier calls: unpadded base64url, JSON and ECDSA. -/
structure Codec (κ : Type) where
  decode : Bytes → Option Bytes
  parseHeader : Bytes → Option TokenHeader
  parseClaims : String → Option Claims
  verifySig : κ → Bytes → Bytes → Bool

structure Verifier (κ : Type) where
  codec : Codec κ
  audience : CallerName
  jwtType : JwtType
  trust : TrustRegistry κ

structure Caller where
  name : CallerName
  deriving DecidableEq

def splitLastDot (bytes : Bytes) : Option (Bytes × Bytes) :=
  (splitOnce 46 bytes.reverse).map fun parts => (parts.2.reverse, parts.1.reverse)

section Checks

variable {κ : Type}

def checkTimes (claims : Claims) (now : UInt64) : Except Reason UInt64 := do
  let (issuedAt, expiresAt) ← okOr (claims.iat.bind fun iat => claims.exp.map (iat, ·)) .claims
  ensure (!(expiresAt ≤ issuedAt || maxTokenLifetimeSeconds < expiresAt - issuedAt)) .lifetime
  ensure (now ≤ saturatingAdd expiresAt leewaySeconds) .expired
  let earliest := saturatingAdd now leewaySeconds
  ensure (!(earliest < issuedAt || claims.nbf.any (earliest < ·))) .notYetValid
  return expiresAt

/-- The checks before the ones of the times: they read nothing but the token. -/
def attested (v : Verifier κ) (token : Bytes) : Except Reason (CallerName × Claims) := do
  let (message, signature) ← okOr (splitLastDot token) .header
  let (header, payload) ← okOr (splitLastDot message) .header
  let header ← okOr ((v.codec.decode header).bind v.codec.parseHeader) .header
  ensure (!header.crit) .header
  ensure header.es256 .algorithm
  ensure (header.typ.any v.jwtType.admits) .type
  let kid ← okOr (header.kid.filter (· ≠ "")) .keyId
  let payload ← okOr ((v.codec.decode payload).bind fromUtf8) .claims
  let claims ← okOr (v.codec.parseClaims payload) .claims
  -- The key comes only from the caller this token names.
  let issuer ← okOr claims.iss .issuer
  let (caller, keys) ← okOr (v.trust.caller issuer) .issuer
  let key ← okOr (keys.find? (·.kid = kid)) .unknownKey
  let signature ← okOr ((v.codec.decode signature).filter (·.length = 64)) .signature
  ensure (v.codec.verifySig key.key message signature) .signature
  ensure (claims.sub = some issuer) .subject
  ensure (claims.aud.any (·.isOnly v.audience.text)) .audience
  return (caller, claims)

/-- Every check of the contract; the caller and the token's `exp`. -/
def checked (v : Verifier κ) (token : Bytes) (now : UInt64) : Except Reason (Caller × UInt64) := do
  let (caller, claims) ← attested v token
  let expiresAt ← checkTimes claims now
  return (⟨caller⟩, expiresAt)

abbrev Seen := AList fun _ : Bytes => Caller × UInt64

def Seen.retain (seen : Seen) (keep : Caller × UInt64 → Bool) : Seen where
  entries := seen.entries.filter fun entry => keep entry.2
  nodupKeys := seen.nodupKeys.sublist List.filter_sublist

def unexpired (now : UInt64) (entry : Caller × UInt64) : Bool :=
  now ≤ saturatingAdd entry.2 leewaySeconds

/-- The first critical section: a remembered caller, or none and the token forgotten. -/
def look (seen : Seen) (token : Bytes) (now : UInt64) : Option Caller × Seen :=
  match seen.lookup token with
  | none => (none, seen)
  | some entry => if unexpired now entry then (some entry.1, seen) else (none, seen.erase token)

/-- The second critical section, after the checks passed. -/
def remember (seen : Seen) (token : Bytes) (now : UInt64) (entry : Caller × UInt64) : Seen :=
  let seen :=
    if seenTokens ≤ seen.entries.length then
      let kept := seen.retain (unexpired now)
      if seenTokens ≤ kept.entries.length then ∅ else kept
    else seen
  seen.insert token entry

def remembered (v : Verifier κ) (seen : Seen) (token : Bytes) (now : UInt64) :
    Except Reason Caller × Seen :=
  match look seen token now with
  | (some caller, seen) => (.ok caller, seen)
  | (none, seen) =>
    match checked v token now with
    | .error reason => (.error reason, seen)
    | .ok entry => (.ok entry.1, remember seen token now entry)

/-- Between its two critical sections a call checks the token without the lock. -/
structure Call where
  token : Bytes
  now : UInt64
  deriving DecidableEq

structure Answer where
  call : Call
  result : Except Reason Caller

structure State where
  seen : Seen
  clock : UInt64
  checking : List Call
  answers : List Answer

inductive Event where
  | look (call : Call)
  | finish (call : Call)

def initial : State := ⟨∅, 0, [], []⟩

def step (v : Verifier κ) (s : State) : Event → Option State
  | .look call =>
    if s.clock ≤ call.now then
      match look s.seen call.token call.now with
      | (some caller, seen) =>
        some { s with seen, clock := call.now, answers := s.answers ++ [⟨call, .ok caller⟩] }
      | (none, seen) =>
        some { s with seen, clock := call.now, checking := s.checking ++ [call] }
    else none
  | .finish call =>
    if call ∈ s.checking then
      let checking := s.checking.erase call
      match checked v call.token call.now with
      | .error reason =>
        some { s with checking, answers := s.answers ++ [⟨call, .error reason⟩] }
      | .ok entry =>
        some { s with
          checking
          seen := remember s.seen call.token call.now entry
          answers := s.answers ++ [⟨call, .ok entry.1⟩] }
    else none

def calls (v : Verifier κ) : System State Event := ⟨initial, step v⟩

theorem le_saturating_add {now a b : UInt64} :
    now ≤ saturatingAdd a b ↔ now.toNat ≤ a.toNat + b.toNat := by
  have hnow := now.toNat_lt
  simp only [saturatingAdd]
  split_ifs with h
  · rw [UInt64.le_iff_toNat_le, UInt64.toNat_add, Nat.mod_eq_of_lt h]
  · rw [UInt64.le_iff_toNat_le, UInt64.toNat_ofNat_of_lt' (by decide)]
    omega

structure Timely (claims : Claims) (now expiresAt : UInt64) : Prop where
  issued : ∃ issuedAt, claims.iat = some issuedAt ∧ claims.exp = some expiresAt ∧
    issuedAt.toNat < expiresAt.toNat ∧
    expiresAt.toNat - issuedAt.toNat ≤ maxTokenLifetimeSeconds.toNat ∧
    issuedAt.toNat ≤ now.toNat + leewaySeconds.toNat
  unexpired : now.toNat ≤ expiresAt.toNat + leewaySeconds.toNat
  started : ∀ notBefore, claims.nbf = some notBefore →
    notBefore.toNat ≤ now.toNat + leewaySeconds.toNat

theorem lifetime_iff {issuedAt expiresAt : UInt64} :
    (!(decide (expiresAt ≤ issuedAt) ||
      decide (maxTokenLifetimeSeconds < expiresAt - issuedAt))) = true ↔
    issuedAt.toNat < expiresAt.toNat ∧
      expiresAt.toNat - issuedAt.toNat ≤ maxTokenLifetimeSeconds.toNat := by
  simp only [Bool.not_or, Bool.and_eq_true, Bool.not_eq_true', decide_eq_false_iff_not,
    UInt64.not_le, UInt64.not_lt]
  rw [UInt64.lt_iff_toNat_lt, UInt64.le_iff_toNat_le]
  constructor
  · rintro ⟨hlt, hle⟩
    rw [UInt64.toNat_sub_of_le _ _ (UInt64.le_iff_toNat_le.mpr (Nat.le_of_lt hlt))] at hle
    exact ⟨hlt, hle⟩
  · rintro ⟨hlt, hle⟩
    rw [UInt64.toNat_sub_of_le _ _ (UInt64.le_iff_toNat_le.mpr (Nat.le_of_lt hlt))]
    exact ⟨hlt, hle⟩

theorem started_iff {now issuedAt : UInt64} {notBefore : Option UInt64} :
    (!(decide (saturatingAdd now leewaySeconds < issuedAt) ||
      notBefore.any (saturatingAdd now leewaySeconds < ·))) = true ↔
    issuedAt.toNat ≤ now.toNat + leewaySeconds.toNat ∧
      ∀ start, notBefore = some start → start.toNat ≤ now.toNat + leewaySeconds.toNat := by
  simp only [Bool.not_or, Bool.and_eq_true, Bool.not_eq_true', decide_eq_false_iff_not,
    UInt64.not_lt, le_saturating_add]
  cases notBefore with
  | none => simp
  | some start => simp [le_saturating_add]

theorem check_times_ok {claims : Claims} {now expiresAt : UInt64} :
    checkTimes claims now = .ok expiresAt ↔ Timely claims now expiresAt := by
  simp only [checkTimes, bind_ok, ok_or_ok, ensure_ok]
  constructor
  · rintro ⟨⟨issuedAt, expires⟩, hdates, _, hlifetime, _, hexpiry, _, hstarted, hout⟩
    cases hout
    obtain ⟨iat, hiat, hexp⟩ := Option.bind_eq_some_iff.mp hdates
    obtain ⟨exp, hexp, hpair⟩ := Option.map_eq_some_iff.mp hexp
    cases hpair
    obtain ⟨hissued, hstart⟩ := started_iff.mp hstarted
    obtain ⟨hlt, hle⟩ := lifetime_iff.mp hlifetime
    exact ⟨⟨issuedAt, hiat, hexp, hlt, hle, hissued⟩,
      le_saturating_add.mp (of_decide_eq_true hexpiry), hstart⟩
  · rintro ⟨⟨issuedAt, hiat, hexp, hlt, hle, hissued⟩, hexpiry, hstart⟩
    refine ⟨(issuedAt, expiresAt), by simp [hiat, hexp], (), lifetime_iff.mpr ⟨hlt, hle⟩, (),
      decide_eq_true (le_saturating_add.mpr hexpiry), (), started_iff.mpr ⟨hissued, hstart⟩, rfl⟩

theorem Timely.later {claims : Claims} {t now expiresAt : UInt64} (h : Timely claims t expiresAt)
    (hle : t ≤ now) : checkTimes claims now =
      if now ≤ saturatingAdd expiresAt leewaySeconds then .ok expiresAt else .error .expired := by
  have hnat := UInt64.le_iff_toNat_le.mp hle
  obtain ⟨⟨issuedAt, hiat, hexp, hlt, hlife, hissued⟩, -, hstart⟩ := h
  by_cases hnow : now ≤ saturatingAdd expiresAt leewaySeconds
  · rw [if_pos hnow, check_times_ok]
    refine ⟨⟨issuedAt, hiat, hexp, hlt, hlife, by omega⟩, le_saturating_add.mp hnow, ?_⟩
    intro start hsome
    have := hstart start hsome
    omega
  · have hlifetime := lifetime_iff.mpr ⟨hlt, hlife⟩
    rw [if_neg hnow]
    simp only [checkTimes, hiat, hexp, Option.bind_some, Option.map_some, okOr, ensure, hlifetime,
      hnow, decide_false, if_true, bind, Except.bind]
    rfl

theorem checked_ok {v : Verifier κ} {token : Bytes} {now : UInt64} {entry : Caller × UInt64} :
    checked v token now = .ok entry ↔
      ∃ claims, attested v token = .ok (entry.1.name, claims) ∧ Timely claims now entry.2 := by
  simp only [checked, bind_ok, check_times_ok]
  constructor
  · rintro ⟨⟨caller, claims⟩, hattested, expiresAt, htimely, hout⟩
    cases hout
    exact ⟨claims, hattested, htimely⟩
  · rintro ⟨claims, hattested, htimely⟩
    exact ⟨_, hattested, entry.2, htimely, rfl⟩

/-- Every check but expiry depends only on the token, so the same token passes again. -/
theorem checked_later {v : Verifier κ} {token : Bytes} {t now : UInt64} {entry : Caller × UInt64}
    (h : checked v token t = .ok entry) (hle : t ≤ now) : checked v token now =
      if unexpired now entry then .ok entry else .error .expired := by
  obtain ⟨claims, hattested, htimely⟩ := checked_ok.mp h
  have htimes := htimely.later hle
  simp only [checked, hattested, bind, Except.bind, htimes, unexpired, decide_eq_true_eq]
  split_ifs <;> rfl

theorem lookup_retain {seen : Seen} {keep : Caller × UInt64 → Bool} {token : Bytes}
    {entry : Caller × UInt64} (h : (seen.retain keep).lookup token = some entry) :
    seen.lookup token = some entry := by
  have hmem := AList.mem_lookup_iff.mp (Option.mem_def.mpr h)
  exact Option.mem_def.mp (AList.mem_lookup_iff.mpr (List.mem_filter.mp hmem).1)

theorem lookup_look {seen : Seen} {token other : Bytes} {now : UInt64} {entry : Caller × UInt64}
    (h : (look seen token now).2.lookup other = some entry) :
    seen.lookup other = some entry := by
  simp only [look] at h
  split at h
  · exact h
  · split at h
    · exact h
    · by_cases heq : other = token
      · subst heq
        rw [AList.lookup_erase] at h
        cases h
      · rwa [AList.lookup_erase_ne heq] at h

theorem look_length (seen : Seen) (token : Bytes) (now : UInt64) :
    (look seen token now).2.entries.length ≤ seen.entries.length := by
  simp only [look]
  split
  · exact Nat.le_refl _
  · split
    · exact Nat.le_refl _
    · exact (List.kerase_sublist token seen.entries).length_le

theorem lookup_remember {seen : Seen} {token other : Bytes} {now : UInt64}
    {entry found : Caller × UInt64} (h : (remember seen token now entry).lookup other = some found) :
    (other = token ∧ found = entry) ∨ seen.lookup other = some found := by
  simp only [remember] at h
  by_cases heq : other = token
  · subst heq
    rw [AList.lookup_insert] at h
    exact .inl ⟨rfl, (Option.some.inj h).symm⟩
  · rw [AList.lookup_insert_ne heq] at h
    right
    split_ifs at h
    · simp at h
    · exact lookup_retain h
    · exact h

theorem remember_length {seen : Seen} (token : Bytes) (now : UInt64) (entry : Caller × UInt64) :
    (remember seen token now entry).entries.length ≤ seenTokens := by
  have hinsert : ∀ kept : Seen, kept.entries.length < seenTokens →
      (kept.insert token entry).entries.length ≤ seenTokens := by
    intro kept hlt
    have hle := (List.kerase_sublist token kept.entries).length_le
    show (List.kerase token kept.entries).length + 1 ≤ seenTokens
    omega
  simp only [remember]
  apply hinsert
  split_ifs with hfull hkept
  · decide
  · omega
  · omega

end Checks

section Concurrency

variable {κ : Type} {v : Verifier κ} {s t : State}

/-- Every remembered token passed every check before now, and every answer is the one the checks
alone give. -/
structure Inv (v : Verifier κ) (s : State) : Prop where
  remembered : ∀ token entry, s.seen.lookup token = some entry →
    ∃ time, time ≤ s.clock ∧ checked v token time = .ok entry
  bounded : s.seen.entries.length ≤ seenTokens
  started : ∀ call ∈ s.checking, call.now ≤ s.clock
  answered : ∀ answer ∈ s.answers, answer.result =
    (checked v answer.call.token answer.call.now).map Prod.fst

theorem initial_inv : Inv v initial where
  remembered := by
    intro token entry h
    simp [initial] at h
  bounded := by decide
  started := by simp [initial]
  answered := by simp [initial]

theorem answered_snoc {answers : List Answer} {answer : Answer}
    (h : ∀ a ∈ answers, a.result = (checked v a.call.token a.call.now).map Prod.fst)
    (hnew : answer.result = (checked v answer.call.token answer.call.now).map Prod.fst) :
    ∀ a ∈ answers ++ [answer], a.result = (checked v a.call.token a.call.now).map Prod.fst := by
  intro a ha
  rcases List.mem_append.mp ha with ha | ha
  · exact h a ha
  · rw [List.mem_singleton.mp ha]
    exact hnew

theorem look_hit (hinv : Inv v s) (call : Call) (hclock : s.clock ≤ call.now) {caller : Caller}
    (h : (look s.seen call.token call.now).1 = some caller) :
    (checked v call.token call.now).map Prod.fst = .ok caller := by
  simp only [look] at h
  split at h
  · cases h
  · rename_i entry hentry
    split at h
    · rename_i hunexpired
      cases h
      obtain ⟨time, htime, hchecked⟩ := hinv.remembered _ _ hentry
      rw [checked_later hchecked (UInt64.le_trans htime hclock), if_pos hunexpired]
      rfl
    · cases h

theorem look_inv (hinv : Inv v s) {call : Call} (h : step v s (.look call) = some t) :
    Inv v t := by
  simp only [step, Option.ite_none_right_eq_some] at h
  obtain ⟨hclock, h⟩ := h
  have hremembered : ∀ token entry, (look s.seen call.token call.now).2.lookup token = some entry →
      ∃ time, time ≤ call.now ∧ checked v token time = .ok entry := by
    intro token entry hentry
    obtain ⟨time, htime, hchecked⟩ := hinv.remembered token entry (lookup_look hentry)
    exact ⟨time, UInt64.le_trans htime hclock, hchecked⟩
  have hbounded := Nat.le_trans (look_length s.seen call.token call.now) hinv.bounded
  have hstarted : ∀ c ∈ s.checking, c.now ≤ call.now := by
    intro c hc
    exact UInt64.le_trans (hinv.started c hc) hclock
  split at h
  · rename_i caller seen hlook
    cases h
    rw [hlook] at hremembered hbounded
    have hhit := look_hit hinv call hclock (by rw [hlook])
    exact ⟨hremembered, hbounded, hstarted, answered_snoc hinv.answered hhit.symm⟩
  · rename_i seen hlook
    cases h
    rw [hlook] at hremembered hbounded
    refine ⟨hremembered, hbounded, ?_, hinv.answered⟩
    intro c hc
    rcases List.mem_append.mp hc with hc | hc
    · exact hstarted c hc
    · rw [List.mem_singleton.mp hc]
      exact UInt64.le_refl _

theorem finish_inv (hinv : Inv v s) {call : Call} (h : step v s (.finish call) = some t) :
    Inv v t := by
  simp only [step, Option.ite_none_right_eq_some] at h
  obtain ⟨hmem, h⟩ := h
  have hstarted : ∀ c ∈ s.checking.erase call, c.now ≤ s.clock := by
    intro c hc
    exact hinv.started c (List.mem_of_mem_erase hc)
  split at h
  · rename_i reason hchecked
    cases h
    exact ⟨hinv.remembered, hinv.bounded, hstarted,
      answered_snoc hinv.answered (by rw [hchecked]; rfl)⟩
  · rename_i entry hchecked
    cases h
    refine ⟨?_, remember_length _ _ _, hstarted, answered_snoc hinv.answered (by rw [hchecked]; rfl)⟩
    intro token found hfound
    rcases lookup_remember hfound with ⟨rfl, rfl⟩ | hbefore
    · exact ⟨call.now, hinv.started call hmem, hchecked⟩
    · exact hinv.remembered token found hbefore

theorem reachable_inv (h : (calls v).Reachable s) : Inv v s := by
  apply System.Reachable.induction (M := calls v) initial_inv _ h
  intro u e w _ hinv hstep
  cases e with
  | look call => exact look_inv hinv hstep
  | finish call => exact finish_inv hinv hstep

/-- What an accepted token proves of its caller at an instant: a signature valid under one of the
caller's own keys, the caller as issuer and subject, this service as the only audience, and the
bounds of its times. -/
structure Genuine (v : Verifier κ) (token : Bytes) (now : UInt64) (caller : Caller) : Prop where
  signed : ∃ message signature bytes keys key, splitLastDot token = some (message, signature) ∧
    v.codec.decode signature = some bytes ∧ v.trust.callers.lookup caller.name = some keys ∧
    key ∈ keys ∧ v.codec.verifySig key.key message bytes = true
  claimed : ∃ message signature header payload bytes text claims expiresAt,
    splitLastDot token = some (message, signature) ∧
    splitLastDot message = some (header, payload) ∧ v.codec.decode payload = some bytes ∧
    fromUtf8 bytes = some text ∧ v.codec.parseClaims text = some claims ∧
    claims.iss = some caller.name.text ∧ claims.sub = some caller.name.text ∧
    (∃ audience, claims.aud = some audience ∧ audience.isOnly v.audience.text = true) ∧
    Timely claims now expiresAt

theorem trust_caller_ok {trust : TrustRegistry κ} {name : String} {caller : CallerName}
    {keys : List (TrustedKey κ)} (h : trust.caller name = some (caller, keys)) :
    caller.text = name ∧ trust.callers.lookup caller = some keys := by
  obtain ⟨parsed, hparsed, h⟩ := Option.bind_eq_some_iff.mp h
  obtain ⟨found, hfound, h⟩ := Option.bind_eq_some_iff.mp h
  cases h
  refine ⟨?_, hfound⟩
  simp only [CallerName.parse] at hparsed
  split at hparsed
  · cases hparsed
    rfl
  · cases hparsed

theorem checked_genuine {token : Bytes} {now : UInt64} {entry : Caller × UInt64}
    (h : checked v token now = .ok entry) : Genuine v token now entry.1 := by
  obtain ⟨claims, hattested, htimely⟩ := checked_ok.mp h
  simp only [attested, bind_ok, ok_or_ok, ensure_ok] at hattested
  obtain ⟨⟨message, signature⟩, htoken, ⟨header, payload⟩, hmessage, _, -, _, -, _, -, _, -,
    kid, -, text, htext, claims', hclaims, issuer, hissuer, ⟨caller, keys⟩, hcaller, key, hkey,
    bytes, hbytes, _, hverify, _, hsubject, _, haudience, hout⟩ := hattested
  cases hout
  obtain ⟨hname, hkeys⟩ := trust_caller_ok hcaller
  obtain ⟨decoded, hdecoded, htext⟩ := Option.bind_eq_some_iff.mp htext
  exact {
    signed := ⟨message, signature, bytes, keys, key, htoken, (Option.filter_eq_some_iff.mp hbytes).1,
      hkeys, List.mem_of_find?_eq_some hkey, hverify⟩
    claimed := ⟨message, signature, header, payload, decoded, text, claims, entry.2, htoken, hmessage,
      hdecoded, htext, hclaims, by rw [hissuer, hname], by rw [of_decide_eq_true hsubject, hname],
      (Option.any_eq_true _ _).mp haudience, htimely⟩ }

/-- The memory changes no answer: in every interleaving of calls, each answer is the one the
checks alone give at the call's time, a call on its own answers the same, the memory stays
bounded, and a named caller is genuine. -/
theorem memory_transparent (h : (calls v).Reachable s) :
    (∀ answer ∈ s.answers, answer.result =
      (checked v answer.call.token answer.call.now).map Prod.fst) ∧
    (∀ token now, s.clock ≤ now →
      (remembered v s.seen token now).1 = (checked v token now).map Prod.fst) ∧
    s.seen.entries.length ≤ seenTokens ∧
    ∀ answer ∈ s.answers, ∀ caller, answer.result = .ok caller →
      Genuine v answer.call.token answer.call.now caller := by
  have hinv := reachable_inv h
  refine ⟨hinv.answered, ?_, hinv.bounded, ?_⟩
  · intro token now hclock
    simp only [remembered]
    split
    · rename_i caller seen hlook
      exact (look_hit hinv ⟨token, now⟩ hclock (by rw [hlook])).symm
    · split
      · rename_i hchecked
        rw [hchecked]
        rfl
      · rename_i hchecked
        rw [hchecked]
        rfl
  · intro answer hanswer caller hok
    rw [hinv.answered answer hanswer] at hok
    cases hchecked : checked v answer.call.token answer.call.now with
    | error reason =>
      rw [hchecked] at hok
      cases hok
    | ok entry =>
      rw [hchecked] at hok
      cases hok
      exact checked_genuine hchecked

end Concurrency

def headerText : String := "eyJhbGciOiJFUzI1NiIsInR5cCI6InMiLCJraWQiOiJrIn0"
def headerJson : String := "\x7b\"alg\":\"ES256\",\"typ\":\"s\",\"kid\":\"k\"\x7d"
def payloadText : String := "eyJpc3MiOiJhIiwic3ViIjoiYSIsImF1ZCI6ImIiLCJpYXQiOjEsImV4cCI6Mn0"
def payloadJson : String :=
  "\x7b\"iss\":\"a\",\"sub\":\"a\",\"aud\":\"b\",\"iat\":1,\"exp\":2\x7d"
def signatureText : String :=
  "AQEBAQEBAQEBAQEBAQEBAQEBAQEBAQEBAQEBAQEBAQEBAQEBAQEBAQEBAQEBAQEBAQEBAQEBAQEBAQEBAQEBAQ"

def sampleToken : Bytes :=
  asBytes headerText ++ 46 :: (asBytes payloadText ++ 46 :: asBytes signatureText)

def sampleCodec : Codec Unit where
  decode text :=
    if text = asBytes headerText then some (asBytes headerJson)
    else if text = asBytes payloadText then some (asBytes payloadJson)
    else if text = asBytes signatureText then some (List.replicate 64 1)
    else none
  parseHeader bytes :=
    if bytes = asBytes headerJson then some ⟨true, some "s", some "k", false⟩ else none
  parseClaims text :=
    if text = payloadJson then
      some ⟨some "a", some "a", some (.one "b"), some 1, some 2, none⟩
    else none
  verifySig _ message signature :=
    message = asBytes headerText ++ 46 :: asBytes payloadText && signature = List.replicate 64 1

def callerA : CallerName := ⟨"a", by decide⟩

def sampleVerifier : Verifier Unit :=
  ⟨sampleCodec, ⟨"b", by decide⟩, ⟨"s"⟩, ⟨AList.singleton callerA [⟨"k", ()⟩]⟩⟩

/-- The token passes, passes again from memory at its last second, and is then refused. -/
def sampleCalls : List Event :=
  [.look ⟨sampleToken, 1⟩, .finish ⟨sampleToken, 1⟩, .look ⟨sampleToken, 32⟩,
    .look ⟨sampleToken, 33⟩, .finish ⟨sampleToken, 33⟩]

theorem memory_transparent_sample :
    ∃ s, (calls sampleVerifier).run initial sampleCalls = some s ∧
      s.answers.map (fun answer => answer.result.toOption) = [some ⟨callerA⟩, some ⟨callerA⟩, none] ∧
      ∀ answer ∈ s.answers, ∀ caller, answer.result = .ok caller →
        Genuine sampleVerifier answer.call.token answer.call.now caller := by
  have hrun : ((calls sampleVerifier).run initial sampleCalls).map (fun s =>
      s.answers.map fun answer => answer.result.toOption) =
        some [some ⟨callerA⟩, some ⟨callerA⟩, none] := by decide +kernel
  obtain ⟨s, hs, hanswers⟩ := Option.map_eq_some_iff.mp hrun
  exact ⟨s, hs, hanswers, (memory_transparent (v := sampleVerifier) ⟨sampleCalls, hs⟩).2.2.2⟩

end ServiceTokens
