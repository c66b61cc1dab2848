import ServiceTemplate.IdempotencyRecord
import Mathlib.Data.Set.Function

/-! Scope and request identity of the HTTP idempotency seam.
The hasher is the list of bytes it was fed; SHA-256 itself is a parameter. -/
namespace IdempotencyIdentity

open ByteFraming
open IdempotencyRecord

def scopeDomain : Bytes := asBytes "http-idempotency/scope/v2"

def requestDomain : Bytes := asBytes "http-idempotency/request/v1"

structure Uri where
  path : String
  query : Option String
  deriving DecidableEq, Repr

/-- `u64::try_from` on a length. -/
def u64TryFrom (n : ℕ) : Option ℕ := if n < 2 ^ 64 then some n else none

def frame (hasher bytes : Bytes) : Option Bytes := do
  let length ← u64TryFrom bytes.length
  pure (hasher ++ toBeBytes 8 length ++ bytes)

def callerTag : CallerKind → UInt8
  | .subject => 1
  | .client => 2

def scopeInput (caller : CallerIdentity) (key : Bytes) : Option Bytes := do
  let hasher := scopeDomain ++ [0]
  let hasher ← frame hasher (asBytes caller.issuer)
  let hasher := hasher ++ [callerTag caller.kind]
  let hasher ← frame hasher (asBytes caller.value)
  frame hasher key

def scopeKey (sha256 : Bytes → Digest) (caller : CallerIdentity) (key : Bytes) :
    Option ScopeKey :=
  (scopeInput caller key).map fun hasher => ⟨sha256 hasher⟩

/-- A presence byte keeps an absent query apart from an empty one. -/
def frameQuery (hasher : Bytes) : Option String → Option Bytes
  | some query => frame (hasher ++ [1]) (asBytes query)
  | none => some (hasher ++ [0])

def requestInput (method : String) (uri : Uri) (contentTypes : List Bytes) (body : Bytes) :
    Option Bytes := do
  let hasher := requestDomain ++ [0]
  let hasher ← frame hasher (asBytes method)
  let hasher ← frame hasher (asBytes uri.path)
  let hasher ← frameQuery hasher uri.query
  let count ← u64TryFrom contentTypes.length
  let hasher := hasher ++ toBeBytes 8 count
  let hasher ← contentTypes.foldlM frame hasher
  frame hasher body

def requestDigest (sha256 : Bytes → Digest) (method : String) (uri : Uri)
    (contentTypes : List Bytes) (body : Bytes) : Option Digest :=
  (requestInput method uri contentTypes body).map sha256

theorem caller_tag_injective : Function.Injective callerTag := by
  intro k l h
  cases k <;> cases l <;> first | rfl | exact absurd h (by decide)

theorem u64_try_from_sized (n : ℕ) :
    u64TryFrom n = some n ∧ sized 8 n = some (toBeBytes 8 n) ∨
      u64TryFrom n = none ∧ sized 8 n = none := by
  have hwidth : (256 : ℕ) ^ 8 = 2 ^ 64 := by norm_num
  by_cases h : n < 2 ^ 64
  · exact .inl ⟨if_pos h, if_pos (hwidth ▸ h)⟩
  · exact .inr ⟨if_neg h, if_neg (hwidth ▸ h)⟩

/-- Feeding a frame appends a self-delimiting encoding. -/
theorem frame_eq (hasher bytes : Bytes) :
    frame hasher bytes = (framed 8 bytes).map (hasher ++ ·) := by
  rcases u64_try_from_sized bytes.length with ⟨hn, hs⟩ | ⟨hn, hs⟩ <;> simp [frame, framed, hn, hs]

theorem frames_eq (hasher : Bytes) (values : List Bytes) :
    values.foldlM frame hasher = (each (framed 8) values).map (hasher ++ ·) := by
  induction values generalizing hasher with
  | nil => simp [each]
  | cons value values ih =>
    rw [List.foldlM_cons, frame_eq, each_cons]
    cases hv : framed 8 value with
    | none => simp [pair, hv]
    | some u =>
      cases hvs : each (framed 8) values <;> simp [pair, hv, hvs, ih]

theorem frame_query_eq (hasher : Bytes) (query : Option String) :
    frameQuery hasher query = (tagged 0 1 (framed 8) (query.map asBytes)).map (hasher ++ ·) := by
  cases query with
  | none => rfl
  | some query =>
    cases hq : framed 8 (asBytes query) <;> simp [frameQuery, frame_eq, tagged, hq]

/-- The fields of a scope, without its domain. -/
def scopeCode : Bytes × UInt8 × Bytes × Bytes → Option Bytes :=
  pair (framed 8) (pair (fun tag => some [tag]) (pair (framed 8) (framed 8)))

def requestCode : Bytes × Bytes × Option Bytes × List Bytes × Bytes → Option Bytes :=
  pair (framed 8) (pair (framed 8) (pair (tagged 0 1 (framed 8))
    (pair (counted (sized 8) (framed 8)) (framed 8))))

theorem scope_code_self_delimiting : SelfDelimiting scopeCode := by
  have hframed := framed_self_delimiting 8
  have htag : SelfDelimiting fun tag : UInt8 => some [tag] := by
    apply self_delimiting_of_length 1
    · intro tag u hu
      cases hu
      rfl
    · intro x y u hx hy
      cases hx
      cases hy
      rfl
  exact hframed.pair (htag.pair (hframed.pair hframed))

theorem request_code_self_delimiting : SelfDelimiting requestCode := by
  have hframed := framed_self_delimiting 8
  have hquery : SelfDelimiting (tagged 0 1 (framed 8)) := hframed.tagged (by decide)
  have htypes := (sized_self_delimiting 8).counted hframed
  exact hframed.pair (hframed.pair (hquery.pair (htypes.pair hframed)))

theorem scope_input_eq (caller : CallerIdentity) (key : Bytes) :
    scopeInput caller key =
      (scopeCode (asBytes caller.issuer, callerTag caller.kind, asBytes caller.value, key)).map
        (scopeDomain ++ [0] ++ ·) := by
  simp only [scopeInput, scopeCode, pair, frame_eq]
  cases framed 8 (asBytes caller.issuer) <;> cases framed 8 (asBytes caller.value) <;>
    cases framed 8 key <;> simp

theorem request_input_eq (method : String) (uri : Uri) (contentTypes : List Bytes)
    (body : Bytes) :
    requestInput method uri contentTypes body =
      (requestCode (asBytes method, asBytes uri.path, uri.query.map asBytes, contentTypes,
        body)).map (requestDomain ++ [0] ++ ·) := by
  simp only [requestInput, requestCode, pair, counted, frame_query_eq, frame_eq, frames_eq]
  rcases u64_try_from_sized contentTypes.length with ⟨hn, hs⟩ | ⟨hn, hs⟩
  · cases framed 8 (asBytes method) <;> cases framed 8 (asBytes uri.path) <;>
      cases tagged 0 1 (framed 8) (uri.query.map asBytes) <;>
      cases each (framed 8) contentTypes <;> cases framed 8 body <;> simp [hn, hs]
  · cases framed 8 (asBytes method) <;> cases framed 8 (asBytes uri.path) <;>
      cases tagged 0 1 (framed 8) (uri.query.map asBytes) <;> simp [hn, hs]

theorem scope_input_injective {caller caller' : CallerIdentity} {key key' u : Bytes}
    (h : scopeInput caller key = some u) (h' : scopeInput caller' key' = some u) :
    caller = caller' ∧ key = key' := by
  rw [scope_input_eq] at h h'
  rcases Option.map_eq_some_iff.mp h with ⟨v, hv, rfl⟩
  rcases Option.map_eq_some_iff.mp h' with ⟨v', hv', heq⟩
  rw [List.append_cancel_left heq] at hv'
  have hfields := scope_code_self_delimiting.injective hv hv'
  simp only [Prod.mk.injEq] at hfields
  rcases hfields with ⟨hissuer, hkind, hvalue, hkey⟩
  cases caller
  cases caller'
  simp_all [as_bytes_injective.eq_iff, caller_tag_injective.eq_iff]

theorem request_input_injective {method method' : String} {uri uri' : Uri}
    {types types' : List Bytes} {body body' u : Bytes}
    (h : requestInput method uri types body = some u)
    (h' : requestInput method' uri' types' body' = some u) :
    method = method' ∧ uri = uri' ∧ types = types' ∧ body = body' := by
  rw [request_input_eq] at h h'
  rcases Option.map_eq_some_iff.mp h with ⟨v, hv, rfl⟩
  rcases Option.map_eq_some_iff.mp h' with ⟨v', hv', heq⟩
  rw [List.append_cancel_left heq] at hv'
  have hfields := request_code_self_delimiting.injective hv hv'
  simp only [Prod.mk.injEq] at hfields
  rcases hfields with ⟨hmethod, hpath, hquery, htypes, hbody⟩
  have hquery' := Option.map_injective as_bytes_injective hquery
  cases uri
  cases uri'
  simp_all [as_bytes_injective.eq_iff]

theorem scope_input_ne_request_input {caller : CallerIdentity} {key : Bytes} {method : String}
    {uri : Uri} {types : List Bytes} {body u : Bytes} (h : scopeInput caller key = some u) :
    requestInput method uri types body ≠ some u := by
  intro h'
  rw [scope_input_eq] at h
  rw [request_input_eq] at h'
  rcases Option.map_eq_some_iff.mp h with ⟨v, -, rfl⟩
  rcases Option.map_eq_some_iff.mp h' with ⟨v', -, heq⟩
  have hdomain := congrArg (List.take 18) heq
  rw [List.append_assoc, List.append_assoc, List.take_append_of_le_length (by decide),
    List.take_append_of_le_length (by decide)] at hdomain
  exact absurd hdomain (by decide)

def ScopeFits (caller : CallerIdentity) (key : Bytes) : Prop :=
  (asBytes caller.issuer).length < 2 ^ 64 ∧ (asBytes caller.value).length < 2 ^ 64 ∧
    key.length < 2 ^ 64

def RequestFits (method : String) (uri : Uri) (types : List Bytes) (body : Bytes) : Prop :=
  (asBytes method).length < 2 ^ 64 ∧ (asBytes uri.path).length < 2 ^ 64 ∧
    (∀ query, uri.query = some query → (asBytes query).length < 2 ^ 64) ∧
    types.length < 2 ^ 64 ∧ (∀ value ∈ types, value.length < 2 ^ 64) ∧ body.length < 2 ^ 64

theorem frame_of_fits {bytes : Bytes} (h : bytes.length < 2 ^ 64) (hasher : Bytes) :
    ∃ u, frame hasher bytes = some u := by
  have hlen : u64TryFrom bytes.length = some bytes.length := if_pos h
  simp [frame, hlen]

theorem frames_of_fits {values : List Bytes} (h : ∀ value ∈ values, value.length < 2 ^ 64)
    (hasher : Bytes) : ∃ u, values.foldlM frame hasher = some u := by
  induction values generalizing hasher with
  | nil => exact ⟨hasher, rfl⟩
  | cons value values ih =>
    rcases frame_of_fits (h value (by simp)) hasher with ⟨u, hu⟩
    rcases ih (fun v hv => h v (by simp [hv])) u with ⟨w, hw⟩
    exact ⟨w, by simp [List.foldlM_cons, hu, hw]⟩

theorem scope_input_of_fits {caller : CallerIdentity} {key : Bytes} (h : ScopeFits caller key) :
    ∃ u, scopeInput caller key = some u := by
  rcases h with ⟨hissuer, hvalue, hkey⟩
  rcases frame_of_fits hissuer (scopeDomain ++ [0]) with ⟨u, hu⟩
  rcases frame_of_fits hvalue (u ++ [callerTag caller.kind]) with ⟨v, hv⟩
  rcases frame_of_fits hkey v with ⟨w, hw⟩
  exact ⟨w, by simp [scopeInput, hu, hv, hw]⟩

theorem request_input_of_fits {method : String} {uri : Uri} {types : List Bytes} {body : Bytes}
    (h : RequestFits method uri types body) : ∃ u, requestInput method uri types body = some u := by
  rcases h with ⟨hmethod, hpath, hquery, hcount, htypes, hbody⟩
  have hlen : u64TryFrom types.length = some types.length := if_pos hcount
  rcases frame_of_fits hmethod (requestDomain ++ [0]) with ⟨u, hu⟩
  rcases frame_of_fits hpath u with ⟨v, hv⟩
  have hframed : ∃ w, frameQuery v uri.query = some w := by
    cases hq : uri.query with
    | none => exact ⟨_, rfl⟩
    | some query => exact frame_of_fits (hquery query hq) _
  rcases hframed with ⟨w, hw⟩
  rcases frames_of_fits htypes (w ++ toBeBytes 8 types.length) with ⟨x, hx⟩
  rcases frame_of_fits hbody x with ⟨y, hy⟩
  exact ⟨y, by simp [requestInput, hu, hv, hw, hlen, hx, hy]⟩

/-- No digest separates all byte strings, so collision freedom is a statement about the
strings that are hashed. -/
def CollisionFree (sha256 : Bytes → Digest) (hashed : Set Bytes) : Prop := Set.InjOn sha256 hashed

theorem same_scope_key {sha256 : Bytes → Digest} {hashed : Set Bytes}
    (hfree : CollisionFree sha256 hashed) {caller caller' : CallerIdentity} {key key' : Bytes}
    (hmem : ∀ u, scopeInput caller key = some u → u ∈ hashed)
    (hmem' : ∀ u, scopeInput caller' key' = some u → u ∈ hashed) {scope : ScopeKey}
    (h : scopeKey sha256 caller key = some scope)
    (h' : scopeKey sha256 caller' key' = some scope) : caller = caller' ∧ key = key' := by
  rcases Option.map_eq_some_iff.mp h with ⟨u, hu, rfl⟩
  rcases Option.map_eq_some_iff.mp h' with ⟨v, hv, heq⟩
  have hvu : v = u := hfree (hmem' v hv) (hmem u hu) (ScopeKey.mk.inj heq)
  exact scope_input_injective hu (hvu ▸ hv)

theorem same_request_digest {sha256 : Bytes → Digest} {hashed : Set Bytes}
    (hfree : CollisionFree sha256 hashed) {method method' : String} {uri uri' : Uri}
    {types types' : List Bytes} {body body' : Bytes}
    (hmem : ∀ u, requestInput method uri types body = some u → u ∈ hashed)
    (hmem' : ∀ u, requestInput method' uri' types' body' = some u → u ∈ hashed)
    {digest : Digest} (h : requestDigest sha256 method uri types body = some digest)
    (h' : requestDigest sha256 method' uri' types' body' = some digest) :
    method = method' ∧ uri = uri' ∧ types = types' ∧ body = body' := by
  rcases Option.map_eq_some_iff.mp h with ⟨u, hu, rfl⟩
  rcases Option.map_eq_some_iff.mp h' with ⟨v, hv, heq⟩
  have hvu : v = u := hfree (hmem' v hv) (hmem u hu) heq
  exact request_input_injective hu (hvu ▸ hv)

/-- Every input that fits is hashed under its own byte string, and equal digests of such
strings come from equal callers and keys, or from equal requests. -/
theorem identity_framing_injective :
    (∀ caller key, ScopeFits caller key → ∃ u, scopeInput caller key = some u ∧
      ∀ caller' key', scopeInput caller' key' = some u → caller = caller' ∧ key = key') ∧
    (∀ method uri types body, RequestFits method uri types body →
      ∃ u, requestInput method uri types body = some u ∧
        ∀ method' uri' types' body', requestInput method' uri' types' body' = some u →
          method = method' ∧ uri = uri' ∧ types = types' ∧ body = body') ∧
    (∀ caller key method uri types body u, scopeInput caller key = some u →
      requestInput method uri types body ≠ some u) ∧
    ∀ sha256 hashed, CollisionFree sha256 hashed →
      (∀ caller caller' key key' scope,
        (∀ u, scopeInput caller key = some u → u ∈ hashed) →
        (∀ u, scopeInput caller' key' = some u → u ∈ hashed) →
        scopeKey sha256 caller key = some scope → scopeKey sha256 caller' key' = some scope →
        caller = caller' ∧ key = key') ∧
      ∀ method method' uri uri' types types' body body' digest,
        (∀ u, requestInput method uri types body = some u → u ∈ hashed) →
        (∀ u, requestInput method' uri' types' body' = some u → u ∈ hashed) →
        requestDigest sha256 method uri types body = some digest →
        requestDigest sha256 method' uri' types' body' = some digest →
        method = method' ∧ uri = uri' ∧ types = types' ∧ body = body' := by
  refine ⟨?_, ?_, ?_, ?_⟩
  · intro caller key hfits
    rcases scope_input_of_fits hfits with ⟨u, hu⟩
    exact ⟨u, hu, fun caller' key' hu' => scope_input_injective hu hu'⟩
  · intro method uri types body hfits
    rcases request_input_of_fits hfits with ⟨u, hu⟩
    exact ⟨u, hu, fun _ _ _ _ hu' => request_input_injective hu hu'⟩
  · intro caller key method uri types body u hu
    exact scope_input_ne_request_input hu
  · intro sha256 hashed hfree
    refine ⟨?_, ?_⟩
    · intro caller caller' key key' scope hmem hmem' h h'
      exact same_scope_key hfree hmem hmem' h h'
    · intro method method' uri uri' types types' body body' digest hmem hmem' h h'
      exact same_request_digest hfree hmem hmem' h h'

def fixtureCaller : CallerIdentity := ⟨"https://issuer.example", .subject, "fixture-subject"⟩

def fixtureScope : Option Bytes := scopeInput fixtureCaller (asBytes "k-123")

def fixtureRequest : Option Bytes :=
  requestInput "POST" ⟨"/widgets/%2F", some "a=1&b=2"⟩ [asBytes "application/json"]
    (asBytes "\x7b\"n\":1\x7d")

/-- The digests the source pins for the two fixtures. -/
def fixtureSha256 (bytes : Bytes) : Digest :=
  if some bytes = fixtureScope then
    #v[0x98, 0xdf, 0x40, 0x43, 0xb9, 0xe7, 0x95, 0x01, 0x1f, 0xe4, 0xf8, 0x4c, 0x38, 0x44, 0xbc, 0xfe,
      0x9a, 0xde, 0x67, 0x03, 0x2c, 0xc0, 0x04, 0x44, 0x71, 0xd5, 0x09, 0x7f, 0x7a, 0x30, 0xad, 0x94]
  else
    #v[0x2e, 0x4f, 0xb5, 0x7a, 0x46, 0x09, 0x5c, 0x45, 0xe8, 0x86, 0xd2, 0x90, 0x70, 0x7b, 0xf6, 0x45,
      0x41, 0x23, 0x66, 0x96, 0x6b, 0xf1, 0x00, 0x09, 0x31, 0x40, 0x01, 0xfd, 0x08, 0x7e, 0xb3, 0x0b]

theorem fixture_collision_free :
    CollisionFree fixtureSha256 {u | some u = fixtureScope ∨ some u = fixtureRequest} := by
  intro u hu v hv heq
  by_cases hsu : some u = fixtureScope <;> by_cases hsv : some v = fixtureScope
  · exact Option.some.inj (hsu.trans hsv.symm)
  · simp only [fixtureSha256, hsu, hsv, if_true, if_false] at heq
    exact absurd heq (by decide)
  · simp only [fixtureSha256, hsu, hsv, if_true, if_false] at heq
    exact absurd heq (by decide)
  · exact Option.some.inj ((hu.resolve_left hsu).trans (hv.resolve_left hsv).symm)

/-- A subject and a client of the same name, an absent and an empty query, and the pinned
scope digest. -/
theorem identity_framing_fixtures :
    (∃ u, scopeInput ⟨"issuer", .subject, "id"⟩ [107] = some u ∧
      scopeInput ⟨"issuer", .client, "id"⟩ [107] ≠ some u) ∧
    (∃ u, requestInput "POST" ⟨"/widgets", none⟩ [] [] = some u ∧
      requestInput "POST" ⟨"/widgets", some ""⟩ [] [] ≠ some u) ∧
    ∀ caller key, scopeInput caller key = fixtureScope ∨ scopeInput caller key = fixtureRequest →
      scopeKey fixtureSha256 caller key = scopeKey fixtureSha256 fixtureCaller (asBytes "k-123") →
      caller = fixtureCaller ∧ key = asBytes "k-123" := by
  refine ⟨?_, ?_, ?_⟩
  · rcases identity_framing_injective.1 ⟨"issuer", .subject, "id"⟩ [107]
      (by simp only [ScopeFits]; decide) with ⟨u, hu, hsame⟩
    exact ⟨u, hu, fun h => absurd (hsame _ _ h).1 (by decide)⟩
  · rcases identity_framing_injective.2.1 "POST" ⟨"/widgets", none⟩ [] []
      (by simp [RequestFits]; decide) with ⟨u, hu, hsame⟩
    exact ⟨u, hu, fun h => absurd (hsame _ _ _ _ h).2.1 (by decide)⟩
  · intro caller key hin hkey
    have hsome : (scopeKey fixtureSha256 fixtureCaller (asBytes "k-123")).isSome := by
      decide
    rcases Option.isSome_iff_exists.mp hsome with ⟨scope, hscope⟩
    exact (identity_framing_injective.2.2.2 fixtureSha256 _ fixture_collision_free).1 caller
      fixtureCaller key (asBytes "k-123") scope
      (fun u hu => hin.imp (fun h => hu.symm.trans h) (fun h => hu.symm.trans h))
      (fun u hu => .inl hu.symm) (hkey.trans hscope) hscope

end IdempotencyIdentity
