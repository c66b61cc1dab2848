import Mathlib.Data.Nat.Log
import ServiceTemplate.Base64

/-! Admission of a JWK set: each usable entry is bound to the algorithms it may verify before any
token is seen, and an unusable one is skipped. -/
namespace JwkAdmission

open ByteFraming

inductive JwtAlgorithm where
  | rs256
  | es256
  | ps256
  | edDsa
  deriving DecidableEq, Repr

inductive Algorithm where
  | hs256
  | hs384
  | hs512
  | es256
  | es384
  | rs256
  | rs384
  | rs512
  | ps256
  | ps384
  | ps512
  | edDsa
  deriving DecidableEq, Repr

inductive KeyAlgorithm where
  | signing (algorithm : Algorithm)
  | rsa15
  | rsaOaep
  | rsaOaep256
  | unknown
  deriving DecidableEq, Repr

inductive PublicKeyUse where
  | signature
  | encryption
  | other (text : String)
  deriving DecidableEq, Repr

inductive KeyOperations where
  | sign
  | verify
  | encrypt
  | decrypt
  | wrapKey
  | unwrapKey
  | deriveKey
  | deriveBits
  | other (text : String)
  deriving DecidableEq, Repr

inductive EllipticCurve where
  | p256
  | p384
  | p521
  | ed25519
  deriving DecidableEq, Repr

inductive AlgorithmParameters where
  | ellipticCurve (curve : EllipticCurve) (x y : String)
  | rsa (n e : String)
  | octetKey (value : String)
  | octetKeyPair (curve : EllipticCurve) (x : String)
  deriving DecidableEq, Repr

structure Jwk where
  publicKeyUse : Option PublicKeyUse
  keyOperations : Option (List KeyOperations)
  keyAlgorithm : Option KeyAlgorithm
  keyId : Option String
  algorithm : AlgorithmParameters
  deriving DecidableEq, Repr

inductive KeyRejection where
  | malformedEntry
  | incompatibleUsage
  | unsupportedFamily
  | algorithmBinding
  | invalidMaterial
  deriving DecidableEq, Repr

inductive KeyFamily where
  | rsa
  | p256
  | ed25519
  deriving DecidableEq, Repr

inductive KeyMaterial where
  | rsa (modulus exponent : Bytes)
  | raw (bytes : Bytes)
  deriving DecidableEq, Repr

/-- The cryptographic library: its parsed keys verify under the algorithm they were parsed for. -/
structure AwsLc (K : Type) where
  rsa : JwtAlgorithm → Bytes → Bytes → Option K
  raw : JwtAlgorithm → Bytes → Option K
  verifySig : K → Bytes → Bytes → Bool

def signatureUsage (jwk : Jwk) : Bool :=
  (match jwk.publicKeyUse with
    | none | some .signature => true
    | _ => false) &&
  match jwk.keyOperations with
    | none => true
    | some operations =>
      !operations.isEmpty && operations.all fun operation => operation = .verify

def KeyFamily.fromJwk (jwk : Jwk) : Option KeyFamily :=
  match jwk.algorithm with
  | .rsa _ _ => some .rsa
  | .ellipticCurve curve _ _ => if curve = .p256 then some .p256 else none
  | .octetKeyPair curve _ => if curve = .ed25519 then some .ed25519 else none
  | .octetKey _ => none

def JwtAlgorithm.fromJsonwebtoken : Algorithm → Option JwtAlgorithm
  | .rs256 => some .rs256
  | .ps256 => some .ps256
  | .es256 => some .es256
  | .edDsa => some .edDsa
  | _ => none

def JwtAlgorithm.fromKeyAlgorithm : KeyAlgorithm → Option JwtAlgorithm
  | .signing algorithm => fromJsonwebtoken algorithm
  | _ => none

def JwtAlgorithm.matchesFamily : JwtAlgorithm → KeyFamily → Bool
  | .rs256, .rsa | .ps256, .rsa => true
  | .es256, .p256 => true
  | .edDsa, .ed25519 => true
  | _, _ => false

def urlSafeDecode (text : Bytes) : Option Bytes :=
  let chars := text.map fun byte => Char.ofNat byte.toNat
  if chars.all fun c => decide (c ∈ Base64.alphabet.map Base64.urlChar) then Base64.decodeUrl chars
  else none

def withoutLeadingZeros (bytes : Bytes) : Option Bytes :=
  match bytes.dropWhile fun byte => byte = 0 with
  | [] => none
  | rest => some rest

def leadingZeros (byte : UInt8) : ℕ := if byte = 0 then 8 else 7 - Nat.log2 byte.toNat

/-- Of bytes without leading zeros. -/
def bitLength (bytes : Bytes) : ℕ := bytes.length * 8 - leadingZeros (bytes.headD 0)

def keyMaterial : AlgorithmParameters → Option KeyMaterial
  | .rsa n e =>
    match (urlSafeDecode (asBytes n)).bind withoutLeadingZeros with
    | none => none
    | some modulus =>
      match (urlSafeDecode (asBytes e)).bind withoutLeadingZeros with
      | none => none
      | some exponent =>
        let bits := bitLength modulus
        if 2048 ≤ bits ∧ bits ≤ 8192 then some (.rsa modulus exponent) else none
  | .ellipticCurve _ x y =>
    match urlSafeDecode (asBytes x), urlSafeDecode (asBytes y) with
    | some x, some y =>
      if x.length ≠ 32 ∨ y.length ≠ 32 then none else some (.raw (4 :: x ++ y))
    | _, _ => none
  | .octetKeyPair _ x => (urlSafeDecode (asBytes x)).map .raw
  | .octetKey _ => none

section

variable {K V : Type} (lib : AwsLc K)

def KeyMaterial.parse (material : KeyMaterial) (algorithm : JwtAlgorithm) : Option K :=
  match material, algorithm with
  | .rsa modulus exponent, .rs256 => lib.rsa .rs256 modulus exponent
  | .rsa modulus exponent, .ps256 => lib.rsa .ps256 modulus exponent
  | .rsa _ _, _ => none
  | .raw bytes, .es256 => lib.raw .es256 bytes
  | .raw bytes, .edDsa => lib.raw .edDsa bytes
  | .raw _, _ => none

structure JwtKey (K : Type) where
  kid : Option String
  verifiers : List (JwtAlgorithm × K)
  deriving DecidableEq

def JwtKey.verifier (key : JwtKey K) (algorithm : JwtAlgorithm) : Option K :=
  key.verifiers.findSome? fun bound => if bound.1 = algorithm then some bound.2 else none

def boundAlgorithms (jwk : Jwk) (family : KeyFamily) (configured : List JwtAlgorithm) :
    List JwtAlgorithm :=
  match jwk.keyAlgorithm with
  | some explicit =>
    ((JwtAlgorithm.fromKeyAlgorithm explicit).filter fun algorithm =>
      decide (algorithm ∈ configured) && algorithm.matchesFamily family).toList
  | none => configured.filter fun algorithm => algorithm.matchesFamily family

def admitKey (jwk : Jwk) (configured : List JwtAlgorithm) : Except KeyRejection (JwtKey K) :=
  if !signatureUsage jwk then .error .incompatibleUsage
  else
    match KeyFamily.fromJwk jwk with
    | none => .error .unsupportedFamily
    | some family =>
      let algorithms := boundAlgorithms jwk family configured
      if algorithms = [] then .error .algorithmBinding
      else
        match keyMaterial jwk.algorithm with
        | none => .error .invalidMaterial
        | some material =>
          match algorithms.mapM fun algorithm =>
              (material.parse lib algorithm).map fun key => (algorithm, key) with
          | none => .error .invalidMaterial
          | some verifiers => .ok ⟨jwk.keyId, verifiers⟩

inductive KeySetError where
  | parse
  | noUsableKeys
  deriving DecidableEq, Repr

structure Decoder (V : Type) where
  keys : Bytes → Option (List V)
  jwk : V → Option Jwk

def admitEntry (decoder : Decoder V) (configured : List JwtAlgorithm) (value : V) :
    Except KeyRejection (JwtKey K) :=
  match decoder.jwk value with
  | none => .error .malformedEntry
  | some jwk => admitKey lib jwk configured

abbrev KeySet (K : Type) := List (JwtKey K)

def parseKeySet (decoder : Decoder V) (bytes : Bytes) (configured : List JwtAlgorithm) :
    Except KeySetError (KeySet K) :=
  match decoder.keys bytes with
  | none => .error .parse
  | some values =>
    match values.filterMap fun value => (admitEntry lib decoder configured value).toOption with
    | [] => .error .noUsableKeys
    | keys => .ok keys

end

def bigEndian (bytes : Bytes) : ℕ := bytes.foldl (fun value byte => value * 256 + byte.toNat) 0

theorem big_endian_from (bytes : Bytes) (start : ℕ) :
    bytes.foldl (fun value byte => value * 256 + byte.toNat) start =
      start * 256 ^ bytes.length + bigEndian bytes := by
  unfold bigEndian
  induction bytes generalizing start with
  | nil => simp
  | cons byte rest ih =>
    rw [List.foldl_cons, List.foldl_cons, ih, ih (0 * 256 + byte.toNat), List.length_cons,
      Nat.pow_succ']
    ring

theorem big_endian_cons (byte : UInt8) (rest : Bytes) :
    bigEndian (byte :: rest) = byte.toNat * 256 ^ rest.length + bigEndian rest := by
  rw [bigEndian, List.foldl_cons, big_endian_from, Nat.zero_mul, Nat.zero_add]

theorem big_endian_lt (bytes : Bytes) : bigEndian bytes < 256 ^ bytes.length := by
  induction bytes with
  | nil => decide
  | cons byte rest ih =>
    rw [big_endian_cons, List.length_cons, Nat.pow_succ']
    have hbyte : byte.toNat + 1 ≤ 256 := byte.toNat_lt
    calc byte.toNat * 256 ^ rest.length + bigEndian rest
        < byte.toNat * 256 ^ rest.length + 256 ^ rest.length := Nat.add_lt_add_left ih _
      _ = (byte.toNat + 1) * 256 ^ rest.length := by ring
      _ ≤ 256 * 256 ^ rest.length := Nat.mul_le_mul_right _ hbyte

def minimal (bytes : Bytes) : Bytes := bytes.dropWhile fun byte => byte = 0

theorem big_endian_minimal (bytes : Bytes) : bigEndian (minimal bytes) = bigEndian bytes := by
  unfold minimal
  induction bytes with
  | nil => rfl
  | cons byte rest ih =>
    by_cases hzero : byte = 0
    · rw [List.dropWhile_cons_of_pos (by simpa using hzero), ih, big_endian_cons, hzero]
      simp
    · rw [List.dropWhile_cons_of_neg (by simpa using hzero)]

theorem bit_length_eq {byte : UInt8} {rest : Bytes} (h : byte ≠ 0) :
    bitLength (byte :: rest) = Nat.log 2 (bigEndian (byte :: rest)) + 1 := by
  have hbyte : byte.toNat ≠ 0 := fun hzero => h (UInt8.toNat_inj.mp hzero)
  have hlog : Nat.log 2 (bigEndian (byte :: rest)) = Nat.log 2 byte.toNat + 8 * rest.length := by
    rw [big_endian_cons]
    have hrest := big_endian_lt rest
    have hpow : (256 : ℕ) ^ rest.length = 2 ^ (8 * rest.length) := by
      rw [Nat.pow_mul]
    rw [hpow] at hrest ⊢
    refine Nat.log_eq_of_pow_le_of_lt_pow ?_ ?_
    · rw [Nat.pow_add]
      have hlow := Nat.pow_log_le_self 2 hbyte
      have hmul := Nat.mul_le_mul_right (2 ^ (8 * rest.length)) hlow
      omega
    · have hhigh : byte.toNat + 1 ≤ 2 ^ (Nat.log 2 byte.toNat + 1) :=
        Nat.lt_pow_succ_log_self (by decide) _
      have hmul := Nat.mul_le_mul_right (2 ^ (8 * rest.length)) hhigh
      rw [Nat.add_mul, Nat.one_mul, ← Nat.pow_add] at hmul
      have hexp : Nat.log 2 byte.toNat + 8 * rest.length + 1 =
          Nat.log 2 byte.toNat + 1 + 8 * rest.length := by omega
      rw [hexp]
      omega
  have hsmall : Nat.log 2 byte.toNat < 8 :=
    Nat.log_lt_of_lt_pow hbyte (Nat.lt_of_lt_of_le byte.toNat_lt (by decide))
  rw [hlog, bitLength, List.headD_cons, leadingZeros, if_neg h, List.length_cons,
    Nat.log2_eq_log_two]
  omega

theorem minimal_head {byte : UInt8} {bytes rest : Bytes} (h : minimal bytes = byte :: rest) :
    byte ≠ 0 := by
  unfold minimal at h
  induction bytes with
  | nil => cases h
  | cons first tail ih =>
    by_cases hzero : first = 0
    · rw [List.dropWhile_cons_of_pos (by simpa using hzero)] at h
      exact ih h
    · rw [List.dropWhile_cons_of_neg (by simpa using hzero)] at h
      exact (List.cons.inj h).1 ▸ hzero

theorem without_zeros_some {bytes rest : Bytes} :
    withoutLeadingZeros bytes = some rest ↔ rest = minimal bytes ∧ bigEndian bytes ≠ 0 := by
  cases hbytes : minimal bytes with
  | nil =>
    have hnone : withoutLeadingZeros bytes = none := by
      rw [minimal] at hbytes
      simp only [withoutLeadingZeros, hbytes]
    have hzero : bigEndian bytes = 0 := by rw [← big_endian_minimal, hbytes]; rfl
    simp [hnone, hzero]
  | cons byte tail =>
    have hsome : withoutLeadingZeros bytes = some (byte :: tail) := by
      rw [minimal] at hbytes
      simp only [withoutLeadingZeros, hbytes]
    have hbyte : 0 < byte.toNat :=
      Nat.pos_of_ne_zero fun hzero => minimal_head hbytes (UInt8.toNat_inj.mp hzero)
    have hpos : bigEndian bytes ≠ 0 := by
      rw [← big_endian_minimal, hbytes, big_endian_cons]
      have hmul := Nat.mul_pos hbyte (Nat.pow_pos (n := tail.length) (show 0 < 256 by decide))
      omega
    simp [hsome, hpos, eq_comm]

theorem bit_length_range {bytes : Bytes} (h : bigEndian bytes ≠ 0) (low high : ℕ) :
    low + 1 ≤ bitLength (minimal bytes) ∧ bitLength (minimal bytes) ≤ high ↔
      2 ^ low ≤ bigEndian bytes ∧ bigEndian bytes < 2 ^ high := by
  cases hbytes : minimal bytes with
  | nil =>
    rw [← big_endian_minimal, hbytes] at h
    exact absurd rfl h
  | cons byte rest =>
    rw [bit_length_eq (minimal_head hbytes), ← hbytes, big_endian_minimal,
      Nat.succ_le_succ_iff, Nat.succ_le_iff, Nat.le_log_iff_pow_le (by decide) h,
      Nat.log_lt_iff_lt_pow (by decide) h]

section

variable {K V : Type} (lib : AwsLc K)

/-- What the library says of itself: the padding of an RSA signature does not matter to its key,
and no signature is longer than the modulus or, for the other families, than 64 bytes. -/
structure AwsLc.Documented : Prop where
  rsa_padding : ∀ modulus exponent,
    (lib.rsa .rs256 modulus exponent).isSome = (lib.rsa .ps256 modulus exponent).isSome
  rsa_size : ∀ algorithm modulus exponent key, lib.rsa algorithm modulus exponent = some key →
    ∀ message signature, lib.verifySig key message signature = true →
      signature.length = modulus.length
  raw_size : ∀ algorithm bytes key, lib.raw algorithm bytes = some key →
    ∀ message signature, lib.verifySig key message signature = true → signature.length = 64

/-- The key of an entry's parameters under an algorithm of their family. -/
inductive Material : AlgorithmParameters → JwtAlgorithm → K → Prop
  | rsa {n e : String} {modulus exponent : Bytes} {algorithm : JwtAlgorithm} {key : K}
      (halgorithm : algorithm = .rs256 ∨ algorithm = .ps256)
      (hn : urlSafeDecode (asBytes n) = some modulus)
      (hlow : 2 ^ 2047 ≤ bigEndian modulus) (hhigh : bigEndian modulus < 2 ^ 8192)
      (he : urlSafeDecode (asBytes e) = some exponent) (hexponent : bigEndian exponent ≠ 0)
      (hkey : lib.rsa algorithm (minimal modulus) (minimal exponent) = some key) :
      Material (.rsa n e) algorithm key
  | p256 {x y : String} {xs ys : Bytes} {key : K}
      (hx : urlSafeDecode (asBytes x) = some xs) (hxs : xs.length = 32)
      (hy : urlSafeDecode (asBytes y) = some ys) (hys : ys.length = 32)
      (hkey : lib.raw .es256 (4 :: xs ++ ys) = some key) :
      Material (.ellipticCurve .p256 x y) .es256 key
  | ed25519 {x : String} {bytes : Bytes} {key : K}
      (hx : urlSafeDecode (asBytes x) = some bytes) (hkey : lib.raw .edDsa bytes = some key) :
      Material (.octetKeyPair .ed25519 x) .edDsa key

def JwtAlgorithm.name : JwtAlgorithm → Algorithm
  | .rs256 => .rs256
  | .es256 => .es256
  | .ps256 => .ps256
  | .edDsa => .edDsa

/-- The entry is usable for the algorithm, and this is its key. -/
structure Serves (jwk : Jwk) (algorithm : JwtAlgorithm) (key : K) : Prop where
  publicKeyUse : jwk.publicKeyUse = none ∨ jwk.publicKeyUse = some .signature
  keyOperations : ∀ operations, jwk.keyOperations = some operations →
    operations ≠ [] ∧ ∀ operation ∈ operations, operation = .verify
  keyAlgorithm : jwk.keyAlgorithm = none ∨ jwk.keyAlgorithm = some (.signing algorithm.name)
  material : Material lib jwk.algorithm algorithm key

variable {lib}

theorem signature_usage_iff {jwk : Jwk} : signatureUsage jwk = true ↔
    (jwk.publicKeyUse = none ∨ jwk.publicKeyUse = some .signature) ∧
      ∀ operations, jwk.keyOperations = some operations →
        operations ≠ [] ∧ ∀ operation ∈ operations, operation = .verify := by
  unfold signatureUsage
  rw [Bool.and_eq_true]
  refine and_congr ?_ ?_
  · cases jwk.publicKeyUse with
    | none => simp
    | some use => cases use <;> simp
  · cases jwk.keyOperations with
    | none => simp
    | some operations => simp

theorem from_key_algorithm_iff {explicit : KeyAlgorithm} {algorithm : JwtAlgorithm} :
    JwtAlgorithm.fromKeyAlgorithm explicit = some algorithm ↔
      explicit = .signing algorithm.name := by
  constructor
  · intro h
    cases explicit with
    | signing named =>
      cases named <;> cases h <;> rfl
    | rsa15 | rsaOaep | rsaOaep256 | unknown => cases h
  · rintro rfl
    cases algorithm <;> rfl

theorem mem_bound_algorithms {jwk : Jwk} {family : KeyFamily} {configured : List JwtAlgorithm}
    {algorithm : JwtAlgorithm} : algorithm ∈ boundAlgorithms jwk family configured ↔
      algorithm ∈ configured ∧ algorithm.matchesFamily family = true ∧
        (jwk.keyAlgorithm = none ∨ jwk.keyAlgorithm = some (.signing algorithm.name)) := by
  unfold boundAlgorithms
  cases jwk.keyAlgorithm with
  | none => simp
  | some explicit =>
    rw [Option.mem_toList, Option.filter_eq_some_iff, from_key_algorithm_iff]
    simp only [Bool.and_eq_true, decide_eq_true_eq, reduceCtorEq, false_or, Option.some.injEq]
    tauto

theorem key_material_rsa {n e : String} {material : KeyMaterial} :
    keyMaterial (.rsa n e) = some material ↔ ∃ modulus exponent,
      urlSafeDecode (asBytes n) = some modulus ∧
      (2 ^ 2047 ≤ bigEndian modulus ∧ bigEndian modulus < 2 ^ 8192) ∧
      urlSafeDecode (asBytes e) = some exponent ∧ bigEndian exponent ≠ 0 ∧
      material = .rsa (minimal modulus) (minimal exponent) := by
  constructor
  · intro h
    dsimp only [keyMaterial] at h
    split at h
    · cases h
    · next modulus hmodulus =>
      obtain ⟨n, hn, hstripped⟩ := Option.bind_eq_some_iff.mp hmodulus
      obtain ⟨rfl, hnonzero⟩ := without_zeros_some.mp hstripped
      split at h
      · cases h
      · next exponent hexponent =>
        obtain ⟨e, he, hshort⟩ := Option.bind_eq_some_iff.mp hexponent
        obtain ⟨rfl, hpositive⟩ := without_zeros_some.mp hshort
        split at h
        · next hbits =>
          exact ⟨n, e, hn, (bit_length_range hnonzero 2047 8192).mp hbits, he, hpositive,
            (Option.some.inj h).symm⟩
        · cases h
  · rintro ⟨modulus, exponent, hn, hrange, he, hpositive, rfl⟩
    have hnonzero : bigEndian modulus ≠ 0 :=
      Nat.pos_iff_ne_zero.mp (Nat.lt_of_lt_of_le (Nat.pow_pos (by decide)) hrange.1)
    dsimp only [keyMaterial]
    rw [hn, Option.bind_some, without_zeros_some.mpr ⟨rfl, hnonzero⟩]
    dsimp only
    rw [he, Option.bind_some, without_zeros_some.mpr ⟨rfl, hpositive⟩]
    exact if_pos ((bit_length_range hnonzero 2047 8192).mpr hrange)

theorem key_material_curve {curve : EllipticCurve} {x y : String} {material : KeyMaterial} :
    keyMaterial (.ellipticCurve curve x y) = some material ↔ ∃ xs ys,
      urlSafeDecode (asBytes x) = some xs ∧ xs.length = 32 ∧
      urlSafeDecode (asBytes y) = some ys ∧ ys.length = 32 ∧
      material = .raw (4 :: xs ++ ys) := by
  dsimp only [keyMaterial]
  cases urlSafeDecode (asBytes x) with
  | none => simp
  | some xs =>
    cases urlSafeDecode (asBytes y) with
    | none => simp
    | some ys =>
      by_cases hlength : xs.length ≠ 32 ∨ ys.length ≠ 32
      · simp only [hlength, if_true, reduceCtorEq, Option.some.injEq, false_iff]
        rintro ⟨_, _, rfl, hxs, rfl, hys, -⟩
        rcases hlength with hne | hne
        · exact hne hxs
        · exact hne hys
      · simp only [hlength, if_false, Option.some.injEq]
        rw [not_or, not_not, not_not] at hlength
        constructor
        · intro h
          exact ⟨xs, ys, rfl, hlength.1, rfl, hlength.2, h.symm⟩
        · rintro ⟨_, _, rfl, -, rfl, -, rfl⟩
          rfl

/-- An entry of a supported family gives its key under the algorithms of that family alone. -/
theorem material_iff {parameters : AlgorithmParameters} {algorithm : JwtAlgorithm} {key : K} :
    Material lib parameters algorithm key ↔ ∃ family material,
      (∀ jwk : Jwk, jwk.algorithm = parameters → KeyFamily.fromJwk jwk = some family) ∧
      algorithm.matchesFamily family = true ∧ keyMaterial parameters = some material ∧
      material.parse lib algorithm = some key := by
  constructor
  · intro h
    cases h with
    | @rsa n e modulus exponent _ _ halgorithm hn hlow hhigh he hexponent hkey =>
      refine ⟨.rsa, .rsa (minimal modulus) (minimal exponent), fun jwk hjwk => ?_, ?_, ?_, ?_⟩
      · rw [KeyFamily.fromJwk, hjwk]
      · rcases halgorithm with rfl | rfl <;> rfl
      · exact key_material_rsa.mpr ⟨modulus, exponent, hn, ⟨hlow, hhigh⟩, he, hexponent, rfl⟩
      · rcases halgorithm with rfl | rfl <;> exact hkey
    | @p256 x y xs ys _ hx hxs hy hys hkey =>
      refine ⟨.p256, .raw (4 :: xs ++ ys), fun jwk hjwk => ?_, rfl, ?_, hkey⟩
      · rw [KeyFamily.fromJwk, hjwk]
        rfl
      · exact key_material_curve.mpr ⟨xs, ys, hx, hxs, hy, hys, rfl⟩
    | @ed25519 x bytes _ hx hkey =>
      refine ⟨.ed25519, .raw bytes, fun jwk hjwk => ?_, rfl, ?_, hkey⟩
      · rw [KeyFamily.fromJwk, hjwk]
        rfl
      · rw [keyMaterial, hx, Option.map_some]
  · rintro ⟨family, material, hfamily, hmatches, hmaterial, hkey⟩
    have hfamily := hfamily ⟨none, none, none, none, parameters⟩ rfl
    unfold KeyFamily.fromJwk at hfamily
    dsimp only at hfamily
    cases parameters with
    | rsa n e =>
      cases hfamily
      obtain ⟨modulus, exponent, hn, hrange, he, hexponent, rfl⟩ := key_material_rsa.mp hmaterial
      cases algorithm with
      | rs256 => exact .rsa (.inl rfl) hn hrange.1 hrange.2 he hexponent hkey
      | ps256 => exact .rsa (.inr rfl) hn hrange.1 hrange.2 he hexponent hkey
      | es256 | edDsa => cases hmatches
    | ellipticCurve curve x y =>
      cases curve with
      | p256 =>
        cases hfamily
        obtain ⟨xs, ys, hx, hxs, hy, hys, rfl⟩ := key_material_curve.mp hmaterial
        cases algorithm with
        | es256 => exact .p256 hx hxs hy hys hkey
        | rs256 | ps256 | edDsa => cases hmatches
      | p384 | p521 | ed25519 => cases hfamily
    | octetKeyPair curve x =>
      cases curve with
      | ed25519 =>
        cases hfamily
        obtain ⟨bytes, hx, rfl⟩ := Option.map_eq_some_iff.mp hmaterial
        cases algorithm with
        | edDsa => exact .ed25519 hx hkey
        | rs256 | ps256 | es256 => cases hmatches
      | p256 | p384 | p521 => cases hfamily
    | octetKey value => cases hfamily

/-- Each algorithm is bound to the key parsed for it. -/
theorem bound_verifier {parse : JwtAlgorithm → Option K} {algorithms : List JwtAlgorithm}
    {bound : List (JwtAlgorithm × K)}
    (h : algorithms.mapM (fun algorithm => (parse algorithm).map fun key => (algorithm, key)) =
      some bound) (algorithm : JwtAlgorithm) :
    bound.findSome? (fun entry => if entry.1 = algorithm then some entry.2 else none) =
      if algorithm ∈ algorithms then parse algorithm else none := by
  induction algorithms generalizing bound with
  | nil =>
    cases h
    rfl
  | cons first rest ih =>
    rw [List.mapM_cons] at h
    obtain ⟨entry, hentry, h⟩ := Option.bind_eq_some_iff.mp h
    obtain ⟨entries, hrest, h⟩ := Option.bind_eq_some_iff.mp h
    obtain ⟨key, hkey, rfl⟩ := Option.map_eq_some_iff.mp hentry
    cases h
    by_cases hsame : first = algorithm
    · rw [List.findSome?_cons_of_isSome (by simp [hsame]), if_pos hsame,
        if_pos (hsame ▸ List.mem_cons_self), ← hsame, hkey]
    · rw [List.findSome?_cons_of_isNone (by simp [hsame]), ih hrest]
      simp [Ne.symm hsame]

theorem bound_exists (parse : JwtAlgorithm → Option K) {algorithms : List JwtAlgorithm}
    (h : ∀ algorithm ∈ algorithms, (parse algorithm).isSome = true) :
    ∃ bound, algorithms.mapM
      (fun algorithm => (parse algorithm).map fun key => (algorithm, key)) = some bound := by
  induction algorithms with
  | nil => exact ⟨[], rfl⟩
  | cons first rest ih =>
    obtain ⟨key, hkey⟩ := Option.isSome_iff_exists.mp (h first List.mem_cons_self)
    obtain ⟨bound, hbound⟩ := ih fun algorithm hmem => h algorithm (List.mem_cons_of_mem _ hmem)
    refine ⟨(first, key) :: bound, ?_⟩
    rw [List.mapM_cons, hkey, hbound]
    rfl

theorem parse_padding (hlib : lib.Documented) {a b : JwtAlgorithm} {family : KeyFamily}
    (ha : a.matchesFamily family = true) (hb : b.matchesFamily family = true)
    (material : KeyMaterial) :
    (material.parse lib a).isSome = (material.parse lib b).isSome := by
  have hpadding := hlib.rsa_padding
  cases family with
  | rsa =>
    cases a <;> cases ha <;> cases b <;> cases hb <;> cases material <;>
      first | rfl | exact hpadding _ _ | exact (hpadding _ _).symm
  | p256 =>
    cases a <;> cases ha
    cases b <;> cases hb
    rfl
  | ed25519 =>
    cases a <;> cases ha
    cases b <;> cases hb
    rfl

theorem admit_key_ok {jwk : Jwk} {configured : List JwtAlgorithm} {admitted : JwtKey K}
    (h : admitKey lib jwk configured = .ok admitted) :
    admitted.kid = jwk.keyId ∧ signatureUsage jwk = true ∧ ∃ family material,
      KeyFamily.fromJwk jwk = some family ∧ keyMaterial jwk.algorithm = some material ∧
      ∀ algorithm, admitted.verifier algorithm =
        if algorithm ∈ boundAlgorithms jwk family configured then material.parse lib algorithm
        else none := by
  unfold admitKey at h
  by_cases husage : signatureUsage jwk = true
  · rw [husage, Bool.not_true, if_neg Bool.false_ne_true] at h
    split at h
    · cases h
    · next family hfamily =>
      dsimp only at h
      split at h
      · cases h
      · split at h
        · cases h
        · next material hmaterial =>
          split at h
          · cases h
          · next verifiers hverifiers =>
            cases h
            exact ⟨rfl, husage, family, material, hfamily, hmaterial, bound_verifier hverifiers⟩
  · rw [Bool.not_eq_true] at husage
    rw [husage, Bool.not_false, if_pos rfl] at h
    cases h

/-- Under a configured algorithm an admitted entry has the key it serves with, and every entry that
serves is admitted. -/
theorem admit_key_iff (hlib : lib.Documented) {jwk : Jwk} {configured : List JwtAlgorithm}
    {algorithm : JwtAlgorithm} (hconfigured : algorithm ∈ configured) {key : K} :
    (∃ admitted, admitKey lib jwk configured = .ok admitted ∧
      admitted.verifier algorithm = some key) ↔ Serves lib jwk algorithm key := by
  constructor
  · rintro ⟨admitted, hadmitted, hkey⟩
    obtain ⟨-, husage, family, material, hfamily, hmaterial, hverifier⟩ := admit_key_ok hadmitted
    rw [hverifier] at hkey
    split at hkey
    · next hbound =>
      obtain ⟨-, hmatches, hdeclared⟩ := mem_bound_algorithms.mp hbound
      obtain ⟨huse, hoperations⟩ := signature_usage_iff.mp husage
      refine ⟨huse, hoperations, hdeclared, material_iff.mpr
        ⟨family, material, fun other hother => ?_, hmatches, hmaterial, hkey⟩⟩
      rw [KeyFamily.fromJwk, hother]
      exact hfamily
    · cases hkey
  · intro h
    obtain ⟨family, material, hfamily, hmatches, hmaterial, hkey⟩ := material_iff.mp h.material
    have husage := signature_usage_iff.mpr ⟨h.publicKeyUse, h.keyOperations⟩
    have hbound : algorithm ∈ boundAlgorithms jwk family configured :=
      mem_bound_algorithms.mpr ⟨hconfigured, hmatches, h.keyAlgorithm⟩
    have hparsed : (material.parse lib algorithm).isSome = true := by
      rw [hkey]
      rfl
    -- The entry is bound to all its algorithms or to none; they parse alike.
    obtain ⟨verifiers, hverifiers⟩ := bound_exists (material.parse lib)
      fun other hother => (parse_padding hlib (mem_bound_algorithms.mp hother).2.1 hmatches
        material).trans hparsed
    refine ⟨⟨jwk.keyId, verifiers⟩, ?_, ?_⟩
    · unfold admitKey
      rw [husage, Bool.not_true, if_neg Bool.false_ne_true, hfamily jwk rfl]
      dsimp only
      rw [if_neg (List.ne_nil_of_mem hbound), hmaterial]
      dsimp only
      rw [hverifiers]
    · rw [JwtKey.verifier, bound_verifier hverifiers, if_pos hbound, hkey]

theorem leading_zeros_lt {byte : UInt8} (h : byte ≠ 0) : leadingZeros byte < 8 := by
  rw [leadingZeros, if_neg h]
  omega

theorem Serves.signature_length (hlib : lib.Documented) {jwk : Jwk} {algorithm : JwtAlgorithm}
    {key : K} (h : Serves lib jwk algorithm key) {message signature : Bytes}
    (hverify : lib.verifySig key message signature = true) : signature.length ≤ 1024 := by
  have hmaterial := h.material
  generalize jwk.algorithm = parameters at hmaterial
  cases hmaterial with
  | @rsa n e modulus exponent _ _ halgorithm hn hlow hhigh he hexponent hkey =>
    rw [hlib.rsa_size _ _ _ _ hkey _ _ hverify]
    have hnonzero : bigEndian modulus ≠ 0 :=
      Nat.pos_iff_ne_zero.mp (Nat.lt_of_lt_of_le (Nat.pow_pos (by decide)) hlow)
    have hbits := ((bit_length_range hnonzero 2047 8192).mpr ⟨hlow, hhigh⟩).2
    cases hminimal : minimal modulus with
    | nil => exact Nat.zero_le _
    | cons byte rest =>
      have hzeros := leading_zeros_lt (minimal_head hminimal)
      rw [hminimal, bitLength, List.headD_cons] at hbits
      omega
  | p256 hx hxs hy hys hkey =>
    rw [hlib.raw_size _ _ _ hkey _ _ hverify]
    decide
  | ed25519 hx hkey =>
    rw [hlib.raw_size _ _ _ hkey _ _ hverify]
    decide

/-- The members of an installed set come from entries of its document. -/
theorem mem_key_set {decoder : Decoder V} {bytes : Bytes} {configured : List JwtAlgorithm}
    {keys : KeySet K} (h : parseKeySet lib decoder bytes configured = .ok keys) :
    ∃ values, decoder.keys bytes = some values ∧ ∀ admitted, admitted ∈ keys ↔
      ∃ value ∈ values, ∃ jwk, decoder.jwk value = some jwk ∧
        admitKey lib jwk configured = .ok admitted := by
  unfold parseKeySet at h
  split at h
  · cases h
  · next values hvalues =>
    have hkeys : keys =
        values.filterMap fun value => (admitEntry lib decoder configured value).toOption := by
      split at h
      · cases h
      · cases h
        rfl
    refine ⟨values, hvalues, fun admitted => ?_⟩
    rw [hkeys, List.mem_filterMap]
    refine exists_congr fun value => and_congr_right fun _ => ?_
    unfold admitEntry
    cases decoder.jwk value with
    | none => simp [Except.toOption]
    | some jwk =>
      dsimp only
      cases hadmit : admitKey lib jwk configured <;> simp [Except.toOption, hadmit]

end

end JwkAdmission
