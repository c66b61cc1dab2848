import ServiceTemplate.ByteFraming
import Mathlib.Data.Int.Basic

/-! The values the HTTP idempotency store moves: digests, scopes, callers and
success records, with the CHECK constraints of `http_idempotency_records`. -/
namespace IdempotencyRecord

open ByteFraming

abbrev Digest := Vector UInt8 32

structure ScopeKey where
  digest : Digest
  deriving DecidableEq, Repr

/-- The advisory lock key: the first eight digest bytes as a signed big-endian
integer. Distinct scopes may share it. -/
def ScopeKey.lockKey (scope : ScopeKey) : ℤ :=
  (BitVec.ofNat 64 (fromBeBytes (scope.digest.toList.take 8))).toInt

inductive CallerKind where
  | subject
  | client
  deriving DecidableEq, Repr

structure CallerIdentity where
  issuer : String
  kind : CallerKind
  value : String
  deriving DecidableEq, Repr

structure HeaderPair where
  name : String
  value : Bytes
  deriving DecidableEq, Repr

structure Record where
  fingerprint : Digest
  status : ℤ
  headers : List HeaderPair
  body : Bytes
  deriving DecidableEq, Repr

/-- The CHECK constraints a stored record must meet. Digest lengths and the two
caller kinds are enforced by the types. -/
def Record.Checked (record : Record) : Prop :=
  200 ≤ record.status ∧ record.status ≤ 299 ∧ record.body.length ≤ 1048576

instance (record : Record) : Decidable record.Checked :=
  inferInstanceAs (Decidable (_ ∧ _ ∧ _))

end IdempotencyRecord
